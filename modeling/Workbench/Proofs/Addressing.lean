import Workbench.Proofs.Owning
import Workbench.Proofs.Spelling
import Workbench.Proofs.Wording

/-!
# Paths that lead back

Tidying trims a path before it drops empty and `.` parts from it, so a blank
behind a dropped part comes to stand at an end, where the next pass trims it.
Without blanks at its ends a tidy path stays as it is, and the snapshot that
reports it finds its document.
-/

namespace Workbench

/-! ## Joined names -/

theorem sublist_of_intercalate (sep : String) {ns ms : List String} (h : ns.Sublist ms) :
    (sep.intercalate ns).toList.Sublist (sep.intercalate ms).toList := by
  induction h with
  | slnil => exact List.Sublist.refl _
  | @cons ns ms m h ih =>
    by_cases hms : ms = []
    · subst hms
      rw [List.sublist_nil.1 h]
      simp
    · obtain ⟨k, r, rfl⟩ := List.exists_cons_of_ne_nil hms
      rw [String.intercalate_cons_cons, String.toList_append]
      exact ih.trans (List.sublist_append_right _ _)
  | @cons_cons ns ms m h ih =>
    cases ns with
    | nil =>
      cases ms with
      | nil => exact List.Sublist.refl _
      | cons k ms =>
        rw [String.intercalate_cons_cons, String.intercalate_singleton, String.toList_append, String.toList_append,
          List.append_assoc]
        exact List.sublist_append_left _ _
    | cons n ns =>
      obtain ⟨k, r, rfl⟩ := List.exists_cons_of_ne_nil fun hnil : ms = [] => by simp [hnil] at h
      rw [String.intercalate_cons_cons, String.intercalate_cons_cons]
      simp only [String.toList_append]
      exact List.Sublist.append (List.Sublist.refl _) ih

theorem splitOnChar_separator {sep : Char} {t : String} (ht : t.toList = [sep]) (s : String) :
    splitOnChar sep (t ++ s) = "" :: splitOnChar sep s := by
  have hsplit := List.splitOnP_append_cons (p := (· == sep)) [] s.toList (beq_self_eq_true sep)
  rw [List.splitOnP_nil, List.nil_append] at hsplit
  rw [splitOnChar, String.toList_append, ht, List.singleton_append, hsplit]
  rfl

namespace Path

open Loading (AreNames)

/-! ## Tidy paths -/

/-- The characters of a path between the blanks at its ends, with forward slashes. -/
def slashed (raw : String) : List Char := (Text.trim raw.toList).map fun c => if c == '\\' then '/' else c

def isAbsolute (raw : String) : Bool := (slashed raw).head? == some '/'

def isName (s : String) : Bool := s ≠ "" ∧ s ≠ "."

/-- The parts of a path that tidying keeps. -/
def names (raw : String) : List String := (splitOnChar '/' (.ofList (slashed raw))).filter isName

def spell (absolute : Bool) (ns : List String) : String :=
  if absolute then "/" ++ "/".intercalate ns else "/".intercalate ns

theorem tidy_eq (raw : String) : tidy raw = spell (isAbsolute raw) (names raw) := rfl

theorem areNames_names (raw : String) : AreNames (names raw) := by
  intro n hn
  obtain ⟨hn, hname⟩ := List.mem_filter.1 hn
  simp [isName] at hname
  exact ⟨hname.1, hname.2, not_mem_of_mem_splitOnChar hn⟩

/-- Tidying only drops characters, once the backslashes are turned. -/
theorem tidy_sublist (raw : String) : (tidy raw).toList.Sublist (slashed raw) := by
  have hjoin : "/".intercalate (splitOnChar '/' (.ofList (slashed raw))) = .ofList (slashed raw) :=
    intercalate_splitOnChar rfl _
  rw [tidy_eq, spell]
  by_cases ha : isAbsolute raw
  · obtain ⟨r, hr⟩ : ∃ r, slashed raw = '/' :: r := by
      unfold isAbsolute at ha
      exact List.head?_eq_some_iff.1 (by simpa using ha)
    have hcons : String.ofList (slashed raw) = "/" ++ .ofList r := by
      apply String.toList_inj.1
      simp [hr]
    have hnames : names raw = (splitOnChar '/' (.ofList r)).filter isName := by
      rw [names, hcons, splitOnChar_separator rfl]
      rfl
    have hrest : "/".intercalate (splitOnChar '/' (.ofList r)) = .ofList r := intercalate_splitOnChar rfl _
    have hsub := sublist_of_intercalate "/" (List.filter_sublist (p := isName) (l := splitOnChar '/' (.ofList r)))
    rw [hrest, String.toList_ofList] at hsub
    rw [if_pos ha, hnames, hr, String.toList_append]
    exact List.Sublist.append (List.Sublist.refl ['/']) hsub
  · have hsub := sublist_of_intercalate "/"
      (List.filter_sublist (p := isName) (l := splitOnChar '/' (.ofList (slashed raw))))
    rw [hjoin, String.toList_ofList] at hsub
    rw [if_neg ha]
    exact hsub

theorem backslash_not_mem_tidy (raw : String) : '\\' ∉ (tidy raw).toList := by
  intro h
  obtain ⟨c, -, hc⟩ := List.mem_map.1 ((tidy_sublist raw).subset h)
  by_cases hslash : c = '\\'
  · simp [hslash] at hc
  · simp [hslash] at hc

/-- A path that loses nothing has no blank at its ends. -/
theorem tidy_of_length_le {raw : String} (h : raw.toList.length ≤ (tidy raw).toList.length) : Text.Tidy raw.toList := by
  have hlength := (tidy_sublist raw).length_le
  rw [slashed, List.length_map] at hlength
  have htrim : Text.trim raw.toList = raw.toList := by
    refine List.Sublist.eq_of_length_le ?_ (h.trans hlength)
    unfold Text.trim Text.trimEnd
    rw [Text.dropEndWhile_eq]
    exact (List.rdropWhile_prefix Text.isBlank _).sublist.trans (List.dropWhile_sublist _)
  rw [← htrim]
  exact Text.tidy_trim _

/-! ## Paths that are tidy already -/

/-- A path with no blank at its ends and no backslash. -/
def IsPlain (raw : String) : Prop := Text.Tidy raw.toList ∧ '\\' ∉ raw.toList

instance (raw : String) : Decidable (IsPlain raw) := inferInstanceAs (Decidable (_ ∧ _))

theorem IsPlain.slashed_eq {raw : String} (h : IsPlain raw) : slashed raw = raw.toList := by
  have hkeep : ∀ c ∈ raw.toList, (if c == '\\' then '/' else c) = id c := by
    intro c hc
    have hne : c ≠ '\\' := fun he => h.2 (he ▸ hc)
    simp [hne]
  rw [slashed, h.1.trim_eq, List.map_congr_left hkeep, List.map_id]

section
variable {ns : List String} (hns : AreNames ns)
include hns

theorem splitOnChar_spell (absolute : Bool) : (splitOnChar '/' (spell absolute ns)).filter isName = ns := by
  have hall : ns.filter isName = ns := by
    refine List.filter_eq_self.2 fun n hn => ?_
    simp [isName, hns n hn]
  have hjoin : (splitOnChar '/' ("/".intercalate ns)).filter isName = ns := by
    by_cases hnil : ns = []
    · subst hnil
      decide +kernel
    · rw [splitOnChar_intercalate rfl (fun n hn => (hns n hn).2.2) hnil, hall]
  cases absolute with
  | false => exact hjoin
  | true =>
    rw [spell, if_pos rfl, splitOnChar_separator rfl]
    exact hjoin

theorem head?_spell (absolute : Bool) : ((spell absolute ns).toList.head? == some '/') = absolute := by
  cases absolute with
  | true =>
    rw [spell, if_pos rfl, String.toList_append]
    rfl
  | false =>
    rw [spell, if_neg Bool.false_ne_true]
    cases ns with
    | nil => rfl
    | cons n r =>
      obtain ⟨hne, -, hslash⟩ := hns n List.mem_cons_self
      obtain ⟨c, cs, hcs⟩ := List.exists_cons_of_ne_nil fun hnil => hne (String.toList_eq_nil_iff.1 hnil)
      have hhead : ("/".intercalate (n :: r)).toList.head? = some c := by
        cases r with
        | nil => simp [hcs]
        | cons m r => simp [String.intercalate_cons_cons, hcs]
      rw [hhead]
      refine beq_eq_false_iff_ne.2 fun he => hslash ?_
      rw [hcs, Option.some.inj he]
      exact List.mem_cons_self

theorem tidy_spell {absolute : Bool} (h : IsPlain (spell absolute ns)) : tidy (spell absolute ns) = spell absolute ns := by
  have habsolute : isAbsolute (spell absolute ns) = absolute := by
    rw [isAbsolute, h.slashed_eq, head?_spell hns]
  have hnames : names (spell absolute ns) = ns := by
    rw [names, h.slashed_eq, String.ofList_toList, splitOnChar_spell hns]
  rw [tidy_eq, habsolute, hnames]

end

/-- A tidy path is left as it is by a second pass exactly when it has no blank at its ends. -/
theorem tidy_tidy_iff (raw : String) : tidy (tidy raw) = tidy raw ↔ Text.Tidy (tidy raw).toList := by
  constructor
  · intro h
    exact tidy_of_length_le (Nat.le_of_eq (by rw [h]))
  · intro h
    have hplain : IsPlain (tidy raw) := ⟨h, backslash_not_mem_tidy raw⟩
    rw [tidy_eq raw] at hplain ⊢
    exact tidy_spell (areNames_names raw) hplain

/-! ## Paths below a root -/

theorem text?_part? {s : String} : (part? s).bind Part.text? = if isName s then some s else none := by
  unfold part? isName
  by_cases hempty : s = "" ∨ s = "."
  · rw [if_pos hempty]
    rcases hempty with rfl | rfl <;> rfl
  · rw [if_neg hempty]
    rw [not_or] at hempty
    by_cases hup : s = ".."
    · subst hup
      rfl
    · simp [hup, hempty, Part.text?]

/-- The names in the parts of a path are those that tidying keeps. -/
theorem texts_parts (raw : String) : (parts raw).filterMap Part.text? = (splitOnChar '/' raw).filter isName := by
  have hnames : ((splitOnChar '/' raw).filterMap part?).filterMap Part.text? = (splitOnChar '/' raw).filter isName := by
    rw [List.filterMap_filterMap, ← List.filterMap_eq_filter]
    refine List.filterMap_congr fun s _ => ?_
    rw [text?_part?]
    rfl
  rw [parts, List.filterMap_append, hnames]
  by_cases hroot : (raw.toList.head? == some '/') = true
  · simp [hroot, Part.text?]
  · by_cases hhere : ((splitOnChar '/' raw).head? == some ".") = true
    · simp [hroot, hhere, Part.text?]
    · simp [hroot, hhere]

theorem stripPrefix?_eq_some_iff {rs ps qs : List Part} : stripPrefix? rs ps = some qs ↔ ps = rs ++ qs := by
  induction rs generalizing ps with
  | nil => simp [stripPrefix?]
  | cons a rs ih =>
    cases ps with
    | nil => simp [stripPrefix?]
    | cons b ps =>
      by_cases hab : a = b
      · subst hab
        simp [stripPrefix?, ih]
      · simp [stripPrefix?, hab, Ne.symm hab]

/-- The spelling below a root is no longer than the path, unless it is the dot for the root itself. -/
theorem sublist_of_under? {root raw rel : String} (h : under? root raw = some rel) :
    rel = "." ∨ rel.toList.Sublist raw.toList := by
  obtain ⟨qs, hqs, rfl⟩ := Option.map_eq_some_iff.1 h
  have hsub : (qs.filterMap Part.text?).Sublist (splitOnChar '/' raw) := by
    have hparts := texts_parts raw
    rw [stripPrefix?_eq_some_iff.1 hqs, List.filterMap_append] at hparts
    have hkept : (qs.filterMap Part.text?).Sublist ((splitOnChar '/' raw).filter isName) :=
      hparts ▸ List.sublist_append_right _ _
    exact hkept.trans List.filter_sublist
  have hjoin : "/".intercalate (splitOnChar '/' raw) = raw := intercalate_splitOnChar rfl raw
  rw [relative]
  split
  · exact .inl rfl
  · right
    have := sublist_of_intercalate "/" hsub
    rwa [hjoin] at this

end Path

/-! ## Snapshots -/

namespace Snapshot

/-- What comes of calls that give the root, add a project or add a document. -/
inductive Built : Snapshot → Prop where
  | empty : Built empty
  | root {s : Snapshot} (root : String) : Built s → Built { s with root := some root }
  | project {s : Snapshot} (name dir : String) (file : Option String) : Built s → Built (s.addProject name dir file)
  | document {s : Snapshot} (project path text : String) (file : Option String) :
    Built s → Built (s.addDocument project path text file)

/-- No document has the path of `d` once it is tidy again, nor what that path is below the root, and `d` is the first whose
file has its path. -/
structure ByFile (s : Snapshot) (d : Document) : Prop where
  elsewhere : s.document? (Path.tidy d.path) = none
  below : (s.belowRoot? (Path.tidy d.path)).bind s.document? = none
  first : s.documents.find? (fun e => e.file.any fun f => Path.parts f == Path.parts d.path) = some d

variable {s : Snapshot} {d : Document}

theorem Built.tidied (h : s.Built) : ∀ d ∈ s.documents, ∃ raw, d.path = Path.tidy raw := by
  induction h with
  | empty => exact fun d hd => nomatch hd
  | root r _ ih => exact ih
  | project name dir file _ ih => exact ih
  | document project path text file _ ih =>
    intro d hd
    rcases Ordered.mem_put hd with rfl | hd
    · exact ⟨path, rfl⟩
    · exact ih d hd

theorem findDocument_of_tidy (hd : d ∈ s.documents) (h : Path.tidy d.path = d.path) : s.findDocument d.path = some d := by
  have hfind : s.document? d.path = some d := Ordered.find?_of_mem s.documents_ascending hd
  simp [findDocument, h, hfind]

/-- A document that is not tidy is found by neither spelling of its path, since both are shorter. -/
theorem findDocument_of_not_tidy (h : ¬Text.Tidy d.path.toList) : s.findDocument d.path = some d ↔ s.ByFile d := by
  have hshort : (Path.tidy d.path).toList.length < d.path.toList.length :=
    Nat.lt_of_not_le fun hle => h (Path.tidy_of_length_le hle)
  have htidy : s.document? (Path.tidy d.path) ≠ some d := by
    intro hfind
    have hpath := (document?_path hfind).2
    rw [← hpath] at hshort
    exact Nat.lt_irrefl _ hshort
  have hbelow : (s.belowRoot? (Path.tidy d.path)).bind s.document? ≠ some d := by
    intro hfind
    obtain ⟨rel, hrel, hfind⟩ := Option.bind_eq_some_iff.1 hfind
    obtain ⟨root, -, hunder⟩ := Option.bind_eq_some_iff.1 hrel
    have hpath := (document?_path hfind).2
    rcases Path.sublist_of_under? hunder with hdot | hsub
    · rw [hpath, hdot] at h
      exact h (by decide)
    · have hlength := hsub.length_le
      rw [← hpath] at hlength
      omega
  constructor
  · intro hfind
    unfold findDocument at hfind
    dsimp only at hfind
    cases htidy' : s.document? (Path.tidy d.path) with
    | some e =>
      rw [htidy'] at hfind htidy
      exact absurd hfind htidy
    | none =>
      cases hbelow' : (s.belowRoot? (Path.tidy d.path)).bind s.document? with
      | some e =>
        simp [htidy', hbelow'] at hfind
        rw [hbelow', hfind] at hbelow
        exact absurd rfl hbelow
      | none =>
        simp only [htidy', hbelow', Option.none_or] at hfind
        exact ⟨htidy', hbelow', hfind⟩
  · intro hfile
    simp only [findDocument, hfile.elsewhere, hfile.below, Option.none_or, hfile.first]

/-- Tidying a second time changes nothing exactly where the tidy path has no blank at its ends, and that is where a snapshot
finds a document by the path that it reports, but for documents that are found by their files. -/
theorem document_found_iff (raw : String) (s : Snapshot) :
    (Path.tidy (Path.tidy raw) = Path.tidy raw ↔ Text.Tidy (Path.tidy raw).toList) ∧
      (s.Built → ∀ d ∈ s.documents, (s.findDocument d.path = some d ↔ Text.Tidy d.path.toList ∨ s.ByFile d)) := by
  refine ⟨Path.tidy_tidy_iff raw, ?_⟩
  intro hs d hd
  obtain ⟨given, hgiven⟩ := hs.tidied d hd
  by_cases htidy : Text.Tidy d.path.toList
  · have hpath : Path.tidy d.path = d.path := by
      rw [hgiven] at htidy ⊢
      exact (Path.tidy_tidy_iff given).2 htidy
    simp [findDocument_of_tidy hd hpath, htidy]
  · rw [findDocument_of_not_tidy htidy]
    simp [htidy]

/-- A document that is added by a path with a leading dot and a backslash. -/
def turnedPath : Snapshot := empty.addDocument "App" ".\\src\\A.cs" "class A { }" none

theorem turnedPath_found : (turnedPath.Built ∧ turnedPath.documents.map (·.path) = ["src/A.cs"]) ∧
    Path.tidy (Path.tidy ".\\src\\A.cs") = Path.tidy ".\\src\\A.cs" ∧
    ∀ d ∈ turnedPath.documents, turnedPath.findDocument d.path = some d := by
  have hbuilt : turnedPath.Built := .document _ _ _ _ .empty
  have htidy : ∀ d ∈ turnedPath.documents, Text.Tidy d.path.toList := by decide +kernel
  obtain ⟨hagain, hfound⟩ := document_found_iff ".\\src\\A.cs" turnedPath
  refine ⟨⟨hbuilt, by decide +kernel⟩, hagain.2 (by decide +kernel), ?_⟩
  intro d hd
  exact (hfound hbuilt d hd).2 (.inl (htidy d hd))

/-- Two documents, of which one is added by a path with a blank behind a leading dot. -/
def blankBehindDot : Snapshot :=
  (empty.addDocument "App" "./ a.cs" "class A { }" none).addDocument "App" "a.cs" "class B { }" none

/-- The path of the first leads to the second. -/
theorem blankBehindDot_mistaken : Path.tidy (Path.tidy "./ a.cs") ≠ Path.tidy "./ a.cs" ∧ blankBehindDot.Built ∧
    ∃ d ∈ blankBehindDot.documents, ∃ e, blankBehindDot.findDocument d.path = some e ∧ e ≠ d := by
  refine ⟨by decide +kernel, .document _ _ _ _ (.document _ _ _ _ .empty), ?_⟩
  refine ⟨⟨" a.cs", "App", "class A { }", none⟩, by decide +kernel, ⟨"a.cs", "App", "class B { }", none⟩, ?_, ?_⟩
  · decide +kernel
  · decide

end Snapshot

end Workbench
