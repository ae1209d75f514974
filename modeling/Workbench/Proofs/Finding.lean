import Workbench.Proofs.Addressing

/-!
# Projects that are found

A project is looked for by its name first, then by its file, its directory or
its name in another case, whichever fits a project first in the order of names.
So a path leads to its project unless the name of another one is spelled like
the path. A path from the top of the disk has slashes and is never a name.
-/

namespace Workbench

namespace Snapshot

/-! ## Looking for a project -/

/-- What the files and directories of projects are compared with. -/
def target (s : Snapshot) (raw : String) : String := (s.belowRoot? (Path.tidy raw)).getD (Path.tidy raw)

/-- The name of a project that is not wanted is spelled like what is asked for: exactly so, or but for the case of letters
if no name is spelled exactly so and it comes before those that are wanted. -/
def Shadowed (s : Snapshot) (raw : String) (wanted : Project → Prop) : Prop :=
  ∃ q ∈ s.projects, ¬wanted q ∧ (q.name = raw ∨ (∀ p ∈ s.projects, p.name ≠ raw) ∧
    lowerAscii q.name = lowerAscii raw ∧ ∀ p ∈ s.projects, wanted p → q.name < p.name)

section
variable {s : Snapshot} {raw : String} {p q : Project} {wanted : Project → Prop}

theorem findProject_name (hp : p ∈ s.projects) : s.findProject p.name = some p := by
  have hfind : s.project? p.name = some p := Ordered.find?_of_mem s.projects_ascending hp
  simp [findProject, hfind]

/-- Something is found whenever something wanted is there, and it is wanted unless it is shadowed. -/
theorem findProject_spec (hwanted : ∀ p ∈ s.projects, wanted p ↔ p.projectFile = some (s.target raw) ∨ p.dir = s.target raw)
    (hex : ∃ p ∈ s.projects, wanted p) :
    ∃ q, s.findProject raw = some q ∧ (wanted q ↔ ¬s.Shadowed raw wanted) := by
  let fits (p : Project) : Bool :=
    p.projectFile == some (s.target raw) || p.dir == s.target raw || lowerAscii p.name == lowerAscii raw
  have hfits : ∀ p ∈ s.projects, fits p = true ↔ wanted p ∨ lowerAscii p.name = lowerAscii raw := by
    intro p hp
    simp [fits, hwanted p hp, or_assoc]
  have hfind : s.findProject raw = (s.project? raw).or (s.projects.find? fits) := rfl
  cases hexact : s.project? raw with
  | some q =>
    obtain ⟨hq, hname⟩ := Ordered.find?_eq_some hexact
    refine ⟨q, by rw [hfind, hexact, Option.some_or], ?_⟩
    constructor
    · rintro hgood ⟨q', hq', hbad, hname' | ⟨hnone, -⟩⟩
      · have hsame := Ordered.find?_of_mem s.projects_ascending hq'
        rw [hname'] at hsame
        cases hexact.symm.trans hsame
        exact hbad hgood
      · exact hnone q hq hname
    · intro hclear
      apply Classical.byContradiction
      intro hbad
      exact hclear ⟨q, hq, hbad, .inl hname⟩
  | none =>
    have hnone : ∀ p ∈ s.projects, p.name ≠ raw := by
      intro p hp hname
      exact Ordered.find?_eq_none_iff.1 hexact (List.mem_map.2 ⟨p, hp, hname⟩)
    obtain ⟨p, hp, hgood⟩ := hex
    obtain ⟨q, hq⟩ := Option.isSome_iff_exists.1 (List.find?_isSome.2 ⟨p, hp, (hfits p hp).2 (.inl hgood)⟩)
    have hmem := List.mem_of_find?_eq_some hq
    have hfirst := eq_or_rel_of_find? s.projects_ascending hq
    refine ⟨q, by rw [hfind, hexact, Option.none_or, hq], ?_⟩
    constructor
    · rintro hgood ⟨q', hq', hbad, hname' | ⟨-, hlike, hbefore⟩⟩
      · exact hnone q' hq' hname'
      · rcases hfirst q' hq' ((hfits q' hq').2 (.inr hlike)) with rfl | hlt
        · exact hbad hgood
        · exact String.lt_asymm hlt (hbefore q hmem hgood)
    · intro hclear
      apply Classical.byContradiction
      intro hbad
      have hlike := ((hfits q hmem).1 (List.find?_some hq)).resolve_left hbad
      refine hclear ⟨q, hmem, hbad, .inr ⟨hnone, hlike, ?_⟩⟩
      intro p hp hgood
      rcases hfirst p hp ((hfits p hp).2 (.inl hgood)) with rfl | hlt
      · exact absurd hgood hbad
      · exact hlt

theorem toLower_eq_slash {c : Char} (h : c.toLower = '/') : c = '/' := by
  unfold Char.toLower at h
  split at h
  · rename_i hupper
    have hval := congrArg (fun d : Char => d.val.toNat) h
    have hle : 65 ≤ c.val.toNat ∧ c.val.toNat ≤ 90 := hupper
    have hshift : ('a'.val - 'A'.val).toNat = 32 := by decide
    have hslash : ('/' : Char).val.toNat = 47 := by decide
    simp only [UInt32.toNat_add, hshift, hslash] at hval
    omega
  · exact h

/-- A path with a slash is spelled like no name without one. -/
theorem not_shadowed (hraw : '/' ∈ raw.toList) (hnames : ∀ p ∈ s.projects, '/' ∉ p.name.toList) : ¬s.Shadowed raw wanted := by
  rintro ⟨q, hq, -, hname | ⟨-, hlike, -⟩⟩
  · exact hnames q hq (hname ▸ hraw)
  · have hmem : '/' ∈ q.name.toList.map Char.toLower := by
      have hchars := String.ofList_inj.1 hlike
      rw [hchars]
      exact List.mem_map.2 ⟨'/', hraw, by decide⟩
    obtain ⟨c, hc, hlower⟩ := List.mem_map.1 hmem
    exact hnames q hq (toLower_eq_slash hlower ▸ hc)

end

/-! ## Rows of the table of projects -/

/-- What is said of names, files and directories holds of every project. -/
def Rows (s : Snapshot) (Q : String → Option String → String → Prop) : Prop :=
  ∀ p ∈ s.projects, Q p.name p.projectFile p.dir

section
variable {s : Snapshot} {Q : String → Option String → String → Prop} {name dir path text k : String} {file : Option String}

theorem Rows.addProject (h : s.Rows Q) (hrow : Q name file dir) : (s.addProject name dir file).Rows Q := by
  intro p hp
  rcases Ordered.mem_put hp with rfl | hp
  · exact hrow
  · exact h p hp

/-- A document of a project that is there adds no row. -/
theorem Rows.addDocument (h : s.Rows Q) (hname : (s.project? name).isSome) : (s.addDocument name path text file).Rows Q := by
  intro p hp
  rcases Ordered.mem_put hp with rfl | hp
  · obtain ⟨owner, howner⟩ := Option.isSome_iff_exists.1 hname
    unfold project? at howner
    rw [howner]
    exact h owner (Ordered.find?_eq_some howner).1
  · exact h p hp

theorem isSome_addProject : ((s.addProject name dir file).project? k).isSome ↔ name = k ∨ (s.project? k).isSome := by
  rw [project?_addProject]
  by_cases hk : name = k <;> simp [hk]

theorem isSome_addDocument (h : (s.project? k).isSome) : ((s.addDocument name path text file).project? k).isSome := by
  rw [project?_addDocument rfl]
  split
  · rfl
  · exact h

end

end Snapshot

namespace Loading

/-! ## Projects of a walk -/

/-- A project of a walk has a name without slashes. It belongs to a project file, or to the root. -/
def IsRow (files : List WalkedFile) (name : String) (file : Option String) (dir : String) : Prop :=
  '/' ∉ name.toList ∧ ((∃ f ∈ files, f.names ≠ [] ∧ file = some (relative f.names) ∧ dir = relative f.names.dropLast) ∨
    file = none ∧ dir = ".")

section
variable {root : Disk.Place} {files : List WalkedFile} {s : Snapshot} {k : String}
  {Q : String → Option String → String → Prop}

theorem isSome_addProjects {ps : List NamedProject} (h : (s.project? k).isSome ∨ ∃ n ∈ ps, n.name = k) :
    ((addProjects s ps).project? k).isSome := by
  induction ps generalizing s with
  | nil =>
    rcases h with h | ⟨n, hn, -⟩
    · exact h
    · cases hn
  | cons p ps ih =>
    apply ih
    rw [Snapshot.isSome_addProject]
    rcases h with h | ⟨n, hn, hname⟩
    · exact .inl (.inr h)
    · rcases List.mem_cons.1 hn with rfl | hn
      · exact .inl (.inl hname)
      · exact .inr ⟨n, hn, hname⟩

theorem rows_addProjects {ps : List NamedProject} (h : s.Rows Q) (hps : ∀ n ∈ ps, Q n.name (some n.file.path) n.file.dir) :
    (addProjects s ps).Rows Q := by
  induction ps generalizing s with
  | nil => exact h
  | cons p ps ih =>
    exact ih (h.addProject (hps p List.mem_cons_self)) fun n hn => hps n (List.mem_cons_of_mem p hn)

/-- Every row is of one kind, and the projects that documents go to are there: those that are named, and that of the root once
it is opened. -/
structure Laid (Q : String → Option String → String → Prop) (rootName : String) (ps : List NamedProject) (opened : Bool)
    (s : Snapshot) : Prop where
  rows : s.Rows Q
  root : opened = true → (s.project? rootName).isSome
  named : ∀ n ∈ ps, (s.project? n.name).isSome

section
variable {rootName name path text : String} {file : Option String} {ps : List NamedProject} {opened : Bool}

theorem Laid.addDocument (h : Laid Q rootName ps opened s) (hname : (s.project? name).isSome) :
    Laid Q rootName ps opened (s.addDocument name path text file) where
  rows := h.rows.addDocument hname
  root hopened := Snapshot.isSome_addDocument (h.root hopened)
  named n hn := Snapshot.isSome_addDocument (h.named n hn)

theorem Laid.addRoot (h : Laid Q rootName ps opened s) (hroot : Q rootName none ".") :
    Laid Q rootName ps true (s.addProject rootName "." none) where
  rows := h.rows.addProject hroot
  root _ := Snapshot.isSome_addProject.2 (.inl rfl)
  named n hn := Snapshot.isSome_addProject.2 (.inr (h.named n hn))

theorem Laid.addSources (h : Laid Q rootName ps opened s) (hroot : Q rootName none ".") (sources : List SourceText) :
    ∃ opened', Laid Q rootName ps opened' (addSources rootName ps opened s sources) := by
  apply addSources_keeps
  case owned =>
    intro _ s f _ n hn h
    exact h.addDocument (h.named n hn)
  case opened =>
    intro s _ h
    exact h.addRoot hroot
  case loose =>
    intro s f _ _ h
    exact h.addDocument (h.root rfl)
  case h => exact h

end

theorem root_addProjects {ps : List NamedProject} : (addProjects s ps).root = s.root := by
  induction ps generalizing s with
  | nil => rfl
  | cons p ps ih => exact ih

theorem root_addSources {rootName : String} {ps : List NamedProject} {opened : Bool} {sources : List SourceText} :
    (addSources rootName ps opened s sources).root = s.root := by
  have hrun : ∃ _ : Bool, (addSources rootName ps opened s sources).root = s.root :=
    addSources_keeps (P := fun _ s' => s'.root = s.root) (fun _ _ _ _ _ _ h => h) (fun _ _ h => h) (fun _ _ _ _ h => h) rfl
  obtain ⟨-, hroot⟩ := hrun
  exact hroot

/-! ## Names of projects -/

theorem slash_not_mem_stem {name : String} (h : '/' ∉ name.toList) : '/' ∉ (splitName name).1.toList := by
  unfold splitName
  dsimp only
  split
  · exact h
  · rw [String.toList_ofList]
    exact fun hmem => h (List.mem_of_mem_take hmem)

theorem slash_not_mem_named {before : List String} {ps : List ProjectFile} (h : ∀ f ∈ ps, '/' ∉ f.name.toList) :
    ∀ n ∈ nameProjects before ps, n.file ∈ ps ∧ '/' ∉ n.name.toList := by
  induction ps generalizing before with
  | nil => exact fun n hn => nomatch hn
  | cons f ps ih =>
    obtain ⟨hf, hps⟩ := List.forall_mem_cons.1 h
    intro n hn
    rw [nameProjects] at hn
    rcases List.mem_cons.1 hn with rfl | hn
    · refine ⟨List.mem_cons_self, ?_⟩
      dsimp only
      split
      · exact hf
      · simp only [String.toList_append, List.mem_append, not_or]
        refine ⟨⟨hf, by decide⟩, fun hmem => ?_⟩
        have hdigit := Numeral.isDigit_of_mem_render (n := before.count f.name + 1) (c := '/')
          (by simpa [Numeral.render, Nat.repr] using hmem)
        cases hdigit
    · obtain ⟨hmem, hname⟩ := ih hps n hn
      exact ⟨List.mem_cons_of_mem f hmem, hname⟩

theorem slash_not_mem_rootName (hroot : AreNames root) : '/' ∉ (rootName root).toList := by
  unfold rootName
  cases hlast : root.getLast? with
  | none => decide
  | some n => exact (hroot n (List.mem_of_getLast? hlast)).2.2

theorem slash_not_mem_fileName (hroot : AreNames root) {f : WalkedFile} (hf : AreNames f.names) :
    '/' ∉ (fileName root f.names).toList := by
  unfold fileName
  cases hlast : f.names.getLast? with
  | some n => exact (hf n (List.mem_of_getLast? hlast)).2.2
  | none =>
    cases hlast' : root.getLast? with
    | some n => exact (hroot n (List.mem_of_getLast? hlast')).2.2
    | none => decide

/-! ## Rows of a loaded snapshot -/

theorem projectFiles_of_ok {fs : List WalkedFile} {ps : List ProjectFile} (h : fs.mapM (projectFile root) = .ok ps) :
    ps = fs.map (projectFileOf root) ∧ ∀ f ∈ fs, f.names ≠ [] := by
  induction fs generalizing ps with
  | nil =>
    cases h
    exact ⟨rfl, fun f hf => nomatch hf⟩
  | cons f fs ih =>
    rw [List.mapM_cons, projectFile] at h
    by_cases hf : f.names = []
    · rw [hf] at h
      cases h
    · rw [if_neg (by simpa using hf)] at h
      cases hrest : fs.mapM (projectFile root) with
      | error why =>
        rw [hrest] at h
        cases h
      | ok qs =>
        rw [hrest] at h
        cases h
        obtain ⟨rfl, hbelow⟩ := ih hrest
        exact ⟨rfl, List.forall_mem_cons.2 ⟨hf, hbelow⟩⟩

theorem rows_of_ok (hroot : AreNames root) (hfiles : ∀ f ∈ files, AreNames f.names) (h : ofWalk root files = .ok s) :
    s.root = some root.render ∧ s.Rows (IsRow files) := by
  unfold ofWalk at h
  cases hps : (files.filter fun f => (extensionOf root f).any isProject).mapM (projectFile root) with
  | error why =>
    rw [hps] at h
    cases h
  | ok ps =>
    rw [hps] at h
    cases h
    obtain ⟨rfl, hbelow⟩ := projectFiles_of_ok hps
    refine ⟨?_, ?_⟩
    · rw [snapshotOf, root_addSources, root_addProjects]
    · have hslash : ∀ p ∈ (projectFiles root files).mergeSort deeper, '/' ∉ p.name.toList := by
        intro p hp
        obtain ⟨f, hf, rfl⟩ := List.mem_map.1 (List.mem_mergeSort.1 hp)
        exact slash_not_mem_stem (slash_not_mem_fileName hroot (hfiles f (List.mem_filter.1 hf).1))
      have hrow : ∀ n ∈ named root files, IsRow files n.name (some n.file.path) n.file.dir := by
        intro n hn
        obtain ⟨hfile, hname⟩ := slash_not_mem_named hslash n hn
        obtain ⟨f, hf, hfile⟩ := List.mem_map.1 (List.mem_mergeSort.1 hfile)
        rw [← hfile]
        exact ⟨hname, .inl ⟨f, (List.mem_filter.1 hf).1, hbelow f hf, rfl, rfl⟩⟩
      have hstart : Laid (IsRow files) (rootName root) (named root files) false
          (addProjects { root := some root.render } (named root files)) := by
        refine ⟨rows_addProjects ?_ hrow, ?_, ?_⟩
        · intro p hp
          cases hp
        · intro hopened
          cases hopened
        · intro n hn
          exact isSome_addProjects (.inr ⟨n, hn, rfl⟩)
      obtain ⟨_, hdone⟩ := hstart.addSources ⟨slash_not_mem_rootName hroot, .inr ⟨rfl, rfl⟩⟩ (sorted root files)
      exact hdone.rows

end

/-! ## Spellings that are asked for -/

theorem relative_inj {d e : List String} (hd : AreNames d) (he : AreNames e) (h : relative d = relative e) : d = e := by
  have hroot : ∀ {e : List String}, AreNames e → relative e = "." → e = [] := by
    intro e he hdot
    apply Classical.byContradiction
    intro hne
    have hsplit := splitOnChar_relative he hne
    rw [hdot] at hsplit
    exact (he "." (hsplit ▸ by decide)).2.1 rfl
  by_cases hdn : d = []
  · subst hdn
    exact (hroot he h.symm).symm
  · by_cases hen : e = []
    · subst hen
      exact hroot hd h
    · rw [← splitOnChar_relative hd hdn, h, splitOnChar_relative he hen]

theorem parts_spell {ns : List String} (hns : AreNames ns) (absolute : Bool) :
    Path.parts (Path.spell absolute ns) = (if absolute then [.root] else []) ++ ns.filterMap Path.part? := by
  have hkept : ∀ xs : List String, xs.filterMap Path.part? = (xs.filter Path.isName).filterMap Path.part? := by
    intro xs
    rw [List.filterMap_filter]
    refine List.filterMap_congr fun x _ => ?_
    by_cases hx : x = "" ∨ x = "."
    · rcases hx with rfl | rfl <;> rfl
    · rw [not_or] at hx
      simp [Path.isName, hx]
  rw [Path.parts, Path.head?_spell hns, hkept, Path.splitOnChar_spell hns]
  cases absolute with
  | true => rfl
  | false =>
    have hhere : ((splitOnChar '/' (Path.spell false ns)).head? == some ".") = false := by
      rw [Path.spell, if_neg Bool.false_ne_true]
      by_cases hnil : ns = []
      · subst hnil
        decide +kernel
      · rw [splitOnChar_intercalate rfl (fun n hn => (hns n hn).2.2) hnil]
        refine beq_eq_false_iff_ne.2 fun hdot => ?_
        exact (hns "." (List.mem_of_head? hdot)).2.1 rfl
    simp only [Bool.false_eq_true, if_false, hhere]

theorem root_not_mem_parts (ns : List String) : Path.Part.root ∉ ns.filterMap Path.part? := by
  intro h
  obtain ⟨n, -, hn⟩ := List.mem_filterMap.1 h
  unfold Path.part? at hn
  split at hn
  · cases hn
  · split at hn <;> cases hn

theorem texts_part? {ns : List String} (hns : AreNames ns) : (ns.filterMap Path.part?).filterMap Path.Part.text? = ns := by
  rw [List.filterMap_filterMap]
  have hall : ∀ n ∈ ns, (Path.part? n).bind Path.Part.text? = some n := by
    intro n hn
    rw [Path.text?_part?, if_pos (by simp [Path.isName, hns n hn])]
  rw [List.filterMap_congr hall, List.filterMap_some]

/-- The spelling of a directory or file below the root, as names between slashes. -/
theorem exists_spelling {ns : List String} (hns : AreNames ns) : ∃ ys, ys ≠ [] ∧ relative ns = "/".intercalate ys ∧
    (∀ y ∈ ys, '/' ∉ y.toList) ∧ ys.filter Path.isName = ns := by
  by_cases hnil : ns = []
  · subst hnil
    exact ⟨["."], by decide, rfl, by decide, by decide⟩
  · refine ⟨ns, hnil, relative_of_ne_nil hnil, fun n hn => (hns n hn).2.2, List.filter_eq_self.2 fun n hn => ?_⟩
    simp [Path.isName, hns n hn]

theorem join_render {root : Disk.Place} (hroot : AreNames root) {ys : List String} (hys : ys ≠ [])
    (hne : "/".intercalate ys ≠ "") :
    Path.join root.render ("/".intercalate ys) = Path.spell true (root ++ ys) := by
  rw [Path.join, if_neg hne, Path.spell, if_pos rfl, Disk.Place.render]
  by_cases hnil : root = []
  · subst hnil
    rw [if_pos (by decide)]
    rfl
  · have hlast : (("/" ++ "/".intercalate root).toList.getLast? == some '/') = false := by
      obtain ⟨init, last, rfl⟩ : ∃ init last, root = init ++ [last] := ⟨_, _, (List.dropLast_concat_getLast hnil).symm⟩
      have hname := hroot last (by simp)
      have hend : ∃ front, ("/" ++ "/".intercalate (init ++ [last])).toList = front ++ last.toList := by
        by_cases hinit : init = []
        · subst hinit
          exact ⟨['/'], by simp⟩
        · rw [String.intercalate_append_of_ne_nil hinit (by simp)]
          exact ⟨('/' :: ("/".intercalate init).toList) ++ ['/'], by simp⟩
      obtain ⟨front, hfront⟩ := hend
      have hchars : last.toList ≠ [] := fun hnil => hname.1 (String.toList_eq_nil_iff.1 hnil)
      rw [hfront, List.getLast?_append_of_ne_nil _ hchars]
      refine beq_eq_false_iff_ne.2 fun hslash => hname.2.2 (List.mem_of_getLast? hslash)
    rw [if_neg (by rw [hlast]; exact Bool.false_ne_true), String.intercalate_append_of_ne_nil hnil hys]
    simp only [String.append_assoc]

section
variable {root : Disk.Place} {s : Snapshot} {ns : List String} (hs : s.root = some root.render) (hroot : AreNames root)
  (hns : AreNames ns)
include hs hroot hns

/-- A plain spelling below the root is looked for as it is. -/
theorem target_of_relative (hne : ns ≠ []) (hplain : Path.IsPlain (relative ns)) : s.target (relative ns) = relative ns := by
  have hspell : relative ns = Path.spell false ns := relative_of_ne_nil hne
  have htidy : Path.tidy (relative ns) = relative ns := by
    rw [hspell] at hplain ⊢
    exact Path.tidy_spell hns hplain
  have hbelow : s.belowRoot? (relative ns) = none := by
    rw [Snapshot.belowRoot?, hs, Option.bind_some, Path.under?, Option.map_eq_none_iff]
    cases hstrip : Path.stripPrefix? (Path.parts root.render) (Path.parts (relative ns)) with
    | none => rfl
    | some qs =>
      have hparts := Path.stripPrefix?_eq_some_iff.1 hstrip
      rw [hspell, parts_spell hns, show root.render = Path.spell true root from rfl, parts_spell hroot] at hparts
      have hmem : Path.Part.root ∈ ns.filterMap Path.part? := by
        simp only [Bool.false_eq_true, if_false, List.nil_append] at hparts
        rw [hparts]
        simp
      exact absurd hmem (root_not_mem_parts ns)
  rw [Snapshot.target, htidy, hbelow, Option.getD_none]

/-- A plain spelling from the top of the disk leads below the root. -/
theorem target_of_join (hplain : Path.IsPlain (Path.join root.render (relative ns))) :
    s.target (Path.join root.render (relative ns)) = relative ns := by
  have hall : AreNames (root ++ ns) := fun n hn => (List.mem_append.1 hn).elim (hroot n) (hns n)
  obtain ⟨ys, hys, hrel, hslash, hkept⟩ := exists_spelling hns
  have hjoin := join_render hroot hys (hrel ▸ relative_ne_empty hns)
  rw [← hrel] at hjoin
  rw [hjoin] at hplain ⊢
  have habsolute : Path.isAbsolute (Path.spell true (root ++ ys)) = true := by
    rw [Path.isAbsolute, hplain.slashed_eq, Path.spell, if_pos rfl, String.toList_append]
    rfl
  have hnames : Path.names (Path.spell true (root ++ ys)) = root ++ ns := by
    have hrootKept : root.filter Path.isName = root :=
      List.filter_eq_self.2 fun n hn => by simp [Path.isName, hroot n hn]
    have hsplit : splitOnChar '/' ("/".intercalate (root ++ ys)) = root ++ ys := by
      refine splitOnChar_intercalate rfl (fun n hn => ?_) (List.append_ne_nil_of_right_ne_nil root hys)
      exact (List.mem_append.1 hn).elim (fun hn => (hroot n hn).2.2) (hslash n)
    rw [Path.names, hplain.slashed_eq, String.ofList_toList, Path.spell, if_pos rfl, splitOnChar_separator rfl, hsplit,
      List.filter_cons_of_neg (by decide), List.filter_append, hrootKept, hkept]
  have hbelow : s.belowRoot? (Path.spell true (root ++ ns)) = some (relative ns) := by
    have hstrip : Path.stripPrefix? (Path.parts root.render) (Path.parts (Path.spell true (root ++ ns))) =
        some (ns.filterMap Path.part?) := by
      rw [Path.stripPrefix?_eq_some_iff, show root.render = Path.spell true root from rfl, parts_spell hroot,
        parts_spell hall, List.filterMap_append, List.append_assoc]
    rw [Snapshot.belowRoot?, hs, Option.bind_some, Path.under?, hstrip, Option.map_some, Path.relative, texts_part? hns]
    cases ns <;> rfl
  rw [Snapshot.target, Path.tidy_eq, habsolute, hnames, hbelow, Option.getD_some]

end

/-! ## Disks -/

end Loading

/-- Everything on a disk has a name between slashes, and nothing lies in a file. -/
structure Disk.Sound (d : Disk) : Prop where
  names : ∀ e ∈ d.nodes, Loading.AreNames e.1
  leaves : ∀ p content, (p, Disk.Node.file content) ∈ d.nodes → ∀ e ∈ d.nodes, p <+: e.1 → e.1 = p

namespace Loading

section
variable {d : Disk} {root : Disk.Place}

theorem areNames_of_foldlM {ps : List String} (hps : ∀ p ∈ ps, '/' ∉ p.toList) {here : Disk.Place} (hhere : AreNames here)
    (h : ps.foldlM d.step here = .ok root) : AreNames root := by
  induction ps generalizing here with
  | nil =>
    cases h
    exact hhere
  | cons p ps ih =>
    obtain ⟨hp, hps⟩ := List.forall_mem_cons.1 hps
    rw [List.foldlM_cons] at h
    cases hstep : d.step here p with
    | error why =>
      rw [hstep] at h
      cases h
    | ok next =>
      rw [hstep] at h
      refine ih hps ?_ h
      unfold Disk.step at hstep
      split at hstep
      · cases hstep
      · cases hstep
      · split at hstep
        · cases hstep
          exact hhere
        · rename_i hname
          split at hstep
          · cases hstep
            exact hhere.above (List.dropLast_prefix _)
          · split at hstep
            · cases hstep
              rw [not_or] at hname
              intro n hn
              rcases List.mem_append.1 hn with hn | hn
              · exact hhere n hn
              · rw [List.mem_singleton.1 hn]
                exact ⟨hname.1, hname.2, hp⟩
            · cases hstep

theorem areNames_of_follow {path : String} (h : d.follow path = .ok root) : AreNames root :=
  areNames_of_foldlM (fun _ hp => not_mem_of_mem_splitOnChar hp) (fun _ hn => by cases hn) h

theorem mem_walk {useIgnore : Bool} {f : WalkedFile} (h : f ∈ d.walk useIgnore root) :
    ∃ content, (root ++ f.names, Disk.Node.file content) ∈ d.nodes := by
  obtain ⟨⟨p, n⟩, hmem, hf⟩ := List.mem_filterMap.1 h
  cases n with
  | directory => cases hf
  | file content =>
    dsimp only at hf
    split at hf
    · rename_i hreached
      obtain ⟨rest, rfl⟩ := List.isPrefixOf_iff_prefix.1 (Bool.and_eq_true_iff.1 hreached).1
      cases hf
      rw [List.drop_left]
      exact ⟨content, hmem⟩
    · cases hf

theorem load_eq_ok {useIgnore : Bool} {path : String} {s : Snapshot} (h : load d useIgnore path = .ok (root, s)) :
    d.follow path = .ok root ∧ ofWalk root (d.walk useIgnore root) = .ok s := by
  unfold load at h
  split at h
  · cases h
  · rename_i place hfollow
    split at h
    · cases h
    · rename_i loaded hwalk
      cases h
      exact ⟨hfollow, hwalk⟩

end

/-! ## Loaded snapshots -/

section
variable {root : Disk.Place} {files : List WalkedFile} {s : Snapshot}

/-- What a walk finds are files, and none of them lies in another one. -/
structure Apart (files : List WalkedFile) : Prop where
  names : ∀ f ∈ files, AreNames f.names
  leaves : ∀ f ∈ files, ∀ g ∈ files, f.names <+: g.names → g.names = f.names

theorem apart_walk {d : Disk} (hd : d.Sound) (useIgnore : Bool) (root : Disk.Place) : Apart (d.walk useIgnore root) where
  names f hf n hn := by
    obtain ⟨content, hmem⟩ := mem_walk hf
    exact hd.names _ hmem n (List.mem_append_right root hn)
  leaves f hf g hg hfg := by
    obtain ⟨content, hf⟩ := mem_walk hf
    obtain ⟨content', hg⟩ := mem_walk hg
    have hsame := hd.leaves _ content hf _ hg ((List.prefix_append_right_inj root).2 hfg)
    exact List.append_cancel_left hsame

/-- No project file is spelled like the directory of one. -/
theorem Apart.dir_ne (ha : Apart files) {f g : WalkedFile} (hf : f ∈ files) (hg : g ∈ files) (hne : g.names ≠ []) :
    relative g.names.dropLast ≠ relative f.names := by
  intro h
  have hprefix := List.dropLast_prefix g.names
  have hdir := relative_inj ((ha.names g hg).above hprefix) (ha.names f hf) h
  have hsame := ha.leaves f hf g hg (hdir ▸ hprefix)
  have hlength := congrArg List.length hdir
  rw [List.length_dropLast, ← hsame] at hlength
  have := List.length_pos_of_ne_nil hne
  omega

/-- What is known of a snapshot that comes of a walk. -/
structure Loaded (root : Disk.Place) (files : List WalkedFile) (s : Snapshot) : Prop where
  place : AreNames root
  apart : Apart files
  root : s.root = some root.render
  rows : s.Rows (IsRow files)

theorem loaded_of_ok {d : Disk} (hd : d.Sound) {useIgnore : Bool} {path : String}
    (h : load d useIgnore path = .ok (root, s)) : Loaded root (d.walk useIgnore root) s := by
  obtain ⟨hfollow, hwalk⟩ := load_eq_ok h
  have hplace := areNames_of_follow hfollow
  have hapart := apart_walk hd useIgnore root
  obtain ⟨hroot, hrows⟩ := rows_of_ok hplace hapart.names hwalk
  exact ⟨hplace, hapart, hroot, hrows⟩

namespace Loaded

variable (h : Loaded root files s)
include h

/-- No project has a name that is spelled like a path from the top of the disk. -/
theorem not_shadowed_join {ms : List String} (hms : AreNames ms) {wanted : Project → Prop} :
    ¬s.Shadowed (Path.join root.render (relative ms)) wanted := by
  obtain ⟨ys, hys, hrel, -⟩ := exists_spelling hms
  apply Snapshot.not_shadowed
  · rw [hrel, join_render h.place hys (hrel ▸ relative_ne_empty hms), Path.spell, if_pos rfl, String.toList_append]
    exact List.mem_append_left _ (by decide)
  · intro q hq
    exact (h.rows q hq).1

variable {p : Project} (hp : p ∈ s.projects)
include hp

theorem exists_dir : ∃ ns, AreNames ns ∧ p.dir = relative ns := by
  rcases (h.rows p hp).2 with ⟨f, hf, -, -, hdir⟩ | ⟨-, hdir⟩
  · exact ⟨_, (h.apart.names f hf).above (List.dropLast_prefix _), hdir⟩
  · refine ⟨[], ?_, hdir⟩
    intro n hn
    cases hn

theorem exists_file {file : String} (hfile : p.projectFile = some file) :
    ∃ f ∈ files, f.names ≠ [] ∧ file = relative f.names := by
  rcases (h.rows p hp).2 with ⟨f, hf, hne, hname, -⟩ | ⟨hname, -⟩
  · rw [hname] at hfile
    exact ⟨f, hf, hne, (Option.some.inj hfile).symm⟩
  · rw [hname] at hfile
    cases hfile

/-- No project has the file of a project as its directory. -/
theorem dir_ne_file {file : String} (hfile : p.projectFile = some file) {q : Project} (hq : q ∈ s.projects) :
    q.dir ≠ file := by
  obtain ⟨f, hf, hne, rfl⟩ := h.exists_file hp hfile
  rcases (h.rows q hq).2 with ⟨g, hg, hgne, -, hdir⟩ | ⟨-, hdir⟩
  · rw [hdir]
    exact h.apart.dir_ne hf hg hgne
  · rw [hdir]
    intro hdot
    exact hne (relative_inj (fun _ hn => by cases hn) (h.apart.names f hf) (d := []) hdot).symm

/-- Asking for what stands for a project file finds a project with that file, unless it is shadowed. -/
theorem file_found {file raw : String} (hfile : p.projectFile = some file) (hraw : s.target raw = file) :
    ∃ q, s.findProject raw = some q ∧ (q.projectFile = some file ↔ ¬s.Shadowed raw (·.projectFile = some file)) := by
  apply Snapshot.findProject_spec
  · intro q hq
    have hdir := h.dir_ne_file hp hfile hq
    simp [hraw, hdir]
  · exact ⟨p, hp, hfile⟩

/-- Asking for what stands for a directory finds a project of that directory, unless it is shadowed. -/
theorem dir_found {raw : String} (hraw : s.target raw = p.dir) :
    ∃ q, s.findProject raw = some q ∧ (q.dir = p.dir ↔ ¬s.Shadowed raw (·.dir = p.dir)) := by
  apply Snapshot.findProject_spec
  · intro q hq
    have hfile : q.projectFile ≠ some p.dir := fun hfile => h.dir_ne_file hq hfile hp rfl
    simp [hraw, hfile]
  · exact ⟨p, hp, rfl⟩

end Loaded

/-- How a project is found below a root: by its name, by its file and its directory unless the name of another project is
spelled like those, and by both from the top of the disk without exception. -/
structure Found (root : Disk.Place) (s : Snapshot) (p : Project) : Prop where
  name : s.findProject p.name = some p
  file : ∀ file, p.projectFile = some file → Path.IsPlain file →
    ∃ q, s.findProject file = some q ∧ (q.projectFile = some file ↔ ¬s.Shadowed file (·.projectFile = some file))
  dir : p.dir ≠ "." → Path.IsPlain p.dir →
    ∃ q, s.findProject p.dir = some q ∧ (q.dir = p.dir ↔ ¬s.Shadowed p.dir (·.dir = p.dir))
  fileFromTop : ∀ file, p.projectFile = some file → Path.IsPlain (Path.join root.render file) →
    ∃ q, s.findProject (Path.join root.render file) = some q ∧ q.projectFile = some file
  dirFromTop : Path.IsPlain (Path.join root.render p.dir) →
    ∃ q, s.findProject (Path.join root.render p.dir) = some q ∧ q.dir = p.dir

/-- Every project of a snapshot that was loaded is found. -/
theorem projects_found {d : Disk} (hd : d.Sound) {useIgnore : Bool} {path : String}
    (hload : load d useIgnore path = .ok (root, s)) : ∀ p ∈ s.projects, Found root s p := by
  have h := loaded_of_ok hd hload
  intro p hp
  obtain ⟨ns, hns, hdir⟩ := h.exists_dir hp
  constructor
  case name => exact Snapshot.findProject_name hp
  case file =>
    intro file hfile hplain
    obtain ⟨f, hf, hne, rfl⟩ := h.exists_file hp hfile
    exact h.file_found hp hfile (target_of_relative h.root h.place (h.apart.names f hf) hne hplain)
  case dir =>
    intro hne hplain
    have hbelow : ns ≠ [] := by
      intro hnil
      subst hnil
      exact hne hdir
    apply h.dir_found hp
    rw [hdir] at hplain ⊢
    exact target_of_relative h.root h.place hns hbelow hplain
  case fileFromTop =>
    intro file hfile hplain
    obtain ⟨f, hf, hne, rfl⟩ := h.exists_file hp hfile
    have hnames := h.apart.names f hf
    obtain ⟨q, hq, hiff⟩ := h.file_found hp hfile (target_of_join h.root h.place hnames hplain)
    exact ⟨q, hq, hiff.2 (h.not_shadowed_join hnames)⟩
  case dirFromTop =>
    intro hplain
    rw [hdir] at hplain
    obtain ⟨q, hq, hiff⟩ := h.dir_found hp ((target_of_join h.root h.place hns hplain).trans hdir.symm)
    refine ⟨q, ?_, hiff.2 (h.not_shadowed_join hns)⟩
    rw [hdir]
    exact hq

/-- Two projects, of which one has the name of the directory of the other. -/
def namesakes : Disk :=
  ⟨[(["ws"], .directory), (["ws", "lib"], .directory), (["ws", "lib", "src.csproj"], .file .empty),
    (["ws", "src"], .directory), (["ws", "src", "App.csproj"], .file .empty)]⟩

theorem sound_namesakes : namesakes.Sound where
  names := by decide
  leaves := by
    intro p content hp
    simp [namesakes] at hp
    rcases hp with ⟨rfl, -⟩ | ⟨rfl, -⟩ <;> decide

theorem load_namesakes : load namesakes false "/ws" = .ok (["ws"],
    addProjects { root := some "/ws" } [⟨"src", "src", "lib", "lib/src.csproj"⟩, ⟨"App", "App", "src", "src/App.csproj"⟩]) := by
  have hfollow : namesakes.follow "/ws" = .ok ["ws"] := rfl
  have hbelow : ∀ f ∈ namesakes.walk false ["ws"], f.names ≠ [] := by decide +kernel
  have hsorted : (projectFiles ["ws"] (namesakes.walk false ["ws"])).Pairwise fun a b => deeper a b = true := by
    decide +kernel
  have hsources : sources ["ws"] (namesakes.walk false ["ws"]) = [] := by decide +kernel
  have hnamed : nameProjects [] (projectFiles ["ws"] (namesakes.walk false ["ws"])) =
      [⟨"src", "src", "lib", "lib/src.csproj"⟩, ⟨"App", "App", "src", "src/App.csproj"⟩] := by decide +kernel
  rw [load, hfollow]
  dsimp only
  rw [ofWalk_eq hbelow, hsources, snapshotOf, List.mergeSort_nil, List.mergeSort_of_pairwise hsorted, hnamed]
  rfl

theorem namesakes_found : namesakes.Sound ∧ ∃ s, load namesakes false "/ws" = .ok (["ws"], s) ∧ s.projects.length = 2 ∧
    ∀ p ∈ s.projects, Found ["ws"] s p :=
  ⟨sound_namesakes, _, load_namesakes, by decide +kernel, projects_found sound_namesakes load_namesakes⟩

/-- The directory leads to the project of that name, which lies elsewhere. -/
theorem namesake_found_instead : ∃ s, load namesakes false "/ws" = .ok (["ws"], s) ∧
    ∃ p ∈ s.projects, p.dir = "src" ∧ ∃ q, s.findProject p.dir = some q ∧ q.dir ≠ p.dir :=
  ⟨_, load_namesakes, ⟨"App", some "src/App.csproj", "src", []⟩, by decide +kernel, rfl,
    ⟨"src", some "lib/src.csproj", "lib", []⟩, by decide +kernel, by decide⟩

end

end Loading

end Workbench
