import Workbench.Proofs.Settling
import Workbench.Proofs.Stopping

/-!
# One turn of each rule

However many passes a rule may make over a document, the first does all there
is to do, so that a rule changes a document in one turn. When the parser reads
what each turn makes of a text as the tree that the turn makes of its tree,
every rule has nothing left to do once the last one has been over the documents.
-/

namespace Workbench

/-! ## Snapshots of one shape -/

namespace Snapshot

section
variable {s next : Snapshot} {d : Document}

theorem text?_of_mem (h : d ∈ s.documents) : s.text? d.path = some d.text := by
  rw [text?, document?, Ordered.find?_of_mem s.documents_ascending h, Option.map_some]

theorem SameShape.forall₂ (h : s.SameShape next) : List.Forall₂
    (fun d d' => d.frame = d'.frame ∧ d ∈ s.documents ∧ d' ∈ next.documents) s.documents next.documents := by
  have hframes : List.Forall₂ (fun d d' => d.frame = d'.frame) s.documents next.documents := by
    rw [← List.forall₂_map_right_iff (R := fun d e => Document.frame d = e), ← List.forall₂_map_left_iff (R := Eq),
      h.documents]
    exact List.forall₂_refl _
  exact CSharp.forall₂_and hframes (fun _ h => h) fun _ h => h

/-- Snapshots of one shape with the same texts are the same. -/
theorem eq_of_texts (h : s.SameShape next) (htexts : ∀ p, next.text? p = s.text? p) : next = s := by
  have hdocuments : s.documents = next.documents := by
    rw [← List.forall₂_eq_eq_eq]
    refine h.forall₂.imp ?_
    rintro d d' ⟨hframe, hd, hd'⟩
    obtain ⟨path, project, text, file⟩ := d
    obtain ⟨path', project', text', file'⟩ := d'
    simp only [Document.frame, Document.mk.injEq, true_and] at hframe
    obtain ⟨rfl, rfl, rfl⟩ := hframe
    have htext := htexts path
    rw [text?_of_mem hd', text?_of_mem hd] at htext
    cases htext
    rfl
  have hroot := h.root
  have hprojects := h.projects
  cases s
  cases next
  simp only [mk.injEq]
  exact ⟨hroot, hprojects, hdocuments.symm⟩

end

end Snapshot

/-! ## Passes -/

namespace Cancellable

theorem Yields.eq_of_ok {α : Type} {x : Cancellable α} {a b : α} {c c' : Cancellation} (hx : Yields x a)
    (h : x.run c = .ok (b, c')) : b = a := by
  rcases hx.always c with ⟨d, hd⟩ | hd
  · rw [hd] at h
    cases h
    rfl
  · rw [hd] at h
    cases h

end Cancellable

namespace Cleanup

section
variable {m : CodeModel} {s next : Snapshot} {path : String} {ids : List String}

/-- A pass makes the edits that it has chosen, and tells whether they change anything. -/
theorem pass_eq_ok {o : Option Snapshot} (h : pass m s path ids = .ok o) : ∃ chosen mid,
    chooseFixes m s path ids = .ok chosen ∧ CodeAction.applyEdits s chosen = .ok mid ∧
      (o = some mid ∨ (o = none ∧ mid = s)) := by
  unfold pass at h
  obtain ⟨chosen, hchosen, h⟩ := Result.bind_eq_ok.1 h
  split at h
  · rename_i hempty
    cases h
    exact ⟨chosen, s, hchosen, by rw [List.isEmpty_iff.1 hempty]; rfl, .inr ⟨rfl, rfl⟩⟩
  · obtain ⟨mid, hmid, h⟩ := Result.bind_eq_ok.1 h
    refine ⟨chosen, mid, hchosen, hmid, ?_⟩
    split at h
    · rename_i hsame
      cases h
      have houtside : s.SameOutside (chosen.map (·.path)) mid :=
        CodeAction.applyEdits_sameOutside hmid fun d hd => List.mem_map_of_mem hd
      refine .inr ⟨rfl, Snapshot.eq_of_texts houtside.shape fun p => ?_⟩
      by_cases hp : p ∈ chosen.map (·.path)
      · obtain ⟨d, hd, rfl⟩ := List.mem_map.1 hp
        simpa using List.all_eq_true.1 hsame d hd
      · exact houtside.texts hp
    · cases h
      exact .inl rfl

end

end Cleanup

namespace CSharp

/-! ## Rules with nothing to do -/

section
variable {read : Parser} {s : Snapshot} {path : String} {f : SourceFile} {rule : CleanupRule}

theorem not_diagnosed {c : Compilation} {d : Diagnostic} (hf : f.Sound) (h : Finished c f rule) (hd : d ∈ diagnostics c f) :
    rule.diagnosticIds.contains d.id = false := by
  -- The rule whose diagnostic it would be leaves none.
  have howner : ∀ rule : CleanupRule, rule.diagnosticIds.contains UnusedLocal.declaredId = false ∧
      rule.diagnosticIds.contains UnusedLocal.assignedId = false ∧
      (rule.diagnosticIds.contains unneededUsingId = true → rule = .removeUnusedImports) ∧
      (rule.diagnosticIds.contains modifierOrderId = true → rule = .fixModifierOrder) ∧
      (rule.diagnosticIds.contains readonlyFieldId = true → rule = .addMissingReadonly) := by
    intro rule
    cases rule <;> decide
  obtain ⟨hdeclared, hassigned, hunneeded, horder, hreadonly⟩ := howner rule
  rw [← Bool.not_eq_true]
  intro hmem
  rcases diagnostics_cases hf.fits hd with (hid | hid) | ⟨u, hu, rfl⟩ | ⟨sp, hsp, rfl⟩ | ⟨n, hn, rfl⟩
  · rw [hid, hdeclared] at hmem
    cases hmem
  · rw [hid, hassigned] at hmem
    cases hmem
  · cases hunneeded hmem
    rw [Using.unneeded_eq_nil hf h] at hu
    cases hu
  · cases horder hmem
    rw [misorderedRanges_eq_nil_iff.2 h] at hsp
    cases hsp
  · cases hreadonly hmem
    rw [show ReadonlyField.all f = [] from h] at hn
    cases hn

/-- A pass over a file that is finished changes nothing. -/
theorem pass_idle (hfile : sourceFile read s path = .ok f) (hf : f.Sound) (h : Finished (.ofSnapshot read s) f rule) :
    Cleanup.pass (model read) s path rule.diagnosticIds = .ok none := by
  obtain ⟨r, hr⟩ := registry_ok read
  have hds : ((model read).view s).diagnostics path = .ok (diagnostics (.ofSnapshot read s) f) := by
    rw [diagnostics_view, hfile]
    rfl
  have hnone : (diagnostics (.ofSnapshot read s) f).filter (fun d => rule.diagnosticIds.contains d.id) = [] :=
    List.filter_eq_nil_iff.2 fun d hd => by rw [not_diagnosed hf h hd]; exact Bool.false_ne_true
  have hchosen : Cleanup.chooseFixes (model read) s path rule.diagnosticIds = .ok [] := by
    refine Result.bind_eq_ok.2 ⟨r, hr, Result.bind_eq_ok.2 ⟨_, hds, ?_⟩⟩
    rw [hnone]
    rfl
  exact Result.bind_eq_ok.2 ⟨[], hchosen, rfl⟩

end

/-! ## Turns -/

/-- What a rule does to a document at first: its edits, and the snapshot that they make. To format is to move blanks, and
counts as no edits. -/
def firstChange (read : Parser) (rule : CleanupRule) (s : Snapshot) (path : String) : Result (List Edit × Snapshot) :=
  match rule with
  | .organizeImports => do
    let f ← sourceFile read s path
    let next ← s.withEdits path (organizeEdits f)
    return (organizeEdits f, next)
  | .format => do
    let next ← ((model read).view s).format path
    return ([], next)
  | _ => do
    let chosen ← Cleanup.chooseFixes (model read) s path rule.diagnosticIds
    let next ← CodeAction.applyEdits s chosen
    return (Cleanup.chosenFor chosen path, next)

/-- A rule's turn at a document: the file as it was, the edits, and the file as it is read again. -/
structure Turn where
  rule : CleanupRule
  edits : List Edit
  before : SourceFile
  after : SourceFile

def Turn.isFaithful (t : Turn) : Bool := CSharp.isFaithful t.rule t.edits t.before t.after

def turn (read : Parser) (rule : CleanupRule) (s : Snapshot) (path : String) : Result Turn := do
  let (edits, next) ← firstChange read rule s path
  let f ← sourceFile read s path
  let g ← sourceFile read next path
  return ⟨rule, edits, f, g⟩

section
variable {read : Parser} {s next mid : Snapshot} {path : String} {f : SourceFile} {rule : CleanupRule} {es : List Edit}

theorem firstChange_fixes (hrule : rule ≠ .organizeImports ∧ rule ≠ .format) : firstChange read rule s path = .ok (es, mid) ↔
    ∃ chosen, Cleanup.chooseFixes (model read) s path rule.diagnosticIds = .ok chosen ∧
      CodeAction.applyEdits s chosen = .ok mid ∧ es = Cleanup.chosenFor chosen path := by
  have h : firstChange read rule s path = (do
      let chosen ← Cleanup.chooseFixes (model read) s path rule.diagnosticIds
      let next ← CodeAction.applyEdits s chosen
      return (Cleanup.chosenFor chosen path, next)) := by
    cases rule <;> simp_all [firstChange]
  rw [h, Result.bind_eq_ok]
  refine exists_congr fun chosen => and_congr_right fun _ => ?_
  rw [Result.bind_eq_ok]
  constructor
  · rintro ⟨next, hnext, he⟩
    cases he
    exact ⟨hnext, rfl⟩
  · rintro ⟨hnext, rfl⟩
    exact ⟨mid, hnext, rfl⟩

theorem organize_view : ((model read).view s).organizeImports path =
    (sourceFile read s path >>= fun f => s.withEdits path (organizeEdits f)) := by
  have h : ((model read).view s).organizeImports path = organizeDocument (Compilation.ofSnapshot read s) s path := rfl
  rw [h, organizeDocument, file_ofSnapshot]
  cases sourceFile read s path <;> rfl

theorem format_view : ((model read).view s).format path = (sourceFile read s path >>= fun f =>
    s.withText path (.ofList (Layout.formatChars f.chars (Layout.literalRanges f)))) := by
  have h : ((model read).view s).format path = formatDocument (Compilation.ofSnapshot read s) s path := rfl
  rw [h, formatDocument, file_ofSnapshot]
  cases sourceFile read s path <;> rfl

theorem firstChange_organize : firstChange read .organizeImports s path = .ok (es, mid) ↔
    ∃ f, sourceFile read s path = .ok f ∧ s.withEdits path (organizeEdits f) = .ok mid ∧ es = organizeEdits f := by
  rw [firstChange, Result.bind_eq_ok]
  refine exists_congr fun f => and_congr_right fun _ => ?_
  rw [Result.bind_eq_ok]
  constructor
  · rintro ⟨next, hnext, he⟩
    cases he
    exact ⟨hnext, rfl⟩
  · rintro ⟨hnext, rfl⟩
    exact ⟨mid, hnext, rfl⟩

theorem firstChange_format : firstChange read .format s path = .ok (es, mid) ↔
    ((model read).view s).format path = .ok mid ∧ es = [] := by
  rw [firstChange, Result.bind_eq_ok]
  constructor
  · rintro ⟨next, hnext, he⟩
    cases he
    exact ⟨hnext, rfl⟩
  · rintro ⟨hnext, rfl⟩
    exact ⟨mid, hnext, rfl⟩

/-- A turn changes its document alone. -/
theorem firstChange_sameOutside (h : firstChange read rule s path = .ok (es, mid)) : s.SameOutside [path] mid := by
  by_cases horganize : rule = .organizeImports
  · subst horganize
    obtain ⟨f, -, h, -⟩ := firstChange_organize.1 h
    exact Snapshot.withEdits_sameOutside h
  · by_cases hformat : rule = .format
    · subst hformat
      exact (model_editsInPlace read).format (firstChange_format.1 h).1
    · obtain ⟨chosen, hchosen, h, -⟩ := (firstChange_fixes ⟨horganize, hformat⟩).1 h
      exact CodeAction.applyEdits_sameOutside h fun e he =>
        List.mem_singleton.2 (Cleanup.path_of_mem_chooseFixes (model_editsInPlace read) hchosen e he)

/-! ## What a turn finishes -/

/-- Rules have finished a document, which parses without errors. -/
def Tidy (read : Parser) (rules : List CleanupRule) (s : Snapshot) (path : String) : Prop :=
  ∃ f, sourceFile read s path = .ok f ∧ f.Sound ∧ ∀ rule ∈ rules, Finished (.ofSnapshot read s) f rule

theorem sourceFile_congr {p : String} (h : next.text? p = s.text? p) : sourceFile read next p = sourceFile read s p := by
  rw [sourceFile, sourceFile, h]

/-- A document stays in snapshots of the same shape. -/
theorem exists_sourceFile (h : s.SameShape next) (hfile : sourceFile read s path = .ok f) :
    ∃ g, sourceFile read next path = .ok g := by
  obtain ⟨text, htext, -⟩ := sourceFile_eq_ok.1 hfile
  have hmem : path ∈ next.paths := h.paths ▸ Snapshot.mem_paths_iff.2 (by rw [htext]; rfl)
  obtain ⟨text', htext'⟩ := Option.isSome_iff_exists.1 (Snapshot.mem_paths_iff.1 hmem)
  exact ⟨_, sourceFile_eq_ok.2 ⟨text', htext', rfl⟩⟩

theorem turn_of_firstChange {g : SourceFile} (h : firstChange read rule s path = .ok (es, mid))
    (hfile : sourceFile read s path = .ok f) (hnew : sourceFile read mid path = .ok g) :
    turn read rule s path = .ok ⟨rule, es, f, g⟩ :=
  Result.bind_eq_ok.2 ⟨_, h, Result.bind_eq_ok.2 ⟨f, hfile, Result.bind_eq_ok.2 ⟨g, hnew, rfl⟩⟩⟩

theorem sameOutlines_ofSnapshot (hshape : s.SameShape next)
    (h : ∀ p f g, sourceFile read s p = .ok f → sourceFile read next p = .ok g →
      (declarations f).map Declared.outline = (declarations g).map Declared.outline) :
    (Compilation.ofSnapshot read s).index.SameOutlines (Compilation.ofSnapshot read next).index := by
  refine SymbolIndex.sameOutlines_build ?_
  rw [List.flatMap_map, List.flatMap_map, List.map_flatMap, List.map_flatMap]
  have hall : List.Forall₂ (fun d d' => (declarations (.ofText read d.path d.text)).map Declared.outline =
      (declarations (.ofText read d'.path d'.text)).map Declared.outline) s.documents next.documents := by
    refine hshape.forall₂.imp ?_
    rintro d d' ⟨hframe, hd, hd'⟩
    have hpath : d'.path = d.path := (congrArg Document.path hframe).symm
    have hfile : sourceFile read next d.path = .ok (.ofText read d'.path d'.text) := by
      rw [← hpath]
      exact sourceFile_eq_ok.2 ⟨_, Snapshot.text?_of_mem hd', rfl⟩
    exact h d.path _ _ (sourceFile_eq_ok.2 ⟨_, Snapshot.text?_of_mem hd, rfl⟩) hfile
  generalize s.documents = ds, next.documents = ds' at hall
  induction hall with
  | nil => rfl
  | cons hab _ ih => rw [List.flatMap_cons, List.flatMap_cons, hab, ih]

/-- Changes of other documents leave a tidy one tidy. -/
theorem Tidy.of_sameOutside {rules : List CleanupRule} {p : String} (h : Tidy read rules s p) (houtside : s.SameOutside [path] next)
    (hp : p ≠ path) (hindex : (Compilation.ofSnapshot read s).index.SameOutlines (Compilation.ofSnapshot read next).index) :
    Tidy read rules next p := by
  obtain ⟨f, hfile, hf, hfinished⟩ := h
  have htext : next.text? p = s.text? p := houtside.texts fun hmem => hp (List.mem_singleton.1 hmem)
  exact ⟨f, (sourceFile_congr htext).trans hfile, hf, fun rule hrule => (hfinished rule hrule).of_sameOutlines hindex⟩

/-- In its turn a rule finishes the document, and undoes nothing that earlier rules have done. -/
theorem tidy_of_firstChange (h : firstChange read rule s path = .ok (es, mid)) (htidy : Tidy read rule.earlier s path)
    (hfaithful : ∀ t, turn read rule s path = .ok t → t.isFaithful = true) :
    (Compilation.ofSnapshot read s).index.SameOutlines (Compilation.ofSnapshot read mid).index ∧
      Tidy read (rule.earlier ++ [rule]) mid path := by
  obtain ⟨f, hfile, hf, hearlier⟩ := htidy
  have houtside := firstChange_sameOutside h
  obtain ⟨g, hnew⟩ := exists_sourceFile houtside.shape hfile
  have hfollows : isFaithful rule es f g = true := hfaithful _ (turn_of_firstChange h hfile hnew)
  obtain ⟨hg, hpair⟩ := paired_of_isFaithful hf hfollows
  have hindex : (Compilation.ofSnapshot read s).index.SameOutlines (Compilation.ofSnapshot read mid).index := by
    refine sameOutlines_ofSnapshot houtside.shape fun p f' g' hf' hg' => ?_
    by_cases hp : p = path
    · subst hp
      cases hfile.symm.trans hf'
      cases hnew.symm.trans hg'
      exact outline_declarations (keeps_reshaped f rule es) hpair
    · rw [sourceFile_congr (houtside.texts fun hmem => hp (List.mem_singleton.1 hmem)), hf'] at hg'
      cases hg'
      rfl
  have hown : Finished (.ofSnapshot read mid) g rule := by
    by_cases horganize : rule = .organizeImports
    · subst horganize
      exact sortedUsings_of_organize hpair
    · by_cases hformat : rule = .format
      · subst hformat
        have hview := (firstChange_format.1 h).1
        rw [format_view, hfile] at hview
        obtain ⟨d, -, -, htexts⟩ := Snapshot.withText_ok hview
        have hchars : g.chars = Layout.formatChars f.chars (Layout.literalRanges f) := by
          obtain ⟨text, htext, rfl⟩ := sourceFile_eq_ok.1 hnew
          rw [htexts, if_pos rfl] at htext
          cases htext
          exact String.toList_ofList
        have hplaces : literalPlaces f = literalPlaces g := by
          simpa using (Bool.and_eq_true_iff.1 hfollows).2
        exact Layout.formatChars_formatted hf hg hplaces hchars
      · obtain ⟨chosen, hchosen, -, rfl⟩ := (firstChange_fixes ⟨horganize, hformat⟩).1 h
        exact finished_of_fixes hfile hf ⟨horganize, hformat⟩ hchosen hindex hfollows
  refine ⟨hindex, g, hnew, hg, fun rule' hrule' => ?_⟩
  rcases List.mem_append.1 hrule' with hrule' | hrule'
  · exact (hearlier rule' hrule').of_later hrule' hf hg hindex hpair
  · rw [List.mem_singleton.1 hrule']
    exact hown

/-! ## Whole rules -/

theorem Tidy.pass_idle {rules : List CleanupRule} (h : Tidy read rules s path) (hrule : rule ∈ rules) :
    Cleanup.pass (model read) s path rule.diagnosticIds = .ok none := by
  obtain ⟨f, hfile, hf, hfinished⟩ := h
  exact CSharp.pass_idle hfile hf (hfinished rule hrule)

/-- A rule has one turn at a document: what it leaves is what its first change leaves, unless there is something left to
do. -/
theorem firstChange_of_runRule {c c' : Cancellation} {maxPasses : Nat} {run : RuleRun} (hpos : 0 < maxPasses)
    (hrun : (Cleanup.runRule (model read) rule s path maxPasses).run c = .ok ((next, run), c')) :
    ∃ es mid, firstChange read rule s path = .ok (es, mid) ∧
      (Cleanup.pass (model read) mid path rule.diagnosticIds = .ok none → next = mid) := by
  rcases Cleanup.runRule_cases hrun with ⟨rfl, h⟩ | ⟨rfl, h⟩ | ⟨horganize, hformat, n, d, d', h⟩
  · rw [organize_view] at h
    obtain ⟨f, hfile, h⟩ := Result.bind_eq_ok.1 h
    exact ⟨_, next, firstChange_organize.2 ⟨f, hfile, h, rfl⟩, fun _ => rfl⟩
  · exact ⟨_, next, firstChange_format.2 ⟨h, rfl⟩, fun _ => rfl⟩
  · obtain ⟨fuel, rfl⟩ := Nat.exists_eq_succ_of_ne_zero hpos.ne'
    obtain ⟨_, c1, -, h⟩ := Cancellable.bind_eq_ok.1 h
    obtain ⟨o, c2, ho, h⟩ := Cancellable.bind_eq_ok.1 h
    obtain ⟨chosen, mid, hchosen, hmid, ho⟩ := Cleanup.pass_eq_ok (Cancellable.lift_eq_ok.1 ho).1
    refine ⟨_, mid, (firstChange_fixes ⟨horganize, hformat⟩).2 ⟨chosen, hchosen, hmid, rfl⟩, fun hidle => ?_⟩
    rcases ho with rfl | ⟨rfl, rfl⟩
    · exact congrArg Prod.fst ((Cleanup.passes_idle hidle fuel 1).eq_of_ok h)
    · obtain ⟨he, -⟩ := Cancellable.pure_eq_ok.1 h
      cases he
      rfl

end

end CSharp

end Workbench
