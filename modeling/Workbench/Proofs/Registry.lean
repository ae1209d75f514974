import Workbench.Proofs.Offers
import Workbench.Proofs.Editing
import Workbench.Proofs.Operations

/-!
# Rules of C# on a snapshot

The providers of C# on the documents of a snapshot. Provider names are
different, so a name leads back to its provider; what a provider makes of a
diagnostic is a change of the document of that diagnostic, by one edit.
-/

namespace Workbench

/-! ## Names of providers -/

namespace Registry

theorem repeated?_eq_none {seen names : List String} (h : repeated? seen names = none) :
    names.Nodup ∧ ∀ n ∈ names, n ∉ seen := by
  -- What has been seen grows by the name that is passed, so a later name differs from all before it.
  induction names generalizing seen with
  | nil => exact ⟨.nil, fun n hn => nomatch hn⟩
  | cons n rest ih =>
    unfold repeated? at h
    split at h
    · cases h
    · rename_i hn
      obtain ⟨hnodup, hseen⟩ := ih h
      refine ⟨List.nodup_cons.2 ⟨fun hmem => hseen n hmem List.mem_cons_self, hnodup⟩, fun k hk => ?_⟩
      rcases List.mem_cons.1 hk with rfl | hk
      · simpa using hn
      · exact fun hmem => hseen k hk (List.mem_cons_of_mem n hmem)

section
variable {fixes : List FixProvider} {refactorings : List RefactoringProvider} {r : Registry}

theorem ofProviders_eq_ok (h : ofProviders fixes refactorings = .ok r) :
    r = ⟨fixes, refactorings⟩ ∧ (fixes.map (·.typeName) ++ refactorings.map (·.typeName)).Nodup := by
  unfold ofProviders at h
  split at h
  · cases h
  · rename_i hnone
    cases h
    exact ⟨rfl, (repeated?_eq_none hnone).1⟩

theorem fixProvider?_of_mem (h : ofProviders fixes refactorings = .ok r) {p : FixProvider} (hp : p ∈ r.fixes) :
    r.fixProvider? p.typeName = some p := by
  obtain ⟨rfl, hnodup⟩ := ofProviders_eq_ok h
  exact Ordered.find?_of_nodup (List.nodup_append.1 hnodup).1 hp

theorem refactoringProvider?_of_mem (h : ofProviders fixes refactorings = .ok r) {p : RefactoringProvider}
    (hp : p ∈ r.refactorings) : r.refactoringProvider? p.typeName = some p := by
  obtain ⟨rfl, hnodup⟩ := ofProviders_eq_ok h
  exact Ordered.find?_of_nodup (List.nodup_append.1 hnodup).2.1 hp

end

end Registry

/-- The trees that a parser gives for the documents of a snapshot fit their texts. -/
def CSharp.Parser.FitsAll (read : CSharp.Parser) (s : Snapshot) : Prop :=
  ∀ d ∈ s.documents, (read d.text).fits d.text.toList = true

namespace CSharp

section
variable {read : Parser} {s : Snapshot} {path : String} {f : SourceFile}

/-! ## Files -/

theorem sourceFile_eq_ok : sourceFile read s path = .ok f ↔
    ∃ text, s.text? path = some text ∧ f = .ofText read path text := by
  unfold sourceFile
  cases s.text? path with
  | none => exact ⟨fun h => (nomatch h), fun ⟨t, h, _⟩ => (nomatch h)⟩
  | some text =>
    constructor
    · intro h
      cases h
      exact ⟨text, rfl, rfl⟩
    · rintro ⟨t, h, rfl⟩
      cases h
      rfl

theorem fits_of_sourceFile (hs : read.FitsAll s) (h : sourceFile read s path = .ok f) :
    f.root.fits f.chars = true := by
  obtain ⟨text, ht, rfl⟩ := sourceFile_eq_ok.1 h
  obtain ⟨d, hd, rfl⟩ := Option.map_eq_some_iff.1 ht
  exact hs d (Snapshot.document?_path hd).1

theorem file_ofSnapshot : (Compilation.ofSnapshot read s).file path = sourceFile read s path := by
  have h : (Compilation.ofSnapshot read s).file? path =
      (s.document? path).map fun d => SourceFile.ofText read d.path d.text := by
    rw [Compilation.file?, Compilation.ofSnapshot, Compilation.ofFiles, List.find?_map]
    rfl
  unfold Compilation.file sourceFile Snapshot.text?
  rw [h]
  cases hd : s.document? path with
  | none => rfl
  | some d =>
    obtain ⟨-, rfl⟩ := Snapshot.document?_path hd
    rfl

theorem diagnostics_view : ((model read).view s).diagnostics path =
    (sourceFile read s path).map (diagnostics (Compilation.ofSnapshot read s)) := by
  rw [← file_ofSnapshot]
  rfl

theorem builtins_view {span : Span} : ((model read).view s).builtins path span =
    (sourceFile read s path).map (builtins · span) := by
  rw [← file_ofSnapshot]
  rfl

/-! ## Changes -/

theorem apply_single (title key : String) {text : String} {e : Edit} (ht : s.text? path = some text)
    (he : e.span.Fits text.toList) : ∃ next new, (CodeAction.single title key path [e]).apply s = .ok next ∧
      Edit.applyAll text [e] = .ok new ∧ s.SameShape next ∧
      ∀ p, next.text? p = if p = path then some new else s.text? p := by
  obtain ⟨before, gone, after, -, -, hnew⟩ := Edit.applyAll_single e.newText he
  obtain ⟨next, hnext⟩ := Snapshot.exists_withEdits ht hnew
  obtain ⟨old, new, hold, hedit, hshape, htexts⟩ := Snapshot.withEdits_ok hnext (by simp)
  rw [ht] at hold
  cases hold
  refine ⟨next, new, ?_, hedit, hshape, htexts⟩
  change CodeAction.applyEdits s [⟨path, [e]⟩] = .ok next
  rw [CodeAction.applyEdits, hnext]
  rfl

/-- A change that takes something out of a document changes just that document. -/
theorem paths_between_of_removal {next : Snapshot} {maxCells : Nat} {text new : String} {span : Span}
    (ht : s.text? path = some text) (hspan : span.Fits text.toList) (hpos : 0 < span.length)
    (hnew : Edit.applyAll text [.delete span] = .ok new)
    (hnext : ∀ p, next.text? p = if p = path then some new else s.text? p) :
    (ChangeSet.between s next maxCells).paths = [path] := by
  have hsize := Edit.applyAll_delete_size hspan hnew
  have hmem : ∀ p, p ∈ (ChangeSet.between s next maxCells).paths ↔ p = path := by
    intro p
    rw [ChangeSet.mem_paths_between, hnext]
    by_cases hp : p = path
    · subst hp
      rw [if_pos rfl, ht]
      refine iff_of_true (fun h => ?_) rfl
      rw [Option.some.inj h] at hsize
      omega
    · rw [if_neg hp]
      exact iff_of_false (fun h => h rfl) hp
  exact ChangeSet.eq_singleton_of_ascending ChangeSet.paths_between_ascending hmem

/-! ## Providers -/

theorem fixProvider?_of_mem {r : Registry} {p : FixProvider} (h : registry read = .ok r) (hp : p ∈ r.fixes) :
    r.fixProvider? p.typeName = some p := Registry.fixProvider?_of_mem h hp

theorem refactoringProvider?_of_mem {r : Registry} {p : RefactoringProvider} (h : registry read = .ok r)
    (hp : p ∈ r.refactorings) : r.refactoringProvider? p.typeName = some p :=
  Registry.refactoringProvider?_of_mem h hp

theorem registry_ok (read : Parser) : ∃ r, registry read = .ok r := ⟨_, rfl⟩

theorem mem_fixes_iff {r : Registry} {p : FixProvider} (h : registry read = .ok r) : p ∈ r.fixes ↔
    p = removeUnusedVariable read ∨ p = removeUnnecessaryImports read ∨ p = orderModifiers read ∨
      p = makeFieldReadonly read := by
  obtain ⟨rfl, -⟩ := Registry.ofProviders_eq_ok h
  simp only [List.mem_cons, List.not_mem_nil, or_false]

theorem mem_fixes {r : Registry} {p : FixProvider} (h : registry read = .ok r) (hp : p ∈ r.fixes) :
    ∃ title key edits?, FixRule p.fixable edits? ∧
      p.provide = (fixProvider read p.typeName p.fixable title key edits?).provide := by
  rcases (mem_fixes_iff h).1 hp with rfl | rfl | rfl | rfl
  · exact ⟨_, _, _, fixRule_localRemoval, rfl⟩
  · exact ⟨_, _, _, fixRule_usingRemoval, rfl⟩
  · exact ⟨_, _, _, fixRule_modifierSorting, rfl⟩
  · exact ⟨_, _, _, fixRule_readonlyInsertion, rfl⟩

/-- What a provider of fixes offers is one change of the document of the diagnostic. -/
theorem mem_provide_fix {typeName title key : String} {fixable : List String} {d : Diagnostic}
    {edits? : SourceFile → Diagnostic → Option (List Edit)} {changes : List CodeAction} {change : CodeAction}
    (h : (fixProvider read typeName fixable title key edits?).provide s d = .ok changes) (hc : change ∈ changes) :
    ∃ f es, sourceFile read s d.path = .ok f ∧ edits? f d = some es ∧ changes = [change] ∧
      change = .single title key d.path es := by
  obtain ⟨f, hf, rfl⟩ := Result.map_eq_ok.1 h
  cases he : edits? f d with
  | none =>
    rw [he] at hc
    cases hc
  | some es =>
    rw [he] at hc
    have hc := List.mem_singleton.1 hc
    exact ⟨f, es, hf, he, by rw [hc], hc⟩

theorem mem_provide_refactoring {typeName title key : String} {span : Span}
    {edits? : SourceFile → Span → Option (List Edit)} {changes : List CodeAction} {change : CodeAction}
    (h : (refactoringProvider read typeName title key edits?).provide s path span = .ok changes)
    (hc : change ∈ changes) : ∃ f es, sourceFile read s path = .ok f ∧ edits? f span = some es ∧
      changes = [change] ∧ change = .single title key path es := by
  obtain ⟨f, hf, rfl⟩ := Result.map_eq_ok.1 h
  cases he : edits? f span with
  | none =>
    rw [he] at hc
    cases hc
  | some es =>
    rw [he] at hc
    have hc := List.mem_singleton.1 hc
    exact ⟨f, es, hf, he, by rw [hc], hc⟩

/-- A provider of refactorings makes one edit, under a key that is not empty. -/
theorem mem_refactorings {r : Registry} {p : RefactoringProvider} (h : registry read = .ok r)
    (hp : p ∈ r.refactorings) : ∃ title key edits?, key ≠ "" ∧
      (∀ (f : SourceFile) span es, f.root.fits f.chars = true → edits? f span = some es → OneEdit f es) ∧
      p.provide = (refactoringProvider read p.typeName title key edits?).provide := by
  obtain ⟨rfl, -⟩ := Registry.ofProviders_eq_ok h
  simp only [List.mem_cons, List.not_mem_nil, or_false] at hp
  rcases hp with rfl | rfl
  · exact ⟨_, _, _, by decide, fun f span es hf he => oneEdit_explicitType hf he, rfl⟩
  · exact ⟨_, _, _, by decide, fun f span es hf he => oneEdit_bracing hf he, rfl⟩

/-- What is offered for a diagnostic is one change of its document, and it depends on place and id alone. -/
theorem provide_congr {r : Registry} {p : FixProvider} (h : registry read = .ok r) (hp : p ∈ r.fixes)
    {d d' : Diagnostic} (hpath : d.path = d'.path) (hspan : d.span = d'.span) (hid : d.id = d'.id) :
    p.provide s d = p.provide s d' := by
  obtain ⟨title, key, edits?, hrule, hprov⟩ := mem_fixes h hp
  rw [hprov]
  change (sourceFile read s d.path).map _ = (sourceFile read s d'.path).map _
  rw [hpath]
  congr 1
  funext f
  rw [hrule.congr hspan hid]

end

end CSharp

end Workbench
