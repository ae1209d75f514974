import Workbench.Proofs.Agreement

/-!
# What a token can commit

Policy is meant to let two kinds of change through: fixes for allowed
diagnostics from providers that list them, and removals of unused locals. A
token may also name a provider that does not list the diagnostic; then the
provider is asked all the same, and what it offers is committed. The sessions
in which this gains nothing are told apart exactly.
-/

namespace Workbench

/-- A snapshot that a change leads to which policy is meant to let through. -/
def Sanctioned (m : CodeModel) (s next : Snapshot) : Prop :=
  ∃ (path : String) (span : Span) (c : Candidate), c.Made m s path span ∧ c.Paired ∧ c.Allowed ∧
    c.change.apply s = .ok next

/-- Whatever a text names as a token, it commits nothing that policy is not meant to let through. -/
def Session.Guarded (isMissing : String → Bool) (m : CodeModel) (maxCells : Nat) (s : Session) : Prop :=
  ∀ raw a s', (Pipeline.apply (Session.hostBeside isMissing) m maxCells raw).on s = (.ok a, s') →
    Sanctioned m s.snapshot s'.snapshot

/-! ## Committed candidates -/

/-- What an application commits is a candidate that policy allows. -/
theorem allowed_of_apply {m : CodeModel} {isMissing : String → Bool} {maxCells : Nat} {raw : String}
    {s s' : Session} {a : Applied}
    (h : (Pipeline.apply (Session.hostBeside isMissing) m maxCells raw).on s = (.ok a, s')) :
    ∃ (path : String) (span : Span) (c : Candidate), c.Made m s.snapshot path span ∧ c.Allowed ∧
      c.change.apply s.snapshot = .ok s'.snapshot ∧
      (ChangeSet.between s.snapshot s'.snapshot maxCells).isEmpty = false := by
  obtain ⟨t, p, -, hp, hcheck, rfl, rfl⟩ := Pipeline.apply_eq_ok h
  obtain ⟨-, change, described, next, hrelocate, hnext, rfl⟩ := Pipeline.prepareOn_eq_ok.1 hp
  obtain ⟨hallow, hchanges⟩ := Pipeline.checkPrepared_eq_ok.1 hcheck
  obtain ⟨c, hmade, rfl, rfl⟩ := Pipeline.made_of_relocate hrelocate
  exact ⟨_, _, c, hmade, Candidate.allowed_of_outcome (beq_iff_eq.1 hallow), hnext, hchanges⟩

theorem Candidate.outcome_of_allowed {s : Snapshot} {p : FixProvider} {d : Diagnostic} {change : CodeAction}
    (h : d.id ∈ Policy.allowed) :
    (Policy.evaluate ((fix p d change).action s) Action.defaultProfile).outcome = .allow := by
  refine Policy.outcome_eq_allow.2 ⟨rfl, fun hkey => ?_, d.id, rfl, h, ?_⟩
  · rw [Candidate.providerKey_action] at hkey
    have hdecode := ProviderKey.decode_encode (fix p d change).key
    rw [hkey] at hdecode
    cases hdecode
  · change Action.categoryOf d.id = _
    simp only [Policy.allowed, List.mem_cons, List.not_mem_nil, or_false] at h
    rcases h with h | h | h
    · rw [h]
      rfl
    · rw [h]
      rfl
    · rw [h]
      rfl

namespace CSharp

section
variable {read : Parser} {isMissing : String → Bool} {maxCells : Nat} {s : Session}

/-- The token of a fix for an allowed diagnostic commits the fix, whoever offers it. -/
theorem apply_of_allowed_fix (isMissing : String → Bool) (maxCells : Nat) {path : String} {span : Span}
    {p : FixProvider} {d : Diagnostic} {change : CodeAction} {next : Snapshot} (hs : read.FitsAll s.snapshot) (hw : s.InWords)
    (h : (Candidate.fix p d change).Made (model read) s.snapshot path span) (hallowed : d.id ∈ Policy.allowed)
    (hnext : change.apply s.snapshot = .ok next)
    (hchanges : (ChangeSet.between s.snapshot next maxCells).isEmpty = false) :
    (Pipeline.apply (Session.hostBeside isMissing) (model read) maxCells
      (ActionToken.encode ((Candidate.fix p d change).action s.snapshot) s.version Action.defaultProfile)).on s =
        (.ok ⟨s.version, s.version + 1, .between s.snapshot next maxCells⟩, ⟨next, s.version + 1⟩) := by
  have hpoint : (Candidate.fix p d change).Made (model read) s.snapshot path ⟨0, 0⟩ := h
  obtain ⟨f, hf, -⟩ := placed_of_made hs hpoint
  obtain ⟨c', next', hstands, hnext', hprepared⟩ := prepared_of_made maxCells Action.defaultProfile hs hw hpoint hf
    ⟨Nat.zero_le _, Nat.zero_le _⟩
  rw [hstands.fix p d change rfl, hnext] at hnext'
  cases hnext'
  exact Pipeline.apply_of_allowed hprepared (Candidate.outcome_of_allowed hallowed) hchanges

/-- A session is guarded when the fixes that no provider has listed lead nowhere else. -/
theorem guarded_iff_unlisted (hs : read.FitsAll s.snapshot) (hw : s.InWords) :
    s.Guarded isMissing (model read) maxCells ↔ ∀ path p d change next,
      (Candidate.fix p d change).Made (model read) s.snapshot path ⟨0, 0⟩ → d.id ∈ Policy.allowed →
      d.id ∉ p.fixable → change.apply s.snapshot = .ok next →
      (ChangeSet.between s.snapshot next maxCells).isEmpty = false → Sanctioned (model read) s.snapshot next := by
  constructor
  · intro h path p d change next hmade hallowed _ hnext hchanges
    exact h _ _ _ (apply_of_allowed_fix isMissing maxCells hs hw hmade hallowed hnext hchanges)
  · intro h raw a s' happly
    obtain ⟨path, span, c, hmade, hallowed, hnext, hchanges⟩ := allowed_of_apply happly
    by_cases hpaired : c.Paired
    · exact ⟨path, span, c, hmade, hpaired, hallowed, hnext⟩
    · cases c with
      | fix p d change => exact h path p d change _ hmade hallowed hpaired hnext hchanges
      | refactoring p path' span' change => exact hallowed.elim
      | builtin path' b => exact absurd trivial hpaired

/-! ## Sizes -/

theorem size_le_of_sanctioned {s next : Snapshot} {p old new : String} (hs : read.FitsAll s)
    (h : Sanctioned (model read) s next) (hold : s.text? p = some old) (hnew : next.text? p = some new) :
    Text.size new.toList ≤ Text.size old.toList := by
  obtain ⟨path, span, c, hmade, hpaired, hallowed, hnext⟩ := h
  obtain ⟨f, title, key, es, hf, hchange, r, rfl, hr, -⟩ := removal_of_allowed hs hmade hpaired hallowed
  obtain ⟨text, ht, rfl⟩ := sourceFile_eq_ok.1 hf
  obtain ⟨next', new', happly, hedit, -, htexts⟩ := apply_single title key (e := .delete r) ht hr
  rw [hchange, happly] at hnext
  cases hnext
  rw [htexts] at hnew
  by_cases hp : p = path
  · rw [if_pos hp] at hnew
    cases hnew
    rw [hp, ht] at hold
    cases hold
    have := Edit.applyAll_delete_size hr hedit
    omega
  · rw [if_neg hp, hold] at hnew
    cases hnew
    exact Nat.le_refl _

/-! ## Fixes that no provider has listed -/

theorem single_apply {s : Snapshot} {title key path : String} {es : List Edit} :
    (CodeAction.single title key path es).apply s = s.withEdits path es := by
  change CodeAction.applyEdits s [⟨path, es⟩] = _
  rw [CodeAction.applyEdits]
  cases s.withEdits path es <;> rfl

/-- Edits of a document that change nothing or lead to where a sanctioned change leads. -/
def Harmless (read : Parser) (s : Snapshot) (path : String) (es? : Option (List Edit)) : Prop :=
  ∀ es next, es? = some es → s.withEdits path es = .ok next → (∃ p, s.text? p ≠ next.text? p) →
    Sanctioned (model read) s next

theorem isEmpty_between_eq_false {s next : Snapshot} :
    (ChangeSet.between s next maxCells).isEmpty = false ↔ ∃ p, s.text? p ≠ next.text? p := by
  rw [← Bool.not_eq_true, ChangeSet.isEmpty_between_iff, not_forall]

theorem made_of_rule {path title key : String} {f : SourceFile} {p : FixProvider} {d : Diagnostic}
    {edits? : SourceFile → Diagnostic → Option (List Edit)} {es : List Edit} {r : Registry} {s : Snapshot} (span : Span)
    (hs : read.FitsAll s) (hf : sourceFile read s path = .ok f)
    (hd : d ∈ diagnostics (Compilation.ofSnapshot read s) f) (hr : registry read = .ok r) (hp : p ∈ r.fixes)
    (hform : p = fixProvider read p.typeName p.fixable title key edits?) (he : edits? f d = some es) :
    (Candidate.fix p d (.single title key path es)).Made (model read) s path span := by
  have hds : ((model read).view s).diagnostics path = .ok (diagnostics (Compilation.ofSnapshot read s) f) := by
    rw [diagnostics_view, hf]
    rfl
  obtain ⟨f', hf', hlocation, -⟩ := mem_view_diagnostics hs hds hd
  have hpath : d.path = path := congrArg Location.path hlocation
  subst hpath
  refine ⟨r, _, [.single title key d.path es], hr, hp, hds, hd, ?_, List.mem_cons_self⟩
  rw [hform]
  refine Result.map_eq_ok.2 ⟨f, hf, ?_⟩
  rw [he]

theorem localRemoval?_of_unneededUsing {f : SourceFile} {d : Diagnostic} (hf : f.root.fits f.chars = true)
    (hd : d.id = unneededUsingId) : localRemoval? f d = none := by
  cases h : localRemoval? f d with
  | none => rfl
  | some es =>
    obtain ⟨l, hl, -⟩ := Option.map_eq_some_iff.1 h
    have hid := (UnusedLocal.placed_of_mem hf (List.mem_of_find?_eq_some hl)).id
    have hsame := List.find?_some (p := fun l : UnusedLocal => l.nameSpan == d.span && l.diagnosticId == d.id) hl
    rw [beq_iff_eq.1 (Bool.and_eq_true_iff.1 hsame).2, hd] at hid
    exact absurd hid (by decide)

/-- Adding `readonly` is never harmless: the text grows. -/
theorem not_harmless_readonlyInsertion {s : Snapshot} {path : String} {f : SourceFile} {d : Diagnostic}
    (hs : read.FitsAll s) (hf : sourceFile read s path = .ok f) (hd : d.span.Fits f.chars)
    (h : Harmless read s path (readonlyInsertion? f d)) : readonlyInsertion? f d = none := by
  cases he : readonlyInsertion? f d with
  | none => rfl
  | some es =>
    obtain ⟨e, rfl, hfits⟩ := fixRule_readonlyInsertion.single (fits_of_sourceFile hs hf) hd he
    obtain ⟨-, n, -, -, hn⟩ := readonlyInsertion?_eq_some he
    cases hn
    obtain ⟨text, ht, rfl⟩ := sourceFile_eq_ok.1 hf
    obtain ⟨next, new, happly, hnew, -, htexts⟩ := apply_single "" "" (e := .insert n "readonly ") ht hfits
    rw [single_apply] at happly
    have hnext : next.text? path = some new := by rw [htexts, if_pos rfl]
    have hsize := Edit.applyAll_single_size hfits hnew
    have hgrown : Text.size text.toList < Text.size new.toList := by
      have hlength : (Edit.insert n "readonly ").span.length = 0 := rfl
      have hword : Text.size "readonly ".toList = 9 := by decide
      omega
    have hchanged : ∃ p, s.text? p ≠ next.text? p := by
      refine ⟨path, fun heq => ?_⟩
      rw [ht, hnext] at heq
      cases heq
      exact Nat.lt_irrefl _ hgrown
    have hle := size_le_of_sanctioned hs (h _ next he happly hchanged) ht hnext
    omega

theorem harmless_of_unlisted {path title key : String} {f : SourceFile} {p : FixProvider} {d : Diagnostic}
    {edits? : SourceFile → Diagnostic → Option (List Edit)} {r : Registry} (hs : read.FitsAll s.snapshot)
    (hw : s.InWords) (h : s.Guarded isMissing (model read) maxCells) (hf : sourceFile read s.snapshot path = .ok f)
    (hd : d ∈ diagnostics (Compilation.ofSnapshot read s.snapshot) f) (hallowed : d.id ∈ Policy.allowed)
    (hr : registry read = .ok r) (hp : p ∈ r.fixes) (hunlisted : d.id ∉ p.fixable)
    (hform : p = fixProvider read p.typeName p.fixable title key edits?) :
    Harmless read s.snapshot path (edits? f d) := fun _ next he hnext hchanged =>
  (guarded_iff_unlisted hs hw).1 h path p d _ next (made_of_rule ⟨0, 0⟩ hs hf hd hr hp hform he) hallowed hunlisted
    (single_apply.trans hnext) (isEmpty_between_eq_false.2 hchanged)

theorem sanctioned_of_harmless {path typeName title key : String} {fixable : List String} {f : SourceFile}
    {d : Diagnostic} {edits? : SourceFile → Diagnostic → Option (List Edit)} {changes : List CodeAction}
    {change : CodeAction} {s next : Snapshot} (hf : sourceFile read s path = .ok f) (hpath : d.path = path)
    (hprovide : (fixProvider read typeName fixable title key edits?).provide s d = .ok changes)
    (hmem : change ∈ changes) (hnext : change.apply s = .ok next) (hchanged : ∃ p, s.text? p ≠ next.text? p)
    (h : Harmless read s path (edits? f d)) : Sanctioned (model read) s next := by
  obtain ⟨f', es, hf', hes, -, rfl⟩ := mem_provide_fix hprovide hmem
  subst hpath
  rw [hf] at hf'
  cases hf'
  exact h es next hes (single_apply.symm.trans hnext) hchanged

theorem harmless_of_none {s : Snapshot} {path : String} {es? : Option (List Edit)} (h : es? = none) :
    Harmless read s path es? := fun es _ he => by
  rw [h] at he
  cases he

/-- A session is guarded exactly when no field is offered `readonly` for an allowed diagnostic in it, and what sorting
modifiers and removing usings make of such a diagnostic is harmless. -/
theorem guarded_iff (hs : read.FitsAll s.snapshot) (hw : s.InWords) :
    s.Guarded isMissing (model read) maxCells ↔ ∀ path f d, sourceFile read s.snapshot path = .ok f →
      d ∈ diagnostics (Compilation.ofSnapshot read s.snapshot) f → d.id ∈ Policy.allowed →
        readonlyInsertion? f d = none ∧ Harmless read s.snapshot path (modifierSorting? f d) ∧
          (d.id ≠ unneededUsingId → Harmless read s.snapshot path (usingRemoval? f d)) := by
  -- Each provider is registered, so a token can name it together with any diagnostic that is there.
  obtain ⟨r, hr⟩ := registry_ok read
  constructor
  · intro h path f d hf hd hallowed
    obtain ⟨-, hspan, -⟩ := mem_diagnostics (fits_of_sourceFile hs hf) hd
    have hmember {p : FixProvider} := (mem_fixes_iff (p := p) hr).2
    refine ⟨?_, ?_, fun hid => ?_⟩
    · have hunlisted : d.id ∉ (makeFieldReadonly read).fixable := fun hlisted => by
        rw [List.mem_singleton.1 hlisted] at hallowed
        exact absurd hallowed (by decide)
      exact not_harmless_readonlyInsertion hs hf hspan
        (harmless_of_unlisted hs hw h hf hd hallowed hr (hmember (by simp)) hunlisted rfl)
    · have hunlisted : d.id ∉ (orderModifiers read).fixable := fun hlisted => by
        rw [List.mem_singleton.1 hlisted] at hallowed
        exact absurd hallowed (by decide)
      exact harmless_of_unlisted hs hw h hf hd hallowed hr (hmember (by simp)) hunlisted rfl
    · have hunlisted : d.id ∉ (removeUnnecessaryImports read).fixable := fun hlisted => by
        rcases List.mem_cons.1 hlisted with hlisted | hlisted
        · exact hid hlisted
        · rw [List.mem_singleton.1 hlisted] at hallowed
          exact absurd hallowed (by decide)
      exact harmless_of_unlisted hs hw h hf hd hallowed hr (hmember (by simp)) hunlisted rfl
  · intro h
    refine (guarded_iff_unlisted hs hw).2 fun path p d change next hmade hallowed hunlisted hnext hchanges => ?_
    obtain ⟨r', ds, changes, hr', hp, hds, hd, hprovide, hmem⟩ := hmade
    rw [diagnostics_view] at hds
    obtain ⟨f, hf, rfl⟩ := Result.map_eq_ok.1 hds
    obtain ⟨hreadonly, hmodifiers, husings⟩ := h path f d hf hd hallowed
    have hfits := fits_of_sourceFile hs hf
    obtain ⟨hlocation, -⟩ := mem_diagnostics hfits hd
    have hpath : d.path = path := by
      obtain ⟨text, -, rfl⟩ := sourceFile_eq_ok.1 hf
      exact congrArg Location.path hlocation
    have hchanged := isEmpty_between_eq_false.1 hchanges
    -- The removal of locals makes nothing of an allowed diagnostic that it does not list; the other three are given.
    rcases (mem_fixes_iff hr').1 hp with rfl | rfl | rfl | rfl
    · have hid : d.id = unneededUsingId := by
        simp only [Policy.allowed, List.mem_cons, List.not_mem_nil, or_false] at hallowed
        rcases hallowed with hid | hid | hid
        · exact absurd (hid ▸ List.mem_cons_self) hunlisted
        · exact absurd (hid ▸ List.mem_cons_of_mem _ List.mem_cons_self) hunlisted
        · exact hid
      exact sanctioned_of_harmless hf hpath hprovide hmem hnext hchanged
        (harmless_of_none (localRemoval?_of_unneededUsing hfits hid))
    · have hid : d.id ≠ unneededUsingId := fun hid => hunlisted (hid ▸ List.mem_cons_self)
      exact sanctioned_of_harmless hf hpath hprovide hmem hnext hchanged (husings hid)
    · exact sanctioned_of_harmless hf hpath hprovide hmem hnext hchanged hmodifiers
    · exact sanctioned_of_harmless hf hpath hprovide hmem hnext hchanged (harmless_of_none hreadonly)

end

theorem guarded_unusedLocal : unusedLocal.Guarded (fun _ => true) (model parse) 1000 := by
  have hnone : ∀ doc ∈ unusedLocal.snapshot.documents,
      ∀ d ∈ diagnostics (Compilation.ofSnapshot parse unusedLocal.snapshot) (.ofText parse doc.path doc.text),
        readonlyInsertion? (.ofText parse doc.path doc.text) d = none ∧
          modifierSorting? (.ofText parse doc.path doc.text) d = none ∧
          usingRemoval? (.ofText parse doc.path doc.text) d = none := by decide +kernel
  refine (guarded_iff unusedLocal_fits unusedLocal_inWords).2 fun path f d hf hd _ => ?_
  obtain ⟨text, ht, rfl⟩ := sourceFile_eq_ok.1 hf
  obtain ⟨doc, hdoc, rfl⟩ := Option.map_eq_some_iff.1 ht
  obtain ⟨hmem, rfl⟩ := Snapshot.document?_path hdoc
  obtain ⟨hreadonly, hmodifiers, husings⟩ := hnone doc hmem d hd
  exact ⟨hreadonly, harmless_of_none hmodifiers, fun _ => harmless_of_none husings⟩

def lambdaFieldText : String := "class A\n\x7b\n    public System.Action a = () => \x7b int x; \x7d;\n\x7d\n"

/-- A session on one class with a field that holds a lambda with an unused local. -/
def lambdaField : Session := .start (Snapshot.empty.addDocument "App" "a.cs" lambdaFieldText none)

def lambdaFieldDiagnostic : Diagnostic :=
  ⟨"CS0168", "The variable 'x' is declared but never used", .warning, ⟨"a.cs", 3, 42, ⟨51, 1⟩⟩⟩

/-- The unused local, described as if the provider of `readonly` had a fix for it. -/
def lambdaFieldAction : Action where
  title := "Add readonly modifier"
  category := "compiler"
  origin := .compilerFix
  providerKey := (ProviderKey.codeFix "MakeFieldReadonlyCodeFixProvider" "CS0168" "MakeFieldReadonly"
    "Add readonly modifier").encode
  filePath := "a.cs"
  span := ⟨51, 1⟩
  diagnosticId := some "CS0168"
  refactoringId := none
  line := 3
  column := 42

theorem action_lambdaField : (Candidate.fix (makeFieldReadonly parse) lambdaFieldDiagnostic
    (.single "Add readonly modifier" "MakeFieldReadonly" "a.cs" [.insert 21 "readonly "])).action
      lambdaField.snapshot = lambdaFieldAction := by
  have hcategory : Action.categoryOf "CS0168" = "compiler" := by decide
  change Catalog.ofFix "MakeFieldReadonlyCodeFixProvider" lambdaFieldDiagnostic _ = _
  rw [Catalog.ofFix, lambdaFieldAction, ← hcategory]
  rfl

/-- The token commits `readonly`, which policy is not meant to let through. -/
theorem lambdaField_not_sanctioned : ∃ a s',
    (Pipeline.apply Session.host (model parse) 1000
      (ActionToken.encode lambdaFieldAction 1 "default")).on
        lambdaField = (.ok a, s') ∧
      s'.snapshot.text? "a.cs" =
        some "class A\n\x7b\n    public readonly System.Action a = () => \x7b int x; \x7d;\n\x7d\n" ∧
      ¬ Sanctioned (model parse) lambdaField.snapshot s'.snapshot := by
  have hs : Parser.FitsAll parse lambdaField.snapshot := by
    unfold Parser.FitsAll
    decide +kernel
  have hw : lambdaField.InWords := ⟨by decide, by decide +kernel⟩
  have ht : lambdaField.snapshot.text? "a.cs" = some lambdaFieldText := by decide +kernel
  have hf : sourceFile parse lambdaField.snapshot "a.cs" = .ok (.ofText parse "a.cs" lambdaFieldText) :=
    sourceFile_eq_ok.2 ⟨_, ht, rfl⟩
  have hd : lambdaFieldDiagnostic ∈ diagnostics (Compilation.ofSnapshot parse lambdaField.snapshot)
      (.ofText parse "a.cs" lambdaFieldText) := by decide +kernel
  have he : readonlyInsertion? (.ofText parse "a.cs" lambdaFieldText) lambdaFieldDiagnostic =
      some [.insert 21 "readonly "] := by decide +kernel
  obtain ⟨r, hr⟩ := registry_ok parse
  have hp : makeFieldReadonly parse ∈ r.fixes := (mem_fixes_iff hr).2 (by simp)
  have hmade := made_of_rule ⟨0, 0⟩ hs hf hd hr hp rfl he
  obtain ⟨next, new, hnext, hnew, -, htexts⟩ := apply_single "Add readonly modifier" "MakeFieldReadonly"
    (e := .insert 21 "readonly ") ht ⟨by decide +kernel, by decide +kernel⟩
  have hnew : new = "class A\n\x7b\n    public readonly System.Action a = () => \x7b int x; \x7d;\n\x7d\n" := by
    have hedit : Edit.applyAll lambdaFieldText [.insert 21 "readonly "] =
      .ok "class A\n\x7b\n    public readonly System.Action a = () => \x7b int x; \x7d;\n\x7d\n" := by decide +kernel
    rw [hedit] at hnew
    exact (Except.ok.inj hnew).symm
  have htext : next.text? "a.cs" = some new := by rw [htexts, if_pos rfl]
  have hchanged : ∃ p, lambdaField.snapshot.text? p ≠ next.text? p := by
    refine ⟨"a.cs", ?_⟩
    rw [ht, htext, hnew]
    decide
  have happly := apply_of_allowed_fix (fun _ => true) 1000 hs hw hmade (by decide) hnext
    (isEmpty_between_eq_false.2 hchanged)
  rw [action_lambdaField] at happly
  refine ⟨_, _, happly, ?_, ?_⟩
  · rw [htext, hnew]
  · intro h
    exact absurd (size_le_of_sanctioned hs h ht htext) (by rw [hnew]; decide)

end CSharp

end Workbench
