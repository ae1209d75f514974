import Workbench.Proofs.Agreement
import Workbench.Proofs.Canonical
import Workbench.Proofs.Tracing

/-!
# Ends in words

What a token is turned into takes the ends of spans of the syntax tree and of
edits, which are in the text, and of one span that the token itself brings. That
one is held against the local declarations of a document, whatever its length is.
-/

namespace Workbench

def Span.InWord (s : Span) : Prop := s.stop < wordLimit

instance (s : Span) : Decidable s.InWord := inferInstanceAs (Decidable (s.stop < wordLimit))

namespace CSharp

/-! ## Offers -/

def locals (f : SourceFile) : List Node := f.root.descendantsOf [.localDeclarationStatement]

def touchesTraced (s : Span) (n : Node) : Traced Bool := n.span.intersectsTraced s

/-- The local declarations are tested in turn, up to the first one that an explicit type can be written for. -/
def explicitTypeTraced (f : SourceFile) (s : Span) : Traced (Option (List Edit)) :=
  (locals f).findSomeM? fun n => do
    if ← touchesTraced s n then return explicitType? f n else return none

def builtinsTraced (f : SourceFile) (s : Span) : Traced (List Builtin) := do
  let unused ← Traced.filter (fun l => touchesTraced s l.statement) (UnusedLocal.all f)
  let touched ← Traced.filter (touchesTraced s) (locals f)
  return unused.map (removeLocalBuiltin f) ++ touched.filterMap (inferredType? f)

/-- A provider of fixes, and the ends that it takes when it looks at a file. -/
structure TracedFix where
  provider : FixProvider
  ends : SourceFile → Diagnostic → List Span

structure TracedRefactoring where
  provider : RefactoringProvider
  ends : SourceFile → Span → List Span

section
variable (read : Parser)

def tracedFixes : List TracedFix :=
  [⟨removeUnusedVariable read, fun _ _ => []⟩,
    ⟨removeUnnecessaryImports read, fun f d => (f.root.coveringTraced d.span [.usingDirective]).ends⟩,
    ⟨orderModifiers read, fun _ _ => []⟩,
    ⟨makeFieldReadonly read, fun f d => (f.root.coveringTraced d.span [.fieldDeclaration]).ends⟩]

def tracedRefactorings : List TracedRefactoring :=
  [⟨useExplicitType read, fun f s => (explicitTypeTraced f s).ends⟩,
    ⟨addBraces read, fun f s => (f.root.coveringTraced ⟨s.start, 0⟩ [.ifStatement]).ends⟩]

/-- A result that comes from a document, with the ends taken once the document is there. -/
def fromFile {α : Type} (s : Snapshot) (path : String) (r : Result α) (ends : SourceFile → List Span) : TracedResult α :=
  ExceptT.mk ⟨r, match sourceFile read s path with
    | .ok f => ends f
    | .error _ => []⟩

/-! ## From token to change -/

def candidateTraced (s : Snapshot) (raw : String) (at_ : Action) : ProviderKey → TracedResult (CodeAction × Action)
  | .codeFix provider id key title => do
    let t ← .ofResult (Pipeline.known raw ((tracedFixes read).find? (·.provider.typeName == provider)))
    let ds ← .ofResult (((model read).view s).diagnostics at_.filePath)
    let d ← .ofResult (Pipeline.firstOr raw (fun d => d.id == id && d.span == at_.span) ds)
    let changes ← fromFile read s d.path (t.provider.provide s d) (t.ends · d)
    let fix ← .ofResult (Pipeline.firstOr raw (Pipeline.fits key title) changes)
    return (fix, Catalog.ofFix t.provider.typeName d fix)
  | .refactoring provider key title => do
    let t ← .ofResult (Pipeline.known raw ((tracedRefactorings read).find? (·.provider.typeName == provider)))
    let changes ← fromFile read s at_.filePath (t.provider.provide s at_.filePath at_.span) (t.ends · at_.span)
    let a ← .ofResult (Pipeline.firstOr raw (Pipeline.fits key title) changes)
    return (a, Catalog.ofRefactoring s t.provider.typeName at_.filePath at_.span a)
  | .builtin kind => do
    let f ← .ofResult (sourceFile read s at_.filePath)
    let bs ← .ofTraced (builtinsTraced f at_.span)
    let b ← .ofResult (Pipeline.firstOr raw
      (fun b => b.kind == kind && b.span == at_.span && b.diagnosticId == at_.diagnosticId) bs)
    return (b.action, Catalog.ofBuiltin s at_.filePath b)

def relocateTraced (s : Snapshot) (raw : String) (t : ActionToken) : TracedResult (CodeAction × Action) := do
  if (s.document? t.action.filePath).isNone then throw (.actionNotFound raw)
  let key ← .ofResult (Pipeline.known raw t.providerKey?)
  let (change, described) ← candidateTraced read s raw t.action key
  if Pipeline.sameAction t.action described then return (change, described) else throw (.actionNotFound raw)

def prepareTraced (maxCells : Nat) (raw : String) (t : ActionToken) (s : Snapshot) (version : Nat) :
    TracedResult Pipeline.Prepared := do
  .ofResult (checkVersion t.version version)
  let (change, described) ← relocateTraced read s raw t
  let next ← change.applyTraced s
  return ⟨described, Policy.evaluate described t.profile, version, next, .between s next maxCells⟩

def relocateRemovalTraced (s : Snapshot) (raw : String) (t : FixToken) : TracedResult CodeAction := do
  if BuiltinKind.ofText? t.operation ≠ some .removeUnusedLocal ∨ (s.document? t.filePath).isNone then
    throw (.fixNotFound raw)
  let f ← .ofResult (sourceFile read s t.filePath)
  match (← .ofTraced (builtinsTraced f t.span)).find? fun b =>
      b.kind == .removeUnusedLocal && b.span == t.span && b.diagnosticId == some t.diagnosticId with
  | some b => return b.action
  | none => throw (.fixNotFound raw)

def prepareRemovalTraced (maxCells : Nat) (raw : String) (t : FixToken) (s : Snapshot) (version : Nat) :
    TracedResult Removal.Prepared := do
  .ofResult (checkVersion t.version version)
  let change ← relocateRemovalTraced read s raw t
  let next ← change.applyTraced s
  return ⟨change.title, version, next, .between s next maxCells⟩

/-! ### They give what they give without a trace -/

variable {read}

theorem value_explicitTypeTraced (f : SourceFile) (s : Span) :
    (explicitTypeTraced f s).value = (touchedLocals f s).findSome? (explicitType? f) := by
  unfold explicitTypeTraced touchedLocals
  change _ = ((locals f).filter (touches s)).findSome? (explicitType? f)
  induction locals f with
  | nil => rfl
  | cons n ns ih =>
    have htouches : (touchesTraced s n).value = touches s n := n.span.value_intersectsTraced s
    rw [List.findSomeM?_cons, Traced.value_bind, Traced.value_bind, htouches, List.filter_cons]
    by_cases h : touches s n = true
    · rw [if_pos h, if_pos h, Traced.value_pure, List.findSome?_cons]
      cases explicitType? f n with
      | some es => rfl
      | none => exact ih
    · rw [if_neg h, if_neg h, Traced.value_pure]
      exact ih

theorem value_builtinsTraced (f : SourceFile) (s : Span) : (builtinsTraced f s).value = builtins f s := by
  simp only [builtinsTraced, Traced.value_bind, Traced.value_pure, Traced.value_filter, touchesTraced,
    Span.value_intersectsTraced]
  rfl

theorem registry_eq : registry read =
    .ok ⟨(tracedFixes read).map (·.provider), (tracedRefactorings read).map (·.provider)⟩ := rfl

theorem known_find?_map {α β : Type} (raw : String) (g : α → β) (q : β → Bool) (xs : List α) :
    Pipeline.known raw ((xs.map g).find? q) = (Pipeline.known raw (xs.find? fun a => q (g a))).map g := by
  have hfind : (xs.map g).find? q = (xs.find? fun a => q (g a)).map g := List.find?_map
  rw [hfind]
  cases xs.find? fun a => q (g a) <;> rfl

@[simp] theorem value_fromFile {α : Type} (s : Snapshot) (path : String) (r : Result α) (ends : SourceFile → List Span) :
    (fromFile read s path r ends).value = r := rfl

theorem value_candidateTraced (s : Snapshot) (raw : String) (at_ : Action) (key : ProviderKey) :
    (candidateTraced read s raw at_ key).value = Pipeline.candidate (model read) s raw at_ key := by
  cases key with
  | codeFix provider id key title =>
    rw [candidateTraced, Pipeline.candidate, show (model read).registry = _ from registry_eq]
    simp only [TracedResult.value_bind, TracedResult.value_ofResult, value_fromFile, TracedResult.value_pure]
    change _ = Pipeline.known raw (((tracedFixes read).map (·.provider)).find? (·.typeName == provider)) >>= _
    rw [known_find?_map]
    cases Pipeline.known raw ((tracedFixes read).find? (·.provider.typeName == provider)) <;> rfl
  | refactoring provider key title =>
    rw [candidateTraced, Pipeline.candidate, show (model read).registry = _ from registry_eq]
    simp only [TracedResult.value_bind, TracedResult.value_ofResult, value_fromFile, TracedResult.value_pure]
    change _ = Pipeline.known raw (((tracedRefactorings read).map (·.provider)).find? (·.typeName == provider)) >>= _
    rw [known_find?_map]
    cases Pipeline.known raw ((tracedRefactorings read).find? (·.provider.typeName == provider)) <;> rfl
  | builtin kind =>
    rw [candidateTraced, Pipeline.candidate, builtins_view]
    simp only [TracedResult.value_bind, TracedResult.value_ofResult, TracedResult.value_ofTraced, value_builtinsTraced,
      TracedResult.value_pure]
    cases sourceFile read s at_.filePath <;> rfl

theorem value_relocateTraced (s : Snapshot) (raw : String) (t : ActionToken) :
    (relocateTraced read s raw t).value = Pipeline.relocate (model read) s raw t := by
  unfold relocateTraced Pipeline.relocate
  by_cases hnone : (s.document? t.action.filePath).isNone = true
  · rw [if_pos hnone, if_pos hnone]
    rfl
  · rw [if_neg hnone, if_neg hnone]
    simp only [TracedResult.value_bind, TracedResult.value_ofResult, value_candidateTraced,
      apply_ite TracedResult.value, TracedResult.value_pure, TracedResult.value_throw]
    rfl

theorem value_prepareTraced (maxCells : Nat) (raw : String) (t : ActionToken) (s : Snapshot) (version : Nat) :
    (prepareTraced read maxCells raw t s version).value = Pipeline.prepareOn (model read) maxCells raw t s version := by
  simp only [prepareTraced, TracedResult.value_bind, TracedResult.value_ofResult, value_relocateTraced,
    CodeAction.value_applyTraced, TracedResult.value_pure]
  rfl

theorem value_relocateRemovalTraced (s : Snapshot) (raw : String) (t : FixToken) :
    (relocateRemovalTraced read s raw t).value = Removal.relocate (model read) s raw t := by
  unfold relocateRemovalTraced Removal.relocate
  by_cases hunknown : BuiltinKind.ofText? t.operation ≠ some .removeUnusedLocal ∨ (s.document? t.filePath).isNone = true
  · rw [if_pos hunknown, if_pos hunknown]
    rfl
  · rw [if_neg hunknown, if_neg hunknown, builtins_view]
    simp only [TracedResult.value_bind, TracedResult.value_ofResult, TracedResult.value_ofTraced, value_builtinsTraced]
    cases sourceFile read s t.filePath with
    | error e => rfl
    | ok f =>
      change TracedResult.value (match (builtins f t.span).find? _ with
        | some b => return b.action
        | none => throw (.fixNotFound raw)) = match (builtins f t.span).find? _ with
        | some b => .ok b.action
        | none => .error (.fixNotFound raw)
      cases (builtins f t.span).find? fun b =>
        b.kind == .removeUnusedLocal && b.span == t.span && b.diagnosticId == some t.diagnosticId <;> rfl

theorem value_prepareRemovalTraced (maxCells : Nat) (raw : String) (t : FixToken) (s : Snapshot) (version : Nat) :
    (prepareRemovalTraced read maxCells raw t s version).value =
      Removal.prepareOn (model read) maxCells raw t s version := by
  simp only [prepareRemovalTraced, TracedResult.value_bind, TracedResult.value_ofResult, value_relocateRemovalTraced,
    CodeAction.value_applyTraced, TracedResult.value_pure]
  rfl

end

/-! ## Calls -/

/-- The calls that take a token. -/
inductive TokenCall where
  | previewAction | applyAction | evaluatePolicy | previewFix | applyFix

namespace TokenCall

def call (raw : String) : TokenCall → Service.Call
  | previewAction => .previewAction raw
  | applyAction => .applyAction raw
  | evaluatePolicy => .evaluatePolicy raw
  | previewFix => .previewFix raw
  | applyFix => .applyFix raw

section
variable {σ : Type} (h : Host σ) (read : Parser) (limits : Limits) (raw : String) (st : σ)

/-- What becomes of a token that reads: a change is prepared on what is current, and once it is, no more ends are taken. -/
def afterDecoding {τ π : Type} (decoded : Result τ) (prepare : τ → Snapshot → Nat → TracedResult π)
    (finish : π → Op σ Service.Answer) : Traced (Result Service.Answer × σ) :=
  match decoded with
  | .error e => return (.error e, st)
  | .ok t => do
    let ((s, version), st) := h.current st
    match ← (prepare t s version).run with
    | .error e => return (.error e, st)
    | .ok p => return (finish p).on st

def runTraced : TokenCall → Traced (Result Service.Answer × σ)
  | previewAction => afterDecoding h st (ActionToken.decode raw) (prepareTraced read limits.diffCells raw) fun p =>
    return .actionPreview ⟨trim raw, p.base, p.action, p.decision, p.changes⟩
  | applyAction => afterDecoding h st (ActionToken.decode raw) (prepareTraced read limits.diffCells raw) fun p => do
    Op.ofResult (Pipeline.checkPrepared p)
    return .applied ⟨p.base, ← h.commit p.base p.next, p.changes⟩
  | evaluatePolicy => afterDecoding h st (ActionToken.decode raw) (prepareTraced read limits.diffCells raw) fun p =>
    return .decision p.decision
  | previewFix => afterDecoding h st (FixToken.decode raw) (prepareRemovalTraced read limits.diffCells raw) fun p =>
    return .removalPreview ⟨trim raw, p.base, p.title, p.changes⟩
  | applyFix => afterDecoding h st (FixToken.decode raw) (prepareRemovalTraced read limits.diffCells raw) fun p => do
    Op.ofResult (Removal.checkPrepared p)
    return .applied ⟨p.base, ← h.commit p.base p.next, p.changes⟩

theorem value_afterDecoding {τ π : Type} (decoded : Result τ) (prepare : τ → Snapshot → Nat → TracedResult π)
    (finish : π → Op σ Service.Answer) : (afterDecoding h st decoded prepare finish).value = Op.on (do
      let t ← Op.ofResult decoded
      let (s, version) ← h.snapshot
      finish (← Op.ofResult (prepare t s version).value)) st := by
  rw [Op.on_bind, Op.on_ofResult]
  cases decoded with
  | error e => rfl
  | ok t =>
    dsimp only [afterDecoding]
    rw [Op.on_bind, Host.snapshot, Op.on_lift]
    change _ = Op.on (Op.ofResult (prepare t (h.current st).1.1 (h.current st).1.2).value >>= finish) (h.current st).2
    rw [Op.on_bind, Op.on_ofResult, TracedResult.value]
    obtain ⟨⟨s, version⟩, st'⟩ := h.current st
    dsimp only
    rw [Traced.value_bind]
    cases (prepare t s version).run.value <;> rfl

theorem value_runTraced (c : Cancellation) (k : TokenCall) :
    (k.runTraced h read limits raw st).value = ((k.call raw).run h (model read) limits c).on st := by
  cases k <;>
    simp only [runTraced, value_afterDecoding, value_prepareTraced, value_prepareRemovalTraced, call, Service.Call.run,
      Pipeline.preview, Pipeline.apply, Pipeline.evaluatePolicy, Pipeline.prepare, Removal.preview, Removal.apply,
      Removal.prepare, bind_assoc, pure_bind]

end

end TokenCall

/-! ## What is taken is in a word -/

theorem within_checkVersion_bind {α : Type} {p : Span → Prop} {expected current : Nat} (f : Unit → TracedResult α) :
    (TracedResult.ofResult (checkVersion expected current) >>= f).Within p ↔ (expected = current → (f ()).Within p) := by
  rw [TracedResult.within_ofResult_bind]
  exact ⟨fun h he => h () (checkVersion_eq_ok.2 he), fun h _ he => h (checkVersion_eq_ok.1 he)⟩

/-- Whether the span of a token is held against local declarations when its rule is asked again. -/
def testsLocals : ProviderKey → Bool
  | .codeFix .. => false
  | .refactoring provider _ _ => provider == "UseExplicitTypeRefactoringProvider"
  | .builtin _ => true

/-- A span that ends in a word, if it is held against the local declarations of a document at all. -/
def Bounded (read : Parser) (s : Snapshot) (path : String) (span : Span) : Prop :=
  ∀ f, sourceFile read s path = .ok f → locals f ≠ [] → span.InWord

section
variable {f : SourceFile} {span : Span} {cs : List Char}

theorem inWord_of_fits (h : span.Fits cs) (hsize : Text.size cs < wordLimit) : span.InWord :=
  Nat.lt_of_le_of_lt (Text.le_size_of_isBoundary h.stop) hsize

theorem within_touchesTraced {n : Node} (hn : n.span.InWord) : (touchesTraced span n).Within Span.InWord ↔ span.InWord :=
  Span.within_intersectsTraced hn

theorem inWord_of_mem_locals (hf : f.root.fits f.chars = true) (hsize : Text.size f.chars < wordLimit) {n : Node}
    (hn : n ∈ locals f) : n.span.InWord :=
  inWord_of_fits (Node.fits_span (fits_of_mem_descendantsOf hf hn)) hsize

theorem within_explicitTypeTraced (hf : f.root.fits f.chars = true) (hsize : Text.size f.chars < wordLimit) :
    (explicitTypeTraced f span).Within Span.InWord ↔ (locals f ≠ [] → span.InWord) := by
  have hlocals : ∀ n ∈ locals f, n.span.InWord := fun n hn => inWord_of_mem_locals hf hsize hn
  unfold explicitTypeTraced
  generalize locals f = ns at hlocals ⊢
  induction ns with
  | nil => simp
  | cons n ns ih =>
    obtain ⟨hn, hns⟩ := List.forall_mem_cons.1 hlocals
    rw [List.findSomeM?_cons, Traced.within_bind, Traced.within_bind, within_touchesTraced hn]
    refine ⟨fun h _ => h.1.1, fun h => ?_⟩
    have hspan := h (List.cons_ne_nil n ns)
    refine ⟨⟨hspan, ?_⟩, ?_⟩
    · split <;> exact Traced.within_pure _
    · split
      · exact Traced.within_pure _
      · exact (ih hns).2 fun _ => hspan

theorem within_builtinsTraced (hf : f.root.fits f.chars = true) (hsize : Text.size f.chars < wordLimit) :
    (builtinsTraced f span).Within Span.InWord ↔ (locals f ≠ [] → span.InWord) := by
  have hlocals : ∀ n ∈ locals f, n.span.InWord := fun n hn => inWord_of_mem_locals hf hsize hn
  have hunused : ∀ l ∈ UnusedLocal.all f, l.statement ∈ locals f := by
    intro l hl
    obtain ⟨x, name, hsource⟩ := UnusedLocal.source_of_mem hl
    obtain ⟨hx, hk⟩ := List.mem_filter.1 hsource.statement
    rw [congrArg UnusedLocal.statement hsource.eq]
    exact List.mem_filter.2 ⟨List.mem_map_of_mem hx, hk⟩
  rw [builtinsTraced, Traced.within_bind, Traced.within_bind, Traced.within_filter, Traced.within_filter]
  constructor
  · rintro ⟨-, h, -⟩ hne
    obtain ⟨n, hn⟩ := List.exists_mem_of_ne_nil _ hne
    exact (within_touchesTraced (hlocals n hn)).1 (h n hn)
  · intro h
    have htouches : ∀ n ∈ locals f, (touchesTraced span n).Within Span.InWord := fun n hn =>
      (within_touchesTraced (hlocals n hn)).2 (h (List.ne_nil_of_mem hn))
    exact ⟨fun l hl => htouches _ (hunused l hl), htouches, Traced.within_pure _⟩

end

section
variable {read : Parser} {s : Snapshot} {raw path : String} {f : SourceFile} {span : Span}

theorem size_of_sourceFile (hsize : ∀ d ∈ s.documents, Text.size d.text.toList < wordLimit)
    (h : sourceFile read s path = .ok f) : Text.size f.chars < wordLimit := by
  obtain ⟨text, ht, rfl⟩ := sourceFile_eq_ok.1 h
  obtain ⟨d, hd, rfl⟩ := Option.map_eq_some_iff.1 ht
  exact hsize d (Snapshot.document?_path hd).1

theorem isNone_of_sourceFile (h : sourceFile read s path = .ok f) : (s.document? path).isNone = false := by
  obtain ⟨text, ht, -⟩ := sourceFile_eq_ok.1 h
  obtain ⟨d, hd, -⟩ := Option.map_eq_some_iff.1 ht
  rw [hd]
  rfl

theorem within_fromFile {α : Type} {r : Result α} {ends : SourceFile → List Span} :
    (fromFile read s path r ends).Within Span.InWord ↔ ∀ f, sourceFile read s path = .ok f → ∀ e ∈ ends f, e.InWord := by
  change (∀ e ∈ (match sourceFile read s path with
    | .ok f => ends f
    | .error _ => []), e.InWord) ↔ _
  cases sourceFile read s path with
  | error e => simp
  | ok f => simp

variable (hs : read.FitsAll s) (hsize : ∀ d ∈ s.documents, Text.size d.text.toList < wordLimit)
include hs hsize

/-- What looks for a fix keeps to spans of the text, and so does a refactoring that only looks at the start of its span. -/
theorem within_candidateTraced {at_ : Action} (hstart : at_.span.start < wordLimit) (key : ProviderKey) :
    (candidateTraced read s raw at_ key).Within Span.InWord ↔
      (testsLocals key = true → Bounded read s at_.filePath at_.span) := by
  cases key with
  | codeFix provider id key title =>
    refine iff_of_true ?_ fun h => absurd h Bool.false_ne_true
    simp only [candidateTraced, TracedResult.within_ofResult_bind]
    intro t ht ds hds d hd
    refine (TracedResult.within_bind _ _).2 ⟨within_fromFile.2 fun f hf => ?_, fun changes _ => ?_⟩
    · obtain ⟨f', hf', -, hfits, -⟩ := mem_view_diagnostics hs hds (List.mem_of_find?_eq_some (Pipeline.firstOr_eq_ok.1 hd))
      have hspan : d.span.InWord := inWord_of_fits hfits (size_of_sourceFile hsize hf')
      have ht := List.mem_of_find?_eq_some (Pipeline.known_eq_ok.1 ht)
      simp only [tracedFixes, List.mem_cons, List.not_mem_nil, or_false] at ht
      rcases ht with rfl | rfl | rfl | rfl
      · exact fun e he => absurd he List.not_mem_nil
      · exact Node.within_coveringTraced hspan _ _
      · exact fun e he => absurd he List.not_mem_nil
      · exact Node.within_coveringTraced hspan _ _
    · rw [TracedResult.within_ofResult_bind]
      exact fun fix _ => TracedResult.within_pure _
  | refactoring provider key title =>
    have hiff : (candidateTraced read s raw at_ (.refactoring provider key title)).Within Span.InWord ↔
        ∀ t, Pipeline.known raw ((tracedRefactorings read).find? (·.provider.typeName == provider)) = .ok t →
          ∀ f, sourceFile read s at_.filePath = .ok f → ∀ e ∈ t.ends f at_.span, e.InWord := by
      rw [candidateTraced, TracedResult.within_ofResult_bind]
      refine forall_congr' fun t => imp_congr_right fun _ => ?_
      rw [TracedResult.within_bind, within_fromFile]
      exact and_iff_left fun changes _ => by simp
    rw [hiff]
    constructor
    · intro h htests f hf
      obtain rfl : provider = "UseExplicitTypeRefactoringProvider" := by simpa [testsLocals] using htests
      exact (within_explicitTypeTraced (fits_of_sourceFile hs hf) (size_of_sourceFile hsize hf)).1 (h _ rfl f hf)
    · intro h t ht f hf
      have ht := Pipeline.known_eq_ok.1 ht
      have hname := List.find?_some ht
      have ht := List.mem_of_find?_eq_some ht
      simp only [tracedRefactorings, List.mem_cons, List.not_mem_nil, or_false] at ht
      rcases ht with rfl | rfl
      · have htests : testsLocals (.refactoring provider key title) = true := (beq_iff_eq.1 hname) ▸ beq_self_eq_true _
        exact (within_explicitTypeTraced (fits_of_sourceFile hs hf) (size_of_sourceFile hsize hf)).2 (h htests f hf)
      · exact Node.within_coveringTraced (s := ⟨at_.span.start, 0⟩) hstart _ _
  | builtin kind =>
    rw [candidateTraced, TracedResult.within_ofResult_bind, testsLocals, forall_prop_of_true rfl]
    refine forall_congr' fun f => imp_congr_right fun hf => ?_
    rw [TracedResult.within_ofTraced_bind, within_builtinsTraced (fits_of_sourceFile hs hf) (size_of_sourceFile hsize hf)]
    exact and_iff_left (by simp)

theorem within_relocateTraced {t : ActionToken} (hstart : t.action.span.start < wordLimit) :
    (relocateTraced read s raw t).Within Span.InWord ↔
      ∀ key, t.providerKey? = some key → testsLocals key = true → Bounded read s t.action.filePath t.action.span := by
  unfold relocateTraced
  by_cases hnone : (s.document? t.action.filePath).isNone = true
  · rw [if_pos hnone]
    refine iff_of_true (TracedResult.within_throw _) fun key _ _ f hf => ?_
    rw [isNone_of_sourceFile hf] at hnone
    exact nomatch hnone
  · rw [if_neg hnone]
    change (TracedResult.ofResult (Pipeline.known raw t.providerKey?) >>= _).Within _ ↔ _
    rw [TracedResult.within_ofResult_bind]
    refine forall_congr' fun key => ?_
    rw [Pipeline.known_eq_ok, TracedResult.within_bind, within_candidateTraced hs hsize hstart]
    refine imp_congr_right fun _ => and_iff_left fun r _ => ?_
    obtain ⟨change, described⟩ := r
    dsimp only
    split
    · exact TracedResult.within_pure _
    · exact TracedResult.within_throw _

theorem inWord_of_made {c : Candidate} (h : c.Made (model read) s path span) :
    ∀ d ∈ c.change.edits, ∀ e ∈ d.edits, e.span.InWord := by
  obtain ⟨f, hf, hplaced⟩ := placed_of_made hs h
  obtain ⟨title, key, es, hchange, e, rfl, hfits⟩ := hplaced.edit
  rw [hchange]
  intro d hd e' he
  obtain rfl := List.mem_singleton.1 hd
  obtain rfl := List.mem_singleton.1 he
  exact inWord_of_fits hfits (size_of_sourceFile hsize hf)

theorem within_prepareTraced (maxCells : Nat) {t : ActionToken} (hstart : t.action.span.start < wordLimit) (version : Nat) :
    (prepareTraced read maxCells raw t s version).Within Span.InWord ↔ (t.version = version →
      ∀ key, t.providerKey? = some key → testsLocals key = true → Bounded read s t.action.filePath t.action.span) := by
  rw [prepareTraced, within_checkVersion_bind, TracedResult.within_bind, within_relocateTraced hs hsize hstart]
  refine imp_congr_right fun _ => and_iff_left fun r hr => ?_
  rw [value_relocateTraced] at hr
  obtain ⟨c, hmade, hchange, -⟩ := Pipeline.made_of_relocate hr
  have hedits := hchange ▸ inWord_of_made hs hsize hmade
  exact (TracedResult.within_bind _ _).2 ⟨CodeAction.within_applyTraced hedits s, fun _ _ => TracedResult.within_pure _⟩

theorem within_relocateRemovalTraced (t : FixToken) : (relocateRemovalTraced read s raw t).Within Span.InWord ↔
    (BuiltinKind.ofText? t.operation = some .removeUnusedLocal → Bounded read s t.filePath t.span) := by
  unfold relocateRemovalTraced
  by_cases hknown : BuiltinKind.ofText? t.operation = some .removeUnusedLocal
  · rw [forall_prop_of_true hknown]
    by_cases hnone : (s.document? t.filePath).isNone = true
    · rw [if_pos (.inr hnone)]
      refine iff_of_true (TracedResult.within_throw _) fun f hf => ?_
      rw [isNone_of_sourceFile hf] at hnone
      exact nomatch hnone
    · rw [if_neg (by simp [hknown, hnone])]
      change (TracedResult.ofResult (sourceFile read s t.filePath) >>= _).Within _ ↔ _
      rw [TracedResult.within_ofResult_bind]
      refine forall_congr' fun f => imp_congr_right fun hf => ?_
      rw [TracedResult.within_ofTraced_bind, within_builtinsTraced (fits_of_sourceFile hs hf) (size_of_sourceFile hsize hf)]
      refine and_iff_left ?_
      split
      · exact TracedResult.within_pure _
      · exact TracedResult.within_throw _
  · rw [if_pos (.inl hknown)]
    exact iff_of_true (TracedResult.within_throw _) fun h => absurd h hknown

omit hs hsize in
theorem made_of_relocateRemoval {t : FixToken} {change : CodeAction}
    (h : Removal.relocate (model read) s raw t = .ok change) :
    ∃ b, (Candidate.builtin t.filePath b).Made (model read) s t.filePath t.span ∧ b.action = change := by
  unfold Removal.relocate at h
  split at h
  · cases h
  · obtain ⟨bs, hbs, h⟩ := Result.bind_eq_ok.1 h
    split at h
    · rename_i b hb
      cases h
      exact ⟨b, ⟨rfl, bs, hbs, List.mem_of_find?_eq_some hb⟩, rfl⟩
    · cases h

theorem within_prepareRemovalTraced (maxCells : Nat) (t : FixToken) (version : Nat) :
    (prepareRemovalTraced read maxCells raw t s version).Within Span.InWord ↔
      (t.version = version → BuiltinKind.ofText? t.operation = some .removeUnusedLocal →
        Bounded read s t.filePath t.span) := by
  rw [prepareRemovalTraced, within_checkVersion_bind, TracedResult.within_bind, within_relocateRemovalTraced hs hsize]
  refine imp_congr_right fun _ => and_iff_left fun change hchange => ?_
  rw [value_relocateRemovalTraced] at hchange
  obtain ⟨b, hmade, rfl⟩ := made_of_relocateRemoval hchange
  have hedits := inWord_of_made hs hsize hmade
  exact (TracedResult.within_bind _ _).2 ⟨CodeAction.within_applyTraced hedits s, fun _ _ => TracedResult.within_pure _⟩

end

/-! ### What a token brings -/

namespace TokenCall

/-- The place and the span that a call holds against local declarations, when its token is one of the current version. -/
def tested? (raw : String) (version : Nat) : TokenCall → Option (String × Span)
  | previewAction | applyAction | evaluatePolicy =>
    match ActionToken.decode raw with
    | .ok t =>
      if t.version = version ∧ t.providerKey?.any testsLocals = true then some (t.action.filePath, t.action.span) else none
    | .error _ => none
  | previewFix | applyFix =>
    match FixToken.decode raw with
    | .ok t =>
      if t.version = version ∧ BuiltinKind.ofText? t.operation = some .removeUnusedLocal then some (t.filePath, t.span)
      else none
    | .error _ => none

section
variable {σ : Type} {h : Host σ} {read : Parser} {limits : Limits} {raw : String} {st : σ} {s : Snapshot} {version : Nat}

theorem within_afterDecoding {τ π : Type} {p : Span → Prop} {decoded : Result τ}
    {prepare : τ → Snapshot → Nat → TracedResult π} {finish : π → Op σ Service.Answer} (hcurrent : (h.current st).1 = (s, version)) :
    (afterDecoding h st decoded prepare finish).Within p ↔ ∀ t, decoded = .ok t → (prepare t s version).Within p := by
  cases decoded with
  | error e => exact iff_of_true (Traced.within_pure _) fun t ht => nomatch ht
  | ok t =>
    dsimp only [afterDecoding]
    generalize h.current st = c at hcurrent ⊢
    obtain ⟨current, st'⟩ := c
    obtain rfl : current = (s, version) := hcurrent
    dsimp only
    rw [Traced.within_bind]
    have hrest : (match (prepare t s version).run.value with
        | .error e => (return (.error e, st') : Traced (Result Service.Answer × σ))
        | .ok p => return (finish p).on st').Within p := by
      split <;> exact Traced.within_pure _
    rw [and_iff_left hrest]
    simp [TracedResult.Within]

variable (hcurrent : (h.current st).1 = (s, version)) (hs : read.FitsAll s)
  (hsize : ∀ d ∈ s.documents, Text.size d.text.toList < wordLimit)
include hcurrent hs hsize

theorem within_runTraced (k : TokenCall) : (k.runTraced h read limits raw st).Within Span.InWord ↔
    ∀ path span, k.tested? raw version = some (path, span) → Bounded read s path span := by
  have hsome : ∀ {c : Prop} [Decidable c] {place : String × Span},
      (∀ path span, (if c then some place else none) = some (path, span) → Bounded read s path span) ↔
        (c → Bounded read s place.1 place.2) := by
    intro c _ place
    by_cases hc : c <;> simp [hc, Prod.ext_iff]
  have haction : (∀ t, ActionToken.decode raw = .ok t →
        (prepareTraced read limits.diffCells raw t s version).Within Span.InWord) ↔
      ∀ path span, previewAction.tested? raw version = some (path, span) → Bounded read s path span := by
    unfold tested?
    cases ht : ActionToken.decode raw with
    | error e => simp
    | ok t =>
      have hstart := (ActionToken.decode_eq_ok ht).2.1.start
      simp only [Except.ok.injEq, forall_eq', within_prepareTraced hs hsize limits.diffCells hstart, hsome, and_imp,
        Option.any_eq_true, forall_exists_index]
  have hfix : (∀ t, FixToken.decode raw = .ok t →
        (prepareRemovalTraced read limits.diffCells raw t s version).Within Span.InWord) ↔
      ∀ path span, previewFix.tested? raw version = some (path, span) → Bounded read s path span := by
    unfold tested?
    cases FixToken.decode raw with
    | error e => simp
    | ok t => simp only [Except.ok.injEq, forall_eq', within_prepareRemovalTraced hs hsize, hsome, and_imp]
  cases k with
  | previewAction =>
    rw [runTraced, within_afterDecoding hcurrent]
    exact haction
  | applyAction =>
    rw [runTraced, within_afterDecoding hcurrent]
    exact haction
  | evaluatePolicy =>
    rw [runTraced, within_afterDecoding hcurrent]
    exact haction
  | previewFix =>
    rw [runTraced, within_afterDecoding hcurrent]
    exact hfix
  | applyFix =>
    rw [runTraced, within_afterDecoding hcurrent]
    exact hfix

/-- The calls that take a token give what they give without a trace, and the ends that they take are in a word exactly when
the span that is held against local declarations, if there is one, ends in a word. -/
theorem ends_inWord_iff (c : Cancellation) (k : TokenCall) :
    (k.runTraced h read limits raw st).value = ((k.call raw).run h (model read) limits c).on st ∧
      ((∀ e ∈ (k.runTraced h read limits raw st).ends, e.InWord) ↔
        ∀ path span, k.tested? raw version = some (path, span) → Bounded read s path span) :=
  ⟨value_runTraced h read limits raw st c k, within_runTraced hcurrent hs hsize k⟩

end

theorem removalToken_inWord :
    (previewFix.runTraced Session.host parse {} "v1|1|remove-unused-local|CS0168|25|1|YS5jcw==" unusedLocal).ends ≠ [] ∧
    ∀ e ∈ (previewFix.runTraced Session.host parse {} "v1|1|remove-unused-local|CS0168|25|1|YS5jcw==" unusedLocal).ends,
      e.InWord := by
  have hcurrent : (Session.host.current unusedLocal).1 = (unusedLocal.snapshot, 1) := rfl
  refine ⟨by decide +kernel, (ends_inWord_iff hcurrent unusedLocal_fits ?_ .never previewFix).2.2 ?_⟩
  · exact fun d hd => Nat.lt_of_succ_lt (unusedLocal_inWords.documents d hd)
  · intro path span h f _ _
    have htested : previewFix.tested? "v1|1|remove-unused-local|CS0168|25|1|YS5jcw==" 1 = some ("a.cs", ⟨25, 1⟩) := by
      decide +kernel
    rw [htested] at h
    cases h
    decide

def varLocal : Session := .start (Snapshot.empty.addDocument "App" "a.cs" "class A { void M() { var x = 1; } }" none)

def longKey : ProviderKey :=
  .refactoring "UseExplicitTypeRefactoringProvider" "UseExplicitType" "Use explicit type instead of 'var'"

def longAction : Action where
  title := ""
  category := Action.refactorCategory
  origin := .refactoring
  providerKey := longKey.encode
  filePath := "a.cs"
  span := ⟨23, wordLimit - 1⟩
  diagnosticId := none
  refactoringId := some "UseExplicitType"
  line := 1
  column := 24

/-- A span of the greatest length that a word has room for is held against the declaration of `x`. -/
theorem longToken_not_inWord : ¬ ∀ (k : TokenCall) (raw : String),
    ∀ e ∈ (k.runTraced Session.host parse {} raw varLocal).ends, e.InWord := by
  intro h
  have hfits : Parser.FitsAll parse varLocal.snapshot := by
    unfold Parser.FitsAll
    decide +kernel
  have hsize : ∀ d ∈ varLocal.snapshot.documents, Text.size d.text.toList < wordLimit := by decide +kernel
  have hwritable : longAction.Writable := ⟨by decide, by decide, by decide, by decide, by decide, by decide⟩
  have hdecode : ActionToken.decode (ActionToken.encode longAction 1 "default") = .ok ⟨1, "default", longAction⟩ :=
    ActionToken.decode_encode_untitled (by decide) hwritable rfl
  have hkey : ProviderKey.decode longAction.providerKey = some longKey := ProviderKey.decode_encode longKey
  have htested : previewAction.tested? (ActionToken.encode longAction 1 "default") 1 = some ("a.cs", longAction.span) := by
    rw [tested?, hdecode]
    dsimp only
    rw [ActionToken.providerKey?, hkey]
    rfl
  have hcurrent : (Session.host.current varLocal).1 = (varLocal.snapshot, 1) := rfl
  have hbounded := (within_runTraced hcurrent hfits hsize previewAction).1 (h _ _) _ _ htested
  have hlocals : (locals (.ofText parse "a.cs" "class A { void M() { var x = 1; } }")).isEmpty = false := by decide +kernel
  exact absurd (hbounded _ rfl (List.isEmpty_eq_false_iff.1 hlocals)) (by decide)

end TokenCall

end CSharp

end Workbench
