import Mathlib.Data.List.Forall2
import Workbench.CSharp.Tree
import Workbench.Proofs.Occurrences
import Workbench.Proofs.Relocation
import Workbench.Proofs.Sorting

/-!
# Removals answer diagnostics

The short way to the removal of unused locals lists what the diagnostics of a
document report, one for one and in the same order, and what it commits is the
fix that the provider has for the diagnostic. It rests on this: a local is
known by the place of its name.
-/

namespace Workbench.CSharp

/-- Ranges nest, and what a declarator declares is an identifier without anything below it. -/
structure Node.NamesLocals (root : Node) : Prop where
  nests : root.nests
  names : ∀ n ∈ root.descendants, n.kind = .variableDeclarator → ∀ x ∈ n.declaratorName?,
    x.kind = .identifier ∧ x.children = []

instance (root : Node) : Decidable root.NamesLocals :=
  decidable_of_iff (root.nests ∧ _) ⟨fun ⟨nests, names⟩ => ⟨nests, names⟩, fun h => ⟨h.nests, h.names⟩⟩

/-- The trees that a parser gives for the documents of a snapshot name locals. -/
def Parser.NamesLocals (read : Parser) (s : Snapshot) : Prop := ∀ d ∈ s.documents, (read d.text).NamesLocals

/-! ## Locals by their places -/

namespace UnusedLocal

section
variable {f : SourceFile} {l l' : UnusedLocal}

section
variable {x x' : Focus} {name name' : Node}

theorem Source.declaration_named (h : Source f l x name) : l.declaration.isNamed := by
  have hk := List.find?_some h.declaration
  simp only [beq_iff_eq] at hk
  simp [Node.isNamed, hk]

theorem Source.declarator_kind (h : Source f l x name) : l.declarator.kind = .variableDeclarator :=
  beq_iff_eq.1 (List.mem_filter.1 h.declarator).2

/-- The place of the declarator, below its declaration and its statement. -/
theorem Source.declarator_focus (h : Source f l x name) : (x.down l.declaration).down l.declarator ∈ f.root.foci := by
  have hstatement := Node.down_mem_walk (List.mem_filter.1 h.statement).1 (mem_of_variableDeclaration? h.declaration)
    h.declaration_named
  exact Node.down_mem_walk hstatement (mem_of_declarators h.declarator) (by simp [Node.isNamed, h.declarator_kind])

theorem Source.leaf (hn : f.root.NamesLocals) (h : Source f l x name) : name.kind = .identifier ∧ name.children = [] :=
  hn.names _ (Node.node_mem_descendants h.declarator_focus) h.declarator_kind name h.named

theorem Source.name_focus (hn : f.root.NamesLocals) (h : Source f l x name) :
    ((x.down l.declaration).down l.declarator).down name ∈ f.root.foci :=
  Node.down_mem_walk h.declarator_focus (mem_of_declaratorName? h.named) (by simp [Node.isNamed, (h.leaf hn).1])

/-- Two locals whose names begin at one place are one: the names overlap and are leaves, so that they agree with all that
is around them. -/
theorem eq_of_start (hn : f.root.NamesLocals) (hl : l ∈ all f) (hl' : l' ∈ all f)
    (hstart : l.nameSpan.start = l'.nameSpan.start) : l = l' := by
  obtain ⟨x, name, h⟩ := source_of_mem hl
  obtain ⟨x', name', h'⟩ := source_of_mem hl'
  have hspan : l.nameSpan = name.span := congrArg nameSpan h.eq
  have hspan' : l'.nameSpan = name'.span := congrArg nameSpan h'.eq
  have hmeet : ¬name.apart name' := by
    have hlt := Node.start_lt_stop_of_text h.text
    have hlt' := Node.start_lt_stop_of_text h'.text
    have hplace : name.start = name'.start := by
      rw [hspan, hspan'] at hstart
      exact hstart
    simp only [Node.apart, Bool.or_eq_true, decide_eq_true_eq]
    omega
  have hfocus := Node.eq_of_leaves hn.nests (h.name_focus hn) (h'.name_focus hn) (h.leaf hn).2 (h'.leaf hn).2 hmeet
  simp only [Focus.down, Focus.mk.injEq, List.cons.injEq] at hfocus
  obtain ⟨hname, hdeclarator, hdeclaration, hstatement, -⟩ := hfocus
  have hid : l.diagnosticId = l'.diagnosticId :=
    Option.some.inj (h.id.symm.trans ((congrArg idFor? hdeclarator).trans h'.id))
  rw [h.eq, h'.eq, hstatement, hdeclaration, hdeclarator, hname, hid]

end

end

end UnusedLocal

/-! ## The order of both lists -/

section
variable {read : Parser} {s : Snapshot} {f : SourceFile}

/-- The unused locals of a file by the places of their names. -/
def localsByPlace (f : SourceFile) : List UnusedLocal :=
  (UnusedLocal.all f).mergeSort fun a b => decide (a.nameSpan.start ≤ b.nameSpan.start)

theorem mem_localsByPlace {l : UnusedLocal} : l ∈ localsByPlace f ↔ l ∈ UnusedLocal.all f := List.mem_mergeSort

/-- The entry of a list of removals for one local. -/
def localEntry (version : Nat) (f : SourceFile) (l : UnusedLocal) : RemovalEntry where
  token := ⟨version, BuiltinKind.removeUnusedLocal.text, l.diagnosticId, l.nameSpan, f.path⟩
  title := (removeLocalBuiltin f l).action.title
  line := (Text.lineCol f.chars l.nameSpan.start).1
  column := (Text.lineCol f.chars l.nameSpan.start).2

def reportsLocal (d : Diagnostic) : Bool := [UnusedLocal.declaredId, UnusedLocal.assignedId].contains d.id

theorem reportsLocal_localDiagnostic {l : UnusedLocal} (hl : l ∈ UnusedLocal.all f) :
    reportsLocal (localDiagnostic f l) = true := by
  obtain ⟨x, name, h⟩ := UnusedLocal.source_of_mem hl
  have hid : (localDiagnostic f l).id = l.diagnosticId := rfl
  rw [reportsLocal, hid]
  rcases UnusedLocal.id_of_idFor? h.id with hid | hid <;> rw [hid] <;> decide

/-- A comparison that begins with the places of two locals ends there, since a place has one local. -/
theorem isLE_then_of_place (hn : f.root.NamesLocals) {a b : UnusedLocal} (ha : a ∈ UnusedLocal.all f)
    (hb : b ∈ UnusedLocal.all f) {m : UnusedLocal → UnusedLocal → Ordering} (hself : ∀ l, m l l = .eq) :
    ((compare a.nameSpan.start b.nameSpan.start).then (m a b)).isLE =
      decide (a.nameSpan.start ≤ b.nameSpan.start) := by
  rcases Nat.lt_trichotomy a.nameSpan.start b.nameSpan.start with hlt | heq | hgt
  · simp [Nat.compare_eq_lt.2 hlt, Nat.le_of_lt hlt]
  · obtain rfl := UnusedLocal.eq_of_start hn ha hb heq
    simp [hself]
  · simp [Nat.compare_eq_gt.2 hgt, Nat.not_le.2 hgt]

/-- The order of places on locals is that of their diagnostics. -/
theorem before_localDiagnostic (hn : f.root.NamesLocals) {a b : UnusedLocal} (ha : a ∈ UnusedLocal.all f)
    (hb : b ∈ UnusedLocal.all f) :
    decide (a.nameSpan.start ≤ b.nameSpan.start) = (localDiagnostic f a).before (localDiagnostic f b) := by
  have hbefore : (localDiagnostic f a).before (localDiagnostic f b) = (((compare a.nameSpan.start b.nameSpan.start)
      |>.then (compare a.nameSpan.length b.nameSpan.length)
      |>.then (compare a.diagnosticId b.diagnosticId)).isLE) := rfl
  rw [hbefore, Ordering.then_assoc]
  exact (isLE_then_of_place hn ha hb (m := fun a b =>
    (compare a.nameSpan.length b.nameSpan.length).then (compare a.diagnosticId b.diagnosticId)) fun l => by simp).symm

/-- So it is that of their entries. -/
theorem before_localEntry (hn : f.root.NamesLocals) {version : Nat} {a b : UnusedLocal} (ha : a ∈ UnusedLocal.all f)
    (hb : b ∈ UnusedLocal.all f) : decide (a.nameSpan.start ≤ b.nameSpan.start) =
      Removal.before (localEntry version f a) (localEntry version f b) := by
  have hbefore : Removal.before (localEntry version f a) (localEntry version f b) =
      ((compare a.nameSpan.start b.nameSpan.start).then (compare a.diagnosticId b.diagnosticId)).isLE := rfl
  rw [hbefore]
  exact (isLE_then_of_place hn ha hb (m := fun a b => compare a.diagnosticId b.diagnosticId) fun l => by simp).symm

/-- What else is reported has other ids. -/
theorem filter_unsorted (c : Compilation) (f : SourceFile) :
    ((UnusedLocal.all f).map (localDiagnostic f) ++ (Using.unneeded c f).map (usingDiagnostic f) ++
      (Modifier.misorderedRanges f).map (modifierDiagnostic f) ++
      (ReadonlyField.all f).map (readonlyDiagnostic f)).filter reportsLocal =
      (UnusedLocal.all f).map (localDiagnostic f) := by
  have hlocals : ((UnusedLocal.all f).map (localDiagnostic f)).filter reportsLocal =
      (UnusedLocal.all f).map (localDiagnostic f) := by
    refine List.filter_eq_self.2 fun d hd => ?_
    obtain ⟨l, hl, rfl⟩ := List.mem_map.1 hd
    exact reportsLocal_localDiagnostic hl
  have hnone {α : Type} {report : α → Diagnostic} (xs : List α) (id : String) (h : ∀ x, (report x).id = id)
      (hid : [UnusedLocal.declaredId, UnusedLocal.assignedId].contains id = false) :
      (xs.map report).filter reportsLocal = [] := by
    refine List.filter_eq_nil_iff.2 fun d hd => ?_
    obtain ⟨x, -, rfl⟩ := List.mem_map.1 hd
    rw [reportsLocal, h, hid]
    exact Bool.false_ne_true
  rw [List.filter_append, List.filter_append, List.filter_append, hlocals,
    hnone _ unneededUsingId (fun _ => rfl) (by decide), hnone _ modifierOrderId (fun _ => rfl) (by decide),
    hnone _ readonlyFieldId (fun _ => rfl) (by decide), List.append_nil, List.append_nil, List.append_nil]

theorem filter_diagnostics (hn : f.root.NamesLocals) (c : Compilation) :
    (diagnostics c f).filter reportsLocal = (localsByPlace f).map (localDiagnostic f) := by
  have hsorted : (localsByPlace f).map (localDiagnostic f) =
      ((UnusedLocal.all f).map (localDiagnostic f)).mergeSort Diagnostic.before :=
    List.map_mergeSort fun a ha b hb => before_localDiagnostic hn ha hb
  have hperm : ((diagnostics c f).filter reportsLocal).Perm ((UnusedLocal.all f).map (localDiagnostic f)) :=
    filter_unsorted c f ▸ (List.mergeSort_perm _ _).filter reportsLocal
  rw [hsorted]
  refine List.Perm.eq_of_pairwise ?_ (List.Pairwise.filter _ (Diagnostic.pairwise_sorted _))
    (Diagnostic.pairwise_sorted _) (hperm.trans (List.mergeSort_perm _ _).symm)
  intro d d' hd hd' hle hle'
  obtain ⟨l, hl, rfl⟩ := List.mem_map.1 (hperm.mem_iff.1 hd)
  obtain ⟨l', hl', rfl⟩ := List.mem_map.1 (List.mem_mergeSort.1 hd')
  rw [← before_localDiagnostic hn hl hl', decide_eq_true_iff] at hle
  rw [← before_localDiagnostic hn hl' hl, decide_eq_true_iff] at hle'
  rw [UnusedLocal.eq_of_start hn hl hl' (Nat.le_antisymm hle hle')]

/-! ## Entries -/

/-- A local stands in the text of its file, so its statement meets the span of the whole text. -/
theorem touches_whole (hf : f.root.fits f.chars = true) {l : UnusedLocal} (hl : l ∈ UnusedLocal.all f) {n : Nat}
    (hn : n = Text.size f.chars) : touches ⟨0, n⟩ l.statement = true := by
  have hp := UnusedLocal.placed_of_mem hf hl
  obtain ⟨name, -, -, -, hlt, -, -, hstart, hstop'⟩ := hp.name_range
  have hle : l.statement.stop ≤ Text.size f.chars := Text.le_size_of_isBoundary (Node.fits_stop hp.statement)
  have hspan := Node.stop_span hp.statement
  have hnotEmpty : ¬(l.statement.span.isEmpty || Span.isEmpty ⟨0, n⟩) = true := by
    simp only [Span.isEmpty, Span.stop, Node.start_span, Bool.or_eq_true, beq_iff_eq, not_or] at hspan ⊢
    omega
  have hstop : Span.stop ⟨0, n⟩ = n := Nat.zero_add n
  rw [touches, Span.intersects, if_neg hnotEmpty, hspan, hstop, Node.start_span, Bool.and_eq_true, decide_eq_true_eq,
    decide_eq_true_eq]
  exact ⟨by omega, Nat.lt_of_le_of_lt (Nat.zero_le _) (Nat.lt_of_lt_of_le hlt hstop')⟩

theorem filterMap_builtins (hf : f.root.fits f.chars = true) (version : Nat) {d : Document} {n : Nat}
    (hd : f = .ofText read d.path d.text) (hn : n = Text.size f.chars) :
    (builtins f ⟨0, n⟩).filterMap (Removal.removable? version d none) =
      (UnusedLocal.all f).map (localEntry version f) := by
  have hall : (UnusedLocal.all f).filter (fun l => touches ⟨0, n⟩ l.statement) = UnusedLocal.all f :=
    List.filter_eq_self.2 fun l hl => touches_whole hf hl hn
  have hlocal (l : UnusedLocal) : Removal.removable? version d none (removeLocalBuiltin f l) =
      some (localEntry version f l) := by
    subst hd
    rfl
  have hinferred : ((touchedLocals f ⟨0, n⟩).filterMap (inferredType? f)).filterMap
      (Removal.removable? version d none) = [] := by
    refine List.filterMap_eq_nil_iff.2 fun b hb => ?_
    obtain ⟨statement, hstatement, hb⟩ := List.mem_filterMap.1 hb
    obtain ⟨-, -, -, -, -, hid, -⟩ := inferredType?_eq_some (mem_touchedLocals hf hstatement) hb
    rw [Removal.removable?, hid]
  rw [builtins, hall, List.filterMap_append, hinferred, List.append_nil, List.filterMap_map]
  exact List.filterMap_eq_map_iff_forall_eq_some.2 fun l _ => hlocal l

/-! ## From an entry to its fix -/

/-- The place and the id of a local lead back to it, among all that is offered at its name. -/
theorem find?_builtins (hf : f.root.fits f.chars = true) (hn : f.root.NamesLocals) {l : UnusedLocal}
    (hl : l ∈ UnusedLocal.all f) : ((builtins f l.nameSpan).find? fun b =>
      b.kind == .removeUnusedLocal && b.span == l.nameSpan && b.diagnosticId == some l.diagnosticId) =
      some (removeLocalBuiltin f l) := by
  have hmem : removeLocalBuiltin f l ∈ builtins f l.nameSpan :=
    mem_builtins_span hf (mem_builtins.2 (.inl ⟨l, hl, touches_whole hf hl rfl, rfl⟩))
  refine find?_of_unique hmem (by simp [removeLocalBuiltin]) fun b hb hspec => ?_
  simp only [Bool.and_eq_true, beq_iff_eq] at hspec
  obtain ⟨⟨hkind, hspan⟩, -⟩ := hspec
  rcases mem_builtins.1 hb with ⟨l', hl', -, rfl⟩ | ⟨statement, hstatement, hb⟩
  · rw [UnusedLocal.eq_of_start hn hl' hl (congrArg Span.start hspan)]
  · obtain ⟨-, -, -, -, hkind', -⟩ := inferredType?_eq_some (mem_touchedLocals hf hstatement) hb
    rw [hkind] at hkind'
    cases hkind'

/-- So they do for the provider of fixes. -/
theorem localRemoval?_localDiagnostic (hn : f.root.NamesLocals) {l : UnusedLocal} (hl : l ∈ UnusedLocal.all f) :
    localRemoval? f (localDiagnostic f l) = some (UnusedLocal.removal f l) := by
  have hfound : ((UnusedLocal.all f).find? fun l' =>
      l'.nameSpan == (localDiagnostic f l).span && l'.diagnosticId == (localDiagnostic f l).id) = some l := by
    refine find?_of_unique hl (by simp [localDiagnostic, Diagnostic.span, Location.ofSpan]) fun l' hl' hspec => ?_
    simp only [Bool.and_eq_true, beq_iff_eq] at hspec
    exact UnusedLocal.eq_of_start hn hl' hl (congrArg Span.start hspec.1)
  rw [localRemoval?, hfound, Option.map_some]

theorem localEntry_writable {version : Nat} (hf : f.root.fits f.chars = true) (hversion : version < wordLimit)
    (hsize : Text.size f.chars < wordLimit) {l : UnusedLocal} (hl : l ∈ UnusedLocal.all f) :
    (localEntry version f l).token.Writable := by
  have hp := UnusedLocal.placed_of_mem hf hl
  obtain ⟨name, hname, hspan, -⟩ := hp.name_range
  have hfits := Node.fits_span hname
  rw [← hspan] at hfits
  have hid : l.diagnosticId ≠ "" ∧ '|' ∉ l.diagnosticId.toList := by
    rcases hp.id with hid | hid <;> rw [hid] <;> decide
  have hoperation : BuiltinKind.removeUnusedLocal.text ≠ "" ∧ '|' ∉ BuiltinKind.removeUnusedLocal.text.toList := by
    decide
  exact ⟨hversion, Nat.lt_of_le_of_lt hfits.start_le hsize, Nat.lt_of_le_of_lt hfits.length_le hsize, hoperation, hid⟩

theorem relocate_localEntry {version : Nat} (raw : String) (hs : read.FitsAll s) (hn : f.root.NamesLocals)
    (hsource : sourceFile read s f.path = .ok f) {l : UnusedLocal} (hl : l ∈ UnusedLocal.all f) :
    Removal.relocate (model read) s raw (localEntry version f l).token = .ok (removeLocalBuiltin f l).action := by
  obtain ⟨text, htext, -⟩ := sourceFile_eq_ok.1 hsource
  obtain ⟨d, hd, -⟩ := Option.map_eq_some_iff.1 htext
  have hoperation : BuiltinKind.ofText? BuiltinKind.removeUnusedLocal.text = some .removeUnusedLocal := by decide
  have hknown : ¬(BuiltinKind.ofText? (localEntry version f l).token.operation ≠ some .removeUnusedLocal ∨
      (s.document? (localEntry version f l).token.filePath).isNone) := by
    rw [show (localEntry version f l).token.filePath = f.path from rfl, hd]
    exact not_or.2 ⟨fun h => h hoperation, Bool.false_ne_true⟩
  have hview : ((model read).view s).builtins f.path l.nameSpan = .ok (builtins f l.nameSpan) := by
    rw [builtins_view, hsource]
    rfl
  rw [Removal.relocate, if_neg hknown]
  refine Result.bind_eq_ok.2 ⟨_, hview, ?_⟩
  rw [show (localEntry version f l).token.span = l.nameSpan from rfl,
    show (localEntry version f l).token.diagnosticId = l.diagnosticId from rfl,
    find?_builtins (fits_of_sourceFile hs hsource) hn hl]
  rfl

end

/-! ## Both ways to a removal -/

section
variable (isMissing : String → Bool) (read : Parser) (maxCells : Nat) (s : Session)

/-- What an entry of a list of removals says and does, beside the diagnostic of the same local. -/
structure Answers (path : String) (e : RemovalEntry) (d : Diagnostic) : Prop where
  id : e.token.diagnosticId = d.id
  span : e.token.span = d.span
  line : e.line = d.location.line
  column : e.column = d.location.column
  /-- A preview of the token succeeds, and shows a change of the document and of no other. The token is applied, and what
  is committed is what the fix that the provider has for the diagnostic makes of the snapshot. -/
  fixed : ∃ (p : Removal.Preview) (next : Snapshot) (r : Registry) (provider : FixProvider) (change : CodeAction),
    (Removal.preview (Session.hostBeside isMissing) (model read) maxCells e.token.encode).on s = (.ok p, s) ∧
    p.changes.paths = [path] ∧
    (Removal.apply (Session.hostBeside isMissing) (model read) maxCells e.token.encode).on s =
      (.ok ⟨s.version, s.version + 1, p.changes⟩, ⟨next, s.version + 1⟩) ∧
    (model read).registry = .ok r ∧ r.fixProvider? "RemoveUnusedVariableCodeFixProvider" = some provider ∧
    provider.provide s.snapshot d = .ok [change] ∧ change.apply s.snapshot = .ok next

variable {isMissing read maxCells s} {f : SourceFile}

theorem answers_localEntry (hs : read.FitsAll s.snapshot) (hn : f.root.NamesLocals) (hversion : s.version < wordLimit)
    (hsize : Text.size f.chars < wordLimit) (hsource : sourceFile read s.snapshot f.path = .ok f) {l : UnusedLocal}
    (hl : l ∈ UnusedLocal.all f) :
    Answers isMissing read maxCells s f.path (localEntry s.version f l) (localDiagnostic f l) := by
  have hfits := fits_of_sourceFile hs hsource
  obtain ⟨text, htext, hf⟩ := sourceFile_eq_ok.1 hsource
  have hchars : f.chars = text.toList := congrArg SourceFile.chars hf
  obtain ⟨span, hremoval, hspan, hpos⟩ := UnusedLocal.removal_spec (UnusedLocal.placed_of_mem hfits hl)
  rw [hchars] at hspan
  -- Title and key do not matter for what a change makes of the snapshot.
  obtain ⟨next, new, happly, hnew, -, htexts⟩ := apply_single "Remove unused variable" "RemoveUnusedVariable" htext
    (e := .delete span) hspan
  have hchange : (removeLocalBuiltin f l).action.apply s.snapshot = .ok next := by
    rw [removeLocalBuiltin, hremoval]
    exact happly
  have hpaths : (ChangeSet.between s.snapshot next maxCells).paths = [f.path] :=
    paths_between_of_removal htext hspan hpos hnew htexts
  have hprepared : Removal.prepared (model read) maxCells (localEntry s.version f l).token.encode s.snapshot s.version =
      .ok ⟨(removeLocalBuiltin f l).action.title, s.version, next, .between s.snapshot next maxCells⟩ :=
    Removal.prepared_eq_ok.2 ⟨_, FixToken.decode_encode (localEntry_writable hfits hversion hsize hl),
      Removal.prepareOn_eq_ok.2 ⟨rfl, _, next, relocate_localEntry _ hs hn hsource hl, hchange, rfl⟩⟩
  have hchanges : (ChangeSet.between s.snapshot next maxCells).isEmpty = false := by
    rw [ChangeSet.isEmpty_eq_false_iff, hpaths]
    exact List.cons_ne_nil _ _
  obtain ⟨r, hr⟩ := registry_ok read
  have hprovider : r.fixProvider? "RemoveUnusedVariableCodeFixProvider" = some (removeUnusedVariable read) :=
    fixProvider?_of_mem hr ((mem_fixes_iff hr).2 (.inl rfl))
  have hprovide : (removeUnusedVariable read).provide s.snapshot (localDiagnostic f l) =
      .ok [.single "Remove unused variable" "RemoveUnusedVariable" f.path [.delete span]] := by
    refine Result.map_eq_ok.2 ⟨f, hsource, ?_⟩
    rw [localRemoval?_localDiagnostic hn hl, hremoval]
    rfl
  refine ⟨rfl, rfl, rfl, rfl, ⟨trim (localEntry s.version f l).token.encode, s.version,
    (removeLocalBuiltin f l).action.title, .between s.snapshot next maxCells⟩, next, r, _, _, ?_, hpaths, ?_, hr,
    hprovider, hprovide, happly⟩
  · rw [Removal.on_preview, hprepared]
    rfl
  · rw [Removal.on_apply, Result.checked_eq_ok.2 ⟨hprepared, Removal.checkPrepared_eq_ok.2 hchanges⟩]
    rfl

/-- A list of removals answers the diagnostics of unused locals of its document, one for one and in order. A list fails
only where there is no such document. -/
theorem removals_answer_diagnostics (read : Parser) (isMissing : String → Bool) (maxCells : Nat) {s : Session}
    (hs : read.FitsAll s.snapshot) (hn : read.NamesLocals s.snapshot) (hw : s.InWords) (path : String) :
    (∀ d, s.snapshot.findDocument path = some d → ∃ l ds,
      (Removal.list (Session.hostBeside isMissing) (model read) path none).on s = (.ok l, s) ∧
      l.version = s.version ∧ l.path = d.path ∧
      ((model read).view s.snapshot).diagnostics d.path = .ok ds ∧
      List.Forall₂ (Answers isMissing read maxCells s d.path) l.fixes (ds.filter reportsLocal)) ∧
    (s.snapshot.findDocument path = none →
      (Removal.list (Session.hostBeside isMissing) (model read) path none).on s =
        (.error (.invalidInput (.documentNotFound path)), s)) := by
  have hlist : (Removal.list (Session.hostBeside isMissing) (model read) path none).on s =
      (Removal.listOn (model read) s.snapshot s.version path none, s) := rfl
  rw [hlist, Removal.listOn]
  refine ⟨fun d hd => ?_, fun hd => ?_⟩
  · have hmem := Snapshot.findDocument_mem hd
    let f := SourceFile.ofText read d.path d.text
    have hsource : sourceFile read s.snapshot d.path = .ok f :=
      sourceFile_eq_ok.2 ⟨d.text, by rw [Snapshot.text?, Snapshot.document?_eq_of_mem hmem]; rfl, rfl⟩
    have hsize := hw.documents d hmem
    have hbuiltins (span : Span) : ((model read).view s.snapshot).builtins d.path span = .ok (builtins f span) := by
      rw [builtins_view, hsource]
      rfl
    have hdiagnostics : ((model read).view s.snapshot).diagnostics d.path =
        .ok (diagnostics (.ofSnapshot read s.snapshot) f) := by
      rw [diagnostics_view, hsource]
      rfl
    have hentries : (localsByPlace f).map (localEntry s.version f) =
        ((UnusedLocal.all f).map (localEntry s.version f)).mergeSort Removal.before :=
      List.map_mergeSort fun a ha b hb => before_localEntry (hn d hmem) ha hb
    rw [hd]
    dsimp only
    rw [hbuiltins]
    refine ⟨_, _, rfl, rfl, rfl, hdiagnostics, ?_⟩
    dsimp only
    rw [filterMap_builtins (hs d hmem) s.version rfl (Text.utf8ByteSize_eq_size d.text), ← hentries,
      filter_diagnostics (hn d hmem), List.forall₂_map_left_iff, List.forall₂_map_right_iff, List.forall₂_same]
    exact fun l hl => answers_localEntry hs (hn d hmem) hw.version (by change Text.size d.text.toList < _; omega) hsource
      (mem_localsByPlace.1 hl)
  · rw [hd]

/-- A file on two locals of one statement and one of a block inside. -/
def scopedLocals : SourceFile := .ofText parse "a.cs" "class A { void M() { int x, y = 1; { int z; } } }"

def onScopedLocals : Session :=
  .start (Snapshot.empty.addDocument "App" scopedLocals.path (String.ofList scopedLocals.chars) none)

theorem answered_on_scopedLocals : ∃ l ds,
    (Removal.list (Session.hostBeside fun _ => true) (model parse) "a.cs" none).on onScopedLocals =
      (.ok l, onScopedLocals) ∧
    ds.length = 3 ∧ List.Forall₂ (Answers (fun _ => true) parse 1000 onScopedLocals "a.cs") l.fixes ds := by
  have hfits : Parser.FitsAll parse onScopedLocals.snapshot := by
    unfold Parser.FitsAll
    decide +kernel
  have hnames : Parser.NamesLocals parse onScopedLocals.snapshot := by
    unfold Parser.NamesLocals
    decide +kernel
  have hfound : onScopedLocals.snapshot.findDocument "a.cs" = onScopedLocals.snapshot.documents.head? := by
    decide +kernel
  obtain ⟨l, ds, hlist, -, -, hds, hanswers⟩ :=
    (removals_answer_diagnostics parse (fun _ => true) 1000 hfits hnames ⟨by decide, by decide +kernel⟩ "a.cs").1 _ hfound
  have hview : ((model parse).view onScopedLocals.snapshot).diagnostics "a.cs" =
      .ok (diagnostics (.ofSnapshot parse onScopedLocals.snapshot) scopedLocals) := by
    rw [diagnostics_view]
    rfl
  have hcount : (UnusedLocal.all scopedLocals).length = 3 := by decide +kernel
  obtain rfl := Except.ok.inj (hview.symm.trans hds)
  refine ⟨l, _, hlist, ?_, hanswers⟩
  rw [filter_diagnostics (by decide +kernel), List.length_map, localsByPlace, List.length_mergeSort, hcount]

end

end Workbench.CSharp
