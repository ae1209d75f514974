import Workbench.Action.Policy
import Workbench.Action.Token
import Workbench.CodeModel
import Workbench.Host

/-!
# Catalogs of actions

The catalog at a selection has the fixes of the diagnostics that it touches,
the refactorings of all providers, and the actions of the model itself that no
provider offers in the same place. It is sorted and has each action once; each
entry carries a token that names it at the current version.
-/

namespace Workbench

/-- A position from 1, and where the selection ends when it is not empty. -/
structure ActionQuery where
  path : String
  line : Nat
  column : Nat
  endLine : Option Nat := none
  endColumn : Option Nat := none
  profile : Option String := none
deriving DecidableEq, Repr

namespace Catalog

/-! ## Selections -/

def selectionEnd (d : Document) (q : ActionQuery) (start : Nat) : Except BadInput Nat :=
  match q.endLine, q.endColumn with
  | none, none => .ok start
  | some line, some column =>
    match Text.offsetOf d.text.toList line column with
    | some stop => .ok stop
    | none => .error (.selectionEndOutside line column d.path)
  | _, _ => .error .selectionEndIncomplete

def selection (s : Snapshot) (q : ActionQuery) : Except BadInput (String × Span) :=
  match s.findDocument q.path with
  | none => .error (.documentNotFound q.path)
  | some d =>
    match Text.offsetOf d.text.toList q.line q.column with
    | none => .error (.positionOutside q.line q.column d.path)
    | some start =>
      match selectionEnd d q start with
      | .error why => .error why
      | .ok stop => if stop < start then .error .selectionReversed else .ok (d.path, .ofBounds start stop)

/-! ## Describing candidates -/

/-- Line and column of a span; 1:1 where there is no such document. -/
def positionOf (s : Snapshot) (path : String) (span : Span) : Nat × Nat :=
  (s.text? path).elim (1, 1) fun t => Text.lineCol t.toList span.start

def ofFix (provider : String) (d : Diagnostic) (fix : CodeAction) : Action where
  title := fix.title
  category := Action.categoryOf d.id
  origin := .compilerFix
  providerKey := (ProviderKey.codeFix provider d.id fix.equivalenceKey fix.title).encode
  filePath := d.path
  span := d.span
  diagnosticId := some d.id
  refactoringId := none
  line := d.location.line
  column := d.location.column

def ofRefactoring (s : Snapshot) (provider path : String) (span : Span) (a : CodeAction) : Action where
  title := a.title
  category := Action.refactorCategory
  origin := .refactoring
  providerKey := (ProviderKey.refactoring provider a.equivalenceKey a.title).encode
  filePath := path
  span := span
  diagnosticId := none
  refactoringId := some a.equivalenceKey
  line := (positionOf s path span).1
  column := (positionOf s path span).2

def builtinCategory (b : Builtin) : String :=
  match b.kind, b.diagnosticId with
  | .removeUnusedLocal, some id => Action.categoryOf id
  | _, _ => Action.styleCategory

def ofBuiltin (s : Snapshot) (path : String) (b : Builtin) : Action where
  title := b.action.title
  category := builtinCategory b
  origin := .builtin
  providerKey := (ProviderKey.builtin b.kind).encode
  filePath := path
  span := b.span
  diagnosticId := b.diagnosticId
  refactoringId := none
  line := (positionOf s path b.span).1
  column := (positionOf s path b.span).2

/-! ## Gathering candidates -/

def orNone {α} (r : Result (List α)) : List α :=
  match r with
  | .ok xs => xs
  | .error _ => []

def fixesFor (r : Registry) (s : Snapshot) (d : Diagnostic) : List Action :=
  (r.fixProvidersFor d.id).flatMap fun p => (orNone (p.provide s d)).map (ofFix p.typeName d)

def refactoringsFor (r : Registry) (s : Snapshot) (path : String) (span : Span) : List Action :=
  r.refactorings.flatMap fun p => (orNone (p.provide s path span)).map (ofRefactoring s p.typeName path span)

/-- Whether a provider offers an action in the same place, for the same diagnostic or of the same title. -/
def isCovered (offered : List Action) (b : Action) : Bool :=
  offered.any fun a =>
    a.filePath == b.filePath && a.span == b.span &&
      ((b.diagnosticId.isSome && a.diagnosticId == b.diagnosticId) || a.title == b.title)

def settle (as : List Action) : List Action :=
  Ordered.dedupBy (fun a b => a.compareKey b == .eq) (as.mergeSort fun a b => (a.compareKey b).isLE)

def actionsAt (m : CodeModel) (s : Snapshot) (path : String) (span : Span) : Result (List Action) := do
  let v := m.view s
  let registry ← m.registry
  let ds ← v.diagnostics path
  let fixes := settle ((ds.filter fun d => d.span.intersects span).flatMap (fixesFor registry s))
  let refactorings := settle (refactoringsFor registry s path span)
  let builtins := settle ((← v.builtins path span).map (ofBuiltin s path))
  let offered := fixes ++ refactorings
  return settle (offered ++ builtins.filter fun b => !isCovered offered b)

end Catalog

structure ActionEntry where
  token : String
  action : Action
  policy : Outcome
deriving DecidableEq, Repr

structure ActionCatalog where
  version : Nat
  profile : String
  path : String
  actions : List ActionEntry
deriving DecidableEq, Repr

namespace Catalog

def entry (version : Nat) (profile : String) (a : Action) : ActionEntry :=
  ⟨ActionToken.encode a version profile, a, (Policy.evaluate a profile).outcome⟩

def ofSnapshot (m : CodeModel) (s : Snapshot) (version : Nat) (q : ActionQuery) : Result ActionCatalog :=
  match selection s q with
  | .error why => .error (.invalidInput why)
  | .ok (path, span) =>
    let profile := q.profile.getD Action.defaultProfile
    (actionsAt m s path span).map fun as => ⟨version, profile, path, as.map (entry version profile)⟩

def discover {σ} (h : Host σ) (m : CodeModel) (q : ActionQuery) : Op σ ActionCatalog := do
  let (s, version) ← h.snapshot
  Op.ofResult (ofSnapshot m s version q)

end Catalog

def ActionEntry.toJson (e : ActionEntry) : Json :=
  .object (e.action.fields ++ [("token", .str e.token), ("policy", .str e.policy.text)])

def ActionCatalog.toJson (c : ActionCatalog) : Json :=
  .object [("workspace_version", .nat c.version), ("profile", .str c.profile), ("path", .str c.path),
    ("actions", .arr (c.actions.map ActionEntry.toJson))]

end Workbench
