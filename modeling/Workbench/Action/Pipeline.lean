import Workbench.Action.Catalog
import Workbench.ChangeSet

/-!
# From token to change

A token is checked against the current version, and the rule that it names is
asked for its candidates again. Only a candidate that is described afresh as
the token describes it is taken, and policy decides on that fresh description.
A preview shows the change; an application commits it.
-/

namespace Workbench

structure Applied where
  previous : Nat
  version : Nat
  changes : ChangeSet
deriving DecidableEq, Repr

def Applied.toJson (a : Applied) : Json :=
  .object [("applied", .bool true), ("previous_version", .nat a.previous), ("workspace_version", .nat a.version),
    ("changed_files", .strs a.changes.paths), ("changes", a.changes.toJson)]

namespace Pipeline

/-! ## Finding the candidate again -/

/-- Whether two descriptions agree in all but title and position, which tokens do not fix. -/
def sameAction (a b : Action) : Bool :=
  a.origin == b.origin && a.category == b.category && a.providerKey == b.providerKey &&
    a.filePath == b.filePath && a.span == b.span && a.diagnosticId == b.diagnosticId &&
    a.refactoringId == b.refactoringId

def firstOr {α} (raw : String) (p : α → Bool) (xs : List α) : Result α :=
  match xs.find? p with
  | some a => .ok a
  | none => .error (.actionNotFound raw)

def known {α} (raw : String) : Option α → Result α
  | some a => .ok a
  | none => .error (.actionNotFound raw)

def fits (key title : String) (a : CodeAction) : Bool := a.equivalenceKey == key && a.title == title

/-- The candidate that a provider key means at the place of an action, with its description. -/
def candidate (m : CodeModel) (s : Snapshot) (raw : String) (at_ : Action) : ProviderKey → Result (CodeAction × Action)
  | .codeFix provider diagnosticId key title => do
    let p ← known raw ((← m.registry).fixProvider? provider)
    let d ← firstOr raw (fun d => d.id == diagnosticId && d.span == at_.span) (← (m.view s).diagnostics at_.filePath)
    let fix ← firstOr raw (fits key title) (← p.provide s d)
    return (fix, Catalog.ofFix p.typeName d fix)
  | .refactoring provider key title => do
    let p ← known raw ((← m.registry).refactoringProvider? provider)
    let a ← firstOr raw (fits key title) (← p.provide s at_.filePath at_.span)
    return (a, Catalog.ofRefactoring s p.typeName at_.filePath at_.span a)
  | .builtin kind => do
    let b ← firstOr raw (fun b => b.kind == kind && b.span == at_.span && b.diagnosticId == at_.diagnosticId)
      (← (m.view s).builtins at_.filePath at_.span)
    return (b.action, Catalog.ofBuiltin s at_.filePath b)

def relocate (m : CodeModel) (s : Snapshot) (raw : String) (t : ActionToken) : Result (CodeAction × Action) := do
  if (s.document? t.action.filePath).isNone then throw (.actionNotFound raw)
  let key ← known raw t.providerKey?
  let (change, described) ← candidate m s raw t.action key
  if sameAction t.action described then return (change, described) else throw (.actionNotFound raw)

/-! ## Preparing -/

structure Prepared where
  action : Action
  decision : Decision
  base : Nat
  next : Snapshot
  changes : ChangeSet

def prepareOn (m : CodeModel) (maxCells : Nat) (raw : String) (t : ActionToken) (s : Snapshot) (version : Nat) :
    Result Prepared := do
  checkVersion t.version version
  let (change, described) ← relocate m s raw t
  let next ← change.apply s
  return ⟨described, Policy.evaluate described t.profile, version, next, .between s next maxCells⟩

def prepare {σ} (h : Host σ) (m : CodeModel) (maxCells : Nat) (raw : String) : Op σ Prepared := do
  let t ← Op.ofResult (ActionToken.decode raw)
  let (s, version) ← h.snapshot
  Op.ofResult (prepareOn m maxCells raw t s version)

/-! ## Operations -/

structure Preview where
  token : String
  version : Nat
  action : Action
  policy : Decision
  changes : ChangeSet
deriving DecidableEq, Repr

def preview {σ} (h : Host σ) (m : CodeModel) (maxCells : Nat) (raw : String) : Op σ Preview := do
  let p ← prepare h m maxCells raw
  return ⟨trim raw, p.base, p.action, p.decision, p.changes⟩

def checkPrepared (p : Prepared) : Result Unit :=
  if !p.decision.isAllowed then .error (.policyBlocked p.decision)
  else if p.changes.isEmpty then .error (.fixConflict (.action p.action.title))
  else .ok ()

def apply {σ} (h : Host σ) (m : CodeModel) (maxCells : Nat) (raw : String) : Op σ Applied := do
  let p ← prepare h m maxCells raw
  Op.ofResult (checkPrepared p)
  let version ← h.commit p.base p.next
  return ⟨p.base, version, p.changes⟩

def evaluatePolicy {σ} (h : Host σ) (m : CodeModel) (maxCells : Nat) (raw : String) : Op σ Decision := do
  return (← prepare h m maxCells raw).decision

def Preview.toJson (p : Preview) : Json :=
  .object [("token", .str p.token), ("workspace_version", .nat p.version), ("action", p.action.toJson),
    ("policy", p.policy.toJson), ("changes", p.changes.toJson)]

end Pipeline

end Workbench
