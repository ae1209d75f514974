import Workbench.Action.Policy
import Workbench.ChangeSet
import Workbench.Cleanup.Rule
import Workbench.Host
import Workbench.Limits

/-!
# Cleanup

A cleanup runs every rule over a document, a project or the whole workspace and
commits the outcome once. Before it starts, the files of its documents must
still be there; one reload may mend that. Nothing is committed unless every
step succeeds.
-/

namespace Workbench

inductive CleanupScope where
  | document | project | solution
deriving DecidableEq, Repr

def CleanupScope.text : CleanupScope → String
  | .document => "document"
  | .project => "project"
  | .solution => "solution"

def CleanupScope.all : List CleanupScope := [.document, .project, .solution]

namespace Cleanup

structure Request where
  scope : CleanupScope
  path : Option String := none
  profile : String := Policy.cleanupProfile
  expectedVersion : Option Nat := none
deriving DecidableEq, Repr

/-! ## Scope -/

/-- The path that a scope needs; a blank one is none. -/
def requiredPath (path : Option String) : Except BadInput String :=
  match path with
  | some p => if trim p = "" then .error .pathRequired else .ok p
  | none => .error .pathRequired

def resolveScope (s : Snapshot) (scope : CleanupScope) (path : Option String) : Except BadInput (List String) :=
  match scope with
  | .solution => .ok s.paths
  | .document => do
    let raw ← requiredPath path
    match s.findDocument raw with
    | some d => return [d.path]
    | none => throw (.documentNotFound raw)
  | .project => do
    let raw ← requiredPath path
    match s.findProject raw with
    | some p => return p.documents
    | none => throw (.projectNotFound raw)

/-! ## Health -/

/-- Documents whose file is gone. One without a file is never missing. -/
def missingFiles (isMissing : String → Bool) (s : Snapshot) (paths : List String) : List String :=
  paths.filter fun p => ((s.document? p).bind (·.file)).any isMissing

structure Ground where
  snapshot : Snapshot
  version : Nat
  paths : List String
  reloaded : Bool

def stale (attempted succeeded : Bool) (missing : List String) : Fault :=
  .staleSnapshot ⟨true, attempted, succeeded, missing⟩

/-- The ground after a reload, which has to have mended what was missing before. -/
def afterReload {σ} (h : Host σ) (r : Request) (missing : List String) : Op σ Ground := do
  let (s, version) ← h.snapshot
  match resolveScope s r.scope r.path with
  | .error _ => throw (stale true true missing)
  | .ok paths =>
    match missingFiles (h.isMissing (← get)) s paths with
    | [] => return ⟨s, version, paths, true⟩
    | still => throw (stale true true still)

/-- Checks that the files in scope are there, with at most one reload. -/
def preflight {σ} (h : Host σ) (r : Request) : Op σ Ground := do
  let (s, version) ← h.snapshot
  let paths ← Op.ofResult ((resolveScope s r.scope r.path).mapError .invalidInput)
  match missingFiles (h.isMissing (← get)) s paths with
  | [] => return ⟨s, version, paths, false⟩
  | missing =>
    if !h.supportsReload (← get) then throw (stale false false missing)
    match ← ExceptT.lift h.reload.run with
    | .error _ => throw (stale true false missing)
    | .ok _ => afterReload h r missing

/-! ## Running all rules -/

structure RuleSummary where
  rule : CleanupRule
  changedDocuments : Nat
  passes : Nat
deriving DecidableEq, Repr

def runOver (m : CodeModel) (rule : CleanupRule) (maxPasses : Nat) :
    List String → Snapshot → RuleSummary → Cancellable (Snapshot × RuleSummary)
  | [], s, sum => return (s, sum)
  | path :: rest, s, sum => do
    checkCancelled
    let (next, run) ← runRule m rule s path maxPasses
    runOver m rule maxPasses rest next
      { sum with
        passes := sum.passes + run.passes
        changedDocuments := sum.changedDocuments + if run.changed then 1 else 0 }

def runRules (m : CodeModel) (maxPasses : Nat) (paths : List String) :
    List CleanupRule → Snapshot → Cancellable (Snapshot × List RuleSummary)
  | [], s => return (s, [])
  | rule :: rest, s => do
    let (next, sum) ← runOver m rule maxPasses paths s ⟨rule, 0, 0⟩
    let (last, sums) ← runRules m maxPasses paths rest next
    return (last, sum :: sums)

structure Outcome where
  applied : Bool
  scope : CleanupScope
  documentCount : Nat
  previous : Nat
  version : Nat
  reloaded : Bool
  rules : List RuleSummary
  changes : ChangeSet
deriving DecidableEq, Repr

def checkExpected (expected : Option Nat) (current : Nat) : Result Unit :=
  match expected with
  | none => .ok ()
  | some v => checkVersion v current

def run {σ} (h : Host σ) (m : CodeModel) (limits : Limits) (r : Request) (c : Cancellation) : Op σ Outcome := do
  Op.ofResult (Policy.checkCleanupProfile r.profile)
  let g ← preflight h r
  Op.ofResult (checkExpected r.expectedVersion g.version)
  let ((next, sums), c) ← Op.ofResult
    ((runRules m (max limits.cleanupPasses 1) g.paths CleanupRule.all g.snapshot).run c)
  let changes := ChangeSet.between g.snapshot next limits.diffCells
  let outcome : Outcome := ⟨false, r.scope, g.paths.length, g.version, g.version, g.reloaded, sums, changes⟩
  if changes.isEmpty then return outcome
  let _ ← Op.ofResult (checkCancelled.run c)
  if r.expectedVersion.isSome then
    let (_, current) ← h.snapshot
    Op.ofResult (checkExpected r.expectedVersion current)
  let version ← h.commit g.version next
  return { outcome with applied := true, version := version }

def RuleSummary.toJson (s : RuleSummary) : Json :=
  .object [("rule", .str s.rule.text), ("changed_documents", .nat s.changedDocuments), ("passes", .nat s.passes)]

def Outcome.toJson (o : Outcome) : Json :=
  .object [("applied", .bool o.applied), ("scope", .str o.scope.text), ("document_count", .nat o.documentCount),
    ("previous_version", .nat o.previous), ("workspace_version", .nat o.version), ("reloaded", .bool o.reloaded),
    ("rules", .arr (o.rules.map RuleSummary.toJson)), ("changed_files", .strs o.changes.paths),
    ("changes", o.changes.toJson)]

end Cleanup

end Workbench
