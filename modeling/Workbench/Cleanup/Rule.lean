import Workbench.Cancellation
import Workbench.CodeModel

/-!
# Cleanup rules

Rules run in a fixed order. Three of them apply fixes for diagnostics, pass
after pass until nothing changes or the passes are used up; the other two ask
the code model to organize imports or to format. In one pass every diagnostic
gets at most one fix, and fixes that overlap an earlier choice wait.
-/

namespace Workbench

inductive CleanupRule where
  | removeUnusedImports | organizeImports | fixModifierOrder | addMissingReadonly | format
deriving DecidableEq, Repr

namespace CleanupRule

def all : List CleanupRule := [.removeUnusedImports, .organizeImports, .fixModifierOrder, .addMissingReadonly, .format]

def text : CleanupRule → String
  | .removeUnusedImports => "remove-unused-imports"
  | .organizeImports => "organize-imports"
  | .fixModifierOrder => "fix-modifier-order"
  | .addMissingReadonly => "add-missing-readonly"
  | .format => "format"

def diagnosticIds : CleanupRule → List String
  | .removeUnusedImports => ["CS8019", "IDE0005"]
  | .fixModifierOrder => ["IDE0036"]
  | .addMissingReadonly => ["IDE0044"]
  | .organizeImports | .format => []

end CleanupRule

structure RuleRun where
  passes : Nat
  changed : Bool
deriving DecidableEq, Repr

namespace Cleanup

/-! ## Choosing fixes -/

/-- Order of candidates for one diagnostic: provider, title, key. -/
def preferred (a b : String × CodeAction) : Bool :=
  ((compare a.1 b.1)
    |>.then (compare a.2.title b.2.title)
    |>.then (compare a.2.equivalenceKey b.2.equivalenceKey)).isLE

/-- The fixes that the providers of a diagnostic offer. A provider that fails offers none. -/
def candidates (r : Registry) (s : Snapshot) (d : Diagnostic) : List (String × CodeAction) :=
  (r.fixProvidersFor d.id).flatMap fun p =>
    match p.provide s d with
    | .ok fixes => fixes.map fun fix => (p.typeName, fix)
    | .error _ => []

def best? (r : Registry) (s : Snapshot) (d : Diagnostic) : Option CodeAction :=
  (((candidates r s d).mergeSort preferred).head?).map (·.2)

/-- The edits chosen for a document. -/
def chosenFor (chosen : List DocumentEdit) (path : String) : List Edit :=
  ((Ordered.find? DocumentEdit.path path chosen).map (·.edits)).getD []

def fitsIn (chosen : List DocumentEdit) (fix : CodeAction) : Bool :=
  fix.edits.all fun d => Edit.disjoint (chosenFor chosen d.path) d.edits

def add (chosen : List DocumentEdit) (d : DocumentEdit) : List DocumentEdit :=
  Ordered.put DocumentEdit.path ⟨d.path, chosenFor chosen d.path ++ d.edits⟩ chosen

/-- Adds the best fix for a diagnostic unless it overlaps what is chosen. -/
def choose (r : Registry) (s : Snapshot) (chosen : List DocumentEdit) (d : Diagnostic) : List DocumentEdit :=
  match best? r s d with
  | none => chosen
  | some fix => if fitsIn chosen fix then fix.edits.foldl add chosen else chosen

/-- Edits by document, in path order, that fix diagnostics of one document with the given ids. -/
def chooseFixes (m : CodeModel) (s : Snapshot) (path : String) (ids : List String) : Result (List DocumentEdit) := do
  let r ← m.registry
  let ds ← (m.view s).diagnostics path
  return (ds.filter fun d => ids.contains d.id).foldl (choose r s) []

/-! ## Running a rule -/

def pass (m : CodeModel) (s : Snapshot) (path : String) (ids : List String) : Result (Option Snapshot) := do
  let chosen ← chooseFixes m s path ids
  if chosen.isEmpty then return none
  let next ← CodeAction.applyEdits s chosen
  return if chosen.all fun d => next.text? d.path == s.text? d.path then none else some next

/-- Passes until nothing changes, at most `fuel` of them; `done` have been made. -/
def passes (m : CodeModel) (path : String) (ids : List String) :
    Nat → Nat → Snapshot → Cancellable (Snapshot × Nat)
  | 0, done, s => return (s, done)
  | fuel + 1, done, s => do
    checkCancelled
    match ← pass m s path ids with
    | none => return (s, done)
    | some next => passes m path ids fuel (done + 1) next

/-- A rule that the code model carries out in one step. -/
def runOnce (s : Snapshot) (path : String) (next : Result Snapshot) : Result (Snapshot × RuleRun) :=
  next.map fun next => (next, ⟨1, next.text? path != s.text? path⟩)

def runRule (m : CodeModel) (rule : CleanupRule) (s : Snapshot) (path : String) (maxPasses : Nat) :
    Cancellable (Snapshot × RuleRun) := do
  checkCancelled
  match rule with
  | .organizeImports => runOnce s path ((m.view s).organizeImports path)
  | .format => runOnce s path ((m.view s).format path)
  | _ =>
    let (next, n) ← passes m path rule.diagnosticIds maxPasses 0 s
    return (next, ⟨n, n != 0⟩)

end Cleanup

end Workbench
