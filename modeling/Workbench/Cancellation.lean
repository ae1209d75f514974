import Workbench.Fault

/-!
# Cancellation

A caller may ask a long operation to stop while it runs. The operation looks at
certain steps and stops at the first one that finds the wish.
-/

namespace Workbench

/-- How many more looks pass before the caller asks to stop; none when that never happens. -/
structure Cancellation where
  left : Option Nat
deriving DecidableEq, Repr

namespace Cancellation

def never : Cancellation := ⟨none⟩

/-- The caller has asked before the operation begins. -/
def early : Cancellation := ⟨some 0⟩

end Cancellation

abbrev Cancellable (α : Type) := StateT Cancellation Result α

def checkCancelled : Cancellable Unit := fun c =>
  match c.left with
  | none => .ok ((), c)
  | some 0 => .error .cancelled
  | some (n + 1) => .ok ((), ⟨some n⟩)

end Workbench
