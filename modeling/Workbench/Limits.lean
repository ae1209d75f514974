import Workbench.Text.Blank
import Workbench.Text.Numeral

/-!
# Limits

Bounds on the work of an operation. They can be set from the environment; a
setting that is no number is ignored.
-/

namespace Workbench

structure Limits where
  cleanupPasses : Nat := 3
  callGraphDepth : Nat := 4
  /-- Cells of the largest table that is built to count changed regions. -/
  diffCells : Nat := 4000000
deriving DecidableEq, Repr

namespace Limits

def setting (environment : String → Option String) (name : String) (default : Nat) : Nat :=
  (((environment name).map trim).bind Numeral.parse).getD default

/-- The limits that an environment sets. Passes and depth are at least one. -/
def ofEnvironment (environment : String → Option String) : Limits where
  cleanupPasses := max 1 (setting environment "CODEACT_CLEANUP_MAX_PASSES" 3)
  callGraphDepth := max 1 (setting environment "CODEACT_CALL_GRAPH_MAX_DEPTH" 4)
  diffCells := setting environment "CODEACT_DIFF_MAX_CELLS" 4000000

end Limits

end Workbench
