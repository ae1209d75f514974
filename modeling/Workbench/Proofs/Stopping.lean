import Workbench.CSharp.Model
import Workbench.CSharp.Tree
import Workbench.Proofs.Frame
import Workbench.Proofs.Walking

/-!
# When a rule stops

A rule that works on diagnostics makes one pass after another. It stops for
want of passes, or because a pass would do nothing to the snapshot that it has
come to. In the second case it has nothing to do there when it is run again.
-/

namespace Workbench

namespace Cleanup

section
variable {m : CodeModel} {s next : Snapshot} {path : String} {ids : List String} {c c' : Cancellation}

theorem passes_idle (h : pass m s path ids = .ok none) (fuel done : Nat) :
    Cancellable.Yields (passes m path ids fuel done s) (s, done) := by
  cases fuel with
  | zero => exact .pure _
  | succ fuel => exact Cancellable.yields_checkCancelled.bind ((Cancellable.Yields.lift h).bind (.pure _))

/-- When passes are left over, the last pass had nothing to do. -/
theorem passes_stop {fuel done n : Nat} (h : (passes m path ids fuel done s).run c = .ok ((next, n), c')) :
    done ≤ n ∧ n ≤ done + fuel ∧ (n < done + fuel → pass m next path ids = .ok none) := by
  induction fuel generalizing done s c with
  | zero =>
    obtain ⟨he, -⟩ := Cancellable.pure_eq_ok.1 h
    cases he
    exact ⟨Nat.le_refl _, Nat.le_refl _, fun hlt => absurd hlt (Nat.lt_irrefl _)⟩
  | succ fuel ih =>
    obtain ⟨_, c1, -, h⟩ := Cancellable.bind_eq_ok.1 h
    obtain ⟨o, c2, ho, h⟩ := Cancellable.bind_eq_ok.1 h
    obtain ⟨ho, -⟩ := Cancellable.lift_eq_ok.1 ho
    cases o with
    | none =>
      obtain ⟨he, -⟩ := Cancellable.pure_eq_ok.1 h
      cases he
      exact ⟨Nat.le_refl _, Nat.le_add_right _ _, fun _ => ho⟩
    | some mid =>
      obtain ⟨hle, hge, hidle⟩ := ih h
      exact ⟨by omega, by omega, fun hlt => hidle (by omega)⟩

/-- A rule that has diagnostics to act on makes passes, and has changed something when it has made one. -/
theorem runRule_eq {rule : CleanupRule} (hrule : rule.diagnosticIds ≠ []) (maxPasses : Nat) :
    runRule m rule s path maxPasses = checkCancelled >>= fun _ => passes m path rule.diagnosticIds maxPasses 0 s >>= fun last =>
      pure (last.1, ⟨last.2, last.2 != 0⟩) := by
  cases rule with
  | organizeImports | format => exact absurd rfl hrule
  | removeUnusedImports | fixModifierOrder | addMissingReadonly => rfl

/-- A rule stops early only where it has nothing left to do, whatever the code model says of each snapshot. -/
theorem runRule_stops {rule : CleanupRule} {maxPasses : Nat} {run : RuleRun} (hrule : rule.diagnosticIds ≠ [])
    (h : (runRule m rule s path maxPasses).run c = .ok ((next, run), c')) :
    run.passes ≤ maxPasses ∧ (run.changed = true ↔ 1 ≤ run.passes) ∧
      (run.passes < maxPasses → ∀ cap, Cancellable.Yields (runRule m rule next path cap) (next, ⟨0, false⟩)) := by
  rw [runRule_eq hrule] at h
  obtain ⟨_, c1, -, h⟩ := Cancellable.bind_eq_ok.1 h
  obtain ⟨⟨last, n⟩, c2, hpasses, h⟩ := Cancellable.bind_eq_ok.1 h
  obtain ⟨he, -⟩ := Cancellable.pure_eq_ok.1 h
  cases he
  obtain ⟨-, hle, hidle⟩ := passes_stop hpasses
  rw [Nat.zero_add] at hle hidle
  refine ⟨hle, by simp [Nat.one_le_iff_ne_zero], fun hlt cap => ?_⟩
  rw [runRule_eq hrule]
  exact Cancellable.yields_checkCancelled.bind ((passes_idle (hidle hlt) cap 0).bind (.pure _))

end

/-- A document with a directive that it does not need. -/
def cluttered : Snapshot := Snapshot.empty.addDocument "App" "a.cs" "using System.Text;\nclass C { }\n" none

def cleared : Snapshot := Snapshot.empty.addDocument "App" "a.cs" "class C { }\n" none

theorem runRule_stops_cluttered :
    (runRule (CSharp.model CSharp.parse) .removeUnusedImports cluttered "a.cs" 3).run .never = .ok ((cleared, ⟨1, true⟩), .never) ∧
      ∀ cap, Cancellable.Yields (runRule (CSharp.model CSharp.parse) .removeUnusedImports cleared "a.cs" cap)
        (cleared, ⟨0, false⟩) := by
  have hrun : (runRule (CSharp.model CSharp.parse) .removeUnusedImports cluttered "a.cs" 3).run .never =
      .ok ((cleared, ⟨1, true⟩), .never) := by
    have hsome : ((runRule (CSharp.model CSharp.parse) .removeUnusedImports cluttered "a.cs" 3).run .never).toOption =
        some ((cleared, ⟨1, true⟩), .never) := by
      decide +kernel
    generalize (runRule (CSharp.model CSharp.parse) .removeUnusedImports cluttered "a.cs" 3).run .never = out at hsome ⊢
    cases out with
    | error e => cases hsome
    | ok a =>
      cases hsome
      rfl
  exact ⟨hrun, (runRule_stops (by decide) hrun).2.2 (by decide)⟩

end Cleanup

end Workbench
