import Workbench.CSharp.Model
import Workbench.Cleanup.Run
import Workbench.Proofs.Editing
import Workbench.Proofs.Operations

/-!
# What stays

Over a code model whose own changes touch texts alone, every rule of a cleanup
and every pass of it touches texts alone. The model of C# is one.
-/

namespace Workbench

/-- The changes that the model computes itself touch the texts of documents alone. -/
structure CodeModel.KeepsShape (m : CodeModel) : Prop where
  rename {s next : Snapshot} {symbol : Symbol} {name : String} :
    (m.view s).rename symbol name = .ok next → s.SameShape next
  format {s next : Snapshot} {path : String} : (m.view s).format path = .ok next → s.SameShape next
  organizeImports {s next : Snapshot} {path : String} :
    (m.view s).organizeImports path = .ok next → s.SameShape next

/-! ## The model of C# -/

namespace CSharp

theorem model_keepsShape (read : Parser) : (model read).KeepsShape where
  rename := by
    intro s next symbol name h
    change renameSymbol _ _ s symbol name = .ok next at h
    unfold renameSymbol at h
    split at h
    · cases h
    · exact CodeAction.applyEdits_sameShape h
  format := by
    intro s next path h
    change formatDocument _ s path = .ok next at h
    unfold formatDocument at h
    split at h
    · cases h
    · exact Snapshot.withText_sameShape h
  organizeImports := by
    intro s next path h
    change organizeDocument _ s path = .ok next at h
    unfold organizeDocument at h
    split at h
    · cases h
    · exact Snapshot.withEdits_sameShape h

end CSharp

/-! ## Cleanup -/

namespace Cleanup

section
variable {m : CodeModel} {s next : Snapshot} {path : String} {ids : List String} {c c' : Cancellation}

/-! ### Relations that each step keeps -/

section
variable {R : Snapshot → Snapshot → Prop} (hrefl : ∀ s, R s s) (htrans : ∀ {a b c}, R a b → R b c → R a c)
include hrefl htrans

theorem passes_keep {fuel done n : Nat} (hpass : ∀ {s next}, pass m s path ids = .ok (some next) → R s next)
    (h : (passes m path ids fuel done s).run c = .ok ((next, n), c')) : R s next := by
  -- A pass that finds nothing stops; one that finds something hands its snapshot to the rest.
  induction fuel generalizing done s c with
  | zero =>
    obtain ⟨he, -⟩ := Cancellable.pure_eq_ok.1 h
    cases he
    exact hrefl _
  | succ fuel ih =>
    obtain ⟨_, c1, -, h⟩ := Cancellable.bind_eq_ok.1 h
    obtain ⟨o, c2, ho, h⟩ := Cancellable.bind_eq_ok.1 h
    obtain ⟨ho, -⟩ := Cancellable.lift_eq_ok.1 ho
    cases o with
    | none =>
      obtain ⟨he, -⟩ := Cancellable.pure_eq_ok.1 h
      cases he
      exact hrefl _
    | some mid => exact htrans (hpass ho) (ih h)

theorem runOver_keep {rule : CleanupRule} {maxPasses : Nat} {paths : List String} {sum sum' : RuleSummary}
    (hrule : ∀ {path s next run c c'}, path ∈ paths → (runRule m rule s path maxPasses).run c = .ok ((next, run), c') →
      R s next)
    (h : (runOver m rule maxPasses paths s sum).run c = .ok ((next, sum'), c')) : R s next := by
  induction paths generalizing s sum c with
  | nil =>
    obtain ⟨he, -⟩ := Cancellable.pure_eq_ok.1 h
    cases he
    exact hrefl _
  | cons path rest ih =>
    obtain ⟨_, c1, -, h⟩ := Cancellable.bind_eq_ok.1 h
    obtain ⟨⟨mid, run⟩, c2, hmid, h⟩ := Cancellable.bind_eq_ok.1 h
    exact htrans (hrule List.mem_cons_self hmid) (ih (fun hp => hrule (List.mem_cons_of_mem path hp)) h)

theorem runRules_keep {rules : List CleanupRule} {maxPasses : Nat} {paths : List String} {sums : List RuleSummary}
    (hover : ∀ {rule sum sum' s next c c'}, (runOver m rule maxPasses paths s sum).run c = .ok ((next, sum'), c') →
      R s next)
    (h : (runRules m maxPasses paths rules s).run c = .ok ((next, sums), c')) : R s next := by
  induction rules generalizing s sums c c' with
  | nil =>
    obtain ⟨he, -⟩ := Cancellable.pure_eq_ok.1 h
    cases he
    exact hrefl _
  | cons rule rest ih =>
    obtain ⟨⟨mid, sum⟩, c1, hmid, h⟩ := Cancellable.bind_eq_ok.1 h
    obtain ⟨⟨last, sums'⟩, c2, hlast, h⟩ := Cancellable.bind_eq_ok.1 h
    obtain ⟨he, -⟩ := Cancellable.pure_eq_ok.1 h
    cases he
    exact htrans (hover hmid) (ih hlast)

end

/-! ### The shape of snapshots -/

theorem pass_sameShape (h : pass m s path ids = .ok (some next)) : s.SameShape next := by
  unfold pass at h
  obtain ⟨chosen, hchosen, h⟩ := Result.bind_eq_ok.1 h
  split at h
  · cases h
  · obtain ⟨last, hlast, h⟩ := Result.bind_eq_ok.1 h
    have hs := CodeAction.applyEdits_sameShape hlast
    split at h
    · cases h
    · cases h
      exact hs

theorem passes_sameShape {fuel done n : Nat} (h : (passes m path ids fuel done s).run c = .ok ((next, n), c')) :
    s.SameShape next := passes_keep .refl .trans pass_sameShape h

theorem runOnce_ok {r : Result Snapshot} {run : RuleRun} (h : runOnce s path r = .ok (next, run)) : r = .ok next := by
  obtain ⟨last, hlast, he⟩ := Result.map_eq_ok.1 h
  cases he
  exact hlast

/-- A rule organizes, or it formats, or it applies fixes in passes. -/
theorem runRule_cases {rule : CleanupRule} {maxPasses : Nat} {run : RuleRun}
    (h : (runRule m rule s path maxPasses).run c = .ok ((next, run), c')) :
    (rule = .organizeImports ∧ (m.view s).organizeImports path = .ok next) ∨
      (rule = .format ∧ (m.view s).format path = .ok next) ∨
      (rule ≠ .organizeImports ∧ rule ≠ .format ∧ ∃ n d d',
        (passes m path rule.diagnosticIds maxPasses 0 s).run d = .ok ((next, n), d')) := by
  have hpasses : ∀ {d ids}, (passes m path ids maxPasses 0 s >>= fun last =>
      (pure (last.1, ⟨last.2, last.2 != 0⟩) : Cancellable (Snapshot × RuleRun))).run d = .ok ((next, run), c') →
        ∃ n d d', (passes m path ids maxPasses 0 s).run d = .ok ((next, n), d') := by
    intro d ids h
    obtain ⟨⟨last, n⟩, c2, hlast, h⟩ := Cancellable.bind_eq_ok.1 h
    obtain ⟨he, -⟩ := Cancellable.pure_eq_ok.1 h
    cases he
    exact ⟨n, d, c2, hlast⟩
  unfold runRule at h
  obtain ⟨_, c1, -, h⟩ := Cancellable.bind_eq_ok.1 h
  cases rule with
  | organizeImports => exact .inl ⟨rfl, runOnce_ok (Cancellable.lift_eq_ok.1 h).1⟩
  | format => exact .inr (.inl ⟨rfl, runOnce_ok (Cancellable.lift_eq_ok.1 h).1⟩)
  | removeUnusedImports => exact .inr (.inr ⟨by decide, by decide, hpasses h⟩)
  | fixModifierOrder => exact .inr (.inr ⟨by decide, by decide, hpasses h⟩)
  | addMissingReadonly => exact .inr (.inr ⟨by decide, by decide, hpasses h⟩)

theorem runRule_sameShape (hm : m.KeepsShape) {rule : CleanupRule} {maxPasses : Nat} {run : RuleRun}
    (h : (runRule m rule s path maxPasses).run c = .ok ((next, run), c')) : s.SameShape next := by
  rcases runRule_cases h with ⟨-, h⟩ | ⟨-, h⟩ | ⟨-, -, n, d, d', h⟩
  · exact hm.organizeImports h
  · exact hm.format h
  · exact passes_sameShape h

theorem runOver_sameShape (hm : m.KeepsShape) {rule : CleanupRule} {maxPasses : Nat} {paths : List String}
    {sum sum' : RuleSummary} (h : (runOver m rule maxPasses paths s sum).run c = .ok ((next, sum'), c')) :
    s.SameShape next := runOver_keep .refl .trans (fun _ hrun => runRule_sameShape hm hrun) h

theorem runRules_sameShape (hm : m.KeepsShape) {rules : List CleanupRule} {maxPasses : Nat} {paths : List String}
    {sums : List RuleSummary} (h : (runRules m maxPasses paths rules s).run c = .ok ((next, sums), c')) :
    s.SameShape next := runRules_keep .refl .trans (runOver_sameShape hm) h

end

end Cleanup

end Workbench
