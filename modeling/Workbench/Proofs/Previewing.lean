import Workbench.Proofs.Preparing

/-!
# Previews and applications

A preview shows what an application of the same token to the same session
commits. Where the preview fails, so does the application, with the same
fault; what else it refuses is told by what the preview shows.
-/

namespace Workbench

/-- How the application of a token to the session `s` follows from its preview: `changes` is what the preview shows, and
`refusal?` the fault with which what it shows is refused. -/
structure Foretold {V : Type} (maxCells : Nat) (s : Session) (changes : V → ChangeSet) (refusal? : V → Option Fault)
    (preview : Result V × Session) (apply : Result Applied × Session) : Prop where
  /-- A preview leaves the session as it is. -/
  reads : preview.2 = s
  succeeds : (∃ a, apply.1 = .ok a) ↔ ∃ v, preview.1 = .ok v ∧ refusal? v = none
  /-- What is committed is what was shown, and the difference between the snapshots before and after. -/
  commits : ∀ v a, preview.1 = .ok v → apply.1 = .ok a → a.changes = changes v ∧ s.Commits maxCells apply.2 a
  fails : ∀ e, preview.1 = .error e → apply = (.error e, s)
  refuses : ∀ v e, preview.1 = .ok v → refusal? v = some e → apply = (.error e, s)

section
variable {V P : Type} {maxCells : Nat} {s : Session} {changes : V → ChangeSet} {refusal? : V → Option Fault}

theorem Foretold.of_error (e : Fault) : Foretold maxCells s changes refusal? (.error e, s) (.error e, s) where
  reads := rfl
  succeeds := ⟨fun ⟨_, h⟩ => (nomatch h), fun ⟨_, h, _⟩ => (nomatch h)⟩
  commits _ _ h := nomatch h
  fails e' h := by
    cases h
    rfl
  refuses _ _ h := nomatch h

theorem Foretold.of_refused {v : V} {e : Fault} (hv : refusal? v = some e) :
    Foretold maxCells s changes refusal? (.ok v, s) (.error e, s) where
  reads := rfl
  succeeds := by
    refine ⟨fun ⟨_, h⟩ => (nomatch h), fun ⟨w, hw, hnone⟩ => ?_⟩
    cases hw
    exact absurd (hv.symm.trans hnone) nofun
  commits _ _ _ h := nomatch h
  fails _ h := nomatch h
  refuses w e' hw he := by
    cases hw
    cases hv.symm.trans he
    rfl

theorem Foretold.of_accepted {v : V} {a : Applied} {s' : Session} (hv : refusal? v = none)
    (hchanges : a.changes = changes v) (hcommits : s.Commits maxCells s' a) :
    Foretold maxCells s changes refusal? (.ok v, s) (.ok a, s') where
  reads := rfl
  succeeds := ⟨fun _ => ⟨v, rfl, hv⟩, fun _ => ⟨a, rfl⟩⟩
  commits w a' hw ha := by
    cases hw
    cases ha
    exact ⟨hchanges, hcommits⟩
  fails _ h := nomatch h
  refuses w e hw he := by
    cases hw
    exact absurd (hv.symm.trans he) nofun

/-- A preview and an application that rest on one prepared change: what is shown is a view of it, and its check
refuses what the view does. -/
theorem Foretold.of_prepared {r : Result P} {view : P → V} {next : P → Snapshot} {prepared : P → ChangeSet}
    {check : P → Result Unit} (hview : ∀ p, prepared p = changes (view p))
    (hcheck : ∀ p, check p = (refusal? (view p)).elim (.ok ()) .error)
    (hshows : ∀ v, refusal? v = none → (changes v).isEmpty = false)
    (hmade : ∀ p, r = .ok p →
      s.snapshot.SameShape (next p) ∧ prepared p = .between s.snapshot (next p) maxCells) :
    Foretold maxCells s changes refusal? (r.map view, s) (s.committing next prepared (r.checked check)) := by
  cases r with
  | error e => exact .of_error e
  | ok p =>
    change Foretold maxCells s changes refusal? (.ok (view p), s)
      (s.committing next prepared ((check p).map fun _ => p))
    rw [hcheck]
    cases hr : refusal? (view p) with
    | some e => exact .of_refused hr
    | none =>
      obtain ⟨hshape, hbetween⟩ := hmade p rfl
      exact .of_accepted hr (hview p) ⟨rfl, rfl, rfl, hshape, hbetween, hview p ▸ hshows _ hr⟩

end

/-! ## Actions and removals -/

/-- Why an action that can be previewed is not applied: policy does not allow it, or it changes nothing. -/
def Pipeline.Preview.refusal? (p : Preview) : Option Fault :=
  if p.policy.outcome ≠ .allow then some (.policyBlocked p.policy)
  else if p.changes.isEmpty then some (.fixConflict (.action p.action.title))
  else none

/-- Why a removal that can be previewed is not applied: it changes nothing. -/
def Removal.Preview.refusal? (p : Preview) : Option Fault :=
  if p.changes.isEmpty then some (.fixConflict (.fix p.title)) else none

theorem Pipeline.Preview.refusal?_eq_none {p : Preview} :
    p.refusal? = none ↔ p.policy.outcome = .allow ∧ p.changes.isEmpty = false := by
  unfold refusal?
  by_cases hallow : p.policy.outcome = .allow <;> by_cases hempty : p.changes.isEmpty <;> simp [hallow, hempty]

theorem Removal.Preview.refusal?_eq_none {p : Preview} : p.refusal? = none ↔ p.changes.isEmpty = false := by
  unfold refusal?
  by_cases hempty : p.changes.isEmpty <;> simp [hempty]

section
variable (m : CodeModel) (maxCells : Nat) (isMissing : String → Bool) (raw : String) (s : Session)

theorem Pipeline.apply_foretold : Foretold maxCells s Preview.changes Preview.refusal?
    ((preview (Session.hostBeside isMissing) m maxCells raw).on s)
    ((apply (Session.hostBeside isMissing) m maxCells raw).on s) := by
  rw [on_preview, on_apply]
  refine .of_prepared (fun p => rfl) (fun p => ?_) (fun v h => (Preview.refusal?_eq_none.1 h).2) fun p hp => ?_
  · unfold checkPrepared Preview.refusal?
    by_cases hallow : p.decision.outcome = .allow <;> by_cases hempty : p.changes.isEmpty <;>
      simp [Decision.isAllowed, hallow, hempty]
  · obtain ⟨t, -, ht⟩ := prepared_eq_ok.1 hp
    obtain ⟨-, change, described, next, -, hnext, rfl⟩ := prepareOn_eq_ok.1 ht
    exact ⟨CodeAction.applyEdits_sameShape hnext, rfl⟩

theorem Removal.apply_foretold : Foretold maxCells s Preview.changes Preview.refusal?
    ((preview (Session.hostBeside isMissing) m maxCells raw).on s)
    ((apply (Session.hostBeside isMissing) m maxCells raw).on s) := by
  rw [on_preview, on_apply]
  refine .of_prepared (fun p => rfl) (fun p => ?_) (fun v => Preview.refusal?_eq_none.1) fun p hp => ?_
  · unfold checkPrepared Preview.refusal?
    by_cases hempty : p.changes.isEmpty <;> simp [hempty]
  · obtain ⟨t, -, ht⟩ := prepared_eq_ok.1 hp
    obtain ⟨-, change, next, -, hnext, rfl⟩ := prepareOn_eq_ok.1 ht
    exact ⟨CodeAction.applyEdits_sameShape hnext, rfl⟩

/-- Whatever string is given as a token, its preview tells whether its application succeeds, what it commits, and with
which fault it fails otherwise: for actions and for removals of locals. -/
theorem previewed_is_committed :
    (Foretold maxCells s Pipeline.Preview.changes Pipeline.Preview.refusal?
      ((Pipeline.preview (Session.hostBeside isMissing) m maxCells raw).on s)
      ((Pipeline.apply (Session.hostBeside isMissing) m maxCells raw).on s) ∧
      ∀ p : Pipeline.Preview, p.refusal? = none ↔ p.policy.outcome = .allow ∧ p.changes.isEmpty = false) ∧
    Foretold maxCells s Removal.Preview.changes Removal.Preview.refusal?
      ((Removal.preview (Session.hostBeside isMissing) m maxCells raw).on s)
      ((Removal.apply (Session.hostBeside isMissing) m maxCells raw).on s) ∧
      ∀ p : Removal.Preview, p.refusal? = none ↔ p.changes.isEmpty = false :=
  ⟨⟨Pipeline.apply_foretold m maxCells isMissing raw s, fun _ => Pipeline.Preview.refusal?_eq_none⟩,
    Removal.apply_foretold m maxCells isMissing raw s, fun _ => Removal.Preview.refusal?_eq_none⟩

end

end Workbench
