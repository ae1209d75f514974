import Workbench.Action.Removal
import Workbench.Proofs.Editing
import Workbench.Proofs.Operations

/-!
# Prepared changes

What a token is turned into on a session. Preparing reads the session alone;
a prepared change starts from the current version and is the outcome of one
code action. It is committed in full or not at all.
-/

namespace Workbench

section
variable {m : CodeModel} {maxCells : Nat} {raw : String} {s : Snapshot} {version : Nat}

theorem checkVersion_eq_ok {expected current : Nat} : checkVersion expected current = .ok () ↔ expected = current := by
  unfold checkVersion
  by_cases h : expected = current
  · rw [if_pos h]
    exact iff_of_true rfl h
  · rw [if_neg h]
    exact iff_of_false (fun e => nomatch e) h

theorem checkVersion_of_ne {expected current : Nat} (h : expected ≠ current) :
    checkVersion expected current = .error (.workspaceChanged expected current) := if_neg h

/-! ## Actions -/

namespace Pipeline

/-- A prepared action is what the code action of the relocated candidate makes of the snapshot. -/
theorem prepareOn_eq_ok {t : ActionToken} {p : Prepared} : prepareOn m maxCells raw t s version = .ok p ↔
    t.version = version ∧ ∃ change described next, relocate m s raw t = .ok (change, described) ∧
      change.apply s = .ok next ∧
      p = ⟨described, Policy.evaluate described t.profile, version, next, .between s next maxCells⟩ := by
  unfold prepareOn
  constructor
  · intro h
    obtain ⟨u, hv, h⟩ := Result.bind_eq_ok.1 h
    obtain ⟨⟨change, described⟩, hr, h⟩ := Result.bind_eq_ok.1 h
    obtain ⟨next, hn, h⟩ := Result.bind_eq_ok.1 h
    cases h
    exact ⟨checkVersion_eq_ok.1 hv, change, described, next, hr, hn, rfl⟩
  · rintro ⟨hv, change, described, next, hr, hn, rfl⟩
    refine Result.bind_eq_ok.2 ⟨(), checkVersion_eq_ok.2 hv, Result.bind_eq_ok.2 ⟨_, hr, ?_⟩⟩
    exact Result.bind_eq_ok.2 ⟨next, hn, rfl⟩

/-- A token of another version is refused before anything is looked up. -/
theorem prepareOn_of_ne {t : ActionToken} (h : t.version ≠ version) :
    prepareOn m maxCells raw t s version = .error (.workspaceChanged t.version version) := by
  unfold prepareOn
  rw [checkVersion_of_ne h]
  rfl

/-- What preparing gives on a snapshot of a version. -/
def prepared (m : CodeModel) (maxCells : Nat) (raw : String) (s : Snapshot) (version : Nat) : Result Prepared :=
  ActionToken.decode raw >>= fun t => prepareOn m maxCells raw t s version

theorem prepared_eq_ok {p : Prepared} : prepared m maxCells raw s version = .ok p ↔
    ∃ t, ActionToken.decode raw = .ok t ∧ prepareOn m maxCells raw t s version = .ok p := Result.bind_eq_ok

end Pipeline

/-! ## Removals of locals -/

namespace Removal

theorem prepareOn_eq_ok {t : FixToken} {p : Prepared} : prepareOn m maxCells raw t s version = .ok p ↔
    t.version = version ∧ ∃ change next, relocate m s raw t = .ok change ∧ change.apply s = .ok next ∧
      p = ⟨change.title, version, next, .between s next maxCells⟩ := by
  unfold prepareOn
  constructor
  · intro h
    obtain ⟨u, hv, h⟩ := Result.bind_eq_ok.1 h
    obtain ⟨change, hr, h⟩ := Result.bind_eq_ok.1 h
    obtain ⟨next, hn, h⟩ := Result.bind_eq_ok.1 h
    cases h
    exact ⟨checkVersion_eq_ok.1 hv, change, next, hr, hn, rfl⟩
  · rintro ⟨hv, change, next, hr, hn, rfl⟩
    refine Result.bind_eq_ok.2 ⟨(), checkVersion_eq_ok.2 hv, Result.bind_eq_ok.2 ⟨_, hr, ?_⟩⟩
    exact Result.bind_eq_ok.2 ⟨next, hn, rfl⟩

theorem prepareOn_of_ne {t : FixToken} (h : t.version ≠ version) :
    prepareOn m maxCells raw t s version = .error (.workspaceChanged t.version version) := by
  unfold prepareOn
  rw [checkVersion_of_ne h]
  rfl

def prepared (m : CodeModel) (maxCells : Nat) (raw : String) (s : Snapshot) (version : Nat) : Result Prepared :=
  FixToken.decode raw >>= fun t => prepareOn m maxCells raw t s version

theorem prepared_eq_ok {p : Prepared} : prepared m maxCells raw s version = .ok p ↔
    ∃ t, FixToken.decode raw = .ok t ∧ prepareOn m maxCells raw t s version = .ok p := Result.bind_eq_ok

end Removal

end

/-! ## On a session -/

/-- A session after a commit of changed texts, with the versions before and after and what has changed. -/
structure Session.Commits (maxCells : Nat) (s s' : Session) (a : Applied) : Prop where
  previous : a.previous = s.version
  version : a.version = s.version + 1
  current : s'.version = a.version
  shape : s.snapshot.SameShape s'.snapshot
  changes : a.changes = .between s.snapshot s'.snapshot maxCells
  nonempty : a.changes.isEmpty = false

/-- A session after what is ready has been committed; without it the session stays. -/
def Session.committing {P : Type} (s : Session) (next : P → Snapshot) (changes : P → ChangeSet) :
    Result P → Result Applied × Session
  | .ok p => (.ok ⟨s.version, s.version + 1, changes p⟩, ⟨next p, s.version + 1⟩)
  | .error e => (.error e, s)

theorem Session.committing_failed {P : Type} {s s' : Session} {next : P → Snapshot} {changes : P → ChangeSet}
    {r : Result P} {e : Fault} (h : s.committing next changes r = (.error e, s')) : s' = s := by
  cases r with
  | error e' =>
    cases h
    rfl
  | ok p => cases h

/-- What is ready and passes a check. -/
def Result.checked {P : Type} (r : Result P) (check : P → Result Unit) : Result P :=
  r >>= fun p => (check p).map fun _ => p

theorem Result.checked_eq_ok {P : Type} {r : Result P} {check : P → Result Unit} {p : P} :
    r.checked check = .ok p ↔ r = .ok p ∧ check p = .ok () := by
  constructor
  · intro h
    obtain ⟨p', hp, h⟩ := Result.bind_eq_ok.1 h
    obtain ⟨u, hu, rfl⟩ := Result.map_eq_ok.1 h
    exact ⟨hp, hu⟩
  · rintro ⟨hr, hc⟩
    exact Result.bind_eq_ok.2 ⟨p, hr, Result.map_eq_ok.2 ⟨(), hc, rfl⟩⟩

section
variable {P : Type} {prepare : Op Session P} {r : Result P} {s : Session}

/-- What has been prepared from the current version is committed once it is checked. -/
theorem Session.on_commitPrepared (check : P → Result Unit) (base : P → Nat) (next : P → Snapshot)
    (changes : P → ChangeSet) (isMissing : String → Bool) (hp : prepare.on s = (r, s))
    (hbase : ∀ p, r = .ok p → base p = s.version) :
    (do
      let p ← prepare
      Op.ofResult (check p)
      let version ← (hostBeside isMissing).commit (base p) (next p)
      return ⟨base p, version, changes p⟩ : Op Session Applied).on s =
    s.committing next changes (r.checked check) := by
  rw [Op.on_bind, hp]
  cases r with
  | error e => rfl
  | ok p =>
    change (Op.ofResult (check p) >>= fun _ => (hostBeside isMissing).commit (base p) (next p) >>= fun version =>
      (pure ⟨base p, version, changes p⟩ : Op Session Applied)).on s =
      s.committing next changes ((check p).map fun _ => p)
    rw [hbase p rfl, Op.on_bind, Op.on_ofResult]
    cases check p with
    | error e => rfl
    | ok u =>
      change ((hostBeside isMissing).commit s.version (next p) >>= fun version =>
        (pure ⟨s.version, version, changes p⟩ : Op Session Applied)).on s = _
      rw [Op.on_bind, on_commit_current]
      rfl

end

section
variable (m : CodeModel) (maxCells : Nat) (raw : String) (isMissing : String → Bool) (s : Session)

namespace Pipeline

theorem on_prepare : (prepare (Session.hostBeside isMissing) m maxCells raw).on s =
    (prepared m maxCells raw s.snapshot s.version, s) := by
  unfold prepare prepared
  rw [Op.on_bind, Op.on_ofResult]
  cases ActionToken.decode raw <;> rfl

theorem on_preview : (preview (Session.hostBeside isMissing) m maxCells raw).on s =
    ((prepared m maxCells raw s.snapshot s.version).map fun p =>
      ⟨trim raw, p.base, p.action, p.decision, p.changes⟩, s) := by
  unfold preview
  rw [Op.on_bind, on_prepare]
  cases prepared m maxCells raw s.snapshot s.version <;> rfl

theorem on_evaluatePolicy : (evaluatePolicy (Session.hostBeside isMissing) m maxCells raw).on s =
    ((prepared m maxCells raw s.snapshot s.version).map Prepared.decision, s) := by
  unfold evaluatePolicy
  rw [Op.on_bind, on_prepare]
  cases prepared m maxCells raw s.snapshot s.version <;> rfl

/-- An application either fails and leaves the session as it was, or commits what was prepared. -/
theorem on_apply : (apply (Session.hostBeside isMissing) m maxCells raw).on s =
    s.committing Prepared.next Prepared.changes
      ((prepared m maxCells raw s.snapshot s.version).checked checkPrepared) := by
  refine Session.on_commitPrepared checkPrepared Prepared.base Prepared.next Prepared.changes isMissing
    (on_prepare m maxCells raw isMissing s) fun p hp => ?_
  obtain ⟨t, -, ht⟩ := prepared_eq_ok.1 hp
  obtain ⟨-, change, described, next, -, -, rfl⟩ := prepareOn_eq_ok.1 ht
  rfl

variable {m maxCells raw isMissing s}

theorem checkPrepared_eq_ok {p : Prepared} :
    checkPrepared p = .ok () ↔ p.decision.isAllowed = true ∧ p.changes.isEmpty = false := by
  unfold checkPrepared
  cases p.decision.isAllowed with
  | false => exact iff_of_false (fun e => nomatch e) (fun h => nomatch h.1)
  | true =>
    cases p.changes.isEmpty with
    | false => exact iff_of_true rfl ⟨rfl, rfl⟩
    | true => exact iff_of_false (fun e => nomatch e) (fun h => nomatch h.2)

theorem preview_of_prepared {p : Prepared} (h : prepared m maxCells raw s.snapshot s.version = .ok p) :
    (preview (Session.hostBeside isMissing) m maxCells raw).on s =
      (.ok ⟨trim raw, p.base, p.action, p.decision, p.changes⟩, s) := by
  rw [on_preview, h]
  rfl

theorem apply_of_allowed {p : Prepared} (h : prepared m maxCells raw s.snapshot s.version = .ok p)
    (hallow : p.decision.outcome = .allow) (hchanges : p.changes.isEmpty = false) :
    (apply (Session.hostBeside isMissing) m maxCells raw).on s =
      (.ok ⟨s.version, s.version + 1, p.changes⟩, ⟨p.next, s.version + 1⟩) := by
  have hcheck : checkPrepared p = .ok () := checkPrepared_eq_ok.2 ⟨beq_iff_eq.2 hallow, hchanges⟩
  rw [on_apply, Result.checked_eq_ok.2 ⟨h, hcheck⟩]
  rfl

theorem apply_of_blocked {p : Prepared} (h : prepared m maxCells raw s.snapshot s.version = .ok p)
    (hblock : p.decision.outcome ≠ .allow) : (apply (Session.hostBeside isMissing) m maxCells raw).on s =
      (.error (.policyBlocked p.decision), s) := by
  have hcheck : checkPrepared p = .error (.policyBlocked p.decision) := by
    have hb : p.decision.isAllowed = false := beq_eq_false_iff_ne.2 hblock
    rw [checkPrepared, hb]
    rfl
  rw [on_apply, h]
  change s.committing Prepared.next Prepared.changes ((checkPrepared p).map fun _ => p) = _
  rw [hcheck]
  rfl

/-- What an application commits has been prepared from a token of the current version. -/
theorem apply_eq_ok {a : Applied} {s' : Session}
    (h : (apply (Session.hostBeside isMissing) m maxCells raw).on s = (.ok a, s')) :
    ∃ t p, ActionToken.decode raw = .ok t ∧ prepareOn m maxCells raw t s.snapshot s.version = .ok p ∧
      checkPrepared p = .ok () ∧ a = ⟨s.version, s.version + 1, p.changes⟩ ∧ s' = ⟨p.next, s.version + 1⟩ := by
  rw [on_apply] at h
  cases hr : (prepared m maxCells raw s.snapshot s.version).checked checkPrepared with
  | error e =>
    rw [hr] at h
    cases h
  | ok p =>
    rw [hr] at h
    cases h
    obtain ⟨hp, hc⟩ := Result.checked_eq_ok.1 hr
    obtain ⟨t, ht, hp⟩ := prepared_eq_ok.1 hp
    exact ⟨t, p, ht, hp, hc, rfl, rfl⟩

theorem apply_commits {a : Applied} {s' : Session}
    (h : (apply (Session.hostBeside isMissing) m maxCells raw).on s = (.ok a, s')) : s.Commits maxCells s' a := by
  obtain ⟨t, p, -, hp, hc, rfl, rfl⟩ := apply_eq_ok h
  obtain ⟨-, change, described, next, -, hn, rfl⟩ := prepareOn_eq_ok.1 hp
  exact ⟨rfl, rfl, rfl, CodeAction.applyEdits_sameShape hn, rfl, (checkPrepared_eq_ok.1 hc).2⟩

end Pipeline

namespace Removal

theorem on_prepare : (prepare (Session.hostBeside isMissing) m maxCells raw).on s =
    (prepared m maxCells raw s.snapshot s.version, s) := by
  unfold prepare prepared
  rw [Op.on_bind, Op.on_ofResult]
  cases FixToken.decode raw <;> rfl

theorem on_preview : (preview (Session.hostBeside isMissing) m maxCells raw).on s =
    ((prepared m maxCells raw s.snapshot s.version).map fun p => ⟨trim raw, p.base, p.title, p.changes⟩, s) := by
  unfold preview
  rw [Op.on_bind, on_prepare]
  cases prepared m maxCells raw s.snapshot s.version <;> rfl

theorem on_apply : (apply (Session.hostBeside isMissing) m maxCells raw).on s =
    s.committing Prepared.next Prepared.changes
      ((prepared m maxCells raw s.snapshot s.version).checked checkPrepared) := by
  refine Session.on_commitPrepared checkPrepared Prepared.base Prepared.next Prepared.changes isMissing
    (on_prepare m maxCells raw isMissing s) fun p hp => ?_
  obtain ⟨t, -, ht⟩ := prepared_eq_ok.1 hp
  obtain ⟨-, change, next, -, -, rfl⟩ := prepareOn_eq_ok.1 ht
  rfl

variable {m maxCells raw isMissing s}

theorem checkPrepared_eq_ok {p : Prepared} : checkPrepared p = .ok () ↔ p.changes.isEmpty = false := by
  unfold checkPrepared
  cases p.changes.isEmpty with
  | false => exact iff_of_true rfl rfl
  | true => exact iff_of_false (fun e => nomatch e) (fun h => nomatch h)

theorem apply_eq_ok {a : Applied} {s' : Session}
    (h : (apply (Session.hostBeside isMissing) m maxCells raw).on s = (.ok a, s')) :
    ∃ t p, FixToken.decode raw = .ok t ∧ prepareOn m maxCells raw t s.snapshot s.version = .ok p ∧
      checkPrepared p = .ok () ∧ a = ⟨s.version, s.version + 1, p.changes⟩ ∧ s' = ⟨p.next, s.version + 1⟩ := by
  rw [on_apply] at h
  cases hr : (prepared m maxCells raw s.snapshot s.version).checked checkPrepared with
  | error e =>
    rw [hr] at h
    cases h
  | ok p =>
    rw [hr] at h
    cases h
    obtain ⟨hp, hc⟩ := Result.checked_eq_ok.1 hr
    obtain ⟨t, ht, hp⟩ := prepared_eq_ok.1 hp
    exact ⟨t, p, ht, hp, hc, rfl, rfl⟩

theorem apply_commits {a : Applied} {s' : Session}
    (h : (apply (Session.hostBeside isMissing) m maxCells raw).on s = (.ok a, s')) : s.Commits maxCells s' a := by
  obtain ⟨t, p, -, hp, hc, rfl, rfl⟩ := apply_eq_ok h
  obtain ⟨-, change, next, -, hn, rfl⟩ := prepareOn_eq_ok.1 hp
  exact ⟨rfl, rfl, rfl, CodeAction.applyEdits_sameShape hn, rfl, checkPrepared_eq_ok.1 hc⟩

end Removal

end

end Workbench
