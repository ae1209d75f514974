import Workbench.Proofs.Sessions

/-!
# Tokens are used once

A token names the version at which it was made. An application that succeeds
leaves that version for good, and from then on every use of the token is
refused, whatever else is called in between.
-/

namespace Workbench.Service

/-! ## Uses of a token -/

/-- The call that a step makes, when it can be read. -/
def Step.call? (t : Step) : Option Call := (Call.read t.call.method t.call.params).toOption

def Step.Succeeds (t : Step) : Prop := ∃ j, t.reply = .ok j

theorem succeeds_of_applied {t : Step} (h : t.applied = true) : t.Succeeds := by
  unfold Step.applied at h
  split at h
  · rename_i j hj
    exact ⟨j, hj⟩
  · cases h

/-- An action token is passed to one of the methods that take it. -/
def Step.UsesAction (raw : String) (t : Step) : Prop :=
  t.call? = some (.previewAction raw) ∨ t.call? = some (.applyAction raw) ∨ t.call? = some (.evaluatePolicy raw)

/-- A fix token is passed to one of the methods that take it. -/
def Step.UsesFix (raw : String) (t : Step) : Prop :=
  t.call? = some (.previewFix raw) ∨ t.call? = some (.applyFix raw)

/-- A step is refused because the version it names is older than the current one. -/
def Step.RefusedSince (version : Nat) (t : Step) : Prop :=
  version < t.before.version ∧ t.reply = .error (.workspaceChanged version t.before.version)

/-- A token is spent when it is applied, by either of the two methods. -/
def Step.Spends (raw : String) (t : Step) : Prop :=
  (t.call? = some (.applyAction raw) ∨ t.call? = some (.applyFix raw)) ∧ t.Succeeds

section
variable {m : CodeModel} {limits : Limits} {s : Session} {i : Invocation} {call : Call} {raw : String}

theorem call?_handled : (handled m limits s i).call? = (Call.read i.method i.params).toOption := rfl

theorem handled_of_call? (h : (handled m limits s i).call? = some call) :
    handled m limits s i =
      ⟨i, s, ((call.run (Session.hostBeside i.isMissing) m limits i.cancellation).on s).1.map Answer.toJson,
        ((call.run (Session.hostBeside i.isMissing) m limits i.cancellation).on s).2⟩ := by
  rw [call?_handled] at h
  cases hread : Call.read i.method i.params with
  | error e =>
    rw [hread] at h
    cases h
  | ok call' =>
    rw [hread] at h
    cases h
    exact handled_of_read_ok hread

theorem reply_of_failed {e : Fault} (s' : Session) (h : (handled m limits s i).call? = some call)
    (hf : (call.run (Session.hostBeside i.isMissing) m limits i.cancellation).on s = (.error e, s')) :
    (handled m limits s i).reply = .error e := by
  rw [handled_of_call? h, hf]
  rfl

theorem answer_of_reply {j : Json} (h : (handled m limits s i).call? = some call)
    (hj : (handled m limits s i).reply = .ok j) : ∃ a, j = a.toJson ∧
      (call.run (Session.hostBeside i.isMissing) m limits i.cancellation).on s =
        (.ok a, (handled m limits s i).after) := by
  rw [handled_of_call? h] at hj ⊢
  rcases hrun : (call.run (Session.hostBeside i.isMissing) m limits i.cancellation).on s with ⟨r, s'⟩
  rw [hrun] at hj
  cases r with
  | error e => cases hj
  | ok a =>
    cases hj
    exact ⟨a, rfl, rfl⟩

/-! ## Stale tokens -/

theorem prepared_of_stale_action (m : CodeModel) (maxCells : Nat) {t : ActionToken}
    (ht : ActionToken.decode raw = .ok t) (hv : t.version < s.version) : Pipeline.prepared m maxCells raw s.snapshot s.version =
      .error (.workspaceChanged t.version s.version) := by
  rw [Pipeline.prepared, ht]
  exact Pipeline.prepareOn_of_ne (Nat.ne_of_lt hv)

theorem prepared_of_stale_fix (m : CodeModel) (maxCells : Nat) {t : FixToken} (ht : FixToken.decode raw = .ok t)
    (hv : t.version < s.version) : Removal.prepared m maxCells raw s.snapshot s.version =
      .error (.workspaceChanged t.version s.version) := by
  rw [Removal.prepared, ht]
  exact Removal.prepareOn_of_ne (Nat.ne_of_lt hv)

/-- A token of an earlier version is refused by every method that takes it. -/
theorem refused_of_stale_action {t : ActionToken} (ht : ActionToken.decode raw = .ok t) (hv : t.version < s.version)
    (hu : (handled m limits s i).UsesAction raw) : (handled m limits s i).RefusedSince t.version := by
  have hp := prepared_of_stale_action m limits.diffCells ht hv
  refine ⟨hv, ?_⟩
  rcases hu with h | h | h
  · refine reply_of_failed s h (Op.on_bind_eq_error.2 (.inl ?_))
    rw [Pipeline.on_preview, hp]
    rfl
  · refine reply_of_failed s h (Op.on_bind_eq_error.2 (.inl ?_))
    rw [Pipeline.on_apply, hp]
    rfl
  · refine reply_of_failed s h (Op.on_bind_eq_error.2 (.inl ?_))
    rw [Pipeline.on_evaluatePolicy, hp]
    rfl

theorem refused_of_stale_fix {t : FixToken} (ht : FixToken.decode raw = .ok t) (hv : t.version < s.version)
    (hu : (handled m limits s i).UsesFix raw) : (handled m limits s i).RefusedSince t.version := by
  have hp := prepared_of_stale_fix m limits.diffCells ht hv
  refine ⟨hv, ?_⟩
  rcases hu with h | h
  · refine reply_of_failed s h (Op.on_bind_eq_error.2 (.inl ?_))
    rw [Removal.on_preview, hp]
    rfl
  · refine reply_of_failed s h (Op.on_bind_eq_error.2 (.inl ?_))
    rw [Removal.on_apply, hp]
    rfl

/-! ## Spent tokens -/

/-- A token that is spent is one of the current version, and the step that spends it leaves that version. -/
theorem version_of_spent_action (h : (handled m limits s i).call? = some (.applyAction raw))
    (hok : (handled m limits s i).Succeeds) : ∃ t, ActionToken.decode raw = .ok t ∧ t.version = s.version ∧
      (handled m limits s i).after.version = s.version + 1 := by
  obtain ⟨j, hj⟩ := hok
  obtain ⟨a, -, ha⟩ := answer_of_reply h hj
  obtain ⟨x, s', hx, hp⟩ := Op.on_bind_eq_ok.1 ha
  cases hp
  have hc := Pipeline.apply_commits hx
  obtain ⟨t, p, ht, hprep, -⟩ := Pipeline.apply_eq_ok hx
  exact ⟨t, ht, (Pipeline.prepareOn_eq_ok.1 hprep).1, hc.current.trans hc.version⟩

theorem version_of_spent_fix (h : (handled m limits s i).call? = some (.applyFix raw))
    (hok : (handled m limits s i).Succeeds) : ∃ t, FixToken.decode raw = .ok t ∧ t.version = s.version ∧
      (handled m limits s i).after.version = s.version + 1 := by
  obtain ⟨j, hj⟩ := hok
  obtain ⟨a, -, ha⟩ := answer_of_reply h hj
  obtain ⟨x, s', hx, hp⟩ := Op.on_bind_eq_ok.1 ha
  cases hp
  have hc := Removal.apply_commits hx
  obtain ⟨t, p, ht, hprep, -⟩ := Removal.apply_eq_ok hx
  exact ⟨t, ht, (Removal.prepareOn_eq_ok.1 hprep).1, hc.current.trans hc.version⟩

end

/-- No text is a token of both kinds: one has thirteen fields and the other seven. -/
theorem not_both_tokens {raw : String} {t : ActionToken} {u : FixToken} (ht : ActionToken.decode raw = .ok t) :
    FixToken.decode raw ≠ .ok u := by
  intro hu
  -- Both kinds split the trimmed text at its bars.
  have h13 : (splitOnChar '|' (trim raw)).length = 13 := by
    unfold ActionToken.decode ActionToken.parse at ht
    split at ht
    · rename_i heq
      split at heq
      · rename_i hs
        rw [hs]
        rfl
      · cases heq
    · cases ht
  have h7 : (splitOnChar '|' (trim raw)).length = 7 := by
    unfold FixToken.decode FixToken.parse at hu
    split at hu
    · rename_i heq
      split at heq
      · rename_i hs
        rw [hs]
        rfl
      · cases heq
    · cases hu
  rw [h13] at h7
  cases h7

/-! ## Runs -/

section
variable {m : CodeModel} {limits : Limits} {s : Session} {calls : List Invocation} {raw : String}

theorem trace_eq_append_of_two {front mid back : List Step} {a b : Step}
    (h : trace m limits s calls = front ++ a :: (mid ++ b :: back)) :
    ∃ i j rest, a = handled m limits a.before i ∧ b = handled m limits b.before j ∧
      trace m limits a.after rest = mid ++ b :: back := by
  obtain ⟨i, rest, ha, hrest⟩ := trace_eq_append h
  obtain ⟨j, rest', hb, -⟩ := trace_eq_append hrest.symm
  exact ⟨i, j, rest, ha, hb, hrest.symm⟩

/-- The version never falls between two steps of a run. -/
theorem version_mono (hm : m.KeepsShape) {front mid back : List Step} {a b : Step}
    (h : trace m limits s calls = front ++ a :: (mid ++ b :: back)) : a.after.version ≤ b.before.version := by
  obtain ⟨i, j, rest, -, -, hrest⟩ := trace_eq_append_of_two h
  rw [version_before hm hrest]
  exact Nat.le_add_right _ _

/-- Once an action token is spent, every later use of it is refused. -/
theorem refused_after_spent_action (hm : m.KeepsShape) {front mid back : List Step} {a b : Step}
    (h : trace m limits s calls = front ++ a :: (mid ++ b :: back)) (ha : a.call? = some (.applyAction raw))
    (hok : a.Succeeds) : ∃ t, ActionToken.decode raw = .ok t ∧ t.version < b.before.version ∧
      (b.UsesAction raw → b.RefusedSince t.version) := by
  obtain ⟨i, j, rest, hai, hbj, -⟩ := trace_eq_append_of_two h
  rw [hai] at ha hok
  obtain ⟨t, ht, hv, hafter⟩ := version_of_spent_action ha hok
  rw [← hai] at hafter
  have hmono := version_mono hm h
  have hlt : t.version < b.before.version := by omega
  refine ⟨t, ht, hlt, fun hb => ?_⟩
  rw [hbj] at hb ⊢
  exact refused_of_stale_action ht hlt hb

theorem refused_after_spent_fix (hm : m.KeepsShape) {front mid back : List Step} {a b : Step}
    (h : trace m limits s calls = front ++ a :: (mid ++ b :: back)) (ha : a.call? = some (.applyFix raw))
    (hok : a.Succeeds) : ∃ t, FixToken.decode raw = .ok t ∧ t.version < b.before.version ∧
      (b.UsesFix raw → b.RefusedSince t.version) := by
  obtain ⟨i, j, rest, hai, hbj, -⟩ := trace_eq_append_of_two h
  rw [hai] at ha hok
  obtain ⟨t, ht, hv, hafter⟩ := version_of_spent_fix ha hok
  rw [← hai] at hafter
  have hmono := version_mono hm h
  have hlt : t.version < b.before.version := by omega
  refine ⟨t, ht, hlt, fun hb => ?_⟩
  rw [hbj] at hb ⊢
  exact refused_of_stale_fix ht hlt hb

theorem not_succeeds_of_refused {version : Nat} {t : Step} (h : t.RefusedSince version) : ¬ t.Succeeds := by
  rintro ⟨j, hj⟩
  rw [h.2] at hj
  cases hj

/-- A token is not spent twice. -/
theorem not_spends_after_spends (hm : m.KeepsShape) {front mid back : List Step} {a b : Step}
    (h : trace m limits s calls = front ++ a :: (mid ++ b :: back)) (ha : a.Spends raw) : ¬ b.Spends raw := by
  rintro ⟨hb, hbok⟩
  obtain ⟨ha, haok⟩ := ha
  obtain ⟨i, j, rest, hai, hbj, -⟩ := trace_eq_append_of_two h
  rcases ha with ha | ha
  · obtain ⟨t, ht, -, hrefused⟩ := refused_after_spent_action hm h ha haok
    rcases hb with hb | hb
    · exact not_succeeds_of_refused (hrefused (.inr (.inl hb))) hbok
    · rw [hbj] at hb hbok
      obtain ⟨u, hu, -⟩ := version_of_spent_fix hb hbok
      exact not_both_tokens ht hu
  · obtain ⟨t, ht, -, hrefused⟩ := refused_after_spent_fix hm h ha haok
    rcases hb with hb | hb
    · rw [hbj] at hb hbok
      obtain ⟨u, hu, -⟩ := version_of_spent_action hb hbok
      exact not_both_tokens hu ht
    · exact not_succeeds_of_refused (hrefused (.inr hb)) hbok

end

end Workbench.Service
