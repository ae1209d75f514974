import Workbench.Cancellation
import Workbench.Session

/-!
# Operations step by step

How results, cancellable work and operations on a host go through a `do`
block: one that succeeds has come past each of its steps. On a session in
memory the host is known, and an operation that only reads leaves it alone.
-/

namespace Workbench

section
variable {σ α β : Type}

/-! ## Results -/

theorem Result.bind_eq_ok {x : Result α} {f : α → Result β} {b : β} :
    (x >>= f) = .ok b ↔ ∃ a, x = .ok a ∧ f a = .ok b := by
  cases x with
  | error e => exact ⟨fun h => (nomatch h), fun ⟨a, h, h'⟩ => (nomatch h)⟩
  | ok a => exact ⟨fun h => ⟨a, rfl, h⟩, fun ⟨a', h, h'⟩ => by cases h; exact h'⟩

theorem Result.eq_ok_of_toOption {x : Result α} {a : α} (h : x.toOption = some a) : x = .ok a := by
  cases x with
  | error e => cases h
  | ok b => exact congrArg Except.ok (Option.some.inj h)

theorem Result.map_eq_ok {x : Result α} {f : α → β} {b : β} : x.map f = .ok b ↔ ∃ a, x = .ok a ∧ f a = b := by
  cases x with
  | error e => exact ⟨fun h => (nomatch h), fun ⟨a, h, h'⟩ => (nomatch h)⟩
  | ok a => exact ⟨fun h => ⟨a, rfl, Except.ok.inj h⟩, fun ⟨a', h, h'⟩ => by cases h; rw [← h']; rfl⟩

/-! ## Cancellable work -/

theorem Cancellable.bind_eq_ok {x : Cancellable α} {f : α → Cancellable β} {c c' : Cancellation} {b : β} :
    (x >>= f).run c = .ok (b, c') ↔ ∃ a d, x.run c = .ok (a, d) ∧ (f a).run d = .ok (b, c') := by
  rw [StateT.run_bind, Result.bind_eq_ok]
  exact ⟨fun ⟨(a, d), h⟩ => ⟨a, d, h⟩, fun ⟨a, d, h⟩ => ⟨(a, d), h⟩⟩

theorem Cancellable.pure_eq_ok {a b : α} {c c' : Cancellation} :
    (pure a : Cancellable α).run c = .ok (b, c') ↔ a = b ∧ c = c' := by
  constructor
  · intro h
    cases h
    exact ⟨rfl, rfl⟩
  · rintro ⟨rfl, rfl⟩
    rfl

theorem Cancellable.lift_eq_ok {x : Result α} {c c' : Cancellation} {a : α} :
    (liftM x : Cancellable α).run c = .ok (a, c') ↔ x = .ok a ∧ c = c' := by
  cases x with
  | error e => exact ⟨fun h => (nomatch h), fun ⟨h, h'⟩ => (nomatch h)⟩
  | ok b =>
    constructor
    · intro h
      cases h
      exact ⟨rfl, rfl⟩
    · rintro ⟨h, rfl⟩
      cases h
      rfl

/-! ## Operations -/

namespace Op

/-- What an operation gives, and the state that it leaves. -/
def on (op : Op σ α) (s : σ) : Result α × σ := op.run.run s

@[simp] theorem on_pure (a : α) (s : σ) : (pure a : Op σ α).on s = (.ok a, s) := rfl

@[simp] theorem on_ofResult (r : Result α) (s : σ) : (Op.ofResult r).on s = (r, s) := rfl

@[simp] theorem on_throw (e : Fault) (s : σ) : (throw e : Op σ α).on s = (.error e, s) := rfl

@[simp] theorem on_get (s : σ) : (get : Op σ σ).on s = (.ok s, s) := rfl

theorem on_lift (x : StateM σ α) (s : σ) : Op.on (ExceptT.lift x) s = (.ok (x.run s).1, (x.run s).2) := rfl

theorem on_bind (x : Op σ α) (f : α → Op σ β) (s : σ) :
    (x >>= f).on s = match x.on s with
      | (.ok a, t) => (f a).on t
      | (.error e, t) => (.error e, t) := by
  have h : (x >>= f).on s = (ExceptT.bindCont f (x.on s).1).run (x.on s).2 := rfl
  rw [h]
  rcases x.on s with ⟨r, t⟩
  cases r <;> rfl

theorem on_bind_eq_ok {x : Op σ α} {f : α → Op σ β} {s s' : σ} {b : β} :
    (x >>= f).on s = (.ok b, s') ↔ ∃ a t, x.on s = (.ok a, t) ∧ (f a).on t = (.ok b, s') := by
  rw [on_bind]
  rcases x.on s with ⟨r, t⟩
  cases r with
  | error e =>
    constructor
    · intro h
      cases h
    · rintro ⟨a, t', h, -⟩
      cases h
  | ok a =>
    constructor
    · exact fun h => ⟨a, t, rfl, h⟩
    · rintro ⟨a', t', h, h'⟩
      cases h
      exact h'

theorem on_ofResult_bind_eq_ok {r : Result α} {f : α → Op σ β} {s s' : σ} {b : β} :
    (Op.ofResult r >>= f).on s = (.ok b, s') ↔ ∃ a, r = .ok a ∧ (f a).on s = (.ok b, s') := by
  rw [on_bind_eq_ok]
  constructor
  · rintro ⟨a, t, h, h'⟩
    obtain ⟨rfl, rfl⟩ := Prod.mk.inj h
    exact ⟨a, rfl, h'⟩
  · rintro ⟨a, rfl, h⟩
    exact ⟨a, s, rfl, h⟩

theorem on_bind_eq_error {x : Op σ α} {f : α → Op σ β} {s s' : σ} {e : Fault} :
    (x >>= f).on s = (.error e, s') ↔
      x.on s = (.error e, s') ∨ ∃ a t, x.on s = (.ok a, t) ∧ (f a).on t = (.error e, s') := by
  rw [on_bind]
  rcases x.on s with ⟨r, t⟩
  cases r with
  | error e' =>
    constructor
    · exact fun h => .inl (by cases h; rfl)
    · rintro (h | ⟨a, t', h, -⟩)
      · cases h
        rfl
      · cases h
  | ok a =>
    constructor
    · exact fun h => .inr ⟨a, t, rfl, h⟩
    · rintro (h | ⟨a', t', h, h'⟩)
      · cases h
      · cases h
        exact h'

/-- An operation leaves the state `s` as it is, and a result that it gives there satisfies `P`. -/
def ReadsTo (s : σ) (P : α → Prop) (op : Op σ α) : Prop := (op.on s).2 = s ∧ ∀ a, (op.on s).1 = .ok a → P a

/-- An operation leaves the state `s` as it is. -/
abbrev Reads (s : σ) (op : Op σ α) : Prop := op.ReadsTo s fun _ => True

section
variable {s : σ} {P : α → Prop} {Q : β → Prop}

theorem ReadsTo.pure {a : α} (h : P a) : ReadsTo s P (pure a) := by
  refine ⟨rfl, fun b hb => ?_⟩
  cases hb
  exact h

theorem ReadsTo.ofResult {r : Result α} (h : ∀ a, r = .ok a → P a) : ReadsTo s P (Op.ofResult r) := ⟨rfl, h⟩

theorem ReadsTo.throw (e : Fault) : ReadsTo s P (throw e) := ⟨rfl, fun _ h => nomatch h⟩

theorem ReadsTo.state {op : Op σ α} {r : Result α} {s' : σ} (h : ReadsTo s P op) (hr : op.on s = (r, s')) : s' = s := by
  have hs := h.1
  rwa [hr] at hs

theorem ReadsTo.result {op : Op σ α} {a : α} {s' : σ} (h : ReadsTo s P op) (hr : op.on s = (.ok a, s')) : P a :=
  h.2 a (by rw [hr])

theorem ReadsTo.bind {x : Op σ α} {f : α → Op σ β} (hx : ReadsTo s P x) (hf : ∀ a, P a → ReadsTo s Q (f a)) :
    ReadsTo s Q (x >>= f) := by
  obtain ⟨h, ha⟩ := hx
  unfold ReadsTo
  rw [on_bind]
  rcases hr : x.on s with ⟨r, t⟩
  rw [hr] at h ha
  cases r with
  | error e => exact ⟨h, fun b hb => nomatch hb⟩
  | ok a =>
    obtain rfl : t = s := h
    exact hf a (ha a rfl)

theorem ReadsTo.after {x : Op σ α} {f : α → Op σ β} (hx : Reads s x) (hf : ∀ a, ReadsTo s Q (f a)) :
    ReadsTo s Q (x >>= f) := hx.bind fun a _ => hf a

theorem reads_of_on {op : Op σ α} {r : Result α} (h : op.on s = (r, s)) : Reads s op :=
  ⟨congrArg Prod.snd h, fun _ _ => trivial⟩

theorem ReadsTo.mono {R : α → Prop} {op : Op σ α} (h : ReadsTo s P op) (hr : ∀ a, P a → R a) : ReadsTo s R op :=
  ⟨h.1, fun a ha => hr a (h.2 a ha)⟩

theorem reads_ofResult (r : Result α) : Reads s (Op.ofResult r) := .ofResult fun _ _ => trivial

theorem reads_pure (a : α) : Reads s (pure a) := .pure trivial

theorem readsTo_get : ReadsTo s (· = s) (get : Op σ σ) := by
  refine ⟨rfl, fun t ht => ?_⟩
  cases ht
  rfl

end

end Op

end

/-! ## The host of a session -/

namespace Session

section
variable (isMissing : String → Bool) (s : Session) (base : Nat) (next : Snapshot)

@[simp] theorem on_snapshot : (hostBeside isMissing).snapshot.on s = (.ok (s.snapshot, s.version), s) := rfl

theorem readsTo_snapshot : (hostBeside isMissing).snapshot.ReadsTo s (· = (s.snapshot, s.version)) := by
  refine ⟨rfl, fun x hx => ?_⟩
  cases hx
  rfl

theorem on_commit : ((hostBeside isMissing).commit base next).on s =
    if s.version = base then (.ok (base + 1), ⟨next, base + 1⟩)
    else (.error (.workspaceChanged base s.version), s) := rfl

theorem on_commit_current : ((hostBeside isMissing).commit s.version next).on s =
    (.ok (s.version + 1), ⟨next, s.version + 1⟩) := by
  rw [on_commit, if_pos rfl]

end

end Session

end Workbench
