import Mathlib.Logic.Function.Basic
import Workbench.Proofs.Operations

/-!
# Clients that share a session

Any clients read a session and commit on what they have read, in any order, and
may keep what they read for as long as they like. The commits that succeed form
one chain: each is based on exactly what the one before it installed. All others
are refused, since they are based on something older.
-/

namespace Workbench.Sharing

/-! ## Clients -/

/-- What a client got from a session: a snapshot and its version. -/
structure Reading where
  snapshot : Snapshot
  version : Nat
deriving DecidableEq, Repr

def Reading.of (s : Session) : Reading := ⟨s.snapshot, s.version⟩

/-- A call of `commit` with its reply, and the session before and after. -/
structure Attempt (ι : Type) where
  client : ι
  base : Reading
  next : Snapshot
  before : Session
  reply : Result Nat
  after : Session

def Attempt.succeeds {ι : Type} (a : Attempt ι) : Bool := a.reply.toBool

def attempt {ι : Type} (s : Session) (client : ι) (base : Reading) (next : Snapshot) : Attempt ι :=
  let out := (Session.commit base.version next).on s
  ⟨client, base, next, s, out.1, out.2⟩

inductive Action (ι : Type) where
  | read (client : ι)
  /-- A commit of any snapshot on something that the client has read; `back` counts from its last reading. -/
  | commit (client : ι) (back : Nat) (next : Snapshot)

/-- A session with all that each client has read of it, the last reading first. -/
structure World (ι : Type) where
  session : Session
  readings : ι → List Reading

def World.start {ι : Type} (s : Session) : World ι := ⟨s, fun _ => []⟩

section
variable {ι : Type} [DecidableEq ι]

/-- One step of one client, with the commit that it tries. A client that has not read so far back does nothing. -/
def act (w : World ι) : Action ι → World ι × List (Attempt ι)
  | .read i =>
    let ((snapshot, version), s) := Session.current.run w.session
    (⟨s, Function.update w.readings i (⟨snapshot, version⟩ :: w.readings i)⟩, [])
  | .commit i back next =>
    match (w.readings i)[back]? with
    | none => (w, [])
    | some base =>
      let a := attempt w.session i base next
      (⟨a.after, w.readings⟩, [a])

/-- The steps of all clients in the order in which they come, with every commit that is tried. -/
def run : World ι → List (Action ι) → World ι × List (Attempt ι)
  | w, [] => (w, [])
  | w, step :: rest =>
    let (mid, tried) := act w step
    let (last, more) := run mid rest
    (last, tried ++ more)

end

/-! ## Chains -/

/-- Commits that lead from one session to another: each is based on what was installed just before. -/
def Leads {ι : Type} : Session → List (Attempt ι) → Session → Prop
  | s, [], last => last = s
  | s, a :: rest, last => a.base = .of s ∧ a.after = ⟨a.next, s.version + 1⟩ ∧ Leads a.after rest last

/-- What a session is at first, and after each of some commits. -/
def installed {ι : Type} (s : Session) (as : List (Attempt ι)) : List Reading := .of s :: as.map fun a => .of a.after

section
variable {ι : Type} {s mid last : Session} {as bs : List (Attempt ι)} {r : Reading}

theorem Leads.append (h : Leads s as mid) (h' : Leads mid bs last) : Leads s (as ++ bs) last := by
  induction as generalizing s with
  | nil =>
    obtain rfl : mid = s := h
    exact h'
  | cons a rest ih => exact ⟨h.1, h.2.1, ih h.2.2⟩

/-- Versions grow along a chain, so the last version belongs to the last session alone. -/
theorem Leads.version_le (h : Leads s as last) (hr : r ∈ installed s as) :
    r.version ≤ last.version ∧ (r.version = last.version → r = .of last) := by
  induction as generalizing s r with
  | nil =>
    obtain rfl : last = s := h
    obtain rfl := List.mem_singleton.1 hr
    exact ⟨Nat.le_refl _, fun _ => rfl⟩
  | cons a rest ih =>
    obtain ⟨-, hafter, hrest⟩ := h
    rcases List.mem_cons.1 hr with rfl | hr
    · have hle := (ih hrest List.mem_cons_self).1
      have hversion : (Reading.of a.after).version = s.version + 1 := by rw [hafter]; rfl
      have hs : (Reading.of s).version = s.version := rfl
      exact ⟨by omega, fun he => by omega⟩
    · exact ih hrest hr

theorem Leads.mem_installed (h : Leads s as last) : .of last ∈ installed s as := by
  induction as generalizing s with
  | nil =>
    obtain rfl : last = s := h
    exact List.mem_cons_self
  | cons a rest ih => exact List.mem_cons_of_mem _ (ih h.2.2)

theorem Leads.version_le_base (h : Leads s as last) : ∀ a ∈ as, s.version ≤ a.base.version := by
  induction as generalizing s with
  | nil => exact fun a ha => nomatch ha
  | cons a rest ih =>
    obtain ⟨hbase, hafter, hrest⟩ := h
    intro b hb
    rcases List.mem_cons.1 hb with rfl | hb
    · exact Nat.le_of_eq (by rw [hbase]; rfl)
    · have hle := ih hrest b hb
      have hversion : a.after.version = s.version + 1 := by rw [hafter]
      omega

theorem Leads.pairwise (h : Leads s as last) : as.Pairwise fun a b => a.base.version < b.base.version := by
  induction as generalizing s with
  | nil => exact .nil
  | cons a rest ih =>
    obtain ⟨hbase, hafter, hrest⟩ := h
    refine List.pairwise_cons.2 ⟨fun b hb => ?_, ih hrest⟩
    have hle := hrest.version_le_base b hb
    have hversion : a.after.version = a.base.version + 1 := by rw [hafter, hbase]; rfl
    omega

end

/-! ## Steps -/

/-- The commits that succeed. -/
def committed {ι : Type} (as : List (Attempt ι)) : List (Attempt ι) := as.filter Attempt.succeeds

/-- What holds of a commit that is tried when others have been tried, on a session that began as `s`. -/
structure Serial {ι : Type} (s : Session) (earlier : List (Attempt ι)) (a : Attempt ι) : Prop where
  /-- The earlier commits that succeeded have made the session what it is. -/
  chain : Leads s (committed earlier) a.before
  /-- The client saw something that was installed. -/
  seen : a.base ∈ installed s (committed earlier)
  success : a.succeeds = true →
    a.base = .of a.before ∧ a.reply = .ok (a.base.version + 1) ∧ a.after = ⟨a.next, a.base.version + 1⟩
  refusal : a.succeeds = false → a.base.version < a.before.version ∧
    a.reply = .error (.workspaceChanged a.base.version a.before.version) ∧ a.after = a.before

/-- A world that has come about from the session `s`, when the given commits were tried. -/
structure Reached {ι : Type} (s : Session) (tried : List (Attempt ι)) (w : World ι) : Prop where
  chain : Leads s (committed tried) w.session
  seen {i : ι} {r : Reading} : r ∈ w.readings i → r ∈ installed s (committed tried)
  serial {earlier later : List (Attempt ι)} {a : Attempt ι} : tried = earlier ++ a :: later → Serial s earlier a

section
variable {ι : Type} {s : Session} {tried : List (Attempt ι)} {w : World ι} {base : Reading}

theorem Reached.start (s : Session) : Reached s [] (World.start s : World ι) where
  chain := rfl
  seen h := nomatch h
  serial h := by simp at h

theorem on_commit (s : Session) (base : Nat) (next : Snapshot) : (Session.commit base next).on s =
    if s.version = base then (.ok (base + 1), ⟨next, base + 1⟩)
    else (.error (.workspaceChanged base s.version), s) := rfl

theorem serial_attempt (h : Leads s (committed tried) w.session) (hbase : base ∈ installed s (committed tried)) (i : ι)
    (next : Snapshot) : Serial s tried (attempt w.session i base next) := by
  obtain ⟨hle, hlast⟩ := h.version_le hbase
  unfold attempt
  rw [on_commit]
  -- A base of the current version is the current snapshot, and any other base is older.
  by_cases hv : w.session.version = base.version
  · rw [if_pos hv]
    exact ⟨h, hbase, fun _ => ⟨hlast hv.symm, rfl, rfl⟩, nofun⟩
  · rw [if_neg hv]
    exact ⟨h, hbase, nofun, fun _ => ⟨Nat.lt_of_le_of_ne hle (Ne.symm hv), rfl, rfl⟩⟩

theorem committed_append (as bs : List (Attempt ι)) : committed (as ++ bs) = committed as ++ committed bs :=
  List.filter_append ..

theorem mem_installed_append {r : Reading} (bs : List (Attempt ι)) (h : r ∈ installed s (committed tried)) :
    r ∈ installed s (committed (tried ++ bs)) := by
  rw [committed_append]
  rcases List.mem_cons.1 h with rfl | h
  · exact List.mem_cons_self
  · rw [installed, List.map_append]
    exact List.mem_cons_of_mem _ (List.mem_append_left _ h)

theorem Reached.attempt (h : Reached s tried w) (hbase : base ∈ installed s (committed tried)) (i : ι) (next : Snapshot) :
    Reached s (tried ++ [attempt w.session i base next]) ⟨(attempt w.session i base next).after, w.readings⟩ := by
  have hserial := serial_attempt h.chain hbase i next
  have hbefore : (Sharing.attempt w.session i base next).before = w.session := rfl
  generalize Sharing.attempt w.session i base next = a at hserial hbefore ⊢
  refine ⟨?_, fun hr => mem_installed_append _ (h.seen hr), fun {earlier later b} he => ?_⟩
  · rw [committed_append]
    refine h.chain.append ?_
    cases ha : a.succeeds with
    | true =>
      obtain ⟨hcurrent, -, hafter⟩ := hserial.success ha
      rw [committed, List.filter_cons_of_pos ha]
      rw [hbefore] at hcurrent
      refine ⟨hcurrent, ?_, rfl⟩
      rw [hafter, hcurrent]
      rfl
    | false =>
      rw [committed, List.filter_cons_of_neg (by simp [ha])]
      exact (hserial.refusal ha).2.2.trans hbefore
  · rcases List.eq_nil_or_concat later with rfl | ⟨front, c, rfl⟩
    · obtain ⟨hfront, hb⟩ := List.append_inj' he rfl
      rw [← hfront, ← List.singleton_inj.1 hb]
      exact hserial
    · have he : tried ++ [a] = (earlier ++ b :: front) ++ [c] := by simpa using he
      exact h.serial (List.append_inj' he rfl).1

variable [DecidableEq ι]

theorem act_read (w : World ι) (i : ι) : Sharing.act w (.read i) =
    (⟨w.session, Function.update w.readings i (.of w.session :: w.readings i)⟩, []) := rfl

/-- Every step of a client keeps the chain, and all that was read stays on it. -/
theorem Reached.act (h : Reached s tried w) (step : Action ι) : Reached s (tried ++ (act w step).2) (act w step).1 := by
  cases step with
  | read i =>
    rw [act_read, List.append_nil]
    refine ⟨h.chain, fun {j r} hr => ?_, h.serial⟩
    dsimp only at hr
    by_cases hj : j = i
    · subst hj
      rw [Function.update_self] at hr
      rcases List.mem_cons.1 hr with rfl | hr
      · exact h.chain.mem_installed
      · exact h.seen hr
    · rw [Function.update_of_ne hj] at hr
      exact h.seen hr
  | commit i back next =>
    rw [Sharing.act]
    cases hbase : (w.readings i)[back]? with
    | none =>
      dsimp only
      rw [List.append_nil]
      exact h
    | some base => exact h.attempt (h.seen (List.mem_of_getElem? hbase)) i next

theorem Reached.run (h : Reached s tried w) (steps : List (Action ι)) :
    Reached s (tried ++ (run w steps).2) (run w steps).1 := by
  induction steps generalizing tried w with
  | nil =>
    rw [Sharing.run, List.append_nil]
    exact h
  | cons step rest ih =>
    have hrest := ih (h.act step)
    rw [List.append_assoc] at hrest
    exact hrest

end

/-! ## Runs -/

/-- No commit is lost: whatever clients do in whatever order, the commits that succeed are one chain from the first
session to the last, at most one for each version, and every other commit is refused and does nothing. -/
theorem no_lost_update {ι : Type} [DecidableEq ι] (s : Session) (steps : List (Action ι)) :
    Leads s (committed (run (World.start s) steps).2) (run (World.start s) steps).1.session ∧
      (committed (run (World.start s) steps).2).Pairwise (fun a b => a.base.version < b.base.version) ∧
      ∀ earlier a later, (run (World.start s) steps).2 = earlier ++ a :: later → Serial s earlier a := by
  have h := (Reached.start (ι := ι) s).run steps
  rw [List.nil_append] at h
  exact ⟨h.chain, h.chain.pairwise, fun _ _ _ he => h.serial he⟩

example : (run (World.start (.start .empty)) [.read 0, .read 1, .commit 0 0 .empty, .commit 1 0 .empty]).2.map
    Attempt.reply = [.ok 2, .error (.workspaceChanged 1 2)] := rfl

end Workbench.Sharing
