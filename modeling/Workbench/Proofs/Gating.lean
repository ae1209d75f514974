import Workbench.Cleanup.Run
import Workbench.Proofs.Operations

/-!
# The gate of a cleanup

A cleanup reloads and commits only behind its checks, whatever its host does in
between. The host is traced: it notes each call that is made of it with the
answer that it gave. What a run can do is said once, as the calls that it makes
and the result that it comes to; the gate is read off that.
-/

namespace Workbench

/-- A call of a host with its answer. A look at the snapshot notes the state that the host is in after it. -/
inductive Call (σ : Type) where
  | current (state : σ) (snapshot : Snapshot) (version : Nat)
  | commit (base : Nat) (next : Snapshot) (answer : Result Nat)
  | reload (answer : Result Nat)

namespace Call

variable {σ : Type}

def isCommit : Call σ → Bool
  | .commit .. => true
  | _ => false

def isReload : Call σ → Bool
  | .reload _ => true
  | _ => false

end Call

/-- The host that notes its calls, the last one at the end, and otherwise does what `h` does. -/
def Host.traced {σ : Type} (h : Host σ) : Host (σ × List (Call σ)) where
  current x := let y := h.current.run x.1; (y.1, (y.2, x.2 ++ [.current y.2 y.1.1 y.1.2]))
  commit base next x := let y := (h.commit base next).on x.1; (y.1, (y.2, x.2 ++ [.commit base next y.1]))
  supportsReload x := h.supportsReload x.1
  reload x := let y := h.reload.on x.1; (y.1, (y.2, x.2 ++ [.reload y.1]))
  isMissing x := h.isMissing x.1

section
variable {σ : Type} (h : Host σ) (x : σ × List (Call σ))

@[simp] theorem Host.traced_supportsReload : h.traced.supportsReload x = h.supportsReload x.1 := rfl

@[simp] theorem Host.traced_isMissing : h.traced.isMissing x = h.isMissing x.1 := rfl

end

/-! ## Traced operations -/

/-- From the state `s` both operations come to one result and one state, and the traced one makes the given calls. -/
structure Mirrors {σ α : Type} (plain : Op σ α) (traced : Op (σ × List (Call σ)) α) (s : σ) (result : Result α) (t : σ)
    (calls : List (Call σ)) : Prop where
  plain : plain.on s = (result, t)
  traced : ∀ earlier, traced.on (s, earlier) = (result, (t, earlier ++ calls))

namespace Mirrors

variable {σ α β : Type} {x : Op σ α} {x' : Op (σ × List (Call σ)) α} {f : α → Op σ β}
  {f' : α → Op (σ × List (Call σ)) β} {s t u : σ} {a : α} {result : Result β} {calls calls' : List (Call σ)}

theorem pure (a : α) (s : σ) : Mirrors (pure a) (pure a) s (.ok a) s [] :=
  ⟨rfl, fun earlier => by rw [Op.on_pure, List.append_nil]⟩

theorem ofResult (r : Result α) (s : σ) : Mirrors (Op.ofResult r) (Op.ofResult r) s r s [] :=
  ⟨rfl, fun earlier => by rw [Op.on_ofResult, List.append_nil]⟩

theorem throw (e : Fault) (s : σ) : Mirrors (throw e : Op σ α) (throw e) s (.error e) s [] :=
  ⟨rfl, fun earlier => by rw [Op.on_throw, List.append_nil]⟩

theorem bind (hx : Mirrors x x' s (.ok a) t calls) (hf : Mirrors (f a) (f' a) t result u calls') :
    Mirrors (x >>= f) (x' >>= f') s result u (calls ++ calls') := by
  refine ⟨?_, fun earlier => ?_⟩
  · rw [Op.on_bind, hx.plain]
    exact hf.plain
  · rw [Op.on_bind, hx.traced, ← List.append_assoc]
    exact hf.traced _

theorem bind_error {e : Fault} (hx : Mirrors x x' s (.error e) t calls) :
    Mirrors (x >>= f) (x' >>= f') s (.error e) t calls := by
  refine ⟨?_, fun earlier => ?_⟩
  · rw [Op.on_bind, hx.plain]
  · rw [Op.on_bind, hx.traced]

theorem call_bind {call : Call σ} (hx : Mirrors x x' s (.ok a) t [call])
    (hf : Mirrors (f a) (f' a) t result u calls) : Mirrors (x >>= f) (x' >>= f') s result u (call :: calls) :=
  hx.bind hf

/-- What makes no call leaves the calls as they are. -/
theorem bind_silent (hx : Mirrors x x' s (.ok a) t calls) (hf : Mirrors (f a) (f' a) t result u []) :
    Mirrors (x >>= f) (x' >>= f') s result u calls :=
  List.append_nil calls ▸ hx.bind hf

/-- A result that is at hand makes no call. -/
theorem ofResult_bind {r : Result α} (hr : r = .ok a) (hf : Mirrors (f a) (f' a) s result u calls) :
    Mirrors (Op.ofResult r >>= f) (Op.ofResult r >>= f') s result u calls :=
  (hr ▸ Mirrors.ofResult r s : Mirrors _ _ s (.ok a) s []).bind hf

theorem ofResult_error {r : Result α} {e : Fault} (hr : r = .error e) :
    Mirrors (Op.ofResult r >>= f) (Op.ofResult r >>= f') s (.error e) s [] :=
  (hr ▸ Mirrors.ofResult r s : Mirrors _ _ s (.error e) s []).bind_error

/-- Neither does a look at the state. -/
theorem get_bind {f : σ → Op σ β} {f' : σ × List (Call σ) → Op (σ × List (Call σ)) β}
    (hf : ∀ earlier, Mirrors (f s) (f' (s, earlier)) s result u calls) :
    Mirrors (get >>= f) (get >>= f') s result u calls := by
  refine ⟨?_, fun earlier => ?_⟩
  · rw [Op.on_bind, Op.on_get]
    exact (hf []).plain
  · rw [Op.on_bind, Op.on_get]
    exact (hf earlier).traced earlier

section
variable (h : Host σ) (s : σ)

theorem snapshot : ∃ t snapshot version, Mirrors h.snapshot h.traced.snapshot s (.ok (snapshot, version)) t
    [.current t snapshot version] :=
  ⟨_, _, _, rfl, fun _ => rfl⟩

theorem commit (base : Nat) (next : Snapshot) : ∃ t answer, Mirrors (h.commit base next) (h.traced.commit base next) s
    answer t [.commit base next answer] :=
  ⟨_, _, rfl, fun _ => rfl⟩

/-- A reload whose failure is caught. -/
theorem reload : ∃ t answer, Mirrors (ExceptT.lift h.reload.run) (ExceptT.lift h.traced.reload.run) s (.ok answer) t
    [.reload answer] :=
  ⟨_, _, rfl, fun _ => rfl⟩

end

end Mirrors

namespace Cleanup

section
variable {σ : Type} (h : Host σ) (r : Request)

/-- The scope is found in a snapshot, and no file of it is gone. -/
structure Healthy (x : σ) (s : Snapshot) (paths : List String) : Prop where
  scope : resolveScope s r.scope r.path = .ok paths
  present : missingFiles (h.isMissing x) s paths = []

/-- The scope is found in a snapshot, and some of its files are gone. -/
structure Lacking (x : σ) (s : Snapshot) (missing : List String) : Prop where
  scope : ∃ paths, resolveScope s r.scope r.path = .ok paths ∧ missingFiles (h.isMissing x) s paths = missing
  some_missing : missing ≠ []

/-! ## What the check of files can do -/

/-- What is found after a reload, by the state and the snapshot that are met then. -/
inductive Recheck (before : List String) (x : σ) (s : Snapshot) (version : Nat) : Result Ground → Prop
  | vanished {why : BadInput} : resolveScope s r.scope r.path = .error why →
      Recheck before x s version (.error (stale true true before))
  | unmended {missing : List String} : Lacking h r x s missing →
      Recheck before x s version (.error (stale true true missing))
  | mended {paths : List String} : Healthy h r x s paths → Recheck before x s version (.ok ⟨s, version, paths, true⟩)

inductive Preflight : List (Call σ) → Result Ground → Prop
  | unscoped {x : σ} {s : Snapshot} {version : Nat} {why : BadInput} : resolveScope s r.scope r.path = .error why →
      Preflight [.current x s version] (.error (.invalidInput why))
  | healthy {x : σ} {s : Snapshot} {version : Nat} {paths : List String} : Healthy h r x s paths →
      Preflight [.current x s version] (.ok ⟨s, version, paths, false⟩)
  | stuck {x : σ} {s : Snapshot} {version : Nat} {missing : List String} : Lacking h r x s missing →
      h.supportsReload x = false → Preflight [.current x s version] (.error (stale false false missing))
  | unreloaded {x : σ} {s : Snapshot} {version : Nat} {missing : List String} (e : Fault) : Lacking h r x s missing →
      h.supportsReload x = true →
      Preflight [.current x s version, .reload (.error e)] (.error (stale true false missing))
  | reloaded {x x' : σ} {s s' : Snapshot} {version version' : Nat} {missing : List String} {result : Result Ground}
      (answer : Nat) : Lacking h r x s missing → h.supportsReload x = true → Recheck h r missing x' s' version' result →
      Preflight [.current x s version, .reload (.ok answer), .current x' s' version'] result

theorem afterReload_recheck (before : List String) (x : σ) : ∃ t s version result,
    Mirrors (afterReload h r before) (afterReload h.traced r before) x result t [.current t s version] ∧
      Recheck h r before t s version result := by
  obtain ⟨t, s, version, hlook⟩ := Mirrors.snapshot h x
  refine ⟨t, s, version, ?_⟩
  rw [afterReload, afterReload]
  cases hscope : resolveScope s r.scope r.path with
  | error why =>
    refine ⟨_, hlook.call_bind ?_, .vanished hscope⟩
    dsimp only
    rw [hscope]
    exact .throw _ _
  | ok paths =>
    cases hmissing : missingFiles (h.isMissing t) s paths with
    | nil =>
      refine ⟨_, hlook.call_bind ?_, .mended ⟨hscope, hmissing⟩⟩
      dsimp only
      rw [hscope]
      refine .get_bind fun _ => ?_
      rw [Host.traced_isMissing, hmissing]
      exact .pure _ _
    | cons p rest =>
      refine ⟨_, hlook.call_bind ?_, .unmended ⟨⟨paths, hscope, hmissing⟩, List.cons_ne_nil p rest⟩⟩
      dsimp only
      rw [hscope]
      refine .get_bind fun _ => ?_
      rw [Host.traced_isMissing, hmissing]
      exact .throw _ _

/-- What follows a look that has found that files are gone. -/
def mend (missing : List String) : Op σ Ground := do
  if !h.supportsReload (← get) then throw (stale false false missing)
  match ← ExceptT.lift h.reload.run with
  | .error _ => throw (stale true false missing)
  | .ok _ => afterReload h r missing

theorem mend_cases {x : σ} {s : Snapshot} {missing : List String} (version : Nat) (hlacking : Lacking h r x s missing) :
    ∃ t calls result, Mirrors (mend h r missing) (mend h.traced r missing) x result t calls ∧
      Preflight h r (.current x s version :: calls) result := by
  rw [mend, mend]
  cases hsupports : h.supportsReload x with
  | false =>
    refine ⟨x, _, _, .get_bind fun _ => ?_, .stuck hlacking hsupports⟩
    simp only [Host.traced_supportsReload, hsupports, Bool.not_false, if_true]
    exact .bind_error (.throw _ _)
  | true =>
    obtain ⟨t, answer, hreload⟩ := Mirrors.reload h x
    cases answer with
    | error e =>
      refine ⟨t, _, _, .get_bind fun _ => ?_, .unreloaded e hlacking hsupports⟩
      simp only [Host.traced_supportsReload, hsupports, Bool.not_true, Bool.false_eq_true, if_false]
      exact hreload.call_bind (.throw _ _)
    | ok answer =>
      obtain ⟨u, s', version', result, hafter, hrecheck⟩ := afterReload_recheck h r missing t
      refine ⟨u, _, _, .get_bind fun _ => ?_, .reloaded answer hlacking hsupports hrecheck⟩
      simp only [Host.traced_supportsReload, hsupports, Bool.not_true, Bool.false_eq_true, if_false]
      exact hreload.call_bind hafter

theorem preflight_cases (x : σ) : ∃ t calls result, Mirrors (preflight h r) (preflight h.traced r) x result t calls ∧
    Preflight h r calls result := by
  obtain ⟨t, s, version, hlook⟩ := Mirrors.snapshot h x
  rw [preflight, preflight]
  cases hscope : resolveScope s r.scope r.path with
  | error why =>
    refine ⟨t, _, _, hlook.call_bind (.ofResult_error ?_), .unscoped hscope⟩
    rw [hscope]
    rfl
  | ok paths =>
    have hresolved : (resolveScope s r.scope r.path).mapError Fault.invalidInput = .ok paths := by
      rw [hscope]
      rfl
    cases hmissing : missingFiles (h.isMissing t) s paths with
    | nil =>
      refine ⟨t, _, _, hlook.call_bind (.ofResult_bind hresolved (.get_bind fun _ => ?_)),
        .healthy ⟨hscope, hmissing⟩⟩
      rw [Host.traced_isMissing, hmissing]
      exact .pure _ _
    | cons p rest =>
      have hlacking : Lacking h r t s (p :: rest) := ⟨⟨paths, hscope, hmissing⟩, List.cons_ne_nil p rest⟩
      obtain ⟨u, calls, result, hmend, hpreflight⟩ := mend_cases h r version hlacking
      refine ⟨u, _, _, hlook.call_bind (.ofResult_bind hresolved (.get_bind fun _ => ?_)), hpreflight⟩
      rw [Host.traced_isMissing, hmissing]
      exact hmend

end

/-! ## What a run can do -/

theorem checkExpected_cases (expected : Option Nat) (current : Nat) :
    ((expected = none ∨ expected = some current) ∧ checkExpected expected current = .ok ()) ∨
      ∃ v, v ≠ current ∧ checkExpected expected current = .error (.workspaceChanged v current) := by
  cases expected with
  | none => exact .inl ⟨.inl rfl, rfl⟩
  | some v =>
    rw [checkExpected, checkVersion]
    by_cases h : v = current
    · exact .inl ⟨.inr (congrArg some h), if_pos h⟩
    · exact .inr ⟨v, h, if_neg h⟩

theorem checkCancelled_cases (c : Cancellation) :
    (∃ c', checkCancelled.run c = .ok ((), c')) ∨ checkCancelled.run c = .error .cancelled := by
  obtain ⟨_ | _ | n⟩ := c
  · exact .inl ⟨_, rfl⟩
  · exact .inr rfl
  · exact .inl ⟨_, rfl⟩

section
variable {σ : Type} (h : Host σ) (r : Request) (base : Nat) (next : Snapshot) (o : Outcome)

/-- What follows rules that have changed something: a last look at the wish of the caller and at the version that is
expected, and the commit. -/
def conclude (c : Cancellation) : Op σ Outcome := do
  let _ ← Op.ofResult (checkCancelled.run c)
  if r.expectedVersion.isSome then
    let (_, current) ← h.snapshot
    Op.ofResult (checkExpected r.expectedVersion current)
  let version ← h.commit base next
  return { o with applied := true, version := version }

/-- What a commit that is answered so comes to. -/
def Outcome.committed (answer : Result Nat) : Result Outcome :=
  answer.map fun version => { o with applied := true, version := version }

inductive Conclusion : List (Call σ) → Result Outcome → Prop
  | cancelled : Conclusion [] (.error .cancelled)
  | moved (x : σ) (s : Snapshot) (v current : Nat) :
      Conclusion [.current x s current] (.error (.workspaceChanged v current))
  | unasked (answer : Result Nat) : r.expectedVersion = none → Conclusion [.commit base next answer] (o.committed answer)
  | asked (x : σ) (s : Snapshot) (current : Nat) (answer : Result Nat) : r.expectedVersion = some current →
      Conclusion [.current x s current, .commit base next answer] (o.committed answer)

theorem commit_cases (x : σ) : ∃ t answer, Mirrors
    (do let version ← h.commit base next; return { o with applied := true, version := version })
    (do let version ← h.traced.commit base next; return { o with applied := true, version := version }) x
    (o.committed answer) t [.commit base next answer] := by
  obtain ⟨t, answer, hcommit⟩ := Mirrors.commit h x base next
  refine ⟨t, answer, ?_⟩
  cases answer with
  | error e => exact hcommit.bind_error
  | ok version => exact hcommit.bind_silent (.pure _ _)

theorem conclude_cases (c : Cancellation) (x : σ) : ∃ t calls result,
    Mirrors (conclude h r base next o c) (conclude h.traced r base next o c) x result t calls ∧
      Conclusion r base next o calls result := by
  rw [conclude, conclude]
  rcases checkCancelled_cases c with ⟨c', hwaited⟩ | hcancelled
  case inr => exact ⟨x, _, _, .ofResult_error hcancelled, .cancelled⟩
  cases hexpected : r.expectedVersion with
  | none =>
    obtain ⟨t, answer, hcommit⟩ := commit_cases h base next o x
    exact ⟨t, _, _, .ofResult_bind hwaited hcommit, .unasked answer hexpected⟩
  | some v =>
    obtain ⟨t, s, current, hlook⟩ := Mirrors.snapshot h x
    rcases checkExpected_cases (some v) current with ⟨hsame, hchecked⟩ | ⟨w, -, hchecked⟩
    case inr =>
      exact ⟨t, _, _, .ofResult_bind hwaited (hlook.call_bind (.ofResult_error hchecked)), .moved t s w current⟩
    obtain ⟨u, answer, hcommit⟩ := commit_cases h base next o t
    obtain rfl : v = current := by simpa using hsame
    exact ⟨u, _, _, .ofResult_bind hwaited (hlook.call_bind (.ofResult_bind hchecked hcommit)),
      .asked t s v answer hexpected⟩

end

section
variable {σ : Type} (h : Host σ) (m : CodeModel) (limits : Limits) (r : Request) (c : Cancellation)

/-- What the rules come to on a snapshot, with what is left of the patience of the caller. -/
def ruled (paths : List String) (s : Snapshot) : Result ((Snapshot × List RuleSummary) × Cancellation) :=
  (runRules m (max limits.cleanupPasses 1) paths CleanupRule.all s).run c

inductive Ran : List (Call σ) → Result Outcome → Prop
  | unsupported {why : BadInput} : Ran [] (.error (.invalidInput why))
  | unready {calls : List (Call σ)} {e : Fault} : Preflight h r calls (.error e) → Ran calls (.error e)
  | outdated {calls : List (Call σ)} {g : Ground} {v : Nat} : Preflight h r calls (.ok g) →
      Ran calls (.error (.workspaceChanged v g.version))
  | failed {calls : List (Call σ)} {g : Ground} {e : Fault} : Preflight h r calls (.ok g) →
      ruled m limits c g.paths g.snapshot = .error e → Ran calls (.error e)
  | unchanged {calls : List (Call σ)} {g : Ground} (o : Outcome) : Preflight h r calls (.ok g) → Ran calls (.ok o)
  | changed {calls calls' : List (Call σ)} {g : Ground} {next : Snapshot} {sums : List RuleSummary}
      {c' : Cancellation} {o : Outcome} {result : Result Outcome} : Preflight h r calls (.ok g) →
      (r.expectedVersion = none ∨ r.expectedVersion = some g.version) →
      ruled m limits c g.paths g.snapshot = .ok ((next, sums), c') → Conclusion r g.version next o calls' result →
      Ran (calls ++ calls') result

theorem run_cases (x : σ) : ∃ t calls result,
    Mirrors (run h m limits r c) (run h.traced m limits r c) x result t calls ∧ Ran h m limits r c calls result := by
  rw [run, run]
  cases hprofile : Policy.checkCleanupProfile r.profile with
  | error e =>
    rw [Policy.checkCleanupProfile] at hprofile
    split at hprofile
    · cases hprofile
    · cases hprofile
      exact ⟨x, _, _, .bind_error (.ofResult _ _), .unsupported⟩
  | ok =>
  obtain ⟨t, calls, result, hmirrors, hpreflight⟩ := preflight_cases h r x
  cases result with
  | error e => exact ⟨t, _, _, .ofResult_bind rfl hmirrors.bind_error, .unready hpreflight⟩
  | ok g =>
  rcases checkExpected_cases r.expectedVersion g.version with ⟨hexpected, hchecked⟩ | ⟨v, -, hchecked⟩
  case inr => exact ⟨t, _, _, .ofResult_bind rfl (hmirrors.bind_silent (.ofResult_error hchecked)), .outdated hpreflight⟩
  cases hruled : ruled m limits c g.paths g.snapshot with
  | error e =>
    exact ⟨t, _, _, .ofResult_bind rfl (hmirrors.bind_silent (.ofResult_bind hchecked (.ofResult_error hruled))),
      .failed hpreflight hruled⟩
  | ok ruled =>
  obtain ⟨⟨next, sums⟩, c'⟩ := ruled
  obtain ⟨o, ho⟩ : ∃ o : Outcome, o = ⟨false, r.scope, g.paths.length, g.version, g.version, g.reloaded, sums,
    .between g.snapshot next limits.diffCells⟩ := ⟨_, rfl⟩
  by_cases hempty : (ChangeSet.between g.snapshot next limits.diffCells).isEmpty = true
  · refine ⟨t, _, _, .ofResult_bind rfl (hmirrors.bind_silent (.ofResult_bind hchecked (.ofResult_bind hruled ?_))),
      .unchanged o hpreflight⟩
    dsimp only
    rw [if_pos hempty, if_pos hempty, ho]
    exact .pure _ _
  · obtain ⟨u, calls', result, hconclude, hconclusion⟩ := conclude_cases h r g.version next o c' t
    refine ⟨u, _, _, .ofResult_bind rfl (hmirrors.bind (.ofResult_bind hchecked (.ofResult_bind hruled ?_))),
      .changed hpreflight hexpected hruled hconclusion⟩
    dsimp only
    rw [if_neg hempty, if_neg hempty]
    rw [ho] at hconclude
    exact hconclude

/-! ## The gate -/

/-- The look at the version just before a commit with the base `base`, which is made when a version is expected. -/
inductive Rechecked : Option Nat → Nat → List (Call σ) → Prop
  | unasked (base : Nat) : Rechecked none base []
  | asked (x : σ) (s : Snapshot) (base : Nat) : Rechecked (some base) base [.current x s base]

/-- A report speaks of a reload as the first look at the host allows it. -/
structure Truthful (calls : List (Call σ)) (report : StaleReport) : Prop where
  attempted : report.reloadSucceeded = true → report.reloadAttempted = true
  supported : report.reloadAttempted = true →
    ∃ x s version rest, calls = .current x s version :: rest ∧ h.supportsReload x = true

/-- The host reloads at most once, right after the first look, which has found that files of the scope are gone. -/
structure Reloads (calls : List (Call σ)) : Prop where
  once : calls.countP Call.isReload ≤ 1
  after : (∀ call ∈ calls, call.isReload = false) ∨ ∃ x s version missing answer rest,
    calls = .current x s version :: .reload answer :: rest ∧ Lacking h r x s missing ∧ h.supportsReload x = true

/-- The host commits at most once, as the last call. It commits what the rules have made of a snapshot from which no file
of the scope was gone, with the version of that snapshot, which is the one that is expected and still is the current one. -/
structure Commits (calls : List (Call σ)) : Prop where
  once : calls.countP Call.isCommit ≤ 1
  after : (∀ call ∈ calls, call.isCommit = false) ∨ ∃ earlier x s base paths recheck next sums c' answer,
    calls = earlier ++ .current x s base :: (recheck ++ [.commit base next answer]) ∧ Healthy h r x s paths ∧
    ruled m limits c paths s = .ok ((next, sums), c') ∧ Rechecked r.expectedVersion base recheck

/-- What holds of the calls of a run and of its result. -/
structure Gated (calls : List (Call σ)) (result : Result Outcome) : Prop where
  reloads : Reloads h r calls
  commits : Commits h m limits r c calls
  /-- An error is that of the commit, or there was none. -/
  uncommitted : ∀ e, result = .error e →
    (∃ base next, .commit base next (.error e) ∈ calls) ∨ ∀ call ∈ calls, call.isCommit = false
  /-- A report of a stale snapshot is truthful, unless it is one that the commit or the rules have given. -/
  reports : ∀ report, result = .error (.staleSnapshot report) → Truthful h calls report ∨
    (∃ base next, .commit base next (.error (.staleSnapshot report)) ∈ calls) ∨
    ∃ earlier x s version paths, calls = earlier ++ [.current x s version] ∧ Healthy h r x s paths ∧
      ruled m limits c paths s = .error (.staleSnapshot report)

variable {h m limits r c} {calls calls' : List (Call σ)} {g : Ground}

theorem Recheck.mended_ground {before : List String} {x : σ} {s : Snapshot} {version : Nat}
    (hr : Recheck h r before x s version (.ok g)) : g.snapshot = s ∧ g.version = version ∧ Healthy h r x s g.paths := by
  cases hr with
  | mended hhealthy => exact ⟨rfl, rfl, hhealthy⟩

/-- The ground of a run is what the last look has found in health. -/
theorem Preflight.ground (hp : Preflight h r calls (.ok g)) : ∃ earlier x,
    calls = earlier ++ [.current x g.snapshot g.version] ∧ Healthy h r x g.snapshot g.paths := by
  cases hp with
  | healthy hhealthy => exact ⟨[], _, rfl, hhealthy⟩
  | reloaded answer _ _ hrecheck =>
    obtain ⟨rfl, rfl, hhealthy⟩ := hrecheck.mended_ground
    exact ⟨[_, _], _, rfl, hhealthy⟩

theorem Preflight.silent {result : Result Ground} (hp : Preflight h r calls result) :
    ∀ call ∈ calls, call.isCommit = false := by
  cases hp <;> simp [Call.isCommit]

theorem Preflight.reloads {result : Result Ground} (hp : Preflight h r calls result) : Reloads h r calls where
  once := by cases hp <;> simp [List.countP_cons, Call.isReload]
  after := by
    cases hp with
    | unscoped | healthy | stuck => exact .inl (by simp [Call.isReload])
    | unreloaded e hlacking hsupports => exact .inr ⟨_, _, _, _, _, _, rfl, hlacking, hsupports⟩
    | reloaded answer hlacking hsupports => exact .inr ⟨_, _, _, _, _, _, rfl, hlacking, hsupports⟩

theorem countP_eq_zero {p : Call σ → Bool} (hnone : ∀ call ∈ calls, p call = false) : calls.countP p = 0 :=
  List.countP_eq_zero.2 fun call hcall => by simp [hnone call hcall]

theorem Reloads.append (hr : Reloads h r calls) (hnone : ∀ call ∈ calls', call.isReload = false) :
    Reloads h r (calls ++ calls') where
  once := by
    rw [List.countP_append, countP_eq_zero hnone]
    exact hr.once
  after := by
    rcases hr.after with hall | ⟨x, s, version, missing, answer, rest, rfl, hlacking, hsupports⟩
    · exact .inl (List.forall_mem_append.2 ⟨hall, hnone⟩)
    · exact .inr ⟨x, s, version, missing, answer, rest ++ calls', rfl, hlacking, hsupports⟩

theorem Preflight.truthful {report : StaleReport} (hp : Preflight h r calls (.error (.staleSnapshot report))) :
    Truthful h calls report := by
  cases hp with
  | stuck => exact ⟨fun h => h, fun h => absurd h Bool.false_ne_true⟩
  | unreloaded e _ hsupports => exact ⟨fun h => absurd h Bool.false_ne_true, fun _ => ⟨_, _, _, _, rfl, hsupports⟩⟩
  | reloaded answer _ hsupports hrecheck =>
    cases hrecheck <;> exact ⟨fun h => h, fun _ => ⟨_, _, _, _, rfl, hsupports⟩⟩

section
variable {base : Nat} {next : Snapshot} {o : Outcome} {result : Result Outcome}

theorem Conclusion.reloads (hc : Conclusion r base next o calls result) : ∀ call ∈ calls, call.isReload = false := by
  cases hc <;> simp [Call.isReload]

/-- A conclusion ends in a commit, or it is an error that tells of none. -/
theorem Conclusion.commits (hc : Conclusion r base next o calls result)
    (hexpected : r.expectedVersion = none ∨ r.expectedVersion = some base) :
    ((∀ call ∈ calls, call.isCommit = false) ∧ ∃ e, result = .error e ∧ ∀ report, e ≠ .staleSnapshot report) ∨
      ∃ recheck answer, calls = recheck ++ [.commit base next answer] ∧ Rechecked r.expectedVersion base recheck ∧
        result = o.committed answer := by
  cases hc with
  | cancelled => exact .inl ⟨by simp, _, rfl, fun _ h => by cases h⟩
  | moved x s v current => exact .inl ⟨by simp [Call.isCommit], _, rfl, fun _ h => by cases h⟩
  | unasked answer hnone => exact .inr ⟨[], answer, rfl, hnone ▸ .unasked base, rfl⟩
  | asked x s current answer hsome =>
    -- The version that is expected is the one that the rules have started from, and it has not moved.
    obtain rfl : current = base := by simpa [hsome] using hexpected
    exact .inr ⟨[_], answer, rfl, hsome ▸ .asked x s current, rfl⟩

theorem Rechecked.silent {expected : Option Nat} {recheck : List (Call σ)} (hr : Rechecked expected base recheck) :
    ∀ call ∈ recheck, call.isCommit = false := by
  cases hr <;> simp [Call.isCommit]

end

/-- A run that does not commit is gated if its reloads and its reports are. -/
theorem Gated.of_silent {result : Result Outcome} (hreloads : Reloads h r calls)
    (hsilent : ∀ call ∈ calls, call.isCommit = false)
    (hreports : ∀ report, result = .error (.staleSnapshot report) → Truthful h calls report ∨
      ∃ earlier x s version paths, calls = earlier ++ [.current x s version] ∧ Healthy h r x s paths ∧
        ruled m limits c paths s = .error (.staleSnapshot report)) : Gated h m limits r c calls result where
  reloads := hreloads
  commits := ⟨countP_eq_zero hsilent ▸ Nat.zero_le 1, .inl hsilent⟩
  uncommitted _ _ := .inr hsilent
  reports report hresult := (hreports report hresult).imp_right .inr

theorem Ran.gated {result : Result Outcome} (hran : Ran h m limits r c calls result) :
    Gated h m limits r c calls result := by
  cases hran with
  | unsupported => exact .of_silent ⟨by simp, .inl (by simp)⟩ (by simp) fun _ h => by cases h
  | unready hp =>
    refine .of_silent hp.reloads hp.silent fun report h => .inl ?_
    cases h
    exact hp.truthful
  | outdated hp => exact .of_silent hp.reloads hp.silent fun _ h => by cases h
  | failed hp hruled =>
    refine .of_silent hp.reloads hp.silent fun report h => .inr ?_
    cases h
    obtain ⟨earlier, x, hcalls, hhealthy⟩ := hp.ground
    exact ⟨earlier, x, _, _, _, hcalls, hhealthy, hruled⟩
  | unchanged o hp => exact .of_silent hp.reloads hp.silent fun _ h => by cases h
  | @changed calls _ g next sums c' o _ hp hexpected hruled hconclusion =>
    have hreloads := hp.reloads.append hconclusion.reloads
    rcases hconclusion.commits hexpected with ⟨hsilent, e, rfl, hother⟩ | ⟨recheck, answer, rfl, hrechecked, rfl⟩
    · exact .of_silent hreloads (List.forall_mem_append.2 ⟨hp.silent, hsilent⟩) fun report h =>
        absurd (Except.error.inj h) (hother report)
    have herror (e : Fault) (h : o.committed answer = .error e) :
        ∃ base next', .commit base next' (.error e) ∈ calls ++ (recheck ++ [.commit g.version next answer]) := by
      cases answer with
      | error e' =>
        cases h
        exact ⟨g.version, next, by simp⟩
      | ok version => cases h
    obtain ⟨earlier, x, hcalls, hhealthy⟩ := hp.ground
    refine ⟨hreloads, ⟨?_, .inr ?_⟩, fun e h => .inl (herror e h), fun report h => .inr (.inl (herror _ h))⟩
    · rw [List.countP_append, List.countP_append, countP_eq_zero hp.silent, countP_eq_zero hrechecked.silent]
      exact Nat.le_refl 1
    · exact ⟨earlier, x, g.snapshot, g.version, g.paths, recheck, next, sums, c', answer, by simp [hcalls], hhealthy,
        hruled, hrechecked⟩

/-- For every host and every code model, the calls of a cleanup are gated. A trace of them takes nothing away from the
run: the traced host comes to the result and to the state of the plain one. -/
theorem run_gated (h : Host σ) (m : CodeModel) (limits : Limits) (r : Request) (c : Cancellation) (x : σ) :
    ∃ result t calls, (run h m limits r c).on x = (result, t) ∧
      (run h.traced m limits r c).on (x, []) = (result, (t, calls)) ∧ Gated h m limits r c calls result := by
  obtain ⟨t, calls, result, hmirrors, hran⟩ := run_cases h m limits r c x
  exact ⟨result, t, calls, hmirrors.plain, hmirrors.traced [], hran.gated⟩

end

end Cleanup

end Workbench
