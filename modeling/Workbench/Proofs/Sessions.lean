import Workbench.Proofs.Frame
import Workbench.Proofs.Preparing
import Workbench.Service.Run

/-!
# Sessions all or nothing

A session handles any calls in any order. Each call either leaves the snapshot
and the version exactly as they were, or it says that it was applied; then the
version has grown by one, the documents are the same but for their texts, and
the answer lists exactly the documents whose text is new.
-/

namespace Workbench

/-! ## Fields of JSON objects -/

namespace Json

theorem lookup_cons_eq_ite (key k : String) (v : Json) (r : List (String × Json)) :
    ((k, v) :: r).lookup key = if key = k then some v else r.lookup key := by
  rw [List.lookup_cons]
  by_cases h : key = k
  · rw [if_pos h, beq_iff_eq.2 h]
  · rw [if_neg h, beq_eq_false_iff_ne.2 h]

theorem lookup_putField (key k : String) (v : Json) (fields : List (String × Json)) :
    (putField k v fields).lookup key = if key = k then some v else fields.lookup key := by
  induction fields with
  | nil => exact lookup_cons_eq_ite key k v []
  | cons f r ih =>
    obtain ⟨k', v'⟩ := f
    rw [putField]
    by_cases hlt : k < k'
    · rw [if_pos hlt, lookup_cons_eq_ite]
    · rw [if_neg hlt]
      by_cases he : k = k'
      · rw [if_pos he, lookup_cons_eq_ite, lookup_cons_eq_ite, ← he]
        by_cases h : key = k
        · rw [if_pos h, if_pos h]
        · rw [if_neg h, if_neg h, if_neg h]
      · rw [if_neg he, lookup_cons_eq_ite, lookup_cons_eq_ite, ih]
        by_cases h : key = k'
        · rw [if_pos h, if_pos h, if_neg fun e => he (e.symm.trans h)]
        · rw [if_neg h, if_neg h]

/-- An object has each field with the last of the values given for it. -/
theorem field?_object (key : String) (fields : List (String × Json)) :
    (object fields).field? key = fields.reverse.lookup key := by
  have h : ∀ acc : List (String × Json), (fields.foldl (fun acc f => putField f.1 f.2 acc) acc).lookup key =
      (fields.reverse.lookup key).or (acc.lookup key) := by
    induction fields with
    | nil => exact fun acc => rfl
    | cons f r ih =>
      intro acc
      rw [List.foldl_cons, ih, lookup_putField, List.reverse_cons, List.lookup_append, Option.or_assoc,
        lookup_cons_eq_ite]
      by_cases hk : key = f.1
      · rw [if_pos hk, if_pos hk, Option.some_or]
      · rw [if_neg hk, if_neg hk, List.lookup_nil, Option.none_or]
  have h0 := h []
  rwa [List.lookup_nil, Option.or_none] at h0

theorem field?_object_of_lookup {key : String} {fields : List (String × Json)} {o : Option Json}
    (h : fields.reverse.lookup key = o) : (object fields).field? key = o := (field?_object key fields).trans h

end Json

namespace Service

/-! ## Steps -/

/-- A call from outside: what is asked, when the caller asks to stop, and which files are gone by then. -/
structure Invocation where
  method : String
  params : Json
  cancellation : Cancellation
  isMissing : String → Bool

/-- A handled call with its answer, and the session before and after. -/
structure Step where
  call : Invocation
  before : Session
  reply : Result Json
  after : Session

def handled (m : CodeModel) (limits : Limits) (s : Session) (i : Invocation) : Step :=
  let out := (handle (Session.hostBeside i.isMissing) m limits i.method i.params i.cancellation).on s
  ⟨i, s, out.1, out.2⟩

/-- All calls handled in turn. -/
def trace (m : CodeModel) (limits : Limits) : Session → List Invocation → List Step
  | _, [] => []
  | s, i :: rest => handled m limits s i :: trace m limits (handled m limits s i).after rest

/-- Whether an answer says that something was applied. -/
def saysApplied (j : Json) : Bool := (j.field? "applied").any fun b => b.bool? == some true

def Step.applied (t : Step) : Bool :=
  match t.reply with
  | .ok j => saysApplied j
  | .error _ => false

/-- What an applied step does, and what it reports. -/
structure Step.Committed (t : Step) : Prop where
  method : t.call.method ∈ ["apply_action", "apply_fix", "cleanup", "rename_symbol"]
  version : t.after.version = t.before.version + 1
  shape : t.before.snapshot.SameShape t.after.snapshot
  report : ∃ j files, t.reply = .ok j ∧ j.field? "previous_version" = some (.nat t.before.version) ∧
    j.field? "workspace_version" = some (.nat t.after.version) ∧ j.field? "changed_files" = some (.strs files) ∧
    files ≠ [] ∧ files.Pairwise (· < ·) ∧
    ∀ path, path ∈ files ↔ t.before.snapshot.text? path ≠ t.after.snapshot.text? path

/-- A step is applied in full, or it leaves the session as it was. -/
structure Step.AllOrNothing (t : Step) : Prop where
  all : t.applied = true → t.Committed
  nothing : t.applied = false → t.after = t.before

/-! ## Calls that only read -/

/-- Whether a call can change the workspace. -/
def Call.mayChange : Call → Bool
  | .applyAction _ | .applyFix _ | .cleanup _ | .renameSymbol _ => true
  | _ => false

/-- An answer that does not speak of anything applied. -/
def Answer.Quiet (a : Answer) : Prop := saysApplied a.toJson = false

theorem saysApplied_object {fields : List (String × Json)} (h : fields.reverse.lookup "applied" = none) :
    saysApplied (.object fields) = false := by
  rw [saysApplied, Json.field?_object_of_lookup h]
  rfl

section
variable (m : CodeModel) (limits : Limits) (c : Cancellation) (isMissing : String → Bool) (s : Session)

theorem reads_reading {P : Answer → Prop} {f : Snapshot → Nat → Result Answer}
    (h : ∀ s version a, f s version = .ok a → P a) :
    (reading (Session.hostBeside isMissing) f).ReadsTo s P :=
  .bind (Session.readsTo_snapshot isMissing s) fun x _ => .ofResult (h x.1 x.2)

theorem quiet_listing (namesOnly : Bool) : saysApplied (Method.listing namesOnly) = false := by
  cases namesOnly with
  | true => rfl
  | false => exact saysApplied_object rfl

theorem quiet_of_ok {a answer : Answer} (h : a.Quiet) (ha : (pure a : Result Answer) = .ok answer) : answer.Quiet :=
  Except.ok.inj ha ▸ h

/-- What a computation answers in the end is quiet when all its possible ends are. -/
theorem quiet_of_bind {α : Type} {r : Result α} {f : α → Result Answer}
    (h : ∀ a answer, f a = .ok answer → answer.Quiet) {answer : Answer} (ha : r >>= f = .ok answer) : answer.Quiet := by
  obtain ⟨a, -, ha⟩ := Result.bind_eq_ok.1 ha
  exact h a answer ha

theorem reads_callGraph (r : CallGraph.Request) :
    (CallGraph.build (Session.hostBeside isMissing) m r limits.callGraphDepth c).Reads s := by
  have hrest : ∀ d rootId, ((Session.hostBeside isMissing).snapshot >>= fun x =>
      Op.ofResult (CallGraph.around m x.1 x.2 d rootId (CallGraph.clamp limits.callGraphDepth r.maxDepth) c) >>=
        fun g => (pure (g, x.1) : Op Session (CallGraph.Graph × Snapshot))).Reads s := fun d rootId =>
    .bind (Session.readsTo_snapshot isMissing s) fun _ _ => .after (Op.reads_ofResult _) fun _ => Op.reads_pure _
  refine .after (Op.reads_ofResult _) fun d => ?_
  dsimp only
  split
  · exact .after (.throw _) fun _ => hrest d _
  · exact hrest d _

/-- A call that cannot change the workspace keeps the session, and says nothing of being applied. -/
theorem readsTo_of_mayChange_eq_false {call : Call} (h : call.mayChange = false) :
    (call.run (Session.hostBeside isMissing) m limits c).ReadsTo s Answer.Quiet := by
  have hs := Session.readsTo_snapshot isMissing s
  have hthen : ∀ {α : Type} {op : Op Session α} {f : α → Answer}, (∀ a, (f a).Quiet) → op.Reads s →
      (op >>= fun a => pure (f a)).ReadsTo s Answer.Quiet := fun hf hop => .after hop fun a => .pure (hf a)
  cases call with
  | help => exact .pure (saysApplied_object rfl)
  | listMethods format => exact .pure (quiet_listing _)
  | workspaceStatus =>
    exact hthen (fun _ => saysApplied_object rfl) (.bind hs fun _ _ => .bind Op.readsTo_get fun _ _ => Op.reads_pure _)
  | reloadWorkspace => exact hthen (fun _ => saysApplied_object rfl) ⟨rfl, fun _ _ => trivial⟩
  | discoverActions q => exact hthen (fun _ => saysApplied_object rfl) (.bind hs fun _ _ => Op.reads_ofResult _)
  | previewAction token => exact hthen (fun _ => saysApplied_object rfl) (Op.reads_of_on (Pipeline.on_preview ..))
  | applyAction token => cases h
  | evaluatePolicy token => exact hthen (fun _ => saysApplied_object rfl) (Op.reads_of_on (Pipeline.on_evaluatePolicy ..))
  | listFixes path id => exact hthen (fun _ => saysApplied_object rfl) (.bind hs fun _ _ => Op.reads_ofResult _)
  | previewFix token => exact hthen (fun _ => saysApplied_object rfl) (Op.reads_of_on (Removal.on_preview ..))
  | applyFix token => cases h
  | cleanup r => cases h
  | findSymbol q =>
    refine reads_reading isMissing s fun s version _ => ?_
    refine quiet_of_bind fun index _ => ?_
    exact quiet_of_ok (saysApplied_object rfl)
  | symbolInfo id =>
    refine reads_reading isMissing s fun s version _ => ?_
    refine quiet_of_bind fun index _ => quiet_of_bind fun symbol _ => ?_
    exact quiet_of_ok (saysApplied_object rfl)
  | findReferences id | findImplementations id | findCallers id =>
    refine reads_reading isMissing s fun s version _ => ?_
    refine quiet_of_bind fun index _ => quiet_of_bind fun symbol _ => quiet_of_bind fun found _ => ?_
    exact quiet_of_ok (saysApplied_object rfl)
  | callGraph r => exact hthen (fun _ => saysApplied_object rfl) (reads_callGraph m limits c isMissing s r)
  | renameSymbol r => cases h

end

/-! ## Calls that can change the workspace -/

/-- What an answer says was committed. -/
def Answer.applied? : Answer → Option Applied
  | .applied a => some a
  | .cleanup o => if o.applied then some ⟨o.previous, o.version, o.changes⟩ else none
  | .renamed r => if r.applied then some ⟨r.previous, r.version, r.changes⟩ else none
  | _ => none

/-- At `s`, an operation keeps the session unless its result tells of a commit, which it has made then. -/
structure SettlesAt {α : Type} (maxCells : Nat) (committed : α → Option Applied) (s : Session) (op : Op Session α) :
    Prop where
  failed {e : Fault} {s' : Session} : op.on s = (.error e, s') → s' = s
  kept {a : α} {s' : Session} : op.on s = (.ok a, s') → committed a = none → s' = s
  commits {a : α} {s' : Session} {x : Applied} : op.on s = (.ok a, s') → committed a = some x → s.Commits maxCells s' x

section
variable {α β : Type} {maxCells : Nat} {s : Session} {committed : α → Option Applied}

theorem SettlesAt.of_reads {op : Op Session α} (h : op.ReadsTo s fun a => committed a = none) :
    SettlesAt maxCells committed s op where
  failed hr := h.state hr
  kept hr _ := h.state hr
  commits hr hc := by
    rw [h.result hr] at hc
    cases hc

theorem SettlesAt.bind {P : β → Prop} {x : Op Session β} {f : β → Op Session α} (hx : x.ReadsTo s P)
    (hf : ∀ b, P b → SettlesAt maxCells committed s (f b)) : SettlesAt maxCells committed s (x >>= f) where
  failed hr := by
    rcases Op.on_bind_eq_error.1 hr with h | ⟨b, t, h, hb⟩
    · exact hx.state h
    · rw [hx.state h] at hb
      exact (hf b (hx.result h)).failed hb
  kept hr hc := by
    obtain ⟨b, t, h, hb⟩ := Op.on_bind_eq_ok.1 hr
    rw [hx.state h] at hb
    exact (hf b (hx.result h)).kept hb hc
  commits hr hc := by
    obtain ⟨b, t, h, hb⟩ := Op.on_bind_eq_ok.1 hr
    rw [hx.state h] at hb
    exact (hf b (hx.result h)).commits hb hc

theorem SettlesAt.ofResult {r : Result β} {f : β → Op Session α}
    (hf : ∀ b, r = .ok b → SettlesAt maxCells committed s (f b)) :
    SettlesAt maxCells committed s (Op.ofResult r >>= f) := .bind (.ofResult fun _ h => h) hf

theorem SettlesAt.pure {a : α} (h : committed a = none) : SettlesAt maxCells committed s (pure a) :=
  .of_reads (.pure h)

theorem SettlesAt.commit {isMissing : String → Bool} {next : Snapshot} {result : Nat → α}
    (hshape : s.snapshot.SameShape next) (hne : (ChangeSet.between s.snapshot next maxCells).isEmpty = false)
    (hresult : committed (result (s.version + 1)) =
      some ⟨s.version, s.version + 1, .between s.snapshot next maxCells⟩) :
    SettlesAt maxCells committed s ((Session.hostBeside isMissing).commit s.version next >>= fun version =>
      Pure.pure (result version)) := by
  have hon : ((Session.hostBeside isMissing).commit s.version next >>= fun version => Pure.pure (result version) :
      Op Session α).on s = (.ok (result (s.version + 1)), ⟨next, s.version + 1⟩) := by
    rw [Op.on_bind, Session.on_commit_current]
    rfl
  refine ⟨fun h => ?_, fun h hc => ?_, fun h hc => ?_⟩
  · rw [hon] at h
    cases h
  · rw [hon] at h
    cases h
    rw [hresult] at hc
    cases hc
  · rw [hon] at h
    cases h
    rw [hresult] at hc
    cases hc
    exact ⟨rfl, rfl, rfl, hshape, rfl, hne⟩

end

section
variable {m : CodeModel} {limits : Limits} {isMissing : String → Bool} {maxCells : Nat} {s : Session} {raw : String}

theorem settlesAt_applyAction :
    SettlesAt maxCells some s (Pipeline.apply (Session.hostBeside isMissing) m maxCells raw) where
  failed h := Session.committing_failed (Pipeline.on_apply m maxCells raw isMissing s ▸ h)
  kept _ hc := nomatch hc
  commits h hc := by
    cases hc
    exact Pipeline.apply_commits h

theorem settlesAt_applyFix :
    SettlesAt maxCells some s (Removal.apply (Session.hostBeside isMissing) m maxCells raw) where
  failed h := Session.committing_failed (Removal.on_apply m maxCells raw isMissing s ▸ h)
  kept _ hc := nomatch hc
  commits h hc := by
    cases hc
    exact Removal.apply_commits h

theorem settlesAt_rename (hm : m.KeepsShape) {r : RenameRequest} :
    SettlesAt maxCells (fun r => if r.applied then some ⟨r.previous, r.version, r.changes⟩ else none) s
      (rename (Session.hostBeside isMissing) m maxCells r) := by
  refine .bind (Session.readsTo_snapshot isMissing s) fun x hx => ?_
  subst hx
  refine .ofResult fun _ _ => .ofResult fun y hy => ?_
  obtain ⟨symbol, next⟩ := y
  have hshape : s.snapshot.SameShape next := by
    obtain ⟨ix, -, hy⟩ := Result.bind_eq_ok.1 hy
    obtain ⟨symbol', -, hy⟩ := Result.bind_eq_ok.1 hy
    obtain ⟨next', hn, hy⟩ := Result.bind_eq_ok.1 hy
    cases hy
    exact hm.rename hn
  dsimp only
  split
  · exact .pure rfl
  · rename_i hne
    exact .commit hshape (Bool.eq_false_iff.2 hne) rfl

theorem readsTo_scope (r : Cleanup.Request) :
    (Op.ofResult ((Cleanup.resolveScope s.snapshot r.scope r.path).mapError .invalidInput)).ReadsTo s
      fun paths => Cleanup.resolveScope s.snapshot r.scope r.path = .ok paths := by
  refine .ofResult fun paths h => ?_
  cases hscope : Cleanup.resolveScope s.snapshot r.scope r.path with
  | error e =>
    rw [hscope] at h
    cases h
  | ok paths' =>
    rw [hscope] at h
    cases h
    rfl

/-- A session in memory cannot be loaded again, so a cleanup works on what it holds. -/
theorem readsTo_preflight (r : Cleanup.Request) : (Cleanup.preflight (Session.hostBeside isMissing) r).ReadsTo s
    fun g => g.snapshot = s.snapshot ∧ g.version = s.version ∧
      Cleanup.resolveScope s.snapshot r.scope r.path = .ok g.paths := by
  refine .bind (Session.readsTo_snapshot isMissing s) fun x hx => ?_
  subst hx
  refine .bind (readsTo_scope r) fun paths hpaths => ?_
  refine .bind Op.readsTo_get fun t ht => ?_
  subst ht
  dsimp only
  split
  · exact .pure ⟨rfl, rfl, hpaths⟩
  · refine .bind Op.readsTo_get fun t ht => ?_
    exact .throw _

theorem settlesAt_cleanup (hm : m.KeepsShape) {r : Cleanup.Request} {c : Cancellation} :
    SettlesAt limits.diffCells (fun o => if o.applied then some ⟨o.previous, o.version, o.changes⟩ else none) s
      (Cleanup.run (Session.hostBeside isMissing) m limits r c) := by
  refine .ofResult fun _ _ => .bind (readsTo_preflight r) fun g hg => .ofResult fun _ _ => .ofResult fun x hx => ?_
  obtain ⟨⟨next, sums⟩, c'⟩ := x
  obtain ⟨hs, hv, -⟩ := hg
  rw [hs] at hx
  have hshape := Cleanup.runRules_sameShape hm hx
  -- There are two ways to the commit, with and without a second look at the documents.
  have hcommit : (ChangeSet.between s.snapshot next limits.diffCells).isEmpty = false → SettlesAt limits.diffCells
      (fun o : Cleanup.Outcome => if o.applied then some ⟨o.previous, o.version, o.changes⟩ else none) s
      ((Session.hostBeside isMissing).commit s.version next >>= fun version =>
        pure ⟨true, r.scope, g.paths.length, s.version, version, g.reloaded, sums,
          .between s.snapshot next limits.diffCells⟩) := fun hne => .commit hshape hne rfl
  rw [hs, hv]
  dsimp only
  split
  · exact .pure rfl
  · rename_i hne
    refine .ofResult fun _ _ => ?_
    split
    · refine .bind (Session.readsTo_snapshot isMissing s) fun x hx => ?_
      subst hx
      exact .ofResult fun _ _ => hcommit (Bool.eq_false_iff.2 hne)
    · exact hcommit (Bool.eq_false_iff.2 hne)

end

/-! ## All calls -/

theorem applied_field_cleanup (o : Cleanup.Outcome) :
    (Answer.cleanup o).toJson.field? "applied" = some (.bool o.applied) := Json.field?_object_of_lookup rfl

theorem applied_field_renamed (r : Renamed) :
    (Answer.renamed r).toJson.field? "applied" = some (.bool r.applied) := Json.field?_object_of_lookup rfl

/-- What an answer says of a commit, as JSON. -/
theorem Answer.fields_of_applied? {a : Answer} {x : Applied} (h : a.applied? = some x) :
    a.toJson.field? "applied" = some (.bool true) ∧ a.toJson.field? "previous_version" = some (.nat x.previous) ∧
      a.toJson.field? "workspace_version" = some (.nat x.version) ∧
      a.toJson.field? "changed_files" = some (.strs x.changes.paths) := by
  cases a with
  | applied a =>
    cases h
    exact ⟨Json.field?_object_of_lookup rfl, Json.field?_object_of_lookup rfl, Json.field?_object_of_lookup rfl,
      Json.field?_object_of_lookup rfl⟩
  | cleanup o =>
    obtain ⟨ho, h⟩ := Option.ite_none_right_eq_some.1 h
    cases h
    refine ⟨?_, Json.field?_object_of_lookup rfl, Json.field?_object_of_lookup rfl, Json.field?_object_of_lookup rfl⟩
    rw [applied_field_cleanup, ho]
  | renamed r =>
    obtain ⟨hr, h⟩ := Option.ite_none_right_eq_some.1 h
    cases h
    refine ⟨?_, Json.field?_object_of_lookup rfl, Json.field?_object_of_lookup rfl, Json.field?_object_of_lookup rfl⟩
    rw [applied_field_renamed, hr]
  | _ => cases h

theorem Answer.saysApplied_of_applied? {a : Answer} {x : Applied} (h : a.applied? = some x) :
    saysApplied a.toJson = true := by
  rw [saysApplied, (Answer.fields_of_applied? h).1]
  rfl

theorem Answer.Quiet.applied? {a : Answer} (h : a.Quiet) : a.applied? = none := by
  cases hx : a.applied? with
  | none => rfl
  | some x => exact absurd (Answer.saysApplied_of_applied? hx) (by rw [h]; exact Bool.false_ne_true)

section
variable {m : CodeModel} {limits : Limits} {c : Cancellation} {isMissing : String → Bool} {s s' : Session}

theorem SettlesAt.map {α : Type} {maxCells : Nat} {committed : α → Option Applied} {op : Op Session α}
    (f : α → Answer) (h : SettlesAt maxCells committed s op) (hf : ∀ a, (f a).applied? = committed a) :
    SettlesAt maxCells Answer.applied? s (op >>= fun a => Pure.pure (f a)) where
  failed hr := by
    rcases Op.on_bind_eq_error.1 hr with hr | ⟨a, t, -, ha⟩
    · exact h.failed hr
    · cases ha
  kept hr hc := by
    obtain ⟨a, t, ha, he⟩ := Op.on_bind_eq_ok.1 hr
    cases he
    exact h.kept ha ((hf a).symm.trans hc)
  commits hr hc := by
    obtain ⟨a, t, ha, he⟩ := Op.on_bind_eq_ok.1 hr
    cases he
    exact h.commits ha ((hf a).symm.trans hc)

theorem settlesAt_run (hm : m.KeepsShape) (limits : Limits) (c : Cancellation) (isMissing : String → Bool) (s : Session)
    (call : Call) :
    SettlesAt limits.diffCells Answer.applied? s (call.run (Session.hostBeside isMissing) m limits c) := by
  cases hc : call.mayChange with
  | false =>
    have hreads := readsTo_of_mayChange_eq_false m limits c isMissing s hc
    exact .of_reads (hreads.mono fun a => Answer.Quiet.applied?)
  | true =>
    cases call with
    | applyAction token => exact settlesAt_applyAction.map Answer.applied fun _ => rfl
    | applyFix token => exact settlesAt_applyFix.map Answer.applied fun _ => rfl
    | cleanup r => exact (settlesAt_cleanup hm).map Answer.cleanup fun _ => rfl
    | renameSymbol r => exact (settlesAt_rename hm).map Answer.renamed fun _ => rfl
    | _ => cases hc

/-- An answer says that something was applied exactly when it tells of a commit. -/
theorem saysApplied_run {call : Call} {a : Answer}
    (h : (call.run (Session.hostBeside isMissing) m limits c).on s = (.ok a, s')) :
    saysApplied a.toJson = a.applied?.isSome := by
  cases hc : call.mayChange with
  | false =>
    have hq : a.Quiet := (readsTo_of_mayChange_eq_false m limits c isMissing s hc).result h
    rw [hq.applied?]
    exact hq
  | true =>
    cases hx : a.applied? with
    | some x => exact Answer.saysApplied_of_applied? hx
    | none =>
      cases call with
      | applyAction token =>
        obtain ⟨b, t, -, hb⟩ := Op.on_bind_eq_ok.1 h
        cases hb
        cases hx
      | applyFix token =>
        obtain ⟨b, t, -, hb⟩ := Op.on_bind_eq_ok.1 h
        cases hb
        cases hx
      | cleanup r =>
        obtain ⟨o, t, -, ho⟩ := Op.on_bind_eq_ok.1 h
        cases ho
        have ho : o.applied = false := by simpa [Answer.applied?] using hx
        rw [saysApplied, applied_field_cleanup, ho]
        rfl
      | renameSymbol r =>
        obtain ⟨o, t, -, ho⟩ := Op.on_bind_eq_ok.1 h
        cases ho
        have ho : o.applied = false := by simpa [Answer.applied?] using hx
        rw [saysApplied, applied_field_renamed, ho]
        rfl
      | _ => cases hc

theorem method_of_mayChange {method : String} {params : Json} {call : Call} (h : Call.read method params = .ok call)
    (hc : call.mayChange = true) : method ∈ ["apply_action", "apply_fix", "cleanup", "rename_symbol"] := by
  unfold Call.read at h
  split at h
  · cases h
  · rename_i mt hmt
    obtain ⟨args, -, rfl⟩ := Result.map_eq_ok.1 h
    have hname : mt.name = method := by simpa using List.find?_some hmt
    cases mt with
    | applyAction => simp [← hname, Method.name]
    | applyFix => simp [← hname, Method.name]
    | cleanup => simp [← hname, Method.name]
    | renameSymbol => simp [← hname, Method.name]
    | _ => cases hc

theorem handled_of_read_ok {i : Invocation} {call : Call} (h : Call.read i.method i.params = .ok call) :
    handled m limits s i =
      ⟨i, s, ((call.run (Session.hostBeside i.isMissing) m limits i.cancellation).on s).1.map Answer.toJson,
        ((call.run (Session.hostBeside i.isMissing) m limits i.cancellation).on s).2⟩ := by
  unfold handled handle
  rw [h, Op.on_bind, Op.on_ofResult]
  dsimp only
  rw [Op.on_bind]
  rcases (call.run (Session.hostBeside i.isMissing) m limits i.cancellation).on s with ⟨r, t⟩
  cases r <;> rfl

theorem handled_of_read_error {i : Invocation} {e : Fault} (h : Call.read i.method i.params = .error e) :
    handled m limits s i = ⟨i, s, .error e, s⟩ := by
  unfold handled handle
  rw [h]
  rfl

theorem handled_allOrNothing (hm : m.KeepsShape) (limits : Limits) (s : Session) (i : Invocation) :
    (handled m limits s i).AllOrNothing := by
  cases hread : Call.read i.method i.params with
  | error e =>
    rw [handled_of_read_error hread]
    exact ⟨fun h => (nomatch h), fun _ => rfl⟩
  | ok call =>
    rw [handled_of_read_ok hread]
    have hsettle := settlesAt_run hm limits i.cancellation i.isMissing s call
    rcases hrun : (call.run (Session.hostBeside i.isMissing) m limits i.cancellation).on s with ⟨r, t⟩
    cases r with
    | error e => exact ⟨fun h => (nomatch h), fun _ => hsettle.failed hrun⟩
    | ok a =>
      have hflag : saysApplied a.toJson = a.applied?.isSome := saysApplied_run hrun
      cases hx : a.applied? with
      | none =>
        rw [hx] at hflag
        exact ⟨fun h => absurd (hflag.symm.trans h) Bool.false_ne_true, fun _ => hsettle.kept hrun hx⟩
      | some x =>
        rw [hx] at hflag
        refine ⟨fun _ => ?_, fun h => absurd (h.symm.trans hflag) Bool.false_ne_true⟩
        obtain ⟨-, hprevious, hversion, hfiles⟩ := Answer.fields_of_applied? hx
        have hcommit := hsettle.commits hrun hx
        have hmethod : call.mayChange = true := by
          cases hc : call.mayChange with
          | true => rfl
          | false =>
            have hq : a.Quiet := (readsTo_of_mayChange_eq_false m limits i.cancellation i.isMissing s hc).result hrun
            rw [hq.applied?] at hx
            cases hx
        refine ⟨method_of_mayChange hread hmethod, hcommit.current.trans hcommit.version, hcommit.shape, ?_⟩
        have hnonempty := ChangeSet.isEmpty_eq_false_iff.1 hcommit.nonempty
        refine ⟨a.toJson, x.changes.paths, rfl, ?_, ?_, hfiles, hnonempty, ?_, ?_⟩
        · rw [hprevious, hcommit.previous]
        · rw [hversion, hcommit.current]
        · rw [hcommit.changes]
          exact ChangeSet.paths_between_ascending
        · intro path
          rw [hcommit.changes]
          exact ChangeSet.mem_paths_between

/-! ## Runs -/

theorem trace_eq_append {s : Session} {calls : List Invocation} {front : List Step} {t : Step} {back : List Step}
    (h : trace m limits s calls = front ++ t :: back) :
    ∃ i rest, t = handled m limits t.before i ∧ back = trace m limits t.after rest := by
  -- The step is the first of the run, or it is in what follows the first, from the session that the first leaves.
  induction calls generalizing s front with
  | nil =>
    cases front with
    | nil => cases h
    | cons u r => cases h
  | cons i rest ih =>
    cases front with
    | nil =>
      obtain ⟨rfl, rfl⟩ := List.cons.inj h
      exact ⟨i, rest, rfl, rfl⟩
    | cons u r =>
      have hrest := (List.cons.inj h).2
      exact ih hrest

/-- The version counts the applied calls. -/
theorem version_before (hm : m.KeepsShape) {calls : List Invocation} {front : List Step} {t : Step} {back : List Step}
    (h : trace m limits s calls = front ++ t :: back) :
    t.before.version = s.version + front.countP Step.applied := by
  induction calls generalizing s front with
  | nil =>
    cases front with
    | nil => cases h
    | cons u r => cases h
  | cons i rest ih =>
    cases front with
    | nil =>
      obtain ⟨rfl, -⟩ := List.cons.inj h
      rfl
    | cons u r =>
      obtain ⟨rfl, hrest⟩ := List.cons.inj h
      have hstep := handled_allOrNothing hm limits s i
      rw [ih hrest, List.countP_cons]
      cases ha : (handled m limits s i).applied with
      | true =>
        -- An applied step counts one, any other leaves the version.
        rw [(hstep.all ha).version, if_pos rfl]
        exact Nat.add_right_comm _ _ _
      | false =>
        rw [hstep.nothing ha, if_neg Bool.false_ne_true]
        rfl

end

/-- In a session over any documents and any calls, each call is applied in full or leaves the session as it was, and
the version is one more than the number of calls that have been applied. -/
theorem session_allOrNothing (read : CSharp.Parser) (limits : Limits) (documents : Snapshot) (calls : List Invocation) :
    (Session.start documents).version = 1 ∧
      ∀ front t back, trace (CSharp.model read) limits (Session.start documents) calls = front ++ t :: back →
        t.before.version = 1 + front.countP Step.applied ∧ t.AllOrNothing := by
  refine ⟨rfl, fun front t back h => ?_⟩
  have hm := CSharp.model_keepsShape read
  refine ⟨version_before hm h, ?_⟩
  obtain ⟨i, rest, ht, -⟩ := trace_eq_append h
  rw [ht]
  exact handled_allOrNothing hm limits t.before i

end Service

end Workbench
