import Workbench.CSharp.Tree
import Workbench.Proofs.Turning

/-!
# Cleaning up twice

A cleanup leaves nothing to do for the next one. As the rules go over the
documents of its scope, each finishes every document and keeps what the rules
before it have finished; then no rule finds anything to do.
-/

namespace Workbench

/-! ## What a request sees of a snapshot -/

namespace Snapshot

section
variable {s next : Snapshot}

theorem SameShape.find? (h : s.SameShape next) {q : Document → Bool} (hq : ∀ d : Document, q d.frame = q d) :
    (next.documents.find? q).map Document.frame = (s.documents.find? q).map Document.frame := by
  have hfind : ∀ ds : List Document, (ds.find? q).map Document.frame = (ds.map Document.frame).find? q := by
    intro ds
    rw [List.find?_map]
    congr 2
    funext d
    exact (hq d).symm
  rw [hfind, hfind, h.documents]

theorem SameShape.document? (h : s.SameShape next) (path : String) :
    (next.document? path).map Document.frame = (s.document? path).map Document.frame := h.find? fun _ => rfl

theorem SameShape.findDocument (h : s.SameShape next) (raw : String) :
    (next.findDocument raw).map Document.frame = (s.findDocument raw).map Document.frame := by
  have hbelow : next.belowRoot? = s.belowRoot? := by
    funext tidy
    rw [belowRoot?, belowRoot?, h.root]
  simp only [Snapshot.findDocument, Option.map_or, Option.map_bind, Function.comp_def, hbelow, h.document?]
  rw [h.find? fun _ => rfl]

theorem SameShape.findProject (h : s.SameShape next) (raw : String) : next.findProject raw = s.findProject raw := by
  simp only [Snapshot.findProject, project?, belowRoot?, h.root, h.projects]

end

end Snapshot

namespace Cleanup

section
variable {s next : Snapshot}

/-- The scope of a request does not depend on texts. -/
theorem resolveScope_congr (h : s.SameShape next) (scope : CleanupScope) (path : Option String) :
    resolveScope next scope path = resolveScope s scope path := by
  cases scope with
  | solution => rw [resolveScope, resolveScope, h.paths]
  | project => simp only [resolveScope, h.findProject]
  | document =>
    rw [resolveScope, resolveScope]
    refine congrArg _ (funext fun raw => ?_)
    have hfind := h.findDocument raw
    cases hd : next.findDocument raw with
    | none =>
      rw [hd, Option.map_none, eq_comm, Option.map_eq_none_iff] at hfind
      rw [hfind]
    | some d =>
      rw [hd, Option.map_some, eq_comm, Option.map_eq_some_iff] at hfind
      obtain ⟨d', hd', hframe⟩ := hfind
      have hpath : d.path = d'.path := (congrArg Document.path hframe).symm
      rw [hd']
      dsimp only
      rw [hpath]

theorem missingFiles_congr (h : s.SameShape next) (isMissing : String → Bool) (paths : List String) :
    missingFiles isMissing next paths = missingFiles isMissing s paths := by
  have hfile : ∀ (s : Snapshot) p, (s.document? p).bind (·.file) = ((s.document? p).map Document.frame).bind (·.file) := by
    intro s p
    rw [Option.bind_map]
    rfl
  simp only [missingFiles, hfile, h.document?]

end

section
variable {isMissing : String → Bool} {r : Request} {s s' : Session} {g : Ground}

/-- A session in memory passes the look at its files when none is gone. -/
theorem on_preflight_eq_ok : (preflight (Session.hostBeside isMissing) r).on s = (.ok g, s') ↔ s' = s ∧
    resolveScope s.snapshot r.scope r.path = .ok g.paths ∧ missingFiles isMissing s.snapshot g.paths = [] ∧
      g = ⟨s.snapshot, s.version, g.paths, false⟩ := by
  rw [preflight, Op.on_bind, Session.on_snapshot]
  dsimp only
  rw [Op.on_bind, Op.on_ofResult]
  cases resolveScope s.snapshot r.scope r.path with
  | error e => exact ⟨fun h => (nomatch h), fun ⟨_, h, _⟩ => (nomatch h)⟩
  | ok paths =>
    dsimp only [Except.mapError]
    rw [Op.on_bind, Op.on_get]
    dsimp only
    have hhost : (Session.hostBeside isMissing).isMissing s = isMissing := rfl
    rw [hhost]
    cases hmissing : missingFiles isMissing s.snapshot paths with
    | nil =>
      dsimp only
      constructor
      · intro h
        cases h
        exact ⟨rfl, rfl, hmissing, rfl⟩
      · rintro ⟨rfl, hpaths, -, hg⟩
        cases hpaths
        rw [hg]
        rfl
    | cons p rest =>
      constructor
      · intro h
        cases h
      · rintro ⟨-, hpaths, hnone, -⟩
        cases hpaths
        rw [hmissing] at hnone
        cases hnone

end

end Cleanup

namespace CSharp

/-! ## The turns of a cleanup -/

section
variable (read : Parser) (maxPasses : Nat)

/-- The turns of a rule, one document after another. -/
def turnsOver (rule : CleanupRule) : List String → Snapshot → Cancellation → List Turn
  | [], _, _ => []
  | path :: rest, s, c =>
    (turn read rule s path).toOption.toList ++
      match (checkCancelled >>= fun _ => Cleanup.runRule (model read) rule s path maxPasses).run c with
      | .ok ((next, _), c) => turnsOver rule rest next c
      | .error _ => []

/-- The turns of all rules, one rule after another. -/
def turnsOfRules (paths : List String) : List CleanupRule → Snapshot → Cancellation → List Turn
  | [], _, _ => []
  | rule :: rest, s, c =>
    turnsOver read maxPasses rule paths s c ++
      match (Cleanup.runOver (model read) rule maxPasses paths s ⟨rule, 0, 0⟩).run c with
      | .ok ((next, _), c) => turnsOfRules paths rest next c
      | .error _ => []

end

/-- All turns of a cleanup of a snapshot. -/
def turns (read : Parser) (limits : Limits) (r : Cleanup.Request) (s : Snapshot) (c : Cancellation) : List Turn :=
  match Cleanup.resolveScope s r.scope r.path with
  | .ok paths => turnsOfRules read (max limits.cleanupPasses 1) paths CleanupRule.all s c
  | .error _ => []

/-! ## What a cleanup finishes -/

section
variable {read : Parser} {maxPasses : Nat} {s next : Snapshot} {path : String} {rule : CleanupRule}
  {rules : List CleanupRule} {paths scope : List String} {c c' : Cancellation}

theorem Tidy.mono {rules' : List CleanupRule} (h : Tidy read rules s path) (hsub : ∀ rule ∈ rules', rule ∈ rules) :
    Tidy read rules' s path := by
  obtain ⟨f, hfile, hf, hfinished⟩ := h
  exact ⟨f, hfile, hf, fun rule hrule => hfinished rule (hsub rule hrule)⟩

/-- A rule has a document to go over. -/
theorem mem_paths_of_runRule {run : RuleRun} (hpos : 0 < maxPasses)
    (hrun : (Cleanup.runRule (model read) rule s path maxPasses).run c = .ok ((next, run), c')) : path ∈ s.paths := by
  have hmem : ∀ f, sourceFile read s path = .ok f → path ∈ s.paths := by
    intro f hf
    obtain ⟨text, htext, -⟩ := sourceFile_eq_ok.1 hf
    exact Snapshot.mem_paths_iff.2 (by rw [htext]; rfl)
  obtain ⟨es, mid, h, -⟩ := firstChange_of_runRule hpos hrun
  by_cases horganize : rule = .organizeImports
  · subst horganize
    obtain ⟨f, hf, -⟩ := firstChange_organize.1 h
    exact hmem f hf
  · by_cases hformat : rule = .format
    · subst hformat
      have hview := (firstChange_format.1 h).1
      rw [format_view] at hview
      obtain ⟨f, hf, -⟩ := Result.bind_eq_ok.1 hview
      exact hmem f hf
    · obtain ⟨chosen, hchosen, -⟩ := (firstChange_fixes ⟨horganize, hformat⟩).1 h
      obtain ⟨r, -, hchosen⟩ := Result.bind_eq_ok.1 hchosen
      obtain ⟨ds, hds, -⟩ := Result.bind_eq_ok.1 hchosen
      rw [diagnostics_view] at hds
      obtain ⟨f, hf, -⟩ := Result.map_eq_ok.1 hds
      exact hmem f hf

theorem mem_paths_of_runOver {sum sum' : Cleanup.RuleSummary} (hpos : 0 < maxPasses)
    (hrun : (Cleanup.runOver (model read) rule maxPasses paths s sum).run c = .ok ((next, sum'), c')) :
    ∀ p ∈ paths, p ∈ s.paths := by
  induction paths generalizing s sum c with
  | nil => exact fun _ h => nomatch h
  | cons path rest ih =>
    obtain ⟨_, c1, -, h⟩ := Cancellable.bind_eq_ok.1 hrun
    obtain ⟨⟨mid, run⟩, c2, hmid, hrest⟩ := Cancellable.bind_eq_ok.1 h
    refine List.forall_mem_cons.2 ⟨mem_paths_of_runRule hpos hmid, fun p hp => ?_⟩
    rw [← (Cleanup.runRule_sameShape (model_keepsShape read) hmid).paths]
    exact ih hrest p hp

/-- A rule finishes a document, and leaves all others as tidy as they are. -/
theorem tidy_runRule {run : RuleRun} (hpos : 0 < maxPasses)
    (hrun : (Cleanup.runRule (model read) rule s path maxPasses).run c = .ok ((next, run), c'))
    (hfaithful : ∀ t, turn read rule s path = .ok t → t.isFaithful = true) (htidy : Tidy read rule.earlier s path) :
    Tidy read (rule.earlier ++ [rule]) next path ∧
      ∀ p ≠ path, ∀ rules, Tidy read rules s p → Tidy read rules next p := by
  obtain ⟨es, mid, h, hnext⟩ := firstChange_of_runRule hpos hrun
  obtain ⟨hindex, hmid⟩ := tidy_of_firstChange h htidy hfaithful
  obtain rfl := hnext (hmid.pass_idle (by simp))
  exact ⟨hmid, fun p hp rules hrules => hrules.of_sameOutside (firstChange_sameOutside h) hp hindex⟩

/-- A rule that has been over documents has finished them all. -/
theorem tidy_runOver {sum sum' : Cleanup.RuleSummary} (hpos : 0 < maxPasses)
    (hrun : (Cleanup.runOver (model read) rule maxPasses paths s sum).run c = .ok ((next, sum'), c'))
    (hfaithful : ∀ t ∈ turnsOver read maxPasses rule paths s c, t.isFaithful = true) (hsub : ∀ p ∈ paths, p ∈ scope)
    (hearlier : ∀ p ∈ scope, Tidy read rule.earlier s p)
    (hdone : ∀ p ∈ scope, p ∉ paths → Tidy read (rule.earlier ++ [rule]) s p) :
    ∀ p ∈ scope, Tidy read (rule.earlier ++ [rule]) next p := by
  -- Documents that the rule has been over are finished; the others are as earlier rules have left them.
  induction paths generalizing s sum c with
  | nil =>
    obtain ⟨he, -⟩ := Cancellable.pure_eq_ok.1 hrun
    cases he
    exact fun p hp => hdone p hp List.not_mem_nil
  | cons path rest ih =>
    obtain ⟨_, c1, hcheck, h⟩ := Cancellable.bind_eq_ok.1 hrun
    obtain ⟨⟨mid, run⟩, c2, hmid, hrest⟩ := Cancellable.bind_eq_ok.1 h
    obtain ⟨hpath, hsub⟩ := List.forall_mem_cons.1 hsub
    rw [turnsOver, Cancellable.bind_eq_ok.2 ⟨_, c1, hcheck, hmid⟩] at hfaithful
    obtain ⟨hfirst, hlater⟩ := List.forall_mem_append.1 hfaithful
    obtain ⟨hown, hothers⟩ := tidy_runRule hpos hmid (fun t ht => hfirst t (by rw [ht]; exact List.mem_singleton.2 rfl))
      (hearlier path hpath)
    refine ih hrest hlater hsub (fun p hp => ?_) fun p hp hnot => ?_
    · by_cases he : p = path
      · exact he ▸ hown.mono fun _ h => List.mem_append_left _ h
      · exact hothers p he _ (hearlier p hp)
    · by_cases he : p = path
      · exact he ▸ hown
      · exact hothers p he _ (hdone p hp (by simp [he, hnot]))

theorem tidy_runRules {done : List CleanupRule} {sums : List Cleanup.RuleSummary} (hpos : 0 < maxPasses)
    (hall : CleanupRule.all = done ++ rules)
    (hrun : (Cleanup.runRules (model read) maxPasses paths rules s).run c = .ok ((next, sums), c'))
    (hfaithful : ∀ t ∈ turnsOfRules read maxPasses paths rules s c, t.isFaithful = true)
    (htidy : ∀ p ∈ paths, Tidy read done s p) : ∀ p ∈ paths, Tidy read CleanupRule.all next p := by
  induction rules generalizing done s sums c c' with
  | nil =>
    obtain ⟨he, -⟩ := Cancellable.pure_eq_ok.1 hrun
    cases he
    rwa [hall, List.append_nil]
  | cons rule rest ih =>
    obtain ⟨⟨mid, sum⟩, c1, hmid, h⟩ := Cancellable.bind_eq_ok.1 hrun
    obtain ⟨⟨last, sums'⟩, c2, hlast, h⟩ := Cancellable.bind_eq_ok.1 h
    obtain ⟨he, -⟩ := Cancellable.pure_eq_ok.1 h
    cases he
    rw [turnsOfRules, hmid] at hfaithful
    obtain ⟨hfirst, hlater⟩ := List.forall_mem_append.1 hfaithful
    obtain rfl := CleanupRule.earlier_eq hall
    have hnext : CleanupRule.all = (rule.earlier ++ [rule]) ++ rest := by
      rw [List.append_assoc]
      exact hall
    refine ih hnext hlast hlater ?_
    exact tidy_runOver hpos hmid hfirst (fun _ h => h) htidy fun p hp hnot => absurd hp hnot

/-! ## When there is nothing left -/

theorem runRule_idle (h : Tidy read rules s path) (hrule : rule ∈ rules) (maxPasses : Nat) :
    ∃ run, Cancellable.Yields (Cleanup.runRule (model read) rule s path maxPasses) (s, run) := by
  have hpasses : ∃ run, Cancellable.Yields (Cleanup.passes (model read) path rule.diagnosticIds maxPasses 0 s >>= fun last =>
      (pure (last.1, ⟨last.2, last.2 != 0⟩) : Cancellable (Snapshot × RuleRun))) (s, run) :=
    ⟨_, (Cleanup.passes_idle (h.pass_idle hrule) maxPasses 0).bind (.pure _)⟩
  obtain ⟨f, hfile, -, hfinished⟩ := h
  specialize hfinished rule hrule
  have honce : ∀ x : Result Snapshot, x = .ok s → ∃ run, Cancellable.Yields
      (liftM (Cleanup.runOnce s path x) : Cancellable (Snapshot × RuleRun)) (s, run) := by
    rintro x rfl
    exact ⟨_, .lift rfl⟩
  cases rule with
  | organizeImports =>
    have hview : ((model read).view s).organizeImports path = .ok s := by
      rw [organize_view, hfile]
      show s.withEdits path (organizeEdits f) = .ok s
      rw [organizeEdits_eq_nil_iff.2 hfinished]
      rfl
    obtain ⟨run, hrun⟩ := honce _ hview
    exact ⟨run, Cancellable.yields_checkCancelled.bind hrun⟩
  | format =>
    have hview : ((model read).view s).format path = .ok s := by
      rw [format_view, hfile]
      show s.withText path (.ofList (Layout.formatChars f.chars (Layout.literalRanges f))) = .ok s
      obtain ⟨text, htext, rfl⟩ := sourceFile_eq_ok.1 hfile
      obtain ⟨d, hd, rfl⟩ := Option.map_eq_some_iff.1 htext
      rw [show Layout.formatChars _ _ = _ from hfinished, Snapshot.withText, hd]
      exact if_pos (String.ofList_toList).symm
    obtain ⟨run, hrun⟩ := honce _ hview
    exact ⟨run, Cancellable.yields_checkCancelled.bind hrun⟩
  | removeUnusedImports | fixModifierOrder | addMissingReadonly =>
    obtain ⟨run, hrun⟩ := hpasses
    exact ⟨run, Cancellable.yields_checkCancelled.bind hrun⟩

theorem runOver_idle (h : ∀ p ∈ paths, Tidy read rules s p) (hrule : rule ∈ rules) (maxPasses : Nat)
    (sum : Cleanup.RuleSummary) :
    ∃ sum', Cancellable.Yields (Cleanup.runOver (model read) rule maxPasses paths s sum) (s, sum') := by
  induction paths generalizing sum with
  | nil => exact ⟨sum, .pure _⟩
  | cons path rest ih =>
    obtain ⟨hpath, hrest⟩ := List.forall_mem_cons.1 h
    obtain ⟨run, hrun⟩ := runRule_idle hpath hrule maxPasses
    obtain ⟨sum', hsum⟩ := ih hrest { sum with
      passes := sum.passes + run.passes
      changedDocuments := sum.changedDocuments + if run.changed then 1 else 0 }
    exact ⟨sum', Cancellable.yields_checkCancelled.bind (hrun.bind hsum)⟩

/-- Where all rules have finished, they change nothing. -/
theorem runRules_idle (h : ∀ p ∈ paths, Tidy read CleanupRule.all s p) (hrules : ∀ rule ∈ rules, rule ∈ CleanupRule.all)
    (maxPasses : Nat) : ∃ sums, Cancellable.Yields (Cleanup.runRules (model read) maxPasses paths rules s) (s, sums) := by
  induction rules with
  | nil => exact ⟨[], .pure _⟩
  | cons rule rest ih =>
    obtain ⟨hrule, hrest⟩ := List.forall_mem_cons.1 hrules
    obtain ⟨sum, hsum⟩ := runOver_idle h hrule maxPasses ⟨rule, 0, 0⟩
    obtain ⟨sums, hsums⟩ := ih hrest
    exact ⟨sum :: sums, hsum.bind (hsums.bind (.pure _))⟩

end

end CSharp

namespace Cleanup

/-! ## A whole cleanup -/

section
variable {read : CSharp.Parser} {isMissing : String → Bool} {limits : Limits} {r : Request} {c c' : Cancellation}
  {s s' : Session} {next : Snapshot} {paths : List String} {o : Outcome}

theorem between_self (s : Snapshot) (maxCells : Nat) : ChangeSet.between s s maxCells = ⟨[]⟩ :=
  congrArg ChangeSet.mk (List.isEmpty_iff.1 (ChangeSet.isEmpty_between_iff.2 fun _ => rfl))

/-- All rules together finish every document of their scope. -/
theorem tidy_of_runRules {s : Snapshot} {sums : List RuleSummary}
    (hsound : ∀ d ∈ s.documents, (CSharp.SourceFile.ofText read d.path d.text).isSound = true)
    (hfaithful : ∀ t ∈ CSharp.turns read limits r s c, t.isFaithful = true)
    (hscope : resolveScope s r.scope r.path = .ok paths)
    (hrules : (runRules (CSharp.model read) (max limits.cleanupPasses 1) paths CleanupRule.all s).run c =
      .ok ((next, sums), c')) : ∀ p ∈ paths, CSharp.Tidy read CleanupRule.all next p := by
  have hpos : 0 < max limits.cleanupPasses 1 := lt_of_lt_of_le Nat.one_pos (le_max_right _ _)
  have hstart : ∀ p ∈ paths, CSharp.Tidy read [] s p := by
    intro p hp
    -- The first rule goes over all documents of the scope, so they are there.
    obtain ⟨⟨mid, sum⟩, c1, hmid, -⟩ := Cancellable.bind_eq_ok.1 hrules
    have hmem := CSharp.mem_paths_of_runOver hpos hmid p hp
    obtain ⟨text, htext⟩ := Option.isSome_iff_exists.1 (Snapshot.mem_paths_iff.1 hmem)
    obtain ⟨d, hd, rfl⟩ := Option.map_eq_some_iff.1 htext
    obtain ⟨hdoc, rfl⟩ := Snapshot.document?_path hd
    exact ⟨_, CSharp.sourceFile_eq_ok.2 ⟨_, htext, rfl⟩, CSharp.SourceFile.sound_of_isSound (hsound d hdoc),
      fun _ h => nomatch h⟩
  have hturns : CSharp.turns read limits r s c =
      CSharp.turnsOfRules read (max limits.cleanupPasses 1) paths CleanupRule.all s c := by
    rw [CSharp.turns, hscope]
  exact CSharp.tidy_runRules hpos (List.nil_append _).symm hrules (hturns ▸ hfaithful) hstart

/-- A cleanup that finds nothing to do succeeds and keeps the session as it is. -/
theorem run_idle (hprofile : Policy.checkCleanupProfile r.profile = .ok ())
    (hscope : resolveScope s.snapshot r.scope r.path = .ok paths) (hfiles : missingFiles isMissing s.snapshot paths = [])
    (hexpected : checkExpected r.expectedVersion s.version = .ok ())
    (htidy : ∀ p ∈ paths, CSharp.Tidy read CleanupRule.all s.snapshot p) :
    ∃ o, (run (Session.hostBeside isMissing) (CSharp.model read) limits r .never).on s = (.ok o, s) ∧
      o.applied = false ∧ o.changes.files = [] ∧ o.version = s.version := by
  obtain ⟨sums, hrules⟩ := CSharp.runRules_idle htidy (fun _ h => h) (max limits.cleanupPasses 1)
  have hground : (preflight (Session.hostBeside isMissing) r).on s = (.ok ⟨s.snapshot, s.version, paths, false⟩, s) :=
    on_preflight_eq_ok.2 ⟨rfl, hscope, hfiles, rfl⟩
  refine ⟨⟨false, r.scope, paths.length, s.version, s.version, false, sums, ⟨[]⟩⟩, ?_, rfl, rfl, rfl⟩
  rw [run]
  refine Op.on_ofResult_bind_eq_ok.2 ⟨(), hprofile, Op.on_bind_eq_ok.2 ⟨_, s, hground, ?_⟩⟩
  refine Op.on_ofResult_bind_eq_ok.2 ⟨(), hexpected, Op.on_ofResult_bind_eq_ok.2 ⟨_, hrules.never, ?_⟩⟩
  dsimp only
  rw [between_self]
  rfl

/-- A cleanup of documents that parse without errors leaves nothing to do: the same request, made again at once, succeeds
and changes nothing, unless it names a version that the first one has made a past one. The parser is taken to read what
each turn makes of a text as the tree that the turn makes of its tree. -/
theorem cleanup_again (hsound : ∀ d ∈ s.snapshot.documents, (CSharp.SourceFile.ofText read d.path d.text).isSound = true)
    (hfaithful : ∀ t ∈ CSharp.turns read limits r s.snapshot c, t.isFaithful = true)
    (hrun : (run (Session.hostBeside isMissing) (CSharp.model read) limits r c).on s = (.ok o, s'))
    (hpin : o.applied = true → r.expectedVersion = none) :
    ∃ o', (run (Session.hostBeside isMissing) (CSharp.model read) limits r .never).on s' = (.ok o', s') ∧
      o'.applied = false ∧ o'.changes.files = [] ∧ o'.version = s'.version := by
  obtain ⟨paths, next, hdone⟩ := done_of_run hrun
  obtain ⟨sums, c', hrules⟩ := hdone.rules
  have hshape := runRules_sameShape (CSharp.model_keepsShape read) hrules
  have htidy := tidy_of_runRules hsound hfaithful hdone.scope hrules
  -- The first request has passed the checks that the second one meets.
  obtain ⟨_, hprofile, hground⟩ := Op.on_ofResult_bind_eq_ok.1 hrun
  obtain ⟨g, t, hg, hchecked⟩ := Op.on_bind_eq_ok.1 hground
  obtain ⟨ht, hscope, hfiles, hground⟩ := on_preflight_eq_ok.1 hg
  subst t
  cases hdone.scope.symm.trans hscope
  obtain ⟨_, hexpected, -⟩ := Op.on_ofResult_bind_eq_ok.1 hchecked
  rw [hground] at hexpected
  have hnext : s'.snapshot = next ∧ checkExpected r.expectedVersion s'.version = .ok () := by
    cases happlied : o.applied with
    | true =>
      rw [hdone.committed happlied, hpin happlied]
      exact ⟨rfl, rfl⟩
    | false =>
      obtain ⟨rfl, hempty⟩ := hdone.settled happlied
      rw [hdone.changes] at hempty
      exact ⟨(Snapshot.eq_of_texts hshape fun p => (ChangeSet.isEmpty_between_iff.1 hempty p).symm).symm, hexpected⟩
  obtain ⟨rfl, hexpected⟩ := hnext
  exact run_idle hprofile ((resolveScope_congr hshape r.scope r.path).trans hscope)
    ((missingFiles_congr hshape isMissing g.paths).trans hfiles) hexpected htidy

end

/-- A session on a file with a directive to remove and a blank at the end of a line. -/
def untidy : Session :=
  .start (Snapshot.empty.addDocument "App" "a.cs" "using System.Text;\nclass C { } \n" none)

def tidied : Session := ⟨Snapshot.empty.addDocument "App" "a.cs" "class C { }\n" none, 2⟩

/-- Cleans up everything, at a certain version if one is given. -/
def everything (version : Option Nat) : Request := { scope := .solution, expectedVersion := version }

/-- What is assumed of the parser holds there. -/
theorem untidy_read (version : Option Nat) :
    (∀ d ∈ untidy.snapshot.documents, (CSharp.SourceFile.ofText CSharp.parse d.path d.text).isSound = true) ∧
      ∀ t ∈ CSharp.turns CSharp.parse {} (everything version) untidy.snapshot .never, t.isFaithful = true := by
  have hturns : (CSharp.turns CSharp.parse {} (everything none) untidy.snapshot .never).all CSharp.Turn.isFaithful = true := by
    decide +kernel
  exact ⟨by decide +kernel, List.all_eq_true.1 hturns⟩

theorem on_run_untidy (version : Option Nat) (h : version = none ∨ version = some 1) : ∃ o,
    (run Session.host (CSharp.model CSharp.parse) {} (everything version) .never).on untidy = (.ok o, tidied) ∧
      o.applied = true := by
  have hrun : ∀ version ∈ [none, some 1],
      ((run Session.host (CSharp.model CSharp.parse) {} (everything version) .never).on untidy).1.toOption.any (·.applied) = true ∧
        ((run Session.host (CSharp.model CSharp.parse) {} (everything version) .never).on untidy).2 = tidied := by
    decide +kernel
  obtain ⟨happlied, hstate⟩ := hrun version (by simpa using h)
  generalize (run Session.host (CSharp.model CSharp.parse) {} (everything version) .never).on untidy = out at happlied hstate
  obtain ⟨_ | o, s⟩ := out
  · cases happlied
  · exact ⟨o, by rw [← hstate], happlied⟩

theorem cleanup_again_untidy : ∃ o o',
    (run Session.host (CSharp.model CSharp.parse) {} (everything none) .never).on untidy = (.ok o, tidied) ∧
      o.applied = true ∧
      (run Session.host (CSharp.model CSharp.parse) {} (everything none) .never).on tidied = (.ok o', tidied) ∧
      o'.applied = false ∧ o'.changes.files = [] ∧ o'.version = tidied.version := by
  obtain ⟨hsound, hfaithful⟩ := untidy_read none
  obtain ⟨o, hrun, happlied⟩ := on_run_untidy none (.inl rfl)
  obtain ⟨o', hagain, hrest⟩ := cleanup_again hsound hfaithful hrun fun _ => rfl
  exact ⟨o, o', hrun, happlied, hagain, hrest⟩

/-- A request that names the version it starts from is refused when it is made again: its own commit has made that
version a past one. -/
theorem pinned_cleanup_refused_again :
    ((∀ d ∈ untidy.snapshot.documents, (CSharp.SourceFile.ofText CSharp.parse d.path d.text).isSound = true) ∧
      ∀ t ∈ CSharp.turns CSharp.parse {} (everything (some 1)) untidy.snapshot .never, t.isFaithful = true) ∧
    (∃ o, (run Session.host (CSharp.model CSharp.parse) {} (everything (some 1)) .never).on untidy = (.ok o, tidied) ∧
      o.applied = true) ∧
    (run Session.host (CSharp.model CSharp.parse) {} (everything (some 1)) .never).on tidied =
      (.error (.workspaceChanged 1 2), tidied) :=
  ⟨untidy_read (some 1), on_run_untidy (some 1) (.inr rfl), rfl⟩

end Cleanup

end Workbench
