import Workbench.Proofs.Sessions
import Workbench.Proofs.Registry

/-!
# Cleanup stays in its scope

A code model edits in place when what it does about a document edits that
document alone. Over such a model no rule and no pass of a cleanup reaches
beyond the paths it was given, whatever becomes of the cleanup. The model of C#
edits in place, for every parser.
-/

namespace Workbench

/-! ## Snapshots -/

namespace Snapshot

/-- Snapshots that differ in the texts at some paths at most. -/
structure SameOutside (ps : List String) (a b : Snapshot) : Prop where
  shape : a.SameShape b
  texts {p : String} : p ∉ ps → b.text? p = a.text? p

section
variable {ps qs : List String} {s next mid : Snapshot} {path text : String} {edits : List Edit}

theorem SameOutside.refl (ps : List String) (s : Snapshot) : s.SameOutside ps s := ⟨.refl s, fun _ => rfl⟩

theorem SameOutside.trans (h : s.SameOutside ps mid) (h' : mid.SameOutside ps next) : s.SameOutside ps next :=
  ⟨h.shape.trans h'.shape, fun hp => (h'.texts hp).trans (h.texts hp)⟩

theorem SameOutside.mono (h : s.SameOutside ps next) (hsub : ∀ p ∈ ps, p ∈ qs) : s.SameOutside qs next :=
  ⟨h.shape, fun hp => h.texts fun hmem => hp (hsub _ hmem)⟩

theorem withText_sameOutside (h : s.withText path text = .ok next) : s.SameOutside [path] next := by
  obtain ⟨d, -, hshape, htexts⟩ := withText_ok h
  refine ⟨hshape, fun hp => ?_⟩
  rw [htexts, if_neg fun he => hp (List.mem_singleton.2 he)]

theorem withEdits_sameOutside (h : s.withEdits path edits = .ok next) : s.SameOutside [path] next := by
  by_cases he : edits = []
  · subst he
    cases h
    exact .refl _ s
  · obtain ⟨old, new, -, -, hshape, htexts⟩ := withEdits_ok h he
    refine ⟨hshape, fun hp => ?_⟩
    rw [htexts, if_neg fun he => hp (List.mem_singleton.2 he)]

end

end Snapshot

theorem CodeAction.applyEdits_sameOutside {ps : List String} {s next : Snapshot} {ds : List DocumentEdit}
    (h : applyEdits s ds = .ok next) (hps : ∀ d ∈ ds, d.path ∈ ps) : s.SameOutside ps next := by
  induction ds generalizing s with
  | nil =>
    cases h
    exact .refl _ _
  | cons d rest ih =>
    rw [applyEdits] at h
    split at h
    · cases h
    · rename_i mid hmid
      have hd : ∀ p ∈ [d.path], p ∈ ps := fun p hp => List.mem_singleton.1 hp ▸ hps d List.mem_cons_self
      exact ((Snapshot.withEdits_sameOutside hmid).mono hd).trans (ih h fun e he => hps e (List.mem_cons_of_mem d he))

/-! ## Code models that edit in place -/

/-- What the model does about a document edits that document alone. -/
structure CodeModel.EditsInPlace (m : CodeModel) : Prop where
  fix {s : Snapshot} {path : String} {ds : List Diagnostic} {d : Diagnostic} {r : Registry} {p : FixProvider}
    {fixes : List CodeAction} {fix : CodeAction} : (m.view s).diagnostics path = .ok ds → d ∈ ds →
    m.registry = .ok r → p ∈ r.fixes → p.provide s d = .ok fixes → fix ∈ fixes → ∀ e ∈ fix.edits, e.path = path
  format {s next : Snapshot} {path : String} : (m.view s).format path = .ok next → s.SameOutside [path] next
  organizeImports {s next : Snapshot} {path : String} :
    (m.view s).organizeImports path = .ok next → s.SameOutside [path] next

/-- The diagnostics of a file bear its path. -/
theorem CSharp.path_of_mem_diagnostics {c : Compilation} {f : SourceFile} {d : Diagnostic} (h : d ∈ diagnostics c f) :
    d.path = f.path := by
  rw [diagnostics, List.mem_mergeSort] at h
  simp only [List.mem_append, List.mem_map] at h
  rcases h with ((⟨l, -, rfl⟩ | ⟨u, -, rfl⟩) | ⟨span, -, rfl⟩) | ⟨n, -, rfl⟩
  all_goals rfl

theorem CSharp.model_editsInPlace (read : Parser) : (model read).EditsInPlace where
  fix := by
    intro s path ds d r p fixes fix hds hd hr hp hfixes hfix e he
    -- A provider edits the document of the diagnostic.
    rw [diagnostics_view] at hds
    obtain ⟨f, hf, rfl⟩ := Result.map_eq_ok.1 hds
    have hpath : d.path = path := by
      obtain ⟨text, -, rfl⟩ := sourceFile_eq_ok.1 hf
      exact path_of_mem_diagnostics hd
    obtain ⟨title, key, edits?, -, hprovide⟩ := mem_fixes hr hp
    rw [hprovide] at hfixes
    obtain ⟨f', es, -, -, -, rfl⟩ := mem_provide_fix hfixes hfix
    rw [List.mem_singleton.1 he]
    exact hpath
  format := by
    intro s next path h
    change formatDocument _ s path = .ok next at h
    unfold formatDocument at h
    split at h
    · cases h
    · exact Snapshot.withText_sameOutside h
  organizeImports := by
    intro s next path h
    change organizeDocument _ s path = .ok next at h
    unfold organizeDocument at h
    split at h
    · cases h
    · exact Snapshot.withEdits_sameOutside h

namespace Cleanup

/-! ## One pass -/

section
variable {r : Registry} {s : Snapshot} {path : String} {d : Diagnostic} {fix : CodeAction} {chosen : List DocumentEdit}

/-- The fix that is chosen for a diagnostic was offered by a provider. -/
theorem offered_of_best? (h : best? r s d = some fix) :
    ∃ p ∈ r.fixes, ∃ fixes, p.provide s d = .ok fixes ∧ fix ∈ fixes := by
  obtain ⟨⟨name, fix'⟩, hhead, rfl⟩ := Option.map_eq_some_iff.1 h
  have hmem := List.mem_mergeSort.1 (List.mem_of_head? hhead)
  obtain ⟨p, hp, hfix⟩ := List.mem_flatMap.1 hmem
  split at hfix
  · rename_i fixes hprovide
    obtain ⟨fix'', hfix'', he⟩ := List.mem_map.1 hfix
    cases he
    exact ⟨p, (List.mem_filter.1 hp).1, fixes, hprovide, hfix''⟩
  · cases hfix

theorem path_of_mem_add {e : DocumentEdit} (he : e.path = path) (h : ∀ d ∈ chosen, d.path = path) :
    ∀ d ∈ add chosen e, d.path = path := by
  intro d hd
  rcases Ordered.mem_put hd with rfl | hd
  · exact he
  · exact h d hd

theorem path_of_mem_foldl_add {es : List DocumentEdit} (he : ∀ e ∈ es, e.path = path) (h : ∀ d ∈ chosen, d.path = path) :
    ∀ d ∈ es.foldl add chosen, d.path = path := by
  induction es generalizing chosen with
  | nil => exact h
  | cons e rest ih =>
    exact ih (fun e' he' => he e' (List.mem_cons_of_mem e he')) (path_of_mem_add (he e List.mem_cons_self) h)

theorem path_of_mem_choose (hfix : ∀ fix, best? r s d = some fix → ∀ e ∈ fix.edits, e.path = path)
    (h : ∀ d ∈ chosen, d.path = path) : ∀ e ∈ choose r s chosen d, e.path = path := by
  unfold choose
  split
  · exact h
  · rename_i fix hbest
    split
    · exact path_of_mem_foldl_add (hfix fix hbest) h
    · exact h

end

section
variable {m : CodeModel} {s next : Snapshot} {path : String} {ids : List String} {c c' : Cancellation}

theorem path_of_mem_chooseFixes (hm : m.EditsInPlace) {chosen : List DocumentEdit}
    (h : chooseFixes m s path ids = .ok chosen) : ∀ e ∈ chosen, e.path = path := by
  obtain ⟨r, hr, h⟩ := Result.bind_eq_ok.1 h
  obtain ⟨ds, hds, h⟩ := Result.bind_eq_ok.1 h
  cases h
  have hall : ∀ d ∈ ds.filter fun d => ids.contains d.id, ∀ fix, best? r s d = some fix → ∀ e ∈ fix.edits,
      e.path = path := by
    intro d hd fix hbest
    obtain ⟨p, hp, fixes, hprovide, hfix⟩ := offered_of_best? hbest
    exact hm.fix hds (List.mem_filter.1 hd).1 hr hp hprovide hfix
  generalize ds.filter (fun d => ids.contains d.id) = wanted at hall
  suffices h : ∀ chosen : List DocumentEdit, (∀ e ∈ chosen, e.path = path) →
      ∀ e ∈ wanted.foldl (choose r s) chosen, e.path = path from h [] (by simp)
  induction wanted with
  | nil => exact fun _ h => h
  | cons d rest ih =>
    intro chosen hchosen
    have hd := path_of_mem_choose (hall d List.mem_cons_self) hchosen
    exact ih (fun d' hd' => hall d' (List.mem_cons_of_mem d hd')) _ hd

theorem pass_sameOutside (hm : m.EditsInPlace) (h : pass m s path ids = .ok (some next)) :
    s.SameOutside [path] next := by
  unfold pass at h
  obtain ⟨chosen, hchosen, h⟩ := Result.bind_eq_ok.1 h
  split at h
  · cases h
  · obtain ⟨last, hlast, h⟩ := Result.bind_eq_ok.1 h
    have hs := CodeAction.applyEdits_sameOutside hlast fun e he =>
      List.mem_singleton.2 (path_of_mem_chooseFixes hm hchosen e he)
    split at h
    · cases h
    · cases h
      exact hs

/-! ## All passes, all documents, all rules -/

theorem passes_sameOutside (hm : m.EditsInPlace) {fuel done n : Nat}
    (h : (passes m path ids fuel done s).run c = .ok ((next, n), c')) : s.SameOutside [path] next :=
  passes_keep (.refl _) .trans (pass_sameOutside hm) h

theorem runRule_sameOutside (hm : m.EditsInPlace) {rule : CleanupRule} {maxPasses : Nat} {run : RuleRun}
    (h : (runRule m rule s path maxPasses).run c = .ok ((next, run), c')) : s.SameOutside [path] next := by
  rcases runRule_cases h with ⟨-, h⟩ | ⟨-, h⟩ | ⟨-, -, n, d, d', h⟩
  · exact hm.organizeImports h
  · exact hm.format h
  · exact passes_sameOutside hm h

theorem runOver_sameOutside (hm : m.EditsInPlace) {rule : CleanupRule} {maxPasses : Nat} {paths : List String}
    {sum sum' : RuleSummary} (h : (runOver m rule maxPasses paths s sum).run c = .ok ((next, sum'), c')) :
    s.SameOutside paths next := by
  refine runOver_keep (.refl _) .trans (fun hpath hrun => ?_) h
  exact (runRule_sameOutside hm hrun).mono fun p hp => List.mem_singleton.1 hp ▸ hpath

theorem runRules_sameOutside (hm : m.EditsInPlace) {rules : List CleanupRule} {maxPasses : Nat} {paths : List String}
    {sums : List RuleSummary} (h : (runRules m maxPasses paths rules s).run c = .ok ((next, sums), c')) :
    s.SameOutside paths next := runRules_keep (.refl _) .trans (runOver_sameOutside hm) h

end

/-! ## A whole cleanup -/

/-- What a cleanup that succeeds has done to a session in memory. -/
structure Done (m : CodeModel) (limits : Limits) (r : Request) (c : Cancellation) (s : Session) (o : Outcome) (s' : Session)
    (paths : List String) (next : Snapshot) : Prop where
  scope : resolveScope s.snapshot r.scope r.path = .ok paths
  rules : ∃ sums c', (runRules m (max limits.cleanupPasses 1) paths CleanupRule.all s.snapshot).run c =
    .ok ((next, sums), c')
  changes : o.changes = .between s.snapshot next limits.diffCells
  settled : o.applied = false → s' = s ∧ o.changes.isEmpty = true
  committed : o.applied = true → s' = ⟨next, s.version + 1⟩

section
variable {m : CodeModel} {limits : Limits} {isMissing : String → Bool} {r : Request} {c : Cancellation} {s s' : Session}
  {o : Outcome}

theorem done_of_run (h : (run (Session.hostBeside isMissing) m limits r c).on s = (.ok o, s')) :
    ∃ paths next, Done m limits r c s o s' paths next := by
  obtain ⟨_, -, hground⟩ := Op.on_ofResult_bind_eq_ok.1 h
  obtain ⟨g, t, hg, hchecked⟩ := Op.on_bind_eq_ok.1 hground
  have hreads : (preflight (Session.hostBeside isMissing) r).ReadsTo s _ := Service.readsTo_preflight r
  obtain ⟨hsnapshot, hversion, hscope⟩ := hreads.result hg
  cases hreads.state hg
  obtain ⟨_, -, hran⟩ := Op.on_ofResult_bind_eq_ok.1 hchecked
  obtain ⟨⟨⟨next, sums⟩, c'⟩, hrules, hend⟩ := Op.on_ofResult_bind_eq_ok.1 hran
  rw [hsnapshot] at hrules hend
  rw [hversion] at hend
  refine ⟨g.paths, next, ?_⟩
  -- The commit ends both ways in which a cleanup that changes something goes on.
  have hcommit : ((Session.hostBeside isMissing).commit s.version next >>= fun version => (pure
      ⟨true, r.scope, g.paths.length, s.version, version, g.reloaded, sums, .between s.snapshot next limits.diffCells⟩ :
        Op Session Outcome)).on s = (.ok o, s') → Done m limits r c s o s' g.paths next := by
    intro h
    rw [Op.on_bind, Session.on_commit_current] at h
    cases h
    exact ⟨hscope, ⟨sums, c', hrules⟩, rfl, nofun, fun _ => rfl⟩
  dsimp only at hend
  split at hend
  · rename_i hempty
    cases hend
    exact ⟨hscope, ⟨sums, c', hrules⟩, rfl, fun _ => ⟨rfl, hempty⟩, nofun⟩
  · obtain ⟨_, -, hlook⟩ := Op.on_ofResult_bind_eq_ok.1 hend
    split at hlook
    · obtain ⟨x, _, hx, hagain⟩ := Op.on_bind_eq_ok.1 hlook
      cases hx
      obtain ⟨_, -, hagain⟩ := Op.on_ofResult_bind_eq_ok.1 hagain
      exact hcommit hagain
    · exact hcommit hlook

end

/-- What a cleanup, whatever becomes of it, leaves alone: everything but the texts of the documents in its scope. -/
structure Confined (r : Request) (s : Session) (out : Result Outcome × Session) : Prop where
  shape : s.snapshot.SameShape out.2.snapshot
  outside {paths : List String} : resolveScope s.snapshot r.scope r.path = .ok paths →
    ∀ p ∉ paths, out.2.snapshot.text? p = s.snapshot.text? p
  /-- Without a scope nothing is done at all. -/
  refused {why : BadInput} : resolveScope s.snapshot r.scope r.path = .error why →
    (∃ e, out.1 = .error e) ∧ out.2 = s
  changed {o : Outcome} : out.1 = .ok o → ∃ paths, resolveScope s.snapshot r.scope r.path = .ok paths ∧
    ∀ p ∈ o.changes.paths, p ∈ paths

/-- A cleanup of a session in memory stays in its scope, for every parser and every request. -/
theorem cleanup_confined (read : CSharp.Parser) (isMissing : String → Bool) (limits : Limits) (r : Request)
    (c : Cancellation) (s : Session) :
    Confined r s ((run (Session.hostBeside isMissing) (CSharp.model read) limits r c).on s) := by
  have hsettle : Service.SettlesAt limits.diffCells _ s (run (Session.hostBeside isMissing) _ limits r c) :=
    Service.settlesAt_cleanup (CSharp.model_keepsShape read)
  rcases hrun : (run (Session.hostBeside isMissing) (CSharp.model read) limits r c).on s with ⟨result, s'⟩
  cases result with
  | error e =>
    obtain rfl := hsettle.failed hrun
    exact ⟨.refl _, fun _ _ _ => rfl, fun _ => ⟨⟨e, rfl⟩, rfl⟩, nofun⟩
  | ok o =>
    obtain ⟨paths, next, hdone⟩ := done_of_run hrun
    obtain ⟨sums, c', hrules⟩ := hdone.rules
    have houtside := runRules_sameOutside (CSharp.model_editsInPlace read) hrules
    have hs' : s.snapshot.SameOutside paths s'.snapshot := by
      cases happlied : o.applied with
      | false =>
        rw [(hdone.settled happlied).1]
        exact .refl _ _
      | true =>
        rw [hdone.committed happlied]
        exact houtside
    refine ⟨hs'.shape, fun hscope p hp => ?_, fun hscope => ?_, fun ho => ⟨paths, hdone.scope, fun p hp => ?_⟩⟩
    · rw [hdone.scope] at hscope
      cases hscope
      exact hs'.texts hp
    · rw [hdone.scope] at hscope
      cases hscope
    · cases ho
      rw [hdone.changes, ChangeSet.mem_paths_between] at hp
      exact Decidable.byContradiction fun hmem => hp (houtside.texts hmem).symm

end Cleanup

end Workbench
