import Workbench.CSharp.Tree
import Workbench.Proofs.Relocation

/-!
# Catalogs keep their promises

An entry of a catalog is a promise about its token: a preview shows the action
as the catalog does, and an application does what the entry says of policy.
The promise holds while the session stays as it was.
-/

namespace Workbench

namespace CSharp

theorem paths_of_allowed {read : Parser} {s next : Snapshot} {path : String} {span : Span} {c : Candidate}
    (maxCells : Nat) (hs : read.FitsAll s) (h : c.Made (model read) s path span) (hpaired : c.Paired)
    (hallowed : c.Allowed) (hnext : c.change.apply s = .ok next) :
    (ChangeSet.between s next maxCells).paths = [path] := by
  obtain ⟨f, title, key, es, hf, hchange, r, rfl, hr, hpos⟩ := removal_of_allowed hs h hpaired hallowed
  obtain ⟨text, ht, rfl⟩ := sourceFile_eq_ok.1 hf
  obtain ⟨next', new, happly, hnew, -, htexts⟩ := apply_single title key (e := .delete r) ht hr
  rw [hchange, happly] at hnext
  cases hnext
  exact paths_between_of_removal ht hr hpos hnew htexts

/-- What a catalog of a session promises of an entry. -/
structure Kept (isMissing : String → Bool) (read : Parser) (maxCells : Nat) (s : Session) (c : ActionCatalog)
    (e : ActionEntry) (p : Pipeline.Preview) : Prop where
  /-- A preview succeeds, and shows the action of the entry at the version of the catalog. -/
  preview : (Pipeline.preview (Session.hostBeside isMissing) (model read) maxCells e.token).on s = (.ok p, s)
  version : p.version = c.version
  action : p.action = e.action
  policy : p.policy.outcome = e.policy
  /-- What policy allows is applied: it changes the document of the action and raises the version. -/
  applied : e.policy = .allow → ∃ next,
    (Pipeline.apply (Session.hostBeside isMissing) (model read) maxCells e.token).on s =
      (.ok ⟨c.version, c.version + 1, p.changes⟩, ⟨next, c.version + 1⟩) ∧ p.changes.paths = [e.action.filePath] ∧
      p.changes = .between s.snapshot next maxCells
  /-- What policy does not allow is refused, and the session stays as it is. -/
  refused : e.policy ≠ .allow →
    (Pipeline.apply (Session.hostBeside isMissing) (model read) maxCells e.token).on s =
      (.error (.policyBlocked p.policy), s)

/-- Discovery, preview and application agree on every entry of every catalog, for every parser whose trees fit. -/
theorem discover_preview_apply_agree (read : Parser) (isMissing : String → Bool) (maxCells : Nat) {s s' : Session}
    {q : ActionQuery} {c : ActionCatalog} {e : ActionEntry} (hs : read.FitsAll s.snapshot) (hw : s.InWords)
    (hc : (Catalog.discover (Session.hostBeside isMissing) (model read) q).on s = (.ok c, s'))
    (he : e ∈ c.actions) : s' = s ∧ ∃ p, Kept isMissing read maxCells s' c e p := by
  rw [Catalog.on_discover] at hc
  obtain ⟨hcatalog, rfl⟩ := Prod.mk.inj hc
  obtain ⟨hversion, path, span, a, hselection, hmade, hpaired, rfl⟩ := Catalog.mem_ofSnapshot hcatalog he
  obtain ⟨text, ht, hwithin⟩ := Catalog.selection_within hselection
  obtain ⟨f, hf, hplaced⟩ := placed_of_made hs hmade
  obtain ⟨c', next, hstands, hnext, hprepared⟩ := prepared_of_made maxCells c.profile hs hw hmade
    (sourceFile_eq_ok.2 ⟨text, ht, rfl⟩) hwithin
  refine ⟨rfl, _, Pipeline.preview_of_prepared hprepared, hversion.symm, rfl, rfl, fun hallow => ?_, fun hblock => ?_⟩
  · have hallowed := Candidate.allowed_of_outcome (hstands.action ▸ hallow)
    have hpaths := paths_of_allowed maxCells hs hstands.made (hstands.paired hpaired) hallowed hnext
    have hchanges : (ChangeSet.between s.snapshot next maxCells).isEmpty = false := by
      -- An application of no change would be refused.
      rw [ChangeSet.isEmpty_eq_false_iff, hpaths]
      exact List.cons_ne_nil _ _
    rw [hversion]
    exact ⟨next, Pipeline.apply_of_allowed hprepared hallow hchanges, hplaced.filePath ▸ hpaths, rfl⟩
  · exact Pipeline.apply_of_blocked hprepared hblock

/-- A session on one class with an unused local. -/
def unusedLocal : Session := .start (Snapshot.empty.addDocument "App" "a.cs" "class A { void M() { int x; } }" none)

theorem unusedLocal_fits : Parser.FitsAll parse unusedLocal.snapshot := by
  unfold Parser.FitsAll
  decide +kernel

theorem unusedLocal_inWords : unusedLocal.InWords := ⟨by decide, by decide +kernel⟩

theorem agree_on_unusedLocal : ∃ c e p, (Catalog.discover Session.host (model parse)
      { path := "a.cs", line := 1, column := 26 }).on unusedLocal = (.ok c, unusedLocal) ∧
    e ∈ c.actions ∧ e.policy = .allow ∧ Kept (fun _ => true) parse 1000 unusedLocal c e p := by
  have hany : (Catalog.orNone ((Catalog.ofSnapshot (model parse) unusedLocal.snapshot unusedLocal.version
      { path := "a.cs", line := 1, column := 26 }).map (·.actions))).any (fun e => e.policy == .allow) = true := by
    decide +kernel
  obtain ⟨e, he, hallow⟩ := List.any_eq_true.1 hany
  obtain ⟨es, hes, he⟩ := Catalog.mem_orNone he
  obtain ⟨c, hc, rfl⟩ := Result.map_eq_ok.1 hes
  have hd := Catalog.on_discover (fun _ => true) (model parse) { path := "a.cs", line := 1, column := 26 } unusedLocal
  rw [hc] at hd
  obtain ⟨-, p, hp⟩ :=
    discover_preview_apply_agree parse (fun _ => true) 1000 unusedLocal_fits unusedLocal_inWords hd he
  exact ⟨c, e, p, hd, he, beq_iff_eq.1 hallow, hp⟩

end CSharp

end Workbench
