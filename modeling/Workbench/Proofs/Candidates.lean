import Workbench.Action.Pipeline
import Workbench.Proofs.Operations
import Workbench.Proofs.Sorting

/-!
# Candidates

What a catalog lists and what a token is turned into: a change that some rule
of the code model offers, with the rule and the place. A catalog takes a fix
only from a provider that lists the diagnostic; a token may name any provider.
-/

namespace Workbench

/-- A change with the rule that offers it and the place at which it does. -/
inductive Candidate where
  | fix (p : FixProvider) (d : Diagnostic) (change : CodeAction)
  | refactoring (p : RefactoringProvider) (path : String) (span : Span) (change : CodeAction)
  | builtin (path : String) (b : Builtin)

namespace Candidate

def change : Candidate → CodeAction
  | fix _ _ change => change
  | refactoring _ _ _ change => change
  | builtin _ b => b.action

def key : Candidate → ProviderKey
  | fix p d change => .codeFix p.typeName d.id change.equivalenceKey change.title
  | refactoring p _ _ change => .refactoring p.typeName change.equivalenceKey change.title
  | builtin _ b => .builtin b.kind

/-- The candidate as a catalog describes it. -/
def action (s : Snapshot) : Candidate → Action
  | fix p d change => Catalog.ofFix p.typeName d change
  | refactoring p path span change => Catalog.ofRefactoring s p.typeName path span change
  | builtin path b => Catalog.ofBuiltin s path b

/-- The code model offers the candidate in a document; unless it is a fix, at a span. -/
def Made (m : CodeModel) (s : Snapshot) (path : String) (span : Span) : Candidate → Prop
  | fix p d change => ∃ r ds changes, m.registry = .ok r ∧ p ∈ r.fixes ∧ (m.view s).diagnostics path = .ok ds ∧
      d ∈ ds ∧ p.provide s d = .ok changes ∧ change ∈ changes
  | refactoring p path' span' change => path' = path ∧ span' = span ∧ ∃ r changes, m.registry = .ok r ∧
      p ∈ r.refactorings ∧ p.provide s path span = .ok changes ∧ change ∈ changes
  | builtin path' b => path' = path ∧ ∃ bs, (m.view s).builtins path span = .ok bs ∧ b ∈ bs

/-- A fix comes from a provider that lists the diagnostic. -/
def Paired : Candidate → Prop
  | fix p d _ => d.id ∈ p.fixable
  | _ => True

/-- A candidate found in place of another: of the same description, and of a fix, with the same change. -/
structure StandsFor (m : CodeModel) (s : Snapshot) (path : String) (c c' : Candidate) : Prop where
  made : c'.Made m s path (c.action s).span
  paired : c.Paired → c'.Paired
  action : c'.action s = c.action s
  fix : ∀ p d change, c = .fix p d change → c'.change = change

theorem providerKey_action (s : Snapshot) (c : Candidate) : (c.action s).providerKey = c.key.encode := by
  cases c <;> rfl

end Candidate

/-! ## Candidates that policy allows -/

theorem Policy.outcome_eq_allow {a : Action} {profile : String} : (evaluate a profile).outcome = .allow ↔
    profile = Action.defaultProfile ∧ a.providerKey ≠ BuiltinKind.useInferredType.text ∧
      ∃ id, a.diagnosticId = some id ∧ id ∈ allowed ∧ a.category = Action.compilerCategory := by
  unfold evaluate
  by_cases hprofile : profile = Action.defaultProfile
  · rw [if_neg (not_not_intro hprofile)]
    by_cases hkey : a.providerKey = BuiltinKind.useInferredType.text
    · rw [if_pos hkey]
      exact iff_of_false (fun h => nomatch h) fun h => h.2.1 hkey
    · rw [if_neg hkey]
      cases hid : a.diagnosticId with
      | none => exact iff_of_false (fun h => nomatch h) fun ⟨_, _, _, h, _⟩ => nomatch h
      | some id =>
        by_cases hlisted : id ∈ allowed ∧ a.category = Action.compilerCategory
        · rw [Option.filter_some_pos (by simpa using hlisted)]
          exact iff_of_true rfl ⟨hprofile, hkey, id, rfl, hlisted⟩
        · rw [Option.filter_some_neg (by simpa using hlisted)]
          refine iff_of_false (fun h => nomatch h) ?_
          rintro ⟨-, -, id', hsame, h⟩
          cases hsame
          exact hlisted h
  · rw [if_pos hprofile]
    exact iff_of_false (fun h => nomatch h) fun h => hprofile h.1

namespace Candidate

/-- A fix for an allowed diagnostic, or a removal of a local that an allowed diagnostic reports. -/
def Allowed : Candidate → Prop
  | fix _ d _ => d.id ∈ Policy.allowed
  | refactoring .. => False
  | builtin _ b => b.kind = .removeUnusedLocal ∧ ∃ id ∈ Policy.allowed, b.diagnosticId = some id

theorem allowed_of_outcome {s : Snapshot} {profile : String} {c : Candidate}
    (h : (Policy.evaluate (c.action s) profile).outcome = .allow) : c.Allowed := by
  obtain ⟨-, hkey, id, hid, hallowed, -⟩ := Policy.outcome_eq_allow.1 h
  cases c with
  | fix p d change =>
    cases hid
    exact hallowed
  | refactoring p path span change => cases hid
  | builtin path b =>
    refine ⟨?_, id, hallowed, hid⟩
    cases hk : b.kind with
    | removeUnusedLocal => rfl
    | useInferredType =>
      refine absurd ?_ hkey
      change b.kind.text = _
      rw [hk]

end Candidate

/-! ## Candidates of a catalog -/

namespace Catalog

section
variable {m : CodeModel} {s : Snapshot} {path : String} {span : Span} {a : Action}

theorem mem_of_mem_settle {as : List Action} (h : a ∈ settle as) : a ∈ as :=
  List.mem_mergeSort.1 (Ordered.mem_of_mem_dedupBy h)

theorem mem_orNone {α : Type} {r : Result (List α)} {x : α} (h : x ∈ orNone r) : ∃ xs, r = .ok xs ∧ x ∈ xs := by
  cases r with
  | ok xs => exact ⟨xs, rfl, h⟩
  | error e => cases h

theorem mem_fixesFor {r : Registry} {d : Diagnostic} : a ∈ fixesFor r s d ↔ ∃ p ∈ r.fixes, d.id ∈ p.fixable ∧
    ∃ changes, p.provide s d = .ok changes ∧ ∃ change ∈ changes, ofFix p.typeName d change = a := by
  constructor
  · intro h
    obtain ⟨p, hp, h⟩ := List.mem_flatMap.1 h
    obtain ⟨change, hchange, rfl⟩ := List.mem_map.1 h
    obtain ⟨changes, hprovide, hmem⟩ := mem_orNone hchange
    obtain ⟨hp, hlists⟩ := List.mem_filter.1 hp
    exact ⟨p, hp, List.contains_iff_mem.1 hlists, changes, hprovide, change, hmem, rfl⟩
  · rintro ⟨p, hp, hlists, changes, hprovide, change, hmem, rfl⟩
    refine List.mem_flatMap.2 ⟨p, List.mem_filter.2 ⟨hp, List.contains_iff_mem.2 hlists⟩, List.mem_map.2 ⟨change, ?_, rfl⟩⟩
    rw [hprovide]
    exact hmem

theorem mem_refactoringsFor {r : Registry} : a ∈ refactoringsFor r s path span ↔ ∃ p ∈ r.refactorings,
    ∃ changes, p.provide s path span = .ok changes ∧ ∃ change ∈ changes, ofRefactoring s p.typeName path span change = a := by
  constructor
  · intro h
    obtain ⟨p, hp, h⟩ := List.mem_flatMap.1 h
    obtain ⟨change, hchange, rfl⟩ := List.mem_map.1 h
    obtain ⟨changes, hprovide, hmem⟩ := mem_orNone hchange
    exact ⟨p, hp, changes, hprovide, change, hmem, rfl⟩
  · rintro ⟨p, hp, changes, hprovide, change, hmem, rfl⟩
    refine List.mem_flatMap.2 ⟨p, hp, List.mem_map.2 ⟨change, ?_, rfl⟩⟩
    rw [hprovide]
    exact hmem

theorem made_of_mem_actionsAt {as : List Action} (h : actionsAt m s path span = .ok as) (ha : a ∈ as) :
    ∃ c : Candidate, c.Made m s path span ∧ c.Paired ∧ c.action s = a := by
  unfold actionsAt at h
  obtain ⟨r, hr, h⟩ := Result.bind_eq_ok.1 h
  obtain ⟨ds, hds, h⟩ := Result.bind_eq_ok.1 h
  obtain ⟨bs, hbs, h⟩ := Result.bind_eq_ok.1 h
  cases h
  rcases List.mem_append.1 (mem_of_mem_settle ha) with hoffered | hbuiltin
  · rcases List.mem_append.1 hoffered with hfix | hrefactoring
    · obtain ⟨d, hd, hfix⟩ := List.mem_flatMap.1 (mem_of_mem_settle hfix)
      obtain ⟨p, hp, hlists, changes, hprovide, change, hmem, rfl⟩ := mem_fixesFor.1 hfix
      have hd := (List.mem_filter.1 hd).1
      exact ⟨.fix p d change, ⟨r, ds, changes, hr, hp, hds, hd, hprovide, hmem⟩, hlists, rfl⟩
    · obtain ⟨p, hp, changes, hprovide, change, hmem, rfl⟩ := mem_refactoringsFor.1 (mem_of_mem_settle hrefactoring)
      exact ⟨.refactoring p path span change, ⟨rfl, rfl, r, changes, hr, hp, hprovide, hmem⟩, trivial, rfl⟩
  · obtain ⟨b, hb, rfl⟩ := List.mem_map.1 (mem_of_mem_settle (List.mem_filter.1 hbuiltin).1)
    exact ⟨.builtin path b, ⟨rfl, bs, hbs, hb⟩, trivial, rfl⟩

theorem on_discover (isMissing : String → Bool) (m : CodeModel) (q : ActionQuery) (s : Session) :
    (discover (Session.hostBeside isMissing) m q).on s = (ofSnapshot m s.snapshot s.version q, s) := by
  unfold discover
  rw [Op.on_bind]
  rfl

/-- An entry of a catalog describes a candidate at the selection, which is paired when it is a fix. -/
theorem mem_ofSnapshot {version : Nat} {q : ActionQuery} {c : ActionCatalog} {e : ActionEntry}
    (h : ofSnapshot m s version q = .ok c) (he : e ∈ c.actions) :
    c.version = version ∧ ∃ (path : String) (span : Span) (a : Candidate), selection s q = .ok (path, span) ∧
      a.Made m s path span ∧ a.Paired ∧ e = entry version c.profile (a.action s) := by
  unfold ofSnapshot at h
  split at h
  · cases h
  · rename_i path span hselection
    obtain ⟨as, has, rfl⟩ := Result.map_eq_ok.1 h
    obtain ⟨a, ha, rfl⟩ := List.mem_map.1 he
    obtain ⟨candidate, hmade, hpaired, rfl⟩ := made_of_mem_actionsAt has ha
    exact ⟨rfl, path, span, candidate, hselection, hmade, hpaired, rfl⟩

end

end Catalog

/-! ## Candidates of a token -/

namespace Pipeline

section
variable {m : CodeModel} {s : Snapshot} {raw : String}

theorem firstOr_eq_ok {α : Type} {p : α → Bool} {xs : List α} {a : α} :
    firstOr raw p xs = .ok a ↔ xs.find? p = some a := by
  unfold firstOr
  cases xs.find? p <;> simp

theorem known_eq_ok {α : Type} {o : Option α} {a : α} : known raw o = .ok a ↔ o = some a := by
  cases o <;> simp [known]

theorem made_of_candidate {at_ : Action} {key : ProviderKey} {change : CodeAction} {described : Action}
    (h : candidate m s raw at_ key = .ok (change, described)) :
    ∃ c : Candidate, c.Made m s at_.filePath at_.span ∧ c.change = change ∧ c.action s = described := by
  cases key with
  | codeFix provider id key title =>
    obtain ⟨r, hr, h⟩ := Result.bind_eq_ok.1 h
    obtain ⟨p, hp, h⟩ := Result.bind_eq_ok.1 h
    obtain ⟨ds, hds, h⟩ := Result.bind_eq_ok.1 h
    obtain ⟨d, hd, h⟩ := Result.bind_eq_ok.1 h
    obtain ⟨changes, hprovide, h⟩ := Result.bind_eq_ok.1 h
    obtain ⟨fix, hfix, h⟩ := Result.bind_eq_ok.1 h
    cases h
    have hp := List.mem_of_find?_eq_some (known_eq_ok.1 hp)
    have hd := List.mem_of_find?_eq_some (firstOr_eq_ok.1 hd)
    have hfix := List.mem_of_find?_eq_some (firstOr_eq_ok.1 hfix)
    exact ⟨.fix p d change, ⟨r, ds, changes, hr, hp, hds, hd, hprovide, hfix⟩, rfl, rfl⟩
  | refactoring provider key title =>
    obtain ⟨r, hr, h⟩ := Result.bind_eq_ok.1 h
    obtain ⟨p, hp, h⟩ := Result.bind_eq_ok.1 h
    obtain ⟨changes, hprovide, h⟩ := Result.bind_eq_ok.1 h
    obtain ⟨a, ha, h⟩ := Result.bind_eq_ok.1 h
    cases h
    have hp := List.mem_of_find?_eq_some (known_eq_ok.1 hp)
    have ha := List.mem_of_find?_eq_some (firstOr_eq_ok.1 ha)
    exact ⟨.refactoring p at_.filePath at_.span change, ⟨rfl, rfl, r, changes, hr, hp, hprovide, ha⟩, rfl, rfl⟩
  | builtin kind =>
    obtain ⟨bs, hbs, h⟩ := Result.bind_eq_ok.1 h
    obtain ⟨b, hb, h⟩ := Result.bind_eq_ok.1 h
    cases h
    have hb := List.mem_of_find?_eq_some (firstOr_eq_ok.1 hb)
    exact ⟨.builtin at_.filePath b, ⟨rfl, bs, hbs, hb⟩, rfl, rfl⟩

theorem relocate_of_document {t : ActionToken} {d : Document} (h : s.document? t.action.filePath = some d) :
    relocate m s raw t = known raw t.providerKey? >>= fun key => candidate m s raw t.action key >>= fun found =>
      if sameAction t.action found.2 then .ok found else .error (.actionNotFound raw) := by
  unfold relocate
  rw [h]
  rfl

theorem relocate_eq_ok {t : ActionToken} {change : CodeAction} {described : Action} :
    relocate m s raw t = .ok (change, described) ↔ (∃ d, s.document? t.action.filePath = some d) ∧
      (∃ key, t.providerKey? = some key ∧ candidate m s raw t.action key = .ok (change, described)) ∧
      sameAction t.action described = true := by
  constructor
  · intro h
    cases hdoc : s.document? t.action.filePath with
    | none =>
      unfold relocate at h
      rw [hdoc] at h
      cases h
    | some d =>
      rw [relocate_of_document hdoc] at h
      obtain ⟨key, hkey, h⟩ := Result.bind_eq_ok.1 h
      obtain ⟨found, hcandidate, h⟩ := Result.bind_eq_ok.1 h
      by_cases hsame : sameAction t.action found.2 = true
      · rw [if_pos hsame] at h
        cases h
        exact ⟨⟨d, rfl⟩, ⟨key, known_eq_ok.1 hkey, hcandidate⟩, hsame⟩
      · rw [if_neg hsame] at h
        cases h
  · rintro ⟨⟨d, hdoc⟩, ⟨key, hkey, hcandidate⟩, hsame⟩
    rw [relocate_of_document hdoc]
    refine Result.bind_eq_ok.2 ⟨key, known_eq_ok.2 hkey, Result.bind_eq_ok.2 ⟨_, hcandidate, ?_⟩⟩
    exact if_pos hsame

/-- A token is turned into a candidate of the document that it names. -/
theorem made_of_relocate {t : ActionToken} {change : CodeAction} {described : Action}
    (h : relocate m s raw t = .ok (change, described)) :
    ∃ c : Candidate, c.Made m s t.action.filePath t.action.span ∧ c.change = change ∧ c.action s = described := by
  obtain ⟨-, ⟨key, -, hcandidate⟩, -⟩ := relocate_eq_ok.1 h
  exact made_of_candidate hcandidate

end

end Pipeline

end Workbench
