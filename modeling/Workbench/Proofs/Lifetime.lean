import Workbench.Proofs.Agreement
import Workbench.Proofs.SingleUse

/-!
# Lifetime of tokens

Tokens come out of catalogs and lists of fixes. One that has been found names
the version at which it was; once anything has been applied since, every use
of it is refused, as if it had been spent itself.
-/

namespace Workbench.Service

/-! ## Tokens in answers -/

/-- The tokens of the objects that an answer lists under a key. -/
def tokensIn (key : String) (j : Json) : List String :=
  (((j.field? key).bind Json.arr?).getD []).filterMap fun e => (e.field? "token").bind Json.str?

/-- An action token is in the catalog that a step answers. -/
def Step.FindsAction (raw : String) (t : Step) : Prop :=
  (∃ q, t.call? = some (.discoverActions q)) ∧ ∃ j, t.reply = .ok j ∧ raw ∈ tokensIn "actions" j

/-- A fix token is in the list that a step answers. -/
def Step.FindsFix (raw : String) (t : Step) : Prop :=
  (∃ path id, t.call? = some (.listFixes path id)) ∧ ∃ j, t.reply = .ok j ∧ raw ∈ tokensIn "fixes" j

theorem tokensIn_map {α : Type} {key : String} {j : Json} {xs : List α} {token : α → String} (f : α → Json)
    (hj : j.field? key = some (.arr (xs.map f))) (hf : ∀ x, (f x).field? "token" = some (.str (token x))) :
    tokensIn key j = xs.map token := by
  have htoken : ((fun e : Json => (e.field? "token").bind Json.str?) ∘ f) = some ∘ token := by
    funext x
    simp only [Function.comp_apply, hf, Option.bind_some, Json.str?]
  rw [tokensIn, hj, Option.bind_some, Json.arr?, Option.getD_some, List.filterMap_map, htoken, List.filterMap_eq_map]

theorem tokensIn_catalog (c : ActionCatalog) : tokensIn "actions" c.toJson = c.actions.map (·.token) := by
  refine tokensIn_map ActionEntry.toJson ?_ fun e => ?_
  · rw [ActionCatalog.toJson, Json.field?_object]
    rfl
  · rw [ActionEntry.toJson, Json.field?_object, List.reverse_append]
    rfl

theorem tokensIn_removals (l : RemovalList) : tokensIn "fixes" l.toJson = l.fixes.map (·.token.encode) := by
  refine tokensIn_map RemovalEntry.toJson ?_ fun e => ?_
  · rw [RemovalList.toJson, Json.field?_object]
    rfl
  · rw [RemovalEntry.toJson, Json.field?_object]
    rfl

/-! ## Versions of tokens -/

section
variable {read : CSharp.Parser} {limits : Limits} {s : Session} {i : Invocation} {raw : String}

theorem version_of_found_action (hs : read.FitsAll s.snapshot) (hw : s.InWords)
    (h : (handled (CSharp.model read) limits s i).FindsAction raw) :
    ∃ t, ActionToken.decode raw = .ok t ∧ t.version = s.version := by
  obtain ⟨⟨q, hcall⟩, j, hj, hraw⟩ := h
  obtain ⟨a, rfl, hrun⟩ := answer_of_reply hcall hj
  obtain ⟨c, s', hc, hp⟩ := Op.on_bind_eq_ok.1 hrun
  cases hp
  rw [Catalog.on_discover] at hc
  change raw ∈ tokensIn "actions" c.toJson at hraw
  rw [tokensIn_catalog] at hraw
  obtain ⟨e, he, rfl⟩ := List.mem_map.1 hraw
  obtain ⟨-, path, span, candidate, hselection, hmade, -, rfl⟩ := Catalog.mem_ofSnapshot (Prod.mk.inj hc).1 he
  exact ⟨_, ActionToken.decode_encode hw.version (CSharp.writable_of_selected hs hw hselection hmade), rfl⟩

/-- A fix token of a list can be read, and names the version of the session. -/
theorem writable_of_listed {path : String} {wanted : Option String} {l : RemovalList} {e : RemovalEntry}
    (hs : read.FitsAll s.snapshot) (hw : s.InWords)
    (h : Removal.listOn (CSharp.model read) s.snapshot s.version path wanted = .ok l) (he : e ∈ l.fixes) :
    e.token.Writable ∧ e.token.version = s.version := by
  unfold Removal.listOn at h
  split at h
  · cases h
  · rename_i d hd
    obtain ⟨bs, hbs, rfl⟩ := Result.map_eq_ok.1 h
    obtain ⟨b, hb, hentry⟩ := List.mem_filterMap.1 (List.mem_mergeSort.1 he)
    rw [CSharp.builtins_view] at hbs
    obtain ⟨f, hf, rfl⟩ := Result.map_eq_ok.1 hbs
    obtain ⟨text, ht, rfl⟩ := CSharp.sourceFile_eq_ok.1 hf
    obtain ⟨d', hd', rfl⟩ := Option.map_eq_some_iff.1 ht
    have hfits := CSharp.fits_of_sourceFile hs hf
    have hspan := (CSharp.builtinPlaced hfits hb).span.within
    have hsize := hw.documents d' (Snapshot.document?_path hd').1
    unfold Removal.removable? at hentry
    split at hentry
    · cases hentry
    · rename_i id hid
      obtain ⟨hkind, hentry⟩ := Option.ite_none_right_eq_some.1 hentry
      cases hentry
      have hkind := beq_iff_eq.1 (Bool.and_eq_true_iff.1 hkind).1
      refine ⟨⟨hw.version, ?_, ?_, ?_, ?_⟩, rfl⟩
      · exact Nat.lt_of_le_of_lt hspan.start (Nat.lt_of_succ_lt hsize)
      · exact Nat.lt_of_le_of_lt hspan.length (Nat.lt_of_succ_lt hsize)
      · change b.kind.text ≠ "" ∧ '|' ∉ b.kind.text.toList
        rw [hkind]
        decide
      · change id ≠ "" ∧ '|' ∉ id.toList
        rcases CSharp.builtin_diagnosticId hfits hb hid with rfl | rfl
        · decide
        · decide

theorem version_of_found_fix (hs : read.FitsAll s.snapshot) (hw : s.InWords)
    (h : (handled (CSharp.model read) limits s i).FindsFix raw) :
    ∃ t, FixToken.decode raw = .ok t ∧ t.version = s.version := by
  obtain ⟨⟨path, id, hcall⟩, j, hj, hraw⟩ := h
  obtain ⟨a, rfl, hrun⟩ := answer_of_reply hcall hj
  obtain ⟨l, s', hl, hp⟩ := Op.on_bind_eq_ok.1 hrun
  cases hp
  change raw ∈ tokensIn "fixes" l.toJson at hraw
  rw [tokensIn_removals] at hraw
  obtain ⟨e, he, rfl⟩ := List.mem_map.1 hraw
  have hlist : Removal.listOn (CSharp.model read) s.snapshot s.version path id = .ok l := (Prod.mk.inj hl).1
  obtain ⟨hwritable, hversion⟩ := writable_of_listed hs hw hlist he
  exact ⟨e.token, FixToken.decode_encode hwritable, hversion⟩

end

/-! ## Runs -/

section
variable {m : CodeModel} {limits : Limits} {s : Session} {calls : List Invocation} {raw : String}

theorem pairwise_of_append {α : Type} {R : α → α → Prop} {xs : List α}
    (h : ∀ front mid back a b, xs = front ++ a :: (mid ++ b :: back) → R a b) : xs.Pairwise R := by
  induction xs with
  | nil => exact .nil
  | cons x r ih =>
    refine List.pairwise_cons.2 ⟨fun b hb => ?_, ih fun front mid back a b hr => ?_⟩
    · obtain ⟨mid, back, rfl⟩ := List.append_of_mem hb
      exact h [] mid back x b rfl
    · exact h (x :: front) mid back a b (congrArg (x :: ·) hr)

/-- Something applied between two steps of a run leaves the version of the first. -/
theorem version_lt_of_applied (hm : m.KeepsShape) {front mid mid' back : List Step} {a b c : Step}
    (h : trace m limits s calls = front ++ a :: (mid ++ b :: (mid' ++ c :: back))) (hb : b.applied = true) :
    ∃ i j, a = handled m limits a.before i ∧ c = handled m limits c.before j ∧
      a.before.version < c.before.version := by
  have hsplit : front ++ a :: (mid ++ b :: (mid' ++ c :: back)) =
      (front ++ a :: (mid ++ b :: mid')) ++ c :: back := by
    simp
  obtain ⟨i, -, hi, -⟩ := trace_eq_append h
  obtain ⟨j, -, hj, -⟩ := trace_eq_append (h.trans hsplit)
  -- The version counts what has been applied, and the step between is counted for the last alone.
  have ha := version_before hm h
  have hc := version_before hm (h.trans hsplit)
  rw [List.countP_append, List.countP_cons, List.countP_append, List.countP_cons, if_pos hb] at hc
  exact ⟨i, j, hi, hj, by omega⟩

/-- In every run of a session a text is spent as a token once at most. Once it has been spent, or has been found and
something has been applied since, every use of it is refused, with its own version and the current one. -/
theorem token_lifetime (read : CSharp.Parser) (limits : Limits) (s : Session) (calls : List Invocation) (raw : String) :
    (trace (CSharp.model read) limits s calls).Pairwise (fun a b => ¬ (a.Spends raw ∧ b.Spends raw)) ∧
    (∀ (front mid back : List Step) (a b : Step),
      trace (CSharp.model read) limits s calls = front ++ a :: (mid ++ b :: back) → a.Succeeds →
        (a.call? = some (.applyAction raw) → ∃ t, ActionToken.decode raw = .ok t ∧
          (b.UsesAction raw → b.RefusedSince t.version)) ∧
        (a.call? = some (.applyFix raw) → ∃ t, FixToken.decode raw = .ok t ∧
          (b.UsesFix raw → b.RefusedSince t.version))) ∧
    (∀ (front mid mid' back : List Step) (a b c : Step),
      trace (CSharp.model read) limits s calls = front ++ a :: (mid ++ b :: (mid' ++ c :: back)) →
      read.FitsAll a.before.snapshot → a.before.InWords → b.applied = true →
        (a.FindsAction raw → ∃ t, ActionToken.decode raw = .ok t ∧ t.version = a.before.version ∧
          (c.UsesAction raw → c.RefusedSince t.version)) ∧
        (a.FindsFix raw → ∃ t, FixToken.decode raw = .ok t ∧ t.version = a.before.version ∧
          (c.UsesFix raw → c.RefusedSince t.version))) := by
  have hm := CSharp.model_keepsShape read
  refine ⟨?_, fun front mid back a b h hok => ⟨fun ha => ?_, fun ha => ?_⟩,
    fun front mid mid' back a b c h hs hw hb => ⟨fun ha => ?_, fun ha => ?_⟩⟩
  · exact pairwise_of_append fun front mid back a b h hab => not_spends_after_spends hm h hab.1 hab.2
  · obtain ⟨t, ht, -, hrefused⟩ := refused_after_spent_action hm h ha hok
    exact ⟨t, ht, hrefused⟩
  · obtain ⟨t, ht, -, hrefused⟩ := refused_after_spent_fix hm h ha hok
    exact ⟨t, ht, hrefused⟩
  · obtain ⟨i, j, hi, hj, hlt⟩ := version_lt_of_applied hm h hb
    rw [hi] at ha
    obtain ⟨t, ht, hv⟩ := version_of_found_action hs hw ha
    refine ⟨t, ht, hv, fun hc => ?_⟩
    rw [hj] at hc ⊢
    exact refused_of_stale_action ht (hv ▸ hlt) hc
  · obtain ⟨i, j, hi, hj, hlt⟩ := version_lt_of_applied hm h hb
    rw [hi] at ha
    obtain ⟨t, ht, hv⟩ := version_of_found_fix hs hw ha
    refine ⟨t, ht, hv, fun hc => ?_⟩
    rw [hj] at hc ⊢
    exact refused_of_stale_fix ht (hv ▸ hlt) hc

end

/-- The token of the removal that a list offers in a session on one unused local. -/
def unusedLocalToken : String := "v1|1|remove-unused-local|CS0168|25|1|YS5jcw=="

/-- The removal is listed, applied, and then asked for again. -/
def unusedLocalCalls : List Invocation :=
  [⟨"list_fixes", .obj [("path", .str "a.cs")], .never, fun _ => true⟩,
    ⟨"apply_fix", .obj [("token", .str unusedLocalToken)], .never, fun _ => true⟩,
    ⟨"preview_fix", .obj [("token", .str unusedLocalToken)], .never, fun _ => true⟩]

theorem lifetime_on_unusedLocal : ∃ a b c,
    trace (CSharp.model CSharp.parse) {} CSharp.unusedLocal unusedLocalCalls = [a, b, c] ∧
      a.FindsFix unusedLocalToken ∧ b.Spends unusedLocalToken ∧ c.UsesFix unusedLocalToken ∧ c.RefusedSince 1 := by
  have hlisted : (handled (CSharp.model CSharp.parse) {} CSharp.unusedLocal unusedLocalCalls[0]).reply.toOption.any
      (tokensIn "fixes" · == [unusedLocalToken]) = true := by decide +kernel
  have happlied : (handled (CSharp.model CSharp.parse) {}
      (handled (CSharp.model CSharp.parse) {} CSharp.unusedLocal unusedLocalCalls[0]).after
        unusedLocalCalls[1]).applied = true := by decide +kernel
  obtain ⟨a, ha⟩ : ∃ a, a = handled (CSharp.model CSharp.parse) {} CSharp.unusedLocal unusedLocalCalls[0] := ⟨_, rfl⟩
  obtain ⟨b, hb⟩ : ∃ b, b = handled (CSharp.model CSharp.parse) {} a.after unusedLocalCalls[1] := ⟨_, rfl⟩
  obtain ⟨c, hc⟩ : ∃ c, c = handled (CSharp.model CSharp.parse) {} b.after unusedLocalCalls[2] := ⟨_, rfl⟩
  have hrun : trace (CSharp.model CSharp.parse) {} CSharp.unusedLocal unusedLocalCalls =
      [] ++ a :: ([] ++ b :: ([] ++ c :: [])) := by
    rw [hc, hb, ha]
    rfl
  rw [← ha] at hlisted happlied
  rw [← hb] at happlied
  have hfound : a.FindsFix unusedLocalToken := by
    refine ⟨⟨"a.cs", none, by rw [ha]; rfl⟩, ?_⟩
    cases hreply : a.reply with
    | error e =>
      rw [hreply] at hlisted
      cases hlisted
    | ok j =>
      rw [hreply] at hlisted
      have htokens : tokensIn "fixes" j = [unusedLocalToken] := beq_iff_eq.1 hlisted
      exact ⟨j, rfl, htokens ▸ List.mem_cons_self⟩
  have hspent : b.Spends unusedLocalToken := ⟨.inr (by rw [hb]; rfl), succeeds_of_applied happlied⟩
  have hused : c.UsesFix unusedLocalToken := .inl (by rw [hc]; rfl)
  have hfits : CSharp.Parser.FitsAll CSharp.parse a.before.snapshot := by
    rw [ha]
    exact CSharp.unusedLocal_fits
  have hwords : a.before.InWords := by
    rw [ha]
    exact CSharp.unusedLocal_inWords
  obtain ⟨-, -, hlifetime⟩ := token_lifetime CSharp.parse {} CSharp.unusedLocal unusedLocalCalls unusedLocalToken
  obtain ⟨-, hfix⟩ := hlifetime [] [] [] [] a b c hrun hfits hwords happlied
  obtain ⟨t, -, hversion, hrefused⟩ := hfix hfound
  have hone : t.version = 1 := by
    rw [hversion, ha]
    rfl
  exact ⟨a, b, c, hrun, hfound, hspent, hused, hone ▸ hrefused hused⟩

end Workbench.Service
