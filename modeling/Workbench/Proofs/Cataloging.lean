import Mathlib.Data.List.Forall2
import Workbench.CSharp.Tree
import Workbench.CSharp.Model
import Workbench.Proofs.Candidates
import Workbench.Proofs.Tokens

/-!
# Canonical catalogs

A catalog is settled by the candidates that there are: it has those that are
not covered, in the order of their keys, with a token for each. Who offers a
candidate first does not show, nor does a provider that fails.
-/

namespace Workbench

instance Action.transCmp : Std.TransCmp Action.compareKey :=
  inferInstanceAs <| Std.TransCmp <|
    compareLex (compareLex (compareLex (compareLex (compareLex
      (compareOn fun a : Action => a.filePath) (compareOn fun a : Action => a.span.start))
      (compareOn fun a : Action => a.span.length)) (compareOn fun a : Action => a.title))
      (compareOn fun a : Action => a.category)) (compareOn fun a : Action => a.providerKey)

theorem Action.compareKey_eq {a b : Action} : a.compareKey b = .eq ↔ a.filePath = b.filePath ∧ a.span = b.span ∧
    a.title = b.title ∧ a.category = b.category ∧ a.providerKey = b.providerKey := by
  have hspan : a.span = b.span ↔ a.span.start = b.span.start ∧ a.span.length = b.span.length := by
    rw [← Span.mk.injEq]
  simp only [compareKey, Ordering.then_eq_eq, Std.LawfulEqCmp.compare_eq_iff_eq, hspan, and_assoc]

/-! ## What a token tells apart -/

theorem Base64.encodeText_inj {s t : String} (h : encodeText s = encodeText t) : s = t := by
  have hs := congrArg decodeText h
  rw [decodeText_encodeText, decodeText_encodeText] at hs
  exact Option.some.inj hs

theorem Numeral.render_inj {n k : Nat} (h : render n = render k) : n = k := by
  have hdigits := congrArg digitsValue (String.ofList_injective h)
  rwa [digitsValue_toDigits, digitsValue_toDigits] at hdigits

theorem ProviderKey.encode_inj {k l : ProviderKey} (h : k.encode = l.encode) : k = l := by
  have hk := decode_encode k
  rw [h, decode_encode l] at hk
  exact (Option.some.inj hk).symm

theorem ActionToken.key_of_encode {a b : Action} {version : Nat} {profile : String}
    (h : encode a version profile = encode b version profile) :
    a.filePath = b.filePath ∧ a.span = b.span ∧ a.category = b.category ∧ a.providerKey = b.providerKey := by
  have hfields := congrArg (splitOnChar '|') h
  rw [splitOnChar_encode, splitOnChar_encode] at hfields
  simp only [List.cons.injEq] at hfields
  obtain ⟨-, -, -, -, hcategory, hkey, hstart, hlength, hpath, -⟩ := hfields
  have hspan : a.span = b.span := congrArg₂ Span.mk (Numeral.render_inj hstart) (Numeral.render_inj hlength)
  exact ⟨Base64.encodeText_inj hpath, hspan, Base64.encodeText_inj hcategory, Base64.encodeText_inj hkey⟩

/-! ## Candidates at a selection -/

namespace Candidate

/-- A fix belongs to a selection that its diagnostic touches. -/
def Near (span : Span) : Candidate → Prop
  | fix _ d _ => d.span.intersects span = true
  | _ => True

def IsBuiltin : Candidate → Prop
  | builtin .. => True
  | _ => False

/-- Found at a selection: a fix from a provider that lists a diagnostic there, a refactoring, or a builtin. -/
structure Found (m : CodeModel) (s : Snapshot) (path : String) (span : Span) (c : Candidate) : Prop where
  made : c.Made m s path span
  paired : c.Paired
  near : c.Near span

/-- A provider's candidate makes a builtin redundant: same place, and same diagnostic or same title. -/
structure Covers (s : Snapshot) (c b : Candidate) : Prop where
  offered : ¬ c.IsBuiltin
  builtin : b.IsBuiltin
  filePath : (c.action s).filePath = (b.action s).filePath
  span : (c.action s).span = (b.action s).span
  same : (∃ id, (b.action s).diagnosticId = some id ∧ (c.action s).diagnosticId = some id) ∨
    (c.action s).title = (b.action s).title

/-- Found, and not covered by what else is found. -/
def Listed (m : CodeModel) (s : Snapshot) (path : String) (span : Span) (c : Candidate) : Prop :=
  c.Found m s path span ∧ ∀ c' : Candidate, c'.Found m s path span → ¬ c'.Covers s c

section
variable {m : CodeModel} {s : Snapshot} {path : String} {span : Span} {c c' : Candidate}

/-- Candidates with one provider key have one title, unless they are builtins. -/
theorem title_of_key (h : c.key = c'.key) (hbuiltin : ¬ c.IsBuiltin) : (c.action s).title = (c'.action s).title := by
  cases c with
  | fix p d change =>
    cases c' with
    | fix p' d' change' => exact (ProviderKey.codeFix.inj h).2.2.2
    | refactoring p' path' span' change' => cases h
    | builtin path' b' => cases h
  | refactoring p path span change =>
    cases c' with
    | fix p' d' change' => cases h
    | refactoring p' path' span' change' => exact (ProviderKey.refactoring.inj h).2.2
    | builtin path' b' => cases h
  | builtin path b => exact absurd trivial hbuiltin

/-- Two candidates of one token have one key in the catalog where a builtin is known by its kind and span. -/
theorem compareKey_of_token {version : Nat} {profile : String} {bs : List Builtin}
    (hbs : (m.view s).builtins path span = .ok bs)
    (hkinds : ∀ b ∈ bs, ∀ b' ∈ bs, b.kind = b'.kind → b.span = b'.span → b = b')
    (hc : c.Found m s path span) (hc' : c'.Found m s path span)
    (h : ActionToken.encode (c.action s) version profile = ActionToken.encode (c'.action s) version profile) :
    (c.action s).compareKey (c'.action s) = .eq := by
  obtain ⟨hpath, hspan, hcategory, hkeys⟩ := ActionToken.key_of_encode h
  have hkey : c.key = c'.key := ProviderKey.encode_inj (by rwa [← providerKey_action, ← providerKey_action])
  refine Action.compareKey_eq.2 ⟨hpath, hspan, ?_, hcategory, hkeys⟩
  by_cases hbuiltin : c.IsBuiltin
  · cases c with
    | fix p d change => exact hbuiltin.elim
    | refactoring p path span change => exact hbuiltin.elim
    | builtin path b =>
      cases c' with
      | fix p' d' change' => cases hkey
      | refactoring p' path' span' change' => cases hkey
      | builtin path' b' =>
        obtain ⟨-, bs₁, hbs₁, hb⟩ := hc.made
        obtain ⟨-, bs₂, hbs₂, hb'⟩ := hc'.made
        cases hbs.symm.trans hbs₁
        cases hbs.symm.trans hbs₂
        have hsame := hkinds b hb b' hb' (ProviderKey.builtin.inj hkey) hspan
        exact congrArg (fun b : Builtin => b.action.title) hsame
  · exact title_of_key hkey hbuiltin

end

end Candidate

namespace Catalog

/-- Candidates of one key are one action. -/
def KeysTell (m : CodeModel) (s : Snapshot) (path : String) (span : Span) : Prop :=
  ∀ c c' : Candidate, c.Found m s path span → c'.Found m s path span →
    (c.action s).compareKey (c'.action s) = .eq → c.action s = c'.action s

/-! ## Settled lists -/

/-- Equal actions only are of one key. -/
def OnePerKey (as : List Action) : Prop := ∀ a ∈ as, ∀ b ∈ as, a.compareKey b = .eq → a = b

instance (as : List Action) : Decidable (OnePerKey as) :=
  inferInstanceAs (Decidable (∀ a ∈ as, ∀ b ∈ as, a.compareKey b = .eq → a = b))

section
variable {as bs : List Action} {a b : Action}

theorem OnePerKey.subset (h : OnePerKey bs) (hsub : ∀ a, a ∈ as → a ∈ bs) : OnePerKey as :=
  fun a ha b hb => h a (hsub a ha) b (hsub b hb)

theorem settle_strict (as : List Action) : (settle as).Pairwise fun a b => a.compareKey b = .lt :=
  Ordered.dedupBy_strict_of_same (fun _ _ _ _ => beq_iff_eq) (Ordered.pairwise_sorted as)

theorem mem_settle (h : OnePerKey as) : a ∈ settle as ↔ a ∈ as := by
  have hsame : ∀ a ∈ as.mergeSort fun a b => (a.compareKey b).isLE,
      ∀ b ∈ as.mergeSort fun a b => (a.compareKey b).isLE, (a.compareKey b == .eq) = true → a = b :=
    fun a ha b hb he => h a (List.mem_mergeSort.1 ha) b (List.mem_mergeSort.1 hb) (eq_of_beq he)
  exact (Ordered.mem_dedupBy_of_same hsame).trans List.mem_mergeSort

theorem isCovered_iff : isCovered as b = true ↔ ∃ a ∈ as, a.filePath = b.filePath ∧ a.span = b.span ∧
    ((∃ id, b.diagnosticId = some id ∧ a.diagnosticId = some id) ∨ a.title = b.title) := by
  have hid : ∀ a : Action, b.diagnosticId.isSome = true ∧ a.diagnosticId = b.diagnosticId ↔
      ∃ id, b.diagnosticId = some id ∧ a.diagnosticId = some id := by
    intro a
    cases b.diagnosticId <;> simp
  simp only [isCovered, List.any_eq_true, Bool.and_eq_true, Bool.or_eq_true, beq_iff_eq, hid, and_assoc]

theorem isCovered_congr (h : ∀ a, a ∈ as ↔ a ∈ bs) : isCovered as b = isCovered bs b := by
  rw [Bool.eq_iff_iff, isCovered_iff, isCovered_iff]
  simp only [h]

end

/-! ## The candidates as lists -/

/-- All that the providers offer for a selection. -/
def offeredAt (r : Registry) (s : Snapshot) (ds : List Diagnostic) (path : String) (span : Span) : List Action :=
  (ds.filter fun d => d.span.intersects span).flatMap (fixesFor r s) ++ refactoringsFor r s path span

/-- All that is found at a selection. -/
def foundAt (r : Registry) (s : Snapshot) (ds : List Diagnostic) (bs : List Builtin) (path : String) (span : Span) :
    List Action :=
  offeredAt r s ds path span ++ bs.map (ofBuiltin s path)

/-- The same with each source sorted and without repetitions. -/
def settledAt (r : Registry) (s : Snapshot) (ds : List Diagnostic) (path : String) (span : Span) : List Action :=
  settle ((ds.filter fun d => d.span.intersects span).flatMap (fixesFor r s)) ++ settle (refactoringsFor r s path span)

def listedAt (r : Registry) (s : Snapshot) (ds : List Diagnostic) (bs : List Builtin) (path : String) (span : Span) :
    List Action :=
  settle (settledAt r s ds path span ++
    (settle (bs.map (ofBuiltin s path))).filter fun b => !isCovered (settledAt r s ds path span) b)

section
variable {m : CodeModel} {s : Snapshot} {path : String} {span : Span} {a : Action} {r r' : Registry}
  {ds : List Diagnostic} {bs : List Builtin} {as : List Action}

theorem actionsAt_eq (m : CodeModel) (s : Snapshot) (path : String) (span : Span) : actionsAt m s path span =
    m.registry >>= fun r => (m.view s).diagnostics path >>= fun ds => (m.view s).builtins path span >>= fun bs =>
      .ok (listedAt r s ds bs path span) := rfl

theorem actionsAt_eq_ok : actionsAt m s path span = .ok as ↔ ∃ r ds bs, m.registry = .ok r ∧
    (m.view s).diagnostics path = .ok ds ∧ (m.view s).builtins path span = .ok bs ∧
      as = listedAt r s ds bs path span := by
  rw [actionsAt_eq]
  constructor
  · intro h
    obtain ⟨r, hr, h⟩ := Result.bind_eq_ok.1 h
    obtain ⟨ds, hds, h⟩ := Result.bind_eq_ok.1 h
    obtain ⟨bs, hbs, h⟩ := Result.bind_eq_ok.1 h
    cases h
    exact ⟨r, ds, bs, hr, hds, hbs, rfl⟩
  · rintro ⟨r, ds, bs, hr, hds, hbs, rfl⟩
    exact Result.bind_eq_ok.2 ⟨r, hr, Result.bind_eq_ok.2 ⟨ds, hds, Result.bind_eq_ok.2 ⟨bs, hbs, rfl⟩⟩⟩

theorem listedAt_strict : (listedAt r s ds bs path span).Pairwise fun a b => a.compareKey b = .lt := settle_strict _

theorem mem_settledAt (h : OnePerKey (foundAt r s ds bs path span)) :
    a ∈ settledAt r s ds path span ↔ a ∈ offeredAt r s ds path span := by
  have hoffered : OnePerKey (offeredAt r s ds path span) := h.subset fun _ => List.mem_append_left _
  rw [settledAt, offeredAt, List.mem_append, List.mem_append,
    mem_settle (hoffered.subset fun _ => List.mem_append_left _), mem_settle (hoffered.subset fun _ => List.mem_append_right _)]

/-- Nothing is lost by settling, where there is one action for a key. -/
theorem mem_listedAt (h : OnePerKey (foundAt r s ds bs path span)) : a ∈ listedAt r s ds bs path span ↔
    a ∈ offeredAt r s ds path span ++ (bs.map (ofBuiltin s path)).filter fun b =>
      !isCovered (offeredAt r s ds path span) b := by
  have hmem : ∀ a, a ∈ settledAt r s ds path span ++ (settle (bs.map (ofBuiltin s path))).filter (fun b =>
        !isCovered (settledAt r s ds path span) b) ↔
      a ∈ offeredAt r s ds path span ++ (bs.map (ofBuiltin s path)).filter fun b =>
        !isCovered (offeredAt r s ds path span) b := by
    intro a
    rw [List.mem_append, List.mem_append, mem_settledAt h, List.mem_filter, List.mem_filter,
      isCovered_congr fun _ => mem_settledAt h, mem_settle (h.subset fun _ => List.mem_append_right _)]
  rw [listedAt, mem_settle (h.subset fun a ha => ?_), hmem]
  rcases List.mem_append.1 ((hmem a).1 ha) with ha | ha
  · exact List.mem_append_left _ ha
  · exact List.mem_append_right _ (List.mem_filter.1 ha).1

/-- Providers with the same offers lead to the same list. -/
theorem listedAt_congr (h : OnePerKey (foundAt r s ds bs path span))
    (hmem : ∀ a, a ∈ offeredAt r s ds path span ↔ a ∈ offeredAt r' s ds path span) :
    listedAt r s ds bs path span = listedAt r' s ds bs path span := by
  have h' : OnePerKey (foundAt r' s ds bs path span) := by
    refine h.subset fun a ha => ?_
    rw [foundAt, List.mem_append] at ha ⊢
    rwa [hmem]
  refine Ordered.eq_of_strict listedAt_strict listedAt_strict fun a => ?_
  rw [mem_listedAt h, mem_listedAt h', List.mem_append, List.mem_append, hmem, List.mem_filter, List.mem_filter,
    isCovered_congr hmem]

/-! ## The lists as candidates -/

theorem mem_offeredAt (hr : m.registry = .ok r) (hds : (m.view s).diagnostics path = .ok ds) :
    a ∈ offeredAt r s ds path span ↔ ∃ c : Candidate, c.Found m s path span ∧ ¬ c.IsBuiltin ∧ c.action s = a := by
  rw [offeredAt, List.mem_append]
  constructor
  · rintro (h | h)
    · obtain ⟨d, hd, h⟩ := List.mem_flatMap.1 h
      obtain ⟨hd, hnear⟩ := List.mem_filter.1 hd
      obtain ⟨p, hp, hlists, changes, hprovide, change, hmem, rfl⟩ := mem_fixesFor.1 h
      exact ⟨.fix p d change, ⟨⟨r, ds, changes, hr, hp, hds, hd, hprovide, hmem⟩, hlists, hnear⟩, id, rfl⟩
    · obtain ⟨p, hp, changes, hprovide, change, hmem, rfl⟩ := mem_refactoringsFor.1 h
      have hmade : (Candidate.refactoring p path span change).Made m s path span :=
        ⟨rfl, rfl, r, changes, hr, hp, hprovide, hmem⟩
      exact ⟨.refactoring p path span change, ⟨hmade, trivial, trivial⟩, id, rfl⟩
  · rintro ⟨c, hc, hbuiltin, rfl⟩
    cases c with
    | fix p d change =>
      obtain ⟨r', ds', changes, hr', hp, hds', hd, hprovide, hmem⟩ := hc.made
      cases hr.symm.trans hr'
      cases hds.symm.trans hds'
      refine .inl (List.mem_flatMap.2 ⟨d, List.mem_filter.2 ⟨hd, hc.near⟩, mem_fixesFor.2 ?_⟩)
      exact ⟨p, hp, hc.paired, changes, hprovide, change, hmem, rfl⟩
    | refactoring p path' span' change =>
      obtain ⟨rfl, rfl, r', changes, hr', hp, hprovide, hmem⟩ := hc.made
      cases hr.symm.trans hr'
      exact .inr (mem_refactoringsFor.2 ⟨p, hp, changes, hprovide, change, hmem, rfl⟩)
    | builtin path' b => exact absurd trivial hbuiltin

theorem mem_builtinsAt (hbs : (m.view s).builtins path span = .ok bs) : a ∈ bs.map (ofBuiltin s path) ↔
    ∃ c : Candidate, c.Found m s path span ∧ c.IsBuiltin ∧ c.action s = a := by
  rw [List.mem_map]
  constructor
  · rintro ⟨b, hb, rfl⟩
    exact ⟨.builtin path b, ⟨⟨rfl, bs, hbs, hb⟩, trivial, trivial⟩, trivial, rfl⟩
  · rintro ⟨c, hc, hbuiltin, rfl⟩
    cases c with
    | fix p d change => exact hbuiltin.elim
    | refactoring p path' span' change => exact hbuiltin.elim
    | builtin path' b =>
      obtain ⟨rfl, bs', hbs', hb⟩ := hc.made
      cases hbs.symm.trans hbs'
      exact ⟨b, hb, rfl⟩

theorem mem_foundAt (hr : m.registry = .ok r) (hds : (m.view s).diagnostics path = .ok ds)
    (hbs : (m.view s).builtins path span = .ok bs) :
    a ∈ foundAt r s ds bs path span ↔ ∃ c : Candidate, c.Found m s path span ∧ c.action s = a := by
  rw [foundAt, List.mem_append, mem_offeredAt hr hds, mem_builtinsAt hbs]
  constructor
  · rintro (⟨c, hc, -, h⟩ | ⟨c, hc, -, h⟩)
    · exact ⟨c, hc, h⟩
    · exact ⟨c, hc, h⟩
  · rintro ⟨c, hc, h⟩
    by_cases hbuiltin : c.IsBuiltin
    · exact .inr ⟨c, hc, hbuiltin, h⟩
    · exact .inl ⟨c, hc, hbuiltin, h⟩

theorem keysTell_iff (hr : m.registry = .ok r) (hds : (m.view s).diagnostics path = .ok ds)
    (hbs : (m.view s).builtins path span = .ok bs) :
    KeysTell m s path span ↔ OnePerKey (foundAt r s ds bs path span) := by
  constructor
  · intro h a ha b hb he
    obtain ⟨c, hc, rfl⟩ := (mem_foundAt hr hds hbs).1 ha
    obtain ⟨c', hc', rfl⟩ := (mem_foundAt hr hds hbs).1 hb
    exact h c c' hc hc' he
  · intro h c c' hc hc' he
    exact h _ ((mem_foundAt hr hds hbs).2 ⟨c, hc, rfl⟩) _ ((mem_foundAt hr hds hbs).2 ⟨c', hc', rfl⟩) he

theorem isCovered_offeredAt (hr : m.registry = .ok r) (hds : (m.view s).diagnostics path = .ok ds) {c : Candidate}
    (hbuiltin : c.IsBuiltin) : isCovered (offeredAt r s ds path span) (c.action s) = true ↔
      ∃ c' : Candidate, c'.Found m s path span ∧ c'.Covers s c := by
  rw [isCovered_iff]
  constructor
  · rintro ⟨a, ha, hpath, hspan, hsame⟩
    obtain ⟨c', hc', hoffered, rfl⟩ := (mem_offeredAt hr hds).1 ha
    exact ⟨c', hc', hoffered, hbuiltin, hpath, hspan, hsame⟩
  · rintro ⟨c', hc', hcovers⟩
    refine ⟨c'.action s, (mem_offeredAt hr hds).2 ⟨c', hc', hcovers.offered, rfl⟩, ?_⟩
    exact ⟨hcovers.filePath, hcovers.span, hcovers.same⟩

/-- A catalog has the actions of the candidates that are listed. -/
theorem mem_actionsAt (hkeys : KeysTell m s path span) (h : actionsAt m s path span = .ok as) :
    a ∈ as ↔ ∃ c : Candidate, c.Listed m s path span ∧ c.action s = a := by
  obtain ⟨r, ds, bs, hr, hds, hbs, rfl⟩ := actionsAt_eq_ok.1 h
  rw [mem_listedAt ((keysTell_iff hr hds hbs).1 hkeys), List.mem_append, List.mem_filter, mem_offeredAt hr hds,
    mem_builtinsAt hbs, Bool.not_eq_true', ← Bool.not_eq_true]
  constructor
  · rintro (⟨c, hc, hoffered, rfl⟩ | ⟨⟨c, hc, hbuiltin, rfl⟩, hnot⟩)
    · exact ⟨c, ⟨hc, fun c' _ hcovers => hoffered hcovers.builtin⟩, rfl⟩
    · refine ⟨c, ⟨hc, fun c' hc' hcovers => hnot ?_⟩, rfl⟩
      exact (isCovered_offeredAt hr hds hbuiltin).2 ⟨c', hc', hcovers⟩
  · rintro ⟨c, ⟨hc, hnot⟩, rfl⟩
    by_cases hbuiltin : c.IsBuiltin
    · refine .inr ⟨⟨c, hc, hbuiltin, rfl⟩, fun h => ?_⟩
      obtain ⟨c', hc', hcovers⟩ := (isCovered_offeredAt hr hds hbuiltin).1 h
      exact hnot c' hc' hcovers
    · exact .inl ⟨c, hc, hbuiltin, rfl⟩

theorem actionsAt_strict (h : actionsAt m s path span = .ok as) : as.Pairwise fun a b => a.compareKey b = .lt := by
  obtain ⟨r, ds, bs, -, -, -, rfl⟩ := actionsAt_eq_ok.1 h
  exact listedAt_strict

end

end Catalog

/-! ## Who offers first -/

/-- Answers with the same elements in some order; a failure is like no elements. -/
inductive SameOffers {α : Type} : Result (List α) → Result (List α) → Prop
  | shuffled {xs ys : List α} (h : xs.Perm ys) : SameOffers (.ok xs) (.ok ys)
  | failed (why why' : Fault) : SameOffers (.error why) (.error why')
  | emptied (why : Fault) : SameOffers (.error why) (.ok [])
  | filled (why : Fault) : SameOffers (.ok []) (.error why)

structure FixProvider.Like (s : Snapshot) (p p' : FixProvider) : Prop where
  typeName : p.typeName = p'.typeName
  fixable : p.fixable.Perm p'.fixable
  provide : ∀ d, SameOffers (p.provide s d) (p'.provide s d)

structure RefactoringProvider.Like (s : Snapshot) (p p' : RefactoringProvider) : Prop where
  typeName : p.typeName = p'.typeName
  provide : ∀ path span, SameOffers (p.provide s path span) (p'.provide s path span)

/-- The providers of one registry stand in another order in the other, and each has the same offers. -/
structure Registry.Like (s : Snapshot) (r r' : Registry) : Prop where
  fixes : ∃ ps, ps.Perm r.fixes ∧ List.Forall₂ (FixProvider.Like s) ps r'.fixes
  refactorings : ∃ ps, ps.Perm r.refactorings ∧ List.Forall₂ (RefactoringProvider.Like s) ps r'.refactorings

/-- Two models that find the same in a snapshot, with providers that have the same offers. -/
structure CodeModel.Like (s : Snapshot) (m m' : CodeModel) : Prop where
  diagnostics : (m.view s).diagnostics = (m'.view s).diagnostics
  builtins : (m.view s).builtins = (m'.view s).builtins
  registry : (∃ why, m.registry = .error why ∧ m'.registry = .error why) ∨
    ∃ r r', m.registry = .ok r ∧ m'.registry = .ok r' ∧ r.Like s r'

namespace Catalog

section
variable {m m' : CodeModel} {s : Snapshot} {path : String} {span : Span} {a : Action} {r r' : Registry}
  {d : Diagnostic} {ds : List Diagnostic} {bs : List Builtin} {as : List Action}

theorem mem_orNone_iff {α : Type} {x y : Result (List α)} (h : SameOffers x y) (e : α) :
    e ∈ orNone x ↔ e ∈ orNone y := by
  cases h with
  | shuffled h => exact h.mem_iff
  | failed => exact Iff.rfl
  | emptied => exact Iff.rfl
  | filled => exact Iff.rfl

/-- Lists that are alike up to order have the same images where alike elements have the same. -/
theorem mem_flatMap_congr {α β : Type} {R : α → α → Prop} {f g : α → List β} {xs ys : List α} {b : β}
    (h : ∃ zs, zs.Perm xs ∧ List.Forall₂ R zs ys) (hf : ∀ x y, R x y → (b ∈ f x ↔ b ∈ g y)) :
    b ∈ xs.flatMap f ↔ b ∈ ys.flatMap g := by
  obtain ⟨zs, hperm, hlike⟩ := h
  rw [← (hperm.flatMap_right f).mem_iff]
  clear hperm
  induction hlike with
  | nil => simp
  | cons hxy _ ih => rw [List.flatMap_cons, List.flatMap_cons, List.mem_append, List.mem_append, ih, hf _ _ hxy]

theorem fixesFor_eq (r : Registry) (s : Snapshot) (d : Diagnostic) : fixesFor r s d = r.fixes.flatMap fun p =>
    if d.id ∈ p.fixable then (orNone (p.provide s d)).map (ofFix p.typeName d) else [] := by
  rw [fixesFor, Registry.fixProvidersFor]
  induction r.fixes with
  | nil => rfl
  | cons p ps ih =>
    by_cases hlists : d.id ∈ p.fixable
    · rw [List.filter_cons_of_pos (by simpa using hlists), List.flatMap_cons, List.flatMap_cons, ih, if_pos hlists]
    · rw [List.filter_cons_of_neg (by simpa using hlists), List.flatMap_cons, ih, if_neg hlists, List.nil_append]

theorem mem_fixesFor_congr (h : r.Like s r') : a ∈ fixesFor r s d ↔ a ∈ fixesFor r' s d := by
  rw [fixesFor_eq, fixesFor_eq]
  refine mem_flatMap_congr h.fixes fun p p' hp => ?_
  rw [hp.typeName]
  by_cases hlists : d.id ∈ p.fixable
  · rw [if_pos hlists, if_pos (hp.fixable.mem_iff.1 hlists)]
    simp only [List.mem_map, mem_orNone_iff (hp.provide d)]
  · rw [if_neg hlists, if_neg (mt hp.fixable.mem_iff.2 hlists)]

theorem mem_refactoringsFor_congr (h : r.Like s r') :
    a ∈ refactoringsFor r s path span ↔ a ∈ refactoringsFor r' s path span := by
  refine mem_flatMap_congr h.refactorings fun p p' hp => ?_
  rw [hp.typeName]
  simp only [List.mem_map, mem_orNone_iff (hp.provide path span)]

/-- Like registries offer the same. -/
theorem mem_offeredAt_congr (h : r.Like s r') : a ∈ offeredAt r s ds path span ↔ a ∈ offeredAt r' s ds path span := by
  simp only [offeredAt, List.mem_append, List.mem_flatMap, mem_fixesFor_congr h, mem_refactoringsFor_congr h]

theorem actionsAt_congr (hkeys : KeysTell m s path span) (h : m.Like s m') :
    actionsAt m' s path span = actionsAt m s path span := by
  rw [actionsAt_eq, actionsAt_eq, ← h.diagnostics, ← h.builtins]
  rcases h.registry with ⟨why, hr, hr'⟩ | ⟨r, r', hr, hr', hlike⟩
  · rw [hr, hr']
  · rw [hr, hr']
    cases hds : (m.view s).diagnostics path with
    | error why => rfl
    | ok ds =>
      cases hbs : (m.view s).builtins path span with
      | error why => rfl
      | ok bs =>
        have hlisted := listedAt_congr ((keysTell_iff hr hds hbs).1 hkeys) fun _ => mem_offeredAt_congr hlike
        exact congrArg Except.ok hlisted.symm

end

/-! ## Catalogs -/

section
variable {m : CodeModel} {s : Snapshot} {path : String} {span : Span} {version : Nat} {q : ActionQuery}

theorem ofSnapshot_of_selection (h : selection s q = .ok (path, span)) : ofSnapshot m s version q =
    (actionsAt m s path span).map fun as =>
      ⟨version, q.profile.getD Action.defaultProfile, path,
        as.map (entry version (q.profile.getD Action.defaultProfile))⟩ := by
  unfold ofSnapshot
  rw [h]

theorem map_action_entry (version : Nat) (profile : String) (as : List Action) :
    (as.map (entry version profile)).map (·.action) = as := by
  rw [List.map_map]
  exact List.map_id _

/-- The tokens of a catalog are different where a builtin is known by its kind and span. -/
theorem nodup_tokens {as : List Action} {profile : String} {bs : List Builtin} (hkeys : KeysTell m s path span)
    (has : actionsAt m s path span = .ok as) (hbs : (m.view s).builtins path span = .ok bs)
    (hkinds : ∀ b ∈ bs, ∀ b' ∈ bs, b.kind = b'.kind → b.span = b'.span → b = b') :
    ((as.map (entry version profile)).map (·.token)).Nodup := by
  rw [List.map_map]
  refine List.pairwise_map.2 ((actionsAt_strict has).imp_of_mem fun {a b} ha hb hlt htoken => ?_)
  obtain ⟨c, ⟨hc, -⟩, rfl⟩ := (mem_actionsAt hkeys has).1 ha
  obtain ⟨c', ⟨hc', -⟩, rfl⟩ := (mem_actionsAt hkeys has).1 hb
  cases (Candidate.compareKey_of_token hbs hkinds hc hc' htoken).symm.trans hlt

/-- A catalog is settled by the candidates that there are. -/
theorem catalog_canonical (hselection : selection s q = .ok (path, span)) (hkeys : KeysTell m s path span) :
    ((∃ c, ofSnapshot m s version q = .ok c) ↔ (∃ r, m.registry = .ok r) ∧
      (∃ ds, (m.view s).diagnostics path = .ok ds) ∧ ∃ bs, (m.view s).builtins path span = .ok bs) ∧
    (∀ c, ofSnapshot m s version q = .ok c →
      ((c.actions.map (·.action)).Pairwise fun a b => a.compareKey b = .lt) ∧
      (∀ a, a ∈ c.actions.map (·.action) ↔ ∃ k : Candidate, k.Listed m s path span ∧ k.action s = a) ∧
      ((∀ bs, (m.view s).builtins path span = .ok bs →
          ∀ b ∈ bs, ∀ b' ∈ bs, b.kind = b'.kind → b.span = b'.span → b = b') → (c.actions.map (·.token)).Nodup)) ∧
    ∀ m', m.Like s m' → ofSnapshot m' s version q = ofSnapshot m s version q := by
  refine ⟨?_, fun c hc => ?_, fun m' hlike => ?_⟩
  · rw [ofSnapshot_of_selection hselection]
    constructor
    · rintro ⟨c, hc⟩
      obtain ⟨as, has, -⟩ := Result.map_eq_ok.1 hc
      obtain ⟨r, ds, bs, hr, hds, hbs, -⟩ := actionsAt_eq_ok.1 has
      exact ⟨⟨r, hr⟩, ⟨ds, hds⟩, bs, hbs⟩
    · rintro ⟨⟨r, hr⟩, ⟨ds, hds⟩, bs, hbs⟩
      exact ⟨_, Result.map_eq_ok.2 ⟨_, actionsAt_eq_ok.2 ⟨r, ds, bs, hr, hds, hbs, rfl⟩, rfl⟩⟩
  · rw [ofSnapshot_of_selection hselection] at hc
    obtain ⟨as, has, rfl⟩ := Result.map_eq_ok.1 hc
    obtain ⟨-, -, bs, -, -, hbs, -⟩ := actionsAt_eq_ok.1 has
    refine ⟨?_, fun a => ?_, fun hkinds => nodup_tokens hkeys has hbs (hkinds bs hbs)⟩
    · rw [map_action_entry]
      exact actionsAt_strict has
    · rw [map_action_entry]
      exact mem_actionsAt hkeys has
  · rw [ofSnapshot_of_selection hselection, ofSnapshot_of_selection hselection, actionsAt_congr hkeys hlike]

end

/-- Offers the changes, whatever the diagnostic. -/
def titled (typeName : String) (offers : Result (List String)) : FixProvider where
  typeName := typeName
  fixable := ["X1"]
  provide _ _ := offers.map fun titles => titles.map fun title => ⟨title, "key", []⟩

/-- Two diagnostics of which the second is out of reach, and two builtins of which the first is covered. -/
def offering (fixes : List FixProvider) : CodeModel where
  view s := { CSharp.view CSharp.parse s with
    diagnostics := fun path => .ok <| [⟨0, 2⟩, ⟨4, 1⟩].map fun span =>
      ⟨"X1", "marked", .info, .ofSpan path "abcdef".toList span⟩
    builtins := fun _ _ => .ok [⟨.useInferredType, none, ⟨0, 2⟩, "a", ⟨"Mark", "key", []⟩⟩,
      ⟨.useInferredType, none, ⟨1, 2⟩, "b", ⟨"Mark", "key", []⟩⟩] }
  registry := .ok ⟨fixes, [⟨"Turning", fun _ _ _ => .ok [⟨"Turn", "key", []⟩]⟩]⟩

def marked : Snapshot := Snapshot.empty.addDocument "App" "a.cs" "abcdef" none

/-- A provider that repeats itself before one that fails, and the two the other way round. -/
theorem catalog_canonical_offering :
    let m := offering [titled "Marks" (.ok ["Note", "Mark", "Note"]), titled "Fails" (.error .cancelled)]
    let m' := offering [titled "Fails" (.ok []), titled "Marks" (.ok ["Mark", "Note", "Note"])]
    let q : ActionQuery := { path := "a.cs", line := 1, column := 1, endLine := some 1, endColumn := some 3 }
    selection marked q = .ok ("a.cs", ⟨0, 2⟩) ∧ KeysTell m marked "a.cs" ⟨0, 2⟩ ∧ m.Like marked m' ∧
      ∃ c, ofSnapshot m' marked 7 q = .ok c ∧ ofSnapshot m marked 7 q = .ok c ∧
        c.actions.map (fun e => (e.action.title, e.action.span)) =
          [("Mark", ⟨0, 2⟩), ("Note", ⟨0, 2⟩), ("Turn", ⟨0, 2⟩), ("Mark", ⟨1, 2⟩)] ∧
        (c.actions.map (·.token)).Nodup := by
  intro m m' q
  have hselection : selection marked q = .ok ("a.cs", ⟨0, 2⟩) := by decide +kernel
  have hkeys : KeysTell m marked "a.cs" ⟨0, 2⟩ := (keysTell_iff rfl rfl rfl).2 (by decide +kernel)
  have hlike : m.Like marked m' := by
    refine ⟨rfl, rfl, .inr ⟨_, _, rfl, rfl, ⟨_, List.Perm.swap _ _ _, ?_⟩, ⟨_, List.Perm.refl _, ?_⟩⟩⟩
    · have hperm : ["Note", "Mark", "Note"].Perm ["Mark", "Note", "Note"] := List.Perm.swap _ _ _
      refine .cons ⟨rfl, List.Perm.refl _, fun d => .emptied _⟩ (.cons ⟨rfl, List.Perm.refl _, fun d => ?_⟩ .nil)
      exact .shuffled (hperm.map _)
    · exact .cons ⟨rfl, fun path span => .shuffled (List.Perm.refl _)⟩ .nil
  obtain ⟨hreturns, hcatalog, hsame⟩ := @catalog_canonical m marked "a.cs" ⟨0, 2⟩ 7 q hselection hkeys
  obtain ⟨c, hc⟩ := hreturns.2 ⟨⟨_, rfl⟩, ⟨_, rfl⟩, _, rfl⟩
  obtain ⟨hstrict, -, htokens⟩ := hcatalog c hc
  refine ⟨hselection, hkeys, hlike, c, (hsame m' hlike).trans hc, hc, ?_, htokens ?_⟩
  · let d : Diagnostic := ⟨"X1", "marked", .info, .ofSpan "a.cs" "abcdef".toList ⟨0, 2⟩⟩
    have hactions : c.actions.map (·.action) = [ofFix "Marks" d ⟨"Mark", "key", []⟩, ofFix "Marks" d ⟨"Note", "key", []⟩,
        ofRefactoring marked "Turning" "a.cs" ⟨0, 2⟩ ⟨"Turn", "key", []⟩,
        ofBuiltin marked "a.cs" ⟨.useInferredType, none, ⟨1, 2⟩, "b", ⟨"Mark", "key", []⟩⟩] := by
      refine Ordered.eq_of_strict hstrict (by decide +kernel) fun a => ?_
      obtain ⟨as, has, rfl⟩ := Result.map_eq_ok.1 ((ofSnapshot_of_selection hselection).symm.trans hc)
      cases has
      rw [map_action_entry]
      refine (mem_listedAt ((keysTell_iff rfl rfl rfl).1 hkeys)).trans ?_
      constructor
      · revert a
        decide +kernel
      · revert a
        decide +kernel
    have hviews := congrArg (List.map fun a : Action => (a.title, a.span)) hactions
    rwa [List.map_map] at hviews
  · intro bs hbs
    cases hbs
    decide

end Catalog

end Workbench
