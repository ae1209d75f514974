import Mathlib.Data.List.Nodup
import Workbench.CSharp.Model
import Workbench.CSharp.Tree
import Workbench.Proofs.Extents
import Workbench.Proofs.Neighborhood
import Workbench.Proofs.Resolving

/-!
# Callers and call sites

Callers are found by the start of a call, in the smallest declaration around
it; call sites by the whole span of a call, in any declaration of a symbol.
Where ranges nest, both are views of one relation.
-/

namespace Workbench.CSharp

/-! ## What is assumed -/

/-- A parser whose trees for a snapshot have ranges that nest, and calls without member declarations in them. -/
structure Parser.Nested (read : Parser) (s : Snapshot) : Prop where
  nests : ∀ d ∈ s.documents, (read d.text).nests
  plain : ∀ d ∈ s.documents, ∀ call ∈ (read d.text).descendantsOf callKinds,
    ∀ n ∈ call.descendants, n.kind.isMemberDeclaration = false

/-- Declarations of different kinds never share an id. -/
def IdsTellKinds (ds : List Declared) : Prop := ∀ d ∈ ds, ∀ d' ∈ ds, d.id = d'.id → d.kind = d'.kind

namespace Compilation

/-- The same for a compilation, whose files are told apart by their paths. -/
structure Nested (c : Compilation) : Prop where
  index : c.index = .build (c.files.flatMap declarations)
  paths : ∀ f ∈ c.files, ∀ f' ∈ c.files, f.path = f'.path → f = f'
  nests : ∀ f ∈ c.files, f.root.nests
  plain : ∀ f ∈ c.files, ∀ call ∈ f.root.descendantsOf callKinds, ∀ n ∈ call.descendants,
    n.kind.isMemberDeclaration = false
  kinds : IdsTellKinds (c.files.flatMap declarations)

/-- The files of a snapshot are told apart by their paths. -/
theorem paths_ofSnapshot (read : Parser) (s : Snapshot) : ∀ f ∈ (ofSnapshot read s).files,
    ∀ f' ∈ (ofSnapshot read s).files, f.path = f'.path → f = f' := by
  intro f hf f' hf' hp
  obtain ⟨d, hd, rfl⟩ := List.mem_map.1 hf
  obtain ⟨d', hd', rfl⟩ := List.mem_map.1 hf'
  have hdoc := Ordered.find?_of_mem s.documents_ascending hd
  have hdoc' := Ordered.find?_of_mem s.documents_ascending hd'
  have hpath : d.path = d'.path := hp
  rw [hpath, hdoc'] at hdoc
  cases hdoc
  rfl

theorem nested_ofSnapshot {read : Parser} {s : Snapshot} (h : read.Nested s)
    (hk : IdsTellKinds ((ofSnapshot read s).files.flatMap declarations)) : (ofSnapshot read s).Nested where
  index := rfl
  paths := paths_ofSnapshot read s
  nests f hf := by
    obtain ⟨d, hd, rfl⟩ := List.mem_map.1 hf
    exact h.nests d hd
  plain f hf := by
    obtain ⟨d, hd, rfl⟩ := List.mem_map.1 hf
    exact h.plain d hd
  kinds := hk

end Compilation

/-! ## The smallest declaration around a place -/

section
variable {ix : SymbolIndex} {path : String} {offset : Nat} {kinds : List SymbolKind} {x : Symbol}

/-- A symbol has a declaration in the file around the place. -/
def Around (path : String) (offset : Nat) (s : Symbol) : Prop :=
  ∃ site ∈ s.declarations, site.location.path = path ∧ site.extent.holds offset

theorem tightest?_isSome : (∃ n, SymbolIndex.tightest? path offset x = some n) ↔ Around path offset x := by
  rw [← Option.isSome_iff_exists, SymbolIndex.tightest?, List.isSome_min?_iff]
  simp [Around, List.filter_eq_nil_iff]

theorem mem_around {c : Nat × Symbol} (h : c ∈ ix.around path offset kinds) :
    c.2 ∈ ix.symbols ∧ kinds.contains c.2.kind ∧ Around path offset c.2 := by
  obtain ⟨s, hs, hc⟩ := List.mem_filterMap.1 h
  obtain ⟨n, hn, rfl⟩ := Option.map_eq_some_iff.1 hc
  obtain ⟨hmem, hkind⟩ := List.mem_filter.1 hs
  exact ⟨hmem, hkind, tightest?_isSome.1 ⟨n, hn⟩⟩

theorem mem_of_shorter {cs : List (Nat × Symbol)} {best r} (h : cs.foldl SymbolIndex.shorter best = some r) :
    r ∈ cs ∨ best = some r := by
  induction cs generalizing best with
  | nil => exact .inr h
  | cons c rest ih =>
    rcases ih h with hr | hr
    · exact .inl (List.mem_cons_of_mem c hr)
    · unfold SymbolIndex.shorter at hr
      split at hr
      · cases hr
        exact .inl List.mem_cons_self
      · split at hr
        · cases hr
          exact .inl List.mem_cons_self
        · exact .inr hr

theorem shorter_isSome {cs : List (Nat × Symbol)} {best : Option (Nat × Symbol)} (h : best.isSome) :
    (cs.foldl SymbolIndex.shorter best).isSome := by
  induction cs generalizing best with
  | nil => exact h
  | cons c rest ih =>
    refine ih ?_
    unfold SymbolIndex.shorter
    split
    · rfl
    · split <;> rfl

theorem enclosing_spec (h : ix.enclosing path offset kinds = some x) :
    x ∈ ix.symbols ∧ kinds.contains x.kind ∧ Around path offset x := by
  obtain ⟨c, hc, rfl⟩ := Option.map_eq_some_iff.1 h
  rcases mem_of_shorter hc with hc | hc
  · exact mem_around hc
  · cases hc

/-- A symbol around the place encloses it when no other one does. -/
theorem enclosing_eq (hx : x ∈ ix.symbols) (hkind : kinds.contains x.kind) (haround : Around path offset x)
    (hone : ∀ s ∈ ix.symbols, kinds.contains s.kind → Around path offset s → s = x) :
    ix.enclosing path offset kinds = some x := by
  obtain ⟨n, hn⟩ := tightest?_isSome.2 haround
  have hmem : (n, x) ∈ ix.around path offset kinds :=
    List.mem_filterMap.2 ⟨x, List.mem_filter.2 ⟨hx, hkind⟩, by rw [hn]; rfl⟩
  have hsome : (ix.enclosing path offset kinds).isSome := by
    rw [SymbolIndex.enclosing, Option.isSome_map]
    cases hall : ix.around path offset kinds with
    | nil =>
      rw [hall] at hmem
      cases hmem
    | cons c rest =>
      have hfirst : (rest.foldl SymbolIndex.shorter (some c)).isSome := shorter_isSome rfl
      exact hfirst
  obtain ⟨s, hs⟩ := Option.isSome_iff_exists.1 hsome
  obtain ⟨hmem, hkind, haround⟩ := enclosing_spec hs
  rw [hs, hone s hmem hkind haround]

end

/-! ## The two sides of the list of calls -/

theorem mem_callers {ix : SymbolIndex} {calls : List ResolvedCall} {s : Symbol} {x : String} {l : Location} :
    ⟨x, l⟩ ∈ callers ix calls s ↔
      ∃ call ∈ calls, call.callee = s.id ∧ call.location = l ∧
        ∃ m, ix.enclosing call.path call.span.start callerKinds = some m ∧ m.id = x := by
  simp only [callers, Ordered.mem_settled, List.mem_filterMap, List.mem_filter, beq_iff_eq, Option.map_eq_some_iff,
    CallerRef.mk.injEq]
  constructor
  · rintro ⟨call, ⟨hc, hs⟩, m, hm, hx, hl⟩
    exact ⟨call, hc, hs, hl, m, hm, hx⟩
  · rintro ⟨call, hc, hs, hl, m, hm, hx⟩
    exact ⟨call, ⟨hc, hs⟩, m, hm, hx, hl⟩

theorem mem_callSites {calls : List ResolvedCall} {s : Symbol} {y : String} {l : Location} :
    ⟨y, l⟩ ∈ callSites calls s ↔
      ∃ call ∈ calls, call.callee = y ∧ call.location = l ∧
        ∃ d ∈ s.declarations, d.location.path = call.path ∧ d.extent.contains call.span := by
  simp only [callSites, Ordered.mem_settled, List.mem_map, List.mem_filter, List.any_eq_true, Bool.and_eq_true,
    beq_iff_eq, CallSite.mk.injEq]
  constructor
  · rintro ⟨call, ⟨hc, hd⟩, hy, hl⟩
    exact ⟨call, hc, hy, hl, hd⟩
  · rintro ⟨call, hc, hy, hl, hd⟩
    exact ⟨call, ⟨hc, hd⟩, hy, hl⟩

namespace Compilation

section
variable {c : Compilation} (h : c.Nested)
include h

/-! ## Where places and calls come from -/

/-- A place of a symbol is that of a declaration of its kind in one file. -/
theorem Nested.site_origin {x : Symbol} {site : DeclarationSite} (hx : x ∈ c.index.symbols)
    (hsite : site ∈ x.declarations) : ∃ f ∈ c.files, ∃ d ∈ declarations f,
      d.id = x.id ∧ d.kind = x.kind ∧ site.location.path = f.path ∧ site.extent = d.extent := by
  rw [h.index] at hx
  have hgathered := SymbolIndex.gathered_build hx
  obtain ⟨first, hfirst, hfirstid, hfirstkind, -⟩ := hgathered.named
  obtain ⟨d, hd, hid, rfl⟩ := hgathered.placed site hsite
  obtain ⟨f, hf, hdf⟩ := List.mem_flatMap.1 hd
  obtain ⟨m, -, hm⟩ := (declarations_spec (h.nests f hf)).1 d hdf
  exact ⟨f, hf, d, hdf, hid, (h.kinds d hd first hfirst (hid.trans hfirstid.symm)).trans hfirstkind, hm.path, rfl⟩

theorem Nested.name_ne_empty {x : Symbol} (hx : x ∈ c.index.symbols) (hk : x.kind = .method) : x.name ≠ "" := by
  rw [h.index] at hx
  obtain ⟨d, hd, -, hkind, hname⟩ := (SymbolIndex.gathered_build hx).named
  obtain ⟨f, hf, hdf⟩ := List.mem_flatMap.1 hd
  obtain ⟨m, -, hm⟩ := (declarations_spec (h.nests f hf)).1 d hdf
  exact hname ▸ hm.named (hkind.trans hk)

/-- A resolved call is a node of one file that covers something. -/
theorem Nested.call_origin {call : ResolvedCall} (hcall : call ∈ c.calls) : ∃ f ∈ c.files,
    ∃ n ∈ f.root.descendantsOf callKinds, call.path = f.path ∧ call.span = n.span ∧ n.start < n.stop := by
  obtain ⟨f, hf, hcall⟩ := List.mem_flatMap.1 hcall
  obtain ⟨x, hx, hresolved⟩ := List.mem_filterMap.1 hcall
  obtain ⟨⟨callee, name⟩, hresolve, rfl⟩ := Option.map_eq_some_iff.1 hresolved
  obtain ⟨hfoci, hkind⟩ := List.mem_filter.1 hx
  have hbelow : x.node ∈ f.root.descendants := List.mem_map.2 ⟨x, hfoci, rfl⟩
  have hnests := Node.nests_of_mem_descendants (h.nests f hf) hbelow
  refine ⟨f, hf, x.node, List.mem_filter.2 ⟨hbelow, hkind⟩, rfl, rfl, ?_⟩
  unfold resolve at hresolve
  split at hresolve
  · obtain ⟨hmem, hmethod, hname, hwithin⟩ := resolveInvocation_spec hnests hresolve
    exact start_lt_stop_of_within hwithin (hname ▸ h.name_ne_empty hmem hmethod)
  · obtain ⟨written, hword, hwithin⟩ := resolveCreation_spec hnests hresolve
    exact start_lt_stop_of_within hwithin hword
  · cases hresolve

/-! ## Extents and calls -/

variable {f : SourceFile} {d d' : Declared} {n : Node}

/-- A declaration around the start of a call has the whole call in it, since no call has a member in it. -/
theorem Nested.contains_of_holds (hf : f ∈ c.files) (hd : d ∈ declarations f) (hk : callerKinds.contains d.kind)
    (hn : n ∈ f.root.descendantsOf callKinds) (hholds : d.extent.holds n.start) : d.extent.contains n.span := by
  obtain ⟨m, hm, hdm⟩ := (declarations_spec (h.nests f hf)).1 d hd
  have hbelow := (List.mem_filter.1 hn).1
  have hroot := h.nests f hf
  have hmstop := Node.stop_span_of_nests (Node.nests_of_mem_descendants hroot hm)
  have hnstop := Node.stop_span_of_nests (Node.nests_of_mem_descendants hroot hbelow)
  simp only [hdm.extent, Span.holds, Span.contains, Node.start_span, hmstop, hnstop, Bool.and_eq_true,
    decide_eq_true_eq] at hholds ⊢
  rcases Node.below_or_apart hroot hm hbelow with hmn | hnm | hapart
  · -- The declaration would stand inside the call.
    have hplain := h.plain f hf n hn m hmn
    rw [hdm.member hk] at hplain
    cases hplain
  · exact ⟨hholds.1, (Node.within_of_mem_descendants (Node.nests_of_mem_descendants hroot hm) hnm).stop⟩
  · -- Only a call of no length can begin in a declaration that it is apart from.
    have hrange := (Node.nests_iff.1 (Node.nests_of_mem_descendants hroot hbelow)).1
    simp only [Node.apart, Bool.or_eq_true, decide_eq_true_eq] at hapart
    exact ⟨hholds.1, by omega⟩

/-- Around one byte of a file there is one declaration that can have calls, fields apart. -/
theorem Nested.eq_of_holds {offset : Nat} (hf : f ∈ c.files) (hd : d ∈ declarations f) (hd' : d' ∈ declarations f)
    (hk : callerKinds.contains d.kind) (hk' : callerKinds.contains d'.kind) (hfield : d.kind ≠ .field)
    (hholds : d.extent.holds offset) (hholds' : d'.extent.holds offset) : d = d' := by
  have : Std.Symm Separate := ⟨fun _ _ h => h.symm⟩
  refine Decidable.byContradiction fun hne => ?_
  have hseparate := (declarations_spec (h.nests f hf)).2.forall hd hd' hne
  simp only [Span.holds, Bool.and_eq_true, decide_eq_true_eq] at hholds hholds'
  rcases hseparate hk hk' with ⟨hdf, -⟩ | hapart
  · exact hfield hdf
  · omega

/-! ## One relation -/

theorem Nested.callSites_of_callers {x y : Symbol} {l : Location} (hx : x ∈ c.index.symbols)
    (hcallers : ⟨x.id, l⟩ ∈ callers c.index c.calls y) : ⟨y.id, l⟩ ∈ callSites c.calls x := by
  obtain ⟨call, hcall, hcallee, hl, m, hm, hid⟩ := mem_callers.1 hcallers
  obtain ⟨hmem, hkind, site, hsite, hpath, hholds⟩ := enclosing_spec hm
  obtain rfl := SymbolIndex.eq_of_id hmem hx hid
  obtain ⟨f, hf, d, hd, -, hdkind, hdpath, hextent⟩ := h.site_origin hmem hsite
  obtain ⟨f', hf', n, hn, hcallpath, hspan, -⟩ := h.call_origin hcall
  obtain rfl := h.paths f hf f' hf' (by rw [← hdpath, hpath, hcallpath])
  refine mem_callSites.2 ⟨call, hcall, hcallee, hl, site, hsite, hpath, ?_⟩
  rw [hspan] at hholds ⊢
  rw [hextent] at hholds ⊢
  exact h.contains_of_holds hf hd (hdkind ▸ hkind) hn hholds

theorem Nested.callers_of_callSites {x y : Symbol} {l : Location} (hx : x ∈ c.index.symbols)
    (hkind : x.kind ∈ [SymbolKind.method, .constructor, .property])
    (hsites : ⟨y.id, l⟩ ∈ callSites c.calls x) : ⟨x.id, l⟩ ∈ callers c.index c.calls y := by
  obtain ⟨call, hcall, hcallee, hl, site, hsite, hpath, hcontains⟩ := mem_callSites.1 hsites
  obtain ⟨f, hf, d, hd, hdid, hdkind, hdpath, hextent⟩ := h.site_origin hx hsite
  obtain ⟨f', hf', n, hn, hcallpath, hspan, hlt⟩ := h.call_origin hcall
  obtain rfl := h.paths f hf f' hf' (by rw [← hdpath, hpath, hcallpath])
  have hholds : site.extent.holds call.span.start := by
    -- A call covers something, so a declaration that contains it holds its start.
    have hnests := Node.nests_of_mem_descendants (h.nests f hf) (List.mem_filter.1 hn).1
    simp only [hspan, Span.contains, Span.holds, Node.start_span, Node.stop_span_of_nests hnests, Bool.and_eq_true,
      decide_eq_true_eq] at hcontains ⊢
    omega
  have hcaller : callerKinds.contains x.kind ∧ x.kind ≠ .field := by
    simp only [List.mem_cons, List.not_mem_nil, or_false] at hkind
    rcases hkind with hk | hk | hk <;> exact ⟨hk ▸ rfl, hk ▸ nofun⟩
  refine mem_callers.2 ⟨call, hcall, hcallee, hl, x, ?_, rfl⟩
  refine enclosing_eq hx hcaller.1 ⟨site, hsite, hpath, hholds⟩ fun s hs hskind ⟨site', hsite', hpath', hholds'⟩ => ?_
  obtain ⟨f', hf', d', hd', hdid', hdkind', hdpath', hextent'⟩ := h.site_origin hs hsite'
  obtain rfl := h.paths f hf f' hf' (by rw [← hdpath, hpath, ← hdpath', hpath'])
  have hone : d = d' := h.eq_of_holds hf hd hd' (hdkind ▸ hcaller.1) (hdkind' ▸ hskind) (hdkind ▸ hcaller.2)
    (hextent ▸ hholds) (hextent' ▸ hholds')
  exact SymbolIndex.eq_of_id hs hx (by rw [← hdid', ← hone, hdid])

end

end Compilation

/-! ## Call graphs -/

theorem view_answers (read : Parser) (s : Snapshot) :
    CallGraph.Answers ((model read).view s) (Compilation.ofSnapshot read s).index :=
  ⟨fun _ _ => ⟨_, rfl⟩, fun _ _ => ⟨_, rfl⟩⟩

/-- Callers and call sites agree for any parser whose ranges nest: what calls a symbol has a call site for it, and a
method, constructor or property with a call site is a caller. So each edge of a graph of callers is an edge of any
graph of what its source calls. -/
theorem callers_agree_callSites (read : Parser) (s : Snapshot) (hn : read.Nested s)
    (hk : IdsTellKinds ((Compilation.ofSnapshot read s).files.flatMap declarations)) :
    let c := Compilation.ofSnapshot read s
    (∀ x ∈ c.index.symbols, ∀ y ∈ c.index.symbols, ∀ l,
      ⟨x.id, l⟩ ∈ callers c.index c.calls y → ⟨y.id, l⟩ ∈ callSites c.calls x) ∧
    (∀ x ∈ c.index.symbols, ∀ y ∈ c.index.symbols, ∀ l, x.kind ∈ [SymbolKind.method, .constructor, .property] →
      ⟨y.id, l⟩ ∈ callSites c.calls x → ⟨x.id, l⟩ ∈ callers c.index c.calls y) ∧
    ∀ version rootId depth cancel incoming,
      CallGraph.around (model read) s version .incoming rootId depth cancel = .ok incoming →
      ∀ e ∈ incoming.edges, ∀ deep, 1 ≤ deep → ∃ outgoing,
        CallGraph.around (model read) s version .outgoing e.source deep .never = .ok outgoing ∧
          e ∈ outgoing.edges := by
  intro c
  have hc := Compilation.nested_ofSnapshot hn hk
  refine ⟨fun x hx y _ l => hc.callSites_of_callers hx, fun x hx y _ l => hc.callers_of_callSites hx, ?_⟩
  intro version rootId depth cancel incoming hincoming e he deep hdeep
  -- The edge is there because its target has its source as a caller, whatever the root of the graph is.
  obtain ⟨-, target, refs, htarget, hrefs, href⟩ := ((CallGraph.isNeighborhood_of_around rfl (view_answers read s) hincoming).edge_iff e).1 he
  cases hrefs
  obtain ⟨call, -, -, -, source, hsource, hid⟩ := mem_callers.1 href
  have hmem : source ∈ c.index.symbols := (enclosing_spec hsource).1
  have hresolve : c.index.resolve e.source = some source := hid ▸ SymbolIndex.resolve_of_mem hmem
  have hsite : ⟨target.id, e.location⟩ ∈ callSites c.calls source :=
    hc.callSites_of_callers hmem (hid ▸ href)
  rw [(SymbolIndex.mem_of_resolve htarget).2] at hsite
  obtain ⟨outgoing, hout, hgiven, -⟩ :=
    CallGraph.around_yields rfl (view_answers read s) hresolve version .outgoing deep
  refine ⟨outgoing, hgiven, (hout.edge_iff e).2 ⟨⟨0, hdeep, ?_⟩, source, _, hresolve, rfl, hsite⟩⟩
  exact CallGraph.distance_zero.2 rfl

theorem selfCreation_nested : Parser.Nested parse CallGraph.selfCreation.snapshot := ⟨by decide +kernel, by decide +kernel⟩

theorem callers_agree_callSites_selfCreation :
    let c := Compilation.ofSnapshot parse CallGraph.selfCreation.snapshot
    ∃ x ∈ c.index.symbols, x.kind = .constructor ∧ ∃ l, ⟨x.id, l⟩ ∈ callSites c.calls x ∧
      ⟨x.id, l⟩ ∈ callers c.index c.calls x := by
  intro c
  have hids : ((c.files.flatMap declarations).map Declared.id).Nodup := by decide +kernel
  have hkinds : IdsTellKinds (c.files.flatMap declarations) := fun d hd d' hd' hid =>
    congrArg Declared.kind (List.inj_on_of_nodup_map hids hd hd' hid)
  have hself : c.index.symbols.any (fun x => x.kind == .constructor &&
      (callSites c.calls x).any (·.callee == x.id)) := by decide +kernel
  obtain ⟨x, hx, hself⟩ := List.any_eq_true.1 hself
  obtain ⟨hkind, hself⟩ := Bool.and_eq_true_iff.1 hself
  obtain ⟨⟨callee, l⟩, hsite, hcallee⟩ := List.any_eq_true.1 hself
  obtain rfl : callee = x.id := beq_iff_eq.1 hcallee
  have hctor : x.kind = .constructor := beq_iff_eq.1 hkind
  obtain ⟨-, hback, -⟩ := callers_agree_callSites parse CallGraph.selfCreation.snapshot selfCreation_nested hkinds
  exact ⟨x, hx, hctor, l, hsite, hback x hx x hx l (by simp [hctor]) hsite⟩

end Workbench.CSharp
