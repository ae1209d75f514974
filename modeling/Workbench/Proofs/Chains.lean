import Workbench.Proofs.Merging
import Workbench.Proofs.Renaming

/-!
# The types around a place

The chain of types at a place begins with the smallest type around it and goes
on to bases and to the types around. Every type that is declared around the
place is in it.
-/

namespace Workbench

namespace SymbolIndex

/-! ## Walks over types -/

section
variable {next : Symbol → List Symbol} {left queue : List Symbol} {s v w : Symbol}

theorem any_without (h : left.any (·.id == w.id)) (hne : w.id ≠ s.id) : (without s left).any (·.id == w.id) := by
  obtain ⟨x, hx, hid⟩ := List.any_eq_true.1 h
  refine List.any_eq_true.2 ⟨x, List.mem_filter.2 ⟨hx, ?_⟩, hid⟩
  simpa [beq_iff_eq.1 hid] using hne

/-- A walk comes by what waits, and by what a step leads to from what it comes by, so far as it has not been visited. -/
theorem visit_closed (next : Symbol → List Symbol) (left queue : List Symbol) :
    (∀ w ∈ queue, left.any (·.id == w.id) → (visit next left queue).any (·.id == w.id)) ∧
    ∀ v ∈ visit next left queue, ∀ w ∈ next v, left.any (·.id == w.id) →
      (visit next left queue).any (·.id == w.id) := by
  fun_induction visit next left queue with
  | case1 left => simp
  | case2 left s r hs ih =>
    obtain ⟨hqueue, hnext⟩ := ih
    -- What is waiting behind the first symbol is either that symbol or still to be visited.
    have hlater : ∀ w ∈ r ++ next s, left.any (·.id == w.id) →
        (s :: visit next (without s left) (r ++ next s)).any (·.id == w.id) := by
      intro w hw hleft
      rw [List.any_cons, Bool.or_eq_true]
      by_cases hid : w.id = s.id
      · exact .inl (beq_iff_eq.2 hid.symm)
      · exact .inr (hqueue w hw (any_without hleft hid))
    refine ⟨List.forall_mem_cons.2 ⟨fun _ => ?_, fun w hw => hlater w (List.mem_append_left _ hw)⟩,
      List.forall_mem_cons.2 ⟨fun w hw => hlater w (List.mem_append_right _ hw), fun v hv w hw hleft => ?_⟩⟩
    · rw [List.any_cons, beq_self_eq_true, Bool.true_or]
    · rw [List.any_cons, Bool.or_eq_true]
      by_cases hid : w.id = s.id
      · exact .inl (beq_iff_eq.2 hid.symm)
      · exact .inr (hnext v hv w hw (any_without hleft hid))
  | case3 left s r hs ih =>
    refine ⟨List.forall_mem_cons.2 ⟨fun hleft => absurd hleft hs, ih.1⟩, ih.2⟩

theorem visit_origin (h : v ∈ visit next left queue) : v ∈ queue ∨ ∃ u, v ∈ next u := by
  fun_induction visit next left queue with
  | case1 left => cases h
  | case2 left s r hs ih =>
    rcases List.mem_cons.1 h with rfl | h
    · exact .inl List.mem_cons_self
    · rcases ih h with h | h
      · rcases List.mem_append.1 h with h | h
        · exact .inl (List.mem_cons_of_mem s h)
        · exact .inr ⟨s, h⟩
      · exact .inr h
  | case3 left s r hs ih =>
    exact (ih h).imp_left fun h => List.mem_cons_of_mem s h

end

section
variable {ix : SymbolIndex} {start : List Symbol} {outer : Bool} {s v w : Symbol}

theorem mem_symbols_of_above (h : w ∈ ix.above outer v) : w ∈ ix.symbols := by
  rcases List.mem_append.1 h with h | h
  · obtain ⟨b, -, h⟩ := List.mem_flatMap.1 h
    exact (mem_where.1 h).1
  · split at h
    · exact (mem_byQualname.1 (List.mem_filter.1 h).1).1
    · cases h

theorem mem_symbols_of_typeChain (hstart : ∀ s ∈ start, s ∈ ix.symbols)
    (h : v ∈ ix.typeChain start outer) : v ∈ ix.symbols := by
  rcases visit_origin h with h | ⟨u, h⟩
  · exact hstart v h
  · exact mem_symbols_of_above h

/-- A chain has the types that it starts from. -/
theorem mem_typeChain_of_start (hstart : ∀ s ∈ start, s ∈ ix.symbols) (h : s ∈ start) :
    s ∈ ix.typeChain start outer := by
  have hleft : (start ++ ix.symbols).any (·.id == s.id) :=
    List.any_eq_true.2 ⟨s, List.mem_append_left _ h, beq_self_eq_true _⟩
  obtain ⟨v, hv, hid⟩ := List.any_eq_true.1 ((visit_closed _ _ _).1 s h hleft)
  exact eq_of_id (mem_symbols_of_typeChain hstart hv) (hstart s h) (beq_iff_eq.1 hid) ▸ hv

/-- A chain has what a step leads to from a type in it. -/
theorem mem_typeChain_of_above (hstart : ∀ s ∈ start, s ∈ ix.symbols)
    (hv : v ∈ ix.typeChain start outer) (hw : w ∈ ix.above outer v) :
    w ∈ ix.typeChain start outer := by
  have hmem := mem_symbols_of_above hw
  have hleft : (start ++ ix.symbols).any (·.id == w.id) :=
    List.any_eq_true.2 ⟨w, List.mem_append_right _ hmem, beq_self_eq_true _⟩
  obtain ⟨u, hu, hid⟩ := List.any_eq_true.1 ((visit_closed _ _ _).2 v hv w hw hleft)
  exact eq_of_id (mem_symbols_of_typeChain hstart hu) hmem (beq_iff_eq.1 hid) ▸ hu

end

end SymbolIndex

/-! ## The smallest type around -/

namespace CSharp

section
variable {ix : SymbolIndex} {path : String} {offset : Nat} {kinds : List SymbolKind} {s x : Symbol}

theorem shorter_le {cs : List (Nat × Symbol)} {best r : Option (Nat × Symbol)} (h : cs.foldl SymbolIndex.shorter best = r) :
    (∀ b ∈ best, ∃ q ∈ r, q.1 ≤ b.1) ∧ ∀ b ∈ cs, ∃ q ∈ r, q.1 ≤ b.1 := by
  induction cs generalizing best with
  | nil =>
    obtain rfl : best = r := h
    exact ⟨fun b hb => ⟨b, hb, Nat.le_refl _⟩, by simp⟩
  | cons c rest ih =>
    obtain ⟨hbest, hrest⟩ := ih h
    have hstep : (∀ b ∈ best, ∃ q ∈ SymbolIndex.shorter best c, q.1 ≤ b.1) ∧ ∃ q ∈ SymbolIndex.shorter best c, q.1 ≤ c.1 := by
      unfold SymbolIndex.shorter
      split
      · exact ⟨by simp, c, rfl, Nat.le_refl _⟩
      · rename_i b
        by_cases hlt : c.1 < b.1
        · rw [if_pos hlt]
          refine ⟨fun b' hb' => ⟨c, rfl, ?_⟩, c, rfl, Nat.le_refl _⟩
          obtain rfl := Option.some.inj hb'
          exact Nat.le_of_lt hlt
        · rw [if_neg hlt]
          exact ⟨fun b' hb' => ⟨b', hb', Nat.le_refl _⟩, b, rfl, Nat.le_of_not_lt hlt⟩
    have hon : ∀ {n : Nat}, (∃ q ∈ SymbolIndex.shorter best c, q.1 ≤ n) → ∃ q ∈ r, q.1 ≤ n := by
      rintro n ⟨q, hq, hle⟩
      obtain ⟨q', hq', hle'⟩ := hbest q hq
      exact ⟨q', hq', Nat.le_trans hle' hle⟩
    exact ⟨fun b hb => hon (hstep.1 b hb), List.forall_mem_cons.2 ⟨hon hstep.2, hrest⟩⟩

theorem tightest?_eq_some {n : Nat} (h : SymbolIndex.tightest? path offset s = some n) :
    (∃ site ∈ s.declarations, site.location.path = path ∧ site.extent.holds offset ∧ site.extent.length = n) ∧
      ∀ site ∈ s.declarations, site.location.path = path → site.extent.holds offset → n ≤ site.extent.length := by
  obtain ⟨hmem, hle⟩ := List.min?_eq_some_iff.1 h
  obtain ⟨site, hsite, hlength⟩ := List.mem_map.1 hmem
  simp only [List.mem_filter, Bool.and_eq_true, beq_iff_eq] at hsite
  refine ⟨⟨site, hsite.1, hsite.2.1, hsite.2.2, hlength⟩, fun site hsite hpath hholds => ?_⟩
  exact hle _ (List.mem_map.2 ⟨site, List.mem_filter.2 ⟨hsite, by simp [hpath, hholds]⟩, rfl⟩)

/-- What encloses a place has a declaration around it that is no longer than any around it. -/
theorem enclosing_le (hs : s ∈ ix.symbols) (hkind : kinds.contains s.kind) {site : DeclarationSite}
    (hsite : site ∈ s.declarations) (hpath : site.location.path = path) (hholds : site.extent.holds offset) :
    ∃ t, ix.enclosing path offset kinds = some t ∧ t ∈ ix.symbols ∧ kinds.contains t.kind ∧
      ∃ site' ∈ t.declarations, site'.location.path = path ∧ site'.extent.holds offset ∧
        site'.extent.length ≤ site.extent.length := by
  obtain ⟨n, hn⟩ := tightest?_isSome.2 ⟨site, hsite, hpath, hholds⟩
  have hmem : (n, s) ∈ ix.around path offset kinds :=
    List.mem_filterMap.2 ⟨s, List.mem_filter.2 ⟨hs, hkind⟩, by rw [hn]; rfl⟩
  obtain ⟨q, hq, hle⟩ := (shorter_le (r := (ix.around path offset kinds).foldl SymbolIndex.shorter none) rfl).2 _ hmem
  have hqmem : q ∈ ix.around path offset kinds := (mem_of_shorter hq).resolve_right nofun
  obtain ⟨t, ht, hlength⟩ := List.mem_filterMap.1 hqmem
  obtain ⟨m, hm, rfl⟩ := Option.map_eq_some_iff.1 hlength
  obtain ⟨⟨site', hsite', hpath', hholds', hlen⟩, -⟩ := tightest?_eq_some hm
  obtain ⟨htmem, htkind⟩ := List.mem_filter.1 ht
  refine ⟨t, ?_, htmem, htkind, site', hsite', hpath', hholds', ?_⟩
  · rw [SymbolIndex.enclosing, hq]
    rfl
  · have := (tightest?_eq_some hn).2 site hsite hpath hholds
    have hle : m ≤ n := hle
    omega

end

/-! ## Names of types -/

namespace Enclosure

/-- What is in a type is qualified by the qualified name of the type. -/
theorem container?_append (e : Enclosure) (type : String) :
    ({ e with types := e.types ++ [type] } : Enclosure).container? = some (e.qualify type) := by
  unfold qualify container?
  rw [← List.append_assoc]
  cases hnames : e.namespaces ++ e.types with
  | nil => rfl
  | cons a rest =>
    rw [List.cons_append]
    dsimp only
    rw [← List.cons_append, String.intercalate_append_of_ne_nil (List.cons_ne_nil a rest) (List.cons_ne_nil _ []),
      String.intercalate_singleton]

theorem container?_inType (p : Site) (name : String) :
    (p.inType name).container? = some (p.around.qualify (Symbol.genericName name (arity p.node))) :=
  container?_append p.around _

end Enclosure

section
variable {f : SourceFile} {p : Site} {d : Declared} {name : String}

theorem isTypeDeclaration_of_typed (hp : p.typed? f = some name) : p.node.kind.isTypeDeclaration := by
  obtain ⟨kind, htype, -⟩ := Option.bind_eq_some_iff.1 hp
  revert htype
  cases p.node.kind <;> intro htype <;> cases htype <;> rfl

/-- A type at a site is all that is declared there. -/
theorem own_of_typed (h : p.typed? f = some name) : ∃ kind at_, SymbolKind.isType kind ∧
    p.own f = [declareType f p.around kind p.node at_ name] := by
  obtain ⟨kind, htype, hname⟩ := Option.bind_eq_some_iff.1 h
  obtain ⟨q, hq, rfl⟩ := Option.map_eq_some_iff.1 hname
  refine ⟨kind, q.1, ?_, ?_⟩
  · revert htype
    cases p.node.kind <;> intro htype <;> cases htype <;> rfl
  · unfold Site.own
    split
    case h_7 => rw [htype, Option.elim_some, hq, Option.elim_some]
    all_goals
      rename_i hk
      rw [hk] at htype
      cases htype

theorem typed_of_own (hd : d ∈ p.own f) (hk : d.kind.isType) : ∃ name, p.typed? f = some name := by
  cases makes_of_own hd with
  | @type _ _ word htype hname _ => exact ⟨word, by simp [Site.typed?, htype, hname]⟩
  | space _ _ _ hmade =>
    rw [hmade.1] at hk
    cases hk
  | method | constructor | property | field => cases hk

end

/-! ## Types around a place -/

/-- A parser in whose trees for a snapshot names are identifiers, no type holds a namespace and no call holds a type. -/
structure Parser.Orderly (read : Parser) (s : Snapshot) : Prop where
  spelled : read.Spelled s
  spaces : ∀ d ∈ s.documents, ∀ n ∈ (read d.text).descendants, n.kind.isTypeDeclaration → Node.holdNoNamespace n.children
  calls : ∀ d ∈ s.documents, ∀ n ∈ (read d.text).descendantsOf callKinds, ∀ m ∈ n.descendants,
    m.kind.isTypeDeclaration = false

namespace Compilation

structure Orderly (c : Compilation) : Prop extends c.Spelled where
  spaces : ∀ f ∈ c.files, ∀ n ∈ f.root.descendants, n.kind.isTypeDeclaration → Node.holdNoNamespace n.children
  calls : ∀ f ∈ c.files, ∀ n ∈ f.root.descendantsOf callKinds, ∀ m ∈ n.descendants, m.kind.isTypeDeclaration = false
  members : IdsTellMembers (c.files.flatMap declarations)

/-- A type is declared at a site of a file. -/
structure TypeAt (c : Compilation) (t : Symbol) (f : SourceFile) (p : Site) (name : String) : Prop where
  file : f ∈ c.files
  site : p ∈ f.sites
  typed : p.typed? f = some name
  symbol : t ∈ c.index.symbols
  kind : t.kind.isType
  declared : ∃ d, p.own f = [d] ∧ d.id = t.id
  qualname : t.qualname = p.around.qualify (Symbol.genericName name (arity p.node))
  container : t.container = p.around.container?

section
variable {c : Compilation} (h : c.Orderly) {t t' : Symbol} {f : SourceFile} {p q : Site} {name name' : String}
include h

theorem Orderly.typeAt_of_declared {d : Declared} (hf : f ∈ c.files) (hp : p ∈ f.sites) (hd : d ∈ p.own f)
    (ht : t ∈ c.index.symbols) (hid : d.id = t.id) (hname : p.typed? f = some name) : c.TypeAt t f p name := by
  obtain ⟨kind, at_, hkind, hown⟩ := own_of_typed hname
  have hmem : d ∈ c.files.flatMap declarations :=
    List.mem_flatMap.2 ⟨f, hf, declarations_eq_sites f ▸ List.mem_flatMap.2 ⟨p, hp, hd⟩⟩
  have hafter : NamedAfter d t := SymbolIndex.namedAfter_of_id h.members (h.index ▸ ht) hmem hid
  obtain rfl := List.mem_singleton.1 (hown ▸ hd)
  exact ⟨hf, hp, hname, ht, hafter.kind ▸ hkind, ⟨_, hown, hid⟩, hafter.qualname.symm, hafter.container.symm⟩

/-- Where a type is declared there is a site for it. -/
theorem Orderly.typeAt_of_site {site : DeclarationSite} (ht : t ∈ c.index.symbols) (hk : t.kind.isType)
    (hsite : site ∈ t.declarations) : ∃ f p name, c.TypeAt t f p name ∧ site.location.path = f.path ∧
      site.extent = p.node.span := by
  have hgathered := SymbolIndex.gathered_build (h.index ▸ ht)
  obtain ⟨d, hd, hid, rfl⟩ := hgathered.placed site hsite
  have hafter : NamedAfter d t := SymbolIndex.namedAfter_of_id h.members (h.index ▸ ht) hd hid
  obtain ⟨f, hf, hdf⟩ := List.mem_flatMap.1 hd
  rw [declarations_eq_sites] at hdf
  obtain ⟨p, hp, hdp⟩ := List.mem_flatMap.1 hdf
  obtain ⟨name, hname⟩ := typed_of_own hdp (hafter.kind ▸ hk)
  obtain ⟨kind, at_, -, hown⟩ := own_of_typed hname
  obtain rfl := List.mem_singleton.1 (hown ▸ hdp)
  exact ⟨f, p, name, h.typeAt_of_declared hf hp hdp ht hid hname, rfl, rfl⟩

/-- Each type at a site has a symbol. -/
theorem Orderly.exists_typeAt (hf : f ∈ c.files) (hp : p ∈ f.sites) (hname : p.typed? f = some name) :
    ∃ t, c.TypeAt t f p name := by
  obtain ⟨kind, at_, -, hown⟩ := own_of_typed hname
  have hd : declareType f p.around kind p.node at_ name ∈ p.own f := hown ▸ List.mem_singleton_self _
  have hmem := List.mem_flatMap.2 ⟨f, hf, declarations_eq_sites f ▸ List.mem_flatMap.2 ⟨p, hp, hd⟩⟩
  obtain ⟨t, ht, hid, -⟩ := SymbolIndex.symbol_of_declared hmem
  exact ⟨t, h.typeAt_of_declared hf hp hd (h.index ▸ ht) hid.symm hname⟩

omit h in
theorem TypeAt.unique (ht : c.TypeAt t f p name) (ht' : c.TypeAt t' f p name') : t = t' := by
  obtain ⟨d, hown, hid⟩ := ht.declared
  obtain ⟨d', hown', hid'⟩ := ht'.declared
  obtain rfl := List.singleton_inj.1 (hown.symm.trans hown')
  exact SymbolIndex.eq_of_id ht.symbol ht'.symbol (hid.symm.trans hid')

/-- A type is named by an identifier in it. -/
theorem Orderly.naming_of_typeAt (ht : c.TypeAt t f p name) :
    ∃ x ∈ f.root.foci, x.node.kind = .identifier ∧ x.node ∈ p.node.children ∧ p.node.start < p.node.stop := by
  have htree := h.trees f ht.file
  obtain ⟨kind, at_, hkind, hown⟩ := own_of_typed ht.typed
  have hd : declareType f p.around kind p.node at_ name ∈ p.own f := hown ▸ List.mem_singleton_self _
  have hspace : (declareType f p.around kind p.node at_ name).kind ≠ .namespace := by
    change kind ≠ .namespace
    rintro rfl
    cases hkind
  rcases own_cases hd with ⟨x, hx⟩ | ⟨x, hx⟩
  · obtain ⟨z, hz⟩ := naming_of_namedBy htree ht.site hx
    have hname : p.node.name? = some z.node := by
      rcases hz.source with hs | hs
      · exact hs.name
      · have htyped := ht.typed
        rw [Site.typed?, hs.kind] at htyped
        cases htyped
    exact ⟨z, hz.focus, hz.identifier hspace, mem_of_child? hname, hz.start_lt_stop htree ht.site (hz.identifier hspace)⟩
  · have htyped := ht.typed
    rw [Site.typed?, hx.kind] at htyped
    cases htyped

/-- Two types around one node are one around the other. -/
theorem Orderly.comparable (ht : c.TypeAt t f p name) (ht' : c.TypeAt t' f q name') {m : Node} (hlt : m.start < m.stop)
    (hp : m ∈ p.node.descendants) (hq : m ∈ q.node.descendants) :
    p.node = q.node ∨ p.node.Below q.node ∨ q.node.Below p.node := by
  have htree := h.trees f ht.file
  have hpmem := mem_descendants_of_sites htree ht.site
  have hqmem := mem_descendants_of_sites htree ht'.site
  rcases Node.below_or_apart htree.nests hpmem hqmem with hbelow | hbelow | hapart
  · exact (Node.mem_descendants.1 hbelow).imp_right .inl
  · exact (Node.mem_descendants.1 hbelow).imp Eq.symm .inr
  · exact absurd (Node.apart_below hapart (Node.nests_of_mem_descendants htree.nests hpmem)
      (Node.nests_of_mem_descendants htree.nests hqmem) hp hq) (Node.not_apart_self hlt)

/-- The type around a type is a step above it. -/
theorem Orderly.parent_of_deeper (ht : c.TypeAt t f p name) (hdeep : p.around.types ≠ []) :
    ∃ u q name', c.TypeAt u f q name' ∧ p.node.Below q.node ∧ p.around.types.length = q.around.types.length + 1 ∧
      u ∈ c.index.above true t := by
  have htree := h.trees f ht.file
  rcases (stand_sites htree.nests).lineage p ht.site with hnone | ⟨q, hq, name', htyped, hbelow, htypes, hsame⟩
  · exact absurd hnone hdeep
  · obtain ⟨u, hu⟩ := h.exists_typeAt ht.file hq htyped
    have hkind := isTypeDeclaration_of_typed htyped
    have haround : p.around = q.inType name' := by
      have hspaces := hsame (h.spaces f ht.file q.node (mem_descendants_of_sites htree hq) hkind)
      exact (Enclosure.mk.injEq ..).mpr ⟨hspaces, htypes⟩
    have hcontainer : t.container = some u.qualname := by
      rw [ht.container, haround, Enclosure.container?_inType, hu.qualname]
    have habove : u ∈ c.index.above true t := by
      refine List.mem_append_right _ ?_
      simp only [hcontainer, List.mem_filter, SymbolIndex.mem_byQualname, hu.symbol, hu.kind, and_self]
    refine ⟨u, q, name', hu, hbelow, ?_, habove⟩
    rw [htypes]
    simp [Site.inType]

/-- From a type in a chain, the chain goes on to each type around it. -/
theorem Orderly.mem_typeChain_of_around {start : List Symbol} (hstart : ∀ s ∈ start, s ∈ c.index.symbols)
    (hp : c.TypeAt t f p name) (hq : c.TypeAt t' f q name') (hbelow : q.node = p.node ∨ q.node.Below p.node)
    (hmem : t' ∈ c.index.typeChain start true) : t ∈ c.index.typeChain start true := by
  have htree := h.trees f hp.file
  have hstand := stand_sites htree.nests
  -- Each step up leaves one type less around.
  induction hn : q.around.types.length using Nat.strongRecOn generalizing t' q name' with
  | ind n ih =>
    obtain ⟨-, -, -, -, hlt⟩ := h.naming_of_typeAt hq
    rcases hbelow with hnode | hbelow
    · obtain rfl := site_ext htree hq.site hp.site hnode hlt
      exact TypeAt.unique hq hp ▸ hmem
    · have hdeeper := hstand.deeper p hp.site (by rw [hp.typed]; rfl) q hq.site hbelow hlt
      have hdeep : q.around.types ≠ [] := List.ne_nil_of_length_pos (by omega)
      obtain ⟨u, r, name'', hu, hqr, hlen, habove⟩ := h.parent_of_deeper hq hdeep
      have humem : u ∈ c.index.typeChain start true := by
        rw [h.index] at hstart hmem habove ⊢
        exact SymbolIndex.mem_typeChain_of_above hstart hmem habove
      refine ih r.around.types.length (by omega) hu ?_ humem rfl
      rcases h.comparable hu hp hlt hqr.mem hbelow.mem with hrp | hrp | hpr
      · exact .inl hrp
      · exact .inr hrp
      · have hplt := (h.naming_of_typeAt hp).choose_spec.2.2.2
        have := hstand.deeper r hu.site (by rw [hu.typed]; rfl) p hp.site hpr hplt
        omega

/-- A type around the start of a node without types in it is around the node. -/
theorem Orderly.mem_descendants_of_holds (hp : c.TypeAt t f p name) {m : Node} (hm : m ∈ f.root.descendants)
    (hlt : m.start < m.stop) (hplain : ∀ k ∈ m.descendants, k.kind.isTypeDeclaration = false)
    (hholds : p.node.span.holds m.start) : m ∈ p.node.descendants := by
  have htree := h.trees f hp.file
  have hpmem := mem_descendants_of_sites htree hp.site
  obtain ⟨hstart, hstop⟩ := Bool.and_eq_true_iff.1 hholds
  have hstart : p.node.start ≤ m.start := of_decide_eq_true hstart
  have hstop : m.start < p.node.span.stop := of_decide_eq_true hstop
  rw [Node.stop_span_of_nests (Node.nests_of_mem_descendants htree.nests hpmem)] at hstop
  rcases Node.below_or_apart htree.nests hm hpmem with hbelow | hbelow | hapart
  · exact hbelow
  · exact absurd (isTypeDeclaration_of_typed hp.typed) (by rw [hplain _ hbelow]; nofun)
  · simp only [Node.apart, Bool.or_eq_true, decide_eq_true_eq] at hapart
    omega

/-- A type in another one is shorter, since its name is not in it. -/
theorem Orderly.length_lt_of_below (hp : c.TypeAt t f p name) (hq : c.TypeAt t' f q name') (hbelow : p.node.Below q.node) :
    p.node.span.length < q.node.span.length := by
  have htree := h.trees f hp.file
  obtain ⟨x, hx, hxk, hchild, -⟩ := h.naming_of_typeAt hq
  obtain ⟨hleaf, hxlt⟩ := htree.leaves _ (Node.node_mem_descendants hx) hxk
  obtain ⟨b, hb, -, hpb⟩ := hbelow
  have hqnests := Node.nests_of_mem_descendants htree.nests (mem_descendants_of_sites htree hq.site)
  have hne : b ≠ x.node := by
    rintro rfl
    rcases Node.mem_descendants.1 hpb with hpx | ⟨k, hk, -⟩
    · have hkind := isTypeDeclaration_of_typed hp.typed
      rw [hpx, hxk] at hkind
      cases hkind
    · rw [hleaf] at hk
      cases hk
  have : Std.Symm fun n m : Node => (n.apart m : Prop) := ⟨fun _ _ h => Node.apart_comm ▸ h⟩
  have hapart : b.apart x.node := (Node.nests_iff.1 hqnests).2.2.forall hb hchild hne
  have hbnests := Node.nests_of_child hqnests hb
  have hpx := Node.apart_of_within hapart (Node.within_of_mem_descendants hbnests hpb) (.refl _)
  have hwithin := (Node.within_of_mem_descendants hbnests hpb).trans (Node.within_of_child hqnests hb)
  have hxwithin := Node.within_of_child hqnests hchild
  have hprange := (Node.nests_iff.1 (Node.nests_of_mem_descendants hbnests hpb)).1
  have := hwithin.start
  have := hwithin.stop
  have := hxwithin.start
  have := hxwithin.stop
  simp only [Node.apart, Bool.or_eq_true, decide_eq_true_eq] at hpx
  simp only [Node.span, Span.ofBounds]
  omega

/-- Every type around the start of a node is in the chain there. -/
theorem Orderly.mem_chainAt (hf : f ∈ c.files) {m : Node} (hm : m ∈ f.root.descendants) (hlt : m.start < m.stop)
    (hplain : ∀ k ∈ m.descendants, k.kind.isTypeDeclaration = false) (ht : t ∈ c.index.symbols) (hk : t.kind.isType)
    (haround : Around f.path m.start t) : t ∈ c.chainAt f m.start := by
  obtain ⟨site, hsite, hpath, hholds⟩ := haround
  have hkinds : ∀ {k : SymbolKind}, typeKinds.contains k ↔ k.isType := by
    intro k
    cases k <;> decide
  obtain ⟨u, henclosing, hu, huk, site', hsite', hpath', hholds', hle⟩ :=
    enclosing_le ht (show typeKinds.contains t.kind from hkinds.2 hk) hsite hpath hholds
  obtain ⟨f₁, p, name, hp, hfp, hextent⟩ := h.typeAt_of_site ht hk hsite
  obtain ⟨f₂, q, name', hq, hfq, hextent'⟩ := h.typeAt_of_site hu (hkinds.1 huk) hsite'
  obtain rfl := h.paths f hf f₁ hp.file (hpath.symm.trans hfp)
  obtain rfl := h.paths f hf f₂ hq.file (hpath'.symm.trans hfq)
  rw [hextent] at hholds hle
  rw [hextent'] at hholds' hle
  have hmp := h.mem_descendants_of_holds hp hm hlt hplain hholds
  have hmq := h.mem_descendants_of_holds hq hm hlt hplain hholds'
  have hbelow : q.node = p.node ∨ q.node.Below p.node := by
    rcases h.comparable hq hp hlt hmq hmp with heq | hqp | hpq
    · exact .inl heq
    · exact .inr hqp
    · exact absurd (h.length_lt_of_below hp hq hpq) (Nat.not_lt.2 hle)
  have hstart : ∀ s ∈ [u], s ∈ c.index.symbols := by simpa using hu
  have hmem : u ∈ c.index.typeChain [u] true := by
    rw [h.index] at hstart ⊢
    exact SymbolIndex.mem_typeChain_of_start hstart List.mem_cons_self
  rw [chainAt, henclosing]
  exact h.mem_typeChain_of_around hstart hp hq hbelow hmem

end

end Compilation

end CSharp

end Workbench
