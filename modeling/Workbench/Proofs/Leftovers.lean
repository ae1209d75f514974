import Workbench.Proofs.Chains

/-!
# What a rename leaves behind

A rename reaches every use of a type, of a field and of a property, and every
constructor of a type. It leaves the destructors of a type, and the uses of a
method that are no calls.
-/

namespace Workbench.CSharp

/-! ## What is around an identifier -/

section
variable {m : Node}

/-- No type is declared in an identifier. -/
theorem Node.Spelled.plain_of_identifier {root : Node} (h : root.Spelled) (hm : m ∈ root.descendants)
    (hk : m.kind = .identifier) : ∀ k ∈ m.descendants, k.kind.isTypeDeclaration = false := by
  intro k hkm
  rcases Node.mem_descendants.1 hkm with rfl | ⟨c, hc, -⟩
  · rw [hk]
    rfl
  · rw [(h.leaves m hm hk).1] at hc
    cases hc

end

/-! ## The only bearer of a name -/

namespace Compilation

/-- No other symbol and no local or parameter has the name of the symbol, which has no mark of an arity in it. -/
structure NamedOnce (c : Compilation) (s : Symbol) : Prop where
  symbols : ∀ t ∈ c.index.symbols, t.name = s.name → t = s
  locals : ∀ f ∈ c.files, ∀ n ∈ f.root.descendantsOf scopeKinds, ∀ m ∈ n.descendants, declaredTypes f s.name m = []
  plain : Symbol.stripArity s.name = s.name

section
variable {c : Compilation} {s t : Symbol} {candidates chain : List Symbol} {f : SourceFile} {x : Focus}

theorem exists_rankedByChain (hs : s ∈ candidates) (ht : t ∈ chain) (hcontainer : s.container = some t.qualname) :
    ∃ i, (i, s) ∈ rankedByChain candidates chain := by
  have hfound : (chain.findIdx? fun u => u.qualname == t.qualname).isSome := by
    rw [List.findIdx?_isSome, List.any_eq_true]
    exact ⟨t, ht, beq_self_eq_true _⟩
  obtain ⟨i, hi⟩ := Option.isSome_iff_exists.1 hfound
  refine ⟨i, List.mem_mergeSort.2 (List.mem_filterMap.2 ⟨s, hs, ?_⟩)⟩
  rw [hcontainer, Option.bind_some, hi]
  rfl

/-- The only candidate is picked where its container is in the chain, however many arguments there are. -/
theorem pick_eq (hs : s ∈ candidates) (hone : ∀ u ∈ candidates, u = s) (ht : t ∈ chain)
    (hcontainer : s.container = some t.qualname) (args : Nat) : pick candidates chain args = some s := by
  obtain ⟨i, hi⟩ := exists_rankedByChain hs ht hcontainer
  have hmem : s ∈ (rankedByChain candidates chain).map (·.2) := List.mem_map.2 ⟨(i, s), hi, rfl⟩
  have hne : fitting ((rankedByChain candidates chain).map (·.2)) args ≠ [] := by
    unfold fitting
    split
    · exact List.ne_nil_of_mem hmem
    · rename_i hsome
      exact hsome
  obtain ⟨u, hu⟩ := Option.isSome_iff_exists.1 (List.isSome_head?.2 hne)
  have hpick : pick candidates chain args = some u := hu
  rw [hpick, hone u (mem_of_pick hpick)]

theorem memberIn_eq (hs : s ∈ c.index.symbols) (hk : s.kind ∈ [SymbolKind.field, .property]) (hone : c.NamedOnce s)
    (ht : t ∈ chain) (hcontainer : s.container = some t.qualname) : c.memberIn s.name chain = some s := by
  have hcandidate : ∀ u, u ∈ (c.index.byName s.name).filter (fun u => u.kind == .field || u.kind == .property) → u = s := by
    intro u hu
    obtain ⟨humem, huname⟩ := SymbolIndex.mem_byName.1 (List.mem_filter.1 hu).1
    exact hone.symbols u humem huname
  have hmem : s ∈ (c.index.byName s.name).filter (fun u => u.kind == .field || u.kind == .property) := by
    refine List.mem_filter.2 ⟨SymbolIndex.mem_byName.2 ⟨hs, rfl⟩, ?_⟩
    simpa using hk
  obtain ⟨i, hi⟩ := exists_rankedByChain hmem ht hcontainer
  obtain ⟨p, hp⟩ := Option.isSome_iff_exists.1 (List.isSome_head?.2 (List.ne_nil_of_mem hi))
  unfold memberIn
  rw [hp, Option.map_some, hcandidate p.2 (mem_of_rankedByChain (List.mem_of_head? hp))]

theorem NamedOnce.localType (hone : c.NamedOnce s) (hf : f ∈ c.files) (hx : x ∈ f.root.foci) (pos : Nat) :
    localType f (x.ancestor? scopeKinds) pos s.name = none := by
  cases hscope : x.ancestor? scopeKinds with
  | none => rfl
  | some n =>
    have hmem : n ∈ f.root.descendantsOf scopeKinds := by
      have haround := List.mem_of_find?_eq_some hscope
      refine List.mem_filter.2 ⟨?_, List.find?_some (p := fun n : Node => scopeKinds.contains n.kind) hscope⟩
      rcases Node.mem_of_around hx haround with h | h
      · cases h
      · exact h.1
    have hnone : ((n.descendants.filter fun m => m.start ≤ pos).flatMap (declaredTypes f s.name)) = [] :=
      List.flatMap_eq_nil_iff.2 fun m hm => hone.locals f hf n hmem m (List.mem_filter.1 hm).1
    simp only [CSharp.localType, hnone, List.getLast?_nil]

end

/-! ## Uses in the declaring type -/

/-- An identifier is the name in an invocation, looked up in `target` or in the instance that the code belongs to. -/
def Invokes (f : SourceFile) (x : Focus) (target : Option Node) : Prop :=
  ∃ y ∈ f.root.foci, y.node.kind = .invocationExpression ∧ ∃ function, y.node.child? .function = some function ∧
    calledName? function = some (x.node, target)

/-- An identifier in a declaration of the type in which the symbol is declared, that is spelled like the symbol and
declares nothing. -/
structure UsedInside (c : Compilation) (s t : Symbol) (f : SourceFile) (x : Focus) : Prop where
  file : f ∈ c.files
  focus : x ∈ f.root.foci
  identifier : x.node.kind = .identifier
  container : s.container = some t.qualname
  type : t ∈ c.index.symbols ∧ t.kind.isType
  around : Around f.path x.node.start t
  word : f.word x.node = s.name
  plain : isDeclarationName x = false

section
variable {c : Compilation} (h : c.Orderly) {s t : Symbol} {f : SourceFile} {x : Focus}

theorem UsedInside.at_ (hx : c.UsedInside s t f x) : c.At (f.location x.node) f x :=
  ⟨hx.file, hx.focus, hx.identifier, rfl⟩

include h

theorem UsedInside.mem_chainAt (hx : c.UsedInside s t f x) : t ∈ c.chainAt f x.node.start := by
  have hmem := Node.node_mem_descendants hx.focus
  have htree := h.trees f hx.file
  exact h.mem_chainAt hx.file hmem (htree.leaves _ hmem hx.identifier).2 (htree.plain_of_identifier hmem hx.identifier)
    hx.type.1 hx.type.2 hx.around

/-- A field or property is what each identifier of its name in its type resolves to, that is no name of a member
access and nothing that an initializer assigns to. -/
theorem UsedInside.refers_value (hx : c.UsedInside s t f x) (hs : s ∈ c.index.symbols)
    (hk : s.kind ∈ [SymbolKind.field, .property]) (hone : c.NamedOnce s) (haccess : accessed? x = none)
    (hkey : initializedType? x = none) : c.Refers s f x := by
  refine (Compilation.refers_value hk).2 ⟨hx.word.trans hone.plain.symm, ?_⟩
  have hresolve : c.resolveMember f x s.name = some s := by
    unfold resolveMember
    simp only [haccess, hkey, hone.localType hx.file hx.focus]
    exact memberIn_eq hs hk hone (hx.mem_chainAt h) hx.container
  rw [hone.plain, hresolve]
  exact beq_self_eq_true _

/-- What is around a name in a call is around the call, since a call has no type in it. -/
theorem Orderly.around_call {y : Focus} {name : Node} (hf : f ∈ c.files) (hy : y ∈ f.root.fociOf callKinds)
    (ht : t ∈ c.index.symbols) (hk : t.kind.isType) (hname : name.Within y.node) (hmem : name ∈ f.root.descendants)
    (hlt : name.start < name.stop) (hplain : ∀ k ∈ name.descendants, k.kind.isTypeDeclaration = false)
    (haround : Around f.path name.start t) : Around f.path y.node.start t ∧ y.node.start < y.node.stop := by
  obtain ⟨site, hsite, hpath, hholds⟩ := haround
  obtain ⟨f', p, type, hp, hfp, hextent⟩ := h.typeAt_of_site ht hk hsite
  obtain rfl := h.paths f hf f' hp.file (hpath.symm.trans hfp)
  have htree := h.trees f hf
  have hymem := Node.node_mem_descendants (List.mem_filter.1 hy).1
  have hpmem := mem_descendants_of_sites htree hp.site
  have hpnests := Node.nests_of_mem_descendants htree.nests hpmem
  have hinside := h.mem_descendants_of_holds hp hmem hlt hplain (hextent ▸ hholds)
  have hwithin := Node.within_of_mem_descendants hpnests hinside
  have := hname.start
  have := hname.stop
  have := hwithin.start
  have := hwithin.stop
  have hylt : y.node.start < y.node.stop := by omega
  refine ⟨⟨site, hsite, hpath, ?_⟩, hylt⟩
  have hbelow : y.node ∈ p.node.descendants := by
    rcases Node.below_or_apart htree.nests hymem hpmem with hbelow | hbelow | hapart
    · exact hbelow
    · have hcall : y.node ∈ f.root.descendantsOf callKinds := List.mem_filter.2 ⟨hymem, (List.mem_filter.1 hy).2⟩
      exact absurd (isTypeDeclaration_of_typed hp.typed) (by rw [h.calls f hf y.node hcall _ hbelow]; nofun)
    · simp only [Node.apart, Bool.or_eq_true, decide_eq_true_eq] at hapart
      omega
  have hywithin := Node.within_of_mem_descendants hpnests hbelow
  have hstart : p.node.span.start ≤ y.node.start := hywithin.start
  have hstop : y.node.start < p.node.span.stop := by
    rw [Node.stop_span_of_nests hpnests]
    exact Nat.lt_of_lt_of_le hylt hywithin.stop
  rw [hextent, Span.holds, Bool.and_eq_true]
  exact ⟨decide_eq_true hstart, decide_eq_true hstop⟩

/-- A method is what each invocation of its name in its type calls. -/
theorem UsedInside.refers_method (hx : c.UsedInside s t f x) (hs : s ∈ c.index.symbols) (hk : s.kind = .method)
    (hone : c.NamedOnce s) (hcall : Invokes f x none) : c.Refers s f x := by
  obtain ⟨y, hy, hyk, function, hfunction, hcalled⟩ := hcall
  have hyc : y ∈ f.root.fociOf callKinds := List.mem_filter.2 ⟨hy, by rw [hyk]; rfl⟩
  have htree := h.trees f hx.file
  have hxmem := Node.node_mem_descendants hx.focus
  have hlt := (htree.leaves _ hxmem hx.identifier).2
  have hynests := Node.nests_of_mem_descendants htree.nests (Node.node_mem_descendants hy)
  have hchild := mem_of_child? hfunction
  have hwithin := (within_of_calledName? (Node.nests_of_child hynests hchild) hcalled).trans
    (Node.within_of_child hynests hchild)
  obtain ⟨haround, hylt⟩ := h.around_call hx.file hyc hx.type.1 hx.type.2 hwithin hxmem hlt
    (htree.plain_of_identifier hxmem hx.identifier) hx.around
  have hchain : t ∈ c.chainAt f y.node.start := by
    refine h.mem_chainAt hx.file (Node.node_mem_descendants hy) hylt ?_ hx.type.1 hx.type.2 haround
    exact h.calls f hx.file y.node (List.mem_filter.2 ⟨Node.node_mem_descendants hy, (List.mem_filter.1 hyc).2⟩)
  have hcandidate : ∀ u ∈ (c.index.byName s.name).filter (·.kind == .method), u = s := by
    intro u hu
    obtain ⟨humem, huname⟩ := SymbolIndex.mem_byName.1 (List.mem_filter.1 hu).1
    exact hone.symbols u humem huname
  have hmem : s ∈ (c.index.byName s.name).filter (·.kind == .method) :=
    List.mem_filter.2 ⟨SymbolIndex.mem_byName.2 ⟨hs, rfl⟩, by rw [hk]; rfl⟩
  have hresolve : c.resolve f y = some (s, x.node) := by
    unfold resolve
    rw [hyk]
    dsimp only
    unfold resolveInvocation
    simp only [hfunction, Option.bind_eq_bind, Option.bind_some, hcalled, Option.elim_none, hx.word]
    rw [pick_eq hmem hcandidate hchain hx.container]
    rfl
  obtain ⟨z, hz, hznode, hzk, haroundName, -⟩ := exists_called hyc hresolve
  obtain rfl := htree.focus_ext hx.focus hz hx.identifier hzk (by rw [hznode])
  exact (refers_callable (by rw [hk]; rfl)).2 ⟨y, hyc, s, hresolve, rfl, haroundName⟩

end

/-! ## Constructors and destructors -/

/-- An identifier that names a member directly in the body of a declaration of a type. -/
structure NamesMember (c : Compilation) (s : Symbol) (f : SourceFile) (x : Focus) (k : Node) : Prop where
  file : f ∈ c.files
  site : ∃ p ∈ f.sites, (∃ d ∈ p.own f, d.id = s.id) ∧ ∃ body, p.node.body? = some body ∧ body.isNamed ∧ k ∈ body.children
  focus : x ∈ f.root.foci
  identifier : x.node.kind = .identifier
  parent : x.parent? = some k
  name : k.name? = some x.node

section
variable {f : SourceFile} {e : Enclosure} {p q : Site} {name : String} {body k : Node} {cs : List Node}

theorem mem_sitesAll : q ∈ Node.sitesAll f e cs ↔ ∃ n ∈ cs, q ∈ n.sites f e := by
  induction cs with
  | nil => simp [Node.sitesAll]
  | cons n rest ih => rw [Node.sitesAll, List.mem_append, ih, List.exists_mem_cons_iff]

theorem sitesIn_of_find? {isBody : Node → Bool} (h : cs.find? isBody = some body) (hnamed : body.isNamed) :
    Node.sitesIn f e isBody cs = Node.sitesAll f e body.children := by
  induction cs with
  | nil => cases h
  | cons n rest ih =>
    cases n with
    | mk k r a b t cs =>
      rw [Node.sitesIn]
      by_cases hn : isBody (.mk k r a b t cs)
      · rw [List.find?_cons_of_pos hn] at h
        obtain rfl := Option.some.inj h
        have hk : ¬(k == .token) = true := by simpa [Node.isNamed, Node.kind] using hnamed
        rw [if_pos hn, if_neg hk]
        rfl
      · rw [List.find?_cons_of_neg hn] at h
        rw [if_neg hn]
        exact ih h

theorem find?_isTypeBody (n : Node) : n.children.find? (Node.isTypeBody n.children) = n.body? := by
  unfold Node.isTypeBody Node.body? Node.child?
  by_cases hany : n.children.any (·.role == .body)
  · simp only [hany, if_true]
    obtain ⟨b, hb⟩ := Option.isSome_iff_exists.1 ((List.find?_isSome).2 (List.any_eq_true.1 hany))
    rw [hb, Option.some_or]
  · have hnone : n.children.find? (·.role == .body) = none :=
      List.find?_eq_none.2 fun m hm hr => hany (List.any_eq_true.2 ⟨m, hm, hr⟩)
    simp only [hany, if_false, hnone, Option.none_or, Bool.false_eq_true]

/-- A constructor in the body of a type is a site. -/
theorem mem_inside (hbody : p.node.body? = some body) (hnamed : body.isNamed) (hk : k ∈ body.children)
    (hkind : k.kind = .constructorDeclaration) : ⟨p.inType name, k⟩ ∈ p.inside f name := by
  rw [Site.inside, sitesIn_of_find? ((find?_isTypeBody p.node).trans hbody) hnamed]
  refine mem_sitesAll.2 ⟨k, hk, ?_⟩
  rw [Node.sites_member (by rw [hkind]; rfl) (by rw [hkind]; nofun) (by rw [hkind]; rfl)]
  exact List.mem_singleton_self _

end

section
variable {c : Compilation} (h : c.Orderly) {s : Symbol} {f : SourceFile} {x : Focus} {k : Node}
include h

theorem Orderly.exists_namesMember {p : Site} {d : Declared} {body name : Node} (hf : f ∈ c.files) (hp : p ∈ f.sites)
    (hd : d ∈ p.own f) (hid : d.id = s.id) (hbody : p.node.body? = some body) (hnamed : body.isNamed)
    (hk : k ∈ body.children) (hkn : k.isNamed) (hname : k.name? = some name) (hidentifier : name.kind = .identifier) :
    ∃ x, c.NamesMember s f x k := by
  obtain ⟨y, hy, hnode⟩ := Node.exists_focus (mem_descendants_of_sites (h.trees f hf) hp)
  have hchild : body ∈ y.node.children := by
    have hfound := (find?_isTypeBody p.node).trans hbody
    exact hnode ▸ List.mem_of_find?_eq_some hfound
  have hkf := Node.down_mem_walk (Node.down_mem_walk hy hchild hnamed) hk hkn
  have hxf := Node.down_mem_walk hkf (mem_of_child? hname) (by simp [Node.isNamed, hidentifier])
  exact ⟨_, hf, ⟨p, hp, ⟨d, hd, hid⟩, body, hbody, hnamed, hk⟩, hxf, hidentifier, rfl, hname⟩

/-- The constructors in the declarations of a type are renamed with it. -/
theorem Orderly.constructor_renamed (hs : s ∈ c.index.symbols) (hk : s.kind.isType) (hx : c.NamesMember s f x k)
    (hctor : k.kind = .constructorDeclaration) : f.location x.node ∈ c.nameLocations c.calls s := by
  obtain ⟨p, hp, ⟨d, hd, hid⟩, body, hbody, hnamed, hchild⟩ := hx.site
  have hmem : ∀ {q : Site} {d : Declared}, q ∈ f.sites → d ∈ q.own f → d ∈ c.files.flatMap declarations := fun hq hd =>
    List.mem_flatMap.2 ⟨f, hx.file, declarations_eq_sites f ▸ List.mem_flatMap.2 ⟨_, hq, hd⟩⟩
  have hafter : NamedAfter d s := SymbolIndex.namedAfter_of_id h.members (h.index ▸ hs) (hmem hp hd) hid
  obtain ⟨name, hname⟩ := typed_of_own hd (hafter.kind ▸ hk)
  have hat := h.typeAt_of_declared hx.file hp hd hs hid hname
  have hinside : ⟨p.inType name, k⟩ ∈ p.inside f name := mem_inside hbody hnamed hchild hctor
  have hsite := (stand_sites (h.trees f hx.file).nests).full p hp name hname hinside
  have hown : Site.own f ⟨p.inType name, k⟩ =
      [declareMember f (p.inType name) .constructor k x.node (Symbol.genericName name (arity p.node)) ".ctor" true] := by
    simp [Site.own, hctor, declareConstructor, hx.name, Site.inType]
  have hdeclared := hmem hsite (hown ▸ List.mem_singleton_self _)
  obtain ⟨u, hu, huid, site, hplace, hlocation⟩ := SymbolIndex.symbol_of_declared hdeclared
  have huafter := SymbolIndex.namedAfter_of_id h.members hu hdeclared huid.symm
  have hcontainer : u.container = some s.qualname := by
    rw [← huafter.container, hat.qualname]
    exact Enclosure.container?_inType p name
  have hmember : u ∈ c.index.membersOf s.qualname := SymbolIndex.mem_membersOf.2 ⟨h.index ▸ hu, hcontainer⟩
  refine mem_nameLocations.2 (.inr ⟨u, .inr ⟨hk, huafter.kind.symm, hmember⟩, ?_⟩)
  exact List.mem_map.2 ⟨site, hplace, hlocation⟩

/-- A destructor is renamed with nothing. -/
theorem Orderly.destructor_kept (hs : s ∈ c.index.symbols) (hspace : s.kind ≠ .namespace) {l : Location}
    (hx : c.At l f x) (hparent : x.parent? = some k) (hname : k.name? = some x.node)
    (hdestructor : k.kind = .destructorDeclaration) : l ∉ c.nameLocations c.calls s := by
  have hdeclares : isDeclarationName x = true := by
    simp [isDeclarationName, hparent, hname, hdestructor, Kind.isMemberDeclaration, Node.same]
  have hnot : ∀ u ∈ c.index.symbols, l ∉ declaredLocations u := by
    intro u hu hl
    obtain ⟨p, -, d, -, -, -, hnaming⟩ := h.naming_at hx hu hl
    have hnode : k = p.node := by
      have hdeclaring := hnaming.declaring
      rw [Focus.declaring?, hparent] at hdeclaring
      simpa [hdestructor] using hdeclaring
    rw [hnode] at hdestructor
    rcases hnaming.source with hsource | hsource
    · have hkinds := hsource.kind
      rw [hdestructor] at hkinds
      rcases hkinds with ⟨-, hk⟩ | ⟨-, hk | hk⟩ <;> cases hk
    · exact absurd (hsource.kind.symm.trans hdestructor) (by decide)
  intro hl
  rcases mem_nameLocations.1 hl with hl | ⟨u, rfl | hu, hlu⟩
  · obtain ⟨f', x', hx', hplain, -⟩ := (mem_references hspace).1 hl
    obtain ⟨rfl, rfl⟩ := h.at_unique hx hx'
    exact absurd (hdeclares.symm.trans hplain) (by decide)
  · exact hnot u hs hlu
  · exact hnot u (SymbolIndex.mem_membersOf.1 hu.2.2).1 hlu

/-- What declares nothing and is not the name of an invocation is not renamed with a method. -/
theorem Orderly.uncalled_kept (hs : s ∈ c.index.symbols) (hk : s.kind = .method) {l : Location} (hx : c.At l f x)
    (hplain : isDeclarationName x = false) (hnot : ∀ target, ¬Invokes f x target) : l ∉ c.nameLocations c.calls s := by
  intro hl
  rcases mem_nameLocations.1 hl with hl | ⟨u, rfl | hu, hlu⟩
  · obtain ⟨f', x', hx', -, hrefers⟩ := (mem_references (by rw [hk]; nofun)).1 hl
    obtain ⟨rfl, rfl⟩ := h.at_unique hx hx'
    obtain ⟨y, hy, callee, hresolve, hid, -⟩ := (refers_callable (by rw [hk]; rfl)).1 hrefers
    have hymem := (List.mem_filter.1 hy).1
    unfold resolve at hresolve
    split at hresolve
    · rename_i hyk
      obtain ⟨function, target, hfunction, hcalled⟩ := calledName?_of_resolveInvocation hresolve
      exact hnot target ⟨y, hymem, hyk, function, hfunction, hcalled⟩
    · have hmem : callee ∈ c.index.symbols := by
        obtain ⟨_, type, -, -, htype, rfl | ⟨hmember, -⟩⟩ := callee_of_creation hresolve
        · exact (SymbolIndex.mem_typesNamed.1 htype).1
        · exact (SymbolIndex.mem_membersOf.1 hmember).1
      exact kind_of_creation hresolve (SymbolIndex.eq_of_id hmem hs hid ▸ hk)
    · cases hresolve
  · obtain ⟨f', x', hx', hdeclares⟩ := h.declared_at hs (by rw [hk]; nofun) hlu
    obtain ⟨rfl, rfl⟩ := h.at_unique hx hx'
    exact absurd (hdeclares.symm.trans hplain) nofun
  · have htype := hu.1
    rw [hk] at htype
    cases htype

end

theorem orderly_ofSnapshot {read : Parser} {s : Snapshot} (h : read.Orderly s)
    (hids : IdsTellMembers ((ofSnapshot read s).files.flatMap declarations)) : (ofSnapshot read s).Orderly where
  toSpelled := spelled_ofSnapshot h.spelled fun d hd d' hd' hid => (hids d hd d' hd' hid).1
  spaces f hf := by
    obtain ⟨d, hd, rfl⟩ := List.mem_map.1 hf
    exact h.spaces d hd
  calls f hf := by
    obtain ⟨d, hd, rfl⟩ := List.mem_map.1 hf
    exact h.calls d hd
  members := hids

end Compilation

/-! ## Identifiers that a rename reaches -/

/-- Edits that write the new name over an identifier. -/
def Renames (edits : List DocumentEdit) (f : SourceFile) (x : Focus) (newName : String) : Prop :=
  ∃ e ∈ edits, e.path = f.path ∧ ⟨x.node.span, newName⟩ ∈ e.edits

theorem renames_iff {c : Compilation} (h : c.Spelled) {s : Symbol} (hs : s ∈ c.index.symbols) {f : SourceFile} {x : Focus}
    (hf : f ∈ c.files) (newName : String) : Renames (renameEdits (c.nameLocations c.calls s) newName) f x newName ↔
      f.location x.node ∈ c.nameLocations c.calls s := by
  constructor
  · rintro ⟨e, he, hpath, hte⟩
    obtain ⟨-, l, hl, hlpath, hlspan⟩ := mem_renameEdits he hte
    exact h.location_ext (h.placed_of_nameLocations hs hl) ⟨f, hf, x.node, rfl⟩ (hlpath.trans hpath) hlspan ▸ hl
  · exact fun hl => exists_edit hl newName

/-- A rename of a type reaches all that is spelled like it and declares nothing, and the constructors in its
declarations, but no destructor. A rename of a symbol of which there is one of that name reaches, in the type that
declares it, all uses of it as a field or property, and of a method the invocations, but no use that is no invocation. -/
theorem rename_reaches (read : Parser) (snapshot : Snapshot) (hread : read.Orderly snapshot)
    (hids : IdsTellMembers ((Compilation.ofSnapshot read snapshot).files.flatMap declarations)) :
    let c := Compilation.ofSnapshot read snapshot
    ∀ newName, Text.isIdentifier newName.toList → ∀ s ∈ c.index.symbols, s.kind ≠ .namespace → s.kind ≠ .constructor →
      ∃ edits, c.rename c.calls s newName = .ok edits ∧
        (s.kind.isType →
          (∀ l f x, c.At l f x → isDeclarationName x = false → f.word x.node = Symbol.stripArity s.name →
            Renames edits f x newName) ∧
          ∀ f x k, c.NamesMember s f x k →
            (k.kind = .constructorDeclaration → Renames edits f x newName) ∧
            (k.kind = .destructorDeclaration → ¬Renames edits f x newName)) ∧
        (c.NamedOnce s → ∀ t f x, c.UsedInside s t f x → Compilation.accessed? x = none → initializedType? x = none →
          (s.kind ∈ [SymbolKind.field, .property] → Renames edits f x newName) ∧
          (s.kind = .method → (Compilation.Invokes f x none → Renames edits f x newName) ∧
            ((∀ target, ¬Compilation.Invokes f x target) → ¬Renames edits f x newName))) := by
  intro c newName hname s hs hspace hctor
  have hc : c.Orderly := Compilation.orderly_ofSnapshot hread hids
  have hiff := fun {f x} (hf : f ∈ c.files) => renames_iff (x := x) hc.toSpelled hs hf newName
  refine ⟨renameEdits (c.nameLocations c.calls s) newName, ?_, fun hk => ⟨?_, ?_⟩, ?_⟩
  · unfold Compilation.rename
    rw [checkRename_ok hname hspace hctor]
  · intro l f x hx hplain hword
    refine (hiff hx.file).2 (Compilation.mem_nameLocations.2 (.inl ?_))
    exact (Compilation.mem_references hspace).2
      ⟨f, x, ⟨hx.file, hx.focus, hx.identifier, rfl⟩, hplain, (Compilation.refers_type hs hk).2 hword⟩
  · intro f x k hx
    refine ⟨fun hkind => (hiff hx.file).2 (hc.constructor_renamed hs hk hx hkind), fun hkind hr => ?_⟩
    exact hc.destructor_kept hs hspace ⟨hx.file, hx.focus, hx.identifier, rfl⟩ hx.parent hx.name hkind
      ((hiff hx.file).1 hr)
  · intro hone t f x hx haccess hkey
    have hrefers : c.Refers s f x → Renames (renameEdits (c.nameLocations c.calls s) newName) f x newName := fun hr =>
      (hiff hx.file).2 (Compilation.mem_nameLocations.2 (.inl
        ((Compilation.mem_references hspace).2 ⟨f, x, hx.at_, hx.plain, hr⟩)))
    refine ⟨fun hk => hrefers (hx.refers_value hc hs hk hone haccess hkey), fun hk => ⟨fun hcall => ?_, fun hnot hr => ?_⟩⟩
    · exact hrefers (hx.refers_method hc hs hk hone hcall)
    · exact hc.uncalled_kept hs hk hx.at_ hx.plain hnot ((hiff hx.file).1 hr)

/-- A class with a constructor and a destructor. -/
def destructible : Snapshot :=
  .addDocument .empty "App" "a.cs" "class A \x7b A() \x7b \x7d ~A() \x7b \x7d \x7d" none

theorem destructible_orderly : Parser.Orderly parse destructible :=
  ⟨by decide +kernel, by decide +kernel, by decide +kernel⟩

theorem rename_reaches_destructible :
    let c := Compilation.ofSnapshot parse destructible
    ∃ s ∈ c.index.symbols, ∃ edits, c.rename c.calls s "B" = .ok edits ∧ ∃ f x k x' k',
      c.NamesMember s f x k ∧ Renames edits f x "B" ∧ c.NamesMember s f x' k' ∧ ¬Renames edits f x' "B" := by
  intro c
  have hnodup : ((c.files.flatMap declarations).map Declared.id).Nodup := by decide +kernel
  have hids : IdsTellMembers (c.files.flatMap declarations) := fun d hd d' hd' hid => by
    obtain rfl := List.inj_on_of_nodup_map hnodup hd hd' hid
    exact ⟨rfl, rfl, rfl, rfl⟩
  have hc : c.Orderly := Compilation.orderly_ofSnapshot destructible_orderly hids
  have hmembers : ∃ s ∈ c.index.symbols, s.kind = .class_ ∧ ∃ f ∈ c.files, ∃ p ∈ f.sites, ∃ d ∈ p.own f, d.id = s.id ∧
      ∃ body ∈ p.node.body?.toList, body.isNamed ∧
        (body.children.any fun k => k.kind == .constructorDeclaration && k.name?.any (·.kind == .identifier)) ∧
        body.children.any fun k => k.kind == .destructorDeclaration && k.name?.any (·.kind == .identifier) := by
    decide +kernel
  obtain ⟨s, hs, hk, f, hf, p, hp, d, hd, hid, body, hbody, hnamed, hctor, hdestructor⟩ := hmembers
  simp only [List.any_eq_true, Bool.and_eq_true, beq_iff_eq, Option.any_eq_true] at hctor hdestructor
  obtain ⟨k, hchild, hkk, n, hn, hnk⟩ := hctor
  obtain ⟨k', hchild', hkk', n', hn', hnk'⟩ := hdestructor
  have hbody := Option.mem_toList.1 hbody
  obtain ⟨x, hx⟩ := hc.exists_namesMember hf hp hd hid hbody hnamed hchild (by simp [Node.isNamed, hkk])
    hn hnk
  obtain ⟨x', hx'⟩ := hc.exists_namesMember hf hp hd hid hbody hnamed hchild' (by simp [Node.isNamed, hkk'])
    hn' hnk'
  obtain ⟨edits, hedits, htype, -⟩ := rename_reaches parse destructible destructible_orderly hids "B" (by decide) s hs
    (by rw [hk]; decide) (by rw [hk]; decide)
  obtain ⟨-, hmember⟩ := htype (by rw [hk]; rfl)
  exact ⟨s, hs, edits, hedits, f, x, k, x', k', hx, (hmember f x k hx).1 hkk, hx', (hmember f x' k' hx').2 hkk'⟩

/-- A class with a method that is used without being called. -/
def methodGroup : Snapshot :=
  .addDocument .empty "App" "a.cs" "class A \x7b object N() \x7b return N; \x7d \x7d" none

/-- The only use of a method, in the type that declares it, keeps the old name. -/
theorem methodGroup_kept :
    let c := Compilation.ofSnapshot parse methodGroup
    ∃ s ∈ c.index.symbols, s.kind = .method ∧ c.NamedOnce s ∧ ∃ edits, c.rename c.calls s "B" = .ok edits ∧
      ∃ t f x, c.UsedInside s t f x ∧ Compilation.accessed? x = none ∧ initializedType? x = none ∧
        ¬Renames edits f x "B" := by
  intro c
  have horderly : Parser.Orderly parse methodGroup := ⟨by decide +kernel, by decide +kernel, by decide +kernel⟩
  have hnodup : ((c.files.flatMap declarations).map Declared.id).Nodup := by decide +kernel
  have hids : IdsTellMembers (c.files.flatMap declarations) := fun d hd d' hd' hid => by
    obtain rfl := List.inj_on_of_nodup_map hnodup hd hd' hid
    exact ⟨rfl, rfl, rfl, rfl⟩
  have hc : c.Orderly := Compilation.orderly_ofSnapshot horderly hids
  have hinvocation : ∀ f ∈ c.files, ∀ y ∈ f.root.foci, y.node.kind ≠ .invocationExpression := by decide +kernel
  have hmethod : ∃ s ∈ c.index.symbols, s.kind = .method ∧ s.name = "N" ∧ ∃ t ∈ c.index.symbols,
      t.kind.isType ∧ s.container = some t.qualname ∧ ∀ u ∈ c.index.symbols, u.name = "N" → u.id = s.id := by
    decide +kernel
  have hlocals : ∀ f ∈ c.files, ∀ n ∈ f.root.descendantsOf scopeKinds, ∀ m ∈ n.descendants,
    declaredTypes f "N" m = [] := by decide +kernel
  have huse : ∀ t ∈ c.index.symbols, t.kind.isType → ∃ f ∈ c.files, ∃ x ∈ f.root.foci,
      (x.node.kind = .identifier ∧ f.word x.node = "N" ∧ isDeclarationName x = false) ∧
        ((Compilation.accessed? x).isNone ∧ (initializedType? x).isNone) ∧
        ∃ site ∈ t.declarations, site.location.path = f.path ∧ site.extent.holds x.node.start := by decide +kernel
  obtain ⟨s, hs, hk, hname, t, ht, htk, hcontainer, hone⟩ := hmethod
  obtain ⟨f, hf, x, hx, ⟨hxk, hword, hplain⟩, ⟨haccess, hkey⟩, haround⟩ := huse t ht htk
  refine ⟨s, hs, hk, ⟨fun u hu hun => SymbolIndex.eq_of_id hu hs (hone u hu (hun.trans hname)), hname ▸ hlocals, ?_⟩,
    renameEdits (c.nameLocations c.calls s) "B", ?_, t, f, x,
    ⟨hf, hx, hxk, hcontainer, ⟨ht, htk⟩, haround, hword.trans hname.symm, hplain⟩, Option.isNone_iff_eq_none.1 haccess,
    Option.isNone_iff_eq_none.1 hkey, fun hr => ?_⟩
  · rw [hname]
    decide
  · rw [Compilation.rename, checkRename_ok (by decide) (by rw [hk]; decide) (by rw [hk]; decide)]
  · have hnot : ∀ target, ¬Compilation.Invokes f x target := by
      rintro target ⟨y, hy, hyk, -⟩
      exact hinvocation f hf y hy hyk
    exact hc.uncalled_kept hs hk ⟨hf, hx, hxk, rfl⟩ hplain hnot ((renames_iff hc.toSpelled hs hf "B").1 hr)

end Workbench.CSharp
