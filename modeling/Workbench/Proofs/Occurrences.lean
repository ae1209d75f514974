import Workbench.Proofs.Resolving
import Workbench.Proofs.Sites

/-!
# Identifiers by their places

In a tree whose ranges nest, and whose identifiers are leaves that cover
something, a place belongs to one identifier with one path around it. So what
an identifier names or calls can be read off the place of it.
-/

namespace Workbench.CSharp

/-! ## Walks -/

namespace Node

section
variable {n m c : Node} {x y : Focus} {around : List Node}

/-- Leaves that overlap are one, with what is around them. -/
theorem eq_of_leaves (h : n.nests) (hx : x ∈ n.walk (fun _ => true) around) (hy : y ∈ n.walk (fun _ => true) around)
    (hxleaf : x.node.children = []) (hyleaf : y.node.children = []) (hmeet : ¬x.node.apart y.node) : x = y := by
  induction n using childInduction generalizing around with
  | step n ih =>
    rcases mem_walk.1 hx with rfl | ⟨c, hc, -, hxc⟩
    · rcases mem_walk.1 hy with rfl | ⟨d, hd, -, -⟩
      · rfl
      · rw [hxleaf] at hd
        cases hd
    · rcases mem_walk.1 hy with rfl | ⟨d, hd, -, hyd⟩
      · rw [hyleaf] at hc
        cases hc
      · have : Std.Symm fun n m : Node => (n.apart m : Prop) := ⟨fun _ _ h => apart_comm ▸ h⟩
        by_cases he : c = d
        · exact ih c hc (nests_of_child h hc) hxc (he ▸ hyd)
        · have hapart : c.apart d := (nests_iff.1 h).2.2.forall hc hd he
          exact absurd (apart_below hapart (nests_of_child h hc) (nests_of_child h hd) (node_mem_descendants hxc)
            (node_mem_descendants hyd)) hmeet

end

end Node

/-! ## Trees in which names are identifiers -/

/-- Declarations of types, methods, constructors and properties, which have a name of their own. -/
def Kind.declares (k : Kind) : Bool :=
  k.isTypeDeclaration || [.methodDeclaration, .constructorDeclaration, .propertyDeclaration].contains k

/-- Kinds of names in several parts, and of directives. -/
def wideKinds : List Kind := [.qualifiedName, .aliasQualifiedName, .usingDirective]

/-- Ranges nest, identifiers are leaves, and what is declared is named by one. Only a namespace may have a
name in several parts. -/
structure Node.Spelled (root : Node) : Prop where
  nests : root.nests
  leaves : ∀ n ∈ root.descendants, n.kind = .identifier → n.children = [] ∧ n.start < n.stop
  names : ∀ n ∈ root.descendants, n.kind.declares ∨ n.kind = .variableDeclarator →
    ∀ x ∈ n.name?, x.kind = .identifier
  declarators : ∀ n ∈ root.descendants, n.kind = .variableDeclarator → n.name?.isSome
  spaces : ∀ n ∈ root.descendants, n.kind = .namespaceDeclaration ∨ n.kind = .fileScopedNamespaceDeclaration →
    ∀ x ∈ n.name?, x.kind = .identifier ∨ x.kind ∈ wideKinds
  wide : ∀ n ∈ root.descendants, n.kind ∈ wideKinds →
    ∀ x ∈ n.descendants, x.kind = .identifier → x.start ≠ n.start ∨ x.stop ≠ n.stop

instance (root : Node) : Decidable root.Spelled :=
  decidable_of_iff (root.nests ∧ _ ∧ _ ∧ _ ∧ _ ∧ _)
    ⟨fun ⟨nests, leaves, names, declarators, spaces, wide⟩ => ⟨nests, leaves, names, declarators, spaces, wide⟩,
      fun h => ⟨h.nests, h.leaves, h.names, h.declarators, h.spaces, h.wide⟩⟩

section
variable {f : SourceFile} {root : Node} {x y : Focus} {n : Node} (h : root.Spelled)
include h

/-- An identifier is known by its range. -/
theorem Node.Spelled.focus_ext (hx : x ∈ root.foci) (hy : y ∈ root.foci) (hxk : x.node.kind = .identifier)
    (hyk : y.node.kind = .identifier) (hspan : x.node.span = y.node.span) : x = y := by
  obtain ⟨hxleaf, hxlt⟩ := h.leaves _ (Node.node_mem_descendants hx) hxk
  obtain ⟨hyleaf, hylt⟩ := h.leaves _ (Node.node_mem_descendants hy) hyk
  refine Node.eq_of_leaves h.nests hx hy hxleaf hyleaf fun hapart => ?_
  have hstart := congrArg Span.start hspan
  have hstop := congrArg Span.stop hspan
  rw [Node.start_span, Node.start_span] at hstart
  rw [Node.stop_span_of_nests (Node.nests_of_mem_descendants h.nests (Node.node_mem_descendants hx)),
    Node.stop_span_of_nests (Node.nests_of_mem_descendants h.nests (Node.node_mem_descendants hy))] at hstop
  simp only [Node.apart, Bool.or_eq_true, decide_eq_true_eq] at hapart
  omega

/-- No name in several parts and no directive has the range of an identifier. -/
theorem Node.Spelled.span_ne (hx : x ∈ root.foci) (hxk : x.node.kind = .identifier) (hn : n ∈ root.descendants)
    (hnk : n.kind ∈ wideKinds) : x.node.span ≠ n.span := by
  intro hspan
  have hxmem := Node.node_mem_descendants hx
  obtain ⟨hxleaf, hxlt⟩ := h.leaves _ hxmem hxk
  have hstart := congrArg Span.start hspan
  have hstop := congrArg Span.stop hspan
  rw [Node.start_span, Node.start_span] at hstart
  rw [Node.stop_span_of_nests (Node.nests_of_mem_descendants h.nests hxmem),
    Node.stop_span_of_nests (Node.nests_of_mem_descendants h.nests hn)] at hstop
  rcases Node.below_or_apart h.nests hxmem hn with hbelow | hbelow | hapart
  · exact (h.wide n hn hnk _ hbelow hxk).elim (fun hne => hne hstart) fun hne => hne hstop
  · rcases Node.mem_descendants.1 hbelow with rfl | ⟨c, hc, -⟩
    · rw [hxk] at hnk
      exact absurd hnk (by decide)
    · rw [hxleaf] at hc
      cases hc
  · simp only [Node.apart, Bool.or_eq_true, decide_eq_true_eq] at hapart
    omega

end

/-! ## What an identifier declares -/

/-- The node of the declaration that an identifier names; for a declarator, the one around all its siblings. -/
def Focus.declaring? (x : Focus) : Option Node :=
  match x.parent? with
  | some p => if p.kind = .variableDeclarator then x.around[2]? else some p
  | none => none

/-- What a site declares under its own name. -/
structure NamedBy (f : SourceFile) (p : Site) (d : Declared) (at_ : Node) : Prop where
  alone : p.own f = [d]
  name : p.node.name? = some at_
  location : d.location = f.location at_
  kind : d.kind ≠ .namespace ∧ p.node.kind.declares ∨
    d.kind = .namespace ∧ (p.node.kind = .namespaceDeclaration ∨ p.node.kind = .fileScopedNamespaceDeclaration)
  word : d.kind ≠ .namespace → d.kind ≠ .constructor → d.name = f.word at_ ∧ f.word at_ ≠ ""

/-- A field that a site declares. -/
structure FieldBy (f : SourceFile) (p : Site) (d : Declared) (at_ : Node) : Prop where
  kind : p.node.kind = .fieldDeclaration
  declarator : ∃ v, p.node.variableDeclaration? = some v ∧ ∃ t ∈ v.declarators, t.declaratorName? = some at_
  eq : d = declareMember f p.around .field p.node at_ (f.word at_) (f.word at_) false
  word : f.word at_ ≠ ""

/-- A declaration at a site is named by a child of it, or else by a declarator in it. -/
theorem own_cases {f : SourceFile} {p : Site} {d : Declared} (hd : d ∈ p.own f) :
    (∃ at_, NamedBy f p d at_) ∨ ∃ at_, FieldBy f p d at_ := by
  cases makes_of_own hd with
  | space hk hname halone hmade =>
    obtain ⟨hkind, hlocation, -⟩ := hmade
    exact .inl ⟨_, halone, (nameOf?_spec hname).1, hlocation, .inr ⟨hkind, hk⟩, fun h => absurd hkind h⟩
  | @type kind _ _ htype hname halone =>
    obtain ⟨hat, hword, hne⟩ := nameOf?_spec hname
    have hkinds : kind ≠ .namespace ∧ p.node.kind.declares := by
      revert htype
      cases p.node.kind <;> intro htype <;> cases htype <;> exact ⟨nofun, rfl⟩
    exact .inl ⟨_, halone, hat, rfl, .inl hkinds, fun _ _ => ⟨hword.symm, hword ▸ hne⟩⟩
  | method hk hname halone | property hk hname halone =>
    obtain ⟨hat, hword, hne⟩ := nameOf?_spec hname
    exact .inl ⟨_, halone, hat, rfl, .inl ⟨nofun, by rw [hk]; rfl⟩, fun _ _ => ⟨hword.symm, hword ▸ hne⟩⟩
  | constructor hk hname _ halone =>
    exact .inl ⟨_, halone, hname, rfl, .inl ⟨nofun, by rw [hk]; rfl⟩, fun _ h => absurd rfl h⟩
  | field hk hv ht hname =>
    obtain ⟨hat, hword, hne⟩ := nameOf?_spec hname
    exact .inr ⟨_, hk, ⟨_, hv, _, ht, hat⟩, by rw [hword], hword ▸ hne⟩

/-- An identifier, or else a name of a namespace, that stands where a site declares something. -/
structure Naming (f : SourceFile) (p : Site) (d : Declared) (x : Focus) : Prop where
  source : NamedBy f p d x.node ∨ FieldBy f p d x.node
  focus : x ∈ f.root.foci
  below : x.node.Below p.node
  declaring : x.declaring? = some p.node
  location : d.location = f.location x.node
  identifier : d.kind ≠ .namespace → x.node.kind = .identifier
  space : d.kind = .namespace → x.node.kind = .identifier ∨ x.node.kind ∈ wideKinds
  isName : p.node.kind ≠ .fileScopedNamespaceDeclaration → isDeclarationName x

section
variable {f : SourceFile} {p q : Site} {d d' : Declared} {x y : Focus} (h : f.root.Spelled)
include h

theorem mem_descendants_of_sites (hp : p ∈ f.sites) : p.node ∈ f.root.descendants :=
  mem_descendants_of_nests h.nests hp

theorem naming_of_namedBy {at_ : Node} (hp : p ∈ f.sites) (hd : NamedBy f p d at_) : ∃ x, Naming f p d x := by
  have hmem := mem_descendants_of_sites h hp
  obtain ⟨y, hy, hnode⟩ := Node.exists_focus hmem
  have hchild := mem_of_child? hd.name
  have hkind : (d.kind ≠ .namespace → at_.kind = .identifier) ∧ (at_.kind = .identifier ∨ at_.kind ∈ wideKinds) := by
    rcases hd.kind with ⟨hne, hk⟩ | ⟨he, hk⟩
    · have := h.names p.node hmem (.inl hk) at_ hd.name
      exact ⟨fun _ => this, .inl this⟩
    · exact ⟨fun hne => absurd he hne, h.spaces p.node hmem hk at_ hd.name⟩
  have hnamed : at_.isNamed := by
    have hne : at_.kind ≠ .token := by
      rintro hk
      rw [hk] at hkind
      exact absurd hkind.2 (by decide)
    simpa [Node.isNamed] using hne
  have hplain : p.node.kind ≠ .variableDeclarator := by
    intro hk
    have hkinds := hd.kind
    rw [hk] at hkinds
    exact absurd hkinds (by simp [Kind.declares, Kind.isTypeDeclaration])
  refine ⟨y.down at_, .inl hd, Node.down_mem_walk hy (hnode ▸ hchild) hnamed, Node.below_of_child hchild hnamed
    (Node.mem_descendants_self at_), ?_, hd.location, hkind.1, fun _ => hkind.2, fun hfile => ?_⟩
  · simp [Focus.declaring?, Focus.parent?, Focus.down, hnode, hplain]
  · have hsame : p.node.name?.any fun n => n.same at_ := by rw [hd.name]; simp [Node.same]
    have hlisted : (p.node.kind.isTypeDeclaration || p.node.kind.isMemberDeclaration ||
        [Kind.variableDeclarator, .parameter, .namespaceDeclaration, .typeParameter].contains p.node.kind) = true := by
      rcases hd.kind with ⟨-, hk⟩ | ⟨-, hk⟩
      · unfold Kind.declares at hk
        cases hp : p.node.kind <;> rw [hp] at hk <;> first | rfl | cases hk
      · rw [hk.resolve_right hfile]
        rfl
    simp only [isDeclarationName, Focus.parent?, Focus.down, List.head?_cons, hnode, hlisted, Bool.true_and]
    exact hsame

theorem naming_of_fieldBy {at_ : Node} (hp : p ∈ f.sites) (hd : FieldBy f p d at_) : ∃ x, Naming f p d x := by
  have hmem := mem_descendants_of_sites h hp
  obtain ⟨y, hy, hnode⟩ := Node.exists_focus hmem
  obtain ⟨v, hv, t, ht, hat⟩ := hd.declarator
  have hvchild := mem_of_variableDeclaration? hv
  have hvkind : v.kind = .variableDeclaration := by simpa using List.find?_some hv
  have htkind : t.kind = .variableDeclarator := by simpa using (List.mem_filter.1 ht).2
  have hvnamed : v.isNamed := by simp [Node.isNamed, hvkind]
  have htnamed : t.isNamed := by simp [Node.isNamed, htkind]
  have hvf := Node.down_mem_walk hy (hnode ▸ hvchild) hvnamed
  have htf := Node.down_mem_walk hvf (mem_of_declarators ht) htnamed
  have htmem := Node.node_mem_descendants htf
  have hname : t.name? = some at_ := by
    obtain ⟨name, hname⟩ := Option.isSome_iff_exists.1 (h.declarators t htmem htkind)
    rw [Node.declaratorName?, hname, Option.some_or] at hat
    exact hname.trans hat
  have hkind : at_.kind = .identifier := h.names t htmem (.inr htkind) at_ hname
  have hnamed : at_.isNamed := by simp [Node.isNamed, hkind]
  have hbelow : at_ ∈ v.descendants := Node.mem_descendants_of_child (mem_of_declarators ht) htnamed
    (Node.mem_descendants_of_child (mem_of_child? hname) hnamed (Node.mem_descendants_self at_))
  have hfield : d.kind = .field := by rw [hd.eq]; rfl
  refine ⟨_, .inr hd, Node.down_mem_walk htf (mem_of_child? hname) hnamed, Node.below_of_child hvchild hvnamed hbelow,
    ?_, by rw [hd.eq]; rfl, fun _ => hkind, fun _ => .inl hkind, fun _ => ?_⟩
  · simp [Focus.declaring?, Focus.parent?, Focus.down, hnode, htkind]
  · simp [isDeclarationName, Focus.parent?, Focus.down, htkind, hname, Node.same]

/-- What a file declares is named in its tree. -/
theorem exists_naming (hd : d ∈ declarations f) : ∃ p ∈ f.sites, d ∈ p.own f ∧ ∃ x, Naming f p d x := by
  rw [declarations_eq_sites] at hd
  obtain ⟨p, hp, hd⟩ := List.mem_flatMap.1 hd
  rcases own_cases hd with ⟨at_, hat⟩ | ⟨at_, hat⟩
  · exact ⟨p, hp, hd, naming_of_namedBy h hp hat⟩
  · exact ⟨p, hp, hd, naming_of_fieldBy h hp hat⟩

/-- Sites with an identifier in them are told apart by their nodes. -/
theorem site_ext (hp : p ∈ f.sites) (hq : q ∈ f.sites) (he : p.node = q.node) (hlt : p.node.start < p.node.stop) :
    p = q := by
  have : Std.Symm fun p q : Site => p.node.start < p.node.stop → p.node ≠ q.node :=
    ⟨fun _ _ h hlt he => h (he ▸ hlt) he.symm⟩
  refine Classical.byContradiction fun hne => ?_
  exact (stand_sites h.nests).separate.forall hp hq hne hlt he

theorem Naming.start_lt_stop (hx : Naming f p d x) (hp : p ∈ f.sites) (hk : x.node.kind = .identifier) :
    p.node.start < p.node.stop := by
  have hlt := (h.leaves _ (Node.node_mem_descendants hx.focus) hk).2
  have hnests := Node.nests_of_mem_descendants h.nests (mem_descendants_of_sites h hp)
  have hwithin := Node.within_of_mem_descendants hnests hx.below.mem
  have := hwithin.start
  have := hwithin.stop
  omega

omit h in
theorem Naming.isName_of (hx : Naming f p d x) (hk : d.kind ≠ .namespace) : isDeclarationName x := by
  refine hx.isName fun hfile => ?_
  rcases hx.source with hs | hs
  · rcases hs.kind with ⟨-, hdeclares⟩ | ⟨he, -⟩
    · rw [hfile] at hdeclares
      cases hdeclares
    · exact hk he
  · rw [hs.kind] at hfile
    cases hfile

theorem Naming.unique (hp : p ∈ f.sites) (hq : q ∈ f.sites) (hd : d ∈ p.own f) (hd' : d' ∈ q.own f)
    (hx : Naming f p d x) (hx' : Naming f q d' x) (hk : x.node.kind = .identifier) : p = q ∧ d = d' := by
  have hnode : p.node = q.node := Option.some.inj (hx.declaring.symm.trans hx'.declaring)
  obtain rfl := site_ext h hp hq hnode (hx.start_lt_stop h hp hk)
  refine ⟨rfl, ?_⟩
  rcases hx.source with hs | hs
  · exact (List.mem_singleton.1 (hs.alone ▸ hd')).symm
  · rcases hx'.source with hs' | hs'
    · exact List.mem_singleton.1 (hs'.alone ▸ hd)
    · rw [hs.eq, hs'.eq]

end

/-! ## What an identifier calls -/

/-- Kinds of nodes between a call and the name in it. -/
def nameParts : List Kind := [.genericName, .qualifiedName, .aliasQualifiedName, .memberAccessExpression]

/-- What is around the name that an identifier is part of; of the name of a call, the call is the first of it. -/
def Focus.aroundName (x : Focus) : List Node := x.around.dropWhile fun n => nameParts.contains n.kind

/-- An identifier at the end of a path through parts of names. -/
def LeadsTo (root : Node) (y : Focus) (name : Node) : Prop :=
  name.kind = .identifier ∧ ∃ path, (∀ n ∈ path, nameParts.contains n.kind) ∧ ⟨name, path ++ y.around⟩ ∈ root.foci

section
variable {root n name : Node} {y : Focus}

theorem isNamed_of_simpleName? (h : n.simpleName? = some name) : n.isNamed := by
  have hne : n.kind ≠ .token := by
    intro hk
    cases n
    cases hk
    cases h
  simpa [Node.isNamed] using hne

/-- One more part of a name on the path. -/
theorem LeadsTo.up (h : LeadsTo root (y.down n) name) (hk : nameParts.contains y.node.kind) : LeadsTo root y name := by
  obtain ⟨hkind, path, hpath, hmem⟩ := h
  refine ⟨hkind, path ++ [y.node], ?_, by simpa [Focus.down] using hmem⟩
  intro m hm
  rcases List.mem_append.1 hm with hm | hm
  · exact hpath m hm
  · exact List.mem_singleton.1 hm ▸ hk

theorem leadsTo_simpleName (hy : y ∈ root.foci) (h : y.node.simpleName? = some name) : LeadsTo root y name := by
  obtain ⟨n, around⟩ := y
  induction n using Node.childInduction generalizing around with
  | step n ih =>
    have hlast : nameParts.contains n.kind → Node.simpleName?.last n.children = some name → LeadsTo root ⟨n, around⟩ name := by
      intro hk hl
      obtain ⟨c, hc, hname⟩ := mem_of_last hl
      have hdown := Node.down_mem_walk hy hc (isNamed_of_simpleName? hname)
      exact (ih c hc _ hdown hname).up hk
    dsimp only at h
    unfold Node.simpleName? at h
    split at h
    · cases h
      exact ⟨rfl, [], by simp, hy⟩
    · have hkind : name.kind = .identifier := by simpa using List.find?_some h
      have hdown := Node.down_mem_walk hy (List.mem_of_find?_eq_some h) (by simp [Node.isNamed, hkind])
      have hlead : LeadsTo root (Focus.down _ name) name := ⟨hkind, [], by simp, hdown⟩
      exact hlead.up rfl
    · exact hlast rfl h
    · exact hlast rfl h
    · cases h

theorem isDeclarationName_eq_false {x : Focus} {p : Node} (hp : x.parent? = some p)
    (hk : nameParts.contains p.kind ∨ callKinds.contains p.kind) : isDeclarationName x = false := by
  have hlisted : (p.kind.isTypeDeclaration || p.kind.isMemberDeclaration ||
      [Kind.variableDeclarator, .parameter, .namespaceDeclaration, .typeParameter].contains p.kind) = false := by
    simp only [nameParts, callKinds, List.contains_iff_mem, List.mem_cons, List.not_mem_nil, or_false] at hk
    rcases hk with (h | h | h | h) | (h | h) <;> rw [h] <;> rfl
  unfold isDeclarationName
  rw [hp]
  simp only [hlisted, Bool.false_and]

theorem calledName?_of_resolveInvocation {c : Compilation} {f : SourceFile} {x : Focus} {callee : Symbol}
    (h : c.resolveInvocation f x = some (callee, name)) :
    ∃ function target, x.node.child? .function = some function ∧ Compilation.calledName? function = some (name, target) := by
  obtain ⟨function, hfunction, h⟩ := Option.bind_eq_some_iff.1 h
  obtain ⟨⟨called, target⟩, hcalled, h⟩ := Option.bind_eq_some_iff.1 h
  have hchosen : ∀ {o : Option Symbol}, (do let s ← o; pure (s, called)) = some (callee, name) → called = name := by
    intro o ho
    obtain ⟨s, -, he⟩ := Option.bind_eq_some_iff.1 ho
    cases he
    rfl
  obtain rfl : called = name := by
    dsimp only at h
    split at h
    · exact hchosen h
    · exact hchosen h
    · exact hchosen h
    · split at h <;> exact hchosen h
  exact ⟨function, target, hfunction, hcalled⟩

theorem leadsTo_calledName {target : Option Node} (hy : y ∈ root.foci)
    (h : Compilation.calledName? y.node = some (name, target)) : LeadsTo root y name := by
  have hsimple : ∀ {o : Option Node} {t : Option Node}, (o.map fun m => (m, t)) = some (name, target) → o = some name := by
    intro o t ho
    obtain ⟨m, hm, he⟩ := Option.map_eq_some_iff.1 ho
    cases he
    exact hm
  unfold Compilation.calledName? at h
  split at h
  · exact leadsTo_simpleName hy (hsimple h)
  · exact leadsTo_simpleName hy (hsimple h)
  · rename_i hk
    obtain ⟨k, hk', hm⟩ := Option.bind_eq_some_iff.1 (hsimple h)
    have hlead := leadsTo_simpleName (Node.down_mem_walk hy (mem_of_child? hk') (isNamed_of_simpleName? hm)) hm
    exact hlead.up (by rw [hk]; rfl)
  · cases h

/-- The name in a call is an identifier of the tree that declares nothing, and leads back to the call. -/
theorem exists_called {c : Compilation} {f : SourceFile} {x : Focus} {callee : Symbol}
    (hx : x ∈ f.root.fociOf callKinds) (h : c.resolve f x = some (callee, name)) :
    ∃ z ∈ f.root.foci, z.node = name ∧ z.node.kind = .identifier ∧ z.aroundName = x.node :: x.around ∧
      isDeclarationName z = false := by
  obtain ⟨hmem, hcall⟩ := List.mem_filter.1 hx
  have hlead : ∃ n, LeadsTo f.root (x.down n) name := by
    unfold Compilation.resolve at h
    split at h
    · obtain ⟨function, target, hfunction, hcalled⟩ := calledName?_of_resolveInvocation h
      have hnamed : function.isNamed := by
        have hne : function.kind ≠ .token := by
          intro hk
          rw [Compilation.calledName?, hk] at hcalled
          cases hcalled
        simpa [Node.isNamed] using hne
      exact ⟨function, leadsTo_calledName (Node.down_mem_walk hmem (mem_of_child? hfunction) hnamed) hcalled⟩
    · obtain ⟨written, hwritten, h⟩ := Option.bind_eq_some_iff.1 h
      obtain ⟨m, hm, h⟩ := Option.bind_eq_some_iff.1 h
      obtain ⟨type, -, h⟩ := Option.bind_eq_some_iff.1 h
      cases h
      exact ⟨written, leadsTo_simpleName (Node.down_mem_walk hmem (mem_of_child? hwritten) (isNamed_of_simpleName? hm)) hm⟩
    · cases h
  obtain ⟨n, hkind, path, hpath, hfocus⟩ := hlead
  refine ⟨_, hfocus, rfl, hkind, ?_, ?_⟩
  · have hstop : nameParts.contains x.node.kind = false := by
      simp only [callKinds, List.contains_iff_mem, List.mem_cons, List.not_mem_nil, or_false] at hcall
      rcases hcall with h | h <;> rw [h] <;> rfl
    rw [Focus.aroundName, List.dropWhile_append_of_pos hpath]
    exact List.dropWhile_cons_of_neg (by rw [hstop]; decide)
  · cases path with
    | nil => exact isDeclarationName_eq_false (p := x.node) rfl (.inr hcall)
    | cons m rest => exact isDeclarationName_eq_false (p := m) rfl (.inl (hpath m List.mem_cons_self))

end

end Workbench.CSharp
