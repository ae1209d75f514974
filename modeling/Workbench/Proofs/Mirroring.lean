import Workbench.CSharp.Tree
import Workbench.Proofs.Chains

/-!
# Declarations mirror the source

In a tree in source order, what comes later among the sites of a file lies
behind what comes before it or in it. So names come in ascending order, and what
is declared in a type comes after the type, which is its container.
-/

namespace Workbench.CSharp

/-! ## Trees in source order -/

/-- A namespace or a type, in which what is declared there is declared inside it. -/
def Kind.opensScope (k : Kind) : Bool := k == .namespaceDeclaration || k.isTypeDeclaration

/-- The tree of a document: ranges nest, siblings follow one another, and a namespace or type is named before the
declarations in it, and has a body that is none itself. A constructor does not end where its name begins. -/
structure Node.InOrder (root : Node) : Prop where
  unit : root.kind = .compilationUnit
  nests : root.nests
  siblings : ∀ n ∈ root.descendants, n.children.Pairwise fun a b => a.stop ≤ b.start
  heads : ∀ n ∈ root.descendants, n.kind.opensScope ∨ n.kind = .fileScopedNamespaceDeclaration → ∀ at_ ∈ n.name?,
    ∀ c ∈ n.children, c.isNamed → ∀ m ∈ c.descendants, m.kind.opensScope ∨ m.kind.isMemberDeclaration →
      at_.stop ≤ m.start
  bodies : ∀ n ∈ root.descendants, n.kind.opensScope → ∀ c ∈ n.children, c.role = .body → c.kind.opensScope = false
  constructors : ∀ n ∈ root.descendants, n.kind = .constructorDeclaration → ∀ at_ ∈ n.name?, at_.start < n.stop

instance (root : Node) : Decidable root.InOrder :=
  decidable_of_iff (root.kind = .compilationUnit ∧ root.nests ∧ _ ∧ _ ∧ _ ∧ _)
    ⟨fun ⟨unit, nests, siblings, heads, bodies, constructors⟩ => ⟨unit, nests, siblings, heads, bodies, constructors⟩,
      fun h => ⟨h.unit, h.nests, h.siblings, h.heads, h.bodies, h.constructors⟩⟩

/-! ## The course of sites -/

/-- One site comes behind another, or inside it. -/
def Trails (p q : Site) : Prop :=
  p.node.stop ≤ q.node.start ∨
    (p.node.kind.opensScope ∨ p.node.kind = .fileScopedNamespaceDeclaration) ∧ q.node.Below p.node ∧
      (q.node.kind.opensScope ∨ q.node.kind.isMemberDeclaration)

/-- Where the nearest scope on the way down to a site is a type, one of some sites declares that type, and the site is
in its body. -/
def Scoped (f : SourceFile) (ps : List Site) (inner : List Node) (q : Site) : Prop :=
  ∀ t, inner.find? (·.kind.opensScope) = some t → t.kind.isTypeDeclaration →
    ∃ p ∈ ps, p.node = t ∧ q.node.Below t ∧ ∃ name, p.typed? f = some name ∧ q.around = p.inType name

/-- Of the sites in nodes side by side: in which order they come, and in which scopes they are. Where `e` is given, it
is around those that are in no scope of their own. -/
structure Course (f : SourceFile) (e : Option Enclosure) (around ns : List Node) (ps : List Site) : Prop where
  ordered : ps.Pairwise Trails
  kinds : e.isSome → ∀ p ∈ ps, p.node.kind.opensScope ∨ p.node.kind.isMemberDeclaration
  placed : ∀ q ∈ ps, ∃ n ∈ ns, n.isNamed ∧ ∃ inner,
    Focus.mk q.node (inner ++ around) ∈ n.walk (fun _ => true) around ∧ Scoped f ps inner q ∧
      (inner.find? (·.kind.opensScope) = none → ∀ inside ∈ e, q.around = inside)

section
variable {f : SourceFile} {n c : Node} {around ns ns' : List Node} {e : Option Enclosure} {inside : Enclosure}
  {p q : Site} {ps qs : List Site}

theorem Scoped.mono {inner : List Node} (h : Scoped f ps inner q) (hsub : ps ⊆ qs) : Scoped f qs inner q := by
  intro t ht htype
  obtain ⟨p, hp, hrest⟩ := h t ht htype
  exact ⟨p, hsub hp, hrest⟩

theorem Course.nil (f : SourceFile) (e : Option Enclosure) (around ns : List Node) : Course f e around ns [] where
  ordered := .nil
  kinds := by simp
  placed := by simp

theorem Course.mono (h : Course f e around ns ps) (hsub : ns ⊆ ns') : Course f e around ns' ps where
  ordered := h.ordered
  kinds := h.kinds
  placed q hq := by
    obtain ⟨n, hn, hrest⟩ := h.placed q hq
    exact ⟨n, hsub hn, hrest⟩

/-- At the top of a file nothing is said of what is around. -/
theorem Course.top (h : Course f e around ns ps) : Course f none around ns ps where
  ordered := h.ordered
  kinds := nofun
  placed q hq := by
    obtain ⟨n, hn, hnamed, inner, hfocus, hscoped, -⟩ := h.placed q hq
    exact ⟨n, hn, hnamed, inner, hfocus, hscoped, fun _ => nofun⟩

theorem Course.exists_mem_descendants (h : Course f e around ns ps) (hp : p ∈ ps) :
    ∃ n ∈ ns, n.isNamed ∧ p.node ∈ n.descendants := by
  obtain ⟨n, hn, hnamed, _, hfocus, -⟩ := h.placed p hp
  exact ⟨n, hn, hnamed, Node.node_mem_descendants hfocus⟩

/-- Sites in a later sibling come behind those in an earlier one. -/
theorem Course.cons (h : Course f e around [n] ps) (h' : Course f e around ns qs) (hn : n.nests)
    (hns : ∀ c ∈ ns, c.nests) (hbefore : ∀ c ∈ ns, n.stop ≤ c.start) : Course f e around (n :: ns) (ps ++ qs) where
  ordered := by
    refine List.pairwise_append.2 ⟨h.ordered, h'.ordered, fun p hp q hq => .inl ?_⟩
    obtain ⟨m, hm, -, hpm⟩ := h.exists_mem_descendants hp
    obtain rfl := List.mem_singleton.1 hm
    obtain ⟨c, hc, -, hqc⟩ := h'.exists_mem_descendants hq
    have hp := (Node.within_of_mem_descendants hn hpm).stop
    have hq := (Node.within_of_mem_descendants (hns c hc) hqc).start
    exact Nat.le_trans hp (Nat.le_trans (hbefore c hc) hq)
  kinds he p hp := (List.mem_append.1 hp).elim (h.kinds he p) (h'.kinds he p)
  placed q hq := by
    rcases List.mem_append.1 hq with hq | hq
    · obtain ⟨m, hm, hnamed, inner, hfocus, hscoped, hrest⟩ := h.placed q hq
      exact ⟨m, List.mem_cons.2 (.inl (List.mem_singleton.1 hm)), hnamed, inner, hfocus,
        hscoped.mono (List.subset_append_left ps qs), hrest⟩
    · obtain ⟨c, hc, hnamed, inner, hfocus, hscoped, hrest⟩ := h'.placed q hq
      exact ⟨c, List.mem_cons_of_mem n hc, hnamed, inner, hfocus, hscoped.mono (List.subset_append_right ps qs), hrest⟩

theorem mem_walk_of_child {inner : List Node} {m : Node} (hc : c ∈ n.children) (hnamed : c.isNamed)
    (hm : Focus.mk m (inner ++ n :: around) ∈ c.walk (fun _ => true) (n :: around)) :
    Focus.mk m (inner ++ [n] ++ around) ∈ n.walk (fun _ => true) around := by
  rw [List.append_assoc, List.singleton_append]
  exact Node.mem_walk.2 (.inr ⟨c, hc, hnamed, hm⟩)

/-- A node that opens no scope changes nothing for what is in it. -/
theorem Course.up (h : Course f e (n :: around) n.children ps) (hn : n.isNamed) (hk : n.kind.opensScope = false) :
    Course f e around [n] ps where
  ordered := h.ordered
  kinds := h.kinds
  placed q hq := by
    obtain ⟨c, hc, hnamed, inner, hfocus, hscoped, hrest⟩ := h.placed q hq
    have hfind : (inner ++ [n]).find? (·.kind.opensScope) = inner.find? (·.kind.opensScope) := by
      simp [List.find?_append, hk]
    refine ⟨n, List.mem_singleton_self n, hn, inner ++ [n], mem_walk_of_child hc hnamed hfocus, ?_, ?_⟩
    · exact fun t ht => hscoped t (hfind ▸ ht)
    · exact fun hnone => hrest (hfind ▸ hnone)

/-- A namespace or a type around the sites in it. -/
theorem Course.under (h : Course f (some inside) (p.node :: around) p.node.children ps) (hn : p.node.isNamed)
    (hk : p.node.kind.opensScope ∨ p.node.kind = .fileScopedNamespaceDeclaration)
    (he : ∀ e' ∈ e, p.node.kind.opensScope ∧ p.around = e')
    (htype : p.node.kind.isTypeDeclaration → ∃ name, p.typed? f = some name ∧ inside = p.inType name) :
    Course f e around [p.node] (p :: ps) where
  ordered := by
    refine List.pairwise_cons.2 ⟨fun q hq => .inr ⟨hk, ?_, h.kinds rfl q hq⟩, h.ordered⟩
    obtain ⟨c, hc, hnamed, hqc⟩ := h.exists_mem_descendants hq
    exact Node.below_of_child hc hnamed hqc
  kinds hsome q hq := by
    obtain ⟨e', rfl⟩ := Option.isSome_iff_exists.1 hsome
    rcases List.mem_cons.1 hq with rfl | hq
    · exact .inl (he e' rfl).1
    · exact h.kinds rfl q hq
  placed q hq := by
    rcases List.mem_cons.1 hq with rfl | hq
    · have hself : Focus.mk q.node ([] ++ around) ∈ q.node.walk (fun _ => true) around := Node.mem_walk.2 (.inl rfl)
      exact ⟨q.node, List.mem_singleton_self _, hn, [], hself, nofun, fun _ e' he' => (he e' he').2⟩
    · obtain ⟨c, hc, hnamed, inner, hfocus, hscoped, hrest⟩ := h.placed q hq
      refine ⟨p.node, List.mem_singleton_self _, hn, inner ++ [p.node], mem_walk_of_child hc hnamed hfocus, ?_, ?_⟩
      · intro t ht htyped
        cases hfind : inner.find? (·.kind.opensScope) with
        | some s =>
          rw [List.find?_append, hfind, Option.some_or] at ht
          obtain rfl := Option.some.inj ht
          exact hscoped.mono (List.subset_cons_self p ps) s hfind htyped
        | none =>
          rw [List.find?_append, hfind, Option.none_or] at ht
          obtain rfl := List.mem_singleton.1 (List.mem_of_find?_eq_some ht)
          obtain ⟨name, hname, rfl⟩ := htype htyped
          have hbelow := Node.below_of_child hc hnamed (Node.node_mem_descendants hfocus)
          exact ⟨p, List.mem_cons_self, rfl, hbelow, name, hname, hrest hfind _ rfl⟩
      · intro hnone e' he'
        rw [List.find?_append, Option.or_eq_none_iff] at hnone
        simp [(he e' he').1] at hnone

/-- A member, in which no further sites are looked for. -/
theorem Course.member (f : SourceFile) (around : List Node) (hn : n.isNamed) (hk : n.kind.isMemberDeclaration) :
    Course f (some inside) around [n] [⟨inside, n⟩] where
  ordered := List.pairwise_singleton _ _
  kinds _ q hq := by
    obtain rfl := List.mem_singleton.1 hq
    exact .inr hk
  placed q hq := by
    obtain rfl := List.mem_singleton.1 hq
    exact ⟨n, List.mem_singleton_self n, hn, [], Node.mem_walk.2 (.inl rfl), nofun, fun _ _ he => Option.some.inj he⟩

/-! ## The course of all sites -/

theorem isTypeDeclaration_of_typeKind {k : Kind} : (typeKind? k).isSome = k.isTypeDeclaration := by
  cases k <;> rfl

theorem opensScope_of_plain {k : Kind} (hk : Node.declaresPlainly k) : k.opensScope = (typeKind? k).isSome := by
  have hne : (k == .namespaceDeclaration) = false := by
    rw [beq_eq_false_iff_ne]
    rintro rfl
    cases hk
  rw [Kind.opensScope, hne, Bool.false_or, isTypeDeclaration_of_typeKind]

theorem course_sitesIn {isBody : Node → Bool} (hbody : ∀ c ∈ n.children, isBody c → c.kind.opensScope = false)
    (h : ∀ c ∈ n.children, c.isNamed → ∀ e around, Course f (some e) around c.children (Node.sitesAll f e c.children)) :
    Course f (some inside) around n.children (Node.sitesIn f inside isBody n.children) := by
  rcases sitesIn_cases f inside isBody n.children with hnone | ⟨c, hc, hnamed, hisBody, hin⟩
  · exact hnone ▸ .nil f _ _ _
  · rw [hin]
    exact ((h c hc hnamed _ _).up hnamed (hbody c hc hisBody)).mono (List.cons_subset.2 ⟨hc, List.nil_subset _⟩)

theorem course_of_children (hbodies : n.kind.opensScope → ∀ c ∈ n.children, c.role = .body → c.kind.opensScope = false)
    (hall : ∀ e around, Course f (some e) around n.children (Node.sitesAll f e n.children))
    (hchild : ∀ c ∈ n.children, c.isNamed → ∀ e around,
      Course f (some e) around c.children (Node.sitesAll f e c.children))
    (e : Enclosure) (around : List Node) : Course f (some e) around [n] (n.sites f e) := by
  have hnamed : Node.hidesDeclarations n.kind = false → n.isNamed := fun hk => by
    have hne : n.kind ≠ .token := fun h => by
      rw [h] at hk
      cases hk
    simpa [Node.isNamed] using hne
  have hmember : n.kind.isMemberDeclaration → Node.hidesDeclarations n.kind = false → n.kind ≠ .namespaceDeclaration →
      Node.declaresPlainly n.kind = false → Course f (some e) around [n] (n.sites f e) := by
    intro hmember hhides hnamespace hplain
    rw [Node.sites_member hhides hnamespace hplain]
    exact .member f around (hnamed hhides) hmember
  rcases Node.kind_cases n.kind with hk | hk | hk | hk | hk | hk | hk
  · rw [Node.sites_hidden hk]
    exact .nil f _ _ _
  · have hopens : n.kind.opensScope := by rw [hk]; rfl
    rw [Node.sites_namespace hk]
    cases hname : Site.namespace? f ⟨e, n⟩ with
    | none => exact .nil f _ _ _
    | some q =>
      have hin : Course f (some q.2) (n :: around) n.children (Node.sitesIn f q.2 (·.role == .body) n.children) :=
        course_sitesIn (fun c hc hbody => hbodies hopens c hc (beq_iff_eq.1 hbody)) hchild
      refine Course.under (p := ⟨e, n⟩) hin (hnamed (by rw [hk]; rfl)) (.inl hopens) (fun e' he => ?_) fun htype => ?_
      · exact ⟨hopens, Option.some.inj he⟩
      · rw [show (⟨e, n⟩ : Site).node.kind = .namespaceDeclaration from hk] at htype
        cases htype
  iterate 4 exact hmember (by rw [hk]; rfl) (by rw [hk]; rfl) (by rw [hk]; decide) (by rw [hk]; rfl)
  · have hnamed := hnamed (Node.hidesDeclarations_of_plainly hk)
    have hopens := opensScope_of_plain hk
    rw [Node.sites_plain hk]
    cases htype : typeKind? n.kind with
    | none =>
      rw [htype] at hopens
      exact (hall e _).up hnamed hopens
    | some kind =>
      rw [htype] at hopens
      rw [Option.elim_some]
      cases hname : nameOf? f n.name? with
      | none => exact .nil f _ _ _
      | some q =>
        have htyped : Site.typed? f ⟨e, n⟩ = some q.2 := by simp [Site.typed?, htype, hname]
        have hbody : ∀ c ∈ n.children, Node.isTypeBody n.children c → c.kind.opensScope = false := by
          intro c hc hbody
          unfold Node.isTypeBody at hbody
          split at hbody
          · exact hbodies hopens c hc (beq_iff_eq.1 hbody)
          · rw [beq_iff_eq.1 hbody]
            rfl
        exact Course.under (p := ⟨e, n⟩) (course_sitesIn hbody hchild) hnamed (.inl hopens)
          (fun e' he => ⟨hopens, Option.some.inj he⟩) fun _ => ⟨q.2, htyped, rfl⟩

theorem course_sitesAll {cs : List Node} {e : Enclosure} (h : ∀ c ∈ cs, Course f (some e) around [c] (c.sites f e))
    (hnests : ∀ c ∈ cs, c.nests) (hpairs : cs.Pairwise fun a b => a.stop ≤ b.start) :
    Course f (some e) around cs (Node.sitesAll f e cs) := by
  induction cs with
  | nil => exact .nil f _ _ _
  | cons c rest ih =>
    obtain ⟨hbefore, hpairs⟩ := List.pairwise_cons.1 hpairs
    obtain ⟨hc, hrest⟩ := List.forall_mem_cons.1 h
    obtain ⟨hnest, hnests⟩ := List.forall_mem_cons.1 hnests
    rw [Node.sitesAll]
    exact hc.cons (ih hrest hnests hpairs) hnest hnests hbefore

theorem sites_unnamed (hn : n.isNamed = false) (inside : Enclosure) : n.sites f inside = [] := by
  refine Node.sites_hidden ?_
  have hk : n.kind = .token := by simpa [Node.isNamed] using hn
  rw [hk]
  rfl

variable {root : Node} (h : root.InOrder)
include h

theorem course_tree (hn : n ∈ root.descendants) : (∀ e around, Course f (some e) around [n] (n.sites f e)) ∧
    ∀ e around, Course f (some e) around n.children (Node.sitesAll f e n.children) := by
  induction n using Node.childInduction with
  | step n ih =>
    have hchild : ∀ c ∈ n.children, c.isNamed → c ∈ root.descendants := fun c hc hnamed =>
      Node.descendants_trans hn (Node.mem_descendants_of_child hc hnamed (Node.mem_descendants_self c))
    have hone : ∀ c ∈ n.children, ∀ e around, Course f (some e) around [c] (c.sites f e) := by
      intro c hc e around
      cases hnamed : c.isNamed with
      | true => exact (ih c hc (hchild c hc hnamed)).1 e around
      | false => exact sites_unnamed (f := f) hnamed e ▸ .nil f _ _ _
    have hnests := Node.nests_of_mem_descendants h.nests hn
    have hall : ∀ e around, Course f (some e) around n.children (Node.sitesAll f e n.children) := fun e around =>
      course_sitesAll (fun c hc => hone c hc e around) (fun c hc => Node.nests_of_child hnests hc) (h.siblings n hn)
    exact ⟨course_of_children (h.bodies n hn) hall fun c hc hnamed => (ih c hc (hchild c hc hnamed)).2, hall⟩

theorem course_sitesTop {cs : List Node} (hcs : ∀ c ∈ cs, c.isNamed → c ∈ root.descendants) (hnests : ∀ c ∈ cs, c.nests)
    (hpairs : cs.Pairwise fun a b => a.stop ≤ b.start) (e : Enclosure) (around : List Node) :
    Course f none around cs (sitesTop f e cs) := by
  induction cs generalizing e with
  | nil => exact .nil f _ _ _
  | cons c rest ih =>
    obtain ⟨hbefore, hpairs⟩ := List.pairwise_cons.1 hpairs
    obtain ⟨hc, hcs⟩ := List.forall_mem_cons.1 hcs
    obtain ⟨hnest, hnests⟩ := List.forall_mem_cons.1 hnests
    have hrest := fun e => ih hcs hnests hpairs e
    rw [sitesTop]
    by_cases hk : c.kind = .fileScopedNamespaceDeclaration
    · have hnamed : c.isNamed := by simp [Node.isNamed, hk]
      have hinside := fun e => (course_tree (f := f) h (hc hnamed)).2 e (c :: around)
      rw [if_pos (by simp [hk])]
      cases nameOf? f c.name? with
      | some found =>
        have hhead : Course f none around [c] (⟨{}, c⟩ :: _) := Course.under (p := ⟨{}, c⟩)
          (hinside { e with namespaces := namespaceParts found.2 }) hnamed (.inr hk)
          (fun e' he => absurd he (Option.not_mem_none e')) fun htype => by
            rw [show (⟨{}, c⟩ : Site).node.kind = .fileScopedNamespaceDeclaration from hk] at htype
            cases htype
        exact hhead.cons (hrest _) hnest hnests hbefore
      | none => exact ((hinside e).up hnamed (by rw [hk]; rfl)).top.cons (hrest e) hnest hnests hbefore
    · rw [if_neg (by simp [hk])]
      refine Course.cons ?_ (hrest e) hnest hnests hbefore
      cases hnamed : c.isNamed with
      | true => exact ((course_tree h (hc hnamed)).1 e around).top
      | false => exact sites_unnamed (f := f) hnamed e ▸ .nil f _ _ _

end

theorem course_sites {f : SourceFile} (h : f.root.InOrder) : Course f none [f.root] f.root.children f.sites :=
  course_sitesTop h
    (fun c hc hnamed => Node.mem_descendants_of_child hc hnamed (Node.mem_descendants_self c))
    (fun _ hc => Node.nests_of_child h.nests hc) (h.siblings f.root (Node.mem_descendants_self f.root)) {} [f.root]

/-! ## What a site declares -/

/-- The kind of what a node declares. -/
def declaredKind? : Kind → Option SymbolKind
  | .namespaceDeclaration | .fileScopedNamespaceDeclaration => some .namespace
  | .methodDeclaration => some .method
  | .constructorDeclaration => some .constructor
  | .propertyDeclaration => some .property
  | .fieldDeclaration => some .field
  | k => typeKind? k

/-- The nodes that name what a node declares. -/
def Node.namings (n : Node) : List Node :=
  if n.kind = .fieldDeclaration then (n.variableDeclaration?.elim [] declarators).filterMap declaratorName?
  else n.name?.toList

/-- A declaration is made at a node, under a name in it. -/
structure MadeAt (f : SourceFile) (n : Node) (d : Declared) (at_ : Node) : Prop where
  kind : declaredKind? n.kind = some d.kind
  extent : d.extent = n.span
  naming : at_ ∈ n.namings
  location : d.location = f.location at_
  word : d.kind ≠ .constructor → f.word at_ ≠ "" ∧ (d.kind ≠ .namespace → d.name = f.word at_)

/-- The name of a definition: that of a type or method tells how many type parameters it has. -/
def definitionName (n : Node) (d : Declared) : String :=
  match d.kind with
  | .constructor => ".ctor"
  | .property | .field => d.name
  | _ => Symbol.genericName d.name (arity n)

def qualified (container : Option String) (name : String) : String :=
  match container with
  | none => name
  | some c => c ++ "." ++ name

/-- A declaration has its place in the tree. It is named by its container and its definition, and where the nearest
namespace or type around it is a type, that type is its container and is among the declarations before it, with an
extent that goes beyond. -/
structure Housed (f : SourceFile) (before : List Declared) (d : Declared) (x : Focus) : Prop where
  focus : x ∈ f.root.foci
  made : ∃ at_, MadeAt f x.node d at_
  named : d.qualname = qualified d.container (definitionName x.node d)
  held : ∀ t, x.around.find? (·.kind.opensScope) = some t → t.kind.isTypeDeclaration →
    ∃ u ∈ before, u.kind.isType ∧ d.container = some u.qualname ∧ u.extent = t.span ∧
      u.extent.contains d.extent ∧ u.extent ≠ d.extent

section
variable {f : SourceFile} {p q : Site} {n at_ : Node} {d d' : Declared}

theorem mem_namings_of_name (hk : n.kind ≠ .fieldDeclaration) (h : n.name? = some at_) : at_ ∈ n.namings := by
  rw [Node.namings, if_neg hk, h]
  exact List.mem_singleton_self at_

/-- Under the name of a node, what has its word as a name is made. -/
theorem MadeAt.of_name {word : String} (hname : nameOf? f n.name? = some (at_, word)) (hk : n.kind ≠ .fieldDeclaration)
    (hkind : declaredKind? n.kind = some d.kind) (hextent : d.extent = n.span) (hlocation : d.location = f.location at_)
    (hword : d.kind ≠ .namespace → d.name = word) : MadeAt f n d at_ := by
  obtain ⟨hchild, hspelled, hne⟩ := nameOf?_spec hname
  exact ⟨hkind, hextent, mem_namings_of_name hk hchild, hlocation, fun _ =>
    ⟨hspelled ▸ hne, fun h => (hword h).trans hspelled.symm⟩⟩

theorem kind_of_constructor {k : Kind} (h : declaredKind? k = some .constructor) : k = .constructorDeclaration := by
  revert h
  cases k <;> intro h <;> first | rfl | cases h

theorem declaring_of_kind {k : Kind} {kind : SymbolKind} (h : declaredKind? k = some kind) (hne : kind ≠ .namespace) :
    k.opensScope ∨ k.isMemberDeclaration := by
  revert h
  cases k <;> intro h <;>
    first | exact .inl rfl | exact .inr rfl | exact absurd (Option.some.inj h).symm hne | cases h

theorem made_of_own (hd : d ∈ p.own f) : (∃ at_, MadeAt f p.node d at_) ∧
    (d.kind ≠ .namespace → d.container = p.around.container? ∧
      d.qualname = p.around.qualify (definitionName p.node d)) := by
  cases makes_of_own hd with
  | space hk hname _ hmade =>
    obtain ⟨hkind, hlocation, hextent⟩ := hmade
    have hkinds : declaredKind? p.node.kind = some .namespace ∧ p.node.kind ≠ .fieldDeclaration := by
      rcases hk with hk | hk <;> rw [hk] <;> exact ⟨rfl, by decide⟩
    have hdeclared : declaredKind? p.node.kind = some d.kind := hkinds.1.trans (congrArg some hkind.symm)
    exact ⟨⟨_, .of_name hname hkinds.2 hdeclared hextent hlocation fun h => absurd hkind h⟩, fun h => absurd hkind h⟩
  | @type kind _ _ htype hname _ =>
    have hkinds : declaredKind? p.node.kind = some kind ∧ p.node.kind ≠ .fieldDeclaration ∧
        ∀ m, (∀ d : Declared, d.kind = kind → definitionName m d = Symbol.genericName d.name (arity m)) := by
      revert htype
      cases p.node.kind <;> intro htype <;> cases htype <;>
        exact ⟨rfl, by decide, fun m d hd => by rw [definitionName, hd]⟩
    refine ⟨⟨_, .of_name hname hkinds.2.1 hkinds.1 rfl rfl fun _ => rfl⟩, fun _ => ⟨rfl, ?_⟩⟩
    rw [hkinds.2.2 p.node _ rfl]
    rfl
  | method hk hname _ | property hk hname _ =>
    exact ⟨⟨_, .of_name hname (by rw [hk]; decide) (by rw [hk]; rfl) rfl rfl fun _ => rfl⟩, fun _ => ⟨rfl, rfl⟩⟩
  | constructor hk hname _ _ =>
    have hnaming := mem_namings_of_name (by rw [hk]; decide) hname
    exact ⟨⟨_, by rw [hk]; rfl, rfl, hnaming, rfl, fun h => absurd rfl h⟩, fun _ => ⟨rfl, rfl⟩⟩
  | @field v t at_ _ hk hv ht hname =>
    obtain ⟨hname, hword, hne⟩ := nameOf?_spec hname
    have hnaming : at_ ∈ p.node.namings := by
      rw [Node.namings, if_pos hk, hv]
      exact List.mem_filterMap.2 ⟨t, ht, hname⟩
    exact ⟨⟨at_, by rw [hk]; rfl, rfl, hnaming, rfl, fun _ => ⟨hword ▸ hne, fun _ => hword.symm⟩⟩, fun _ => ⟨rfl, rfl⟩⟩

/-! ## Names -/

/-- What names a node lies in it. -/
theorem within_of_naming (hn : n.nests) (h : at_ ∈ n.namings) : at_.Within n := by
  unfold Node.namings at h
  split at h
  · obtain ⟨t, ht, hat⟩ := List.mem_filterMap.1 h
    cases hv : n.variableDeclaration? with
    | none =>
      rw [hv] at ht
      cases ht
    | some v =>
      rw [hv] at ht
      have hvn := mem_of_variableDeclaration? hv
      have htv := mem_of_declarators ht
      have hvnests := Node.nests_of_child hn hvn
      exact (Node.within_of_child (Node.nests_of_child hvnests htv) (mem_of_declaratorName? hat)).trans
        ((Node.within_of_child hvnests htv).trans (Node.within_of_child hn hvn))
  · exact Node.within_of_child hn (mem_of_child? (Option.mem_toList.1 h))

variable (h : f.root.InOrder)
include h

omit h in
theorem contains_span {m : Node} (hn : n.nests) (hm : m.Within n) (hstart : m.start ≤ n.stop) :
    n.span.contains m.span := by
  have hstop : m.span.stop ≤ n.stop := by
    have := hm.stop
    simp only [Node.span, Span.ofBounds, Span.stop]
    omega
  rw [Span.contains, Bool.and_eq_true, decide_eq_true_eq, decide_eq_true_eq, Node.stop_span_of_nests hn]
  exact ⟨hm.start, hstop⟩

theorem MadeAt.bounds (hd : MadeAt f n d at_) (hn : n ∈ f.root.descendants) :
    at_.Within n ∧ at_.start < n.stop := by
  have hwithin := within_of_naming (Node.nests_of_mem_descendants h.nests hn) hd.naming
  refine ⟨hwithin, ?_⟩
  by_cases hk : d.kind = .constructor
  · have hkind := kind_of_constructor (hk ▸ hd.kind)
    have hnaming := hd.naming
    rw [Node.namings, if_neg (by rw [hkind]; decide)] at hnaming
    exact h.constructors n hn hkind at_ (Option.mem_toList.1 hnaming)
  · have hlt := start_lt_stop_of_word (hd.word hk).1
    exact Nat.lt_of_lt_of_le hlt hwithin.stop

theorem own_bounds (hp : p ∈ f.sites) (hd : d ∈ p.own f) :
    p.node.start ≤ d.location.span.start ∧ d.location.span.start < p.node.stop := by
  obtain ⟨at_, hmade⟩ := (made_of_own hd).1
  obtain ⟨hwithin, hlt⟩ := hmade.bounds h (mem_descendants_of_nests h.nests hp)
  rw [hmade.location]
  exact ⟨hwithin.start, hlt⟩

/-- The fields that are declared together are named one after another. -/
theorem declareFields_ascend {e : Enclosure} (hn : n ∈ f.root.descendants) :
    (declareFields f e n).Pairwise fun d d' => d.location.span.start < d'.location.span.start := by
  refine List.pairwise_map.2 (List.pairwise_filterMap.2 ?_)
  cases hv : n.variableDeclaration? with
  | none => exact .nil
  | some v =>
    have hnamed : v.isNamed := by
      have hk : v.kind = .variableDeclaration := by simpa using List.find?_some hv
      simp [Node.isNamed, hk]
    have hvn := mem_of_variableDeclaration? hv
    have hvmem := Node.descendants_trans hn (Node.mem_descendants_of_child hvn hnamed (Node.mem_descendants_self v))
    have hnests := Node.nests_of_mem_descendants h.nests hvmem
    refine ((h.siblings v hvmem).filter _).imp_of_mem fun ht ht' hlt => ?_
    intro x hx x' hx'
    obtain ⟨hname, hword, hne⟩ := nameOf?_spec hx
    obtain ⟨hname', -, -⟩ := nameOf?_spec hx'
    have hpos := start_lt_stop_of_word (hword ▸ hne)
    have hin : ∀ {t name : Node}, t ∈ v.declarators → t.declaratorName? = some name → name.Within t := fun ht hname =>
      Node.within_of_child (Node.nests_of_child hnests (mem_of_declarators ht)) (mem_of_declaratorName? hname)
    exact Nat.lt_of_lt_of_le hpos (Nat.le_trans (hin ht hname).stop (Nat.le_trans hlt (hin ht' hname').start))

theorem own_ascend (hp : p ∈ f.sites) :
    (p.own f).Pairwise fun d d' => d.location.span.start < d'.location.span.start := by
  cases hown : p.own f with
  | nil => exact .nil
  | cons d rest =>
    rcases own_cases (f := f) (p := p) (d := d) (hown ▸ List.mem_cons_self) with ⟨at_, hnamed⟩ | ⟨at_, hfield⟩
    · rw [← hown, hnamed.alone]
      exact List.pairwise_singleton _ d
    · have hfields : p.own f = declareFields f p.around p.node := by
        unfold Site.own
        simp only [hfield.kind]
      rw [← hown, hfields]
      exact declareFields_ascend h (mem_descendants_of_nests h.nests hp)

/-- What a scope declares is named before all that is in it. -/
theorem stop_le_of_below (hp : p ∈ f.sites) (hd : MadeAt f p.node d at_)
    (hk : p.node.kind.opensScope ∨ p.node.kind = .fileScopedNamespaceDeclaration) (hbelow : q.node.Below p.node)
    (hq : q.node.kind.opensScope ∨ q.node.kind.isMemberDeclaration) : at_.start < q.node.start := by
  have hfield : p.node.kind ≠ .fieldDeclaration := by
    intro he
    rw [he] at hk
    exact absurd hk (by decide)
  have hconstructor : d.kind ≠ .constructor := by
    intro he
    have hkind : p.node.kind = .constructorDeclaration := kind_of_constructor (he ▸ hd.kind)
    rw [hkind] at hk
    exact absurd hk (by decide)
  have hnaming := hd.naming
  rw [Node.namings, if_neg hfield] at hnaming
  obtain ⟨c, hc, hnamed, hm⟩ := hbelow
  have hheads := h.heads p.node (mem_descendants_of_nests h.nests hp) hk at_ (Option.mem_toList.1 hnaming)
  have hstop := hheads c hc hnamed q.node hm hq
  exact Nat.lt_of_lt_of_le (start_lt_stop_of_word (hd.word hconstructor).1) hstop

theorem declarations_ascend :
    (declarations f).Pairwise fun d d' => d.location.span.start < d'.location.span.start := by
  rw [declarations_eq_sites]
  refine List.pairwise_flatMap.2 ⟨fun p hp => own_ascend h hp, (course_sites h).ordered.imp_of_mem ?_⟩
  intro p q hp hq htrails d hd d' hd'
  obtain ⟨hstart', -⟩ := own_bounds h hq hd'
  rcases htrails with hbehind | ⟨hk, hbelow, hkind⟩
  · have hstop := (own_bounds h hp hd).2
    omega
  · obtain ⟨at_, hmade⟩ := (made_of_own hd).1
    have hlt := stop_le_of_below h hp hmade hk hbelow hkind
    rw [hmade.location]
    exact Nat.lt_of_lt_of_le hlt hstart'

omit h in
/-- In ascending order what has the smaller name comes before. -/
theorem mem_before {ds before after : List Declared}
    (hascend : ds.Pairwise fun d d' => d.location.span.start < d'.location.span.start)
    (hsplit : ds = before ++ d :: after) (hd' : d' ∈ ds) (hlt : d'.location.span.start < d.location.span.start) :
    d' ∈ before := by
  rw [hsplit] at hascend hd'
  rcases List.mem_append.1 hd' with hd' | hd'
  · exact hd'
  · rcases List.mem_cons.1 hd' with rfl | hd'
    · exact absurd hlt (Nat.lt_irrefl _)
    · have hgt := (List.pairwise_cons.1 (List.pairwise_append.1 hascend).2.1).1 d' hd'
      exact absurd hlt (Nat.lt_asymm hgt)

/-- What is declared at a site whose nearest scope is a type is in a type that is declared before. -/
theorem exists_container (hd : d ∈ q.own f) (hkind : d.kind ≠ .namespace) {t : Node} {inner : List Node}
    (hscoped : Scoped f f.sites inner q) (ht : inner.find? (·.kind.opensScope) = some t)
    (htype : t.kind.isTypeDeclaration) :
    ∃ u ∈ declarations f, u.kind.isType ∧ d.container = some u.qualname ∧ u.extent = t.span ∧
      u.location.span.start < q.node.start ∧ t.start < q.node.start ∧ t.nests ∧ q.node.Within t := by
  obtain ⟨p, hp, rfl, hbelow, name, hname, haround⟩ := hscoped t ht htype
  obtain ⟨kind, at_, htypeKind, hown⟩ := own_of_typed hname
  have hu : declareType f p.around kind p.node at_ name ∈ p.own f := hown ▸ List.mem_singleton_self _
  obtain ⟨at', hmade⟩ := (made_of_own hu).1
  have hopens : p.node.kind.opensScope := by rw [Kind.opensScope, htype, Bool.or_true]
  obtain ⟨_, hmadeq⟩ := (made_of_own hd).1
  have hlt := stop_le_of_below h hp hmade (.inl hopens) hbelow (declaring_of_kind hmadeq.kind hkind)
  have hnests := Node.nests_of_mem_descendants h.nests (mem_descendants_of_nests h.nests hp)
  have hwithin := (hmade.bounds h (mem_descendants_of_nests h.nests hp)).1
  refine ⟨_, declarations_eq_sites f ▸ List.mem_flatMap.2 ⟨p, hp, hu⟩, htypeKind, ?_, rfl, ?_,
    Nat.lt_of_le_of_lt hwithin.start hlt, hnests, Node.within_of_mem_descendants hnests hbelow.mem⟩
  · rw [((made_of_own hd).2 hkind).1, haround, Enclosure.container?_inType]
    rfl
  · rw [hmade.location]
    exact hlt

theorem extent_contains_name (hd : d ∈ declarations f) : d.extent.contains d.location.span := by
  rw [declarations_eq_sites] at hd
  obtain ⟨p, hp, hd⟩ := List.mem_flatMap.1 hd
  obtain ⟨at_, hmade⟩ := (made_of_own hd).1
  have hmem := mem_descendants_of_nests h.nests hp
  obtain ⟨hwithin, hlt⟩ := hmade.bounds h hmem
  rw [hmade.extent, hmade.location]
  exact contains_span (Node.nests_of_mem_descendants h.nests hmem) hwithin (Nat.le_of_lt hlt)

theorem exists_housed {before after : List Declared} (hsplit : declarations f = before ++ d :: after)
    (hkind : d.kind ≠ .namespace) : ∃ x, Housed f before d x := by
  have hd : d ∈ declarations f := hsplit ▸ List.mem_append_right before List.mem_cons_self
  rw [declarations_eq_sites] at hd
  obtain ⟨q, hq, hown⟩ := List.mem_flatMap.1 hd
  obtain ⟨c, hc, hnamed, inner, hfocus, hscoped, -⟩ := (course_sites h).placed q hq
  obtain ⟨⟨at_, hmade⟩, hrest⟩ := made_of_own hown
  obtain ⟨hcontainer, hqualname⟩ := hrest hkind
  have hx : ⟨q.node, inner ++ [f.root]⟩ ∈ f.root.foci := Node.mem_walk.2 (.inr ⟨c, hc, hnamed, hfocus⟩)
  refine ⟨_, hx, ⟨at_, hmade⟩, hqualname.trans (by rw [hcontainer]; rfl), fun t ht htype => ?_⟩
  have hroot : f.root.kind.opensScope = false := by rw [h.unit]; rfl
  have ht : inner.find? (·.kind.opensScope) = some t := by simpa [List.find?_append, hroot] using ht
  obtain ⟨u, hu, hukind, hucontainer, huextent, hnamed, hstart, hnests, hwithin⟩ :=
    exists_container h hown hkind hscoped ht htype
  have hlt := Nat.lt_of_lt_of_le hnamed (own_bounds h hq hown).1
  refine ⟨u, mem_before (declarations_ascend h) hsplit hu hlt, hukind, hucontainer, huextent, ?_, fun he => ?_⟩
  · have hnode := Node.nests_of_mem_descendants h.nests (mem_descendants_of_nests h.nests hq)
    rw [huextent, hmade.extent]
    exact contains_span hnests hwithin (Nat.le_trans (Node.nests_iff.1 hnode).1 hwithin.stop)
  · rw [huextent, hmade.extent] at he
    exact Nat.ne_of_lt hstart (congrArg Span.start he)

end

/-- Declarations come in the order of their names, each with its name in its extent, and what is no namespace is housed
by what comes before it. -/
theorem declarations_mirror (f : SourceFile) (h : f.root.InOrder) :
    (declarations f).Pairwise (fun d d' => d.location.span.start < d'.location.span.start) ∧
    (∀ d ∈ declarations f, d.extent.contains d.location.span) ∧
    ∀ before d after, declarations f = before ++ d :: after → d.kind ≠ .namespace → ∃ x, Housed f before d x :=
  ⟨declarations_ascend h, fun _ => extent_contains_name h, fun _ _ _ hsplit => exists_housed h hsplit⟩

/-- A namespace and two classes, one of them in the other and generic. -/
def nestedTypes : SourceFile := .ofText parse "a.cs"
  "namespace App \x7b class Outer \x7b int a, b; class Inner<T> \x7b public Inner() \x7b \x7d \x7d \x7d \x7d"

theorem nestedTypes_mirror : nestedTypes.root.InOrder ∧
    (declarations nestedTypes).Pairwise (fun d d' => d.location.span.start < d'.location.span.start) ∧
    (∀ d ∈ declarations nestedTypes, d.extent.contains d.location.span) ∧
    ∃ before d, declarations nestedTypes = before ++ [d] ∧ d.kind = .constructor ∧
      d.container = some "App.Outer.Inner`1" ∧ ∃ x, Housed nestedTypes before d x := by
  have h : nestedTypes.root.InOrder := by decide +kernel
  obtain ⟨hascend, hinside, hhoused⟩ := declarations_mirror nestedTypes h
  have hlast : ∃ d ∈ (declarations nestedTypes).getLast?, d.kind = .constructor ∧
      d.container = some "App.Outer.Inner`1" := by decide +kernel
  obtain ⟨d, hd, hkind, hcontainer⟩ := hlast
  obtain ⟨before, hsplit⟩ := List.getLast?_eq_some_iff.1 hd
  exact ⟨h, hascend, hinside, before, d, hsplit, hkind, hcontainer, hhoused before d [] hsplit (by rw [hkind]; decide)⟩

/-- A class with a namespace in it. -/
def namespaceInType : SourceFile := .ofText parse "a.cs" "class A \x7b namespace N \x7b class B \x7b \x7d \x7d \x7d"

/-- The names of namespaces and of types are kept apart, so that what is in a namespace in a type has a container of
which there is no type. -/
theorem container_of_no_type : namespaceInType.root.InOrder ∧
    ∃ d ∈ declarations namespaceInType, d.kind.isType ∧
      (∃ u ∈ declarations namespaceInType, u.kind.isType ∧ u.extent.contains d.extent ∧ u.extent ≠ d.extent) ∧
      ∀ u ∈ declarations namespaceInType, u.kind.isType → d.container ≠ some u.qualname := by
  decide +kernel

end Workbench.CSharp
