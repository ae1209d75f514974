import Workbench.Proofs.Extents

/-!
# Where declarations are made

A declaration is made at a node of the tree, inside the namespaces and types
around it. Taking the tree apart into such sites and asking each for what it
declares gives the declarations of the file.
-/

namespace Workbench.CSharp

/-- A node that may declare something, and what is around it. -/
structure Site where
  around : Enclosure
  node : Node

namespace Site

/-- What is around the body of a namespace at a site, when it has a name. -/
def namespace? (f : SourceFile) (p : Site) : Option (Node × Enclosure) :=
  (nameOf? f p.node.name?).bind fun q =>
    if (namespaceParts q.2).isEmpty then none
    else some (q.1, { p.around with namespaces := p.around.namespaces ++ namespaceParts q.2 })

/-- What is around the body of a type of the given name. -/
def inType (p : Site) (name : String) : Enclosure :=
  { p.around with types := p.around.types ++ [Symbol.genericName name (arity p.node)] }

/-- What a site declares itself, without what is in its body. -/
def own (f : SourceFile) (p : Site) : List Declared :=
  match p.node.kind with
  | .namespaceDeclaration | .fileScopedNamespaceDeclaration =>
    (p.namespace? f).elim [] fun q => declareNamespace f p.around p.node q.1 q.2.namespaces
  | .methodDeclaration => declareMethod f p.around p.node
  | .constructorDeclaration => declareConstructor f p.around p.node
  | .propertyDeclaration => declareProperty f p.around p.node
  | .fieldDeclaration => declareFields f p.around p.node
  | k =>
    (typeKind? k).elim [] fun kind =>
      (nameOf? f p.node.name?).elim [] fun q => [declareType f p.around kind p.node q.1 q.2]

end Site

namespace Node

mutual

/-- The sites from a node down, each before those in its body. -/
def sites (f : SourceFile) (e : Enclosure) : Node → List Site
  | mk k r a b t cs =>
    let p : Site := ⟨e, mk k r a b t cs⟩
    if hidesDeclarations k then []
    else if k = .namespaceDeclaration then
      match p.namespace? f with
      | some (_, inside) => p :: sitesIn f inside (·.role == .body) cs
      | none => []
    else if !declaresPlainly k then [p]
    else
      match typeKind? k, nameOf? f p.node.name? with
      | some _, some (_, name) => p :: sitesIn f (p.inType name) (isTypeBody cs) cs
      | some _, none => []
      | none, _ => sitesAll f e cs

def sitesAll (f : SourceFile) (e : Enclosure) : List Node → List Site
  | [] => []
  | n :: rest => sites f e n ++ sitesAll f e rest

/-- Sites in the first child that is the body of a declaration. -/
def sitesIn (f : SourceFile) (e : Enclosure) (isBody : Node → Bool) : List Node → List Site
  | [] => []
  | mk k r a b t cs :: rest =>
    if isBody (mk k r a b t cs) then if k == .token then [] else sitesAll f e cs
    else sitesIn f e isBody rest

end

end Node

/-- Sites at the top of a file. A namespace without a body holds all that follows it. -/
def sitesTop (f : SourceFile) (e : Enclosure) : List Node → List Site
  | [] => []
  | n :: rest =>
    if n.kind == .fileScopedNamespaceDeclaration then
      match nameOf? f n.name? with
      | some (_, name) =>
        let inside : Enclosure := { e with namespaces := namespaceParts name }
        ⟨{}, n⟩ :: Node.sitesAll f inside n.children ++ sitesTop f inside rest
      | none => Node.sitesAll f e n.children ++ sitesTop f e rest
    else n.sites f e ++ sitesTop f e rest

def SourceFile.sites (f : SourceFile) : List Site := sitesTop f {} f.root.children

/-! ## What sites declare -/

namespace Node

section
variable {f : SourceFile} {e : Enclosure} {n : Node}

theorem sites_hidden (hk : hidesDeclarations n.kind = true) : n.sites f e = [] := by
  cases n with
  | mk k r a b t cs =>
    have hk : hidesDeclarations k = true := hk
    rw [sites, if_pos hk]

theorem sites_namespace (hk : n.kind = .namespaceDeclaration) : n.sites f e =
    (Site.namespace? f ⟨e, n⟩).elim [] fun q => ⟨e, n⟩ :: sitesIn f q.2 (·.role == .body) n.children := by
  cases n with
  | mk k r a b t cs =>
    obtain rfl : k = .namespaceDeclaration := hk
    have hhides : ¬hidesDeclarations .namespaceDeclaration = true := Bool.false_ne_true
    rw [sites, if_neg hhides, if_pos rfl]
    cases Site.namespace? f ⟨e, mk .namespaceDeclaration r a b t cs⟩ <;> rfl

/-- A method, constructor, property or field holds no further sites. -/
theorem sites_member (hhides : hidesDeclarations n.kind = false) (hk : n.kind ≠ .namespaceDeclaration)
    (hplain : declaresPlainly n.kind = false) : n.sites f e = [⟨e, n⟩] := by
  cases n with
  | mk k r a b t cs =>
    have hk : k ≠ .namespaceDeclaration := hk
    have hhides : hidesDeclarations k = false := hhides
    have hplain : declaresPlainly k = false := hplain
    rw [sites, if_neg (by simp [hhides]), if_neg hk, if_pos (by simp [hplain])]

theorem hidesDeclarations_of_plainly {k : Kind} (h : declaresPlainly k = true) : hidesDeclarations k = false := by
  unfold declaresPlainly at h
  split at h
  case h_6 => simpa using h
  all_goals cases h

theorem sites_plain (hk : declaresPlainly n.kind = true) : n.sites f e =
    (typeKind? n.kind).elim (sitesAll f e n.children) fun _ => (nameOf? f n.name?).elim [] fun q =>
      ⟨e, n⟩ :: sitesIn f (Site.inType ⟨e, n⟩ q.2) (isTypeBody n.children) n.children := by
  cases n with
  | mk k r a b t cs =>
    have hk' : declaresPlainly k = true := hk
    have hne : k ≠ .namespaceDeclaration := by
      rintro rfl
      cases hk'
    rw [sites, if_neg (by simp [hidesDeclarations_of_plainly hk']), if_neg hne, if_neg (by simp [hk'])]
    cases htype : typeKind? k with
    | none => simp [kind, children, htype]
    | some kind => cases hname : nameOf? f (mk k r a b t cs).name? <;> simp [Node.kind, children, htype]

end

end Node

section
variable {f : SourceFile} {e : Enclosure} {n : Node}

theorem namespace?_of_none (h : nameOf? f n.name? = none) : Site.namespace? f ⟨e, n⟩ = none := by
  unfold Site.namespace?
  exact h ▸ rfl

theorem namespace?_of_some {q : Node × String} (h : nameOf? f n.name? = some q) : Site.namespace? f ⟨e, n⟩ =
    if (namespaceParts q.2).isEmpty then none
    else some (q.1, { e with namespaces := e.namespaces ++ namespaceParts q.2 }) := by
  unfold Site.namespace?
  dsimp only
  rw [h, Option.bind_some]

theorem own_namespace (hk : n.kind = .namespaceDeclaration ∨ n.kind = .fileScopedNamespaceDeclaration) :
    Site.own f ⟨e, n⟩ = (Site.namespace? f ⟨e, n⟩).elim [] fun q => declareNamespace f e n q.1 q.2.namespaces := by
  unfold Site.own
  rcases hk with hk | hk <;> simp only [hk]

theorem own_plain (hk : Node.declaresPlainly n.kind = true) (hfile : n.kind ≠ .fileScopedNamespaceDeclaration) :
    Site.own f ⟨e, n⟩ = (typeKind? n.kind).elim [] fun kind => (nameOf? f n.name?).elim [] fun q =>
      [declareType f e kind n q.1 q.2] := by
  unfold Site.own
  split
  case h_7 => rfl
  case h_2 h => exact absurd h hfile
  all_goals
    rename_i h
    have h : n.kind = _ := h
    rw [h] at hk
    cases hk

/-- How a site makes a declaration. All but fields are made alone. -/
inductive Site.Makes (f : SourceFile) (p : Site) : Declared → Prop
  | space {d : Declared} {at_ : Node} {word : String}
      (kind : p.node.kind = .namespaceDeclaration ∨ p.node.kind = .fileScopedNamespaceDeclaration)
      (name : nameOf? f p.node.name? = some (at_, word)) (alone : p.own f = [d])
      (made : d.kind = .namespace ∧ d.location = f.location at_ ∧ d.extent = p.node.span) : p.Makes f d
  | type {kind : SymbolKind} {at_ : Node} {word : String} (typed : typeKind? p.node.kind = some kind)
      (name : nameOf? f p.node.name? = some (at_, word))
      (alone : p.own f = [declareType f p.around kind p.node at_ word]) :
      p.Makes f (declareType f p.around kind p.node at_ word)
  | method {at_ : Node} {word : String} (kind : p.node.kind = .methodDeclaration)
      (name : nameOf? f p.node.name? = some (at_, word))
      (alone : p.own f =
        [declareMember f p.around .method p.node at_ word (Symbol.genericName word (arity p.node)) true]) :
      p.Makes f (declareMember f p.around .method p.node at_ word (Symbol.genericName word (arity p.node)) true)
  | constructor {at_ : Node} {type : String} (kind : p.node.kind = .constructorDeclaration)
      (name : p.node.name? = some at_) (inside : p.around.types.getLast? = some type)
      (alone : p.own f = [declareMember f p.around .constructor p.node at_ type ".ctor" true]) :
      p.Makes f (declareMember f p.around .constructor p.node at_ type ".ctor" true)
  | property {at_ : Node} {word : String} (kind : p.node.kind = .propertyDeclaration)
      (name : nameOf? f p.node.name? = some (at_, word))
      (alone : p.own f = [declareMember f p.around .property p.node at_ word word false]) :
      p.Makes f (declareMember f p.around .property p.node at_ word word false)
  | field {declaration declarator at_ : Node} {word : String} (kind : p.node.kind = .fieldDeclaration)
      (declared : p.node.variableDeclaration? = some declaration) (held : declarator ∈ declaration.declarators)
      (name : nameOf? f declarator.declaratorName? = some (at_, word)) :
      p.Makes f (declareMember f p.around .field p.node at_ word word false)

/-- All that a site can declare. -/
theorem makes_of_own {p : Site} {d : Declared} (hd : d ∈ p.own f) : p.Makes f d := by
  have hsome : p.own f ≠ [] := List.ne_nil_of_mem hd
  have halone : ∀ {d' : Declared}, p.own f = [d'] → d = d' := fun h => List.mem_singleton.1 (h ▸ hd)
  have hown : p.own f = p.own f := rfl
  conv at hown => rhs; unfold Site.own
  split at hown
  case h_1 hk | h_2 hk =>
    cases hspace : p.namespace? f with
    | none =>
      rw [hspace] at hown
      exact absurd hown hsome
    | some q =>
      rw [hspace, Option.elim_some] at hown
      unfold declareNamespace at hown
      split at hown
      · obtain rfl := halone hown
        obtain ⟨x, hx, hq⟩ := Option.bind_eq_some_iff.1 hspace
        obtain ⟨-, hq⟩ := Option.ite_none_left_eq_some.1 hq
        cases hq
        refine .space ?_ hx hown ⟨rfl, rfl, rfl⟩
        first | exact .inl hk | exact .inr hk
      · exact absurd hown hsome
  case h_3 hk =>
    unfold declareMethod at hown
    split at hown
    · rename_i hname
      exact halone hown ▸ .method hk hname hown
    · exact absurd hown hsome
  case h_4 hk =>
    unfold declareConstructor at hown
    split at hown
    · rename_i hname hlast
      exact halone hown ▸ .constructor hk hname hlast hown
    · exact absurd hown hsome
  case h_5 hk =>
    unfold declareProperty at hown
    split at hown
    · rename_i hname
      exact halone hown ▸ .property hk hname hown
    · exact absurd hown hsome
  case h_6 hk =>
    rw [hown] at hd
    obtain ⟨q, hq, rfl⟩ := List.mem_map.1 hd
    obtain ⟨t, ht, hname⟩ := List.mem_filterMap.1 hq
    cases hv : p.node.variableDeclaration? with
    | none =>
      rw [hv] at ht
      cases ht
    | some v =>
      rw [hv] at ht
      exact .field hk hv ht hname
  case h_7 =>
    cases htype : typeKind? p.node.kind with
    | none =>
      rw [htype] at hown
      exact absurd hown hsome
    | some kind =>
      cases hname : nameOf? f p.node.name? with
      | none =>
        rw [htype, hname] at hown
        exact absurd hown hsome
      | some q =>
        rw [htype, hname] at hown
        exact halone hown ▸ .type htype hname hown

/-- Which child is the body does not depend on what is looked for in it. -/
theorem declaredIn_eq_sites {isBody : Node → Bool} {cs : List Node}
    (h : ∀ c ∈ cs, ∀ e, Node.declaredAll f e c.children = (Node.sitesAll f e c.children).flatMap (Site.own f))
    (e : Enclosure) : Node.declaredIn f e isBody cs = (Node.sitesIn f e isBody cs).flatMap (Site.own f) := by
  induction cs with
  | nil => rfl
  | cons c rest ih =>
    obtain ⟨hc, hrest⟩ := List.forall_mem_cons.1 h
    cases c with
    | mk k r a b t cs =>
      rw [Node.declaredIn, Node.sitesIn]
      by_cases hbody : isBody (.mk k r a b t cs)
      · rw [if_pos hbody, if_pos hbody]
        by_cases hk : (k == .token) = true
        · rw [if_pos hk, if_pos hk]
          rfl
        · rw [if_neg hk, if_neg hk]
          exact hc e
      · rw [if_neg hbody, if_neg hbody]
        exact ih hrest

theorem declaredAll_eq_sites {cs : List Node}
    (h : ∀ c ∈ cs, ∀ e, c.declared f e = (c.sites f e).flatMap (Site.own f)) (e : Enclosure) :
    Node.declaredAll f e cs = (Node.sitesAll f e cs).flatMap (Site.own f) := by
  induction cs with
  | nil => rfl
  | cons c rest ih =>
    obtain ⟨hc, hrest⟩ := List.forall_mem_cons.1 h
    rw [Node.declaredAll, Node.sitesAll, List.flatMap_append, hc e, ih hrest]

theorem flatMap_own_cons {p : Site} {ps : List Site} : (p :: ps).flatMap (Site.own f) = p.own f ++ ps.flatMap (Site.own f) :=
  List.flatMap_cons

/-- The declarations from a node down are those of its sites, from what holds of its children. -/
theorem declared_eq_of_children
    (hall : ∀ e, Node.declaredAll f e n.children = (Node.sitesAll f e n.children).flatMap (Site.own f))
    (hchild : ∀ c ∈ n.children, ∀ e,
      Node.declaredAll f e c.children = (Node.sitesAll f e c.children).flatMap (Site.own f)) (e : Enclosure) :
    n.declared f e = (n.sites f e).flatMap (Site.own f) := by
  have hmember : ∀ ds, Node.hidesDeclarations n.kind = false → n.kind ≠ .namespaceDeclaration →
      Node.declaresPlainly n.kind = false → n.declared f e = ds → Site.own f ⟨e, n⟩ = ds →
      n.declared f e = (n.sites f e).flatMap (Site.own f) := by
    rintro ds hhides hnamespace hplain hd rfl
    rw [Node.sites_member hhides hnamespace hplain, List.flatMap_singleton, hd]
  rcases Node.kind_cases n.kind with hk | hk | hk | hk | hk | hk | hk
  · rw [Node.declared_hidden f e hk, Node.sites_hidden hk]
    rfl
  · rw [Node.declared_namespace f e hk, Node.sites_namespace hk]
    have hown : Site.own f ⟨e, n⟩ = _ := own_namespace (.inl hk)
    cases hname : nameOf? f n.name? with
    | none =>
      rw [namespace?_of_none hname]
      rfl
    | some q =>
      rw [namespace?_of_some hname] at hown ⊢
      rw [Option.elim_some]
      by_cases hparts : (namespaceParts q.2).isEmpty
      · rw [if_pos hparts, if_pos hparts]
        rfl
      · rw [if_neg hparts] at hown
        rw [if_neg hparts, if_neg hparts, Option.elim_some, flatMap_own_cons, hown, declaredIn_eq_sites hchild]
        rfl
  · exact hmember _ (by simp [hk, Node.hidesDeclarations]) (by simp [hk]) (by simp [hk, Node.declaresPlainly])
      (Node.declared_method f e hk) (by simp [Site.own, hk])
  · exact hmember _ (by simp [hk, Node.hidesDeclarations]) (by simp [hk]) (by simp [hk, Node.declaresPlainly])
      (Node.declared_constructor f e hk) (by simp [Site.own, hk])
  · exact hmember _ (by simp [hk, Node.hidesDeclarations]) (by simp [hk]) (by simp [hk, Node.declaresPlainly])
      (Node.declared_property f e hk) (by simp [Site.own, hk])
  · exact hmember _ (by simp [hk, Node.hidesDeclarations]) (by simp [hk]) (by simp [hk, Node.declaresPlainly])
      (Node.declared_fields f e hk) (by simp [Site.own, hk])
  · rw [Node.declared_plain f e hk, Node.sites_plain hk]
    cases htype : typeKind? n.kind with
    | none => exact hall e
    | some kind =>
      have hfile : n.kind ≠ .fileScopedNamespaceDeclaration := fun h => by
        rw [h] at htype
        cases htype
      have hown := own_plain (f := f) (e := e) hk hfile
      rw [htype] at hown
      cases hname : nameOf? f n.name? with
      | none => rfl
      | some q =>
        rw [hname] at hown
        simp only [Option.elim_some] at hown ⊢
        rw [flatMap_own_cons, hown, declaredIn_eq_sites hchild]
        rfl

theorem declared_eq_sites (n : Node) : (∀ e, n.declared f e = (n.sites f e).flatMap (Site.own f)) ∧
    ∀ e, Node.declaredAll f e n.children = (Node.sitesAll f e n.children).flatMap (Site.own f) := by
  induction n using Node.childInduction with
  | step n ih =>
    have hall := declaredAll_eq_sites fun c hc => (ih c hc).1
    exact ⟨declared_eq_of_children hall fun c hc => (ih c hc).2, hall⟩

theorem declaredTop_eq_sites (e : Enclosure) (cs : List Node) :
    declaredTop f e cs = (sitesTop f e cs).flatMap (Site.own f) := by
  induction cs generalizing e with
  | nil => rfl
  | cons c rest ih =>
    rw [declaredTop, sitesTop]
    by_cases hk : (c.kind == .fileScopedNamespaceDeclaration) = true
    · rw [if_pos hk, if_pos hk]
      have hown : Site.own f ⟨{}, c⟩ = _ := own_namespace (.inr (beq_iff_eq.1 hk))
      cases hname : nameOf? f c.name? with
      | none => rw [List.flatMap_append, (declared_eq_sites c).2 e, ih]
      | some q =>
        have hq : Site.own f ⟨{}, c⟩ = declareNamespace f {} c q.1 (namespaceParts q.2) := by
          rw [hown, namespace?_of_some hname]
          by_cases hparts : namespaceParts q.2 = []
          · simp [hparts, declareNamespace]
          · simp [hparts]
        simp only [List.cons_append, flatMap_own_cons, List.flatMap_append, hq, (declared_eq_sites c).2, ih,
          List.append_assoc]
    · rw [if_neg hk, if_neg hk, List.flatMap_append, (declared_eq_sites c).1 e, ih]

/-- The declarations of a file are those of its sites, in order. -/
theorem declarations_eq_sites (f : SourceFile) : declarations f = f.sites.flatMap (Site.own f) :=
  declaredTop_eq_sites {} f.root.children

end

/-! ## How sites stand -/

namespace Node

/-- A node strictly inside another one. -/
def Below (m n : Node) : Prop := ∃ c ∈ n.children, c.isNamed ∧ m ∈ c.descendants

section
variable {n m c : Node}

theorem Below.mem (h : m.Below n) : m ∈ n.descendants := mem_descendants.2 (.inr h)

theorem below_of_child (hc : c ∈ n.children) (hnamed : c.isNamed) (hm : m ∈ c.descendants) : m.Below n :=
  ⟨c, hc, hnamed, hm⟩

theorem sizeOf_lt_of_child (hc : c ∈ n.children) : sizeOf c < sizeOf n := by
  cases n with
  | mk k r a b t cs =>
    have := List.sizeOf_lt_of_mem (show c ∈ cs from hc)
    simp only [mk.sizeOf_spec]
    omega

theorem sizeOf_le_of_mem_descendants (hm : m ∈ n.descendants) : sizeOf m ≤ sizeOf n := by
  induction n using childInduction with
  | step n ih =>
    rcases mem_descendants.1 hm with rfl | ⟨c, hc, -, hm⟩
    · exact Nat.le_refl _
    · exact Nat.le_of_lt (Nat.lt_of_le_of_lt (ih c hc hm) (sizeOf_lt_of_child hc))

theorem Below.sizeOf_lt (h : m.Below n) : sizeOf m < sizeOf n := by
  obtain ⟨c, hc, -, hm⟩ := h
  exact Nat.lt_of_le_of_lt (sizeOf_le_of_mem_descendants hm) (sizeOf_lt_of_child hc)

theorem Below.ne (h : m.Below n) : m ≠ n := by
  rintro rfl
  exact Nat.lt_irrefl _ h.sizeOf_lt

theorem not_apart_self (h : n.start < n.stop) : ¬n.apart n := by
  simp only [apart, Bool.or_self, decide_eq_true_eq]
  omega

end

/-- Nodes without a namespace in them. -/
def holdNoNamespace (ns : List Node) : Prop :=
  ∀ n ∈ ns, n.isNamed → ∀ m ∈ n.descendants, m.kind ≠ .namespaceDeclaration ∧ m.kind ≠ .fileScopedNamespaceDeclaration

instance (ns : List Node) : Decidable (holdNoNamespace ns) :=
  inferInstanceAs (Decidable (∀ n ∈ ns, n.isNamed → ∀ m ∈ n.descendants, _ ∧ _))

end Node

/-- The name of the type that is declared at a site. -/
def Site.typed? (f : SourceFile) (p : Site) : Option String :=
  (typeKind? p.node.kind).bind fun _ => (nameOf? f p.node.name?).map (·.2)

/-- The sites in the body of a type of the given name. -/
def Site.inside (f : SourceFile) (p : Site) (name : String) : List Site :=
  Node.sitesIn f (p.inType name) (Node.isTypeBody p.node.children) p.node.children

/-- Of the sites in nodes side by side: where they are, and what is around those in a type. -/
structure Stand (f : SourceFile) (ns : List Node) (e : Enclosure) (ps : List Site) : Prop where
  below : ∀ p ∈ ps, ∃ n ∈ ns, n.isNamed ∧ p.node ∈ n.descendants
  /-- No two of them are one node. -/
  separate : ps.Pairwise fun p q => p.node.start < p.node.stop → p.node ≠ q.node
  deep : ∀ p ∈ ps, e.types.length ≤ p.around.types.length
  deeper : ∀ p ∈ ps, (p.typed? f).isSome → ∀ q ∈ ps, q.node.Below p.node → q.node.start < q.node.stop →
    p.around.types.length < q.around.types.length
  same : Node.holdNoNamespace ns → ∀ p ∈ ps, p.around.namespaces = e.namespaces
  /-- What has more types around it than all of them stands in a type among them, which is the last of those types. -/
  lineage : ∀ q ∈ ps, q.around.types = e.types ∨ ∃ p ∈ ps, ∃ name, p.typed? f = some name ∧ q.node.Below p.node ∧
    q.around.types = (p.inType name).types ∧
    (Node.holdNoNamespace p.node.children → q.around.namespaces = p.around.namespaces)
  full : ∀ p ∈ ps, ∀ name, p.typed? f = some name → p.inside f name ⊆ ps

section
variable {f : SourceFile} {n c : Node} {ns ns' : List Node} {e e' : Enclosure} {ps qs : List Site}

theorem Stand.nil (f : SourceFile) (ns : List Node) (e : Enclosure) : Stand f ns e [] where
  below := by simp
  separate := .nil
  deep := by simp
  deeper := by simp
  same := by simp
  lineage := by simp
  full := by simp

theorem Stand.up (h : Stand f n.children e ps) (hn : n.isNamed) : Stand f [n] e ps where
  below p hp := by
    obtain ⟨c, hc, hnamed, hm⟩ := h.below p hp
    exact ⟨n, List.mem_singleton_self n, hn, Node.mem_descendants_of_child hc hnamed hm⟩
  separate := h.separate
  deep := h.deep
  deeper := h.deeper
  same hns := h.same fun c hc hnamed m hm =>
    hns n (List.mem_singleton_self n) hn m (Node.mem_descendants_of_child hc hnamed hm)
  lineage := h.lineage
  full := h.full

theorem Stand.mono (h : Stand f ns e ps) (hsub : ns ⊆ ns') : Stand f ns' e ps where
  below p hp := by
    obtain ⟨n, hn, hp⟩ := h.below p hp
    exact ⟨n, hsub hn, hp⟩
  separate := h.separate
  deep := h.deep
  deeper := h.deeper
  same hns := h.same fun n hn => hns n (hsub hn)
  lineage := h.lineage
  full := h.full

/-- Sites in siblings that do not overlap have nothing to do with one another. Only a namespace changes what is
around those behind it. -/
theorem Stand.cons_of (h : Stand f [n] e ps) (h' : Stand f ns e' qs) (hn : n.nests) (hns : ∀ c ∈ ns, c.nests)
    (hapart : ∀ c ∈ ns, n.apart c) (htypes : e'.types = e.types)
    (hspaces : Node.holdNoNamespace [n] → e'.namespaces = e.namespaces) : Stand f (n :: ns) e (ps ++ qs) := by
  have hdisjoint : ∀ p ∈ ps, ∀ q ∈ qs, ∀ m : Node, m.start < m.stop →
      ¬(m ∈ p.node.descendants ∧ m ∈ q.node.descendants) := by
    rintro p hp q hq m hm ⟨hmp, hmq⟩
    obtain ⟨c, hc, -, hpc⟩ := h.below p hp
    obtain rfl := List.mem_singleton.1 hc
    obtain ⟨c', hc', -, hqc⟩ := h'.below q hq
    have hpq := Node.apart_below (hapart c' hc') hn (hns c' hc') hpc hqc
    have hpn := Node.nests_of_mem_descendants hn hpc
    have hqn := Node.nests_of_mem_descendants (hns c' hc') hqc
    exact Node.not_apart_self hm (Node.apart_below hpq hpn hqn hmp hmq)
  refine ⟨fun p hp => ?_, ?_, fun p hp => ?_, fun p hp ht q hq hbelow hlt => ?_, fun hnone p hp => ?_, fun q hq => ?_,
    fun p hp name ht => ?_⟩
  · rcases List.mem_append.1 hp with hp | hp
    · obtain ⟨c, hc, hp⟩ := h.below p hp
      exact ⟨c, List.mem_cons.2 (.inl (List.mem_singleton.1 hc)), hp⟩
    · obtain ⟨c, hc, hp⟩ := h'.below p hp
      exact ⟨c, List.mem_cons_of_mem n hc, hp⟩
  · refine List.pairwise_append.2 ⟨h.separate, h'.separate, fun p hp q hq hlt he => ?_⟩
    exact hdisjoint p hp q hq p.node hlt ⟨Node.mem_descendants_self _, he ▸ Node.mem_descendants_self _⟩
  · exact (List.mem_append.1 hp).elim (h.deep p) (htypes ▸ h'.deep p)
  · rcases List.mem_append.1 hp with hp | hp <;> rcases List.mem_append.1 hq with hq | hq
    · exact h.deeper p hp ht q hq hbelow hlt
    · exact absurd ⟨hbelow.mem, Node.mem_descendants_self _⟩ (hdisjoint p hp q hq q.node hlt)
    · exact absurd ⟨Node.mem_descendants_self _, hbelow.mem⟩ (hdisjoint q hq p hp q.node hlt)
    · exact h'.deeper p hp ht q hq hbelow hlt
  · have hfirst : Node.holdNoNamespace [n] := fun c hc => hnone c (List.mem_cons.2 (.inl (List.mem_singleton.1 hc)))
    rcases List.mem_append.1 hp with hp | hp
    · exact h.same hfirst p hp
    · exact (h'.same (fun c hc => hnone c (List.mem_cons_of_mem n hc)) p hp).trans (hspaces hfirst)
  · rcases List.mem_append.1 hq with hq | hq
    · refine (h.lineage q hq).imp_right ?_
      rintro ⟨p, hp, hrest⟩
      exact ⟨p, List.mem_append_left qs hp, hrest⟩
    · refine (h'.lineage q hq).imp (fun hq => hq.trans htypes) ?_
      rintro ⟨p, hp, hrest⟩
      exact ⟨p, List.mem_append_right ps hp, hrest⟩
  · rcases List.mem_append.1 hp with hp | hp
    · exact List.Subset.trans (h.full p hp name ht) (List.subset_append_left ps qs)
    · exact List.Subset.trans (h'.full p hp name ht) (List.subset_append_right ps qs)

theorem Stand.cons (h : Stand f [n] e ps) (h' : Stand f ns e qs) (hn : n.nests) (hns : ∀ c ∈ ns, c.nests)
    (hapart : ∀ c ∈ ns, n.apart c) : Stand f (n :: ns) e (ps ++ qs) :=
  h.cons_of h' hn hns hapart rfl fun _ => rfl

theorem Stand.below_of_children (h : Stand f n.children e ps) : ∀ p ∈ ps, p.node.Below n := by
  intro p hp
  obtain ⟨c, hc, hnamed, hm⟩ := h.below p hp
  exact Node.below_of_child hc hnamed hm

/-- A namespace around sites. What is around it need not be around them, but for the types. -/
theorem Stand.namespace_ {around : Enclosure} (h : Stand f n.children e' ps) (hn : n.isNamed)
    (hk : n.kind = .namespaceDeclaration ∨ n.kind = .fileScopedNamespaceDeclaration)
    (haround : around.types = e.types) (htypes : e'.types = e.types) : Stand f [n] e (⟨around, n⟩ :: ps) := by
  have hbelow := h.below_of_children
  have htyped : Site.typed? f ⟨around, n⟩ = none := by
    rcases hk with hk | hk <;> simp [Site.typed?, hk, typeKind?]
  have hup := h.up hn
  refine ⟨?_, List.pairwise_cons.2 ⟨fun q hq _ => (hbelow q hq).ne.symm, h.separate⟩, ?_, ?_, ?_, ?_, ?_⟩
  · exact List.forall_mem_cons.2 ⟨⟨n, List.mem_singleton_self n, hn, Node.mem_descendants_self n⟩, hup.below⟩
  · exact List.forall_mem_cons.2 ⟨Nat.le_of_eq (congrArg _ haround.symm), fun p hp => htypes ▸ h.deep p hp⟩
  · refine List.forall_mem_cons.2 ⟨fun ht => (by rw [htyped] at ht; cases ht), fun p hp ht => ?_⟩
    refine List.forall_mem_cons.2 ⟨fun hb => ?_, h.deeper p hp ht⟩
    exact absurd hb.sizeOf_lt (Nat.lt_asymm (hbelow p hp).sizeOf_lt)
  · intro hnone
    obtain ⟨h1, h2⟩ := hnone n (List.mem_singleton_self n) hn n (Node.mem_descendants_self n)
    exact absurd hk (not_or.2 ⟨h1, h2⟩)
  · refine List.forall_mem_cons.2 ⟨.inl haround, fun q hq => ?_⟩
    rcases h.lineage q hq with hq | ⟨p, hp, hrest⟩
    · exact .inl (hq.trans htypes)
    · exact .inr ⟨p, List.mem_cons_of_mem _ hp, hrest⟩
  · refine List.forall_mem_cons.2 ⟨fun name ht => (by rw [htyped] at ht; cases ht), fun p hp name ht => ?_⟩
    exact List.Subset.trans (h.full p hp name ht) (List.subset_cons_self _ ps)

/-- A type around the sites in its body. -/
theorem Stand.type {name : String} (h : Stand f n.children (Site.inType ⟨e, n⟩ name) (Site.inside f ⟨e, n⟩ name))
    (hn : n.isNamed) (ht : Site.typed? f ⟨e, n⟩ = some name) :
    Stand f [n] e (⟨e, n⟩ :: Site.inside f ⟨e, n⟩ name) := by
  have hbelow := h.below_of_children
  have hdeep : ∀ p ∈ Site.inside f ⟨e, n⟩ name, e.types.length < p.around.types.length := by
    intro p hp
    have := h.deep p hp
    simpa [Site.inType, Nat.succ_le_iff] using this
  refine ⟨?_, List.pairwise_cons.2 ⟨fun q hq _ => (hbelow q hq).ne.symm, h.separate⟩, ?_, ?_, ?_, ?_, ?_⟩
  · refine List.forall_mem_cons.2 ⟨⟨n, List.mem_singleton_self n, hn, Node.mem_descendants_self n⟩, (h.up hn).below⟩
  · exact List.forall_mem_cons.2 ⟨Nat.le_refl _, fun p hp => Nat.le_of_lt (hdeep p hp)⟩
  · refine List.forall_mem_cons.2 ⟨fun _ => ?_, fun p hp ht => ?_⟩
    · exact List.forall_mem_cons.2 ⟨fun hb => absurd rfl hb.ne, fun q hq _ _ => hdeep q hq⟩
    · refine List.forall_mem_cons.2 ⟨fun hb => ?_, h.deeper p hp ht⟩
      exact absurd hb.sizeOf_lt (Nat.lt_asymm (hbelow p hp).sizeOf_lt)
  · intro hnone
    exact List.forall_mem_cons.2 ⟨rfl, h.same fun c hc hnamed m hm =>
      hnone n (List.mem_singleton_self n) hn m (Node.mem_descendants_of_child hc hnamed hm)⟩
  · refine List.forall_mem_cons.2 ⟨.inl rfl, fun q hq => ?_⟩
    rcases h.lineage q hq with htypes | ⟨p, hp, hrest⟩
    · exact .inr ⟨_, List.mem_cons_self, name, ht, hbelow q hq, htypes, fun hnone => h.same hnone q hq⟩
    · exact .inr ⟨p, List.mem_cons_of_mem _ hp, hrest⟩
  · refine List.forall_mem_cons.2 ⟨fun name' ht' => ?_, fun p hp name ht => ?_⟩
    · obtain rfl := Option.some.inj (ht.symm.trans ht')
      exact List.subset_cons_self _ _
    · exact List.Subset.trans (h.full p hp name ht) (List.subset_cons_self _ _)

/-- A member, in which no further sites are looked for. -/
theorem Stand.member (hn : n.isNamed) (ht : Site.typed? f ⟨e, n⟩ = none) : Stand f [n] e [⟨e, n⟩] where
  below p hp := by
    obtain rfl := List.mem_singleton.1 hp
    exact ⟨n, List.mem_singleton_self n, hn, Node.mem_descendants_self n⟩
  separate := List.pairwise_singleton _ _
  deep p hp := by
    obtain rfl := List.mem_singleton.1 hp
    exact Nat.le_refl _
  deeper p hp hp' := by
    obtain rfl := List.mem_singleton.1 hp
    rw [ht] at hp'
    cases hp'
  same _ p hp := by
    obtain rfl := List.mem_singleton.1 hp
    rfl
  lineage p hp := by
    obtain rfl := List.mem_singleton.1 hp
    exact .inl rfl
  full p hp name hp' := by
    obtain rfl := List.mem_singleton.1 hp
    rw [ht] at hp'
    cases hp'

/-! ## All sites of a tree -/

theorem sitesIn_cases (f : SourceFile) (e : Enclosure) (isBody : Node → Bool) (cs : List Node) :
    Node.sitesIn f e isBody cs = [] ∨
      ∃ c ∈ cs, c.isNamed ∧ isBody c ∧ Node.sitesIn f e isBody cs = Node.sitesAll f e c.children := by
  induction cs with
  | nil => exact .inl rfl
  | cons c rest ih =>
    cases c with
    | mk k r a b t cs =>
      rw [Node.sitesIn]
      by_cases hbody : isBody (.mk k r a b t cs)
      · rw [if_pos hbody]
        by_cases hk : k = .token
        · exact .inl (by simp [hk])
        · refine .inr ⟨_, List.mem_cons_self, ?_, hbody, by simp [hk, Node.children]⟩
          simpa [Node.isNamed, Node.kind] using hk
      · rw [if_neg hbody]
        rcases ih with h | ⟨c, hc, h⟩
        · exact .inl h
        · exact .inr ⟨c, List.mem_cons_of_mem _ hc, h⟩

theorem stand_sitesIn {isBody : Node → Bool}
    (h : ∀ c ∈ n.children, ∀ e, Stand f c.children e (Node.sitesAll f e c.children)) :
    Stand f n.children e (Node.sitesIn f e isBody n.children) := by
  rcases sitesIn_cases f e isBody n.children with hnone | ⟨c, hc, hnamed, -, hin⟩
  · exact hnone ▸ .nil f _ e
  · rw [hin]
    exact ((h c hc e).up hnamed).mono (List.cons_subset.2 ⟨hc, List.nil_subset _⟩)

theorem stand_of_children (hall : ∀ e, Stand f n.children e (Node.sitesAll f e n.children))
    (hchild : ∀ c ∈ n.children, ∀ e, Stand f c.children e (Node.sitesAll f e c.children)) (e : Enclosure) :
    Stand f [n] e (n.sites f e) := by
  have hnamed : Node.hidesDeclarations n.kind = false → n.isNamed := fun hk => by
    have hne : n.kind ≠ .token := fun h => by
      rw [h] at hk
      cases hk
    simpa [Node.isNamed] using hne
  have hmember : typeKind? n.kind = none → Node.hidesDeclarations n.kind = false → n.kind ≠ .namespaceDeclaration →
      Node.declaresPlainly n.kind = false → Stand f [n] e (n.sites f e) := by
    intro htype hhides hnamespace hplain
    rw [Node.sites_member hhides hnamespace hplain]
    exact .member (hnamed hhides) (by simp [Site.typed?, htype])
  rcases Node.kind_cases n.kind with hk | hk | hk | hk | hk | hk | hk
  · rw [Node.sites_hidden hk]
    exact .nil f _ e
  · rw [Node.sites_namespace hk]
    cases hname : Site.namespace? f ⟨e, n⟩ with
    | none => exact .nil f _ e
    | some q =>
      have htypes : q.2.types = e.types := by
        obtain ⟨x, -, hx⟩ := Option.bind_eq_some_iff.1 hname
        split at hx
        · cases hx
        · cases hx
          rfl
      exact (stand_sitesIn hchild).namespace_ (hnamed (by rw [hk]; rfl)) (.inl hk) rfl htypes
  iterate 4 exact hmember (by rw [hk]; rfl) (by rw [hk]; rfl) (by rw [hk]; decide) (by rw [hk]; rfl)
  · rw [Node.sites_plain hk]
    have hnamed := hnamed (Node.hidesDeclarations_of_plainly hk)
    cases htype : typeKind? n.kind with
    | none => exact (hall e).up hnamed
    | some kind =>
      rw [Option.elim_some]
      cases hname : nameOf? f n.name? with
      | none => exact .nil f _ e
      | some q =>
        have ht : Site.typed? f ⟨e, n⟩ = some q.2 := by simp [Site.typed?, htype, hname]
        exact Stand.type (stand_sitesIn hchild) hnamed ht

theorem stand_sitesAll {cs : List Node} (h : ∀ c ∈ cs, ∀ e, Stand f [c] e (c.sites f e)) (hnests : ∀ c ∈ cs, c.nests)
    (hpairs : cs.Pairwise fun n m => n.apart m) (e : Enclosure) : Stand f cs e (Node.sitesAll f e cs) := by
  induction cs with
  | nil => exact .nil f _ e
  | cons c rest ih =>
    obtain ⟨hapart, hpairs⟩ := List.pairwise_cons.1 hpairs
    obtain ⟨hc, hrest⟩ := List.forall_mem_cons.1 h
    obtain ⟨hnest, hnests⟩ := List.forall_mem_cons.1 hnests
    rw [Node.sitesAll]
    exact (hc e).cons (ih hrest hnests hpairs) hnest hnests hapart

theorem stand_tree (h : n.nests) : (∀ e, Stand f [n] e (n.sites f e)) ∧
    ∀ e, Stand f n.children e (Node.sitesAll f e n.children) := by
  induction n using Node.childInduction with
  | step n ih =>
    have hchild : ∀ c ∈ n.children, c.nests := fun c hc => Node.nests_of_child h hc
    have hall := fun e =>
      stand_sitesAll (f := f) (fun c hc => (ih c hc (hchild c hc)).1) hchild (Node.nests_iff.1 h).2.2 e
    exact ⟨stand_of_children hall fun c hc => (ih c hc (hchild c hc)).2, hall⟩

theorem stand_sitesTop {cs : List Node} (hnests : ∀ c ∈ cs, c.nests) (hpairs : cs.Pairwise fun n m => n.apart m)
    (e : Enclosure) (he : e.types = []) : Stand f cs e (sitesTop f e cs) := by
  induction cs generalizing e with
  | nil => exact .nil f _ e
  | cons c rest ih =>
    obtain ⟨hapart, hpairs⟩ := List.pairwise_cons.1 hpairs
    obtain ⟨hnest, hnests⟩ := List.forall_mem_cons.1 hnests
    have hrest := fun e he => ih hnests hpairs e he
    rw [sitesTop]
    by_cases hk : c.kind = .fileScopedNamespaceDeclaration
    · have hnamed : c.isNamed := by simp [Node.isNamed, hk]
      have hinside := fun e => (stand_tree (f := f) hnest).2 e
      rw [if_pos (by simp [hk])]
      split
      · rename_i name _
        have hall : Stand f [c] e (⟨{}, c⟩ :: _) :=
          (hinside { e with namespaces := namespaceParts name }).namespace_ hnamed (.inr hk) he.symm rfl
        refine hall.cons_of (hrest _ he) hnest hnests hapart rfl fun hnone => ?_
        exact absurd hk (hnone c (List.mem_singleton_self c) hnamed c (Node.mem_descendants_self c)).2
      · exact ((hinside e).up hnamed).cons (hrest e he) hnest hnests hapart
    · rw [if_neg (by simp [hk])]
      exact ((stand_tree hnest).1 e).cons (hrest e he) hnest hnests hapart

/-- The sites of a file, and how they stand in its tree. -/
theorem stand_sites (h : f.root.nests) : Stand f f.root.children {} f.sites :=
  stand_sitesTop (fun _ hc => Node.nests_of_child h hc) (Node.nests_iff.1 h).2.2 {} rfl

theorem mem_descendants_of_nests {p : Site} (h : f.root.nests) (hp : p ∈ f.sites) : p.node ∈ f.root.descendants := by
  obtain ⟨c, hc, hnamed, hm⟩ := (stand_sites h).below p hp
  exact Node.mem_descendants_of_child hc hnamed hm

end

end Workbench.CSharp
