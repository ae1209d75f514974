import Workbench.CSharp.Reference
import Workbench.Proofs.Nesting

/-!
# Extents of declarations

Every declaration of a file comes from a node of its tree and covers exactly
that node. Methods, constructors, properties and fields hold no further
declarations, so the extents of any two of them are apart, but for fields that
one declaration declares together.
-/

namespace Workbench.CSharp

/-- The node that a declaration comes from. -/
structure Declares (f : SourceFile) (m : Node) (d : Declared) : Prop where
  path : d.location.path = f.path
  extent : d.extent = m.span
  member : callerKinds.contains d.kind → m.kind.isMemberDeclaration
  named : d.kind = .method → d.name ≠ ""

/-- Declarations whose extents have no byte in common, so far as they can have calls. Fields may share one. -/
def Separate (d d' : Declared) : Prop :=
  callerKinds.contains d.kind → callerKinds.contains d'.kind →
    (d.kind = .field ∧ d'.kind = .field) ∨ d.extent.stop ≤ d'.extent.start ∨ d'.extent.stop ≤ d.extent.start

theorem Separate.symm {d d' : Declared} (h : Separate d d') : Separate d' d := by
  intro hd' hd
  rcases h hd hd' with ⟨hf, hf'⟩ | h
  · exact .inl ⟨hf', hf⟩
  · exact .inr h.symm

/-- Declarations that come from a node and the nodes below it. -/
structure From (f : SourceFile) (n : Node) (ds : List Declared) : Prop where
  origin : ∀ d ∈ ds, n.isNamed ∧ ∃ m ∈ n.descendants, Declares f m d
  separate : ds.Pairwise Separate

/-- Declarations that come from nodes side by side. -/
structure FromAll (f : SourceFile) (ns : List Node) (ds : List Declared) : Prop where
  origin : ∀ d ∈ ds, ∃ n ∈ ns, n.isNamed ∧ ∃ m ∈ n.descendants, Declares f m d
  separate : ds.Pairwise Separate

/-! ## What a node declares, by its kind -/

namespace Node

/-- Kinds of nodes in which no declaration is looked for. -/
def hidesDeclarations : Kind → Bool
  | .token | .localFunctionStatement | .anonymousMethodExpression | .lambdaExpression | .globalStatement
  | .block => true
  | _ => false

/-- Kinds of nodes that are types or hold declarations like a plain list. -/
def declaresPlainly : Kind → Bool
  | .namespaceDeclaration | .methodDeclaration | .constructorDeclaration | .propertyDeclaration
  | .fieldDeclaration => false
  | k => !hidesDeclarations k

/-- What a node of a kind that holds no further declarations declares. -/
def declareAlone? : Kind → Option (SourceFile → Enclosure → Node → List Declared)
  | .token | .localFunctionStatement | .anonymousMethodExpression | .lambdaExpression | .globalStatement
  | .block => some fun _ _ _ => []
  | .methodDeclaration => some declareMethod
  | .constructorDeclaration => some declareConstructor
  | .propertyDeclaration => some declareProperty
  | .fieldDeclaration => some declareFields
  | _ => none

section
variable (f : SourceFile) (e : Enclosure) {n : Node}

theorem kind_cases (k : Kind) : hidesDeclarations k = true ∨ k = .namespaceDeclaration ∨ k = .methodDeclaration ∨
    k = .constructorDeclaration ∨ k = .propertyDeclaration ∨ k = .fieldDeclaration ∨ declaresPlainly k = true := by
  cases h : hidesDeclarations k with
  | true => exact .inl rfl
  | false =>
    unfold declaresPlainly
    split
    all_goals simp [h]

theorem declared_alone {declare : SourceFile → Enclosure → Node → List Declared} (hk : declareAlone? n.kind = some declare) :
    n.declared f e = declare f e n := by
  cases n with
  | mk k r a b t cs =>
    have hk : declareAlone? k = some declare := hk
    unfold declareAlone? at hk
    split at hk
    all_goals cases hk
    all_goals rw [declared]

theorem declared_hidden (hk : hidesDeclarations n.kind = true) : n.declared f e = [] := by
  have halone : declareAlone? n.kind = some fun _ _ _ => [] := by
    unfold hidesDeclarations at hk
    split at hk
    case h_7 => cases hk
    all_goals
      rename_i hkind
      rw [hkind]
      rfl
  exact declared_alone f e halone

theorem declared_namespace (hk : n.kind = .namespaceDeclaration) : n.declared f e =
    (nameOf? f n.name?).elim [] fun p => if (namespaceParts p.2).isEmpty then [] else
      declareNamespace f e n p.1 (e.namespaces ++ namespaceParts p.2) ++
        declaredIn f { e with namespaces := e.namespaces ++ namespaceParts p.2 } (·.role == .body) n.children := by
  cases n
  cases hk
  rw [declared]
  generalize nameOf? f _ = name?
  cases name? with
  | none => rfl
  | some p => simp only [Option.elim_some, children]

theorem declared_method (hk : n.kind = .methodDeclaration) : n.declared f e = declareMethod f e n :=
  declared_alone f e (by rw [hk]; rfl)

theorem declared_constructor (hk : n.kind = .constructorDeclaration) : n.declared f e = declareConstructor f e n :=
  declared_alone f e (by rw [hk]; rfl)

theorem declared_property (hk : n.kind = .propertyDeclaration) : n.declared f e = declareProperty f e n :=
  declared_alone f e (by rw [hk]; rfl)

theorem declared_fields (hk : n.kind = .fieldDeclaration) : n.declared f e = declareFields f e n :=
  declared_alone f e (by rw [hk]; rfl)

theorem declared_plain (hk : declaresPlainly n.kind = true) : n.declared f e =
    (typeKind? n.kind).elim (declaredAll f e n.children) fun kind => (nameOf? f n.name?).elim [] fun p =>
      declareType f e kind n p.1 p.2 ::
        declaredIn f { e with types := e.types ++ [Symbol.genericName p.2 (arity n)] } (isTypeBody n.children)
          n.children := by
  cases n with
  | mk k r a b t cs =>
    rw [declared]
    · cases htype : typeKind? k with
      | none => simp [kind, children, htype]
      | some kind => cases hname : nameOf? f (mk k r a b t cs).name? <;> simp [Node.kind, children, htype]
    all_goals
      rintro rfl
      exact absurd hk Bool.false_ne_true

end

end Node

section
variable {f : SourceFile} {n c m : Node} {ns : List Node} {d : Declared} {ds ds' : List Declared} {e : Enclosure}

theorem From.nil (f : SourceFile) (n : Node) : From f n [] := ⟨by simp, .nil⟩

theorem FromAll.nil (f : SourceFile) : FromAll f ns [] := ⟨by simp, .nil⟩

theorem separate_of_apart {m' : Node} {d' : Declared} (hd : Declares f m d) (hd' : Declares f m' d') (hm : m.nests)
    (hm' : m'.nests) (h : m.apart m') : Separate d d' := by
  intro _ _
  rw [hd.extent, hd'.extent, Node.stop_span_of_nests hm, Node.stop_span_of_nests hm']
  simp only [Node.apart, Bool.or_eq_true, decide_eq_true_eq] at h
  exact .inr h

/-- Declarations of siblings are separate, since what they come from is apart. -/
theorem From.cons (h : From f n ds) (h' : FromAll f ns ds') (hn : n.nests) (hns : ∀ c ∈ ns, c.nests)
    (hapart : ∀ c ∈ ns, n.apart c) : FromAll f (n :: ns) (ds ++ ds') where
  origin d hd := by
    rcases List.mem_append.1 hd with hd | hd
    · exact ⟨n, List.mem_cons_self, h.origin d hd⟩
    · obtain ⟨c, hc, hd⟩ := h'.origin d hd
      exact ⟨c, List.mem_cons_of_mem n hc, hd⟩
  separate := by
    refine List.pairwise_append.2 ⟨h.separate, h'.separate, fun d hd d' hd' => ?_⟩
    obtain ⟨-, m, hm, hdm⟩ := h.origin d hd
    obtain ⟨c, hc, -, m', hm', hdm'⟩ := h'.origin d' hd'
    exact separate_of_apart hdm hdm' (Node.nests_of_mem_descendants hn hm)
      (Node.nests_of_mem_descendants (hns c hc) hm') (Node.apart_below (hapart c hc) hn (hns c hc) hm hm')

theorem FromAll.up (h : FromAll f n.children ds) (hn : n.isNamed) : From f n ds where
  origin d hd := by
    obtain ⟨c, hc, hnamed, m, hm, hdm⟩ := h.origin d hd
    exact ⟨hn, m, Node.mem_descendants_of_child hc hnamed hm, hdm⟩
  separate := h.separate

theorem From.up (h : From f c ds) (hn : n.isNamed) (hc : c ∈ n.children) : From f n ds where
  origin d hd := by
    obtain ⟨hnamed, m, hm, hdm⟩ := h.origin d hd
    exact ⟨hn, m, Node.mem_descendants_of_child hc hnamed hm, hdm⟩
  separate := h.separate

/-- Namespaces and types may hold anything: they have no calls of their own. -/
theorem From.scope (h : From f n ds) (hn : n.isNamed) (hd : Declares f n d) (hk : callerKinds.contains d.kind = false) :
    From f n (d :: ds) where
  origin d' hd' := by
    rcases List.mem_cons.1 hd' with rfl | hd'
    · exact ⟨hn, n, Node.mem_descendants_self n, hd⟩
    · exact h.origin d' hd'
  separate := by
    refine List.pairwise_cons.2 ⟨fun d' _ hd => ?_, h.separate⟩
    rw [hk] at hd
    cases hd

theorem From.namespace_ {at_ : Node} {parts : List String} (h : From f n ds) (hn : n.isNamed) :
    From f n (declareNamespace f e n at_ parts ++ ds) := by
  unfold declareNamespace
  split
  · exact h.scope hn ⟨rfl, rfl, nofun, nofun⟩ rfl
  · exact h

theorem From.single (hn : n.isNamed) (hd : Declares f n d) : From f n [d] where
  origin d' hd' := by
    obtain rfl := List.mem_singleton.1 hd'
    exact ⟨hn, n, Node.mem_descendants_self n, hd⟩
  separate := List.pairwise_singleton _ d

/-! ## One declaration -/

theorem nameOf?_spec {o : Option Node} {q : Node × String} (h : nameOf? f o = some q) :
    o = some q.1 ∧ f.word q.1 = q.2 ∧ q.2 ≠ "" := by
  obtain ⟨n, hn, h⟩ := Option.bind_eq_some_iff.1 h
  by_cases hw : f.word n = ""
  · rw [if_pos hw] at h
    cases h
  · rw [if_neg hw] at h
    cases h
    exact ⟨hn, rfl, hw⟩

theorem from_declareMethod (hk : n.kind = .methodDeclaration) : From f n (declareMethod f e n) := by
  unfold declareMethod
  split
  · rename_i hname
    exact .single (by simp [Node.isNamed, hk]) ⟨rfl, rfl, fun _ => hk ▸ rfl, fun _ => (nameOf?_spec hname).2.2⟩
  · exact .nil f n

theorem from_declareConstructor (hk : n.kind = .constructorDeclaration) : From f n (declareConstructor f e n) := by
  unfold declareConstructor
  split
  · exact .single (by simp [Node.isNamed, hk]) ⟨rfl, rfl, fun _ => hk ▸ rfl, nofun⟩
  · exact .nil f n

theorem from_declareProperty (hk : n.kind = .propertyDeclaration) : From f n (declareProperty f e n) := by
  unfold declareProperty
  split
  · exact .single (by simp [Node.isNamed, hk]) ⟨rfl, rfl, fun _ => hk ▸ rfl, nofun⟩
  · exact .nil f n

/-- The fields of one declaration all cover it. -/
theorem from_declareFields (hk : n.kind = .fieldDeclaration) : From f n (declareFields f e n) := by
  have hfield : ∀ d ∈ declareFields f e n, d.kind = .field ∧ Declares f n d := by
    intro d hd
    obtain ⟨name, -, rfl⟩ := List.mem_map.1 hd
    exact ⟨rfl, rfl, rfl, fun _ => hk ▸ rfl, nofun⟩
  refine ⟨fun d hd => ?_, List.pairwise_of_forall_mem_list ?_⟩
  · exact ⟨by simp [Node.isNamed, hk], n, Node.mem_descendants_self n, (hfield d hd).2⟩
  · intro d hd d' hd' _ _
    exact .inl ⟨(hfield d hd).1, (hfield d' hd').1⟩

theorem callerKinds_of_typeKind {k : Kind} {kind : SymbolKind} (h : typeKind? k = some kind) :
    callerKinds.contains kind = false ∧ kind ≠ .method := by
  cases k <;> cases h <;> exact ⟨rfl, nofun⟩

/-! ## All declarations -/

theorem declaredIn_cases (f : SourceFile) (e : Enclosure) (isBody : Node → Bool) (cs : List Node) :
    Node.declaredIn f e isBody cs = [] ∨
      ∃ c ∈ cs, c.isNamed ∧ Node.declaredIn f e isBody cs = Node.declaredAll f e c.children := by
  induction cs with
  | nil => exact .inl rfl
  | cons c rest ih =>
    cases c with
    | mk k r a b t cs =>
      rw [Node.declaredIn]
      by_cases hbody : isBody (.mk k r a b t cs)
      · rw [if_pos hbody]
        by_cases hk : k = .token
        · exact .inl (by simp [hk])
        · exact .inr ⟨_, List.mem_cons_self, by simpa [Node.isNamed, Node.kind] using hk, by simp [hk, Node.children]⟩
      · rw [if_neg hbody]
        rcases ih with h | ⟨c, hc, h⟩
        · exact .inl h
        · exact .inr ⟨c, List.mem_cons_of_mem _ hc, h⟩

theorem from_declaredIn {isBody : Node → Bool} (hn : n.isNamed)
    (h : ∀ c ∈ n.children, c.isNamed → ∀ e, From f c (Node.declaredAll f e c.children)) :
    From f n (Node.declaredIn f e isBody n.children) := by
  rcases declaredIn_cases f e isBody n.children with hnone | ⟨c, hc, hnamed, hin⟩
  · exact hnone ▸ .nil f n
  · exact hin ▸ (h c hc hnamed e).up hn hc

/-- What a node declares, from what its children do. -/
theorem from_declared (hall : n.isNamed → ∀ e, From f n (Node.declaredAll f e n.children))
    (hchild : ∀ c ∈ n.children, c.isNamed → ∀ e, From f c (Node.declaredAll f e c.children)) (e : Enclosure) :
    From f n (n.declared f e) := by
  rcases Node.kind_cases n.kind with hk | hk | hk | hk | hk | hk | hk
  · rw [Node.declared_hidden f e hk]
    exact .nil f n
  · rw [Node.declared_namespace f e hk]
    have hnamed : n.isNamed := by simp [Node.isNamed, hk]
    cases nameOf? f n.name? with
    | none => exact .nil f n
    | some p =>
      rw [Option.elim_some]
      by_cases hparts : (namespaceParts p.2).isEmpty
      · rw [if_pos hparts]
        exact .nil f n
      · rw [if_neg hparts]
        exact (from_declaredIn hnamed hchild).namespace_ hnamed
  · exact Node.declared_method f e hk ▸ from_declareMethod hk
  · exact Node.declared_constructor f e hk ▸ from_declareConstructor hk
  · exact Node.declared_property f e hk ▸ from_declareProperty hk
  · exact Node.declared_fields f e hk ▸ from_declareFields hk
  · rw [Node.declared_plain f e hk]
    have hnamed : n.isNamed := by
      have hne : n.kind ≠ .token := fun h => by
        rw [h] at hk
        exact absurd hk Bool.false_ne_true
      simpa [Node.isNamed] using hne
    cases htype : typeKind? n.kind with
    | none => exact hall hnamed e
    | some kind =>
      obtain ⟨hcaller, hmethod⟩ := callerKinds_of_typeKind htype
      rw [Option.elim_some]
      cases nameOf? f n.name? with
      | none => exact .nil f n
      | some p =>
        refine (from_declaredIn hnamed hchild).scope hnamed ⟨rfl, rfl, fun h => ?_, fun h => absurd h hmethod⟩ hcaller
        exact absurd (hcaller.symm.trans h) nofun

theorem fromAll_declaredAll {cs : List Node} (h : ∀ c ∈ cs, ∀ e, From f c (c.declared f e)) (hnests : ∀ c ∈ cs, c.nests)
    (hpairs : cs.Pairwise fun n m => n.apart m) (e : Enclosure) : FromAll f cs (Node.declaredAll f e cs) := by
  induction cs with
  | nil => exact .nil f
  | cons c rest ih =>
    obtain ⟨hapart, hpairs⟩ := List.pairwise_cons.1 hpairs
    obtain ⟨hc, hrest⟩ := List.forall_mem_cons.1 h
    obtain ⟨hnest, hnests⟩ := List.forall_mem_cons.1 hnests
    rw [Node.declaredAll]
    exact (hc e).cons (ih hrest hnests hpairs) hnest hnests hapart

/-- What nodes of a tree declare comes from them and is separate. -/
theorem from_tree (h : n.nests) : (∀ e, From f n (n.declared f e)) ∧
    (n.isNamed → ∀ e, From f n (Node.declaredAll f e n.children)) := by
  induction n using Node.childInduction with
  | step n ih =>
    have hpairs := (Node.nests_iff.1 h).2.2
    have hchild : ∀ c ∈ n.children, c.nests := fun c hc => Node.nests_of_child h hc
    have hall : n.isNamed → ∀ e, From f n (Node.declaredAll f e n.children) := fun hn e =>
      (fromAll_declaredAll (fun c hc => (ih c hc (hchild c hc)).1) hchild hpairs e).up hn
    exact ⟨from_declared hall fun c hc => (ih c hc (hchild c hc)).2, hall⟩

theorem fromAll_declaredTop {cs : List Node} (hnests : ∀ c ∈ cs, c.nests)
    (hpairs : cs.Pairwise fun n m => n.apart m) (e : Enclosure) : FromAll f cs (declaredTop f e cs) := by
  induction cs generalizing e with
  | nil => exact .nil f
  | cons c rest ih =>
    obtain ⟨hapart, hpairs⟩ := List.pairwise_cons.1 hpairs
    obtain ⟨hnest, hnests⟩ := List.forall_mem_cons.1 hnests
    have hrest := fun e => ih hnests hpairs e
    rw [declaredTop]
    by_cases hk : c.kind = .fileScopedNamespaceDeclaration
    · have hnamed : c.isNamed := by simp [Node.isNamed, hk]
      have hinside := fun e => (from_tree (f := f) hnest).2 hnamed e
      rw [if_pos (by simp [hk])]
      split
      · exact ((hinside _).namespace_ hnamed).cons (hrest _) hnest hnests hapart
      · exact (hinside e).cons (hrest e) hnest hnests hapart
    · rw [if_neg (by simp [hk])]
      exact ((from_tree hnest).1 e).cons (hrest e) hnest hnests hapart

/-- The declarations of a file come from nodes of its tree, and are separate. -/
theorem declarations_spec (h : f.root.nests) :
    (∀ d ∈ declarations f, ∃ m ∈ f.root.descendants, Declares f m d) ∧ (declarations f).Pairwise Separate := by
  have hall : FromAll f f.root.children (declarations f) :=
    fromAll_declaredTop (fun c hc => Node.nests_of_child h hc) (Node.nests_iff.1 h).2.2 {}
  refine ⟨fun d hd => ?_, hall.separate⟩
  obtain ⟨c, hc, hnamed, m, hm, hdm⟩ := hall.origin d hd
  exact ⟨m, Node.mem_descendants_of_child hc hnamed hm, hdm⟩

end

end Workbench.CSharp
