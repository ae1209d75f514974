import Workbench.Proofs.Outlining

/-!
# Which using directives are needed

Whether a using directive is needed depends on what it imports, on the names
of its file and on the outlines of the index. `SettledUsings` says of a file
that all of its directives are needed and none is repeated; then, and only
then, a cleanup finds none to remove.
-/

namespace Workbench.CSharp

/-! ## Names of a file -/

namespace Node

variable (f : SourceFile) (ns : String)

theorem occurrencesIn_eq (cs : List Node) : occurrencesIn f ns cs = cs.flatMap (occurrences f ns) := by
  induction cs with
  | nil => rfl
  | cons c rest ih => rw [occurrencesIn, ih, List.flatMap_cons]

theorem occurrencesInside_eq (cs : List Node) :
    occurrencesInside f ns cs = cs.flatMap fun n => if n.role == .name then [] else occurrences f ns n := by
  induction cs with
  | nil => rfl
  | cons c rest ih => rw [occurrencesInside, ih, List.flatMap_cons]

/-- The namespace inside a namespace declaration. -/
def inner (n : Node) : String :=
  let name := n.name?.elim "" f.compact
  if ns = "" then name else ns ++ "." ++ name

theorem occurrences_eq (n : Node) : n.occurrences f ns =
    if n.kind = .usingDirective then []
    else if n.kind = .identifier then [⟨f.text n, ns⟩]
    else if n.kind = .queryExpression then ⟨"Select", ns⟩ :: occurrencesIn f ns n.children
    else if n.kind = .namespaceDeclaration then occurrencesInside f (inner f ns n) n.children
    else if n.kind = .fileScopedNamespaceDeclaration then occurrencesInside f ns n.children
    else occurrencesIn f ns n.children := by
  cases n with
  | mk k r a b t cs =>
    unfold occurrences
    split
    all_goals simp_all [Node.kind, Node.children, inner]

end Node

section
variable {f g : SourceFile} {edit : Node → List Node} {n m : Node}

theorem occurrences_of_modifier (h : n.Regular f) (hk : n.kind = .modifier) (ns : String) : n.occurrences f ns = [] := by
  obtain ⟨t, ht, htoken, hleaf, -⟩ := Node.exists_token_of_isKeyword (h.modifier hk).2
  rw [Node.occurrences_eq, hk]
  simp only [reduceCtorEq, if_false, Node.occurrencesIn_eq, ht, List.flatMap_cons, List.flatMap_nil, List.append_nil]
  rw [Node.occurrences_eq, htoken]
  simp only [reduceCtorEq, if_false, Node.occurrencesIn_eq, hleaf, List.flatMap_nil]

theorem occurrences_of_plain (h : n.Regular f) (hk : n.kind = .usingDirective ∨ n.kind = .modifier) (ns : String) :
    n.occurrences f ns = [] := by
  rcases hk with hk | hk
  · rw [Node.occurrences_eq, if_pos hk]
  · exact occurrences_of_modifier h hk ns

namespace Paired

theorem elim_compact {o o' : Option Node} (hpair : Option.Rel (Paired f g edit) o o')
    (hrole : ∀ a ∈ o, a.role = .name) : o.elim "" f.compact = o'.elim "" g.compact := by
  revert hrole
  cases hpair with
  | none => exact fun _ => by rw [Option.elim_none, Option.elim_none]
  | some hab => exact fun hrole => hab.compact (hrole _ rfl)

theorem compact_name (hkeep : Keeps edit) (h : Paired f g edit n m) :
    n.name?.elim "" f.compact = m.name?.elim "" g.compact :=
  elim_compact (h.child? hkeep (by decide)) fun a ha => by simpa using List.find?_some ha

/-- The names in a node, apart from those in using directives, stay the same. -/
theorem occurrences (hkeep : Keeps edit) (h : Paired f g edit n m) (ns : String) :
    n.occurrences f ns = m.occurrences g ns := by
  induction n using Node.childInduction generalizing m ns with
  | step n ih =>
    have hregular : ∀ {t : SourceFile} {n c : Node}, n.everywhere (Node.isRegular t) = true → c ∈ n.children → c.Regular t :=
      fun h hc => Node.regular_of_everywhere ((Node.everywhere_iff.1 h).2 _ hc)
    have hin : ∀ ns, Node.occurrencesIn f ns n.children = Node.occurrencesIn g ns m.children := by
      intro ns
      rw [Node.occurrencesIn_eq, Node.occurrencesIn_eq]
      exact h.flatMap_eq hkeep (fun c hc hk => occurrences_of_plain (hregular h.old hc) hk ns)
        (fun c hc hk => occurrences_of_plain (hregular h.new hc) hk ns) fun a ha b _ hab => ih a ha hab ns
    have hinside : ∀ ns, Node.occurrencesInside f ns n.children = Node.occurrencesInside g ns m.children := by
      intro ns
      rw [Node.occurrencesInside_eq, Node.occurrencesInside_eq]
      refine h.flatMap_eq hkeep (fun c hc hk => ?_) (fun c hc hk => ?_) fun a ha b _ hab => ?_
      · rw [occurrences_of_plain (hregular h.old hc) hk ns, ite_self]
      · rw [occurrences_of_plain (hregular h.new hc) hk ns, ite_self]
      · rw [ih a ha hab ns, hab.role]
    rw [Node.occurrences_eq, Node.occurrences_eq, h.kind]
    by_cases hid : n.kind = .identifier
    · rw [h.text_identifier hid]
      simp only [hid, reduceCtorEq, if_false, if_true]
    · simp only [hid, if_false, hin, hinside, Node.inner, h.compact_name hkeep]

theorem fileOccurrences (hkeep : Keeps edit) (h : Paired f g edit f.root g.root) : fileOccurrences f = fileOccurrences g := by
  have hfile : fileNamespace f = fileNamespace g := by
    have hns := h.ofKind? hkeep (k := .fileScopedNamespaceDeclaration) (by decide)
    rw [fileNamespace, fileNamespace]
    revert hns
    generalize f.root.children.find? _ = o, g.root.children.find? _ = o'
    rintro (hab | _)
    · exact hab.compact_name hkeep
    · rw [Option.bind_none, Option.elim_none, Option.elim_none]
  rw [CSharp.fileOccurrences, CSharp.fileOccurrences, hfile, h.occurrences hkeep]

end Paired

end

/-! ## What a directive is needed for -/

namespace Using

section
variable {ix ix' : SymbolIndex}

/-- Questions about the outlines of symbols have the same answers in both indexes. -/
theorem any_symbols (h : ix.SameOutlines ix') {p : Symbol → Bool} (hp : ∀ s s' : Symbol, s.outline = s'.outline → p s = p s') :
    ix.symbols.any p = ix'.symbols.any p := by
  rw [SymbolIndex.SameOutlines] at h
  generalize ix.symbols = xs, ix'.symbols = ys at h
  induction xs generalizing ys with
  | nil =>
    cases List.map_eq_nil_iff.1 h.symm
    rfl
  | cons s rest ih =>
    obtain ⟨s', rest', rfl, hs, hrest⟩ := List.map_eq_cons_iff.1 h.symm
    rw [List.any_cons, List.any_cons, hp s s' hs.symm, ih rest' hrest.symm]

theorem any_where (p q : Symbol → Bool) : (ix.where_ p).any q = ix.symbols.any fun s => p s && q s := by
  have hperm : (ix.where_ p).Perm (ix.symbols.filter p) := List.mergeSort_perm _ _
  rw [hperm.any_eq, List.any_filter]

theorem any_members (h : ix.SameOutlines ix') (container : String) {p : Symbol → Bool}
    (hp : ∀ s s' : Symbol, s.outline = s'.outline → p s = p s') :
    (ix.membersOf container).any p = (ix'.membersOf container).any p := by
  rw [SymbolIndex.membersOf, SymbolIndex.membersOf, any_where, any_where]
  refine any_symbols h fun s s' hs => ?_
  rw [hp s s' hs, show s.container = s'.container from congrArg (fun o : String × Outline => o.2.container) hs]

/-- The first type of a qualified name counts by that name alone. -/
theorem namesMemberOf_eq (c : Compilation) (names : List String) (type : String) : namesMemberOf c names type =
    (!(c.index.byQualname type).any (·.kind.isType) ||
      (c.index.membersOf type).any fun m => names.contains m.name) := by
  unfold namesMemberOf
  split
  · rename_i hnone
    have hany : (c.index.byQualname type).any (·.kind.isType) = false := by
      rw [← List.isSome_find?, hnone]
      rfl
    rw [hany, Bool.not_false, Bool.true_or]
  · rename_i t hsome
    have hany : (c.index.byQualname type).any (·.kind.isType) = true := by
      rw [← List.isSome_find?, hsome]
      rfl
    have hqual : t.qualname = type := (SymbolIndex.mem_byQualname.1 (List.mem_of_find?_eq_some hsome)).2
    rw [hany, hqual, Bool.not_true, Bool.false_or]

end

/-- Whether a directive is needed depends on what it imports and on the outlines of the index. -/
theorem isNeeded_congr {c c' : Compilation} (h : c.index.SameOutlines c'.index) (occs : List Occurrence) {u u' : Using}
    (hkey : u.key = u'.key) : isNeeded c occs u = isNeeded c' occs u' := by
  simp only [key, Prod.mk.injEq] at hkey
  obtain ⟨-, hstatic, hshort, hname⟩ := hkey
  have hkind : ∀ s s' : Symbol, s.outline = s'.outline → s.kind = s'.kind := fun s s' hs =>
    congrArg (fun o : String × Outline => o.2.kind) hs
  have hnamed : ∀ s s' : Symbol, s.outline = s'.outline → s.name = s'.name := fun s s' hs =>
    congrArg (fun o : String × Outline => o.2.name) hs
  have hqual : ∀ s s' : Symbol, s.outline = s'.outline → s.qualname = s'.qualname := fun s s' hs =>
    congrArg (fun o : String × Outline => o.2.qualname) hs
  have hmember : ∀ names type, namesMemberOf c names type = namesMemberOf c' names type := by
    intro names type
    rw [namesMemberOf_eq, namesMemberOf_eq, any_members h type fun s s' hs => by rw [hnamed s s' hs],
      SymbolIndex.byQualname_eq, SymbolIndex.byQualname_eq, any_where, any_where,
      any_symbols h fun s s' hs => by rw [hkind s s' hs, hqual s s' hs]]
  have htype : ∀ ns, namesTypeOf c occs ns = namesTypeOf c' occs ns := by
    intro ns
    rw [namesTypeOf, namesTypeOf]
    congr 1
    funext o
    rw [List.any_filter, List.any_filter,
      any_members h ns fun s s' hs => by rw [hkind s s' hs, hnamed s s' hs]]
  have hdeclares : ∀ ns, c.declaresNamespace ns = c'.declaresNamespace ns := fun ns =>
    any_symbols h fun s s' hs => by rw [hkind s s' hs, hqual s s' hs]
  simp only [isNeeded, hstatic, hshort, hname, hmember, htype, hdeclares]

/-! ## When no directive can go -/

/-- Of two directives side by side, the first is global or imports something else. -/
def differ (u v : Using) : Prop := u.isGlobal = true ∨ u.sameImport v = false

theorem differ_congr {u u' v v' : Using} (hu : u.key = u'.key) (hv : v.key = v'.key) : differ u v ↔ differ u' v' := by
  simp only [key, Prod.mk.injEq] at hu hv
  simp only [differ, sameImport, hu.1, hu.2.1, hu.2.2.1, hu.2.2.2, hv.1, hv.2.1, hv.2.2.1, hv.2.2.2]

/-- Directives of one container of which none can go. -/
structure Fine (c : Compilation) (f : SourceFile) (us : List Node) : Prop where
  needed : ∀ u ∈ us, (ofNode f u).isGlobal = false → isNeeded c (fileOccurrences f) (ofNode f u) = true
  once : us.Pairwise fun u v => differ (ofNode f u) (ofNode f v)

/-- None of the directives of a file can go. -/
def Settled (c : Compilation) (f : SourceFile) : Prop :=
  ∀ n ∈ f.root.descendants, Fine c f (n.children.filter Node.isUsing)

section
variable {c : Compilation} {occs : List Occurrence} {before ps : List Placed} {p q : Placed}

/-- Whether the second of two directives repeats the first. -/
def repeats (q p : Placed) : Bool := sameContainer q.container p.container && q.directive.sameImport p.directive

theorem unneededFrom_eq_nil (hneeded : ∀ p ∈ ps, isNeeded c occs p.directive = true)
    (hbefore : ∀ q ∈ before, ∀ p ∈ ps, repeats q p = false) (honce : ps.Pairwise fun q p => repeats q p = false) :
    unneededFrom c occs before ps = [] := by
  induction ps generalizing before with
  | nil => rfl
  | cons p rest ih =>
    obtain ⟨hp, hrest⟩ := List.forall_mem_cons.1 hneeded
    obtain ⟨hfirst, honce⟩ := List.pairwise_cons.1 honce
    have hnot : isRepeated before p = false := List.any_eq_false.2 fun q hq => by
      have := hbefore q hq p List.mem_cons_self
      rw [repeats] at this
      simp [this]
    rw [unneededFrom, hnot, hp, ih hrest (fun q hq p' hp' => ?_) honce]
    · rfl
    · rcases List.mem_cons.1 hq with rfl | hq
      · exact hfirst p' hp'
      · exact hbefore q hq p' (List.mem_cons_of_mem p hp')

theorem mem_unneededFrom_of_not_needed (hp : p ∈ ps) (h : isNeeded c occs p.directive = false) :
    p.directive ∈ unneededFrom c occs before ps := by
  induction ps generalizing before with
  | nil => cases hp
  | cons x rest ih =>
    rw [unneededFrom]
    rcases List.mem_cons.1 hp with rfl | hp
    · exact List.mem_append_left _ (by simp [h])
    · exact List.mem_append_right _ (ih hp)

theorem mem_unneededFrom_of_before (hq : q ∈ before) (hp : p ∈ ps) (h : repeats q p = true) :
    p.directive ∈ unneededFrom c occs before ps := by
  induction ps generalizing before with
  | nil => cases hp
  | cons x rest ih =>
    rw [unneededFrom]
    rcases List.mem_cons.1 hp with rfl | hp
    · have hrep : isRepeated before p = true := List.any_eq_true.2 ⟨q, hq, h⟩
      exact List.mem_append_left _ (by simp [hrep])
    · exact List.mem_append_right _ (ih (List.mem_cons_of_mem x hq) hp)

theorem mem_unneededFrom_of_sublist (hqp : [q, p].Sublist ps) (h : repeats q p = true) :
    p.directive ∈ unneededFrom c occs before ps := by
  induction ps generalizing before with
  | nil => cases hqp
  | cons x rest ih =>
    rw [unneededFrom]
    refine List.mem_append_right _ ?_
    cases hqp with
    | cons _ hqp => exact ih hqp
    | cons_cons _ hp => exact mem_unneededFrom_of_before List.mem_cons_self (List.singleton_sublist.1 hp) h

end

end Using

/-! ## Directives in a tree -/

namespace Node

variable {n c : Node}

theorem isNamed_of_isUsing (h : n.isUsing = true) : n.isNamed = true := by
  rw [isUsing, beq_iff_eq] at h
  simp [isNamed, h]

theorem filter_named_isUsing (n : Node) : n.named.filter isUsing = n.children.filter isUsing := by
  rw [named, List.filter_filter]
  refine List.filter_congr fun d _ => ?_
  by_cases hd : d.kind = .usingDirective <;> simp [isUsing, isNamed, hd]

/-- A node of a tree other than its root is a child of one. -/
theorem exists_parent {m : Node} (hm : m ∈ n.descendants) (hne : m ≠ n) : ∃ p ∈ n.descendants, m ∈ p.children := by
  induction n using childInduction with
  | step n ih =>
    rcases mem_descendants.1 hm with rfl | ⟨c, hc, hnamed, hm⟩
    · exact absurd rfl hne
    · by_cases he : m = c
      · exact ⟨n, mem_descendants_self n, he ▸ hc⟩
      · obtain ⟨p, hp, hmp⟩ := ih c hc hm he
        exact ⟨p, mem_descendants_of_child hc hnamed hp, hmp⟩

theorem walkAll_eq (enter : Node → Bool) (around : List Node) (cs : List Node) :
    walkAll enter around cs = (cs.filter isNamed).flatMap (walk enter around) := by
  induction cs with
  | nil => rfl
  | cons c rest ih =>
    rw [walkAll, ih, List.filter_cons]
    split
    · rw [List.flatMap_cons]
    · rfl

theorem walk_cons (enter : Node → Bool) (around : List Node) (n : Node) :
    n.walk enter around = ⟨n, around⟩ :: if enter n then n.named.flatMap (walk enter (n :: around)) else [] := by
  cases n
  rw [walk, walkAll_eq]
  rfl

theorem walk_eq (around : List Node) (n : Node) :
    n.walk (fun _ => true) around = ⟨n, around⟩ :: n.named.flatMap (walk (fun _ => true) (n :: around)) := by
  rw [walk_cons, if_pos rfl]

/-- A focus below a node is that node or has a parent below it. -/
theorem parent?_of_mem_walk {x : Focus} {p : Node} {around : List Node} (h : x ∈ n.walk (fun _ => true) (p :: around)) :
    (x.node = n ∧ x.parent? = some p) ∨ ∃ q ∈ n.descendants, x.parent? = some q ∧ x.node ∈ q.children := by
  induction n using childInduction generalizing p around with
  | step n ih =>
    rw [walk_eq] at h
    rcases List.mem_cons.1 h with rfl | h
    · exact .inl ⟨rfl, rfl⟩
    · obtain ⟨c, hc, hx⟩ := List.mem_flatMap.1 h
      obtain ⟨hchild, hnamed⟩ := List.mem_filter.1 hc
      rcases ih c hchild hx with ⟨rfl, hp⟩ | ⟨q, hq, hp⟩
      · exact .inr ⟨n, mem_descendants_self n, hp, hchild⟩
      · exact .inr ⟨q, mem_descendants_of_child hchild hnamed hq, hp⟩

/-- Children of a node come by in their order. -/
theorem sublist_walk {m a b : Node} (hm : m ∈ n.descendants) (hab : [a, b].Sublist m.named) (around : List Node) :
    ∃ around', [(⟨a, m :: around'⟩ : Focus), ⟨b, m :: around'⟩].Sublist (n.walk (fun _ => true) around) := by
  induction n using childInduction generalizing around with
  | step n ih =>
    rw [walk_eq]
    rcases mem_descendants.1 hm with rfl | ⟨c, hc, hnamed, hm⟩
    · have hheads : ∀ cs : List Node, (cs.map fun c => (⟨c, m :: around⟩ : Focus)).Sublist
          (cs.flatMap (walk (fun _ => true) (m :: around))) := by
        intro cs
        induction cs with
        | nil => exact .slnil
        | cons c rest ih =>
          rw [List.map_cons, List.flatMap_cons, walk_eq, List.cons_append]
          exact .cons_cons _ (ih.trans (List.sublist_append_right _ _))
      exact ⟨around, .cons _ ((hab.map _).trans (hheads _))⟩
    · obtain ⟨around', h⟩ := ih c hc hm (n :: around)
      have hwalk := List.sublist_flatten_of_mem
        (List.mem_map_of_mem (f := walk (fun _ => true) (n :: around)) (List.mem_filter.2 ⟨hc, hnamed⟩))
      exact ⟨around', .cons _ (h.trans (List.flatMap_def ▸ hwalk))⟩

end Node

namespace Using

section
variable {c : Compilation} {f : SourceFile}

/-- The directives of a file that are looked at, each with the node around it. -/
def placed (f : SourceFile) : List Placed :=
  ((f.root.fociOf [.usingDirective]).map fun x => (⟨ofNode f x.node, x.parent?⟩ : Placed)).filter fun p =>
    !p.directive.isGlobal

theorem unneeded_eq (c : Compilation) (f : SourceFile) :
    unneeded c f = unneededFrom c (fileOccurrences f) [] (placed f) := rfl

theorem mem_placed {x : Focus} (hx : x ∈ f.root.foci) (hk : x.node.kind = .usingDirective)
    (hglobal : (ofNode f x.node).isGlobal = false) : (⟨ofNode f x.node, x.parent?⟩ : Placed) ∈ placed f :=
  List.mem_filter.2 ⟨List.mem_map.2 ⟨x, List.mem_filter.2 ⟨hx, by simp [hk]⟩, rfl⟩, by simp [hglobal]⟩

/-- There is no directive below a directive. -/
theorem not_below_directive {n c m : Node} (hn : n.Regular f) (hk : n.kind = .usingDirective) (hc : c ∈ n.children)
    (hm : m ∈ c.descendants) : m.kind ≠ .usingDirective := by
  obtain ⟨hck, hphrase⟩ := Node.arePhrases_iff.1 (hn.directive hk).2.2 c hc
  clear hc
  induction c using Node.childInduction with
  | step c ih =>
    rcases Node.mem_descendants.1 hm with rfl | ⟨d, hd, -, hm⟩
    · exact hck
    · obtain ⟨hdk, hdphrase⟩ := (Node.isPhrase_iff.1 hphrase).2 d hd
      exact ih d hd hm hdk hdphrase

/-- A directive in its place. -/
theorem exists_of_mem_placed {p : Placed} (h : p ∈ placed f) :
    ∃ x ∈ f.root.foci, x.node.kind = .usingDirective ∧ p = ⟨ofNode f x.node, x.parent?⟩ ∧ p.directive.isGlobal = false := by
  obtain ⟨hp, hglobal⟩ := List.mem_filter.1 h
  obtain ⟨x, hx, rfl⟩ := List.mem_map.1 hp
  obtain ⟨hx, hk⟩ := List.mem_filter.1 hx
  exact ⟨x, hx, by simpa using hk, rfl, by simpa using hglobal⟩

/-- Directives of one container are fine, when nothing that can go is among them. -/
theorem fine_of_not_unneeded {n : Node} {us : List Node} (hn : n ∈ f.root.descendants)
    (hsub : us.Sublist (n.children.filter Node.isUsing)) (hus : ∀ u ∈ us, ofNode f u ∉ unneeded c f) : Fine c f us := by
  have husing : ∀ u ∈ us, u ∈ n.children ∧ u.kind = .usingDirective := fun u hu => by
    obtain ⟨hchild, hk⟩ := List.mem_filter.1 (hsub.subset hu)
    exact ⟨hchild, by simpa [Node.isUsing] using hk⟩
  refine ⟨fun u hu hglobal => ?_, List.pairwise_iff_forall_sublist.2 fun {a b} hab => ?_⟩
  · obtain ⟨hchild, hk⟩ := husing u hu
    have hmem : u ∈ n.descendants :=
      Node.mem_descendants_of_child hchild (by simp [Node.isNamed, hk]) (Node.mem_descendants_self u)
    obtain ⟨x, hx, hxu⟩ := List.mem_map.1 (Node.descendants_trans hn hmem)
    subst hxu
    cases hneeded : isNeeded c (fileOccurrences f) (ofNode f x.node) with
    | true => rfl
    | false => exact absurd (mem_unneededFrom_of_not_needed (mem_placed hx hk hglobal) hneeded) (hus _ hu)
  · by_contra hsame
    rw [differ, not_or, Bool.not_eq_true, Bool.not_eq_false] at hsame
    obtain ⟨hglobal, hsame⟩ := hsame
    have hglobal' : (ofNode f b).isGlobal = false := by
      have := hsame
      simp only [sameImport, Bool.and_eq_true, beq_iff_eq] at this
      rw [← this.1.1.1, hglobal]
    have hnamed : [a, b].Sublist n.named := by
      refine List.Sublist.trans hab (hsub.trans ?_)
      rw [← Node.filter_named_isUsing]
      exact List.filter_sublist
    obtain ⟨around, hwalk⟩ := Node.sublist_walk hn hnamed []
    have hka := (husing a (hab.subset List.mem_cons_self)).2
    have hkb := (husing b (hab.subset (List.mem_cons_of_mem a List.mem_cons_self))).2
    have hplaced : [(⟨ofNode f a, some n⟩ : Placed), ⟨ofNode f b, some n⟩].Sublist (placed f) := by
      have := ((hwalk.filter fun x => [Kind.usingDirective].contains x.node.kind).map fun x =>
        (⟨ofNode f x.node, x.parent?⟩ : Placed)).filter fun p => !p.directive.isGlobal
      simpa [placed, Node.fociOf, Node.foci, Focus.parent?, hka, hkb, hglobal, hglobal'] using this
    refine hus b (hab.subset (List.mem_cons_of_mem a List.mem_cons_self)) ?_
    exact mem_unneededFrom_of_sublist hplaced (by simp [repeats, sameContainer, Node.same, hsame])

/-- Containers of directives that stand in different children of a node, or in the node itself, are not the same. -/
theorem parent_ne {n c d : Node} {x y : Focus} {around : List Node} (hfits : n.fits f.chars = true) (hnests : n.nests = true)
    (hc : c ∈ n.children) (hd : d ∈ n.children) (hapart : c.apart d = true)
    (hx : x ∈ c.walk (fun _ => true) (n :: around)) (hy : y ∈ d.walk (fun _ => true) (n :: around))
    (hkx : x.node.kind = .usingDirective) (hky : y.node.kind = .usingDirective)
    (hsame : sameContainer x.parent? y.parent? = true) : x.node = c ∧ y.node = d := by
  have hwithin : ∀ {c : Node} {x : Focus}, c ∈ n.children → x ∈ c.walk (fun _ => true) (n :: around) →
      x.node.kind = .usingDirective → (x.node = c ∧ x.parent? = some n ∧ n.start ≤ c.start ∧ c.start < c.stop ∧ c.stop ≤ n.stop) ∨
        ∃ q, x.parent? = some q ∧ c.start ≤ q.start ∧ q.start < q.stop ∧ q.stop ≤ c.stop := by
    intro c x hc hx hk
    obtain ⟨hfit, hstart, hstop⟩ := Node.fits_child hfits hc
    rcases Node.parent?_of_mem_walk hx with ⟨rfl, hp⟩ | ⟨q, hq, hp, hchild⟩
    · exact .inl ⟨rfl, hp, hstart, Node.fits_usingDirective hfit hk, hstop⟩
    · have hin := Node.within_of_mem_descendants (Node.nests_of_child hnests hc) hq
      obtain ⟨hxfit, hxstart, hxstop⟩ := Node.fits_child (Node.fits_of_mem_descendants hfit hq) hchild
      have hpos := Node.fits_usingDirective hxfit hk
      have hle := hin.start
      have hge := hin.stop
      exact .inr ⟨q, hp, by omega, by omega, by omega⟩
  simp only [Node.apart, Bool.or_eq_true, decide_eq_true_eq] at hapart
  rcases hwithin hc hx hkx with ⟨hxc, hp, h1, h2, h3⟩ | ⟨q, hp, h1, h2, h3⟩ <;>
    rcases hwithin hd hy hky with ⟨hyd, hp', h4, h5, h6⟩ | ⟨q', hp', h4, h5, h6⟩
  · exact ⟨hxc, hyd⟩
  all_goals
    rw [hp, hp'] at hsame
    simp only [sameContainer, Node.same, Bool.and_eq_true, beq_iff_eq] at hsame
    omega

/-- In a settled tree, of two directives that come by the second does not repeat the first. -/
theorem pairwise_walk {n : Node} {around : List Node} (hfits : n.fits f.chars = true) (hnests : n.nests = true)
    (hregular : n.everywhere (Node.isRegular f) = true)
    (hfine : ∀ m ∈ n.descendants, Fine c f (m.children.filter Node.isUsing)) :
    (n.walk (fun _ => true) around).Pairwise fun x y => x.node.kind = .usingDirective → y.node.kind = .usingDirective →
      sameContainer x.parent? y.parent? = true → differ (ofNode f x.node) (ofNode f y.node) := by
  induction n using Node.childInduction generalizing around with
  | step n ih =>
    rw [Node.walk_eq, List.pairwise_cons]
    refine ⟨fun y hy hkx hky _ => ?_, List.pairwise_flatMap.2 ⟨fun c hc => ?_, ?_⟩⟩
    · obtain ⟨c, hc, hy⟩ := List.mem_flatMap.1 hy
      have hmem : y.node ∈ c.descendants := Node.map_walk (n :: around) c ▸ List.mem_map_of_mem hy
      exact absurd hky (not_below_directive (Node.regular_of_everywhere hregular) hkx (List.mem_filter.1 hc).1 hmem)
    · obtain ⟨hchild, hnamed⟩ := List.mem_filter.1 hc
      exact ih c hchild (Node.fits_child hfits hchild).1 (Node.nests_of_child hnests hchild)
        ((Node.everywhere_iff.1 hregular).2 c hchild) fun m hm => hfine m (Node.mem_descendants_of_child hchild hnamed hm)
    · refine List.pairwise_iff_forall_sublist.2 fun {c d} hcd x hx y hy hkx hky hsame => ?_
      have hapart : c.apart d = true :=
        List.pairwise_iff_forall_sublist.1 (Node.nests_iff.1 hnests).2.2 (hcd.trans List.filter_sublist)
      have hmem : ∀ e ∈ [c, d], e ∈ n.children := fun e he => (List.mem_filter.1 (hcd.subset he)).1
      obtain ⟨hxc, hyd⟩ := parent_ne hfits hnests (hmem c (by simp)) (hmem d (by simp)) hapart hx hy hkx hky hsame
      rw [hxc] at hkx
      rw [hyd] at hky
      rw [hxc, hyd]
      refine List.pairwise_iff_forall_sublist.1 (hfine n (Node.mem_descendants_self n)).once ?_
      have hboth := hcd.filter Node.isUsing
      rw [Node.filter_named_isUsing] at hboth
      simpa [Node.isUsing, hkx, hky] using hboth

/-- Of a file that is settled no directive can go. -/
theorem unneeded_eq_nil (hf : f.Sound) (h : Settled c f) : unneeded c f = [] := by
  rw [unneeded_eq]
  refine unneededFrom_eq_nil (fun p hp => ?_) (by simp) ?_
  · obtain ⟨x, hx, hk, rfl, hglobal⟩ := exists_of_mem_placed hp
    have hmem : x.node ∈ f.root.descendants := List.mem_map_of_mem hx
    have hne : x.node ≠ f.root := fun he => by
      have := hf.unit
      rw [← he, hk] at this
      cases this
    obtain ⟨n, hn, hchild⟩ := Node.exists_parent hmem hne
    exact (h n hn).needed _ (List.mem_filter.2 ⟨hchild, by simp [Node.isUsing, hk]⟩) hglobal
  · have hpairs : f.root.foci.Pairwise _ := pairwise_walk hf.fits hf.nests hf.regular h
    refine List.pairwise_filter.2 (List.pairwise_map.2 (List.pairwise_filter.2 (hpairs.imp ?_)))
    intro x y hxy hkx hky hglobal _
    cases hsame : sameContainer x.parent? y.parent? with
    | false => simp [repeats, hsame]
    | true =>
      rcases hxy (by simpa using hkx) (by simpa using hky) hsame with hg | hdiffer
      · simp [hg] at hglobal
      · simp [repeats, hdiffer]

/-! ## After an edit -/

theorem differ_symm {u v : Using} (h : differ u v) : differ v u := by
  simp only [differ, sameImport] at h ⊢
  grind

theorem Fine.perm {us vs : List Node} (h : Fine c f us) (hperm : us.Perm vs) : Fine c f vs where
  needed u hu := h.needed u (hperm.mem_iff.2 hu)
  once := (hperm.pairwise_iff fun hd => differ_symm hd).1 h.once

end

section
variable {c c' : Compilation} {f g : SourceFile} {edit : Node → List Node} {n m : Node}

/-- A directive imports what the one that it follows did. -/
theorem key_eq_of_paired (h : Paired f g edit n m) (hk : n.kind = .usingDirective) :
    (ofNode f n).key = (ofNode g m).key := by
  have hphrase : n.isPhrase = true :=
    Node.isPhrase_iff.2 ⟨by rw [hk]; rfl, Node.arePhrases_iff.1 (h.regular.directive hk).2.2⟩
  exact key_ofNode (h.words_phrase (by simp [hk]) (by simp [hk]) hphrase)

/-- When directives are fine as an edit puts them, they are fine in the new text. -/
theorem settled_of_paired (hkeep : Keeps edit) (h : Paired f g edit f.root g.root)
    (hindex : c.index.SameOutlines c'.index)
    (hfine : ∀ n ∈ f.root.descendants, Fine c f ((edit n).filter Node.isUsing)) : Settled c' g := by
  intro m hm
  rcases h.exists_old hkeep hm with ⟨n, hn, hnm⟩ | hmod
  · have hpairs := hnm.edited (p := Node.isUsing) (fun a b hk _ => by simp only [Node.isUsing, hk])
      fun a ha hk => (hkeep.origin n a ha).resolve_right fun he => by subst he; cases hk
    have hkeys : ∀ {a b}, Paired f g edit a b → a.isUsing = true → (ofNode f a).key = (ofNode g b).key := fun hab ha =>
      key_eq_of_paired hab (by simpa [Node.isUsing] using ha)
    have hpairs := (List.forall₂_and_left _ _).2 ⟨fun a ha => (List.mem_filter.1 ha).2, hpairs⟩
    refine ⟨fun u hu hglobal => ?_, pairwise_of_forall₂ hpairs (hfine n hn).once ?_⟩
    · obtain ⟨a, ha, hu', hab⟩ := exists_of_forall₂ hpairs hu
      have hkey := hkeys hab hu'
      rw [← isNeeded_congr hindex _ hkey, ← h.fileOccurrences hkeep]
      refine (hfine n hn).needed a ha ?_
      rw [isGlobal_of_key hkey, hglobal]
    · rintro a b a' b' ⟨ha, hab⟩ ⟨ha', hab'⟩ hd
      exact (differ_congr (hkeys hab ha) (hkeys hab' ha')).1 hd
  · have hmem : m.everywhere (Node.isRegular g) = true := Node.everywhere_of_mem_descendants h.new hm
    obtain ⟨t, ht, htoken, -⟩ := Node.exists_token_of_isKeyword ((Node.regular_of_everywhere hmem).modifier hmod).2
    rw [ht, List.filter_cons_of_neg (by simp [Node.isUsing, htoken]), List.filter_nil]
    exact ⟨by simp, .nil⟩

/-- Changes elsewhere that leave the outlines alone do not unsettle a file. -/
theorem Settled.of_sameOutlines (h : Settled c f) (hindex : c.index.SameOutlines c'.index) : Settled c' f := fun n hn =>
  ⟨fun u hu hglobal => by rw [← isNeeded_congr hindex _ rfl]; exact (h n hn).needed u hu hglobal, (h n hn).once⟩

end

end Using

end Workbench.CSharp
