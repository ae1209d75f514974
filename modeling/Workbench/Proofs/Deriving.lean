import Mathlib.Logic.Relation
import Workbench.Proofs.Widening

/-!
# Implementations are derivations

The implementations of a type are the other types whose bases lead to it. Those
of a member that can be overridden are its like in the types that derive from
the type around it.
-/

namespace Workbench.SymbolIndex

/-! ## Derivation -/

/-- One type derives from another that its bases lead to. -/
def Derives (ix : SymbolIndex) (t s : Symbol) : Prop := t ≠ s ∧ Relation.ReflTransGen (ix.Leads false) t s

section
variable {ix : SymbolIndex} {step : Symbol → Symbol → Prop} {s t u m c : Symbol} {n : Nat}

theorem exists_reached_iff : (∃ n, Reached step [t] n s) ↔ Relation.ReflTransGen step t s := by
  refine ⟨fun h => ?_, fun h => ?_⟩
  · obtain ⟨n, h⟩ := h
    induction h with
    | start h => exact List.mem_singleton.1 h ▸ .refl
    | step _ hstep ih => exact ih.tail hstep
  · induction h with
    | refl => exact ⟨0, .start List.mem_cons_self⟩
    | tail _ hstep ih =>
      obtain ⟨n, h⟩ := ih
      exact ⟨n + 1, h.step hstep⟩

theorem Derives.trans (htu : ix.Derives t u) (hus : ix.Derives u s) (hne : t ≠ s) : ix.Derives t s :=
  ⟨hne, htu.2.trans hus.2⟩

/-- A walk from one type decides whether it derives from another. -/
theorem derivesFrom_iff (ht : t ∈ ix.symbols) (hs : s ∈ ix.symbols) : ix.derivesFrom t s ↔ ix.Derives t s := by
  have hstart : ∀ u ∈ [t], u ∈ ix.symbols := fun u hu => List.mem_singleton.1 hu ▸ ht
  have hchain : (ix.typeChain [t] false).any (·.id == s.id) ↔ s ∈ ix.typeChain [t] false := by
    rw [List.any_eq_true]
    refine ⟨fun ⟨u, hu, hid⟩ => ?_, fun h => ⟨s, h, beq_self_eq_true _⟩⟩
    exact eq_of_id (mem_symbols_of_typeChain hstart hu) hs (beq_iff_eq.1 hid) ▸ hu
  have hid : t.id ≠ s.id ↔ t ≠ s := not_congr ⟨eq_of_id ht hs, congrArg Symbol.id⟩
  rw [derivesFrom, Bool.and_eq_true, bne_iff_ne, hid, hchain, mem_typeChain (tellsApart_of_mem hstart),
    exists_reached_iff, Derives]

theorem mem_derivedTypes (hs : s ∈ ix.symbols) :
    t ∈ ix.derivedTypes s ↔ t ∈ ix.symbols ∧ t.kind.isType ∧ ix.Derives t s := by
  rw [derivedTypes, List.mem_filter, Bool.and_eq_true]
  exact and_congr_right fun ht => and_congr_right fun _ => derivesFrom_iff ht hs

/-! ## The type around a member -/

/-- Of the types with the qualified name that a member has as its container, the first. -/
structure ContainerOf (ix : SymbolIndex) (s c : Symbol) : Prop where
  mem : c ∈ ix.symbols
  type : c.kind.isType
  named : s.container = some c.qualname
  first : ∀ u ∈ ix.symbols, u.kind.isType → u.qualname = c.qualname → c.id ≤ u.id

theorem le_of_order {a b : Symbol} (h : (a.order b).isLE) (hq : a.qualname = b.qualname) : a.id ≤ b.id := by
  have hid : (compare a.id b.id).isLE := by
    rcases Ordering.isLE_then_iff_or.1 h with hlt | ⟨-, hid⟩
    · have heq : compare a.qualname b.qualname = .eq := hq ▸ Std.ReflCmp.compare_self
      exact nomatch hlt.symm.trans heq
    · exact hid
  exact (isLE_compareOfLessAndEq String.le_antisymm String.not_le String.le_total).1 hid

theorem containerOf_of_some (h : ix.containerType? s = some c) : ix.ContainerOf s c := by
  obtain ⟨q, hq, hfind⟩ := Option.bind_eq_some_iff.1 h
  have htype : c.kind.isType = true := by simpa using List.find?_some hfind
  obtain ⟨hmem, rfl⟩ := mem_byQualname.1 (List.mem_of_find?_eq_some hfind)
  refine ⟨hmem, htype, hq, fun u hu hutype huq => ?_⟩
  have hsorted : (ix.byQualname c.qualname).Pairwise fun a b => a.order b = .lt := byQualname_eq .. ▸ where_strict ..
  rcases eq_or_rel_of_find? hsorted hfind u (mem_byQualname.2 ⟨hu, huq⟩) hutype with rfl | hlt
  · exact String.le_refl _
  · exact le_of_order (by rw [hlt]; rfl) huq.symm

theorem containerType?_eq_some : ix.containerType? s = some c ↔ ix.ContainerOf s c := by
  refine ⟨containerOf_of_some, fun h => ?_⟩
  have hfound : (ix.containerType? s).isSome := by
    rw [containerType?, h.named, Option.bind_some, List.find?_isSome]
    exact ⟨c, mem_byQualname.2 ⟨h.mem, rfl⟩, h.type⟩
  obtain ⟨c', hc'⟩ := Option.isSome_iff_exists.1 hfound
  have h' := containerOf_of_some hc'
  have hq : c'.qualname = c.qualname := Option.some.inj (h'.named.symm.trans h.named)
  have hid : c'.id = c.id := String.le_antisymm (h'.first c h.mem h.type hq.symm) (h.first c' h'.mem h'.type hq)
  exact eq_of_id h'.mem h.mem hid ▸ hc'

/-! ## Implementations -/

/-- A member is of an interface, abstract or virtual. -/
def Overridable (c s : Symbol) : Prop := c.kind = .interface ∨ "abstract" ∈ s.modifiers ∨ "virtual" ∈ s.modifiers

theorem isOverridable_iff : isOverridable c s ↔ Overridable c s := by
  simp [isOverridable, Overridable, Symbol.hasModifier, or_assoc]

/-- The like of a member in a type that derives from the type around it. -/
structure Implements (ix : SymbolIndex) (m s : Symbol) : Prop where
  kind : m.kind = s.kind
  name : m.name = s.name
  signature : m.signature = s.signature
  derived : ∃ c t, ix.ContainerOf s c ∧ Overridable c s ∧ t ∈ ix.symbols ∧ t.kind.isType ∧ ix.Derives t c ∧
    m.container = some t.qualname

theorem mem_unsorted_type (hs : s ∈ ix.symbols) (hk : s.kind.isType) :
    t ∈ ix.unsortedImplementations s ↔ t ∈ ix.symbols ∧ t.kind.isType ∧ ix.Derives t s := by
  rw [unsortedImplementations, if_pos hk, mem_derivedTypes hs]

theorem sameMember_iff : sameMember s m ↔ m.kind = s.kind ∧ m.name = s.name ∧ m.signature = s.signature := by
  simp [sameMember, and_assoc]

theorem mem_unsorted_member (hk : s.kind = .method ∨ s.kind = .property) :
    m ∈ ix.unsortedImplementations s ↔ m ∈ ix.symbols ∧ ix.Implements m s := by
  have htype : s.kind.isType = false := by rcases hk with hk | hk <;> rw [hk] <;> rfl
  have hmember : (s.kind == .method || s.kind == .property) = true := by simpa using hk
  rw [unsortedImplementations, htype, if_neg Bool.false_ne_true, if_pos hmember]
  refine ⟨fun h => ?_, fun ⟨hm, hi⟩ => ?_⟩
  · split at h
    · cases h
    · rename_i c hc
      have hcontainer := containerOf_of_some hc
      split at h
      · rename_i hover
        obtain ⟨t, ht, hmt⟩ := List.mem_flatMap.1 h
        obtain ⟨hmt, hsame⟩ := List.mem_filter.1 hmt
        obtain ⟨hm, hmc⟩ := mem_membersOf.1 hmt
        obtain ⟨htmem, httype, hderives⟩ := (mem_derivedTypes hcontainer.mem).1 ht
        obtain ⟨hkind, hname, hsignature⟩ := sameMember_iff.1 hsame
        exact ⟨hm, hkind, hname, hsignature, c, t, hcontainer, isOverridable_iff.1 hover, htmem, httype, hderives, hmc⟩
      · cases h
  · obtain ⟨c, t, hcontainer, hover, htmem, httype, hderives, hmc⟩ := hi.derived
    rw [containerType?_eq_some.2 hcontainer]
    dsimp only
    rw [if_pos (isOverridable_iff.2 hover)]
    refine List.mem_flatMap.2 ⟨t, (mem_derivedTypes hcontainer.mem).2 ⟨htmem, httype, hderives⟩, ?_⟩
    exact List.mem_filter.2 ⟨mem_membersOf.2 ⟨hm, hmc⟩, sameMember_iff.2 ⟨hi.kind, hi.name, hi.signature⟩⟩

theorem mem_symbols_of_unsorted (h : t ∈ ix.unsortedImplementations s) : t ∈ ix.symbols := by
  have hderived : ∀ {c}, t ∈ ix.derivedTypes c → t ∈ ix.symbols := fun h => (List.mem_filter.1 h).1
  unfold unsortedImplementations at h
  split at h
  · exact hderived h
  · split at h
    · split at h
      · cases h
      · split at h
        · obtain ⟨u, -, h⟩ := List.mem_flatMap.1 h
          exact (mem_membersOf.1 (List.mem_filter.1 h).1).1
        · cases h
    · cases h

/-- Sorting loses nothing: an id stands for one symbol. -/
theorem mem_implementations : t ∈ ix.implementations s ↔ t ∈ ix.unsortedImplementations s := by
  rw [implementations, Ordered.mem_dedupBy_of_same, List.mem_mergeSort]
  intro a ha b hb hid
  exact eq_of_id (mem_symbols_of_unsorted (List.mem_mergeSort.1 ha)) (mem_symbols_of_unsorted (List.mem_mergeSort.1 hb))
    (beq_iff_eq.1 hid)

theorem implementations_strict (ix : SymbolIndex) (s : Symbol) :
    (ix.implementations s).Pairwise fun a b => a.order b = .lt := by
  refine Ordered.dedupBy_strict_of_same (fun a ha b hb => ?_) (Ordered.pairwise_sorted _)
  have ha := mem_symbols_of_unsorted (List.mem_mergeSort.1 ha)
  have hb := mem_symbols_of_unsorted (List.mem_mergeSort.1 hb)
  rw [beq_iff_eq, order_eq_iff ha hb]
  exact ⟨eq_of_id ha hb, congrArg Symbol.id⟩

end

/-- Implementations come once each and in order. Those of a type are the types that derive from it, so that they are
passed on, and each walk that decides this ends. Those of a member are its like in derived types. -/
theorem implementations_derive (ix : SymbolIndex) (s : Symbol) (hs : s ∈ ix.symbols) :
    (ix.implementations s).Pairwise (fun a b => a.order b = .lt) ∧
    (∀ t, ∃ n seen, Walk.Runs (ix.above false) ⟨[], [t], []⟩ n ⟨seen, [], ix.typeChain [t] false⟩) ∧
    (s.kind.isType →
      (∀ t, t ∈ ix.implementations s ↔ t ∈ ix.symbols ∧ t.kind.isType ∧ ix.Derives t s) ∧
      ∀ t ∈ ix.implementations s, ∀ u ∈ ix.implementations t, u ≠ s → u ∈ ix.implementations s) ∧
    (s.kind = .method ∨ s.kind = .property →
      ∀ m, m ∈ ix.implementations s ↔ m ∈ ix.symbols ∧ ix.Implements m s) := by
  have htype : ∀ {t}, t ∈ ix.symbols → t.kind.isType →
      ∀ u, u ∈ ix.implementations t ↔ u ∈ ix.symbols ∧ u.kind.isType ∧ ix.Derives u t :=
    fun ht hk u => mem_implementations.trans (mem_unsorted_type ht hk)
  refine ⟨implementations_strict ix s, fun t => ⟨_, _, runs_typeChain ix [t] false⟩, fun hk => ⟨htype hs hk, ?_⟩,
    fun hk m => mem_implementations.trans (mem_unsorted_member hk)⟩
  intro t ht u hu hne
  obtain ⟨htmem, httype, hts⟩ := (htype hs hk t).1 ht
  obtain ⟨humem, hutype, hut⟩ := (htype htmem httype u).1 hu
  exact (htype hs hk u).2 ⟨humem, hutype, hut.trans hts hne⟩

def store : Symbol := { plainType "a" "Store" "Store" none ["Cached"] with kind := .interface }

def save : Symbol := ⟨"d", .method, "Save", "Store.Save", some "Save()", some "Store", some 0, [], [], []⟩

/-- An interface with two classes that derive from each other, one of which has the method of the interface. -/
def stores : SymbolIndex where
  symbols := [store, plainType "b" "Disk" "Disk" none ["Store", "Cached"],
    plainType "c" "Cached" "Cached" none ["Disk"], save,
    { save with id := "e", qualname := "Cached.Save", container := some "Cached" }]
  ascending := by decide

theorem stores_derive :
    (store ∈ stores.symbols ∧ store.kind.isType ∧
      ∀ t, t ∈ stores.implementations store ↔ t ∈ stores.symbols ∧ t.kind.isType ∧ stores.Derives t store) ∧
    save ∈ stores.symbols ∧ save.kind = .method ∧
      ∀ m, m ∈ stores.implementations save ↔ m ∈ stores.symbols ∧ stores.Implements m save :=
  ⟨⟨by decide, rfl, ((implementations_derive stores store (by decide)).2.2.1 rfl).1⟩,
    by decide, rfl, (implementations_derive stores save (by decide)).2.2.2 (.inl rfl)⟩

example : (stores.implementations save).map Symbol.id = ["e"] := by cbv

end Workbench.SymbolIndex
