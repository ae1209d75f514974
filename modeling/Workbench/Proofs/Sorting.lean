import Workbench.CallGraph

/-!
# Sorted without repetitions

Edges, callers and call sites are sorted by a total order and stripped of equal
neighbours. What comes out has the same elements, strictly ascending.
-/

namespace Workbench

namespace Ordered

theorem mem_of_mem_dedupBy {α : Type} {same : α → α → Bool} {a : α} {xs : List α}
    (h : a ∈ dedupBy same xs) : a ∈ xs := by
  induction xs with
  | nil => exact h
  | cons b r ih =>
    rw [dedupBy] at h
    split at h
    · rw [List.mem_singleton.1 h]
      exact List.mem_cons_self
    · rename_i c r' hr
      rw [hr] at ih
      split at h
      · rcases List.mem_cons.1 h with rfl | h
        · exact List.mem_cons_self
        · exact List.mem_cons_of_mem b (ih (List.mem_cons_of_mem c h))
      · rcases List.mem_cons.1 h with rfl | h
        · exact List.mem_cons_self
        · exact List.mem_cons_of_mem b (ih h)

theorem lt_of_isLE {o : Ordering} (h : o.isLE) (hne : o ≠ .eq) : o = .lt := by
  cases o with
  | lt => rfl
  | eq => exact absurd rfl hne
  | gt => cases h

theorem total_isLE {α : Type} {cmp : α → α → Ordering} [Std.OrientedCmp cmp] (a b : α) :
    ((cmp a b).isLE || (cmp b a).isLE) = true := by
  have hswap : cmp b a = (cmp a b).swap := Std.OrientedCmp.eq_swap
  rw [hswap]
  cases cmp a b <;> rfl

theorem pairwise_sorted {α : Type} {cmp : α → α → Ordering} [Std.TransCmp cmp] (xs : List α) :
    (xs.mergeSort fun a b => (cmp a b).isLE).Pairwise fun a b => (cmp a b).isLE :=
  List.pairwise_mergeSort (fun _ _ _ => Std.TransCmp.isLE_trans) total_isLE xs

/-- Sorting is stable: elements that tie stay in their order. -/
theorem filter_mergeSort {α : Type} {le : α → α → Bool} (htrans : ∀ a b c, le a b = true → le b c = true → le a c = true)
    (htotal : ∀ a b, (le a b || le b a) = true) {p : α → Bool} (htie : ∀ a b, p a = true → p b = true → le a b = true)
    (xs : List α) : (xs.mergeSort le).filter p = xs.filter p := by
  have hpairs : (xs.filter p).Pairwise fun a b => le a b = true :=
    List.pairwise_of_forall_mem_list fun a ha b hb => htie a b (List.mem_filter.1 ha).2 (List.mem_filter.1 hb).2
  have hsub := (List.sublist_mergeSort htrans htotal hpairs List.filter_sublist).filter p
  rw [List.filter_filter] at hsub
  simp only [Bool.and_self] at hsub
  exact (hsub.eq_of_length ((List.mergeSort_perm xs le).filter p).length_eq.symm).symm

section
variable {α : Type} {same : α → α → Bool} {cmp : α → α → Ordering} [Std.TransCmp cmp] {xs ys : List α} {x : α}

/-- Nothing is lost where only equal elements are the same. -/
theorem mem_dedupBy_of_same (h : ∀ a ∈ xs, ∀ b ∈ xs, same a b = true → a = b) : x ∈ dedupBy same xs ↔ x ∈ xs := by
  induction xs with
  | nil => simp [dedupBy]
  | cons a r ih =>
    have hr := ih fun b hb c hc => h b (List.mem_cons_of_mem a hb) c (List.mem_cons_of_mem a hc)
    simp only [dedupBy, List.mem_cons, ← hr]
    cases hd : dedupBy same r with
    | nil => simp
    | cons b r' =>
      have hb : b ∈ r := mem_of_mem_dedupBy (hd ▸ List.mem_cons_self)
      dsimp only
      cases hab : same a b with
      | false => simp
      | true =>
        obtain rfl := h a List.mem_cons_self b (List.mem_cons_of_mem a hb) hab
        simp

/-- In a sorted list elements of one key are neighbours, so that no key is left twice. -/
theorem dedupBy_strict_of_same (hsame : ∀ a ∈ xs, ∀ b ∈ xs, same a b = true ↔ cmp a b = .eq)
    (h : xs.Pairwise fun a b => (cmp a b).isLE) : (dedupBy same xs).Pairwise fun a b => cmp a b = .lt := by
  induction xs with
  | nil => exact .nil
  | cons a r ih =>
    obtain ⟨ha, hr⟩ := List.pairwise_cons.1 h
    have hs := ih (fun b hb c hc => hsame b (List.mem_cons_of_mem a hb) c (List.mem_cons_of_mem a hc)) hr
    have hm : ∀ x ∈ dedupBy same r, (cmp a x).isLE := fun x hx => ha x (mem_of_mem_dedupBy hx)
    simp only [dedupBy]
    cases hd : dedupBy same r with
    | nil => exact List.pairwise_singleton _ a
    | cons b r' =>
      have hmem : b ∈ a :: r := List.mem_cons_of_mem a (mem_of_mem_dedupBy (hd ▸ List.mem_cons_self))
      have hab' := hsame a List.mem_cons_self b hmem
      rw [hd] at hs hm
      obtain ⟨hb, hr'⟩ := List.pairwise_cons.1 hs
      dsimp only
      cases hab : same a b with
      | true =>
        refine List.pairwise_cons.2 ⟨fun x hx => ?_, hr'⟩
        exact Std.TransCmp.lt_of_eq_of_lt (hab'.1 hab) (hb x hx)
      | false =>
        have hlt : cmp a b = .lt := by
          refine lt_of_isLE (hm b List.mem_cons_self) fun he => ?_
          rw [hab'.2 he] at hab
          cases hab
        refine List.Pairwise.cons (List.forall_mem_cons.2 ⟨hlt, fun x hx => ?_⟩) hs
        exact Std.TransCmp.lt_trans hlt (hb x hx)

/-- A strictly ascending list is known by its elements. -/
theorem eq_of_strict (hxs : xs.Pairwise fun a b => cmp a b = .lt) (hys : ys.Pairwise fun a b => cmp a b = .lt)
    (h : ∀ x, x ∈ xs ↔ x ∈ ys) : xs = ys := by
  have hirrefl : ∀ {a b}, cmp a b = .lt → a ≠ b := by
    rintro a _ hlt rfl
    have hself : cmp a a = .eq := Std.ReflCmp.compare_self
    cases hself.symm.trans hlt
  refine List.Perm.eq_of_pairwise (fun a b _ _ hab hba => ?_) hxs hys
    ((List.perm_ext_iff_of_nodup (hxs.imp hirrefl) (hys.imp hirrefl)).2 h)
  exact absurd rfl (hirrefl (Std.TransCmp.lt_trans hab hba))

end

section
variable {α : Type} [BEq α] [LawfulBEq α]

theorem mem_dedupBy {x : α} {xs : List α} : x ∈ dedupBy (· == ·) xs ↔ x ∈ xs :=
  mem_dedupBy_of_same fun _ _ _ _ h => eq_of_beq h

variable {cmp : α → α → Ordering} [Std.TransCmp cmp] [Std.LawfulEqCmp cmp]

theorem dedupBy_strict {xs : List α} (h : xs.Pairwise fun a b => (cmp a b).isLE) :
    (dedupBy (· == ·) xs).Pairwise fun a b => cmp a b = .lt :=
  dedupBy_strict_of_same (fun a _ b _ => by rw [beq_iff_eq, Std.LawfulEqCmp.compare_eq_iff_eq]) h

theorem mem_settled {x : α} {xs : List α} {le : α → α → Bool} :
    x ∈ dedupBy (· == ·) (xs.mergeSort le) ↔ x ∈ xs := by
  rw [mem_dedupBy, List.mem_mergeSort]

theorem settled_strict (xs : List α) :
    (dedupBy (· == ·) (xs.mergeSort fun a b => (cmp a b).isLE)).Pairwise fun a b => cmp a b = .lt :=
  dedupBy_strict (pairwise_sorted xs)

end

end Ordered

/-! ## The orders -/

instance Location.transCmp : Std.TransCmp Location.compareAll :=
  inferInstanceAs <| Std.TransCmp <|
    compareLex (compareLex (compareLex (compareLex
      (compareOn fun l : Location => l.path) (compareOn fun l : Location => l.line))
      (compareOn fun l : Location => l.column)) (compareOn fun l : Location => l.span.start))
      (compareOn fun l : Location => l.span.length)

instance Location.lawfulEqCmp : Std.LawfulEqCmp Location.compareAll where
  eq_of_compare {a b} h := by
    cases a; cases b
    simp only [compareAll, Ordering.then_eq_eq, Std.LawfulEqCmp.compare_eq_iff_eq] at h
    obtain ⟨⟨⟨⟨rfl, rfl⟩, rfl⟩, hs⟩, hl⟩ := h
    exact congrArg _ (by cases ‹Span›; cases ‹Span›; simp_all)

instance CallEdge.transCmp : Std.TransCmp CallEdge.compareAll :=
  letI : Ord Location := ⟨Location.compareAll⟩
  haveI : Std.TransOrd Location := Location.transCmp
  inferInstanceAs <| Std.TransCmp <|
    compareLex (compareLex (compareOn fun e : CallEdge => e.source) (compareOn fun e : CallEdge => e.target))
      (compareOn fun e : CallEdge => e.location)

instance CallEdge.lawfulEqCmp : Std.LawfulEqCmp CallEdge.compareAll where
  eq_of_compare {a b} h := by
    cases a; cases b
    simp only [compareAll, Ordering.then_eq_eq, Std.LawfulEqCmp.compare_eq_iff_eq] at h
    obtain ⟨⟨rfl, rfl⟩, rfl⟩ := h
    rfl

/-- The order in which look-ups answer. -/
def Symbol.order : Symbol → Symbol → Ordering :=
  compareLex (compareOn fun s => s.qualname) (compareOn fun s => s.id)

instance Symbol.transCmp : Std.TransCmp order :=
  inferInstanceAs <| Std.TransCmp <| compareLex (compareOn fun s : Symbol => s.qualname) (compareOn fun s : Symbol => s.id)

/-- The order of diagnostics. -/
def Diagnostic.order : Diagnostic → Diagnostic → Ordering :=
  compareLex (compareLex (compareOn fun d => d.span.start) (compareOn fun d => d.span.length)) (compareOn fun d => d.id)

instance Diagnostic.transCmp : Std.TransCmp order :=
  inferInstanceAs <| Std.TransCmp <| compareLex (compareLex (compareOn fun d : Diagnostic => d.span.start)
    (compareOn fun d : Diagnostic => d.span.length)) (compareOn fun d : Diagnostic => d.id)

theorem Diagnostic.before_eq : before = fun a b => (order a b).isLE := rfl

/-! ## What is sorted by them -/

theorem Diagnostic.pairwise_sorted (ds : List Diagnostic) :
    (ds.mergeSort Diagnostic.before).Pairwise fun a b => a.before b := by
  rw [Diagnostic.before_eq]
  exact Ordered.pairwise_sorted ds

namespace CallGraph

theorem mem_sortEdges {e : CallEdge} {es : List CallEdge} : e ∈ sortEdges es ↔ e ∈ es :=
  Ordered.mem_settled

theorem sortEdges_strict (es : List CallEdge) :
    (sortEdges es).Pairwise fun a b => a.compareAll b = .lt :=
  Ordered.settled_strict es

end CallGraph

end Workbench
