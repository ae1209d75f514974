import Mathlib.Data.List.Basic
import Mathlib.Data.List.Pairwise
import Workbench.CSharp.Node

/-!
# Trees whose ranges nest

In a tree where children lie in their parents and siblings do not overlap, any
two nodes are apart unless one of them is below the other.
-/

namespace Workbench.CSharp.Node

/-! ## Descendants -/

mutual

/-- What holds of a node when it holds of its children holds of every node. -/
theorem childInduction {motive : Node → Prop} (step : ∀ n, (∀ c ∈ n.children, motive c) → motive n) :
    ∀ n, motive n
  | mk k r a b t cs => step (mk k r a b t cs) (childInductionAll step cs)

theorem childInductionAll {motive : Node → Prop} (step : ∀ n, (∀ c ∈ n.children, motive c) → motive n) :
    ∀ cs : List Node, ∀ c ∈ cs, motive c
  | [], _, h => nomatch h
  | n :: rest, c, h => by
    have hn := childInduction step n
    have hrest := childInductionAll step rest
    rcases List.mem_cons.1 h with he | h
    · exact he ▸ hn
    · exact hrest c h

end

section
variable {n m c : Node}

theorem map_walkAll (enter : Node → Bool) (around : List Node) (cs : List Node) :
    (walkAll enter around cs).map (·.node) =
      (cs.filter isNamed).flatMap fun c => (walk enter around c).map (·.node) := by
  induction cs with
  | nil => rfl
  | cons c rest ih =>
    rw [walkAll, List.map_append, ih, List.filter_cons]
    by_cases hc : c.isNamed
    · rw [if_pos hc, if_pos hc, List.flatMap_cons]
    · rw [if_neg hc, if_neg hc]
      rfl

/-- Which nodes a walk comes by does not depend on what is around. -/
theorem map_walk (around : List Node) (n : Node) :
    (walk (fun _ => true) around n).map (·.node) = n.descendants := by
  induction n using childInduction generalizing around with
  | step n ih =>
    have hbelow : ∀ around, (walk (fun _ => true) around n).map (·.node) = n :: n.named.flatMap descendants := by
      intro around
      cases n
      rw [walk, if_pos rfl, List.map_cons, map_walkAll]
      refine congrArg _ (List.flatMap_congr fun c hc => ?_)
      exact ih c (List.mem_filter.1 hc).1 _
    rw [hbelow, descendants, foci, hbelow]

theorem descendants_eq (n : Node) : n.descendants = n :: n.named.flatMap descendants := by
  have h : n.named.flatMap (fun c => (walk (fun _ => true) [n] c).map (·.node)) = n.named.flatMap descendants :=
    List.flatMap_congr fun c _ => map_walk [n] c
  rw [← h, descendants, foci]
  cases n
  rw [walk, if_pos rfl, List.map_cons, map_walkAll]
  rfl

theorem mem_descendants : m ∈ n.descendants ↔ m = n ∨ ∃ c ∈ n.children, c.isNamed ∧ m ∈ c.descendants := by
  rw [descendants_eq, List.mem_cons, List.mem_flatMap]
  simp only [named, List.mem_filter, and_assoc]

theorem mem_descendants_self (n : Node) : n ∈ n.descendants := mem_descendants.2 (.inl rfl)

theorem mem_descendants_of_child (hc : c ∈ n.children) (hnamed : c.isNamed) (hm : m ∈ c.descendants) :
    m ∈ n.descendants := mem_descendants.2 (.inr ⟨c, hc, hnamed, hm⟩)

end

/-! ## Walks -/

section
variable {n m c p : Node} {x y : Focus} {around rest : List Node}

theorem descendants_trans {k : Node} (hm : m ∈ n.descendants) (hk : k ∈ m.descendants) : k ∈ n.descendants := by
  induction n using childInduction with
  | step n ih =>
    rcases mem_descendants.1 hm with rfl | ⟨c, hc, hnamed, hm⟩
    · exact hk
    · exact mem_descendants_of_child hc hnamed (ih c hc hm)

theorem mem_walkAll {enter : Node → Bool} {cs : List Node} :
    x ∈ walkAll enter around cs ↔ ∃ c ∈ cs, c.isNamed ∧ x ∈ c.walk enter around := by
  induction cs with
  | nil => simp [walkAll]
  | cons c rest ih =>
    rw [walkAll, List.mem_append, ih, List.exists_mem_cons_iff]
    by_cases hc : c.isNamed <;> simp [hc]

theorem mem_walk : x ∈ n.walk (fun _ => true) around ↔
    x = ⟨n, around⟩ ∨ ∃ c ∈ n.children, c.isNamed ∧ x ∈ c.walk (fun _ => true) (n :: around) := by
  cases n with
  | mk k r a b t cs =>
    rw [walk, if_pos rfl, List.mem_cons, mem_walkAll]
    rfl

theorem node_mem_descendants (hx : x ∈ n.walk (fun _ => true) around) : x.node ∈ n.descendants :=
  map_walk around n ▸ List.mem_map.2 ⟨x, hx, rfl⟩

theorem exists_focus (hm : m ∈ n.descendants) : ∃ x ∈ n.foci, x.node = m := List.mem_map.1 hm

/-- A walk goes on to the children of what it comes by. -/
theorem down_mem_walk (hy : y ∈ n.walk (fun _ => true) around) (hc : c ∈ y.node.children) (hnamed : c.isNamed) :
    y.down c ∈ n.walk (fun _ => true) around := by
  induction n using childInduction generalizing around with
  | step n ih =>
    rcases mem_walk.1 hy with rfl | ⟨d, hd, hdnamed, hy⟩
    · exact mem_walk.2 (.inr ⟨c, hc, hnamed, mem_walk.2 (.inl rfl)⟩)
    · exact mem_walk.2 (.inr ⟨d, hd, hdnamed, ih d hd hy⟩)

/-- What a walk has around a node is above it. -/
theorem mem_of_around (hx : x ∈ n.walk (fun _ => true) around) (hm : m ∈ x.around) :
    m ∈ around ∨ m ∈ n.descendants ∧ x.node ∈ m.descendants := by
  induction n using childInduction generalizing around with
  | step n ih =>
    rcases mem_walk.1 hx with rfl | ⟨c, hc, hnamed, hx⟩
    · exact .inl hm
    · rcases ih c hc hx with h | ⟨hmc, hxm⟩
      · rcases List.mem_cons.1 h with rfl | h
        · exact .inr ⟨mem_descendants_self _,
            mem_descendants_of_child hc hnamed (node_mem_descendants hx)⟩
        · exact .inl h
      · exact .inr ⟨mem_descendants_of_child hc hnamed hmc, hxm⟩

/-- A walk comes by the parent of what it comes by. -/
theorem up_mem_walk (hx : x ∈ n.walk (fun _ => true) around) (hp : x.around = p :: rest) :
    x.around = around ∨ ⟨p, rest⟩ ∈ n.walk (fun _ => true) around := by
  induction n using childInduction generalizing around with
  | step n ih =>
    rcases mem_walk.1 hx with rfl | ⟨c, hc, hnamed, hx⟩
    · exact .inl rfl
    · refine .inr ?_
      rcases ih c hc hx with he | h
      · cases hp.symm.trans he
        exact mem_walk.2 (.inl rfl)
      · exact mem_walk.2 (.inr ⟨c, hc, hnamed, h⟩)

/-- Each node around another is below those that are around it in turn. -/
theorem parent_mem_descendants {q : Node} (hx : x ∈ n.foci) (hp : x.around = p :: rest) (hq : q ∈ x.around) :
    p ∈ q.descendants := by
  have hparent : ⟨p, rest⟩ ∈ n.foci := (up_mem_walk hx hp).resolve_left fun h => by cases hp.symm.trans h
  rw [hp] at hq
  rcases List.mem_cons.1 hq with rfl | hq
  · exact mem_descendants_self _
  · exact ((mem_of_around hparent hq).resolve_left List.not_mem_nil).2

end

/-! ## Nesting -/

/-- The range of one node lies in that of another. -/
structure Within (m n : Node) : Prop where
  start : n.start ≤ m.start
  stop : m.stop ≤ n.stop

theorem Within.refl (n : Node) : n.Within n := ⟨Nat.le_refl _, Nat.le_refl _⟩

theorem Within.trans {k m n : Node} (h : k.Within m) (h' : m.Within n) : k.Within n :=
  ⟨Nat.le_trans h'.start h.start, Nat.le_trans h.stop h'.stop⟩

/-- The ranges of two nodes have no byte in common. -/
def apart (n m : Node) : Bool := n.stop ≤ m.start || m.stop ≤ n.start

mutual

/-- Ranges nest: each child lies in its parent, and siblings do not overlap. -/
def nests : Node → Bool
  | mk _ _ a b _ cs => a ≤ b && nestAll a b cs

def nestAll (a b : Nat) : List Node → Bool
  | [] => true
  | n :: rest => a ≤ n.start && n.stop ≤ b && nests n && rest.all n.apart && nestAll a b rest

end

section
variable {n m c : Node}

theorem apart_comm : n.apart m = m.apart n := Bool.or_comm _ _

theorem nestAll_iff {a b : Nat} {cs : List Node} : nestAll a b cs ↔
    (∀ c ∈ cs, (a ≤ c.start ∧ c.stop ≤ b) ∧ c.nests) ∧ cs.Pairwise fun n m => n.apart m := by
  induction cs with
  | nil => simp [nestAll]
  | cons d rest ih =>
    simp only [nestAll, Bool.and_eq_true, decide_eq_true_eq, ih, List.all_eq_true, List.forall_mem_cons,
      List.pairwise_cons]
    constructor
    · rintro ⟨⟨⟨⟨ha, hb⟩, hd⟩, hapart⟩, hrest, hpairs⟩
      exact ⟨⟨⟨⟨ha, hb⟩, hd⟩, hrest⟩, hapart, hpairs⟩
    · rintro ⟨⟨⟨⟨ha, hb⟩, hd⟩, hrest⟩, hapart, hpairs⟩
      exact ⟨⟨⟨⟨ha, hb⟩, hd⟩, hapart⟩, hrest, hpairs⟩

theorem nests_iff : n.nests ↔ n.start ≤ n.stop ∧ (∀ c ∈ n.children, c.Within n ∧ c.nests) ∧
    n.children.Pairwise fun n m => n.apart m := by
  have hwithin : ∀ c : Node, c.Within n ↔ n.start ≤ c.start ∧ c.stop ≤ n.stop :=
    fun c => ⟨fun h => ⟨h.start, h.stop⟩, fun h => ⟨h.1, h.2⟩⟩
  simp only [hwithin]
  cases n
  rw [nests, Bool.and_eq_true, decide_eq_true_eq, nestAll_iff]
  rfl

theorem within_of_child (h : n.nests) (hc : c ∈ n.children) : c.Within n := ((nests_iff.1 h).2.1 c hc).1

theorem nests_of_child (h : n.nests) (hc : c ∈ n.children) : c.nests := ((nests_iff.1 h).2.1 c hc).2

theorem nests_of_mem_descendants (h : n.nests) (hm : m ∈ n.descendants) : m.nests := by
  induction n using childInduction with
  | step n ih =>
    rcases mem_descendants.1 hm with rfl | ⟨c, hc, -, hm⟩
    · exact h
    · exact ih c hc (nests_of_child h hc) hm

theorem within_of_mem_descendants (h : n.nests) (hm : m ∈ n.descendants) : m.Within n := by
  induction n using childInduction with
  | step n ih =>
    rcases mem_descendants.1 hm with rfl | ⟨c, hc, -, hm⟩
    · exact .refl m
    · exact (ih c hc (nests_of_child h hc) hm).trans (within_of_child h hc)

theorem apart_of_within {n' m' : Node} (h : n.apart m) (hn : n'.Within n) (hm : m'.Within m) : n'.apart m' := by
  have := hn.start
  have := hn.stop
  have := hm.start
  have := hm.stop
  simp only [apart, Bool.or_eq_true, decide_eq_true_eq] at h ⊢
  omega

/-- Below two siblings that do not overlap, nodes do not overlap either. -/
theorem apart_below {c' m' : Node} (h : c.apart c') (hc : c.nests) (hc' : c'.nests) (hm : m ∈ c.descendants)
    (hm' : m' ∈ c'.descendants) : m.apart m' :=
  apart_of_within h (within_of_mem_descendants hc hm) (within_of_mem_descendants hc' hm')

/-- Two nodes of one tree are apart unless one is below the other. -/
theorem below_or_apart {m' : Node} (h : n.nests) (hm : m ∈ n.descendants) (hm' : m' ∈ n.descendants) :
    m ∈ m'.descendants ∨ m' ∈ m.descendants ∨ m.apart m' := by
  induction n using childInduction with
  | step n ih =>
    have hpairs := (nests_iff.1 h).2.2
    rcases mem_descendants.1 hm with rfl | ⟨c, hc, -, hmc⟩
    · exact .inr (.inl hm')
    · rcases mem_descendants.1 hm' with rfl | ⟨c', hc', -, hmc'⟩
      · exact .inl hm
      · have hnests := nests_of_child h hc
        have : Std.Symm fun n m : Node => (n.apart m : Prop) := ⟨fun _ _ h => apart_comm ▸ h⟩
        by_cases he : c = c'
        · exact ih c hc hnests hmc (he ▸ hmc')
        · have hapart : c.apart c' := hpairs.forall hc hc' he
          exact .inr (.inr (apart_below hapart hnests (nests_of_child h hc') hmc hmc'))

theorem start_span (n : Node) : n.span.start = n.start := rfl

theorem stop_span_of_nests (h : n.nests) : n.span.stop = n.stop := by
  have := (nests_iff.1 h).1
  simp only [span, Span.ofBounds, Span.stop]
  omega

end

end Workbench.CSharp.Node
