import Mathlib.Logic.Relation
import Workbench.Proofs.Walking

/-!
# Layers and a queue

A walk may as well keep one queue of the symbols it has met, each with the
number of steps at which that was, and serve the first of them each time. That
queue ends empty, and with the very edges that the layers give.
-/

namespace Workbench.CallGraph

/-- A walk that keeps a queue: symbols wait with the distance at which they were met. -/
structure Queue where
  edges : List CallEdge
  seen : List String
  waiting : List (String × Nat)

namespace Queue

def start (root : String) : Queue := ⟨[], [root], [(root, 0)]⟩

def meet (incoming : Bool) (here : String) (dist : Nat) (q : Queue) (n : String × Location) : Queue :=
  { edges := q.edges ++ [edge incoming here n.1 n.2]
    seen := if q.seen.contains n.1 then q.seen else q.seen ++ [n.1]
    waiting := if q.seen.contains n.1 then q.waiting else q.waiting ++ [(n.1, dist + 1)] }

/-- Serving the first that waits: its calls are met when it is near enough and resolves. -/
inductive Serves (ix : SymbolIndex) (incoming : Bool) (neighbors : Neighbors) (depth : Nat) : Queue → Queue → Prop
  | far {es seen id dist rest} : depth ≤ dist →
      Serves ix incoming neighbors depth ⟨es, seen, (id, dist) :: rest⟩ ⟨es, seen, rest⟩
  | unknown {es seen id dist rest} : dist < depth → ix.resolve id = none →
      Serves ix incoming neighbors depth ⟨es, seen, (id, dist) :: rest⟩ ⟨es, seen, rest⟩
  | known {es seen id dist rest s ns} : dist < depth → ix.resolve id = some s → neighbors s = .ok ns →
      Serves ix incoming neighbors depth ⟨es, seen, (id, dist) :: rest⟩
        (ns.foldl (meet incoming id dist) ⟨es, seen, rest⟩)

section
variable {ix : SymbolIndex} {incoming : Bool} {neighbors : Neighbors} {depth dist : Nat} {c c' : Cancellation}

/-- Zero or more symbols have been served. -/
abbrev Served (ix : SymbolIndex) (incoming : Bool) (neighbors : Neighbors) (depth : Nat) : Queue → Queue → Prop :=
  Relation.ReflTransGen (Serves ix incoming neighbors depth)

theorem serves_unique : Relator.RightUnique (Serves ix incoming neighbors depth) := by
  intro q r r' h h'
  cases h with
  | far hle =>
    cases h' with
    | far => rfl
    | unknown hlt => omega
    | known hlt => omega
  | unknown hlt hnone =>
    cases h' with
    | far hle => omega
    | unknown => rfl
    | known _ hsome => simp [hnone] at hsome
  | known hlt hsome hns =>
    cases h' with
    | far hle => omega
    | unknown _ hnone => simp [hsome] at hnone
    | known _ hsome' hns' =>
      rw [hsome] at hsome'
      cases hsome'
      rw [hns] at hns'
      cases hns'
      rfl

theorem served_done {q r : Queue} (h : Served ix incoming neighbors depth q r) (hq : q.waiting = []) : r = q := by
  cases h.cases_head with
  | inl he => exact he.symm
  | inr h =>
    obtain ⟨r', hr', -⟩ := h
    cases hr' <;> cases hq

/-! ## Layers as queues -/

/-- The queue in the middle of a layer: the rest of the layer waits before the next one. -/
def within (es : List CallEdge) (w : Frontier) (layer : List String) (dist : Nat) : Queue :=
  ⟨es ++ w.edges, w.seen, layer.map (·, dist) ++ w.next.map (·, dist + 1)⟩

theorem foldl_meet (incoming : Bool) (dist : Nat) (es : List CallEdge) (w : Frontier) (here : String) (layer : List String)
    (ns : List (String × Location)) :
    ns.foldl (meet incoming here dist) (within es w layer dist) =
      within es (ns.foldl (Frontier.meet incoming here) w) layer dist := by
  induction ns generalizing w with
  | nil => rfl
  | cons n rest ih =>
    have hmeet : meet incoming here dist (within es w layer dist) n =
        within es (Frontier.meet incoming here w n) layer dist := by
      by_cases hs : n.1 ∈ w.seen
      · simp [meet, within, Frontier.meet, hs]
      · simp [meet, within, Frontier.meet, hs]
    rw [List.foldl_cons, List.foldl_cons, hmeet, ih]

theorem served_expand (es : List CallEdge) {w w' : Frontier} {layer : List String} (hdist : dist < depth)
    (h : (expand ix incoming neighbors w layer).run c = .ok (w', c')) :
    Served ix incoming neighbors depth (within es w layer dist) (within es w' [] dist) := by
  induction layer generalizing w c with
  | nil =>
    obtain ⟨rfl, -⟩ := Cancellable.pure_eq_ok.1 h
    exact .refl
  | cons id rest ih =>
    rw [expand] at h
    obtain ⟨-, d, -, h⟩ := Cancellable.bind_eq_ok.1 h
    cases hid : ix.resolve id with
    | none =>
      rw [hid] at h
      exact .head (.unknown hdist hid) (ih h)
    | some s =>
      rw [hid] at h
      obtain ⟨ns, d', hns, h⟩ := Cancellable.bind_eq_ok.1 h
      refine .head (.known hdist hid (Cancellable.lift_eq_ok.1 hns).1) ?_
      have hrest := foldl_meet incoming dist es w id rest ns
      exact hrest ▸ ih h

theorem served_far (es : List CallEdge) (seen layer : List String) (hdist : depth ≤ dist) :
    Served ix incoming neighbors depth ⟨es, seen, layer.map (·, dist)⟩ ⟨es, seen, []⟩ := by
  induction layer with
  | nil => exact .refl
  | cons id rest ih => exact .head (.far hdist) ih

theorem served_layers (es : List CallEdge) {es' : List CallEdge} {seen layer : List String} (dist left : Nat)
    (h : (layers ix incoming neighbors left seen layer).run c = .ok (es', c')) : ∃ seen',
    Served ix incoming neighbors (dist + left) ⟨es, seen, layer.map (·, dist)⟩ ⟨es ++ es', seen', []⟩ := by
  induction left generalizing es es' seen layer dist c c' with
  | zero =>
    obtain ⟨-, d, -, h⟩ := Cancellable.bind_eq_ok.1 h
    obtain ⟨rfl, -⟩ := Cancellable.pure_eq_ok.1 h
    exact ⟨seen, by simpa using served_far es seen layer (Nat.le_refl dist)⟩
  | succ left ih =>
    obtain ⟨w, d, hw, h⟩ := Cancellable.bind_eq_ok.1 h
    obtain ⟨more, d', hmore, h⟩ := Cancellable.bind_eq_ok.1 h
    obtain ⟨rfl, -⟩ := Cancellable.pure_eq_ok.1 h
    have hnear : dist < dist + (left + 1) := by omega
    have hfirst := served_expand es hnear hw
    obtain ⟨seen', hrest⟩ := ih (es ++ w.edges) (dist + 1) hmore
    refine ⟨seen', ?_⟩
    have hdepth : dist + 1 + left = dist + (left + 1) := by omega
    rw [hdepth, List.append_assoc] at hrest
    exact .trans (by simpa [within] using hfirst) hrest

end

/-- Serving a queue from the root comes to an end, with the edges of the walk and no others. -/
theorem served_walk {ix : SymbolIndex} {incoming : Bool} {neighbors : Neighbors}
    (hfound : ∀ s ∈ ix.symbols, ∃ ns, neighbors s = .ok ns) (depth : Nat) (root : String) :
    ∃ es, Cancellable.Yields (walk ix incoming neighbors depth root) es ∧
      (∃ q, Served ix incoming neighbors depth (start root) q ∧ q.waiting = []) ∧
      ∀ q, Served ix incoming neighbors depth (start root) q → q.waiting = [] → q.edges = es := by
  obtain ⟨es, hes, -⟩ := walk_yields incoming hfound depth root
  obtain ⟨seen, hserved⟩ := served_layers [] 0 depth hes.never
  rw [Nat.zero_add] at hserved
  refine ⟨es, hes, ⟨_, hserved, rfl⟩, fun q hq hdone => ?_⟩
  rcases hserved.total_of_right_unique serves_unique hq with h | h
  · rw [served_done h rfl]
    rfl
  · rw [← served_done h hdone]
    rfl

end Queue

end Workbench.CallGraph
