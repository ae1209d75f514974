import Workbench.CallGraph
import Workbench.Proofs.Operations

/-!
# Walking layer by layer

A walk goes out from a root in layers: layer `k` is exactly the ids whose
shortest path from the root has `k` steps. This holds for any relation between
ids, with cycles, parallel calls and calls to oneself, because what has been
seen before a layer is exactly what fewer steps reach.
-/

namespace Workbench

/-! ## Work that only the caller can stop -/

namespace Cancellable

/-- The work gives `a` unless the caller stops it. -/
structure Yields {α : Type} (x : Cancellable α) (a : α) : Prop where
  never : x.run .never = .ok (a, .never)
  always : ∀ c, (∃ c', x.run c = .ok (a, c')) ∨ x.run c = .error .cancelled

section
variable {α β : Type} {a : α} {b : β}

theorem Yields.pure (a : α) : Yields (pure a) a := ⟨rfl, fun c => .inl ⟨c, rfl⟩⟩

theorem Yields.bind {x : Cancellable α} {f : α → Cancellable β} (hx : Yields x a) (hf : Yields (f a) b) :
    Yields (x >>= f) b where
  never := Cancellable.bind_eq_ok.2 ⟨a, .never, hx.never, hf.never⟩
  always c := by
    rcases hx.always c with ⟨c', h⟩ | h
    · rcases hf.always c' with ⟨c'', h'⟩ | h'
      · exact .inl ⟨c'', Cancellable.bind_eq_ok.2 ⟨a, c', h, h'⟩⟩
      · refine .inr ?_
        rw [StateT.run_bind, h]
        exact h'
    · refine .inr ?_
      rw [StateT.run_bind, h]
      rfl

theorem Yields.lift {r : Result α} (h : r = .ok a) : Yields (liftM r : Cancellable α) a where
  never := Cancellable.lift_eq_ok.2 ⟨h, rfl⟩
  always c := .inl ⟨c, Cancellable.lift_eq_ok.2 ⟨h, rfl⟩⟩

theorem yields_checkCancelled : Yields checkCancelled () where
  never := rfl
  always c := by
    rcases c with ⟨_ | _ | n⟩
    · exact .inl ⟨_, rfl⟩
    · exact .inr rfl
    · exact .inl ⟨_, rfl⟩

theorem yields_checkEach (xs : List α) : Yields (xs.forM fun _ => checkCancelled) () := by
  induction xs with
  | nil => exact .pure ()
  | cons x rest ih => exact yields_checkCancelled.bind ih

end

end Cancellable

namespace CallGraph

/-! ## Paths -/

section
variable (step : String → String → Prop) (root : String)

/-- A path of `n` steps from the root. -/
inductive Path : Nat → String → Prop
  | root : Path 0 root
  | step {n : Nat} {x y : String} : Path n x → step x y → Path (n + 1) y

/-- The shortest path from the root to `x` has `n` steps. -/
structure Distance (n : Nat) (x : String) : Prop where
  path : Path step root n x
  least : ∀ m < n, ¬ Path step root m x

end

section
variable {step : String → String → Prop} {root x : String} {n : Nat}

theorem path_zero : Path step root 0 x ↔ x = root := by
  constructor
  · intro h
    cases h
    rfl
  · rintro rfl
    exact .root

theorem path_succ : Path step root (n + 1) x ↔ ∃ w, Path step root n w ∧ step w x := by
  constructor
  · intro h
    cases h with
    | step hp hs => exact ⟨_, hp, hs⟩
  · rintro ⟨w, hp, hs⟩
    exact .step hp hs

theorem distance_zero : Distance step root 0 x ↔ x = root := by
  constructor
  · exact fun h => path_zero.1 h.path
  · exact fun h => ⟨path_zero.2 h, fun m hm => absurd hm (Nat.not_lt_zero m)⟩

/-- One step farther out: a step from the layer at distance `n` to what no shorter path reaches. -/
theorem distance_succ {y : String} : Distance step root (n + 1) y ↔
    (∃ x, Distance step root n x ∧ step x y) ∧ ¬ ∃ m ≤ n, Path step root m y := by
  constructor
  · intro h
    obtain ⟨x, hx, hs⟩ := path_succ.1 h.path
    have hleast : ∀ m < n, ¬ Path step root m x := fun m hm hp =>
      h.least (m + 1) (Nat.succ_lt_succ hm) (.step hp hs)
    refine ⟨⟨x, ⟨hx, hleast⟩, hs⟩, ?_⟩
    rintro ⟨m, hm, hp⟩
    exact h.least m (Nat.lt_succ_of_le hm) hp
  · rintro ⟨⟨x, hx, hs⟩, hnone⟩
    exact ⟨.step hx.path hs, fun m hm hp => hnone ⟨m, Nat.le_of_lt_succ hm, hp⟩⟩

/-- What `n + 1` steps reach at most is what `n` do, and what a step from the layer at distance `n` leads to. -/
theorem reached_succ {y : String} : (∃ m ≤ n + 1, Path step root m y) ↔
    (∃ m ≤ n, Path step root m y) ∨ ∃ x, Distance step root n x ∧ step x y := by
  constructor
  · rintro ⟨m, hm, hp⟩
    by_cases hy : ∃ m ≤ n, Path step root m y
    · exact .inl hy
    · have hd : Distance step root (n + 1) y := by
        refine ⟨?_, fun k hk hpk => hy ⟨k, Nat.le_of_lt_succ hk, hpk⟩⟩
        rcases Nat.lt_or_eq_of_le hm with hlt | rfl
        · exact absurd ⟨m, Nat.le_of_lt_succ hlt, hp⟩ hy
        · exact hp
      exact .inr (distance_succ.1 hd).1
  · rintro (⟨m, hm, hp⟩ | ⟨x, hx, hs⟩)
    · exact ⟨m, Nat.le_succ_of_le hm, hp⟩
    · exact ⟨n + 1, Nat.le_refl _, .step hx.path hs⟩

end

/-! ## Frontiers -/

/-- A frontier `w'` that has come from `w` by meeting the calls in `met`: here, there and the place. -/
structure Grown (incoming : Bool) (met : String → String → Location → Prop) (w w' : Frontier) : Prop where
  edges : ∀ e, e ∈ w'.edges ↔ e ∈ w.edges ∨ ∃ x y l, met x y l ∧ e = edge incoming x y l
  seen : ∀ y, y ∈ w'.seen ↔ y ∈ w.seen ∨ ∃ x l, met x y l
  next : ∀ y, y ∈ w'.next ↔ y ∈ w.next ∨ (y ∉ w.seen ∧ ∃ x l, met x y l)

section
variable {incoming : Bool} {met more : String → String → Location → Prop} {w w' w'' : Frontier}

theorem Grown.none (w : Frontier) (h : ∀ x y l, ¬ met x y l) : Grown incoming met w w := by
  constructor <;> simp [h]

theorem Grown.trans (h : Grown incoming met w w') (h' : Grown incoming more w' w'') :
    Grown incoming (fun x y l => met x y l ∨ more x y l) w w'' where
  edges e := by
    rw [h'.edges, h.edges]
    simp only [or_and_right, exists_or, or_assoc]
  seen y := by
    rw [h'.seen, h.seen]
    simp only [exists_or, or_assoc]
  next y := by
    rw [h'.next, h.next, h.seen]
    simp only [exists_or]
    by_cases hy : ∃ x l, met x y l
    · simp [hy]
    · simp [hy]

theorem Grown.congr (h : Grown incoming met w w') (he : ∀ x y l, met x y l ↔ more x y l) :
    Grown incoming more w w' := by
  have : met = more := by
    funext x y l
    exact propext (he x y l)
  exact this ▸ h

theorem grown_meet (here : String) (n : String × Location) (w : Frontier) :
    Grown incoming (fun x y l => x = here ∧ (y, l) = n) w (Frontier.meet incoming here w n) := by
  obtain ⟨other, place⟩ := n
  have hmet : ∀ y, (∃ x l, x = here ∧ (y, l) = (other, place)) ↔ y = other := by simp
  refine ⟨fun e => ?_, fun y => ?_, fun y => ?_⟩
  · simp only [Frontier.meet, List.mem_append, List.mem_singleton]
    refine or_congr_right ⟨fun he => ⟨here, other, place, ⟨rfl, rfl⟩, he⟩, ?_⟩
    rintro ⟨x, y, l, ⟨rfl, h⟩, rfl⟩
    cases h
    rfl
  · rw [hmet]
    by_cases hs : other ∈ w.seen
    · simp only [Frontier.meet, List.contains_iff_mem.2 hs, if_true]
      exact (or_iff_left_of_imp fun h => h ▸ hs).symm
    · simp [Frontier.meet, hs]
  · rw [hmet]
    by_cases hs : other ∈ w.seen
    · simp only [Frontier.meet, List.contains_iff_mem.2 hs, if_true]
      refine (or_iff_left_of_imp ?_).symm
      rintro ⟨hy, rfl⟩
      exact absurd hs hy
    · simp only [Frontier.meet, List.contains_eq_mem, hs, decide_false, Bool.false_eq_true, if_false, List.mem_append,
        List.mem_singleton]
      refine or_congr_right (iff_and_self.2 ?_)
      rintro rfl
      exact hs

theorem grown_foldl (here : String) (ns : List (String × Location)) (w : Frontier) :
    Grown incoming (fun x y l => x = here ∧ (y, l) ∈ ns) w (ns.foldl (Frontier.meet incoming here) w) := by
  induction ns generalizing w with
  | nil => exact .none w (by simp)
  | cons n rest ih =>
    refine ((grown_meet here n w).trans (ih _)).congr fun x y l => ?_
    rw [List.mem_cons, and_or_left]

end

/-! ## One layer -/

/-- At the symbol with id `x` there is a call at `l` with `y` at the other end. -/
def Meets (ix : SymbolIndex) (neighbors : Neighbors) (x y : String) (l : Location) : Prop :=
  ∃ s ns, ix.resolve x = some s ∧ neighbors s = .ok ns ∧ (y, l) ∈ ns

section
variable {ix : SymbolIndex} (incoming : Bool) {neighbors : Neighbors}
  (hfound : ∀ s ∈ ix.symbols, ∃ ns, neighbors s = .ok ns)
include hfound

theorem expand_yields (w : Frontier) (layer : List String) :
    ∃ w', Cancellable.Yields (expand ix incoming neighbors w layer) w' ∧
      Grown incoming (fun x y l => x ∈ layer ∧ Meets ix neighbors x y l) w w' := by
  -- The frontier changes from one id of the layer to the next; what is met adds up.
  induction layer generalizing w with
  | nil => exact ⟨w, .pure w, .none w (by simp)⟩
  | cons id rest ih =>
    rw [expand]
    cases hid : ix.resolve id with
    | none =>
      obtain ⟨w', hy, hg⟩ := ih w
      refine ⟨w', Cancellable.yields_checkCancelled.bind hy, hg.congr fun x y l => ?_⟩
      rw [List.mem_cons, or_and_right, or_iff_right]
      rintro ⟨rfl, s, ns, hs, -⟩
      simp [hid] at hs
    | some s =>
      obtain ⟨ns, hns⟩ := hfound s (List.mem_of_find?_eq_some hid)
      obtain ⟨w', hy, hg⟩ := ih (ns.foldl (Frontier.meet incoming id) w)
      refine ⟨w', Cancellable.yields_checkCancelled.bind ((Cancellable.Yields.lift hns).bind hy),
        ((grown_foldl id ns w).trans hg).congr fun x y l => ?_⟩
      rw [List.mem_cons, or_and_right]
      refine or_congr_left (and_congr_right ?_)
      rintro rfl
      constructor
      · exact fun h => ⟨s, ns, hid, hns, h⟩
      · rintro ⟨s', ns', hs', hns', h⟩
        rw [hid] at hs'
        cases hs'
        rw [hns] at hns'
        cases hns'
        exact h

end

/-! ## All layers -/

/-- Whether a walk can go from `x` to `y` in one step. -/
def Step (ix : SymbolIndex) (neighbors : Neighbors) (x y : String) : Prop := ∃ l, Meets ix neighbors x y l

/-- Where a walk from `root` stands before layer `k`: it has seen what at most `k` steps reach, and the layer is
what no fewer steps do. -/
structure Reached (step : String → String → Prop) (root : String) (k : Nat) (seen layer : List String) : Prop where
  seen : ∀ x, x ∈ seen ↔ ∃ m ≤ k, Path step root m x
  layer : ∀ x, x ∈ layer ↔ Distance step root k x

section
variable {ix : SymbolIndex} {incoming : Bool} {neighbors : Neighbors} {root : String} {k : Nat}
  {seen layer : List String}

theorem reached_start (step : String → String → Prop) (root : String) : Reached step root 0 [root] [root] where
  seen x := by simp [path_zero]
  layer x := by simp [distance_zero]

theorem Reached.next {w : Frontier} (h : Reached (Step ix neighbors) root k seen layer)
    (hg : Grown incoming (fun x y l => x ∈ layer ∧ Meets ix neighbors x y l) { seen := seen } w) :
    Reached (Step ix neighbors) root (k + 1) w.seen w.next := by
  have hstep : ∀ y, (∃ x l, x ∈ layer ∧ Meets ix neighbors x y l) ↔
      ∃ x, Distance (Step ix neighbors) root k x ∧ Step ix neighbors x y := by
    intro y
    simp only [h.layer, Step, exists_and_left]
  constructor
  · intro y
    rw [hg.seen, hstep, reached_succ, h.seen]
  · intro y
    rw [hg.next, hstep, distance_succ, h.seen]
    simp [and_comm]

/-- `depth` layers from layer `k` on give the calls at the symbols that are at least `k` and fewer than
`k + depth` steps away. -/
theorem layers_yields (incoming : Bool) (hfound : ∀ s ∈ ix.symbols, ∃ ns, neighbors s = .ok ns) (depth : Nat)
    (h : Reached (Step ix neighbors) root k seen layer) :
    ∃ es, Cancellable.Yields (layers ix incoming neighbors depth seen layer) es ∧
      ∀ e, e ∈ es ↔ ∃ n x y l, k ≤ n ∧ n < k + depth ∧ Distance (Step ix neighbors) root n x ∧
        Meets ix neighbors x y l ∧ e = edge incoming x y l := by
  -- Each layer hands on what the next one starts from, so the invariant moves with `k`.
  induction depth generalizing k seen layer with
  | zero =>
    refine ⟨[], (Cancellable.yields_checkEach layer).bind (.pure []), fun e => ?_⟩
    constructor
    · intro he
      cases he
    · rintro ⟨n, -, -, -, hk, hn, -⟩
      omega
  | succ depth ih =>
    obtain ⟨w, hw, hg⟩ := expand_yields incoming hfound { seen := seen } layer
    obtain ⟨es, hes, hmem⟩ := ih (h.next hg)
    refine ⟨w.edges ++ es, hw.bind (hes.bind (.pure _)), fun e => ?_⟩
    rw [List.mem_append, hg.edges, hmem]
    simp only [List.not_mem_nil, false_or, h.layer]
    constructor
    · rintro (⟨x, y, l, ⟨hx, hm⟩, rfl⟩ | ⟨n, x, y, l, hk, hn, hd⟩)
      · exact ⟨k, x, y, l, Nat.le_refl k, by omega, hx, hm, rfl⟩
      · exact ⟨n, x, y, l, by omega, by omega, hd⟩
    · rintro ⟨n, x, y, l, hk, hn, hx, hm, he⟩
      rcases Nat.lt_or_eq_of_le hk with hlt | rfl
      · exact .inr ⟨n, x, y, l, hlt, by omega, hx, hm, he⟩
      · exact .inl ⟨x, y, l, ⟨hx, hm⟩, he⟩

/-- A walk gives exactly the calls at the symbols whose shortest path from the root has fewer steps than its depth. -/
theorem walk_yields (incoming : Bool) (hfound : ∀ s ∈ ix.symbols, ∃ ns, neighbors s = .ok ns) (depth : Nat) (root : String) :
    ∃ es, Cancellable.Yields (walk ix incoming neighbors depth root) es ∧
      ∀ e, e ∈ es ↔ ∃ n x y l, n < depth ∧ Distance (Step ix neighbors) root n x ∧
        Meets ix neighbors x y l ∧ e = edge incoming x y l := by
  obtain ⟨es, hes, hmem⟩ := layers_yields incoming hfound depth (reached_start _ root)
  refine ⟨es, hes, fun e => ?_⟩
  simp [hmem]

end

end CallGraph

end Workbench
