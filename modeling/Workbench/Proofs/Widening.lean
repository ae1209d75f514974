import Mathlib.Algebra.Ring.Nat
import Mathlib.Order.Bounds.Basic
import Workbench.Proofs.Chains

/-!
# Chains go breadth first

The loop behind a chain takes the front of a queue, which may hold a type many
times, and passes over what it has seen. It ends, and what comes out is all that
steps lead to from where it starts, each once and nearest first.
-/

namespace Workbench.SymbolIndex

/-! ## Steps -/

/-- A step goes to a type that a base names, or to a type around where these count. -/
inductive Leads (ix : SymbolIndex) (outer : Bool) (s t : Symbol) : Prop
  | base (hmem : t ∈ ix.symbols) (htype : t.kind.isType)
      (hbase : ∃ b ∈ s.bases, Symbol.stripArity t.name = Symbol.simpleTypeName b)
  | around (houter : outer = true) (hmem : t ∈ ix.symbols) (htype : t.kind.isType)
      (hcontainer : s.container = some t.qualname)

theorem mem_above {ix : SymbolIndex} {outer : Bool} {s t : Symbol} : t ∈ ix.above outer s ↔ ix.Leads outer s t := by
  refine ⟨fun h => ?_, fun h => ?_⟩
  · rcases List.mem_append.1 h with h | h
    · obtain ⟨b, hb, h⟩ := List.mem_flatMap.1 h
      obtain ⟨hmem, htype, hname⟩ := mem_typesNamed.1 h
      exact .base hmem htype ⟨b, hb, hname⟩
    · split at h
      · obtain ⟨h, htype⟩ := List.mem_filter.1 h
        obtain ⟨hmem, rfl⟩ := mem_byQualname.1 h
        exact .around rfl hmem htype ‹_›
      · cases h
  · cases h with
    | base hmem htype hbase =>
      obtain ⟨b, hb, hname⟩ := hbase
      exact List.mem_append_left _ (List.mem_flatMap.2 ⟨b, hb, mem_typesNamed.2 ⟨hmem, htype, hname⟩⟩)
    | around houter hmem htype hcontainer =>
      refine List.mem_append_right _ ?_
      rw [houter, hcontainer]
      exact List.mem_filter.2 ⟨mem_byQualname.2 ⟨hmem, rfl⟩, htype⟩

/-- So many steps lead to a symbol. -/
inductive Reached (step : Symbol → Symbol → Prop) (start : List Symbol) : Nat → Symbol → Prop
  | start {s : Symbol} (h : s ∈ start) : Reached step start 0 s
  | step {n : Nat} {s t : Symbol} (h : Reached step start n s) (hstep : step s t) : Reached step start (n + 1) t

/-- The fewest steps that lead to a symbol. -/
def Distance (step : Symbol → Symbol → Prop) (start : List Symbol) (n : Nat) (s : Symbol) : Prop :=
  IsLeast {n | Reached step start n s} n

/-! ## The loop -/

/-- What a walk has seen, what waits in its queue, and what has come out. -/
structure Walk where
  seen : List String
  queue : List Symbol
  out : List Symbol

namespace Walk

/-- One turn takes the front of the queue. -/
def turn (next : Symbol → List Symbol) (w : Walk) : Option Walk :=
  match w.queue with
  | [] => none
  | s :: r =>
    if s.id ∈ w.seen then some { w with queue := r }
    else some ⟨w.seen ++ [s.id], r ++ next s, w.out ++ [s]⟩

/-- From the first walk the loop ends in the second, after so many turns. -/
inductive Runs (next : Symbol → List Symbol) : Walk → Nat → Walk → Prop
  | stop {w : Walk} (h : w.turn next = none) : Runs next w 0 w
  | turn {w v u : Walk} {n : Nat} (h : w.turn next = some v) (hrest : Runs next v n u) : Runs next w (n + 1) u

section
variable {next : Symbol → List Symbol} {w v u : Walk} {n : Nat} {s : Symbol} {r : List Symbol}

theorem turn_known (hq : w.queue = s :: r) (hs : s.id ∈ w.seen) : w.turn next = some { w with queue := r } := by
  simp only [turn, hq, if_pos hs]

theorem turn_new (hq : w.queue = s :: r) (hs : s.id ∉ w.seen) :
    w.turn next = some ⟨w.seen ++ [s.id], r ++ next s, w.out ++ [s]⟩ := by
  simp only [turn, hq, if_neg hs]

theorem turn_eq_none : w.turn next = none ↔ w.queue = [] := by
  cases hq : w.queue with
  | nil => simp [turn, hq]
  | cons s r =>
    by_cases hs : s.id ∈ w.seen
    · simp [turn_known hq hs]
    · simp [turn_new hq hs]

/-- Nothing is seen twice. -/
theorem nodup_turn (hw : w.seen.Nodup) (h : w.turn next = some v) : v.seen.Nodup := by
  cases hq : w.queue with
  | nil => simp [turn_eq_none.2 hq] at h
  | cons s r =>
    by_cases hs : s.id ∈ w.seen
    · rw [turn_known hq hs] at h
      exact Option.some.inj h ▸ hw
    · rw [turn_new hq hs] at h
      have hnew : (w.seen ++ [s.id]).Nodup := by
        simpa [List.nodup_append] using ⟨hw, fun _ hid => ne_of_mem_of_not_mem hid hs⟩
      exact Option.some.inj h ▸ hnew

/-- What every turn preserves holds when the loop ends. -/
theorem Runs.preserves {p : Walk → Prop} (hp : ∀ w v, p w → w.turn next = some v → p v) (h : Runs next w n u)
    (hw : p w) : p u ∧ u.queue = [] := by
  induction h with
  | stop h => exact ⟨hw, turn_eq_none.1 h⟩
  | turn h _ ih => exact ih (hp _ _ hw h)

end

end Walk

/-! ## The loop ends -/

section
variable {next : Symbol → List Symbol} {left queue : List Symbol} {s w : Symbol}

theorem any_without_iff : (without s left).any (·.id == w.id) ↔ left.any (·.id == w.id) ∧ w.id ≠ s.id := by
  refine ⟨fun h => ?_, fun h => any_without h.1 h.2⟩
  obtain ⟨x, hx, hid⟩ := List.any_eq_true.1 h
  obtain ⟨hx, hne⟩ := List.mem_filter.1 hx
  exact ⟨List.any_eq_true.2 ⟨x, hx, hid⟩, by simpa [beq_iff_eq.1 hid] using hne⟩

/-- To visit what is left is to pass over what has been seen. -/
theorem runs_visit {p : Symbol → Prop} (hnext : ∀ s, ∀ t ∈ next s, p t) (hqueue : ∀ t ∈ queue, p t)
    {seen : List String} (hseen : ∀ t, p t → (left.any (·.id == t.id) ↔ t.id ∉ seen)) (out : List Symbol) :
    Walk.Runs next ⟨seen, queue, out⟩
      (queue.length + ((visit next left queue).map fun s => (next s).length).sum)
      ⟨seen ++ (visit next left queue).map Symbol.id, [], out ++ visit next left queue⟩ := by
  fun_induction visit next left queue generalizing seen out with
  | case1 left => simpa using Walk.Runs.stop rfl
  | case2 left s r hs ih =>
    have hnew : s.id ∉ seen := (hseen s (hqueue s List.mem_cons_self)).1 hs
    have hlater : ∀ t ∈ r ++ next s, p t := fun t ht =>
      (List.mem_append.1 ht).elim (fun h => hqueue t (List.mem_cons_of_mem s h)) (hnext s t)
    have hleft : ∀ t, p t → ((without s left).any (·.id == t.id) ↔ t.id ∉ seen ++ [s.id]) := fun t ht => by
      rw [any_without_iff, hseen t ht, List.mem_append, List.mem_singleton, not_or]
    have hrest := Walk.Runs.turn (w := ⟨seen, s :: r, out⟩) (Walk.turn_new rfl hnew) (ih hlater hleft (out ++ [s]))
    simp only [List.length_append, List.append_assoc, List.singleton_append] at hrest
    simpa [Nat.add_assoc, Nat.add_comm, Nat.add_left_comm] using hrest
  | case3 left s r hs ih =>
    have hknown : s.id ∈ seen :=
      Decidable.byContradiction fun h => hs ((hseen s (hqueue s List.mem_cons_self)).2 h)
    have hrest := Walk.Runs.turn (w := ⟨seen, s :: r, out⟩) (Walk.turn_known rfl hknown)
      (ih (fun t ht => hqueue t (List.mem_cons_of_mem s ht)) hseen out)
    simpa [Nat.add_right_comm] using hrest

end

/-! ## Level by level -/

/-- The loop at level `k`: first waits what is left of this level, then what it has led to. -/
structure Level (step : Symbol → Symbol → Prop) (start : List Symbol) (k : Nat) (here later : List Symbol)
    (w : Walk) : Prop where
  queue : w.queue = here ++ later
  seen : w.seen = w.out.map Symbol.id
  out : ∃ ns, List.Forall₂ (Distance step start) ns w.out ∧ ns.Pairwise (· ≤ ·) ∧ ∀ n ∈ ns, n ≤ k
  reached_here : ∀ s ∈ here, Reached step start k s
  reached_later : ∀ s ∈ later, Reached step start (k + 1) s
  passed : ∀ n < k, ∀ s, Reached step start n s → s ∈ w.out
  current : ∀ s, Reached step start k s → s ∈ w.out ∨ s ∈ here
  closed : ∀ s ∈ w.out, ∀ t, step s t → t ∈ w.out ∨ t ∈ here ++ later

namespace Level

section
variable {next : Symbol → List Symbol} {step : Symbol → Symbol → Prop} {start here later r : List Symbol} {k n : Nat}
  {w v : Walk} {s t : Symbol}

theorem init (step : Symbol → Symbol → Prop) (start : List Symbol) : Level step start 0 start [] ⟨[], start, []⟩ where
  queue := (List.append_nil start).symm
  seen := rfl
  out := ⟨[], .nil, .nil, by simp⟩
  reached_here _ hs := .start hs
  reached_later _ hs := by cases hs
  passed n hn := absurd hn (Nat.not_lt_zero n)
  current s hs := by
    cases hs with
    | start h => exact .inr h
  closed _ hs := by cases hs

/-- With nothing left of a level, all of it has come out, and what it has led to is the next. -/
theorem shift (h : Level step start k [] later w) : Level step start (k + 1) later [] w where
  queue := h.queue.trans (List.append_nil later).symm
  seen := h.seen
  out :=
    let ⟨ns, hns, hsorted, hle⟩ := h.out
    ⟨ns, hns, hsorted, fun n hn => Nat.le_succ_of_le (hle n hn)⟩
  reached_here := h.reached_later
  reached_later _ hs := by cases hs
  passed n hn s hs := by
    rcases Nat.lt_succ_iff_lt_or_eq.1 hn with hn | rfl
    · exact h.passed n hn s hs
    · exact (h.current s hs).resolve_right List.not_mem_nil
  current t ht := by
    cases ht with
    | step hs hstep => exact h.closed _ ((h.current _ hs).resolve_right List.not_mem_nil) t hstep
  closed := by simpa using h.closed

theorem mem_seen (h : Level step start k here later w) (hs : s ∈ w.out) : s.id ∈ w.seen :=
  h.seen ▸ List.mem_map_of_mem hs

theorem reached_of_mem_out (h : Level step start k here later w) (hs : s ∈ w.out) : ∃ n, Reached step start n s := by
  obtain ⟨ns, hns, -, -⟩ := h.out
  obtain ⟨i, hi, rfl⟩ := List.mem_iff_getElem.1 hs
  have hin : i < ns.length := hns.length_eq ▸ hi
  exact ⟨ns[i], (hns.get hin hi).1⟩

theorem out_or_rest {out ts : List Symbol} (hs : s ∈ out) (ht : t ∈ out ∨ t ∈ s :: ts) : t ∈ out ∨ t ∈ ts := by
  rcases ht with ht | ht
  · exact .inl ht
  · rcases List.mem_cons.1 ht with rfl | ht
    · exact .inl hs
    · exact .inr ht

/-- To pass over what has come out loses nothing. -/
theorem known (h : Level step start k (s :: r) later w) (hs : s ∈ w.out) :
    Level step start k r later { w with queue := r ++ later } where
  queue := rfl
  seen := h.seen
  out := h.out
  reached_here t ht := h.reached_here t (List.mem_cons_of_mem s ht)
  reached_later := h.reached_later
  passed := h.passed
  current t ht := out_or_rest hs (h.current t ht)
  closed a ha t ht := out_or_rest hs (h.closed a ha t ht)

variable (hnext : ∀ {s t}, t ∈ next s ↔ step s t)

include hnext in
/-- What comes out new is at the distance of the level: all that is nearer has come out before. -/
theorem new (h : Level step start k (s :: r) later w) (hs : s.id ∉ w.seen) :
    Level step start k r (later ++ next s) ⟨w.seen ++ [s.id], r ++ later ++ next s, w.out ++ [s]⟩ where
  queue := List.append_assoc r later (next s)
  seen := by simp [h.seen]
  out := by
    obtain ⟨ns, hns, hsorted, hle⟩ := h.out
    have hdistance : Distance step start k s :=
      ⟨h.reached_here s List.mem_cons_self, fun n hn => Nat.not_lt.1 fun hlt => hs (h.mem_seen (h.passed n hlt s hn))⟩
    refine ⟨ns ++ [k], List.rel_append hns (.cons hdistance .nil), ?_, ?_⟩
    · exact List.pairwise_append.2 ⟨hsorted, List.pairwise_singleton _ k, by simpa using hle⟩
    · simpa [or_imp, forall_and] using hle
  reached_here t ht := h.reached_here t (List.mem_cons_of_mem s ht)
  reached_later t ht := by
    rcases List.mem_append.1 ht with ht | ht
    · exact h.reached_later t ht
    · exact .step (h.reached_here s List.mem_cons_self) (hnext.1 ht)
  passed n hn t ht := List.mem_append_left _ (h.passed n hn t ht)
  current t ht := by
    rcases h.current t ht with ht | ht
    · exact .inl (List.mem_append_left _ ht)
    · rcases List.mem_cons.1 ht with rfl | ht
      · exact .inl (List.mem_append_right _ List.mem_cons_self)
      · exact .inr ht
  closed a ha t ht := by
    rcases List.mem_append.1 ha with ha | ha
    · have hwaits := h.closed a ha t ht
      simp only [List.cons_append, List.mem_cons, List.mem_append] at hwaits ⊢
      tauto
    · rw [List.mem_singleton.1 ha] at ht
      exact .inr (List.mem_append_right _ (List.mem_append_right _ (hnext.2 ht)))

variable (hone : ∀ {s t m n}, Reached step start m s → Reached step start n t → s.id = t.id → s = t)

include hnext hone in
/-- A turn with something left of a level stays at it. -/
theorem turn_cons (h : Level step start k (s :: r) later w) (hturn : w.turn next = some v) :
    ∃ later, Level step start k r later v := by
  have hqueue : w.queue = s :: (r ++ later) := h.queue
  by_cases hs : s.id ∈ w.seen
  · rw [Walk.turn_known hqueue hs] at hturn
    obtain ⟨t, ht, hid⟩ := List.mem_map.1 (h.seen ▸ hs)
    obtain ⟨n, hn⟩ := h.reached_of_mem_out ht
    obtain rfl : t = s := hone hn (h.reached_here s List.mem_cons_self) hid
    exact ⟨later, Option.some.inj hturn ▸ h.known ht⟩
  · rw [Walk.turn_new hqueue hs] at hturn
    exact ⟨later ++ next s, Option.some.inj hturn ▸ h.new hnext hs⟩

include hnext hone in
theorem turn (h : ∃ k here later, Level step start k here later w) (hturn : w.turn next = some v) :
    ∃ k here later, Level step start k here later v := by
  obtain ⟨k, here, later, h⟩ := h
  cases here with
  | cons s r => exact ⟨k, r, h.turn_cons hnext hone hturn⟩
  | nil =>
    cases later with
    | cons s r => exact ⟨k + 1, r, h.shift.turn_cons hnext hone hturn⟩
    | nil => simp [Walk.turn_eq_none.2 h.queue] at hturn

/-- At the end all that is reached has come out. -/
theorem mem_out (h : Level step start k [] [] w) (hs : Reached step start n s) : s ∈ w.out := by
  induction hs with
  | start hs =>
    rcases Nat.eq_zero_or_pos k with rfl | hk
    · exact (h.current _ (.start hs)).resolve_right List.not_mem_nil
    · exact h.passed 0 hk _ (.start hs)
  | step _ hstep ih => exact (h.closed _ ih _ hstep).resolve_right List.not_mem_nil

end

end Level

/-! ## Chains -/

/-- Among some symbols and those of the index, an id stands for one symbol. -/
def TellsApart (ix : SymbolIndex) (start : List Symbol) : Prop :=
  ∀ s ∈ start, ∀ t, t ∈ start ∨ t ∈ ix.symbols → s.id = t.id → s = t

section
variable {ix : SymbolIndex} {start : List Symbol} {outer : Bool} {n : Nat} {s t : Symbol}

theorem tellsApart_of_mem (h : ∀ s ∈ start, s ∈ ix.symbols) : ix.TellsApart start :=
  fun s hs t ht => eq_of_id (h s hs) (ht.elim (h t) id)

theorem mem_of_reached (h : Reached (ix.Leads outer) start n s) : s ∈ start ∨ s ∈ ix.symbols := by
  cases h with
  | start h => exact .inl h
  | step _ hstep => exact .inr (mem_symbols_of_above (mem_above.2 hstep))

theorem TellsApart.eq (h : ix.TellsApart start) (hs : s ∈ start ∨ s ∈ ix.symbols) (ht : t ∈ start ∨ t ∈ ix.symbols)
    (hid : s.id = t.id) : s = t := by
  rcases hs with hs | hs
  · exact h s hs t ht hid
  · rcases ht with ht | ht
    · exact (h t ht s (.inr hs) hid.symm).symm
    · exact eq_of_id hs ht hid

theorem runs_typeChain (ix : SymbolIndex) (start : List Symbol) (outer : Bool) :
    Walk.Runs (ix.above outer) ⟨[], start, []⟩
      (start.length + ((ix.typeChain start outer).map fun s => (ix.above outer s).length).sum)
      ⟨(ix.typeChain start outer).map Symbol.id, [], ix.typeChain start outer⟩ := by
  have hleft : ∀ t, t ∈ start ++ ix.symbols → ((start ++ ix.symbols).any (·.id == t.id) ↔ t.id ∉ ([] : List String)) :=
    fun t ht => iff_of_true (List.any_eq_true.2 ⟨t, ht, beq_self_eq_true _⟩) List.not_mem_nil
  have hnext : ∀ s, ∀ t ∈ ix.above outer s, t ∈ start ++ ix.symbols := fun s t ht =>
    List.mem_append_right _ (mem_symbols_of_above ht)
  simpa [typeChain] using runs_visit hnext (fun t ht => List.mem_append_left _ ht) hleft []

/-- Where ids tell symbols apart, the loop of a chain ends at a level with nothing left of it. -/
theorem level_typeChain (outer : Bool) (h : ix.TellsApart start) : ∃ k,
    Level (ix.Leads outer) start k [] [] ⟨(ix.typeChain start outer).map Symbol.id, [], ix.typeChain start outer⟩ := by
  have hone : ∀ {s t m n}, Reached (ix.Leads outer) start m s → Reached (ix.Leads outer) start n t → s.id = t.id →
      s = t := fun hs ht => h.eq (mem_of_reached hs) (mem_of_reached ht)
  obtain ⟨⟨k, here, later, hlevel⟩, hend⟩ := (runs_typeChain ix start outer).preserves
    (fun _ _ => Level.turn mem_above hone) ⟨0, start, [], Level.init (ix.Leads outer) start⟩
  obtain ⟨rfl, rfl⟩ := List.append_eq_nil_iff.1 (hlevel.queue.symm.trans hend)
  exact ⟨k, hlevel⟩

/-- A chain has just what is reached. -/
theorem mem_typeChain (h : ix.TellsApart start) :
    s ∈ ix.typeChain start outer ↔ ∃ n, Reached (ix.Leads outer) start n s := by
  obtain ⟨k, hlevel⟩ := level_typeChain outer h
  exact ⟨hlevel.reached_of_mem_out, fun ⟨_, hs⟩ => hlevel.mem_out hs⟩

end

/-- A type of which no more is known than its names, its container and its bases. -/
def plainType (id name qualname : String) (container : Option String) (bases : List String) : Symbol :=
  ⟨id, .class_, name, qualname, none, container, none, bases, [], []⟩

def innermost : Symbol := plainType "e" "Inner" "Bottom.Inner" (some "Bottom") ["Top"]

/-- A diamond that closes to a cycle, with a type inside its bottom. -/
def diamond : SymbolIndex where
  symbols := [plainType "a" "Top" "Top" none ["Bottom", "Top"], plainType "b" "Left" "Left" none ["Top"],
    plainType "c" "Right" "Right" none ["Top"], plainType "d" "Bottom" "Bottom" none ["Left", "Right"], innermost]
  ascending := by decide

/-- A chain is what a breadth-first loop brings out: the loop ends, and where ids tell symbols apart, just what is
reached comes out, each once and nearest first. -/
theorem typeChain_breadthFirst (ix : SymbolIndex) (start : List Symbol) (outer : Bool) :
    Walk.Runs (ix.above outer) ⟨[], start, []⟩
      (start.length + ((ix.typeChain start outer).map fun s => (ix.above outer s).length).sum)
      ⟨(ix.typeChain start outer).map Symbol.id, [], ix.typeChain start outer⟩ ∧
    ((ix.typeChain start outer).map Symbol.id).Nodup ∧
    (ix.TellsApart start →
      (∀ s, s ∈ ix.typeChain start outer ↔ ∃ n, Reached (ix.Leads outer) start n s) ∧
      ∃ ns, List.Forall₂ (Distance (ix.Leads outer) start) ns (ix.typeChain start outer) ∧ ns.Pairwise (· ≤ ·)) := by
  have hruns := runs_typeChain ix start outer
  refine ⟨hruns, (hruns.preserves (fun _ _ => Walk.nodup_turn) .nil).1, fun h => ⟨fun _ => mem_typeChain h, ?_⟩⟩
  obtain ⟨k, hlevel⟩ := level_typeChain outer h
  obtain ⟨ns, hns, hsorted, -⟩ := hlevel.out
  exact ⟨ns, hns, hsorted⟩

theorem diamond_breadthFirst : diamond.TellsApart [innermost] ∧
    (∀ s, s ∈ diamond.typeChain [innermost] true ↔ ∃ n, Reached (diamond.Leads true) [innermost] n s) ∧
    ∃ ns, List.Forall₂ (Distance (diamond.Leads true) [innermost]) ns (diamond.typeChain [innermost] true) ∧
      ns.Pairwise (· ≤ ·) :=
  have h : diamond.TellsApart [innermost] := tellsApart_of_mem (by simp [diamond])
  ⟨h, (typeChain_breadthFirst diamond [innermost] true).2.2 h⟩

example : (diamond.typeChain [innermost] true).map Symbol.id = ["e", "a", "d", "b", "c"] := by cbv

end Workbench.SymbolIndex
