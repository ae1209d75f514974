import Workbench.Proofs.Aligning

/-!
# The table in one list

The table of two lists can be kept as one list of entries, row after row. It is
filled from its end, each entry from the three next to it, and then walked with
two counters. All its reads and writes are checked here: none is beside the
table, and the walk takes at most one turn for each element and counts the
regions.
-/

namespace Workbench.Hunk

/-! ## Entries -/

section
variable {α : Type}

/-- Where the entry of row `i` and column `j` is. Each list has one row or column more than elements. -/
def place? (a b : List α) (i j : Nat) : Option Nat :=
  if i ≤ a.length ∧ j ≤ b.length then some (i * (b.length + 1) + j) else none

def read? (a b : List α) (t : List Nat) (i j : Nat) : Option Nat := (place? a b i j).bind fun k => t[k]?

def write? (a b : List α) (t : List Nat) (i j v : Nat) : Option (List Nat) :=
  (place? a b i j).bind fun k => if k < t.length then some (t.set k v) else none

variable {a b : List α} {t t' : List Nat} {i j k v : Nat}

theorem place_lt (hi : i ≤ a.length) (hj : j ≤ b.length) : i * (b.length + 1) + j < (a.length + 1) * (b.length + 1) := by
  have hrow : (i + 1) * (b.length + 1) ≤ (a.length + 1) * (b.length + 1) := Nat.mul_le_mul_right _ (by omega)
  rw [Nat.succ_mul] at hrow
  omega

theorem place_inj {i' j' : Nat} (hj : j ≤ b.length) (hj' : j' ≤ b.length)
    (h : i * (b.length + 1) + j = i' * (b.length + 1) + j') : i = i' ∧ j = j' := by
  have hrow : ∀ i j, j ≤ b.length → (i * (b.length + 1) + j) / (b.length + 1) = i := by
    intro i j hj
    rw [Nat.mul_comm, Nat.mul_add_div (Nat.succ_pos _), Nat.div_eq_of_lt (by omega), Nat.add_zero]
  have hi := hrow i j hj
  rw [h, hrow i' j' hj'] at hi
  subst hi
  exact ⟨rfl, by omega⟩

theorem read_eq (hi : i ≤ a.length) (hj : j ≤ b.length) : read? a b t i j = t[i * (b.length + 1) + j]? := by
  simp [read?, place?, hi, hj]

/-- A table with an entry for each row and column can be written anywhere, and what was written is read. -/
theorem exists_write (ht : t.length = (a.length + 1) * (b.length + 1)) (hi : i ≤ a.length) (hj : j ≤ b.length) (v : Nat) :
    ∃ t', write? a b t i j v = some t' ∧ t'.length = t.length ∧ ∀ i' ≤ a.length, ∀ j' ≤ b.length,
      read? a b t' i' j' = if i' = i ∧ j' = j then some v else read? a b t i' j' := by
  have hlt := place_lt hi hj
  refine ⟨t.set (i * (b.length + 1) + j) v, by simp [write?, place?, hi, hj, ht, hlt], List.length_set, fun i' hi' j' hj' => ?_⟩
  rw [read_eq hi' hj', read_eq hi' hj', List.getElem?_set]
  by_cases he : i * (b.length + 1) + j = i' * (b.length + 1) + j'
  · obtain ⟨rfl, rfl⟩ := place_inj hj hj' he
    simp [ht, hlt]
  · have hne : ¬ (i' = i ∧ j' = j) := by
      rintro ⟨rfl, rfl⟩
      exact he rfl
    simp [he, hne]

end

section
variable {α : Type} [DecidableEq α]

/-! ## Filling -/

/-- Enters what the elements at `p` have in common with those behind them. -/
def enter? (a b : List α) (t : List Nat) (p : Nat × Nat) : Option (List Nat) := do
  let v ← if a[p.1]? = b[p.2]? then (read? a b t (p.1 + 1) (p.2 + 1)).map (· + 1)
    else (read? a b t (p.1 + 1) p.2).bind fun down => (read? a b t p.1 (p.2 + 1)).map (max down)
  write? a b t p.1 p.2 v

/-- All places but those behind the last element of a list, the last one first. -/
def cells (n m : Nat) : List (Nat × Nat) := (List.range n).reverse.flatMap fun i => (List.range m).reverse.map (i, ·)

def fill? (a b : List α) : Option (List Nat) :=
  (cells a.length b.length).foldlM (enter? a b) (List.replicate ((a.length + 1) * (b.length + 1)) 0)

variable {a b : List α} {t : List Nat} {i k : Nat}

/-- The rows below row `i` are filled, row `i` from column `k` on, and the last column. -/
structure Filled (a b : List α) (t : List Nat) (i k : Nat) : Prop where
  length : t.length = (a.length + 1) * (b.length + 1)
  entry {i' j' : Nat} : i' ≤ a.length → j' ≤ b.length → i < i' ∨ i' = i ∧ k ≤ j' ∨ j' = b.length →
    read? a b t i' j' = some (common (a.drop i') (b.drop j'))

theorem common_drop {j : Nat} (hi : i < a.length) (hj : j < b.length) : common (a.drop i) (b.drop j) =
    if a[i]? = b[j]? then common (a.drop (i + 1)) (b.drop (j + 1)) + 1
    else max (common (a.drop (i + 1)) (b.drop j)) (common (a.drop i) (b.drop (j + 1))) := by
  rw [List.drop_eq_getElem_cons hi, List.drop_eq_getElem_cons hj, common_cons, List.getElem?_eq_getElem hi,
    List.getElem?_eq_getElem hj]
  simp

theorem filled_start : Filled a b (List.replicate ((a.length + 1) * (b.length + 1)) 0) a.length 0 where
  length := List.length_replicate
  entry := by
    intro i' j' hi hj h
    have hzero : common (a.drop i') (b.drop j') = 0 := by
      rcases h with h | ⟨rfl, -⟩ | rfl
      · omega
      · rw [List.drop_length, common_nil_left]
      · rw [List.drop_length, common_nil_right]
    rw [hzero, read_eq hi hj, List.getElem?_replicate, if_pos (place_lt hi hj)]

theorem Filled.enter (h : Filled a b t i (k + 1)) (hi : i < a.length) (hk : k < b.length) :
    ∃ t', enter? a b t (i, k) = some t' ∧ Filled a b t' i k := by
  have hdiagonal : read? a b t (i + 1) (k + 1) = some (common (a.drop (i + 1)) (b.drop (k + 1))) :=
    h.entry (by omega) (by omega) (by omega)
  have hdown : read? a b t (i + 1) k = some (common (a.drop (i + 1)) (b.drop k)) := h.entry (by omega) (by omega) (by omega)
  have hright : read? a b t i (k + 1) = some (common (a.drop i) (b.drop (k + 1))) := h.entry (by omega) (by omega) (by omega)
  obtain ⟨t', hwrite, hlength, hread⟩ := exists_write h.length (Nat.le_of_lt hi) (Nat.le_of_lt hk) (common (a.drop i) (b.drop k))
  refine ⟨t', ?_, hlength.trans h.length, fun {i' j'} hi' hj' hknown => ?_⟩
  · rw [enter?, hdiagonal, hdown, hright, ← hwrite, common_drop hi hk]
    by_cases he : a[i]? = b[k]? <;> simp [he]
  · rw [hread i' hi' j' hj']
    by_cases he : i' = i ∧ j' = k
    · rw [if_pos he, he.1, he.2]
    · rw [if_neg he]
      exact h.entry hi' hj' (by omega)

theorem Filled.row (h : Filled a b t i k) (hi : i < a.length) (hk : k ≤ b.length) :
    ∃ t', ((List.range k).reverse.map (i, ·)).foldlM (enter? a b) t = some t' ∧ Filled a b t' i 0 := by
  induction k generalizing t with
  | zero => exact ⟨t, rfl, h⟩
  | succ k ih =>
    obtain ⟨t', hentered, h'⟩ := h.enter hi hk
    obtain ⟨t'', hrow, h''⟩ := ih h' (by omega)
    refine ⟨t'', ?_, h''⟩
    rw [List.range_succ, List.reverse_append, List.reverse_singleton, List.singleton_append, List.map_cons,
      List.foldlM_cons, hentered]
    exact hrow

/-- The next row begins with its last column, which is filled. -/
theorem Filled.next (h : Filled a b t (i + 1) 0) : Filled a b t i b.length where
  length := h.length
  entry hi' hj' hknown := h.entry hi' hj' (by omega)

theorem Filled.rows (h : Filled a b t i 0) (hi : i ≤ a.length) :
    ∃ t', (cells i b.length).foldlM (enter? a b) t = some t' ∧ Filled a b t' 0 0 := by
  induction i generalizing t with
  | zero => exact ⟨t, rfl, h⟩
  | succ i ih =>
    obtain ⟨t', hrow, h'⟩ := h.next.row hi (Nat.le_refl _)
    obtain ⟨t'', hrows, h''⟩ := ih h' (by omega)
    refine ⟨t'', ?_, h''⟩
    rw [cells, List.range_succ, List.reverse_append, List.reverse_singleton, List.singleton_append, List.flatMap_cons,
      List.foldlM_append, hrow]
    exact hrows

/-- The table can be filled: each entry is the length of a longest common subsequence of what is left of the lists. -/
theorem exists_filled (a b : List α) : ∃ t, fill? a b = some t ∧ ∀ i ≤ a.length, ∀ j ≤ b.length,
    read? a b t i j = some (common (a.drop i) (b.drop j)) := by
  obtain ⟨t, hfill, h⟩ := filled_start.rows (Nat.le_refl a.length)
  exact ⟨t, hfill, fun i hi j hj => h.entry hi hj (by omega)⟩

/-! ## Walking -/

/-- Where the walk is, and what it has counted. -/
structure Cursor where
  i : Nat
  j : Nat
  hunks : Nat
  inside : Bool

/-- Whether the next column is to be walked to, and not the next row. -/
def goesRight? (a b : List α) (t : List Nat) (w : Cursor) : Option Bool :=
  if w.j < b.length then
    if w.i = a.length then some true
    else (read? a b t (w.i + 1) w.j).bind fun down => (read? a b t w.i (w.j + 1)).map (down ≤ ·)
  else some false

def advance? (a b : List α) (t : List Nat) (w : Cursor) : Option Cursor :=
  if w.i < a.length ∧ w.j < b.length ∧ a[w.i]? = b[w.j]? then some ⟨w.i + 1, w.j + 1, w.hunks, false⟩
  else (goesRight? a b t w).map fun right =>
    let hunks := if w.inside then w.hunks else w.hunks + 1
    if right then ⟨w.i, w.j + 1, hunks, true⟩ else ⟨w.i + 1, w.j, hunks, true⟩

/-- The regions that the walk has counted when it is at the end of both lists, after at most `turns` turns. -/
def walk? (a b : List α) (t : List Nat) : Nat → Cursor → Option Nat
  | 0, w => if w.i < a.length ∨ w.j < b.length then none else some w.hunks
  | turns + 1, w => if w.i < a.length ∨ w.j < b.length then (advance? a b t w).bind (walk? a b t turns) else some w.hunks

def regions? (a b : List α) : Option Nat :=
  (fill? a b).bind fun t => walk? a b t (a.length + b.length) ⟨0, 0, 0, false⟩

/-- The regions that are still to be counted. -/
def ahead (a b : List α) (w : Cursor) : Nat := walk w.inside (a.drop w.i) (b.drop w.j) (table (a.drop w.i) (b.drop w.j))

theorem ahead_end {w : Cursor} (hi : w.i = a.length) (hj : w.j = b.length) : ahead a b w = 0 := by
  rw [ahead, hi, hj, List.drop_length, List.drop_length, walk]

/-- A turn reads no place but one of the table. It goes on, and what it counts was still to be counted. -/
theorem exists_advance {w : Cursor}
    (h : ∀ i ≤ a.length, ∀ j ≤ b.length, read? a b t i j = some (common (a.drop i) (b.drop j)))
    (hi : w.i ≤ a.length) (hj : w.j ≤ b.length) (hnot : w.i < a.length ∨ w.j < b.length) :
    ∃ w', advance? a b t w = some w' ∧ w'.i ≤ a.length ∧ w'.j ≤ b.length ∧ w.i + w.j < w'.i + w'.j ∧
      w'.hunks + ahead a b w' = w.hunks + ahead a b w := by
  obtain ⟨i, j, hunks, inside⟩ := w
  dsimp only at hi hj hnot
  have hopen : (if inside then hunks else hunks + 1) = hunks + if inside then 0 else 1 := by cases inside <;> rfl
  rcases Nat.lt_or_ge i a.length with hi' | hi'
  · rcases Nat.lt_or_ge j b.length with hj' | hj'
    · have hahead := walk_cons inside a[i] b[j] (a.drop (i + 1)) (b.drop (j + 1))
      rw [← List.drop_eq_getElem_cons hi', ← List.drop_eq_getElem_cons hj'] at hahead
      by_cases he : a[i] = b[j]
      · refine ⟨⟨i + 1, j + 1, hunks, false⟩, ?_, hi', hj', by dsimp only; omega, ?_⟩
        · simp [advance?, hi', hj', he]
        · rw [ahead, ahead, hahead, if_pos he]
      · rw [if_neg he] at hahead
        have hdown := h (i + 1) hi' j hj
        have hright := h i hi (j + 1) hj'
        by_cases hle : common (a.drop (i + 1)) (b.drop j) ≤ common (a.drop i) (b.drop (j + 1))
        · refine ⟨⟨i, j + 1, hunks + if inside then 0 else 1, true⟩, ?_, hi, hj', by dsimp only; omega, ?_⟩
          · simp [advance?, goesRight?, hi', hj', he, Nat.ne_of_lt hi', hdown, hright, hle, hopen]
          · rw [ahead, ahead, hahead, if_pos hle, Nat.add_assoc]
        · refine ⟨⟨i + 1, j, hunks + if inside then 0 else 1, true⟩, ?_, hi', hj, by dsimp only; omega, ?_⟩
          · simp [advance?, goesRight?, hi', hj', he, Nat.ne_of_lt hi', hdown, hright, hle, hopen]
          · rw [ahead, ahead, hahead, if_neg hle, Nat.add_assoc]
    · have hahead := walk_nil_right inside a[i] (a.drop (i + 1))
      rw [← List.drop_eq_getElem_cons hi', ← List.drop_eq_nil_of_le hj'] at hahead
      refine ⟨⟨i + 1, j, hunks + if inside then 0 else 1, true⟩, ?_, hi', hj, by dsimp only; omega, ?_⟩
      · simp [advance?, goesRight?, Nat.not_lt.2 hj', hopen]
      · rw [ahead, ahead, hahead, Nat.add_assoc]
  · have hj' : j < b.length := by omega
    have hahead := walk_nil_left inside b[j] (b.drop (j + 1))
    rw [← List.drop_eq_getElem_cons hj', ← List.drop_eq_nil_of_le hi'] at hahead
    refine ⟨⟨i, j + 1, hunks + if inside then 0 else 1, true⟩, ?_, hi, hj', by dsimp only; omega, ?_⟩
    · simp [advance?, goesRight?, hj', Nat.le_antisymm hi hi', hopen]
    · rw [ahead, ahead, hahead, Nat.add_assoc]

theorem walk_eq {w : Cursor} {turns : Nat}
    (h : ∀ i ≤ a.length, ∀ j ≤ b.length, read? a b t i j = some (common (a.drop i) (b.drop j)))
    (hi : w.i ≤ a.length) (hj : w.j ≤ b.length) (hturns : a.length + b.length ≤ w.i + w.j + turns) :
    walk? a b t turns w = some (w.hunks + ahead a b w) := by
  induction turns generalizing w with
  | zero =>
    rw [walk?, if_neg (by omega), ahead_end (by omega) (by omega), Nat.add_zero]
  | succ turns ih =>
    rw [walk?]
    by_cases hnot : w.i < a.length ∨ w.j < b.length
    · obtain ⟨w', hadvance, hi', hj', hlt, hahead⟩ := exists_advance h hi hj hnot
      rw [if_pos hnot, hadvance, Option.bind_some, ih hi' hj' (by omega), hahead]
    · rw [if_neg hnot, ahead_end (by omega) (by omega), Nat.add_zero]

/-- With every read and write checked, the regions are counted all the same. -/
theorem regions?_eq (a b : List α) : regions? a b = some (regions a b) := by
  obtain ⟨t, hfill, h⟩ := exists_filled a b
  rw [regions?, hfill, Option.bind_some, walk_eq h (Nat.zero_le _) (Nat.zero_le _) (Nat.le_of_eq (by simp))]
  simp [ahead, regions]

end

end Workbench.Hunk
