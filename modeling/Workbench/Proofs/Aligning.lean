import Workbench.Hunk

/-!
# Alignments

A script leads from one list to another: it keeps, removes and inserts. The
corner of the table of two lists is the length of a longest common
subsequence, and the walk through the table follows a script that keeps one.
-/

namespace Workbench.Hunk

/-! ## Scripts -/

inductive Step (α : Type) where
  | keep (a : α) | remove (a : α) | insert (a : α)

namespace Step

variable {α : Type}

@[simp] def old? : Step α → Option α
  | keep a | remove a => some a
  | insert _ => none

@[simp] def new? : Step α → Option α
  | keep a | insert a => some a
  | remove _ => none

@[simp] def kept? : Step α → Option α
  | keep a => some a
  | remove _ | insert _ => none

def isKept (x : Step α) : Bool := x.kept?.isSome

end Step

/-- A longest list among those that two lists have in common, in order but not without gaps. -/
structure LongestCommon {α : Type} (c a b : List α) : Prop where
  left : c.Sublist a
  right : c.Sublist b
  longest {d : List α} : d.Sublist a → d.Sublist b → d.length ≤ c.length

/-- A script from one list to another that keeps as much as there is to keep. -/
structure Aligns {α : Type} (s : List (Step α)) (a b : List α) : Prop where
  old : s.filterMap Step.old? = a
  new : s.filterMap Step.new? = b
  kept : LongestCommon (s.filterMap Step.kept?) a b

/-- The number of runs of changes between kept elements. -/
def regionsOf {α : Type} (s : List (Step α)) : Nat := (s.splitOnP Step.isKept).countP fun run => !run.isEmpty

/-- The regions that begin in a script. Its start may lie inside a region. -/
def begun {α : Type} : Bool → List (Step α) → Nat
  | _, [] => 0
  | inside, x :: s => if x.isKept then begun false s else (if inside then 0 else 1) + begun true s

section
variable {α : Type}

theorem begun_eq (s : List (Step α)) :
    begun true s = (s.splitOnP Step.isKept).tail.countP (fun run => !run.isEmpty) ∧ begun false s = regionsOf s := by
  induction s with
  | nil => exact ⟨rfl, rfl⟩
  | cons x s ih =>
    obtain ⟨hin, hout⟩ := ih
    rw [regionsOf, List.splitOnP_cons_eq_if_modifyHead, begun, begun]
    by_cases h : x.isKept
    · simp [h, hout, regionsOf]
    · obtain ⟨run, runs, hruns⟩ := List.exists_cons_of_ne_nil (List.splitOnP_ne_nil Step.isKept s)
      simp [h, hin, hruns, Nat.add_comm]

theorem regionsOf_eq (s : List (Step α)) : regionsOf s = begun false s := (begun_eq s).2.symm

theorem begun_append_keep (inside : Bool) (s : List (Step α)) (l : List α) :
    begun inside (s ++ l.map .keep) = begun inside s := by
  induction s generalizing inside with
  | nil =>
    induction l generalizing inside with
    | nil => rfl
    | cons a l ih => exact ih false
  | cons x s ih => simp [begun, ih]

theorem begun_keep_append (s : List (Step α)) (l : List α) : begun false (l.map .keep ++ s) = begun false s := by
  induction l with
  | nil => rfl
  | cons a l ih => exact ih

/-- A script without a region changes nothing. -/
theorem eq_of_begun {s : List (Step α)} {inside : Bool} (h : begun inside s = 0) (hin : inside = false) :
    s.filterMap Step.old? = s.filterMap Step.new? := by
  subst hin
  induction s with
  | nil => rfl
  | cons x s ih =>
    cases x with
    | keep a => simpa using ih h
    | remove a | insert a => simp [begun, Step.isKept] at h

theorem kept_sublist (s : List (Step α)) :
    (s.filterMap Step.kept?).Sublist (s.filterMap Step.old?) ∧ (s.filterMap Step.kept?).Sublist (s.filterMap Step.new?) := by
  induction s with
  | nil => simp
  | cons x s ih =>
    obtain ⟨hold, hnew⟩ := ih
    cases x with
    | keep a => exact ⟨hold.cons_cons a, hnew.cons_cons a⟩
    | remove a => exact ⟨hold.cons a, hnew⟩
    | insert a => exact ⟨hold, hnew.cons a⟩

end

/-! ## Longest common subsequences -/

/-- The length of a longest common subsequence. -/
def common {α : Type} [DecidableEq α] : List α → List α → Nat
  | x :: a, y :: b => if x = y then common a b + 1 else max (common a (y :: b)) (common (x :: a) b)
  | _, _ => 0
termination_by a b => a.length + b.length

section
variable {α : Type} [DecidableEq α]

@[simp] theorem common_nil_left (b : List α) : common [] b = 0 := by simp [common]

@[simp] theorem common_nil_right (a : List α) : common a [] = 0 := by cases a <;> simp [common]

theorem common_cons (x y : α) (a b : List α) :
    common (x :: a) (y :: b) = if x = y then common a b + 1 else max (common a (y :: b)) (common (x :: a) b) := by
  rw [common]

theorem length_le_common {a b d : List α} (ha : d.Sublist a) (hb : d.Sublist b) : d.length ≤ common a b := by
  fun_induction common a b generalizing d with
  | case1 a y b ih =>
    have := ih ha.tail hb.tail
    rw [List.length_tail] at this
    omega
  | case2 x a y b hne iha ihb =>
    cases ha with
    | cons _ ha => exact Nat.le_trans (iha ha hb) (Nat.le_max_left _ _)
    | cons_cons _ ha' =>
      -- The first element of `d` is `x`, so it is not `y`.
      cases hb with
      | cons _ hb => exact Nat.le_trans (ihb (ha'.cons_cons x) hb) (Nat.le_max_right _ _)
      | cons_cons => exact absurd rfl hne
  | case3 a b hcons =>
    cases a with
    | nil => simp [List.sublist_nil.1 ha]
    | cons x a =>
      cases b with
      | nil => simp [List.sublist_nil.1 hb]
      | cons y b => exact (hcons x a y b rfl rfl).elim

/-! ## The table -/

theorem headD_map_tail (rows : List (List Nat)) : (rows.map List.tail).headD [] = (rows.headD []).tail := by
  cases rows <;> rfl

theorem map_tail_table (y : α) (a b : List α) : (table a (y :: b)).map List.tail = table a b := by
  induction a with
  | nil => simp [table, List.replicate_succ]
  | cons x a ih =>
    rw [table, List.map_cons, row, List.tail_cons, ← headD_map_tail, ih]
    rfl

/-- The corner of the table of two lists. -/
theorem corner_table (a b : List α) : ((table a b).headD []).headD 0 = common a b := by
  induction a generalizing b with
  | nil => cases b <;> simp [table, List.replicate_succ]
  | cons x a iha =>
    induction b with
    | nil => simp [table, row]
    | cons y b ihb =>
      have hbelow : ((table a (y :: b)).headD []).tail = (table a b).headD [] := by rw [← headD_map_tail, map_tail_table]
      have hright : (row x b ((table a b).headD [])).headD 0 = common (x :: a) b := ihb
      simp only [table, row, List.headD_cons, hbelow, iha, hright]
      rw [common_cons]

/-! ## The walk -/

theorem walk_cons (inside : Bool) (x y : α) (a b : List α) :
    walk inside (x :: a) (y :: b) (table (x :: a) (y :: b)) =
      if x = y then walk false a b (table a b)
      else (if inside then 0 else 1) +
        if common a (y :: b) ≤ common (x :: a) b then walk true (x :: a) b (table (x :: a) b)
        else walk true a (y :: b) (table a (y :: b)) := by
  have hright : ((table (x :: a) (y :: b)).headD []).tail.headD 0 = common (x :: a) b := by
    rw [← corner_table (x :: a) b, ← map_tail_table y (x :: a) b]
    rfl
  have hdown : ((table (x :: a) (y :: b)).tail.headD []).headD 0 = common a (y :: b) := corner_table a (y :: b)
  have htail : (table (x :: a) (y :: b)).tail = table a (y :: b) := rfl
  rw [walk, hright, hdown, map_tail_table, htail, map_tail_table]
  rfl

theorem walk_nil_left (inside : Bool) (y : α) (b : List α) : walk inside [] (y :: b) (table [] (y :: b)) =
    (if inside then 0 else 1) + walk true [] b (table [] b) := by
  rw [walk, map_tail_table]
  rfl

theorem walk_nil_right (inside : Bool) (x : α) (a : List α) : walk inside (x :: a) [] (table (x :: a) []) =
    (if inside then 0 else 1) + walk true a [] (table a []) := by
  rw [walk]
  rfl

/-- The walk follows a script that keeps as many elements as there are in common. -/
theorem exists_script : ∀ (inside : Bool) (a b : List α), ∃ s : List (Step α), s.filterMap Step.old? = a ∧
    s.filterMap Step.new? = b ∧ (s.filterMap Step.kept?).length = common a b ∧ walk inside a b (table a b) = begun inside s
  | _, [], [] => ⟨[], by simp [walk, begun]⟩
  | inside, [], y :: b => by
    obtain ⟨s, hold, hnew, hkept, hwalk⟩ := exists_script true [] b
    refine ⟨.insert y :: s, hold, by simp [hnew], by simpa using hkept, ?_⟩
    rw [walk_nil_left, hwalk]
    rfl
  | inside, x :: a, [] => by
    obtain ⟨s, hold, hnew, hkept, hwalk⟩ := exists_script true a []
    refine ⟨.remove x :: s, by simp [hold], hnew, by simpa using hkept, ?_⟩
    rw [walk_nil_right, hwalk]
    rfl
  | inside, x :: a, y :: b => by
    rw [walk_cons, common_cons]
    by_cases he : x = y
    · subst he
      obtain ⟨s, hold, hnew, hkept, hwalk⟩ := exists_script false a b
      refine ⟨.keep x :: s, by simp [hold], by simp [hnew], by simp [hkept], ?_⟩
      rw [if_pos rfl, hwalk]
      rfl
    · rw [if_neg he, if_neg he]
      -- The walk goes where more is in common, to the right when both are equal.
      by_cases hle : common a (y :: b) ≤ common (x :: a) b
      · obtain ⟨s, hold, hnew, hkept, hwalk⟩ := exists_script true (x :: a) b
        refine ⟨.insert y :: s, hold, by simp [hnew], ?_, ?_⟩
        · rw [Nat.max_eq_right hle]
          exact hkept
        · rw [if_pos hle, hwalk]
          rfl
      · obtain ⟨s, hold, hnew, hkept, hwalk⟩ := exists_script true a (y :: b)
        refine ⟨.remove x :: s, by simp [hold], hnew, ?_, ?_⟩
        · rw [Nat.max_eq_left (Nat.le_of_not_le hle)]
          exact hkept
        · rw [if_neg hle, hwalk]
          rfl
termination_by _ a b => a.length + b.length

theorem exists_aligns (a b : List α) : ∃ s, Aligns s a b ∧ regions a b = regionsOf s := by
  obtain ⟨s, rfl, rfl, hkept, hwalk⟩ := exists_script false a b
  obtain ⟨hleft, hright⟩ := kept_sublist s
  exact ⟨s, ⟨rfl, rfl, hleft, hright, fun ha hb => hkept ▸ length_le_common ha hb⟩, by rw [regions, hwalk, regionsOf_eq]⟩

end

end Workbench.Hunk
