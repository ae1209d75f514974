import Workbench.Proofs.Tabulating

/-!
# Counted regions

What two lists begin and end with belongs to a longest common subsequence and
to no region. So the regions counted between two texts are those of a whole
alignment of their lines, though only what is between the common ends is aligned.
-/

namespace Workbench.Hunk

open Text

/-! ## Common ends -/

section
variable {α : Type} {c d a b p q xs ys pre suf : List α} {s : List (Step α)} {x : α}

theorem LongestCommon.cons (h : LongestCommon c a b) (x : α) : LongestCommon (x :: c) (x :: a) (x :: b) where
  left := h.left.cons_cons x
  right := h.right.cons_cons x
  longest ha hb := by
    have := h.longest ha.tail hb.tail
    rw [List.length_tail] at this
    rw [List.length_cons]
    omega

theorem LongestCommon.reverse (h : LongestCommon c a b) : LongestCommon c.reverse a.reverse b.reverse where
  left := h.left.reverse
  right := h.right.reverse
  longest {d} ha hb := by
    have := h.longest (d := d.reverse) (by simpa using ha.reverse) (by simpa using hb.reverse)
    simpa using this

theorem Aligns.keep_append (h : Aligns s a b) (pre : List α) : Aligns (pre.map .keep ++ s) (pre ++ a) (pre ++ b) := by
  induction pre with
  | nil => exact h
  | cons x pre ih => exact ⟨by simp [ih.old], by simp [ih.new], by simpa using ih.kept.cons x⟩

theorem Aligns.reverse (h : Aligns s a b) : Aligns s.reverse a.reverse b.reverse :=
  ⟨by rw [List.filterMap_reverse, h.old], by rw [List.filterMap_reverse, h.new],
    by rw [List.filterMap_reverse]; exact h.kept.reverse⟩

theorem Aligns.append_keep (h : Aligns s a b) (suf : List α) : Aligns (s ++ suf.map .keep) (a ++ suf) (b ++ suf) := by
  simpa using (h.reverse.keep_append suf.reverse).reverse

theorem longestCommon_nil_left (b : List α) : LongestCommon [] [] b :=
  ⟨.slnil, List.nil_sublist b, fun ha _ => by simp [List.sublist_nil.1 ha]⟩

theorem longestCommon_nil_right (a : List α) : LongestCommon [] a [] :=
  ⟨List.nil_sublist a, .slnil, fun _ hb => by simp [List.sublist_nil.1 hb]⟩

theorem aligns_inserted (b : List α) : Aligns (b.map .insert) [] b :=
  ⟨by simp, by simp [List.filterMap_map, Function.comp_def],
    by rw [List.filterMap_eq_nil_iff.2 (by simp)]; exact longestCommon_nil_left b⟩

theorem aligns_removed (a : List α) : Aligns (a.map .remove) a [] :=
  ⟨by simp [List.filterMap_map, Function.comp_def], by simp,
    by rw [List.filterMap_eq_nil_iff.2 (by simp)]; exact longestCommon_nil_right a⟩

theorem begun_inserted (b : List α) : begun true (b.map .insert) = 0 := by
  induction b with
  | nil => rfl
  | cons x b ih => exact (Nat.zero_add _).trans ih

theorem begun_removed (a : List α) : begun true (a.map .remove) = 0 := by
  induction a with
  | nil => rfl
  | cons x a ih => exact (Nat.zero_add _).trans ih

/-- One of two lists without the other is one region. -/
theorem exists_aligns_of_isEmpty (h : (a.isEmpty || b.isEmpty) = true) (hne : a ≠ b) :
    ∃ s, Aligns s a b ∧ regionsOf s = 1 := by
  rw [Bool.or_eq_true, List.isEmpty_iff, List.isEmpty_iff] at h
  rcases h with rfl | rfl
  · obtain ⟨y, b, rfl⟩ := List.exists_cons_of_ne_nil hne.symm
    exact ⟨_, aligns_inserted _, by rw [regionsOf_eq]; exact congrArg (1 + ·) (begun_inserted b)⟩
  · obtain ⟨x, a, rfl⟩ := List.exists_cons_of_ne_nil hne
    exact ⟨_, aligns_removed _, by rw [regionsOf_eq]; exact congrArg (1 + ·) (begun_removed a)⟩

theorem Aligns.regionsOf_pos (h : Aligns s a b) (hne : a ≠ b) : 0 < regionsOf s := by
  refine Nat.pos_of_ne_zero fun hzero => hne ?_
  rw [regionsOf_eq] at hzero
  rw [← h.old, ← h.new, eq_of_begun hzero rfl]

/-! ## What is left without them -/

/-- No list begins with what the other begins with. -/
def Differ (a b : List α) : Prop := ∀ x, a.head? = some x → b.head? ≠ some x

/-- What is left of two lists without what both begin with, and then without what both end with. -/
structure Trimmed (xs ys pre a b suf : List α) : Prop where
  old : xs = pre ++ (a ++ suf)
  new : ys = pre ++ (b ++ suf)
  first : Differ (a ++ suf) (b ++ suf)
  last : Differ a.reverse b.reverse

theorem eq_of_differ (hxs : p ++ a = q ++ c) (hys : p ++ b = q ++ d) (hab : Differ a b) (hcd : Differ c d) : p = q := by
  induction p generalizing q with
  | nil =>
    cases q with
    | nil => rfl
    | cons x q =>
      simp only [List.nil_append] at hxs hys
      exact absurd (by simp [hys]) (hab x (by simp [hxs]))
  | cons x p ih =>
    cases q with
    | nil =>
      simp only [List.nil_append] at hxs hys
      exact absurd (by simp [← hys]) (hcd x (by simp [← hxs]))
    | cons y q =>
      obtain ⟨rfl, hxs'⟩ := List.cons.inj hxs
      rw [ih hxs' (List.cons.inj hys).2]

theorem Trimmed.unique {pre' a' b' suf' : List α} (h : Trimmed xs ys pre a b suf) (h' : Trimmed xs ys pre' a' b' suf') :
    a = a' ∧ b = b' := by
  have hxs := h.old.symm.trans h'.old
  have hys := h.new.symm.trans h'.new
  obtain rfl := eq_of_differ hxs hys h.first h'.first
  replace hxs := congrArg List.reverse (List.append_cancel_left hxs)
  replace hys := congrArg List.reverse (List.append_cancel_left hys)
  rw [List.reverse_append, List.reverse_append] at hxs hys
  have hsuf := eq_of_differ hxs hys h.last h'.last
  rw [hsuf] at hxs hys
  exact ⟨List.reverse_inj.1 (List.append_cancel_left hxs), List.reverse_inj.1 (List.append_cancel_left hys)⟩

end

section
variable {α : Type} [DecidableEq α]

theorem sharedPrefix_spec (a b : List α) : ∃ pre, a = pre ++ a.drop (sharedPrefix a b) ∧ b = pre ++ b.drop (sharedPrefix a b) ∧
    Differ (a.drop (sharedPrefix a b)) (b.drop (sharedPrefix a b)) := by
  fun_induction sharedPrefix a b with
  | case1 r x s ih =>
    obtain ⟨pre, hr, hs, hdiffer⟩ := ih
    exact ⟨x :: pre, by simpa using hr, by simpa using hs, by simpa using hdiffer⟩
  | case2 x r y s hne => exact ⟨[], rfl, rfl, by simpa [Differ] using Ne.symm hne⟩
  | case3 a b hcons =>
    refine ⟨[], rfl, rfl, fun x ha hb => ?_⟩
    cases a with
    | nil => simp at ha
    | cons x a =>
      cases b with
      | nil => simp at hb
      | cons y b => exact (hcons x a y b rfl rfl).elim

theorem trimmed_middle (xs ys : List α) : ∃ pre suf, Trimmed xs ys pre (middle xs ys).1 (middle xs ys).2 suf := by
  obtain ⟨pre, hxs, hys, hfirst⟩ := sharedPrefix_spec xs ys
  rw [middle]
  generalize xs.drop (sharedPrefix xs ys) = as at hxs hfirst ⊢
  generalize ys.drop (sharedPrefix xs ys) = bs at hys hfirst ⊢
  obtain ⟨suf, has, hbs, hlast⟩ := sharedPrefix_spec as.reverse bs.reverse
  have hrest : ∀ l : List α, (l.take (l.length - sharedPrefix as.reverse bs.reverse)).reverse =
      l.reverse.drop (sharedPrefix as.reverse bs.reverse) := fun l => by
    rw [List.drop_reverse]
  have hparts : ∀ l : List α, l.reverse = suf ++ l.reverse.drop (sharedPrefix as.reverse bs.reverse) →
      l = l.take (l.length - sharedPrefix as.reverse bs.reverse) ++ suf.reverse := fun l hl => by
    rw [← hrest] at hl
    simpa using congrArg List.reverse hl
  refine ⟨pre, suf.reverse, ?_, ?_, ?_, ?_⟩
  · rw [← hparts as has]
    exact hxs
  · rw [← hparts bs hbs]
    exact hys
  · rw [← hparts as has, ← hparts bs hbs]
    exact hfirst
  · rw [hrest, hrest]
    exact hlast

/-! ## Counting -/

theorem lines_injective {before after : List Char} (h : lines before = lines after) : before = after := by
  rw [← flatten_lines before, h, flatten_lines]

end

section
variable {before after : List Char} {maxCells : Nat} {pre a b suf : List Line}

/-- A script for what is left of the lines of two texts is one for all their lines. -/
theorem Trimmed.exists_aligns (h : Trimmed (lines before) (lines after) pre a b suf) {s : List (Step Line)} (hs : Aligns s a b) :
    ∃ s', Aligns s' (lines before) (lines after) ∧ regionsOf s' = regionsOf s := by
  refine ⟨pre.map .keep ++ (s ++ suf.map .keep), ?_, ?_⟩
  · rw [h.old, h.new]
    exact (hs.append_keep suf).keep_append pre
  · rw [regionsOf_eq, regionsOf_eq, begun_keep_append, begun_append_keep]

theorem count_of_ne (hne : before ≠ after) (h : Trimmed (lines before) (lines after) pre a b suf) :
    count before after maxCells =
      if a.isEmpty || b.isEmpty then 1 else if a.length * b.length > maxCells then 1 else regions a b := by
  obtain ⟨pre', suf', h'⟩ := trimmed_middle (lines before) (lines after)
  obtain ⟨ha, hb⟩ := h.unique h'
  rw [count, if_neg hne, ha, hb]

theorem count_aligned (hne : before ≠ after) (h : Trimmed (lines before) (lines after) pre a b suf)
    (hcells : a.length * b.length ≤ maxCells) :
    ∃ s, Aligns s (lines before) (lines after) ∧ count before after maxCells = regionsOf s := by
  have hab : a ≠ b := by
    rintro rfl
    exact hne (lines_injective (h.old.trans h.new.symm))
  rw [count_of_ne hne h, if_neg (Nat.not_lt.2 hcells)]
  split
  · rename_i hempty
    obtain ⟨s, hs, hone⟩ := exists_aligns_of_isEmpty hempty hab
    obtain ⟨s', hs', he⟩ := h.exists_aligns hs
    exact ⟨s', hs', by rw [he, hone]⟩
  · obtain ⟨s, hs, hregions⟩ := Hunk.exists_aligns a b
    obtain ⟨s', hs', he⟩ := h.exists_aligns hs
    exact ⟨s', hs', by rw [he, hregions]⟩

theorem count_crowded (hne : before ≠ after) (h : Trimmed (lines before) (lines after) pre a b suf)
    (hcells : maxCells < a.length * b.length) : count before after maxCells = 1 := by
  rw [count_of_ne hne h, if_pos hcells, ite_self]

theorem count_pos (maxCells : Nat) (hne : before ≠ after) : 0 < count before after maxCells := by
  obtain ⟨pre, suf, h⟩ := trimmed_middle (lines before) (lines after)
  rcases Nat.lt_or_ge maxCells ((middle (lines before) (lines after)).1.length * (middle (lines before) (lines after)).2.length)
    with hcells | hcells
  · rw [count_crowded hne h hcells]
    exact Nat.one_pos
  · obtain ⟨s, hs, hcount⟩ := count_aligned hne h hcells
    rw [hcount]
    exact hs.regionsOf_pos fun he => hne (lines_injective he)

theorem count_eq_zero_iff : count before after maxCells = 0 ↔ before = after := by
  constructor
  · intro h
    exact Decidable.byContradiction fun hne => Nat.ne_of_gt (count_pos maxCells hne) h
  · intro h
    exact if_pos h

end

/-- Counted regions are those of a best alignment, unless the table would be too large for its limit. -/
theorem count_regions (before after : List Char) (maxCells : Nat) :
    (count before after maxCells = 0 ↔ before = after) ∧
    (before ≠ after → ∀ pre a b suf, Trimmed (lines before) (lines after) pre a b suf →
      (a.length * b.length ≤ maxCells →
        ∃ s, Aligns s (lines before) (lines after) ∧ count before after maxCells = regionsOf s) ∧
      (maxCells < a.length * b.length → count before after maxCells = 1)) ∧
    ∀ a b : List Line, regions? a b = some (regions a b) :=
  ⟨count_eq_zero_iff, fun hne _ _ _ _ h => ⟨count_aligned hne h, count_crowded hne h⟩, regions?_eq⟩

/-- Two lines change places between lines that stay. Either of them can be kept. -/
theorem count_swapped :
    Trimmed (lines "a\nb\nc\nz".toList) (lines "a\nc\nb\nz".toList) ["a\n".toList] ["b\n".toList, "c\n".toList]
      ["c\n".toList, "b\n".toList] ["z".toList] ∧
    (∃ s, Aligns s (lines "a\nb\nc\nz".toList) (lines "a\nc\nb\nz".toList) ∧ regionsOf s = 2) ∧
    count "a\nb\nc\nz".toList "a\nc\nb\nz".toList 4 = 2 ∧ count "a\nb\nc\nz".toList "a\nc\nb\nz".toList 3 = 1 := by
  have htrimmed : Trimmed (lines "a\nb\nc\nz".toList) (lines "a\nc\nb\nz".toList) ["a\n".toList]
      ["b\n".toList, "c\n".toList] ["c\n".toList, "b\n".toList] ["z".toList] :=
    ⟨by decide, by decide, by simp [Differ], by simp [Differ]⟩
  obtain ⟨-, hfits, hchecked⟩ := count_regions "a\nb\nc\nz".toList "a\nc\nb\nz".toList 4
  obtain ⟨-, hcrowded, -⟩ := count_regions "a\nb\nc\nz".toList "a\nc\nb\nz".toList 3
  obtain ⟨s, hs, hcount⟩ := (hfits (by decide) _ _ _ _ htrimmed).1 (by decide)
  have htwo : count "a\nb\nc\nz".toList "a\nc\nb\nz".toList 4 = 2 := by
    rw [count_of_ne (by decide) htrimmed, if_neg (by decide), if_neg (by decide)]
    exact Option.some.inj ((hchecked _ _).symm.trans (by decide))
  exact ⟨htrimmed, ⟨s, hs, hcount.symm.trans htwo⟩, htwo, (hcrowded (by decide) _ _ _ _ htrimmed).2 (by decide)⟩

end Workbench.Hunk
