import Workbench.Proofs.Positioning

/-!
# Lines that go

A range is widened to the lines that it touches, or not at all. It is widened
exactly when indentation alone stands before it in its first line and blanks
alone behind it in its last. What is left are then the other lines of the text.
-/

namespace Workbench.Text

/-! ## Lines -/

section
variable {a b cs : List Char}

theorem lines_ne_nil (h : cs ≠ []) : lines cs ≠ [] := by
  cases cs with
  | nil => exact absurd rfl h
  | cons c r =>
    rw [lines]
    split
    · simp
    · split <;> simp

/-- Behind a newline, or at the beginning of a text, the lines go on by themselves. -/
theorem lines_append (h : ∀ c ∈ a.getLast?, c = '\n') (b : List Char) : lines (a ++ b) = lines a ++ lines b := by
  induction a with
  | nil => rfl
  | cons c r ih =>
    rw [List.cons_append, lines, lines]
    by_cases hr : r = []
    · subst hr
      simp [h c rfl, lines]
    · rw [List.getLast?_cons_of_ne_nil hr] at h
      rw [ih h]
      by_cases hc : c = '\n'
      · simp [hc]
      · obtain ⟨l, ls, hls⟩ := List.exists_cons_of_ne_nil (lines_ne_nil hr)
        simp [hc, hls]

/-- A text is cut where its first line ends: behind the newline, or at the end of the text. -/
theorem exists_firstLine (cs : List Char) : ∃ right newline below, cs = right ++ (newline ++ below) ∧ '\n' ∉ right ∧
    (newline = ['\n'] ∨ newline = [] ∧ below = []) := by
  have hcut : cs.takeWhile (· != '\n') ++ cs.dropWhile (· != '\n') = cs := List.takeWhile_append_dropWhile
  have hplain : '\n' ∉ cs.takeWhile (· != '\n') := fun hc => by simpa using List.mem_takeWhile_imp hc
  cases hrest : cs.dropWhile (· != '\n') with
  | nil =>
    rw [hrest] at hcut
    exact ⟨_, [], [], hcut.symm, hplain, .inr ⟨rfl, rfl⟩⟩
  | cons c r =>
    have hc := List.head?_dropWhile_not (· != '\n') cs
    rw [hrest] at hcut hc
    obtain rfl : c = '\n' := by simpa using hc
    exact ⟨_, ['\n'], r, hcut.symm, hplain, .inl rfl⟩

end

/-! ## A range in its lines -/

/-- What may stand behind a range in a line that goes with it. -/
def isMargin (c : Char) : Bool := isIndent c || c == '\r'

/-- A range of a text, with what stands beside it in the lines that it touches. -/
structure Stretch (cs : List Char) (start stop : Nat) where
  above : List Char
  left : List Char
  mid : List Char
  right : List Char
  newline : List Char
  below : List Char
  text : cs = above ++ (left ++ (mid ++ (right ++ (newline ++ below))))
  start_eq : size (above ++ left) = start
  stop_eq : size (above ++ (left ++ mid)) = stop
  starts : ∀ c ∈ above.getLast?, c = '\n'
  left_plain : '\n' ∉ left
  right_plain : '\n' ∉ right
  ends : newline = ['\n'] ∨ newline = [] ∧ below = []

namespace Stretch

variable {cs : List Char} {start stop : Nat}

/-- The lines that the range touches, each with its newline. -/
def whole (p : Stretch cs start stop) : List Char := p.left ++ (p.mid ++ (p.right ++ p.newline))

def first (p : Stretch cs start stop) : Nat := size p.above

def last (p : Stretch cs start stop) : Nat := size (p.above ++ p.whole)

/-- Nothing but blanks shares the lines with the range. -/
def Alone (p : Stretch cs start stop) : Prop :=
  (∀ c ∈ p.left, isIndent c = true) ∧ ∀ c ∈ p.right, isMargin c = true

instance (p : Stretch cs start stop) : Decidable p.Alone :=
  decidable_of_iff (p.left.all isIndent = true ∧ p.right.all isMargin = true) (by simp [Alone])

theorem exists_of_isBoundary (ha : isBoundary cs start = true) (hb : isBoundary cs stop = true) (hle : start ≤ stop) :
    Nonempty (Stretch cs start stop) := by
  obtain ⟨before, mid, after, rfl, rfl, hmid⟩ := exists_parts ha hb hle
  obtain ⟨above, left, rfl, hstarts, hleft⟩ := exists_lastLine before
  obtain ⟨right, newline, below, rfl, hright, hends⟩ := exists_firstLine after
  refine ⟨⟨above, left, mid, right, newline, below, ?_, rfl, ?_, hstarts, hleft, hright, hends⟩⟩
  · simp
  · rw [← List.append_assoc, size_append, hmid]
    omega

variable (p : Stretch cs start stop)

theorem text_whole : cs = p.above ++ (p.whole ++ p.below) :=
  p.text.trans (by simp [whole])

/-- Going back over indentation leads to the beginning of the line when nothing else stands there. -/
theorem dropEndWhile_left (h : ∀ c ∈ p.left, isIndent c = true) : dropEndWhile isIndent (p.above ++ p.left) = p.above := by
  rw [dropEndWhile_append_eq, if_pos (List.all_eq_true.2 h), dropEndWhile_eq, List.rdropWhile_eq_self_iff]
  intro hne
  rw [p.starts _ (List.getLast?_eq_some_getLast hne)]
  decide

theorem starts_iff : (dropEndWhile isIndent (p.above ++ p.left)).getLast?.all (· == '\n') = true ↔
    ∀ c ∈ p.left, isIndent c = true := by
  constructor
  · intro h
    by_contra hleft
    -- What is left of the line ends with a character of it, which is no newline.
    have hne : dropEndWhile isIndent p.left ≠ [] := by
      rwa [dropEndWhile_eq, ne_eq, List.rdropWhile_eq_nil_iff]
    have hlast := List.getLast?_eq_some_getLast hne
    rw [dropEndWhile_append_eq, if_neg (mt List.all_eq_true.1 hleft), List.getLast?_append, hlast, Option.some_or,
      Option.all_some, beq_iff_eq] at h
    have hmem : (dropEndWhile isIndent p.left).getLast hne ∈ p.left := mem_of_mem_dropEndWhile (List.getLast_mem hne)
    exact p.left_plain (h ▸ hmem)
  · intro h
    rw [p.dropEndWhile_left h, Option.all_eq_true]
    intro c hc
    simpa using p.starts c hc

/-- Going on over blanks leads to the end of the line when nothing else stands there. -/
theorem dropWhile_right (h : ∀ c ∈ p.right, isMargin c = true) :
    (p.right ++ (p.newline ++ p.below)).dropWhile isMargin = p.newline ++ p.below := by
  rw [List.dropWhile_append_of_pos h]
  rcases p.ends with hend | ⟨hend, hbelow⟩
  · rw [hend]
    rfl
  · rw [hend, hbelow]
    rfl

theorem ends_iff : ((p.right ++ (p.newline ++ p.below)).dropWhile isMargin).head?.all (· == '\n') = true ↔
    ∀ c ∈ p.right, isMargin c = true := by
  constructor
  · intro h
    by_contra hright
    have hne : p.right.dropWhile isMargin ≠ [] := by rwa [ne_eq, List.dropWhile_eq_nil_iff]
    have hhead := List.head?_eq_some_head hne
    rw [List.dropWhile_append, if_neg (by simpa using hne), List.head?_append, hhead, Option.some_or, Option.all_some,
      beq_iff_eq] at h
    have hmem := (List.dropWhile_suffix isMargin (l := p.right)).subset (List.head_mem hne)
    exact p.right_plain (h ▸ hmem)
  · intro h
    rw [p.dropWhile_right h]
    rcases p.ends with hend | ⟨hend, hbelow⟩ <;> simp [*]

/-- The widened range is that of the lines when the range has them for itself, and the range as it is when not. -/
theorem removalSpan_eq : removalSpan cs start stop = if p.Alone then (p.first, p.last) else (start, stop) := by
  have hbefore : splitAt? cs start = some (p.above ++ p.left, p.mid ++ (p.right ++ (p.newline ++ p.below))) :=
    splitAt?_eq_some_iff.2 ⟨p.text.trans (by simp), p.start_eq⟩
  have hafter : splitAt? cs stop = some (p.above ++ (p.left ++ p.mid), p.right ++ (p.newline ++ p.below)) :=
    splitAt?_eq_some_iff.2 ⟨p.text.trans (by simp), p.stop_eq⟩
  have hmargin : (fun c => isIndent c || c == '\r') = isMargin := rfl
  rw [removalSpan, hbefore, hafter]
  dsimp only
  rw [hmargin]
  by_cases h : p.Alone
  · rw [if_pos h, if_pos (by rw [Bool.and_eq_true]; exact ⟨p.starts_iff.2 h.1, p.ends_iff.2 h.2⟩),
      p.dropEndWhile_left h.1, p.dropWhile_right h.2]
    refine Prod.ext rfl ?_
    have hstop := p.stop_eq
    simp only [last, whole, size_append] at hstop ⊢
    rcases p.ends with hend | ⟨hend, hbelow⟩
    · have hone : size ['\n'] = 1 := by decide
      rw [hend, hone, if_neg (by simp)]
      omega
    · simp [hend, hbelow]
      omega
  · rw [if_neg h, if_neg]
    rw [Bool.and_eq_true, p.starts_iff, p.ends_iff]
    exact h

/-! ### The lines that are left -/

theorem whole_ends : (∀ c ∈ (p.above ++ p.whole).getLast?, c = '\n') ∨ p.below = [] := by
  rcases p.ends with hend | ⟨-, hbelow⟩
  · left
    intro c hc
    simpa [whole, hend, ← List.append_assoc] using hc.symm
  · exact .inr hbelow

theorem lines_whole : lines cs = lines p.above ++ (lines p.whole ++ lines p.below) := by
  have hsplit := lines_append p.starts (p.whole ++ p.below)
  have hwhole : lines (p.whole ++ p.below) = lines p.whole ++ lines p.below := by
    rcases p.ends with hend | ⟨-, hbelow⟩
    · refine lines_append (fun c hc => ?_) p.below
      simpa [whole, hend, ← List.append_assoc] using hc.symm
    · simp [hbelow, lines]
  rw [hwhole] at hsplit
  exact (congrArg lines p.text_whole).trans hsplit

theorem slice?_left : slice? cs p.first start = some p.left := by
  have h := slice?_parts p.above p.left (p.mid ++ (p.right ++ (p.newline ++ p.below)))
  rw [p.start_eq] at h
  exact (congrArg (slice? · p.first start) p.text).trans h

theorem slice?_right : slice? cs stop p.last = some (p.right ++ p.newline) := by
  have h := slice?_parts (p.above ++ (p.left ++ p.mid)) (p.right ++ p.newline) p.below
  have hlast : size (p.above ++ (p.left ++ p.mid) ++ (p.right ++ p.newline)) = p.last := by simp [last, whole]
  rw [p.stop_eq, hlast] at h
  exact (congrArg (slice? · stop p.last) (p.text.trans (by simp))).trans h

end Stretch

section
variable {cs : List Char} {start stop n : Nat}

theorem slice?_self (h : isBoundary cs n = true) : slice? cs n n = some [] := by
  obtain ⟨a, b, rfl, rfl⟩ := isBoundary_iff.1 h
  have hslice := slice?_parts a [] b
  rwa [List.append_nil] at hslice

/-- A range that is made of lines of a text. Without it the text is made of the other lines. -/
structure IsLines (cs : List Char) (r : Nat × Nat) (above mid below : List Char) : Prop where
  text : cs = above ++ (mid ++ below)
  first : size above = r.1
  last : size (above ++ mid) = r.2
  starts : ∀ c ∈ above.getLast?, c = '\n'
  ends : (∀ c ∈ (above ++ mid).getLast?, c = '\n') ∨ below = []
  lines_text : lines cs = lines above ++ (lines mid ++ lines below)
  lines_left : lines (above ++ below) = lines above ++ lines below

theorem Stretch.isLines (p : Stretch cs start stop) : IsLines cs (p.first, p.last) p.above p.whole p.below :=
  ⟨p.text_whole, rfl, rfl, p.starts, p.whole_ends, p.lines_whole, lines_append p.starts p.below⟩

/-- A range grows by blanks beside it and one newline, and to whole lines or not at all. It grows to the lines that it
touches when it has them for itself. -/
theorem removalSpan_whole (ha : isBoundary cs start = true) (hb : isBoundary cs stop = true) (hle : start ≤ stop) :
    let r := removalSpan cs start stop
    (r.1 ≤ start ∧ stop ≤ r.2 ∧ r.2 ≤ size cs) ∧ (isBoundary cs r.1 = true ∧ isBoundary cs r.2 = true) ∧
      (∃ w, slice? cs r.1 start = some w ∧ ∀ c ∈ w, isIndent c = true) ∧
      (∃ w newline, slice? cs stop r.2 = some (w ++ newline) ∧ (∀ c ∈ w, isMargin c = true) ∧
        (newline = [] ∨ newline = ['\n'])) ∧
      (r = (start, stop) ∨ ∃ above mid below, IsLines cs r above mid below) ∧
      Nonempty (Stretch cs start stop) ∧
      ∀ p : Stretch cs start stop, r = if p.Alone then (p.first, p.last) else (start, stop) := by
  intro r
  obtain ⟨p⟩ := Stretch.exists_of_isBoundary ha hb hle
  obtain ⟨hfirst, hlast, hstart, hstop⟩ := removalSpan_spec ha hb
  have hr : r = if p.Alone then (p.first, p.last) else (start, stop) := p.removalSpan_eq
  refine ⟨⟨hstart, hstop, le_size_of_isBoundary hlast⟩, ⟨hfirst, hlast⟩, ?_, ?_, ?_, ⟨p⟩, fun q => q.removalSpan_eq⟩
  · by_cases h : p.Alone
    · rw [hr, if_pos h]
      exact ⟨p.left, p.slice?_left, h.1⟩
    · rw [hr, if_neg h]
      exact ⟨[], slice?_self ha, by simp⟩
  · by_cases h : p.Alone
    · rw [hr, if_pos h]
      exact ⟨p.right, p.newline, p.slice?_right, h.2, p.ends.symm.imp And.left id⟩
    · rw [hr, if_neg h]
      exact ⟨[], [], slice?_self hb, by simp, .inl rfl⟩
  · by_cases h : p.Alone
    · rw [hr, if_pos h]
      exact .inr ⟨_, _, _, p.isLines⟩
    · rw [hr, if_neg h]
      exact .inl rfl

/-- A declaration on a line of its own, before blanks and two carriage returns. -/
theorem removalSpan_declaration :
    let cs := "a\n\tint x; \r\r\nb".toList
    isBoundary cs 3 = true ∧ isBoundary cs 9 = true ∧ 3 ≤ 9 ∧ removalSpan cs 3 9 = (2, 13) ∧
      lines cs = lines "a\n".toList ++ (lines "\tint x; \r\r\n".toList ++ lines "b".toList) := by
  intro cs
  have ha : isBoundary cs 3 = true := by decide
  have hb : isBoundary cs 9 = true := by decide
  have hwhole := removalSpan_whole ha hb (by decide)
  let p : Stretch cs 3 9 := ⟨"a\n".toList, "\t".toList, "int x;".toList, " \r\r".toList, ['\n'], "b".toList,
    by decide, by decide, by decide, by simp, by decide, by decide, by decide⟩
  refine ⟨ha, hb, by decide, ?_, ?_⟩
  · rw [hwhole.2.2.2.2.2.2 p, if_pos (by decide)]
    decide
  · exact p.lines_whole

end

end Workbench.Text
