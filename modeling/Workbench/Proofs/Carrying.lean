import Workbench.Proofs.Formatting

/-!
# Where formatting takes things

A point of a text goes with its line when the text is formatted: what stands
before it are the new forms of the lines before its own, and its own line up to
it. A stretch that begins and ends with characters that are no blanks is found
again between the points to which its ends go.
-/

namespace Workbench.CSharp.Layout

open Text

/-! ## Points and stretches -/

/-- Whether a span begins and ends with a character of the text that is no blank. -/
def isStretch (cs : List Char) (s : Span) : Bool := (slice? cs s.start s.stop).any isTight

/-- The new form of the text before a point: of the lines before its own, and of its own line up to it. -/
def formatBefore (spans : List Span) (nl before : List Char) : List Char :=
  let raws := before.splitOnP (· == '\n')
  let own := raws.getLastD []
  ((squeeze true (linesFrom spans 0 raws.dropLast)).flatMap fun l => l.chars ++ nl) ++
    if inside spans (size before - size own) then own else expandTabs own

/-- The byte of the formatted text to which a byte of the text goes with its line. -/
def carry (cs : List Char) (spans : List Span) (n : Nat) : Nat :=
  (splitAt? cs n).elim n fun p => size (formatBefore spans (newlineOf cs) p.1)

def carried (cs : List Char) (spans : List Span) (s : Span) : Span :=
  .ofBounds (carry cs spans s.start) (carry cs spans s.stop)

/-- Spans of two texts that hold the same, so far as one sees it, and have the same before them. -/
structure SameStretch (cs : List Char) (s : Span) (ds : List Char) (t : Span) : Prop where
  old : isStretch cs s = true
  new : isStretch ds t = true
  before : (splitAt? ds t.start).map (ink ·.1) = (splitAt? cs s.start).map (ink ·.1)
  held : (slice? ds t.start t.stop).map ink = (slice? cs s.start s.stop).map ink

section
variable {cs a b x mid y : List Char} {s : Span}

theorem isStretch_iff : isStretch cs s = true ↔
    ∃ x mid y, cs = x ++ (mid ++ y) ∧ size x = s.start ∧ size (x ++ mid) = s.stop ∧ isTight mid = true := by
  rw [isStretch, Option.any_eq_true]
  constructor
  · rintro ⟨mid, hslice, htight⟩
    obtain ⟨x, y, hcs, hx, hmid⟩ := slice?_eq_some hslice
    exact ⟨x, mid, y, hcs, hx, hmid, htight⟩
  · rintro ⟨x, mid, y, rfl, hx, hmid, htight⟩
    exact ⟨mid, by rw [← hx, ← hmid, slice?_parts], htight⟩

/-- A point that has a character that is no blank on one of its sides. -/
def AtInk (a b : List Char) : Prop := (∃ c ∈ a.getLast?, isBlank c = false) ∨ ∃ c ∈ b.head?, isBlank c = false

theorem isTight_iff : isTight mid = true ↔
    (∃ c ∈ mid.head?, isBlank c = false) ∧ ∃ c ∈ mid.getLast?, isBlank c = false := by
  simp only [isTight, Bool.and_eq_true, Option.any_eq_true, Bool.not_eq_true', Option.mem_def]

theorem atInk_start (h : isTight mid = true) : AtInk x (mid ++ y) := by
  obtain ⟨c, hc, hblank⟩ := (isTight_iff.1 h).1
  exact .inr ⟨c, by rw [List.head?_append, Option.mem_def.1 hc]; rfl, hblank⟩

theorem atInk_stop (h : isTight mid = true) : AtInk (x ++ mid) y := by
  obtain ⟨c, hc, hblank⟩ := (isTight_iff.1 h).2
  exact .inl ⟨c, by rw [List.getLast?_append, Option.mem_def.1 hc]; rfl, hblank⟩

/-! ## Lines before a point -/

/-- At the start of a line. -/
def AtStart (pre : List Char) : Prop := pre = [] ∨ ∃ front, pre = front ++ ['\n']

theorem atStart_next (x : List Char) : AtStart (x ++ ['\n']) := .inr ⟨x, rfl⟩

/-- What stands before a point, and what of that is in its own line. -/
theorem exists_own (a : List Char) : ∃ pre w, a = pre ++ w ∧ AtStart pre ∧ '\n' ∉ w := by
  induction a using lineInduction with
  | last w hw => exact ⟨[], w, rfl, .inl rfl, hw⟩
  | next w r hw ih =>
    obtain ⟨pre, v, rfl, hpre, hv⟩ := ih
    refine ⟨w ++ '\n' :: pre, v, by simp, .inr ?_, hv⟩
    rcases hpre with rfl | ⟨front, rfl⟩
    · exact ⟨w, rfl⟩
    · exact ⟨w ++ '\n' :: front, by simp⟩

/-- The whole lines of a text. -/
def headLines (pre : List Char) : List (List Char) := (pre.splitOnP (· == '\n')).dropLast

/-- What stands behind a point, and what of that is in its own line. -/
theorem exists_rest (b : List Char) : ∃ rest tail, b = rest ++ tail ∧ '\n' ∉ rest ∧ (tail = [] ∨ ∃ r, tail = '\n' :: r) := by
  induction b using lineInduction with
  | last w hw => exact ⟨w, [], (List.append_nil w).symm, hw, .inl rfl⟩
  | next w r hw _ => exact ⟨w, '\n' :: r, rfl, hw, .inr ⟨r, rfl⟩⟩

/-- A point that has a character that is no blank on one of its sides has it in its line. -/
theorem AtInk.own {pre w rest tail : List Char} (hpre : AtStart pre) (htail : tail = [] ∨ ∃ r, tail = '\n' :: r)
    (h : AtInk (pre ++ w) (rest ++ tail)) :
    (∀ c ∈ (pre ++ w).getLast?, isBlank c = false → c ∈ w.getLast?) ∧
      (∀ c ∈ (rest ++ tail).head?, isBlank c = false → c ∈ rest.head?) ∧ AtInk w rest := by
  have hnewline : isBlank '\n' = true := by decide
  have hlast : ∀ c ∈ (pre ++ w).getLast?, isBlank c = false → c ∈ w.getLast? := by
    intro c hc hblank
    rcases List.eq_nil_or_concat' w with rfl | ⟨v, d, rfl⟩
    · rw [List.append_nil] at hc
      rcases hpre with rfl | ⟨front, rfl⟩
      · cases hc
      · rw [List.getLast?_concat] at hc
        cases hc
        exact absurd hblank (by simp [hnewline])
    · rwa [← List.append_assoc, List.getLast?_concat, ← List.getLast?_concat (l := v)] at hc
  have hfirst : ∀ c ∈ (rest ++ tail).head?, isBlank c = false → c ∈ rest.head? := by
    intro c hc hblank
    cases rest with
    | cons d r => exact hc
    | nil =>
      rcases htail with rfl | ⟨r, rfl⟩
      · cases hc
      · cases hc
        exact absurd hblank (by simp [hnewline])
  exact ⟨hlast, hfirst, h.imp (fun ⟨c, hc, hblank⟩ => ⟨c, hlast c hc hblank, hblank⟩)
    fun ⟨c, hc, hblank⟩ => ⟨c, hfirst c hc hblank, hblank⟩⟩

theorem headLines_next (x : List Char) : headLines (x ++ ['\n']) = x.splitOnP (· == '\n') := by
  rw [headLines, List.splitOnP_append_cons _ _ (by simp)]
  exact List.dropLast_concat

theorem split_append {pre : List Char} (hpre : AtStart pre) (x : List Char) :
    (pre ++ x).splitOnP (· == '\n') = headLines pre ++ x.splitOnP (· == '\n') := by
  rcases hpre with rfl | ⟨front, rfl⟩
  · rfl
  · rw [headLines_next, List.append_assoc, List.singleton_append, List.splitOnP_append_cons _ _ (by simp)]

theorem headLines_append {pre w : List Char} (hpre : AtStart pre) (hw : '\n' ∉ w) :
    headLines (pre ++ (w ++ ['\n'])) = headLines pre ++ [w] := by
  rw [← List.append_assoc, headLines_next, split_append hpre, split_last hw]

theorem sum_visible_headLines {pre : List Char} (hpre : AtStart pre) : ((headLines pre).map visible).sum = visible pre := by
  have h := sum_visible_split pre
  have hsplit := split_append hpre []
  rw [List.append_nil] at hsplit
  rw [hsplit, List.map_append, List.sum_append] at h
  simpa using h

theorem linesFrom_append (spans : List Span) (start : Nat) {pre : List Char} (hpre : AtStart pre) (xs : List (List Char)) :
    linesFrom spans start (headLines pre ++ xs) =
      linesFrom spans start (headLines pre) ++ linesFrom spans (start + size pre) xs := by
  have hlines : ∀ (front : List Char) (start : Nat),
      linesFrom spans start (front.splitOnP (· == '\n') ++ xs) =
        linesFrom spans start (front.splitOnP (· == '\n')) ++ linesFrom spans (start + size (front ++ ['\n'])) xs := by
    have hone : size ['\n'] = 1 := rfl
    intro front
    induction front using lineInduction with
    | last w hw =>
      intro start
      rw [split_last hw, List.singleton_append, linesFrom, linesFrom, linesFrom, List.singleton_append, size_append, hone,
        Nat.add_assoc]
    | next w r hw ih =>
      intro start
      have hsize : start + size w + 1 + size (r ++ ['\n']) = start + size ((w ++ '\n' :: r) ++ ['\n']) := by
        have hbreak : size ('\n' :: r) = 1 + size r := rfl
        simp only [size_append, hbreak]
        omega
      rw [split_next hw, List.cons_append, linesFrom, linesFrom, ih, hsize, List.cons_append]
  rcases hpre with rfl | ⟨front, rfl⟩
  · rfl
  · rw [headLines_next, hlines]

theorem formatBefore_append (spans : List Span) (nl : List Char) {pre w : List Char} (hpre : AtStart pre) (hw : '\n' ∉ w) :
    formatBefore spans nl (pre ++ w) =
      ((squeeze true (linesFrom spans 0 (headLines pre))).flatMap fun l => l.chars ++ nl) ++
        if inside spans (size pre) then w else expandTabs w := by
  have hown : size (pre ++ w) - size w = size pre := by
    rw [size_append]
    exact Nat.add_sub_cancel _ _
  rw [formatBefore, split_append hpre, split_last hw]
  simp only [List.dropLast_concat, List.getLastD_concat, hown]

end

/-! ## Lines that are cut -/

section
variable {w rest : List Char}

theorem content_append (h : rest ≠ []) : content (w ++ rest) = w ++ content rest := by
  obtain ⟨r, c, rfl⟩ := (List.eq_nil_or_concat' rest).resolve_left h
  by_cases hc : c = '\r'
  · subst hc
    rw [← List.append_assoc, content_append_return, content_append_return]
  · rw [content_eq_self (by simpa using hc), content_eq_self (by simpa using hc)]

theorem expandTabs_append (h : (∃ c ∈ w, isBlank c = false) ∨ ∃ c ∈ rest.head?, isBlank c = false) :
    expandTabs (w ++ rest) = expandTabs w ++ rest := by
  have htab : isBlank '\t' = true := by decide
  have hspace : isBlank ' ' = true := by decide
  have hrest : ∀ {b : Char} {r : List Char}, isBlank b = true →
      ((∃ c ∈ b :: r, isBlank c = false) ∨ ∃ c ∈ rest.head?, isBlank c = false) →
        (∃ c ∈ r, isBlank c = false) ∨ ∃ c ∈ rest.head?, isBlank c = false := by
    intro b r hb h
    refine h.imp_left ?_
    rintro ⟨c, hc, hblank⟩
    refine ⟨c, (List.mem_cons.1 hc).resolve_left ?_, hblank⟩
    rintro rfl
    exact Bool.false_ne_true (hblank.symm.trans hb)
  induction w using indentInduction with
  | nil =>
    obtain ⟨c, hc, -⟩ | ⟨c, hc, hblank⟩ := h
    · cases hc
    · obtain ⟨r, rfl⟩ := List.head?_eq_some_iff.1 hc
      refine expandTabs_other ?_ ?_ r <;> rintro rfl
      · exact Bool.false_ne_true (hblank.symm.trans htab)
      · exact Bool.false_ne_true (hblank.symm.trans hspace)
  | tab r ih => rw [List.cons_append, expandTabs_tab, ih (hrest htab h), expandTabs_tab]; rfl
  | space r ih => rw [List.cons_append, expandTabs_space, ih (hrest hspace h), expandTabs_space]; rfl
  | other c r ht hs => rw [List.cons_append, expandTabs_other ht hs, expandTabs_other ht hs]; rfl

theorem trimEnd_append (h : AtInk w rest) : trimEnd (w ++ rest) = w ++ trimEnd rest := by
  rcases h with ⟨c, hc, hblank⟩ | ⟨c, hc, hblank⟩
  · refine dropEndWhile_append_keep (fun d hd => ?_) rest
    cases hc.symm.trans hd
    exact hblank
  · obtain ⟨r, rfl⟩ := List.head?_eq_some_iff.1 hc
    have hkeep : ∀ w : List Char, trimEnd (w ++ c :: r) = w ++ c :: trimEnd r := by
      intro w
      have hlast : ∀ d ∈ (w ++ [c]).getLast?, isBlank d = false := by simpa using hblank
      simpa [trimEnd] using dropEndWhile_append_keep hlast r
    rw [hkeep w]
    exact congrArg (w ++ ·) (hkeep []).symm

theorem ne_return {c : Char} (h : isBlank c = false) : c ≠ '\r' := by
  rintro rfl
  exact absurd h (by decide)

theorem AtInk.content_append (h : AtInk w rest) : content (w ++ rest) = w ++ content rest := by
  by_cases hrest : rest = []
  · subst hrest
    obtain ⟨c, hc, hblank⟩ | ⟨c, hc, -⟩ := h
    · have hlast : w.getLast? ≠ some '\r' := fun he => ne_return hblank (Option.some.inj (hc.symm.trans he))
      rw [List.append_nil, content_eq_self hlast]
      exact (List.append_nil w).symm
    · cases hc
  · exact Layout.content_append hrest

theorem mem_head?_content {c : Char} (hc : c ∈ rest.head?) (hblank : isBlank c = false) : c ∈ (content rest).head? := by
  obtain ⟨r, rfl⟩ := List.head?_eq_some_iff.1 hc
  have hstart : AtInk [c] r := .inl ⟨c, rfl, hblank⟩
  rw [← List.singleton_append, hstart.content_append]
  rfl

theorem mem_head?_trimEnd {c : Char} (hc : c ∈ rest.head?) (hblank : isBlank c = false) : c ∈ (trimEnd rest).head? := by
  obtain ⟨r, rfl⟩ := List.head?_eq_some_iff.1 hc
  rw [trimEnd_cons, if_neg (by simp [hblank])]
  rfl

theorem mem_getLast?_expandTabs {c : Char} (hc : c ∈ w.getLast?) (hblank : isBlank c = false) :
    c ∈ (expandTabs w).getLast? := by
  obtain ⟨front, rfl⟩ := List.getLast?_eq_some_iff.1 hc
  rw [expandTabs_append (.inr ⟨c, rfl, hblank⟩)]
  exact List.getLast?_concat

theorem AtInk.content (h : AtInk w rest) : AtInk w (content rest) :=
  h.imp_right fun ⟨c, hc, hblank⟩ => ⟨c, mem_head?_content hc hblank, hblank⟩

theorem AtInk.expandTabs (h : AtInk w rest) : AtInk (expandTabs w) rest :=
  h.imp_left fun ⟨c, hc, hblank⟩ => ⟨c, mem_getLast?_expandTabs hc hblank, hblank⟩

/-- A line in its new form, cut at a point that has a character that is no blank on one of its sides. -/
theorem chars_reform (keepStart keepEnd : Bool) (h : AtInk w rest) : (reform keepStart keepEnd (w ++ rest)).chars =
    (if keepStart then w else expandTabs w) ++ if keepEnd then content rest else trimEnd (content rest) := by
  have hexpand : expandTabs (w ++ content rest) = expandTabs w ++ content rest := by
    refine expandTabs_append (h.content.imp_left ?_)
    rintro ⟨c, hc, hblank⟩
    exact ⟨c, List.mem_of_getLast? hc, hblank⟩
  rw [reform, h.content_append, hexpand]
  cases keepStart <;> cases keepEnd
  · exact trimEnd_append h.content.expandTabs
  · rfl
  · exact trimEnd_append h.content
  · rfl

end

/-! ## Lines that stay -/

section
variable {l : Line}

theorem squeeze_append {above : Bool} (hl : l.isBlank = false) (xs ys : List Line) :
    squeeze above (xs ++ l :: ys) = squeeze above xs ++ l :: squeeze false ys := by
  induction xs generalizing above with
  | nil => simp [squeeze, hl]
  | cons x xs ih =>
    rw [List.cons_append, squeeze, squeeze, ih, ih]
    split
    · rfl
    · rw [List.cons_append]

theorem dropEnd_append (hl : l.isBlank = false) (xs ys : List Line) : dropEnd (xs ++ l :: ys) = xs ++ l :: dropEnd ys := by
  induction xs with
  | nil => rw [List.nil_append, dropEnd_cons, if_neg (by simp [hl])]; rfl
  | cons x xs ih => rw [List.cons_append, dropEnd_cons, ih, if_neg (by simp), List.cons_append]

theorem not_blank_of_ink (h : ink l.chars ≠ []) : l.isBlank = false := by
  cases hl : l.isBlank with
  | true => exact absurd (ink_of_isBlank hl) h
  | false => rfl

end

/-! ## Points in the formatted text -/

section
variable {cs a b : List Char} (spans : List Span)

theorem ink_formatBefore {nl : List Char} (hnl : ink nl = []) (a : List Char) : ink (formatBefore spans nl a) = ink a := by
  obtain ⟨pre, w, rfl, hpre, hw⟩ := exists_own a
  have hlines : (headLines pre).flatMap ink = ink pre := by
    have h := ink_split pre
    have hsplit := split_append hpre []
    rw [List.append_nil] at hsplit
    rw [hsplit, List.flatMap_append] at h
    simpa using h
  have hown : ink (if inside spans (size pre) then w else expandTabs w) = ink w := by
    split
    · rfl
    · exact ink_expandTabs w
  rw [formatBefore_append spans nl hpre hw, ink_append, ink_flatMap hnl, shown_squeeze, shown_linesFrom, hlines, hown,
    ink_append]

/-- A point with a character that is no blank on one of its sides is a point of the formatted text, and keeps it. -/
theorem exists_point (hcs : cs = a ++ b) (h : AtInk a b) :
    ∃ b', formatChars cs spans = formatBefore spans (newlineOf cs) a ++ b' ∧
      (∀ c ∈ a.getLast?, isBlank c = false → c ∈ (formatBefore spans (newlineOf cs) a).getLast?) ∧
      ∀ c ∈ b.head?, isBlank c = false → c ∈ b'.head? := by
  obtain ⟨pre, w, rfl, hpre, hw⟩ := exists_own a
  obtain ⟨rest, tail, rfl, hrest, htail⟩ := exists_rest b
  obtain ⟨hlast, hfirst, hown⟩ := h.own hpre htail
  obtain ⟨more, hsplit⟩ : ∃ more, cs.splitOnP (· == '\n') = headLines pre ++ (w ++ rest) :: more := by
    have hline : '\n' ∉ w ++ rest := fun hmem => (List.mem_append.1 hmem).elim hw hrest
    rw [hcs, List.append_assoc, ← List.append_assoc w, split_append hpre]
    rcases htail with rfl | ⟨r, rfl⟩
    · exact ⟨[], by rw [List.append_nil, split_last hline]⟩
    · exact ⟨r.splitOnP (· == '\n'), by rw [split_next hline]⟩
  have hink : ink (w ++ rest) ≠ [] := fun hnil => by
    rcases hown with ⟨c, hc, hblank⟩ | ⟨c, hc, hblank⟩
    · exact Bool.false_ne_true (hblank.symm.trans (ink_eq_nil_iff.1 hnil c (List.mem_append_left _ (List.mem_of_getLast? hc))))
    · exact Bool.false_ne_true (hblank.symm.trans (ink_eq_nil_iff.1 hnil c (List.mem_append_right _ (List.mem_of_head? hc))))
  have hempty : ¬ (Text.trim cs).isEmpty = true := fun he => hink (by
    have hnil := ink_of_trim_isEmpty he
    rw [hcs, List.append_assoc, ← List.append_assoc w, ink_append, ink_append] at hnil
    exact (List.append_eq_nil_iff.1 (List.append_eq_nil_iff.1 hnil).2).1)
  generalize hnl : newlineOf cs = nl
  obtain ⟨ks, ke, hl⟩ : ∃ ks ke, ks = inside spans (size pre) ∧ line spans (size pre) (w ++ rest) = reform ks ke (w ++ rest) :=
    ⟨_, _, rfl, line_eq spans (size pre) (w ++ rest)⟩
  have hblank : (line spans (size pre) (w ++ rest)).isBlank = false := not_blank_of_ink (by rwa [hl.2, ink_reform])
  refine ⟨(if ke then content rest else trimEnd (content rest)) ++ (nl ++
    (dropEnd (squeeze false (linesFrom spans (size pre + size (w ++ rest) + 1) more))).flatMap fun l => l.chars ++ nl), ?_, ?_, ?_⟩
  · rw [formatChars, if_neg hempty, hsplit, linesFrom_append spans 0 hpre, linesFrom, Nat.zero_add, squeeze_append hblank,
      dropEnd_append hblank, List.flatMap_append, List.flatMap_cons, hnl, hl.2, chars_reform ks ke hown,
      formatBefore_append spans nl hpre hw, ← hl.1]
    simp only [List.append_assoc]
  · intro c hc hcblank
    rw [formatBefore_append spans nl hpre hw, List.getLast?_append]
    have hw := hlast c hc hcblank
    split
    · rw [Option.mem_def.1 hw]; rfl
    · rw [Option.mem_def.1 (mem_getLast?_expandTabs hw hcblank)]; rfl
  · intro c hc hcblank
    have hrest := mem_head?_content (hfirst c hc hcblank) hcblank
    rw [List.head?_append]
    split
    · rw [Option.mem_def.1 hrest]; rfl
    · rw [Option.mem_def.1 (mem_head?_trimEnd hrest hcblank)]; rfl

end

/-! ## Stretches in the formatted text -/

section
variable {cs x mid y : List Char} {s : Span} (spans : List Span)

/-- What becomes of a stretch, and of what is before and behind it. -/
structure Carriage (spans : List Span) (cs x mid x' mid' y' : List Char) : Prop where
  text : formatChars cs spans = x' ++ (mid' ++ y')
  before : x' = formatBefore spans (newlineOf cs) x
  held : x' ++ mid' = formatBefore spans (newlineOf cs) (x ++ mid)
  tight : isTight mid' = true

theorem exists_carriage (hcs : cs = x ++ (mid ++ y)) (htight : isTight mid = true) :
    ∃ x' mid' y', Carriage spans cs x mid x' mid' y' := by
  obtain ⟨b, hstart, -, hfirst⟩ := exists_point spans hcs (atInk_start htight)
  obtain ⟨y', hstop, hlast, -⟩ := exists_point spans (hcs.trans (List.append_assoc x mid y).symm) (atInk_stop htight)
  have hink := ink_formatBefore spans (ink_newlineOf cs)
  have hmore : ¬ visible (formatBefore spans (newlineOf cs) (x ++ mid)) ≤ visible (formatBefore spans (newlineOf cs) x) := by
    obtain ⟨c, hc, hblank⟩ := (isTight_iff.1 htight).1
    have hpos : 0 < visible mid := List.countP_pos_iff.2 ⟨c, List.mem_of_head? hc, by simp [hblank]⟩
    rw [visible_congr (hink (x ++ mid)), visible_congr (hink x), visible_append]
    omega
  have hle : size (formatBefore spans (newlineOf cs) x) ≤ size (formatBefore spans (newlineOf cs) (x ++ mid)) :=
    (Nat.le_total _ _).resolve_right fun hle => hmore (visible_le_of_size_le (hstop.symm.trans hstart) hle)
  obtain ⟨mid', hmid, rfl⟩ := exists_mid_of_size_le (hstart.symm.trans hstop) hle
  have hne : mid' ≠ [] := by
    rintro rfl
    rw [hmid, List.append_nil] at hmore
    exact hmore (Nat.le_refl _)
  refine ⟨_, mid', y', hstart, rfl, hmid.symm, isTight_iff.2 ⟨?_, ?_⟩⟩
  · obtain ⟨c, hc, hblank⟩ := (isTight_iff.1 htight).1
    refine ⟨c, ?_, hblank⟩
    have hc' := hfirst c (by rw [List.head?_append, Option.mem_def.1 hc]; rfl) hblank
    rwa [List.head?_append_of_ne_nil _ hne] at hc'
  · obtain ⟨c, hc, hblank⟩ := (isTight_iff.1 htight).2
    refine ⟨c, ?_, hblank⟩
    have hc' := hlast c (by rw [List.getLast?_append, Option.mem_def.1 hc]; rfl) hblank
    rwa [hmid, List.getLast?_append_of_ne_nil _ hne] at hc'

theorem Carriage.ink {x' mid' y' : List Char} (h : Carriage spans cs x mid x' mid' y') : ink x' = ink x ∧ ink mid' = ink mid := by
  have hx : Text.ink x' = Text.ink x := by rw [h.before, ink_formatBefore spans (ink_newlineOf cs)]
  have hmid := congrArg Text.ink h.held
  rw [ink_formatBefore spans (ink_newlineOf cs), ink_append, ink_append, hx] at hmid
  exact ⟨hx, List.append_cancel_left hmid⟩

theorem carry_size (a b : List Char) : carry (a ++ b) spans (size a) = size (formatBefore spans (newlineOf (a ++ b)) a) := by
  rw [carry, splitAt?_append]
  rfl

/-- Where a stretch is in the formatted text. -/
theorem Carriage.carried {x' mid' y' : List Char} (h : Carriage spans cs x mid x' mid' y') (hcs : cs = x ++ (mid ++ y))
    (hx : size x = s.start) (hmid : size (x ++ mid) = s.stop) :
    (carried cs spans s).start = size x' ∧ (carried cs spans s).stop = size (x' ++ mid') := by
  have hstart : carry cs spans s.start = size x' := by
    rw [hcs, ← hx, carry_size, ← hcs, h.before]
  have hstop : carry cs spans s.stop = size (x' ++ mid') := by
    rw [hcs, ← List.append_assoc, ← hmid, carry_size, List.append_assoc, ← hcs, h.held]
  have hle : size x' ≤ size (x' ++ mid') := by
    rw [size_append]
    exact Nat.le_add_right _ _
  rw [Layout.carried, hstart, hstop]
  exact ⟨rfl, Span.stop_ofBounds hle⟩

/-- Formatting carries a stretch to where the same stands. -/
theorem sameStretch_carried (hs : isStretch cs s = true) :
    SameStretch cs s (formatChars cs spans) (carried cs spans s) := by
  obtain ⟨x, mid, y, hcs, hx, hmid, htight⟩ := isStretch_iff.1 hs
  obtain ⟨x', mid', y', h⟩ := exists_carriage spans hcs htight
  obtain ⟨hstart, hstop⟩ := h.carried spans hcs hx hmid
  obtain ⟨hinkx, hinkmid⟩ := h.ink
  refine ⟨hs, isStretch_iff.2 ⟨x', mid', y', h.text, hstart.symm, hstop.symm, h.tight⟩, ?_, ?_⟩
  · rw [hstart, h.text, splitAt?_append, ← hx, hcs, splitAt?_append, Option.map_some, Option.map_some, hinkx]
  · rw [hstart, hstop, h.text, slice?_parts, ← hx, ← hmid, hcs, slice?_parts, Option.map_some, Option.map_some, hinkmid]

/-! ## Formatting again -/

/-- Where spans begin and end, as one sees it. -/
def places (cs : List Char) (spans : List Span) : List (Nat × Nat) :=
  spans.map fun s => (visibleBefore cs s.start, visibleBefore cs s.stop)

end

section
variable {cs a b : List Char} {spans : List Span}

theorem visibleBefore_parts {x mid y : List Char} {s : Span} (hcs : cs = x ++ (mid ++ y)) (hx : size x = s.start)
    (hmid : size (x ++ mid) = s.stop) : visibleBefore cs s.start = visible x ∧ visibleBefore cs s.stop = visible (x ++ mid) := by
  constructor
  · rw [hcs, ← hx, visibleBefore_append]
  · rw [hcs, ← List.append_assoc, ← hmid, visibleBefore_append]

/-- What is in a stretch can be told from what one sees. -/
theorem inside_eq_places (h : ∀ s ∈ spans, isStretch cs s = true) (hcs : cs = a ++ b) :
    inside spans (size a) = insideAt (places cs spans) (visible a) := by
  rw [inside, insideAt, places, List.any_map]
  refine any_eq_of_forall₂ (List.forall₂_same.2 fun s hs => ?_)
  obtain ⟨x, mid, y, hparts, hx, hmid, htight⟩ := isStretch_iff.1 (h s hs)
  obtain ⟨hstart, hstop⟩ := visibleBefore_parts hparts hx hmid
  rw [Function.comp_apply, hstart, hstop, ← hx, ← hmid, Bool.eq_iff_iff]
  simpa only [Bool.and_eq_true, decide_eq_true_eq] using inside_iff htight (hcs ▸ hparts)

theorem formatChars_eq_formatAt (h : ∀ s ∈ spans, isStretch cs s = true) : formatChars cs spans = formatAt (places cs spans) cs :=
  formatChars_eq fun hcs _ => inside_eq_places h hcs

theorem places_le (h : ∀ s ∈ spans, isStretch cs s = true) : ∀ p ∈ places cs spans, p.2 ≤ visible cs := by
  intro p hp
  obtain ⟨s, hs, rfl⟩ := List.mem_map.1 hp
  obtain ⟨x, mid, y, hparts, hx, hmid, -⟩ := isStretch_iff.1 (h s hs)
  dsimp only
  rw [(visibleBefore_parts hparts hx hmid).2, hparts, visible_append x, visible_append x, visible_append mid]
  omega

/-- As many characters that are no blanks stand before the ends of stretches as before. -/
theorem places_carried (h : ∀ s ∈ spans, isStretch cs s = true) :
    places (formatChars cs spans) (spans.map (carried cs spans)) = places cs spans := by
  rw [places, places, List.map_map]
  refine List.map_congr_left fun s hs => ?_
  obtain ⟨x, mid, y, hcs, hx, hmid, htight⟩ := isStretch_iff.1 (h s hs)
  obtain ⟨x', mid', y', hcarriage⟩ := exists_carriage spans hcs htight
  obtain ⟨hstart, hstop⟩ := hcarriage.carried spans hcs hx hmid
  obtain ⟨hinkx, hinkmid⟩ := hcarriage.ink
  obtain ⟨hold, hold'⟩ := visibleBefore_parts hcs hx hmid
  obtain ⟨hnew, hnew'⟩ := visibleBefore_parts hcarriage.text hstart.symm hstop.symm
  rw [Function.comp_apply, hold, hold', hnew, hnew', visible_append, visible_append, visible_congr hinkx, visible_congr hinkmid]

theorem isStretch_carried (h : ∀ s ∈ spans, isStretch cs s = true) :
    ∀ t ∈ spans.map (carried cs spans), isStretch (formatChars cs spans) t = true := by
  intro t ht
  obtain ⟨s, hs, rfl⟩ := List.mem_map.1 ht
  exact (sameStretch_carried spans (h s hs)).new

/-- A text that has been formatted is left as it is, when its stretches are carried along. -/
theorem formatChars_carried (h : ∀ s ∈ spans, isStretch cs s = true) :
    formatChars (formatChars cs spans) (spans.map (carried cs spans)) = formatChars cs spans := by
  rw [formatChars_eq_formatAt (isStretch_carried h), places_carried h, formatChars_eq_formatAt h, formatAt_formatAt (places_le h)]

theorem toList_formatText (source : String) (spans : List Span) :
    (formatText source spans).toList = formatChars source.toList spans := String.toList_ofList

/-- Formatting a text again changes nothing. The spans may even overlap; without spans nothing is assumed of the text. -/
theorem formatText_again (source : String) (spans : List Span) (h : ∀ s ∈ spans, isStretch source.toList s = true) :
    (∀ s ∈ spans, SameStretch source.toList s (formatText source spans).toList (carried source.toList spans s)) ∧
      formatText (formatText source spans) (spans.map (carried source.toList spans)) = formatText source spans := by
  refine ⟨fun s hs => ?_, ?_⟩
  · rw [toList_formatText]
    exact sameStretch_carried spans (h s hs)
  · rw [formatText, toList_formatText, formatChars_carried h, formatText]

end

/-- Blanks at the ends of a literal's lines, in a text with line breaks of both kinds. -/
def ragged : String := "\r\n\n\tvar s = @\"a \n\n\n\tb\" ; \r\n \t\n\nz"

theorem formatText_again_ragged : (∀ s ∈ [Span.mk 12 10], isStretch ragged.toList s = true) ∧
    formatText ragged [⟨12, 10⟩] = "    var s = @\"a \r\n\r\n\r\n\tb\" ;\r\n\r\nz\r\n" ∧
      carried ragged.toList [⟨12, 10⟩] ⟨12, 10⟩ = ⟨12, 13⟩ ∧
        formatText (formatText ragged [⟨12, 10⟩]) [⟨12, 13⟩] = formatText ragged [⟨12, 10⟩] := by
  have hstretch : ∀ s ∈ [Span.mk 12 10], isStretch ragged.toList s = true := by decide +kernel
  have hcarried : carried ragged.toList [⟨12, 10⟩] ⟨12, 10⟩ = ⟨12, 13⟩ := by decide +kernel
  refine ⟨hstretch, by decide +kernel, hcarried, ?_⟩
  have hagain := (formatText_again ragged [⟨12, 10⟩] hstretch).2
  rwa [List.map_singleton, hcarried] at hagain

end Workbench.CSharp.Layout
