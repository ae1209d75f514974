import Mathlib.Algebra.Ring.Nat
import Workbench.CSharp.Layout
import Workbench.Proofs.Wording

/-!
# Layout that stays

Whether an end of a line lies in a literal can be told from how many
characters that are no blanks stand before it, and formatting moves blanks
only. So a text that has been formatted is left as it is by the next time.
-/

namespace Workbench

namespace Text

/-! ## Lines of a text -/

section
variable {w cs r : List Char} {n : Nat}

/-- The characters that are no blanks. -/
def ink (cs : List Char) : List Char := cs.filter (!isBlank ·)

@[simp] theorem ink_nil : ink [] = [] := rfl

@[simp] theorem ink_append (a b : List Char) : ink (a ++ b) = ink a ++ ink b := List.filter_append a b

theorem ink_eq_nil_iff : ink cs = [] ↔ ∀ c ∈ cs, isBlank c = true := by
  rw [ink, List.filter_eq_nil_iff]
  simp

/-- How many characters are no blanks. -/
def visible (cs : List Char) : Nat := cs.countP (!isBlank ·)

theorem visible_eq_length_ink (cs : List Char) : visible cs = (ink cs).length := List.countP_eq_length_filter

@[simp] theorem visible_nil : visible [] = 0 := rfl

@[simp] theorem visible_append (a b : List Char) : visible (a ++ b) = visible a + visible b := List.countP_append

theorem visible_congr {ds : List Char} (h : ink cs = ink ds) : visible cs = visible ds := by
  rw [visible_eq_length_ink, visible_eq_length_ink, h]

theorem visible_eq_zero_iff : visible cs = 0 ↔ ∀ c ∈ cs, isBlank c = true := by
  rw [visible, List.countP_eq_zero]
  simp

/-- A text is made of lines with line breaks between them. -/
theorem lineInduction {motive : List Char → Prop} (last : ∀ w, '\n' ∉ w → motive w)
    (next : ∀ w r, '\n' ∉ w → motive r → motive (w ++ '\n' :: r)) (cs : List Char) : motive cs := by
  have hout : ∀ w : List Char, (∀ c ∈ w, (c != '\n') = true) → '\n' ∉ w := fun _ hw hmem => by simpa using hw _ hmem
  induction cs using runInduction (p := (· != '\n')) with
  | nil => exact last [] List.not_mem_nil
  | gap a r ha ih =>
    cases (by simpa using ha : a = '\n')
    exact next [] r List.not_mem_nil ih
  | single w _ hall => exact last w (hout w hall)
  | next w a r _ hall ha ih =>
    cases (by simpa using ha : a = '\n')
    exact next w r (hout w hall) ih

theorem split_last (hw : '\n' ∉ w) : w.splitOnP (· == '\n') = [w] :=
  List.splitOnP_eq_singleton fun _ hc => beq_eq_false_iff_ne.2 fun he => hw (he ▸ hc)

theorem split_next (hw : '\n' ∉ w) (r : List Char) :
    (w ++ '\n' :: r).splitOnP (· == '\n') = w :: r.splitOnP (· == '\n') := by
  rw [List.splitOnP_append_cons _ _ (by simp), split_last hw]
  rfl

/-! ## Trimming -/

theorem ink_trimEnd (cs : List Char) : ink (trimEnd cs) = ink cs := by
  obtain ⟨back, hcs, hback⟩ := dropEndWhile_eq_append isBlank cs
  conv_rhs => rw [hcs, ink_append, ink_eq_nil_iff.2 hback, List.append_nil]
  rfl

theorem ink_trim (cs : List Char) : ink (trim cs) = ink cs := by
  have hnil : ink (cs.takeWhile isBlank) = [] := ink_eq_nil_iff.2 fun c hc => List.mem_takeWhile_imp hc
  have hsplit := congrArg ink (List.takeWhile_append_dropWhile (p := isBlank) (l := cs))
  rw [ink_append, hnil, List.nil_append] at hsplit
  rw [trim, ink_trimEnd, trimStart, hsplit]

theorem visible_trim (cs : List Char) : visible (trim cs) = visible cs := visible_congr (ink_trim cs)

theorem trim_isEmpty_iff : (trim cs).isEmpty = true ↔ visible cs = 0 := by
  rw [List.isEmpty_iff, ← visible_trim]
  refine ⟨fun h => by rw [h]; rfl, fun h => ?_⟩
  by_contra hne
  obtain ⟨c, hc⟩ := List.exists_mem_of_ne_nil _ hne
  have hfirst := (tidy_trim cs).first
  cases ht : trim cs with
  | nil => exact hne ht
  | cons d r =>
    have hd := hfirst d (by rw [ht]; rfl)
    have := visible_eq_zero_iff.1 h d (by rw [ht]; exact List.mem_cons_self)
    rw [hd] at this
    cases this

theorem trimEnd_trimEnd (cs : List Char) : trimEnd (trimEnd cs) = trimEnd cs := by
  rw [trimEnd, trimEnd, dropEndWhile_eq, dropEndWhile_eq, List.rdropWhile_idempotent]

theorem mem_of_mem_trimEnd {c : Char} (h : c ∈ trimEnd cs) : c ∈ cs := mem_of_mem_dropEndWhile h

theorem getLast?_trimEnd {c : Char} (h : (trimEnd cs).getLast? = some c) : isBlank c = false := getLast?_dropEndWhile h

theorem trimEnd_cons (c : Char) (r : List Char) :
    trimEnd (c :: r) = if trimEnd r = [] ∧ isBlank c = true then [] else c :: trimEnd r := by
  rw [trimEnd, dropEndWhile]
  rw [trimEnd]
  rcases dropEndWhile isBlank r with _ | ⟨d, r'⟩
  · by_cases hc : isBlank c = true <;> simp [hc]
  · simp

end

end Text

namespace CSharp.Layout

open Text

/-! ## Line breaks -/

section
variable {w cs r : List Char}

theorem hasPairs_cons (c : Char) (r : List Char) : hasPairs (c :: r) = (c == '\r' && r.head? == some '\n' || hasPairs r) := rfl

theorem hasPairs_next (hw : '\n' ∉ w) (r : List Char) :
    hasPairs (w ++ '\n' :: r) = (w.getLast? == some '\r' || hasPairs r) := by
  induction w with
  | nil => rfl
  | cons c w ih =>
    have hw' : '\n' ∉ w := fun h => hw (List.mem_cons_of_mem c h)
    rw [List.cons_append, hasPairs_cons, ih hw']
    cases w with
    | nil => simp
    | cons d w =>
      have hd : d ≠ '\n' := fun he => hw' (he ▸ List.mem_cons_self)
      rw [List.getLast?_cons_cons]
      simp [hd]

/-! ## Tabs -/

theorem expandTabs_tab (r : List Char) : expandTabs ('\t' :: r) = ' ' :: ' ' :: ' ' :: ' ' :: expandTabs r := rfl

theorem expandTabs_space (r : List Char) : expandTabs (' ' :: r) = ' ' :: expandTabs r := rfl

theorem expandTabs_other {c : Char} (ht : c ≠ '\t') (hs : c ≠ ' ') (r : List Char) : expandTabs (c :: r) = c :: r := by
  rw [expandTabs, if_neg (by simpa using ht), if_neg (by simpa using hs)]

/-- The beginning of a line is made of tabs and spaces. -/
theorem indentInduction {motive : List Char → Prop} (nil : motive []) (tab : ∀ r, motive r → motive ('\t' :: r))
    (space : ∀ r, motive r → motive (' ' :: r)) (other : ∀ c r, c ≠ '\t' → c ≠ ' ' → motive (c :: r)) (cs : List Char) :
    motive cs := by
  induction cs with
  | nil => exact nil
  | cons c r ih =>
    by_cases ht : c = '\t'
    · exact ht ▸ tab r ih
    · by_cases hs : c = ' '
      · exact hs ▸ space r ih
      · exact other c r ht hs

theorem ink_expandTabs (cs : List Char) : ink (expandTabs cs) = ink cs := by
  have htab : isBlank '\t' = true := by decide
  have hspace : isBlank ' ' = true := by decide
  induction cs using indentInduction with
  | nil => rfl
  | tab r ih => simpa [expandTabs_tab, ink, htab, hspace] using ih
  | space r ih => simpa [expandTabs_space, ink, hspace] using ih
  | other c r ht hs => rw [expandTabs_other ht hs]

theorem expandTabs_expandTabs (cs : List Char) : expandTabs (expandTabs cs) = expandTabs cs := by
  induction cs using indentInduction with
  | nil => rfl
  | tab r ih => simp only [expandTabs_tab, expandTabs_space, ih]
  | space r ih => simp only [expandTabs_space, ih]
  | other c r ht hs => rw [expandTabs_other ht hs, expandTabs_other ht hs]

/-- Trimming the end brings no tab to the beginning. -/
theorem expandTabs_trimEnd (h : expandTabs cs = cs) : expandTabs (trimEnd cs) = trimEnd cs := by
  induction cs using indentInduction with
  | nil => rfl
  | tab r _ => cases h
  | space r ih =>
    rw [expandTabs_space, List.cons.injEq] at h
    rw [trimEnd_cons]
    split
    · rfl
    · rw [expandTabs_space, ih h.2]
  | other c r ht hs =>
    rw [trimEnd_cons]
    split
    · rfl
    · rw [expandTabs_other ht hs]

theorem mem_of_mem_expandTabs {c : Char} (h : c ∈ expandTabs cs) : c ∈ cs ∨ c = ' ' := by
  induction cs using indentInduction with
  | nil => cases h
  | tab r ih =>
    simp only [expandTabs_tab, List.mem_cons] at h ⊢
    tauto
  | space r ih =>
    simp only [expandTabs_space, List.mem_cons] at h ⊢
    tauto
  | other d r ht hs => exact .inl (expandTabs_other ht hs r ▸ h)

theorem getLast?_expandTabs (h : cs.getLast? ≠ some '\r') : (expandTabs cs).getLast? ≠ some '\r' := by
  have hlast : ∀ (c : Char) (r : List Char), c ≠ '\r' → r.getLast? ≠ some '\r' → (c :: r).getLast? ≠ some '\r' := by
    intro c r hc hr
    cases r with
    | nil => simpa using hc
    | cons d r => rwa [List.getLast?_cons_cons]
  have hrest : ∀ (c : Char) (r : List Char), (c :: r).getLast? ≠ some '\r' → r.getLast? ≠ some '\r' := by
    intro c r hr
    cases r with
    | nil => simp
    | cons d r => rwa [List.getLast?_cons_cons] at hr
  have hspace : ' ' ≠ '\r' := by decide
  induction cs using indentInduction with
  | nil => exact h
  | tab r ih =>
    exact hlast _ _ hspace (hlast _ _ hspace (hlast _ _ hspace (hlast _ _ hspace (ih (hrest _ _ h)))))
  | space r ih => exact hlast _ _ hspace (ih (hrest _ _ h))
  | other c r ht hs => rwa [expandTabs_other ht hs]

/-! ## The content of a line -/

theorem content_append_return (cs : List Char) : content (cs ++ ['\r']) = cs := by
  rw [content, if_pos (by simp), List.dropLast_concat]

theorem content_eq_self (h : cs.getLast? ≠ some '\r') : content cs = cs := by
  rw [content, if_neg (by simpa using h)]

theorem content_cases (raw : List Char) : raw = content raw ∨ raw = content raw ++ ['\r'] := by
  rw [content]
  split
  · rename_i h
    exact .inr (List.dropLast_append_getLast? _ (by simpa using h)).symm
  · exact .inl rfl

theorem ink_content (raw : List Char) : ink (content raw) = ink raw := by
  rcases content_cases raw with h | h
  · rw [← h]
  · conv_rhs => rw [h, ink_append]
    exact (List.append_nil _).symm

/-- A line in its new form, when it is known which of its ends lie in a literal. -/
def reform (keepStart keepEnd : Bool) (raw : List Char) : Line :=
  let cs := if keepStart then content raw else expandTabs (content raw)
  ⟨if keepEnd then cs else trimEnd cs, keepStart || keepEnd⟩

theorem ink_reform (keepStart keepEnd : Bool) (raw : List Char) : ink (reform keepStart keepEnd raw).chars = ink raw := by
  rw [reform]
  dsimp only
  split <;> split <;> simp only [ink_trimEnd, ink_expandTabs, ink_content]

theorem line_eq (spans : List Span) (start : Nat) (raw : List Char) :
    line spans start raw = reform (inside spans start) (inside spans (start + size (content raw))) raw := rfl

end

/-! ## Lines at their places -/

/-- Whether a place lies in a literal. Places count characters that are no blanks. -/
def insideAt (places : List (Nat × Nat)) (v : Nat) : Bool := places.any fun p => p.1 < v && v < p.2

theorem insideAt_of_le {places : List (Nat × Nat)} {v : Nat} (h : ∀ p ∈ places, p.2 ≤ v) : insideAt places v = false := by
  rw [insideAt, List.any_eq_false]
  intro p hp
  have := h p hp
  simp only [Bool.and_eq_true, decide_eq_true_eq, not_and, Nat.not_lt]
  exact fun _ => this

/-- The line at a place, in its new form. -/
def lineAt (places : List (Nat × Nat)) (v : Nat) (raw : List Char) : Line :=
  let cs := if insideAt places v then content raw else expandTabs (content raw)
  ⟨if insideAt places (v + visible raw) then cs else trimEnd cs, insideAt places v || insideAt places (v + visible raw)⟩

def linesAt (places : List (Nat × Nat)) (v : Nat) : List (List Char) → List Line
  | [] => []
  | raw :: rest => lineAt places v raw :: linesAt places (v + visible raw) rest

/-- The new form of a text whose literals are at the given places. -/
def formatAt (places : List (Nat × Nat)) (cs : List Char) : List Char :=
  if (Text.trim cs).isEmpty then []
  else (dropEnd (squeeze true (linesAt places 0 (cs.splitOnP (· == '\n'))))).flatMap fun l => l.chars ++ newlineOf cs

/-- A line as it is written, up to the line break. `cr` is what stands before each. -/
def Line.raw (cr : List Char) (l : Line) : List Char := l.chars ++ cr

section
variable {places : List (Nat × Nat)} {v : Nat} {raw cr : List Char} {l : Line} {ls : List Line}

theorem lineAt_eq (places : List (Nat × Nat)) (v : Nat) (raw : List Char) :
    lineAt places v raw = reform (insideAt places v) (insideAt places (v + visible raw)) raw := rfl

theorem visible_lineAt (places : List (Nat × Nat)) (v : Nat) (raw : List Char) :
    visible (lineAt places v raw).chars = visible raw := visible_congr (ink_reform _ _ raw)

theorem newline_not_mem_lineAt (h : '\n' ∉ raw) : '\n' ∉ (lineAt places v raw).chars := by
  have hcontent : '\n' ∉ content raw := fun hmem => h (by
    rcases content_cases raw with he | he
    · exact he ▸ hmem
    · exact he ▸ List.mem_append_left _ hmem)
  have hexpand : '\n' ∉ expandTabs (content raw) := fun hmem => by
    rcases mem_of_mem_expandTabs hmem with hmem | he
    · exact hcontent hmem
    · cases he
  rw [lineAt]
  dsimp only
  split <;> split
  · exact hcontent
  · exact hexpand
  · exact fun hmem => hcontent (mem_of_mem_trimEnd hmem)
  · exact fun hmem => hexpand (mem_of_mem_trimEnd hmem)

/-- The new form of a line is a new form already. -/
theorem lineAt_raw (hcr : visible cr = 0)
    (hcontent : content ((lineAt places v raw).raw cr) = (lineAt places v raw).chars) :
    lineAt places v ((lineAt places v raw).raw cr) = lineAt places v raw := by
  have hvisible : visible ((lineAt places v raw).raw cr) = visible raw := by
    rw [Line.raw, visible_append, visible_lineAt, hcr, Nat.add_zero]
  conv_lhs => rw [lineAt, hvisible, hcontent]
  rw [lineAt]
  dsimp only
  cases insideAt places v <;> cases insideAt places (v + visible raw)
  · simp only [if_false, Bool.false_eq_true]
    rw [expandTabs_trimEnd (expandTabs_expandTabs _), trimEnd_trimEnd]
  · simp only [if_false, if_true, Bool.false_eq_true]
    rw [expandTabs_expandTabs]
  · simp only [if_false, if_true, Bool.false_eq_true]
    rw [trimEnd_trimEnd]
  · simp only [if_true]

/-- No line ends with a carriage return when line breaks have none and no literal ends behind the text. -/
theorem getLast?_linesAt {cs : List Char} (hpairs : hasPairs cs = false) (hplaces : ∀ p ∈ places, p.2 ≤ v + visible cs) :
    ∀ l ∈ linesAt places v (cs.splitOnP (· == '\n')), l.chars.getLast? ≠ some '\r' := by
  have hreturn : ∀ ds : List Char, (trimEnd ds).getLast? ≠ some '\r' := fun ds he => by
    have := getLast?_trimEnd he
    revert this
    decide
  induction cs using lineInduction generalizing v with
  | last w hw =>
    intro l hl
    rw [split_last hw, linesAt, linesAt, List.mem_singleton] at hl
    rw [hl, lineAt, insideAt_of_le hplaces]
    exact hreturn _
  | next w r hw ih =>
    rw [hasPairs_next hw, Bool.or_eq_false_iff, beq_eq_false_iff_ne] at hpairs
    rw [split_next hw, linesAt, List.forall_mem_cons]
    refine ⟨?_, ih hpairs.2 fun p hp => ?_⟩
    · rw [lineAt, content_eq_self hpairs.1]
      dsimp only
      split
      · split
        · exact hpairs.1
        · exact getLast?_expandTabs hpairs.1
      · exact hreturn _
    · have := hplaces p hp
      have hbreak : visible ('\n' :: r) = visible r := rfl
      rw [visible_append, hbreak] at this
      omega

/-! ## Lines that stay -/

/-- Lines that are their own new form, written with `cr` before each line break. -/
def Steady (places : List (Nat × Nat)) (cr : List Char) (v : Nat) (ls : List Line) : Prop :=
  linesAt places v (ls.map (Line.raw cr)) = ls

theorem steady_cons {rest : List Line} : Steady places cr v (l :: rest) ↔
    lineAt places v (l.raw cr) = l ∧ Steady places cr (v + visible (l.raw cr)) rest := by
  rw [Steady, List.map_cons, linesAt, List.cons.injEq]
  rfl

theorem visible_raw_of_isBlank (hcr : visible cr = 0) (h : l.isBlank = true) : visible (l.raw cr) = 0 := by
  rw [Line.isBlank, Bool.and_eq_true, List.isEmpty_iff] at h
  rw [Line.raw, h.1, List.nil_append, hcr]

theorem steady_linesAt (hcr : visible cr = 0) {raws : List (List Char)}
    (hcontent : ∀ l ∈ linesAt places v raws, content (l.raw cr) = l.chars) : Steady places cr v (linesAt places v raws) := by
  induction raws generalizing v with
  | nil => rfl
  | cons raw rest ih =>
    rw [linesAt, List.forall_mem_cons] at hcontent
    refine steady_cons.2 ⟨lineAt_raw hcr hcontent.1, ?_⟩
    rw [Line.raw, visible_append, visible_lineAt, hcr, Nat.add_zero]
    exact ih hcontent.2

theorem Steady.squeeze (hcr : visible cr = 0) (h : Steady places cr v ls) (above : Bool) :
    Steady places cr v (squeeze above ls) := by
  induction ls generalizing v above with
  | nil => rfl
  | cons l rest ih =>
    obtain ⟨hl, hrest⟩ := steady_cons.1 h
    rw [Layout.squeeze]
    split
    · rename_i hblank
      rw [visible_raw_of_isBlank hcr (Bool.and_eq_true_iff.1 hblank).1, Nat.add_zero] at hrest
      exact ih hrest above
    · exact steady_cons.2 ⟨hl, ih hrest l.isBlank⟩

theorem dropEnd_cons (l : Line) (rest : List Line) :
    dropEnd (l :: rest) = if dropEnd rest = [] ∧ l.isBlank = true then [] else l :: dropEnd rest := by
  rw [dropEnd]
  rcases dropEnd rest with _ | ⟨m, rest'⟩
  · by_cases hl : l.isBlank = true <;> simp [hl]
  · simp

theorem Steady.dropEnd (h : Steady places cr v ls) : Steady places cr v (dropEnd ls) := by
  induction ls generalizing v with
  | nil => rfl
  | cons l rest ih =>
    obtain ⟨hl, hrest⟩ := steady_cons.1 h
    rw [dropEnd_cons]
    split
    · rfl
    · exact steady_cons.2 ⟨hl, ih hrest⟩

theorem linesAt_append (places : List (Nat × Nat)) (v : Nat) (xs ys : List (List Char)) :
    linesAt places v (xs ++ ys) = linesAt places v xs ++ linesAt places (v + (xs.map visible).sum) ys := by
  induction xs generalizing v with
  | nil => simp [linesAt]
  | cons x xs ih => rw [List.cons_append, linesAt, linesAt, ih, List.map_cons, List.sum_cons, Nat.add_assoc, List.cons_append]

/-! ## Blank lines -/

theorem squeeze_squeeze (above : Bool) (ls : List Line) : squeeze above (squeeze above ls) = squeeze above ls := by
  induction ls generalizing above with
  | nil => rfl
  | cons l rest ih =>
    by_cases hblank : (l.isBlank && above) = true
    · rw [squeeze, if_pos hblank, ih]
    · rw [squeeze, if_neg hblank, squeeze, if_neg hblank, ih]

theorem length_squeeze_le (above : Bool) (ls : List Line) : (squeeze above ls).length ≤ ls.length := by
  induction ls generalizing above with
  | nil => exact Nat.le_refl _
  | cons l rest ih =>
    rw [squeeze]
    split
    · exact (ih above).trans (Nat.le_succ _)
    · exact Nat.succ_le_succ (ih l.isBlank)

theorem squeeze_cons_eq {above : Bool} {rest : List Line} (h : squeeze above (l :: rest) = l :: rest) :
    (l.isBlank && above) = false ∧ squeeze l.isBlank rest = rest := by
  rw [squeeze] at h
  split at h
  · have hlen := length_squeeze_le above rest
    rw [h, List.length_cons] at hlen
    omega
  · rename_i hblank
    exact ⟨by simpa using hblank, (List.cons.inj h).2⟩

theorem squeeze_dropEnd {above : Bool} (h : squeeze above ls = ls) : squeeze above (dropEnd ls) = dropEnd ls := by
  induction ls generalizing above with
  | nil => rfl
  | cons l rest ih =>
    obtain ⟨hl, hrest⟩ := squeeze_cons_eq h
    rw [dropEnd_cons]
    split
    · rfl
    · rw [squeeze, if_neg (by simp [hl]), ih hrest]

theorem dropEnd_dropEnd (ls : List Line) : dropEnd (dropEnd ls) = dropEnd ls := by
  induction ls with
  | nil => rfl
  | cons l rest ih =>
    rw [dropEnd_cons]
    split
    · rfl
    · rename_i h
      rw [dropEnd_cons, ih, if_neg h]

/-- A blank line at the end comes and goes. -/
theorem dropEnd_squeeze_append {above : Bool} {b : Line} (hb : b.isBlank = true) (hsqueeze : squeeze above ls = ls)
    (hdrop : dropEnd ls = ls) : dropEnd (squeeze above (ls ++ [b])) = ls := by
  have hlone : ∀ above : Bool, dropEnd (squeeze above [b]) = [] := by
    intro above
    cases above <;> simp [squeeze, dropEnd, hb]
  induction ls generalizing above with
  | nil => exact hlone above
  | cons l rest ih =>
    obtain ⟨hl, hrest⟩ := squeeze_cons_eq hsqueeze
    rw [dropEnd_cons] at hdrop
    split at hdrop
    · cases hdrop
    · rename_i hkeep
      have hdrop := (List.cons.inj hdrop).2
      rw [List.cons_append, squeeze, if_neg (by simp [hl]), dropEnd_cons, ih hrest hdrop, if_neg (hdrop ▸ hkeep)]

/-! ## Formatting twice -/

theorem sum_visible_split (cs : List Char) : ((cs.splitOnP (· == '\n')).map visible).sum = visible cs := by
  induction cs using lineInduction with
  | last w hw => rw [split_last hw, List.map_singleton, List.sum_singleton]
  | next w r hw ih =>
    have hbreak : visible ('\n' :: r) = visible r := rfl
    rw [split_next hw, List.map_cons, List.sum_cons, ih, visible_append, hbreak]

theorem ink_split (cs : List Char) : (cs.splitOnP (· == '\n')).flatMap ink = ink cs := by
  induction cs using lineInduction with
  | last w hw => rw [split_last hw, List.flatMap_singleton]
  | next w r hw ih =>
    have hbreak : ink ('\n' :: r) = ink r := rfl
    rw [split_next hw, List.flatMap_cons, ih, ink_append, hbreak]

/-- What lines show. -/
def shown (ls : List Line) : List Char := ls.flatMap fun l => ink l.chars

theorem shown_cons (l : Line) (ls : List Line) : shown (l :: ls) = ink l.chars ++ shown ls := List.flatMap_cons

theorem shown_linesFrom (spans : List Span) (start : Nat) (raws : List (List Char)) :
    shown (linesFrom spans start raws) = raws.flatMap ink := by
  induction raws generalizing start with
  | nil => rfl
  | cons raw rest ih => rw [linesFrom, shown_cons, ih, line_eq, ink_reform, List.flatMap_cons]

theorem shown_linesAt (places : List (Nat × Nat)) (v : Nat) (raws : List (List Char)) :
    shown (linesAt places v raws) = raws.flatMap ink := by
  induction raws generalizing v with
  | nil => rfl
  | cons raw rest ih => rw [linesAt, shown_cons, ih, lineAt_eq, ink_reform, List.flatMap_cons]

theorem ink_of_isBlank (h : l.isBlank = true) : ink l.chars = [] := by
  rw [Line.isBlank, Bool.and_eq_true, List.isEmpty_iff] at h
  rw [h.1, ink_nil]

theorem shown_squeeze (above : Bool) (ls : List Line) : shown (squeeze above ls) = shown ls := by
  induction ls generalizing above with
  | nil => rfl
  | cons l rest ih =>
    rw [squeeze, shown_cons]
    split
    · rename_i hblank
      rw [ih, ink_of_isBlank (Bool.and_eq_true_iff.1 hblank).1, List.nil_append]
    · rw [shown_cons, ih]

theorem shown_dropEnd (ls : List Line) : shown (dropEnd ls) = shown ls := by
  induction ls with
  | nil => rfl
  | cons l rest ih =>
    rw [dropEnd_cons, shown_cons]
    split
    · rename_i hblank
      rw [← ih, hblank.1, ink_of_isBlank hblank.2]
      rfl
    · rw [shown_cons, ih]

theorem ink_newlineOf (cs : List Char) : ink (newlineOf cs) = [] := by
  rw [newlineOf]
  split <;> rfl

theorem ink_flatMap {nl : List Char} (hnl : ink nl = []) (ls : List Line) :
    ink (ls.flatMap fun l => l.chars ++ nl) = shown ls := by
  induction ls with
  | nil => rfl
  | cons l rest ih => rw [List.flatMap_cons, ink_append, ink_append, hnl, List.append_nil, ih, shown_cons]

theorem ink_of_trim_isEmpty {cs : List Char} (h : (Text.trim cs).isEmpty = true) : ink cs = [] := by
  rw [← List.length_eq_zero_iff, ← visible_eq_length_ink, trim_isEmpty_iff.1 h]

/-- Formatting moves blanks only. -/
theorem ink_formatChars (cs : List Char) (spans : List Span) : ink (formatChars cs spans) = ink cs := by
  rw [formatChars]
  split
  · rename_i h
    rw [ink_of_trim_isEmpty h, ink_nil]
  · rw [ink_flatMap (ink_newlineOf cs), shown_dropEnd, shown_squeeze, shown_linesFrom, ink_split]

theorem ink_formatAt (places : List (Nat × Nat)) (cs : List Char) : ink (formatAt places cs) = ink cs := by
  rw [formatAt]
  split
  · rename_i h
    rw [ink_of_trim_isEmpty h, ink_nil]
  · rw [ink_flatMap (ink_newlineOf cs), shown_dropEnd, shown_squeeze, shown_linesAt, ink_split]

/-- The lines of a text that has been put together from lines. -/
theorem split_flatMap (hcr : '\n' ∉ cr) (hls : ∀ l ∈ ls, '\n' ∉ l.chars) :
    (ls.flatMap fun l => l.chars ++ (cr ++ ['\n'])).splitOnP (· == '\n') = ls.map (Line.raw cr) ++ [[]] := by
  induction ls with
  | nil => rfl
  | cons l rest ih =>
    obtain ⟨hl, hls⟩ := List.forall_mem_cons.1 hls
    have hraw : '\n' ∉ l.raw cr := fun h => (List.mem_append.1 h).elim hl hcr
    have hparts : (l.chars ++ (cr ++ ['\n'])) ++ (rest.flatMap fun l => l.chars ++ (cr ++ ['\n'])) =
        l.raw cr ++ '\n' :: rest.flatMap fun l => l.chars ++ (cr ++ ['\n']) := by simp [Line.raw]
    rw [List.flatMap_cons, hparts, split_next hraw, ih hls, List.map_cons, List.cons_append]

theorem mem_of_mem_squeeze {above : Bool} (h : l ∈ squeeze above ls) : l ∈ ls := by
  induction ls generalizing above with
  | nil => exact h
  | cons m rest ih =>
    rw [squeeze] at h
    split at h
    · exact List.mem_cons_of_mem m (ih h)
    · exact List.mem_cons.2 ((List.mem_cons.1 h).imp_right ih)

theorem mem_of_mem_dropEnd (h : l ∈ dropEnd ls) : l ∈ ls := by
  induction ls with
  | nil => exact h
  | cons m rest ih =>
    rw [dropEnd_cons] at h
    split at h
    · cases h
    · exact List.mem_cons.2 ((List.mem_cons.1 h).imp_right ih)

theorem newline_not_mem_linesAt {raws : List (List Char)} (h : ∀ raw ∈ raws, '\n' ∉ raw) :
    ∀ l ∈ linesAt places v raws, '\n' ∉ l.chars := by
  induction raws generalizing v with
  | nil => exact fun l hl => nomatch hl
  | cons raw rest ih =>
    obtain ⟨hraw, hrest⟩ := List.forall_mem_cons.1 h
    rw [linesAt, List.forall_mem_cons]
    exact ⟨newline_not_mem_lineAt hraw, ih hrest⟩

theorem newline_not_mem_split (cs : List Char) : ∀ raw ∈ cs.splitOnP (· == '\n'), '\n' ∉ raw := by
  induction cs using lineInduction with
  | last w hw =>
    rw [split_last hw]
    exact fun raw hraw => List.mem_singleton.1 hraw ▸ hw
  | next w r hw ih =>
    rw [split_next hw, List.forall_mem_cons]
    exact ⟨hw, ih⟩

/-! ## Settled lines -/

/-- Lines that formatting leaves as they are, when they are written with `cr` before each line break. -/
structure Settled (places : List (Nat × Nat)) (cr : List Char) (ls : List Line) : Prop where
  steady : Steady places cr 0 ls
  squeezed : squeeze true ls = ls
  dropped : dropEnd ls = ls
  newline : ∀ l ∈ ls, '\n' ∉ l.chars
  breaks : cr = ['\r'] ∨ cr = [] ∧ ∀ l ∈ ls, l.chars.getLast? ≠ some '\r'

/-- The text that lines make when they are written with `cr` before each line break. -/
def written (cr : List Char) (ls : List Line) : List Char := ls.flatMap fun l => l.chars ++ (cr ++ ['\n'])

theorem exists_break (cs : List Char) : ∃ cr, newlineOf cs = cr ++ ['\n'] ∧
    (cr = ['\r'] ∧ hasPairs cs = true ∨ cr = [] ∧ hasPairs cs = false) := by
  cases hpairs : hasPairs cs with
  | true =>
    refine ⟨['\r'], ?_, .inl ⟨rfl, rfl⟩⟩
    rw [newlineOf, if_pos hpairs]
    rfl
  | false =>
    refine ⟨[], ?_, .inr ⟨rfl, rfl⟩⟩
    rw [newlineOf, if_neg (by simp [hpairs])]
    rfl

theorem break_blank (h : cr = ['\r'] ∨ cr = []) : visible cr = 0 ∧ '\n' ∉ cr := by
  rcases h with rfl | rfl
  · exact ⟨rfl, by decide⟩
  · exact ⟨rfl, List.not_mem_nil⟩

theorem content_raw (h : cr = ['\r'] ∨ cr = [] ∧ l.chars.getLast? ≠ some '\r') : content (l.raw cr) = l.chars := by
  rcases h with rfl | ⟨rfl, hlast⟩
  · exact content_append_return l.chars
  · rw [Line.raw, List.append_nil, content_eq_self hlast]

theorem hasPairs_written (hnewline : ∀ l ∈ ls, '\n' ∉ l.chars) (hplain : ∀ l ∈ ls, l.chars.getLast? ≠ some '\r') :
    hasPairs (written [] ls) = false := by
  induction ls with
  | nil => rfl
  | cons l rest ih =>
    obtain ⟨hl, hnewline⟩ := List.forall_mem_cons.1 hnewline
    obtain ⟨hlast, hplain⟩ := List.forall_mem_cons.1 hplain
    have hparts : written [] (l :: rest) = l.chars ++ '\n' :: written [] rest := by simp [written]
    rw [hparts, hasPairs_next hl, ih hnewline hplain]
    simpa using hlast

/-- The lines that formatting makes are settled. -/
theorem exists_settled {cs : List Char} (hplaces : ∀ p ∈ places, p.2 ≤ visible cs) (hcs : visible cs ≠ 0) :
    ∃ cr ls, newlineOf cs = cr ++ ['\n'] ∧ Settled places cr ls ∧ formatAt places cs = written cr ls := by
  obtain ⟨cr, hnl, hcr⟩ := exists_break cs
  have hnewline : ∀ l ∈ linesAt places 0 (cs.splitOnP (· == '\n')), '\n' ∉ l.chars :=
    newline_not_mem_linesAt (newline_not_mem_split cs)
  have hbreaks : cr = ['\r'] ∨ cr = [] ∧ ∀ l ∈ linesAt places 0 (cs.splitOnP (· == '\n')), l.chars.getLast? ≠ some '\r' :=
    hcr.imp And.left fun h => ⟨h.1, getLast?_linesAt h.2 (by simpa using hplaces)⟩
  have hcontent : ∀ l ∈ linesAt places 0 (cs.splitOnP (· == '\n')), content (l.raw cr) = l.chars := fun l hl =>
    content_raw (hbreaks.imp_right fun h => ⟨h.1, h.2 l hl⟩)
  have hempty : ¬ (Text.trim cs).isEmpty = true := fun h => hcs (trim_isEmpty_iff.1 h)
  have hsteady := steady_linesAt (break_blank (hcr.imp And.left And.left)).1 hcontent
  generalize hlines : linesAt places 0 (cs.splitOnP (· == '\n')) = lines at hnewline hbreaks hsteady
  have horigin : ∀ l ∈ dropEnd (squeeze true lines), l ∈ lines := fun l hl => mem_of_mem_squeeze (mem_of_mem_dropEnd hl)
  refine ⟨cr, dropEnd (squeeze true lines), hnl, ?_, by rw [formatAt, if_neg hempty, hlines, hnl, written]⟩
  exact {
    steady := (hsteady.squeeze (break_blank (hcr.imp And.left And.left)).1 true).dropEnd
    squeezed := squeeze_dropEnd (squeeze_squeeze true lines)
    dropped := dropEnd_dropEnd _
    newline := fun l hl => hnewline l (horigin l hl)
    breaks := hbreaks.imp_right fun h => ⟨h.1, fun l hl => h.2 l (horigin l hl)⟩ }

namespace Settled

theorem blank (h : Settled places cr ls) : visible cr = 0 ∧ '\n' ∉ cr := break_blank (h.breaks.imp_right And.left)

/-- Line breaks with carriage returns stay such, and without stay without. -/
theorem newlineOf_written (h : Settled places cr ls) (hne : ls ≠ []) : newlineOf (written cr ls) = cr ++ ['\n'] := by
  rcases h.breaks with rfl | ⟨rfl, hplain⟩
  · obtain ⟨l, rest, rfl⟩ := List.exists_cons_of_ne_nil hne
    have hl : '\n' ∉ l.raw ['\r'] := fun hmem =>
      (List.mem_append.1 hmem).elim (h.newline l List.mem_cons_self) h.blank.2
    have hparts : written ['\r'] (l :: rest) = l.raw ['\r'] ++ '\n' :: written ['\r'] rest := by simp [written, Line.raw]
    have hpairs : hasPairs (written ['\r'] (l :: rest)) = true := by
      rw [hparts, hasPairs_next hl]
      simp [Line.raw]
    rw [newlineOf, if_pos hpairs]
    rfl
  · rw [newlineOf, if_neg (by simp [hasPairs_written h.newline hplain])]
    rfl

theorem split_written (h : Settled places cr ls) : (written cr ls).splitOnP (· == '\n') = ls.map (Line.raw cr) ++ [[]] :=
  split_flatMap h.blank.2 h.newline

theorem visible_written (h : Settled places cr ls) : ((ls.map (Line.raw cr)).map visible).sum = visible (written cr ls) := by
  have hsum := sum_visible_split (written cr ls)
  rw [h.split_written, List.map_append, List.sum_append] at hsum
  simpa using hsum

/-- Formatting leaves the text of settled lines as it is. -/
theorem formatAt_written (h : Settled places cr ls) (hplaces : ∀ p ∈ places, p.2 ≤ visible (written cr ls))
    (hvisible : visible (written cr ls) ≠ 0) : formatAt places (written cr ls) = written cr ls := by
  have hempty : ¬ (Text.trim (written cr ls)).isEmpty = true := fun he => hvisible (trim_isEmpty_iff.1 he)
  have hne : ls ≠ [] := by
    rintro rfl
    exact hvisible rfl
  have hlast : lineAt places (visible (written cr ls)) [] = ⟨[], false⟩ := by
    rw [lineAt, visible_nil, Nat.add_zero, insideAt_of_le hplaces]
    rfl
  have hsteady : linesAt places 0 (ls.map (Line.raw cr)) = ls := h.steady
  rw [formatAt, if_neg hempty, h.split_written, linesAt_append, hsteady, Nat.zero_add, h.visible_written, linesAt, hlast, linesAt,
    dropEnd_squeeze_append rfl h.squeezed h.dropped, h.newlineOf_written hne, written]

end Settled

/-- Formatting a text again changes nothing, when its literals are where they were. -/
theorem formatAt_formatAt {cs : List Char} (hplaces : ∀ p ∈ places, p.2 ≤ visible cs) :
    formatAt places (formatAt places cs) = formatAt places cs := by
  have hvisible := visible_congr (ink_formatAt places cs)
  by_cases hcs : visible cs = 0
  · have hnil : formatAt places cs = [] := if_pos (trim_isEmpty_iff.2 hcs)
    rw [hnil]
    rfl
  · obtain ⟨cr, ls, -, hsettled, hout⟩ := exists_settled hplaces hcs
    rw [hout] at hvisible ⊢
    exact hsettled.formatAt_written (by rwa [hvisible]) (by rwa [hvisible])

end

/-! ## Literals at the ends of lines -/

/-- A literal that reaches over this point has a line break in it. -/
def IsLineEnd (a b : List Char) : Prop := ∀ x y, x <:+ a → y <+: b → x ≠ [] → y ≠ [] → isTight (x ++ y) = true → '\n' ∈ x ++ y

section
variable {a b w r x mid y : List Char} {f g : SourceFile} {n : Node}

theorem isLineEnd_nil (b : List Char) : IsLineEnd [] b := fun _ _ hx _ hne => absurd (List.suffix_nil.1 hx) hne

theorem isLineEnd_newline (a b : List Char) : IsLineEnd (a ++ ['\n']) b := fun x y hx _ hne _ _ => by
  obtain ⟨x', d, rfl⟩ := List.eq_nil_or_concat' x |>.resolve_left hne
  obtain ⟨front, hfront⟩ := hx
  rw [← List.append_assoc] at hfront
  have hd := (List.append_inj' hfront rfl).2
  rw [List.cons.injEq] at hd
  simp [hd.1]

theorem getLast?_of_isTight {d : Char} (h : isTight (x ++ [d]) = true) : isBlank d = false := by
  simpa [isTight] using (Bool.and_eq_true_iff.1 h).2

theorem isLineEnd_return (a : List Char) : IsLineEnd a ['\r'] := fun x y _ hy _ hne htight => by
  rcases List.prefix_cons_iff.1 hy with rfl | ⟨t, rfl, ht⟩
  · exact absurd rfl hne
  · rw [List.prefix_nil.1 ht] at htight
    exact absurd (getLast?_of_isTight htight) (by decide)

theorem isLineEnd_break (a r : List Char) : IsLineEnd a ('\n' :: r) := fun x y _ hy _ hne _ => by
  rcases List.prefix_cons_iff.1 hy with rfl | ⟨t, rfl, -⟩
  · exact absurd rfl hne
  · simp

theorem isLineEnd_pair (a r : List Char) : IsLineEnd a ('\r' :: '\n' :: r) := fun x y hx hy hxne hne htight => by
  rcases List.prefix_cons_iff.1 hy with rfl | ⟨t, rfl, ht⟩
  · exact absurd rfl hne
  · rcases List.prefix_cons_iff.1 ht with rfl | ⟨t', rfl, -⟩
    · exact isLineEnd_return a x ['\r'] hx (List.prefix_refl _) hxne hne htight
    · simp

theorem visibleBefore_append (a b : List Char) : visibleBefore (a ++ b) (size a) = visible a := by
  rw [visibleBefore, splitAt?_append]
  rfl

theorem visible_pos_of_isTight (h : isTight (x ++ y) = true) (hx : x ≠ []) (hy : y ≠ []) : 0 < visible x ∧ 0 < visible y := by
  obtain ⟨c, x', rfl⟩ := List.exists_cons_of_ne_nil hx
  obtain ⟨y', d, rfl⟩ := (List.eq_nil_or_concat' y).resolve_left hy
  have hc : isBlank c = false := by simpa [isTight] using (Bool.and_eq_true_iff.1 h).1
  have hd : isBlank d = false := getLast?_of_isTight (x := (c :: x') ++ y') (by simpa using h)
  exact ⟨List.countP_pos_iff.2 ⟨c, List.mem_cons_self, by simp [hc]⟩,
    List.countP_pos_iff.2 ⟨d, by simp, by simp [hd]⟩⟩

theorem visible_le_of_size_le (h : a ++ b = x ++ y) (hle : size a ≤ size x) : visible a ≤ visible x := by
  obtain ⟨z, rfl, -⟩ := exists_mid_of_size_le h hle
  rw [visible_append]
  exact Nat.le_add_right _ _

/-- Whether a literal reaches over a point, by bytes and by characters that are no blanks. -/
theorem inside_iff (htight : isTight mid = true) (h : a ++ b = x ++ (mid ++ y)) :
    (size x < size a ∧ size a < size (x ++ mid)) ↔ visible x < visible a ∧ visible a < visible (x ++ mid) := by
  have h' : a ++ b = (x ++ mid) ++ y := by rw [h, List.append_assoc]
  constructor
  · rintro ⟨hx, hmid⟩
    obtain ⟨u, rfl, hu⟩ := exists_mid_of_size_le h.symm (Nat.le_of_lt hx)
    obtain ⟨v, hv, -⟩ := exists_mid_of_size_le h' (Nat.le_of_lt hmid)
    rw [List.append_assoc, List.append_cancel_left_eq] at hv
    subst hv
    have hune : u ≠ [] := fun he => by simp [he] at hx
    have hvne : v ≠ [] := fun he => by simp [he] at hmid
    have hpos := visible_pos_of_isTight htight hune hvne
    simp only [visible_append]
    omega
  · rintro ⟨hx, hmid⟩
    exact ⟨Nat.lt_of_not_le fun hle => Nat.not_le_of_lt hx (visible_le_of_size_le h hle),
      Nat.lt_of_not_le fun hle => Nat.not_le_of_lt hmid (visible_le_of_size_le h'.symm hle)⟩

theorem newline_mem_of_inside (hend : IsLineEnd a b) (htight : isTight mid = true) (h : a ++ b = x ++ (mid ++ y))
    (hx : size x < size a) (hmid : size a < size (x ++ mid)) : '\n' ∈ mid := by
  have h' : a ++ b = (x ++ mid) ++ y := by rw [h, List.append_assoc]
  obtain ⟨u, rfl, hu⟩ := exists_mid_of_size_le h.symm (Nat.le_of_lt hx)
  obtain ⟨v, hv, hb⟩ := exists_mid_of_size_le h' (Nat.le_of_lt hmid)
  rw [List.append_assoc, List.append_cancel_left_eq] at hv
  subst hv
  exact hend u v (List.suffix_append x u) (hb ▸ List.prefix_append v y) (fun he => by simp [he] at hx)
    (fun he => by simp [he] at hmid) htight

theorem literalRanges_eq (f : SourceFile) :
    literalRanges f = ((literals f).filter fun n => (f.text n).toList.contains '\n').map Node.span := by
  rw [literalRanges, literals, List.filter_filter]
  congr 1
  exact List.filter_congr fun n _ => Bool.and_comm _ _

/-- Where a literal stands in the text. -/
theorem exists_parts_of_literal (hf : f.Sound) (hn : n ∈ literals f) : ∃ x mid y, f.chars = x ++ (mid ++ y) ∧
    size x = n.start ∧ size (x ++ mid) = n.stop ∧ (f.text n).toList = mid ∧ isTight mid = true := by
  obtain ⟨hn, hliteral⟩ := List.mem_filter.1 hn
  have hdesc := Node.mem_descendants_of_mem_walk hn
  obtain ⟨x, mid, y, hchars, hx, hmid, htext⟩ := exists_parts_of_fits (Node.fits_of_mem_descendants hf.fits hdesc)
  have htight := (Node.regular_of_everywhere (Node.everywhere_of_mem_descendants hf.regular hdesc)).literal hliteral
  exact ⟨x, mid, y, hchars, hx, hmid, htext, htext ▸ htight⟩

/-- Where lines end, what is in a literal can be told from what one sees. -/
theorem inside_eq_insideAt (hf : f.Sound) (hchars : f.chars = a ++ b) (hend : IsLineEnd a b) :
    inside (literalRanges f) (size a) = insideAt (literalPlaces f) (visible a) := by
  rw [inside, literalRanges_eq, insideAt, literalPlaces, List.any_map, List.any_map, List.any_filter]
  refine any_eq_of_forall₂ (List.forall₂_same.2 fun n hn => ?_)
  obtain ⟨x, mid, y, hparts, hx, hmid, htext, htight⟩ := exists_parts_of_literal hf hn
  have hparts' : f.chars = (x ++ mid) ++ y := by rw [hparts, List.append_assoc]
  have hsplit : a ++ b = x ++ (mid ++ y) := hchars ▸ hparts
  have hstart : visibleBefore f.chars n.start = visible x := by rw [hparts, ← hx, visibleBefore_append]
  have hstop : visibleBefore f.chars n.stop = visible (x ++ mid) := by rw [hparts', ← hmid, visibleBefore_append]
  have hspan : n.span.start = size x ∧ n.span.stop = size (x ++ mid) :=
    ⟨hx.symm, (Node.stop_span (Node.fits_of_mem_descendants hf.fits
      (Node.mem_descendants_of_mem_walk (List.mem_filter.1 hn).1))).trans hmid.symm⟩
  have hiff := inside_iff htight hsplit
  rw [Function.comp_apply, Function.comp_apply, hstart, hstop, hspan.1, hspan.2, htext, Bool.eq_iff_iff]
  simp only [Bool.and_eq_true, decide_eq_true_eq, List.contains_eq_mem]
  rw [← hiff]
  exact ⟨fun h => h.2, fun h => ⟨newline_mem_of_inside hend htight hsplit h.1 h.2, h⟩⟩

/-- Lines in their new forms, by bytes and by what one sees, when both tell alike which ends of lines lie in a literal. -/
theorem linesFrom_eq {spans : List Span} {places : List (Nat × Nat)} {cs pre rest : List Char}
    (hinside : ∀ {a b}, cs = a ++ b → IsLineEnd a b → inside spans (size a) = insideAt places (visible a))
    (hchars : cs = pre ++ rest) (hpre : pre = [] ∨ ∃ front, pre = front ++ ['\n']) :
    linesFrom spans (size pre) (rest.splitOnP (· == '\n')) = linesAt places (visible pre) (rest.splitOnP (· == '\n')) := by
  have hstart : ∀ {pre : List Char} (rest : List Char), (pre = [] ∨ ∃ front, pre = front ++ ['\n']) → IsLineEnd pre rest := by
    rintro pre rest (rfl | ⟨front, rfl⟩)
    · exact isLineEnd_nil rest
    · exact isLineEnd_newline front rest
  have hline : ∀ {pre w r : List Char}, cs = pre ++ (w ++ r) → (pre = [] ∨ ∃ front, pre = front ++ ['\n']) →
      (r = [] ∨ ∃ r', r = '\n' :: r') → line spans (size pre) w = lineAt places (visible pre) w := by
    intro pre w r hchars hpre hr
    obtain ⟨cr, hw, hcr⟩ : ∃ cr, w = content w ++ cr ∧ (cr = [] ∨ cr = ['\r']) := by
      rcases content_cases w with h | h
      · exact ⟨[], by rw [List.append_nil]; exact h, .inl rfl⟩
      · exact ⟨_, h, .inr rfl⟩
    have hend : IsLineEnd (pre ++ content w) (cr ++ r) := by
      rcases hcr with rfl | rfl <;> rcases hr with rfl | ⟨r', rfl⟩
      · exact fun _ _ _ hy _ hne => absurd (List.prefix_nil.1 hy) hne
      · exact isLineEnd_break _ _
      · exact isLineEnd_return _
      · exact isLineEnd_pair _ _
    have hparts : cs = (pre ++ content w) ++ (cr ++ r) := by
      rw [hchars, List.append_assoc, ← List.append_assoc (content w), ← hw]
    have hlast := hinside hparts hend
    rw [size_append, visible_append, visible_congr (ink_content w)] at hlast
    rw [line, lineAt, hinside hchars (hstart _ hpre), hlast]
  induction rest using lineInduction generalizing pre with
  | last w hw =>
    rw [split_last hw, linesFrom, linesAt, linesFrom, linesAt, hline (by rw [List.append_nil]; exact hchars) hpre (.inl rfl)]
  | next w r hw ih =>
    have hnext : cs = (pre ++ (w ++ ['\n'])) ++ r := by simp [hchars]
    have hrest := ih hnext (.inr ⟨pre ++ w, by simp⟩)
    have hsize : size (pre ++ (w ++ ['\n'])) = size pre + size w + 1 := by
      have hone : size ['\n'] = 1 := rfl
      rw [size_append, size_append, hone, Nat.add_assoc]
    have hvisible : visible (pre ++ (w ++ ['\n'])) = visible pre + visible w := by
      have hzero : visible ['\n'] = 0 := rfl
      rw [visible_append, visible_append, hzero, Nat.add_zero]
    rw [hsize, hvisible] at hrest
    rw [split_next hw, linesFrom, linesAt, hrest, hline hchars hpre (.inr ⟨r, rfl⟩)]

/-- Formatting a text, by the places of its literals. -/
theorem formatChars_eq {spans : List Span} {places : List (Nat × Nat)} {cs : List Char}
    (hinside : ∀ {a b}, cs = a ++ b → IsLineEnd a b → inside spans (size a) = insideAt places (visible a)) :
    formatChars cs spans = formatAt places cs := by
  have hlines := linesFrom_eq hinside (List.nil_append cs).symm (.inl rfl)
  rw [size_nil, visible_nil] at hlines
  rw [formatChars, formatAt, hlines]

/-- A file that has been formatted is formatted. -/
theorem formatChars_formatted (hf : f.Sound) (hg : g.Sound) (hplaces : literalPlaces f = literalPlaces g)
    (hchars : g.chars = formatChars f.chars (literalRanges f)) : formatChars g.chars (literalRanges g) = g.chars := by
  rw [formatChars_eq (inside_eq_insideAt hg), ← hplaces, hchars, formatChars_eq (inside_eq_insideAt hf)]
  refine formatAt_formatAt fun p hp => ?_
  obtain ⟨n, hn, rfl⟩ := List.mem_map.1 hp
  obtain ⟨x, mid, y, hparts, -, hstop, -⟩ := exists_parts_of_literal hf hn
  have hparts' : f.chars = (x ++ mid) ++ y := by rw [hparts, List.append_assoc]
  have hvisible : visibleBefore f.chars n.stop = visible (x ++ mid) := by rw [hparts', ← hstop, visibleBefore_append]
  dsimp only
  rw [hvisible, hparts', visible_append (x ++ mid)]
  exact Nat.le_add_right _ _

end

end CSharp.Layout

end Workbench
