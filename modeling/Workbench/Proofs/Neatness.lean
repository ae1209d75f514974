import Workbench.Proofs.Rebreaking

/-!
# Neat texts

`Neat` says of a text by itself what formatting is to bring about. Every text
that has been formatted is neat, and shows what it showed before.
-/

namespace Workbench.CSharp.Layout

open Text

/-! ## What is neat -/

/-- A line of a text, what stands before it, and what stands behind its line break. -/
structure IsLine (nl cs pre w post : List Char) : Prop where
  text : cs = pre ++ (w ++ (nl ++ post))
  start : AtStart pre
  whole : '\n' ∉ w

/-- A text that is laid out well, apart from what is in `spans`. -/
structure Neat (spans : List Span) (nl cs : List Char) : Prop where
  /-- All line breaks are `nl`, which is one of two. -/
  breaks : nl = ['\n'] ∧ hasPairs cs = false ∨ nl = ['\r', '\n'] ∧ AllPairs cs
  /-- The text ends with one line break. -/
  stops : ∃ body c, cs = body ++ (c :: nl) ∧ isBlank c = false
  /-- The first line is not blank. -/
  starts : ∃ w post, IsLine nl cs [] w post ∧ ∃ c ∈ w, isBlank c = false
  /-- Of two lines that follow one another, one is not blank. -/
  spaced : ∀ pre w w' post, IsLine nl cs pre w (w' ++ (nl ++ post)) → IsLine nl cs (pre ++ (w ++ nl)) w' post →
    inside spans (size pre) = false → inside spans (size (pre ++ (w ++ nl))) = false → ∃ c ∈ w ++ w', isBlank c = false
  /-- No line ends with a blank. -/
  trimmed : ∀ pre w post, IsLine nl cs pre w post → inside spans (size (pre ++ w)) = false →
    ∀ c ∈ w.getLast?, isBlank c = false
  /-- No tab is in the spaces and tabs at the start of a line. -/
  expanded : ∀ pre w post, IsLine nl cs pre w post → inside spans (size pre) = false → '\t' ∉ w.takeWhile isIndent

/-! ## Settled lines and where they stand -/

section
variable {places : List (Nat × Nat)} {cr cs w pre post : List Char} {v : Nat} {l : Line} {ls front rest : List Line}

theorem squeeze_rest {above : Bool} (h : squeeze above (front ++ l :: rest) = front ++ l :: rest) :
    squeeze l.isBlank rest = rest := by
  induction front generalizing above with
  | nil => exact (squeeze_cons_eq h).2
  | cons m front ih => exact ih (squeeze_cons_eq h).2

theorem last_not_blank (h : dropEnd (front ++ [l]) = front ++ [l]) : l.isBlank = false := by
  rw [← Bool.not_eq_true]
  intro hl
  induction front with
  | nil => rw [List.nil_append, dropEnd_cons, if_pos ⟨rfl, hl⟩] at h; cases h
  | cons m front ih =>
    rw [List.cons_append, dropEnd_cons] at h
    split at h
    · cases h
    · exact ih (List.cons.inj h).2

/-- A line in its new form does not end with a blank, unless its end is in a literal. -/
theorem getLast?_reform {keepStart : Bool} {raw : List Char} {c : Char} (h : (reform keepStart false raw).chars.getLast? = some c) :
    Text.isBlank c = false := getLast?_trimEnd h

/-- A line in its new form that shows nothing and is in no literal is blank. -/
theorem reform_blank {raw : List Char} (h : ink (reform false false raw).chars = []) : (reform false false raw).isBlank = true := by
  have hnil : (reform false false raw).chars = [] := by
    by_contra hne
    have hblank := getLast?_reform (List.getLast?_eq_some_getLast hne)
    exact Bool.false_ne_true (hblank.symm.trans (ink_eq_nil_iff.1 h _ (List.getLast_mem hne)))
  rw [Line.isBlank, hnil]
  rfl

theorem tab_not_mem_indent (h : expandTabs w = w) : '\t' ∉ w.takeWhile isIndent := by
  induction w using indentInduction with
  | nil => exact List.not_mem_nil
  | tab r _ => cases h
  | space r ih =>
    have hr : expandTabs r = r := (List.cons.inj h).2
    rw [List.takeWhile_cons_of_pos (by decide)]
    exact fun hmem => (List.mem_cons.1 hmem).elim (by decide) (ih hr)
  | other c r ht hs =>
    rw [List.takeWhile_cons_of_neg (by simp [isIndent, ht, hs])]
    exact List.not_mem_nil

theorem expandTabs_reform (keepEnd : Bool) (raw : List Char) :
    expandTabs (reform false keepEnd raw).chars = (reform false keepEnd raw).chars := by
  cases keepEnd with
  | false => exact expandTabs_trimEnd (expandTabs_expandTabs _)
  | true => exact expandTabs_expandTabs _

theorem length_linesAt (places : List (Nat × Nat)) (v : Nat) (raws : List (List Char)) :
    (linesAt places v raws).length = raws.length := by
  induction raws generalizing v with
  | nil => rfl
  | cons raw rest ih => rw [linesAt, List.length_cons, ih, List.length_cons]

namespace Settled

/-- A settled line is its own new form, at the place where it stands. -/
theorem eq_lineAt (h : Settled places cr (front ++ l :: rest)) :
    l = lineAt places ((front.map (Line.raw cr)).map visible).sum (l.raw cr) := by
  have hsteady : linesAt places 0 ((front ++ l :: rest).map (Line.raw cr)) = front ++ l :: rest := h.steady
  rw [List.map_append, List.map_cons, linesAt_append, linesAt, Nat.zero_add] at hsteady
  have hlen : (linesAt places 0 (front.map (Line.raw cr))).length = front.length := by
    rw [length_linesAt, List.length_map]
  exact (List.cons.inj (List.append_inj hsteady hlen).2).1.symm

/-- Where a line of the written text comes from. -/
theorem exists_line (h : Settled places cr ls) (hline : IsLine (cr ++ ['\n']) (written cr ls) pre w post) :
    ∃ front l rest, ls = front ++ l :: rest ∧ l.chars = w ∧ ((front.map (Line.raw cr)).map visible).sum = visible pre ∧
      rest.map (Line.raw cr) = (post.splitOnP (· == '\n')).dropLast := by
  have hraw : '\n' ∉ w ++ cr := fun hmem => (List.mem_append.1 hmem).elim hline.whole h.blank.2
  have hsplit : ls.map (Line.raw cr) ++ [[]] = headLines pre ++ (w ++ cr) :: post.splitOnP (· == '\n') := by
    have htext : written cr ls = pre ++ ((w ++ cr) ++ '\n' :: post) := by rw [hline.text]; simp
    rw [← h.split_written, htext, split_append hline.start, split_next hraw]
  have hdrop := congrArg List.dropLast hsplit
  rw [List.dropLast_concat, List.dropLast_append_of_ne_nil (List.cons_ne_nil _ _),
    List.dropLast_cons_of_ne_nil (List.splitOnP_ne_nil _ _)] at hdrop
  obtain ⟨front, rest, rfl, hfront, hrest⟩ := List.map_eq_append_iff.1 hdrop
  obtain ⟨l, rest, rfl, hl, hrest⟩ := List.map_eq_cons_iff.1 hrest
  exact ⟨front, l, rest, rfl, List.append_cancel_right hl, by rw [hfront, sum_visible_headLines hline.start], hrest⟩

theorem pairs_written (h : Settled places cr ls) : cr ++ ['\n'] = ['\n'] ∧ hasPairs (written cr ls) = false ∨
    cr ++ ['\n'] = ['\r', '\n'] ∧ AllPairs (written cr ls) := by
  have hnewline := h.newline
  obtain rfl | ⟨rfl, hplain⟩ := h.breaks
  · refine .inr ⟨rfl, ?_⟩
    clear h
    induction ls with
    | nil => exact allPairs_last List.not_mem_nil
    | cons l rest ih =>
      obtain ⟨hl, hnewline⟩ := List.forall_mem_cons.1 hnewline
      have hparts : written ['\r'] (l :: rest) = (l.chars ++ ['\r']) ++ '\n' :: written ['\r'] rest := by simp [written]
      have hraw : '\n' ∉ l.chars ++ ['\r'] := fun hmem => (List.mem_append.1 hmem).elim hl (by decide)
      rw [hparts, allPairs_next hraw]
      exact ⟨List.getLast?_concat, ih hnewline⟩
  · exact .inl ⟨rfl, hasPairs_written hnewline hplain⟩

/-- A settled line as its flags have it. -/
theorem eq_reform (h : Settled places cr (front ++ l :: rest)) (hplace : ((front.map (Line.raw cr)).map visible).sum = v) :
    l = reform (insideAt places v) (insideAt places (v + visible l.chars)) (l.raw cr) := by
  have hself := h.eq_lineAt
  rwa [hplace, lineAt_eq, Line.raw, visible_append, h.blank.1, Nat.add_zero] at hself

/-- A line that shows nothing and does not start in a literal is blank. -/
theorem isBlank (h : Settled places cr (front ++ l :: rest)) (hplace : ((front.map (Line.raw cr)).map visible).sum = v)
    (hout : insideAt places v = false) (hink : ink l.chars = []) : l.isBlank = true := by
  have hself := h.eq_reform hplace
  have hnone : visible l.chars = 0 := by rw [visible_eq_length_ink, hink, List.length_nil]
  rw [hnone, Nat.add_zero, hout] at hself
  rw [hself] at hink ⊢
  exact reform_blank hink

/-- The text of settled lines is neat. -/
theorem neat {spans : List Span} (h : Settled places cr ls) (hne : ls ≠ [])
    (hinside : ∀ {a b}, written cr ls = a ++ b → inside spans (size a) = insideAt places (visible a))
    (hplaces : ∀ p ∈ places, p.2 ≤ visible (written cr ls)) : Neat spans (cr ++ ['\n']) (written cr ls) where
  breaks := h.pairs_written
  stops := by
    obtain ⟨front, l, rfl⟩ := (List.eq_nil_or_concat' ls).resolve_left hne
    have hplace : ((front.map (Line.raw cr)).map visible).sum + visible l.chars = visible (written cr (front ++ [l])) := by
      rw [← h.visible_written, List.map_append, List.map_append, List.sum_append, List.map_singleton, List.map_singleton,
        List.sum_singleton, Line.raw, visible_append, h.blank.1, Nat.add_zero]
    have hself := h.eq_reform rfl
    have hend : insideAt places (((front.map (Line.raw cr)).map visible).sum + visible l.chars) = false :=
      insideAt_of_le (hplace ▸ hplaces)
    have hchars : l.chars ≠ [] := fun hnil => by
      have hblank := h.isBlank rfl (by rwa [hnil, visible_nil, Nat.add_zero] at hend) (by rw [hnil, ink_nil])
      exact Bool.false_ne_true ((last_not_blank h.dropped).symm.trans hblank)
    obtain ⟨body, c, hc⟩ := (List.eq_nil_or_concat' l.chars).resolve_left hchars
    refine ⟨written cr front ++ body, c, by simp [written, hc], ?_⟩
    rw [hend] at hself
    exact getLast?_reform (by rw [← hself, hc, List.getLast?_concat])
  starts := by
    obtain ⟨l, rest, rfl⟩ := List.exists_cons_of_ne_nil hne
    refine ⟨l.chars, written cr rest, ⟨by simp [written], .inl rfl, h.newline l List.mem_cons_self⟩, ?_⟩
    by_contra hall
    have hink : ink l.chars = [] := ink_eq_nil_iff.2 fun c hc => by
      rw [← Bool.not_eq_false]
      exact fun hblank => hall ⟨c, hc, hblank⟩
    have hfirst : Settled places cr ([] ++ l :: rest) := h
    have hblank := hfirst.isBlank rfl (by simp [insideAt]) hink
    have := (squeeze_cons_eq h.squeezed).1
    rw [hblank] at this
    cases this
  spaced := by
    intro pre w w' post hline hline' hout hout'
    obtain ⟨front, l, rest, rfl, rfl, hplace, hrest⟩ := h.exists_line hline
    have hraw : '\n' ∉ w' ++ cr := fun hmem => (List.mem_append.1 hmem).elim hline'.whole h.blank.2
    have hpost : w' ++ (cr ++ ['\n'] ++ post) = (w' ++ cr) ++ '\n' :: post := by simp
    rw [hpost, split_next hraw, List.dropLast_cons_of_ne_nil (List.splitOnP_ne_nil _ _)] at hrest
    obtain ⟨l', rest, rfl, hl', -⟩ := List.map_eq_cons_iff.1 hrest
    obtain rfl : l'.chars = w' := List.append_cancel_right hl'
    by_contra hall
    have hink : ink (l.chars ++ l'.chars) = [] := ink_eq_nil_iff.2 fun c hc => by
      rw [← Bool.not_eq_false]
      exact fun hblank => hall ⟨c, hc, hblank⟩
    rw [ink_append, List.append_eq_nil_iff] at hink
    have hl : l.isBlank = true := h.isBlank hplace (by rw [← hinside hline.text]; exact hout) hink.1
    have hmore : Settled places cr ((front ++ [l]) ++ l' :: rest) := by rwa [List.append_assoc]
    have hnext : l'.isBlank = true := by
      refine hmore.isBlank (v := visible (pre ++ (l.chars ++ (cr ++ ['\n'])))) ?_ ?_ hink.2
      · have hbreak : visible ['\n'] = 0 := rfl
        rw [List.map_append, List.map_append, List.sum_append, hplace, List.map_singleton, List.map_singleton,
          List.sum_singleton, Line.raw]
        simp only [visible_append, hbreak, Nat.add_zero]
      · rw [← hinside hline'.text]
        exact hout'
    have htwo := (squeeze_cons_eq (squeeze_rest h.squeezed)).1
    rw [hl, hnext] at htwo
    cases htwo
  trimmed := by
    intro pre w post hline hout c hc
    obtain ⟨front, l, rest, rfl, rfl, hplace, -⟩ := h.exists_line hline
    have hself := h.eq_reform hplace
    have hend : insideAt places (visible (pre ++ l.chars)) = false := by
      rw [← hinside (hline.text.trans (List.append_assoc pre _ _).symm)]
      exact hout
    rw [← visible_append, hend] at hself
    rw [hself] at hc
    exact getLast?_reform hc
  expanded := by
    intro pre w post hline hout
    obtain ⟨front, l, rest, rfl, rfl, hplace, -⟩ := h.exists_line hline
    have hself := h.eq_reform hplace
    rw [← hinside hline.text, hout] at hself
    rw [hself]
    exact tab_not_mem_indent (expandTabs_reform _ _)

end Settled

end

/-! ## Formatted texts -/

theorem formatChars_blank {cs : List Char} (spans : List Span) (h : ∀ c ∈ cs, isBlank c = true) : formatChars cs spans = [] := by
  rw [formatChars, if_pos (trim_isEmpty_iff.2 (visible_eq_zero_iff.2 h))]

theorem neat_formatChars {cs : List Char} {spans : List Span} (h : ∀ s ∈ spans, isStretch cs s = true) (hcs : visible cs ≠ 0) :
    Neat (spans.map (carried cs spans)) (newlineOf cs) (formatChars cs spans) := by
  have hinside : ∀ {a b}, formatChars cs spans = a ++ b →
      inside (spans.map (carried cs spans)) (size a) = insideAt (places cs spans) (visible a) := fun hparts => by
    rw [inside_eq_places (isStretch_carried h) hparts, places_carried h]
  have hplaces := places_le (isStretch_carried h)
  rw [places_carried h] at hplaces
  obtain ⟨cr, ls, hnewline, hsettled, hwritten⟩ := exists_settled (places_le h) hcs
  rw [← formatChars_eq_formatAt h] at hwritten
  have hvisible := visible_congr (ink_formatChars cs spans)
  rw [hnewline]
  rw [hwritten] at hinside hplaces hvisible ⊢
  refine hsettled.neat ?_ hinside hplaces
  rintro rfl
  exact hcs hvisible.symm

/-- Formatting moves blanks only, whatever the spans are. With spans that are stretches, what comes out is empty or neat. -/
theorem formatText_neat (source : String) (spans : List Span) :
    ink (formatText source spans).toList = ink source.toList ∧
      ((∀ s ∈ spans, isStretch source.toList s = true) →
        ((∀ c ∈ source.toList, isBlank c = true) → formatText source spans = "") ∧
          ((∃ c ∈ source.toList, isBlank c = false) → Neat (spans.map (carried source.toList spans)) (newlineOf source.toList)
            (formatText source spans).toList)) := by
  refine ⟨by rw [toList_formatText, ink_formatChars], fun h => ⟨fun hblank => ?_, fun ⟨c, hc, hvisible⟩ => ?_⟩⟩
  · rw [formatText, formatChars_blank spans hblank, String.ofList_nil]
  · rw [toList_formatText]
    exact neat_formatChars h fun hzero => Bool.false_ne_true (hvisible.symm.trans (visible_eq_zero_iff.1 hzero c hc))

theorem formatText_neat_ragged : (∀ s ∈ [Span.mk 12 10], isStretch ragged.toList s = true) ∧
    (∃ c ∈ ragged.toList, isBlank c = false) ∧ Neat [⟨12, 13⟩] ['\r', '\n'] (formatText ragged [⟨12, 10⟩]).toList ∧
      (∀ c ∈ "\n \t\r\n".toList, isBlank c = true) ∧ formatText "\n \t\r\n" [] = "" := by
  have hstretch : ∀ s ∈ [Span.mk 12 10], isStretch ragged.toList s = true := by decide +kernel
  have hcarried : carried ragged.toList [⟨12, 10⟩] ⟨12, 10⟩ = ⟨12, 13⟩ := by decide +kernel
  have hvisible : ∃ c ∈ ragged.toList, isBlank c = false := ⟨'z', by decide +kernel, by decide⟩
  have hnewline : newlineOf ragged.toList = ['\r', '\n'] := by decide +kernel
  have hblank : ∀ c ∈ "\n \t\r\n".toList, isBlank c = true := List.all_eq_true.1 (by decide +kernel)
  have hneat := ((formatText_neat ragged [⟨12, 10⟩]).2 hstretch).2 hvisible
  rw [List.map_singleton, hcarried, hnewline] at hneat
  exact ⟨hstretch, hvisible, hneat, hblank, ((formatText_neat _ []).2 (by simp)).1 hblank⟩

end Workbench.CSharp.Layout
