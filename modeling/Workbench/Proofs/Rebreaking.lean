import Workbench.CSharp.Tree
import Workbench.Proofs.Carrying
import Workbench.Proofs.Editing

/-!
# Stretches that are kept

Formatting ends all lines alike, those in a literal too. Apart from that a
stretch is kept as it is: it stays the same exactly when its line breaks are
those of the whole text already.
-/

namespace Workbench.CSharp.Layout

open Text

/-! ## Line breaks -/

/-- Writes `nl` for each line break. A carriage return before one is part of it. -/
def rebreak (nl : List Char) : List Char → List Char
  | [] => []
  | c :: r =>
    if c == '\n' then nl ++ rebreak nl r
    else if c == '\r' && r.head? == some '\n' then rebreak nl r
    else c :: rebreak nl r

/-- Each line break has a carriage return before it. -/
def AllPairs (cs : List Char) : Prop := ∀ a b, cs = a ++ '\n' :: b → a.getLast? = some '\r'

section
variable {nl w r cs x mid y : List Char}

theorem rebreak_last (hw : '\n' ∉ w) : rebreak nl w = w := by
  induction w with
  | nil => rfl
  | cons c w ih =>
    obtain ⟨hc, hw⟩ := not_or.1 (mt List.mem_cons.2 hw)
    have hhead : w.head? ≠ some '\n' := fun he => hw (List.mem_of_head? he)
    rw [rebreak, if_neg (by simpa using Ne.symm hc), if_neg (by simp [hhead]), ih hw]

theorem rebreak_next (hw : '\n' ∉ w) : rebreak nl (w ++ '\n' :: r) = content w ++ (nl ++ rebreak nl r) := by
  induction w with
  | nil => rfl
  | cons c w ih =>
    obtain ⟨hc, hw⟩ := not_or.1 (mt List.mem_cons.2 hw)
    rw [List.cons_append, rebreak, if_neg (by simpa using Ne.symm hc), ih hw]
    by_cases hnil : w = []
    · subst hnil
      by_cases hreturn : c = '\r'
      · subst hreturn
        rfl
      · have hkept : content [c] = [c] := content_eq_self (by simpa using hreturn)
        rw [if_neg (by simp [hreturn]), hkept]
        rfl
    · have hhead : (w ++ '\n' :: r).head? ≠ some '\n' := fun he => hw (by
        rw [List.head?_append_of_ne_nil _ hnil] at he
        exact List.mem_of_head? he)
      have hreturn : ¬ (c == '\r' && (w ++ '\n' :: r).head? == some '\n') = true := fun h => hhead (by simp_all)
      rw [if_neg hreturn, ← List.singleton_append (l := w), content_append hnil]
      rfl

theorem allPairs_last (hw : '\n' ∉ w) : AllPairs w := fun a b he => absurd (he ▸ by simp) hw

theorem allPairs_next (hw : '\n' ∉ w) : AllPairs (w ++ '\n' :: r) ↔ w.getLast? = some '\r' ∧ AllPairs r := by
  have hbehind : ∀ a : List Char, (w ++ '\n' :: a).getLast? = some '\r' ↔ a.getLast? = some '\r' := by
    intro a
    cases a with
    | nil => simp
    | cons d a => rw [List.getLast?_append_of_ne_nil _ (List.cons_ne_nil _ _), List.getLast?_cons_cons]
  constructor
  · exact fun h => ⟨h w r rfl, fun a b he => (hbehind a).1 (h (w ++ '\n' :: a) b (by rw [he, List.append_assoc]; rfl))⟩
  · rintro ⟨hlast, hr⟩ a b he
    rcases List.append_eq_append_iff.1 he with ⟨t, rfl, ht⟩ | ⟨t, rfl, ht⟩
    · cases t with
      | nil => rwa [List.append_nil]
      | cons d t =>
        obtain ⟨rfl, rfl⟩ := List.cons.inj ht
        exact (hbehind t).2 (hr t b rfl)
    · cases t with
      | nil => rwa [List.append_nil] at hlast
      | cons d t =>
        obtain ⟨rfl, -⟩ := List.cons.inj ht
        exact absurd (List.mem_append_right a List.mem_cons_self) hw

theorem hasPairs_infix (h : hasPairs mid = true) : hasPairs (x ++ (mid ++ y)) = true := by
  have hfront : hasPairs (mid ++ y) = true := by
    induction mid with
    | nil => cases h
    | cons c mid ih =>
      rw [hasPairs_cons, Bool.or_eq_true, Bool.and_eq_true, beq_iff_eq, beq_iff_eq] at h
      rw [List.cons_append, hasPairs_cons, Bool.or_eq_true, Bool.and_eq_true, beq_iff_eq, beq_iff_eq]
      exact h.imp (fun h => ⟨h.1, by rw [List.head?_append, h.2]; rfl⟩) ih
  induction x with
  | nil => exact hfront
  | cons c x ih => rw [List.cons_append, hasPairs_cons, ih, Bool.or_true]

theorem rebreak_of_hasPairs_eq_false (h : hasPairs mid = false) : rebreak ['\n'] mid = mid := by
  induction mid using lineInduction with
  | last w hw => exact rebreak_last hw
  | next w r hw ih =>
    rw [hasPairs_next hw, Bool.or_eq_false_iff, beq_eq_false_iff_ne] at h
    rw [rebreak_next hw, content_eq_self h.1, ih h.2]
    rfl

theorem rebreak_pairs_eq_iff : rebreak ['\r', '\n'] mid = mid ↔ AllPairs mid := by
  induction mid using lineInduction with
  | last w hw => exact iff_of_true (rebreak_last hw) (allPairs_last hw)
  | next w r hw ih =>
    rw [rebreak_next hw, allPairs_next hw, ← ih]
    by_cases hlast : w.getLast? = some '\r'
    · obtain ⟨v, rfl⟩ := List.getLast?_eq_some_iff.1 hlast
      simp [content_append_return]
    · rw [content_eq_self hlast, List.append_cancel_left_eq]
      simp [hlast]

/-- The line breaks in a part of a text are those that formatting writes just when there are no two kinds of them. -/
theorem rebreak_newlineOf_eq_iff (hcs : cs = x ++ (mid ++ y)) :
    rebreak (newlineOf cs) mid = mid ↔ (hasPairs cs = true → AllPairs mid) := by
  cases hpairs : hasPairs cs with
  | true =>
    rw [newlineOf, if_pos hpairs, rebreak_pairs_eq_iff]
    exact ⟨fun h _ => h, fun h => h rfl⟩
  | false =>
    have hmid : hasPairs mid = false := by
      rw [← Bool.not_eq_true]
      exact fun h => Bool.false_ne_true (hpairs.symm.trans (hcs ▸ hasPairs_infix h))
    rw [newlineOf, if_neg (by simp [hpairs])]
    exact iff_of_true (rebreak_of_hasPairs_eq_false hmid) fun h => absurd h Bool.false_ne_true

end

/-! ## Stretches that are protected -/

section
variable {cs pre w m x mid y nl : List Char} {spans : List Span}

/-- At the start of a line in a literal, or before a character that is no blank. -/
def Entry (spans : List Span) (x m : List Char) : Prop :=
  AtStart x ∧ inside spans (size x) = true ∨ ∃ c ∈ m.head?, isBlank c = false

/-- From such a point on, a line is kept as it is. -/
theorem formatBefore_own (h : Entry spans x m) (hm : '\n' ∉ m) : formatBefore spans nl (x ++ m) = formatBefore spans nl x ++ m := by
  rcases h with ⟨hx, hinside⟩ | hfirst
  · have hline := formatBefore_append spans nl hx (w := []) List.not_mem_nil
    rw [List.append_nil] at hline
    rw [formatBefore_append spans nl hx hm, hline, if_pos hinside, if_pos hinside, List.append_nil]
  · obtain ⟨pre, w, rfl, hpre, hw⟩ := exists_own x
    have hline : '\n' ∉ w ++ m := fun hmem => (List.mem_append.1 hmem).elim hw hm
    rw [List.append_assoc, formatBefore_append spans nl hpre hline, formatBefore_append spans nl hpre hw, List.append_assoc]
    split
    · rfl
    · rw [expandTabs_append (.inr hfirst)]

/-- And if the end of the line is in a literal too, nothing but the line break changes. -/
theorem formatBefore_next (h : Entry spans x m) (hm : '\n' ∉ m) (hinside : inside spans (size (x ++ content m)) = true) :
    formatBefore spans nl (x ++ (m ++ ['\n'])) = formatBefore spans nl x ++ (content m ++ nl) := by
  obtain ⟨pre, w, rfl, hpre, hw, hown⟩ : ∃ pre w, x = pre ++ w ∧ AtStart pre ∧ '\n' ∉ w ∧
      (w = [] ∧ inside spans (size pre) = true ∨ AtInk w m) := by
    rcases h with ⟨hx, hin⟩ | hfirst
    · exact ⟨x, [], (List.append_nil x).symm, hx, List.not_mem_nil, .inl ⟨rfl, hin⟩⟩
    · obtain ⟨pre, w, rfl, hpre, hw⟩ := exists_own x
      exact ⟨pre, w, rfl, hpre, hw, .inr (.inr hfirst)⟩
  have hline : '\n' ∉ w ++ m := fun hmem => (List.mem_append.1 hmem).elim hw hm
  have hcontent : content (w ++ m) = w ++ content m := by
    rcases hown with ⟨rfl, -⟩ | hown
    · rfl
    · exact hown.content_append
  have hl : line spans (size pre) (w ++ m) = reform (inside spans (size pre)) true (w ++ m) := by
    rw [line_eq, hcontent, ← size_append, ← List.append_assoc, hinside]
  have hchars : (reform (inside spans (size pre)) true (w ++ m)).chars =
      (if inside spans (size pre) then w else expandTabs w) ++ content m := by
    rcases hown with ⟨rfl, hin⟩ | hown
    · rw [hin]
      rfl
    · exact chars_reform _ true hown
  have hkept : (reform (inside spans (size pre)) true (w ++ m)).isBlank = false := by simp [Line.isBlank, reform]
  have hnext := formatBefore_append spans nl (atStart_next (pre ++ (w ++ m))) (w := []) List.not_mem_nil
  rw [List.append_nil] at hnext
  have hempty : ∀ b : Bool, (if b = true then ([] : List Char) else expandTabs []) = [] := fun b => by cases b <;> rfl
  have htext : (pre ++ w) ++ (m ++ ['\n']) = (pre ++ (w ++ m)) ++ ['\n'] := by simp only [List.append_assoc]
  rw [htext, hnext, hempty, List.append_nil, List.append_assoc, headLines_append hpre hline, linesFrom_append spans 0 hpre,
    linesFrom, linesFrom, Nat.zero_add, hl, squeeze_append hkept, squeeze, List.flatMap_append, List.flatMap_singleton, hchars,
    formatBefore_append spans nl hpre hw]
  simp only [List.append_assoc]

/-- In a literal, formatting changes line breaks only. -/
theorem formatBefore_rebreak (h : Entry spans x mid)
    (hinside : ∀ m r, mid = m ++ r → m ≠ [] → r ≠ [] → inside spans (size (x ++ m)) = true) :
    formatBefore spans nl (x ++ mid) = formatBefore spans nl x ++ rebreak nl mid := by
  induction mid using lineInduction generalizing x with
  | last m hm => rw [formatBefore_own h hm, rebreak_last hm]
  | next m r hm ih =>
    have hentry : Entry spans x m := h.imp_right fun ⟨c, hc, hblank⟩ => by
      cases m with
      | nil =>
        cases hc
        exact absurd hblank (by decide)
      | cons d m => exact ⟨c, hc, hblank⟩
    have hend : inside spans (size (x ++ content m)) = true := by
      by_cases hnil : content m = []
      · rcases hentry with ⟨-, hin⟩ | ⟨c, hc, hblank⟩
        · rwa [hnil, List.append_nil]
        · have := mem_head?_content hc hblank
          rw [hnil] at this
          cases this
      · rcases content_cases m with hm' | hm'
        · exact hinside (content m) ('\n' :: r) (by rw [← hm']) hnil (List.cons_ne_nil _ _)
        · refine hinside (content m) ('\r' :: '\n' :: r) ?_ hnil (List.cons_ne_nil _ _)
          conv_lhs => rw [hm', List.append_assoc]
          rfl
    have htext : x ++ (m ++ '\n' :: r) = (x ++ (m ++ ['\n'])) ++ r := by simp
    rw [htext, rebreak_next hm]
    by_cases hr : r = []
    · subst hr
      rw [List.append_nil, formatBefore_next hentry hm hend]
      exact congrArg _ (by simp [rebreak])
    · have hstart : Entry spans (x ++ (m ++ ['\n'])) r := by
        refine .inl ⟨?_, hinside (m ++ ['\n']) r (by simp) (by simp) hr⟩
        rw [← List.append_assoc]
        exact atStart_next (x ++ m)
      rw [ih hstart fun m' r' he hm' hr' => ?_, formatBefore_next hentry hm hend]
      · simp only [List.append_assoc]
      · have := hinside (m ++ '\n' :: m') r' (by rw [he]; simp) (by simp) hr'
        simpa using this

/-- What becomes of a stretch that is protected. -/
theorem Carriage.rebroken {s : Span} {x' mid' y' : List Char} (h : Carriage spans cs x mid x' mid' y') (hs : s ∈ spans)
    (hx : size x = s.start) (hmid : size (x ++ mid) = s.stop) (htight : isTight mid = true) :
    mid' = rebreak (newlineOf cs) mid := by
  refine List.append_cancel_left (show x' ++ mid' = x' ++ rebreak (newlineOf cs) mid from ?_)
  rw [h.held, h.before]
  refine formatBefore_rebreak (.inr (isTight_iff.1 htight).1) fun m r he hm hr => ?_
  rw [inside, List.any_eq_true]
  refine ⟨s, hs, ?_⟩
  have := size_pos hm
  have := size_pos hr
  rw [← hx, ← hmid, he]
  simp only [size_append, Bool.and_eq_true, decide_eq_true_eq]
  omega

/-- Stretches that follow one another still do. -/
theorem carried_stop_le {s t : Span} (spans : List Span) (hs : isStretch cs s = true) (ht : isStretch cs t = true)
    (hle : s.stop ≤ t.start) : (carried cs spans s).stop ≤ (carried cs spans t).start := by
  obtain ⟨x, mid, y, hcs, hx, hmid, htight⟩ := isStretch_iff.1 hs
  obtain ⟨u, mid₂, v, hcs₂, hu, hmid₂, htight₂⟩ := isStretch_iff.1 ht
  obtain ⟨x', mid', y', h⟩ := exists_carriage spans hcs htight
  obtain ⟨u', mid₂', v', h₂⟩ := exists_carriage spans hcs₂ htight₂
  rw [(h.carried spans hcs hx hmid).2, (h₂.carried spans hcs₂ hu hmid₂).1]
  have htext : (x' ++ mid') ++ y' = u' ++ (mid₂' ++ v') := by rw [List.append_assoc, ← h.text, h₂.text]
  have hvisible : visible (x' ++ mid') ≤ visible u' := by
    obtain ⟨hinkx, hinkmid⟩ := h.ink
    rw [visible_append, visible_congr hinkx, visible_congr hinkmid, ← visible_append, visible_congr h₂.ink.1]
    exact visible_le_of_size_le (b := y) (y := mid₂ ++ v) (by rw [List.append_assoc, ← hcs, hcs₂]) (by rwa [hmid, hu])
  -- Otherwise some of the first stretch would stand behind the start of the second, and its last character is no blank.
  refine Nat.le_of_not_lt fun hlt => ?_
  obtain ⟨w, hw, -⟩ := exists_mid_of_size_le htext.symm (Nat.le_of_lt hlt)
  obtain ⟨c, hc, hblank⟩ := (isTight_iff.1 h.tight).2
  have hne : w ≠ [] := by
    rintro rfl
    rw [hw, List.append_nil] at hlt
    exact Nat.lt_irrefl _ hlt
  have hlast : c ∈ w.getLast? := by
    have hlast : c ∈ (x' ++ mid').getLast? := by
      rw [List.getLast?_append, Option.mem_def.1 hc]
      rfl
    rwa [hw, List.getLast?_append_of_ne_nil _ hne] at hlast
  have hpos : 0 < visible w := List.countP_pos_iff.2 ⟨c, List.mem_of_getLast? hlast, by simp [hblank]⟩
  rw [hw, visible_append] at hvisible
  omega

/-- What is found where a protected stretch has been carried. -/
theorem slice?_carried {s : Span} (h : isStretch cs s = true) (hs : s ∈ spans) (hmid : slice? cs s.start s.stop = some mid) :
    slice? (formatChars cs spans) (carried cs spans s).start (carried cs spans s).stop = some (rebreak (newlineOf cs) mid) ∧
      (rebreak (newlineOf cs) mid = mid ↔ (hasPairs cs = true → AllPairs mid)) := by
  obtain ⟨x, y, hcs, hx, hstop⟩ := slice?_eq_some hmid
  have htight : isTight mid = true := by simpa [isStretch, hmid] using h
  obtain ⟨x', mid', y', hcarriage⟩ := exists_carriage spans hcs htight
  obtain ⟨hstart', hstop'⟩ := hcarriage.carried spans hcs hx hstop
  refine ⟨?_, rebreak_newlineOf_eq_iff hcs⟩
  rw [hstart', hstop', hcarriage.text, slice?_parts, hcarriage.rebroken hs hx hstop htight]

/-- Protected stretches stay in their order, and each is kept exactly when the text has no line break with a carriage
return, or the stretch has no other. In any case its line breaks become those of the text, and nothing else changes. -/
theorem stretches_kept_iff (h : ∀ s ∈ spans, isStretch cs s = true) :
    (∀ s ∈ spans, ∀ mid, slice? cs s.start s.stop = some mid →
      slice? (formatChars cs spans) (carried cs spans s).start (carried cs spans s).stop = some (rebreak (newlineOf cs) mid) ∧
        (slice? (formatChars cs spans) (carried cs spans s).start (carried cs spans s).stop = some mid ↔
          (hasPairs cs = true → AllPairs mid))) ∧
      ∀ s ∈ spans, ∀ t ∈ spans, s.stop ≤ t.start → (carried cs spans s).stop ≤ (carried cs spans t).start := by
  refine ⟨fun s hs mid hmid => ?_, fun s hs t ht => carried_stop_le spans (h s hs) (h t ht)⟩
  obtain ⟨hnew, hiff⟩ := slice?_carried (h s hs) hs hmid
  exact ⟨hnew, by rw [hnew, Option.some_inj, hiff]⟩

end

/-- A literal with a plain line break, in a line that ends with a carriage return. -/
def mixedBreaks : String := "var s = @\"a\nb\";\r\n"

theorem stretches_kept_ragged : (∀ s ∈ [Span.mk 12 10], isStretch ragged.toList s = true) ∧
    slice? ragged.toList 12 22 = some "@\"a \n\n\n\tb\"".toList ∧
      slice? (formatChars ragged.toList [⟨12, 10⟩]) 12 25 = some "@\"a \r\n\r\n\r\n\tb\"".toList := by
  have hstretch : ∀ s ∈ [Span.mk 12 10], isStretch ragged.toList s = true := by decide +kernel
  have hslice : slice? ragged.toList 12 22 = some "@\"a \n\n\n\tb\"".toList := by decide +kernel
  have hcarried : carried ragged.toList [⟨12, 10⟩] ⟨12, 10⟩ = ⟨12, 13⟩ := by decide +kernel
  have hkept := (((stretches_kept_iff hstretch).1 ⟨12, 10⟩ List.mem_cons_self _ hslice).1)
  rw [hcarried] at hkept
  exact ⟨hstretch, hslice, hkept.trans (by decide +kernel)⟩

/-- The value of a literal changes when its line breaks are not those of the text around it. -/
theorem mixedBreaks_not_kept : literalRanges (.ofText parse "a.cs" mixedBreaks) = [⟨8, 6⟩] ∧
    isStretch mixedBreaks.toList ⟨8, 6⟩ = true ∧ slice? mixedBreaks.toList 8 14 = some "@\"a\nb\"".toList ∧
      formatText mixedBreaks [⟨8, 6⟩] = "var s = @\"a\r\nb\";\r\n" ∧
        ¬ "@\"a\nb\"".toList <:+: (formatText mixedBreaks [⟨8, 6⟩]).toList := by
  decide +kernel

/-! ## Literals of a document -/

/-- The spans that formatting a document protects begin and end with characters that are no blanks. -/
theorem isStretch_literalRanges {f : SourceFile} (hf : f.Sound) : ∀ s ∈ literalRanges f, isStretch f.chars s = true := by
  intro s hs
  rw [literalRanges_eq] at hs
  obtain ⟨n, hn, rfl⟩ := List.mem_map.1 hs
  obtain ⟨x, mid, y, hchars, hx, hmid, -, htight⟩ := exists_parts_of_literal hf (List.mem_filter.1 hn).1
  have hdesc := Node.mem_descendants_of_mem_walk (List.mem_filter.1 (List.mem_filter.1 hn).1).1
  refine isStretch_iff.2 ⟨x, mid, y, hchars, hx, hmid.trans ?_, htight⟩
  exact (Node.stop_span (Node.fits_of_mem_descendants hf.fits hdesc)).symm

/-- A literal that spans lines keeps its value when its document is formatted, exactly when the document has no line break
with a carriage return, or the literal has no other. -/
theorem literal_kept_iff {c : Compilation} {s next : Snapshot} {path : String} {f : SourceFile} {n : Node}
    (hfile : c.file path = .ok f) (hf : f.Sound) (hformat : formatDocument c s path = .ok next) (hn : n ∈ literals f)
    (hlines : '\n' ∈ (f.text n).toList) : ∃ text, next.text? path = some text ∧
      (slice? text.toList (carried f.chars (literalRanges f) n.span).start (carried f.chars (literalRanges f) n.span).stop =
        some (f.text n).toList ↔ (hasPairs f.chars = true → AllPairs (f.text n).toList)) := by
  rw [formatDocument, hfile] at hformat
  obtain ⟨-, -, -, htexts⟩ := Snapshot.withText_ok hformat
  refine ⟨_, by rw [htexts, if_pos rfl], ?_⟩
  have hmem : n.span ∈ literalRanges f := by
    rw [literalRanges_eq]
    exact List.mem_map.2 ⟨n, List.mem_filter.2 ⟨hn, by simpa using hlines⟩, rfl⟩
  have hfits := Node.fits_of_mem_descendants hf.fits (Node.mem_descendants_of_mem_walk (List.mem_filter.1 hn).1)
  have hslice : slice? f.chars n.span.start n.span.stop = some (f.text n).toList := by
    rw [Node.stop_span hfits]
    exact slice?_text (Node.fits_start hfits) (Node.fits_stop hfits) (Node.fits_range hfits)
  obtain ⟨hnew, hiff⟩ := slice?_carried (isStretch_literalRanges hf _ hmem) hmem hslice
  rw [String.toList_ofList, hnew, Option.some_inj, hiff]

end Workbench.CSharp.Layout
