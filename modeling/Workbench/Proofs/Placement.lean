import Workbench.CSharp.Local
import Workbench.CSharp.Modifier

/-!
# Places in a text

Byte offsets between characters stay such when a range is widened to whole
lines, and one edit between two of them can always be made. A tree fits a text
when its ranges lie between characters and each child in its parent.
-/

namespace Workbench

/-! ## Boundaries -/

namespace Text

theorem isBoundary_iff {cs : List Char} {n : Nat} : isBoundary cs n = true ↔ ∃ a b, cs = a ++ b ∧ size a = n := by
  rw [isBoundary, Option.isSome_iff_exists]
  constructor
  · rintro ⟨⟨a, b⟩, h⟩
    exact ⟨a, b, splitAt?_eq_some_iff.1 h⟩
  · rintro ⟨a, b, h⟩
    exact ⟨(a, b), splitAt?_eq_some_iff.2 h⟩

theorem isBoundary_append (a b : List Char) : isBoundary (a ++ b) (size a) = true := isBoundary_iff.2 ⟨a, b, rfl, rfl⟩

theorem le_size_of_isBoundary {cs : List Char} {n : Nat} (h : isBoundary cs n = true) : n ≤ size cs := by
  obtain ⟨a, b, rfl, rfl⟩ := isBoundary_iff.1 h
  rw [size_append]
  exact Nat.le_add_right _ _

theorem size_pos {cs : List Char} (h : cs ≠ []) : 0 < size cs := by
  cases cs with
  | nil => exact absurd rfl h
  | cons c r =>
    have := c.utf8Size_pos
    rw [size_cons]
    omega

theorem size_eq_zero {w : List Char} (h : size w = 0) : w = [] := by
  cases w with
  | nil => rfl
  | cons c r => exact absurd (size_pos (List.cons_ne_nil c r)) (by omega)

theorem exists_mid_of_size_le {a b a' b' : List Char} (h : a ++ b = a' ++ b') (hle : size a ≤ size a') :
    ∃ mid, a' = a ++ mid ∧ b = mid ++ b' := by
  rcases List.append_eq_append_iff.1 h with ⟨mid, h1, h2⟩ | ⟨mid, h1, h2⟩
  · exact ⟨mid, h1, h2⟩
  · rw [h1, size_append] at hle
    obtain rfl : mid = [] := size_eq_zero (by omega)
    exact ⟨[], by simpa using h1.symm, by simpa using h2.symm⟩

theorem exists_parts {cs : List Char} {a b : Nat} (ha : isBoundary cs a = true) (hb : isBoundary cs b = true)
    (h : a ≤ b) : ∃ before mid after, cs = before ++ (mid ++ after) ∧ size before = a ∧ size mid = b - a := by
  obtain ⟨x, y, rfl, rfl⟩ := isBoundary_iff.1 ha
  obtain ⟨x', y', hx, rfl⟩ := isBoundary_iff.1 hb
  obtain ⟨mid, rfl, rfl⟩ := exists_mid_of_size_le hx h
  exact ⟨x, mid, y', rfl, rfl, by rw [size_append]; omega⟩

/-! ## Slices -/

theorem slice?_parts (x mid y : List Char) : slice? (x ++ (mid ++ y)) (size x) (size (x ++ mid)) = some mid := by
  have hle : size x ≤ size (x ++ mid) := by
    rw [size_append]
    exact Nat.le_add_right _ _
  have hmid : size (x ++ mid) - size x = size mid := by
    rw [size_append]
    exact Nat.add_sub_cancel_left _ _
  rw [slice?, if_pos hle, splitAt?_append]
  dsimp only
  rw [hmid, splitAt?_append]
  rfl

theorem slice?_eq_some {cs mid : List Char} {m n : Nat} (h : slice? cs m n = some mid) :
    ∃ x y, cs = x ++ (mid ++ y) ∧ size x = m ∧ size (x ++ mid) = n := by
  rw [slice?] at h
  split at h
  · rename_i hle
    split at h
    · rename_i p r hp
      obtain ⟨q, hq, rfl⟩ := Option.map_eq_some_iff.1 h
      obtain ⟨rfl, rfl⟩ := append_of_splitAt? hp
      obtain ⟨rfl, hsize⟩ := append_of_splitAt? hq
      exact ⟨p, q.2, rfl, rfl, by rw [size_append, hsize]; omega⟩
    · cases h
  · cases h

/-! ## Whole lines -/

theorem dropEndWhile_eq_append (p : Char → Bool) (cs : List Char) :
    ∃ back, cs = dropEndWhile p cs ++ back ∧ ∀ c ∈ back, p c = true := by
  induction cs with
  | nil => exact ⟨[], rfl, by simp⟩
  | cons c r ih =>
    obtain ⟨back, hr, hb⟩ := ih
    rw [dropEndWhile]
    split
    · rename_i hnil
      rw [hnil, List.nil_append] at hr
      by_cases hc : p c
      · refine ⟨c :: back, by simp [hc, hr], ?_⟩
        intro d hd
        rcases List.mem_cons.1 hd with rfl | hd
        · exact hc
        · exact hb d hd
      · exact ⟨back, by simp [hc, hr], hb⟩
    · rename_i d r' hcons
      rw [hcons] at hr
      exact ⟨back, by rw [hr]; rfl, hb⟩

/-- Widening to whole lines ends between characters and loses nothing. -/
theorem removalSpan_spec {cs : List Char} {start stop : Nat} (ha : isBoundary cs start = true)
    (hb : isBoundary cs stop = true) :
    isBoundary cs (removalSpan cs start stop).1 = true ∧ isBoundary cs (removalSpan cs start stop).2 = true ∧
      (removalSpan cs start stop).1 ≤ start ∧ stop ≤ (removalSpan cs start stop).2 := by
  obtain ⟨before, rest, hcs, hstart⟩ := isBoundary_iff.1 ha
  obtain ⟨front, after, hcs', hstop⟩ := isBoundary_iff.1 hb
  rw [removalSpan, splitAt?_eq_some_iff.2 ⟨hcs, hstart⟩, splitAt?_eq_some_iff.2 ⟨hcs', hstop⟩]
  dsimp only
  split
  · rename_i hwhole
    obtain ⟨back, hback, -⟩ := dropEndWhile_eq_append isIndent before
    obtain ⟨gap, hgap⟩ : ∃ gap, after = gap ++ after.dropWhile (fun c => isIndent c || c == '\r') :=
      ⟨_, List.takeWhile_append_dropWhile.symm⟩
    generalize dropEndWhile isIndent before = left at hback hwhole ⊢
    generalize after.dropWhile (fun c => isIndent c || c == '\r') = right at hgap hwhole ⊢
    subst hback hgap
    rw [size_append] at hstart ⊢
    have hgapsize : size gap + size right - size right = size gap := by omega
    refine ⟨?_, ?_, by omega, by omega⟩
    · rw [hcs, List.append_assoc]
      exact isBoundary_append _ _
    · rw [hgapsize, ← hstop, hcs']
      cases right with
      | nil =>
        have := isBoundary_append (front ++ gap) []
        simpa [List.append_assoc] using this
      | cons c r =>
        have hc : c = '\n' := by simpa using (Bool.and_eq_true_iff.1 hwhole).2
        subst hc
        have := isBoundary_append (front ++ gap ++ ['\n']) r
        simpa [List.append_assoc, Nat.add_assoc, Char.utf8Size] using this
  · exact ⟨ha, hb, Nat.le_refl _, Nat.le_refl _⟩

/-! ## Lines and columns -/

theorem lineColFrom_le (cs : List Char) (n line : Nat) {col : Nat} (h : 1 ≤ col) :
    (lineColFrom cs n line col).1 ≤ line + n ∧ (lineColFrom cs n line col).2 ≤ col + n := by
  fun_induction lineColFrom cs n line col with
  | case1 => exact ⟨Nat.le_refl _, Nat.le_refl _⟩
  | case2 => exact ⟨Nat.le_add_right _ _, Nat.le_add_right _ _⟩
  | case3 => exact ⟨Nat.le_add_right _ _, by omega⟩
  | case4 c r n line col hsize hc ih =>
    have := ih (Nat.le_refl 1)
    omega
  | case5 c r n line col hsize hc ih =>
    have := ih (Nat.le_add_left 1 col)
    have := c.utf8Size_pos
    omega

theorem lineCol_le (cs : List Char) (n : Nat) : (lineCol cs n).1 ≤ n + 1 ∧ (lineCol cs n).2 ≤ n + 1 := by
  have := lineColFrom_le cs n 1 (Nat.le_refl 1)
  unfold lineCol
  omega

theorem size_of_dropLines {cs : List Char} {n : Nat} {p : Nat × List Char} (h : dropLines cs n = some p) :
    p.1 + size p.2 = size cs := by
  fun_induction dropLines cs n generalizing p with
  | case1 => cases h; simp
  | case2 => cases h
  | case3 c r n ih =>
    obtain ⟨q, hq, rfl⟩ := Option.map_eq_some_iff.1 h
    have := ih hq
    simp only [size_cons]
    omega

theorem offsetOf_le {cs : List Char} {line col n : Nat} (h : offsetOf cs line col = some n) : n ≤ size cs := by
  unfold offsetOf at h
  split at h
  · cases h
  · split at h
    · cases h
    · rename_i start r hlines
      dsimp only at h
      split at h
      · cases h
        have hsize := size_of_dropLines hlines
        obtain ⟨back, hback, -⟩ := dropEndWhile_eq_append (· == '\r') (r.takeWhile (· != '\n'))
        have hline := congrArg size (List.takeWhile_append_dropWhile (p := (· != '\n')) (l := r))
        have hbody := congrArg size (List.take_append_drop (col - 1) (lineBody r))
        rw [hback] at hline
        change _ = size (dropEndWhile _ _) at hbody
        simp only [size_append] at hline hbody
        dsimp only at hsize
        omega
      · cases h

end Text

/-! ## Edits -/

/-- Both ends of a span lie between characters of a text. -/
structure Span.Fits (cs : List Char) (s : Span) : Prop where
  start : Text.isBoundary cs s.start = true
  stop : Text.isBoundary cs s.stop = true

namespace Span

theorem stop_ofBounds {a b : Nat} (h : a ≤ b) : (ofBounds a b).stop = b := Nat.add_sub_cancel' h

theorem Fits.ofBounds {cs : List Char} {a b : Nat} (ha : Text.isBoundary cs a = true)
    (hb : Text.isBoundary cs b = true) :
    (Span.ofBounds a b).Fits cs := by
  refine ⟨ha, ?_⟩
  by_cases h : a ≤ b
  · rwa [stop_ofBounds h]
  · have hlen : b - a = 0 := by omega
    rw [Span.ofBounds, hlen]
    exact ha

theorem Fits.point {cs : List Char} {a : Nat} (ha : Text.isBoundary cs a = true) : Span.Fits cs ⟨a, 0⟩ := ⟨ha, ha⟩

theorem Fits.start_le {cs : List Char} {s : Span} (h : s.Fits cs) : s.start ≤ Text.size cs :=
  Text.le_size_of_isBoundary h.start

theorem Fits.length_le {cs : List Char} {s : Span} (h : s.Fits cs) : s.length ≤ Text.size cs :=
  Nat.le_trans (Nat.le_add_left _ _) (Text.le_size_of_isBoundary h.stop)

end Span

namespace Edit

/-- An edit between two boundaries replaces what stands there. -/
theorem applyAll_single {text : String} {s : Span} (new : String) (h : s.Fits text.toList) :
    ∃ before gone after, text.toList = before ++ (gone ++ after) ∧ Text.size gone = s.length ∧
      applyAll text [⟨s, new⟩] = .ok (.ofList (before ++ (new.toList ++ after))) := by
  obtain ⟨before, gone, after, htext, hstart, hgone⟩ := Text.exists_parts h.start h.stop (Nat.le_add_right _ _)
  have hlen : Text.size gone = s.length := by
    rw [hgone]
    exact Nat.add_sub_cancel_left _ _
  refine ⟨before, gone, after, htext, hlen, ?_⟩
  have hcut : Text.splitAt? text.toList (s.start - 0) = some (before, gone ++ after) :=
    Text.splitAt?_eq_some_iff.2 ⟨htext, hstart⟩
  have hcut' : Text.splitAt? (gone ++ after) s.length = some (gone, after) :=
    Text.splitAt?_eq_some_iff.2 ⟨rfl, hlen⟩
  simp only [applyAll, applyChars, List.mergeSort_singleton, applyFrom, Nat.not_lt_zero, if_false, hcut, hcut',
    Except.map, List.append_assoc]

theorem applyAll_single_size {text out new : String} {s : Span} (h : s.Fits text.toList)
    (ho : applyAll text [⟨s, new⟩] = .ok out) :
    Text.size out.toList + s.length = Text.size text.toList + Text.size new.toList := by
  obtain ⟨before, gone, after, htext, hlen, hout⟩ := applyAll_single new h
  obtain rfl : String.ofList (before ++ (new.toList ++ after)) = out := Except.ok.inj (hout.symm.trans ho)
  rw [htext, String.toList_ofList]
  simp only [Text.size_append]
  omega

theorem applyAll_delete_size {text out : String} {s : Span} (h : s.Fits text.toList)
    (ho : applyAll text [.delete s] = .ok out) : Text.size out.toList + s.length = Text.size text.toList :=
  applyAll_single_size h ho

end Edit

/-! ## Trees -/

namespace CSharp

namespace Node

mutual

/-- A tree fits a text when its ranges lie between characters and those of children in those of their parents. A using
directive is never empty, and the declarators of one declaration follow one another. -/
def fits (cs : List Char) : Node → Bool
  | mk k _ a b _ children =>
    a ≤ b && Text.isBoundary cs a && Text.isBoundary cs b && (k != .usingDirective || a < b) &&
      Modifier.chained (fun d e => d.start < e.start && d.stop ≤ e.start)
        (children.filter (·.kind == .variableDeclarator)) &&
      fitAll cs a b children

def fitAll (cs : List Char) (a b : Nat) : List Node → Bool
  | [] => true
  | n :: rest => a ≤ n.start && n.stop ≤ b && fits cs n && fitAll cs a b rest

end

section
variable {cs : List Char} {n c : Node}

theorem fits_mk {k : Kind} {r : Role} {a b : Nat} {t : String} {children : List Node}
    (h : fits cs (mk k r a b t children) = true) :
    (a ≤ b ∧ Text.isBoundary cs a = true ∧ Text.isBoundary cs b = true) ∧ (k = .usingDirective → a < b) ∧
      Modifier.chained (fun d e => d.start < e.start && d.stop ≤ e.start)
        (children.filter (·.kind == .variableDeclarator)) = true ∧ fitAll cs a b children = true := by
  simp only [fits, Bool.and_eq_true, decide_eq_true_eq, Bool.or_eq_true, bne_iff_ne] at h
  obtain ⟨⟨⟨⟨⟨hab, ha⟩, hb⟩, hu⟩, hd⟩, hall⟩ := h
  exact ⟨⟨hab, ha, hb⟩, fun hk => hu.resolve_left fun hne => hne hk, hd, hall⟩

theorem fitAll_mem {a b : Nat} {children : List Node} (h : fitAll cs a b children = true) (hc : c ∈ children) :
    c.fits cs = true ∧ a ≤ c.start ∧ c.stop ≤ b := by
  induction children with
  | nil => cases hc
  | cons d r ih =>
    simp only [fitAll, Bool.and_eq_true, decide_eq_true_eq] at h
    obtain ⟨⟨⟨ha, hb⟩, hd⟩, hr⟩ := h
    rcases List.mem_cons.1 hc with rfl | hc
    · exact ⟨hd, ha, hb⟩
    · exact ih hr hc

theorem fits_range (h : n.fits cs = true) : n.start ≤ n.stop := by
  cases n
  exact (fits_mk h).1.1

theorem fits_start (h : n.fits cs = true) : Text.isBoundary cs n.start = true := by
  cases n
  exact (fits_mk h).1.2.1

theorem fits_stop (h : n.fits cs = true) : Text.isBoundary cs n.stop = true := by
  cases n
  exact (fits_mk h).1.2.2

theorem fits_span (h : n.fits cs = true) : n.span.Fits cs := .ofBounds (fits_start h) (fits_stop h)

theorem stop_span (h : n.fits cs = true) : n.span.stop = n.stop := Span.stop_ofBounds (fits_range h)

theorem fits_usingDirective (h : n.fits cs = true) (hk : n.kind = .usingDirective) : n.start < n.stop := by
  cases n
  exact (fits_mk h).2.1 hk

theorem fits_declarators (h : n.fits cs = true) :
    Modifier.chained (fun d e => d.start < e.start && d.stop ≤ e.start) n.declarators = true := by
  cases n
  exact (fits_mk h).2.2.1

theorem fits_child (h : n.fits cs = true) (hc : c ∈ n.children) :
    c.fits cs = true ∧ n.start ≤ c.start ∧ c.stop ≤ n.stop := by
  cases n
  exact fitAll_mem (fits_mk h).2.2.2 hc

mutual

theorem fits_of_mem_walk {enter : Node → Bool} {around : List Node} {f : Focus} :
    ∀ n : Node, n.fits cs = true → f ∈ n.walk enter around → f.node.fits cs = true
  | mk k r a b t children, h, hf => by
    rw [walk] at hf
    rcases List.mem_cons.1 hf with rfl | hf
    · exact h
    · split at hf
      · exact fits_of_mem_walkAll children (fits_mk h).2.2.2 hf
      · cases hf

theorem fits_of_mem_walkAll {enter : Node → Bool} {around : List Node} {f : Focus} {a b : Nat} :
    ∀ children : List Node, fitAll cs a b children = true → f ∈ walkAll enter around children → f.node.fits cs = true
  | [], _, hf => by cases hf
  | n :: rest, h, hf => by
    have hn := (fitAll_mem h List.mem_cons_self).1
    have hrest : fitAll cs a b rest = true := by
      simp only [fitAll, Bool.and_eq_true] at h
      exact h.2
    rw [walkAll] at hf
    rcases List.mem_append.1 hf with hf | hf
    · split at hf
      · exact fits_of_mem_walk n hn hf
      · cases hf
    · exact fits_of_mem_walkAll rest hrest hf

end

theorem fits_of_mem_descendants {m : Node} (h : n.fits cs = true) (hm : m ∈ n.descendants) : m.fits cs = true := by
  obtain ⟨f, hf, rfl⟩ := List.mem_map.1 hm
  exact fits_of_mem_walk n h hf

theorem start_lt_stop_of_text {f : SourceFile} (h : f.text n ≠ "") : n.start < n.stop := by
  refine Nat.lt_of_not_le fun hle => h ?_
  rw [SourceFile.text, textIn, chars]
  cases hslice : Text.slice? f.chars n.start n.stop with
  | none => rfl
  | some mid =>
    obtain ⟨x, y, -, hx, hmid⟩ := Text.slice?_eq_some hslice
    rw [Text.size_append] at hmid
    obtain rfl : mid = [] := Text.size_eq_zero (by omega)
    rfl

end

end Node

end CSharp

end Workbench
