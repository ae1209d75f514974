import Workbench.Proofs.Referring

/-!
# Names of types

The text of a reference is cut at the first angle bracket, then behind the last
colons and the last dot. What is left is the last name when no other name has
type arguments, and when the suffixes could be taken off before.
-/

namespace Workbench.Symbol

open Text

/-! ## The last name of a text -/

section
variable {cs g u v w r : List Char} {p : Char → Bool}

theorem trimStart_append (h : ∃ c ∈ v.head?, isBlank c = false) (u : List Char) :
    trimStart (u ++ v) = trimStart u ++ v := by
  obtain ⟨c, hc, hblank⟩ := h
  obtain ⟨r, rfl⟩ := List.head?_eq_some_iff.1 hc
  rw [trimStart, trimStart, List.dropWhile_append]
  split
  · rename_i hnil
    rw [List.isEmpty_iff.1 hnil, List.nil_append, List.dropWhile_cons_of_neg (by simp [hblank])]
  · rfl

theorem head_word (hw : IsWord w) (r : List Char) : ∃ c ∈ (w ++ r).head?, isBlank c = false := by
  obtain ⟨c, w, rfl⟩ := List.exists_cons_of_ne_nil hw.ne
  exact ⟨c, rfl, hw.visible c List.mem_cons_self⟩

theorem trimEnd_word (hw : IsWord w) (u r : List Char) : trimEnd (u ++ (w ++ r)) = u ++ (w ++ trimEnd r) := by
  have hlast : ∀ c ∈ (u ++ w).getLast?, isBlank c = false := by
    rw [List.getLast?_append_of_ne_nil u hw.ne]
    exact fun c hc => hw.visible c (List.mem_of_getLast? hc)
  rw [← List.append_assoc, trimEnd, dropEndWhile_append_keep hlast, List.append_assoc]
  rfl

theorem trim_word (hg : ∀ c ∈ g, isBlank c = true) (hw : IsWord w) (r : List Char) :
    Text.trim (g ++ (w ++ r)) = w ++ trimEnd r := by
  rw [Text.trim, trimStart_append (head_word hw r), trimStart, List.dropWhile_eq_nil_iff.2 hg]
  exact trimEnd_word hw [] r

theorem afterColons_append (h : ':' ∉ v) (u : List Char) : afterColons (u ++ v) = afterColons u ++ v := by
  have hbefore : ∀ v u : List Char, ':' ∉ v → beforeColons (v ++ u) = v ++ beforeColons u := by
    intro v u h
    induction v with
    | nil => rfl
    | cons c v ih =>
      rw [List.mem_cons, not_or] at h
      simp [beforeColons, Ne.symm h.1, ih h.2]
  rw [afterColons, List.reverse_append, hbefore _ _ (by simpa using h), List.reverse_append, List.reverse_reverse]
  rfl

theorem afterLast_append (h : ∀ c ∈ v, p c = false) (u : List Char) : afterLast p (u ++ v) = afterLast p u ++ v := by
  rw [afterLast, List.reverse_append, List.takeWhile_append_of_pos (by simpa using h), List.reverse_append,
    List.reverse_reverse]
  rfl

/-- What is left when a text is cut behind its last pair of colons and its last dot. -/
def lastName (cs : List Char) : List Char := Text.trim (afterLast (· == '.') (afterColons cs))

theorem lastName_append (hu : u = [] ∨ ['.'] <:+ u ∨ "::".toList <:+ u) (hv : '.' ∉ v ∧ ':' ∉ v) :
    lastName (u ++ v) = Text.trim v := by
  have hdots : ∀ c ∈ v, (c == '.') = false := fun c hc => by simpa using fun he : c = '.' => hv.1 (he ▸ hc)
  rw [lastName, afterColons_append hv.2, afterLast_append hdots]
  rcases hu with rfl | ⟨u, rfl⟩ | ⟨u, rfl⟩
  · rfl
  · rw [afterColons_append (by decide), afterLast, List.reverse_append]
    simp
  · have hcolons : afterColons (u ++ "::".toList) = [] := by simp [afterColons, beforeColons]
    rw [hcolons]
    rfl

theorem simpleTypeChars_eq (cs : List Char) :
    simpleTypeChars cs = lastName (dropEndWhile isSuffixMark ((Text.trim cs).takeWhile (· != '<'))) := rfl

/-- A text behind which a last name may begin. -/
def EndsName (u : List Char) : Prop := u = [] ∨ ['.'] <:+ u ∨ "::".toList <:+ u

theorem Ident.isWord (n : Ident) : IsWord n.chars where
  ne := n.ne
  visible c hc := by
    have := n.plain c hc
    rw [isNameChar, Bool.and_eq_true] at this
    simpa using this.1

theorem Ident.solid (n : Ident) {c : Char} (h : c ∈ n.chars) : c ≠ '.' ∧ c ≠ ':' ∧ isSuffixMark c = false := by
  have := n.plain c h
  refine ⟨?_, ?_, Bool.eq_false_iff.2 fun hm => ?_⟩
  · rintro rfl
    revert this
    decide
  · rintro rfl
    revert this
    decide
  · rcases isSuffixMark_iff.1 hm with rfl | rfl | rfl <;> revert this <;> decide

theorem EndsName.trimStart (hu : EndsName u) (hg : ∀ c ∈ g, isBlank c = true) : ∃ u' g', EndsName u' ∧
    (∀ c ∈ g', isBlank c = true) ∧ ∀ v, (∃ c ∈ v.head?, isBlank c = false) → trimStart (u ++ (g ++ v)) = u' ++ (g' ++ v) := by
  rcases hu with rfl | ⟨u, rfl⟩ | ⟨u, rfl⟩
  · refine ⟨[], [], .inl rfl, by simp, fun v hv => ?_⟩
    rw [List.nil_append, trimStart_append hv, Text.trimStart, List.dropWhile_eq_nil_iff.2 hg]
    rfl
  · refine ⟨Text.trimStart u ++ ['.'], g, .inr (.inl (List.suffix_append _ _)), hg, fun v _ => ?_⟩
    rw [List.append_assoc, trimStart_append ⟨'.', rfl, by decide⟩, List.append_assoc]
  · refine ⟨Text.trimStart u ++ "::".toList, g, .inr (.inr (List.suffix_append _ _)), hg, fun v _ => ?_⟩
    rw [List.append_assoc, trimStart_append ⟨':', rfl, by decide⟩, List.append_assoc]

/-- The last name is read off a text together with what stands between it and the marks at the end. -/
theorem lastName_ident (n : Ident) (hu : EndsName u) (hg : ∀ c ∈ g, isBlank c = true) (hr : '.' ∉ r ∧ ':' ∉ r) :
    lastName (dropEndWhile isSuffixMark (trimStart (u ++ (g ++ (n.chars ++ r))))) =
      n.chars ++ trimEnd (dropEndWhile isSuffixMark r) := by
  obtain ⟨u', g', hu', hg', htrim⟩ := hu.trimStart hg
  have hlast : ∀ c ∈ (u' ++ (g' ++ n.chars)).getLast?, isSuffixMark c = false := by
    intro c hc
    rw [← List.append_assoc, List.getLast?_append_of_ne_nil _ n.ne] at hc
    exact (n.solid (List.mem_of_getLast? hc)).2.2
  have hmem : ∀ d, isBlank d = false → d ∉ n.chars → d ∉ r → d ∉ g' ++ (n.chars ++ dropEndWhile isSuffixMark r) := by
    intro d hd hn hr hmem
    simp only [List.mem_append] at hmem
    rcases hmem with h | h | h
    · simp [hg' d h] at hd
    · exact hn h
    · exact hr (mem_of_mem_dropEndWhile h)
  have hdot := hmem '.' (by decide) (fun h => (n.solid h).1 rfl) hr.1
  have hcolon := hmem ':' (by decide) (fun h => (n.solid h).2.1 rfl) hr.2
  rw [htrim _ (head_word n.isWord r), show u' ++ (g' ++ (n.chars ++ r)) = (u' ++ (g' ++ n.chars)) ++ r by simp,
    dropEndWhile_append_keep hlast, List.append_assoc, List.append_assoc,
    lastName_append hu' ⟨hdot, hcolon⟩, trim_word hg' n.isWord]

/-! ### Cutting at a token -/

theorem Laid.cut {front rest : List (List Char)} (h : Laid (front ++ w :: rest) cs) : ∃ u g r, cs = u ++ (g ++ (w ++ r)) ∧
    (∀ c ∈ g, isBlank c = true) ∧ Laid rest r ∧ (∀ c ∈ u, isBlank c = true ∨ c ∈ front.flatten) ∧
    (front = [] → u = []) ∧ ∀ t ∈ front.getLast?, t <:+ u := by
  induction front generalizing cs with
  | nil =>
    cases h with
    | token hblank hrest => exact ⟨[], _, _, rfl, hblank, hrest, by simp, fun _ => rfl, by simp⟩
  | cons t front ih =>
    cases h with
    | token hblank hrest =>
      rename_i gap r
      obtain ⟨u, g, r, rfl, hg, hr, hchars, hnil, hlast⟩ := ih hrest
      refine ⟨gap ++ (t ++ u), g, r, by simp, hg, hr, ?_, by simp, ?_⟩
      · intro c hc
        simp only [List.mem_append, List.flatten_cons] at hc ⊢
        rcases hc with hc | hc | hc
        · exact .inl (hblank c hc)
        · exact .inr (.inl hc)
        · exact (hchars c hc).imp_right .inr
      · intro s hs
        by_cases hfront : front = []
        · subst hfront
          obtain rfl : t = s := by simpa using hs
          rw [hnil rfl, List.append_nil]
          exact List.suffix_append _ _
        · rw [List.getLast?_cons_of_ne_nil hfront] at hs
          exact (hlast s hs).trans ⟨gap ++ t, by simp⟩

/-! ### The name that is read -/

variable {rooted : Bool} {qualifier : List Segment} {last : Segment} {suffixes : List Suffix}

theorem qualifierTokens_append (as bs : List Segment) :
    qualifierTokens (as ++ bs) = qualifierTokens as ++ qualifierTokens bs := by
  induction as with
  | nil => rfl
  | cons a as ih => rw [List.cons_append, qualifierTokens, ih, qualifierTokens, List.append_assoc, List.cons_append]

theorem endsName_of_cut {as : List Segment} (hnil : rootTokens rooted ++ qualifierTokens as = [] → u = [])
    (hlast : ∀ t ∈ (rootTokens rooted ++ qualifierTokens as).getLast?, t <:+ u) : EndsName u := by
  rcases List.eq_nil_or_concat as with rfl | ⟨as, s, rfl⟩
  · cases rooted with
    | false => exact .inl (hnil rfl)
    | true => exact .inr (.inr (hlast _ rfl))
  · refine .inr (.inl (hlast _ ?_))
    rw [List.concat_eq_append, qualifierTokens_append]
    simp [qualifierTokens, List.getLast?_append]

/-- The text of plain names and of the name that follows them. -/
theorem Laid.cut_segment {as : List Segment} {n : Ident} {rest : List (List Char)} (hplain : ∀ s ∈ as, s.isGeneric = false)
    (h : Laid (rootTokens rooted ++ qualifierTokens as ++ n.chars :: rest) cs) :
    ∃ u g r, cs = u ++ (g ++ (n.chars ++ r)) ∧ EndsName u ∧ (∀ c ∈ g, isBlank c = true) ∧ Laid rest r ∧
      '<' ∉ u ++ (g ++ n.chars) := by
  obtain ⟨u, g, r, rfl, hg, hr, hchars, hnil, hlast⟩ := h.cut
  refine ⟨u, g, r, rfl, endsName_of_cut hnil hlast, hg, hr, fun hopen => ?_⟩
  have hblank : isBlank '<' = false := by decide
  have hroot : '<' ∉ (rootTokens rooted).flatten := by cases rooted <;> decide
  simp only [List.mem_append] at hopen
  rcases hopen with hu | hgap | hn
  · rcases hchars _ hu with hc | hc
    · simp [hblank] at hc
    · rw [List.flatten_append, List.mem_append, or_iff_right hroot, open_mem_qualifier] at hc
      obtain ⟨s, hs, hsome⟩ := hc
      simp [hplain s hs] at hsome
  · exact absurd (hg _ hgap) (by simp [hblank])
  · exact (n.bare hn).1 rfl

theorem tokens_split {as bs : List Segment} {s : Segment} (h : qualifier ++ [last] = as ++ s :: bs) (ts : List (List Char)) :
    ∃ rest, qualifierTokens qualifier ++ (last.tokens ++ ts) = qualifierTokens as ++ (s.tokens ++ rest) := by
  rcases List.eq_nil_or_concat bs with rfl | ⟨bs, b, rfl⟩
  · obtain ⟨rfl, hlast⟩ := List.append_inj' h rfl
    obtain rfl := List.singleton_inj.1 hlast
    exact ⟨ts, rfl⟩
  · rw [List.concat_eq_append, ← List.cons_append, ← List.append_assoc] at h
    obtain ⟨rfl, -⟩ := List.append_inj' h rfl
    rw [qualifierTokens_append, qualifierTokens, List.append_assoc, List.append_assoc]
    exact ⟨_, rfl⟩

theorem takeWhile_trim (h : '<' ∉ u) (r : List Char) : (Text.trim (u ++ '<' :: r)).takeWhile (· != '<') = trimStart u := by
  have hkeep : ∀ c ∈ (trimStart u ++ ['<']).getLast?, isBlank c = false := by
    rw [List.getLast?_concat]
    rintro c ⟨⟩
    decide
  have hall : ∀ c ∈ trimStart u, (c != '<') = true := by
    intro c hc
    simpa using fun he : c = '<' => h (he ▸ (List.dropWhile_suffix _).mem hc)
  rw [Text.trim, trimStart_append ⟨'<', rfl, by decide⟩, trimEnd, List.append_cons, dropEndWhile_append_keep hkeep,
    List.append_assoc, List.takeWhile_append_of_pos hall]
  simp

/-- The name before the first type arguments is read. -/
theorem simpleTypeChars_generic {s : Segment} (hs : (qualifier ++ [last]).find? Segment.isGeneric = some s)
    (h : Laid (TypeRef.named rooted qualifier last suffixes).tokens cs) : simpleTypeChars cs = s.name.chars := by
  obtain ⟨hgeneric, as, bs, hsplit, hplain⟩ := List.find?_eq_some_iff_append.1 hs
  obtain ⟨rest, htokens⟩ := tokens_split hsplit (suffixes.flatMap Suffix.tokens)
  cases s with
  | plain n => simp [Segment.isGeneric, Segment.arguments] at hgeneric
  | generic n first args =>
    rw [TypeRef.tokens, htokens, ← List.append_assoc, Segment.tokens, List.cons_append] at h
    obtain ⟨u, g, r, rfl, hu, hg, hr, hopen⟩ := h.cut_segment fun s hs => by simpa using hplain s hs
    cases hr with
    | @token gap _ r _ hblank _ =>
      have hbare : ∀ c, isBlank c = false → c ∉ gap := fun c hc hmem => by simp [hblank c hmem] at hc
      have hbefore : '<' ∉ u ++ (g ++ (n.chars ++ gap)) := by
        have := hbare '<' (by decide)
        simp only [List.mem_append, not_or] at hopen ⊢
        exact ⟨hopen.1, hopen.2.1, hopen.2.2, this⟩
      have hcut : u ++ (g ++ (n.chars ++ (gap ++ (['<'] ++ r)))) = (u ++ (g ++ (n.chars ++ gap))) ++ '<' :: r := by simp
      have hmarks : trimEnd (dropEndWhile isSuffixMark gap) = [] := by
        rw [trimEnd, dropEndWhile_eq, List.rdropWhile_eq_nil_iff]
        exact fun c hc => hblank c (mem_of_mem_dropEndWhile hc)
      have hsolid : '.' ∉ gap ∧ ':' ∉ gap := ⟨hbare _ (by decide), hbare _ (by decide)⟩
      rw [simpleTypeChars_eq, hcut, takeWhile_trim hbefore, lastName_ident n hu hg hsolid, hmarks, List.append_nil]
      rfl

/-- The suffixes end the text, with no blanks among them and no commas in their brackets. -/
structure Shut (suffixes : List Suffix) (cs : List Char) : Prop where
  tight : (suffixes.flatMap Suffix.tokens).flatten <:+ trimEnd cs
  flat : ∀ s ∈ suffixes, s.commas = 0

theorem Suffix.isSuffixMark_tokens (s : Suffix) : (∀ c ∈ s.tokens.flatten, isSuffixMark c = true) ↔ s.commas = 0 := by
  cases s with
  | nullable => exact iff_of_true (List.all_eq_true.1 (by decide)) rfl
  | array n =>
    cases n with
    | zero => exact iff_of_true (List.all_eq_true.1 (by decide)) rfl
    | succ n =>
      refine iff_of_false (fun h => ?_) (Nat.succ_ne_zero n)
      exact absurd (h ',' (by simp [tokens, List.replicate_succ])) (by decide)

theorem suffixMarks_iff :
    (∀ c ∈ (suffixes.flatMap Suffix.tokens).flatten, isSuffixMark c = true) ↔ ∀ s ∈ suffixes, s.commas = 0 := by
  constructor
  · intro h s hs
    refine s.isSuffixMark_tokens.1 fun c hc => h c ?_
    obtain ⟨t, ht, hct⟩ := List.mem_flatten.1 hc
    exact List.mem_flatten.2 ⟨t, List.mem_flatMap.2 ⟨s, hs, ht⟩, hct⟩
  · intro h c hc
    obtain ⟨t, ht, hct⟩ := List.mem_flatten.1 hc
    obtain ⟨s, hs, hts⟩ := List.mem_flatMap.1 ht
    exact s.isSuffixMark_tokens.2 (h s hs) c (List.mem_flatten.2 ⟨t, hts, hct⟩)

theorem suffix_visible : ∀ c ∈ (suffixes.flatMap Suffix.tokens).flatten, (!isBlank c) = true := by
  intro c hc
  rcases suffix_chars hc with hm | rfl
  · rcases isSuffixMark_iff.1 hm with rfl | rfl | rfl <;> decide
  · decide

theorem filter_trimEnd (h : Laid (suffixes.flatMap Suffix.tokens) r) :
    (trimEnd r).filter (!isBlank ·) = (suffixes.flatMap Suffix.tokens).flatten := by
  have hall := h.filter (p := (!isBlank ·)) fun c hc => by simp [hc]
  obtain ⟨gap, hr, hgap⟩ := dropEndWhile_eq_append isBlank r
  have hnil : gap.filter (!isBlank ·) = [] := List.filter_eq_nil_iff.2 fun c hc => by simp [hgap c hc]
  rw [List.filter_eq_self.2 suffix_visible] at hall
  rw [← hall, trimEnd]
  conv_rhs => rw [hr, List.filter_append, hnil, List.append_nil]

theorem trimEnd_marks_iff (h : Laid (suffixes.flatMap Suffix.tokens) r) :
    trimEnd (dropEndWhile isSuffixMark (trimEnd r)) = [] ↔ Shut suffixes r := by
  have htrim := filter_trimEnd h
  rw [trimEnd, dropEndWhile_eq, List.rdropWhile_eq_nil_iff]
  constructor
  · intro hnil
    obtain ⟨back, hsplit, hback⟩ := dropEndWhile_eq_append isSuffixMark (trimEnd r)
    have hvisible : ∀ c ∈ back, (!isBlank c) = true := by
      intro c hc
      rcases isSuffixMark_iff.1 (hback c hc) with rfl | rfl | rfl <;> decide
    rw [hsplit, List.filter_append, List.filter_eq_nil_iff.2 fun c hc => by simp [hnil c hc], List.nil_append,
      List.filter_eq_self.2 hvisible] at htrim
    exact ⟨htrim ▸ ⟨_, hsplit.symm⟩, suffixMarks_iff.1 (htrim ▸ hback)⟩
  · rintro ⟨⟨gap, hgap⟩, hflat⟩ c hc
    rw [← hgap, List.filter_append, List.filter_eq_self.2 suffix_visible, List.append_left_eq_self,
      List.filter_eq_nil_iff] at htrim
    rw [← hgap, dropEndWhile_append_eq, if_pos (List.all_eq_true.2 (suffixMarks_iff.2 hflat))] at hc
    simpa using htrim c (mem_of_mem_dropEndWhile hc)

/-- With no type arguments in a text, the last name is read when the suffixes are cut off as a whole. -/
theorem simpleTypeChars_plain (hplain : ∀ s ∈ qualifier ++ [last], s.isGeneric = false)
    (h : Laid (TypeRef.named rooted qualifier last suffixes).tokens cs) :
    simpleTypeChars cs = last.name.chars ↔ Shut suffixes cs := by
  have hopen : '<' ∉ cs := by
    rw [h.mem_iff (by decide), open_mem_named]
    rintro ⟨s, hs, hsome⟩
    simp [hplain s hs] at hsome
  cases last with
  | generic n first args => simpa [Segment.isGeneric, Segment.arguments] using hplain (.generic n first args) (by simp)
  | plain n =>
    rw [TypeRef.tokens, Segment.tokens, ← List.append_assoc, List.singleton_append] at h
    obtain ⟨u, g, r, rfl, hu, hg, hr, -⟩ := h.cut_segment fun s hs => hplain s (List.mem_append_left _ hs)
    have hend : ∀ u g, trimEnd (u ++ (g ++ (n.chars ++ r))) = u ++ (g ++ (n.chars ++ trimEnd r)) := fun u g => by
      rw [← List.append_assoc, trimEnd_word n.isWord, List.append_assoc]
    have htrim : Text.trim (u ++ (g ++ (n.chars ++ r))) = trimStart (u ++ (g ++ (n.chars ++ trimEnd r))) := by
      obtain ⟨u', g', -, -, hstart⟩ := hu.trimStart hg
      rw [Text.trim, hstart _ (head_word n.isWord _), hstart _ (head_word n.isWord _), hend]
    have hkeep : (Text.trim (u ++ (g ++ (n.chars ++ r)))).takeWhile (· != '<') = Text.trim (u ++ (g ++ (n.chars ++ r))) := by
      refine List.takeWhile_eq_self_iff.2 fun c hc => ?_
      have hmem := (List.dropWhile_suffix _).mem (mem_of_mem_dropEndWhile hc)
      simpa using fun he : c = '<' => hopen (he ▸ hmem)
    have hbare : ∀ d, isBlank d = false → isSuffixMark d = false → d ≠ ',' → d ∉ trimEnd r := by
      intro d hd hm hcomma hmem
      rcases suffix_chars ((hr.mem_iff hd).1 (mem_of_mem_dropEndWhile hmem)) with h | h
      · simp [hm] at h
      · exact hcomma h
    have hshut : Shut suffixes (u ++ (g ++ (n.chars ++ r))) ↔ Shut suffixes r := by
      refine ⟨fun h => ⟨?_, h.flat⟩, fun h => ⟨?_, h.flat⟩⟩
      · refine List.suffix_of_suffix_length_le h.tight ?_ ?_
        · rw [hend]
          exact ⟨u ++ (g ++ n.chars), by simp⟩
        · rw [← filter_trimEnd hr]
          exact List.length_filter_le _ _
      · rw [hend]
        exact h.tight.trans ⟨u ++ (g ++ n.chars), by simp⟩
    rw [simpleTypeChars_eq, hkeep, htrim, lastName_ident n hu hg ⟨hbare _ (by decide) (by decide) (by decide),
      hbare _ (by decide) (by decide) (by decide)⟩, Segment.name, List.append_right_eq_self, trimEnd_marks_iff hr, hshut]

end

/-! ## Names and counts -/

section
variable {rooted : Bool} {qualifier : List Segment} {last : Segment} {suffixes : List Suffix} {raw : String}

/-- The name is right when the first name with type arguments has it, or when there is none and the suffixes are shut. -/
theorem simpleTypeName_eq_iff (h : Laid (TypeRef.named rooted qualifier last suffixes).tokens raw.toList) :
    (simpleTypeName raw).toList = last.name.chars ↔ match (qualifier ++ [last]).find? Segment.isGeneric with
      | some s => s.name = last.name
      | none => Shut suffixes raw.toList := by
  rw [simpleTypeName, String.toList_ofList]
  cases hfind : (qualifier ++ [last]).find? Segment.isGeneric with
  | some s =>
    rw [simpleTypeChars_generic hfind h]
    exact Ident.ext_iff.symm
  | none => exact simpleTypeChars_plain (fun s hs => by simpa using List.find?_eq_none.1 hfind s hs) h

/-- What is read off a type reference. Its last name is read when the first name with type arguments is called so, or when no
name has any and the suffixes are shut. The number of its arguments is read when there are none, or when it has some, no other
name has more than one, and no argument has commas of its own outside of angle brackets. -/
theorem namedType_read_iff (h : Laid (TypeRef.named rooted qualifier last suffixes).tokens raw.toList) :
    ((simpleTypeName raw).toList = last.name.chars ↔ match (qualifier ++ [last]).find? Segment.isGeneric with
      | some s => s.name = last.name
      | none => Shut suffixes raw.toList) ∧
    (typeArgumentCount raw = last.arguments.length ↔ (∀ s ∈ qualifier ++ [last], s.isGeneric = false) ∨
      (last.isGeneric = true ∧ last.Closed ∧ ∀ s ∈ qualifier, s.arguments.length ≤ 1 ∧ s.Closed)) :=
  ⟨simpleTypeName_eq_iff h, typeArgumentCount_eq_iff h⟩

def ident (s : String) (h : s.toList ≠ [] ∧ s.toList.all isNameChar = true) : Ident :=
  ⟨s.toList, h.1, List.all_eq_true.1 h.2⟩

def plainType (s : String) (h : s.toList ≠ [] ∧ s.toList.all isNameChar = true) : TypeRef :=
  .named false [] (.plain (ident s h)) []

def listOfPairs : TypeRef :=
  .named false [] (.generic (ident "List" (by decide))
    (.tuple (.mk (plainType "int" (by decide)) none) (.mk (plainType "string" (by decide)) none) [] []) []) []

def mapToPairs : Segment := .generic (ident "Map" (by decide)) (plainType "Key" (by decide)) [listOfPairs]

theorem mapToPairs_read : Laid (TypeRef.named true [.plain (ident "App" (by decide))] mapToPairs [.nullable, .array 0]).tokens
      " global :: App.Map<Key, List<(int, string)>> ?[]".toList ∧
    (simpleTypeName " global :: App.Map<Key, List<(int, string)>> ?[]").toList = mapToPairs.name.chars ∧
    typeArgumentCount " global :: App.Map<Key, List<(int, string)>> ?[]" = mapToPairs.arguments.length := by
  have hlaid : Laid (TypeRef.named true [.plain (ident "App" (by decide))] mapToPairs [.nullable, .array 0]).tokens
      " global :: App.Map<Key, List<(int, string)>> ?[]".toList := laid_of_isLaid (by decide)
  obtain ⟨hname, hcount⟩ := namedType_read_iff hlaid
  have hclosed : mapToPairs.Closed := by
    intro t ht
    simp only [mapToPairs, Segment.arguments, List.mem_cons, List.not_mem_nil, or_false] at ht
    rcases ht with rfl | rfl <;> rfl
  refine ⟨hlaid, hname.2 rfl, hcount.2 (.inr ⟨rfl, hclosed, ?_⟩)⟩
  intro s hs
  obtain rfl := List.mem_singleton.1 hs
  exact ⟨Nat.zero_le 1, fun t ht => absurd ht List.not_mem_nil⟩

/-- In `Outer<int>.Inner` the name and the argument are those of the outer type. -/
theorem inner_not_read : ¬ ∀ (rooted : Bool) (qualifier : List Segment) (last : Segment) (suffixes : List Suffix)
    (raw : String), Laid (TypeRef.named rooted qualifier last suffixes).tokens raw.toList →
      (simpleTypeName raw).toList = last.name.chars ∧ typeArgumentCount raw = last.arguments.length := by
  intro h
  have hread := h false [.generic (ident "Outer" (by decide)) (plainType "int" (by decide)) []]
    (.plain (ident "Inner" (by decide))) [] "Outer<int>.Inner" (laid_of_isLaid (by decide))
  exact absurd hread.2 (by decide)

end

end Workbench.Symbol
