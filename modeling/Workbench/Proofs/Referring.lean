import Mathlib.Algebra.Ring.Nat
import Workbench.Proofs.Wording

/-!
# Type references

References to types are made of names, type arguments, tuples and suffixes. The
commas of a reference are counted in the first angle brackets that are open, of
whichever name they are, and in all brackets and tuples that stand right in them.
-/

namespace Workbench.Symbol

open Text

/-! ## References -/

/-- A character that is neither blank nor a token of its own in a type. -/
def isNameChar (c : Char) : Bool := !isBlank c && !"<>,.:?[]()".toList.contains c

@[ext]
structure Ident where
  chars : List Char
  ne : chars ≠ []
  plain : ∀ c ∈ chars, isNameChar c = true
deriving DecidableEq

/-- What may follow a type: a question mark, or brackets with so many commas. -/
inductive Suffix where
  | nullable
  | array (commas : Nat)

mutual

inductive TypeRef where
  | named (rooted : Bool) (qualifier : List Segment) (last : Segment) (suffixes : List Suffix)
  | tuple (first second : Element) (rest : List Element) (suffixes : List Suffix)

/-- A name, with type arguments or without. -/
inductive Segment where
  | plain (name : Ident)
  | generic (name : Ident) (first : TypeRef) (rest : List TypeRef)

inductive Element where
  | mk (type : TypeRef) (name : Option Ident)

end

namespace Segment

def name : Segment → Ident
  | plain name => name
  | generic name _ _ => name

def arguments : Segment → List TypeRef
  | plain _ => []
  | generic _ first rest => first :: rest

end Segment

/-! ### Tokens -/

def Suffix.tokens : Suffix → List (List Char)
  | nullable => [['?']]
  | array commas => ['['] :: (List.replicate commas [','] ++ [[']']])

def rootTokens (rooted : Bool) : List (List Char) := if rooted then ["global".toList, "::".toList] else []

mutual

def TypeRef.tokens : TypeRef → List (List Char)
  | .named rooted qualifier last suffixes =>
    rootTokens rooted ++ (qualifierTokens qualifier ++ (last.tokens ++ suffixes.flatMap Suffix.tokens))
  | .tuple first second rest suffixes =>
    ['('] :: (first.tokens ++ ([','] :: (second.tokens ++ (elementTokens rest ++ ([')'] :: suffixes.flatMap Suffix.tokens)))))

def Segment.tokens : Segment → List (List Char)
  | .plain name => [name.chars]
  | .generic name first rest => name.chars :: ['<'] :: (first.tokens ++ (argumentTokens rest ++ [['>']]))

def Element.tokens : Element → List (List Char)
  | .mk type name => type.tokens ++ (name.map Ident.chars).toList

/-- Names, each with the dot behind it. -/
def qualifierTokens : List Segment → List (List Char)
  | [] => []
  | s :: ss => s.tokens ++ ['.'] :: qualifierTokens ss

/-- Type arguments, each with the comma before it. -/
def argumentTokens : List TypeRef → List (List Char)
  | [] => []
  | t :: ts => [','] :: (t.tokens ++ argumentTokens ts)

def elementTokens : List Element → List (List Char)
  | [] => []
  | e :: es => [','] :: (e.tokens ++ elementTokens es)

end

/-! ### Commas -/

def Suffix.commas : Suffix → Nat
  | nullable => 0
  | array commas => commas

/-- The commas of suffixes. They stand in no angle brackets. -/
def suffixCommas (suffixes : List Suffix) : Nat → Nat
  | 0 => (suffixes.map Suffix.commas).sum
  | _ + 1 => 0

mutual

/-- The commas that stand in so many angle brackets. -/
def TypeRef.commas : TypeRef → Nat → Nat
  | .named _ qualifier last suffixes, depth => qualifierCommas qualifier depth + last.commas depth + suffixCommas suffixes depth
  | .tuple first second rest suffixes, depth =>
    (if depth = 0 then 1 else 0) + first.commas depth + second.commas depth + elementCommas rest depth +
      suffixCommas suffixes depth

def Segment.commas : Segment → Nat → Nat
  | .plain _, _ => 0
  | .generic _ _ _, 0 => 0
  | .generic _ first rest, depth + 1 => first.commas depth + argumentCommas rest depth

def Element.commas : Element → Nat → Nat
  | .mk type _, depth => type.commas depth

def qualifierCommas : List Segment → Nat → Nat
  | [], _ => 0
  | s :: ss, depth => s.commas depth + qualifierCommas ss depth

def argumentCommas : List TypeRef → Nat → Nat
  | [], _ => 0
  | t :: ts, depth => (if depth = 0 then 1 else 0) + t.commas depth + argumentCommas ts depth

def elementCommas : List Element → Nat → Nat
  | [], _ => 0
  | e :: es, depth => (if depth = 0 then 1 else 0) + e.commas depth + elementCommas es depth

end

/-! ## Texts of tokens -/

/-- A text that is made of tokens in turn, with blanks around them. -/
inductive Laid : List (List Char) → List Char → Prop
  | done {gap : List Char} (blank : ∀ c ∈ gap, isBlank c = true) : Laid [] gap
  | token {gap t r : List Char} {ts : List (List Char)} (blank : ∀ c ∈ gap, isBlank c = true) (rest : Laid ts r) :
      Laid (t :: ts) (gap ++ (t ++ r))

/-- Whether a text is made of the tokens, as it can be told by reading each of them once the blanks before it are skipped. -/
def isLaid : List (List Char) → List Char → Bool
  | [], cs => cs.all isBlank
  | t :: ts, cs => t.isPrefixOf (trimStart cs) && isLaid ts ((trimStart cs).drop t.length)

theorem laid_of_isLaid {ts : List (List Char)} {cs : List Char} (h : isLaid ts cs = true) : Laid ts cs := by
  induction ts generalizing cs with
  | nil => exact .done (List.all_eq_true.1 h)
  | cons t ts ih =>
    rw [isLaid, Bool.and_eq_true, List.isPrefixOf_iff_prefix] at h
    obtain ⟨⟨r, hr⟩, hrest⟩ := h
    rw [← hr, List.drop_left] at hrest
    have hcs : cs = cs.takeWhile isBlank ++ (t ++ r) := by
      rw [hr]
      exact List.takeWhile_append_dropWhile.symm
    rw [hcs]
    exact .token (fun c hc => List.mem_takeWhile_imp hc) (ih hrest)

/-! ## Counting arguments -/

/-- What commas count for behind so many angle brackets: those in the first brackets are counted. -/
def counted (commas : Nat → Nat) : Nat → Nat
  | 0 => commas 1
  | 1 => commas 0
  | _ + 2 => 0

section
variable {cs w : List Char} {ts : List (List Char)}

theorem countArguments_open (depth count : Nat) (r : List Char) :
    countArguments depth count ('<' :: r) = countArguments (depth + 1) count r := by
  simp [countArguments]

theorem countArguments_close (depth count : Nat) (r : List Char) :
    countArguments depth count ('>' :: r) = countArguments (depth - 1) count r := by
  simp [countArguments]

theorem countArguments_comma (depth count : Nat) (r : List Char) :
    countArguments depth count (',' :: r) = countArguments depth (count + if depth = 1 then 1 else 0) r := by
  by_cases h : depth = 1 <;> simp [countArguments, h]

theorem countArguments_skip (h : ∀ c ∈ w, c ≠ '<' ∧ c ≠ '>' ∧ c ≠ ',') (depth count : Nat) (r : List Char) :
    countArguments depth count (w ++ r) = countArguments depth count r := by
  induction w with
  | nil => rfl
  | cons c w ih =>
    obtain ⟨⟨ho, hc, hcomma⟩, hw⟩ := List.forall_mem_cons.1 h
    simp [countArguments, ho, hc, hcomma, ih hw]

/-- Outside of all angle brackets nothing is counted, so that the text may begin at the first of them. -/
theorem countArguments_dropWhile (count : Nat) (cs : List Char) :
    countArguments 0 count (cs.dropWhile (· != '<')) = countArguments 0 count cs := by
  induction cs with
  | nil => rfl
  | cons c r ih =>
    by_cases hc : c = '<'
    · simp [hc]
    · simp [hc, ih, countArguments]

theorem Ident.bare (n : Ident) {c : Char} (h : c ∈ n.chars) : c ≠ '<' ∧ c ≠ '>' ∧ c ≠ ',' := by
  have := n.plain c h
  refine ⟨?_, ?_, ?_⟩ <;> rintro rfl <;> revert this <;> decide

theorem Suffix.count (s : Suffix) (depth count : Nat) (r : List Char) : countArguments depth count (s.tokens.flatten ++ r) =
    countArguments depth (count + if depth = 1 then s.commas else 0) r := by
  cases s with
  | nullable => simp [tokens, commas, countArguments]
  | array n =>
    have hcommas : ∀ count r, countArguments depth count ((List.replicate n [',']).flatten ++ r) =
        countArguments depth (count + if depth = 1 then n else 0) r := by
      induction n with
      | zero => simp
      | succ n ih =>
        intro count r
        rw [List.replicate_succ, List.flatten_cons, List.append_assoc, List.singleton_append, countArguments_comma, ih]
        congr 1
        split <;> omega
    have hopen : ∀ x, countArguments depth count ('[' :: x) = countArguments depth count x := fun x => by
      simp [countArguments]
    have hclose : ∀ k x, countArguments depth k (']' :: x) = countArguments depth k x := fun k x => by
      simp [countArguments]
    simp only [tokens, commas, List.flatten_cons, List.flatten_append, List.flatten_nil, List.append_assoc, List.cons_append,
      List.nil_append, List.append_nil]
    rw [hopen, hcommas, hclose]

theorem count_suffixes (ss : List Suffix) (depth count : Nat) (r : List Char) :
    countArguments depth count ((ss.flatMap Suffix.tokens).flatten ++ r) =
      countArguments depth (count + counted (suffixCommas ss) depth) r := by
  induction ss generalizing count with
  | nil => rcases depth with _ | _ | depth <;> simp [counted, suffixCommas]
  | cons s ss ih =>
    rw [List.flatMap_cons, List.flatten_append, List.append_assoc, s.count, ih]
    congr 1
    rcases depth with _ | _ | depth <;> simp [counted, suffixCommas]
    omega

theorem count_root (rooted : Bool) (depth count : Nat) (r : List Char) :
    countArguments depth count ((rootTokens rooted).flatten ++ r) = countArguments depth count r := by
  refine countArguments_skip ?_ depth count r
  cases rooted <;> simp [rootTokens]

theorem count_other {c : Char} (h : ([c].all fun c => c != '<' && c != '>' && c != ',') = true) (depth count : Nat)
    (r : List Char) : countArguments depth count ([c] ++ r) = countArguments depth count r :=
  countArguments_skip (by simpa [and_assoc] using h) depth count r

mutual

/-- Reading a type leaves the depth as it is, and counts the commas in the first brackets. -/
theorem TypeRef.count (t : TypeRef) (depth count : Nat) (r : List Char) :
    countArguments depth count (t.tokens.flatten ++ r) = countArguments depth (count + counted t.commas depth) r := by
  cases t with
  | named rooted qualifier last suffixes =>
    simp only [TypeRef.tokens, List.flatten_append, List.append_assoc]
    rw [count_root, count_qualifier, last.count, count_suffixes]
    congr 1
    rcases depth with _ | _ | depth <;> simp only [counted, TypeRef.commas] <;> omega
  | tuple first second rest suffixes =>
    simp only [TypeRef.tokens, List.flatten_append, List.flatten_cons, List.append_assoc]
    rw [count_other (by decide), first.count, List.singleton_append, countArguments_comma, second.count, count_elements,
      count_other (by decide), count_suffixes]
    congr 1
    rcases depth with _ | _ | depth <;> simp [counted, TypeRef.commas] <;> omega

theorem Segment.count (s : Segment) (depth count : Nat) (r : List Char) :
    countArguments depth count (s.tokens.flatten ++ r) = countArguments depth (count + counted s.commas depth) r := by
  cases s with
  | plain name =>
    rw [Segment.tokens, List.flatten_singleton, countArguments_skip fun c hc => name.bare hc]
    congr 1
    rcases depth with _ | _ | depth <;> simp [counted, Segment.commas]
  | generic name first rest =>
    simp only [Segment.tokens, List.flatten_append, List.flatten_cons, List.flatten_nil, List.append_assoc, List.nil_append]
    rw [countArguments_skip fun c hc => name.bare hc, List.singleton_append, countArguments_open, first.count, count_arguments,
      List.singleton_append, countArguments_close, Nat.add_sub_cancel]
    congr 1
    rcases depth with _ | _ | depth <;> simp [counted, Segment.commas]
    omega

theorem Element.count (e : Element) (depth count : Nat) (r : List Char) :
    countArguments depth count (e.tokens.flatten ++ r) = countArguments depth (count + counted e.commas depth) r := by
  cases e with
  | mk type name =>
    have hname : ∀ c ∈ (name.map Ident.chars).toList.flatten, c ≠ '<' ∧ c ≠ '>' ∧ c ≠ ',' := by
      cases name with
      | none => simp
      | some name => simpa using fun c hc => name.bare hc
    simp only [Element.tokens, List.flatten_append, List.append_assoc]
    rw [type.count, countArguments_skip hname]
    congr 1

theorem count_qualifier (ss : List Segment) (depth count : Nat) (r : List Char) :
    countArguments depth count ((qualifierTokens ss).flatten ++ r) =
      countArguments depth (count + counted (qualifierCommas ss) depth) r := by
  cases ss with
  | nil => rcases depth with _ | _ | depth <;> simp [qualifierTokens, counted, qualifierCommas]
  | cons s ss =>
    simp only [qualifierTokens, List.flatten_append, List.flatten_cons, List.append_assoc]
    rw [s.count, count_other (by decide), count_qualifier ss]
    congr 1
    rcases depth with _ | _ | depth <;> simp only [counted, qualifierCommas] <;> omega

theorem count_arguments (ts : List TypeRef) (depth count : Nat) (r : List Char) :
    countArguments depth count ((argumentTokens ts).flatten ++ r) =
      countArguments depth (count + counted (argumentCommas ts) depth) r := by
  cases ts with
  | nil => rcases depth with _ | _ | depth <;> simp [argumentTokens, counted, argumentCommas]
  | cons t ts =>
    simp only [argumentTokens, List.flatten_append, List.flatten_cons, List.append_assoc]
    rw [List.singleton_append, countArguments_comma, t.count, count_arguments ts]
    congr 1
    rcases depth with _ | _ | depth <;> simp [counted, argumentCommas] <;> omega

theorem count_elements (es : List Element) (depth count : Nat) (r : List Char) :
    countArguments depth count ((elementTokens es).flatten ++ r) =
      countArguments depth (count + counted (elementCommas es) depth) r := by
  cases es with
  | nil => rcases depth with _ | _ | depth <;> simp [elementTokens, counted, elementCommas]
  | cons e es =>
    simp only [elementTokens, List.flatten_append, List.flatten_cons, List.append_assoc]
    rw [List.singleton_append, countArguments_comma, e.count, count_elements es]
    congr 1
    rcases depth with _ | _ | depth <;> simp [counted, elementCommas] <;> omega

end

/-! ### Blanks around tokens -/

theorem Laid.filter {p : Char → Bool} (hp : ∀ c, isBlank c = true → p c = false) (h : Laid ts cs) :
    cs.filter p = ts.flatten.filter p := by
  have hgap : ∀ gap : List Char, (∀ c ∈ gap, isBlank c = true) → gap.filter p = [] := fun gap hgap =>
    List.filter_eq_nil_iff.2 fun c hc => by simp [hp c (hgap c hc)]
  induction h with
  | done hblank => simp [hgap _ hblank]
  | token hblank _ ih => simp [hgap _ hblank, ih]

theorem Laid.mem_iff {c : Char} (hc : isBlank c = false) (h : Laid ts cs) : c ∈ cs ↔ c ∈ ts.flatten := by
  have := congrArg (c ∈ ·) (h.filter (p := (!isBlank ·)) fun c hc => by simp [hc])
  simpa [List.mem_filter, hc] using this

def isBracketMark (c : Char) : Bool := c == '<' || c == '>' || c == ','

theorem countArguments_filter (depth count : Nat) (cs : List Char) :
    countArguments depth count (cs.filter isBracketMark) = countArguments depth count cs := by
  induction cs generalizing depth count with
  | nil => rfl
  | cons c r ih =>
    cases hc : isBracketMark c with
    | true => simp only [List.filter_cons, hc, if_true, countArguments, ih]
    | false =>
      have hskip : ∀ d ∈ [c], d ≠ '<' ∧ d ≠ '>' ∧ d ≠ ',' := by simpa [isBracketMark, and_assoc] using hc
      have hrest := countArguments_skip hskip depth count r
      rw [List.filter_cons, hc, if_neg Bool.false_ne_true, ih]
      exact hrest.symm

/-- One and the commas are counted when there is any angle bracket. -/
theorem typeArgumentCount_eq (raw : String) :
    typeArgumentCount raw = if '<' ∈ raw.toList then countArguments 0 1 raw.toList else 0 := by
  rw [typeArgumentCount, ← countArguments_dropWhile]
  by_cases h : '<' ∈ raw.toList
  · rw [if_pos h]
    cases hrest : raw.toList.dropWhile (· != '<') with
    | nil =>
      rw [List.dropWhile_eq_nil_iff] at hrest
      simpa using hrest _ h
    | cons c r => rfl
  · have hnil : raw.toList.dropWhile (· != '<') = [] := by
      rw [List.dropWhile_eq_nil_iff]
      intro c hc
      simpa using fun he : c = '<' => h (he ▸ hc)
    rw [if_neg h, hnil]

theorem typeArgumentCount_of_laid {t : TypeRef} {raw : String} (h : Laid t.tokens raw.toList) :
    typeArgumentCount raw = if '<' ∈ t.tokens.flatten then 1 + t.commas 1 else 0 := by
  have hmarks : ∀ c, isBlank c = true → isBracketMark c = false := by
    intro c hc
    rw [Bool.eq_false_iff]
    intro hm
    simp only [isBracketMark, Bool.or_eq_true, beq_iff_eq] at hm
    rcases hm with (rfl | rfl) | rfl <;> revert hc <;> decide
  have hfilter := h.filter hmarks
  have hcount : countArguments 0 1 raw.toList = 1 + t.commas 1 := by
    rw [← countArguments_filter, hfilter, countArguments_filter, ← List.append_nil t.tokens.flatten, t.count]
    rfl
  rw [typeArgumentCount_eq, hcount]
  simp only [h.mem_iff (show isBlank '<' = false by decide)]

/-! ### When the count is right -/

def Segment.isGeneric (s : Segment) : Bool := !s.arguments.isEmpty

theorem open_mem_tokens {s : Segment} : '<' ∈ s.tokens.flatten ↔ s.isGeneric = true := by
  cases s with
  | plain name =>
    simp only [Segment.tokens, List.flatten_singleton, Segment.isGeneric, Segment.arguments]
    simpa using fun h => (name.bare h).1 rfl
  | generic name first rest => simp [Segment.tokens, Segment.isGeneric, Segment.arguments]

theorem open_mem_qualifier {ss : List Segment} :
    '<' ∈ (qualifierTokens ss).flatten ↔ ∃ s ∈ ss, s.isGeneric = true := by
  induction ss with
  | nil => simp [qualifierTokens]
  | cons s ss ih =>
    rw [qualifierTokens, List.flatten_append, List.mem_append, open_mem_tokens, List.flatten_cons, List.mem_append, ih]
    simp

def isSuffixMark (c : Char) : Bool := c == '?' || c == '[' || c == ']'

theorem isSuffixMark_iff {c : Char} : isSuffixMark c = true ↔ c = '?' ∨ c = '[' ∨ c = ']' := by
  simp [isSuffixMark, or_assoc]

theorem suffix_chars {suffixes : List Suffix} {c : Char} (h : c ∈ (suffixes.flatMap Suffix.tokens).flatten) :
    isSuffixMark c = true ∨ c = ',' := by
  simp only [List.mem_flatten, List.mem_flatMap] at h
  obtain ⟨t, ⟨s, -, ht⟩, hc⟩ := h
  cases s with
  | nullable =>
    obtain rfl := List.mem_singleton.1 ht
    obtain rfl := List.mem_singleton.1 hc
    exact .inl (by decide)
  | array n =>
    simp only [Suffix.tokens, List.mem_cons, List.mem_append, List.mem_replicate, List.not_mem_nil, or_false] at ht
    rcases ht with rfl | ⟨-, rfl⟩ | rfl <;> obtain rfl := List.mem_singleton.1 hc <;> decide

theorem open_not_mem_suffixes (ss : List Suffix) : '<' ∉ (ss.flatMap Suffix.tokens).flatten := fun hopen => by
  rcases suffix_chars hopen with h | h <;> revert h <;> decide

variable {rooted : Bool} {qualifier : List Segment} {last : Segment} {suffixes : List Suffix} {raw : String}

theorem open_mem_named : '<' ∈ (TypeRef.named rooted qualifier last suffixes).tokens.flatten ↔
    ∃ s ∈ qualifier ++ [last], s.isGeneric = true := by
  have hroot : '<' ∉ (rootTokens rooted).flatten := by cases rooted <;> decide
  simp only [TypeRef.tokens, List.flatten_append, List.mem_append, hroot, open_mem_qualifier, open_mem_tokens,
    open_not_mem_suffixes, false_or, or_false]
  constructor
  · rintro (⟨s, hs, h⟩ | h)
    · exact ⟨s, .inl hs, h⟩
    · exact ⟨last, .inr (List.mem_singleton.2 rfl), h⟩
  · rintro ⟨s, hs | hs, h⟩
    · exact .inl ⟨s, hs, h⟩
    · exact .inr (List.mem_singleton.1 hs ▸ h)

/-- The arguments of a name have no commas outside of angle brackets. -/
def Segment.Closed (s : Segment) : Prop := ∀ t ∈ s.arguments, t.commas 0 = 0

theorem argumentCommas_zero (ts : List TypeRef) :
    ts.length ≤ argumentCommas ts 0 ∧ (argumentCommas ts 0 = ts.length ↔ ∀ t ∈ ts, t.commas 0 = 0) := by
  induction ts with
  | nil => simp [argumentCommas]
  | cons t ts ih =>
    rw [argumentCommas, List.forall_mem_cons, ← ih.2, List.length_cons]
    simp only [if_true]
    omega

theorem Segment.commas_one (s : Segment) : s.arguments.length ≤ s.commas 1 + 1 ∧
    (s.isGeneric = true → (s.commas 1 + 1 = s.arguments.length ↔ s.Closed)) := by
  cases s with
  | plain name => simp [arguments, isGeneric]
  | generic name first rest =>
    have hrest := argumentCommas_zero rest
    simp only [arguments, commas, Closed, List.forall_mem_cons, List.length_cons, ← hrest.2]
    omega

theorem qualifierCommas_one (ss : List Segment) :
    qualifierCommas ss 1 = 0 ↔ ∀ s ∈ ss, s.arguments.length ≤ 1 ∧ s.Closed := by
  induction ss with
  | nil => simp [qualifierCommas]
  | cons s ss ih =>
    rw [qualifierCommas, List.forall_mem_cons, ← ih, Nat.add_eq_zero_iff]
    refine and_congr_left fun _ => ?_
    cases s with
    | plain name => simp [Segment.commas, Segment.arguments, Segment.Closed]
    | generic name first rest =>
      have := (Segment.generic name first rest).commas_one
      have hgeneric : (Segment.generic name first rest).isGeneric = true := rfl
      rw [← this.2 hgeneric]
      simp only [Segment.arguments, List.length_cons] at this ⊢
      omega

/-- The number of arguments is that of the last name when no name has any, or when the last name has some, no other name
has more than one, and no argument has commas of its own outside of angle brackets. -/
theorem typeArgumentCount_eq_iff (h : Laid (TypeRef.named rooted qualifier last suffixes).tokens raw.toList) :
    typeArgumentCount raw = last.arguments.length ↔
      (∀ s ∈ qualifier ++ [last], s.isGeneric = false) ∨
        (last.isGeneric = true ∧ last.Closed ∧ ∀ s ∈ qualifier, s.arguments.length ≤ 1 ∧ s.Closed) := by
  rw [typeArgumentCount_of_laid h]
  simp only [open_mem_named]
  have hlast := last.commas_one
  have hgeneric : last.isGeneric = true ↔ 0 < last.arguments.length := by simp [Segment.isGeneric, List.length_pos_iff]
  rw [← qualifierCommas_one]
  by_cases hany : ∃ s ∈ qualifier ++ [last], s.isGeneric = true
  · obtain ⟨s, hs, hsome⟩ := hany
    rw [if_pos ⟨s, hs, hsome⟩, or_iff_right fun hnone => Bool.eq_false_iff.1 (hnone s hs) hsome]
    simp only [TypeRef.commas, suffixCommas]
    by_cases hg : last.isGeneric = true
    · rw [← hlast.2 hg, and_iff_right hg]
      omega
    · refine iff_of_false ?_ fun h => hg h.1
      rw [hgeneric] at hg
      omega
  · have hnone : ∀ s ∈ qualifier ++ [last], s.isGeneric = false := fun s hs =>
      Bool.eq_false_iff.2 fun hsome => hany ⟨s, hs, hsome⟩
    have hplain := hnone last (by simp)
    rw [Bool.eq_false_iff, ne_eq, hgeneric] at hplain
    rw [if_neg hany]
    exact iff_of_true (by omega) (.inl hnone)

end

end Workbench.Symbol
