import Workbench.Action.Key
import Workbench.Text.Numeral

/-!
# Texts and numbers in fields

What a token is made of reads back: Base64 gives the text that was encoded, a
numeral below the word limit gives its number, and fields without a bar come
apart again after they have been joined.
-/

namespace Workbench

/-! ## Base64 -/

namespace Base64

theorem value?_digit : ∀ n < 64, value? (digit n) = some n := by decide

/-- What `encode` writes is plain: neither a bar nor padding nor a blank. -/
theorem digit_plain : ∀ n < 64, digit n ≠ '|' ∧ digit n ≠ '=' ∧ Text.isBlank (digit n) = false := by decide

theorem toUInt8_eq {n : Nat} {a : UInt8} (h : n = a.toNat) : n.toUInt8 = a := by
  subst h
  exact UInt8.ofNat_toNat

theorem quad_digits {x y z w : Nat} (hx : x < 64) (hy : y < 64) (hz : z < 64) (hw : w < 64) (last : Bool) :
    quad (digit x) (digit y) (digit z) (digit w) last =
      some [(x * 4 + y / 16).toUInt8, (y % 16 * 16 + z / 4).toUInt8, (z % 4 * 64 + w).toUInt8] := by
  have h3 := (digit_plain z hz).2.1
  have h4 := (digit_plain w hw).2.1
  simp [quad, value?_digit, hx, hy, hz, hw, h3, h4]

theorem quad_three (a b c : UInt8) (last : Bool) :
    quad (digit (a.toNat / 4)) (digit (a.toNat % 4 * 16 + b.toNat / 16)) (digit (b.toNat % 16 * 4 + c.toNat / 64))
      (digit (c.toNat % 64)) last = some [a, b, c] := by
  have ha := a.toNat_lt
  have hb := b.toNat_lt
  have hc := c.toNat_lt
  rw [quad_digits (by omega) (by omega) (by omega) (by omega)]
  rw [toUInt8_eq (a := a) (by omega), toUInt8_eq (a := b) (by omega), toUInt8_eq (a := c) (by omega)]

theorem quad_two (a b : UInt8) :
    quad (digit (a.toNat / 4)) (digit (a.toNat % 4 * 16 + b.toNat / 16)) (digit (b.toNat % 16 * 4)) '=' true =
      some [a, b] := by
  have ha := a.toNat_lt
  have hb := b.toNat_lt
  have h1 := value?_digit (a.toNat / 4) (by omega)
  have h2 := value?_digit (a.toNat % 4 * 16 + b.toNat / 16) (by omega)
  have h3 := value?_digit (b.toNat % 16 * 4) (by omega)
  have hp := (digit_plain (b.toNat % 16 * 4) (by omega)).2.1
  have e1 := toUInt8_eq (n := a.toNat / 4 * 4 + (a.toNat % 4 * 16 + b.toNat / 16) / 16) (a := a) (by omega)
  have e2 := toUInt8_eq (n := (a.toNat % 4 * 16 + b.toNat / 16) % 16 * 16 + b.toNat % 16 * 4 / 4) (a := b) (by omega)
  have e3 : b.toNat % 16 * 4 % 4 = 0 := by omega
  simp only [quad, h1, h2, h3, Option.bind_eq_bind, Option.bind_some, beq_eq_false_iff_ne.2 hp, Bool.true_and,
    Bool.false_and, e1, e2, e3]
  rfl

theorem quad_one (a : UInt8) :
    quad (digit (a.toNat / 4)) (digit (a.toNat % 4 * 16)) '=' '=' true = some [a] := by
  have ha := a.toNat_lt
  have h1 := value?_digit (a.toNat / 4) (by omega)
  have h2 := value?_digit (a.toNat % 4 * 16) (by omega)
  have e1 := toUInt8_eq (n := a.toNat / 4 * 4 + a.toNat % 4 * 16 / 16) (a := a) (by omega)
  have e2 : a.toNat % 4 * 16 % 16 = 0 := by omega
  simp only [quad, h1, h2, Option.bind_eq_bind, Option.bind_some, e1, e2]
  rfl

theorem decode_encode (bytes : List UInt8) : decode (encode bytes) = some bytes := by
  fun_induction encode bytes with
  | case1 => rfl
  | case2 a => simp [decode, quad_one]
  | case3 a b => simp [decode, quad_two]
  | case4 a b c r ih => simp [decode, quad_three, ih]

theorem decodeText_encodeText (s : String) : decodeText (encodeText s) = some s := by
  simp only [decodeText, encodeText, String.toList_ofList, decode_encode, Option.bind_eq_bind, Option.bind_some]
  rw [Array.toArray_toList]
  exact dif_pos s.isValidUTF8

theorem encode_plain {bytes : List UInt8} : ∀ c ∈ encode bytes, c ≠ '|' ∧ Text.isBlank c = false := by
  fun_induction encode bytes with
  | case1 => simp
  | case2 a =>
    have ha := a.toNat_lt
    have h1 := digit_plain (a.toNat / 4) (by omega)
    have h2 := digit_plain (a.toNat % 4 * 16) (by omega)
    simp [h1, h2]
    decide
  | case3 a b =>
    have ha := a.toNat_lt
    have hb := b.toNat_lt
    have h1 := digit_plain (a.toNat / 4) (by omega)
    have h2 := digit_plain (a.toNat % 4 * 16 + b.toNat / 16) (by omega)
    have h3 := digit_plain (b.toNat % 16 * 4) (by omega)
    simp [h1, h2, h3]
    decide
  | case4 a b c r ih =>
    have ha := a.toNat_lt
    have hb := b.toNat_lt
    have hc := c.toNat_lt
    have h1 := digit_plain (a.toNat / 4) (by omega)
    have h2 := digit_plain (a.toNat % 4 * 16 + b.toNat / 16) (by omega)
    have h3 := digit_plain (b.toNat % 16 * 4 + c.toNat / 64) (by omega)
    have h4 := digit_plain (c.toNat % 64) (by omega)
    simpa [h1, h2, h3, h4] using ih

theorem encodeText_plain {s : String} : ∀ c ∈ (encodeText s).toList, c ≠ '|' ∧ Text.isBlank c = false := by
  rw [encodeText, String.toList_ofList]
  exact encode_plain

theorem bar_not_mem_encodeText (s : String) : '|' ∉ (encodeText s).toList := fun h => (encodeText_plain _ h).1 rfl

end Base64

/-! ## Numerals -/

namespace Numeral

theorem digitsValue_toDigits (n : Nat) : digitsValue (Nat.toDigits 10 n) = n := by
  have h := Nat.ofDigitChars_ten_toDigits (n := n)
  rw [Nat.ofDigitChars_eq_foldl] at h
  simpa [digitsValue, Nat.mul_comm] using h

theorem isDigit_of_mem_render {n : Nat} {c : Char} (h : c ∈ (render n).toList) : c.isDigit = true := by
  rw [render, String.toList_ofList] at h
  exact Nat.isDigit_of_mem_toDigits (by omega) (by omega) h

/-- The digits behind an optional plus. -/
def unsigned : List Char → List Char
  | '+' :: r => r
  | cs => cs

theorem parseChars_eq (cs : List Char) : parseChars cs =
    if (unsigned cs).isEmpty || !(unsigned cs).all Char.isDigit then none
    else if digitsValue (unsigned cs) < wordLimit then some (digitsValue (unsigned cs)) else none := by
  cases cs with
  | nil => rfl
  | cons c r =>
    by_cases hc : c = '+'
    · subst hc
      rfl
    · simp [parseChars, unsigned, hc]

theorem unsigned_of_digits {cs : List Char} (h : cs.all Char.isDigit = true) : unsigned cs = cs := by
  cases cs with
  | nil => rfl
  | cons c r =>
    have hc : c ≠ '+' := by
      rintro rfl
      simp [Char.isDigit] at h
    simp [unsigned, hc]

theorem parse_render {n : Nat} (h : n < wordLimit) : parse (render n) = some n := by
  have hall : (Nat.toDigits 10 n).all Char.isDigit = true :=
    List.all_eq_true.2 fun c hc => Nat.isDigit_of_mem_toDigits (by omega) (by omega) hc
  have hne : Nat.toDigits 10 n ≠ [] := Nat.toDigits_ne_nil
  rw [parse, render, String.toList_ofList, parseChars_eq, unsigned_of_digits hall]
  simp [hne, hall, digitsValue_toDigits, h]

theorem bar_not_mem_render (n : Nat) : '|' ∉ (render n).toList := fun h => by
  have := isDigit_of_mem_render h
  simp [Char.isDigit] at this

theorem toNat_of_isDigit {c : Char} (h : c.isDigit = true) : 48 ≤ c.toNat ∧ c.toNat ≤ 57 := by
  simp only [Char.isDigit, Bool.and_eq_true, decide_eq_true_eq] at h
  exact h

theorem isBlank_of_mem_render {n : Nat} {c : Char} (h : c ∈ (render n).toList) : Text.isBlank c = false := by
  have hd := toNat_of_isDigit (isDigit_of_mem_render h)
  simp only [Text.isBlank, Bool.or_eq_false_iff, Bool.and_eq_false_iff, decide_eq_false_iff_not,
    beq_eq_false_iff_ne]
  omega

end Numeral

/-! ## Fields between separators -/

/-- Fields are read back from the text that joins them if none holds the separator. -/
theorem splitOnChar_intercalate {sep : Char} {s : String} {fields : List String} (hs : s.toList = [sep])
    (h : ∀ f ∈ fields, sep ∉ f.toList) (hne : fields ≠ []) : splitOnChar sep (s.intercalate fields) = fields := by
  have hl : ∀ l ∈ fields.map String.toList, sep ∉ l := by
    intro l hl
    obtain ⟨f, hf, rfl⟩ := List.mem_map.1 hl
    exact h f hf
  have hsplit := List.splitOn_intercalate sep hl (by simpa using hne)
  rw [splitOnChar, String.toList_intercalate, hs]
  change (List.splitOn sep _).map String.ofList = fields
  rw [hsplit, List.map_map]
  exact (List.map_congr_left fun s _ => String.ofList_toList).trans (List.map_id _)

theorem splitOnChar_joinBars {fields : List String} (h : ∀ f ∈ fields, '|' ∉ f.toList) (hne : fields ≠ []) :
    splitOnChar '|' (joinBars fields) = fields := splitOnChar_intercalate rfl h hne

/-! ## Texts without blanks around them -/

theorem dropEndWhile_append {p : Char → Bool} {c : Char} (h : p c = false) (front back : List Char)
    (hb : ∀ d ∈ back, p d = false) : Text.dropEndWhile p (front ++ c :: back) = front ++ c :: back := by
  -- A character that is kept ends the walk from behind, so what stands before it does not matter.
  induction front with
  | nil =>
    induction back generalizing c with
    | nil => simp [Text.dropEndWhile, h]
    | cons d r ih =>
      have hd := ih (hb d List.mem_cons_self) fun e he => hb e (List.mem_cons_of_mem d he)
      rw [List.nil_append] at hd ⊢
      rw [Text.dropEndWhile, hd]
  | cons d r ih =>
    rw [List.cons_append, Text.dropEndWhile, ih]
    cases r <;> rfl

/-- Joined fields of which the first begins and the last is written without blanks have none around them. -/
theorem trim_joinBars (first last : String) (fields : List String) {c : Char} {r : List Char}
    (hc : first.toList = c :: r) (hblank : Text.isBlank c = false)
    (hl : ∀ d ∈ last.toList, Text.isBlank d = false) :
    trim (joinBars (first :: (fields ++ [last]))) = joinBars (first :: (fields ++ [last])) := by
  have hs : (joinBars (first :: (fields ++ [last]))).toList =
      (joinBars (first :: fields)).toList ++ '|' :: last.toList := by
    rw [← List.cons_append, joinBars, String.intercalate_append_of_ne_nil (by simp) (by simp)]
    simp [joinBars]
  obtain ⟨r', hr'⟩ : ∃ r', (joinBars (first :: fields)).toList = c :: r' := by
    cases fields with
    | nil => exact ⟨r, by simp [joinBars, hc]⟩
    | cons f fs => exact ⟨r ++ '|' :: (joinBars (f :: fs)).toList, by simp [joinBars, String.intercalate_cons_cons, hc]⟩
  have hfront : Text.trimStart (joinBars (first :: (fields ++ [last]))).toList =
      (joinBars (first :: (fields ++ [last]))).toList := by
    rw [hs, hr', List.cons_append, Text.trimStart, List.dropWhile_cons, hblank]
    rfl
  rw [trim, Text.trim, hfront, Text.trimEnd, hs, dropEndWhile_append (by decide) _ _ hl, ← hs]
  exact String.ofList_toList

end Workbench
