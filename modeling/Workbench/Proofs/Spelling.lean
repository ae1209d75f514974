import Workbench.Proofs.Encoding

/-!
# One spelling for each field

What is read out of a field was spelled as the encoder spells it. Base64 has
one spelling for each list of bytes, and joining undoes the splitting at bars;
only a numeral may have a plus and zeros in front.
-/

namespace Workbench

/-! ## Base64 -/

namespace Base64

/-- The standard alphabet, in the order of the values. -/
def alphabet : List Char := "ABCDEFGHIJKLMNOPQRSTUVWXYZabcdefghijklmnopqrstuvwxyz0123456789+/".toList

/-- Three bytes are four digits of six bits. One or two bytes at the end are followed by zero bits up to a whole
digit, and by padding up to four places. -/
inductive Spells : List UInt8 → List Char → Prop
  | nil : Spells [] []
  | one {a : UInt8} {x y : Nat} {c d : Char} : alphabet[x]? = some c → alphabet[y]? = some d →
      x * 64 + y = a.toNat * 16 → Spells [a] [c, d, '=', '=']
  | two {a b : UInt8} {x y z : Nat} {c d e : Char} : alphabet[x]? = some c → alphabet[y]? = some d →
      alphabet[z]? = some e → (x * 64 + y) * 64 + z = (a.toNat * 256 + b.toNat) * 4 → Spells [a, b] [c, d, e, '=']
  | three {a b g : UInt8} {x y z w : Nat} {c d e f : Char} {bytes : List UInt8} {cs : List Char} :
      alphabet[x]? = some c → alphabet[y]? = some d → alphabet[z]? = some e → alphabet[w]? = some f →
      ((x * 64 + y) * 64 + z) * 64 + w = (a.toNat * 256 + b.toNat) * 256 + g.toNat →
      Spells bytes cs → Spells (a :: b :: g :: bytes) (c :: d :: e :: f :: cs)

section
variable {bytes : List UInt8} {cs : List Char} {c d e f : Char} {x : Nat} {last : Bool}

theorem getElem?_alphabet (h : x < 64) : alphabet[x]? = some (digit x) := by
  revert x
  decide

theorem digit_of_alphabet (h : alphabet[x]? = some c) : x < 64 ∧ digit x = c := by
  have hx : x < 64 := (List.getElem?_eq_some_iff.1 h).1
  rw [getElem?_alphabet hx] at h
  exact ⟨hx, Option.some.inj h⟩

theorem value?_of_alphabet (h : alphabet[x]? = some c) : value? c = some x := by
  obtain ⟨hx, rfl⟩ := digit_of_alphabet h
  exact value?_digit x hx

theorem alphabet_of_value? (h : value? c = some x) : alphabet[x]? = some c := by
  suffices hd : x < 64 ∧ digit x = c by rw [getElem?_alphabet hd.1, hd.2]
  have hchar : ∀ n, c.toNat = n → c = Char.ofNat n := fun n hn => by rw [← hn, Char.ofNat_toNat]
  unfold value? at h
  dsimp only at h
  -- One case for each run of characters in the alphabet.
  split at h
  · cases h
    exact ⟨by omega, by rw [digit, if_pos (by omega)]; exact (hchar _ (by omega)).symm⟩
  · split at h
    · cases h
      refine ⟨by omega, ?_⟩
      rw [digit, if_neg (by omega), if_pos (by omega)]
      exact (hchar _ (by omega)).symm
    · split at h
      · cases h
        refine ⟨by omega, ?_⟩
        rw [digit, if_neg (by omega), if_neg (by omega), if_pos (by omega)]
        exact (hchar _ (by omega)).symm
      · split at h
        · rename_i hn
          cases h
          exact ⟨by decide, (hchar _ hn).symm⟩
        · split at h
          · rename_i hn
            cases h
            exact ⟨by decide, (hchar _ hn).symm⟩
          · cases h

theorem value?_eq_some_iff : value? c = some x ↔ alphabet[x]? = some c := ⟨alphabet_of_value?, value?_of_alphabet⟩

theorem toNat_toUInt8 {n : Nat} (h : n < 256) : n.toUInt8.toNat = n := by
  rw [Nat.toUInt8, UInt8.toNat_ofNat']
  exact Nat.mod_eq_of_lt h

/-- A group that is read spells the bytes it gives, in front of whatever the rest spells. -/
theorem spells_of_quad {here : List UInt8} (h : quad c d e f cs.isEmpty = some here) (hr : Spells bytes cs) :
    Spells (here ++ bytes) (c :: d :: e :: f :: cs) := by
  unfold quad at h
  simp only [Option.bind_eq_bind, Option.bind_eq_some_iff] at h
  obtain ⟨x, hx, y, hy, h⟩ := h
  rw [value?_eq_some_iff] at hx hy
  have hx64 := (digit_of_alphabet hx).1
  have hy64 := (digit_of_alphabet hy).1
  have ha : (x * 4 + y / 16).toUInt8.toNat = x * 4 + y / 16 := toNat_toUInt8 (by omega)
  split at h
  · rename_i hpad
    simp only [Bool.and_eq_true, beq_iff_eq, List.isEmpty_iff] at hpad
    obtain ⟨⟨rfl, rfl⟩, rfl⟩ := hpad
    obtain ⟨hzero, h⟩ := Option.ite_none_right_eq_some.1 h
    cases h
    cases hr
    exact .one hx hy (by omega)
  · rw [Option.bind_eq_some_iff] at h
    obtain ⟨z, hz, h⟩ := h
    rw [value?_eq_some_iff] at hz
    have hz64 := (digit_of_alphabet hz).1
    have hb : (y % 16 * 16 + z / 4).toUInt8.toNat = y % 16 * 16 + z / 4 := toNat_toUInt8 (by omega)
    split at h
    · rename_i hpad
      simp only [Bool.and_eq_true, beq_iff_eq, List.isEmpty_iff] at hpad
      obtain ⟨rfl, rfl⟩ := hpad
      obtain ⟨hzero, h⟩ := Option.ite_none_right_eq_some.1 h
      cases h
      cases hr
      exact .two hx hy hz (by omega)
    · rw [Option.bind_eq_some_iff] at h
      obtain ⟨w, hw, h⟩ := h
      rw [value?_eq_some_iff] at hw
      have hw64 := (digit_of_alphabet hw).1
      have hg : (z % 4 * 64 + w).toUInt8.toNat = z % 4 * 64 + w := toNat_toUInt8 (by omega)
      cases h
      exact .three hx hy hz hw (by omega) hr

theorem spells_of_decode (h : decode cs = some bytes) : Spells bytes cs := by
  fun_induction decode cs generalizing bytes with
  | case1 =>
    cases h
    exact .nil
  | case2 c d e f r ih =>
    simp only [Option.bind_eq_bind, Option.bind_eq_some_iff] at h
    obtain ⟨here, hhere, rest, hrest, h⟩ := h
    cases h
    exact spells_of_quad hhere (ih hrest)
  | case3 => cases h

/-- There is one spelling, and the encoder writes it. -/
theorem Spells.eq_encode (h : Spells bytes cs) : cs = encode bytes := by
  induction h with
  | nil => rfl
  | @one a x y c d hx hy heq =>
    obtain ⟨hx64, rfl⟩ := digit_of_alphabet hx
    obtain ⟨hy64, rfl⟩ := digit_of_alphabet hy
    have h1 : x = a.toNat / 4 := by omega
    have h2 : y = a.toNat % 4 * 16 := by omega
    rw [encode, ← h1, ← h2]
  | @two a b x y z c d e hx hy hz heq =>
    obtain ⟨hx64, rfl⟩ := digit_of_alphabet hx
    obtain ⟨hy64, rfl⟩ := digit_of_alphabet hy
    obtain ⟨hz64, rfl⟩ := digit_of_alphabet hz
    have hb := b.toNat_lt
    have h1 : x = a.toNat / 4 := by omega
    have h2 : y = a.toNat % 4 * 16 + b.toNat / 16 := by omega
    have h3 : z = b.toNat % 16 * 4 := by omega
    rw [encode, ← h1, ← h2, ← h3]
  | @three a b g x y z w c d e f bytes cs hx hy hz hw heq hr ih =>
    obtain ⟨hx64, rfl⟩ := digit_of_alphabet hx
    obtain ⟨hy64, rfl⟩ := digit_of_alphabet hy
    obtain ⟨hz64, rfl⟩ := digit_of_alphabet hz
    obtain ⟨hw64, rfl⟩ := digit_of_alphabet hw
    have hb := b.toNat_lt
    have hg := g.toNat_lt
    have h1 : x = a.toNat / 4 := by omega
    have h2 : y = a.toNat % 4 * 16 + b.toNat / 16 := by omega
    have h3 : z = b.toNat % 16 * 4 + g.toNat / 64 := by omega
    have h4 : w = g.toNat % 64 := by omega
    rw [encode, ← h1, ← h2, ← h3, ← h4, ← ih]

theorem decode_eq_some_iff : decode cs = some bytes ↔ Spells bytes cs := by
  constructor
  · exact spells_of_decode
  · intro h
    rw [h.eq_encode, decode_encode]

/-- A text is decoded from the one spelling of its UTF-8 bytes. -/
theorem decodeText_eq_some_iff {s t : String} :
    decodeText s = some t ↔ Spells t.toUTF8.data.toList s.toList := by
  constructor
  · intro h
    simp only [decodeText, Option.bind_eq_bind, Option.bind_eq_some_iff] at h
    obtain ⟨bytes, hbytes, h⟩ := h
    unfold String.fromUTF8? at h
    split at h
    · cases h
      exact spells_of_decode hbytes
    · cases h
  · intro h
    have hs : s = encodeText t := by rw [encodeText, ← h.eq_encode, String.ofList_toList]
    rw [hs, decodeText_encodeText]

theorem encodeText_of_decodeText {s t : String} (h : decodeText s = some t) : encodeText t = s := by
  rw [encodeText, ← (decodeText_eq_some_iff.1 h).eq_encode, String.ofList_toList]

end

end Base64

/-! ## Numerals -/

namespace Numeral

/-- The digits of a numeral from the first on that is not zero. -/
def significant (cs : List Char) : List Char := (unsigned cs).dropWhile (· == '0')

/-- The spelling without a plus and without zeros in front; zero itself keeps one. -/
def canonical (s : String) : String :=
  if significant s.toList = [] then "0" else .ofList (significant s.toList)

section
variable {ds : List Char} {n : Nat} {s : String}

theorem digit_of_isDigit {c : Char} (h : c.isDigit = true) :
    c.toNat - '0'.toNat < 10 ∧ Nat.digitChar (c.toNat - '0'.toNat) = c := by
  have hb := toNat_of_isDigit h
  have h0 : '0'.toNat = 48 := rfl
  have hlt : c.toNat - '0'.toNat < 10 := by omega
  refine ⟨hlt, Char.toNat_inj.1 ?_⟩
  rw [Nat.toNat_digitChar_of_lt_ten hlt]
  omega

/-- Digits behind a number that is not zero are written behind its numeral. -/
theorem toDigits_foldl {k : Nat} (hk : 0 < k) (h : ∀ c ∈ ds, c.isDigit = true) :
    Nat.toDigits 10 (ds.foldl (fun n c => n * 10 + (c.toNat - '0'.toNat)) k) = Nat.toDigits 10 k ++ ds := by
  induction ds generalizing k with
  | nil => simp
  | cons c r ih =>
    obtain ⟨hlt, hc⟩ := digit_of_isDigit (h c List.mem_cons_self)
    have hstep : Nat.toDigits 10 (k * 10 + (c.toNat - '0'.toNat)) = Nat.toDigits 10 k ++ [c] := by
      rw [Nat.mul_comm, ← Nat.toDigits_append_toDigits (by decide) hk hlt, Nat.toDigits_of_lt_base hlt,
        hc]
    rw [List.foldl_cons, ih (by omega) fun d hd => h d (List.mem_cons_of_mem c hd), hstep]
    simp

theorem toDigits_digitsValue (h : ∀ c ∈ ds, c.isDigit = true) : Nat.toDigits 10 (digitsValue ds) =
    if ds.dropWhile (· == '0') = [] then ['0'] else ds.dropWhile (· == '0') := by
  induction ds with
  | nil => rfl
  | cons c r ih =>
    have hr : ∀ d ∈ r, d.isDigit = true := fun d hd => h d (List.mem_cons_of_mem c hd)
    by_cases hc : c = '0'
    · subst hc
      exact ih hr
    · obtain ⟨hlt, hd⟩ := digit_of_isDigit (h c List.mem_cons_self)
      have hpos : 0 < c.toNat - '0'.toNat := by
        refine Nat.pos_of_ne_zero fun h0 => hc ?_
        rw [← hd, h0]
        rfl
      rw [digitsValue, List.foldl_cons, Nat.zero_mul, Nat.zero_add, toDigits_foldl hpos hr,
        Nat.toDigits_of_lt_base hlt, hd]
      simp [hc]

theorem parse_eq_some (h : parse s = some n) : n < wordLimit ∧ render n = canonical s := by
  rw [parse, parseChars_eq, Option.ite_none_left_eq_some, Option.ite_none_right_eq_some] at h
  obtain ⟨hdigits, hlt, h⟩ := h
  cases h
  have hall : ∀ c ∈ unsigned s.toList, c.isDigit = true := by
    rw [Bool.or_eq_true, not_or, Bool.not_eq_true', Bool.not_eq_false] at hdigits
    exact List.all_eq_true.1 hdigits.2
  refine ⟨hlt, ?_⟩
  rw [render, canonical, toDigits_digitsValue hall, significant]
  split <;> rfl

end

end Numeral

/-! ## Fields between separators -/

theorem intercalate_splitOnChar {sep : Char} {t : String} (ht : t.toList = [sep]) (s : String) :
    t.intercalate (splitOnChar sep s) = s := by
  apply String.toList_injective
  rw [String.toList_intercalate, ht, splitOnChar, List.map_map]
  have hparts : ∀ parts : List (List Char), parts.map (String.toList ∘ String.ofList) = parts := by
    intro parts
    simp [Function.comp_def]
  rw [hparts]
  exact List.intercalate_splitOn sep

theorem joinBars_splitOnChar (s : String) : joinBars (splitOnChar '|' s) = s := intercalate_splitOnChar rfl s

theorem not_mem_of_mem_splitOnChar {sep : Char} {s f : String} (h : f ∈ splitOnChar sep s) : sep ∉ f.toList := by
  obtain ⟨part, hpart, rfl⟩ := List.mem_map.1 h
  rw [String.toList_ofList]
  have hsplit : ∀ cs : List Char, ∀ part ∈ List.splitOn sep cs, sep ∉ part := by
    intro cs
    induction cs with
    | nil => simp [List.splitOn_nil]
    | cons c r ih =>
      rw [List.splitOn_cons_eq_if_modifyHead]
      by_cases hc : c = sep
      · simpa [hc] using ih
      · intro part hpart
        simp only [beq_iff_eq, hc, if_false] at hpart
        cases hr : List.splitOn sep r with
        | nil => simp [hr] at hpart
        | cons head rest =>
          rw [hr] at ih hpart
          rcases List.mem_cons.1 hpart with rfl | hrest
          · simpa [Ne.symm hc] using ih head List.mem_cons_self
          · exact ih part (List.mem_cons_of_mem head hrest)
  exact hsplit s.toList part hpart

/-- The fields with the numerals among them in their canonical spelling. -/
def respell (numerals : List Nat) (fields : List String) : List String :=
  fields.mapIdx fun i f => if numerals.contains i then Numeral.canonical f else f

/-- A text without the blanks around it, its numerals in their canonical spelling and all else as it is. -/
def canonicalForm (numerals : List Nat) (raw : String) : String :=
  joinBars (respell numerals (splitOnChar '|' (trim raw)))

end Workbench
