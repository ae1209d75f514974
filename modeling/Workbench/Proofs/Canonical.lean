import Workbench.Proofs.Spelling
import Workbench.Proofs.Tokens

/-!
# Tokens are not malleable

Encoding undoes decoding, up to blanks around a token and the spelling of the
numerals in it. So a provider key has one spelling, and two texts are the same
token only if they differ in nothing else.
-/

namespace Workbench

/-! ## Provider keys -/

theorem Origin.text_of_ofText? {s : String} {o : Origin} (h : Origin.ofText? s = some o) : o.text = s := by
  unfold Origin.ofText? at h
  split at h
  · cases h
    symm
    assumption
  · split at h
    · cases h
      symm
      assumption
    · obtain ⟨hs, h⟩ := Option.ite_none_right_eq_some.1 h
      cases h
      exact hs.symm

theorem BuiltinKind.text_of_ofText? {s : String} {k : BuiltinKind} (h : BuiltinKind.ofText? s = some k) :
    k.text = s := by
  unfold BuiltinKind.ofText? at h
  split at h
  · cases h
    symm
    assumption
  · obtain ⟨hs, h⟩ := Option.ite_none_right_eq_some.1 h
    cases h
    exact hs.symm

theorem ProviderKey.encode_of_decode {raw : String} {k : ProviderKey} (h : decode raw = some k) : k.encode = raw := by
  unfold decode at h
  rw [← joinBars_splitOnChar raw]
  split at h
  · rename_i mark provider id key title hsplit
    rw [Option.ite_none_right_eq_some] at h
    obtain ⟨rfl, h⟩ := h
    obtain ⟨provider', hprovider, h⟩ := Option.bind_eq_some_iff.1 h
    obtain ⟨id', hid, h⟩ := Option.bind_eq_some_iff.1 h
    obtain ⟨key', hkey, h⟩ := Option.bind_eq_some_iff.1 h
    obtain ⟨title', htitle, h⟩ := Option.bind_eq_some_iff.1 h
    cases h
    rw [hsplit, encode, Base64.encodeText_of_decodeText hprovider, Base64.encodeText_of_decodeText hid,
      Base64.encodeText_of_decodeText hkey, Base64.encodeText_of_decodeText htitle]
  · rename_i mark provider key title hsplit
    rw [Option.ite_none_right_eq_some] at h
    obtain ⟨rfl, h⟩ := h
    obtain ⟨provider', hprovider, h⟩ := Option.bind_eq_some_iff.1 h
    obtain ⟨key', hkey, h⟩ := Option.bind_eq_some_iff.1 h
    obtain ⟨title', htitle, h⟩ := Option.bind_eq_some_iff.1 h
    cases h
    rw [hsplit, encode, Base64.encodeText_of_decodeText hprovider, Base64.encodeText_of_decodeText hkey,
      Base64.encodeText_of_decodeText htitle]
  · rename_i single hsplit
    obtain ⟨kind, hkind, rfl⟩ := Option.map_eq_some_iff.1 h
    rw [hsplit, encode, BuiltinKind.text_of_ofText? hkind]
    rfl
  · cases h

/-! ## Action tokens -/

namespace ActionToken

/-- The fields of an action token that are numerals: version, start, length, line and column. -/
def numerals : List Nat := [1, 6, 7, 11, 12]

theorem respell_fields (mark version profile origin category key start length path diagnostic refactoring line
    column : String) :
    respell numerals [mark, version, profile, origin, category, key, start, length, path, diagnostic, refactoring, line,
      column] =
    [mark, Numeral.canonical version, profile, origin, category, key, Numeral.canonical start,
      Numeral.canonical length, path, diagnostic, refactoring, Numeral.canonical line, Numeral.canonical column] := by
  simp [respell, numerals]

theorem decodeOptional_eq_some {s : String} {o : Option String} (h : decodeOptional s = some o) :
    o ≠ some "" ∧ Base64.encodeText (o.getD "") = s := by
  obtain ⟨t, ht, rfl⟩ := Option.map_eq_some_iff.1 h
  have hs := Base64.encodeText_of_decodeText ht
  by_cases he : t = ""
  · subst he
    exact ⟨by simp, by simpa using hs⟩
  · simp [he, hs]

section
variable {raw raw' : String} {t t' : ActionToken}

/-- What a parsed token holds can be written, and its fields are the encoder's but for the spelling of numerals. -/
theorem parse_eq_some (h : parse raw = some t) : t.version < wordLimit ∧ t.action.Writable ∧ t.action.title = "" ∧
    encode t.action t.version t.profile = joinBars (respell numerals (splitOnChar '|' raw)) := by
  unfold parse at h
  split at h
  · rename_i mark version profile origin category key start length path diagnostic refactoring line column hsplit
    dsimp only at h
    split at h
    · cases h
    · rename_i hmark
      obtain rfl : mark = tokenMark := Decidable.not_not.1 hmark
      obtain ⟨category', hcategory, h⟩ := Option.bind_eq_some_iff.1 h
      obtain ⟨text, htext, h⟩ := Option.bind_eq_some_iff.1 h
      obtain ⟨origin', horigin, h⟩ := Option.bind_eq_some_iff.1 h
      obtain ⟨key', hkey, h⟩ := Option.bind_eq_some_iff.1 h
      obtain ⟨path', hpath, h⟩ := Option.bind_eq_some_iff.1 h
      obtain ⟨start', hstart, h⟩ := Option.bind_eq_some_iff.1 h
      obtain ⟨length', hlength, h⟩ := Option.bind_eq_some_iff.1 h
      obtain ⟨diagnostic', hdiagnostic, h⟩ := Option.bind_eq_some_iff.1 h
      obtain ⟨refactoring', hrefactoring, h⟩ := Option.bind_eq_some_iff.1 h
      obtain ⟨line', hline, h⟩ := Option.bind_eq_some_iff.1 h
      obtain ⟨column', hcolumn, h⟩ := Option.bind_eq_some_iff.1 h
      obtain ⟨version', hversion, h⟩ := Option.bind_eq_some_iff.1 h
      obtain ⟨profile', hprofile, h⟩ := Option.bind_eq_some_iff.1 h
      cases h
      have hd := decodeOptional_eq_some hdiagnostic
      have hr := decodeOptional_eq_some hrefactoring
      have hs := Numeral.parse_eq_some hstart
      have hn := Numeral.parse_eq_some hlength
      have hl := Numeral.parse_eq_some hline
      have hc := Numeral.parse_eq_some hcolumn
      have hv := Numeral.parse_eq_some hversion
      refine ⟨hv.1, ⟨hs.1, hn.1, hl.1, hc.1, hd.1, hr.1⟩, rfl, ?_⟩
      rw [hsplit, respell_fields, encode, Base64.encodeText_of_decodeText hprofile, Origin.text_of_ofText? horigin,
        Base64.encodeText_of_decodeText htext, Base64.encodeText_of_decodeText hcategory,
        Base64.encodeText_of_decodeText hkey, Base64.encodeText_of_decodeText hpath, hd.2, hr.2, hs.2, hn.2, hl.2, hc.2,
        hv.2]
  · cases h

theorem decode_eq_ok (h : decode raw = .ok t) : t.version < wordLimit ∧ t.action.Writable ∧ t.action.title = "" ∧
    encode t.action t.version t.profile = canonicalForm numerals raw := by
  unfold decode at h
  split at h
  · rename_i u hparse
    cases h
    exact parse_eq_some hparse
  · cases h

/-- The canonical form determines the token. -/
theorem eq_of_canonicalForm (h : decode raw = .ok t) (h' : decode raw' = .ok t')
    (he : canonicalForm numerals raw = canonicalForm numerals raw') : t = t' := by
  obtain ⟨hv, hw, ht, hform⟩ := decode_eq_ok h
  obtain ⟨hv', hw', ht', hform'⟩ := decode_eq_ok h'
  have hread : decode (canonicalForm numerals raw) = .ok t := by
    rw [← hform]
    exact decode_encode_untitled hv hw ht
  rw [he, ← hform', decode_encode_untitled hv' hw' ht'] at hread
  exact (Except.ok.inj hread).symm

end

end ActionToken

/-! ## Fix tokens -/

namespace FixToken

/-- The fields of a fix token that are numerals: version, start and length. -/
def numerals : List Nat := [1, 4, 5]

theorem respell_fields (mark version operation diagnostic start length path : String) :
    respell numerals [mark, version, operation, diagnostic, start, length, path] =
    [mark, Numeral.canonical version, operation, diagnostic, Numeral.canonical start, Numeral.canonical length, path] := by
  simp [respell, numerals]

section
variable {raw raw' : String} {t t' : FixToken}

theorem parse_eq_some (h : parse raw = some t) :
    t.Writable ∧ t.encode = joinBars (respell numerals (splitOnChar '|' raw)) := by
  unfold parse at h
  split at h
  · rename_i mark version operation diagnostic start length path hsplit
    have hbar : ∀ f ∈ [mark, version, operation, diagnostic, start, length, path], '|' ∉ f.toList := by
      intro f hf
      exact not_mem_of_mem_splitOnChar (hsplit ▸ hf)
    dsimp only at h
    split at h
    · cases h
    · rename_i hplain
      obtain ⟨version', hversion, h⟩ := Option.bind_eq_some_iff.1 h
      obtain ⟨start', hstart, h⟩ := Option.bind_eq_some_iff.1 h
      obtain ⟨length', hlength, h⟩ := Option.bind_eq_some_iff.1 h
      obtain ⟨path', hpath, h⟩ := Option.bind_eq_some_iff.1 h
      cases h
      rw [not_or, not_or, ne_eq, Decidable.not_not] at hplain
      obtain ⟨rfl, hoperation, hdiagnostic⟩ := hplain
      have hs := Numeral.parse_eq_some hstart
      have hn := Numeral.parse_eq_some hlength
      have hv := Numeral.parse_eq_some hversion
      refine ⟨⟨hv.1, hs.1, hn.1, ⟨hoperation, hbar _ (by simp)⟩, ⟨hdiagnostic, hbar _ (by simp)⟩⟩, ?_⟩
      rw [hsplit, respell_fields, encode, Base64.encodeText_of_decodeText hpath, hs.2, hn.2, hv.2]
  · cases h

theorem decode_eq_ok (h : decode raw = .ok t) : t.Writable ∧ t.encode = canonicalForm numerals raw := by
  unfold decode at h
  split at h
  · rename_i u hparse
    cases h
    exact parse_eq_some hparse
  · cases h

theorem eq_of_canonicalForm (h : decode raw = .ok t) (h' : decode raw' = .ok t')
    (he : canonicalForm numerals raw = canonicalForm numerals raw') : t = t' := by
  obtain ⟨hw, hform⟩ := decode_eq_ok h
  obtain ⟨hw', hform'⟩ := decode_eq_ok h'
  have hread := decode_encode hw
  rw [hform, he, ← hform', decode_encode hw'] at hread
  exact (Except.ok.inj hread).symm

end

end FixToken
/-! ## All formats -/

/-- What is decoded is encoded as it was spelled, in canonical form, and the canonical forms of texts differ where the
tokens do. Base64 is the standard one, with one spelling for each list of bytes. -/
theorem tokens_canonical :
    (∀ raw t, ActionToken.decode raw = .ok t →
      ActionToken.encode t.action t.version t.profile = canonicalForm ActionToken.numerals raw) ∧
    (∀ raw raw' t t', ActionToken.decode raw = .ok t → ActionToken.decode raw' = .ok t' →
      (t = t' ↔ canonicalForm ActionToken.numerals raw = canonicalForm ActionToken.numerals raw')) ∧
    (∀ raw t, FixToken.decode raw = .ok t → t.encode = canonicalForm FixToken.numerals raw) ∧
    (∀ raw raw' t t', FixToken.decode raw = .ok t → FixToken.decode raw' = .ok t' →
      (t = t' ↔ canonicalForm FixToken.numerals raw = canonicalForm FixToken.numerals raw')) ∧
    (∀ raw k, ProviderKey.decode raw = some k → k.encode = raw) ∧
    ∀ bytes cs, (Base64.decode cs = some bytes ↔ Base64.Spells bytes cs) ∧
      (Base64.Spells bytes cs ↔ cs = Base64.encode bytes) := by
  refine ⟨?_, ?_, ?_, ?_, fun raw k => ProviderKey.encode_of_decode, ?_⟩
  · intro raw t h
    exact (ActionToken.decode_eq_ok h).2.2.2
  · intro raw raw' t t' h h'
    constructor
    · rintro rfl
      exact (ActionToken.decode_eq_ok h).2.2.2.symm.trans (ActionToken.decode_eq_ok h').2.2.2
    · exact ActionToken.eq_of_canonicalForm h h'
  · intro raw t h
    exact (FixToken.decode_eq_ok h).2
  · intro raw raw' t t' h h'
    constructor
    · rintro rfl
      exact (FixToken.decode_eq_ok h).2.symm.trans (FixToken.decode_eq_ok h').2
    · exact FixToken.eq_of_canonicalForm h h'
  · intro bytes cs
    refine ⟨Base64.decode_eq_some_iff, Base64.Spells.eq_encode, ?_⟩
    rintro rfl
    exact Base64.decode_eq_some_iff.1 (Base64.decode_encode bytes)

/-- An action token with blanks around it, a plus and zeros. -/
def looseAction : String :=
  " v1|+007|ZGVmYXVsdA==|YnVpbHRpbg==|c3R5bGU=|dXNlLWluZmVycmVkLXR5cGU=|00|+3|w6R8Yi5jcw==|||1|020\n"

def tightAction : String :=
  "v1|7|ZGVmYXVsdA==|YnVpbHRpbg==|c3R5bGU=|dXNlLWluZmVycmVkLXR5cGU=|0|3|w6R8Yi5jcw==|||1|20"

def inferredTypeToken : ActionToken where
  version := 7
  profile := "default"
  action := {
    title := "", category := "style", origin := .builtin, providerKey := "use-inferred-type", filePath := "ä|b.cs"
    span := ⟨0, 3⟩, diagnosticId := none, refactoringId := none, line := 1, column := 20 }

def looseFix : String := "v1|07|remove-unused-local|CS0168|+0|003|w6R8Yi5jcw=="

def tightFix : String := "v1|7|remove-unused-local|CS0168|0|3|w6R8Yi5jcw=="

def removalToken : FixToken := ⟨7, "remove-unused-local", "CS0168", ⟨0, 3⟩, "ä|b.cs"⟩

theorem tokens_canonical_loose :
    ActionToken.encode inferredTypeToken.action 7 "default" = canonicalForm ActionToken.numerals looseAction ∧
    canonicalForm ActionToken.numerals looseAction = canonicalForm ActionToken.numerals tightAction ∧
    removalToken.encode = canonicalForm FixToken.numerals looseFix ∧
    canonicalForm FixToken.numerals looseFix = canonicalForm FixToken.numerals tightFix ∧
    (ProviderKey.refactoring "P" "k|" "").encode = "rf|UA==|a3w=|" := by
  obtain ⟨haction, hactions, hfix, hfixes, hkey, -⟩ := tokens_canonical
  have hloose : ActionToken.decode looseAction = .ok inferredTypeToken := by
    rw [ActionToken.decode, (by decide +kernel : ActionToken.parse (trim looseAction) = some inferredTypeToken)]
  have htight : ActionToken.decode tightAction = .ok inferredTypeToken := by
    rw [ActionToken.decode, (by decide +kernel : ActionToken.parse (trim tightAction) = some inferredTypeToken)]
  have hlooseFix : FixToken.decode looseFix = .ok removalToken := by
    rw [FixToken.decode, (by decide +kernel : FixToken.parse (trim looseFix) = some removalToken)]
  have htightFix : FixToken.decode tightFix = .ok removalToken := by
    rw [FixToken.decode, (by decide +kernel : FixToken.parse (trim tightFix) = some removalToken)]
  exact ⟨haction _ _ hloose, (hactions _ _ _ _ hloose htight).1 rfl, hfix _ _ hlooseFix,
    (hfixes _ _ _ _ hlooseFix htightFix).1 rfl, hkey _ _ (by decide +kernel)⟩

end Workbench
