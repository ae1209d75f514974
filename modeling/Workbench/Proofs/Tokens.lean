import Workbench.Action.Token
import Workbench.Proofs.Encoding

/-!
# Tokens read back

Decoding gives what was encoded: a provider key in full, an action token with
all of its action but the title, and a fix token in full. The numbers of a
token are words, and an optional text that is there is not empty.
-/

namespace Workbench

/-! ## Provider keys -/

namespace ProviderKey

theorem decode_encode (k : ProviderKey) : decode k.encode = some k := by
  cases k with
  | codeFix provider id key title =>
    rw [encode, decode, splitOnChar_joinBars (by simp [Base64.bar_not_mem_encodeText]) (by simp)]
    simp [Base64.decodeText_encodeText]
  | refactoring provider key title =>
    rw [encode, decode, splitOnChar_joinBars (by simp [Base64.bar_not_mem_encodeText]) (by simp)]
    simp [Base64.decodeText_encodeText]
  | builtin kind => cases kind <;> decide

end ProviderKey

theorem Origin.ofText?_text (o : Origin) : Origin.ofText? o.text = some o := by cases o <;> decide

/-! ## Action tokens -/

/-- What a token can carry of an action: numbers are words, and no text stands for none. -/
structure Action.Writable (a : Action) : Prop where
  start : a.span.start < wordLimit
  length : a.span.length < wordLimit
  line : a.line < wordLimit
  column : a.column < wordLimit
  diagnosticId : a.diagnosticId ≠ some ""
  refactoringId : a.refactoringId ≠ some ""

namespace ActionToken

theorem decodeOptional_encode {o : Option String} (h : o ≠ some "") :
    decodeOptional (Base64.encodeText (o.getD "")) = some o := by
  rw [decodeOptional, Base64.decodeText_encodeText]
  cases o with
  | none => rfl
  | some s =>
    have hs : s ≠ "" := fun e => h (e ▸ rfl)
    simp [hs]

section
variable {a : Action} {version : Nat} {profile : String}

theorem trim_encode : trim (encode a version profile) = encode a version profile :=
  trim_joinBars tokenMark (Numeral.render a.column) [_, _, _, _, _, _, _, _, _, _, _] (c := 'v') (r := ['1']) rfl
    (by decide) fun _ hd => Numeral.isBlank_of_mem_render hd

/-- No field of a token is broken by a bar. -/
theorem splitOnChar_encode : splitOnChar '|' (encode a version profile) = [tokenMark, Numeral.render version,
    Base64.encodeText profile, Base64.encodeText a.origin.text, Base64.encodeText a.category,
    Base64.encodeText a.providerKey, Numeral.render a.span.start, Numeral.render a.span.length,
    Base64.encodeText a.filePath, Base64.encodeText (a.diagnosticId.getD ""),
    Base64.encodeText (a.refactoringId.getD ""), Numeral.render a.line, Numeral.render a.column] := by
  have hm : '|' ∉ tokenMark.toList := by decide
  exact splitOnChar_joinBars (by simp [hm, Base64.bar_not_mem_encodeText, Numeral.bar_not_mem_render]) (by simp)

/-- The token of an action names the version, the profile and all of the action but its title. -/
theorem parse_encode (hv : version < wordLimit) (h : a.Writable) :
    parse (encode a version profile) = some ⟨version, profile, { a with title := "" }⟩ := by
  rw [parse, splitOnChar_encode]
  simp [Base64.decodeText_encodeText, Origin.ofText?_text, Numeral.parse_render, hv, h.start, h.length, h.line,
    h.column, decodeOptional_encode, h.diagnosticId, h.refactoringId]

theorem decode_encode (hv : version < wordLimit) (h : a.Writable) :
    decode (encode a version profile) = .ok ⟨version, profile, { a with title := "" }⟩ := by
  rw [decode, trim_encode, parse_encode hv h]

theorem decode_encode_untitled (hv : version < wordLimit) (h : a.Writable) (ht : a.title = "") :
    decode (encode a version profile) = .ok ⟨version, profile, a⟩ := by
  rw [decode_encode hv h, ← ht]

end

end ActionToken

/-! ## Fix tokens -/

/-- What a fix token can carry: numbers are words, and its plain texts are neither empty nor broken by bars. -/
structure FixToken.Writable (t : FixToken) : Prop where
  version : t.version < wordLimit
  start : t.span.start < wordLimit
  length : t.span.length < wordLimit
  operation : t.operation ≠ "" ∧ '|' ∉ t.operation.toList
  diagnosticId : t.diagnosticId ≠ "" ∧ '|' ∉ t.diagnosticId.toList

namespace FixToken

theorem trim_encode (t : FixToken) : trim t.encode = t.encode :=
  trim_joinBars tokenMark (Base64.encodeText t.filePath) [_, _, _, _, _] (c := 'v') (r := ['1']) rfl (by decide)
    fun _ hd => (Base64.encodeText_plain _ hd).2

theorem parse_encode {t : FixToken} (h : t.Writable) : parse t.encode = some t := by
  have hbar : ∀ f ∈ [tokenMark, Numeral.render t.version, t.operation, t.diagnosticId, Numeral.render t.span.start,
      Numeral.render t.span.length, Base64.encodeText t.filePath], '|' ∉ f.toList := by
    have hm : '|' ∉ tokenMark.toList := by decide
    simp [hm, Base64.bar_not_mem_encodeText, Numeral.bar_not_mem_render, h.operation.2, h.diagnosticId.2]
  rw [encode, parse, splitOnChar_joinBars hbar (by simp)]
  simp [Base64.decodeText_encodeText, Numeral.parse_render, h.version, h.start, h.length, h.operation.1,
    h.diagnosticId.1]

theorem decode_encode {t : FixToken} (h : t.Writable) : decode t.encode = .ok t := by
  rw [decode, trim_encode, parse_encode h]

end FixToken

/-! ## All formats -/

/-- What is encoded is decoded again: an action without its title, a fix token and a provider key. -/
theorem tokens_read_back :
    (∀ (a : Action) (version : Nat) (profile : String), version < wordLimit → a.Writable → a.title = "" →
      ActionToken.decode (ActionToken.encode a version profile) = .ok ⟨version, profile, a⟩) ∧
    (∀ t : FixToken, t.Writable → FixToken.decode t.encode = .ok t) ∧
    ∀ k : ProviderKey, ProviderKey.decode k.encode = some k := by
  refine ⟨?_, ?_, ProviderKey.decode_encode⟩
  · intro a version profile hv ha ht
    exact ActionToken.decode_encode_untitled hv ha ht
  · intro t ht
    exact FixToken.decode_encode ht

/-- Numbers at the upper end, bars and blanks in the texts, and one id that is absent. -/
def awkwardAction : Action where
  title := ""
  category := "style|é"
  origin := .refactoring
  providerKey := "rf|UA==|a3w=|"
  filePath := " src/a|b \u4e2d.cs\n"
  span := ⟨wordLimit - 1, 0⟩
  diagnosticId := none
  refactoringId := some "|"
  line := wordLimit - 1
  column := 0

def awkwardFix : FixToken := ⟨wordLimit - 1, " remove\n", "CS 0168", ⟨0, wordLimit - 1⟩, "a b|c.cs "⟩

theorem tokens_read_back_awkward :
    (awkwardAction.Writable ∧ ActionToken.decode (ActionToken.encode awkwardAction (wordLimit - 1) "p|q ") =
      .ok ⟨wordLimit - 1, "p|q ", awkwardAction⟩) ∧
    (awkwardFix.Writable ∧ FixToken.decode awkwardFix.encode = .ok awkwardFix) := by
  obtain ⟨haction, hfix, -⟩ := tokens_read_back
  have ha : awkwardAction.Writable := ⟨by decide, by decide, by decide, by decide, by decide, by decide⟩
  have ht : awkwardFix.Writable := ⟨by decide, by decide, by decide, by decide, by decide⟩
  exact ⟨⟨ha, haction _ _ _ (by decide) ha rfl⟩, ⟨ht, hfix _ ht⟩⟩

end Workbench
