import Workbench.Proofs.Identities
import Workbench.Proofs.Wording

/-!
# Blanks in signatures

A signature keeps one blank wherever a type has blanks between two characters,
except behind a comma. So two spellings of one sequence of tokens get the same
signature exactly when they agree on where the other blanks are.
-/

namespace Workbench

namespace Text

open Workbench.Symbol (closeCommas)

/-! ## Places of visible characters -/

/-- A visible character of a text, with the one before it and whether blanks stand between the two. -/
structure Place where
  before : Option Char
  gap : Bool
  here : Char
deriving DecidableEq

/-- The visible characters of a text in turn, behind a character and perhaps blanks. -/
def places (before : Option Char) (gap : Bool) : List Char → List Place
  | [] => []
  | c :: r => if isBlank c then places before true r else ⟨before, gap, c⟩ :: places (some c) false r

/-- The same character behind the same one. Where `p` holds of the two, blanks stand between both or between neither. -/
def Place.Alike (p : Char → Char → Bool) (a b : Place) : Prop :=
  a.before = b.before ∧ a.here = b.here ∧ (a.before.any (p · a.here) = true → a.gap = b.gap)

instance (p : Char → Char → Bool) : DecidableRel (Place.Alike p) := fun _ _ => inferInstanceAs (Decidable (_ ∧ _))

/-- Texts with the same visible characters, and with blanks in the same places between those of which `p` holds. -/
def AlikeBetween (p : Char → Char → Bool) (t u : String) : Prop :=
  List.Forall₂ (Place.Alike p) (places none true t.toList) (places none true u.toList)

instance (p : Char → Char → Bool) : DecidableRel (AlikeBetween p) := fun _ _ => inferInstanceAs (Decidable (List.Forall₂ _ _ _))

/-- Texts that differ in blanks only, and not in whether blanks stand between two characters of identifiers. -/
def SameTokens : String → String → Prop := AlikeBetween fun c d => isWordChar c && isWordChar d

/-- Texts that differ in blanks only, and not in whether blanks stand between two characters, unless the first is a comma. -/
def SameGaps : String → String → Prop := AlikeBetween fun c _ => c != ','

instance : DecidableRel SameTokens := inferInstanceAs (DecidableRel (AlikeBetween _))

instance : DecidableRel SameGaps := inferInstanceAs (DecidableRel (AlikeBetween _))

/-- A character with the blank before it that a signature keeps. -/
def Place.closed (a : Place) : List Char :=
  if a.gap && a.before.any (· != ',') then [' ', a.here] else [a.here]

section
variable {p : Char → Char → Bool} {as bs : List Place} {before : Option Char} {gap : Bool} {w cs r r' : List Char} {b : Char}

theorem isBlank_here {a : Place} (h : a ∈ places before gap cs) : isBlank a.here = false := by
  induction cs generalizing before gap with
  | nil => cases h
  | cons c r ih =>
    rw [places] at h
    split at h
    · exact ih h
    · rename_i hc
      rcases List.mem_cons.1 h with rfl | h
      · simpa using hc
      · exact ih h

theorem Place.closed_append_inj {a b : Place} (hbefore : a.before = b.before) (hhere : a.here = b.here)
    (ha : isBlank a.here = false) : a.closed ++ r = b.closed ++ r' ↔ a.Alike (fun c _ => c != ',') b ∧ r = r' := by
  have hvisible : b.here ≠ ' ' := by
    intro hblank
    rw [hhere, hblank] at ha
    cases ha
  rw [closed, closed, Alike, hbefore, hhere]
  cases hcomma : b.before.any (· != ',') with
  | false => simp
  | true => cases a.gap <;> cases b.gap <;> simp [hvisible, hvisible.symm]

/-- What is kept of two texts with the same visible characters is the same exactly when their gaps are. -/
theorem closed_append_inj (h : List.Forall₂ (Place.Alike p) as bs) (has : ∀ a ∈ as, isBlank a.here = false) :
    as.flatMap Place.closed ++ r = bs.flatMap Place.closed ++ r' ↔
      List.Forall₂ (Place.Alike fun c _ => c != ',') as bs ∧ r = r' := by
  induction h with
  | nil => simp
  | cons hab _ ih =>
    obtain ⟨ha, has⟩ := List.forall_mem_cons.1 has
    rw [List.flatMap_cons, List.flatMap_cons, List.append_assoc, List.append_assoc,
      Place.closed_append_inj hab.1 hab.2.1 ha, ih has, List.forall₂_cons, and_assoc]

/-! ## Words without blanks behind commas -/

/-- The blank that is kept before a text, when there is something in it. -/
def lead (before : Option Char) (cs : List Char) : List Char :=
  if before.any (· != ',') && !(words cs).isEmpty then [' '] else []

theorem closed_places_word (hw : IsWord w) (before : Option Char) (gap : Bool) (r : List Char) :
    (places before gap (w ++ r)).flatMap Place.closed =
      (if gap && before.any (· != ',') then [' '] else []) ++ w ++ (places w.getLast? false r).flatMap Place.closed := by
  obtain ⟨hne, hvisible⟩ := hw
  induction w generalizing before gap with
  | nil => exact absurd rfl hne
  | cons c w ih =>
    obtain ⟨hc, hvisible⟩ := List.forall_mem_cons.1 hvisible
    rw [List.cons_append, places, if_neg (by simp [hc]), List.flatMap_cons]
    by_cases hw : w = []
    · subst hw
      simp only [Place.closed, List.nil_append]
      split <;> simp
    · rw [ih (some c) false hw hvisible, List.getLast?_cons_of_ne_nil hw, Place.closed]
      split <;> simp

theorem closeCommas_cons {c : Char} (h : c = ',' → r.head? ≠ some ' ') : closeCommas (c :: r) = c :: closeCommas r := by
  rw [closeCommas]
  intro r' hc hr
  subst hr
  exact h hc rfl

theorem closeCommas_word (hw : IsWord w) (r : List Char) :
    closeCommas (w ++ r) = w.dropLast ++ closeCommas (w.getLast hw.ne :: r) := by
  obtain ⟨hne, hvisible⟩ := hw
  induction w with
  | nil => exact absurd rfl hne
  | cons c w ih =>
    cases w with
    | nil => rfl
    | cons d w =>
      obtain ⟨-, hvisible⟩ := List.forall_mem_cons.1 hvisible
      have hd : isBlank d = false := hvisible d List.mem_cons_self
      have hfirst : c = ',' → (d :: w ++ r).head? ≠ some ' ' := by
        intro _ hblank
        cases hblank
        cases hd
      rw [List.cons_append, closeCommas_cons hfirst, ih (List.cons_ne_nil d w) hvisible]
      rfl

theorem closeCommas_single (hw : IsWord w) : closeCommas w = w := by
  have hword := closeCommas_word hw []
  rw [List.append_nil, closeCommas_cons (by simp), closeCommas, List.dropLast_append_getLast] at hword
  exact hword

theorem closeCommas_next (hw : IsWord w) (r : List Char) :
    closeCommas (w ++ ' ' :: r) = w ++ (if w.getLast?.any (· != ',') then [' '] else []) ++ closeCommas r := by
  have hlast : w.dropLast ++ [w.getLast hw.ne] = w := List.dropLast_append_getLast hw.ne
  have hspace : closeCommas (' ' :: r) = ' ' :: closeCommas r := closeCommas_cons nofun
  rw [closeCommas_word hw, List.getLast?_eq_some_getLast hw.ne, Option.any_some]
  by_cases hcomma : w.getLast hw.ne = ','
  · rw [hcomma] at hlast ⊢
    rw [closeCommas, if_neg (by decide), List.append_nil, List.append_cons, hlast]
  · rw [closeCommas_cons fun h => absurd h hcomma, hspace, if_pos (by simpa using hcomma), List.append_cons, hlast]
    simp

/-- Joining words and closing up behind commas keeps of the blanks before a character what its place tells. -/
theorem closed_places (before : Option Char) (cs : List Char) :
    (places before true cs).flatMap Place.closed = lead before cs ++ closeCommas ([' '].intercalate (words cs)) := by
  induction cs using wordInduction generalizing before with
  | nil => simp [places, lead, closeCommas]
  | blank b r hb ih => rw [places, if_pos hb, ih, lead, lead, words_blank hb]
  | single w hw =>
    have hplaces := closed_places_word hw before true []
    rw [List.append_nil] at hplaces
    rw [hplaces, lead, words_of_isWord hw, List.intercalate_singleton, closeCommas_single hw]
    simp [places]
  | next w b r hw hb ih =>
    have hrest : places w.getLast? false (b :: r) = places w.getLast? true r := by rw [places, if_pos hb]
    rw [closed_places_word hw, hrest, ih, lead, lead, words_next hw hb]
    cases hwords : words r with
    | nil =>
      rw [List.intercalate_singleton, closeCommas_single hw]
      simp [closeCommas]
    | cons v vs =>
      have hjoin : [' '].intercalate (w :: v :: vs) = w ++ ' ' :: [' '].intercalate (v :: vs) := by
        rw [List.intercalate_cons_cons, List.append_assoc, List.singleton_append]
      rw [hjoin, closeCommas_next hw]
      simp

end

end Text

namespace Symbol

open Text

theorem normalizeType_eq (raw : String) : normalizeType raw = (places none true raw.toList).flatMap Place.closed :=
  (closed_places none raw.toList).symm

section
variable {p : Char → Char → Bool} {ts us : List String}

theorem normalizeType_append_inj {t u : String} (h : AlikeBetween p t u) {r r' : List Char} :
    normalizeType t ++ r = normalizeType u ++ r' ↔ SameGaps t u ∧ r = r' := by
  rw [normalizeType_eq, normalizeType_eq]
  exact closed_append_inj h fun a ha => isBlank_here ha

theorem joinedTypes_append_inj (h : List.Forall₂ (AlikeBetween p) ts us) (r : List Char) :
    [','].intercalate (ts.map normalizeType) ++ r = [','].intercalate (us.map normalizeType) ++ r ↔
      List.Forall₂ SameGaps ts us := by
  induction h with
  | nil => simp
  | @cons t u ts us htu hrest ih =>
    rw [List.forall₂_cons, ← ih]
    cases hrest with
    | nil =>
      have hclose : normalizeType t ++ r = normalizeType u ++ r ↔ SameGaps t u ∧ r = r := normalizeType_append_inj htu
      simpa using hclose
    | cons _ _ =>
      simp only [List.map_cons, List.intercalate_cons_cons, List.append_assoc]
      rw [normalizeType_append_inj htu, List.append_cancel_left_eq]

/-- Signatures of types that differ in blanks only are the same exactly when the gaps of every type are. -/
theorem normalizeSignature_inj (h : List.Forall₂ (AlikeBetween p) ts us) :
    normalizeSignature ts = normalizeSignature us ↔ List.Forall₂ SameGaps ts us := by
  rw [normalizeSignature, normalizeSignature, String.ofList_inj, List.cons_append, List.cons_append, List.cons_inj_right]
  exact joinedTypes_append_inj h [')']

theorem identityBytes_signature_inj {qualname s t : String} {kind : SymbolKind} :
    identityBytes qualname (some s) kind = identityBytes qualname (some t) kind ↔ s = t := by
  simp only [identityBytes, Option.getD_some, List.append_cancel_right_eq, List.append_cancel_left_eq]
  exact toList_toUTF8_inj

/-- Reformatting parameter types leaves the signature as it is, and the bytes that make up the id, exactly when it leaves
the gaps that are not behind commas as they are. Then the id is kept. -/
theorem reformatted_alike_iff (h : List.Forall₂ SameTokens ts us) :
    (normalizeSignature ts = normalizeSignature us ↔ List.Forall₂ SameGaps ts us) ∧
      ∀ qualname kind,
        (identityBytes qualname (some (normalizeSignature ts)) kind = identityBytes qualname (some (normalizeSignature us)) kind ↔
          List.Forall₂ SameGaps ts us) ∧
        (List.Forall₂ SameGaps ts us →
          idOf qualname (some (normalizeSignature ts)) kind = idOf qualname (some (normalizeSignature us)) kind) := by
  refine ⟨normalizeSignature_inj h, fun qualname kind => ⟨?_, ?_⟩⟩
  · rw [identityBytes_signature_inj, normalizeSignature_inj h]
  · intro hgaps
    rw [(normalizeSignature_inj h).2 hgaps]

theorem dictionary_reformatted_alike :
    List.Forall₂ SameTokens ["int", "Dictionary<string,  int>"] ["int ", "Dictionary<string,int>"] ∧
      normalizeSignature ["int", "Dictionary<string,  int>"] = normalizeSignature ["int ", "Dictionary<string,int>"] :=
  ⟨by decide +kernel, (reformatted_alike_iff (by decide +kernel)).1.2 (by decide +kernel)⟩

/-- A blank in brackets gives a method another id. -/
theorem list_reformatted_otherwise : List.Forall₂ SameTokens ["List<int>"] ["List< int>"] ∧
    normalizeSignature ["List<int>"] ≠ normalizeSignature ["List< int>"] ∧
    idOf "A.Run" (some (normalizeSignature ["List<int>"])) .method ≠
      idOf "A.Run" (some (normalizeSignature ["List< int>"])) .method := by
  decide +kernel

end

end Symbol

end Workbench
