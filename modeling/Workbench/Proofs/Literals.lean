import Workbench.CSharp.Tree
import Workbench.Proofs.Registry

/-!
# Integer literals

An integer literal has the first type that its suffix allows and that can hold
its value. What is written for `var` is the first type that the suffix allows,
so it is the type of the literal exactly when that type holds the value.
-/

namespace Workbench.CSharp

/-! ## Types and suffixes -/

inductive IntegralType where
  | int | uint | long | ulong
deriving DecidableEq, Repr

namespace IntegralType

def keyword : IntegralType → String
  | .int => "int"
  | .uint => "uint"
  | .long => "long"
  | .ulong => "ulong"

/-- The least number that is too large for the type. -/
def limit : IntegralType → Nat
  | .int => 0x80000000
  | .uint => 0x100000000
  | .long => 0x8000000000000000
  | .ulong => 0x10000000000000000

end IntegralType

inductive Suffix where
  | none | unsigned | long | unsignedLong
deriving DecidableEq, Repr

namespace Suffix

def spellings : Suffix → List String
  | .none => [""]
  | .unsigned => ["u", "U"]
  | .long => ["l", "L"]
  | .unsignedLong => ["ul", "uL", "Ul", "UL", "lu", "lU", "Lu", "LU"]

/-- The spellings in small letters. -/
def endings : Suffix → List (List Char)
  | .none => [[]]
  | .unsigned => [['u']]
  | .long => [['l']]
  | .unsignedLong => [['u', 'l'], ['l', 'u']]

/-- The types that a literal with this suffix may have, the preferred one first. -/
def types : Suffix → List IntegralType
  | .none => [.int, .uint, .long, .ulong]
  | .unsigned => [.uint, .ulong]
  | .long => [.long, .ulong]
  | .unsignedLong => [.ulong]

def first : Suffix → IntegralType
  | .none => .int
  | .unsigned => .uint
  | .long => .long
  | .unsignedLong => .ulong

theorem types_eq (s : Suffix) : s.types = s.first :: s.types.tail := by cases s <;> rfl

theorem first_not_mem_tail (s : Suffix) : s.first ∉ s.types.tail := by cases s <;> decide

end Suffix

/-! ## Literals -/

inductive Radix where
  | binary | decimal | hexadecimal
deriving DecidableEq, Repr

namespace Radix

def base : Radix → Nat
  | .binary => 2
  | .decimal => 10
  | .hexadecimal => 16

def marks : Radix → List String
  | .binary => ["0b", "0B"]
  | .decimal => [""]
  | .hexadecimal => ["0x", "0X"]

def digits : Radix → List Char
  | .binary => "01".toList
  | .decimal => "0123456789".toList
  | .hexadecimal => "0123456789abcdefABCDEF".toList

def digitValue (c : Char) : Nat :=
  if c.isDigit then c.toNat - '0'.toNat else c.toLower.toNat - 'a'.toNat + 10

end Radix

/-- An integer literal: a mark of its radix, digits with separators before and between them, and a suffix. A decimal
literal begins with a digit. -/
structure IntegerLiteral where
  radix : Radix
  mark : String
  body : List Char
  suffix : Suffix
  ending : String
  marked : mark ∈ radix.marks
  plain : ∀ c ∈ body, c ∈ '_' :: radix.digits
  opened : radix = .decimal → ∃ c ∈ body.head?, c ∈ radix.digits
  closed : ∃ c ∈ body.getLast?, c ∈ radix.digits
  ended : ending ∈ suffix.spellings

namespace IntegerLiteral

def spelling (l : IntegerLiteral) : String := l.mark ++ .ofList l.body ++ l.ending

def value (l : IntegerLiteral) : Nat :=
  (l.body.filter (· != '_')).foldl (fun n c => l.radix.base * n + Radix.digitValue c) 0

/-- The type of a literal; a value that no allowed type holds has none. -/
def type? (l : IntegerLiteral) : Option IntegralType := l.suffix.types.find? fun t => l.value < t.limit

theorem type?_eq_first_iff (l : IntegerLiteral) : l.type? = some l.suffix.first ↔ l.value < l.suffix.first.limit := by
  rw [type?, l.suffix.types_eq, List.find?_cons]
  split
  · rename_i h
    simpa using h
  · rename_i h
    constructor
    · intro hfound
      exact absurd (List.mem_of_find?_eq_some hfound) l.suffix.first_not_mem_tail
    · intro hlt
      simp [hlt] at h

end IntegerLiteral

/-! ## What is written for `var` -/

section
variable {f : SourceFile} {value : Node} {l : IntegerLiteral}

/-- A node that is an integer literal of the file. -/
structure Denotes (f : SourceFile) (value : Node) (l : IntegerLiteral) : Prop where
  kind : value.kind = .integerLiteral
  text : f.text value = l.spelling

theorem Suffix.lower_spelling {s : Suffix} {e : String} (h : e ∈ s.spellings) :
    e.toList.map Char.toLower ∈ s.endings := by
  revert e
  cases s <;> decide

theorem Radix.lower_digit {r : Radix} {c : Char} (h : c ∈ r.digits) : c.toLower ≠ 'u' ∧ c.toLower ≠ 'l' := by
  have hall : r.digits.all (fun c => c.toLower != 'u' && c.toLower != 'l') = true := by cases r <;> decide
  simpa using List.all_eq_true.1 hall c h

/-- Behind a digit the suffix alone counts. -/
theorem integerType_append {front ending : List Char} {c : Char} {s : Suffix} (hu : c ≠ 'u') (hl : c ≠ 'l')
    (h : ending ∈ s.endings) : integerType (front ++ [c] ++ ending) = s.first.keyword := by
  cases s with
  | none =>
    cases List.mem_singleton.1 h
    simp [integerType, List.isSuffixOf, Suffix.first, IntegralType.keyword, hu.symm, hl.symm]
  | unsigned =>
    cases List.mem_singleton.1 h
    simp [integerType, List.isSuffixOf, Suffix.first, IntegralType.keyword, hl.symm]
  | long =>
    cases List.mem_singleton.1 h
    simp [integerType, List.isSuffixOf, Suffix.first, IntegralType.keyword, hu.symm]
  | unsignedLong =>
    simp only [Suffix.endings, List.mem_cons, List.not_mem_nil, or_false] at h
    rcases h with rfl | rfl
    · simp [integerType, List.isSuffixOf, Suffix.first, IntegralType.keyword]
    · simp [integerType, List.isSuffixOf, Suffix.first, IntegralType.keyword]

theorem literalType?_of_denotes (h : Denotes f value l) : literalType? f value = some l.suffix.first.keyword := by
  obtain ⟨c, hlast, hc⟩ := l.closed
  obtain ⟨front, hbody⟩ := List.getLast?_eq_some_iff.1 hlast
  obtain ⟨hu, hl⟩ := Radix.lower_digit hc
  have hlower : (f.text value).toList.map Char.toLower =
      (l.mark.toList ++ front).map Char.toLower ++ [c.toLower] ++ l.ending.toList.map Char.toLower := by
    rw [h.text, IntegerLiteral.spelling, String.toList_append, String.toList_append, String.toList_ofList, hbody]
    simp
  rw [literalType?, h.kind]
  dsimp only
  rw [hlower, integerType_append hu hl (Suffix.lower_spelling l.ended)]

/-- An action that writes a type for the `var` of a local with an initial value. -/
structure Retypes (f : SourceFile) (s : Span) (a : CodeAction) (value : Node) (t : String) : Prop where
  place : ∃ statement ∈ touchedLocals f s, ∃ type, singleLocal? statement = some (type, some value) ∧
    f.text type = "var" ∧ a = .single "Use explicit type instead of 'var'" "UseExplicitType" f.path [⟨type.span, t⟩]
  apparent : apparentType? f value = some t

theorem exists_retypes {read : Parser} {s : Snapshot} {path : String} {span : Span} {actions : List CodeAction}
    {a : CodeAction} (hf : sourceFile read s path = .ok f)
    (h : (useExplicitType read).provide s path span = .ok actions) (ha : a ∈ actions) :
    ∃ value t, Retypes f span a value t := by
  obtain ⟨f', edits, hf', hedits, -, rfl⟩ := mem_provide_refactoring h ha
  cases hf.symm.trans hf'
  obtain ⟨text, -, rfl⟩ := sourceFile_eq_ok.1 hf
  obtain ⟨statement, hmem, h⟩ := List.exists_of_findSome?_eq_some hedits
  unfold explicitType? at h
  split at h
  · rename_i type value hlocal
    obtain ⟨hvar, h⟩ := Option.ite_none_right_eq_some.1 h
    obtain ⟨t, ht, rfl⟩ := Option.map_eq_some_iff.1 h
    exact ⟨value, t, ⟨statement, hmem, type, hlocal, eq_of_beq hvar, rfl⟩, ht⟩
  · cases h

/-- The answer for an integer literal, and what is written for a `var` with this value. -/
theorem literal_fits_iff (h : Denotes f value l) :
    literalType? f value = some l.suffix.first.keyword ∧
      (l.type? = some l.suffix.first ↔ l.value < l.suffix.first.limit) ∧
      ∀ read s path span actions, sourceFile read s path = .ok f →
        (useExplicitType read).provide s path span = .ok actions → ∀ a ∈ actions,
          ∃ init t, Retypes f span a init t ∧ (init = value → t = l.suffix.first.keyword) := by
  have htype := literalType?_of_denotes h
  refine ⟨htype, l.type?_eq_first_iff, fun read s path span actions hf hactions a ha => ?_⟩
  obtain ⟨init, t, hretypes⟩ := exists_retypes hf hactions ha
  refine ⟨init, t, hretypes, ?_⟩
  rintro rfl
  have happarent := hretypes.apparent
  rw [apparentType?, h.kind] at happarent
  exact Option.some.inj (happarent.symm.trans htype)

end

def mask : IntegerLiteral where
  radix := .hexadecimal
  mark := "0x"
  body := "7FFF_FFFF".toList
  suffix := .none
  ending := ""
  marked := by decide
  plain _ h := (show "7FFF_FFFF".toList ⊆ '_' :: Radix.hexadecimal.digits by decide) h
  opened h := absurd h (by decide)
  closed := ⟨'F', rfl, by decide⟩
  ended := by decide

def masked : Snapshot := .addDocument .empty "App" "a.cs" "class A \x7b void M() \x7b var n = 0x7FFF_FFFF; \x7d \x7d" none

theorem literal_fits_mask : ∃ f value, sourceFile parse masked "a.cs" = .ok f ∧ Denotes f value mask ∧
    literalType? f value = some "int" ∧ mask.type? = some .int := by
  have hdenotes : ∃ f, sourceFile parse masked "a.cs" = .ok f ∧
      ∃ value ∈ f.root.descendants, value.kind = .integerLiteral ∧ f.text value = mask.spelling :=
    ⟨_, rfl, by decide +kernel⟩
  obtain ⟨f, hf, value, -, hkind, htext⟩ := hdenotes
  obtain ⟨htype, hfirst, -⟩ := literal_fits_iff ⟨hkind, htext⟩
  exact ⟨f, value, hf, ⟨hkind, htext⟩, htype, hfirst.2 (by decide)⟩

def billions : IntegerLiteral where
  radix := .decimal
  mark := ""
  body := "3000000000".toList
  suffix := .none
  ending := ""
  marked := by decide
  plain _ h := (show "3000000000".toList ⊆ '_' :: Radix.decimal.digits by decide) h
  opened _ := ⟨'3', rfl, by decide⟩
  closed := ⟨'0', rfl, by decide⟩
  ended := by decide

def counted : Snapshot := .addDocument .empty "App" "a.cs" "class A \x7b void M() \x7b var n = 3000000000; \x7d \x7d" none

/-- A `var` becomes an `int` that cannot hold its value. -/
theorem retyped_too_narrow : billions.type? = some .uint ∧
    (∃ f, sourceFile parse counted "a.cs" = .ok f ∧
      ∃ value ∈ f.root.descendants, Denotes f value billions ∧ literalType? f value = some "int") ∧
    (useExplicitType parse).provide counted "a.cs" ⟨21, 0⟩ =
      .ok [.single "Use explicit type instead of 'var'" "UseExplicitType" "a.cs" [⟨⟨21, 3⟩, "int"⟩]] := by
  refine ⟨by decide, ?_, by decide +kernel⟩
  have hdenotes : ∃ f, sourceFile parse counted "a.cs" = .ok f ∧ ∃ value ∈ f.root.descendants,
      (value.kind = .integerLiteral ∧ f.text value = billions.spelling) ∧ literalType? f value = some "int" :=
    ⟨_, rfl, by decide +kernel⟩
  obtain ⟨f, hf, value, hmem, hdenotes, htype⟩ := hdenotes
  exact ⟨f, hf, value, hmem, ⟨hdenotes.1, hdenotes.2⟩, htype⟩

end Workbench.CSharp
