import Workbench.Digest
import Workbench.Symbol.Basic
import Workbench.Text.Blank

/-!
# Symbol identity

The id of a symbol depends on its definition alone: its qualified name with
generic arity, its normalized parameter types and its kind. Moving or
reformatting code leaves it as it is.
-/

namespace Workbench.Symbol

/-- The bytes that are hashed: the three parts with a zero byte between them. -/
def identityBytes (qualname : String) (signature : Option String) (kind : SymbolKind) : List UInt8 :=
  qualname.toUTF8.toList ++ [0] ++ (signature.getD "").toUTF8.toList ++ [0] ++ kind.text.toUTF8.toList

def idOf (qualname : String) (signature : Option String) (kind : SymbolKind) : String :=
  .ofList ("sym_".toList ++ (Digest.hex (identityBytes qualname signature kind)).take 16)

def isHexDigit (c : Char) : Bool :=
  c.isDigit || ('a' ≤ c && c ≤ 'f') || ('A' ≤ c && c ≤ 'F')

def isWellFormedId (id : String) : Bool :=
  match id.toList with
  | 's' :: 'y' :: 'm' :: '_' :: hex => hex.length == 16 && hex.all isHexDigit
  | _ => false

/-! ## Names of types -/

def genericName (name : String) (arity : Nat) : String :=
  if arity = 0 then name else name ++ "`" ++ toString arity

def stripArity (name : String) : String := .ofList (name.toList.takeWhile (· != '`'))

def afterLast (p : Char → Bool) (cs : List Char) : List Char :=
  (cs.reverse.takeWhile (!p ·)).reverse

/-- The characters before the first pair of colons, or all of them. -/
def beforeColons : List Char → List Char
  | [] => []
  | c :: r => if c == ':' && r.head? == some ':' then [] else c :: beforeColons r

/-- The characters after the last pair of colons, or all of them. -/
def afterColons (cs : List Char) : List Char := (beforeColons cs.reverse).reverse

def simpleTypeChars (cs : List Char) : List Char :=
  let cs := (Text.trim cs).takeWhile (· != '<')
  let cs := Text.dropEndWhile (fun c => c == '?' || c == '[' || c == ']') cs
  Text.trim (afterLast (· == '.') (afterColons cs))

/-- The last name of a type reference, without type arguments, `?` and array suffixes. -/
def simpleTypeName (raw : String) : String := .ofList (simpleTypeChars raw.toList)

/-- Counts commas directly inside the outermost angle brackets. -/
def countArguments : Nat → Nat → List Char → Nat
  | _, count, [] => count
  | depth, count, c :: r =>
    if c == '<' then countArguments (depth + 1) count r
    else if c == '>' then countArguments (depth - 1) count r
    else if c == ',' && depth == 1 then countArguments depth (count + 1) r
    else countArguments depth count r

def typeArgumentCount (raw : String) : Nat :=
  match raw.toList.dropWhile (· != '<') with
  | [] => 0
  | rest => countArguments 0 1 rest

/-! ## Signatures -/

/-- Drops one space after each comma. -/
def closeCommas : List Char → List Char
  | [] => []
  | ',' :: ' ' :: r => ',' :: closeCommas r
  | c :: r => c :: closeCommas r

def normalizeType (raw : String) : List Char :=
  closeCommas ([' '].intercalate (Text.words raw.toList))

/-- The parameter types of a callable in a form that does not depend on layout. -/
def normalizeSignature (types : List String) : String :=
  .ofList ('(' :: [','].intercalate (types.map normalizeType) ++ [')'])

end Workbench.Symbol
