/-!
# Base64

The standard alphabet in groups of four, padded with `=`. `decode` accepts
exactly what `encode` writes: padding is required and unused bits are zero.
-/

namespace Workbench.Base64

def digit (n : Nat) : Char :=
  if n < 26 then Char.ofNat (65 + n)
  else if n < 52 then Char.ofNat (71 + n)
  else if n < 62 then Char.ofNat (n - 4)
  else if n = 62 then '+'
  else '/'

def value? (c : Char) : Option Nat :=
  let n := c.toNat
  if 65 ≤ n ∧ n ≤ 90 then some (n - 65)
  else if 97 ≤ n ∧ n ≤ 122 then some (n - 71)
  else if 48 ≤ n ∧ n ≤ 57 then some (n + 4)
  else if n = 43 then some 62
  else if n = 47 then some 63
  else none

def encode : List UInt8 → List Char
  | [] => []
  | [a] => [digit (a.toNat / 4), digit (a.toNat % 4 * 16), '=', '=']
  | [a, b] =>
    [digit (a.toNat / 4), digit (a.toNat % 4 * 16 + b.toNat / 16), digit (b.toNat % 16 * 4), '=']
  | a :: b :: c :: r =>
    digit (a.toNat / 4) :: digit (a.toNat % 4 * 16 + b.toNat / 16) ::
      digit (b.toNat % 16 * 4 + c.toNat / 64) :: digit (c.toNat % 64) :: encode r

/-- The bytes of four digits, of which the last two may be padding at the end of the text. -/
def quad (a b c d : Char) (last : Bool) : Option (List UInt8) := do
  let x ← value? a
  let y ← value? b
  let first := (x * 4 + y / 16).toUInt8
  if last && c == '=' && d == '=' then
    if y % 16 = 0 then some [first] else none
  else
    let z ← value? c
    let second := (y % 16 * 16 + z / 4).toUInt8
    if last && d == '=' then
      if z % 4 = 0 then some [first, second] else none
    else
      let w ← value? d
      some [first, second, (z % 4 * 64 + w).toUInt8]

def decode : List Char → Option (List UInt8)
  | [] => some []
  | a :: b :: c :: d :: r => do
    let here ← quad a b c d r.isEmpty
    let rest ← decode r
    some (here ++ rest)
  | _ => none

def encodeText (s : String) : String := .ofList (encode s.toUTF8.data.toList)

def decodeText (s : String) : Option String := do
  let bytes ← decode s.toList
  String.fromUTF8? ⟨bytes.toArray⟩

end Workbench.Base64
