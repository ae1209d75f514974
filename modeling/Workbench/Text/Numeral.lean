/-!
# Decimal numerals of 64 bits

Written without leading zeros. Read with an optional `+` and any leading
zeros, and refused at `2 ^ 64` and above.
-/

namespace Workbench

def wordLimit : Nat := 0x10000000000000000

namespace Numeral

def digitsValue (ds : List Char) : Nat := ds.foldl (fun n c => n * 10 + (c.toNat - '0'.toNat)) 0

def parseChars (cs : List Char) : Option Nat :=
  let ds := match cs with | '+' :: r => r | _ => cs
  if ds.isEmpty || !ds.all Char.isDigit then none
  else if digitsValue ds < wordLimit then some (digitsValue ds)
  else none

def parse (s : String) : Option Nat := parseChars s.toList

def render (n : Nat) : String := .ofList (Nat.toDigits 10 n)

end Numeral

end Workbench
