import Workbench.Decimal

/-!
# JSON values

Objects keep their keys in ascending order and each key once; `Json.object`
builds one from fields in any order, the last of equal keys winning.
-/

namespace Workbench

inductive Json.Number where
  | nat (n : Nat)
  /-- The number `-(n + 1)`. -/
  | negSucc (n : Nat)
  /-- The shortest decimal of a double: `digits · 10 ^ power`. -/
  | real (negative : Bool) (digits : Nat) (power : Int)
deriving DecidableEq, Repr

inductive Json where
  | null
  | bool (b : Bool)
  | num (n : Json.Number)
  | str (s : String)
  | arr (xs : List Json)
  | obj (fields : List (String × Json))
deriving Repr, BEq

namespace Json

/-- Adds a field at its place in ascending key order, replacing one of the same key. -/
def putField (key : String) (value : Json) : List (String × Json) → List (String × Json)
  | [] => [(key, value)]
  | (k, v) :: r =>
    if key < k then (key, value) :: (k, v) :: r
    else if key = k then (key, value) :: r
    else (k, v) :: putField key value r

def object (fields : List (String × Json)) : Json :=
  .obj (fields.foldl (fun acc f => putField f.1 f.2 acc) [])

def nat (n : Nat) : Json := .num (.nat n)

def ofOption {α} (f : α → Json) : Option α → Json
  | none => .null
  | some a => f a

def strs (xs : List String) : Json := .arr (xs.map .str)

def field? (key : String) : Json → Option Json
  | .obj fields => fields.lookup key
  | _ => none

def str? : Json → Option String
  | .str s => some s
  | _ => none

def nat? : Json → Option Nat
  | .num (.nat n) => some n
  | _ => none

def bool? : Json → Option Bool
  | .bool b => some b
  | _ => none

def arr? : Json → Option (List Json)
  | .arr xs => some xs
  | _ => none

end Json

def optField {α} (key : String) (f : α → Json) : Option α → List (String × Json)
  | none => []
  | some a => [(key, f a)]

end Workbench
