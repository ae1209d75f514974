import Workbench.Arguments.Shape
import Workbench.Json.Printer
import Workbench.Text.Quoted

/-!
# Fitting values into a shape

Arguments come as an object, or as an array of the fields in order. An object
is gone through in key order, and the first field at fault is the one
reported; what is missing is looked for only after that. Fields that the shape
does not have are passed over.
-/

namespace Workbench.Arguments

/-! ## Misfits -/

inductive Misfit where
  | wrongType (got expected : String)
  | wrongValue (got expected : String)
  | wrongLength (length : Nat) (expected : String)
  | missingField (name : String)
  | duplicateField (name : String)
  | unknownChoice (name : String) (names : List String)
deriving DecidableEq, Repr

def Misfit.message : Misfit → String
  | .wrongType got expected => "invalid type: " ++ got ++ ", expected " ++ expected
  | .wrongValue got expected => "invalid value: " ++ got ++ ", expected " ++ expected
  | .wrongLength n expected => "invalid length " ++ toString n ++ ", expected " ++ expected
  | .missingField name => "missing field " ++ ticked name
  | .duplicateField name => "duplicate field " ++ ticked name
  | .unknownChoice name names =>
    "unknown variant " ++ ticked name ++ ", expected one of " ++ ", ".intercalate (names.map ticked)

def describe : Json → String
  | .null => "null"
  | .bool b => "boolean " ++ ticked (if b then "true" else "false")
  | .num (.real negative digits power) => "floating point " ++ ticked (Json.Number.real negative digits power).render
  | .num n => "integer " ++ ticked n.render
  | .str s => "string " ++ Text.quoted s
  | .arr _ => "sequence"
  | .obj _ => "map"

/-! ## Slots -/

def fitNumber (expected : String) : Json → Except Misfit Json
  | .num (.nat n) => .ok (.nat n)
  | .num (.negSucc n) => .error (.wrongValue (describe (.num (.negSucc n))) expected)
  | j => .error (.wrongType (describe j) expected)

def fitName (names : List String) (name : String) : Except Misfit Json :=
  if names.contains name then .ok (.str name) else .error (.unknownChoice name names)

/-- A choice is written as its name, or as an object with that one key and nothing in it. -/
def fitChoice (names : List String) : Json → Except Misfit Json
  | .str name => fitName names name
  | .obj [(name, payload)] =>
    match fitName names name, payload with
    | .error e, _ => .error e
    | .ok j, .null => .ok j
    | .ok _, _ => .error (.wrongType (describe payload) "unit")
  | .obj fields => .error (.wrongValue (describe (.obj fields)) "map with a single key")
  | j => .error (.wrongType (describe j) "string or map")

def Slot.fit : Slot → Json → Except Misfit Json
  | .text, .str s => .ok (.str s)
  | .text, j => .error (.wrongType (describe j) "a string")
  | .size, j => fitNumber "usize" j
  | .word, j => fitNumber "u64" j
  | .flag, .bool b => .ok (.bool b)
  | .flag, j => .error (.wrongType (describe j) "a boolean")
  | .anything, j => .ok j
  | .choice names, j => fitChoice names j

def Field.fit (f : Field) (j : Json) : Except Misfit Json :=
  match f.optional, j with
  | true, .null => .ok .null
  | _, j => f.slot.fit j

end Arguments

open Arguments in
structure Arguments where
  values : List (String × Json)

namespace Arguments

/-! ## Objects -/

/-- Takes the entries of an object in turn, behind the values already taken. -/
def takeEntries (fields : List Field) (taken : List (String × Json)) :
    List (String × Json) → Except Misfit (List (String × Json))
  | [] => .ok taken
  | (key, j) :: rest =>
    match fields.find? (·.answersTo key) with
    | none => takeEntries fields taken rest
    | some f =>
      if (taken.lookup f.name).isSome then .error (.duplicateField f.name)
      else
        match f.fit j with
        | .error e => .error e
        | .ok v => takeEntries fields ((f.name, v) :: taken) rest

def Field.complete (taken : List (String × Json)) (f : Field) : Except Misfit (String × Json) :=
  match taken.lookup f.name, f.default with
  | some v, _ => .ok (f.name, v)
  | none, some v => .ok (f.name, v)
  | none, none => if f.optional then .ok (f.name, .null) else .error (.missingField f.name)

def ofEntries (s : Shape) (entries : List (String × Json)) : Except Misfit Arguments := do
  let taken ← takeEntries s.fields [] entries
  return ⟨← s.fields.mapM (Field.complete taken)⟩

/-! ## Arrays -/

def elementCount (n : Nat) : String := toString n ++ if n = 1 then " element" else " elements"

def Shape.noun (s : Shape) : String := "struct " ++ s.title

/-- Takes the items of an array for the fields in order. Only a field with a default may lack an item. -/
def takeItems (s : Shape) (size : Nat) : Nat → List Field → List Json → Except Misfit (List (String × Json))
  | _, [], [] => .ok []
  | _, [], _ :: _ => .error (.wrongLength size "fewer elements in array")
  | i, f :: fs, [] =>
    match f.default with
    | some v => (takeItems s size (i + 1) fs []).map ((f.name, v) :: ·)
    | none => .error (.wrongLength i (s.noun ++ " with " ++ elementCount s.fields.length))
  | i, f :: fs, j :: js =>
    match f.fit j with
    | .error e => .error e
    | .ok v => (takeItems s size (i + 1) fs js).map ((f.name, v) :: ·)

def ofItems (s : Shape) (items : List Json) : Except Misfit Arguments :=
  (takeItems s items.length 0 s.fields items).map Arguments.mk

def fit (s : Shape) : Json → Except Misfit Arguments
  | .obj entries => ofEntries s entries
  | .arr items => ofItems s items
  | j => .error (.wrongType (describe j) s.noun)

/-! ## Reading fields

Arguments that fit a shape hold in each of its fields what the slot says, so
these fall back on nothing.
-/

def value (a : Arguments) (name : String) : Json := (a.values.lookup name).getD .null

def text? (a : Arguments) (name : String) : Option String := (a.value name).str?

def text (a : Arguments) (name : String) : String := (a.text? name).getD ""

def nat? (a : Arguments) (name : String) : Option Nat := (a.value name).nat?

def nat (a : Arguments) (name : String) : Nat := (a.nat? name).getD 0

def flag (a : Arguments) (name : String) : Bool := ((a.value name).bool?).getD false

end Workbench.Arguments
