import Workbench.Json.Basic

/-!
# Shapes of arguments

A shape says what the arguments of an operation look like: its fields in
order, what each may hold, and what stands in for one that is not given.
`Shape.schema` describes a shape to clients.
-/

namespace Workbench.Arguments

inductive Slot where
  | text
  /-- A count or a position. -/
  | size
  | word
  | flag
  | anything
  | choice (names : List String)
deriving DecidableEq, Repr

structure Field where
  name : String
  aliases : List String := []
  slot : Slot
  /-- Whether the field may hold `null`, and may be left out of an object. -/
  optional : Bool := false
  /-- What a field that is left out holds, also at the end of an array. -/
  default : Option Json := none
  description : Option String := none

structure Shape where
  title : String
  fields : List Field
  description : Option String := none

def ticked (s : String) : String := .ofList ('\x60' :: s.toList ++ ['\x60'])

def Field.answersTo (f : Field) (key : String) : Bool := f.name == key || f.aliases.contains key

def Field.isRequired (f : Field) : Bool := !f.optional && f.default.isNone

/-! ## Describing a shape -/

/-- A type name that also admits `null` where the field is optional. -/
def typeField (f : Field) (name : String) : String × Json :=
  ("type", if f.optional then .strs [name, "null"] else .str name)

/-- Optional numbers also state their format and least value. -/
def numberFields (f : Field) (format : String) : List (String × Json) :=
  typeField f "integer" ::
    if f.optional then [("format", .str format), ("minimum", .num (.real false 0 0))] else []

def slotFields (f : Field) : List (String × Json) :=
  match f.slot with
  | .text => [typeField f "string"]
  | .size => numberFields f "uint"
  | .word => numberFields f "uint64"
  | .flag => [typeField f "boolean"]
  | .anything => []
  | .choice names => [("type", .str "string"), ("enum", .strs names)]

def Field.schema (f : Field) : Json :=
  .object (slotFields f ++ optField "default" id f.default ++ optField "description" .str f.description)

def Shape.required (s : Shape) : List String :=
  ((s.fields.filter Field.isRequired).map (·.name)).mergeSort

def Shape.schema (s : Shape) : Json :=
  .object ([("type", .str "object"), ("properties", .object (s.fields.map fun f => (f.name, f.schema)))] ++
    (if s.required.isEmpty then [] else [("required", .strs s.required)]) ++
    optField "description" .str s.description)

def openSchema : Json := .object [("type", .str "object")]

end Workbench.Arguments
