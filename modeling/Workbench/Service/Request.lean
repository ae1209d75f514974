import Workbench.Arguments.Fit
import Workbench.Json.Skip

/-!
# Requests

A request line is an object with the fields `id`, `method` and `params`, or an
array of the three. It is read straight from the text: a fault in a field is
placed where reading the field ended, and one that concerns the request as a
whole where the request ended.
-/

namespace Workbench.Service

open Arguments Json

structure Request where
  id : Json
  method : String
  params : Json
deriving Repr

namespace Request

def noun : String := "struct RpcRequest"

/-- The containers that may be opened inside a request. -/
def depth : Nat := Json.nestingLimit - 1

/-! ## Fields -/

/-- Reads a value, where some other kind of value was wanted. -/
def unwanted (expected : String) (p : Cursor) : Misread :=
  let p := p.skipSpace
  let wrong (j : Json) (p : Cursor) : Misread := p.failText (Misfit.wrongType (describe j) expected).message
  match p.rest with
  | [] => p.failNext .eofValue
  | c :: _ =>
    if c == '[' then wrong (.arr []) p
    else if c == '\x7b' then wrong (.obj []) p
    else
      match Json.value 0 p with
      | .error e => e
      | .ok (j, p) => wrong j p

def text : Reader String := fun p =>
  let p := p.skipSpace
  match p.rest with
  | '"' :: _ => string p.advance
  | _ => .error (unwanted "a string" p)

structure Partial where
  id : Option Json := none
  method : Option String := none
  params : Option Json := none

def Partial.has (f : Partial) (key : String) : Bool :=
  (key == "id" && f.id.isSome) || (key == "method" && f.method.isSome) || (key == "params" && f.params.isSome)

def fieldValue (key : String) (f : Partial) : Reader Partial := fun p =>
  if key == "id" then (value depth p).map fun (j, p) => ({ f with id := some j }, p)
  else if key == "method" then (text p).map fun (s, p) => ({ f with method := some s }, p)
  else if key == "params" then (value depth p).map fun (j, p) => ({ f with params := some j }, p)
  else (skip p).map fun p => (f, p)

/-! ## Objects -/

/-- Where reading stands once the closing brace, if it comes next, is read. -/
def pastBrace (p : Cursor) : Cursor :=
  let p := p.skipSpace
  if p.rest.head? == some '\x7d' then p.advance else p

def fields : Nat → Bool → Partial → Reader Partial
  | 0, _, _, p => .error (p.fail .eofObject)
  | fuel + 1, first, f, p =>
    match moreKeys first p with
    | .error e => .error e
    | .ok (false, p) => .ok (f, p)
    | .ok (true, p) => do
      let (key, p) ← string p.advance
      if f.has key then throw ((pastBrace p).failText (Misfit.duplicateField key).message)
      let (_, p) ← colon p
      let (f, p) ← fieldValue key f p
      fields fuel false f p

def ofObject : Reader Request := fun p => do
  let (f, p) ← fields (p.rest.length + 1) true {} p
  match f.method with
  | none => throw (p.advance.failText (Misfit.missingField "method").message)
  | some method => return (⟨f.id.getD .null, method, f.params.getD .null⟩, p.advance)

/-! ## Arrays -/

/-- The next item of an array, when there is one. -/
def nextItem {α} (first : Bool) (item : Reader α) : Reader (Option α) := fun p => do
  let (more, p) ← moreItems first p
  if !more then return (none, p)
  let (a, p) ← item p
  return (some a, p)

def closeArray (p : Cursor) : Except Misread Cursor :=
  let p := p.skipSpace
  match p.rest with
  | [] => .error (p.failNext .eofList)
  | c :: _ =>
    if c == ']' then .ok p.advance
    else if c == ',' then
      let p := p.advance.skipSpace
      .error (p.failNext (if p.rest.head? == some ']' then .trailingComma else .trailingCharacters))
    else .error (p.failNext .trailingCharacters)

def ofArray : Reader Request := fun p => do
  let (id, p) ← nextItem true (value depth) p
  let (method, p) ← if id.isSome then nextItem false text p else .ok (none, p)
  match method with
  | none => throw (p.advance.failText (Misfit.wrongLength 1 (noun ++ " with 3 elements")).message)
  | some method =>
    let (params, p) ← nextItem false (value depth) p
    let p ← closeArray p
    return (⟨id.getD .null, method, params.getD .null⟩, p)

/-! ## Whole lines -/

def read : Reader Request := fun p =>
  let p := p.skipSpace
  match p.rest with
  | [] => .error (p.failNext .eofValue)
  | c :: _ =>
    if c == '[' then ofArray p.advance
    else if c == '\x7b' then ofObject p.advance
    else .error (unwanted noun p)

def parse (line : String) : Except Misread Request := finish read line

end Request

end Workbench.Service
