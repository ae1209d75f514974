import Workbench.Json.Reader

/-!
# Passing over JSON

A value that nobody looks at is passed over without being built. This takes
any depth of nesting, looks at escapes and numbers only as far as to find
their end, and reports a missing element as a missing value.
-/

namespace Workbench.Json

/-! ## Strings -/

def skipEscape (p : Cursor) : Except Misread Cursor :=
  match p.rest with
  | [] => .error (p.fail .eofString)
  | c :: _ =>
    if c == 'u' then (hexEscape p.advance).map (·.2)
    else if ['"', '\\', '/', 'b', 'f', 'n', 'r', 't'].contains c then .ok p.advance
    else .error (p.nextByte.fail .invalidEscape)

/-- Passes the closing quote. The fuel is the number of characters left. -/
def skipStringBody : Nat → Cursor → Except Misread Cursor
  | 0, p => .error (p.fail .eofString)
  | fuel + 1, p =>
    match p.rest with
    | [] => .error (p.fail .eofString)
    | c :: _ =>
      if c == '"' then .ok p.advance
      else if c == '\\' then
        match skipEscape p.advance with
        | .error e => .error e
        | .ok p' => skipStringBody fuel p'
      else if c.toNat < 32 then .error (p.fail .controlCharacter)
      else skipStringBody fuel p.advance

def skipString (p : Cursor) : Except Misread Cursor := skipStringBody (p.rest.length + 1) p

/-! ## Numbers -/

def skipExponent (p : Cursor) : Except Misread Cursor :=
  let p := if p.rest.head?.any fun c => c == '+' || c == '-' then p.advance else p
  match p.rest with
  | c :: _ => if c.isDigit then .ok (takeDigits p).2 else .error (p.nextByte.fail .invalidNumber)
  | [] => .error (p.fail .invalidNumber)

def isExponentMark (c : Char) : Bool := c == 'e' || c == 'E'

def skipNumberTail (p : Cursor) : Except Misread Cursor :=
  match p.rest with
  | [] => .ok p
  | c :: _ =>
    if c == '.' then
      let (ds, p) := takeDigits p.advance
      if ds.isEmpty then .error (p.failNext .invalidNumber)
      else if p.rest.head?.any isExponentMark then skipExponent p.advance
      else .ok p
    else if isExponentMark c then skipExponent p.advance
    else .ok p

def skipNumber (p : Cursor) : Except Misread Cursor :=
  match p.rest with
  | [] => .error (p.fail .invalidNumber)
  | c :: r =>
    if c == '0' then
      if r.head?.any Char.isDigit then .error (p.advance.failNext .invalidNumber) else skipNumberTail p.advance
    else if c.isDigit then skipNumberTail (takeDigits p).2
    else .error (p.nextByte.fail .invalidNumber)

/-! ## Values -/

inductive Bracket where
  | list | object
deriving DecidableEq, Repr

def Bracket.closing : Bracket → Char
  | .list => ']'
  | .object => '\x7d'

def Bracket.eof : Bracket → SyntaxFault
  | .list => .eofList
  | .object => .eofObject

def Bracket.endExpected : Bracket → SyntaxFault
  | .list => .expectedListEnd
  | .object => .expectedObjectEnd

def Bracket.ofOpening? (c : Char) : Option Bracket :=
  if c == '[' then some .list else if c == '\x7b' then some .object else none

def skipScalar (p : Cursor) (c : Char) : Except Misread Cursor :=
  if c == 'n' then (word ['u', 'l', 'l'] .null p.advance).map (·.2)
  else if c == 't' then (word ['r', 'u', 'e'] .null p.advance).map (·.2)
  else if c == 'f' then (word ['a', 'l', 's', 'e'] .null p.advance).map (·.2)
  else if c == '-' then skipNumber p.advance
  else if c.isDigit then skipNumber p
  else if c == '"' then skipString p.advance
  else .error (p.failNext .expectedValue)

/-- Passes the brackets that close here. Gives those still open, with the comma before the next element read;
none are open at the end of the whole value. `after` says whether an element has just been read. -/
def closeAll (p : Cursor) (after : Bool) : List Bracket → Except Misread (Cursor × List Bracket)
  | [] => .ok (p, [])
  | b :: outer =>
    let p := p.skipSpace
    match p.rest with
    | [] => .error (p.failNext b.eof)
    | c :: _ =>
      if c == ',' && after then .ok (p.advance, b :: outer)
      else if c == b.closing then closeAll p.advance true outer
      else if after then .error (p.failNext b.endExpected)
      else .ok (p, b :: outer)

/-- Passes the key of an element and its colon, when it is one of an object. -/
def skipKey (p : Cursor) : List Bracket → Except Misread Cursor
  | .object :: _ => do
    let p := p.skipSpace
    match p.rest with
    | [] => .error (p.failNext .eofObject)
    | c :: _ =>
      if c == '"' then
        let p ← skipString p.advance
        (colon p).map (·.2)
      else .error (p.failNext .keyNotString)
  | _ => .ok p

/-- Passes values until every bracket is closed. The fuel is the number of characters left. -/
def skipOpen : Nat → Cursor → List Bracket → Except Misread Cursor
  | 0, p, _ => .error (p.fail .eofValue)
  | fuel + 1, p, opened => do
    let p := p.skipSpace
    match p.rest with
    | [] => .error (p.failNext .eofValue)
    | c :: _ =>
      let (p, opened) ←
        match Bracket.ofOpening? c with
        | some b => closeAll p.advance false (b :: opened)
        | none => do closeAll (← skipScalar p c) true opened
      match opened with
      | [] => return p
      | _ :: _ => skipOpen fuel (← skipKey p opened) opened

def skip (p : Cursor) : Except Misread Cursor := skipOpen (p.rest.length + 1) p []

end Workbench.Json
