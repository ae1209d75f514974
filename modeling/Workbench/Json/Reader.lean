import Workbench.Json.Basic
import Workbench.Text.Utf8

/-!
# Reading JSON

A cursor remembers the line and the bytes read in it, so that each fault can
be placed. Faults come in two positions: where reading stands, and one byte
further when the next byte itself is at fault. Nesting is limited to 127
containers, and this limit is what the recursion runs on.
-/

namespace Workbench.Json

inductive SyntaxFault where
  | eofList | eofObject | eofString | eofValue
  | expectedColon | expectedListEnd | expectedObjectEnd | expectedIdent | expectedValue
  | invalidEscape | invalidNumber | numberOutOfRange | controlCharacter | keyNotString
  | loneSurrogate | trailingComma | trailingCharacters | endOfHexEscape | tooDeep
deriving DecidableEq, Repr

def SyntaxFault.message : SyntaxFault → String
  | .eofList => "EOF while parsing a list"
  | .eofObject => "EOF while parsing an object"
  | .eofString => "EOF while parsing a string"
  | .eofValue => "EOF while parsing a value"
  | .expectedColon => "expected `:`"
  | .expectedListEnd => "expected `,` or `]`"
  | .expectedObjectEnd => "expected `,` or `\x7d`"
  | .expectedIdent => "expected ident"
  | .expectedValue => "expected value"
  | .invalidEscape => "invalid escape"
  | .invalidNumber => "invalid number"
  | .numberOutOfRange => "number out of range"
  | .controlCharacter => "control character (\\u0000-\\u001F) found while parsing a string"
  | .keyNotString => "key must be a string"
  | .loneSurrogate => "lone leading surrogate in hex escape"
  | .trailingComma => "trailing comma"
  | .trailingCharacters => "trailing characters"
  | .endOfHexEscape => "unexpected end of hex escape"
  | .tooDeep => "recursion limit exceeded"

/-- The text still to be read, and the place reached: a line from 1 and the bytes read in it. -/
structure Cursor where
  rest : List Char
  line : Nat := 1
  column : Nat := 0

structure Misread where
  message : String
  line : Nat
  column : Nat

def Misread.render (m : Misread) : String :=
  m.message ++ " at line " ++ toString m.line ++ " column " ++ toString m.column

abbrev Reader (α : Type) := Cursor → Except Misread (α × Cursor)

namespace Cursor

/-- The cursor after character `c`, with `r` left. -/
def pass (p : Cursor) (c : Char) (r : List Char) : Cursor :=
  if c == '\n' then ⟨r, p.line + 1, 0⟩ else ⟨r, p.line, p.column + c.utf8Size⟩

def advance (p : Cursor) : Cursor :=
  match p.rest with
  | [] => p
  | c :: r => p.pass c r

def nextByte (p : Cursor) : Cursor :=
  match p.rest with
  | [] => p
  | c :: r => if c == '\n' then ⟨r, p.line + 1, 0⟩ else ⟨r, p.line, p.column + 1⟩

def failText (p : Cursor) (message : String) : Misread := ⟨message, p.line, p.column⟩

def fail (p : Cursor) (f : SyntaxFault) : Misread := p.failText f.message

def failNext (p : Cursor) (f : SyntaxFault) : Misread := p.nextByte.fail f

def skipBytes (p : Cursor) : Nat → List Char → Cursor
  | 0, cs => { p with rest := cs }
  | _ + 1, [] => { p with rest := [] }
  | n + 1, c :: r =>
    if c.utf8Size ≤ n + 1 then (p.pass c r).skipBytes (n + 1 - c.utf8Size) r
    else ⟨r, p.line, p.column + n + 1⟩

def isSpace (c : Char) : Bool := c == ' ' || c == '\n' || c == '\t' || c == '\r'

def skipSpaceFrom (p : Cursor) : List Char → Cursor
  | [] => { p with rest := [] }
  | c :: r => if isSpace c then (p.pass c r).skipSpaceFrom r else { p with rest := c :: r }

def skipSpace (p : Cursor) : Cursor := p.skipSpaceFrom p.rest

end Cursor

/-! ## Strings -/

def hexValue? (c : Char) : Option Nat :=
  if '0' ≤ c ∧ c ≤ '9' then some (c.toNat - '0'.toNat)
  else if 'a' ≤ c ∧ c ≤ 'f' then some (c.toNat - 'a'.toNat + 10)
  else if 'A' ≤ c ∧ c ≤ 'F' then some (c.toNat - 'A'.toNat + 10)
  else none

/-- Four hexadecimal digits, or four bytes that are none. -/
def hexEscape (p : Cursor) : Except Misread (Nat × Cursor) :=
  if Text.size p.rest < 4 then .error ((p.skipBytes 4 p.rest).fail .eofString)
  else
    let after := p.skipBytes 4 p.rest
    match (p.rest.take 4).mapM hexValue? with
    | some [a, b, c, d] => .ok (((a * 16 + b) * 16 + c) * 16 + d, after)
    | _ => .error (after.fail .invalidEscape)

def expectChar (c : Char) (p : Cursor) : Except Misread Cursor :=
  match p.rest with
  | [] => .error (p.fail .eofString)
  | d :: _ => if d == c then .ok p.advance else .error (p.nextByte.fail .endOfHexEscape)

def unicodeEscape (p : Cursor) : Except Misread (Char × Cursor) := do
  let (n, p) ← hexEscape p
  if 0xdc00 ≤ n ∧ n ≤ 0xdfff then .error (p.fail .loneSurrogate)
  else if 0xd800 ≤ n ∧ n ≤ 0xdbff then
    let p ← expectChar '\\' p
    let p ← expectChar 'u' p
    let (m, p) ← hexEscape p
    if 0xdc00 ≤ m ∧ m ≤ 0xdfff then
      .ok (Char.ofNat ((n - 0xd800) * 1024 + (m - 0xdc00) + 0x10000), p)
    else .error (p.fail .loneSurrogate)
  else .ok (Char.ofNat n, p)

def escaped (p : Cursor) : Except Misread (Char × Cursor) :=
  match p.rest with
  | [] => .error (p.fail .eofString)
  | c :: _ =>
    if c == 'u' then unicodeEscape p.advance
    else
      match [('"', '"'), ('\\', '\\'), ('/', '/'), ('b', Char.ofNat 8), ('f', Char.ofNat 12),
        ('n', '\n'), ('r', '\r'), ('t', '\t')].lookup c with
      | some d => .ok (d, p.advance)
      | none => .error (p.nextByte.fail .invalidEscape)

/-- The characters up to the closing quote. The fuel is the number of characters left. -/
def stringBody : Nat → List Char → Reader String
  | 0, _, p => .error (p.fail .eofString)
  | fuel + 1, acc, p =>
    match p.rest with
    | [] => .error (p.fail .eofString)
    | c :: r =>
      if c == '"' then .ok (.ofList acc.reverse, p.pass c r)
      else if c == '\\' then
        match escaped (p.pass c r) with
        | .error e => .error e
        | .ok (d, p') => stringBody fuel (d :: acc) p'
      else if c.toNat < 32 then .error (p.nextByte.fail .controlCharacter)
      else stringBody fuel (c :: acc) (p.pass c r)

def string : Reader String := fun p => stringBody (p.rest.length + 1) [] p

/-! ## Numbers -/

def takeDigits (p : Cursor) : List Char × Cursor :=
  let ds := p.rest.takeWhile Char.isDigit
  (ds, ⟨p.rest.drop ds.length, p.line, p.column + ds.length⟩)

def digitsValue (ds : List Char) : Nat := ds.foldl (fun n c => n * 10 + (c.toNat - '0'.toNat)) 0

/-- Takes digits while the number stays below `2 ^ 64`; the digits that follow are returned. -/
def significand : Nat → List Char → Nat × List Char
  | n, [] => (n, [])
  | n, c :: r =>
    let m := n * 10 + (c.toNat - '0'.toNat)
    if m < 0x10000000000000000 then significand m r else (n, c :: r)

def realNumber (p : Cursor) (negative : Bool) (digits : Nat) (power : Int) : Except Misread (Number × Cursor) :=
  match Decimal.ofParts digits power with
  | none => .error (p.fail .numberOutOfRange)
  | some d =>
    let s := Decimal.shortest d
    .ok (.real negative s.1 s.2, p)

/-- The largest exponent that is read. -/
def exponentLimit : Nat := 0x7fffffff

/-- How many digits it takes to pass the limit of exponents, if they do. -/
def digitsBeyond? (ds : List Char) : Option Nat :=
  (List.range (ds.length + 1)).find? fun n => exponentLimit < digitsValue (ds.take n)

/-- An exponent mark has been read; its sign and digits follow. An exponent beyond the limit makes a number too
large, unless the number is zero or the exponent negative. -/
def exponentPart (p : Cursor) (isZero : Bool) : Except Misread (Int × Cursor) :=
  let (minus, p) :=
    match p.rest with
    | '-' :: _ => (true, p.advance)
    | '+' :: _ => (false, p.advance)
    | _ => (false, p)
  match p.rest with
  | [] => .error (p.fail .eofValue)
  | c :: _ =>
    if !c.isDigit then .error (p.nextByte.fail .invalidNumber)
    else
      let (ds, after) := takeDigits p
      match if minus || isZero then none else digitsBeyond? ds with
      | some n => .error ((p.skipBytes n p.rest).fail .numberOutOfRange)
      | none =>
        let e : Int := min (digitsValue ds) (exponentLimit + 1)
        .ok (if minus then -e else e, after)

/-- What may follow the whole part: a fraction and an exponent. -/
def numberTail (p : Cursor) (negative : Bool) (whole : List Char) : Except Misread (Number × Cursor) := do
  let (n, extra) := significand 0 whole
  let power : Int := extra.length
  match p.rest with
  | '.' :: _ =>
    let p := p.advance
    let (ds, p) := takeDigits p
    if ds.isEmpty then
      .error (if p.rest.isEmpty then p.failNext .eofValue else p.failNext .invalidNumber)
    else
      let (m, left) := if extra.isEmpty then significand n ds else (n, ds)
      let power := power - (ds.length - left.length : Nat)
      match p.rest with
      | c :: _ =>
        if c == 'e' || c == 'E' then
          let (e, p) ← exponentPart p.advance (m = 0)
          realNumber p negative m (power + e)
        else realNumber p negative m power
      | [] => realNumber p negative m power
  | c :: _ =>
    if c == 'e' || c == 'E' then
      let (e, p) ← exponentPart p.advance (n = 0)
      realNumber p negative n (power + e)
    else plain n extra power
  | [] => plain n extra power
where
  plain (n : Nat) (extra : List Char) (power : Int) : Except Misread (Number × Cursor) :=
    if !extra.isEmpty then realNumber p negative n power
    else if !negative then .ok (.nat n, p)
    else if n = 0 then .ok (.real true 0 0, p)
    else if n ≤ 0x8000000000000000 then .ok (.negSucc (n - 1), p)
    else realNumber p negative n 0

def number (negative : Bool) : Reader Number := fun p =>
  match p.rest with
  | [] => .error (p.fail .eofValue)
  | c :: r =>
    if c == '0' then
      let p := p.advance
      if r.head?.any Char.isDigit then .error (p.failNext .invalidNumber)
      else numberTail p negative ['0']
    else if c.isDigit then
      let (ds, p) := takeDigits p
      numberTail p negative ds
    else .error (p.nextByte.fail .invalidNumber)

/-! ## Values -/

def word : List Char → Json → Reader Json
  | [], j, p => .ok (j, p)
  | c :: r, j, p =>
    match p.rest with
    | [] => .error (p.fail .eofValue)
    | d :: _ => if d == c then word r j p.advance else .error (p.nextByte.fail .expectedIdent)

/-- Whether another element follows in a list; the comma before it is read. -/
def moreItems (first : Bool) : Reader Bool := fun p =>
  let p := p.skipSpace
  match p.rest with
  | [] => .error (p.failNext .eofList)
  | c :: _ =>
    if c == ']' then .ok (false, p)
    else if first then .ok (true, p)
    else if c == ',' then
      let p := p.advance.skipSpace
      match p.rest with
      | [] => .error (p.failNext .eofValue)
      | d :: _ => if d == ']' then .error (p.failNext .trailingComma) else .ok (true, p)
    else .error (p.failNext .expectedListEnd)

/-- Whether another key follows in an object; the comma before it is read. -/
def moreKeys (first : Bool) : Reader Bool := fun p =>
  let p := p.skipSpace
  match p.rest with
  | [] => .error (p.failNext .eofObject)
  | c :: _ =>
    if c == '\x7d' then .ok (false, p)
    else if first then
      if c == '"' then .ok (true, p) else .error (p.failNext .keyNotString)
    else if c == ',' then
      let p := p.advance.skipSpace
      match p.rest with
      | [] => .error (p.failNext .eofValue)
      | d :: _ =>
        if d == '"' then .ok (true, p)
        else if d == '\x7d' then .error (p.failNext .trailingComma)
        else .error (p.failNext .keyNotString)
    else .error (p.failNext .expectedObjectEnd)

def colon : Reader Unit := fun p =>
  let p := p.skipSpace
  match p.rest with
  | [] => .error (p.failNext .eofObject)
  | c :: _ => if c == ':' then .ok ((), p.advance) else .error (p.failNext .expectedColon)

def items (item : Reader Json) : Nat → Bool → List Json → Reader (List Json)
  | 0, _, _, p => .error (p.fail .eofList)
  | fuel + 1, first, acc, p =>
    match moreItems first p with
    | .error e => .error e
    | .ok (false, p) => .ok (acc.reverse, p.advance)
    | .ok (true, p) =>
      match item p with
      | .error e => .error e
      | .ok (x, p) => items item fuel false (x :: acc) p

def members (item : Reader Json) : Nat → Bool → List (String × Json) → Reader (List (String × Json))
  | 0, _, _, p => .error (p.fail .eofObject)
  | fuel + 1, first, acc, p =>
    match moreKeys first p with
    | .error e => .error e
    | .ok (false, p) => .ok (acc, p.advance)
    | .ok (true, p) => do
      let (key, p) ← string p.advance
      let (_, p) ← colon p
      let (x, p) ← item p
      members item fuel false (putField key x acc) p

def value : Nat → Reader Json
  | depth, p => do
    let p := p.skipSpace
    match p.rest with
    | [] => .error (p.failNext .eofValue)
    | c :: _ =>
      if c == 'n' then word ['u', 'l', 'l'] .null p.advance
      else if c == 't' then word ['r', 'u', 'e'] (.bool true) p.advance
      else if c == 'f' then word ['a', 'l', 's', 'e'] (.bool false) p.advance
      else if c == '-' then (number true p.advance).map fun r => (.num r.1, r.2)
      else if c.isDigit then (number false p).map fun r => (.num r.1, r.2)
      else if c == '"' then (string p.advance).map fun r => (.str r.1, r.2)
      else if c == '[' then
        match depth with
        | 0 => .error (p.failNext .tooDeep)
        | d + 1 => (items (value d) (p.rest.length + 1) true [] p.advance).map fun r => (.arr r.1, r.2)
      else if c == '\x7b' then
        match depth with
        | 0 => .error (p.failNext .tooDeep)
        | d + 1 => (members (value d) (p.rest.length + 1) true [] p.advance).map fun r => (.obj r.1, r.2)
      else .error (p.failNext .expectedValue)

def nestingLimit : Nat := 127

def finish {α} (r : Reader α) (text : String) : Except Misread α :=
  match r { rest := text.toList } with
  | .error e => .error e
  | .ok (a, p) =>
    let p := p.skipSpace
    if p.rest.isEmpty then .ok a else .error (p.failNext .trailingCharacters)

def parse (text : String) : Except Misread Json := finish (value nestingLimit) text

end Workbench.Json
