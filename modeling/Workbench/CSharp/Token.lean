import Workbench.CSharp.Node
import Workbench.Text.Blank

/-!
# Tokens of C#

`scan` cuts a text into tokens and into what may stand anywhere: comments and
directive lines. The scanner keeps a stack of the interpolated strings that it
is in, since code may stand in the holes of such a string.
-/

namespace Workbench.CSharp

inductive TokenClass where
  | word | mark | integer | real | character | string | verbatim | raw
  | openQuote | content | brace | format | closeQuote
deriving DecidableEq, Repr

structure Token where
  sort : TokenClass
  start : Nat
  text : String
deriving Repr

def Token.stop (t : Token) : Nat := t.start + t.text.utf8ByteSize

structure Quoting where
  verbatim : Bool
  /-- Quotes on each side of a raw string; 0 when it is not raw. -/
  quotes : Nat
  /-- Braces that open a hole. -/
  braces : Nat

inductive Frame where
  | text (q : Quoting)
  /-- Inside a hole of a string, with the number of brackets open in it. -/
  | hole (q : Quoting) (depth : Nat)

structure Scanned where
  tokens : List Token := []
  extras : List Node := []

namespace Scan

def isWordStart (c : Char) : Bool := c.isAlpha || c == '_' || (c.toNat ≥ 128 && !Text.isBlank c && c.toNat != 0xfeff)

def isWordPart (c : Char) : Bool := isWordStart c || c.isDigit

def isSpace (c : Char) : Bool := Text.isBlank c || c.toNat == 0xfeff

/-- The longest beginning whose characters satisfy `p`, and the rest. -/
def spanOf (p : Char → Bool) (cs : List Char) : List Char × List Char := (cs.takeWhile p, cs.dropWhile p)

def countPrefix (c : Char) (cs : List Char) : Nat := (cs.takeWhile (· == c)).length

/-! ## Literals -/

/-- The number of characters of a quoted literal after its opening quote, the closing one included. -/
def quotedLength (quote : Char) : List Char → Nat
  | [] => 0
  | '\\' :: _ :: r => quotedLength quote r + 2
  | c :: r => if c == quote then 1 else quotedLength quote r + 1

/-- The same for a literal in which a doubled quote stands for one. -/
def verbatimLength : List Char → Nat
  | [] => 0
  | '"' :: '"' :: r => verbatimLength r + 2
  | c :: r => if c == '"' then 1 else verbatimLength r + 1

/-- Characters up to and with a closing run of at least `n` quotes. -/
def rawLength (n : Nat) : List Char → Nat
  | [] => 0
  | c :: r =>
    if c == '"' && countPrefix '"' (c :: r) ≥ n then countPrefix '"' (c :: r)
    else rawLength n r + 1

def isDigitPart (c : Char) : Bool := c.isDigit || c == '_'

def isHexPart (c : Char) : Bool :=
  isDigitPart c || ('a' ≤ c && c ≤ 'f') || ('A' ≤ c && c ≤ 'F')

def integerSuffix (c : Char) : Bool := c == 'u' || c == 'U' || c == 'l' || c == 'L'

def realSuffix (c : Char) : Bool :=
  c == 'f' || c == 'F' || c == 'd' || c == 'D' || c == 'm' || c == 'M'

def exponent : List Char → List Char
  | e :: r =>
    if e == 'e' || e == 'E' then
      match r with
      | s :: d :: _ =>
        if (s == '+' || s == '-') && d.isDigit then e :: s :: (r.drop 1).takeWhile isDigitPart
        else if s.isDigit then e :: r.takeWhile isDigitPart
        else []
      | [s] => if s.isDigit then [e, s] else []
      | [] => []
    else []
  | [] => []

def number (cs : List Char) : TokenClass × List Char :=
  match cs with
  | '0' :: x :: r =>
    if x == 'x' || x == 'X' then hexadecimal x r
    else if x == 'b' || x == 'B' then hexadecimal x r
    else decimal
  | _ => decimal
where
  hexadecimal (x : Char) (r : List Char) : TokenClass × List Char :=
    let (ds, rest) := spanOf isHexPart r
    (.integer, '0' :: x :: ds ++ rest.takeWhile integerSuffix)
  decimal : TokenClass × List Char :=
    let (ds, rest) := spanOf isDigitPart cs
    let fraction :=
      match rest with
      | '.' :: d :: r => if d.isDigit then '.' :: d :: r.takeWhile isDigitPart else []
      | _ => []
    let rest := rest.drop fraction.length
    let e := exponent rest
    let rest := rest.drop e.length
    match rest with
    | s :: _ =>
      if realSuffix s then (.real, ds ++ fraction ++ e ++ [s])
      else if fraction.isEmpty && e.isEmpty then (.integer, ds ++ rest.takeWhile integerSuffix)
      else (.real, ds ++ fraction ++ e)
    | [] => (if fraction.isEmpty && e.isEmpty then .integer else .real, ds ++ fraction ++ e)

/-- Marks of more than one character, longer ones first. A `>` never joins another. -/
def longMarks : List String :=
  ["<<=", "??=", "...", "=>", "==", "!=", "<=", ">=", "&&", "||", "??", "++", "--", "+=", "-=", "*=",
    "/=", "%=", "&=", "|=", "^=", "<<", "::", "->", ".."]

def mark (cs : List Char) : List Char :=
  match longMarks.find? fun m => m.toList.isPrefixOf cs with
  | some m => m.toList
  | none => cs.take 1

/-- The opening of an interpolated string: dollars and at-signs, then quotes. -/
def opening? (cs : List Char) : Option (Quoting × List Char) :=
  let (signs, rest) := spanOf (fun c => c == '$' || c == '@') cs
  let dollars := signs.count '$'
  let quotes := countPrefix '"' rest
  if dollars = 0 ∨ quotes = 0 then none
  else if signs.contains '@' then some (⟨true, 0, 1⟩, signs ++ ['"'])
  else if quotes ≥ 3 then some (⟨false, quotes, dollars⟩, signs ++ List.replicate quotes '"')
  else some (⟨false, 0, 1⟩, signs ++ ['"'])

/-- Text of an interpolated string up to its next hole or its end. -/
def contentLength (q : Quoting) : List Char → Nat
  | [] => 0
  | [c] => if c == '"' || c == '\x7b' then 0 else 1
  | c :: d :: r =>
    if q.quotes > 0 then
      if c == '"' && countPrefix '"' (c :: d :: r) ≥ q.quotes then 0
      else if c == '\x7b' && countPrefix '\x7b' (c :: d :: r) ≥ q.braces then
        countPrefix '\x7b' (c :: d :: r) - q.braces
      else contentLength q (d :: r) + 1
    else if c == '\x7b' then if d == '\x7b' then contentLength q r + 2 else 0
    else if c == '"' then if q.verbatim && d == '"' then contentLength q r + 2 else 0
    else if c == '\\' && !q.verbatim then contentLength q r + 2
    else contentLength q (d :: r) + 1

/-! ## Words that are no identifiers -/

def reserved : List String :=
  ["abstract", "as", "base", "bool", "break", "byte", "case", "catch", "char", "checked", "class",
    "const", "continue", "decimal", "default", "delegate", "do", "double", "else", "enum", "event",
    "explicit", "extern", "false", "finally", "fixed", "float", "for", "foreach", "goto", "if",
    "implicit", "in", "int", "interface", "internal", "is", "lock", "long", "namespace", "new", "null",
    "object", "operator", "out", "override", "params", "private", "protected", "public", "readonly",
    "ref", "return", "sbyte", "sealed", "short", "sizeof", "stackalloc", "static", "string", "struct",
    "switch", "this", "throw", "true", "try", "typeof", "uint", "ulong", "unchecked", "unsafe", "ushort",
    "using", "virtual", "void", "volatile", "while"]

def predefined : List String :=
  ["bool", "byte", "char", "decimal", "double", "float", "int", "long", "object", "sbyte", "short",
    "string", "uint", "ulong", "ushort", "nint", "nuint", "void"]

/-! ## The scanner -/

def lineLength (cs : List Char) : Nat := (cs.takeWhile fun c => c != '\n' && c != '\r').length

def blockLength : List Char → Nat
  | [] => 0
  | '*' :: '/' :: _ => 2
  | _ :: r => blockLength r + 1

def directiveLength (cs : List Char) : Nat :=
  let n := (cs.takeWhile (· != '\n')).length
  if n < cs.length then n + 1 else n

inductive Piece where
  | skip (n : Nat)
  | token (sort : TokenClass) (n : Nat)
  | extra (kind : Kind) (n : Nat)

def codePiece (cs : List Char) : Piece :=
  match cs with
  | [] => .skip 0
  | c :: r =>
    if isSpace c then .skip (spanOf isSpace cs).1.length
    else if "//".toList.isPrefixOf cs then .extra .comment (lineLength cs)
    else if "/*".toList.isPrefixOf cs then .extra .comment (2 + blockLength (cs.drop 2))
    else if c == '#' then .extra .directive (directiveLength cs)
    else if isWordStart c then .token .word (spanOf isWordPart cs).1.length
    else if c.isDigit || (c == '.' && r.head?.any Char.isDigit) then
      let (sort, text) := number cs
      .token sort text.length
    else if c == '\'' then .token .character (1 + quotedLength '\'' r)
    else if c == '"' then
      let n := countPrefix '"' cs
      if n ≥ 3 then .token .raw (n + rawLength n (cs.drop n))
      else .token .string (1 + quotedLength '"' r)
    else if c == '@' then
      match r with
      | '"' :: r' => .token .verbatim (2 + verbatimLength r')
      | _ => .token .word (1 + (spanOf isWordPart r).1.length)
    else .token .mark (mark cs).length

def utf8Suffix (cs : List Char) : List Char :=
  if "u8".toList.isPrefixOf cs || "U8".toList.isPrefixOf cs then cs.take 2 else []

structure State where
  pos : Nat
  rest : List Char
  stack : List Frame
  /-- Tokens and extras found so far, the last first. -/
  tokens : List Token
  extras : List Node

def State.skip (s : State) (n : Nat) : State :=
  { s with pos := s.pos + Text.size (s.rest.take n), rest := s.rest.drop n }

def State.emit (s : State) (sort : TokenClass) (n : Nat) : State :=
  { s.skip n with tokens := ⟨sort, s.pos, .ofList (s.rest.take n)⟩ :: s.tokens }

def State.extra (s : State) (kind : Kind) (n : Nat) : State :=
  let s' := s.skip n
  { s' with extras := .mk kind .plain s.pos s'.pos (.ofList (s.rest.take n)) [] :: s.extras }

def State.push (s : State) (f : Frame) : State := { s with stack := f :: s.stack }

def State.pop (s : State) : State := { s with stack := s.stack.tail }

/-- One step inside the text of an interpolated string. -/
def textStep (q : Quoting) (s : State) : State :=
  let n := contentLength q s.rest
  let s := if n > 0 then s.emit .content n else s
  match s.rest with
  | [] => s.pop
  | c :: _ =>
    if c == '"' then (s.emit .closeQuote (if q.quotes > 0 then countPrefix '"' s.rest else 1)).pop
    else ({ s.emit .brace q.braces with stack := .hole q 0 :: s.stack.tail })

def codeStep (s : State) : State :=
  match opening? s.rest with
  | some (q, text) => (s.emit .openQuote text.length).push (.text q)
  | none =>
    match codePiece s.rest with
    | .skip n => s.skip (max n 1)
    | .token sort n =>
      let suffix := if sort == .string || sort == .verbatim || sort == .raw then utf8Suffix (s.rest.drop n) else []
      s.emit sort (max (n + suffix.length) 1)
    | .extra kind n => s.extra kind (max n 1)

/-- One step inside a hole: its brackets are counted so that its end is known. -/
def holeStep (q : Quoting) (depth : Nat) (s : State) : State :=
  match s.rest with
  | [] => s.pop
  | c :: r =>
    let deeper (d : Nat) (s : State) : State := { s with stack := .hole q d :: s.stack.tail }
    if c == '(' || c == '[' || c == '\x7b' then deeper (depth + 1) (s.emit .mark 1)
    else if c == ')' || c == ']' then deeper (depth - 1) (s.emit .mark 1)
    else if c == '\x7d' then
      if depth = 0 then { s.emit .brace q.braces with stack := .text q :: s.stack.tail }
      else deeper (depth - 1) (s.emit .mark 1)
    else if c == ':' && depth = 0 && r.head? != some ':' then
      s.emit .format ((s.rest.takeWhile fun c => c != '\x7d' && c != '"').length)
    else codeStep s

def step (s : State) : State :=
  match s.stack with
  | [] => codeStep s
  | .text q :: _ => textStep q s
  | .hole q depth :: _ => holeStep q depth s

/-- Each step takes a character or leaves a frame. -/
def run : Nat → State → State
  | 0, s => s
  | fuel + 1, s => if s.rest.isEmpty then s else run fuel (step s)

end Scan

def scan (source : List Char) : Scanned :=
  let s := Scan.run (2 * source.length + 2) ⟨0, source, [], [], []⟩
  ⟨s.tokens.reverse, s.extras.reverse⟩

end Workbench.CSharp
