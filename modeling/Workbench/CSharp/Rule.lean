import Workbench.CSharp.Token

/-!
# Grammar rules

A rule reads some tokens and gives the nodes it made of them, or refuses.
Choice is ordered: the second rule is tried only where the first refuses.
Rules are joined with `++` and `<|>`.
-/

namespace Workbench.CSharp

structure Rule where
  run : List Token → Option (List Node × List Token)

namespace Rule

def nothing : Rule := ⟨fun ts => some ([], ts)⟩

def refuse : Rule := ⟨fun _ => none⟩

def seq (a b : Rule) : Rule := ⟨fun ts =>
  match a.run ts with
  | none => none
  | some (x, r) =>
    match b.run r with
    | none => none
    | some (y, r') => some (x ++ y, r')⟩

def orElse (a : Rule) (b : Unit → Rule) : Rule := ⟨fun ts =>
  match a.run ts with
  | some x => some x
  | none => (b ()).run ts⟩

instance : Append Rule := ⟨seq⟩
instance : OrElse Rule := ⟨orElse⟩

def oneOf (rules : List Rule) : Rule := ⟨fun ts => rules.findSome? fun r => r.run ts⟩

/-- A rule that is built only when it is used. -/
def delay (a : Unit → Rule) : Rule := ⟨fun ts => (a ()).run ts⟩

def opt (a : Rule) : Rule := a <|> nothing

def node (k : Kind) (a : Rule) : Rule := ⟨fun ts =>
  match a.run ts with
  | some (n :: ns, r) => some ([.mk k .plain n.start ((n :: ns).getLastD n).stop "" (n :: ns)], r)
  | _ => none⟩

def role (r : Role) (a : Rule) : Rule := ⟨fun ts =>
  (a.run ts).map fun p => (p.1.map (Node.withRole r), p.2)⟩

def leaf (k : Kind) (p : Token → Bool) : Rule := ⟨fun ts =>
  match ts with
  | t :: r => if p t then some ([.mk k .plain t.start t.stop t.text []], r) else none
  | [] => none⟩

def isMark (s : String) (t : Token) : Bool := t.sort == .mark && t.text == s
def isWord (s : String) (t : Token) : Bool := t.sort == .word && t.text == s
def isOneOfWords (ss : List String) (t : Token) : Bool := t.sort == .word && ss.contains t.text

def mark (s : String) : Rule := leaf .token (isMark s)
def marks (ss : List String) : Rule := leaf .token fun t => t.sort == .mark && ss.contains t.text
def word (s : String) : Rule := leaf .token (isWord s)
def words (ss : List String) : Rule := leaf .token (isOneOfWords ss)

def isIdentifier (t : Token) : Bool := t.sort == .word && !Scan.reserved.contains t.text

def identifier : Rule := leaf .identifier isIdentifier

/-- Reads with `a` only where the tokens ahead satisfy `p`. -/
def when_ (p : List Token → Bool) (a : Rule) : Rule := ⟨fun ts => if p ts then a.run ts else none⟩

/-- Requires that `a` would read here, and reads nothing. -/
def peek (a : Rule) : Rule := ⟨fun ts => (a.run ts).map fun _ => ([], ts)⟩

def not_ (a : Rule) : Rule := ⟨fun ts =>
  match a.run ts with
  | some _ => none
  | none => some ([], ts)⟩

/-- The rule as often as it reads something, at most `fuel` times. -/
def manyUpTo (a : Rule) : Nat → List Token → List Node × List Token
  | 0, ts => ([], ts)
  | fuel + 1, ts =>
    match a.run ts with
    | none => ([], ts)
    | some (x, r) =>
      if r.length < ts.length then
        let (y, r') := manyUpTo a fuel r
        (x ++ y, r')
      else ([], ts)

def many (a : Rule) : Rule := ⟨fun ts => some (manyUpTo a ts.length ts)⟩

def many1 (a : Rule) : Rule := a ++ many a

def sepBy1 (sep a : Rule) : Rule := a ++ many (sep ++ a)

def commaSep1 (a : Rule) : Rule := sepBy1 (mark ",") a

def commaSep (a : Rule) : Rule := opt (commaSep1 a)

/-- A list with an optional comma behind its last element. -/
def commaList (a : Rule) : Rule := opt (commaSep1 a ++ opt (mark ","))

/-- Grows the node read by `first` to the left: each of `tails` that reads takes what has been read as
its first child. -/
def growUpTo (tail : Node → Rule) : Nat → Node → List Token → Node × List Token
  | 0, n, ts => (n, ts)
  | fuel + 1, n, ts =>
    match (tail n).run ts with
    | some ([m], r) => if r.length < ts.length then growUpTo tail fuel m r else (n, ts)
    | _ => (n, ts)

def grow (first : Rule) (tail : Node → Rule) : Rule := ⟨fun ts =>
  match first.run ts with
  | some ([n], r) =>
    let (m, r') := growUpTo tail r.length n r
    some ([m], r')
  | other => other⟩

def given (r : Role) (n : Node) : Rule := ⟨fun ts => some ([n.withRole r], ts)⟩

end Rule

/-- The rules that the grammar refers to from within itself. -/
structure Rules where
  expression : Rule
  /-- An expression that is no lambda, query or assignment. -/
  guard : Rule
  unary : Rule
  initializer : Rule
  type : Rule
  pattern : Rule
  negation : Rule
  designation : Rule
  statement : Rule
  block : Rule
  member : Rule

end Workbench.CSharp
