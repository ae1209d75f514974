import Workbench.CSharp.Grammar.Declaration

/-!
# Reading a C# text

`parse` reads the tokens of a text by the grammar and then puts comments and
directive lines back: each becomes a child of the smallest node that reaches
around it, between the children on its two sides.
-/

namespace Workbench.CSharp

def between (extras : List Node) (a b : Nat) : List Node := extras.filter fun x => a ≤ x.start && x.stop ≤ b

namespace Node

mutual

/-- Puts the extras inside the range of a node into it. -/
def weave (extras : List Node) : Node → Node
  | mk k r a b t cs => if extras.isEmpty then mk k r a b t cs else mk k r a b t (weaveAll extras a cs)

/-- Children from byte `pos` on, with the extras before each of them. -/
def weaveAll (extras : List Node) (pos : Nat) : List Node → List Node
  | [] => []
  | n :: rest =>
    between extras pos n.start ++ weave (between extras n.start n.stop) n :: weaveAll extras n.stop rest

end

end Node

/-- The node for a whole text: all that stands in it, and the extras at its two ends. -/
def unit (children extras : List Node) (size : Nat) : Node :=
  let inner := Node.weaveAll extras 0 children
  let last := (children.getLast?.map Node.stop).getD 0
  let all := inner ++ between extras last size
  .mk .compilationUnit .plain ((all.head?.map Node.start).getD size) ((all.getLast?.map Node.stop).getD size) "" all

/-- Tokens as leaves, for a text that the grammar does not read. -/
def leaves (ts : List Token) : List Node := ts.map fun t =>
  .mk (if Rule.isIdentifier t then .identifier else .token) .plain t.start t.stop t.text []

def items? (ts : List Token) : Option (List Node) :=
  match (Rule.many (Grammar.topLevel (Grammar.rules (ts.length + 8)))).run ts with
  | some (ns, []) => some ns
  | _ => none

def parseChars (source : List Char) : Node :=
  let s := scan source
  unit ((items? s.tokens).getD (leaves s.tokens)) s.extras (Text.size source)

def parse (source : String) : Node := parseChars source.toList

end Workbench.CSharp
