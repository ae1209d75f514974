import Workbench.CSharp.Rule

/-!
# Names and types

A name is a dotted list of simple names, each with optional type arguments,
and nests to the left. In expressions a `<` opens type arguments only when
what follows the closing `>` cannot go on as a comparison.
-/

namespace Workbench.CSharp.Grammar

open Rule

/-! ## Type arguments -/

def typeArguments (g : Rules) : Rule :=
  node .typeArgumentList (mark "<" ++ ((commaSep1 g.type ++ mark ">") <|> (many (mark ",") ++ mark ">")))

/-- What may follow type arguments that stand in an expression. -/
def afterArguments : List Token → Bool
  | [] => true
  | t :: _ =>
    match t.sort with
    | .mark => ["(", ")", "]", "\x7d", ":", ";", ",", ".", "?", "==", "!=", "|", "^", "&&", "||", "&", "[",
        "=>", "\x7b", ">"].contains t.text
    | .brace | .format => true
    | _ => false

def simpleName (g : Rules) : Rule :=
  node .genericName (identifier ++ typeArguments g) <|> identifier

def simpleNameInExpression (g : Rules) : Rule :=
  node .genericName (identifier ++ typeArguments g ++ when_ afterArguments nothing) <|> identifier

/-! ## Dotted names -/

def aliased (g : Rules) : Rule :=
  node .aliasQualifiedName (role .alias identifier ++ mark "::" ++ role .name (simpleName g)) <|> simpleName g

def dotted (g : Rules) (n : Node) : Rule :=
  node .qualifiedName (given .qualifier n ++ mark "." ++ role .name (simpleName g))

def name (g : Rules) : Rule := grow (aliased g) (dotted g)

/-! ## Types -/

/-- Contextual words that do not name a type where a type is looked for. -/
def notTypeNames : List String := ["await", "yield"]

def predefinedType : Rule := leaf .predefinedType (isOneOfWords Scan.predefined)

def tupleTypeElement (g : Rules) : Rule := node .tupleElement (role .type g.type ++ opt (role .name identifier))

/-- A tuple has at least two elements; with one, the brackets only group. -/
def tupleType (g : Rules) : Rule :=
  node .tupleType (mark "(" ++ tupleTypeElement g ++ mark "," ++ commaSep1 (tupleTypeElement g) ++ mark ")")

def functionPointerType (g : Rules) : Rule :=
  node .functionPointerType (word "delegate" ++ mark "*" ++ opt (words ["managed", "unmanaged"]) ++
    mark "<" ++ commaSep1 (opt (words ["ref", "out", "in"]) ++ g.type) ++ mark ">")

def isVar : List Token → Bool
  | t :: u :: _ => isWord "var" t && (isIdentifier u || isMark "(" u)
  | _ => false

def baseType (g : Rules) : Rule :=
  when_ isVar (leaf .implicitType (isWord "var")) <|>
  predefinedType <|>
  node .refType (word "ref" ++ opt (word "readonly") ++ role .type g.type) <|>
  tupleType g <|>
  functionPointerType g <|>
  (not_ (words notTypeNames) ++ name g)

def rank : Rule := node .arrayRankSpecifier (mark "[" ++ many (mark ",") ++ mark "]")

def arraySuffix (n : Node) : Rule := node .arrayType (given .type n ++ role .rank rank)

def nullableSuffix (n : Node) : Rule := node .nullableType (given .type n ++ mark "?")

def pointerSuffix (n : Node) : Rule := node .pointerType (given .type n ++ mark "*")

def type (g : Rules) : Rule :=
  grow (baseType g) fun n => arraySuffix n <|> nullableSuffix n <|> pointerSuffix n

/-- Whether a `?` here belongs to a type and does not begin a condition. -/
def closesType : List Token → Bool
  | t :: u :: r =>
    isMark "?" t &&
      match u.sort with
      | .mark => [")", ";", ",", "]", "\x7d", ">", "&&", "||", "==", "!=", "=>", "=", "?", "??", ":"].contains u.text ||
          (isMark "[" u && r.head?.any fun v => isMark "]" v || isMark "," v)
      | .brace | .format => true
      | _ => false
  | _ => false

def typeInExpression (g : Rules) : Rule :=
  grow (baseType g) fun n => arraySuffix n <|> when_ closesType (nullableSuffix n)

/-- A type that ends in a suffix, which sets it apart from a name. -/
def suffixedTypeInExpression (g : Rules) : Rule :=
  let suffix (n : Node) : Rule := arraySuffix n <|> when_ closesType (nullableSuffix n)
  ⟨fun ts =>
    match (grow (baseType g) suffix).run ts with
    | some ([n], r) => if n.kind == .arrayType || n.kind == .nullableType then some ([n], r) else none
    | _ => none⟩

/-! ## Casts -/

def continuing : List String :=
  ["is", "as", "switch", "with", "and", "or", "when", "where", "select", "orderby", "join", "let", "group", "into",
    "on", "equals", "by", "ascending", "descending", "in"]

/-- Whether the tokens behind `(T)` make it a cast. -/
def castsNext (sure : Bool) : List Token → Bool
  | [] => false
  | t :: _ =>
    match t.sort with
    | .mark => ["(", "~", "!"].contains t.text || (sure && ["-", "+", "&", "*", "++", "--"].contains t.text)
    | .word => !continuing.contains t.text
    | .content | .brace | .format | .closeQuote => false
    | _ => true

/-- Types that are no expressions. -/
def isSurelyType (n : Node) : Bool :=
  [.predefinedType, .nullableType, .arrayType, .pointerType].contains n.kind

def castHead (g : Rules) : Rule := ⟨fun ts =>
  match (mark "(" ++ role .type g.type ++ mark ")").run ts with
  | some (ns, r) => if castsNext (ns.any isSurelyType) r then some (ns, r) else none
  | none => none⟩

def cast (g : Rules) : Rule := node .castExpression (castHead g ++ role .value g.unary)

end Workbench.CSharp.Grammar
