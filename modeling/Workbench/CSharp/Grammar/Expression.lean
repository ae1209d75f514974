import Workbench.CSharp.Grammar.Parameter
import Workbench.CSharp.Grammar.Pattern

/-!
# Expressions

From the inside out: primary expressions with what may follow them, prefix
operators and casts, binary operators by precedence, the conditional operator,
and last lambdas, queries and assignments, which reach as far as they can.
-/

namespace Workbench.CSharp.Grammar

open Rule

/-! ## Literals and strings -/

def literal : Rule :=
  leaf .integerLiteral (·.sort == .integer) <|>
  leaf .realLiteral (·.sort == .real) <|>
  leaf .stringLiteral (·.sort == .string) <|>
  leaf .verbatimStringLiteral (·.sort == .verbatim) <|>
  leaf .rawStringLiteral (·.sort == .raw) <|>
  leaf .characterLiteral (·.sort == .character) <|>
  leaf .booleanLiteral (isOneOfWords ["true", "false"]) <|>
  leaf .nullLiteral (isWord "null")

def brace : Rule := leaf .interpolationBrace (·.sort == .brace)

def interpolation (g : Rules) : Rule :=
  node .interpolation (brace ++ g.expression ++
    opt (node .interpolationAlignment (mark "," ++ g.expression)) ++
    opt (leaf .interpolationFormat (·.sort == .format)) ++ brace)

def interpolatedString (g : Rules) : Rule :=
  node .interpolatedStringExpression (leaf .interpolationStart (·.sort == .openQuote) ++
    many (leaf .stringContent (·.sort == .content) <|> interpolation g) ++
    leaf .token (·.sort == .closeQuote))

/-! ## Creation -/

def initializerElement (g : Rules) : Rule :=
  g.initializer <|>
  node .assignmentExpression (role .left identifier ++ mark "=" ++ role .right g.initializer) <|>
  node .assignmentExpression
    (role .left (node .elementBindingExpression (bracketedArgumentList g)) ++ mark "=" ++
      role .right (g.initializer <|> g.expression)) <|>
  g.expression

def initializer (g : Rules) : Rule :=
  node .initializerExpression (mark "\x7b" ++ commaList (initializerElement g) ++ mark "\x7d")

def sizedRank (g : Rules) : Rule := node .arrayRankSpecifier (mark "[" ++ commaSep1 g.expression ++ mark "]")

def creatableType (g : Rules) : Rule := grow (baseType g) nullableSuffix

def createdArray (g : Rules) : Rule :=
  grow (node .arrayType (role .type (creatableType g) ++ role .rank (sizedRank g <|> rank))) arraySuffix

def anonymousMember (g : Rules) : Rule := (identifier ++ mark "=" ++ g.expression) <|> g.expression

def creation (g : Rules) : Rule :=
  node .implicitArrayCreationExpression
    (word "new" ++ mark "[" ++ many (mark ",") ++ mark "]" ++ g.initializer) <|>
  node .anonymousObjectCreationExpression
    (word "new" ++ mark "\x7b" ++ commaList (anonymousMember g) ++ mark "\x7d") <|>
  node .implicitObjectCreationExpression (word "new" ++ argumentList g ++ opt g.initializer) <|>
  node .arrayCreationExpression (word "new" ++ role .type (createdArray g) ++ opt (role .initializer g.initializer)) <|>
  node .objectCreationExpression
    (word "new" ++ role .type (creatableType g) ++ role .arguments (argumentList g) ++
      opt (role .initializer g.initializer)) <|>
  node .objectCreationExpression (word "new" ++ role .type (creatableType g) ++ role .initializer g.initializer)

def stackallocation (g : Rules) : Rule :=
  node .stackallocExpression (word "stackalloc" ++
    ((role .type (createdArray g) ++ opt g.initializer) <|> (mark "[" ++ mark "]" ++ g.initializer)))

/-! ## Lambdas -/

/-- The tokens behind the bracket that closes the one already open. -/
def skipBrackets : Nat → List Token → List Token
  | _, [] => []
  | depth, t :: r =>
    if t.sort == .mark && ["(", "[", "\x7b"].contains t.text then skipBrackets (depth + 1) r
    else if t.sort == .mark && [")", "]", "\x7d"].contains t.text then
      if depth = 0 then r else skipBrackets (depth - 1) r
    else skipBrackets depth r

def nextIs (s : String) (ts : List Token) : Bool := ts.head?.any (isMark s)

def isParenthesizedLambda : List Token → Bool
  | t :: r => isMark "(" t && nextIs "=>" (skipBrackets 0 r)
  | [] => false

def isSimpleLambda : List Token → Bool
  | t :: u :: _ => isIdentifier t && isMark "=>" u
  | _ => false

def lambdaModifier : Rule :=
  when_ (fun ts => isSimpleLambda ts.tail || isParenthesizedLambda ts.tail ||
      (ts.tail.head?.any (isOneOfWords ["async", "static"])))
    (node .modifier (words ["async", "static"]))

def isAttributedLambda : List Token → Bool
  | t :: r =>
    let rest := skipBrackets 0 r
    isMark "[" t && (isSimpleLambda rest || isParenthesizedLambda rest || rest.head?.any (isOneOfWords ["async", "static"]))
  | [] => false

def lambda (g : Rules) : Rule :=
  node .lambdaExpression (opt (when_ isAttributedLambda (attributeList g)) ++ many lambdaModifier ++
    (when_ isSimpleLambda (role .parameters (leaf .implicitParameter isIdentifier)) <|>
      when_ isParenthesizedLambda (role .parameters (parameterList g))) ++
    mark "=>" ++ role .body (g.block <|> g.expression))

def anonymousMethod (g : Rules) : Rule :=
  node .anonymousMethodExpression (many (node .modifier (words ["async", "static"])) ++ word "delegate" ++
    opt (role .parameters (parameterList g)) ++ g.block)

/-! ## Primary expressions -/

def tupleElement (g : Rules) : Rule :=
  node .argument (opt (role .name identifier ++ mark ":") ++ (declaredElement g <|> g.expression))

def bracketed (g : Rules) : Rule :=
  node .parenthesizedExpression (mark "(" ++ g.expression ++ mark ")") <|>
  node .tupleExpression (mark "(" ++ commaSep1 (tupleElement g) ++ mark ")")

def collectionElement (g : Rules) : Rule :=
  node .spreadElement (mark ".." ++ g.expression) <|> g.expression

def primaryStart (g : Rules) : Rule :=
  literal <|> interpolatedString g <|> bracketed g <|> creation g <|> stackallocation g <|> anonymousMethod g <|>
  node .typeofExpression (word "typeof" ++ mark "(" ++ role .type g.type ++ mark ")") <|>
  node .sizeofExpression (word "sizeof" ++ mark "(" ++ role .type g.type ++ mark ")") <|>
  node .defaultExpression (word "default" ++ opt (mark "(" ++ role .type g.type ++ mark ")")) <|>
  node .checkedExpression (words ["checked", "unchecked"] ++ mark "(" ++ g.expression ++ mark ")") <|>
  words ["this", "base"] <|>
  predefinedType <|>
  node .aliasQualifiedName (role .alias identifier ++ mark "::" ++ role .name (simpleNameInExpression g)) <|>
  simpleNameInExpression g <|>
  node .collectionExpression (mark "[" ++ commaList (collectionElement g) ++ mark "]")

/-- Whether a `?` here reaches into what stands before it. -/
def isConditionalAccess : List Token → Bool
  | t :: u :: _ => isMark "?" t && (isMark "." u || (isMark "[" u && u.start == t.stop))
  | _ => false

def postfix_ (g : Rules) (n : Node) : Rule :=
  node .memberAccessExpression
    (given .expression n ++ marks [".", "->"] ++ role .name (simpleNameInExpression g)) <|>
  node .invocationExpression (given .function n ++ role .arguments (argumentList g)) <|>
  node .elementAccessExpression (given .expression n ++ role .subscript (bracketedArgumentList g)) <|>
  when_ isConditionalAccess (node .conditionalAccessExpression (given .condition n ++ mark "?" ++
    (node .memberBindingExpression (mark "." ++ role .name (simpleNameInExpression g)) <|>
      node .elementBindingExpression (bracketedArgumentList g)))) <|>
  node .postfixUnaryExpression (given .plain n ++ marks ["++", "--", "!"])

def primary (g : Rules) : Rule := grow (primaryStart g) (postfix_ g)

/-! ## Prefix operators -/

def prefixMarks : List String := ["+", "-", "!", "~", "++", "--", "&", "*", "^"]

def isAwait : List Token → Bool
  | t :: u :: _ =>
    isWord "await" t &&
      match u.sort with
      | .word => !continuing.contains u.text
      | .mark => u.text == "("
      | .content | .brace | .format | .closeQuote => false
      | _ => true
  | _ => false

def unary (g : Rules) : Rule :=
  node .prefixUnaryExpression (marks prefixMarks ++ g.unary) <|>
  when_ isAwait (node .awaitExpression (word "await" ++ g.unary)) <|>
  node .refExpression (word "ref" ++ g.unary) <|>
  cast g <|>
  primary g

/-! ## Binary operators -/

def infix_ (operators operand : Rule) : Rule :=
  grow operand fun n => node .binaryExpression (given .left n ++ operators ++ role .right operand)

/-- Whether two `>` without a gap stand here and no `>=` ends them. -/
def adjacent : List Token → Bool
  | t :: u :: v :: _ =>
    isMark ">" t && isMark ">" u && u.start == t.stop && !(isMark ">=" v && v.start == u.stop)
  | _ => false

def shiftMark : Rule :=
  mark "<<" <|> when_ adjacent ((mark ">" ++ mark ">" ++ mark ">") <|> (mark ">" ++ mark ">"))

def switchArm (g : Rules) : Rule :=
  node .switchExpressionArm (g.pattern ++ opt (node .whenClause (word "when" ++ g.guard)) ++
    mark "=>" ++ g.expression)

def withSuffix (g : Rules) (n : Node) : Rule :=
  node .switchExpression (given .plain n ++ word "switch" ++ mark "\x7b" ++ commaList (switchArm g) ++ mark "\x7d") <|>
  node .withExpression (given .plain n ++ word "with" ++ mark "\x7b" ++
    commaList (node .withInitializer (identifier ++ mark "=" ++ g.expression)) ++ mark "\x7d")

def ranged (g : Rules) : Rule :=
  let operand := grow (unary g) (withSuffix g)
  node .rangeExpression (mark ".." ++ opt operand) <|>
  grow operand fun n => node .rangeExpression (given .plain n ++ mark ".." ++ opt operand)

def additive (g : Rules) : Rule := infix_ (marks ["+", "-"]) (infix_ (marks ["*", "/", "%"]) (ranged g))

def shifted (g : Rules) : Rule := infix_ shiftMark (additive g)

def relational (g : Rules) : Rule :=
  grow (shifted g) fun n =>
    node .isPatternExpression (given .expression n ++ word "is" ++ role .pattern g.pattern) <|>
    node .asExpression (given .left n ++ word "as" ++ role .right (typeInExpression g)) <|>
    node .binaryExpression
      (given .left n ++ (when_ (fun ts => !adjacent ts) (marks ["<", ">", "<=", ">="])) ++ role .right (shifted g))

def coalescing (g : Rules) : Rule :=
  infix_ (mark "??") <| infix_ (mark "||") <| infix_ (mark "&&") <| infix_ (mark "|") <| infix_ (mark "^") <|
    infix_ (mark "&") <| infix_ (marks ["==", "!="]) (relational g)

def throwExpression (g : Rules) : Rule := node .throwExpression (word "throw" ++ g.expression)

/-- The right side of `??` may also be thrown or bound more loosely than the left. -/
def coalesced (g : Rules) : Rule :=
  grow (coalescing g) fun n =>
    node .binaryExpression (given .left n ++ mark "??" ++ role .right (throwExpression g <|> g.expression))

def conditional (g : Rules) : Rule :=
  grow (coalesced g) fun n =>
    node .conditionalExpression (given .condition n ++ mark "?" ++ role .consequence g.expression ++ mark ":" ++
      role .alternative g.expression)

/-! ## Queries -/

def queryWords : List String := ["from", "where", "select", "orderby", "join", "let", "group", "into"]

def isQuery : List Token → Bool
  | t :: u :: v :: w :: _ =>
    isWord "from" t && u.sort == .word && (isWord "in" v || isWord "in" w || isMark "<" v || isMark "." v || isMark "[" v || isMark "?" v)
  | _ => false

def fromClause (g : Rules) : Rule :=
  node .queryClause (word "from" ++
    ((role .name identifier ++ word "in") <|> (role .type g.type ++ role .name identifier ++ word "in")) ++
    g.expression)

def ordering (g : Rules) : Rule := g.expression ++ opt (words ["ascending", "descending"])

def joinClause (g : Rules) : Rule :=
  node .queryClause (word "join" ++ ((identifier ++ word "in") <|> (g.type ++ identifier ++ word "in")) ++ g.expression ++
    word "on" ++ g.expression ++ word "equals" ++ g.expression ++ opt (word "into" ++ identifier))

def queryClause (g : Rules) : Rule :=
  fromClause g <|> joinClause g <|>
  node .queryClause (word "let" ++ identifier ++ mark "=" ++ g.expression) <|>
  node .queryClause (word "where" ++ g.expression) <|>
  node .queryClause (word "orderby" ++ commaSep1 (ordering g)) <|>
  node .queryClause (word "select" ++ g.expression) <|>
  node .queryClause (word "group" ++ g.expression ++ word "by" ++ g.expression) <|>
  node .queryClause (word "into" ++ identifier)

def query (g : Rules) : Rule := when_ isQuery (node .queryExpression (fromClause g ++ many1 (queryClause g)))

/-! ## Whole expressions -/

def assignmentMark : Rule :=
  marks ["=", "+=", "-=", "*=", "/=", "%=", "&=", "|=", "^=", "<<=", "??="] <|> (mark ">" ++ mark ">=") <|>
    (mark ">" ++ mark ">" ++ mark ">=")

def assignment (g : Rules) : Rule :=
  grow (conditional g) fun n =>
    node .assignmentExpression (given .left n ++ assignmentMark ++ role .right g.expression)

def expression (g : Rules) : Rule :=
  lambda g <|> query g <|> throwExpression g <|> assignment g

end Workbench.CSharp.Grammar
