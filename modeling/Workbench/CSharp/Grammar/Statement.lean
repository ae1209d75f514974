import Workbench.CSharp.Grammar.Expression

/-!
# Statements

A statement that could be a declaration is read as one first; what is left is
an expression statement.
-/

namespace Workbench.CSharp.Grammar

open Rule

/-! ## Declarations of locals -/

def tuplePattern (g : Rules) : Rule :=
  node .tuplePattern (mark "(" ++
    commaSep1 (role .name identifier <|> g.designation) ++ mark ")")

def declaratorValue (g : Rules) : Rule := mark "=" ++ (g.initializer <|> g.expression)

/-- What may follow the name in a declarator. -/
def afterDeclarator : List Token → Bool
  | t :: _ => t.sort == .mark && ["=", ";", ",", ")", "["].contains t.text
  | [] => false

def declarator (g : Rules) : Rule :=
  node .variableDeclarator (role .name identifier ++ when_ afterDeclarator nothing ++
    opt (bracketedArgumentList g) ++ opt (declaratorValue g)) <|>
  node .variableDeclarator (tuplePattern g ++ declaratorValue g)

def variableDeclaration (g : Rules) : Rule :=
  node .variableDeclaration (role .type g.type ++ commaSep1 (declarator g))

def localDeclaration (g : Rules) : Rule :=
  node .localDeclarationStatement
    (opt (word "await" ++ peek (word "using")) ++ opt (word "using") ++ many modifier ++
      variableDeclaration g ++ mark ";")

def arrowBody (g : Rules) : Rule :=
  role .body (node .arrowExpressionClause (mark "=>" ++ g.expression)) ++ mark ";"

def constraint (g : Rules) : Rule :=
  node .typeParameterConstraint
    ((word "class" ++ opt (mark "?")) <|> word "struct" <|> word "default" <|>
      (word "new" ++ mark "(" ++ mark ")") <|>
      (word "unmanaged" ++ not_ (marks [".", "<"])) <|> (word "notnull" ++ not_ (marks [".", "<"])) <|>
      role .type g.type)

def constraints (g : Rules) : Rule :=
  many (node .typeParameterConstraintsClause
    (word "where" ++ identifier ++ mark ":" ++ commaSep1 (constraint g)))

def localFunction (g : Rules) : Rule :=
  node .localFunctionStatement
    (many (attributeList g) ++ many modifier ++ role .type g.type ++ role .name identifier ++
      opt (role .typeParameters (typeParameterList g)) ++ role .parameters (parameterList g) ++ constraints g ++
      (role .body g.block <|> arrowBody g <|> mark ";"))

/-! ## Control flow -/

def ifStatement (g : Rules) : Rule :=
  node .ifStatement
    (word "if" ++ mark "(" ++ role .condition g.expression ++ mark ")" ++ role .consequence g.statement ++
      opt (word "else" ++ role .alternative g.statement))

def whileStatement (g : Rules) : Rule :=
  node .whileStatement
    (word "while" ++ mark "(" ++ role .condition g.expression ++ mark ")" ++ role .body g.statement)

def doStatement (g : Rules) : Rule :=
  node .doStatement
    (word "do" ++ role .body g.statement ++ word "while" ++ mark "(" ++ role .condition g.expression ++
      mark ")" ++ mark ";")

def forStatement (g : Rules) : Rule :=
  node .forStatement
    (word "for" ++ mark "(" ++
      ((role .initializer (variableDeclaration g) ++ mark ";") <|>
        (commaSep (role .initializer g.expression) ++ mark ";")) ++
      opt (role .condition g.expression) ++ mark ";" ++ commaSep (role .update g.expression) ++ mark ")" ++
      role .body g.statement)

def foreachStatement (g : Rules) : Rule :=
  node .foreachStatement
    (opt (word "await") ++ word "foreach" ++ mark "(" ++
      ((role .type g.type ++ role .left (identifier <|> tuplePattern g) ++ word "in") <|>
        (role .left g.expression ++ word "in")) ++
      role .right g.expression ++ mark ")" ++ role .body g.statement)

/-- The label of a section. A constant that binds more loosely than a pattern stands alone. -/
def switchLabel (g : Rules) : Rule :=
  (word "case" ++ g.pattern ++ opt (node .whenClause (word "when" ++ g.expression)) ++ mark ":") <|>
  (word "case" ++ node .constantPattern g.guard ++ mark ":") <|>
  (word "default" ++ mark ":")

def switchSection (g : Rules) : Rule := node .switchSection (switchLabel g ++ many g.statement)

def switchStatement (g : Rules) : Rule :=
  node .switchStatement
    (word "switch" ++
      ((mark "(" ++ role .value g.expression ++ mark ")") <|> role .value (bracketed g)) ++
      role .body (node .switchBody (mark "\x7b" ++ many (switchSection g) ++ mark "\x7d")))

def catchClause (g : Rules) : Rule :=
  node .catchClause
    (word "catch" ++
      opt (node .catchDeclaration (mark "(" ++ role .type g.type ++ opt (role .name identifier) ++ mark ")")) ++
      opt (node .catchFilterClause (word "when" ++ mark "(" ++ g.expression ++ mark ")")) ++ role .body g.block)

def tryStatement (g : Rules) : Rule :=
  node .tryStatement
    (word "try" ++ role .body g.block ++ many (catchClause g) ++
      opt (node .finallyClause (word "finally" ++ g.block)))

def usingStatement (g : Rules) : Rule :=
  node .usingStatement
    (opt (word "await") ++ word "using" ++ mark "(" ++
      ((variableDeclaration g ++ mark ")") <|> (g.expression ++ mark ")")) ++ role .body g.statement)

def jump (g : Rules) : Rule :=
  node .returnStatement (word "return" ++ opt g.expression ++ mark ";") <|>
  node .breakStatement (word "break" ++ mark ";") <|>
  node .continueStatement (word "continue" ++ mark ";") <|>
  node .throwStatement (word "throw" ++ opt g.expression ++ mark ";") <|>
  node .gotoStatement (word "goto" ++
    ((word "case" ++ g.expression) <|> word "default" <|> identifier) ++ mark ";") <|>
  node .yieldStatement (word "yield" ++ ((word "return" ++ g.expression) <|> word "break") ++ mark ";")

def guarded (g : Rules) : Rule :=
  node .lockStatement (word "lock" ++ mark "(" ++ g.expression ++ mark ")" ++ g.statement) <|>
  usingStatement g <|>
  node .fixedStatement (word "fixed" ++ mark "(" ++ variableDeclaration g ++ mark ")" ++ role .body g.statement) <|>
  node .checkedStatement (words ["checked", "unchecked"] ++ g.block) <|>
  node .unsafeStatement (word "unsafe" ++ g.block) <|>
  tryStatement g

def labeledStatement (g : Rules) : Rule :=
  node .labeledStatement (identifier ++ mark ":" ++ g.statement)

def block (g : Rules) : Rule := node .block (mark "\x7b" ++ many g.statement ++ mark "\x7d")

def statement (g : Rules) : Rule :=
  g.block <|> node .emptyStatement (mark ";") <|> ifStatement g <|> whileStatement g <|> doStatement g <|>
  forStatement g <|> foreachStatement g <|> switchStatement g <|> jump g <|> guarded g <|>
  labeledStatement g <|> localFunction g <|> localDeclaration g <|>
  node .expressionStatement (g.expression ++ mark ";")

end Workbench.CSharp.Grammar
