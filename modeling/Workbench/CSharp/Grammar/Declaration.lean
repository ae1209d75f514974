import Workbench.CSharp.Grammar.Statement

/-!
# Declarations

Namespaces, types and their members, and the directives that begin a file.
What stands at the top of a file and is no declaration is a statement.
-/

namespace Workbench.CSharp.Grammar

open Rule

/-! ## Members -/

/-- Attributes and modifiers, with which every declaration may begin. -/
def heading (g : Rules) : Rule := many (attributeList g) ++ many modifier

def methodBody (g : Rules) : Rule := role .body g.block <|> arrowBody g <|> mark ";"

/-- Whether a name goes on behind this simple name. -/
def explicitInterface (g : Rules) : Rule :=
  node .explicitInterfaceSpecifier
    (grow (aliased g ++ peek (mark ".")) (fun n => dotted g n ++ peek (mark ".")) ++ mark ".")

def method (g : Rules) : Rule :=
  node .methodDeclaration
    (heading g ++ role .returns g.type ++ opt (explicitInterface g) ++ role .name identifier ++
      opt (role .typeParameters (typeParameterList g)) ++ role .parameters (parameterList g) ++ constraints g ++
      methodBody g)

def constructorInitializer (g : Rules) : Rule :=
  node .constructorInitializer (mark ":" ++ words ["base", "this"] ++ argumentList g)

def constructor (g : Rules) : Rule :=
  node .constructorDeclaration
    (heading g ++ role .name identifier ++ role .parameters (parameterList g) ++ opt (constructorInitializer g) ++
      methodBody g)

def destructor (g : Rules) : Rule :=
  node .destructorDeclaration
    (many (attributeList g) ++ many modifier ++ mark "~" ++ role .name identifier ++
      role .parameters (parameterList g) ++ methodBody g)

def accessor (g : Rules) : Rule :=
  node .accessorDeclaration (heading g ++ words ["get", "set", "init", "add", "remove"] ++ methodBody g)

def accessorList (g : Rules) : Rule :=
  role .accessors (node .accessorList (mark "\x7b" ++ many (accessor g) ++ mark "\x7d"))

def arrowValue (g : Rules) : Rule :=
  role .value (node .arrowExpressionClause (mark "=>" ++ g.expression)) ++ mark ";"

def property (g : Rules) : Rule :=
  node .propertyDeclaration
    (heading g ++ role .type g.type ++ opt (explicitInterface g) ++ role .name identifier ++
      ((accessorList g ++ opt (mark "=" ++ role .value (g.initializer <|> g.expression) ++ mark ";")) <|> arrowValue g))

def indexer (g : Rules) : Rule :=
  node .indexerDeclaration
    (heading g ++ role .type g.type ++ opt (explicitInterface g) ++ word "this" ++
      role .parameters (bracketedParameterList g) ++ (accessorList g <|> arrowValue g))

def event (g : Rules) : Rule :=
  node .eventDeclaration
    (heading g ++ word "event" ++ role .type g.type ++ opt (explicitInterface g) ++ role .name identifier ++
      accessorList g) <|>
  node .eventFieldDeclaration (heading g ++ word "event" ++ variableDeclaration g ++ mark ";")

def field (g : Rules) : Rule :=
  node .fieldDeclaration (heading g ++ variableDeclaration g ++ mark ";")

def operatorMark : Rule :=
  shiftMark <|> marks ["+", "-", "!", "~", "++", "--", "*", "/", "%", "&", "|", "^", "==", "!=", "<", ">", "<=", ">="] <|>
    words ["true", "false"]

def operator (g : Rules) : Rule :=
  node .operatorDeclaration
    (heading g ++ role .type g.type ++ opt (explicitInterface g) ++ word "operator" ++ opt (word "checked") ++
      operatorMark ++ role .parameters (parameterList g) ++ methodBody g) <|>
  node .conversionOperatorDeclaration
    (heading g ++ words ["implicit", "explicit"] ++ opt (explicitInterface g) ++ word "operator" ++
      opt (word "checked") ++ role .type g.type ++ role .parameters (parameterList g) ++ methodBody g)

/-! ## Types -/

def declarationList (g : Rules) : Rule :=
  node .declarationList (mark "\x7b" ++ many g.member ++ mark "\x7d")

def base (g : Rules) : Rule := g.type ++ opt (argumentList g)

def baseList (g : Rules) : Rule := node .baseList (mark ":" ++ commaSep1 (base g))

/-- In the bases of a record a type with arguments is one node. -/
def recordBaseList (g : Rules) : Rule :=
  node .baseList (mark ":" ++ commaSep1
    (node .primaryConstructorBaseType (role .type g.type ++ argumentList g) <|> g.type))

def typeTail (g : Rules) (bases : Rule) : Rule :=
  opt (typeParameterList g) ++ opt (parameterList g) ++ opt bases ++ constraints g ++
    ((role .body (declarationList g) ++ opt (mark ";")) <|> mark ";")

def classLike (g : Rules) (k : Kind) (w : String) : Rule :=
  node k (heading g ++ word w ++ role .name identifier ++ typeTail g (baseList g))

def record (g : Rules) : Rule :=
  node .recordDeclaration
    (heading g ++ word "record" ++ opt (words ["class", "struct"]) ++ role .name identifier ++
      typeTail g (recordBaseList g))

def enumMember (g : Rules) : Rule :=
  node .enumMemberDeclaration
    (many (attributeList g) ++ role .name identifier ++ opt (mark "=" ++ role .value g.expression))

def enumeration (g : Rules) : Rule :=
  node .enumDeclaration
    (heading g ++ word "enum" ++ role .name identifier ++ opt (baseList g) ++
      role .body (node .enumMemberDeclarationList (mark "\x7b" ++ commaList (enumMember g) ++ mark "\x7d")) ++
      opt (mark ";"))

def delegateDeclaration (g : Rules) : Rule :=
  node .delegateDeclaration
    (heading g ++ word "delegate" ++ role .type g.type ++ role .name identifier ++
      opt (role .typeParameters (typeParameterList g)) ++ role .parameters (parameterList g) ++ constraints g ++ mark ";")

def typeDeclaration (g : Rules) : Rule :=
  classLike g .classDeclaration "class" <|> classLike g .structDeclaration "struct" <|>
  classLike g .interfaceDeclaration "interface" <|> record g <|> enumeration g <|> delegateDeclaration g

/-! ## Namespaces and files -/

def usingDirective (g : Rules) : Rule :=
  node .usingDirective
    (opt (word "global") ++ word "using" ++
      ((opt (word "unsafe") ++ role .name identifier ++ mark "=" ++ g.type) <|>
        (opt (word "static") ++ opt (word "unsafe") ++ name g)) ++ mark ";")

def externAlias : Rule :=
  node .externAliasDirective (word "extern" ++ word "alias" ++ role .name identifier ++ mark ";")

def globalAttribute (g : Rules) : Rule :=
  node .globalAttribute
    (mark "[" ++ words ["assembly", "module"] ++ mark ":" ++ commaSep1 (attributeItem g) ++ opt (mark ",") ++ mark "]")

def namespaceDeclaration (g : Rules) : Rule :=
  node .namespaceDeclaration
    (word "namespace" ++ role .name (name g) ++ role .body (declarationList g) ++ opt (mark ";")) <|>
  node .fileScopedNamespaceDeclaration (word "namespace" ++ role .name (name g) ++ mark ";")

def member (g : Rules) : Rule :=
  usingDirective g <|> externAlias <|> namespaceDeclaration g <|> typeDeclaration g <|> event g <|>
  constructor g <|> destructor g <|> operator g <|> indexer g <|> method g <|> property g <|> field g

def topLevel (g : Rules) : Rule :=
  externAlias <|> usingDirective g <|> globalAttribute g <|> namespaceDeclaration g <|> typeDeclaration g <|>
  node .globalStatement g.statement

/-! ## All rules together -/

/-- The rules for texts nested at most `depth` deep. -/
def rules : Nat → Rules
  | 0 => ⟨refuse, refuse, refuse, refuse, refuse, refuse, refuse, refuse, refuse, refuse, refuse⟩
  | depth + 1 =>
    { expression := delay fun _ => expression (rules depth)
      guard := delay fun _ => conditional (rules depth)
      unary := delay fun _ => unary (rules depth)
      initializer := delay fun _ => initializer (rules depth)
      type := delay fun _ => type (rules depth)
      pattern := delay fun _ => pattern (rules depth)
      negation := delay fun _ => let g := rules depth; negation g (shifted g)
      designation := delay fun _ => designation (rules depth)
      statement := delay fun _ => statement (rules depth)
      block := delay fun _ => block (rules depth)
      member := delay fun _ => member (rules depth) }

end Workbench.CSharp.Grammar
