import Workbench.Span
import Workbench.Text.Utf8

/-!
# The syntax tree of C#

A node has a kind, the role it plays in its parent, its byte range, and its
children in source order. Keywords and punctuation are leaves of kind `token`,
which keep their spelling. A `Focus` is a node together with the nodes around
it, so that an analysis can look outward.
-/

namespace Workbench.CSharp

inductive Kind where
  | token | comment | directive
  | error
  -- names and types
  | identifier | genericName | qualifiedName | aliasQualifiedName | typeArgumentList
  | predefinedType | implicitType | arrayType | arrayRankSpecifier | nullableType | pointerType
  | tupleType | tupleElement | refType | functionPointerType
  -- declarations
  | compilationUnit | globalStatement | globalAttribute | externAliasDirective | usingDirective
  | namespaceDeclaration | fileScopedNamespaceDeclaration | declarationList
  | classDeclaration | structDeclaration | interfaceDeclaration | recordDeclaration | enumDeclaration
  | enumMemberDeclarationList | enumMemberDeclaration | delegateDeclaration
  | baseList | primaryConstructorBaseType | typeParameterList | typeParameter
  | typeParameterConstraintsClause | typeParameterConstraint
  | attributeList | attribute | attributeTargetSpecifier | attributeArgumentList | attributeArgument
  | modifier | parameterList | bracketedParameterList | parameter | implicitParameter
  | methodDeclaration | constructorDeclaration | constructorInitializer | destructorDeclaration
  | propertyDeclaration | indexerDeclaration | eventDeclaration | eventFieldDeclaration
  | fieldDeclaration | operatorDeclaration | conversionOperatorDeclaration
  | explicitInterfaceSpecifier | accessorList | accessorDeclaration | arrowExpressionClause
  | variableDeclaration | variableDeclarator | tuplePattern
  -- statements
  | block | emptyStatement | expressionStatement | localDeclarationStatement | localFunctionStatement
  | ifStatement | whileStatement | doStatement | forStatement | foreachStatement
  | switchStatement | switchBody | switchSection | whenClause
  | returnStatement | breakStatement | continueStatement | throwStatement | gotoStatement
  | yieldStatement | labeledStatement | lockStatement | usingStatement | fixedStatement
  | checkedStatement | unsafeStatement | tryStatement | catchClause | catchDeclaration
  | catchFilterClause | finallyClause
  -- patterns
  | constantPattern | declarationPattern | varPattern | discard | negatedPattern | relationalPattern
  | andPattern | orPattern | parenthesizedPattern | recursivePattern | propertyPatternClause
  | positionalPatternClause | subpattern | listPattern | typePattern | designation
  -- expressions
  | assignmentExpression | conditionalExpression | binaryExpression | prefixUnaryExpression
  | postfixUnaryExpression | castExpression | awaitExpression | throwExpression | refExpression
  | rangeExpression | isPatternExpression | asExpression | switchExpression | switchExpressionArm
  | withExpression | withInitializer | invocationExpression | memberAccessExpression
  | conditionalAccessExpression | memberBindingExpression | elementBindingExpression
  | elementAccessExpression | argumentList | bracketedArgumentList | argument | declarationExpression
  | parenthesizedExpression | tupleExpression | lambdaExpression | anonymousMethodExpression
  | objectCreationExpression | implicitObjectCreationExpression | arrayCreationExpression
  | implicitArrayCreationExpression | anonymousObjectCreationExpression | stackallocExpression
  | initializerExpression | collectionExpression | spreadElement
  | typeofExpression | sizeofExpression | defaultExpression | checkedExpression
  | queryExpression | queryClause
  | interpolatedStringExpression | interpolationStart | interpolation | interpolationBrace
  | interpolationAlignment | interpolationFormat | stringContent
  | stringLiteral | verbatimStringLiteral | rawStringLiteral | characterLiteral
  | integerLiteral | realLiteral | booleanLiteral | nullLiteral
deriving DecidableEq, Repr

namespace Kind

def isTypeDeclaration : Kind → Bool
  | .classDeclaration | .structDeclaration | .interfaceDeclaration | .recordDeclaration | .enumDeclaration => true
  | _ => false

def isMemberDeclaration : Kind → Bool
  | .methodDeclaration | .constructorDeclaration | .destructorDeclaration | .propertyDeclaration
  | .fieldDeclaration | .eventFieldDeclaration | .eventDeclaration | .indexerDeclaration
  | .operatorDeclaration | .conversionOperatorDeclaration | .delegateDeclaration => true
  | _ => false

/-- Functions that are no members: what is in them runs at another time than what is around them. -/
def isNestedFunction : Kind → Bool
  | .localFunctionStatement | .anonymousMethodExpression | .lambdaExpression => true
  | _ => false

def isStringLiteral : Kind → Bool
  | .stringLiteral | .verbatimStringLiteral | .rawStringLiteral | .interpolatedStringExpression
  | .characterLiteral => true
  | _ => false

/-- Literals that can be dropped without dropping an effect. -/
def isConstantLiteral : Kind → Bool
  | .integerLiteral | .realLiteral | .stringLiteral | .verbatimStringLiteral | .rawStringLiteral
  | .characterLiteral | .booleanLiteral | .nullLiteral => true
  | _ => false

end Kind

/-- The part that a child plays in its parent. -/
inductive Role where
  | plain | name | type | body | function | arguments | expression | left | right | condition
  | consequence | alternative | initializer | parameters | typeParameters | returns | value
  | qualifier | alias | subscript | pattern | rank | update | accessors
deriving DecidableEq, Repr

inductive Node where
  | mk (kind : Kind) (role : Role) (start stop : Nat) (text : String) (children : List Node)
deriving Repr

/-- A way to read a text into a syntax tree. What works on trees takes any. -/
abbrev Parser := String → Node

namespace Node

def kind : Node → Kind | mk k _ _ _ _ _ => k
def role : Node → Role | mk _ r _ _ _ _ => r
def start : Node → Nat | mk _ _ a _ _ _ => a
def stop : Node → Nat | mk _ _ _ b _ _ => b
/-- The spelling of a leaf; empty for a node with children. -/
def leafText : Node → String | mk _ _ _ _ t _ => t
def children : Node → List Node | mk _ _ _ _ _ cs => cs

def withRole (r : Role) : Node → Node
  | mk k .plain a b t cs => mk k r a b t cs
  | n => n

def span (n : Node) : Span := Span.ofBounds n.start n.stop

def isNamed (n : Node) : Bool := n.kind != .token

def isToken (n : Node) (text : String) : Bool := n.kind == .token && n.leafText == text

/-- Two nodes of one tree are the same when kind and range agree. -/
def same (a b : Node) : Bool := a.kind == b.kind && a.start == b.start && a.stop == b.stop

def named (n : Node) : List Node := n.children.filter isNamed

def ofKind (n : Node) (k : Kind) : List Node := n.children.filter (·.kind == k)

def child? (n : Node) (r : Role) : Option Node := n.children.find? (·.role == r)

def name? (n : Node) : Option Node := n.child? .name

def firstNamed? (n : Node) : Option Node := n.named.head?

def modifiers (n : Node) : List Node := n.ofKind .modifier

def variableDeclaration? (n : Node) : Option Node := n.children.find? (·.kind == .variableDeclaration)

def declarators (n : Node) : List Node := n.ofKind .variableDeclarator

/-- What a declarator declares: its name, or else the first identifier in it. -/
def declaratorName? (n : Node) : Option Node := n.name?.or (n.children.find? (·.kind == .identifier))

def hasToken (n : Node) (text : String) : Bool := n.children.any (·.isToken text)

def initializer? (n : Node) : Option Node :=
  ((n.children.dropWhile fun c => !c.isToken "=").filter isNamed).head?

def argumentCount (n : Node) : Nat := ((n.child? .arguments).elim [] (·.ofKind .argument)).length

def body? (n : Node) : Option Node := (n.child? .body).or (n.children.find? (·.kind == .declarationList))

def chars (source : List Char) (n : Node) : List Char := (Text.slice? source n.start n.stop).getD []

/-- The source text of a node; empty when its range is none of the source. -/
def textIn (source : List Char) (n : Node) : String := .ofList (n.chars source)

end Node

/-- A node and the nodes around it, the nearest first. -/
structure Focus where
  node : Node
  around : List Node
deriving Repr

namespace Focus

def parent? (f : Focus) : Option Node := f.around.head?

def ancestor? (f : Focus) (ks : List Kind) : Option Node := f.around.find? fun n => ks.contains n.kind

def up? (f : Focus) : Option Focus :=
  match f.around with
  | [] => none
  | n :: r => some ⟨n, r⟩

def down (f : Focus) (n : Node) : Focus := ⟨n, f.node :: f.around⟩

end Focus

namespace Node

mutual

/-- The node and all named nodes below it, each before its children. A node that `enter` refuses
is listed, but what is below it is not. -/
def walk (enter : Node → Bool) (around : List Node) : Node → List Focus
  | mk k r a b t cs =>
    ⟨mk k r a b t cs, around⟩ ::
      (if enter (mk k r a b t cs) then walkAll enter (mk k r a b t cs :: around) cs else [])

def walkAll (enter : Node → Bool) (around : List Node) : List Node → List Focus
  | [] => []
  | n :: rest =>
    (if n.isNamed then walk enter around n else []) ++ walkAll enter around rest

end

def foci (n : Node) : List Focus := n.walk (fun _ => true) []

/-- All named nodes from this one down, in source order. -/
def descendants (n : Node) : List Node := n.foci.map (·.node)

def fociOf (n : Node) (ks : List Kind) : List Focus := n.foci.filter fun f => ks.contains f.node.kind

def descendantsOf (n : Node) (ks : List Kind) : List Node := n.descendants.filter fun m => ks.contains m.kind

def covers (s : Span) (n : Node) : Bool := n.start ≤ s.start && s.stop ≤ n.stop

/-- The last node of one of the kinds on the walk through all nodes that reach over the span. -/
def covering? (root : Node) (s : Span) (ks : List Kind) : Option Node :=
  (((root.walk (covers s) []).map (·.node)).filter fun n => covers s n && ks.contains n.kind).getLast?

end Node

end Workbench.CSharp
