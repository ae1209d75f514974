import Workbench.CSharp.Fixes
import Workbench.CSharp.Layout

/-!
# Refactorings of C#

Changes that are offered where they fit and that no diagnostic asks for, and
the actions that the model offers by itself.
-/

namespace Workbench.CSharp

def refactoringProvider (read : Parser) (typeName title key : String)
    (edits? : SourceFile → Span → Option (List Edit)) : RefactoringProvider where
  typeName := typeName
  provide s path span :=
    (sourceFile read s path).map fun f =>
      match edits? f span with
      | none => []
      | some edits => [.single title key path edits]

def touches (s : Span) (n : Node) : Bool := n.span.intersects s

def touchedLocals (f : SourceFile) (s : Span) : List Node :=
  (f.root.descendantsOf [.localDeclarationStatement]).filter (touches s)

def singleLocal? (statement : Node) : Option (Node × Option Node) :=
  match statement.variableDeclaration? with
  | none => none
  | some d =>
    match d.child? .type, d.declarators with
    | some type, [declarator] => some (type, declarator.initializer?)
    | _, _ => none

def createdType? (value : Node) : Option Node :=
  if value.kind == .objectCreationExpression then value.child? .type else none

/-! ## Explicit types -/

def integerType (lower : List Char) : String :=
  let ends (s : String) : Bool := s.toList.isSuffixOf lower
  if ends "ul" || ends "lu" then "ulong" else if ends "l" then "long" else if ends "u" then "uint" else "int"

def realType (lower : List Char) : String :=
  let ends (s : String) : Bool := s.toList.isSuffixOf lower
  if ends "f" then "float" else if ends "m" then "decimal" else "double"

def literalType? (f : SourceFile) (value : Node) : Option String :=
  let lower := (f.text value).toList.map Char.toLower
  match value.kind with
  | .stringLiteral | .verbatimStringLiteral | .rawStringLiteral => some "string"
  | .characterLiteral => some "char"
  | .booleanLiteral => some "bool"
  | .integerLiteral => some (integerType lower)
  | .realLiteral => some (realType lower)
  | _ => none

def apparentType? (f : SourceFile) (value : Node) : Option String :=
  if value.kind == .objectCreationExpression then (createdType? value).map f.text else literalType? f value

def explicitType? (f : SourceFile) (statement : Node) : Option (List Edit) :=
  match singleLocal? statement with
  | some (type, some value) =>
    if f.text type == "var" then (apparentType? f value).map fun t => [⟨type.span, t⟩] else none
  | _ => none

def useExplicitType (read : Parser) : RefactoringProvider :=
  refactoringProvider read "UseExplicitTypeRefactoringProvider" "Use explicit type instead of 'var'" "UseExplicitType"
    fun f s => (touchedLocals f s).findSome? (explicitType? f)

/-! ## Braces -/

def closingBracket? (statement body : Node) : Option Node :=
  (statement.children.filter fun n => n.isToken ")" && n.stop ≤ body.start).getLast?

def newlineOf (cs : List Char) : String := if Layout.hasPairs cs then "\r\n" else "\n"

/-- The body in braces on lines of their own, indented like the statement. -/
def braced (f : SourceFile) (statement body : Node) : String :=
  let newline := newlineOf f.chars
  let indent := String.ofList (Text.lineIndent f.chars statement.start)
  newline ++ indent ++ "\x7b" ++ newline ++ indent ++ "    " ++ trim (f.text body) ++ newline ++ indent ++ "\x7d"

def bracing? (f : SourceFile) (s : Span) : Option (List Edit) :=
  match f.root.covering? ⟨s.start, 0⟩ [.ifStatement] with
  | none => none
  | some statement =>
    match statement.child? .consequence with
    | none => none
    | some body =>
      if body.kind == .block then none
      else (closingBracket? statement body).map fun b =>
        [⟨.ofBounds b.stop body.stop, braced f statement body⟩]

def addBraces (read : Parser) : RefactoringProvider :=
  refactoringProvider read "AddBracesRefactoringProvider" "Add braces to 'if' statement" "AddBraces" bracing?

/-! ## Actions without a provider -/

def removeLocalBuiltin (f : SourceFile) (l : UnusedLocal) : Builtin :=
  ⟨.removeUnusedLocal, some l.diagnosticId, l.nameSpan, l.name,
    .single ("Remove unused variable '" ++ l.name ++ "'") BuiltinKind.removeUnusedLocal.text f.path
      (UnusedLocal.removal f l)⟩

/-- A local of an explicit type whose value is created with that very type. -/
def inferredType? (f : SourceFile) (statement : Node) : Option Builtin :=
  if f.hasModifier statement "const" || statement.hasToken "const" then none
  else
    match singleLocal? statement with
    | some (type, some value) =>
      if f.compact type != "var" && (createdType? value).any fun t => f.compact t == f.compact type then
        some ⟨.useInferredType, none, type.span, f.compact type,
          .single "Use 'var' instead of explicit type" BuiltinKind.useInferredType.text f.path [⟨type.span, "var"⟩]⟩
      else none
    | _ => none

def builtins (f : SourceFile) (s : Span) : List Builtin :=
  ((UnusedLocal.all f).filter fun l => touches s l.statement).map (removeLocalBuiltin f) ++
    (touchedLocals f s).filterMap (inferredType? f)

end Workbench.CSharp
