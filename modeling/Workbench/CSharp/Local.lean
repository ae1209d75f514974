import Workbench.CSharp.Source
import Workbench.Edit

/-!
# Unused locals

A local is unused when no other identifier in its scope is spelled like it. One
that is initialized with more than a literal is not reported, since computing
its value may have an effect.
-/

namespace Workbench.CSharp

structure UnusedLocal where
  statement : Node
  declaration : Node
  declarator : Node
  name : String
  nameSpan : Span
  diagnosticId : String

namespace UnusedLocal

def declaredId : String := "CS0168"

def assignedId : String := "CS0219"

/-- Declarations that a reader or the runtime relies on even when nothing names them. -/
def isExempt (f : SourceFile) (statement : Node) : Bool :=
  f.hasModifier statement "const" || statement.hasToken "const" || statement.hasToken "using"

/-- Where the local can be named: the node around the statement, or the file for a statement at its top. -/
def scope (root : Node) (statement : Focus) : Node :=
  match statement.parent? with
  | some p => if p.kind == .globalStatement then root else p
  | none => root

/-- Whether another identifier in `scope` is spelled like the declared one. -/
def isNamed (scope name : Node) (f : SourceFile) : Bool :=
  (scope.descendantsOf [.identifier]).any fun n => n.start != name.start && f.text n == f.text name

def idFor? (declarator : Node) : Option String :=
  match declarator.initializer? with
  | none => some declaredId
  | some init => if init.kind.isConstantLiteral then some assignedId else none

def ofDeclarator? (f : SourceFile) (scope statement declaration declarator : Node) : Option UnusedLocal :=
  match declarator.declaratorName?, idFor? declarator with
  | some name, some id =>
    if f.text name == "" || f.text name == "_" || isNamed scope name f then none
    else some ⟨statement, declaration, declarator, f.text name, name.span, id⟩
  | _, _ => none

def inStatement (f : SourceFile) (s : Focus) : List UnusedLocal :=
  if isExempt f s.node then []
  else
    match s.node.variableDeclaration? with
    | none => []
    | some d => d.declarators.filterMap (ofDeclarator? f (scope f.root s) s.node d)

def all (f : SourceFile) : List UnusedLocal :=
  (f.root.fociOf [.localDeclarationStatement]).flatMap (inStatement f)

/-- From a declarator to the next one, or from the one before it. -/
def separatedSpan (ds : List Node) (d : Node) : Span :=
  match ds.span fun x => x.start != d.start with
  | (_, e :: next :: _) => .ofBounds e.start next.start
  | (before, [e]) => .ofBounds ((before.getLast?).elim e.start Node.stop) e.stop
  | (_, []) => d.span

/-- Edits that remove a local: the statement, or the declarator with its comma when it is one of many. -/
def removal (f : SourceFile) (l : UnusedLocal) : List Edit :=
  let ds := l.declaration.declarators
  if ds.length ≤ 1 then
    let (a, b) := Text.removalSpan f.chars l.statement.start l.statement.stop
    [.delete (.ofBounds a b)]
  else [.delete (separatedSpan ds l.declarator)]

end UnusedLocal

end Workbench.CSharp
