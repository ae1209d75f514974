import Workbench.CSharp.Source

/-!
# Fields that could be readonly

A private field is a candidate when every write to it inside its type stands
directly in a constructor of that type. Partial types are left alone, since
not all of their code is in view.
-/

namespace Workbench.CSharp.ReadonlyField

def holders : List Kind := [.classDeclaration, .structDeclaration, .recordDeclaration]

/-- Modifiers that make a field visible elsewhere, or that do not go with `readonly`. -/
def excluding : List String := ["public", "protected", "internal", "readonly", "const", "volatile", "fixed"]

def isEligible (f : SourceFile) (field : Node) : Bool :=
  (field.ofKind .attributeList).isEmpty && !(f.modifierTexts field).any excluding.contains

/-! ## Writes -/

mutual

/-- The name that an assigned expression is about: `x`, `this.x`, `x.y.z` and `this.x[0]` are all about `x`. -/
def rootName? (f : SourceFile) : Node → Option String
  | .mk k r a b t cs =>
    match k with
    | .identifier => some (f.text (.mk k r a b t cs))
    | .memberAccessExpression =>
      match cs.find? (·.role == .expression) with
      | none => none
      | some e =>
        if f.text e == "this" then (cs.find? (·.role == .name)).map f.text else rootNameOfReceiver? f cs
    | .elementAccessExpression => rootNameOfReceiver? f cs
    | .parenthesizedExpression => rootNameOfFirst? f cs
    | _ => none

def rootNameOfReceiver? (f : SourceFile) : List Node → Option String
  | [] => none
  | n :: rest => if n.role == .expression then rootName? f n else rootNameOfReceiver? f rest

def rootNameOfFirst? (f : SourceFile) : List Node → Option String
  | [] => none
  | n :: rest => if n.isNamed then rootName? f n else rootNameOfFirst? f rest

end

def steps (text : String) : Bool :=
  let cs := text.toList
  ["++", "--"].any fun s => s.toList.isPrefixOf cs || s.toList.isSuffixOf cs

/-- What a node writes to, when it is an assignment, a step, or an argument passed by reference. -/
def target? (f : SourceFile) (n : Node) : Option Node :=
  match n.kind with
  | .assignmentExpression => (n.child? .left).or n.firstNamed?
  | .prefixUnaryExpression | .postfixUnaryExpression => if steps (f.text n) then n.firstNamed? else none
  | .argument => if n.hasToken "ref" || n.hasToken "out" then n.named.getLast? else none
  | _ => none

/-- Whether the nodes around a node reach a constructor of `type` before a function or the type itself. -/
def inOwnConstructor (type : Node) : List Node → Bool
  | [] => false
  | p :: rest =>
    if p.same type || p.kind.isNestedFunction then false
    else if p.kind == .constructorDeclaration then
      (rest.find? fun o => holders.contains o.kind).any fun o => o.same type
    else inOwnConstructor type rest

/-- Whether the node writes to the field `name` of `type` in a way that `readonly` would forbid. -/
def forbids (f : SourceFile) (type : Node) (name : String) (w : Focus) : Bool :=
  match target? f w.node with
  | none => false
  | some t =>
    rootName? f t == some name && (w.node.kind == .argument || !inOwnConstructor type w.around)

def isWrittenElsewhere (f : SourceFile) (type : Node) (name : String) : Bool :=
  type.foci.any (forbids f type name)

/-! ## Candidates -/

/-- The first name of a field declaration none of whose names is written elsewhere. -/
def candidate? (f : SourceFile) (type field : Node) : Option Node :=
  if isEligible f field then
    let names := ((field.variableDeclaration?).elim [] Node.declarators).filterMap Node.declaratorName?
    if names.any fun n => isWrittenElsewhere f type (f.text n) then none else names.head?
  else none

def inType (f : SourceFile) (type : Node) : List Node :=
  if f.hasModifier type "partial" then []
  else ((type.body?).elim [] (·.ofKind .fieldDeclaration)).filterMap (candidate? f type)

def all (f : SourceFile) : List Node := (f.root.descendantsOf holders).flatMap (inType f)

end Workbench.CSharp.ReadonlyField
