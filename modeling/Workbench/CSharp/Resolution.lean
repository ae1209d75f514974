import Workbench.CSharp.Compilation
import Workbench.Symbol.Hierarchy
import Workbench.Text.Numeral

/-!
# Resolution

Names are resolved by syntax. The type of a receiver is read off the
declaration of a local, parameter, field or property, or off the creation that
gives a local its value. A receiver whose type is not apparent resolves only
where a single method of the workspace fits.
-/

namespace Workbench.CSharp

/-- What is known of the thing that a member is looked up in. -/
inductive Receiver where
  /-- The instance that the code belongs to. -/
  | implicit
  | types (ts : List Symbol)
  /-- Something from outside the workspace. -/
  | external
  | untyped

/-! ## Choosing among symbols -/

/-- Type parameters that a qualified name counts behind its last backtick. -/
def arityOf (s : Symbol) : Nat :=
  if s.qualname.toList.contains '`' then
    (Numeral.parse (.ofList (Symbol.afterLast (· == '`') s.qualname.toList))).getD 0
  else 0

/-- Members of the types of a chain with the position of their type, the nearest first. -/
def rankedByChain (candidates chain : List Symbol) : List (Nat × Symbol) :=
  (candidates.filterMap fun m =>
    m.container.bind fun c => (chain.findIdx? fun t => t.qualname == c).map fun i => (i, m)).mergeSort
    fun a b => ((compare a.1 b.1)
      |>.then (compare a.2.qualname b.2.qualname)
      |>.then (compare a.2.id b.2.id)).isLE

/-- Those that take so many arguments, or all of them when none does. -/
def fitting (candidates : List Symbol) (args : Nat) : List Symbol :=
  match candidates.filter fun m => m.parameterCount == some args with
  | [] => candidates
  | ms => ms

def pick (candidates chain : List Symbol) (args : Nat) : Option Symbol :=
  (fitting ((rankedByChain candidates chain).map (·.2)) args).head?

/-! ## Names in scope -/

/-- Nodes that the names of locals and parameters do not leave. -/
def scopeKinds : List Kind :=
  [.methodDeclaration, .constructorDeclaration, .propertyDeclaration, .localFunctionStatement, .globalStatement]

/-- Declared types of what a node declares under `name`; `none` for a type that is not apparent. -/
def declaredTypes (f : SourceFile) (name : String) (n : Node) : List (Option String) :=
  match n.kind with
  | .parameter => if n.name?.any fun x => f.word x == name then [(n.child? .type).map f.word] else []
  | .variableDeclaration =>
    let type := (n.child? .type).elim "var" f.word
    (n.declarators.filter fun d => d.declaratorName?.any fun x => f.word x == name).map fun d =>
      if type == "var" then
        match d.initializer? with
        | some v => if v.kind == .objectCreationExpression then (v.child? .type).map f.word else none
        | none => none
      else some type
  | .foreachStatement =>
    if (n.child? .left).any fun x => f.word x == name then
      [match (n.child? .type).map f.word with
        | some type => if type == "var" then none else some type
        | none => none]
    else []
  | _ => []

/-- The last declaration of a local or parameter before byte `pos`. -/
def localType (f : SourceFile) (scope : Option Node) (pos : Nat) (name : String) : Option (Option String) :=
  match scope with
  | none => none
  | some s => ((s.descendants.filter fun n => n.start ≤ pos).flatMap (declaredTypes f name)).getLast?

namespace Compilation

/-! ## Types -/

/-- Types that a type reference can name; those with the written number of arguments come first. -/
def typesFor (c : Compilation) (raw : String) : List Symbol :=
  let simple := Symbol.simpleTypeName raw
  if simple = "" ∨ simple = "var" then []
  else
    let fits (t : Symbol) : Bool := arityOf t == Symbol.typeArgumentCount raw
    let types := c.index.typesNamed simple
    types.filter fits ++ types.filter fun t => !fits t

def receiverOf (types : List Symbol) : Receiver := if types.isEmpty then .external else .types types

def typeKinds : List SymbolKind := [.class_, .struct, .interface, .record, .enum]

/-- The type around byte `pos`, its bases and the types around it, the nearest first. -/
def chainAt (c : Compilation) (f : SourceFile) (pos : Nat) : List Symbol :=
  match c.index.enclosing f.path pos typeKinds with
  | some t => c.index.typeChain [t] true
  | none => []

def memberIn (c : Compilation) (name : String) (chain : List Symbol) : Option Symbol :=
  ((rankedByChain ((c.index.byName name).filter fun s => s.kind == .field || s.kind == .property) chain).head?).map
    (·.2)

/-- The type of a field or property as it is written where it is declared. -/
def writtenType? (c : Compilation) (member : Symbol) : Option String := do
  let d ← member.declarations.head?
  let f ← c.file? d.location.path
  let n ← f.root.covering? d.extent [.fieldDeclaration, .propertyDeclaration]
  let type ← if n.kind == .fieldDeclaration then n.variableDeclaration?.bind (·.child? .type) else n.child? .type
  return f.word type

def receiverOfMember (c : Compilation) (member : Option Symbol) : Receiver :=
  match member.bind c.writtenType? with
  | some type => receiverOf (c.typesFor type)
  | none => .untyped

/-- A name on its own: a local, else a member of the types around, else a type. -/
def receiverOfName (c : Compilation) (f : SourceFile) (scope : Option Node) (pos : Nat) (name : String) : Receiver :=
  match localType f scope pos name with
  | some (some type) => receiverOf (c.typesFor type)
  | some none => .untyped
  | none =>
    match c.memberIn name (c.chainAt f pos) with
    | some m => c.receiverOfMember (some m)
    | none => receiverOf (c.index.typesNamed name)

def isSelf (text : String) : Bool := text == "this" || text == "base"

mutual

def receiver (c : Compilation) (f : SourceFile) (scope : Option Node) : Node → Receiver
  | .mk k r a b t cs =>
    let n := Node.mk k r a b t cs
    if isSelf (f.word n) then .implicit
    else
      match k with
      | .identifier => c.receiverOfName f scope a (f.word n)
      | .objectCreationExpression =>
        match n.child? .type with
        | some type => receiverOf (c.typesFor (f.word type))
        | none => .untyped
      | .parenthesizedExpression => receiverInside c f scope cs
      | .memberAccessExpression =>
        match n.child? .expression, n.name? with
        | some q, some name =>
          if isSelf (f.word q) then c.receiverOfMember (c.memberIn (f.word name) (c.chainAt f a)) else .untyped
        | _, _ => .untyped
      | .predefinedType => .external
      | _ => .untyped

def receiverInside (c : Compilation) (f : SourceFile) (scope : Option Node) : List Node → Receiver
  | [] => .untyped
  | n :: rest => if n.isNamed then receiver c f scope n else receiverInside c f scope rest

end

/-! ## Calls -/

/-- The name that an invocation calls, and what it is looked up in. -/
def calledName? (function : Node) : Option (Node × Option Node) :=
  match function.kind with
  | .identifier | .genericName => function.simpleName?.map fun n => (n, none)
  | .memberAccessExpression =>
    (function.name?.bind Node.simpleName?).map fun n => (n, function.child? .expression)
  | _ => none

def resolveInvocation (c : Compilation) (f : SourceFile) (x : Focus) : Option (Symbol × Node) := do
  let function ← x.node.child? .function
  let (name, target) ← calledName? function
  let candidates := (c.index.byName (f.word name)).filter (·.kind == .method)
  let args := x.node.argumentCount
  let callee ←
    match target.elim .implicit (c.receiver f (x.ancestor? scopeKinds)) with
    | .implicit => pick candidates (c.chainAt f x.node.start) args
    | .types ts => pick candidates (c.index.typeChain ts false) args
    | .external => none
    | .untyped =>
      match fitting candidates args with
      | [m] => some m
      | _ => none
  return (callee, name)

/-- A creation calls the constructor that takes so many arguments, or else the type itself. -/
def resolveCreation (c : Compilation) (f : SourceFile) (x : Focus) : Option (Symbol × Node) := do
  let written ← x.node.child? .type
  let name ← written.simpleName?
  let type ← (c.typesFor (f.word written)).head?
  let ctor := (c.index.membersOf type.qualname).find? fun m =>
    m.kind == .constructor && m.parameterCount == some x.node.argumentCount
  return (ctor.getD type, name)

def resolve (c : Compilation) (f : SourceFile) (x : Focus) : Option (Symbol × Node) :=
  match x.node.kind with
  | .invocationExpression => c.resolveInvocation f x
  | .objectCreationExpression => c.resolveCreation f x
  | _ => none

end Compilation

structure ResolvedCall where
  callee : String
  path : String
  span : Span
  /-- The name in it. -/
  location : Location
deriving DecidableEq, Repr

def callKinds : List Kind := [.invocationExpression, .objectCreationExpression]

namespace Compilation

def callsIn (c : Compilation) (f : SourceFile) : List ResolvedCall :=
  (f.root.fociOf callKinds).filterMap fun x =>
    (c.resolve f x).map fun (callee, name) => ⟨callee.id, f.path, x.node.span, f.location name⟩

def calls (c : Compilation) : List ResolvedCall := c.files.flatMap c.callsIn

end Compilation

end Workbench.CSharp
