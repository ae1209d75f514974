import Workbench.CSharp.Resolution
import Workbench.CSharp.Using
import Workbench.CodeModel

/-!
# References

Where a symbol is used: calls of callables, imports of namespaces, and
identifiers that name a type or resolve to a field or property. Callers and
call sites are the two sides of the list of resolved calls.
-/

namespace Workbench.CSharp

def settleLocations (ls : List Location) : List Location :=
  Ordered.dedupBy (· == ·) (ls.mergeSort fun a b => (Location.compareAll a b).isLE)

def isDeclarationName (x : Focus) : Bool :=
  match x.parent? with
  | none => false
  | some p =>
    (p.kind.isTypeDeclaration || p.kind.isMemberDeclaration ||
      [Kind.variableDeclarator, .parameter, .namespaceDeclaration, .typeParameter].contains p.kind) &&
    p.name?.any fun n => n.same x.node

/-- The created type, for a name that an object initializer assigns to. -/
def initializedType? (x : Focus) : Option Node :=
  match x.around with
  | assignment :: initializer :: creation :: _ =>
    if assignment.kind == .assignmentExpression && (assignment.child? .left).any (·.same x.node) &&
        initializer.kind == .initializerExpression && creation.kind == .objectCreationExpression then
      creation.child? .type
    else none
  | _ => none

namespace Compilation

/-- The receiver of an identifier that is the name of a member access. -/
def accessed? (x : Focus) : Option (Option Node) :=
  match x.parent? with
  | some p =>
    if p.kind == .memberAccessExpression && p.name?.any (·.same x.node) then some (p.child? .expression) else none
  | none => none

def resolveMember (c : Compilation) (f : SourceFile) (x : Focus) (name : String) : Option Symbol :=
  let here := c.chainAt f x.node.start
  match accessed? x with
  | some none => none
  | some (some e) =>
    match c.receiver f (x.ancestor? scopeKinds) e with
    | .implicit => c.memberIn name here
    | .types ts => c.memberIn name (c.index.typeChain ts false)
    | .external | .untyped => none
  | none =>
    match initializedType? x with
    | some type => c.memberIn name (c.index.typeChain (c.typesFor (f.word type)) false)
    | none =>
      match localType f (x.ancestor? scopeKinds) x.node.start name with
      | some _ => none
      | none => c.memberIn name here

/-- Identifiers spelled like the symbol that declare nothing and satisfy `refers`. -/
def identifierReferences (c : Compilation) (s : Symbol) (refers : SourceFile → Focus → String → Bool) :
    List Location :=
  let name := Symbol.stripArity s.name
  c.files.flatMap fun f =>
    ((f.root.fociOf [.identifier]).filter fun x =>
      f.word x.node == name && !isDeclarationName x && refers f x name).map fun x => f.location x.node

def namespaceReferences (c : Compilation) (s : Symbol) : List Location :=
  c.files.flatMap fun f =>
    ((f.root.descendantsOf [.usingDirective]).filter fun n =>
      let u := Using.ofNode f n
      u.shortName.isNone && !u.isStatic && u.name == s.qualname).map f.location

def references (c : Compilation) (calls : List ResolvedCall) (s : Symbol) : List Location :=
  settleLocations <|
    match s.kind with
    | .method | .constructor => (calls.filter (·.callee == s.id)).map (·.location)
    | .namespace => c.namespaceReferences s
    | .field | .property =>
      c.identifierReferences s fun f x name => (c.resolveMember f x name).any (·.id == s.id)
    | _ => c.identifierReferences s fun _ _ name => (c.index.typesNamed name).any (·.id == s.id)

end Compilation

/-! ## Callers and call sites -/

def callerKinds : List SymbolKind := [.method, .constructor, .property, .field]

def compareEnds (x : String) (l : Location) (y : String) (m : Location) : Ordering :=
  (compare x y).then (Location.compareAll l m)

def callers (ix : SymbolIndex) (calls : List ResolvedCall) (s : Symbol) : List CallerRef :=
  let found := (calls.filter (·.callee == s.id)).filterMap fun call =>
    (ix.enclosing call.path call.span.start callerKinds).map fun m => (⟨m.id, call.location⟩ : CallerRef)
  Ordered.dedupBy (· == ·)
    (found.mergeSort fun a b => (compareEnds a.caller a.location b.caller b.location).isLE)

def callSites (calls : List ResolvedCall) (s : Symbol) : List CallSite :=
  let found := (calls.filter fun call =>
    s.declarations.any fun d => d.location.path == call.path && d.extent.contains call.span).map fun call =>
      (⟨call.callee, call.location⟩ : CallSite)
  Ordered.dedupBy (· == ·)
    (found.mergeSort fun a b => (compareEnds a.callee a.location b.callee b.location).isLE)

end Workbench.CSharp
