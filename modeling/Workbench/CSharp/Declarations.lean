import Workbench.CSharp.Source
import Workbench.Symbol.Identity

/-!
# Declarations

`declarations` lists what a file declares, in source order: namespaces, types,
and the methods, constructors, properties and fields of types. Functions
inside other code are no members and are left out.
-/

namespace Workbench.CSharp

/-- The namespaces and types around a declaration, the outermost first. -/
structure Enclosure where
  namespaces : List String := []
  types : List String := []

namespace Enclosure

def container? (e : Enclosure) : Option String :=
  match e.namespaces ++ e.types with
  | [] => none
  | names => some (".".intercalate names)

def qualify (e : Enclosure) (name : String) : String :=
  match e.container? with
  | none => name
  | some c => c ++ "." ++ name

end Enclosure

/-! ## Parts of a declaration -/

def dotColons : List Char → List Char
  | [] => []
  | ':' :: ':' :: r => '.' :: dotColons r
  | c :: r => c :: dotColons r

def namespaceParts (name : String) : List String :=
  (splitOnChar '.' (.ofList (dotColons name.toList))).filterMap fun p => if trim p = "" then none else some (trim p)

def arity (n : Node) : Nat :=
  ((n.children.find? (·.kind == .typeParameterList)).elim [] (·.ofKind .typeParameter)).length

/-- The type of a parameter with the modifiers that callers see. -/
def parameterType (f : SourceFile) (p : Node) : String :=
  let type := (p.child? .type).elim "" f.word
  " ".intercalate ((f.modifierTexts p).filter (· != "this") ++ [type])

/-- Parameters that stand for one argument each; a parameter array is not among them. -/
def parameters (n : Node) : List Node := (n.child? .parameters).elim [] (·.ofKind .parameter)

def signature (f : SourceFile) (n : Node) : String :=
  Symbol.normalizeSignature ((parameters n).map (parameterType f))

/-- What one element of a base list names. Arguments to the base name nothing. -/
def baseName? (f : SourceFile) (b : Node) : Option String :=
  match b.kind with
  | .argumentList => none
  | .primaryConstructorBaseType => some (f.word ((b.child? .type).getD b))
  | _ => some (f.word b)

def baseNames (f : SourceFile) (n : Node) : List String :=
  (((n.ofKind .baseList).flatMap Node.named).filterMap (baseName? f)).filter (· != "")

def typeKind? : Kind → Option SymbolKind
  | .classDeclaration => some .class_
  | .structDeclaration => some .struct
  | .interfaceDeclaration => some .interface
  | .recordDeclaration => some .record
  | .enumDeclaration => some .enum
  | _ => none

/-- The node that names a declaration, with the name; `none` when there is nothing in it. -/
def nameOf? (f : SourceFile) (name : Option Node) : Option (Node × String) :=
  name.bind fun n => if f.word n = "" then none else some (n, f.word n)

/-! ## One declaration -/

def declareNamespace (f : SourceFile) (e : Enclosure) (n name : Node) (parts : List String) : List Declared :=
  match parts.getLast? with
  | some last =>
    [{ kind := .namespace, name := last, qualname := ".".intercalate parts, signature := none
       container := { e with types := [] : Enclosure }.container?
       parameterCount := none, bases := [], modifiers := []
       location := f.location name, extent := n.span }]
  | none => []

def declareType (f : SourceFile) (e : Enclosure) (kind : SymbolKind) (n at_ : Node) (name : String) : Declared :=
  { kind := kind, name := name, qualname := e.qualify (Symbol.genericName name (arity n)), signature := none
    container := e.container?, parameterCount := none
    bases := if kind == .enum then [] else baseNames f n
    modifiers := f.modifierTexts n, location := f.location at_, extent := n.span }

/-- A member whose own name ends in `last` when it is qualified. -/
def declareMember (f : SourceFile) (e : Enclosure) (kind : SymbolKind) (n at_ : Node) (name last : String)
    (callable : Bool) : Declared :=
  { kind := kind, name := name, qualname := e.qualify last
    signature := if callable then some (signature f n) else none
    container := e.container?
    parameterCount := if callable then some (parameters n).length else none
    bases := [], modifiers := f.modifierTexts n, location := f.location at_, extent := n.span }

def declareMethod (f : SourceFile) (e : Enclosure) (n : Node) : List Declared :=
  match nameOf? f n.name? with
  | some (at_, name) => [declareMember f e .method n at_ name (Symbol.genericName name (arity n)) true]
  | none => []

/-- A constructor has the name of its type, whatever is written. -/
def declareConstructor (f : SourceFile) (e : Enclosure) (n : Node) : List Declared :=
  match n.name?, e.types.getLast? with
  | some name, some type => [declareMember f e .constructor n name type ".ctor" true]
  | _, _ => []

def declareProperty (f : SourceFile) (e : Enclosure) (n : Node) : List Declared :=
  match nameOf? f n.name? with
  | some (at_, name) => [declareMember f e .property n at_ name name false]
  | none => []

def declareFields (f : SourceFile) (e : Enclosure) (n : Node) : List Declared :=
  (((n.variableDeclaration?).elim [] Node.declarators).filterMap fun d => nameOf? f d.declaratorName?).map
    fun (at_, name) => declareMember f e .field n at_ name name false

/-! ## All declarations -/

namespace Node

/-- Which of the children of a type is its body. -/
def isTypeBody (cs : List Node) (n : Node) : Bool :=
  if cs.any (·.role == .body) then n.role == .body else n.kind == .declarationList

mutual

def declared (f : SourceFile) (e : Enclosure) : Node → List Declared
  | mk k r a b t cs =>
    let n := mk k r a b t cs
    match k with
    | .token | .localFunctionStatement | .anonymousMethodExpression | .lambdaExpression | .globalStatement
    | .block => []
    | .namespaceDeclaration =>
      match nameOf? f n.name? with
      | some (at_, name) =>
        if (namespaceParts name).isEmpty then []
        else
          let parts := e.namespaces ++ namespaceParts name
          declareNamespace f e n at_ parts ++ declaredIn f { e with namespaces := parts } (·.role == .body) cs
      | none => []
    | .methodDeclaration => declareMethod f e n
    | .constructorDeclaration => declareConstructor f e n
    | .propertyDeclaration => declareProperty f e n
    | .fieldDeclaration => declareFields f e n
    | _ =>
      match typeKind? k, nameOf? f n.name? with
      | some kind, some (at_, name) =>
        declareType f e kind n at_ name ::
          declaredIn f { e with types := e.types ++ [Symbol.genericName name (arity n)] } (isTypeBody cs) cs
      | some _, none => []
      | none, _ => declaredAll f e cs

def declaredAll (f : SourceFile) (e : Enclosure) : List Node → List Declared
  | [] => []
  | n :: rest => declared f e n ++ declaredAll f e rest

/-- Declarations in the first child that is the body of a declaration. -/
def declaredIn (f : SourceFile) (e : Enclosure) (isBody : Node → Bool) : List Node → List Declared
  | [] => []
  | mk k r a b t cs :: rest =>
    if isBody (mk k r a b t cs) then if k == .token then [] else declaredAll f e cs
    else declaredIn f e isBody rest

end

end Node

/-- Declarations at the top of a file. A namespace without a body holds all that follows it. -/
def declaredTop (f : SourceFile) (e : Enclosure) : List Node → List Declared
  | [] => []
  | n :: rest =>
    if n.kind == .fileScopedNamespaceDeclaration then
      match nameOf? f n.name? with
      | some (at_, name) =>
        let parts := namespaceParts name
        let inside : Enclosure := { e with namespaces := parts }
        declareNamespace f {} n at_ parts ++ Node.declaredAll f inside n.children ++ declaredTop f inside rest
      | none => Node.declaredAll f e n.children ++ declaredTop f e rest
    else n.declared f e ++ declaredTop f e rest

def declarations (f : SourceFile) : List Declared := declaredTop f {} f.root.children

end Workbench.CSharp
