import Workbench.CSharp.Compilation
import Workbench.CSharp.Framework
import Workbench.CSharp.Using

/-!
# Using directives that nothing needs

A directive is reported when an earlier one of the same container imports the
same, or when no name of the file needs it. Imports of namespaces of which
nothing is known are kept.
-/

namespace Workbench.CSharp

structure Occurrence where
  name : String
  «namespace» : String
deriving DecidableEq, Repr

namespace Node

mutual

/-- Identifiers in a node outside using directives and names of namespaces. A query uses `Select`. -/
def occurrences (f : SourceFile) (ns : String) : Node → List Occurrence
  | mk k r a b t cs =>
    match k with
    | .usingDirective => []
    | .identifier => [⟨f.text (mk k r a b t cs), ns⟩]
    | .queryExpression => ⟨"Select", ns⟩ :: occurrencesIn f ns cs
    | .namespaceDeclaration =>
      let name := ((mk k r a b t cs).name?).elim "" f.compact
      occurrencesInside f (if ns = "" then name else ns ++ "." ++ name) cs
    | .fileScopedNamespaceDeclaration => occurrencesInside f ns cs
    | _ => occurrencesIn f ns cs

def occurrencesIn (f : SourceFile) (ns : String) : List Node → List Occurrence
  | [] => []
  | n :: rest => occurrences f ns n ++ occurrencesIn f ns rest

/-- The same without the name of the namespace. -/
def occurrencesInside (f : SourceFile) (ns : String) : List Node → List Occurrence
  | [] => []
  | n :: rest => (if n.role == .name then [] else occurrences f ns n) ++ occurrencesInside f ns rest

end

end Node

/-- The namespace that a directive without a body puts the file into. -/
def fileNamespace (f : SourceFile) : String :=
  ((f.root.children.find? (·.kind == .fileScopedNamespaceDeclaration)).bind Node.name?).elim "" f.compact

def fileOccurrences (f : SourceFile) : List Occurrence := f.root.occurrences f (fileNamespace f)

namespace Using

/-- Whether a name that stands outside the namespace is that of a type in it. -/
def namesTypeOf (c : Compilation) (occs : List Occurrence) (ns : String) : Bool :=
  let types := (c.index.membersOf ns).filter (·.kind.isType)
  occs.any fun o => types.any (·.name == o.name) && !Compilation.isWithin o.namespace ns

/-- Whether a name is that of a member of the type that is imported statically. -/
def namesMemberOf (c : Compilation) (names : List String) (type : String) : Bool :=
  match (c.index.byQualname type).find? (·.kind.isType) with
  | none => true
  | some t => (c.index.membersOf t.qualname).any fun m => names.contains m.name

def namesFramework (names : List String) (ns : String) : Bool :=
  match frameworkNames.lookup ns with
  | none => true
  | some known => known.any names.contains

def isNeeded (c : Compilation) (occs : List Occurrence) (u : Using) : Bool :=
  let names := occs.map (·.name)
  match u.shortName with
  | some a => names.contains a
  | none =>
    if u.isStatic then namesMemberOf c names u.name
    else if c.declaresNamespace u.name then namesTypeOf c occs u.name
    else namesFramework names u.name

/-- A directive and the node that it stands in. -/
structure Placed where
  directive : Using
  container : Option Node

def sameContainer : Option Node → Option Node → Bool
  | some a, some b => a.same b
  | none, none => true
  | _, _ => false

def isRepeated (before : List Placed) (p : Placed) : Bool :=
  before.any fun q => sameContainer q.container p.container && q.directive.sameImport p.directive

def unneededFrom (c : Compilation) (occs : List Occurrence) (before : List Placed) : List Placed → List Using
  | [] => []
  | p :: rest =>
    (if isRepeated before p || !isNeeded c occs p.directive then [p.directive] else []) ++
      unneededFrom c occs (p :: before) rest

/-- Directives of a file that can go. Global ones serve other files and stay. -/
def unneeded (c : Compilation) (f : SourceFile) : List Using :=
  let placed := (f.root.fociOf [.usingDirective]).map fun x => (⟨ofNode f x.node, x.parent?⟩ : Placed)
  unneededFrom c (fileOccurrences f) [] (placed.filter fun p => !p.directive.isGlobal)

end Using

end Workbench.CSharp
