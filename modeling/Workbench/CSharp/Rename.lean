import Workbench.CSharp.Reference
import Workbench.Text.Letter

/-!
# Renaming

A rename replaces the names of the declarations of a symbol and all its
references; the constructors of a type are renamed with it.
-/

namespace Workbench.CSharp

def checkRename (s : Symbol) (newName : String) : Except BadInput Unit :=
  if !Text.isIdentifier newName.toList then .error (.notIdentifier newName)
  else
    match s.kind with
    | .namespace => .error .namespaceRename
    | .constructor => .error .constructorRename
    | _ => .ok ()

def declaredLocations (s : Symbol) : List Location := s.declarations.map (·.location)

namespace Compilation

def nameLocations (c : Compilation) (calls : List ResolvedCall) (s : Symbol) : List Location :=
  let constructors :=
    if s.kind.isType then (c.index.membersOf s.qualname).filter (·.kind == .constructor) else []
  declaredLocations s ++ c.references calls s ++ constructors.flatMap declaredLocations

end Compilation

/-- The spans of one document among some places, in order and each once. -/
def spansIn (path : String) (ls : List Location) : List Span :=
  Ordered.dedupBy (· == ·)
    (((ls.filter (·.path == path)).map (·.span)).mergeSort fun a b =>
      ((compare a.start b.start).then (compare a.length b.length)).isLE)

/-- For each document with places in it, the edits that write the new name there. -/
def renameEdits (ls : List Location) (newName : String) : List DocumentEdit :=
  (Ordered.ofList (ls.map (·.path))).map fun path => ⟨path, (spansIn path ls).map fun s => ⟨s, newName⟩⟩

namespace Compilation

def rename (c : Compilation) (calls : List ResolvedCall) (s : Symbol) (newName : String) :
    Except BadInput (List DocumentEdit) :=
  match checkRename s newName with
  | .error why => .error why
  | .ok _ => .ok (renameEdits (c.nameLocations calls s) newName)

end Compilation

end Workbench.CSharp
