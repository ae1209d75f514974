import Workbench.CSharp.Declarations
import Workbench.Snapshot
import Workbench.Symbol.Index

/-!
# Compilations

A compilation is a snapshot whose documents have all been read: the source
files in path order and the index of what they declare.
-/

namespace Workbench.CSharp

structure Compilation where
  files : List SourceFile
  index : SymbolIndex

namespace Compilation

def ofFiles (files : List SourceFile) : Compilation := ⟨files, .build (files.flatMap declarations)⟩

def ofSnapshot (read : Parser) (s : Snapshot) : Compilation :=
  ofFiles (s.documents.map fun d => .ofText read d.path d.text)

def file? (c : Compilation) (path : String) : Option SourceFile := c.files.find? (·.path == path)

def file (c : Compilation) (path : String) : Result SourceFile :=
  match c.file? path with
  | some f => .ok f
  | none => .error (.invalidInput (.documentNotFound path))

def isWithin (inner outer : String) : Bool :=
  inner == outer || (outer ++ ".").toList.isPrefixOf inner.toList

/-- Whether a name is that of a declared namespace or of one around it. -/
def declaresNamespace (c : Compilation) (name : String) : Bool :=
  c.index.symbols.any fun s => s.kind == .namespace && isWithin s.qualname name

end Compilation

end Workbench.CSharp
