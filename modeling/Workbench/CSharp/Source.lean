import Workbench.CSharp.Node
import Workbench.Symbol.Basic
import Workbench.Text.Blank

/-!
# Source files

A source file is a text with its syntax tree. The text of a node is cut out of
the text of the file, so it has the blanks and comments that lie between the
first and the last token of the node.
-/

namespace Workbench.CSharp

structure SourceFile where
  path : String
  chars : List Char
  root : Node

namespace SourceFile

def ofText (read : Parser) (path text : String) : SourceFile := ⟨path, text.toList, read text⟩

def text (f : SourceFile) (n : Node) : String := n.textIn f.chars

/-- The text of a node without the blanks at its two ends. -/
def word (f : SourceFile) (n : Node) : String := trim (f.text n)

def location (f : SourceFile) (n : Node) : Location := .ofSpan f.path f.chars n.span

def modifierTexts (f : SourceFile) (n : Node) : List String := n.modifiers.map f.word

def hasModifier (f : SourceFile) (n : Node) (m : String) : Bool := (f.modifierTexts n).contains m

def compact (f : SourceFile) (n : Node) : String :=
  .ofList ((f.text n).toList.filter fun c => !Text.isBlank c)

end SourceFile

/-- The identifier of a simple, generic or qualified name. A qualified name is a dotted or aliased one, and
its last part counts. -/
def Node.simpleName? : Node → Option Node
  | .mk .identifier r a b t cs => some (.mk .identifier r a b t cs)
  | .mk .genericName _ _ _ _ cs => cs.find? (·.kind == .identifier)
  | .mk .qualifiedName _ _ _ _ cs | .mk .aliasQualifiedName _ _ _ _ cs => last cs
  | _ => none
where
  /-- In the last part of a qualified name. -/
  last : List Node → Option Node
    | [] => none
    | n :: rest => if n.role == .name then simpleName? n else last rest

end Workbench.CSharp
