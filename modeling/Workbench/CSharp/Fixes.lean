import Workbench.CSharp.Diagnostics
import Workbench.CodeModel

/-!
# Fixes for C#

Each provider reads the document again and looks for what the diagnostic is
about. Where nothing fits it has no fix.
-/

namespace Workbench.CSharp

section
variable (read : Parser)

def sourceFile (s : Snapshot) (path : String) : Result SourceFile :=
  match s.text? path with
  | none => .error (.invalidInput (.documentNotFound path))
  | some text => .ok (.ofText read path text)

/-- A provider whose fix, if there is one, edits the document of the diagnostic. -/
def fixProvider (typeName : String) (fixable : List String) (title key : String)
    (edits? : SourceFile → Diagnostic → Option (List Edit)) : FixProvider where
  typeName := typeName
  fixable := fixable
  provide s d :=
    (sourceFile read s d.path).map fun f =>
      match edits? f d with
      | none => []
      | some edits => [.single title key d.path edits]

end

def localRemoval? (f : SourceFile) (d : Diagnostic) : Option (List Edit) :=
  ((UnusedLocal.all f).find? fun l => l.nameSpan == d.span && l.diagnosticId == d.id).map (UnusedLocal.removal f)

def removeUnusedVariable (read : Parser) : FixProvider :=
  fixProvider read "RemoveUnusedVariableCodeFixProvider" [UnusedLocal.declaredId, UnusedLocal.assignedId]
    "Remove unused variable" "RemoveUnusedVariable" localRemoval?

def usingRemoval? (f : SourceFile) (d : Diagnostic) : Option (List Edit) :=
  (f.root.covering? d.span [.usingDirective]).map fun n =>
    let (a, b) := Text.removalSpan f.chars n.start n.stop
    [.delete (.ofBounds a b)]

def removeUnnecessaryImports (read : Parser) : FixProvider :=
  fixProvider read "RemoveUnnecessaryImportsCodeFixProvider" [unneededUsingId, "IDE0005"]
    "Remove unnecessary usings" "RemoveUnnecessaryImports" usingRemoval?

def modifiersFill (s : Span) (n : Node) : Bool := Modifier.range? n.modifiers == some s

/-- The modifiers that fill a span. Below a node whose modifiers do, no other is looked for. -/
def modifiersAt (f : SourceFile) (s : Span) : List Node :=
  ((((f.root.walk (fun n => !modifiersFill s n) []).map (·.node)).filter (modifiersFill s)).getLast?).elim []
    Node.modifiers

def modifierSorting? (f : SourceFile) (d : Diagnostic) : Option (List Edit) :=
  let ms := modifiersAt f d.span
  (Modifier.misordered? f ms).map fun _ => [⟨d.span, " ".intercalate (Modifier.sort (ms.map f.text))⟩]

def orderModifiers (read : Parser) : FixProvider :=
  fixProvider read
    "OrderModifiersCodeFixProvider" [modifierOrderId] "Order modifiers" "OrderModifiers" modifierSorting?

def readonlyInsertion? (f : SourceFile) (d : Diagnostic) : Option (List Edit) :=
  match f.root.covering? d.span [.fieldDeclaration] with
  | none => none
  | some field =>
    if f.hasModifier field "readonly" then none
    else (Modifier.readonlyPoint? f field).map fun n => [.insert n "readonly "]

def makeFieldReadonly (read : Parser) : FixProvider :=
  fixProvider read "MakeFieldReadonlyCodeFixProvider" [readonlyFieldId]
    "Add readonly modifier" "MakeFieldReadonly" readonlyInsertion?

end Workbench.CSharp
