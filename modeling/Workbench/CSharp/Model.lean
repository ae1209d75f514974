import Workbench.CSharp.Layout
import Workbench.CSharp.Refactorings
import Workbench.CSharp.Rename

/-!
# The C# code model

A view of a snapshot reads all of its documents once. The calls are resolved
when something first asks for them. The parser is given from outside.
-/

namespace Workbench.CSharp

def formatDocument (c : Compilation) (s : Snapshot) (path : String) : Result Snapshot :=
  match c.file path with
  | .error e => .error e
  | .ok f => s.withText path (.ofList (Layout.formatChars f.chars (Layout.literalRanges f)))

def organizeDocument (c : Compilation) (s : Snapshot) (path : String) : Result Snapshot :=
  match c.file path with
  | .error e => .error e
  | .ok f => s.withEdits path (organizeEdits f)

def renameSymbol (c : Compilation) (calls : List ResolvedCall) (s : Snapshot) (symbol : Symbol) (newName : String) :
    Result Snapshot :=
  match c.rename calls symbol newName with
  | .error why => .error (.invalidInput why)
  | .ok edits => CodeAction.applyEdits s edits

def viewOf (c : Compilation) (calls : Thunk (List ResolvedCall)) (s : Snapshot) : CodeView where
  diagnostics path := (c.file path).map (diagnostics c)
  symbols := .ok c.index
  builtins path span := (c.file path).map (builtins · span)
  references symbol := .ok (c.references calls.get symbol)
  implementations symbol := .ok (c.index.implementations symbol)
  callers symbol := .ok (callers c.index calls.get symbol)
  callSites symbol := .ok (callSites calls.get symbol)
  rename symbol newName := renameSymbol c calls.get s symbol newName
  format := formatDocument c s
  organizeImports := organizeDocument c s

section
variable (read : Parser)

def view (s : Snapshot) : CodeView :=
  let c := Compilation.ofSnapshot read s
  viewOf c (Thunk.mk fun _ => c.calls) s

def registry : Result Registry :=
  Registry.ofProviders
    [removeUnusedVariable read, removeUnnecessaryImports read, orderModifiers read, makeFieldReadonly read]
    [useExplicitType read, addBraces read]

def model : CodeModel := ⟨view read, registry read⟩

end

end Workbench.CSharp
