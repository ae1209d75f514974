import Workbench.CSharp.Local
import Workbench.CSharp.Modifier
import Workbench.CSharp.ReadonlyField
import Workbench.CSharp.UnneededUsing
import Workbench.Diagnostic

/-!
# Diagnostics of a C# file

Unused locals, using directives that nothing needs, modifiers out of order and
fields that could be readonly, in order of span and id.
-/

namespace Workbench.CSharp

def unneededUsingId : String := "CS8019"

def modifierOrderId : String := "IDE0036"

def readonlyFieldId : String := "IDE0044"

def localDiagnostic (f : SourceFile) (l : UnusedLocal) : Diagnostic :=
  let fate :=
    if l.diagnosticId = UnusedLocal.declaredId then "' is declared but never used"
    else "' is assigned but its value is never used"
  ⟨l.diagnosticId, "The variable '" ++ l.name ++ fate, .warning, .ofSpan f.path f.chars l.nameSpan⟩

def usingDiagnostic (f : SourceFile) (u : Using) : Diagnostic :=
  ⟨unneededUsingId, "Unnecessary using directive", .hidden, .ofSpan f.path f.chars u.span⟩

def modifierDiagnostic (f : SourceFile) (s : Span) : Diagnostic :=
  ⟨modifierOrderId, "Modifiers are not ordered", .info, .ofSpan f.path f.chars s⟩

def readonlyDiagnostic (f : SourceFile) (name : Node) : Diagnostic :=
  ⟨readonlyFieldId, "Make field '" ++ f.text name ++ "' readonly", .info, f.location name⟩

def diagnostics (c : Compilation) (f : SourceFile) : List Diagnostic :=
  ((UnusedLocal.all f).map (localDiagnostic f) ++
    (Using.unneeded c f).map (usingDiagnostic f) ++
    (Modifier.misorderedRanges f).map (modifierDiagnostic f) ++
    (ReadonlyField.all f).map (readonlyDiagnostic f)).mergeSort Diagnostic.before

end Workbench.CSharp
