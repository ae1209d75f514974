import Workbench.Action.Basic
import Workbench.CodeAction
import Workbench.Diagnostic
import Workbench.Symbol.Index

/-!
# Code models

A code model knows a programming language. `CodeModel.view` is what it knows
of one snapshot; the registry holds the providers of fixes and refactorings.
Everything that works on top of a code model takes any of them.
-/

namespace Workbench

structure FixProvider where
  typeName : String
  /-- Ids of the diagnostics that the provider may have a fix for. -/
  fixable : List String
  provide : Snapshot → Diagnostic → Result (List CodeAction)

structure RefactoringProvider where
  typeName : String
  provide : Snapshot → String → Span → Result (List CodeAction)

structure Registry where
  fixes : List FixProvider
  refactorings : List RefactoringProvider

namespace Registry

/-- The first name that occurs again behind names seen before. -/
def repeated? (seen : List String) : List String → Option String
  | [] => none
  | n :: rest => if seen.contains n then some n else repeated? (n :: seen) rest

/-- A registry of providers with different names, since provider keys tell providers apart by name. -/
def ofProviders (fixes : List FixProvider) (refactorings : List RefactoringProvider) : Result Registry :=
  match repeated? [] (fixes.map (·.typeName) ++ refactorings.map (·.typeName)) with
  | some name => .error (.internal (.duplicateProvider name))
  | none => .ok ⟨fixes, refactorings⟩

def fixProvidersFor (r : Registry) (diagnosticId : String) : List FixProvider :=
  r.fixes.filter fun p => p.fixable.contains diagnosticId

def fixProvider? (r : Registry) (name : String) : Option FixProvider := r.fixes.find? (·.typeName == name)

def refactoringProvider? (r : Registry) (name : String) : Option RefactoringProvider :=
  r.refactorings.find? (·.typeName == name)

end Registry

/-- An action that the model offers by itself, without a provider. -/
structure Builtin where
  kind : BuiltinKind
  diagnosticId : Option String
  span : Span
  /-- Name of the local or type that the action is about. -/
  subject : String
  action : CodeAction
deriving DecidableEq, Repr

structure CallerRef where
  caller : String
  location : Location
deriving DecidableEq, Repr

/-- A call seen from the calling side: the symbol that it names. -/
structure CallSite where
  callee : String
  location : Location
deriving DecidableEq, Repr

structure CodeView where
  /-- Diagnostics of one document, in order of span and id. -/
  diagnostics : String → Result (List Diagnostic)
  symbols : Result SymbolIndex
  builtins : String → Span → Result (List Builtin)
  references : Symbol → Result (List Location)
  implementations : Symbol → Result (List Symbol)
  callers : Symbol → Result (List CallerRef)
  callSites : Symbol → Result (List CallSite)
  rename : Symbol → String → Result Snapshot
  format : String → Result Snapshot
  organizeImports : String → Result Snapshot

structure CodeModel where
  view : Snapshot → CodeView
  registry : Result Registry

end Workbench
