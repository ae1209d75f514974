import Workbench.Span

/-!
# Actions

An action is one candidate change, as a catalog lists it: what it is called,
which rule offers it, and where it applies.
-/

namespace Workbench

/-- Where an action comes from. -/
inductive Origin where
  | compilerFix
  | refactoring
  /-- A rule on the syntax alone. -/
  | builtin
deriving DecidableEq, Repr

def Origin.text : Origin → String
  | .compilerFix => "compiler-fix"
  | .refactoring => "refactoring"
  | .builtin => "builtin"

def Origin.ofText? (s : String) : Option Origin :=
  if s = "compiler-fix" then some .compilerFix
  else if s = "refactoring" then some .refactoring
  else if s = "builtin" then some .builtin
  else none

inductive BuiltinKind where
  | removeUnusedLocal | useInferredType
deriving DecidableEq, Repr

def BuiltinKind.text : BuiltinKind → String
  | .removeUnusedLocal => "remove-unused-local"
  | .useInferredType => "use-inferred-type"

def BuiltinKind.ofText? (s : String) : Option BuiltinKind :=
  if s = "remove-unused-local" then some .removeUnusedLocal
  else if s = "use-inferred-type" then some .useInferredType
  else none

structure Action where
  title : String
  category : String
  origin : Origin
  providerKey : String
  filePath : String
  span : Span
  diagnosticId : Option String
  refactoringId : Option String
  line : Nat
  column : Nat
deriving DecidableEq, Repr

namespace Action

def compilerCategory : String := "compiler"
def styleCategory : String := "style"
def refactorCategory : String := "refactor"

def defaultProfile : String := "default"

def categoryOf (diagnosticId : String) : String :=
  if "CS".toList.isPrefixOf diagnosticId.toList then compilerCategory else styleCategory

def fields (a : Action) : List (String × Json) :=
  [("title", .str a.title), ("category", .str a.category), ("origin", .str a.origin.text),
    ("provider_key", .str a.providerKey), ("file_path", .str a.filePath)] ++ a.span.fields ++
  optField "diagnostic_id" .str a.diagnosticId ++ optField "refactoring_id" .str a.refactoringId ++
  [("line", .nat a.line), ("column", .nat a.column)]

def toJson (a : Action) : Json := .object a.fields

/-- Order of a catalog: file, span, title, category, provider key. -/
def compareKey (a b : Action) : Ordering :=
  (compare a.filePath b.filePath)
    |>.then (compare a.span.start b.span.start)
    |>.then (compare a.span.length b.span.length)
    |>.then (compare a.title b.title)
    |>.then (compare a.category b.category)
    |>.then (compare a.providerKey b.providerKey)

end Action

end Workbench
