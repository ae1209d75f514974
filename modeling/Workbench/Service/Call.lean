import Workbench.Arguments.Fit
import Workbench.Fault
import Workbench.Action.Catalog
import Workbench.Service.Method

/-!
# Calls

A call is a method together with the arguments that it looks at. Reading one
from a method name and a JSON value checks the name first and the arguments
after that; `null` stands for no arguments at all.
-/

namespace Workbench.Service

structure RenameRequest where
  symbolId : String
  newName : String
  expectedVersion : Option Nat
deriving DecidableEq, Repr

structure SymbolSearch where
  query : String
  kind : Option SymbolKind
  limit : Option Nat
deriving DecidableEq, Repr

inductive Call where
  | help
  | listMethods (format : Option String)
  | workspaceStatus
  | reloadWorkspace
  | discoverActions (query : ActionQuery)
  | previewAction (token : String)
  | applyAction (token : String)
  | evaluatePolicy (token : String)
  | listFixes (path : String) (diagnosticId : Option String)
  | previewFix (token : String)
  | applyFix (token : String)
  | cleanup (request : Cleanup.Request)
  | findSymbol (search : SymbolSearch)
  | symbolInfo (symbolId : String)
  | findReferences (symbolId : String)
  | findImplementations (symbolId : String)
  | findCallers (symbolId : String)
  | callGraph (request : CallGraph.Request)
  | renameSymbol (request : RenameRequest)
deriving DecidableEq, Repr

namespace Call

/-! ## From arguments -/

def actionQuery (a : Arguments) : ActionQuery where
  path := a.text "path"
  line := a.nat "line"
  column := a.nat "column"
  endLine := a.nat? "end_line"
  endColumn := a.nat? "end_column"
  profile := a.text? "profile"

def cleanupRequest (a : Arguments) : Cleanup.Request where
  scope := (CleanupScope.all.find? (·.text == a.text "scope")).getD .document
  path := a.text? "path"
  profile := a.text "profile"
  expectedVersion := a.nat? "expected_version"

def graphRequest (a : Arguments) : CallGraph.Request := ⟨a.text "symbol_id", a.text "direction", a.nat? "max_depth"⟩

def renameRequest (a : Arguments) : RenameRequest :=
  ⟨a.text "symbol_id", a.text "new_name", a.nat? "expected_version"⟩

def symbolSearch (a : Arguments) : SymbolSearch :=
  ⟨a.text "query", (a.text? "kind").bind SymbolKind.ofText?, a.nat? "limit"⟩

def ofArguments (m : Method) (a : Arguments) : Call :=
  match m with
  | .help => .help
  | .listMethods => .listMethods (a.text? "format")
  | .workspaceStatus => .workspaceStatus
  | .reloadWorkspace => .reloadWorkspace
  | .discoverActions => .discoverActions (actionQuery a)
  | .previewAction => .previewAction (a.text "token")
  | .applyAction => .applyAction (a.text "token")
  | .evaluatePolicy => .evaluatePolicy (a.text "token")
  | .listFixes => .listFixes (a.text "path") (a.text? "diagnostic_id")
  | .previewFix => .previewFix (a.text "token")
  | .applyFix => .applyFix (a.text "token")
  | .cleanup => .cleanup (cleanupRequest a)
  | .findSymbol => .findSymbol (symbolSearch a)
  | .symbolInfo => .symbolInfo (a.text "symbol_id")
  | .findReferences => .findReferences (a.text "symbol_id")
  | .findImplementations => .findImplementations (a.text "symbol_id")
  | .findCallers => .findCallers (a.text "symbol_id")
  | .callGraph => .callGraph (graphRequest a)
  | .renameSymbol => .renameSymbol (renameRequest a)

/-! ## From JSON -/

def orEmpty : Json → Json
  | .null => .obj []
  | j => j

def argumentsOf (m : Method) (params : Json) : Result Arguments :=
  match m.shape? with
  | none => .ok ⟨[]⟩
  | some shape =>
    match Arguments.fit shape (orEmpty params) with
    | .ok a => .ok a
    | .error e => .error (.invalidInput (.params e.message))

def read (method : String) (params : Json) : Result Call :=
  match Method.ofName? method with
  | none => .error (.invalidRequest (.unknownMethod method))
  | some m => (argumentsOf m params).map (ofArguments m)

end Call

end Workbench.Service
