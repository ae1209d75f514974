import Workbench.Action.Basic
import Workbench.Action.Policy
import Workbench.Arguments.Shape
import Workbench.CallGraph
import Workbench.Cleanup.Run

/-!
# Methods

The methods of the service with what their documentation says of them: a
summary, the parameters by name, and the shape of the arguments where a method
looks at any. `Method.help` and `Method.listing` are the documents that clients
can ask for.
-/

namespace Workbench.Service

open Arguments

inductive Method where
  | help | listMethods | workspaceStatus | reloadWorkspace
  | discoverActions | previewAction | applyAction | evaluatePolicy | listFixes | previewFix | applyFix | cleanup
  | findSymbol | symbolInfo | findReferences | findImplementations | findCallers | callGraph | renameSymbol
deriving DecidableEq, Repr

namespace Method

def all : List Method :=
  [.help, .listMethods, .workspaceStatus, .reloadWorkspace, .discoverActions, .previewAction, .applyAction,
    .evaluatePolicy, .listFixes, .previewFix, .applyFix, .cleanup, .findSymbol, .symbolInfo, .findReferences,
    .findImplementations, .findCallers, .callGraph, .renameSymbol]

def name : Method → String
  | .help => "help"
  | .listMethods => "list_methods"
  | .workspaceStatus => "workspace_status"
  | .reloadWorkspace => "reload_workspace"
  | .discoverActions => "discover_actions"
  | .previewAction => "preview_action"
  | .applyAction => "apply_action"
  | .evaluatePolicy => "evaluate_policy"
  | .listFixes => "list_fixes"
  | .previewFix => "preview_fix"
  | .applyFix => "apply_fix"
  | .cleanup => "cleanup"
  | .findSymbol => "find_symbol"
  | .symbolInfo => "symbol_info"
  | .findReferences => "find_references"
  | .findImplementations => "find_implementations"
  | .findCallers => "find_callers"
  | .callGraph => "call_graph"
  | .renameSymbol => "rename_symbol"

def ofName? (s : String) : Option Method := all.find? fun m => m.name == s

def names : List String := all.map name

/-! ## Shapes of arguments -/

def listShape : Shape where
  title := "ListMethodsParams"
  fields := [{ name := "format", slot := .text, optional := true
               description := some (ticked "details" ++ " (default) or " ++ ticked "names" ++ ".") }]

def tokenShape : Shape := ⟨"TokenParams", [{ name := "token", slot := .text }], none⟩

def fixesShape : Shape where
  title := "ListFixesParams"
  fields := [{ name := "path", slot := .text }, { name := "diagnostic_id", slot := .text, optional := true }]

def findShape : Shape where
  title := "FindSymbolParams"
  fields := [{ name := "query", aliases := ["name"], slot := .text },
    { name := "kind", slot := .choice (SymbolKind.all.map (·.text)), optional := true },
    { name := "limit", slot := .size, optional := true }]

def symbolField : Field := { name := "symbol_id", aliases := ["id"], slot := .text }

def symbolShape : Shape := ⟨"SymbolParams", [symbolField], none⟩

def renameShape : Shape where
  title := "RenameParams"
  fields := [symbolField, { name := "new_name", slot := .text },
    { name := "expected_version", slot := .word, optional := true }]

def queryShape : Shape where
  title := "ActionQuery"
  description := some "Cursor position (1-based) plus an optional selection end."
  fields := [{ name := "path", slot := .text }, { name := "line", slot := .size }, { name := "column", slot := .size },
    { name := "end_line", slot := .size, optional := true, default := some .null },
    { name := "end_column", slot := .size, optional := true, default := some .null },
    { name := "profile", slot := .text, optional := true, default := some .null }]

def cleanupShape : Shape where
  title := "CleanupRequest"
  fields := [{ name := "scope", slot := .choice (CleanupScope.all.map (·.text)) },
    { name := "path", slot := .text, optional := true, default := some .null
      description := some ("Document path, or project name/file/directory. Ignored for " ++
        ticked "solution" ++ ".") },
    { name := "profile", slot := .text, default := some (.str Policy.cleanupProfile) },
    { name := "expected_version", slot := .word, optional := true, default := some .null }]

def graphShape : Shape where
  title := "CallGraphRequest"
  fields := [{ name := "symbol_id", slot := .text },
    { name := "direction", slot := .text, default := some (.str Direction.both.text) },
    { name := "max_depth", slot := .size, optional := true, default := some .null
      description := some ("Clamped to " ++ ticked "1..=max" ++ ", where max defaults to 4.") }]

def shape? : Method → Option Shape
  | .help | .workspaceStatus | .reloadWorkspace => none
  | .listMethods => some listShape
  | .discoverActions => some queryShape
  | .previewAction | .applyAction | .evaluatePolicy | .previewFix | .applyFix => some tokenShape
  | .listFixes => some fixesShape
  | .cleanup => some cleanupShape
  | .findSymbol => some findShape
  | .symbolInfo | .findReferences | .findImplementations | .findCallers => some symbolShape
  | .callGraph => some graphShape
  | .renameSymbol => some renameShape

/-! ## Documentation -/

def summary : Method → String
  | .help => "Show RPC help and examples."
  | .listMethods => "List supported methods with parameter schemas."
  | .workspaceStatus => "Current workspace version, projects and document counts."
  | .reloadWorkspace => "Reload every document from disk; bumps the workspace version."
  | .discoverActions =>
    "Fixes, refactorings and built-in actions at a position, each with a version-bound token."
  | .previewAction => "Change-set an action token would produce. Never writes."
  | .applyAction => "Apply an action token if policy allows it. Single use."
  | .evaluatePolicy => "Fresh policy decision for an action token."
  | .listFixes => "Unused-local fixes in a document, as fix tokens."
  | .previewFix => "Change-set a fix token would produce."
  | .applyFix => "Apply a fix token. Single use."
  | .cleanup => "Run the ordered cleanup rules over a document, project or the whole workspace."
  | .findSymbol => "Search declared symbols by name or qualified name."
  | .symbolInfo => "Full symbol record, with members for types."
  | .findReferences => "Source locations referring to a symbol."
  | .findImplementations => "Derived types, or overriding/implementing members."
  | .findCallers => "Call sites of a symbol with their enclosing member."
  | .callGraph => "Bounded breadth-first call graph around a symbol."
  | .renameSymbol => "Rename a symbol and every reference to it."

def keyParams : Method → List String
  | .help | .workspaceStatus | .reloadWorkspace => []
  | .listMethods => ["format (details|names)"]
  | .discoverActions => ["path", "line", "column", "end_line", "end_column", "profile"]
  | .previewAction | .applyAction | .evaluatePolicy | .previewFix | .applyFix => ["token"]
  | .listFixes => ["path", "diagnostic_id"]
  | .cleanup => ["scope (document|project|solution)", "path", "profile", "expected_version"]
  | .findSymbol => ["query", "kind", "limit"]
  | .symbolInfo | .findReferences | .findImplementations | .findCallers => ["symbol_id"]
  | .callGraph => ["symbol_id", "direction (incoming|outgoing|both)", "max_depth"]
  | .renameSymbol => ["symbol_id", "new_name", "expected_version"]

def schema (m : Method) : Json := (m.shape?.map Shape.schema).getD openSchema

def entry (m : Method) : Json :=
  .object ([("name", .str m.name), ("summary", .str m.summary), ("params_schema", m.schema)] ++
    if m.keyParams.isEmpty then [] else [("key_params", .strs m.keyParams)])

def listing (namesOnly : Bool) : Json :=
  if namesOnly then .strs names else .object [("methods", .arr (all.map entry)), ("names", .strs names)]

def example_ (m : Method) (params : List (String × Json)) : Json :=
  .object [("method", .str m.name), ("params", .object params)]

def faultHelp : Json :=
  .object [("invalid_input", .str "bad parameters; fix and retry"),
    ("action_not_found", .str "token undecodable or its action is gone; discover again"),
    ("fix_not_found", .str "fix token undecodable or its fix is gone; list fixes again"),
    ("workspace_changed", .str "token or expected_version is stale; discover again"),
    ("policy_blocked", .str "policy did not allow the action; do not retry the same token"),
    ("fix_conflict", .str "the action would change nothing"),
    ("stale_workspace_snapshot", .str "scoped files are missing on disk and reload did not help"),
    ("cancelled", .str "operation was cancelled; nothing was written")]

def valueHelp : Json :=
  .object [("scope (cleanup)", .strs (CleanupScope.all.map (·.text))),
    ("direction (call_graph)", .strs ([.incoming, .outgoing, .both].map Direction.text)),
    ("profile (discover_actions)", .strs [Action.defaultProfile]),
    ("profile (cleanup)", .strs [Policy.cleanupProfile])]

def examples : Json :=
  .arr [example_ .discoverActions [("path", .str "src/App/Service.cs"), ("line", .nat 12), ("column", .nat 13)],
    example_ .previewAction [("token", .str "v1|...")],
    example_ .cleanup [("scope", .str "project"), ("path", .str "App"), ("expected_version", .nat 3)],
    example_ .findSymbol [("query", .str "OrderService"), ("kind", .str "class")],
    example_ .callGraph [("symbol_id", .str "sym_0123456789abcdef"), ("direction", .str "outgoing"),
      ("max_depth", .nat 2)]]

def commandExamples : Json :=
  .strs ["codeact request --root . --method workspace_status",
    "codeact request --root . --method find_symbol --params '\x7b\"query\":\"Service\"\x7d'",
    "codeact serve --root .", "codeact mcp-serve --root ."]

def helpText : Json :=
  .object [
    ("summary", .str ("codeact serves code actions, cleanup and navigation for a C# workspace over JSONL RPC " ++
      "on stdin/stdout.")),
    ("start_here", .str ("Call discover_actions at a cursor position, preview_action the token you want, then " ++
      "apply_action it. Tokens are bound to the workspace version they were discovered at; after any change, " ++
      "discover again.")),
    ("errors", faultHelp), ("enum_values", valueHelp), ("methods", .strs names), ("examples", examples),
    ("cli_examples", commandExamples)]

end Method

end Workbench.Service
