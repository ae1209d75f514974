import Workbench.Json.Basic
import Workbench.Text.Quoted

/-!
# Faults

Everything that a public operation can report instead of a result. A fault
names its cause; `Fault.message` words it, `Fault.code` is the short name that
clients branch on, and `Fault.data` adds detail where there is any.
-/

namespace Workbench

/-! ## Policy decisions and stale reports, which faults carry -/

inductive Outcome where
  | allow | reviewRequired | block
deriving DecidableEq, Repr

def Outcome.text : Outcome → String
  | .allow => "allow"
  | .reviewRequired => "review_required"
  | .block => "block"

structure Decision where
  outcome : Outcome
  reasonCode : String
  message : String
  profile : String
deriving DecidableEq, Repr

def Decision.isAllowed (d : Decision) : Bool := d.outcome == .allow

def Decision.toJson (d : Decision) : Json :=
  .object [("decision", .str d.outcome.text), ("reason_code", .str d.reasonCode),
    ("message", .str d.message), ("profile", .str d.profile)]

/-- Why a cleanup refused to run on a snapshot that disagrees with the disk. -/
structure StaleReport where
  performed : Bool
  reloadAttempted : Bool
  reloadSucceeded : Bool
  missing : List String
deriving DecidableEq, Repr

def StaleReport.toJson (r : StaleReport) : Json :=
  .object [("health_check_performed", .bool r.performed),
    ("auto_reload_attempted", .bool r.reloadAttempted),
    ("auto_reload_succeeded", .bool r.reloadSucceeded),
    ("missing_file_count", .nat r.missing.length), ("missing_files", .strs r.missing)]

/-! ## Causes -/

inductive BadInput where
  | documentNotFound (path : String)
  | projectNotFound (name : String)
  | pathRequired
  | overlappingEdits (at_ : Nat)
  | editOutside (start stop size : Nat)
  | positionOutside (line column : Nat) (path : String)
  | selectionEndOutside (line column : Nat) (path : String)
  | selectionEndIncomplete
  | selectionReversed
  | notIdentifier (name : String)
  | namespaceRename
  | constructorRename
  | unsupportedProfile (profile expected : String)
  | unknownDirection (text : String)
  | malformedSymbolId (id : String)
  | symbolNotFound (id : String)
  | params (why : String)
deriving DecidableEq, Repr

def BadInput.message : BadInput → String
  | .documentNotFound path => "document not found: " ++ path
  | .projectNotFound name => "project not found: " ++ name
  | .pathRequired => "path is required for document and project scope"
  | .overlappingEdits n => "overlapping edits at byte " ++ toString n
  | .editOutside a b size =>
    "edit range " ++ toString a ++ ".." ++ toString b ++ " outside document of " ++ toString size ++ " bytes"
  | .positionOutside line column path =>
    "position " ++ toString line ++ ":" ++ toString column ++ " is outside " ++ path
  | .selectionEndOutside line column path =>
    "selection end " ++ toString line ++ ":" ++ toString column ++ " is outside " ++ path
  | .selectionEndIncomplete => "end_line and end_column must be given together"
  | .selectionReversed => "selection ends before it starts"
  | .notIdentifier name => "not a valid identifier: " ++ name
  | .namespaceRename => "namespaces cannot be renamed"
  | .constructorRename => "rename the containing type to rename a constructor"
  | .unsupportedProfile profile expected =>
    "unsupported cleanup policy profile '" ++ profile ++ "', expected '" ++ expected ++ "'"
  | .unknownDirection text =>
    "direction must be incoming, outgoing or both (got " ++ Text.quoted text ++ ")"
  | .malformedSymbolId id => "malformed symbol id: " ++ Text.quoted id
  | .symbolNotFound id => "symbol not found: " ++ id
  | .params why => "params: " ++ why

inductive BadRequest where
  | noReload
  | unknownMethod (name : String)
  | unreadable (why : String)
deriving DecidableEq, Repr

def BadRequest.message : BadRequest → String
  | .noReload => "workspace does not support reload"
  | .unknownMethod name => "unknown method: " ++ name
  | .unreadable why => "invalid request: " ++ why

/-- What would be committed turned out to be nothing. -/
inductive EmptyChange where
  | action (title : String)
  | fix (title : String)
deriving DecidableEq, Repr

def EmptyChange.message : EmptyChange → String
  | .action title => "action '" ++ title ++ "' produces no changes"
  | .fix title => "fix '" ++ title ++ "' produces no changes"

/-- Failures of the machine underneath. -/
inductive Breakdown where
  | write (path why : String)
  | reload (root why : String)
  | duplicateProvider (name : String)
deriving DecidableEq, Repr

def Breakdown.message : Breakdown → String
  | .write path why => "write " ++ path ++ ": " ++ why
  | .reload root why => "reload " ++ root ++ ": " ++ why
  | .duplicateProvider name =>
    "provider registry failed to load: duplicate provider type name: " ++ name

inductive Fault where
  | invalidInput (why : BadInput)
  | invalidRequest (why : BadRequest)
  | actionNotFound (token : String)
  | fixNotFound (token : String)
  | workspaceChanged (expected current : Nat)
  | policyBlocked (decision : Decision)
  | fixConflict (why : EmptyChange)
  | staleSnapshot (report : StaleReport)
  | cancelled
  | internal (why : Breakdown)
deriving DecidableEq, Repr

namespace Fault

def code : Fault → String
  | .invalidInput _ => "invalid_input"
  | .invalidRequest _ => "invalid_request"
  | .actionNotFound _ => "action_not_found"
  | .fixNotFound _ => "fix_not_found"
  | .workspaceChanged _ _ => "workspace_changed"
  | .policyBlocked _ => "policy_blocked"
  | .fixConflict _ => "fix_conflict"
  | .staleSnapshot _ => "stale_workspace_snapshot"
  | .cancelled => "cancelled"
  | .internal _ => "internal_error"

def message : Fault → String
  | .invalidInput why => "invalid input: " ++ why.message
  | .invalidRequest why => "invalid request: " ++ why.message
  | .actionNotFound token => "action not found: " ++ token
  | .fixNotFound token => "fix not found: " ++ token
  | .workspaceChanged expected current =>
    "workspace changed: expected version " ++ toString expected ++ ", current version " ++ toString current
  | .policyBlocked d => "policy blocked (" ++ d.reasonCode ++ "): " ++ d.message
  | .fixConflict why => "fix conflict: " ++ why.message
  | .staleSnapshot r =>
    "stale workspace snapshot: " ++ toString r.missing.length ++ " scoped file(s) missing on disk"
  | .cancelled => "operation cancelled"
  | .internal why => "internal error: " ++ why.message

def data : Fault → Option Json
  | .workspaceChanged expected current =>
    some (.object [("expected_version", .nat expected), ("current_version", .nat current)])
  | .policyBlocked d => some d.toJson
  | .staleSnapshot r => some r.toJson
  | _ => none

def toJson (f : Fault) : Json :=
  .object ([("code", .str f.code), ("message", .str f.message)] ++ optField "data" id f.data)

end Fault

abbrev Result (α : Type) := Except Fault α

end Workbench
