import Workbench.Action.Removal
import Workbench.CallGraph
import Workbench.Cleanup.Run

/-!
# Answers

What the methods of the service give back when they succeed, and how it is
written as JSON.
-/

namespace Workbench.Service

structure Status where
  version : Nat
  root : Option String
  supportsReload : Bool
  projects : List Project
  documentCount : Nat
deriving DecidableEq, Repr

def projectJson (p : Project) : Json :=
  .object ([("name", .str p.name), ("document_count", .nat p.documents.length)] ++
    optField "project_file" .str p.projectFile)

def Status.toJson (s : Status) : Json :=
  .object [("workspace_version", .nat s.version), ("root", .ofOption .str s.root),
    ("project_count", .nat s.projects.length), ("document_count", .nat s.documentCount),
    ("supports_reload", .bool s.supportsReload), ("projects", .arr (s.projects.map projectJson))]

/-- What a rename did. One that changes nothing is not applied. -/
structure Renamed where
  applied : Bool
  symbol : Symbol
  newName : String
  previous : Nat
  version : Nat
  changes : ChangeSet
deriving DecidableEq, Repr

def Renamed.toJson (r : Renamed) : Json :=
  .object [("applied", .bool r.applied), ("symbol", r.symbol.brief), ("new_name", .str r.newName),
    ("previous_version", .nat r.previous), ("workspace_version", .nat r.version),
    ("changed_files", .strs r.changes.paths), ("changes", r.changes.toJson)]

/-- A place that names a symbol, with the text of its line. -/
structure Mention where
  location : Location
  line : Option String
deriving DecidableEq, Repr

def Mention.toJson (m : Mention) : Json :=
  .object [("location", m.location.toJson), ("snippet", .ofOption .str m.line)]

structure NamedCaller where
  caller : CallerRef
  qualname : Option String
deriving DecidableEq, Repr

def NamedCaller.toJson (c : NamedCaller) : Json :=
  .object [("caller", .str c.caller.caller), ("caller_qualname", .ofOption .str c.qualname),
    ("location", c.caller.location.toJson)]

inductive Answer where
  | document (j : Json)
  | status (s : Status)
  | reloaded (version : Nat)
  | catalog (c : ActionCatalog)
  | actionPreview (p : Pipeline.Preview)
  | decision (d : Decision)
  | removals (l : RemovalList)
  | removalPreview (p : Removal.Preview)
  | applied (a : Applied)
  | cleanup (o : Cleanup.Outcome)
  | symbols (version : Nat) (found : List Symbol)
  | symbol (version : Nat) (s : Symbol) (members : List Symbol)
  | references (version : Nat) (s : Symbol) (mentions : List Mention)
  | implementations (version : Nat) (s : Symbol) (found : List Symbol)
  | callers (version : Nat) (s : Symbol) (found : List NamedCaller)
  | graph (g : CallGraph.Graph) (s : Snapshot)
  | renamed (r : Renamed)

namespace Answer

def versionField (v : Nat) : String × Json := ("workspace_version", .nat v)

def briefs (xs : List Symbol) : Json := .arr (xs.map Symbol.brief)

def toJson : Answer → Json
  | .document j => j
  | .status s => s.toJson
  | .reloaded v => .object [versionField v]
  | .catalog c => c.toJson
  | .actionPreview p => p.toJson
  | .decision d => d.toJson
  | .removals l => l.toJson
  | .removalPreview p => p.toJson
  | .applied a => a.toJson
  | .cleanup o => o.toJson
  | .symbols v found => .object [versionField v, ("symbols", briefs found)]
  | .symbol v s members => .object [versionField v, ("symbol", s.toJson), ("members", briefs members)]
  | .references v s mentions =>
    .object [versionField v, ("symbol", s.brief), ("count", .nat mentions.length),
      ("references", .arr (mentions.map Mention.toJson))]
  | .implementations v s found => .object [versionField v, ("symbol", s.brief), ("implementations", briefs found)]
  | .callers v s found =>
    .object [versionField v, ("symbol", s.brief), ("callers", .arr (found.map NamedCaller.toJson))]
  | .graph g s => g.toJson s
  | .renamed r => r.toJson

end Answer

end Workbench.Service
