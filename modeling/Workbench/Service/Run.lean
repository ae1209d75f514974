import Workbench.Service.Answer
import Workbench.Service.Call

/-!
# Running calls

Each call is run over any host and any code model. Only four of them can
change the workspace: applying an action, applying the removal of a local,
cleaning up and renaming.
-/

namespace Workbench.Service

/-! ## Symbols -/

def symbolNamed (ix : SymbolIndex) (raw : String) : Result Symbol :=
  let id := trim raw
  if !Symbol.isWellFormedId id then .error (.invalidInput (.malformedSymbolId id))
  else
    match ix.resolve id with
    | some s => .ok s
    | none => .error (.invalidInput (.symbolNotFound id))

def defaultSearchLimit : Nat := 20

def maxSearchLimit : Nat := 200

/-- How many symbols a search gives: at least one, and not more than the limit. -/
def searchLimit (requested : Option Nat) : Nat :=
  min (max (requested.getD defaultSearchLimit) 1) maxSearchLimit

def search (m : CodeModel) (s : Snapshot) (version : Nat) (q : SymbolSearch) : Result Answer := do
  let ix ← (m.view s).symbols
  return .symbols version (ix.search q.query q.kind (searchLimit q.limit))

def describeSymbol (m : CodeModel) (s : Snapshot) (version : Nat) (id : String) : Result Answer := do
  let ix ← (m.view s).symbols
  let symbol ← symbolNamed ix id
  return .symbol version symbol (if symbol.kind.isType then ix.membersOf symbol.qualname else [])

def mentions (m : CodeModel) (s : Snapshot) (version : Nat) (id : String) : Result Answer := do
  let v := m.view s
  let symbol ← symbolNamed (← v.symbols) id
  return .references version symbol ((← v.references symbol).map fun l => ⟨l, CallGraph.lineAt s l⟩)

def derived (m : CodeModel) (s : Snapshot) (version : Nat) (id : String) : Result Answer := do
  let v := m.view s
  let symbol ← symbolNamed (← v.symbols) id
  return .implementations version symbol (← v.implementations symbol)

def callersOf (m : CodeModel) (s : Snapshot) (version : Nat) (id : String) : Result Answer := do
  let v := m.view s
  let ix ← v.symbols
  let symbol ← symbolNamed ix id
  return .callers version symbol ((← v.callers symbol).map fun c => ⟨c, (ix.resolve c.caller).map (·.qualname)⟩)

/-! ## Renaming -/

def renameOn (m : CodeModel) (s : Snapshot) (r : RenameRequest) : Result (Symbol × Snapshot) := do
  let v := m.view s
  let symbol ← symbolNamed (← v.symbols) r.symbolId
  return (symbol, ← v.rename symbol r.newName)

def rename {σ} (h : Host σ) (m : CodeModel) (maxCells : Nat) (r : RenameRequest) : Op σ Renamed := do
  let (s, version) ← h.snapshot
  Op.ofResult (Cleanup.checkExpected r.expectedVersion version)
  let (symbol, next) ← Op.ofResult (renameOn m s r)
  let changes := ChangeSet.between s next maxCells
  if changes.isEmpty then return ⟨false, symbol, r.newName, version, version, changes⟩
  return ⟨true, symbol, r.newName, version, ← h.commit version next, changes⟩

/-! ## All calls -/

def status {σ} (h : Host σ) : Op σ Status := do
  let (s, version) ← h.snapshot
  return ⟨version, s.root, h.supportsReload (← get), s.projects, s.documents.length⟩

def reading {σ} (h : Host σ) (f : Snapshot → Nat → Result Answer) : Op σ Answer := do
  let (s, version) ← h.snapshot
  Op.ofResult (f s version)

def namesOnly (format : Option String) : Bool := Snapshot.lowerAscii (trim (format.getD "details")) == "names"

def Call.run {σ} (h : Host σ) (m : CodeModel) (limits : Limits) (c : Cancellation) : Call → Op σ Answer
  | .help => return .document Method.helpText
  | .listMethods format => return .document (Method.listing (namesOnly format))
  | .workspaceStatus => return .status (← status h)
  | .reloadWorkspace => return .reloaded (← h.reload)
  | .discoverActions q => return .catalog (← Catalog.discover h m q)
  | .previewAction token => return .actionPreview (← Pipeline.preview h m limits.diffCells token)
  | .applyAction token => return .applied (← Pipeline.apply h m limits.diffCells token)
  | .evaluatePolicy token => return .decision (← Pipeline.evaluatePolicy h m limits.diffCells token)
  | .listFixes path id => return .removals (← Removal.list h m path id)
  | .previewFix token => return .removalPreview (← Removal.preview h m limits.diffCells token)
  | .applyFix token => return .applied (← Removal.apply h m limits.diffCells token)
  | .cleanup r => return .cleanup (← Cleanup.run h m limits r c)
  | .findSymbol q => reading h (search m · · q)
  | .symbolInfo id => reading h (describeSymbol m · · id)
  | .findReferences id => reading h (mentions m · · id)
  | .findImplementations id => reading h (derived m · · id)
  | .findCallers id => reading h (callersOf m · · id)
  | .callGraph r => do
    let (g, s) ← CallGraph.build h m r limits.callGraphDepth c
    return .graph g s
  | .renameSymbol r => return .renamed (← rename h m limits.diffCells r)

def handle {σ} (h : Host σ) (m : CodeModel) (limits : Limits) (method : String) (params : Json) (c : Cancellation) :
    Op σ Json := do
  let call ← Op.ofResult (Call.read method params)
  return (← call.run h m limits c).toJson

end Workbench.Service
