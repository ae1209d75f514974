import Workbench.Action.Pipeline

/-!
# Removing unused locals

A short way to the removal of unused locals: a list for one document, and a
token for each that can be previewed and applied without a policy decision.
-/

namespace Workbench

structure RemovalEntry where
  token : FixToken
  title : String
  line : Nat
  column : Nat
deriving DecidableEq, Repr

structure RemovalList where
  version : Nat
  path : String
  fixes : List RemovalEntry
deriving DecidableEq, Repr

namespace Removal

/-! ## Listing -/

def removable? (version : Nat) (d : Document) (wanted : Option String) (b : Builtin) : Option RemovalEntry :=
  match b.diagnosticId with
  | none => none
  | some id =>
    if b.kind == .removeUnusedLocal && wanted.all (· == id) then
      let (line, column) := Text.lineCol d.text.toList b.span.start
      some ⟨⟨version, b.kind.text, id, b.span, d.path⟩, b.action.title, line, column⟩
    else none

def before (a b : RemovalEntry) : Bool :=
  ((compare a.token.span.start b.token.span.start).then (compare a.token.diagnosticId b.token.diagnosticId)).isLE

def listOn (m : CodeModel) (s : Snapshot) (version : Nat) (path : String) (wanted : Option String) :
    Result RemovalList :=
  match s.findDocument path with
  | none => .error (.invalidInput (.documentNotFound path))
  | some d =>
    ((m.view s).builtins d.path ⟨0, d.text.utf8ByteSize⟩).map fun bs =>
      ⟨version, d.path, (bs.filterMap (removable? version d wanted)).mergeSort before⟩

def list {σ} (h : Host σ) (m : CodeModel) (path : String) (wanted : Option String) : Op σ RemovalList := do
  let (s, version) ← h.snapshot
  Op.ofResult (listOn m s version path wanted)

/-! ## Previewing and applying -/

def relocate (m : CodeModel) (s : Snapshot) (raw : String) (t : FixToken) : Result CodeAction := do
  if BuiltinKind.ofText? t.operation ≠ some .removeUnusedLocal ∨ (s.document? t.filePath).isNone then
    throw (.fixNotFound raw)
  match (← (m.view s).builtins t.filePath t.span).find? fun b =>
      b.kind == .removeUnusedLocal && b.span == t.span && b.diagnosticId == some t.diagnosticId with
  | some b => return b.action
  | none => throw (.fixNotFound raw)

structure Prepared where
  title : String
  base : Nat
  next : Snapshot
  changes : ChangeSet

def prepareOn (m : CodeModel) (maxCells : Nat) (raw : String) (t : FixToken) (s : Snapshot) (version : Nat) :
    Result Prepared := do
  checkVersion t.version version
  let change ← relocate m s raw t
  let next ← change.apply s
  return ⟨change.title, version, next, .between s next maxCells⟩

def prepare {σ} (h : Host σ) (m : CodeModel) (maxCells : Nat) (raw : String) : Op σ Prepared := do
  let t ← Op.ofResult (FixToken.decode raw)
  let (s, version) ← h.snapshot
  Op.ofResult (prepareOn m maxCells raw t s version)

structure Preview where
  token : String
  version : Nat
  title : String
  changes : ChangeSet
deriving DecidableEq, Repr

def preview {σ} (h : Host σ) (m : CodeModel) (maxCells : Nat) (raw : String) : Op σ Preview := do
  let p ← prepare h m maxCells raw
  return ⟨trim raw, p.base, p.title, p.changes⟩

def checkPrepared (p : Prepared) : Result Unit :=
  if p.changes.isEmpty then .error (.fixConflict (.fix p.title)) else .ok ()

def apply {σ} (h : Host σ) (m : CodeModel) (maxCells : Nat) (raw : String) : Op σ Applied := do
  let p ← prepare h m maxCells raw
  Op.ofResult (checkPrepared p)
  let version ← h.commit p.base p.next
  return ⟨p.base, version, p.changes⟩

end Removal

def RemovalEntry.toJson (e : RemovalEntry) : Json :=
  .object ([("token", .str e.token.encode), ("title", .str e.title), ("operation", .str e.token.operation),
    ("diagnostic_id", .str e.token.diagnosticId), ("file_path", .str e.token.filePath)] ++ e.token.span.fields ++
    [("line", .nat e.line), ("column", .nat e.column)])

def RemovalList.toJson (l : RemovalList) : Json :=
  .object [("workspace_version", .nat l.version), ("path", .str l.path),
    ("fixes", .arr (l.fixes.map RemovalEntry.toJson))]

def Removal.Preview.toJson (p : Removal.Preview) : Json :=
  .object [("token", .str p.token), ("workspace_version", .nat p.version), ("title", .str p.title),
    ("changes", p.changes.toJson)]

end Workbench
