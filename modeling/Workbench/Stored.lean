import Workbench.Loading
import Workbench.Session

/-!
# Stored sessions

A stored session keeps its documents in files. A commit writes every document
whose text is new before it installs the snapshot. When a write fails, the
files written until then get their old texts back, and the session stays where
it was. Reloading reads everything again.
-/

namespace Workbench

/-- Where files are kept, over a state of its own. -/
structure Storage (δ : Type) where
  /-- Stores a text as a file, or fails and says why. -/
  write : String → String → ExceptT String (StateM δ) Unit
  holds : δ → String → Bool
  load : δ → Except String Snapshot

/-- Storage on which the writing of some files is known to fail, and why. -/
def Storage.refusing {δ} (st : Storage δ) (refused : List (String × String)) : Storage δ :=
  { st with
    write := fun file text =>
      match refused.lookup file with
      | some why => throw why
      | none => st.write file text }

structure Rewrite where
  file : String
  before : String
  after : String
deriving DecidableEq, Repr

namespace Rewrite

/-- The rewrite that a document of a new snapshot needs. A document that was not there had no text. -/
def of? (old : Snapshot) (d : Document) : Option Rewrite :=
  d.file.bind fun file =>
    match old.text? d.path with
    | some text => if text = d.text then none else some ⟨file, text, d.text⟩
    | none => some ⟨file, "", d.text⟩

def between (old new : Snapshot) : List Rewrite := new.documents.filterMap (of? old)

/-- Gives files their old texts back, the last written first. -/
def undo {δ} (st : Storage δ) : List Rewrite → StateM δ Unit
  | [] => return ()
  | r :: done => do
    let _ ← (st.write r.file r.before).run
    undo st done

/-- Writes files in turn, behind those already done. -/
def perform {δ} (st : Storage δ) (done : List Rewrite) : List Rewrite → ExceptT Fault (StateM δ) Unit
  | [] => return ()
  | r :: rest => do
    match ← ExceptT.lift (st.write r.file r.after).run with
    | .ok _ => perform st (r :: done) rest
    | .error why =>
      ExceptT.lift (undo st done)
      throw (.internal (.write r.file why))

end Rewrite

structure StoredSession (δ : Type) where
  store : δ
  session : Session

namespace StoredSession

variable {δ : Type}

def current : StateM (StoredSession δ) (Snapshot × Nat) := fun s => ((s.session.snapshot, s.session.version), s)

def commit (st : Storage δ) (base : Nat) (next : Snapshot) : Op (StoredSession δ) Nat := fun s =>
  if s.session.version ≠ base then (.error (.workspaceChanged base s.session.version), s)
  else
    match (Rewrite.perform st [] (Rewrite.between s.session.snapshot next)).run s.store with
    | (.error f, store) => (.error f, { s with store := store })
    | (.ok _, store) => (.ok (base + 1), ⟨store, ⟨next, base + 1⟩⟩)

def reload (st : Storage δ) (root : String) : Op (StoredSession δ) Nat := fun s =>
  match st.load s.store with
  | .error why => (.error (.internal (.reload root why)), s)
  | .ok next => (.ok (s.session.version + 1), { s with session := ⟨next, s.session.version + 1⟩ })

def host (st : Storage δ) (root : String) : Host (StoredSession δ) where
  current := current
  commit := commit st
  supportsReload _ := true
  reload := reload st root
  isMissing s path := !st.holds s.store path

end StoredSession

namespace Disk

def storage (useIgnore : Bool) (root : String) : Storage Disk where
  write path text := fun d =>
    match d.write (Place.ofPath path) text.toUTF8 with
    | .ok d' => (.ok (), d')
    | .error why => (.error why.message, d)
  holds d path := d.exists_ (Place.ofPath path)
  load d :=
    match Loading.load d useIgnore root with
    | .ok (_, s) => .ok s
    | .error e => .error e.message

end Disk

/-- Opens a session on what lies below a path of a disk. Gives its root too. -/
def StoredSession.opened (d : Disk) (useIgnore : Bool) (path : String) :
    Except Loading.LoadError (String × StoredSession Disk) :=
  (Loading.load d useIgnore path).map fun (root, s) => (root.render, ⟨d, Session.start s⟩)

end Workbench
