import Workbench.Host

/-!
# Sessions in memory

A session holds a snapshot and its version, which begins at 1 and grows by one
with each commit. Nothing is written to disk.
-/

namespace Workbench

structure Session where
  snapshot : Snapshot
  version : Nat
deriving DecidableEq, Repr

namespace Session

def start (s : Snapshot) : Session := ⟨s, 1⟩

def current : StateM Session (Snapshot × Nat) := fun s => ((s.snapshot, s.version), s)

def commit (base : Nat) (next : Snapshot) : Op Session Nat := fun s =>
  if s.version = base then (.ok (base + 1), ⟨next, base + 1⟩)
  else (.error (.workspaceChanged base s.version), s)

def reload : Op Session Nat := fun s => (.error (.invalidRequest .noReload), s)

/-- The host of a session, where `isMissing` tells which of the files that documents name are gone. -/
def hostBeside (isMissing : String → Bool) : Host Session where
  current := current
  commit := commit
  supportsReload _ := false
  reload := reload
  isMissing _ := isMissing

def host : Host Session := hostBeside fun _ => true

end Session

end Workbench
