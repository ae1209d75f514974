import Workbench.Snapshot

/-!
# Hosts

A host owns the current snapshot and its version. An operation takes both at
its start and hands a changed snapshot back with the version it started from; a
host refuses it when that version is no longer current. Operations run on a
state that only the host looks into, and a failed one keeps the state it had.
-/

namespace Workbench

/-- An operation on a host state that can fail. A failure keeps the state reached. -/
abbrev Op (σ α : Type) := ExceptT Fault (StateM σ) α

def Op.ofResult {σ α} (r : Result α) : Op σ α := fun s => (r, s)

structure Host (σ : Type) where
  current : StateM σ (Snapshot × Nat)
  /-- Installs a snapshot made from the given version, and gives the new version. -/
  commit : Nat → Snapshot → Op σ Nat
  supportsReload : σ → Bool
  /-- Reads everything again, and gives the new version. -/
  reload : Op σ Nat
  /-- Whether the file at an absolute path is gone. -/
  isMissing : σ → String → Bool

namespace Host

def snapshot {σ} (h : Host σ) : Op σ (Snapshot × Nat) := ExceptT.lift h.current

end Host

def checkVersion (expected current : Nat) : Result Unit :=
  if expected = current then .ok () else .error (.workspaceChanged expected current)

end Workbench
