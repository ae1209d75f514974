import Workbench.Hunk
import Workbench.Snapshot

/-!
# Change sets

The files in which two snapshots differ, in path order, each with the number
of its changed regions. A file that only one snapshot has counts as one.
-/

namespace Workbench

structure FileChange where
  path : String
  edits : Nat
deriving DecidableEq, Repr

structure ChangeSet where
  files : List FileChange
deriving DecidableEq, Repr

namespace ChangeSet

def changeOf (old new : Snapshot) (maxCells : Nat) (path : String) : Option FileChange :=
  match old.text? path, new.text? path with
  | some a, some b => if a = b then none else some ⟨path, Hunk.count a.toList b.toList maxCells⟩
  | none, none => none
  | _, _ => some ⟨path, 1⟩

def between (old new : Snapshot) (maxCells : Nat) : ChangeSet :=
  ⟨(Ordered.ofList (old.paths ++ new.paths)).filterMap (changeOf old new maxCells)⟩

def isEmpty (c : ChangeSet) : Bool := c.files.isEmpty

def paths (c : ChangeSet) : List String := c.files.map (·.path)

def total (c : ChangeSet) : Nat := c.files.foldl (fun n f => n + f.edits) 0

def fileList (c : ChangeSet) : Json :=
  .arr (c.files.map fun f => .object [("path", .str f.path), ("edits", .nat f.edits)])

def toJson (c : ChangeSet) : Json := .object [("files", c.fileList)]

end ChangeSet

end Workbench
