import Workbench.Disk.Ignore

/-!
# Walks

A walk yields the files below a root that a workspace takes notice of. Build
output and the data of version control are passed over, and so is what ignore
files name; nothing below a directory that is passed over is yielded. The root
itself is always taken.
-/

namespace Workbench

/-- A file that a walk yields: its names below the root, and its text if it holds text. -/
structure WalkedFile where
  names : List String
  text : Option String
deriving DecidableEq, Repr

namespace Disk

/-- Names of entries that a walk never enters. -/
def skippedNames : List String := [".git", "bin", "obj"]

/-- Whether a walk goes on to the entry at a place, which is not its root. -/
def takes (d : Disk) (useIgnore : Bool) (p : Place) (isDirectory : Bool) : Bool :=
  !skippedNames.contains (p.getLast?.getD "") && !(useIgnore && Ignore.isIgnored d p isDirectory)

/-- Whether a walk from a root reaches the file with the given names below it. -/
def reaches (d : Disk) (useIgnore : Bool) (root : Place) (names : List String) : Bool :=
  ((List.range names.length).all fun n =>
    d.takes useIgnore (root ++ names.take (n + 1)) (n + 1 < names.length))

def walk (d : Disk) (useIgnore : Bool) (root : Place) : List WalkedFile :=
  d.nodes.filterMap fun (p, n) =>
    match n with
    | .directory => none
    | .file content =>
      let names := p.drop root.length
      if root.isPrefixOf p && d.reaches useIgnore root names then some ⟨names, String.fromUTF8? content⟩ else none

end Disk

end Workbench
