import Workbench.Text.Blank

/-!
# Paths

A path is read as a list of parts; empty parts and inner `.` parts vanish, so
two paths are the same when their parts are. `tidy` is the spelling of a path
that a caller gives by hand, `relative` the spelling inside a workspace.
-/

namespace Workbench.Path

inductive Part where
  | root
  /-- A `.` at the very beginning. -/
  | here
  | up
  | name (s : String)
deriving DecidableEq, Repr

def part? (s : String) : Option Part :=
  if s = "" ∨ s = "." then none else if s = ".." then some .up else some (.name s)

def parts (raw : String) : List Part :=
  let pieces := splitOnChar '/' raw
  let lead :=
    if raw.toList.head? == some '/' then [.root]
    else if pieces.head? == some "." then [.here]
    else []
  lead ++ pieces.filterMap part?

def Part.text? : Part → Option String
  | .name s => some s
  | .up => some ".."
  | .root | .here => none

def relative (ps : List Part) : String :=
  match ps.filterMap Part.text? with
  | [] => "."
  | names => "/".intercalate names

def stripPrefix? : List Part → List Part → Option (List Part)
  | [], ps => some ps
  | _ :: _, [] => none
  | a :: r, b :: s => if a = b then stripPrefix? r s else none

/-- The spelling of `raw` relative to `root`, when it lies under it. -/
def under? (root raw : String) : Option String :=
  (stripPrefix? (parts root) (parts raw)).map relative

/-- Why a path has no spelling relative to a root. -/
structure Outside where
  root : String
  path : String

def Outside.message (o : Outside) : String :=
  "strip prefix " ++ o.root ++ " from " ++ o.path ++ ": prefix not found"

def relativeTo (root raw : String) : Except Outside String :=
  match under? root raw with
  | some s => .ok s
  | none => .error ⟨root, raw⟩

/-- A path typed by hand: trimmed, with forward slashes, without empty and `.` parts. -/
def tidy (raw : String) : String :=
  let slashed := (Text.trim raw.toList).map fun c => if c == '\\' then '/' else c
  let names := (splitOnChar '/' (.ofList slashed)).filter fun s => s ≠ "" ∧ s ≠ "."
  let joined := "/".intercalate names
  if slashed.head? == some '/' then "/" ++ joined else joined

def join (dir rel : String) : String :=
  if rel = "" then dir
  else if dir.toList.getLast? == some '/' then dir ++ rel
  else dir ++ "/" ++ rel

end Workbench.Path
