import Workbench.Text.Blank

/-!
# Disks

A disk holds files and directories at places, which are lists of names from
the top down. Whatever is on it lies in directories that are on it too; the top
is a directory without an entry of its own.
-/

namespace Workbench

inductive Disk.Node where
  | file (content : ByteArray)
  | directory

/-- Names from the top of a disk down. -/
abbrev Disk.Place := List String

structure Disk where
  nodes : List (Disk.Place × Disk.Node)

namespace Disk

inductive Trouble where
  | notFound | notDirectory | isDirectory
deriving DecidableEq, Repr

def Trouble.message : Trouble → String
  | .notFound => "No such file or directory (os error 2)"
  | .notDirectory => "Not a directory (os error 20)"
  | .isDirectory => "Is a directory (os error 21)"

/-! ## Places -/

def Place.render (p : Place) : String := "/" ++ "/".intercalate p

/-- The place that an absolute path spells. -/
def Place.ofPath (path : String) : Place := (splitOnChar '/' path).filter (· ≠ "")

/-- The places above, from the top down. -/
def Place.above (p : Place) : List Place := (List.range p.length).map (p.take ·)

/-! ## Looking -/

def empty : Disk := ⟨[]⟩

def node? (d : Disk) (p : Place) : Option Node := if p = [] then some .directory else d.nodes.lookup p

def exists_ (d : Disk) (p : Place) : Bool := (d.node? p).isSome

def content? (d : Disk) (p : Place) : Option ByteArray :=
  match d.node? p with
  | some (.file content) => some content
  | _ => none

def text? (d : Disk) (p : Place) : Option String := (d.content? p).bind String.fromUTF8?

def step (d : Disk) (here : Place) (name : String) : Except Trouble Place :=
  match d.node? here with
  | none => .error .notFound
  | some (.file _) => .error .notDirectory
  | some .directory =>
    if name = "" ∨ name = "." then .ok here
    else if name = ".." then .ok here.dropLast
    else if d.exists_ (here ++ [name]) then .ok (here ++ [name])
    else .error .notFound

def follow (d : Disk) (path : String) : Except Trouble Place := (splitOnChar '/' path).foldlM d.step []

/-! ## Changing -/

def put (d : Disk) (p : Place) (n : Node) : Disk := ⟨(p, n) :: d.nodes.filter (·.1 != p)⟩

/-- Whether all that lies above a place is a directory. -/
def checkAbove (d : Disk) (p : Place) : Except Trouble Unit :=
  p.above.forM fun q =>
    match d.node? q with
    | some .directory => .ok ()
    | some (.file _) => .error .notDirectory
    | none => .error .notFound

def write (d : Disk) (p : Place) (content : ByteArray) : Except Trouble Disk := do
  d.checkAbove p
  match d.node? p with
  | some .directory => throw .isDirectory
  | _ => return d.put p (.file content)

/-- Makes a directory and those above it, where they are missing. -/
def makeDirectory (d : Disk) (p : Place) : Disk :=
  (p.above ++ [p]).foldl (fun d q => if d.exists_ q then d else d.put q .directory) d

def remove (d : Disk) (p : Place) : Disk := ⟨d.nodes.filter fun n => !p.isPrefixOf n.1⟩

end Disk

end Workbench
