import Workbench.Disk.Walk
import Workbench.Snapshot

/-!
# Loading

A workspace is loaded from the files below its root. Every project file makes a
project of its directory, and every source file is a document of the project
whose directory is the nearest around it. What no project owns goes to one that
is named after the root.
-/

namespace Workbench.Loading

/-! ## Names of files -/

/-- The stem and the extension of a file name. A name that only begins with a dot has no extension. -/
def splitName (name : String) : String × Option String :=
  let cs := name.toList
  let extension := (cs.reverse.takeWhile (· != '.')).reverse
  let stem := cs.take (cs.length - extension.length - 1)
  if stem.isEmpty || extension.length = cs.length then (name, none)
  else (.ofList stem, some (.ofList extension))

def isSource (extension : String) : Bool := extension == "cs" || extension == "csx"

def isProject (extension : String) : Bool := extension == "csproj"

/-- A path below the root; the root itself is `.`. -/
def relative (names : List String) : String := if names.isEmpty then "." else "/".intercalate names

/-! ## What a walk found -/

structure ProjectFile where
  name : String
  dir : String
  path : String
deriving DecidableEq, Repr

structure SourceText where
  path : String
  file : String
  text : String
deriving DecidableEq, Repr

def fileName (root : Disk.Place) (names : List String) : String := (names.getLast?.or root.getLast?).getD ""

def extensionOf (root : Disk.Place) (f : WalkedFile) : Option String := (splitName (fileName root f.names)).2

def sourceText? (root : Disk.Place) (f : WalkedFile) : Option SourceText :=
  if (extensionOf root f).any isSource then
    f.text.map fun text => ⟨relative f.names, Disk.Place.render (root ++ f.names), text⟩
  else none

def projectFile (root : Disk.Place) (f : WalkedFile) : Except Path.Outside ProjectFile :=
  if f.names.isEmpty then .error ⟨Disk.Place.render root, Disk.Place.render root.dropLast⟩
  else .ok ⟨(splitName (fileName root f.names)).1, relative f.names.dropLast, relative f.names⟩

/-- Deeper directories come first, so that the nearest project is found first. -/
def deeper (a b : ProjectFile) : Bool :=
  b.dir.utf8ByteSize < a.dir.utf8ByteSize || (a.dir.utf8ByteSize == b.dir.utf8ByteSize && a.path ≤ b.path)

/-! ## Projects -/

structure NamedProject where
  name : String
  file : ProjectFile
deriving DecidableEq, Repr

/-- Names projects after their files; from the second of one name on they are numbered. -/
def nameProjects (before : List String) : List ProjectFile → List NamedProject
  | [] => []
  | f :: rest =>
    let n := before.count f.name
    ⟨if n = 0 then f.name else f.name ++ "#" ++ toString (n + 1), f⟩ :: nameProjects (f.name :: before) rest

def isWithin (path dir : String) : Bool := dir = "." || dir = "" || (dir ++ "/").isPrefixOf path

def owner? (projects : List NamedProject) (path : String) : Option String :=
  (projects.find? fun p => isWithin path p.file.dir).map (·.name)

/-! ## The snapshot -/

def addProjects (s : Snapshot) (projects : List NamedProject) : Snapshot :=
  projects.foldl (fun s p => s.addProject p.name p.file.dir (some p.file.path)) s

/-- Adds documents in turn. The project of the root comes into being with the first that it owns. -/
def addSources (rootName : String) (projects : List NamedProject) :
    Bool → Snapshot → List SourceText → Snapshot
  | _, s, [] => s
  | hasRoot, s, f :: rest =>
    match owner? projects f.path with
    | some name => addSources rootName projects hasRoot (s.addDocument name f.path f.text (some f.file)) rest
    | none =>
      let s := if hasRoot then s else s.addProject rootName "." none
      addSources rootName projects true (s.addDocument rootName f.path f.text (some f.file)) rest

def snapshotOf (root : Disk.Place) (projects : List ProjectFile) (sources : List SourceText) : Snapshot :=
  let projects := nameProjects [] (projects.mergeSort deeper)
  let sources := sources.mergeSort fun a b => a.path ≤ b.path
  addSources (root.getLast?.getD "workspace") projects false
    (addProjects { root := some (Disk.Place.render root) } projects) sources

def ofWalk (root : Disk.Place) (files : List WalkedFile) : Except Path.Outside Snapshot := do
  let projects ← (files.filter fun f => (extensionOf root f).any isProject).mapM (projectFile root)
  return snapshotOf root projects (files.filterMap (sourceText? root))

/-! ## Loading from a disk -/

inductive LoadError where
  | open_ (path : String) (why : Disk.Trouble)
  | outside (why : Path.Outside)

def LoadError.message : LoadError → String
  | .open_ path why => "open " ++ path ++ ": " ++ why.message
  | .outside why => why.message

def load (d : Disk) (useIgnore : Bool) (path : String) : Except LoadError (Disk.Place × Snapshot) :=
  match d.follow path with
  | .error why => .error (.open_ path why)
  | .ok root =>
    match ofWalk root (d.walk useIgnore root) with
    | .error why => .error (.outside why)
    | .ok s => .ok (root, s)

end Workbench.Loading
