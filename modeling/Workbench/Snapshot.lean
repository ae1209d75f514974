import Workbench.Edit
import Workbench.Ordered
import Workbench.Path

/-!
# Snapshots

A snapshot is an immutable view of every document of every project. Documents
are in path order and projects in name order. An edit gives a new snapshot and
leaves the old one as it was, to be compared with.
-/

namespace Workbench

structure Document where
  /-- Path below the root of the workspace, with `/` between names. -/
  path : String
  project : String
  text : String
  /-- The file behind the document, when there is one. -/
  file : Option String
deriving DecidableEq, Repr

structure Project where
  name : String
  projectFile : Option String
  /-- Directory below the root that owns the documents. -/
  dir : String
  documents : List String
deriving DecidableEq, Repr

structure Snapshot where
  root : Option String := none
  projects : List Project := []
  documents : List Document := []
  projects_ascending : Ordered.Ascending Project.name projects := by exact Ordered.ascending_nil _
  documents_ascending : Ordered.Ascending Document.path documents := by exact Ordered.ascending_nil _
deriving DecidableEq, Repr

namespace Snapshot

/-! ## Building -/

def empty : Snapshot := {}

def addProject (s : Snapshot) (name dir : String) (projectFile : Option String) : Snapshot :=
  { s with
    projects := Ordered.put Project.name ⟨name, projectFile, dir, []⟩ s.projects
    projects_ascending := s.projects_ascending.put _ }

/-- Adds a document; its project comes into being with its first document. -/
def addDocument (s : Snapshot) (project path text : String) (file : Option String) : Snapshot :=
  let path := Path.tidy path
  let owner := (Ordered.find? Project.name project s.projects).getD ⟨project, none, "", []⟩
  { s with
    projects := Ordered.put Project.name { owner with documents := Ordered.add path owner.documents } s.projects
    documents := Ordered.put Document.path ⟨path, project, text, file⟩ s.documents
    projects_ascending := s.projects_ascending.put _
    documents_ascending := s.documents_ascending.put _ }

/-! ## Looking up -/

def document? (s : Snapshot) (path : String) : Option Document :=
  Ordered.find? Document.path path s.documents

def text? (s : Snapshot) (path : String) : Option String := (s.document? path).map (·.text)

def paths (s : Snapshot) : List String := s.documents.map (·.path)

def project? (s : Snapshot) (name : String) : Option Project :=
  Ordered.find? Project.name name s.projects

/-- The spelling of a tidy path below the root, when the workspace has one and the path is in it. -/
def belowRoot? (s : Snapshot) (tidy : String) : Option String :=
  s.root.bind fun root => Path.under? root tidy

def findDocument (s : Snapshot) (raw : String) : Option Document :=
  let tidy := Path.tidy raw
  s.document? tidy
    |>.or ((s.belowRoot? tidy).bind s.document?)
    |>.or (s.documents.find? fun d => d.file.any fun f => Path.parts f == Path.parts raw)

def lowerAscii (s : String) : String := .ofList (s.toList.map Char.toLower)

def findProject (s : Snapshot) (raw : String) : Option Project :=
  let tidy := Path.tidy raw
  let target := (s.belowRoot? tidy).getD tidy
  s.project? raw
    |>.or (s.projects.find? fun p =>
      p.projectFile == some target || p.dir == target || lowerAscii p.name == lowerAscii raw)

def projectDocuments (s : Snapshot) (name : String) : List String :=
  ((s.project? name).map (·.documents)).getD []

/-! ## Changing -/

def withText (s : Snapshot) (path text : String) : Result Snapshot :=
  match s.document? path with
  | none => .error (.invalidInput (.documentNotFound path))
  | some d =>
    if d.text = text then .ok s
    else
      .ok { s with
        documents := Ordered.put Document.path { d with text := text } s.documents
        documents_ascending := s.documents_ascending.put _ }

def withEdits (s : Snapshot) (path : String) (edits : List Edit) : Result Snapshot :=
  if edits.isEmpty then .ok s
  else
    match s.text? path with
    | none => .error (.invalidInput (.documentNotFound path))
    | some text =>
      match Edit.applyAll text edits with
      | .error why => .error (.invalidInput why)
      | .ok updated => s.withText path updated

def demand (s : Snapshot) (path : String) : Result Document :=
  match s.document? path with
  | none => .error (.invalidInput (.documentNotFound path))
  | some d => .ok d

end Snapshot

end Workbench
