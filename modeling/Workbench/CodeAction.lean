import Workbench.Snapshot

/-!
# Code actions

A code action is a change that someone may want to make: a title for people, a
key that tells it from other changes of its provider, and edits of documents.
-/

namespace Workbench

structure DocumentEdit where
  path : String
  edits : List Edit
deriving DecidableEq, Repr

structure CodeAction where
  title : String
  equivalenceKey : String
  edits : List DocumentEdit
deriving DecidableEq, Repr

namespace CodeAction

def single (title key path : String) (edits : List Edit) : CodeAction := ⟨title, key, [⟨path, edits⟩]⟩

def applyEdits (s : Snapshot) : List DocumentEdit → Result Snapshot
  | [] => .ok s
  | d :: rest =>
    match s.withEdits d.path d.edits with
    | .error e => .error e
    | .ok next => applyEdits next rest

def apply (a : CodeAction) (s : Snapshot) : Result Snapshot := applyEdits s a.edits

def paths (a : CodeAction) : List String := Ordered.ofList (a.edits.map (·.path))

end CodeAction

end Workbench
