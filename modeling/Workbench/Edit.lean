import Workbench.Span
import Workbench.Fault
import Workbench.Text.Utf8

/-!
# Edits

An edit replaces a span of a text. `Edit.applyAll` takes a set of edits that
were all computed against the same text and makes them at once: they are put
in order of start and end, and none may begin before the one before it ends.
-/

namespace Workbench

structure Edit where
  span : Span
  newText : String
deriving DecidableEq, Repr

namespace Edit

def delete (s : Span) : Edit := ⟨s, ""⟩

def insert (n : Nat) (text : String) : Edit := ⟨⟨n, 0⟩, text⟩

def toJson (e : Edit) : Json := .object [("span", e.span.toJson), ("new_text", .str e.newText)]

def before (a b : Edit) : Bool :=
  a.span.start < b.span.start || (a.span.start == b.span.start && a.span.stop ≤ b.span.stop)

/-- Makes edits that are in order. `rest` is the text from byte `cursor` of a text of `total` bytes. -/
def applyFrom (total : Nat) (cursor : Nat) (rest : List Char) : List Edit → Except BadInput (List Char)
  | [] => .ok rest
  | e :: es =>
    if e.span.start < cursor then .error (.overlappingEdits e.span.start)
    else
      match Text.splitAt? rest (e.span.start - cursor) with
      | none => .error (.editOutside e.span.start e.span.stop total)
      | some (kept, tail) =>
        match Text.splitAt? tail e.span.length with
        | none => .error (.editOutside e.span.start e.span.stop total)
        | some (_, after) =>
          (applyFrom total e.span.stop after es).map fun out => kept ++ e.newText.toList ++ out

def applyChars (cs : List Char) (edits : List Edit) : Except BadInput (List Char) :=
  applyFrom (Text.size cs) 0 cs (edits.mergeSort before)

def applyAll (text : String) (edits : List Edit) : Except BadInput String :=
  (applyChars text.toList edits).map .ofList

def disjoint (a b : List Edit) : Bool :=
  a.all fun x => b.all fun y => x.span.stop ≤ y.span.start || y.span.stop ≤ x.span.start

end Edit

end Workbench
