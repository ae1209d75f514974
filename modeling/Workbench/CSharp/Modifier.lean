import Workbench.CSharp.Source

/-!
# Modifier order

Modifiers have a rank, and a declaration should have them in ascending order of
rank. `partial` goes last, and a word that has no rank of its own just before.
-/

namespace Workbench.CSharp.Modifier

/-- The groups of modifiers, in the order in which they should stand. -/
def groups : List (List String) :=
  [["public"], ["private"], ["protected"], ["internal"], ["file"], ["static", "const"], ["extern"], ["new"],
    ["virtual"], ["abstract"], ["sealed"], ["override"], ["readonly"], ["unsafe"], ["required"], ["volatile"],
    ["async"], ["ref"]]

/-- The rank of `partial`, which is above all others. -/
def last : Nat := groups.length + 1

def rank (m : String) : Nat := if m = "partial" then last else groups.findIdx (·.contains m)

def chained {α} (r : α → α → Bool) : List α → Bool
  | a :: b :: rest => r a b && chained r (b :: rest)
  | _ => true

def inOrder (ms : List String) : Bool := chained (fun a b => rank a ≤ rank b) ms

def sort (ms : List String) : List String := ms.mergeSort fun a b => rank a ≤ rank b

def range? (ms : List Node) : Option Span :=
  match ms.head?, ms.getLast? with
  | some a, some b => some (.ofBounds a.start b.stop)
  | _, _ => none

def onlyBlanksBetween (f : SourceFile) (a b : Node) : Bool :=
  match Text.slice? f.chars a.stop b.start with
  | some gap => gap.all Text.isBlank
  | none => false

/-- The range of modifiers that are out of order, when nothing but blanks stands between them. -/
def misordered? (f : SourceFile) (ms : List Node) : Option Span :=
  if inOrder (ms.map f.text) then none
  else if chained (onlyBlanksBetween f) ms then range? ms
  else none

def mayBeMisordered (k : Kind) : Bool :=
  k.isTypeDeclaration || k.isMemberDeclaration || k == .localFunctionStatement

def misorderedRanges (f : SourceFile) : List Span :=
  (f.root.descendants.filter fun n => mayBeMisordered n.kind).filterMap fun n => misordered? f n.modifiers

def readonlyPoint? (f : SourceFile) (field : Node) : Option Nat :=
  match field.modifiers.find? fun m => rank (f.text m) > rank "readonly" with
  | some after => some after.start
  | none => field.variableDeclaration?.map Node.start

end Workbench.CSharp.Modifier
