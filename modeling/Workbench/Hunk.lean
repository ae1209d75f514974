import Workbench.Text.Line

/-!
# Counting changed regions

Two texts are compared line by line. What both begin and end with is set
aside, the rest is aligned along a longest common subsequence, and each
maximal run of lines outside the alignment is one region.
-/

namespace Workbench.Hunk

abbrev Line := List Char

def sharedPrefix [DecidableEq α] : List α → List α → Nat
  | a :: r, b :: s => if a = b then sharedPrefix r s + 1 else 0
  | _, _ => 0

/-- One row of the table from the row below it: entry `j` is the length of a longest common
subsequence of `a ::` the lower row's lines and `b.drop j`. -/
def row [DecidableEq α] (a : α) : List α → List Nat → List Nat
  | [], _ => [0]
  | b :: s, below =>
    let right := row a s below.tail
    let here := if a = b then below.tail.headD 0 + 1 else max (below.headD 0) (right.headD 0)
    here :: right

def table [DecidableEq α] : List α → List α → List (List Nat)
  | [], b => [List.replicate (b.length + 1) 0]
  | a :: r, b =>
    let below := table r b
    row a b (below.headD []) :: below

/-- Regions met when the table is walked from the top. `rows` are the rows from the current one,
each already cut to the current column. -/
def walk [DecidableEq α] (inside : Bool) : List α → List α → List (List Nat) → Nat
  | [], [], _ => 0
  | [], _ :: s, rows => open_ inside + walk true [] s (rows.map List.tail)
  | _ :: r, [], rows => open_ inside + walk true r [] rows.tail
  | a :: r, b :: s, rows =>
    if a = b then walk false r s (rows.tail.map List.tail)
    else
      let right := (rows.headD []).tail.headD 0
      let down := (rows.tail.headD []).headD 0
      open_ inside +
        (if right ≥ down then walk true (a :: r) s (rows.map List.tail) else walk true r (b :: s) rows.tail)
termination_by a b => a.length + b.length
where
  /-- A region is counted where it begins. -/
  open_ (inside : Bool) : Nat := if inside then 0 else 1

def regions [DecidableEq α] (a b : List α) : Nat := walk false a b (table a b)

def middle [DecidableEq α] (a b : List α) : List α × List α :=
  let n := sharedPrefix a b
  let a := a.drop n
  let b := b.drop n
  let m := sharedPrefix a.reverse b.reverse
  (a.take (a.length - m), b.take (b.length - m))

/-- Changed regions between two texts. Beyond `maxCells` table cells the change counts as one. -/
def count (before after : List Char) (maxCells : Nat) : Nat :=
  if before = after then 0
  else
    let (a, b) := middle (Text.lines before) (Text.lines after)
    if a.isEmpty || b.isEmpty then 1
    else if a.length * b.length > maxCells then 1
    else regions a b

end Workbench.Hunk
