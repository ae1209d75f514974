import Workbench.Text.Utf8
import Workbench.Text.Blank

/-!
# Lines and columns

A position is a line and a column, both counted from 1; columns count
characters. `lineCol` goes from a byte offset to a position and `offsetOf`
back. `removalSpan` widens a range to the whole lines that it alone fills.
-/

namespace Workbench.Text

/-- Position of byte `n`, which is clamped to the text. Inside a character the column is 1. -/
def lineColFrom : List Char → Nat → Nat → Nat → Nat × Nat
  | _, 0, line, col => (line, col)
  | [], _ + 1, line, col => (line, col)
  | c :: r, n + 1, line, col =>
    if n + 1 < c.utf8Size then (line, 1)
    else if c == '\n' then lineColFrom r n (line + 1) 1
    else lineColFrom r (n + 1 - c.utf8Size) line (col + 1)

def lineCol (cs : List Char) (n : Nat) : Nat × Nat := lineColFrom cs n 1 1

/-- Bytes before the line that `n` newlines precede, and the text from there. -/
def dropLines : List Char → Nat → Option (Nat × List Char)
  | cs, 0 => some (0, cs)
  | [], _ + 1 => none
  | c :: r, n + 1 =>
    (dropLines r (if c == '\n' then n else n + 1)).map fun p => (c.utf8Size + p.1, p.2)

/-- The first line without its newline and the carriage returns before that. -/
def lineBody (cs : List Char) : List Char :=
  dropEndWhile (· == '\r') (cs.takeWhile (· != '\n'))

/-- Byte offset of a position. The column may stand one past the last character of the line. -/
def offsetOf (cs : List Char) (line col : Nat) : Option Nat :=
  if line = 0 ∨ col = 0 then none
  else
    match dropLines cs (line - 1) with
    | none => none
    | some (start, r) =>
      let body := lineBody r
      if col - 1 ≤ body.length then some (start + size (body.take (col - 1))) else none

def isIndent (c : Char) : Bool := c == ' ' || c == '\t'

/-- Widens a range to whole lines when nothing but blanks shares them with it. -/
def removalSpan (cs : List Char) (start stop : Nat) : Nat × Nat :=
  match splitAt? cs start, splitAt? cs stop with
  | some (before, _), some (_, after) =>
    let left := dropEndWhile isIndent before
    let right := after.dropWhile fun c => isIndent c || c == '\r'
    if left.getLast?.all (· == '\n') && right.head?.all (· == '\n') then
      (size left, stop + (size after - size right) + (if right.isEmpty then 0 else 1))
    else (start, stop)
  | _, _ => (start, stop)

def lineIndent (cs : List Char) (n : Nat) : List Char :=
  let before := (splitAt? cs (min n (size cs))).elim [] (·.1)
  let lineStart := dropEndWhile (· != '\n') before
  (cs.drop lineStart.length).takeWhile isIndent

def lines : List Char → List (List Char)
  | [] => []
  | c :: r =>
    if c == '\n' then [c] :: lines r
    else
      match lines r with
      | [] => [[c]]
      | l :: ls => (c :: l) :: ls

theorem flatten_lines (cs : List Char) : (lines cs).flatten = cs := by
  induction cs with
  | nil => rfl
  | cons c r ih =>
    simp only [lines]
    split
    · simp [ih]
    · split <;> simp_all

/-- A short quotation of bytes `a` to `b`: blanks joined and trimmed, at most 200 bytes. -/
def excerpt (cs : List Char) (a b : Nat) : Option (List Char) :=
  match slice? cs a (min b (size cs)) with
  | none => none
  | some raw =>
    match trim (joinBlanks raw) with
    | [] => none
    | t => some (takeBytes t 200)

end Workbench.Text
