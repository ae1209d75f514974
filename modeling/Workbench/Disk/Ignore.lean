import Workbench.Disk.Basic

/-!
# Ignore files

An ignore file lists patterns, one a line, for what lies below its directory.
The last pattern that applies to an entry decides; `!` keeps what an earlier
one ignores. A pattern without an inner slash applies at any depth, any other
only from the directory on. `.ignore` files go before `.gitignore` files, and
nearer ones before farther ones.
-/

namespace Workbench.Ignore

/-! ## Patterns -/

/-- One sign of a pattern for a name. -/
inductive Sign where
  | char (c : Char)
  | one
  | many
deriving DecidableEq, Repr

inductive Segment where
  | name (signs : List Sign)
  /-- Any number of names. -/
  | anywhere
deriving DecidableEq, Repr

structure Pattern where
  keeps : Bool
  directoriesOnly : Bool
  segments : List Segment
deriving DecidableEq, Repr

def matchesName : List Sign → List Char → Bool
  | [], cs => cs.isEmpty
  | .char c :: ps, d :: cs => c == d && matchesName ps cs
  | .one :: ps, _ :: cs => matchesName ps cs
  | .many :: ps, [] => matchesName ps []
  | .many :: ps, c :: cs => matchesName ps (c :: cs) || matchesName (.many :: ps) cs
  | _ :: _, [] => false
termination_by ps cs => ps.length + cs.length

def matchesNames : List Segment → List String → Bool
  | [], ns => ns.isEmpty
  | .name signs :: ps, n :: ns => matchesName signs n.toList && matchesNames ps ns
  | .name _ :: _, [] => false
  | .anywhere :: ps, [] => matchesNames ps []
  | .anywhere :: ps, n :: ns => matchesNames ps (n :: ns) || matchesNames (.anywhere :: ps) ns
termination_by ps ns => ps.length + ns.length

def Pattern.applies (p : Pattern) (names : List String) (isDirectory : Bool) : Bool :=
  (!p.directoriesOnly || isDirectory) && matchesNames p.segments names

/-! ## Reading patterns -/

def signs : List Char → Option (List Sign)
  | [] => some []
  | ['\\'] => none
  | '\\' :: c :: r => (signs r).map (.char c :: ·)
  | '*' :: r => (signs r).map (.many :: ·)
  | '?' :: r => (signs r).map (.one :: ·)
  | c :: r => (signs r).map (.char c :: ·)

def segment (name : String) : Option Segment :=
  if name = "**" then some .anywhere else (signs name.toList).map .name

/-- What is below a directory does not include the directory. -/
def closeBelow : List Segment → List Segment
  | [] => []
  | [s] => [s]
  | [s, .anywhere] => [s, .anywhere, .name [.many]]
  | s :: r => s :: closeBelow r

/-- The segments of a pattern whose leading and trailing slashes have been taken off. -/
def segments (anchored : Bool) (body : String) : Option (List Segment) := do
  let names := splitOnChar '/' body
  let ps ← names.mapM segment
  return closeBelow (if anchored || names.length > 1 || ps == [.anywhere] then ps else .anywhere :: ps)

/-- The slash that limits a pattern to directories, taken off with its escape. -/
def stripSlash (cs : List Char) : List Char × Bool :=
  match cs.reverse with
  | '/' :: '\\' :: r => (r.reverse, true)
  | '/' :: r => (r.reverse, true)
  | _ => (cs, false)

def pattern (keeps anchored : Bool) (cs : List Char) : Option Pattern :=
  let (body, directoriesOnly) := stripSlash cs
  (segments anchored (.ofList body)).map fun ps => ⟨keeps, directoriesOnly, ps⟩

/-- Reads what stands behind a `!`, if there is one. -/
def anchor (keeps : Bool) : List Char → Option Pattern
  | '/' :: r => pattern keeps true r
  | cs => pattern keeps false cs

def trimLine (cs : List Char) : List Char :=
  match cs.reverse with
  | ' ' :: '\\' :: _ => cs
  | _ => Text.trimEnd cs

def patternOfLine (line : List Char) : Option Pattern :=
  if line.head? == some '#' then none
  else
    match trimLine line with
    | [] => none
    | '\\' :: '!' :: r => pattern false false ('!' :: r)
    | '\\' :: '#' :: r => pattern false false ('#' :: r)
    | '!' :: r => anchor true r
    | cs => anchor false cs

/-- The patterns of an ignore file. A mark of byte order at its start does not count. -/
def patterns (text : String) : List Pattern :=
  let cs := match text.toList with
    | '\ufeff' :: r => r
    | cs => cs
  (cs.splitOnP (· == '\n')).filterMap patternOfLine

/-! ## Verdicts -/

/-- Whether the last pattern that applies keeps the entry. -/
def verdict? (ps : List Pattern) (names : List String) (isDirectory : Bool) : Option Bool :=
  (ps.reverse.find? (·.applies names isDirectory)).map (·.keeps)

/-- What the files of one name say of an entry, the nearest one that says anything. -/
def verdictOf? (d : Disk) (fileName : String) (p : Disk.Place) (isDirectory : Bool) : Option Bool :=
  p.above.reverse.findSome? fun dir =>
    (d.text? (dir ++ [fileName])).bind fun text =>
      verdict? (patterns text) (p.drop dir.length) isDirectory

def isIgnored (d : Disk) (p : Disk.Place) (isDirectory : Bool) : Bool :=
  ((verdictOf? d ".ignore" p isDirectory).or (verdictOf? d ".gitignore" p isDirectory)) == some false

end Workbench.Ignore
