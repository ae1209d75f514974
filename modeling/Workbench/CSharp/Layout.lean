import Workbench.CSharp.Source

/-!
# Layout

Blanks at line ends go, leading tabs become spaces, runs of blank lines become
one, and the text ends with one line break. Lines that begin or end inside a
literal that spans lines are data and keep that end as it is.
-/

namespace Workbench.CSharp.Layout

def inside (spans : List Span) (n : Nat) : Bool := spans.any fun s => s.start < n && n < s.stop

/-- Spaces and tabs at the beginning, each tab as four spaces, and what follows. -/
def expandTabs : List Char → List Char
  | [] => []
  | c :: r =>
    if c == '\t' then ' ' :: ' ' :: ' ' :: ' ' :: expandTabs r
    else if c == ' ' then c :: expandTabs r
    else c :: r

structure Line where
  chars : List Char
  /-- Whether an end of the line lies in a literal. -/
  kept : Bool
deriving Repr

def Line.isBlank (l : Line) : Bool := l.chars.isEmpty && !l.kept

def content (raw : List Char) : List Char := if raw.getLast? == some '\r' then raw.dropLast else raw

/-- The raw line that begins at byte `start`, in its new form. -/
def line (spans : List Span) (start : Nat) (raw : List Char) : Line :=
  let cs := content raw
  let keepStart := inside spans start
  let keepEnd := inside spans (start + Text.size cs)
  let cs := if keepStart then cs else expandTabs cs
  ⟨if keepEnd then cs else Text.trimEnd cs, keepStart || keepEnd⟩

def linesFrom (spans : List Span) (start : Nat) : List (List Char) → List Line
  | [] => []
  | raw :: rest => line spans start raw :: linesFrom spans (start + Text.size raw + 1) rest

/-- Drops each blank line that follows a blank line; `above` tells whether one stands before these. -/
def squeeze (above : Bool) : List Line → List Line
  | [] => []
  | l :: rest =>
    if l.isBlank && above then squeeze above rest else l :: squeeze l.isBlank rest

def dropEnd : List Line → List Line
  | [] => []
  | l :: rest =>
    match dropEnd rest with
    | [] => if l.isBlank then [] else [l]
    | m :: rest' => l :: m :: rest'

def hasPairs : List Char → Bool
  | [] => false
  | c :: r => (c == '\r' && r.head? == some '\n') || hasPairs r

def newlineOf (cs : List Char) : List Char := if hasPairs cs then ['\r', '\n'] else ['\n']

def formatChars (cs : List Char) (spans : List Span) : List Char :=
  if (Text.trim cs).isEmpty then []
  else
    let ls := dropEnd (squeeze true (linesFrom spans 0 (cs.splitOnP (· == '\n'))))
    ls.flatMap fun l => l.chars ++ newlineOf cs

def formatText (source : String) (spans : List Span) : String := .ofList (formatChars source.toList spans)

def literalRanges (f : SourceFile) : List Span :=
  (((f.root.walk (fun n => !n.kind.isStringLiteral) []).map (·.node)).filter fun n =>
    n.kind.isStringLiteral && (f.text n).toList.contains '\n').map Node.span

end Workbench.CSharp.Layout
