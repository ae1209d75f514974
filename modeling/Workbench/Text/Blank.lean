/-!
# White space

`isBlank` is the Unicode property White_Space. Trimming and the joining of
blanks are stated on lists of characters.
-/

namespace Workbench.Text

def isBlank (c : Char) : Bool :=
  let n := c.toNat
  (9 ≤ n && n ≤ 13) || n == 0x20 || n == 0x85 || n == 0xa0 || n == 0x1680 ||
    (0x2000 ≤ n && n ≤ 0x200a) || n == 0x2028 || n == 0x2029 || n == 0x202f || n == 0x205f ||
    n == 0x3000

def trimStart (cs : List Char) : List Char := cs.dropWhile isBlank

def dropEndWhile (p : Char → Bool) : List Char → List Char
  | [] => []
  | c :: r =>
    match dropEndWhile p r with
    | [] => if p c then [] else [c]
    | d :: r' => c :: d :: r'

def trimEnd (cs : List Char) : List Char := dropEndWhile isBlank cs

def trim (cs : List Char) : List Char := trimEnd (trimStart cs)

def joinBlanks : List Char → List Char
  | [] => []
  | [c] => if isBlank c then [' '] else [c]
  | c :: d :: r =>
    if isBlank c then
      if isBlank d then joinBlanks (d :: r) else ' ' :: joinBlanks (d :: r)
    else c :: joinBlanks (d :: r)

def words (cs : List Char) : List (List Char) :=
  (cs.splitOnP isBlank).filter (!·.isEmpty)

end Workbench.Text

namespace Workbench

def trim (s : String) : String := .ofList (Text.trim s.toList)

/-- The text between each two occurrences of `sep`; always at least one part. -/
def splitOnChar (sep : Char) (s : String) : List String :=
  (s.toList.splitOnP (· == sep)).map .ofList

end Workbench
