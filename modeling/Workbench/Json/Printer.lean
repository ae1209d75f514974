import Workbench.Json.Basic

/-!
# Writing JSON

`Json.compact` writes no spaces. `Json.pretty` indents by two spaces and puts
each element on a line of its own; empty containers stay closed.
-/

namespace Workbench.Json

def hexDigits (width n : Nat) : List Char :=
  let ds := Nat.toDigits 16 n
  List.replicate (width - ds.length) '0' ++ ds

def escapeChar (c : Char) : List Char :=
  if c == '"' then ['\\', '"']
  else if c == '\\' then ['\\', '\\']
  else if c == '\n' then ['\\', 'n']
  else if c == '\r' then ['\\', 'r']
  else if c == '\t' then ['\\', 't']
  else if c.toNat = 8 then ['\\', 'b']
  else if c.toNat = 12 then ['\\', 'f']
  else if c.toNat < 32 then '\\' :: 'u' :: hexDigits 4 c.toNat
  else [c]

def quote (s : String) : String := .ofList ('"' :: s.toList.flatMap escapeChar ++ ['"'])

def Number.render : Number → String
  | .nat n => toString n
  | .negSucc n => "-" ++ toString (n + 1)
  | .real negative digits power => (if negative then "-" else "") ++ Decimal.render digits power

mutual

def compact : Json → String
  | .null => "null"
  | .bool b => if b then "true" else "false"
  | .num n => n.render
  | .str s => quote s
  | .arr xs => "[" ++ ",".intercalate (compactItems xs) ++ "]"
  | .obj fields => "\x7b" ++ ",".intercalate (compactFields fields) ++ "\x7d"

def compactItems : List Json → List String
  | [] => []
  | x :: r => compact x :: compactItems r

def compactFields : List (String × Json) → List String
  | [] => []
  | (k, v) :: r => (quote k ++ ":" ++ compact v) :: compactFields r

end

def newline (depth : Nat) : String := .ofList ('\n' :: List.replicate (2 * depth) ' ')

def enclose (opening closing : String) (depth : Nat) (parts : List String) : String :=
  if parts.isEmpty then opening ++ closing
  else
    opening ++ newline (depth + 1) ++ ("," ++ newline (depth + 1)).intercalate parts ++
      newline depth ++ closing

mutual

def prettyAt (depth : Nat) : Json → String
  | .null => "null"
  | .bool b => if b then "true" else "false"
  | .num n => n.render
  | .str s => quote s
  | .arr xs => enclose "[" "]" depth (prettyItems (depth + 1) xs)
  | .obj fields => enclose "\x7b" "\x7d" depth (prettyFields (depth + 1) fields)

def prettyItems (depth : Nat) : List Json → List String
  | [] => []
  | x :: r => prettyAt depth x :: prettyItems depth r

def prettyFields (depth : Nat) : List (String × Json) → List String
  | [] => []
  | (k, v) :: r => (quote k ++ ": " ++ prettyAt depth v) :: prettyFields depth r

end

def pretty (j : Json) : String := prettyAt 0 j

end Workbench.Json
