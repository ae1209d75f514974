import Workbench.Action.Key
import Workbench.Fault
import Workbench.Text.Numeral

/-!
# Tokens

A token names an action against the workspace version at which it was found.
An action token has thirteen fields between bars, of which the free texts are
Base64; the title is left out. A fix token has seven, with only the path
encoded. A token that does not read is reported like one that is unknown.
-/

namespace Workbench

def tokenMark : String := "v1"

structure ActionToken where
  version : Nat
  profile : String
  action : Action
deriving DecidableEq, Repr

namespace ActionToken

def encode (a : Action) (version : Nat) (profile : String) : String :=
  joinBars [tokenMark, Numeral.render version, Base64.encodeText profile,
    Base64.encodeText a.origin.text, Base64.encodeText a.category, Base64.encodeText a.providerKey,
    Numeral.render a.span.start, Numeral.render a.span.length, Base64.encodeText a.filePath,
    Base64.encodeText (a.diagnosticId.getD ""), Base64.encodeText (a.refactoringId.getD ""),
    Numeral.render a.line, Numeral.render a.column]

/-- An optional text; the empty one stands for none. -/
def decodeOptional (s : String) : Option (Option String) :=
  (Base64.decodeText s).map fun t => if t = "" then none else some t

def parse (raw : String) : Option ActionToken :=
  match splitOnChar '|' raw with
  | [mark, version, profile, origin, category, key, start, length, path, diagnostic, refactoring,
      line, column] => do
    if mark ≠ tokenMark then none
    let action : Action := {
      title := ""
      category := ← Base64.decodeText category
      origin := ← Origin.ofText? (← Base64.decodeText origin)
      providerKey := ← Base64.decodeText key
      filePath := ← Base64.decodeText path
      span := ⟨← Numeral.parse start, ← Numeral.parse length⟩
      diagnosticId := ← decodeOptional diagnostic
      refactoringId := ← decodeOptional refactoring
      line := ← Numeral.parse line
      column := ← Numeral.parse column }
    some ⟨← Numeral.parse version, ← Base64.decodeText profile, action⟩
  | _ => none

def decode (raw : String) : Result ActionToken :=
  match parse (trim raw) with
  | some t => .ok t
  | none => .error (.actionNotFound raw)

def providerKey? (t : ActionToken) : Option ProviderKey := ProviderKey.decode t.action.providerKey

end ActionToken

structure FixToken where
  version : Nat
  operation : String
  diagnosticId : String
  span : Span
  filePath : String
deriving DecidableEq, Repr

namespace FixToken

def encode (t : FixToken) : String :=
  joinBars [tokenMark, Numeral.render t.version, t.operation, t.diagnosticId,
    Numeral.render t.span.start, Numeral.render t.span.length, Base64.encodeText t.filePath]

def parse (raw : String) : Option FixToken :=
  match splitOnChar '|' raw with
  | [mark, version, operation, diagnostic, start, length, path] => do
    if mark ≠ tokenMark ∨ operation = "" ∨ diagnostic = "" then none
    some ⟨← Numeral.parse version, operation, diagnostic,
      ⟨← Numeral.parse start, ← Numeral.parse length⟩, ← Base64.decodeText path⟩
  | _ => none

def decode (raw : String) : Result FixToken :=
  match parse (trim raw) with
  | some t => .ok t
  | none => .error (.fixNotFound raw)

end FixToken

end Workbench
