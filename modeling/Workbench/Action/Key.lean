import Workbench.Action.Basic
import Workbench.Text.Base64
import Workbench.Text.Blank

/-!
# Provider keys

A provider key says which rule offered an action, precisely enough to ask the
same rule for it again. Free text stands in it as Base64, so that a bar in a
title cannot break the fields apart.
-/

namespace Workbench

inductive ProviderKey where
  | codeFix (provider diagnosticId equivalenceKey title : String)
  | refactoring (provider equivalenceKey title : String)
  | builtin (kind : BuiltinKind)
deriving DecidableEq, Repr

def joinBars (fields : List String) : String := "|".intercalate fields

namespace ProviderKey

def encode : ProviderKey → String
  | .codeFix provider id key title =>
    joinBars ["cf", Base64.encodeText provider, Base64.encodeText id, Base64.encodeText key,
      Base64.encodeText title]
  | .refactoring provider key title =>
    joinBars ["rf", Base64.encodeText provider, Base64.encodeText key, Base64.encodeText title]
  | .builtin kind => kind.text

def decode (raw : String) : Option ProviderKey :=
  match splitOnChar '|' raw with
  | [mark, provider, id, key, title] =>
    if mark = "cf" then do
      some (.codeFix (← Base64.decodeText provider) (← Base64.decodeText id)
        (← Base64.decodeText key) (← Base64.decodeText title))
    else none
  | [mark, provider, key, title] =>
    if mark = "rf" then do
      some (.refactoring (← Base64.decodeText provider) (← Base64.decodeText key)
        (← Base64.decodeText title))
    else none
  | [single] => (BuiltinKind.ofText? single).map .builtin
  | _ => none

def toJson : ProviderKey → Json
  | .codeFix provider id key title =>
    .object [("type", .str "code_fix"), ("provider", .str provider), ("diagnostic_id", .str id),
      ("equivalence_key", .str key), ("title", .str title)]
  | .refactoring provider key title =>
    .object [("type", .str "refactoring"), ("provider", .str provider),
      ("equivalence_key", .str key), ("title", .str title)]
  | .builtin kind => .object [("type", .str "builtin"), ("kind", .str kind.text)]

end ProviderKey

end Workbench
