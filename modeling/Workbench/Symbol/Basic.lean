import Workbench.Span
import Workbench.Text.Line

/-!
# Symbols

A symbol is a namespace, type or member of the workspace. Partial
declarations of one symbol are merged, so a symbol has a list of them.
-/

namespace Workbench

inductive SymbolKind where
  | «namespace» | class_ | struct | interface | record | enum | method | constructor | property | field
deriving DecidableEq, Repr

namespace SymbolKind

def all : List SymbolKind :=
  [.namespace, .class_, .struct, .interface, .record, .enum, .method, .constructor, .property, .field]

def text : SymbolKind → String
  | .namespace => "namespace"
  | .class_ => "class"
  | .struct => "struct"
  | .interface => "interface"
  | .record => "record"
  | .enum => "enum"
  | .method => "method"
  | .constructor => "constructor"
  | .property => "property"
  | .field => "field"

def ofText? (s : String) : Option SymbolKind := all.find? fun k => k.text == s

def isType : SymbolKind → Bool
  | .class_ | .struct | .interface | .record | .enum => true
  | _ => false

def isCallable : SymbolKind → Bool
  | .method | .constructor => true
  | _ => false

end SymbolKind

structure Location where
  path : String
  line : Nat
  column : Nat
  span : Span
deriving DecidableEq, Repr

namespace Location

def ofSpan (path : String) (text : List Char) (span : Span) : Location :=
  let p := Text.lineCol text span.start
  ⟨path, p.1, p.2, span⟩

def display (l : Location) : String := l.path ++ ":" ++ toString l.line ++ ":" ++ toString l.column

def fields (l : Location) : List (String × Json) :=
  [("path", .str l.path), ("line", .nat l.line), ("column", .nat l.column)] ++ l.span.fields

def toJson (l : Location) : Json := .object l.fields

def compareAll (a b : Location) : Ordering :=
  (compare a.path b.path)
    |>.then (compare a.line b.line)
    |>.then (compare a.column b.column)
    |>.then (compare a.span.start b.span.start)
    |>.then (compare a.span.length b.span.length)

end Location

/-- One place where a symbol is declared; `extent` covers the whole declaration. -/
structure DeclarationSite where
  location : Location
  extent : Span
deriving DecidableEq, Repr

/-- A declaration as read from one document, before partial ones are merged. -/
structure Declared where
  kind : SymbolKind
  name : String
  qualname : String
  signature : Option String
  container : Option String
  parameterCount : Option Nat
  bases : List String
  modifiers : List String
  location : Location
  extent : Span
deriving DecidableEq, Repr

structure Symbol where
  id : String
  kind : SymbolKind
  name : String
  qualname : String
  signature : Option String
  container : Option String
  parameterCount : Option Nat
  bases : List String
  modifiers : List String
  declarations : List DeclarationSite
deriving DecidableEq, Repr

namespace Symbol

def primary? (s : Symbol) : Option Location := s.declarations.head?.map (·.location)

def hasModifier (s : Symbol) (m : String) : Bool := s.modifiers.contains m

/-- A list that is left out when it has no elements. -/
def listField (key : String) (xs : List String) : List (String × Json) :=
  if xs.isEmpty then [] else [(key, .strs xs)]

def toJson (s : Symbol) : Json :=
  .object ([("id", .str s.id), ("kind", .str s.kind.text), ("name", .str s.name),
      ("qualname", .str s.qualname)] ++
    optField "signature" .str s.signature ++ optField "container" .str s.container ++
    optField "parameter_count" .nat s.parameterCount ++
    listField "bases" s.bases ++ listField "modifiers" s.modifiers ++
    [("declarations", .arr (s.declarations.map fun d =>
      .object (d.location.fields ++ [("extent", d.extent.toJson)])))])

def brief (s : Symbol) : Json :=
  .object ([("id", .str s.id), ("kind", .str s.kind.text), ("name", .str s.name),
      ("qualname", .str s.qualname)] ++
    optField "path" (fun l : Location => .str l.path) s.primary? ++
    optField "line" (fun l : Location => .nat l.line) s.primary? ++
    optField "signature" .str s.signature)

end Symbol

end Workbench
