import Workbench.Ordered
import Workbench.Symbol.Identity
import Workbench.Text.Case

/-!
# The symbol index

All symbols of a snapshot in id order. Declarations with one id are merged:
the first gives the names, bases and modifiers are gathered, and the places of
declaration are sorted. Symbols are found by their names through tables of ids.
Look-ups answer in order of qualified name, then id.
-/

namespace Workbench

structure SymbolIndex where
  symbols : List Symbol
  ascending : Ordered.Ascending Symbol.id symbols

namespace SymbolIndex

/-! ## Building -/

def fresh (id : String) (d : Declared) : Symbol :=
  ⟨id, d.kind, d.name, d.qualname, d.signature, d.container, d.parameterCount, [], [], []⟩

def gather (known new : List String) : List String :=
  new.foldl (fun acc s => if acc.contains s then acc else acc ++ [s]) known

def absorb (s : Symbol) (d : Declared) : Symbol :=
  { s with
    bases := gather s.bases d.bases
    modifiers := gather s.modifiers d.modifiers
    declarations := s.declarations ++ [⟨d.location, d.extent⟩] }

def addDeclared (symbols : List Symbol) (d : Declared) : List Symbol :=
  let id := Symbol.idOf d.qualname d.signature d.kind
  let s := (Ordered.find? Symbol.id id symbols).getD (fresh id d)
  Ordered.put Symbol.id (absorb s d) symbols

/-- Sorts the places of declaration and keeps the first of each. -/
def settle (s : Symbol) : Symbol :=
  { s with
    declarations := Ordered.dedupBy (fun a b => a.location == b.location)
      (s.declarations.mergeSort fun a b => (Location.compareAll a.location b.location).isLE) }

theorem ascending_foldl {ds : List Declared} {symbols : List Symbol} (h : Ordered.Ascending Symbol.id symbols) :
    Ordered.Ascending Symbol.id (ds.foldl addDeclared symbols) := by
  induction ds generalizing symbols with
  | nil => exact h
  | cons d rest ih => exact ih (h.put _)

def build (ds : List Declared) : SymbolIndex where
  symbols := (ds.foldl addDeclared []).map settle
  ascending := List.pairwise_map.2 (ascending_foldl (Ordered.ascending_nil Symbol.id))

/-! ## Tables -/

/-- Ids under a text, such as those of the symbols that have it as a name. -/
abbrev Table := List (String × List String)

namespace Table

def add (key id : String) : Table → Table
  | [] => [(key, [id])]
  | (k, ids) :: r => if k = key then (k, ids ++ [id]) :: r else (k, ids) :: add key id r

def ids (t : Table) (key : String) : List String := (t.lookup key).getD []

def ofSymbols (key : Symbol → String) (symbols : List Symbol) : Table :=
  symbols.foldl (fun t s => add (key s) s.id t) []

end Table

def names (ix : SymbolIndex) : Table := .ofSymbols Symbol.name ix.symbols

def qualnames (ix : SymbolIndex) : Table := .ofSymbols Symbol.qualname ix.symbols

/-! ## Look-up -/

def resolve (ix : SymbolIndex) (id : String) : Option Symbol := Ordered.find? Symbol.id id ix.symbols

def byQualnameThenId (a b : Symbol) : Bool :=
  ((compare a.qualname b.qualname).then (compare a.id b.id)).isLE

/-- The symbols of some ids, by qualified name and id. -/
def collect (ix : SymbolIndex) (ids : List String) : List Symbol :=
  (ids.filterMap ix.resolve).mergeSort byQualnameThenId

def byName (ix : SymbolIndex) (name : String) : List Symbol := ix.collect (ix.names.ids name)

def byQualname (ix : SymbolIndex) (q : String) : List Symbol := ix.collect (ix.qualnames.ids q)

/-- The symbols that satisfy `p`, by qualified name and id. -/
def where_ (ix : SymbolIndex) (p : Symbol → Bool) : List Symbol :=
  (ix.symbols.filter p).mergeSort byQualnameThenId

def membersOf (ix : SymbolIndex) (container : String) : List Symbol :=
  ix.where_ (·.container == some container)

/-- Types by simple name, whatever their generic arity. -/
def typesNamed (ix : SymbolIndex) (name : String) : List Symbol :=
  ix.where_ fun s => s.kind.isType && Symbol.stripArity s.name == name

def occursIn (needle : List Char) : List Char → Bool
  | [] => needle.isEmpty
  | c :: r => needle.isPrefixOf (c :: r) || occursIn needle r

/-- How well a symbol fits a lower-case search text: 0 is best. -/
def rank? (needle : List Char) (s : Symbol) : Option Nat :=
  let name := Text.lower (Symbol.stripArity s.name).toList
  let qualname := Text.lower s.qualname.toList
  if name = needle ∨ qualname = needle then some 0
  else if needle.isPrefixOf name then some 1
  else if occursIn needle qualname then some 2
  else none

/-- Search without regard to case over names and qualified names; exact names come first. -/
def search (ix : SymbolIndex) (query : String) (kind : Option SymbolKind) (limit : Nat) : List Symbol :=
  let needle := Text.lower (Text.trim query.toList)
  if needle.isEmpty then []
  else
    let hits := (ix.symbols.filter fun s => kind.all (s.kind == ·)).filterMap fun s =>
      (rank? needle s).map fun r => (r, s)
    ((hits.mergeSort fun a b => a.1 < b.1 || (a.1 == b.1 && byQualnameThenId a.2 b.2)).map (·.2)).take limit

/-- Length of the shortest declaration in `path` around byte `offset`. -/
def tightest? (path : String) (offset : Nat) (s : Symbol) : Option Nat :=
  ((s.declarations.filter fun d => d.location.path == path && d.extent.holds offset).map
    (·.extent.length)).min?

/-- The symbols of some kinds with a declaration around a place, each with the length of its shortest one. -/
def around (ix : SymbolIndex) (path : String) (offset : Nat) (kinds : List SymbolKind) : List (Nat × Symbol) :=
  (ix.symbols.filter fun s => kinds.contains s.kind).filterMap fun s =>
    (tightest? path offset s).map fun n => (n, s)

/-- The shorter of two candidates; the earlier one when they are equally short. -/
def shorter (best : Option (Nat × Symbol)) (c : Nat × Symbol) : Option (Nat × Symbol) :=
  match best with
  | none => some c
  | some b => if c.1 < b.1 then some c else some b

def enclosing (ix : SymbolIndex) (path : String) (offset : Nat) (kinds : List SymbolKind) : Option Symbol :=
  ((ix.around path offset kinds).foldl shorter none).map (·.2)

end SymbolIndex

end Workbench
