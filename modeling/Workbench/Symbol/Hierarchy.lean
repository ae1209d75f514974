import Workbench.Symbol.Index

/-!
# Type hierarchies

Base lists name types by simple name. `typeChain` walks from some types to
their bases, breadth first, each type once; `implementations` are the types
and members on the other side of such chains.
-/

namespace Workbench.SymbolIndex

/-- The types that one step leads to: the bases, and the type around when asked for. -/
def above (ix : SymbolIndex) (outer : Bool) (s : Symbol) : List Symbol :=
  (s.bases.flatMap fun b => ix.typesNamed (Symbol.simpleTypeName b)) ++
    (match outer, s.container with
    | true, some c => (ix.byQualname c).filter (·.kind.isType)
    | _, _ => [])

def without (s : Symbol) (left : List Symbol) : List Symbol := left.filter (·.id != s.id)

theorem length_without_lt {s : Symbol} {left : List Symbol} (h : left.any (·.id == s.id) = true) :
    (without s left).length < left.length := by
  obtain ⟨x, hx, he⟩ := List.any_eq_true.1 h
  refine Nat.lt_of_le_of_ne (List.length_filter_le _ _) fun heq => ?_
  have := List.length_filter_eq_length_iff.1 heq x hx
  simp_all

/-- Breadth-first walk. `left` holds what has not been visited; a visited symbol leaves it. -/
def visit (next : Symbol → List Symbol) (left queue : List Symbol) : List Symbol :=
  match queue with
  | [] => []
  | s :: r =>
    if _h : left.any (·.id == s.id) = true then s :: visit next (without s left) (r ++ next s)
    else visit next left r
termination_by (left.length, queue.length)
decreasing_by
  · exact Prod.Lex.left _ _ (length_without_lt (by assumption))
  · exact Prod.Lex.right _ (by simp)

def typeChain (ix : SymbolIndex) (start : List Symbol) (outer : Bool) : List Symbol :=
  visit (ix.above outer) (start ++ ix.symbols) start

def derivesFrom (ix : SymbolIndex) (s base : Symbol) : Bool :=
  s.id != base.id && (ix.typeChain [s] false).any (·.id == base.id)

def derivedTypes (ix : SymbolIndex) (base : Symbol) : List Symbol :=
  ix.symbols.filter fun s => s.kind.isType && ix.derivesFrom s base

/-- The first type that carries the name of the symbol's container. -/
def containerType? (ix : SymbolIndex) (s : Symbol) : Option Symbol :=
  s.container.bind fun c => (ix.byQualname c).find? (·.kind.isType)

def isOverridable (container s : Symbol) : Bool :=
  container.kind == .interface || s.hasModifier "abstract" || s.hasModifier "virtual"

def sameMember (s m : Symbol) : Bool :=
  m.kind == s.kind && m.name == s.name && m.signature == s.signature

def unsortedImplementations (ix : SymbolIndex) (s : Symbol) : List Symbol :=
  if s.kind.isType then ix.derivedTypes s
  else if s.kind == .method || s.kind == .property then
    match ix.containerType? s with
    | none => []
    | some container =>
      if isOverridable container s then
        (ix.derivedTypes container).flatMap fun t => (ix.membersOf t.qualname).filter (sameMember s)
      else []
  else []

def implementations (ix : SymbolIndex) (s : Symbol) : List Symbol :=
  Ordered.dedupBy (·.id == ·.id) ((ix.unsortedImplementations s).mergeSort byQualnameThenId)

end Workbench.SymbolIndex
