import Workbench.Json.Basic

/-!
# Spans

A span is a byte range of one document, given by its start and length. An
empty span is a point, and a point touches the ranges whose border it is on.
-/

namespace Workbench

structure Span where
  start : Nat
  length : Nat
deriving DecidableEq, Repr, Inhabited

namespace Span

def stop (s : Span) : Nat := s.start + s.length

def ofBounds (a b : Nat) : Span := ⟨a, b - a⟩

def isEmpty (s : Span) : Bool := s.length == 0

def intersects (s t : Span) : Bool :=
  if s.isEmpty || t.isEmpty then s.start ≤ t.stop && t.start ≤ s.stop
  else s.start < t.stop && t.start < s.stop

def contains (s t : Span) : Bool := s.start ≤ t.start && t.stop ≤ s.stop

def holds (s : Span) (n : Nat) : Bool := s.start ≤ n && n < s.stop

def fields (s : Span) : List (String × Json) := [("start", .nat s.start), ("length", .nat s.length)]

def toJson (s : Span) : Json := .object s.fields

end Span

end Workbench
