import Workbench.Symbol.Basic

/-!
# Diagnostics

A diagnostic says what is wrong with a span of a document. Its id names the
kind of finding and decides which fixes are offered.
-/

namespace Workbench

inductive Severity where
  | hidden | info | warning | error
deriving DecidableEq, Repr

def Severity.text : Severity → String
  | .hidden => "hidden"
  | .info => "info"
  | .warning => "warning"
  | .error => "error"

structure Diagnostic where
  id : String
  message : String
  severity : Severity
  location : Location
deriving DecidableEq, Repr

namespace Diagnostic

def path (d : Diagnostic) : String := d.location.path

def span (d : Diagnostic) : Span := d.location.span

def before (a b : Diagnostic) : Bool :=
  ((compare a.span.start b.span.start)
    |>.then (compare a.span.length b.span.length)
    |>.then (compare a.id b.id)).isLE

end Diagnostic

end Workbench
