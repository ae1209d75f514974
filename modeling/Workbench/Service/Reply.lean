import Workbench.Service.Request
import Workbench.Service.Run

/-!
# Replies

Every request line is answered by one reply, which repeats the id of the
request and holds a result or a fault. A line that is no request is answered
too, without an id. Blank lines are not answered.
-/

namespace Workbench.Service

structure Reply where
  id : Json
  outcome : Result Json

def Reply.toJson (r : Reply) : Json :=
  .object [("id", r.id), match r.outcome with
    | .ok j => ("result", j)
    | .error f => ("error", f.toJson)]

section
variable {σ : Type} (h : Host σ) (m : CodeModel) (limits : Limits)

def answer (r : Request) : StateM σ Reply := do
  return ⟨r.id, ← (handle h m limits r.method r.params .never).run⟩

def respond (line : String) : StateM σ Reply :=
  match Request.parse line with
  | .ok r => answer h m limits r
  | .error e => return ⟨.null, .error (.invalidRequest (.unreadable e.render))⟩

end

/-- The request of a single call whose arguments and id are given as JSON text. An id that is no JSON is the
text itself. -/
def singleRequest (method params id : String) : Except String Request :=
  match Json.parse params with
  | .error e => .error ("parse params JSON: " ++ e.render)
  | .ok params =>
    .ok ⟨match Json.parse id with
      | .ok j => j
      | .error _ => .str id, method, params⟩

/-! ## Lines of input -/

def inputLines (input : String) : List String :=
  let lines := splitOnChar '\n' input
  (if lines.getLast? == some "" then lines.dropLast else lines).map fun l =>
    match l.toList.reverse with
    | '\r' :: r => .ofList r.reverse
    | _ => l

/-- Answers the lines that are not blank, in turn. -/
def serve {σ} (reply : String → StateM σ (Option Json)) : List String → StateM σ (List Json)
  | [] => return []
  | line :: rest =>
    if trim line = "" then serve reply rest
    else do
      let first ← reply line
      return first.toList ++ (← serve reply rest)

def serveRequests {σ} (h : Host σ) (m : CodeModel) (limits : Limits) (lines : List String) : StateM σ (List Json) :=
  serve (fun line => do return some (← respond h m limits line).toJson) lines

end Workbench.Service
