import Workbench.Cancellation
import Workbench.CodeModel
import Workbench.Host
import Workbench.Symbol.Identity

/-!
# Call graphs

The call graph around a symbol has the calls between symbols that are less than
a given number of steps away. Each direction is walked on its own, layer by
layer; edges are unique and sorted by their two ends and place.
-/

namespace Workbench

inductive Direction where
  | incoming | outgoing | both
deriving DecidableEq, Repr

namespace Direction

def text : Direction → String
  | .incoming => "incoming"
  | .outgoing => "outgoing"
  | .both => "both"

def parse (raw : String) : Result Direction :=
  let t := Snapshot.lowerAscii (trim raw)
  if t = "incoming" then .ok .incoming
  else if t = "outgoing" then .ok .outgoing
  else if t = "both" then .ok .both
  else .error (.invalidInput (.unknownDirection t))

def goesIn (d : Direction) : Bool := d != .outgoing

def goesOut (d : Direction) : Bool := d != .incoming

end Direction

structure CallEdge where
  source : String
  target : String
  location : Location
deriving DecidableEq, Repr

namespace CallEdge

def compareAll (a b : CallEdge) : Ordering :=
  (compare a.source b.source)
    |>.then (compare a.target b.target)
    |>.then (Location.compareAll a.location b.location)

end CallEdge

namespace CallGraph

structure Request where
  symbolId : String
  direction : String
  maxDepth : Option Nat
deriving DecidableEq, Repr

/-- The depth that is walked: what is asked for, but at least 1 and at most the limit. -/
def clamp (limit : Nat) (requested : Option Nat) : Nat :=
  let limit := max limit 1
  min (max (requested.getD limit) 1) limit

/-! ## Walking -/

/-- The calls at one symbol, with the symbol at the other end of each. -/
abbrev Neighbors := Symbol → Result (List (String × Location))

def callersOf (v : CodeView) : Neighbors := fun s => (v.callers s).map (·.map fun r => (r.caller, r.location))

def calleesOf (v : CodeView) : Neighbors := fun s => (v.callSites s).map (·.map fun r => (r.callee, r.location))

def edge (incoming : Bool) (here other : String) (l : Location) : CallEdge :=
  if incoming then ⟨other, here, l⟩ else ⟨here, other, l⟩

/-- What a walk has found: edges, the symbols seen, and those of them that come next. -/
structure Frontier where
  edges : List CallEdge := []
  seen : List String
  next : List String := []

def Frontier.meet (incoming : Bool) (here : String) (w : Frontier) (n : String × Location) : Frontier :=
  { edges := w.edges ++ [edge incoming here n.1 n.2]
    seen := if w.seen.contains n.1 then w.seen else w.seen ++ [n.1]
    next := if w.seen.contains n.1 then w.next else w.next ++ [n.1] }

/-- Adds the calls at each symbol of a layer. An id that resolves to nothing has none. -/
def expand (ix : SymbolIndex) (incoming : Bool) (neighbors : Neighbors) (w : Frontier) :
    List String → Cancellable Frontier
  | [] => return w
  | id :: rest => do
    checkCancelled
    match ix.resolve id with
    | none => expand ix incoming neighbors w rest
    | some s => expand ix incoming neighbors ((← neighbors s).foldl (Frontier.meet incoming id) w) rest

/-- The edges of `depth` layers from the current one on. The symbols behind the last layer are not expanded. -/
def layers (ix : SymbolIndex) (incoming : Bool) (neighbors : Neighbors) :
    Nat → List String → List String → Cancellable (List CallEdge)
  | 0, _, layer => do
    layer.forM fun _ => checkCancelled
    return []
  | depth + 1, seen, layer => do
    let w ← expand ix incoming neighbors { seen := seen } layer
    return w.edges ++ (← layers ix incoming neighbors depth w.seen w.next)

def walk (ix : SymbolIndex) (incoming : Bool) (neighbors : Neighbors) (depth : Nat) (root : String) :
    Cancellable (List CallEdge) :=
  layers ix incoming neighbors depth [root] [root]

/-! ## The graph -/

structure Graph where
  version : Nat
  root : Symbol
  direction : Direction
  depth : Nat
  nodeCount : Nat
  nodes : List Symbol
  edges : List CallEdge

/-- The text of the line that a place is on, blanks joined. -/
def lineAt (s : Snapshot) (l : Location) : Option String := do
  let cs := (← s.text? l.path).toList
  let (before, after) ← Text.splitAt? cs (min l.span.start (Text.size cs))
  let start := Text.size (Text.dropEndWhile (· != '\n') before)
  let stop := Text.size before + Text.size (after.takeWhile (· != '\n'))
  (Text.excerpt cs start stop).map .ofList

def sortEdges (es : List CallEdge) : List CallEdge :=
  Ordered.dedupBy (· == ·) (es.mergeSort fun a b => (a.compareAll b).isLE)

def edges (v : CodeView) (ix : SymbolIndex) (d : Direction) (depth : Nat) (root : String) :
    Cancellable (List CallEdge) := do
  let incoming ← if d.goesIn then walk ix true (callersOf v) depth root else pure []
  let outgoing ← if d.goesOut then walk ix false (calleesOf v) depth root else pure []
  return sortEdges (incoming ++ outgoing)

def around (m : CodeModel) (s : Snapshot) (version : Nat) (d : Direction) (rootId : String) (depth : Nat)
    (c : Cancellation) : Result Graph := do
  let v := m.view s
  let ix ← v.symbols
  match ix.resolve rootId with
  | none => .error (.invalidInput (.symbolNotFound rootId))
  | some root =>
    let (es, _) ← (edges v ix d depth rootId).run c
    let ids := Ordered.ofList (rootId :: es.flatMap fun e => [e.source, e.target])
    return ⟨version, root, d, depth, ids.length, ids.filterMap ix.resolve, es⟩

def build {σ} (h : Host σ) (m : CodeModel) (r : Request) (limit : Nat) (c : Cancellation) :
    Op σ (Graph × Snapshot) := do
  let d ← Op.ofResult (Direction.parse r.direction)
  let rootId := trim r.symbolId
  if !Symbol.isWellFormedId rootId then throw (.invalidInput (.malformedSymbolId rootId))
  let (s, version) ← h.snapshot
  let g ← Op.ofResult (around m s version d rootId (clamp limit r.maxDepth) c)
  return (g, s)

def edgeJson (s : Snapshot) (e : CallEdge) : Json :=
  .object ([("from", .str e.source), ("to", .str e.target), ("location", e.location.toJson)] ++
    optField "snippet" .str (lineAt s e.location))

def Graph.toJson (g : Graph) (s : Snapshot) : Json :=
  .object [("workspace_version", .nat g.version), ("root", g.root.brief), ("direction", .str g.direction.text),
    ("depth", .nat g.depth), ("node_count", .nat g.nodeCount), ("edge_count", .nat g.edges.length),
    ("nodes", .arr (g.nodes.map Symbol.brief)), ("edges", .arr (g.edges.map (edgeJson s)))]

end CallGraph

end Workbench
