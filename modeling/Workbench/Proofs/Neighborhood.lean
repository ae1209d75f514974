import Workbench.CSharp.Model
import Workbench.CSharp.Tree
import Workbench.Proofs.Indexing
import Workbench.Proofs.Walking

/-!
# The call graph is the bounded neighborhood

Around a symbol that the index knows, the call graph of a direction and depth
has exactly the calls at symbols that are fewer than `depth` steps away, in
strictly ascending order. The nodes are the root and the ends of the edges.
-/

namespace Workbench.CallGraph

/-! ## Calls of a view -/

/-- The symbol that `x` resolves to has a call site at `l` that names `y`. -/
def CallsAt (v : CodeView) (ix : SymbolIndex) (x y : String) (l : Location) : Prop :=
  ∃ s sites, ix.resolve x = some s ∧ v.callSites s = .ok sites ∧ ⟨y, l⟩ ∈ sites

/-- The symbol that `x` resolves to has `y` as a caller at `l`. -/
def CalledAt (v : CodeView) (ix : SymbolIndex) (x y : String) (l : Location) : Prop :=
  ∃ s refs, ix.resolve x = some s ∧ v.callers s = .ok refs ∧ ⟨y, l⟩ ∈ refs

/-- The shortest path of `calls` from the root to `x` has fewer than `depth` steps. -/
def Near (calls : String → String → Location → Prop) (root : String) (depth : Nat) (x : String) : Prop :=
  ∃ n < depth, Distance (fun x y => ∃ l, calls x y l) root n x

/-- The edges that a graph of a direction has to have. -/
def Belongs (v : CodeView) (ix : SymbolIndex) (root : String) (depth : Nat) (d : Direction) (e : CallEdge) : Prop :=
  let outgoing := Near (CallsAt v ix) root depth e.source ∧ CallsAt v ix e.source e.target e.location
  let incoming := Near (CalledAt v ix) root depth e.target ∧ CalledAt v ix e.target e.source e.location
  match d with
  | .outgoing => outgoing
  | .incoming => incoming
  | .both => outgoing ∨ incoming

/-- Every id at the other end of a call in the direction is that of a symbol. -/
structure NeighborsResolve (v : CodeView) (ix : SymbolIndex) (d : Direction) : Prop where
  callees : d.goesOut → ∀ x y l, CallsAt v ix x y l → ∃ s, ix.resolve y = some s
  callers : d.goesIn → ∀ x y l, CalledAt v ix x y l → ∃ s, ix.resolve y = some s

/-- The root and the ends of the edges. -/
def Graph.IsEnd (g : Graph) (root id : String) : Prop :=
  id = root ∨ ∃ e ∈ g.edges, id = e.source ∨ id = e.target

/-- The nodes are exactly the symbols at the root and at the ends of the edges, each once. -/
structure Graph.NodesExact (ix : SymbolIndex) (root : String) (g : Graph) : Prop where
  count : g.nodeCount = g.nodes.length
  ascending : Ordered.Ascending Symbol.id g.nodes
  mem_iff : ∀ s, s ∈ g.nodes ↔ ix.resolve s.id = some s ∧ g.IsEnd root s.id
  all : ∀ id, g.IsEnd root id → ∃ s ∈ g.nodes, s.id = id

/-- What a call graph has to be. -/
structure Graph.IsNeighborhood (v : CodeView) (ix : SymbolIndex) (root : String) (d : Direction) (depth : Nat)
    (g : Graph) : Prop where
  root_eq : ix.resolve root = some g.root
  direction_eq : g.direction = d
  depth_eq : g.depth = depth
  edge_iff : ∀ e, e ∈ g.edges ↔ Belongs v ix root depth d e
  ascending : g.edges.Pairwise fun a b => a.compareAll b = .lt
  nodup : g.edges.Nodup
  nodes : NeighborsResolve v ix d → g.NodesExact ix root

/-- The code model gives the callers and call sites of all symbols. -/
structure Answers (v : CodeView) (ix : SymbolIndex) : Prop where
  callers : ∀ s ∈ ix.symbols, ∃ refs, v.callers s = .ok refs
  callSites : ∀ s ∈ ix.symbols, ∃ sites, v.callSites s = .ok sites

section
variable {v : CodeView} {ix : SymbolIndex} {root : String} {depth : Nat}

/-! ## The two walks -/

theorem meets_map {α : Type} {found : Symbol → Result (List α)} {ends : α → String × Location} {x y : String}
    {l : Location} : Meets ix (fun s => (found s).map (·.map ends)) x y l ↔
      ∃ s as, ix.resolve x = some s ∧ found s = .ok as ∧ ∃ a ∈ as, ends a = (y, l) := by
  constructor
  · rintro ⟨s, ns, hs, hns, hm⟩
    obtain ⟨as, has, rfl⟩ := Result.map_eq_ok.1 hns
    exact ⟨s, as, hs, has, List.mem_map.1 hm⟩
  · rintro ⟨s, as, hs, has, ha⟩
    exact ⟨s, as.map ends, hs, Result.map_eq_ok.2 ⟨as, has, rfl⟩, List.mem_map.2 ha⟩

theorem meets_calleesOf {x y : String} {l : Location} : Meets ix (calleesOf v) x y l ↔ CallsAt v ix x y l := by
  have hend : ∀ sites : List CallSite, (∃ a ∈ sites, (a.callee, a.location) = (y, l)) ↔ ⟨y, l⟩ ∈ sites := by
    intro sites
    constructor
    · rintro ⟨a, ha, he⟩
      cases he
      exact ha
    · exact fun h => ⟨_, h, rfl⟩
  unfold calleesOf
  simp only [meets_map, hend, CallsAt]

theorem meets_callersOf {x y : String} {l : Location} : Meets ix (callersOf v) x y l ↔ CalledAt v ix x y l := by
  have hend : ∀ refs : List CallerRef, (∃ a ∈ refs, (a.caller, a.location) = (y, l)) ↔ ⟨y, l⟩ ∈ refs := by
    intro refs
    constructor
    · rintro ⟨a, ha, he⟩
      cases he
      exact ha
    · exact fun h => ⟨_, h, rfl⟩
  unfold callersOf
  simp only [meets_map, hend, CalledAt]

theorem walk_near {neighbors : Neighbors} {calls : String → String → Location → Prop} (incoming : Bool)
    (hfound : ∀ s ∈ ix.symbols, ∃ ns, neighbors s = .ok ns)
    (hmeets : ∀ x y l, Meets ix neighbors x y l ↔ calls x y l) (depth : Nat) (root : String) :
    ∃ es, Cancellable.Yields (walk ix incoming neighbors depth root) es ∧
      ∀ e, e ∈ es ↔ ∃ x y l, Near calls root depth x ∧ calls x y l ∧ e = edge incoming x y l := by
  obtain ⟨es, hy, hmem⟩ := walk_yields incoming hfound depth root
  have hstep : Step ix neighbors = fun x y => ∃ l, calls x y l := by
    funext x y
    simp only [Step, hmeets]
  refine ⟨es, hy, fun e => ?_⟩
  rw [hmem, hstep]
  simp only [hmeets, Near]
  constructor
  · rintro ⟨n, x, y, l, hn, hd, hc⟩
    exact ⟨x, y, l, ⟨n, hn, hd⟩, hc⟩
  · rintro ⟨x, y, l, ⟨n, hn, hd⟩, hc⟩
    exact ⟨n, x, y, l, hn, hd, hc⟩

theorem walk_outgoing (h : Answers v ix) (depth : Nat) (root : String) :
    ∃ es, Cancellable.Yields (walk ix false (calleesOf v) depth root) es ∧
      ∀ e, e ∈ es ↔ Belongs v ix root depth .outgoing e := by
  have hfound : ∀ s ∈ ix.symbols, ∃ ns, calleesOf v s = .ok ns := by
    intro s hs
    obtain ⟨sites, hsites⟩ := h.callSites s hs
    exact ⟨_, Result.map_eq_ok.2 ⟨sites, hsites, rfl⟩⟩
  obtain ⟨es, hy, hmem⟩ := walk_near false hfound (fun _ _ _ => meets_calleesOf) depth root
  refine ⟨es, hy, fun e => (hmem e).trans ?_⟩
  constructor
  · rintro ⟨x, y, l, hn, hc, rfl⟩
    exact ⟨hn, hc⟩
  · rintro ⟨hn, hc⟩
    exact ⟨_, _, _, hn, hc, rfl⟩

theorem walk_incoming (h : Answers v ix) (depth : Nat) (root : String) :
    ∃ es, Cancellable.Yields (walk ix true (callersOf v) depth root) es ∧
      ∀ e, e ∈ es ↔ Belongs v ix root depth .incoming e := by
  have hfound : ∀ s ∈ ix.symbols, ∃ ns, callersOf v s = .ok ns := by
    intro s hs
    obtain ⟨refs, hrefs⟩ := h.callers s hs
    exact ⟨_, Result.map_eq_ok.2 ⟨refs, hrefs, rfl⟩⟩
  obtain ⟨es, hy, hmem⟩ := walk_near true hfound (fun _ _ _ => meets_callersOf) depth root
  refine ⟨es, hy, fun e => (hmem e).trans ?_⟩
  constructor
  · rintro ⟨x, y, l, hn, hc, rfl⟩
    exact ⟨hn, hc⟩
  · rintro ⟨hn, hc⟩
    exact ⟨_, _, _, hn, hc, rfl⟩

theorem edges_yields (h : Answers v ix) (d : Direction) (depth : Nat) (root : String) :
    ∃ es, Cancellable.Yields (edges v ix d depth root) (sortEdges es) ∧ ∀ e, e ∈ es ↔ Belongs v ix root depth d e := by
  obtain ⟨outs, houts, hout⟩ := walk_outgoing h depth root
  obtain ⟨ins, hins, hin⟩ := walk_incoming h depth root
  cases d with
  | incoming =>
    refine ⟨ins ++ [], hins.bind ((Cancellable.Yields.pure []).bind (.pure _)), fun e => ?_⟩
    simpa using hin e
  | outgoing =>
    refine ⟨[] ++ outs, (Cancellable.Yields.pure []).bind (houts.bind (.pure _)), fun e => ?_⟩
    simpa using hout e
  | both =>
    refine ⟨ins ++ outs, hins.bind (houts.bind (.pure _)), fun e => ?_⟩
    rw [List.mem_append, hin, hout]
    exact or_comm

/-! ## Depth -/

theorem clamp_bounds (limit : Nat) (requested : Option Nat) :
    1 ≤ clamp limit requested ∧ clamp limit requested ≤ max limit 1 := by
  simp only [clamp]
  omega

theorem clamp_of_within {limit depth : Nat} (hpos : 1 ≤ depth) (hle : depth ≤ limit) :
    clamp limit (some depth) = depth := by
  simp only [clamp, Option.getD_some]
  omega

theorem Near.mono {calls : String → String → Location → Prop} {depth' : Nat} {x : String} (hle : depth ≤ depth')
    (h : Near calls root depth x) : Near calls root depth' x := by
  obtain ⟨n, hn, hd⟩ := h
  exact ⟨n, Nat.lt_of_lt_of_le hn hle, hd⟩

theorem Belongs.mono {d : Direction} {depth' : Nat} {e : CallEdge} (hle : depth ≤ depth')
    (h : Belongs v ix root depth d e) : Belongs v ix root depth' d e := by
  cases d with
  | incoming => exact ⟨h.1.mono hle, h.2⟩
  | outgoing => exact ⟨h.1.mono hle, h.2⟩
  | both =>
    rcases h with h | h
    · exact .inl ⟨h.1.mono hle, h.2⟩
    · exact .inr ⟨h.1.mono hle, h.2⟩

/-! ## Nodes -/

/-- Where neighbors resolve, both ends of an edge that belongs to the graph do. -/
theorem Belongs.ends_resolve {d : Direction} {e : CallEdge} (hres : NeighborsResolve v ix d)
    (h : Belongs v ix root depth d e) :
    (∃ s, ix.resolve e.source = some s) ∧ ∃ s, ix.resolve e.target = some s := by
  have hout : d.goesOut → CallsAt v ix e.source e.target e.location →
      (∃ s, ix.resolve e.source = some s) ∧ ∃ s, ix.resolve e.target = some s := by
    intro hd hc
    have ht := hres.callees hd _ _ _ hc
    obtain ⟨s, -, hs, -⟩ := hc
    exact ⟨⟨s, hs⟩, ht⟩
  have hin : d.goesIn → CalledAt v ix e.target e.source e.location →
      (∃ s, ix.resolve e.source = some s) ∧ ∃ s, ix.resolve e.target = some s := by
    intro hd hc
    have ht := hres.callers hd _ _ _ hc
    obtain ⟨s, -, hs, -⟩ := hc
    exact ⟨ht, ⟨s, hs⟩⟩
  cases d with
  | incoming => exact hin rfl h.2
  | outgoing => exact hout rfl h.2
  | both =>
    rcases h with h | h
    · exact hout rfl h.2
    · exact hin rfl h.2

/-- The ids of the nodes of a graph: the root and the ends of the edges, ascending. -/
def endIds (root : String) (es : List CallEdge) : List String :=
  Ordered.ofList (root :: es.flatMap fun e => [e.source, e.target])

theorem mem_endIds {id : String} {es : List CallEdge} :
    id ∈ endIds root es ↔ id = root ∨ ∃ e ∈ es, id = e.source ∨ id = e.target := by
  simp [endIds, Ordered.mem_ofList]

/-- Looking up ascending ids that all resolve gives that many symbols, in the same order. -/
theorem map_id_filterMap_resolve {ids : List String} (h : ∀ id ∈ ids, ∃ s, ix.resolve id = some s) :
    (ids.filterMap ix.resolve).map Symbol.id = ids := by
  induction ids with
  | nil => rfl
  | cons id rest ih =>
    obtain ⟨s, hs⟩ := h id List.mem_cons_self
    have hid : s.id = id := (SymbolIndex.mem_of_resolve hs).2
    rw [List.filterMap_cons_some hs, List.map_cons, hid, ih fun i hi => h i (List.mem_cons_of_mem id hi)]

theorem nodesExact {g : Graph} (hcount : g.nodeCount = (endIds root g.edges).length)
    (hnodes : g.nodes = (endIds root g.edges).filterMap ix.resolve)
    (hres : ∀ id, g.IsEnd root id → ∃ s, ix.resolve id = some s) : g.NodesExact ix root := by
  have hends : ∀ id ∈ endIds root g.edges, ∃ s, ix.resolve id = some s := fun id hid => hres id (mem_endIds.1 hid)
  have hids : g.nodes.map Symbol.id = endIds root g.edges := hnodes ▸ map_id_filterMap_resolve hends
  have hmem : ∀ s, s ∈ g.nodes ↔ ix.resolve s.id = some s ∧ g.IsEnd root s.id := by
    intro s
    rw [hnodes, List.mem_filterMap]
    constructor
    · rintro ⟨id, hid, hs⟩
      obtain ⟨-, rfl⟩ := SymbolIndex.mem_of_resolve hs
      exact ⟨hs, mem_endIds.1 hid⟩
    · rintro ⟨hs, hid⟩
      exact ⟨s.id, mem_endIds.2 hid, hs⟩
  refine ⟨?_, ?_, hmem, ?_⟩
  · rw [hcount, ← hids, List.length_map]
  · have hasc : Ordered.Ascending id (g.nodes.map Symbol.id) := hids ▸ Ordered.ofList_ascending _
    exact List.pairwise_map.1 hasc
  · intro id hid
    obtain ⟨s, hs⟩ := hres id hid
    obtain ⟨-, rfl⟩ := SymbolIndex.mem_of_resolve hs
    exact ⟨s, (hmem s).2 ⟨hs, hid⟩, rfl⟩

end

/-! ## The graph -/

section
variable {m : CodeModel} {s : Snapshot} {ds : List Declared} {root : Symbol} {rootId : String}

theorem around_yields (hindex : (m.view s).symbols = .ok (.build ds)) (h : Answers (m.view s) (.build ds))
    (hroot : (SymbolIndex.build ds).resolve rootId = some root) (version : Nat) (d : Direction) (depth : Nat) :
    ∃ g : Graph, g.IsNeighborhood (m.view s) (.build ds) rootId d depth ∧
      around m s version d rootId depth .never = .ok g ∧
      ∀ c, around m s version d rootId depth c = .ok g ∨ around m s version d rootId depth c = .error .cancelled := by
  obtain ⟨es, hy, hmem⟩ := edges_yields h d depth rootId
  have hrun : ∀ c, around m s version d rootId depth c = ((edges (m.view s) (.build ds) d depth rootId).run c).map
      fun out => ⟨version, root, d, depth, (endIds rootId out.1).length,
        (endIds rootId out.1).filterMap (SymbolIndex.build ds).resolve, out.1⟩ := by
    intro c
    simp only [around, hindex, hroot, bind, Except.bind]
    cases (edges (m.view s) (.build ds) d depth rootId).run c <;> rfl
  let g : Graph := ⟨version, root, d, depth, (endIds rootId (sortEdges es)).length,
    (endIds rootId (sortEdges es)).filterMap (SymbolIndex.build ds).resolve, sortEdges es⟩
  have hedge : ∀ e, e ∈ g.edges ↔ Belongs (m.view s) (.build ds) rootId depth d e :=
    fun e => mem_sortEdges.trans (hmem e)
  have hstrict : g.edges.Pairwise fun a b => a.compareAll b = .lt := sortEdges_strict es
  refine ⟨g, ⟨hroot, rfl, rfl, hedge, hstrict, hstrict.imp ?_, fun hres => nodesExact rfl rfl ?_⟩, ?_, ?_⟩
  · rintro a b hlt rfl
    have heq : a.compareAll a = .eq := Std.ReflCmp.compare_self
    rw [heq] at hlt
    cases hlt
  · rintro id (rfl | ⟨e, he, hend⟩)
    · exact ⟨root, hroot⟩
    · obtain ⟨hsource, htarget⟩ := ((hedge e).1 he).ends_resolve hres
      rcases hend with rfl | rfl
      · exact hsource
      · exact htarget
  · rw [hrun, hy.never]
    rfl
  · intro c
    rw [hrun]
    rcases hy.always c with ⟨c', hc⟩ | hc
    · exact .inl (by rw [hc]; rfl)
    · exact .inr (by rw [hc]; rfl)

/-- A graph that is given is the neighborhood of a symbol of the index. -/
theorem isNeighborhood_of_around (hindex : (m.view s).symbols = .ok (.build ds)) (h : Answers (m.view s) (.build ds))
    {version depth : Nat} {d : Direction} {c : Cancellation} {g : Graph}
    (hg : around m s version d rootId depth c = .ok g) :
    g.IsNeighborhood (m.view s) (.build ds) rootId d depth := by
  cases hroot : (SymbolIndex.build ds).resolve rootId with
  | none => simp [around, hindex, hroot, bind, Except.bind] at hg
  | some root =>
    obtain ⟨g', hg', -, halways⟩ := around_yields hindex h hroot version d depth
    rcases halways c with hok | herror
    · rw [hok] at hg
      cases hg
      exact hg'
    · rw [herror] at hg
      cases hg

end

/-- A request is answered from the snapshot that the host holds when it comes in. -/
theorem on_build {σ : Type} {h : Host σ} {m : CodeModel} {r : Request} {st st' : σ} {s : Snapshot} {version : Nat}
    {d : Direction} (hcurrent : h.current.run st = ((s, version), st'))
    (hdirection : Direction.parse r.direction = .ok d) (hid : Symbol.isWellFormedId (trim r.symbolId)) (limit : Nat)
    (c : Cancellation) :
    (build h m r limit c).on st =
      ((around m s version d (trim r.symbolId) (clamp limit r.maxDepth) c).map fun g => (g, s), st') := by
  have hsnapshot : h.snapshot.on st = (.ok (s, version), st') := by
    have : h.snapshot.on st = (.ok (h.current.run st).1, (h.current.run st).2) := rfl
    rw [this, hcurrent]
  simp only [build, hdirection, hid, Op.on_bind, Op.on_ofResult, Op.on_pure, hsnapshot, Bool.not_true,
    Bool.false_eq_true, if_false]
  cases around m s version d (trim r.symbolId) (clamp limit r.maxDepth) c <;> rfl

/-- On any host and code model, the call graph around a symbol of the index is the neighborhood of the clamped
depth, and a larger depth keeps every edge. Only the caller can stop it. -/
theorem build_exact {σ : Type} (h : Host σ) (m : CodeModel) (r : Request) (st st' : σ) (s : Snapshot) (version : Nat)
    (ds : List Declared) (d : Direction) (root : Symbol) (hcurrent : h.current.run st = ((s, version), st'))
    (hindex : (m.view s).symbols = .ok (.build ds)) (hanswers : Answers (m.view s) (.build ds))
    (hdirection : Direction.parse r.direction = .ok d)
    (hroot : (SymbolIndex.build ds).resolve (trim r.symbolId) = some root) :
    ∃ graph : Nat → Graph,
      (∀ requested limit, (build h m { r with maxDepth := requested } limit .never).on st =
        (.ok (graph (clamp limit requested), s), st')) ∧
      (∀ requested limit c,
        (build h m { r with maxDepth := requested } limit c).on st = (.ok (graph (clamp limit requested), s), st') ∨
        (build h m { r with maxDepth := requested } limit c).on st = (.error .cancelled, st')) ∧
      (∀ depth, (graph depth).IsNeighborhood (m.view s) (.build ds) (trim r.symbolId) d depth) ∧
      ∀ depth depth', depth ≤ depth' → ∀ e ∈ (graph depth).edges, e ∈ (graph depth').edges := by
  obtain ⟨graph, hgraph⟩ := Classical.axiomOfChoice fun depth => around_yields hindex hanswers hroot version d depth
  have hid := SymbolIndex.isWellFormedId_of_resolve hroot
  have hbuild : ∀ requested limit c, (build h m { r with maxDepth := requested } limit c).on st =
      ((around m s version d (trim r.symbolId) (clamp limit requested) c).map fun g => (g, s), st') :=
    fun requested limit c => on_build (r := { r with maxDepth := requested }) hcurrent hdirection hid limit c
  refine ⟨graph, ?_, ?_, fun depth => (hgraph depth).1, ?_⟩
  · intro requested limit
    rw [hbuild, (hgraph _).2.1]
    rfl
  · intro requested limit c
    rw [hbuild]
    rcases (hgraph (clamp limit requested)).2.2 c with hc | hc
    · exact .inl (by rw [hc]; rfl)
    · exact .inr (by rw [hc]; rfl)
  · intro depth depth' hle e he
    have hb := ((hgraph depth).1.edge_iff e).1 he
    exact ((hgraph depth').1.edge_iff e).2 (hb.mono hle)

/-- A session on a class whose constructor calls itself. -/
def selfCreation : Session :=
  .start (Snapshot.empty.addDocument "App" "a.cs" "class A { A() { new A(); } }" none)

/-- A request for the calls that the constructor makes. -/
def creationRequest : Request := ⟨"sym_8c6e7a141aba7ebf", "outgoing", none⟩

theorem build_exact_selfCreation : ∃ graph : Nat → Graph,
    (∀ requested limit, (build Session.host (CSharp.model CSharp.parse) { creationRequest with maxDepth := requested }
      limit .never).on selfCreation =
        (.ok (graph (clamp limit requested), selfCreation.snapshot), selfCreation)) ∧
    ∀ depth, 1 ≤ depth → ∃ e ∈ (graph depth).edges, e.source = e.target := by
  let c := CSharp.Compilation.ofSnapshot CSharp.parse selfCreation.snapshot
  have hknown : (c.index.resolve (trim creationRequest.symbolId)).isSome := by decide +kernel
  obtain ⟨root, hroot⟩ := Option.isSome_iff_exists.1 hknown
  obtain ⟨graph, hgraph, -, -, hmore⟩ := build_exact Session.host (CSharp.model CSharp.parse) creationRequest
    selfCreation selfCreation selfCreation.snapshot 1 (c.files.flatMap CSharp.declarations) .outgoing root
    rfl rfl ⟨fun _ _ => ⟨_, rfl⟩, fun _ _ => ⟨_, rfl⟩⟩ rfl hroot
  have hcall : ((build Session.host (CSharp.model CSharp.parse) { creationRequest with maxDepth := some 1 } 4
      .never).on selfCreation).1.toOption.any (·.1.edges.any fun e => e.source == e.target) := by decide +kernel
  rw [hgraph] at hcall
  obtain ⟨e, he, ht⟩ := List.any_eq_true.1 hcall
  exact ⟨graph, hgraph, fun depth hpos => ⟨e, hmore 1 depth hpos e he, beq_iff_eq.1 ht⟩⟩

end Workbench.CallGraph
