import DeepProve.Outcome

/-!
# Port graphs

The directed graph of `graph/graph.rs`: nodes and edges are kept in two ordered
maps, an edge carries a list of port links and an optional weight. The graph
only ever changes through the methods below, each a `Call` on the graph.

Edge identifiers come from a counter shared by every graph of the process, so a
method that creates edges takes the identifiers it is handed as a parameter.
-/

namespace DeepProve

abbrev NodeId := Nat
abbrev EdgeId := Nat
abbrev PortId := Nat

/-- The nodes the graph is built of: the `i`-th input, an internal node, the
    `i`-th output. -/
inductive Node (L I O : Type) where
  | input (i : I)
  | inner (l : L)
  | output (o : O)
  deriving DecidableEq, Repr

namespace Node

variable {L I O : Type}

def isInner : Node L I O → Bool
  | .inner _ => true
  | _ => false

def asInner : Node L I O → Option L
  | .inner l => some l
  | _ => none

def asInput : Node L I O → Option I
  | .input i => some i
  | _ => none

def asOutput : Node L I O → Option O
  | .output o => some o
  | _ => none

end Node

/-- A link between an output port of a node and an input port of another. -/
structure PortLink where
  sourcePort : PortId
  targetPort : PortId
  deriving DecidableEq, Repr

abbrev Ports := List PortLink

/-- The single link between two consecutive nodes. -/
def Ports.consecutive : Ports := [⟨0, 0⟩]

/-- `sort_by_key(|p| p.source_port)`, which is stable. -/
def Ports.sorted (ports : Ports) : Ports :=
  ports.insertionSort fun p q => p.sourcePort ≤ q.sourcePort

theorem Ports.sorted_perm (ports : Ports) : (Ports.sorted ports).Perm ports :=
  List.perm_insertionSort _ _

structure Edge (W : Type) where
  source : NodeId
  target : NodeId
  ports : Ports
  weight : Option W
  deriving DecidableEq, Repr

/-- `Edge::new`. -/
def Edge.new {W : Type} (source target : NodeId) (ports : Ports) (weight : Option W) : Edge W :=
  { source, target, ports := Ports.sorted ports, weight }

structure Graph (N I O W : Type) where
  nodes : BTreeMap NodeId (Node N I O)
  edges : BTreeMap EdgeId (Edge W)

/-- Which edges of a node are asked for. -/
inductive Direction where
  | incoming
  | outgoing
  | any

namespace Graph

variable {N I O W : Type}

/-- A new, empty graph. -/
def new : Graph N I O W := { nodes := ∅, edges := ∅ }

/-! ## Reading the graph -/

/-- The edges touching `n` in the given direction, by increasing identifier. -/
def neighbors (g : Graph N I O W) (n : NodeId) (d : Direction) : List (EdgeId × Edge W) :=
  g.edges.toList.filter fun e =>
    match d with
    | .outgoing => e.2.source == n
    | .incoming => e.2.target == n
    | .any => e.2.source == n || e.2.target == n

def incomings (g : Graph N I O W) (n : NodeId) : List (EdgeId × Edge W) :=
  g.neighbors n .incoming

def outgoings (g : Graph N I O W) (n : NodeId) : List (EdgeId × Edge W) :=
  g.neighbors n .outgoing

/-- No edge leads into `n`. -/
def isSource (g : Graph N I O W) (n : NodeId) : Bool := (g.incomings n).isEmpty

def sourceNodes (g : Graph N I O W) : List NodeId := g.nodes.keys.filter g.isSource

def nodeCount (g : Graph N I O W) : Nat := g.nodes.size

/-- The target ports of the edges into `n`, edge by edge. -/
def targetPorts (g : Graph N I O W) (n : NodeId) : List PortId :=
  (g.incomings n).flatMap fun e => e.2.ports.map PortLink.targetPort

/-- An identifier not used in this graph. -/
def nextNodeId (g : Graph N I O W) : NodeId :=
  match g.nodes.keys.max? with
  | some n => n + 1
  | none => 0

variable {g : Graph N I O W}

@[simp] theorem mem_neighbors {n : NodeId} {d : Direction} {id : EdgeId} {e : Edge W} :
    (id, e) ∈ g.neighbors n d ↔ g.edges[id]? = some e ∧
      match d with
      | .outgoing => e.source = n
      | .incoming => e.target = n
      | .any => e.source = n ∨ e.target = n := by
  rw [neighbors, List.mem_filter, Std.ExtTreeMap.mem_toList_iff_getElem?_eq_some]
  cases d <;> simp

theorem mem_incomings {n : NodeId} {id : EdgeId} {e : Edge W} :
    (id, e) ∈ g.incomings n ↔ g.edges[id]? = some e ∧ e.target = n := mem_neighbors

theorem mem_outgoings {n : NodeId} {id : EdgeId} {e : Edge W} :
    (id, e) ∈ g.outgoings n ↔ g.edges[id]? = some e ∧ e.source = n := mem_neighbors

/-! ## Changing the graph -/

/-- `add_node_with_id`: an identifier already in use is reported, after the
    node under it has been replaced. -/
def addNodeWithId (id : NodeId) (node : Node N I O) : Call (Graph N I O W) Unit := do
  let old := (← get).nodes[id]?
  modify fun g => { g with nodes := g.nodes.insert id node }
  Call.lift (ensure old.isNone s!"N{id} already exists")

/-- `add_node`. -/
def addNode (node : Node N I O) : Call (Graph N I O W) NodeId := do
  let id := (← get).nextNodeId
  addNodeWithId id node
  pure id

def addInput (i : I) : Call (Graph N I O W) NodeId := addNode (.input i)

def addInner (x : N) : Call (Graph N I O W) NodeId := addNode (.inner x)

def addOutput (o : O) : Call (Graph N I O W) NodeId := addNode (.output o)

/-- Insert the ports one by one into the set of ports seen so far; a port
    already in it ends the loop. -/
def insertPorts (seen : Finset PortId) (ports : List PortId) : Option (Finset PortId) :=
  ports.foldlM (fun acc p => if p ∈ acc then none else some (insert p acc)) seen

/-- `check_consistency`: together with the ports already in use at
    `targetNode`, the new ports are pairwise distinct and fill `0..len`. -/
def checkConsistency (g : Graph N I O W) (targetNode : NodeId) (newPorts : List PortId) :
    Outcome Unit := do
  let set ← okOr (insertPorts ∅ (g.targetPorts targetNode)) "Ports are not consistent"
  let set ← okOr (insertPorts set newPorts) "Ports already used"
  ensure ((List.range set.card).all (· ∈ set)) "Ports are not consecutive"

/-- `add_edge_raw_with_id`: as for nodes, an edge under an existing identifier
    is replaced before the error is reported. -/
def addEdgeRawWithId (id : EdgeId) (edge : Edge W) : Call (Graph N I O W) Unit := do
  let old := (← get).edges[id]?
  modify fun g => { g with edges := g.edges.insert id edge }
  Call.lift (ensure old.isNone s!"Trying to insert an edge with an existing id {id}")

/-- One round of the loop of `add_edges_raw`; `id` is what `next_edge_id`
    returns in this round. -/
def addEdgeRaw (id : EdgeId) (newEdge : Edge W) : Call (Graph N I O W) EdgeId := do
  let g ← get
  Call.lift (ensure (newEdge.source != newEdge.target) "idempotent edge")
  Call.lift (ensure (g.nodes.contains newEdge.source) s!"Source node N{newEdge.source} not found")
  Call.lift (ensure (g.nodes.contains newEdge.target) s!"Target node N{newEdge.target} not found")
  Call.lift (ensure
    (!g.edges.toList.any fun c => c.2.source == newEdge.source && c.2.target == newEdge.target)
    s!"Edge between Node({newEdge.source}) and Node({newEdge.target}) already exists")
  Call.lift (g.checkConsistency newEdge.target (newEdge.ports.map PortLink.targetPort))
  addEdgeRawWithId id newEdge
  pure id

/-- `add_edges_raw`; `ids i` is the `i`-th identifier handed out to this call. -/
def addEdgesRaw (ids : Nat → EdgeId) (edges : List (Edge W)) :
    Call (Graph N I O W) (List EdgeId) :=
  edges.zipIdx.mapM fun (e, i) => addEdgeRaw (ids i) e

/-- `add_edge`. -/
def addEdge (ids : Nat → EdgeId) (source target : NodeId) (ports : Ports) (weight : Option W) :
    Call (Graph N I O W) EdgeId := do
  let edgeIds ← addEdgesRaw ids [Edge.new source target ports weight]
  Call.lift (unwrap edgeIds[0]? "index out of bounds")

/-- `add_consecutive_node`. -/
def addConsecutiveNode (ids : Nat → EdgeId) (node : Node N I O) (previousNodeId : NodeId)
    (weight : Option W) : Call (Graph N I O W) NodeId := do
  let newNodeId ← addNode node
  let _ ← addEdge ids previousNodeId newNodeId Ports.consecutive weight
  pure newNodeId

/-- `remove_edge`. -/
def removeEdge (id : EdgeId) : Call (Graph N I O W) Unit := do
  let old := (← get).edges[id]?
  modify fun g => { g with edges := g.edges.erase id }
  let _ ← Call.lift (okOr old s!"Edge with id EdgeId({id}) not found")

/-- `replace_inner`: the node is taken out before its kind is looked at. -/
def replaceInner (id : NodeId) (f : N → N) : Call (Graph N I O W) Unit := do
  let old := (← get).nodes[id]?
  modify fun g => { g with nodes := g.nodes.erase id }
  let node ← Call.lift (okOr old "Node not found")
  let inner ← Call.lift (okOr node.asInner s!"N{id} is not an inner node")
  modify fun g => { g with nodes := g.nodes.insert id (.inner (f inner)) }

end Graph

end DeepProve
