import DeepProve.Graph.Basic

/-!
# The graph scheduler

`graph/scheduler.rs`: the scheduler hands out the nodes of an execution graph
that are ready to run, is told about the completed ones, and moves their outputs
along the edges, in the edge weights.

Where the code walks over a hash map the result depends on the order, which is
a `HashOrder` here: any rearrangement of the keys, chosen anew for each call.
-/

namespace DeepProve

inductive PortType where
  | input
  | output

/-- A port of a node, among its input or among its output ports. -/
structure NodePort (t : PortType) where
  nodeId : NodeId
  port : PortId
  deriving DecidableEq, Repr

abbrev NodeInput := NodePort .input
abbrev NodeOutput := NodePort .output

namespace NodePort

variable {t : PortType}

instance : Ord (NodePort t) := ⟨compareLex (compareOn nodeId) (compareOn port)⟩

instance : Std.TransCmp (compare : NodePort t → NodePort t → Ordering) :=
  inferInstanceAs (Std.TransCmp (compareLex (compareOn nodeId) (compareOn port)))

instance : Std.LawfulEqCmp (compare : NodePort t → NodePort t → Ordering) where
  eq_of_compare {a b} h := by
    have h : compareLex (compareOn nodeId) (compareOn port) a b = .eq := h
    rw [compareLex_eq_eq] at h
    obtain ⟨ha, hb⟩ := h
    cases a; cases b
    simp only [compareOn] at ha hb
    simp only [Std.LawfulEqCmp.eq_of_compare ha, Std.LawfulEqCmp.eq_of_compare hb]

end NodePort

/-- A node with the color of the machine, thread or resource it is run on. -/
structure Colored (N C : Type) where
  node : N
  color : C

/-- Edge weights carry the outputs of executed nodes. -/
abbrev ExecGraph (N C Io : Type) := Graph (Colored N C) Unit Unit Io

inductive ReleasePolicy where
  /-- Release all ready nodes. -/
  | all
  /-- Release a node only if no other node of its color is running. -/
  | uniqueColoring
  deriving DecidableEq, Repr

/-- A node with all its inputs, ordered by port. -/
structure ReadyNode (N C Io : Type) where
  node : Colored N C
  inputs : List Io
  nodeId : NodeId

structure GraphScheduler (N C Io : Type) where
  graph : ExecGraph N C Io
  waitingInputData : HashMap NodeInput Io
  runningNodes : Finset NodeId
  doneNodes : Finset NodeId
  releasePolicy : ReleasePolicy

/-- The order in which one walk over a hash map visits its keys. -/
structure HashOrder where
  toFun : List NodeId → List NodeId
  perm : ∀ l, (toFun l).Perm l

namespace GraphScheduler

variable {N C Io : Type}

/-- A new scheduler for the graph. -/
def new (graph : ExecGraph N C Io) : GraphScheduler N C Io where
  graph := graph
  waitingInputData := ∅
  runningNodes := ∅
  doneNodes := ∅
  releasePolicy := .uniqueColoring

def withReleasePolicy (s : GraphScheduler N C Io) (policy : ReleasePolicy) :
    GraphScheduler N C Io :=
  { s with releasePolicy := policy }

/-- The payload of an inner node. -/
def innerNode (s : GraphScheduler N C Io) (nodeId : NodeId) : Option (Colored N C) :=
  s.graph.nodes[nodeId]?.bind Node.asInner

def isDone (s : GraphScheduler N C Io) : Bool :=
  decide (s.runningNodes = ∅) && decide (s.doneNodes.card = s.graph.nodeCount)

/-- Sort one external input under the node it is for: the inputs of the
    topological sources are collected, the others wait in the scheduler. -/
def initInput (inputs : HashMap NodeId (BTreeMap PortId Io)) (entry : NodeInput × Io) :
    Call (GraphScheduler N C Io) (HashMap NodeId (BTreeMap PortId Io)) := do
  let (nodeInput, io) := entry
  let s ← get
  if s.graph.isSource nodeInput.nodeId then
    let ports := inputs.getD nodeInput.nodeId ∅
    Call.lift (ensure (!ports.contains nodeInput.port)
      s!"Duplicated input for input node: Input: N{nodeInput.nodeId}->:{nodeInput.port}")
    pure (inputs.insert nodeInput.nodeId (ports.insert nodeInput.port io))
  else
    modify fun s => { s with waitingInputData := s.waitingInputData.insert nodeInput io }
    Call.lift (ensure (!s.waitingInputData.contains nodeInput)
      s!"Duplicated data for node: Input: N{nodeInput.nodeId}->:{nodeInput.port}")
    pure inputs

/-- Start one of the nodes that have external inputs only. -/
def initNode (inputs : HashMap NodeId (BTreeMap PortId Io)) (nodeId : NodeId) :
    Call (GraphScheduler N C Io) (ReadyNode N C Io) := do
  let payload ← Call.lift (unwrap inputs[nodeId]? "no entry found for key")
  let s ← get
  let node ← Call.lift (unwrap s.graph.nodes[nodeId]? "no entry found for key")
  modify fun s => { s with runningNodes := insert nodeId s.runningNodes }
  let node ← Call.lift (unwrap node.asInner "called `Option::unwrap()` on a `None` value")
  pure { node, inputs := payload.values, nodeId }

/-- `init_nodes`. -/
def initNodes (order : HashOrder) (inputData : HashMap NodeInput Io) :
    Call (GraphScheduler N C Io) (List (ReadyNode N C Io)) := do
  let s ← get
  Call.lift (ensure (decide (s.runningNodes = ∅)) "Running nodes must be empty")
  Call.lift (ensure (decide (s.doneNodes = ∅)) "Done nodes must be empty")
  Call.lift (ensure s.waitingInputData.isEmpty "Waiting input data must be empty")
  let inputs ← inputData.toList.foldlM initInput ∅
  (order.toFun inputs.keys).mapM (initNode inputs)

/-- Put the output of a completed node on one of its outgoing edges. What is
    passed on is no output of the graph. -/
def fillEdge (outputs : List Io) (graphOutputs : Finset Nat) (entry : EdgeId × Edge Io) :
    Call (GraphScheduler N C Io) (Finset Nat) := do
  let (id, edge) := entry
  Call.lift (ensure (edge.ports.length == 1)
    "Found an edge with more than one link, which is unsupported in execution graph")
  let link ← Call.lift (unwrap edge.ports[0]? "index out of bounds")
  let data ← Call.lift (unwrap outputs[link.sourcePort]? "index out of bounds")
  modify fun s =>
    { s with
      graph := { s.graph with edges := s.graph.edges.insert id { edge with weight := some data } } }
  pure (graphOutputs.erase link.sourcePort)

/-- The outputs of a node on the given ports, by port. -/
def outputsAt (nodeId : NodeId) (outputs : List Io) (ports : Finset Nat) : BTreeMap NodeOutput Io :=
  (∅ : BTreeMap NodeOutput Io).insertMany
    ((outputs.zipIdx.filter fun e => e.2 ∈ ports).map fun e => ((⟨nodeId, e.2⟩ : NodeOutput), e.1))

/-- `mark_done`. -/
def markDone (nodeId : NodeId) (outputs : List Io) :
    Call (GraphScheduler N C Io) (BTreeMap NodeOutput Io) := do
  let s ← get
  Call.lift (ensure (decide (nodeId ∈ s.runningNodes)) s!"N{nodeId} was not running")
  modify fun s => { s with runningNodes := s.runningNodes.erase nodeId }
  Call.lift (ensure (decide (nodeId ∉ s.doneNodes)) s!"N{nodeId} was already done")
  modify fun s => { s with doneNodes := insert nodeId s.doneNodes }
  let s ← get
  -- edges to nodes that are already done or pending are left alone
  let edges := (s.graph.outgoings nodeId).filter fun e =>
    e.2.target ∉ s.doneNodes && e.2.target ∉ s.runningNodes
  let graphOutputs ← edges.foldlM (fillEdge outputs) (Finset.range outputs.length)
  pure (outputsAt nodeId outputs graphOutputs)

/-- For each target of an edge, which of the edges into it are filled. -/
def filledEdges (edges : List (EdgeId × Edge Io)) : HashMap NodeId (List Bool) :=
  edges.foldl (fun acc e =>
    acc.insert e.2.target (acc.getD e.2.target [] ++ [e.2.weight.isSome])) ∅

/-- The nodes whose incoming edges are all filled and which are not running. -/
def readyNodeIds (s : GraphScheduler N C Io) : List NodeId :=
  ((filledEdges s.graph.edges.toList).toList.filter fun e =>
    e.2.all id && decide (e.1 ∉ s.runningNodes)).map Prod.fst

/-- `ReleasePolicy::accept`. Every running node has been unwrapped to an inner
    node when it was released. -/
def accept [DecidableEq C] (s : GraphScheduler N C Io) (nodeIndex : NodeId) : Outcome Bool :=
  match s.releasePolicy with
  | .all => .ok true
  | .uniqueColoring => do
    let node ← unwrap (s.innerNode nodeIndex) "called `Option::unwrap()` on a `None` value"
    pure (decide (∀ n ∈ s.runningNodes, (s.innerNode n).map Colored.color ≠ some node.color))

/-- Take the data off one of the edges into a node that is being released. -/
def takeEdge (inputData : BTreeMap PortId Io) (entry : EdgeId × Edge Io) :
    Call (GraphScheduler N C Io) (BTreeMap PortId Io) := do
  let (id, edge) := entry
  let data ← Call.lift (okOr edge.weight
    s!"Edge EdgeId({id}) N{edge.source} -> N{edge.target} has no weight - invalid logic?")
  modify fun s =>
    { s with
      graph := { s.graph with edges := s.graph.edges.insert id { edge with weight := none } } }
  pure (edge.ports.foldl (fun acc link => acc.insert link.targetPort data) inputData)

/-- Release one ready node, with the data from its edges and the external data
    waiting for it. -/
def releaseNode (nodeId : NodeId) : Call (GraphScheduler N C Io) (ReadyNode N C Io) := do
  modify fun s => { s with runningNodes := insert nodeId s.runningNodes }
  let s ← get
  let inputData ← (s.graph.incomings nodeId).foldlM takeEdge ∅
  let s ← get
  let waiting := s.waitingInputData.toList.filter fun e => e.1.nodeId == nodeId
  modify fun s =>
    { s with waitingInputData := waiting.foldl (fun acc e => acc.erase e.1) s.waitingInputData }
  let inputData := waiting.foldl (fun acc e => acc.insert e.1.port e.2) inputData
  let node ← Call.lift (unwrap (s.innerNode nodeId) "called `Option::unwrap()` on a `None` value")
  pure { node, inputs := inputData.values, nodeId }

/-- One round of the loop of `next_ready_nodes`. Every release may change what
    the policy says about the nodes to come. -/
def tryRelease [DecidableEq C] (ready : List (ReadyNode N C Io)) (nodeId : NodeId) :
    Call (GraphScheduler N C Io) (List (ReadyNode N C Io)) := do
  let s ← get
  let accepted ← Call.lift (s.accept nodeId)
  if accepted then
    let node ← releaseNode nodeId
    pure (ready ++ [node])
  else
    pure ready

/-- `next_ready_nodes`. -/
def nextReadyNodes [DecidableEq C] (order : HashOrder) :
    Call (GraphScheduler N C Io) (List (ReadyNode N C Io)) := do
  let s ← get
  (order.toFun s.readyNodeIds).foldlM tryRelease []

end GraphScheduler

end DeepProve

/-!
## The executors

`graph/executor.rs`: the two executors drive a scheduler until it is done. The
sequential one runs the released nodes batch by batch; the thread pool spawns
every node when it is released and reacts to the results in the order in which
they arrive, which is a parameter here.

Both have a `while` loop that is only left when the scheduler is done, so they
take the number of rounds they may make.
-/

namespace DeepProve

/-- What `ExecNode::run` computes, in the context shared by all nodes: the
    outputs of a node on its inputs, or an error. -/
abbrev ExecNode (N Io : Type) := N → List Io → Except String (List Io)

variable {N C Io : Type} [DecidableEq C]

/-- `ReadyNode::run`. -/
def ReadyNode.run (nodeRun : ExecNode N Io) (node : ReadyNode N C Io) : Outcome (List Io) :=
  match nodeRun node.node.node node.inputs with
  | .ok outputs => .ok outputs
  | .error msg => .error (.err msg)

variable (nodeRun : ExecNode N Io)

namespace SequentialExecutor

open GraphScheduler

/-- Mark one node of the batch as done; the error is unwrapped. -/
def complete (outputs : BTreeMap NodeOutput Io) (entry : ReadyNode N C Io × List Io) :
    Call (GraphScheduler N C Io) (BTreeMap NodeOutput Io) := do
  let graphOutputs ← Call.unwrap (markDone entry.1.nodeId entry.2)
  pure (outputs.insertMany graphOutputs.toList)

/-- The `while` loop of `SequentialExecutor::run`, for at most `fuel` rounds. -/
def loop (orders : Nat → HashOrder) (fuel : Nat) (readyNodes : List (ReadyNode N C Io))
    (outputs : BTreeMap NodeOutput Io) :
    Call (GraphScheduler N C Io) (BTreeMap NodeOutput Io) := do
  if (← get).isDone then
    pure outputs
  else
    match fuel with
    | 0 => throw .outOfFuel
    | fuel + 1 =>
      let nodeOutputs ← readyNodes.mapM fun node => Call.lift (node.run nodeRun)
      let outputs ← (readyNodes.zip nodeOutputs).foldlM complete outputs
      let readyNodes ← nextReadyNodes (orders 0)
      loop (fun i => orders (i + 1)) fuel readyNodes outputs

/-- `SequentialExecutor::run`. -/
def run (orders : Nat → HashOrder) (fuel : Nat) (scheduler : GraphScheduler N C Io)
    (inputData : HashMap NodeInput Io) : Outcome (BTreeMap NodeOutput Io) :=
  Call.value (do
    let readyNodes ← initNodes (orders 0) inputData
    loop nodeRun (fun i => orders (i + 1)) fuel readyNodes ∅) scheduler

end SequentialExecutor

namespace ThreadPoolExecutor

open GraphScheduler

/-- The `while` loop of `ThreadPoolExecutor::run`, for at most `fuel` rounds.
    `spawned` holds the tasks whose result has not been received yet, and
    `arrivals` selects among them the one that is received next. -/
def loop (orders : Nat → HashOrder) (arrivals : Nat → Nat) (fuel : Nat)
    (spawned readyNodes : List (ReadyNode N C Io)) (outputs : BTreeMap NodeOutput Io) :
    Call (GraphScheduler N C Io) (BTreeMap NodeOutput Io) := do
  if (← get).isDone then
    pure outputs
  else
    match fuel with
    | 0 => throw .outOfFuel
    | fuel + 1 =>
      let spawned := spawned ++ readyNodes
      let i := arrivals 0 % spawned.length
      match spawned[i]? with
      -- the loop holds a sender itself, so `recv` blocks when no task is left
      | none => throw .outOfFuel
      | some node =>
        let output ← Call.context (Call.lift (node.run nodeRun))
          "Error running node \x7bnode_idx:?\x7d"
        let graphOutputs ← Call.context (markDone node.nodeId output)
          "Failed to mark node with scheduler"
        let readyNodes ← nextReadyNodes (orders 0)
        loop (fun i => orders (i + 1)) (fun i => arrivals (i + 1)) fuel (spawned.eraseIdx i)
          readyNodes (outputs.insertMany graphOutputs.toList)

/-- `ThreadPoolExecutor::run`. -/
def run (orders : Nat → HashOrder) (arrivals : Nat → Nat) (fuel : Nat)
    (scheduler : GraphScheduler N C Io) (inputData : HashMap NodeInput Io) :
    Outcome (BTreeMap NodeOutput Io) :=
  Call.value (do
    let readyNodes ← initNodes (orders 0) inputData
    loop nodeRun (fun i => orders (i + 1)) arrivals fuel [] readyNodes ∅)
    (scheduler.withReleasePolicy .all)

end ThreadPoolExecutor

end DeepProve
