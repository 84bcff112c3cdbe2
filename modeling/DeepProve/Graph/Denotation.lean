import DeepProve.Graph.Scheduler
import DeepProve.ForStd.Dag

/-!
# What an execution graph computes

The meaning of an execution graph, without a scheduler: the outputs of a node
are what it computes from the outputs of its predecessors and the external data
addressed to it. On an acyclic graph this determines the outputs of all nodes.
The outputs of the graph are those on ports no edge starts from.
-/

namespace DeepProve.Graph

variable {N C Io : Type}

/-- An edge leads from `u` to `v`. -/
def Pred {N I O W : Type} (g : Graph N I O W) (u v : NodeId) : Prop :=
  ∃ (id : EdgeId) (e : Edge W), g.edges[id]? = some e ∧ e.source = u ∧ e.target = v

section Denotation

variable (g : ExecGraph N C Io) (nodeRun : ExecNode N Io) (inputData : HashMap NodeInput Io)

/-- The data the links of an edge carry, by the port they lead to, when
    `outputs` are the outputs of its source. -/
def linkData (outputs : List Io) (ports : Ports) : List (PortId × Io) :=
  ports.filterMap fun link => outputs[link.sourcePort]?.map fun data => (link.targetPort, data)

/-- The external data addressed to `v`. -/
def externalData (v : NodeId) : List (PortId × Io) :=
  (inputData.toList.filter fun e => e.1.nodeId == v).map fun e => (e.1.port, e.2)

/-- The data on the input ports of `v`, when `outputs` are the outputs of the nodes. -/
def inputsByPort (outputs : NodeId → List Io) (v : NodeId) : BTreeMap PortId Io :=
  ((∅ : BTreeMap PortId Io).insertMany
    ((g.incomings v).flatMap fun e => linkData (outputs e.2.source) e.2.ports)).insertMany
      (externalData inputData v)

/-- The outputs of `v`, when `outputs` are the outputs of the nodes before it. -/
def outputsFrom (outputs : NodeId → List Io) (v : NodeId) : List Io :=
  match g.nodes[v]?.bind Node.asInner with
  | none => []
  | some x =>
    match nodeRun x.node (g.inputsByPort inputData outputs v).values with
    | .ok outs => outs
    | .error _ => []

/-- The outputs of the nodes, evaluated in topological order. -/
def outputsOf : NodeId → List Io :=
  Dag.iterate (g.outputsFrom nodeRun inputData) [] g.nodeCount

/-- The inputs of a node, ordered by port. -/
def inputsOf (v : NodeId) : List Io :=
  (g.inputsByPort inputData (g.outputsOf nodeRun inputData) v).values

/-- No edge starts from the `p`-th output of `v`. -/
def Unlinked {N I O W : Type} (g : Graph N I O W) (v : NodeId) (p : PortId) : Prop :=
  ∀ e ∈ g.outgoings v, ∀ link ∈ e.2.ports, link.sourcePort ≠ p

instance {N I O W : Type} (g : Graph N I O W) (v : NodeId) (p : PortId) :
    Decidable (g.Unlinked v p) :=
  inferInstanceAs (Decidable (∀ e ∈ g.outgoings v, ∀ link ∈ e.2.ports, link.sourcePort ≠ p))

/-- The outputs of `v` on the ports no edge starts from. -/
def unlinkedOutputs (v : NodeId) : List (NodeOutput × Io) :=
  ((g.outputsOf nodeRun inputData v).zipIdx.filter fun e => g.Unlinked v e.2).map
    fun e => (⟨v, e.2⟩, e.1)

/-- The outputs of the graph. -/
def graphOutputs : BTreeMap NodeOutput Io :=
  (∅ : BTreeMap NodeOutput Io).insertMany (g.nodes.keys.flatMap (g.unlinkedOutputs nodeRun inputData))

/-- What an execution of the graph relies on: the graph is acyclic, consists of
    inner nodes and of edges with one link and no data yet, the inputs are for
    the topological sources and every source has some, and every node computes,
    from its inputs, outputs for all edges leaving it. -/
structure Runnable : Prop where
  inner : ∀ v ∈ g.nodes, ∃ x, g.nodes[v]? = some (.inner x)
  endpoints : ∀ (id : EdgeId) (e : Edge Io), g.edges[id]? = some e →
    e.source ∈ g.nodes ∧ e.target ∈ g.nodes
  acyclic : Dag.Acyclic g.Pred
  single : ∀ (id : EdgeId) (e : Edge Io), g.edges[id]? = some e → ∃ link, e.ports = [link]
  empty : ∀ (id : EdgeId) (e : Edge Io), g.edges[id]? = some e → e.weight = none
  addressed : ∀ k ∈ inputData, k.nodeId ∈ g.sourceNodes
  fed : ∀ v ∈ g.sourceNodes, ∃ k ∈ inputData, k.nodeId = v
  total : ∀ v x, g.nodes[v]? = some (.inner x) →
    ∃ outs, nodeRun x.node (g.inputsOf nodeRun inputData v) = .ok outs ∧
      ∀ (id : EdgeId) (e : Edge Io), g.edges[id]? = some e → e.source = v →
        ∀ link ∈ e.ports, link.sourcePort < outs.length

end Denotation

variable {g : ExecGraph N C Io} {nodeRun : ExecNode N Io} {inputData : HashMap NodeInput Io}

theorem mem_sourceNodes {v : NodeId} :
    v ∈ g.sourceNodes ↔ v ∈ g.nodes ∧ ∀ u, ¬g.Pred u v := by
  simp only [sourceNodes, List.mem_filter, Std.ExtTreeMap.mem_keys, isSource, List.isEmpty_iff,
    List.eq_nil_iff_forall_not_mem, Prod.forall, mem_incomings, Pred]
  constructor
  · rintro ⟨hv, hno⟩
    exact ⟨hv, fun u ⟨id, e, he, _, ht⟩ => hno id e ⟨he, ht⟩⟩
  · rintro ⟨hv, hno⟩
    exact ⟨hv, fun id e ⟨he, ht⟩ => hno e.source ⟨id, e, he, rfl, ht⟩⟩

variable (g nodeRun inputData) in
/-- The outputs of a node only depend on those of its predecessors. -/
theorem local_outputsFrom : Dag.Local (g.outputsFrom nodeRun inputData) g.Pred := by
  intro f f' v hff'
  have hlinks : (g.incomings v).flatMap (fun e => linkData (f e.2.source) e.2.ports) =
      (g.incomings v).flatMap fun e => linkData (f' e.2.source) e.2.ports := by
    apply List.flatMap_congr
    intro ⟨id, e⟩ he
    obtain ⟨he, ht⟩ := mem_incomings.mp he
    rw [hff' e.source ⟨id, e, he, rfl, ht⟩]
  simp only [outputsFrom, inputsByPort, hlinks]

namespace Runnable

variable (h : g.Runnable nodeRun inputData)
include h

/-- Predecessors are nodes of the graph. -/
theorem pred_mem (u v : NodeId) (huv : g.Pred u v) : u ∈ g.nodes.keys.toFinset := by
  obtain ⟨id, e, he, rfl, -⟩ := huv
  rw [List.mem_toFinset, Std.ExtTreeMap.mem_keys]
  exact (h.endpoints id e he).1

/-- The evaluation satisfies its equation: each node has the outputs it computes
    from its inputs, enough of them for the edges leaving it. -/
theorem outputsOf_spec {v : NodeId} {x : Colored N C} (hx : g.nodes[v]? = some (.inner x)) :
    nodeRun x.node (g.inputsOf nodeRun inputData v) = .ok (g.outputsOf nodeRun inputData v) := by
  obtain ⟨outs, hrun, -⟩ := h.total v x hx
  have hmem : v ∈ g.nodes.keys.toFinset := by
    rw [List.mem_toFinset, Std.ExtTreeMap.mem_keys, Std.ExtTreeMap.mem_iff_isSome_getElem?, hx]
    rfl
  have hcard : g.nodes.keys.toFinset.card = g.nodeCount := by
    rw [List.toFinset_card_of_nodup g.nodes.nodup_keys, Std.ExtTreeMap.length_keys, nodeCount]
  have heq := Dag.iterate_card_eq [] h.acyclic h.pred_mem
    (local_outputsFrom g nodeRun inputData) hmem
  rw [hcard] at heq
  have hstep : g.outputsOf nodeRun inputData v = outs := by
    rw [outputsOf, heq]
    simp only [outputsFrom, hx, Option.bind_some, Node.asInner]
    have hrun' : nodeRun x.node (g.inputsByPort inputData
      (Dag.iterate (g.outputsFrom nodeRun inputData) [] g.nodeCount) v).values = .ok outs := hrun
    rw [hrun']
  rw [hstep, hrun]

theorem sourcePort_lt {id : EdgeId} {e : Edge Io} (he : g.edges[id]? = some e) (link : PortLink)
    (hlink : link ∈ e.ports) : link.sourcePort < (g.outputsOf nodeRun inputData e.source).length := by
  obtain ⟨x, hx⟩ := h.inner e.source (h.endpoints id e he).1
  obtain ⟨outs, hrun, hlt⟩ := h.total e.source x hx
  have heq := (h.outputsOf_spec hx).symm.trans hrun
  rw [Except.ok.inj heq]
  exact hlt id e he rfl link hlink

end Runnable

theorem Runnable.externalData_eq_nil (h : g.Runnable nodeRun inputData) {u v : NodeId}
    (huv : g.Pred u v) : externalData inputData v = [] := by
  rw [externalData, List.map_eq_nil_iff, List.filter_eq_nil_iff]
  intro ⟨k, io⟩ hk hkv
  have hmem : k ∈ inputData := by
    rw [Std.ExtTreeMap.mem_iff_isSome_getElem?,
      Std.ExtTreeMap.mem_toList_iff_getElem?_eq_some.mp hk]
    rfl
  obtain ⟨-, hsource⟩ := mem_sourceNodes.mp (h.addressed k hmem)
  exact hsource u (by rw [eq_of_beq hkv]; exact huv)

/-- The entries of `unlinkedOutputs`. -/
theorem mem_unlinkedOutputs {v : NodeId} {k : NodeOutput} {io : Io} :
    (k, io) ∈ g.unlinkedOutputs nodeRun inputData v ↔
      k.nodeId = v ∧ g.Unlinked v k.port ∧
        (g.outputsOf nodeRun inputData v)[k.port]? = some io := by
  simp only [unlinkedOutputs, List.mem_map, List.mem_filter, decide_eq_true_eq, Prod.exists,
    List.mem_zipIdx_iff_getElem?, Prod.mk.injEq]
  constructor
  · intro ⟨io, p, ⟨hp, hun⟩, hk, hio⟩
    subst hk hio
    exact ⟨rfl, hun, hp⟩
  · intro ⟨hv, hun, hp⟩
    subst hv
    exact ⟨io, k.port, ⟨hp, hun⟩, rfl, rfl⟩

/-- The outputs of the nodes in `nodes` on unlinked ports, port by port. -/
def outputAt (g : ExecGraph N C Io) (nodeRun : ExecNode N Io) (inputData : HashMap NodeInput Io)
    (nodes : Finset NodeId) (k : NodeOutput) : Option Io :=
  if k.nodeId ∈ nodes ∧ g.Unlinked k.nodeId k.port then
    (g.outputsOf nodeRun inputData k.nodeId)[k.port]?
  else none

theorem outputAt_eq_some {nodes : Finset NodeId} {k : NodeOutput} {io : Io} :
    g.outputAt nodeRun inputData nodes k = some io ↔
      k.nodeId ∈ nodes ∧ g.Unlinked k.nodeId k.port ∧
        (g.outputsOf nodeRun inputData k.nodeId)[k.port]? = some io := by
  unfold outputAt
  split
  · rename_i hc
    exact ⟨fun hio => ⟨hc.1, hc.2, hio⟩, fun hio => hio.2.2⟩
  · rename_i hc
    exact ⟨fun hio => (nomatch hio), fun hio => absurd ⟨hio.1, hio.2.1⟩ hc⟩

/-- The outputs of the graph, port by port. -/
theorem getElem?_graphOutputs (k : NodeOutput) :
    (g.graphOutputs nodeRun inputData)[k]? =
      g.outputAt nodeRun inputData g.nodes.keys.toFinset k := by
  have hmem : ∀ k io, (k, io) ∈ g.nodes.keys.flatMap (g.unlinkedOutputs nodeRun inputData) ↔
      g.outputAt nodeRun inputData g.nodes.keys.toFinset k = some io := by
    intro k io
    rw [outputAt_eq_some, List.mem_toFinset]
    simp only [List.mem_flatMap, mem_unlinkedOutputs]
    constructor
    · intro ⟨v, hv, hk, hun, hio⟩
      subst hk
      exact ⟨hv, hun, hio⟩
    · intro ⟨hv, hun, hio⟩
      exact ⟨k.nodeId, hv, rfl, hun, hio⟩
  rw [graphOutputs, Std.ExtTreeMap.getElem?_insertMany_of_mem_iff ∅ hmem]
  simp

end DeepProve.Graph
