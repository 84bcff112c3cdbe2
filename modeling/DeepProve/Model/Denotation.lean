import DeepProve.Graph.PortInvariant
import DeepProve.Graph.TopologicalOrder
import DeepProve.Model.Runner

/-!
# What a model computes

The meaning of a model, without a runner: the outputs of a layer are what it computes from the
values of the ports that it reads. `Executes` says that runs of the model do just that.

`BaseRunner` does not assign the outputs of a layer to its ports, but to the ports that are used.
So the values are first defined for any such assignment, the `slot` in which the value of a port
is found among the outputs of its node.
-/

namespace DeepProve

variable {L T : Type} {numOutputs : L → Nat → Nat}

/-! ## What the nodes read -/

namespace Graph

section Reading

variable {N I O W : Type} {g : Graph N I O W}

theorem map_source_feeds (edge : Edge W) : edge.feeds.map Feed.source = edge.linkKeys := by
  rw [Edge.feeds, List.map_map]
  rfl

variable {key : NodeOutput}

theorem mem_inputKeys {n : NodeId} :
    key ∈ g.inputKeys n ↔ ∃ (id : EdgeId) (edge : Edge W),
      g.edges[id]? = some edge ∧ edge.target = n ∧ key ∈ edge.linkKeys := by
  simp only [inputKeys, incomingFeeds, List.mem_map, List.mem_insertionSort, List.mem_flatMap,
    Prod.exists, mem_incomings, ← map_source_feeds]
  constructor
  · rintro ⟨feed, ⟨id, edge, ⟨hedge, ht⟩, hfeed⟩, hkey⟩
    exact ⟨id, edge, hedge, ht, feed, hfeed, hkey⟩
  · rintro ⟨id, edge, hedge, ht, feed, hfeed, hkey⟩
    exact ⟨feed, ⟨id, edge, ⟨hedge, ht⟩, hfeed⟩, hkey⟩

theorem nodeId_of_mem_linkKeys {edge : Edge W} (h : key ∈ edge.linkKeys) :
    key.nodeId = edge.source := by
  obtain ⟨link, -, rfl⟩ := List.mem_map.mp h
  rfl

theorem pred_of_mem_inputKeys {n : NodeId} (h : key ∈ g.inputKeys n) :
    g.Pred key.nodeId n := by
  obtain ⟨id, edge, hedge, ht, hkey⟩ := mem_inputKeys.mp h
  exact ⟨id, edge, hedge, (nodeId_of_mem_linkKeys hkey).symm, ht⟩

/-- What a node reads, edge by edge. -/
theorem inputKeys_perm (n : NodeId) :
    (g.inputKeys n).Perm ((g.incomings n).flatMap fun (_, edge) => edge.linkKeys) := by
  have hfeeds : ((g.incomings n).flatMap fun (_, edge) => edge.feeds).map Feed.source =
      (g.incomings n).flatMap fun (_, edge) => edge.linkKeys := by
    rw [List.map_flatMap]
    exact List.flatMap_congr fun e _ => map_source_feeds e.2
  rw [← hfeeds]
  exact (List.perm_insertionSort _ _).map _

/-- The feeds of a node come port by port. -/
theorem map_targetPort_incomingFeeds (hg : g.PortInvariant fun _ => []) (n : NodeId) :
    (g.incomingFeeds n).map (fun feed => feed.target.port) =
      List.range (g.incomingFeeds n).length := by
  have hports : ((g.incomings n).flatMap fun (_, edge) => edge.feeds).map
      (fun feed => feed.target.port) = g.targetPorts n := by
    have hedge : ∀ edge : Edge W, edge.feeds.map (fun feed => feed.target.port) =
        edge.ports.map PortLink.targetPort := fun edge => by
      rw [Edge.feeds, List.map_map]
      rfl
    rw [List.map_flatMap, targetPorts]
    exact List.flatMap_congr fun e _ => hedge e.2
  have hperm : ((g.incomingFeeds n).map fun feed => feed.target.port).Perm (g.targetPorts n) := by
    rw [← hports]
    exact (List.perm_insertionSort _ _).map _
  obtain ⟨k, hk⟩ := hg.ports n
  rw [List.append_nil] at hk
  have hrange := hperm.trans hk
  have hlength : (g.incomingFeeds n).length = k := by
    simpa using hrange.length_eq
  have hsorted : ((g.incomingFeeds n).map fun feed => feed.target.port).Pairwise (· ≤ ·) := by
    rw [List.pairwise_map]
    exact List.pairwise_insertionSort (fun a b : Feed => a.target.port ≤ b.target.port) _
  rw [hlength]
  exact hrange.eq_of_pairwise (fun a b _ _ hab hba => Nat.le_antisymm hab hba) hsorted
    List.pairwise_le_range

theorem getElem?_incomingFeeds (hg : g.PortInvariant fun _ => []) {n : NodeId} {feed : Feed}
    (h : feed ∈ g.incomingFeeds n) : (g.incomingFeeds n)[feed.target.port]? = some feed := by
  obtain ⟨q, hq, hfeed⟩ := List.getElem_of_mem h
  have hport := congrArg (fun l => l[q]?) (map_targetPort_incomingFeeds hg n)
  simp only [List.getElem?_map, List.getElem?_eq_getElem hq, hfeed, Option.map_some,
    List.getElem?_range hq, Option.some.injEq] at hport
  rw [hport, List.getElem?_eq_getElem hq, hfeed]

end Reading

/-! ## Values -/

/-- `Model::num_outputs`. -/
def numOutputsAt (g : ModelGraph L) (numOutputs : L → Nat → Nat) (n : NodeId) : Nat :=
  match g.nodes[n]? with
  | some (.inner layer) => numOutputs layer (g.targetPorts n).toFinset.card
  | some (.input _) => 1
  | _ => 0

/-- The inputs of the model that have a node. -/
def inputIds (g : ModelGraph L) : List Nat := g.nodes.toList.filterMap fun (_, node) => node.asInput

/-- The nodes of the outputs of the model. -/
def outputNodes (g : ModelGraph L) : List NodeId :=
  g.nodes.toList.filterMap fun (n, node) => node.asOutput.map fun _ => n

/-- A layer or an output of the model. -/
def IsReader (g : ModelGraph L) (n : NodeId) : Prop :=
  (∃ layer, g.nodes[n]? = some (.inner layer)) ∨ ∃ i, g.nodes[n]? = some (.output i)

/-- A layer or an output of the model reads the port. -/
def IsRead (g : ModelGraph L) (key : NodeOutput) : Prop := ∃ n, g.IsReader n ∧ key ∈ g.inputKeys n

/-- Where the value of a port is among the outputs of its node. -/
abbrev Slot := NodeOutput → Nat

/-- The value of a port, if `outputs` are the outputs of the nodes. -/
def readFrom (slot : Slot) (outputs : NodeId → List T) (key : NodeOutput) : Option T :=
  (outputs key.nodeId)[slot key]?

section Values

variable (g : ModelGraph L) (F : LayerFunctions L T numOutputs) (inputs : List T) (slot : Slot)

/-- The outputs of a node, if `outputs` are those of the nodes before it. -/
def nodeOutputsFrom (outputs : NodeId → List T) (n : NodeId) : List T :=
  match g.nodes[n]? with
  | some (.inner layer) => F.evaluate n layer ((g.inputKeys n).filterMap (readFrom slot outputs))
  | some (.input i) => (inputs[i]?).toList
  | _ => []

/-- The outputs of the nodes. -/
def nodeOutputs : NodeId → List T := Dag.iterate (g.nodeOutputsFrom F inputs slot) [] g.nodeCount

def valueVia (key : NodeOutput) : Option T := readFrom slot (g.nodeOutputs F inputs slot) key

/-- The value of a port: the output of that number of its node. -/
def valueOf (key : NodeOutput) : Option T := g.valueVia F inputs NodePort.port key

end Values

/-- A run of the model on the inputs. -/
structure Executes (g : ModelGraph L) (F : LayerFunctions L T numOutputs) (inputs : List T)
    (log : RunLog T) : Prop where
  /-- Every layer runs exactly once. -/
  once : (log.events.filterMap RunEvent.evaluatedNode).Nodup ∧
    ∀ n, n ∈ log.events.filterMap RunEvent.evaluatedNode ↔
      ∃ layer, g.nodes[n]? = some (.inner layer)
  /-- A layer receives on each input port the value of the port that is linked to it. -/
  received : ∀ n tensors, .evaluated n tensors ∈ log.events →
    tensors.length = (g.incomingFeeds n).length ∧ ∀ feed ∈ g.incomingFeeds n,
      ∃ t, g.valueOf F inputs feed.source = some t ∧ tensors[feed.target.port]? = some t
  /-- A handle is dried after its last consumer has run. -/
  dried : ∀ before key after, log.events = before ++ .dried key :: after → ∀ n layer,
    g.nodes[n]? = some (.inner layer) → key ∈ g.inputKeys n →
      n ∈ before.filterMap RunEvent.evaluatedNode
  /-- The outputs are returned in the order of their indices. -/
  outputs : log.outputs.length = g.outputNodes.length ∧ ∀ n i, g.nodes[n]? = some (.output i) →
    ∀ key ∈ g.inputKeys n, ∃ t, g.valueOf F inputs key = some t ∧
      (log.outputs[i]?).bind TensorHandle.tensor = some t

/-- For all layers, inputs and numbers of runs with one runner. -/
def ExecutesAlways (g : ModelGraph L) (T : Type) (numOutputs : L → Nat → Nat) : Prop :=
  ∀ (F : LayerFunctions L T numOutputs) (inputs : List (List T)),
    (∀ xs ∈ inputs, xs.length = g.inputIds.length) →
    ∃ logs, (HandleLifetimeRunner.new g).runs F g inputs = .ok logs ∧
      List.Forall₂ (g.Executes F) inputs logs

/-- When the runs of a model do what the model says. -/
structure Executable (g : ModelGraph L) (numOutputs : L → Nat → Nat) : Prop where
  /-- The inputs of the model are numbered from 0 on. -/
  inputs : ∀ i < g.inputIds.length, i ∈ g.inputIds
  /-- Every port that is read is a port of its node. -/
  ports : ∀ key, g.IsRead key → key.port < g.numOutputsAt numOutputs key.nodeId
  /-- A port of a layer that is read comes after no port that nothing is linked to. -/
  gapless : ∀ key, g.IsRead key → ∀ port < key.port, port ∈ g.outgoingPorts key.nodeId
  /-- The links into the outputs of the model come in the order of the outputs. -/
  ordered : g.outputKeys.length = g.outputNodes.length ∧
    ∀ n i, g.nodes[n]? = some (.output i) → ∀ key ∈ g.inputKeys n, g.outputKeys[i]? = some key

end Graph

end DeepProve
