import DeepProve.Model.Runner
import DeepProve.Quantization.AddRequant

/-!
# Quantising a model

`quantize_model` of `quantization/strategy.rs` with the metadata of `quantization/metadata.rs`. The
nodes of a model are quantised one after the other; the scalings of their ports are kept by node and
port. Requantisation layers are put in afterwards, and the masks before the softmax layers are told
their negative infinity.
-/

namespace DeepProve

/-! ## Metadata -/

/-- The scalings of the ports of the nodes. -/
abbrev LayersScaling (σ : Type) := HashMap NodeId (BTreeMap PortId σ)

namespace LayersScaling

variable {σ : Type}

/-- `entry(node_id).or_default().insert(port, scaling)`, for each port. -/
def insertScalings (self : LayersScaling σ) (nodeId : NodeId) (scalings : List σ) : LayersScaling σ :=
  scalings.zipIdx.foldl (fun self (scaling, i) =>
    self.insert nodeId (((self[nodeId]?).getD ∅).insert i scaling)) self

/-- The scaling of a port. -/
def at? (self : LayersScaling σ) (nodeId : NodeId) (port : PortId) : Option σ :=
  self[nodeId]?.bind (·[port]?)

end LayersScaling

structure ModelMetadata (σ : Type) where
  inputNodes : List NodeId
  outputNodes : List NodeId
  inputLayersScaling : LayersScaling σ
  outputLayersScaling : LayersScaling σ

namespace ModelMetadata

variable {σ : Type} (self : ModelMetadata σ)

/-- The node of an input or output, and the scaling of its port. -/
def scalingOf (nodes : List NodeId) (scalings : LayersScaling σ) (i : Nat) : Outcome σ := do
  let nodeId ← unwrap nodes[i]? "index out of bounds"
  unwrap (scalings.at? nodeId 0) "no entry found for key"

/-- `input_scaling`. -/
def inputScaling (inputIdx : Nat) : Outcome σ :=
  scalingOf self.inputNodes self.outputLayersScaling inputIdx

/-- `output_scaling`. -/
def outputScaling (outputIdx : Nat) : Outcome σ :=
  scalingOf self.outputNodes self.inputLayersScaling outputIdx

end ModelMetadata

structure MetadataBuilder (σ : Type) where
  inputLayersScaling : LayersScaling σ
  outputLayersScaling : LayersScaling σ

/-- `{:?}` of a port. -/
def NodePort.debug {t : PortType} (key : NodePort t) : String :=
  s!"NodePort \x7b node_id: Node({key.nodeId}), port: Port({key.port}) \x7d"

namespace MetadataBuilder

variable {σ : Type} (self : MetadataBuilder σ)

def new : MetadataBuilder σ := ⟨∅, ∅⟩

def insertLayerScalings (nodeId : NodeId) (outputScalings inputScalings : List σ) :
    MetadataBuilder σ where
  inputLayersScaling := self.inputLayersScaling.insertScalings nodeId inputScalings
  outputLayersScaling := self.outputLayersScaling.insertScalings nodeId outputScalings

/-- `get_output_layer_scaling`. -/
def getOutputLayerScaling (nodeOut : NodeOutput) : Outcome σ :=
  okOr (self.outputLayersScaling.at? nodeOut.nodeId nodeOut.port)
    s!"fetching scaling for {nodeOut.debug}"

def build (inputNodes outputNodes : List NodeId) : ModelMetadata σ :=
  { inputNodes, outputNodes, inputLayersScaling := self.inputLayersScaling
    outputLayersScaling := self.outputLayersScaling }

end MetadataBuilder

/-! ## Layers -/

/-- `SoftmaxMaskTransform`. -/
structure SoftmaxMaskTransform where
  softmaxNode : NodeId
  negInf : Int

/-- `QuantizeOutput`; the rule is the only one there is for quantised models. -/
structure QuantizeOutput (Q ρ σ : Type) where
  quantizedOp : Q
  outputScalings : List σ
  requantLayer : Option (List ρ)
  postQuantRule : Option SoftmaxMaskTransform

/-- The layers of the models before and after quantisation, and the scaling strategy. -/
structure QuantizeOps (L Q ρ σ : Type) where
  /-- `output_shapes` of the float layers, without padding. -/
  outputShapes : L → List Shape → Outcome (List Shape)
  /-- `output_shapes` of the quantised layers, without padding. -/
  quantizedOutputShapes : Q → List Shape → Outcome (List Shape)
  /-- `scaling_factors_for_node`. -/
  scalingFactorsForNode : NodeId → Nat → List σ
  /-- `quantize_op`, of the scalings and shapes of the inputs and those of the outputs. -/
  quantizeOp : NodeId → L → List σ → List Shape → List σ → List Shape → Outcome (QuantizeOutput Q ρ σ)
  /-- `Layer::Requant`. -/
  requant : ρ → Q
  shortName : Q → String
  /-- `set_negative_infinity` of an attention mask. -/
  setNegativeInfinity : Q → Int → Option Q

/-- A model: its graph and the unpadded shapes of its inputs. -/
structure Model (L : Type) where
  inputShapes : List Shape
  graph : ModelGraph L

namespace Graph

variable {N O W : Type}

/-- `input_node_ids`. -/
def inputNodeIds (g : Graph N Nat O W) : Outcome (List NodeId) :=
  let inputNodes := g.nodes.toList.filterMap fun (n, node) => node.asInput.map fun i => (n, i)
  inputNodes.foldlM (fun r (n, i) =>
    if i < r.length then .ok (r.set i n) else .error (.panic "index out of bounds"))
    (List.replicate inputNodes.length 0)

end Graph

variable {L Q ρ σ : Type}

/-! ## The nodes -/

/-- A call of `quantize_op`: the node, its layer, and the scalings and shapes of its inputs. -/
structure QuantizeCall (L σ : Type) where
  nodeId : NodeId
  layer : L
  inputScaling : List σ
  unpaddedInputShapes : List Shape

/-- What the loop over the nodes has built so far, and which layers it has quantised. -/
structure QuantizeState (L Q ρ σ : Type) where
  md : MetadataBuilder σ
  shapeMap : HashMap NodeOutput Shape
  requantLayers : List (NodeId × List ρ)
  transforms : List SoftmaxMaskTransform
  nodes : BTreeMap NodeId (Node Q Nat Nat)
  calls : List (QuantizeCall L σ)

namespace QuantizeState

def new : QuantizeState L Q ρ σ :=
  { md := .new, shapeMap := ∅, requantLayers := [], transforms := [], nodes := ∅, calls := [] }

variable (ops : QuantizeOps L Q ρ σ) (self : QuantizeState L Q ρ σ)

/-- The shapes of the inputs of a node, in the order of their ports. -/
def shapeInfo (incomingFeeds : List Feed) : Outcome (List Shape) := do
  let shapes ← incomingFeeds.foldlM (fun (ax : BTreeMap PortId Shape) feed => do
    let shape ← okOr self.shapeMap[feed.source]? s!"fetching shape info for {feed.source.debug}"
    .ok (ax.insert feed.target.port shape)) ∅
  .ok shapes.values

/-- `Node::Inner`. -/
def quantizeInner (nodeId : NodeId) (layer : L) (incomingFeeds : List Feed) :
    Outcome (QuantizeState L Q ρ σ) := do
  let shapeInfo ← self.shapeInfo incomingFeeds
  let inputScalings ← incomingFeeds.mapM fun feed => self.md.getOutputLayerScaling feed.source
  let unpaddedOutputShapes ← ops.outputShapes layer shapeInfo
  let outputScalings := ops.scalingFactorsForNode nodeId unpaddedOutputShapes.length
  let quantizedOut ← ops.quantizeOp nodeId layer inputScalings shapeInfo outputScalings
    unpaddedOutputShapes
  let outputShapes ← ops.quantizedOutputShapes quantizedOut.quantizedOp shapeInfo
  .ok {
    md := self.md.insertLayerScalings nodeId quantizedOut.outputScalings inputScalings
    shapeMap := outputShapes.zipIdx.foldl (fun shapeMap (shape, outPort) =>
      shapeMap.insert ⟨nodeId, outPort⟩ shape) self.shapeMap
    requantLayers := self.requantLayers ++
      (quantizedOut.requantLayer.map fun requant => (nodeId, requant)).toList
    transforms := self.transforms ++ quantizedOut.postQuantRule.toList
    nodes := self.nodes.insert nodeId (.inner quantizedOut.quantizedOp)
    calls := self.calls ++ [⟨nodeId, layer, inputScalings, shapeInfo⟩] }

/-- `Node::Input`. -/
def quantizeInput (inputShapes : List Shape) (inputScaling : List σ) (nodeId : NodeId) (i : Nat) :
    Outcome (QuantizeState L Q ρ σ) := do
  let scaling ← unwrap inputScaling[i]? "index out of bounds"
  let shape ← unwrap inputShapes[i]? "index out of bounds"
  .ok { self with
    md := self.md.insertLayerScalings nodeId [scaling] []
    shapeMap := self.shapeMap.insert ⟨nodeId, 0⟩ shape
    nodes := self.nodes.insert nodeId (.input i) }

/-- `Node::Output`. -/
def quantizeOutputNode (nodeId : NodeId) (o : Nat) (incomingFeeds : List Feed) :
    Outcome (QuantizeState L Q ρ σ) := do
  let sfs ← incomingFeeds.mapM fun feed => self.md.getOutputLayerScaling feed.source
  .ok { self with
    md := self.md.insertLayerScalings nodeId [] sfs
    nodes := self.nodes.insert nodeId (.output o) }

/-- One round of `try_into_map_forward`. -/
def quantizeNode (model : Model L) (inputScaling : List σ) (self : QuantizeState L Q ρ σ)
    (entry : NodeId × Node L Nat Nat) : Outcome (QuantizeState L Q ρ σ) :=
  let incomingFeeds := model.graph.incomingFeeds entry.1
  match entry.2 with
  | .inner layer => self.quantizeInner ops entry.1 layer incomingFeeds
  | .input i => self.quantizeInput model.inputShapes inputScaling entry.1 i
  | .output o => self.quantizeOutputNode entry.1 o incomingFeeds

end QuantizeState

/-! ## The model -/

/-- The requantisation layers of a node, with the scalings of the ports that they are put behind. -/
def addRequantScalings (md : MetadataBuilder σ) (inputNodeId : NodeId) (requantIds : List NodeId) :
    Outcome (MetadataBuilder σ) :=
  requantIds.zipIdx.foldlM (fun md (requantId, i) => do
    let scalingFactor ← md.getOutputLayerScaling ⟨inputNodeId, i⟩
    .ok (md.insertLayerScalings requantId [scalingFactor] [scalingFactor])) md

/-- One round of the loop over the requantisation layers; the identifiers of edges and the orders of
    the hash maps are those of this round. -/
def addRequants (ops : QuantizeOps L Q ρ σ) (ids : Nat → Nat → EdgeId) (order : Nat → HashOrder)
    (s : ModelGraph Q × MetadataBuilder σ) (entry : NodeId × List ρ) :
    Outcome (ModelGraph Q × MetadataBuilder σ) :=
  match (Graph.addRequantLayer ids order ops.requant entry.2 entry.1).run s.1 with
  | .ok requantIds graph => do
    let md ← addRequantScalings s.2 entry.1 requantIds
    .ok (graph, md)
  | .error fault _ => .error fault

/-- `SoftmaxMaskTransform::apply`. -/
def SoftmaxMaskTransform.apply (self : SoftmaxMaskTransform) (ops : QuantizeOps L Q ρ σ)
    (graph : ModelGraph Q) : Outcome (ModelGraph Q) := do
  let node ← okOr graph.nodes[self.softmaxNode]? "Softmax node not found"
  let softmaxNode ← okOr node.asInner "expected layer"
  ensure (ops.shortName softmaxNode == "SFTM")
    s!"Could not apply SoftmaxMaskTransform, provided NodeId was for layer: {ops.shortName softmaxNode}"
  let inputNodes := graph.incomingFeeds self.softmaxNode
  ensure (inputNodes.length == 1) "Condition failed: input_nodes.len() == 1"
  let feed ← unwrap inputNodes[0]? "index out of bounds"
  let inputNodeId := feed.source.nodeId
  let node ← unwrap graph.nodes[inputNodeId]? "Softmax input node not found"
  let inputNode ← okOr node.asInner "expected attention mask layer before SoftmaxMaskTransform"
  ensure (ops.shortName inputNode == "MASK")
    s!"Softmax input node is not an AttentionMask, found {ops.shortName inputNode}"
  let mask ← unwrap (ops.setNegativeInfinity inputNode self.negInf)
    "internal error: entered unreachable code"
  .ok { graph with nodes := graph.nodes.insert inputNodeId (.inner mask) }

/-- What `quantize_model` returns, and the calls of `quantize_op` that it has made. -/
structure QuantizedModel (L Q σ : Type) where
  model : Model Q
  metadata : ModelMetadata σ
  calls : List (QuantizeCall L σ)

/-- `quantize_model`. The identifiers of the new edges and the orders of the hash maps are numbered
    by the node whose layer is requantised, and the port. -/
def quantizeModel (ops : QuantizeOps L Q ρ σ) (ids : NodeId → Nat → Nat → EdgeId)
    (order : NodeId → Nat → HashOrder) (model : Model L) (inputScaling : List σ) :
    Outcome (QuantizedModel L Q σ) := do
  let s ← (model.graph.iterNodes true).foldlM
    (QuantizeState.quantizeNode ops model inputScaling) QuantizeState.new
  let (graph, md) ← s.requantLayers.foldlM
    (fun s entry => addRequants ops (ids entry.1) (order entry.1) s entry)
    (⟨s.nodes, model.graph.edges⟩, s.md)
  let graph ← s.transforms.foldlM (fun graph transform => transform.apply ops graph) graph
  let inputNodes ← graph.inputNodeIds
  let outputNodes ← graph.outputNodeIds
  .ok {
    model := ⟨model.inputShapes, graph⟩
    metadata := md.build inputNodes outputNodes
    calls := s.calls }

end DeepProve
