import DeepProve.Iop.ShapeSteps

/-!
# The chunks of a proof are those of the model

`check_model_chunking` of `model/context.rs`: the nodes of the chunks are those of the model, up to
nodes that are replaced by pieces of their own, and every node has the edges that it has in the
model. An edge that ends at a piece is traced back to an edge of the model, through the layers that
split tensors and put them together again.
-/

namespace DeepProve

variable {F C : Type} {D : DpCrypto F} {O : OtherLayers D C}

/-- The entries of a hash map, in the order in which it yields its keys. -/
def HashOrder.entries {V : Type} (H : HashOrder) (m : HashMap NodeId V) : List (NodeId × V) :=
  (H.toFun m.keys).filterMap fun n => (m[n]?).map fun v => (n, v)

namespace Graph

variable {N I O W : Type} (g : Graph N I O W)

/-- `incoming_feeds`. -/
def incomingFeeds (n : NodeId) : List Feed :=
  ((g.incomings n).flatMap fun (_, edge) => edge.feeds).insertionSort
    fun a b => a.target.port ≤ b.target.port

/-- `input_node_id`. -/
def inputNodeId [DecidableEq I] [ToString I] (inputId : I) : Outcome NodeId :=
  okOr ((g.nodes.toList.find? fun (_, node) => node.asInput == some inputId).map Prod.fst)
    s!"fetching node ID for input {inputId}"

/-- `output_node_ids`. -/
def outputNodeIds (g : Graph N I Nat W) : Outcome (List NodeId) :=
  let outputNodes := g.nodes.toList.filterMap fun (n, node) => node.asOutput.map fun i => (n, i)
  outputNodes.foldlM (fun r (n, i) =>
    if i < r.length then .ok (r.set i n) else .error (.panic "index out of bounds"))
    (List.replicate outputNodes.length 0)

end Graph

/-! ## Edges in messages -/

/-- `{:?}` of a `PortLink`. -/
def PortLink.debug (link : PortLink) : String :=
  s!"PortLink \x7b source_port: Port({link.sourcePort}), target_port: Port({link.targetPort}) \x7d"

/-- `{:?}` of `Ports`. -/
def Ports.debug (ports : Ports) : String :=
  let links := ", ".intercalate (ports.map PortLink.debug)
  s!"Ports([{links}])"

/-- `{:?}` of an edge. -/
def Edge.debug {W : Type} (edge : Edge W) : String :=
  s!"N{edge.source} -- [{Ports.debug edge.ports}] --> N{edge.target}"

/-- `{:?}` of edges by identifier. -/
def debugEdges {W : Type} (edges : List (EdgeId × Edge W)) : String :=
  let entries := ", ".intercalate (edges.map fun (id, edge) => s!"EdgeId({id}): {edge.debug}")
  s!"\x7b{entries}\x7d"

/-! ## Layers between pieces -/

/-- The layers that are put between pieces. -/
inductive PieceLayer where
  | split
  | recombination
  deriving DecidableEq

namespace PieceLayer

def name : PieceLayer → String
  | split => "Split"
  | recombination => "Recombination"

/-- The variable that holds the layer. -/
def variableName : PieceLayer → String
  | split => "split_layer"
  | recombination => "rec_layer"

/-- The side of the layer on which the pieces are. -/
def pieceSide : PieceLayer → String
  | split => "output"
  | recombination => "input"

/-- The end of an edge of the model that is on the other side of the layer. -/
def farEnd : PieceLayer → String
  | split => "Source"
  | recombination => "Target"

/-- The context of the layer, if the node is one of the given kind. -/
def ctxOf : PieceLayer → ChunkedNode O → Option O.Ctx
  | split, .splitLayer ctx => some ctx
  | recombination, .recombinationLayer ctx => some ctx
  | _, _ => none

end PieceLayer

/-- `all_equal`. -/
def allEqual : List Nat → Bool
  | [] => true
  | x :: xs => xs.all (· == x)

/-- The number of pieces of a layer, the same for all of its tensors. -/
def ShapeLayers.numPieces (L : ShapeLayers O) (kind : PieceLayer) (ctx : O.Ctx) : Outcome Nat := do
  ensure (allEqual (L.numChunks ctx))
    s!"Condition failed: `{kind.variableName}.num_chunks.iter().all_equal()`"
  unwrap (L.numChunks ctx)[0]? "index out of bounds"

/-- What is known of the chunks when the edges are checked. -/
structure ChunkIndex (O : OtherLayers D C) where
  chunks : BTreeMap ChunkId (GraphChunk O)
  chunkForNode : HashMap NodeId ChunkId
  splitLayers : Finset NodeId
  recombinationLayers : Finset NodeId
  chunkedNodesMap : HashMap NodeId NodeId

namespace ChunkIndex

variable (K : ChunkIndex O)

/-- The layer at a node that was registered as one of the given kind. -/
def pieceLayer (kind : PieceLayer) (node : NodeId) (reported : ChunkId → ChunkId) :
    Outcome (GraphChunk O × O.Ctx) := do
  let chunkId ← okOr K.chunkForNode[node]? s!"{kind.name} layer N{node} not found in any chunk"
  let chunk ← unwrap K.chunks[chunkId]? "no entry found for key"
  let chunkNode ← unwrap chunk.subgraph.nodes[node]?
    s!"{kind.name} layer N{node} not found in its chunk"
  let inner ← unwrap chunkNode.asInner s!"{kind.name} layer N{node} is not an inner node"
  let ctx ← okOr (kind.ctxOf inner)
    s!"Node N{node} in chunk Chunk({reported chunkId}) is not a {kind.name}Layer"
  .ok (chunk, ctx)

/-- The node at one end of an edge of `nodeId`. -/
def endNode (nodeId : NodeId) (node : ChunkNode O) (n : NodeId) : Outcome (ChunkNode O) :=
  if n = nodeId then
    .ok node
  else do
    let chunkId ← okOr K.chunkForNode[n]? s!"Node N{n} not found in any chunk"
    let chunk ← unwrap K.chunks[chunkId]? "no entry found for key"
    okOr chunk.subgraph.nodes[n]? s!"Node N{n} not found in chunk Chunk({chunkId})"

/-- The node of the model whose pieces the given feeds lead to. -/
def pieceOrigin (kind : PieceLayer) (node : NodeId) (chunkId : ChunkId)
    (feeds : List (PortId × NodeId)) (selected : PortId → Bool) : Outcome NodeId := do
  let original ← feeds.foldlM (fun original (port, chunkedNode) =>
    if selected port then do
      let originalNodeId ← okOr K.chunkedNodesMap[chunkedNode]?
        s!"Chunked node N{chunkedNode} not found in chunk Chunk({chunkId})"
      ensure (original.isNone || original == some originalNodeId)
        s!"{kind.name} layer N{node} in chunk Chunk({chunkId}) has {kind.pieceSide} feeds linked to different original nodes"
      .ok (some originalNodeId)
    else
      .ok original) (none : Option NodeId)
  okOr original s!"Original node linked to {kind.name} layer N{node} not found"

end ChunkIndex

/-- Port `i` stands for the ports `numPieces * i .. numPieces * (i + 1)`. -/
def inBlocks (numPieces : Nat) (ports : List PortId) (port : PortId) : Bool :=
  ports.any fun i => numPieces * i ≤ port && port < numPieces * (i + 1)

/-- The port that the pieces belong to, with the port at the other end of the link. -/
def blockPorts (numPieces : Nat) (ports : List (PortId × PortId)) : Outcome (HashMap PortId PortId) :=
  ports.foldlM (fun blocks (port, other) =>
    if numPieces = 0 then
      .error (.panic "attempt to divide by zero")
    else
      .ok (blocks.insert (port / numPieces) other)) ∅

/-! ## The edges of the chunks -/

namespace ModelCtx

variable (M : ModelCtx O) (L : ShapeLayers O) (H : HashOrder)

/-- `chunk.replaced_nodes`, one node. -/
def checkReplacedNode (chunk : GraphChunk O) (originalNode : NodeId)
    (chunkedNodesMap : HashMap NodeId NodeId) (newNode : NodeId) :
    Outcome (HashMap NodeId NodeId) := do
  let node ← okOr chunk.subgraph.nodes[newNode]?
    s!"Chunked node N{newNode} not found in chunk Chunk({chunk.chunkId})"
  match node with
  | .input (.chunked io) =>
    let originalInputNode ← M.nodes.inputNodeId io.ioId
    ensure (originalInputNode == originalNode)
      s!"Chunked input node N{newNode} in chunk Chunk({chunk.chunkId}) does not correspond to original node N{originalNode}"
  | .input (.originalNode _) =>
    .error (.err s!"Input node N{newNode} in chunk Chunk({chunk.chunkId}) is not chunked")
  | .inner inner =>
    ensure (match inner with
      | .chunkedLayer originalNodeId _ => originalNodeId == originalNode
      | _ => false)
      s!"Chunked node N{newNode} in chunk Chunk({chunk.chunkId}) does not correspond to original node N{originalNode}"
  | .output (.chunked io) =>
    let outputNodeIds ← M.nodes.outputNodeIds
    let originalOutputNode ← unwrap outputNodeIds[io.ioId]? "index out of bounds"
    ensure (originalOutputNode == originalNode)
      s!"Chunked output node N{newNode} in chunk Chunk({chunk.chunkId}) does not correspond to original node N{originalNode}"
  | .output (.originalNode _) =>
    .error (.err s!"Output node N{newNode} in chunk Chunk({chunk.chunkId}) is not chunked")
  .ok (chunkedNodesMap.insert newNode originalNode)

/-- The pieces of one node. -/
def checkPieces (chunk : GraphChunk O) (chunkedNodesMap : HashMap NodeId NodeId)
    (entry : NodeId × List NodeId) : Outcome (HashMap NodeId NodeId) :=
  entry.2.foldlM (M.checkReplacedNode chunk entry.1) chunkedNodesMap

/-- The pieces of a chunk. -/
def checkReplacedNodes (chunkedNodesMap : HashMap NodeId NodeId) (chunk : GraphChunk O) :
    Outcome (HashMap NodeId NodeId) :=
  (H.entries chunk.replacedNodes).foldlM (M.checkPieces chunk) chunkedNodesMap

/-- An edge of the model; `what` is said about it if it is not found. -/
def findEdge (newEdge : Edge Unit) (what : String) : Outcome (EdgeId × Edge Unit) :=
  okOr (M.nodes.edges.toList.find? fun entry => entry.2 == newEdge)
    s!"Edge from N{newEdge.source} to N{newEdge.target}{what} not found in original graph"

/-- An edge of the model with the ports of the given edge. -/
def findEdgeBetween (source target : NodeId) (edge : Edge Unit) : Outcome (EdgeId × Edge Unit) :=
  M.findEdge (Edge.new source target edge.ports edge.weight)
    s!" with ports {Ports.debug edge.ports}"

variable (K : ChunkIndex O)

/-- An edge from a node of the model: it leads to a layer that splits. -/
def edgeToSplit (chunkId : ChunkId) (edge : Edge Unit) : Outcome (List (EdgeId × Edge Unit)) := do
  ensure (decide (edge.target ∈ K.splitLayers)) "Condition failed: `split_layers.contains(&target)`"
  let (layerChunk, ctx) ← K.pieceLayer .split edge.target fun _ => chunkId
  let numPieces ← L.numPieces .split ctx
  let feeds := (layerChunk.subgraph.outgoingFeeds edge.target).map fun feed =>
    (feed.source.port, feed.target.nodeId)
  let originalNode ← K.pieceOrigin .split edge.target layerChunk.chunkId feeds
    (inBlocks numPieces (edge.ports.map PortLink.targetPort))
  let found ← M.findEdgeBetween edge.source originalNode edge
  .ok [found]

/-- An edge to a node of the model: it comes from a layer that puts pieces together. -/
def edgeFromRecombination (edge : Edge Unit) : Outcome (List (EdgeId × Edge Unit)) := do
  ensure (decide (edge.source ∈ K.recombinationLayers))
    "Condition failed: `recombination_layers.contains(&source)`"
  let (layerChunk, ctx) ← K.pieceLayer .recombination edge.source id
  let numPieces ← L.numPieces .recombination ctx
  let feeds := (layerChunk.subgraph.incomingFeeds edge.source).map fun feed =>
    (feed.target.port, feed.source.nodeId)
  let originalNode ← K.pieceOrigin .recombination edge.source layerChunk.chunkId feeds
    (inBlocks numPieces (edge.ports.map PortLink.sourcePort))
  let found ← M.findEdgeBetween originalNode edge.target edge
  .ok [found]

/-- The links of the model that go through a layer between pieces, by the node at the far end. -/
def linksThrough (kind : PieceLayer) (node : NodeId) (blocks : HashMap PortId PortId)
    (feeds : List (PortId × NodeId × (PortId → PortLink))) : Outcome (HashMap NodeId Ports) :=
  feeds.foldlM (fun links (port, farNode, link) =>
    match blocks[port]? with
    | none => .ok links
    | some other => do
      ensure (M.nodes.nodes.contains farNode)
        s!"{kind.farEnd} node N{farNode} of {kind.name}Layer N{node} not found in original graph"
      .ok (links.insert farNode ((links[farNode]?).getD [] ++ [link other]))) ∅

/-- An edge from a piece: it leads to a piece of an output, or to a layer that puts pieces
    together. -/
def edgeFromPiece (edge : Edge Unit) (originalSource : NodeId) (targetNode : ChunkNode O) :
    Outcome (List (EdgeId × Edge Unit)) :=
  if edge.target ∈ K.recombinationLayers then do
    let (layerChunk, ctx) ← K.pieceLayer .recombination edge.target id
    let numPieces ← L.numPieces .recombination ctx
    let blocks ← blockPorts numPieces (edge.ports.map fun link => (link.targetPort, link.sourcePort))
    let feeds := (layerChunk.subgraph.outgoingFeeds edge.target).map fun feed =>
      (feed.source.port, feed.target.nodeId, fun sourcePort => ⟨sourcePort, feed.target.port⟩)
    let links ← M.linksThrough .recombination edge.target blocks feeds
    (H.entries links).mapM fun (targetNode, ports) =>
      M.findEdge (Edge.new originalSource targetNode ports edge.weight) ""
  else do
    let outNode ← okOr targetNode.asOutput s!"Node N{edge.target} is not a model output node"
    match outNode with
    | .originalNode _ => .error (.err s!"Node N{edge.target} is not a chunked output node")
    | .chunked io => do
      let outputNodeIds ← M.nodes.outputNodeIds
      let originalTarget ← unwrap outputNodeIds[io.ioId]? "index out of bounds"
      let found ← M.findEdgeBetween originalSource originalTarget edge
      .ok [found]

/-- An edge to a piece: it comes from a piece of an input, or from a layer that splits. -/
def edgeToPiece (edge : Edge Unit) (originalTarget : NodeId) (sourceNode : ChunkNode O) :
    Outcome (List (EdgeId × Edge Unit)) :=
  if edge.source ∈ K.splitLayers then do
    let (layerChunk, ctx) ← K.pieceLayer .split edge.source id
    let numPieces ← L.numPieces .split ctx
    let blocks ← blockPorts numPieces (edge.ports.map fun link => (link.sourcePort, link.targetPort))
    let feeds := (layerChunk.subgraph.incomingFeeds edge.source).map fun feed =>
      (feed.target.port, feed.source.nodeId, fun targetPort => ⟨feed.source.port, targetPort⟩)
    let links ← M.linksThrough .split edge.source blocks feeds
    (H.entries links).mapM fun (sourceNode, ports) =>
      M.findEdge (Edge.new sourceNode originalTarget ports edge.weight) " with ports"
  else do
    let inNode ← okOr sourceNode.asInput s!"Node N{edge.source} is not a model input node"
    match inNode with
    | .originalNode _ => .error (.err s!"Node N{edge.source} is not a chunked input node")
    | .chunked io => do
      let originalSource ← M.nodes.inputNodeId io.ioId
      let found ← M.findEdgeBetween originalSource originalTarget edge
      .ok [found]

end ModelCtx

/-- The node of the model that a node of a chunk is a piece of. -/
def pieceOf : ChunkNode O → Option NodeId
  | .inner (.chunkedLayer originalNodeId _) => some originalNodeId
  | _ => none

namespace ModelCtx

variable (M : ModelCtx O) (L : ShapeLayers O) (H : HashOrder) (K : ChunkIndex O)

/-- The edges of the model that an edge of a node of a chunk stands for. -/
def originalEdges (chunkId : ChunkId) (nodeId : NodeId) (node : ChunkNode O)
    (entry : EdgeId × Edge Unit) : Outcome (List (EdgeId × Edge Unit)) :=
  let (edgeId, edge) := entry
  let isSourceInOriginalGraph := M.nodes.nodes.contains edge.source
  let isTargetInOriginalGraph := M.nodes.nodes.contains edge.target
  if isSourceInOriginalGraph && isTargetInOriginalGraph then
    .ok [(edgeId, edge)]
  else if isSourceInOriginalGraph then
    M.edgeToSplit L K chunkId edge
  else if isTargetInOriginalGraph then
    M.edgeFromRecombination L K edge
  else do
    let sourceNode ← K.endNode nodeId node edge.source
    let targetNode ← K.endNode nodeId node edge.target
    match pieceOf sourceNode, pieceOf targetNode with
    | some originalSource, some originalTarget => do
      let found ← M.findEdgeBetween originalSource originalTarget edge
      .ok [found]
    | some originalSource, none => M.edgeFromPiece L H K edge originalSource targetNode
    | none, some originalTarget => M.edgeToPiece L H K edge originalTarget sourceNode
    | none, none => .ok []

/-- One edge of a node. -/
def traceEdge (chunkId : ChunkId) (entry : NodeId × ChunkNode O)
    (graphEdgesForNode : BTreeMap EdgeId (Edge Unit)) (edge : EdgeId × Edge Unit) :
    Outcome (BTreeMap EdgeId (Edge Unit)) := do
  let found ← M.originalEdges L H K chunkId entry.1 entry.2 edge
  .ok (graphEdgesForNode.insertMany found)

/-- The edges of one node are those of the node of the model. -/
def checkNodeEdges (chunk : GraphChunk O) (graphEdges : BTreeMap EdgeId (Edge Unit))
    (entry : NodeId × ChunkNode O) : Outcome (BTreeMap EdgeId (Edge Unit)) := do
  let graphEdgesForNode ← (chunk.subgraph.neighbors entry.1 .any).foldlM
    (M.traceEdge L H K chunk.chunkId entry) ∅
  let originalNode :=
    if M.nodes.nodes.contains entry.1 then some entry.1 else K.chunkedNodesMap[entry.1]?
  match originalNode with
  | none => .ok ()
  | some originalNode =>
    ensure (graphEdgesForNode.toList == M.nodes.neighbors originalNode .any)
      s!"The edges for node N{entry.1} in the chunk do not match the edges for original node N{originalNode} in the model graph: {debugEdges graphEdgesForNode.toList} vs {debugEdges (M.nodes.neighbors originalNode .any)}"
  .ok (graphEdges.insertMany graphEdgesForNode.toList)

/-- The edges of one chunk. -/
def checkChunkEdges (graphEdges : BTreeMap EdgeId (Edge Unit)) (chunk : GraphChunk O) :
    Outcome (BTreeMap EdgeId (Edge Unit)) :=
  chunk.subgraph.nodes.toList.foldlM (M.checkNodeEdges L H K chunk) graphEdges

/-- `zip_eq` of the edges found in the chunks and those of the model. -/
def zipEdges : List (EdgeId × Edge Unit) → List (EdgeId × Edge Unit) → Outcome Unit
  | [], [] => .ok ()
  | chunkedGraphEdge :: graphEdges, originalEdge :: originalEdges => do
    ensure (chunkedGraphEdge.1 == originalEdge.1)
      s!"Edge id in chunked graph does not match original edge id: EdgeId({chunkedGraphEdge.1}) vs EdgeId({originalEdge.1})"
    ensure (chunkedGraphEdge.2 == originalEdge.2)
      s!"Edge data in chunked graph does not match original edge data: {chunkedGraphEdge.2.debug} vs {originalEdge.2.debug}"
    zipEdges graphEdges originalEdges
  | _, _ => .error (.panic "itertools: .zip_eq() reached end of one iterator before the other")

end ModelCtx

namespace GraphChunk

/-- `node_to_chunk_map`. -/
def nodeToChunkMap (chunks : List (GraphChunk O)) : HashMap NodeId ChunkId :=
  (∅ : HashMap NodeId ChunkId).insertMany
    (chunks.flatMap fun chunk => chunk.subgraph.nodes.keys.map fun nodeId => (nodeId, chunk.chunkId))

/-- The nodes of the chunks that are layers of the given kind. -/
def pieceLayers (kind : PieceLayer) (chunks : List (GraphChunk O)) : Finset NodeId :=
  (chunks.flatMap fun chunk => chunk.subgraph.nodes.toList.filterMap fun (nodeId, node) =>
    (node.asInner.bind kind.ctxOf).map fun _ => nodeId).toFinset

/-- `build_incoming_boundary_edges` and `build_outgoing_boundary_edges`. -/
def buildBoundaryEdges (farEnd : Edge Unit → NodeId) (what : String)
    (chunkForNode : HashMap NodeId ChunkId) (chunk : GraphChunk O) :
    Outcome (List (EdgeId × ChunkId)) :=
  (chunk.subgraph.edges.toList.filter fun (_, edge) =>
    !chunk.subgraph.nodes.contains (farEnd edge)).mapM fun (edgeId, edge) => do
      let farChunk ← okOr chunkForNode[farEnd edge]? s!"{what} node N{farEnd edge} not found in chunks"
      .ok (edgeId, farChunk)

/-- The boundary edges of a chunk are grouped correctly. -/
def checkBoundaryEdges (chunkForNode : HashMap NodeId ChunkId) (chunk : GraphChunk O) :
    Outcome Unit := do
  let incoming ← chunk.buildBoundaryEdges Edge.source "Source" chunkForNode
  ensure (incoming == chunk.incomingEdges.toList)
    s!"The incoming edges for chunk Chunk({chunk.chunkId}) are not correctly grouped"
  let outgoing ← chunk.buildBoundaryEdges Edge.target "Target" chunkForNode
  ensure (outgoing == chunk.outgoingEdges.toList)
    s!"The outgoing edges for chunk Chunk({chunk.chunkId}) are not correctly grouped"

/-- A node that stands for one of the model, or for a piece of one. -/
def isModelNode : ChunkNode O → Bool
  | .inner (.splitLayer _) => false
  | .inner (.recombinationLayer _) => false
  | _ => true

/-- One node of the chunks: an inner node may be found only once. -/
def collectNode (nodeIds : Finset NodeId) (entry : NodeId × ChunkNode O) :
    Outcome (Finset NodeId) :=
  if isModelNode entry.2 then do
    ensure (!entry.2.isInner || decide (entry.1 ∉ nodeIds))
      s!"Node N{entry.1} found multiple times in model chunks"
    .ok (insert entry.1 nodeIds)
  else
    .ok nodeIds

/-- The nodes that a node of the model is replaced by in the chunks. -/
def replacements (chunks : List (GraphChunk O)) (nodeId : NodeId) : Option (List NodeId) :=
  match chunks.filterMap fun chunk => chunk.replacedNodes[nodeId]? with
  | [] => none
  | replaced => some replaced.flatten

end GraphChunk

/-- What is looked up in the chunks. -/
def ChunkIndex.new (chunks : BTreeMap ChunkId (GraphChunk O))
    (chunkedNodesMap : HashMap NodeId NodeId) : ChunkIndex O where
  chunks := chunks
  chunkForNode := GraphChunk.nodeToChunkMap chunks.values
  splitLayers := GraphChunk.pieceLayers .split chunks.values
  recombinationLayers := GraphChunk.pieceLayers .recombination chunks.values
  chunkedNodesMap := chunkedNodesMap

namespace ModelCtx

variable (M : ModelCtx O) (L : ShapeLayers O) (H : HashOrder)

/-- The nodes of the model that the pieces in the chunks belong to. -/
def chunkedNodes (chunks : BTreeMap ChunkId (GraphChunk O)) : Outcome (HashMap NodeId NodeId) :=
  chunks.values.foldlM (M.checkReplacedNodes H) ∅

/-- The edges of the model that are found in the chunks. -/
def graphEdges (K : ChunkIndex O) : Outcome (BTreeMap EdgeId (Edge Unit)) :=
  K.chunks.values.foldlM (M.checkChunkEdges L H K) ∅

/-- `check_model_graph_edges_from_chunks`. -/
def checkModelGraphEdgesFromChunks (chunks : BTreeMap ChunkId (GraphChunk O)) : Outcome Unit := do
  let chunkedNodesMap ← M.chunkedNodes H chunks
  let graphEdges ← M.graphEdges L H (ChunkIndex.new chunks chunkedNodesMap)
  zipEdges graphEdges.toList M.nodes.edges.toList

/-- The chunks form a partition of the nodes of the model. -/
def checkPartition (chunks : BTreeMap ChunkId (GraphChunk O)) : Outcome Unit := do
  let nodesInChunks ← chunks.values.foldlM (fun nodeIds chunk =>
    chunk.subgraph.nodes.toList.foldlM GraphChunk.collectNode nodeIds) (∅ : Finset NodeId)
  let modelNodeIds := M.nodes.nodes.keys.flatMap fun nodeId =>
    (GraphChunk.replacements chunks.values nodeId).getD [nodeId]
  ensure (decide (nodesInChunks = modelNodeIds.toFinset))
    "The chunks do not form a partition of the model graph"

/-- `check_model_chunking`. -/
def checkModelChunking (chunks : List (GraphChunk O)) : Outcome Unit := do
  let chunks := GraphChunk.byId chunks
  M.checkPartition chunks
  M.checkModelGraphEdgesFromChunks L H chunks
  let chunkForNode := GraphChunk.nodeToChunkMap chunks.values
  forM chunks.values (GraphChunk.checkBoundaryEdges chunkForNode)
  ModelChunk.checkBoundaryEdgesConsistency (chunks.map fun _ chunk => chunk.toModelChunk)

end ModelCtx

end DeepProve
