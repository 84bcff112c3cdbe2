import DeepProve.Chunking.Halts
import DeepProve.Iop.VerifyChunk
import DeepProve.Reshape.Reshape

/-!
# The shapes of the chunks of a proof

`shape_steps` and `shape_steps_for_chunks` of `model/context.rs`: before anything is verified, the
shapes of the tensors are computed for the chunks that the prover sent. The chunks are visited in
the order of their boundary edges, the nodes of a chunk in the order of its edges; the shapes of the
inputs of a node are looked up in those registered so far.
-/

namespace DeepProve

/-- `ShapeStep` of `iop/context.rs`, with the shapes of the outputs. -/
structure NodeShapes extends ShapeStep where
  unpaddedOutputShape : List Shape
  paddedOutputShape : List Shape

/-- `Edge::feeds`. -/
def Edge.feeds {W : Type} (edge : Edge W) : List Feed :=
  edge.ports.map fun link => ⟨⟨edge.source, link.sourcePort⟩, ⟨edge.target, link.targetPort⟩⟩

/-- `order_by_in_port`. -/
def orderByInPort {α : Type} (inputs : List (NodeInput × α)) : List α :=
  ((inputs.map fun (nodeIn, x) => (nodeIn.port, x)).insertionSort fun a b => a.1 ≤ b.1).map Prod.snd

section Graph

variable {N I O : Type}

/-- The shapes of the outputs that one link leads to an input. -/
def feedShapes (shapes : HashMap NodeId NodeShapes) (feed : Feed) :
    Outcome (NodeInput × Shape × Shape) := do
  let step ← unwrap shapes[feed.source.nodeId]?
    s!"fetching shape step for N{feed.source.nodeId}:{feed.source.port}"
  let unpadded ← unwrap step.unpaddedOutputShape[feed.source.port]? "index out of bounds"
  let padded ← unwrap step.paddedOutputShape[feed.source.port]? "index out of bounds"
  .ok (feed.target, unpadded, padded)

/-- What `shape_steps_for_graph` is given besides the graph. -/
structure ShapePass (N I : Type) where
  unpaddedInputShapes : HashMap ChunkedIo Shape
  paddedInputShapes : HashMap ChunkedIo Shape
  /-- `ChunkedInput::from`. -/
  toChunkedInput : I → ChunkedIo
  updateShapeStep : NodeId → N → List Shape → List Shape → Outcome NodeShapes

namespace ShapePass

variable (P : ShapePass N I) (graph : Graph N I O Unit)

/-- The links that lead to a node. -/
def feedsInto (nodeId : NodeId) : List Feed :=
  (graph.incomings nodeId).flatMap fun (_, edge) => edge.feeds

/-- One round of the loop over the nodes. -/
def registerShapes (shapes : HashMap NodeId NodeShapes) (entry : NodeId × Node N I O) :
    Outcome (HashMap NodeId NodeShapes) :=
  match entry.2 with
  | .inner layer => do
    let inputs ← (feedsInto graph entry.1).mapM (feedShapes shapes)
    let ordered := orderByInPort inputs
    let step ← P.updateShapeStep entry.1 layer (ordered.map Prod.fst) (ordered.map Prod.snd)
    .ok (shapes.insert entry.1 step)
  | .input i => do
    let unpadded ← unwrap P.unpaddedInputShapes[P.toChunkedInput i]? "no entry found for key"
    let padded ← unwrap P.paddedInputShapes[P.toChunkedInput i]? "no entry found for key"
    .ok (shapes.insert entry.1 ⟨⟨[], []⟩, [unpadded], [padded]⟩)
  | .output _ => .ok shapes

/-- `shape_steps_for_graph`. -/
def shapeStepsForGraph (shapes : HashMap NodeId NodeShapes) : Outcome (HashMap NodeId NodeShapes) :=
  (graph.iterNodes true).foldlM (P.registerShapes graph) shapes

/-- The shapes that a node needs are registered, and its layer can be asked for its own. -/
def Served (shapes : HashMap NodeId NodeShapes) : NodeId × Node N I O → Prop
  | (nodeId, .inner layer) =>
    (∀ feed ∈ feedsInto graph nodeId, ∃ step, shapes[feed.source.nodeId]? = some step ∧
      feed.source.port < step.unpaddedOutputShape.length ∧
      feed.source.port < step.paddedOutputShape.length) ∧
    ∀ inputs, (feedsInto graph nodeId).mapM (feedShapes shapes) = .ok inputs →
      (P.updateShapeStep nodeId layer ((orderByInPort inputs).map Prod.fst)
        ((orderByInPort inputs).map Prod.snd)).Settles
  | (_, .input i) =>
    (∃ shape, P.unpaddedInputShapes[P.toChunkedInput i]? = some shape) ∧
      ∃ shape, P.paddedInputShapes[P.toChunkedInput i]? = some shape
  | (_, .output _) => True

variable {shapes : HashMap NodeId NodeShapes}

theorem settles_feedShapes {feed : Feed} :
    (feedShapes shapes feed).Settles ↔ ∃ step, shapes[feed.source.nodeId]? = some step ∧
      feed.source.port < step.unpaddedOutputShape.length ∧
      feed.source.port < step.paddedOutputShape.length := by
  have hindex : ∀ l : List Shape, (∃ shape, l[feed.source.port]? = some shape) ↔
      feed.source.port < l.length := by
    intro l
    rw [← Option.isSome_iff_exists, isSome_getElem?]
  cases hstep : shapes[feed.source.nodeId]? with
  | none => simp [feedShapes, hstep]
  | some step =>
    rw [feedShapes, hstep]
    simp only [unwrap_some, Outcome.ok_bind, Outcome.settles_bind, Outcome.settles_unwrap, hindex,
      Outcome.settles_ok, implies_true, and_true, Option.some.injEq, exists_eq_left']
    constructor
    · rintro ⟨hunpadded, hpadded⟩
      have hget : unwrap step.unpaddedOutputShape[feed.source.port]? "index out of bounds" =
          .ok step.unpaddedOutputShape[feed.source.port] := by
        rw [List.getElem?_eq_getElem hunpadded, unwrap_some]
      exact ⟨hunpadded, hpadded _ hget⟩
    · rintro ⟨hunpadded, hpadded⟩
      exact ⟨hunpadded, fun _ _ => hpadded⟩

/-- A missing shape is never reported as an error. -/
theorem feedShapes_ne_err {feed : Feed} {msg : String} :
    feedShapes shapes feed ≠ .error (.err msg) := by
  intro h
  unfold feedShapes at h
  cases hstep : shapes[feed.source.nodeId]? with
  | none =>
    rw [hstep] at h
    exact nomatch h
  | some step =>
    rw [hstep] at h
    simp only [unwrap_some, Outcome.ok_bind] at h
    cases hunpadded : step.unpaddedOutputShape[feed.source.port]? with
    | none =>
      rw [hunpadded] at h
      exact nomatch h
    | some unpadded =>
      rw [hunpadded] at h
      simp only [unwrap_some, Outcome.ok_bind] at h
      cases hpadded : step.paddedOutputShape[feed.source.port]? with
      | none =>
        rw [hpadded] at h
        exact nomatch h
      | some padded =>
        rw [hpadded] at h
        exact nomatch h

/-- One node. -/
theorem settles_registerShapes {entry : NodeId × Node N I O} :
    (P.registerShapes graph shapes entry).Settles ↔ P.Served graph shapes entry := by
  obtain ⟨nodeId, node⟩ := entry
  cases node with
  | output o => exact iff_of_true (Outcome.settles_ok _) trivial
  | input i =>
    unfold registerShapes
    simp only [Outcome.settles_bind, Outcome.settles_unwrap, Outcome.settles_ok, implies_true,
      and_true]
    constructor
    · rintro ⟨⟨shape, hshape⟩, hpadded⟩
      exact ⟨⟨shape, hshape⟩, hpadded shape (unwrap_eq_ok.mpr hshape)⟩
    · rintro ⟨hunpadded, hpadded⟩
      exact ⟨hunpadded, fun _ _ => hpadded⟩
  | inner layer =>
    unfold registerShapes
    simp only [Outcome.settles_bind, Outcome.settles_ok, implies_true, and_true]
    refine and_congr ?_ Iff.rfl
    rw [Outcome.settles_mapM_of_ne_err fun _ _ => feedShapes_ne_err]
    exact forall₂_congr fun feed _ => settles_feedShapes

/-- The computation returns exactly if every node it comes to is served. -/
theorem settles_shapeStepsForGraph :
    (P.shapeStepsForGraph graph shapes).Settles ↔
      ∀ before entry after shapes', graph.iterNodes true = before ++ entry :: after →
        before.foldlM (P.registerShapes graph) shapes = .ok shapes' →
        P.Served graph shapes' entry := by
  rw [shapeStepsForGraph, Outcome.settles_foldlM]
  simp only [settles_registerShapes]

end ShapePass

end Graph

/-! ## The layers -/

variable {F C : Type} {D : DpCrypto F} {O : OtherLayers D C}

/-- What the layers say about shapes. -/
structure ShapeLayers (O : OtherLayers D C) where
  outputShapes : LayerCtx O → List Shape → PaddingMode → Outcome (List Shape)
  /-- `unpadded_input_shapes`, if the layer is a `SplitLayer`. -/
  splitInputShapes : LayerCtx O → Option (List Shape)
  /-- A `SplitLayer` with other `unpadded_input_shapes`. -/
  withInputShapes : O.Ctx → List Shape → O.Ctx
  /-- `num_chunks` of a `SplitLayer` or a `RecombinationLayer`. -/
  numChunks : O.Ctx → List Nat

/-- `LayerCtx::shape_step`. -/
def ShapeLayers.shapeStep (L : ShapeLayers O) (layer : LayerCtx O) (unpadded padded : List Shape) :
    Outcome NodeShapes := do
  ensure ((L.splitInputShapes layer).all (· == unpadded))
    "Unpadded input shapes are not equal to split layer unpadded input shapes"
  let unpaddedOutput ← L.outputShapes layer unpadded .noPadding
  let paddedOutput ← L.outputShapes layer padded .padding
  .ok ⟨⟨unpadded, padded⟩, unpaddedOutput, paddedOutput⟩

structure ModelCtx (O : OtherLayers D C) where
  nodes : Graph (LayerCtx O) Nat Nat Unit

namespace ModelCtx

variable (M : ModelCtx O) (L : ShapeLayers O)

/-- The layer of a node of the model. -/
def layer (nodeId : NodeId) : Outcome (LayerCtx O) := do
  let node ← okOr M.nodes.nodes[nodeId]? s!"Node N{nodeId} not found verifier context"
  unwrap node.asInner s!"Node N{nodeId} must be an inner node"

/-- The layer of a node of a chunk; a `SplitLayer` is given the shapes of its inputs. -/
def chunkLayer (nodeId : NodeId) (node : ChunkedNode O) (unpadded : List Shape) :
    Outcome (LayerCtx O) :=
  match node with
  | .originalNode => M.layer nodeId
  | .chunkedLayer originalNodeId _ => M.layer originalNodeId
  | .splitLayer ctx => .ok (.other (L.withInputShapes ctx unpadded))
  | .recombinationLayer ctx => .ok (.other ctx)

/-- The shapes of a node of a chunk. -/
def chunkShapeStep (nodeId : NodeId) (node : ChunkedNode O) (unpadded padded : List Shape) :
    Outcome NodeShapes := do
  let layer ← M.chunkLayer L nodeId node unpadded
  L.shapeStep layer unpadded padded

variable (unpaddedInputShapes paddedInputShapes : HashMap ChunkedIo Shape)

/-- The pass over the nodes of the model. -/
def modelPass : ShapePass (LayerCtx O) Nat where
  unpaddedInputShapes := unpaddedInputShapes
  paddedInputShapes := paddedInputShapes
  toChunkedInput inputId := ⟨inputId, 0⟩
  updateShapeStep _ layer unpadded padded := L.shapeStep layer unpadded padded

/-- `shape_steps`. -/
def shapeSteps : Outcome (HashMap NodeId NodeShapes) :=
  (modelPass L unpaddedInputShapes paddedInputShapes).shapeStepsForGraph M.nodes ∅

/-- The pass over the nodes of a chunk. -/
def chunkPass : ShapePass (ChunkedNode O) ChunkedIoNode where
  unpaddedInputShapes := unpaddedInputShapes
  paddedInputShapes := paddedInputShapes
  toChunkedInput := ChunkedIoNode.toChunkedIo
  updateShapeStep := M.chunkShapeStep L

/-- `shape_steps_for_chunk`. -/
def shapeStepsForChunk (shapes : HashMap NodeId NodeShapes) (chunk : GraphChunk O) :
    Outcome (HashMap NodeId NodeShapes) :=
  (M.chunkPass L unpaddedInputShapes paddedInputShapes).shapeStepsForGraph chunk.subgraph shapes

end ModelCtx

namespace GraphChunk

/-- The chunks by identifier. -/
def byId (chunks : List (GraphChunk O)) : BTreeMap ChunkId (GraphChunk O) :=
  (∅ : BTreeMap ChunkId (GraphChunk O)).insertMany (chunks.map fun chunk => (chunk.chunkId, chunk))

/-- `visit_chunks_forward`: the order only depends on the boundary edges. -/
def visitChunksForward (fuel : Nat) (chunks : List (GraphChunk O)) :
    Outcome (List (GraphChunk O)) := do
  let visited ← ModelChunk.visitChunksForward fuel (chunks.map GraphChunk.toModelChunk)
  .ok (visited.filterMap fun chunk => (byId chunks)[chunk.chunkId]?)

end GraphChunk

/-- `shape_steps_for_chunks`, with at most `fuel` rounds of `visit_chunks`. -/
def ModelCtx.shapeStepsForChunks (M : ModelCtx O) (L : ShapeLayers O) (fuel : Nat)
    (chunks : List (GraphChunk O)) (unpaddedInputShapes paddedInputShapes : HashMap ChunkedIo Shape) :
    Outcome (HashMap NodeId NodeShapes) := do
  let chunks ← GraphChunk.visitChunksForward fuel chunks
  chunks.foldlM (M.shapeStepsForChunk L unpaddedInputShapes paddedInputShapes) ∅

end DeepProve
