import DeepProve.Iop.CheckChunking

/-!
# The verifier of a proof

`Verifier::verify` of `iop/verifier.rs`, with the end of `verify_chunk`: the claims about the
boundary of a chunk, the tables and the opening. What the model was given and what it put out comes
with the proof. A tensor that is split is carried twice, whole and in pieces.
-/

namespace DeepProve

/-! ## The tensors -/

/-- A tensor that has an entry for each index of its shape. -/
structure PublicTensor (F : Type) extends Tensor F where
  shape_ne_nil : shape ≠ []
  numel_eq : shape.numel = data.length

theorem PublicTensor.one_ne_nil : ([1] : Shape) ≠ [] := List.cons_ne_nil 1 []

/-- `IO`: what the verifier must have besides the proof. -/
structure PublicIo (F : Type) where
  input : List (PublicTensor F)
  output : List (PublicTensor F)
  splittedInputs : Option (HashMap Nat (List (PublicTensor F)))
  splittedOutputs : Option (HashMap Nat (List (PublicTensor F)))

/-- The tensor as it is evaluated. -/
def PublicTensor.toIoTensor {F : Type} (self : PublicTensor F) : IoTensor F :=
  ⟨self.data, self.shape⟩

namespace PublicIo

variable {F : Type} (io : PublicIo F)

/-- The tensors as they are evaluated. -/
def toVerifierIo : VerifierIo F where
  input := io.input.map PublicTensor.toIoTensor
  output := io.output.map PublicTensor.toIoTensor
  splittedInputs := io.splittedInputs.map fun splitted =>
    splitted.map fun _ tensors => tensors.map PublicTensor.toIoTensor
  splittedOutputs := io.splittedOutputs.map fun splitted =>
    splitted.map fun _ tensors => tensors.map PublicTensor.toIoTensor

/-- The tensors that one input of the model consists of. -/
def inputPieces (entry : PublicTensor F × Nat) : List (ChunkedIo × PublicTensor F) :=
  match io.splittedInputs.bind fun splitted => splitted[entry.2]? with
  | some splittedIns =>
    splittedIns.zipIdx.map fun (tensor, chunkId) => (⟨entry.2, chunkId⟩, tensor)
  | none => [(⟨entry.2, 0⟩, entry.1)]

/-- The shapes of the inputs of the chunks. -/
def inputShapes (shapeOf : PublicTensor F → Shape) : HashMap ChunkedIo Shape :=
  (∅ : HashMap ChunkedIo Shape).insertMany
    ((io.input.zipIdx.flatMap io.inputPieces).map fun (id, tensor) => (id, shapeOf tensor))

end PublicIo

/-! ## The proof -/

variable {F : Type} [Field F] [DecidableEq F] {D : DpCrypto F}
  {PCS : CommitmentScheme F D.Transcript} {O : OtherLayers D PCS.Commitment}

/-- The proof of a chunk, with the chunk and the opening. -/
structure ProvedChunk (PCS : CommitmentScheme F D.Transcript) (O : OtherLayers D PCS.Commitment)
    extends ChunkProof O where
  modelChunk : GraphChunk O
  commit : OpeningProof D PCS.Proof

/-- What the verifier of a proof is given besides the proof and the tensors. -/
structure ModelVerifier (PCS : CommitmentScheme F D.Transcript)
    (O : OtherLayers D PCS.Commitment) where
  model : ModelCtx O
  commitmentCtx : CommitmentVerifierCtx PCS.Commitment PCS.VerifierSetup
  tableNodeId : NodeId
  lookup : LookupContext
  layers : ShapeLayers O
  hashOrder : HashOrder
  /-- `T::new`. -/
  newTranscript : List Nat → D.Transcript
  appender : Appender D PCS.Commitment
  floats : Float32Ops
  /-- `into_mle().evaluate(point)`. -/
  evaluateMle : List F → List F → Outcome F
  /-- `compute_commitment_id`. -/
  computeCommitmentId : NodeOutput → NodeId

/-! ## The commitments of the chunks -/

namespace GraphChunk

variable {C : Type} {O : OtherLayers D C} (chunk : GraphChunk O)
  (computeCommitmentId : NodeOutput → NodeId)

/-- `edge`. -/
def edge (edgeId : EdgeId) : Outcome (Edge Unit) :=
  okOr chunk.subgraph.edges[edgeId]? s!"Edge {edgeId} not found in chunk Chunk({chunk.chunkId})"

/-- The commitments of all chunks. -/
abbrev CommitmentsById (C : Type) := HashMap ChunkId (ChunkIoCommitments C)

/-- The commitments of a chunk. -/
def commitmentsOf (commitmentsById : CommitmentsById C) (chunkId : ChunkId) :
    Outcome (ChunkIoCommitments C) :=
  okOr commitmentsById[chunkId]? s!"No chunk commitments found for chunk Chunk({chunkId})"

variable [DecidableEq C]

/-- The commitments of one port of an incoming edge. -/
def checkIncomingPort (inputs outputs : BTreeMap NodeId (VerifierCommitment C))
    (sourceChunkId : ChunkId) (edge : Edge Unit) (port : PortLink) : Outcome Unit := do
  let id := computeCommitmentId ⟨edge.source, port.sourcePort⟩
  let input ← okOr inputs[id]?
    s!"No input commitment found for polynomial id N{id} related to edge {edge.debug} of chunk Chunk({chunk.chunkId})"
  let output ← okOr outputs[id]?
    s!"No output commitment found for polynomial id N{id} related to edge {edge.debug} of source chunk Chunk({sourceChunkId})"
  ensure (input == output)
    s!"Inconsistent commitment found for polynomial id N{id} related to edge {edge.debug} between source chunk Chunk({sourceChunkId}) and chunk Chunk({chunk.chunkId})"

/-- The commitments of one port of an outgoing edge. -/
def checkOutgoingPort (inputs outputs : BTreeMap NodeId (VerifierCommitment C))
    (targetChunkId : ChunkId) (edge : Edge Unit) (port : PortLink) : Outcome Unit := do
  let id := computeCommitmentId ⟨edge.source, port.sourcePort⟩
  let input ← okOr inputs[id]?
    s!"No input commitment found for polynomial id N{id} related to edge {edge.debug} of target chunk Chunk({targetChunkId})"
  let output ← okOr outputs[id]?
    s!"No output commitment found for polynomial id N{id} related to edge {edge.debug} of chunk Chunk({chunk.chunkId})"
  ensure (input == output)
    s!"Inconsistent commitment found for polynomial id N{id} related to edge {edge.debug} between chunk Chunk({chunk.chunkId}) and target chunk Chunk({targetChunkId})"

/-- `check_chunk_commitment_consistency`. -/
def checkChunkCommitmentConsistency (commitmentsById : CommitmentsById C) : Outcome Unit := do
  let own ← commitmentsOf commitmentsById chunk.chunkId
  forM chunk.incomingEdges.toList fun (edgeId, sourceChunkId) => do
    let edge ← chunk.edge edgeId
    let source ← commitmentsOf commitmentsById sourceChunkId
    forM edge.ports
      (chunk.checkIncomingPort computeCommitmentId own.inputs source.outputs sourceChunkId edge)
  forM chunk.outgoingEdges.toList fun (edgeId, targetChunkId) => do
    let edge ← chunk.edge edgeId
    let target ← commitmentsOf commitmentsById targetChunkId
    forM edge.ports
      (chunk.checkOutgoingPort computeCommitmentId target.inputs own.outputs targetChunkId edge)

omit [DecidableEq C]

/-- The claims about the ports of boundary edges, by commitment. -/
def boundaryEdgesClaims (edges : BoundaryEdges)
    (claimOf : Edge Unit → PortLink → Outcome (Claim F)) :
    Outcome (BTreeMap NodeId (List (Claim F))) :=
  edges.keys.foldlM (fun claims edgeId => do
    let edge ← chunk.edge edgeId
    edge.ports.foldlM (fun claims port => do
      let claim ← claimOf edge port
      let id := computeCommitmentId ⟨edge.source, port.sourcePort⟩
      .ok (claims.insert id ((claims[id]?).getD [] ++ [claim]))) claims) ∅

/-- `compute_input_boundary_edges_claims`. -/
def computeInputBoundaryEdgesClaims (claimsByLayer : HashMap NodeInput (Claim F)) :
    Outcome (BTreeMap NodeId (List (Claim F))) :=
  chunk.boundaryEdgesClaims computeCommitmentId chunk.incomingEdges fun edge port =>
    okOr claimsByLayer[(⟨edge.target, port.targetPort⟩ : NodeInput)]?
      s!"Claims for target port NodePort \x7b node_id: Node({edge.target}), port: Port({port.targetPort}) \x7d not found"

/-- `compute_output_boundary_edges_claims`. -/
def computeOutputBoundaryEdgesClaims (claimsByPort : HashMap NodeOutput (Claim F)) :
    Outcome (BTreeMap NodeId (List (Claim F))) :=
  chunk.boundaryEdgesClaims computeCommitmentId chunk.outgoingEdges fun edge port =>
    okOr claimsByPort[(⟨edge.source, port.sourcePort⟩ : NodeOutput)]?
      s!"Claim not found for source port: Output: N{edge.source}->:{port.sourcePort}"

end GraphChunk

/-! ## The tensors that a chunk reads -/

namespace ChunkVerifier

variable {C : Type} {O : OtherLayers D C} (V : ChunkVerifier O) (io : VerifierIo F)

/-- The verifier of the same chunk with other tensors. -/
def withIo : ChunkVerifier O := { V with io }

/-- The inputs of the model that a node reads, with the claims about them. -/
def nodeInputs (claims : HashMap NodeInput (Claim F)) (nodeId : NodeId) :
    Outcome (List (IoTensor F × Claim F)) := do
  let edges := V.chunk.modelInputsInChunk.filter fun (_, edge) => edge.target == nodeId
  let inputs ← edges.mapM (V.edgeInputs claims nodeId)
  .ok inputs.flatten

/-- The claims that an inner node makes about its inputs, with its layer. -/
def nodeClaims (proof : ChunkProof O) (start : ClaimsStart D C) (state : ClaimsState D C)
    (nodeId : NodeId) (inner : ChunkedNode O) : Outcome (LayerCtx O × ClaimsState D C) := do
  let layer ← V.layerOf nodeId inner
  let nodeProof := (proof.steps[nodeId]?).getD .dummy
  let shapeStep ← okOr V.shapeSteps[nodeId]? s!"Shape for node N{nodeId} not found"
  let claimsForNode ← V.chunk.claimsForNode nodeId state.claims start.chunkOutputClaims
  let (claimsForVerify, t) ← verifyMergeClaimsProof claimsForNode
    proof.mergeClaimProofs[nodeId]? state.verifier.transcript
  let (myClaims, verifier) ← layer.inputClaims shapeStep nodeId (chunkNumber inner) nodeProof
    claimsForVerify { state.verifier with transcript := t }
  .ok (layer, ⟨extendClaims state.claims nodeId myClaims, verifier⟩)

omit [Field F] in
theorem checkInputs_eq (layer : LayerCtx O) (claims : HashMap NodeInput (Claim F))
    (nodeId : NodeId) : V.checkInputs layer claims nodeId = (do
      let inputs ← V.nodeInputs claims nodeId
      if inputs.isEmpty then .ok () else V.verifyInputClaim layer inputs) := by
  simp only [checkInputs, nodeInputs, bind_assoc, Outcome.ok_bind]

/-- One round of the visit: the inputs of the model are evaluated when the claims of the node are
    known. -/
theorem verifyNode_inner (proof : ChunkProof O) (start : ClaimsStart D C)
    (state : ClaimsState D C) (nodeId : NodeId) (inner : ChunkedNode O) :
    V.verifyNode proof start state (nodeId, .inner inner) = (do
      let (layer, state') ← V.nodeClaims proof start state nodeId inner
      V.checkInputs layer state'.claims nodeId
      .ok state') := by
  simp only [verifyNode, nodeClaims, bind_assoc, Outcome.ok_bind]

/-- The run reads the same tensors. -/
structure ReadsAlike : Prop where
  outputs : ∀ entry ∈ V.chunk.modelOutputsInChunk, ∀ acc,
    (V.withIo io).collectOutput acc entry = V.collectOutput acc entry
  inputs : ∀ (n : NodeId) (inner : ChunkedNode O),
    (n, .inner inner) ∈ V.chunk.subgraph.backwardIter → ∀ claims,
      (V.withIo io).nodeInputs claims n = V.nodeInputs claims n

variable {V io}

omit [Field F] [DecidableEq F] in
theorem collectOutput_congr {entry : EdgeId × Edge Unit}
    (h : ∀ o, V.chunk.subgraph.nodes[entry.2.target]? = some (.output o) →
      (V.withIo io).outputTensor o = V.outputTensor o) (acc : BTreeMap ChunkedIo (IoTensor F)) :
    (V.withIo io).collectOutput acc entry = V.collectOutput acc entry := by
  unfold collectOutput
  congr 1
  funext _
  rw [show (V.withIo io).chunk = V.chunk from rfl]
  cases htarget : V.chunk.subgraph.nodes[entry.2.target]? with
  | none => simp only [okOr_none, Outcome.error_bind]
  | some target =>
    cases target with
    | output o => simp only [okOr_some, Outcome.ok_bind, Node.asOutput, h o htarget]
    | inner layer => simp only [okOr_some, Outcome.ok_bind, Node.asOutput, okOr_none, Outcome.error_bind]
    | input i => simp only [okOr_some, Outcome.ok_bind, Node.asOutput, okOr_none, Outcome.error_bind]

omit [Field F] [DecidableEq F] in
theorem edgeInputs_congr {claims : HashMap NodeInput (Claim F)} {n : NodeId}
    {entry : EdgeId × Edge Unit}
    (h : ∀ i, V.chunk.subgraph.nodes[entry.2.source]? = some (.input i) →
      (V.withIo io).inputTensor i = V.inputTensor i) :
    (V.withIo io).edgeInputs claims n entry = V.edgeInputs claims n entry := by
  unfold edgeInputs
  rw [show (V.withIo io).chunk = V.chunk from rfl]
  cases hsource : V.chunk.subgraph.nodes[entry.2.source]? with
  | none => simp only [okOr_none, Outcome.error_bind]
  | some source =>
    cases source with
    | input i => simp only [okOr_some, Outcome.ok_bind, Node.asInput, h i hsource]
    | inner layer => simp only [okOr_some, Outcome.ok_bind, Node.asInput, okOr_none, Outcome.error_bind]
    | output o => simp only [okOr_some, Outcome.ok_bind, Node.asInput, okOr_none, Outcome.error_bind]

omit [Field F] [DecidableEq F] in
theorem nodeInputs_congr {n : NodeId} {claims : HashMap NodeInput (Claim F)}
    (h : ∀ entry ∈ V.chunk.modelInputsInChunk, entry.2.target = n →
      (V.withIo io).edgeInputs claims n entry = V.edgeInputs claims n entry) :
    (V.withIo io).nodeInputs claims n = V.nodeInputs claims n := by
  have hedges : ((V.withIo io).chunk.modelInputsInChunk.filter fun (_, edge) => edge.target == n).mapM
      ((V.withIo io).edgeInputs claims n) =
        (V.chunk.modelInputsInChunk.filter fun (_, edge) => edge.target == n).mapM
          (V.edgeInputs claims n) := by
    refine List.mapM_congr_of_mem fun entry hentry => ?_
    obtain ⟨hmem, htarget⟩ := List.mem_filter.mp hentry
    exact h entry hmem (beq_iff_eq.mp htarget)
  exact congrArg (· >>= fun inputs => .ok inputs.flatten) hedges

omit [DecidableEq F] in
theorem start_congr
    (h : ∀ entry ∈ V.chunk.modelOutputsInChunk, ∀ acc,
      (V.withIo io).collectOutput acc entry = V.collectOutput acc entry) (proof : ChunkProof O) :
    (V.withIo io).start proof = V.start proof := by
  have houtputs : (V.withIo io).outputClaims = V.outputClaims := by
    funext t
    unfold outputClaims
    rw [show (V.withIo io).chunk = V.chunk from rfl, List.foldlM_congr_of_mem h]
    rfl
  have hwrite : (V.withIo io).writeCommitments proof = V.writeCommitments proof := rfl
  have htables : (V.withIo io).tableChallenges = V.tableChallenges := rfl
  rw [start, start, houtputs, hwrite, htables]

theorem verifyNode_congr (proof : ChunkProof O) (start : ClaimsStart D C)
    {entry : NodeId × ChunkNode O}
    (h : ∀ inner, entry.2 = .inner inner → ∀ claims,
      (V.withIo io).nodeInputs claims entry.1 = V.nodeInputs claims entry.1)
    (state : ClaimsState D C) :
    (V.withIo io).verifyNode proof start state entry = V.verifyNode proof start state entry := by
  obtain ⟨n, node⟩ := entry
  cases node with
  | input i => rfl
  | output o => rfl
  | inner inner =>
    have hcheck : ∀ layer claims,
        (V.withIo io).checkInputs layer claims n = V.checkInputs layer claims n := by
      intro layer claims
      rw [checkInputs_eq, checkInputs_eq, h inner rfl]
      rfl
    have hclaims : (V.withIo io).nodeClaims proof start state n inner =
        V.nodeClaims proof start state n inner := rfl
    rw [verifyNode_inner, verifyNode_inner, hclaims]
    simp only [hcheck]

end ChunkVerifier

/-! ## The end of the verification of a chunk -/

/-- The claims about the boundary, with the commitments of the proof. -/
def CommitmentVerifier.addBoundaryClaims {C : Type} (self : CommitmentVerifier F C)
    (commitments : BTreeMap NodeId (VerifierCommitment C)) (missing : NodeId → String)
    (claims : BTreeMap NodeId (List (Claim F))) : Outcome (CommitmentVerifier F C) :=
  claims.toList.foldlM (fun self (commitmentId, claims) => do
    let commitment ← okOr commitments[commitmentId]? (missing commitmentId)
    .ok (self.addWitnessClaim commitmentId [⟨commitment, claims⟩])) self

namespace ModelVerifier

variable (ctx : ModelVerifier PCS O)

/-- The verifier of one chunk. -/
def chunkVerifier (io : VerifierIo F) (shapeSteps : HashMap NodeId ShapeStep)
    (transcript : D.Transcript) (chunk : GraphChunk O) : ChunkVerifier O where
  ctx := ⟨ctx.model.nodes.nodes, ctx.lookup⟩
  io := io
  chunk := chunk
  shapeSteps := shapeSteps
  transcript := transcript
  appender := ctx.appender
  floats := ctx.floats
  evaluateMle := ctx.evaluateMle

variable (V : ChunkVerifier O) (proof : ProvedChunk PCS O)

/-- The claims about the boundary of the chunk. -/
def addBoundaryClaims (start : ClaimsStart D PCS.Commitment)
    (state : ClaimsState D PCS.Commitment) : Outcome (CommitmentVerifier F PCS.Commitment) := do
  let outputs ← V.chunk.computeOutputBoundaryEdgesClaims ctx.computeCommitmentId
    start.chunkOutputClaims
  let commitVerifier ← state.verifier.commitVerifier.addBoundaryClaims proof.commitments.outputs
    (fun id => s!"No commitment found for polynomial N{id} in chunk Chunk({V.chunk.chunkId})") outputs
  let inputs ← V.chunk.computeInputBoundaryEdgesClaims ctx.computeCommitmentId state.claims
  commitVerifier.addBoundaryClaims proof.commitments.inputs
    (fun id => s!"No commitment found for input group N{id} in chunk Chunk({V.chunk.chunkId})") inputs

/-- The proof about the tables. -/
def verifyTables (verifier : Verifier D PCS.Commitment) : Outcome (Verifier D PCS.Commitment) :=
  match proof.tableProof with
  | none => .ok verifier
  | some tableProof => do
    let lookupCtx := V.chunk.chunkLookupCtx V.ctx.lookup
    let (nums, dens) ← tableProof.lookup.fractionalOutputs
    let stored ← (lookupCtx.iter.zip (nums.zip dens)).foldlM
      (fun stored (table, num, denom) => LookupInputConfig.chargeTable V.floats stored table
        s!"Denominator was zero for lookup table {table.name V.floats}" [num] [denom])
      verifier.numeratorsAndDenominators
    let (commitVerifier, transcript) ← verifyTable V.floats D tableProof lookupCtx V.chunk.chunkId
      ctx.tableNodeId verifier.commitVerifier verifier.transcript verifier.challengeStorage
    .ok { verifier with
      commitVerifier, transcript, numeratorsAndDenominators := stored }

/-- `verify_chunk`. -/
def verifyChunk : Outcome Unit := do
  let start ← V.start proof.toChunkProof
  let state ← V.chunk.subgraph.backwardIter.foldlM (V.verifyNode proof.toChunkProof start)
    ⟨∅, start.verifier⟩
  let commitVerifier ← ctx.addBoundaryClaims V proof start state
  let verifier ← ctx.verifyTables V proof { state.verifier with commitVerifier }
  let _ ← verifier.commitVerifier.verify D PCS ctx.commitmentCtx proof.commit verifier.transcript
  forM verifier.numeratorsAndDenominators.toList fun (tableName, num, _) =>
    ensure (num == 0) s!"Final numerator was non-zero for lookup table {tableName}"

variable {V} in
/-- The tensors that no node of the chunk reads do not matter. -/
theorem verifyChunk_congr {io : VerifierIo F} (h : V.ReadsAlike io) :
    ctx.verifyChunk (V.withIo io) proof = ctx.verifyChunk V proof := by
  have hvisit : ∀ start, V.chunk.subgraph.backwardIter.foldlM
      ((V.withIo io).verifyNode proof.toChunkProof start) ⟨∅, start.verifier⟩ =
        V.chunk.subgraph.backwardIter.foldlM (V.verifyNode proof.toChunkProof start)
          ⟨∅, start.verifier⟩ := by
    intro start
    refine List.foldlM_congr_of_mem (fun entry hentry state => ?_) _
    exact ChunkVerifier.verifyNode_congr _ start
      (fun inner hinner => h.inputs entry.1 inner (hinner ▸ hentry)) state
  unfold verifyChunk
  rw [ChunkVerifier.start_congr h.outputs, show (V.withIo io).chunk = V.chunk from rfl]
  simp only [hvisit]
  rfl

/-! ## The verification of a proof -/

/-- `initialise_transcript`. -/
def initialiseTranscript : D.Transcript :=
  ctx.commitmentCtx.modelCommitments.values.foldl
    (VerifierCommitment.appendToTranscript ctx.appender)
    (ctx.newTranscript (GraphChunk.asBytes "model_proving"))

/-- `initialize_transcript_for_chunk`. -/
def initializeTranscriptForChunk (challenge : F) : D.Transcript :=
  D.appendScalars (ctx.newTranscript (GraphChunk.asBytes "model_chunk_proving")) [challenge]

/-- The transcript that every chunk starts from: the common challenge is drawn from that of the
    context. -/
def chunkTranscript : D.Transcript :=
  ctx.initializeTranscriptForChunk (D.challengeScalar ctx.initialiseTranscript).1

/-- The shapes of the nodes: for a single chunk they are those of the model. -/
def shapeSteps (fuel : Nat) (chunks : List (GraphChunk O))
    (unpaddedInputShapes paddedInputShapes : HashMap ChunkedIo Shape) :
    Outcome (HashMap NodeId NodeShapes) :=
  if chunks.length = 1 then
    ctx.model.shapeSteps ctx.layers unpaddedInputShapes paddedInputShapes
  else
    ctx.model.shapeStepsForChunks ctx.layers fuel chunks unpaddedInputShapes paddedInputShapes

/-- The commitments of all chunks. -/
def commitmentsById (chunkProofs : List (ProvedChunk PCS O)) :
    GraphChunk.CommitmentsById PCS.Commitment :=
  (∅ : GraphChunk.CommitmentsById PCS.Commitment).insertMany
    (chunkProofs.map fun proof => (proof.modelChunk.chunkId, proof.commitments))

variable [DecidableEq PCS.Commitment]

/-- `verify`, with at most `fuel` rounds of `visit_chunks`. -/
def verify (fuel : Nat) (io : PublicIo F) (chunkProofs : List (ProvedChunk PCS O)) :
    Outcome Unit := do
  let chunks := chunkProofs.map ProvedChunk.modelChunk
  let shapes ← ctx.shapeSteps fuel chunks (io.inputShapes fun tensor => tensor.unpaddedShape)
    (io.inputShapes fun tensor => tensor.shape)
  ctx.model.checkModelChunking ctx.layers ctx.hashOrder chunks
  forM chunkProofs fun proof => proof.modelChunk.checkChunkCommitmentConsistency
    ctx.computeCommitmentId (commitmentsById chunkProofs)
  forM chunkProofs fun proof =>
    ctx.verifyChunk (ctx.chunkVerifier io.toVerifierIo (shapes.map fun _ step => step.toShapeStep)
      ctx.chunkTranscript proof.modelChunk) proof

variable {ctx} in
theorem verify_eq_ok {fuel : Nat} {io : PublicIo F} {chunkProofs : List (ProvedChunk PCS O)} :
    ctx.verify fuel io chunkProofs = .ok () ↔
      ∃ shapes, ctx.shapeSteps fuel (chunkProofs.map ProvedChunk.modelChunk)
          (io.inputShapes fun tensor => tensor.unpaddedShape)
          (io.inputShapes fun tensor => tensor.shape) = .ok shapes ∧
        ctx.model.checkModelChunking ctx.layers ctx.hashOrder
          (chunkProofs.map ProvedChunk.modelChunk) = .ok () ∧
        (∀ proof ∈ chunkProofs, proof.modelChunk.checkChunkCommitmentConsistency
          ctx.computeCommitmentId (commitmentsById chunkProofs) = .ok ()) ∧
        ∀ proof ∈ chunkProofs, ctx.verifyChunk (ctx.chunkVerifier io.toVerifierIo
          (shapes.map fun _ step => step.toShapeStep) ctx.chunkTranscript proof.modelChunk) proof =
            .ok () := by
  unfold verify
  simp only [Outcome.bind_eq_ok]
  constructor
  · intro ⟨shapes, hshapes, _, hchecked, _, hcommitments, hchunks⟩
    exact ⟨shapes, hshapes, hchecked, Outcome.forM_eq_ok.mp hcommitments,
      Outcome.forM_eq_ok.mp hchunks⟩
  · intro ⟨shapes, hshapes, hchecked, hcommitments, hchunks⟩
    exact ⟨shapes, hshapes, (), hchecked, (), Outcome.forM_eq_ok.mpr hcommitments,
      Outcome.forM_eq_ok.mpr hchunks⟩

/-- The verifier returns, and accepts. -/
def Accepts (io : PublicIo F) (chunkProofs : List (ProvedChunk PCS O)) : Prop :=
  ∃ fuel, ctx.verify fuel io chunkProofs = .ok ()

end ModelVerifier

end DeepProve
