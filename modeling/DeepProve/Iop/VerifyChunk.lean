import DeepProve.Iop.ChunkGraph

/-!
# The verifier of a chunk, up to the claims about its inputs

`Verifier::verify_chunk` of `iop/verifier.rs`. The commitments of the proof are appended to the
transcript first; then the nodes are visited from the outputs to the inputs. At each node the
claims about one output port are merged, and the layer takes them to claims about its inputs. What
comes after the last node (the claims about the boundary of the chunk, the tables and the opening)
is left out.
-/

namespace DeepProve

variable {F C : Type} [Field F] [DecidableEq F] {D : DpCrypto F} {A : Appender D C}
  {O : OtherLayers D C}

structure VerifierContext (O : OtherLayers D C) where
  /-- `ctx.model.nodes`. -/
  nodes : BTreeMap NodeId (Node (LayerCtx O) Nat Nat)
  lookup : LookupContext

structure VerifierIo (F : Type) extends InferenceIo F where
  splittedInputs : Option (HashMap Nat (List (IoTensor F)))
  splittedOutputs : Option (HashMap Nat (List (IoTensor F)))

structure PolynomialEvaluation (F : Type) where
  numVars : Nat
  eval : F

structure ChunkIoCommitments (C : Type) where
  inputs : BTreeMap NodeId (VerifierCommitment C)
  outputs : BTreeMap NodeId (VerifierCommitment C)

abbrev MergeClaimsProof (D : DpCrypto F) := HashMap PortId (MergeClaimNodeProof D)

/-- The proof of a chunk, without the opening. -/
structure ChunkProof (O : OtherLayers D C) where
  steps : HashMap NodeId (LayerProof O)
  mergeClaimProofs : HashMap NodeId (MergeClaimsProof D)
  tableProof : Option (TableProof D C)
  commitments : ChunkIoCommitments C
  outputEvals : BTreeMap NodeOutput (PolynomialEvaluation F)

/-- What the verifier of a chunk is given besides the proof. -/
structure ChunkVerifier (O : OtherLayers D C) where
  ctx : VerifierContext O
  io : VerifierIo F
  chunk : GraphChunk O
  shapeSteps : HashMap NodeId ShapeStep
  transcript : D.Transcript
  appender : Appender D C
  floats : Float32Ops
  /-- `into_mle().evaluate(point)`. -/
  evaluateMle : List F → List F → Outcome F

/-- `append_to_transcript` of a commitment. -/
def VerifierCommitment.appendToTranscript (A : Appender D C) (t : D.Transcript)
    (self : VerifierCommitment C) : D.Transcript :=
  self.chunkCommitments.foldl A.appendCommitment t

/-- `add_chunk_commitments_to_transcript`. -/
def addChunkCommitmentsToTranscript (A : Appender D C) (descriptor : String) (chunkId : ChunkId)
    (t : D.Transcript) (entry : NodeId × VerifierCommitment C) : D.Transcript :=
  entry.2.appendToTranscript A
    (A.appendBytes t (GraphChunk.asBytes s!"{descriptor}: Chunk({chunkId})->{entry.1}"))

/-- `add_to_transcript`. -/
def ChunkIoCommitments.addToTranscript (A : Appender D C) (self : ChunkIoCommitments C)
    (chunkId : ChunkId) (t : D.Transcript) : D.Transcript :=
  let t := self.inputs.toList.foldl (addChunkCommitmentsToTranscript A "Input" chunkId) t
  self.outputs.toList.foldl (addChunkCommitmentsToTranscript A "Output" chunkId) t

/-- What the visit of the nodes starts from. -/
structure ClaimsStart {F : Type} (D : DpCrypto F) (C : Type) where
  verifier : Verifier D C
  outputClaimsByPort : HashMap ChunkedIo (Claim F)
  chunkOutputClaims : HashMap NodeOutput (Claim F)

/-- What the visit of the nodes has collected. -/
structure ClaimsState {F : Type} (D : DpCrypto F) (C : Type) where
  claims : HashMap NodeInput (Claim F)
  verifier : Verifier D C

namespace ChunkVerifier

variable (V : ChunkVerifier O) (proof : ChunkProof O)

/-- The layer of a node of the model. -/
def modelLayer (nodeId : NodeId) : Outcome (LayerCtx O) := do
  let node ← okOr V.ctx.nodes[nodeId]? s!"Node N{nodeId} not found verifier context"
  unwrap node.asInner s!"Node N{nodeId} must be an inner node"

/-- The layer of a node of the chunk. -/
def layerOf (nodeId : NodeId) : ChunkedNode O → Outcome (LayerCtx O)
  | .originalNode => V.modelLayer nodeId
  | .chunkedLayer originalNodeId _ => V.modelLayer originalNodeId
  | .splitLayer ctx => .ok (.other ctx)
  | .recombinationLayer ctx => .ok (.other ctx)

/-- The number of the chunk of a layer that is split. -/
def chunkNumber : ChunkedNode O → Option Nat
  | .chunkedLayer _ chunkNumber => some chunkNumber
  | _ => none

/-! ## Before the nodes are visited -/

/-- The commitments in the proof of one node. -/
def writeStep (t : D.Transcript) (entry : NodeId × ChunkedNode O) : Outcome D.Transcript := do
  let layer ← V.layerOf entry.1 entry.2
  if layer.hasProof then
    let nodeProof ← okOr proof.steps[entry.1]? s!"Proof for node N{entry.1} not found"
    layer.writeProofToTranscript V.appender nodeProof t
  else
    .ok t

/-- All commitments of the proof are appended to the transcript. -/
def writeCommitments : Outcome D.Transcript := do
  let t := V.chunk.addChunkDataToTranscript V.appender V.transcript
  let t ← V.chunk.subgraph.forwardInners.foldlM (V.writeStep proof) t
  let t := match proof.tableProof with
    | some tableProof =>
      tableProof.multiplicityCommit.foldl (VerifierCommitment.appendToTranscript V.appender) t
    | none => t
  .ok (proof.commitments.addToTranscript V.appender V.chunk.chunkId t)

/-- The challenges of the tables. -/
def tableChallenges (t : D.Transcript) : ChallengeStorage F × D.Transcript :=
  let lookupCtx := V.chunk.chunkLookupCtx V.ctx.lookup
  if lookupCtx.tables.isEmpty then
    (ChallengeStorage.default, t)
  else
    ChallengeStorage.initialise D V.floats lookupCtx t

/-- The tensor of an output of the model. -/
def outputTensor : ChunkedIoNode → Outcome (IoTensor F)
  | .originalNode outId =>
    okOr V.io.output[outId]? s!"No model output found for {outId}, there are only {V.io.output.length} outputs"
  | .chunked io => do
    let splitted ← okOr V.io.splittedOutputs "No splitted model outputs in verifier IO"
    let tensors ← okOr splitted[io.ioId]? s!"No splitted tensors found for output {io.ioId}"
    okOr tensors[io.chunkId]? s!"No tensor found for chunk {io.chunkId} of model output {io.ioId}"

/-- One output of the model. -/
def collectOutput (outputs : BTreeMap ChunkedIo (IoTensor F)) (entry : EdgeId × Edge Unit) :
    Outcome (BTreeMap ChunkedIo (IoTensor F)) := do
  ensure (entry.2.ports.length == 1)
    s!"Expected 1 port link for model output edge {entry.1}, found {entry.2.ports.length}"
  let target ← okOr V.chunk.subgraph.nodes[entry.2.target]? "Target node not found"
  let outNode ← okOr target.asOutput s!"Edge {entry.1} is not an output edge of the model"
  let tensor ← V.outputTensor outNode
  ensure (!outputs.contains outNode.toChunkedIo)
    s!"Found output tensor twice for chunk {outNode.toChunkedIo.chunkId} of output id {outNode.toChunkedIo.ioId}"
  .ok (outputs.insert outNode.toChunkedIo tensor)

/-- `compute_claim`, for one output. -/
def computeClaim (acc : HashMap ChunkedIo (Claim F) × D.Transcript)
    (entry : ChunkedIo × IoTensor F) : Outcome (HashMap ChunkedIo (Claim F) × D.Transcript) := do
  let numVars ← entry.2.shape.numVars
  let (point, t) := readChallenges D acc.2 numVars.sum
  let eval ← V.evaluateMle entry.2.data point
  .ok (acc.1.insert entry.1 ⟨point, eval⟩, t)

/-- The claims about the outputs of the model, which the verifier evaluates itself. -/
def outputClaims (t : D.Transcript) : Outcome (HashMap ChunkedIo (Claim F) × D.Transcript) := do
  let outputs ← V.chunk.modelOutputsInChunk.foldlM V.collectOutput ∅
  outputs.toList.foldlM V.computeClaim (∅, t)

/-- What the claims about the outputs of the chunk are made from. -/
structure OutputPoint {F : Type} (D : DpCrypto F) where
  claims : HashMap NodeOutput (Claim F)
  commonPoint : List F
  transcript : D.Transcript

/-- The claim about one output of the chunk: the evaluation is taken from the proof. -/
def addOutputClaim (acc : OutputPoint D) (entry : NodeOutput × PolynomialEvaluation F) :
    OutputPoint D :=
  let (newCoordinates, t) :=
    readChallenges D acc.transcript (entry.2.numVars - acc.commonPoint.length)
  let commonPoint := acc.commonPoint ++ newCoordinates
  ⟨acc.claims.insert entry.1 ⟨commonPoint.take entry.2.numVars, entry.2.eval⟩, commonPoint, t⟩

/-- The claims about the outputs of the chunk. -/
def chunkOutputClaims (t : D.Transcript) : OutputPoint D :=
  proof.outputEvals.toList.foldl addOutputClaim ⟨∅, [], t⟩

/-- All that happens before the nodes are visited. -/
def start : Outcome (ClaimsStart D C) := do
  let t ← V.writeCommitments proof
  let (storage, t) := V.tableChallenges t
  let (outputClaimsByPort, t) ← V.outputClaims t
  let outputs := chunkOutputClaims proof t
  .ok ⟨⟨CommitmentVerifier.default, outputs.transcript, storage, ∅⟩, outputClaimsByPort,
    outputs.claims⟩

/-! ## The visit of the nodes -/

/-- The claims about one port: several claims are merged. -/
def mergePort (proofs : MergeClaimsProof D) (acc : List (Claim F) × D.Transcript)
    (entry : PortId × List (Claim F)) : Outcome (List (Claim F) × D.Transcript) :=
  match entry.2 with
  | [claim] => .ok (acc.1 ++ [claim], acc.2)
  | claims => do
    let mergeClaimProof ← okOr proofs[entry.1]?
      s!"Merge claim proof for output index {entry.1} not found"
    let (claim, t) ← mergeClaimProof.verifyProof claims acc.2
    .ok (acc.1 ++ [claim], t)

/-- `verify_merge_claims_proof`. -/
def verifyMergeClaimsProof (claims : BTreeMap PortId (List (Claim F)))
    (mergeProof : Option (MergeClaimsProof D)) (t : D.Transcript) :
    Outcome (List (Claim F) × D.Transcript) :=
  match mergeProof with
  | none => do
    ensure (claims.toList.all fun (_, claims) => claims.length == 1)
      "Condition failed: `claims.iter().all(|(_, claims)| claims.len() == 1)`"
    let merged ← claims.toList.mapM fun (_, claims) => unwrap claims[0]? "index out of bounds"
    .ok (merged, t)
  | some proofs => claims.toList.foldlM (mergePort proofs) ([], t)

/-- The claims that a node makes about its inputs are registered. -/
def extendClaims (claims : HashMap NodeInput (Claim F)) (nodeId : NodeId)
    (myClaims : List (Claim F)) : HashMap NodeInput (Claim F) :=
  claims.insertMany (myClaims.zipIdx.map fun (claim, i) => ((⟨nodeId, i⟩ : NodeInput), claim))

/-- The tensor of an input of the model. -/
def inputTensor : ChunkedIoNode → Outcome (IoTensor F)
  | .originalNode inputId =>
    okOr V.io.input[inputId]? s!"No model input found for {inputId}, there are only {V.io.input.length} inputs"
  | .chunked io => do
    let splitted ← okOr V.io.splittedInputs "No splitted model inputs in verifier IO"
    let tensors ← okOr splitted[io.ioId]? s!"No splitted tensors found for input {io.ioId}"
    okOr tensors[io.chunkId]? s!"No tensor found for chunk {io.chunkId} of model input {io.ioId}"

/-- The inputs of the model that one edge leads to a node, with the claims about them. -/
def edgeInputs (claims : HashMap NodeInput (Claim F)) (nodeId : NodeId)
    (entry : EdgeId × Edge Unit) : Outcome (List (IoTensor F × Claim F)) := do
  let source ← okOr V.chunk.subgraph.nodes[entry.2.source]? "Source node not found"
  let inputNode ← okOr source.asInput s!"Edge {entry.1} is not a model input edge"
  let tensor ← V.inputTensor inputNode
  entry.2.ports.mapM fun port => do
    let claim ← unwrap claims[(⟨nodeId, port.targetPort⟩ : NodeInput)]? "no entry found for key"
    .ok (tensor, claim)

/-- The default of `verify_input_claim`: the inputs are evaluated. -/
def verifyInputClaimDefault (inputs : List (IoTensor F × Claim F)) : Outcome Unit :=
  forM inputs fun (input, claim) => do
    let computed ← V.evaluateMle input.data claim.point
    ensure (computed == claim.eval) "input claim is incorrect"

/-- `verify_input_claim`. -/
def verifyInputClaim (layer : LayerCtx O) (inputs : List (IoTensor F × Claim F)) : Outcome Unit :=
  match layer with
  | .other ctx => O.verifyInputClaim ctx (inputs.map Prod.fst) (inputs.map Prod.snd)
  | _ => V.verifyInputClaimDefault inputs

/-- The claims of a node about inputs of the model are checked. -/
def checkInputs (layer : LayerCtx O) (claims : HashMap NodeInput (Claim F)) (nodeId : NodeId) :
    Outcome Unit := do
  let edges := V.chunk.modelInputsInChunk.filter fun (_, edge) => edge.target == nodeId
  let inputs ← edges.mapM (V.edgeInputs claims nodeId)
  if inputs.flatten.isEmpty then .ok () else V.verifyInputClaim layer inputs.flatten

/-- One round of the visit. -/
def verifyNode (start : ClaimsStart D C) (state : ClaimsState D C) (entry : NodeId × ChunkNode O) :
    Outcome (ClaimsState D C) :=
  let (nodeId, node) := entry
  match node with
  | .inner inner => do
    let layer ← V.layerOf nodeId inner
    let nodeProof := (proof.steps[nodeId]?).getD .dummy
    let shapeStep ← okOr V.shapeSteps[nodeId]? s!"Shape for node N{nodeId} not found"
    let claimsForNode ← V.chunk.claimsForNode nodeId state.claims start.chunkOutputClaims
    let (claimsForVerify, t) ← verifyMergeClaimsProof claimsForNode
      proof.mergeClaimProofs[nodeId]? state.verifier.transcript
    let (myClaims, verifier) ← layer.inputClaims shapeStep nodeId (chunkNumber inner) nodeProof
      claimsForVerify { state.verifier with transcript := t }
    let claims := extendClaims state.claims nodeId myClaims
    V.checkInputs layer claims nodeId
    .ok ⟨claims, verifier⟩
  | .input _ => .ok state
  | .output o => do
    let claim ← unwrap start.outputClaimsByPort[o.toChunkedIo]? "no entry found for key"
    .ok { state with claims := state.claims.insert ⟨nodeId, 0⟩ claim }

/-- The run comes to the merging of the claims about `port` of `nodeId`: several claims are about
    to be merged, and `t` is the transcript that the merging starts from. -/
def ReachesMerge (nodeId : NodeId) (port : PortId) (claims : List (Claim F)) (t : D.Transcript) :
    Prop :=
  ∃ start before inner after state byPort proofs ports merged,
    V.start proof = .ok start ∧
    V.chunk.subgraph.backwardIter = before ++ (nodeId, .inner inner) :: after ∧
    before.foldlM (V.verifyNode proof start) ⟨∅, start.verifier⟩ = .ok state ∧
    V.chunk.claimsForNode nodeId state.claims start.chunkOutputClaims = .ok byPort ∧
    proof.mergeClaimProofs[nodeId]? = some proofs ∧
    (∃ later, byPort.toList = ports ++ (port, claims) :: later) ∧
    ports.foldlM (mergePort proofs) ([], state.verifier.transcript) = .ok (merged, t) ∧
    claims.length ≠ 1

end ChunkVerifier

end DeepProve
