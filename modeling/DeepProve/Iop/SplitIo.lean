import DeepProve.Iop.MergeBinding
import DeepProve.Iop.VerifyModel

/-!
# Are the pieces those of the tensors that are shown?

`split_io_tensors` of `iop/verifier.rs` cuts a public tensor into pieces, as a `SplitLayer` does. It
is called where the proof is made; the verifier takes the pieces that come with the tensors.
-/

namespace DeepProve

/-! ## The pieces of a tensor -/

namespace Tensor

variable {α : Type} (self : Tensor α)

/-- The unpadded shape of a chunk that starts at the given row. -/
def chunkUnpaddedShape (start size : Nat) (rest : Shape) : Outcome Shape :=
  if self.shape = self.unpaddedShape then
    .ok (size :: rest)
  else
    match self.unpaddedShape with
    | [] => .error (.panic "index out of bounds")
    | unpaddedRows :: unpaddedRest => .ok (min size (unpaddedRows - start) :: unpaddedRest)

/-- `chunk` along the first dimension; the numbers of rows and of chunks are powers of two. -/
def chunk (chunks : Nat) : Outcome (List (Tensor α)) :=
  match self.shape with
  | [] => .error (.err "Chunk dimension 0 out of bounds for tensor of rank 0")
  | rows :: rest =>
    let count := min chunks rows
    let size := rows / count
    (List.range count).mapM fun i => do
      let unpaddedShape ← self.chunkUnpaddedShape (i * size) size rest
      .ok ⟨(self.data.drop (i * size * rest.prod)).take (size * rest.prod), size :: rest,
        unpaddedShape⟩

/-- `reduce_to_shape`, to a shape with fewer rows. -/
def reduceToShape (target : Shape) : Outcome (Tensor α) :=
  if target.length ≤ self.unpaddedShape.length then
    .ok ⟨self.data.take target.numel, target, target.zipWith min self.unpaddedShape⟩
  else
    .error (.panic "Too many slices provided for shape")

end Tensor

/-- `SplitLayer::evaluate`, for one input. -/
def splitTensor (numChunks : Nat) (input : Tensor Int) : Outcome (List (Tensor Int)) := do
  let rows ← unwrap input.shape[0]? "index out of bounds"
  let rest := input.shape.tail
  let padding := List.replicate ((nextPowerOfTwo rows - rows) * rest.prod) 0
  let padded : Tensor Int :=
    ⟨input.data ++ padding, nextPowerOfTwo rows :: rest, input.unpaddedShape⟩
  let chunks ← padded.chunk (nextPowerOfTwo numChunks)
  -- the chunks of padding are discarded, and the padding of the last one that is left
  let chunks := chunks.take numChunks
  let last ← unwrap chunks.getLast? "called `Option::unwrap()` on a `None` value"
  let unpaddedRows ← unwrap last.unpaddedShape[0]? "index out of bounds"
  let unpaddedChunk ← last.reduceToShape (unpaddedRows :: rest)
  .ok (chunks.dropLast ++ [unpaddedChunk])

section SplitIo

variable {p : Nat} [Fact p.Prime]

/-- `split_io_tensors`, for one tensor. -/
def splitIoTensor (io : List (PublicTensor (ZMod p))) (ioId numChunks : Nat) :
    Outcome (List (Tensor (ZMod p))) := do
  let tensor ← unwrap io[ioId]? "index out of bounds"
  let data ← tensor.data.mapM toElement
  ensure (decide (tensor.shape.rank ≤ 4)) s!"Unexpected tensor rank: {tensor.shape.rank}"
  let outputs ← splitTensor numChunks ⟨data, tensor.shape, tensor.unpaddedShape⟩
  .ok (outputs.map fun out =>
    let padded := out.padNextPowerOfTwo
    ⟨toField (ZMod p) padded.data, padded.shape, padded.unpaddedShape⟩)

omit [Fact p.Prime] in
/-- Without an unpadded shape no tensor can be split. -/
theorem splitTensor_ne_ok {numChunks : Nat} {input : Tensor Int} {pieces : List (Tensor Int)}
    (h : input.unpaddedShape = []) : splitTensor numChunks input ≠ .ok pieces := by
  intro hsplit
  unfold splitTensor at hsplit
  simp only [Outcome.bind_eq_ok] at hsplit
  obtain ⟨rows, -, chunks, hchunk, -⟩ := hsplit
  have hrows : 0 < nextPowerOfTwo rows := Nat.two_pow_pos _
  have hcount : 0 < min (nextPowerOfTwo numChunks) (nextPowerOfTwo rows) :=
    Nat.lt_min.mpr ⟨Nat.two_pow_pos _, hrows⟩
  unfold Tensor.chunk at hchunk
  dsimp only at hchunk
  -- there is a first chunk, and its unpadded shape is asked for
  obtain ⟨count, heq⟩ := Nat.exists_eq_succ_of_ne_zero hcount.ne'
  rw [heq, List.range_succ_eq_map, List.mapM_cons] at hchunk
  obtain ⟨piece, hpiece, -⟩ := Outcome.bind_eq_ok.mp hchunk
  obtain ⟨shape, hshape, -⟩ := Outcome.bind_eq_ok.mp hpiece
  unfold Tensor.chunkUnpaddedShape at hshape
  rw [if_neg (by rw [h]; exact List.cons_ne_nil _ _), h] at hshape
  exact nomatch hshape

theorem splitIoTensor_ne_ok {io : List (PublicTensor (ZMod p))} {ioId numChunks : Nat}
    {tensor : PublicTensor (ZMod p)} {pieces : List (Tensor (ZMod p))}
    (htensor : io[ioId]? = some tensor) (h : tensor.unpaddedShape = []) :
    splitIoTensor io ioId numChunks ≠ .ok pieces := by
  intro hsplit
  unfold splitIoTensor at hsplit
  rw [htensor, unwrap_some, Outcome.ok_bind] at hsplit
  obtain ⟨data, -, hsplit⟩ := Outcome.bind_eq_ok.mp hsplit
  obtain ⟨-, -, hsplit⟩ := Outcome.bind_eq_ok.mp hsplit
  obtain ⟨outputs, houtputs, -⟩ := Outcome.bind_eq_ok.mp hsplit
  exact splitTensor_ne_ok h houtputs

end SplitIo

/-! ## Tensors that are not read -/

namespace PublicIo

variable {F : Type} (io : PublicIo F)

/-- Another tensor is shown as an output. -/
def setOutput (outId : Nat) (tensor : PublicTensor F) : PublicIo F :=
  { io with output := io.output.set outId tensor }

/-- Another tensor is shown as an input. -/
def setInput (inputId : Nat) (tensor : PublicTensor F) : PublicIo F :=
  { io with input := io.input.set inputId tensor }

/-- The piece of an output that is read. -/
def outputPiece (piece : ChunkedIo) : Option (PublicTensor F) := do
  let splitted ← io.splittedOutputs
  let tensors ← splitted[piece.ioId]?
  tensors[piece.chunkId]?

/-- The piece of an input that is read. -/
def inputPiece (piece : ChunkedIo) : Option (PublicTensor F) := do
  let splitted ← io.splittedInputs
  let tensors ← splitted[piece.ioId]?
  tensors[piece.chunkId]?

end PublicIo

section Replace

variable {F : Type} [Field F] [DecidableEq F] {D : DpCrypto F}
  {PCS : CommitmentScheme F D.Transcript} {O : OtherLayers D PCS.Commitment}

/-- The nodes of all chunks of a proof. -/
def chunkNodes (chunkProofs : List (ProvedChunk PCS O)) : List (NodeId × ChunkNode O) :=
  chunkProofs.flatMap fun proof => proof.modelChunk.subgraph.nodes.toList

variable {ctx : ModelVerifier PCS O} [DecidableEq PCS.Commitment] {io : PublicIo F}
  {chunkProofs : List (ProvedChunk PCS O)}

/-- Two runs on tensors that look the same to all chunks. -/
theorem verify_congr {io' : PublicIo F} {fuel : Nat}
    (h : ctx.verify fuel io chunkProofs = .ok ())
    (hshapes : ∀ shapeOf, io'.inputShapes shapeOf = io.inputShapes shapeOf)
    (hreads : ∀ proof ∈ chunkProofs, ∀ shapes t,
      (ctx.chunkVerifier io.toVerifierIo shapes t proof.modelChunk).ReadsAlike io'.toVerifierIo) :
    ctx.verify fuel io' chunkProofs = .ok () := by
  obtain ⟨shapes, hsteps, hchecked, hcommitments, hchunks⟩ := ctx.verify_eq_ok.mp h
  refine ctx.verify_eq_ok.mpr ⟨shapes, ?_, hchecked, hcommitments, fun proof hproof => ?_⟩
  · rw [hshapes, hshapes]
    exact hsteps
  · exact (ctx.verifyChunk_congr proof (hreads proof hproof _ _)).trans (hchunks proof hproof)

variable {tensor : PublicTensor F}

omit [Field F] [DecidableEq F] in
/-- A tensor that takes the place of another looks the same where it is read. -/
theorem getElem?_map_set {tensors : List (PublicTensor F)} {id id' : Nat}
    (h : id' = id → (tensors[id]?).map PublicTensor.toIoTensor = some tensor.toIoTensor) :
    ((tensors.set id tensor).map PublicTensor.toIoTensor)[id']? =
      (tensors.map PublicTensor.toIoTensor)[id']? := by
  rw [List.getElem?_map, List.getElem?_map, List.getElem?_set]
  split
  · next heq =>
    obtain rfl := heq
    have hsame := h rfl
    have hlt : id < tensors.length := by
      by_contra hge
      rw [List.getElem?_eq_none (Nat.le_of_not_lt hge)] at hsame
      exact nomatch hsame
    rw [if_pos hlt, hsame, Option.map_some]
  · rfl

omit [Field F] [DecidableEq F] [DecidableEq PCS.Commitment] in
theorem mem_chunkNodes {proof : ProvedChunk PCS O} (hproof : proof ∈ chunkProofs) {n : NodeId}
    {node : ChunkNode O} (h : proof.modelChunk.subgraph.nodes[n]? = some node) :
    (n, node) ∈ chunkNodes chunkProofs :=
  List.mem_flatMap.mpr ⟨proof, hproof, Std.ExtTreeMap.mem_toList_iff_getElem?_eq_some.mpr h⟩

/-- Any tensor may be shown as an output that is only read in pieces. -/
theorem verify_setOutput {fuel outId : Nat}
    (hwhole : ∀ n, (n, .output (.originalNode outId)) ∈ chunkNodes chunkProofs →
      (io.output[outId]?).map PublicTensor.toIoTensor = some tensor.toIoTensor)
    (h : ctx.verify fuel io chunkProofs = .ok ()) :
    ctx.verify fuel (io.setOutput outId tensor) chunkProofs = .ok () := by
  refine verify_congr h (fun _ => rfl) fun proof hproof shapes t => ?_
  refine ⟨fun entry _ => ChunkVerifier.collectOutput_congr fun o ho => ?_, fun _ _ _ _ => rfl⟩
  cases o with
  | chunked piece => rfl
  | originalNode outId' =>
    show okOr ((io.output.set outId tensor).map PublicTensor.toIoTensor)[outId']? _ =
      okOr (io.output.map PublicTensor.toIoTensor)[outId']? _
    rw [getElem?_map_set fun heq => hwhole _ (mem_chunkNodes hproof (heq ▸ ho))]
    simp only [ChunkVerifier.withIo, PublicIo.toVerifierIo, PublicIo.setOutput, List.length_map,
      List.length_set, ModelVerifier.chunkVerifier]

/-- Any tensor may be shown as an input that is only read in pieces. -/
theorem verify_setInput {fuel inputId : Nat}
    (hwhole : ∀ n, (n, .input (.originalNode inputId)) ∈ chunkNodes chunkProofs →
      (io.input[inputId]?).map PublicTensor.toIoTensor = some tensor.toIoTensor)
    (hpieces : ((io.splittedInputs.bind fun splitted => splitted[inputId]?)).isSome)
    (h : ctx.verify fuel io chunkProofs = .ok ()) :
    ctx.verify fuel (io.setInput inputId tensor) chunkProofs = .ok () := by
  refine verify_congr h (fun shapeOf => ?_) fun proof hproof shapes t => ?_
  · have hpieces : (io.input.set inputId tensor).zipIdx.map io.inputPieces =
        io.input.zipIdx.map io.inputPieces := by
      apply List.ext_getElem?
      intro i
      rw [List.getElem?_map, List.getElem?_map, List.getElem?_zipIdx, List.getElem?_zipIdx,
        List.getElem?_set]
      split
      · next heq =>
        -- the tensor itself is not asked for its shape
        obtain ⟨pieces, hsome⟩ := Option.isSome_iff_exists.mp (heq ▸ hpieces)
        split
        · next hlt =>
          rw [List.getElem?_eq_getElem (heq ▸ hlt)]
          simp only [Option.map_some, PublicIo.inputPieces, Nat.zero_add, hsome]
        · next hge => rw [List.getElem?_eq_none (heq ▸ Nat.le_of_not_lt hge)]
      · rfl
    show (∅ : HashMap ChunkedIo Shape).insertMany
      (((io.input.set inputId tensor).zipIdx.flatMap io.inputPieces).map _) = _
    rw [List.flatMap_def, hpieces]
    rfl
  · refine ⟨fun _ _ _ => rfl, fun n inner _ claims => ?_⟩
    refine ChunkVerifier.nodeInputs_congr fun entry _ _ => ChunkVerifier.edgeInputs_congr fun i hi => ?_
    cases i with
    | chunked piece => rfl
    | originalNode inputId' =>
      show okOr ((io.input.set inputId tensor).map PublicTensor.toIoTensor)[inputId']? _ =
        okOr (io.input.map PublicTensor.toIoTensor)[inputId']? _
      rw [getElem?_map_set fun heq => hwhole _ (mem_chunkNodes hproof (heq ▸ hi))]
      simp only [ChunkVerifier.withIo, PublicIo.toVerifierIo, PublicIo.setInput, List.length_map,
        List.length_set, ModelVerifier.chunkVerifier]

end Replace

/-! ## The condition -/

section Pieces

variable {p : Nat} [Fact p.Prime] {D : DpCrypto (ZMod p)}
  {PCS : CommitmentScheme (ZMod p) D.Transcript} {O : OtherLayers D PCS.Commitment}
  {ctx : ModelVerifier PCS O} [DecidableEq PCS.Commitment]
  {chunkProofs : List (ProvedChunk PCS O)}

/-- The number of pieces of an output in the chunks. -/
def numOutputPieces (chunkProofs : List (ProvedChunk PCS O)) (outId : Nat) : Nat :=
  (chunkNodes chunkProofs).countP fun entry => match entry.2 with
    | .output (.chunked piece) => piece.ioId == outId
    | _ => false

/-- The number of pieces of an input in the chunks. -/
def numInputPieces (chunkProofs : List (ProvedChunk PCS O)) (inputId : Nat) : Nat :=
  (chunkNodes chunkProofs).countP fun entry => match entry.2 with
    | .input (.chunked piece) => piece.ioId == inputId
    | _ => false

/-- The pieces that the chunks read are those that `split_io_tensors` makes of the tensors that are
    shown. -/
structure UsesSplitIo (io : PublicIo (ZMod p)) (chunkProofs : List (ProvedChunk PCS O)) : Prop where
  outputs : ∀ (n : NodeId) (piece : ChunkedIo),
    (n, .output (.chunked piece)) ∈ chunkNodes chunkProofs → ∃ pieces tensor,
      splitIoTensor io.output piece.ioId (numOutputPieces chunkProofs piece.ioId) = .ok pieces ∧
      io.outputPiece piece = some tensor ∧ pieces[piece.chunkId]? = some tensor.toTensor
  inputs : ∀ (n : NodeId) (piece : ChunkedIo),
    (n, .input (.chunked piece)) ∈ chunkNodes chunkProofs → ∃ pieces tensor,
      splitIoTensor io.input piece.ioId (numInputPieces chunkProofs piece.ioId) = .ok pieces ∧
      io.inputPiece piece = some tensor ∧ pieces[piece.chunkId]? = some tensor.toTensor

/-- No input and no output of the model is split in the chunks. -/
structure NoPieces (chunkProofs : List (ProvedChunk PCS O)) : Prop where
  outputs : ∀ (n : NodeId) (piece : ChunkedIo),
    (n, .output (.chunked piece)) ∉ chunkNodes chunkProofs
  inputs : ∀ (n : NodeId) (piece : ChunkedIo),
    (n, .input (.chunked piece)) ∉ chunkNodes chunkProofs

/-- The same tensor, with nothing said about its unpadded shape. -/
def PublicTensor.withoutUnpaddedShape {F : Type} (self : PublicTensor F) : PublicTensor F :=
  { self with unpaddedShape := [] }

omit [DecidableEq PCS.Commitment] in
theorem getElem?_of_splitIoTensor {io : List (PublicTensor (ZMod p))} {ioId numChunks : Nat}
    {pieces : List (Tensor (ZMod p))} (h : splitIoTensor io ioId numChunks = .ok pieces) :
    ∃ tensor, io[ioId]? = some tensor := by
  obtain ⟨tensor, htensor, -⟩ := Outcome.bind_eq_ok.mp h
  exact ⟨tensor, unwrap_eq_ok.mp htensor⟩

end Pieces

/-! ## An output that is shown and not checked -/

section Halves

abbrev plainPrimeCrypto : DpCrypto (ZMod 31) :=
  listCrypto Unit (fun _ => 0) fun message r => message.getD 0 0 + r

/-- A scheme with one commitment, to zero. -/
@[reducible]
def zeroScheme : CommitmentScheme (ZMod 31) plainPrimeCrypto.Transcript where
  Commitment := Unit
  Proof := Unit
  VerifierSetup := Unit
  combineCommitments _ _ := .ok ()
  verify _ _ t _ eval _ := if eval = 0 then .ok t else .error (.err "opening failed")

abbrev noLayers : OtherLayers plainPrimeCrypto Unit := ChunkVerifier.noOtherLayers _ _

/-- One layer that hands on its input. -/
def handsOn : ModelVerifier zeroScheme noLayers where
  model :=
    { nodes :=
        { nodes := ((∅ : BTreeMap NodeId (Node (LayerCtx noLayers) Nat Nat)).insert 0
            (.input 0)).insert 1 (.inner .flatten) |>.insert 2 (.output 0)
          edges := ((∅ : BTreeMap EdgeId (Edge Unit)).insert 0 ⟨0, 1, [⟨0, 0⟩], none⟩).insert 1
            ⟨1, 2, [⟨0, 0⟩], none⟩ } }
  commitmentCtx := ⟨(), ∅⟩
  tableNodeId := 3
  lookup := ⟨∅⟩
  layers := ⟨fun _ shapes _ => .ok shapes, fun _ => none, Empty.elim, Empty.elim⟩
  hashOrder := ⟨id, List.Perm.refl⟩
  newTranscript bytes := [.bytes bytes]
  appender := listAppender _ _
  floats := noFloats
  evaluateMle data _ := .ok (data.getD 0 0)
  computeCommitmentId port := port.nodeId + port.port

/-- One of two chunks: the layer is applied to a half of the input. -/
def halfChunk (i : Nat) : GraphChunk noLayers where
  chunkId := i
  incomingEdges := ∅
  outgoingEdges := ∅
  subgraph :=
    { nodes := ((∅ : BTreeMap NodeId (ChunkNode noLayers)).insert (10 + i)
        (.input (.chunked ⟨0, i⟩))).insert (12 + i) (.inner (.chunkedLayer 1 i))
          |>.insert (14 + i) (.output (.chunked ⟨0, i⟩))
      edges := ((∅ : BTreeMap EdgeId (Edge Unit)).insert (2 + i)
        ⟨10 + i, 12 + i, [⟨0, 0⟩], none⟩).insert (4 + i) ⟨12 + i, 14 + i, [⟨0, 0⟩], none⟩ }
  replacedNodes := ((∅ : HashMap NodeId (List NodeId)).insert 0 [10 + i]).insert 1 [12 + i]
    |>.insert 2 [14 + i]

/-- Nothing is left to prove. -/
def halfProof (i : Nat) : ProvedChunk zeroScheme noLayers where
  steps := ∅
  mergeClaimProofs := ∅
  tableProof := none
  commitments := ⟨∅, ∅⟩
  outputEvals := ∅
  modelChunk := halfChunk i
  commit := ⟨[], [], ()⟩

def halves : List (ProvedChunk zeroScheme noLayers) := [halfProof 0, halfProof 1]

def entryOf (x : ZMod 31) : PublicTensor (ZMod 31) := ⟨⟨[x], [1], [1]⟩, PublicTensor.one_ne_nil, rfl⟩

def pairOf (x y : ZMod 31) : PublicTensor (ZMod 31) := ⟨⟨[x, y], [2], [2]⟩, by simp, rfl⟩

/-- The layer was applied to 5 and 7; `x` and `y` are shown as its output. -/
def shownAs (x y : ZMod 31) : PublicIo (ZMod 31) where
  input := [pairOf 5 7]
  output := [pairOf x y]
  splittedInputs := some
    ((∅ : HashMap Nat (List (PublicTensor (ZMod 31)))).insert 0 [entryOf 5, entryOf 7])
  splittedOutputs := some
    ((∅ : HashMap Nat (List (PublicTensor (ZMod 31)))).insert 0 [entryOf 5, entryOf 7])

theorem accepts_halves : handsOn.Accepts (shownAs 5 7) halves := ⟨10, by decide +kernel⟩

end Halves

end DeepProve
