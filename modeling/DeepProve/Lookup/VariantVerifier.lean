import DeepProve.Lookup.InputConfig

/-!
# The verifier of a lookup variant

`lookup/operation/variant/verifying.rs`, and the input claims of
`lookup/operation/variant.rs`: the claim that the linking sumcheck starts with, and the
claims about the inputs of the layer that are left when everything is verified.
-/

namespace DeepProve

/-- `FIXED_POINT_SCALE`. -/
abbrev fixedPointScale : Nat := 15

/-- What the verifier needs to know about a lookup operation. -/
structure LookupOp where
  rightShift : Nat
  fixedPointMultiplier : Int
  /-- The bit size that the inputs are decomposed with. -/
  maxBitSize : Nat
  valueChunks : Nat
  paddingValue : Int
  variant : LookupVariant

namespace LookupOp

/-- `rounding_constant`. -/
def roundingConstant (self : LookupOp) : Int := 2 ^ (self.rightShift - 1)

/-- `chunking_info`. -/
def chunkingInfo (self : LookupOp) (table : Table) : Outcome ChunkingInfo :=
  ChunkingInfo.new self.rightShift table self.maxBitSize self.valueChunks

/-- `input_config`. -/
def inputConfig (self : LookupOp) (chunkingInfo : ChunkingInfo) (unpaddedInputShape : Shape) :
    LookupInputConfig :=
  ⟨chunkingInfo, self.variant, unpaddedInputShape⟩

end LookupOp

section Evaluation

variable {F : Type} [Field F] [DecidableEq F]

omit [DecidableEq F] in
/-- `evaluate_dim_lt_poly`. -/
def evaluateDimLtPoly (rowPoint : List F) (unpaddedSeqLen : Nat) : Outcome F := do
  let bitLen := ceilLog2 unpaddedSeqLen
  ensure (rowPoint.length == bitLen)
    s!"Row point length {rowPoint.length} does not match unpadded seq len log2 {bitLen}"
  let last ← usizeSub unpaddedSeqLen 1
  let seqLenBits ← bitsOf last bitLen
  .ok (evalZeroifierMle rowPoint seqLenBits)

/-- `1 - lt` in the last dimension; zero when nothing is padded there. -/
def lastDimPadding (dimPoint : List F) (lastDim : Nat) : Outcome F :=
  if Shape.isPowerOfTwo lastDim then
    .ok 0
  else do
    let lastDimLtEval ← evaluateDimLtPoly dimPoint lastDim
    .ok (1 - lastDimLtEval)

omit [DecidableEq F] in
/-- `compute_lookup_padding_evaluation`. -/
def computeLookupPaddingEvaluation (paddingValue : F) (unpaddedInputShape : Shape)
    (dimPoints : List (List F)) : Outcome F := do
  let rank := unpaddedInputShape.rank
  if (unpaddedInputShape.drop (rank - 2)).all Shape.isPowerOfTwo then
    .ok 0
  else
    let unbroadcastShape := unpaddedInputShape.zipIdx.map fun (dim, i) =>
      if i < rank - 2 then 1 else dim
    let leadingLtEval ← unpaddedInputShape.broadcastingEvaluation dimPoints unbroadcastShape
    let (secondLastDim, lastDim) ← unpaddedInputShape.lastDims
    let lastPoint ← unwrap dimPoints[rank - 1]? "index out of bounds"
    let lastDimLtEval ← lastDimPadding lastPoint lastDim
    if secondLastDim = 1 ∨ Shape.isPowerOfTwo secondLastDim then
      .ok (leadingLtEval * lastDimLtEval * paddingValue)
    else
      let secondLastPoint ← unwrap dimPoints[rank - 2]? "index out of bounds"
      let secondLastDimLtEval ← evaluateDimLtPoly secondLastPoint secondLastDim
      .ok (leadingLtEval *
        (secondLastDimLtEval * lastDimLtEval + (1 - secondLastDimLtEval)) * paddingValue)

namespace LookupVariant

/-- The offset of a normalisation check and the value that is expected, for a row. -/
def normConstants (normalisedValue errorBound : Int) : F × F :=
  (((2 ^ shiftCheckTableBitSize - 1 - 2 * errorBound : Int) : F),
    ((normalisedValue + errorBound : Int) : F))

omit [DecidableEq F] in
/-- `compute_norm_eval`. -/
def computeNormEval (self : LookupVariant) (unpaddedDimSize : Nat) (point evals : List F) :
    Outcome (List F) := do
  let ltEval ← evaluateDimLtPoly point unpaddedDimSize
  match self with
  | softmax normalisedSumValue errorBound =>
    ensure (evals.length == 1) "Expected single eval for softmax normalisation"
    let (offsetField, normSumConst) : F × F := normConstants normalisedSumValue errorBound
    let eval ← unwrap evals[0]? "index out of bounds"
    .ok [offsetField + ltEval * normSumConst - eval]
  | normalisation normalisedMagnitudeValue magnitudeErrorBound normalisedSumValue _ =>
    let (normSum, sumErrorBound) := normalisedSumValue.getD (0, 0)
    .ok ((evals.zip [(normConstants normalisedMagnitudeValue magnitudeErrorBound : F × F),
      normConstants normSum sumErrorBound]).map fun (innerEval, offset, normSum) =>
        offset + ltEval * normSum - innerEval)
  | standard | glu => .ok []

/-- The values at one chunk are combined with powers of the challenge. -/
def sumOfEvals (init challenge start : F) (evals : List F) : F :=
  (evals.foldl (fun (acc, power) eval => (acc + eval * power, power * challenge)) (init, start)).1

/-- What a chunk contributes through its lookups, in `prepare_sumcheck_verification`. -/
def ioContribution (chunkingInfo : ChunkingInfo) (sumChallenge : F) (chunkEvals : List F) :
    Outcome (ChunkEvals F × F) := do
  let table := chunkingInfo.table
  let (shiftCheckEvals, rest) ← splitAtMid chunkEvals chunkingInfo.numberOfShiftedChunks
  let (allValueEvals, rest) ←
    splitAtMid rest (table.numColumns * chunkingInfo.numberOfValueChunks)
  let (valueInEvals, valueOutEvals) ← splitValueColumns table allValueEvals
  let valueExpr ← ValueExpression.evaluate valueOutEvals sumChallenge chunkingInfo
  let (zeroingEvals, _) ← splitAtMid rest (2 * chunkingInfo.numberOfZeroingChunks)
  let (zeroInEvals, zeroOutEvals) ← unzipPairs zeroingEvals
  .ok (⟨shiftCheckEvals, valueInEvals, zeroInEvals⟩,
    sumOfEvals valueExpr.initialSum sumChallenge (sumChallenge ^ valueExpr.sumChallengeOffset)
      zeroOutEvals)

/-- What a chunk contributes through its normalisation checks. -/
def normContribution (self : LookupVariant) (challenges normEvals logupPoint : List F)
    (numberOfChunks secondLastDim lastDimVars chunkIdx : Nat) : Outcome F :=
  if normEvals.isEmpty then
    .ok 0
  else do
    let normChallenge ← okOr challenges[1 + numberOfChunks]?
      "Not enough challenges supplied for normalisation evals"
    let chunkNormEvals :=
      (stepBy (normEvals.drop chunkIdx) numberOfChunks).take self.normLookupsPerChunk
    let point ← sliceFrom logupPoint lastDimVars
    let evals ← self.computeNormEval secondLastDim point chunkNormEvals
    .ok (sumOfEvals 0 normChallenge normChallenge evals)

/-- The shift of the chunk is added, if there is one. -/
def addShift (shiftEvals : Option (List F)) (chunkIdx : Nat) (eval : F) : Outcome F :=
  match shiftEvals with
  | some shiftEvals => do
    let shiftEval ← unwrap shiftEvals[chunkIdx]? "index out of bounds"
    .ok (eval + shiftEval)
  | none => .ok eval

/-- What a chunk contributes through its inputs, when they are part of the sumcheck. -/
def inputContribution (self : LookupVariant) (chunkingInfo : ChunkingInfo)
    (shiftEvals : Option (List F)) (challenges : List F) (numberOfChunks chunkIdx : Nat)
    (evals : ChunkEvals F) : Outcome F :=
  match self with
  | normalisation .. => do
    let inputChallenge ← okOr challenges[2 + numberOfChunks]?
      "Not enough challenges supplied for shift evals"
    let combined ← evals.combine chunkingInfo
    let chunkInputEval := combined - ((chunkingInfo.roundingConstant : Int) : F)
    let chunkInputEval ← addShift shiftEvals chunkIdx chunkInputEval
    .ok (chunkInputEval * inputChallenge)
  | standard | glu | softmax .. => .ok 0

/-- If there are shift evaluations there is one for each chunk. -/
def ensureShiftLength (shiftEvals : Option (List F)) (numberOfChunks : Nat) : Outcome Unit :=
  match shiftEvals with
  | some evals => ensure (evals.length == numberOfChunks)
      s!"Shift evals length {evals.length} does not match number of chunks {numberOfChunks}"
  | none => .ok ()

/-- `prepare_sumcheck_verification`. -/
def prepareSumcheckVerification (self : LookupVariant) (logupClaim : LogUpBatchVerifierClaim F)
    (lastClaimEval : F) (shiftEvals : Option (List F)) (challenges : List F)
    (chunkingInfo : ChunkingInfo) (unpaddedInputShape : Shape) : Outcome F := do
  let rank := unpaddedInputShape.rank
  let numberOfChunks := (unpaddedInputShape.take (rank - 2)).prod
  let (secondLastDim, lastDim) ← unpaddedInputShape.lastDims
  let lastDimVars := ceilLog2 lastDim
  let ioLookupsPerChunk := chunkingInfo.totalInputsPerChunk + chunkingInfo.totalOutputsPerChunk
  let (ioEvals, normEvals) ←
    splitAtMid (logupClaim.outputClaims.map Claim.eval) (ioLookupsPerChunk * numberOfChunks)
  ensureShiftLength shiftEvals numberOfChunks
  let sumChallenge ← unwrap challenges[0]? "index out of bounds"
  let ioChunks ← chunksOf ioEvals ioLookupsPerChunk
  let upTo ← sliceTo challenges (1 + numberOfChunks)
  ((List.range numberOfChunks).zip (ioChunks.zip (upTo.drop 1))).foldlM
    (fun acc (chunkIdx, chunkEvals, chunkChallenge) => do
      let (evals, sumContribution) ← ioContribution chunkingInfo sumChallenge chunkEvals
      let norm ← self.normContribution challenges normEvals logupClaim.point numberOfChunks
        secondLastDim lastDimVars chunkIdx
      let input ← self.inputContribution chunkingInfo shiftEvals challenges numberOfChunks chunkIdx
        evals
      .ok (acc + chunkChallenge * (sumContribution + norm + input)))
    lastClaimEval

/-- The point of a sub tensor, completed by the coordinates of the last claim. -/
def completePoint (point lastClaimPoint : List F) : Outcome (List F) := do
  let rest ← sliceFrom lastClaimPoint point.length
  .ok (point ++ rest)

/-- The evaluation of the input, from that of the decomposed values: the rounding constant, the
    fixed point multiplier and the padding are undone. -/
def inputEvalOf (unpaddedInputShape : Shape) (lookupOp : LookupOp)
    (lastClaimPoint logupPoint : List F) (eval : F) : Outcome (Claim F) := do
  let rank := unpaddedInputShape.rank
  let dimsToSkip := rank - 2
  let paddedShape := unpaddedInputShape.nextPowerOfTwo
  let dimPoints ← paddedShape.splitPoint lastClaimPoint
  let unbroadcastShape := List.replicate dimsToSkip 1 ++ unpaddedInputShape.drop dimsToSkip
  let ltEval ← unpaddedInputShape.broadcastingEvaluation dimPoints unbroadcastShape
  let eval := eval - ltEval * ((lookupOp.roundingConstant : Int) : F)
  let fpmInv ← ChunkingInfo.inverseOf ((lookupOp.fixedPointMultiplier : Int) : F)
    "Tried to invert 0 as fixed point multiplier"
  let eval := eval * fpmInv
  let firstPoint ← completePoint logupPoint lastClaimPoint
  if lookupOp.paddingValue ≠ 0 then
    let dimPoints ← paddedShape.splitPoint firstPoint
    let paddingToSub ← computeLookupPaddingEvaluation ((lookupOp.paddingValue : Int) : F)
      unpaddedInputShape dimPoints
    .ok ⟨firstPoint, eval - paddingToSub⟩
  else
    .ok ⟨firstPoint, eval⟩

/-- `produce_input_claims`. -/
def produceInputClaims (self : LookupVariant) (unpaddedInputShape : Shape) (lookupOp : LookupOp)
    (lastClaimPoint logupPoint sumcheckPoint inputClaimEvals : List F) :
    Outcome (List (Claim F)) := do
  let eval ← unwrap inputClaimEvals[0]? "index out of bounds"
  match self with
  | standard | glu | softmax .. =>
    let firstClaim ← inputEvalOf unpaddedInputShape lookupOp lastClaimPoint logupPoint eval
    let secondPoint ← completePoint sumcheckPoint lastClaimPoint
    .ok (firstClaim :: ((inputClaimEvals.drop 1).take 1).map fun eval => ⟨secondPoint, eval⟩)
  | normalisation .. =>
    let inputPoint ← completePoint sumcheckPoint lastClaimPoint
    .ok [⟨inputPoint, eval⟩]

end LookupVariant

end Evaluation

end DeepProve
