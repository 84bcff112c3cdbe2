import DeepProve.EinSum.Axis
import DeepProve.PolyCommit.Verifier

/-!
# The verifier of an Einstein summation

`layers/einsum/verify.rs` and `build_einsum_expression` of `layers/einsum/op_info.rs`. The sumcheck
is over the contracted axes. The prover sends one evaluation of each of the two inputs for every
index of the stacked axes; the verifier checks the sum of their products, and returns one claim about
each input, the sum of its evaluations with the stacking coefficients.
-/

namespace DeepProve

/-- The shapes of the inputs of a step, constants left out. -/
structure ShapeStep where
  unpaddedInputShape : List Shape
  paddedInputShape : List Shape

structure EinSumContext where
  mapping : AxesMapping
  constantKeys : List (Option CommitmentId)
  constantUnpaddedShapes : List (Option Shape)
  biasKeys : List (Option CommitmentId)
  biasUnpaddedShapes : List (Option Shape)

structure EinSumProof {F : Type} (D : DpCrypto F) where
  /-- One for each bias. -/
  biasEvals : List F
  einsumSumcheck : D.IOPProof
  /-- Those of the left input come first. -/
  einsumEvaluations : List F
  /-- That the same left input was used in all operations. -/
  inputAggregationSumcheck : Option D.IOPProof

structure EinSumVerifierInfo (F : Type) where
  claims : List (Claim F)
  constantsMap : HashMap CommitmentId (Claim F)

/-- The evaluations, weighted with the coefficients. -/
def weightedSum {F : Type} [CommRing F] (evals coeffs : List F) : F :=
  (evals.zip coeffs).foldl (fun acc (e, c) => acc + e * c) 0

namespace EinSumContext

variable (self : EinSumContext)

/-- The input shapes that are still to come, and those of the inputs so far. -/
structure InputShapes where
  unpaddedIter : List Shape
  paddedIter : List Shape
  unpadded : List Shape
  padded : List Shape

/-- The shape of a constant is known, that of another input is the next one of the step. -/
def nextInput (shapes : InputShapes) (constShape : Option Shape) : Outcome InputShapes :=
  match constShape with
  | some s => .ok { shapes with
      unpadded := shapes.unpadded ++ [s]
      padded := shapes.padded ++ [s.nextPowerOfTwo] }
  | none => do
    let unpadded ← okOr shapes.unpaddedIter.head? "Missing unpadded input shape"
    let padded ← okOr shapes.paddedIter.head? "Missing padded input shape"
    .ok {
      unpaddedIter := shapes.unpaddedIter.tail
      paddedIter := shapes.paddedIter.tail
      unpadded := shapes.unpadded ++ [unpadded]
      padded := shapes.padded ++ [padded] }

/-- The unpadded and padded shapes of all inputs. -/
def inputShapes (shapeStep : ShapeStep) : Outcome (List Shape × List Shape) := do
  let lhsUnpadded ← okOr shapeStep.unpaddedInputShape.head? "Missing LHS unpadded input shape"
  let lhsPadded ← okOr shapeStep.paddedInputShape.head? "Missing LHS padded input shape"
  let shapes ← self.constantUnpaddedShapes.foldlM nextInput
    ⟨shapeStep.unpaddedInputShape.tail, shapeStep.paddedInputShape.tail, [lhsUnpadded], [lhsPadded]⟩
  .ok (shapes.unpadded, shapes.padded)

section Field

variable {F : Type} [Field F] [DecidableEq F]

/-- The claims about the outputs, cut at the axes, without the biases. -/
structure OutputClaims (F : Type) where
  biasEvals : List F
  biasUsizeId : Nat
  splitPoints : List (List (List F))
  claimEvaluations : List F
  biasClaims : List (CommitmentId × Claim F)

/-- What is known of an output. -/
structure OutputEntry (F : Type) where
  claim : Claim F
  outputShape : Shape
  unpaddedOutputShape : Shape
  biasShape : Option Shape
  biasKey : Option CommitmentId

omit [DecidableEq F] in
/-- Take in the claim about one output. -/
def splitOutput (acc : OutputClaims F) (entry : OutputEntry F × Nat) :
    Outcome (OutputClaims F) := do
  let (output, outputId) := entry
  match output.biasShape with
  | some _ => do
    let biasEval ← okOr acc.biasEvals.head? "Not enough bias evaluations in proof"
    let splitPoint ← output.outputShape.splitPoint output.claim.point
    let (broadcast, biasClaim) ← self.mapping.computeBiasEvaluation outputId acc.biasUsizeId
      splitPoint biasEval output.unpaddedOutputShape
    let biasId ← unwrap output.biasKey "called `Option::unwrap()` on a `None` value"
    .ok {
      biasEvals := acc.biasEvals.tail
      biasUsizeId := acc.biasUsizeId + 1
      splitPoints := acc.splitPoints ++ [splitPoint]
      claimEvaluations := acc.claimEvaluations ++ [output.claim.eval - broadcast]
      biasClaims := acc.biasClaims ++ [(biasId, biasClaim)] }
  | none => do
    let splitPoint ← output.outputShape.splitPoint output.claim.point
    .ok { acc with
      splitPoints := acc.splitPoints ++ [splitPoint]
      claimEvaluations := acc.claimEvaluations ++ [output.claim.eval] }

omit [DecidableEq F] in
/-- `izip!` of the claims, the shapes and the biases. -/
def outputEntries (lastClaims : List (Claim F)) (outputShapes unpaddedOutputShapes : List Shape) :
    List (OutputEntry F) :=
  (lastClaims.zip (outputShapes.zip (unpaddedOutputShapes.zip
    (self.biasUnpaddedShapes.zip self.biasKeys)))).map
      fun (claim, outputShape, unpaddedOutputShape, biasShape, biasKey) =>
        ⟨claim, outputShape, unpaddedOutputShape, biasShape, biasKey⟩

/-- What is known before the sumcheck. -/
structure Prepared (F : Type) where
  unpaddedInputShapes : List Shape
  paddedInputShapes : List Shape
  contractionSize : Nat
  outputs : OutputClaims F

omit [DecidableEq F] in
/-- `verify_internal`, up to the sumcheck. -/
def prepare (biasEvals : List F) (lastClaims : List (Claim F)) (shapeStep : ShapeStep) :
    Outcome (Prepared F) := do
  ensure (lastClaims.length == self.mapping.outputCount)
    s!"Expected {self.mapping.outputCount} last claims, got {lastClaims.length}"
  let (unpaddedInputShapes, paddedInputShapes) ← self.inputShapes shapeStep
  let outputShapes ← self.mapping.outputShapes paddedInputShapes
  let unpaddedOutputShapes ← self.mapping.outputShapes unpaddedInputShapes
  let sizes ← self.mapping.axesSizes unpaddedInputShapes
  let outputs ← (self.outputEntries lastClaims outputShapes unpaddedOutputShapes).zipIdx.foldlM
    self.splitOutput ⟨biasEvals, 0, [], [], []⟩
  .ok ⟨unpaddedInputShapes, paddedInputShapes, sizes.contracted, outputs⟩

variable (D : DpCrypto F)

omit [DecidableEq F] in
/-- The products of one operation, the last one first. -/
def productsExpression (coeffs : List F) (offset rhsOffset : Nat) : Outcome D.Expression :=
  match coeffs with
  | [] => .error (.panic "index out of bounds: the len is 0 but the index is 0")
  | c :: rest =>
    .ok (rest.zipIdx.foldl (fun inner (c, j) =>
        D.add (D.mul (D.mul (D.constant c) (D.witIn (UInt16.ofNat (j + 1 + offset))))
          (D.witIn (UInt16.ofNat (j + 1 + rhsOffset)))) inner)
      (D.mul (D.mul (D.constant c) (D.witIn (UInt16.ofNat offset)))
        (D.witIn (UInt16.ofNat rhsOffset))))

omit [DecidableEq F] in
/-- `build_einsum_expression`. -/
def buildEinsumExpression (stackingCoeffs : List (List F)) : Outcome D.Expression := do
  let totalInputs := self.mapping.inputCount
  let rhsInputs := totalInputs - 1
  if stackingCoeffs.length = totalInputs - 1 then
    stackingCoeffs.zipIdx.foldlM (fun acc (coeffs, i) => do
        let stackDimSize := coeffs.length
        let offset := i * stackDimSize
        let rhsOffset := rhsInputs * stackDimSize + offset
        let products ← productsExpression D coeffs offset rhsOffset
        .ok (D.add acc (D.mul (D.challenge 0 i 1 0) products)))
      (D.constant 0)
  else
    .error (.panic s!"Number of stacking coefficients ({stackingCoeffs.length}) does not match number of RHS inputs ({rhsInputs})")

/-- What the claims about the inputs are made of. -/
structure RhsEntry (F : Type) where
  rhsFixes : List (FixedAxis (List F))
  evalChunk : List F
  coeffs : List F
  constShape : Option Shape
  polyId : Option CommitmentId
  inputShape : Shape

omit [DecidableEq F] in
/-- The claim about one of the right inputs. -/
def rhsClaim (einsumPoint : List F) (acc : List (Claim F) × List (CommitmentId × Claim F))
    (entry : RhsEntry F) : Outcome (List (Claim F) × List (CommitmentId × Claim F)) := do
  let (inputClaims, weightClaims) := acc
  let fullPoint ← reconstructFullPoint entry.rhsFixes einsumPoint entry.inputShape
  let eval := weightedSum entry.evalChunk entry.coeffs
  match entry.constShape with
  | some _ => do
    let polyId ← unwrap entry.polyId "called `Option::unwrap()` on a `None` value"
    .ok (inputClaims, weightClaims ++ [(polyId, ⟨fullPoint, eval⟩)])
  | none => .ok (inputClaims ++ [⟨fullPoint, eval⟩], weightClaims)

omit [DecidableEq F] in
/-- `izip!` of what is known of the right inputs. -/
def rhsEntries (rhsFixes : List (List (FixedAxis (List F)))) (evalChunks coeffs : List (List F))
    (paddedInputShapes : List Shape) : List (RhsEntry F) :=
  (rhsFixes.zip (evalChunks.zip (coeffs.zip (self.constantUnpaddedShapes.zip
    (self.constantKeys.zip paddedInputShapes.tail))))).map
      fun (fixes, evalChunk, coeffs, constShape, polyId, inputShape) =>
        ⟨fixes, evalChunk, coeffs, constShape, polyId, inputShape⟩

/-- The claim about the left input. Without an aggregation proof, the code here builds the point the
    way `reconstruct_full_point` does. -/
def lhsClaim (aggregation : Option D.IOPProof) (lhsFixes : List (List (FixedAxis (List F))))
    (einsumPoint : List F) (lhsShape : Shape) (evalChunks coeffs : List (List F))
    (transcript : D.Transcript) : Outcome (Claim F × D.Transcript) := do
  match aggregation with
  | some aggProof => do
    let eqPoints ← lhsFixes.mapM fun fixes => reconstructFullPoint fixes einsumPoint lhsShape
    let first ← unwrap eqPoints[0]? "index out of bounds"
    let (challenge, transcript) := D.appendAndSample transcript "input_batching_challenge"
    let claimedSum := ((evalChunks.zip coeffs).foldl (fun (acc, coeff) (evalChunk, scs) =>
        (acc + weightedSum evalChunk scs * coeff, coeff * challenge)) ((0 : F), (1 : F))).1
    let (subclaim, transcript) ← D.verifySumcheck claimedSum aggProof ⟨2, first.length⟩ transcript
    let evalNoInput := (eqPoints.foldl (fun (acc, coeff) p =>
        (acc + identityEval p subclaim.point * coeff, coeff * challenge)) ((0 : F), (1 : F))).1
    if evalNoInput = 0 then
      .error (.panic "Tried to invert zero in Einsum verifier")
    else
      .ok (⟨subclaim.point, subclaim.expectedEvaluation * evalNoInput⁻¹⟩, transcript)
  | none => do
    let fixes ← unwrap lhsFixes[0]? "index out of bounds"
    let point ← reconstructFullPoint fixes einsumPoint lhsShape
    let eval := (evalChunks.zip coeffs).foldl (fun acc (evalChunk, scs) =>
      acc + weightedSum evalChunk scs) 0
    .ok (⟨point, eval⟩, transcript)

/-- What is known after the sumcheck. -/
structure AfterSumcheck {F : Type} (D : DpCrypto F) where
  prepared : Prepared F
  batchingChallenge : F
  fixed : FixedAxesMapping F
  stackingCoeffs : List (List F)
  einsumSubclaim : SumcheckSubclaim F
  transcript : D.Transcript

/-- `verify_internal`, up to the subclaim of the sumcheck; `evals` are the evaluations of the `eq`
    polynomial. -/
def runSumcheck (evals : List F → List F) (proof : EinSumProof D) (lastClaims : List (Claim F))
    (shapeStep : ShapeStep) (transcript : D.Transcript) : Outcome (AfterSumcheck D) := do
  let prepared ← self.prepare proof.biasEvals lastClaims shapeStep
  let (batchingChallenge, transcript) := D.appendAndSample transcript "batching_challenge"
  let claimedSum := CommitmentVerifier.claimedSum batchingChallenge prepared.outputs.claimEvaluations
  let fixed ← self.mapping.sortVariablesToAxes prepared.outputs.splitPoints
  let lhsUnpadded ← unwrap prepared.unpaddedInputShapes[0]? "index out of bounds"
  let stackingCoeffs ← fixed.stackingCoefficients evals lhsUnpadded
  let numVars := ceilLog2 prepared.contractionSize
  let (subclaim, transcript) ←
    D.verifySumcheck claimedSum proof.einsumSumcheck ⟨2, numVars⟩ transcript
  .ok ⟨prepared, batchingChallenge, fixed, stackingCoeffs, subclaim, transcript⟩

/-- `verify_internal`, from the subclaim of the sumcheck on. -/
def finish (proof : EinSumProof D) (after : AfterSumcheck D) :
    Outcome (EinSumVerifierInfo F × D.Transcript) := do
  let einsumPoint := after.einsumSubclaim.point
  let expression ← self.buildEinsumExpression D after.stackingCoeffs
  let calculatedEvaluation ← D.eval proof.einsumEvaluations [after.batchingChallenge] expression
  ensure (after.einsumSubclaim.expectedEvaluation == calculatedEvaluation)
    "Einsum sumcheck evaluation mismatch"
  let half := proof.einsumEvaluations.length / 2
  let firstCoeffs ← unwrap after.stackingCoeffs[0]? "index out of bounds"
  let rhsChunks ← chunksOf (proof.einsumEvaluations.drop half) firstCoeffs.length
  let (inputClaims, weightClaims) ← (self.rhsEntries after.fixed.rhsFixes rhsChunks
    after.stackingCoeffs after.prepared.paddedInputShapes).foldlM (rhsClaim einsumPoint) ([], [])
  let constantsMap := (weightClaims ++ after.prepared.outputs.biasClaims).foldl
    (fun (constants : HashMap CommitmentId (Claim F)) (id, claim) => constants.insert id claim) ∅
  let lhsShape ← unwrap after.prepared.paddedInputShapes[0]? "index out of bounds"
  let lhsChunks ← chunksOf (proof.einsumEvaluations.take half) firstCoeffs.length
  let (lhsClaim, transcript) ← lhsClaim D proof.inputAggregationSumcheck after.fixed.lhsFixes
    einsumPoint lhsShape lhsChunks after.stackingCoeffs after.transcript
  .ok (⟨lhsClaim :: inputClaims, constantsMap⟩, transcript)

/-- `verify_internal`. -/
def verifyInternal (evals : List F → List F) (proof : EinSumProof D) (lastClaims : List (Claim F))
    (shapeStep : ShapeStep) (transcript : D.Transcript) :
    Outcome (EinSumVerifierInfo F × D.Transcript) := do
  let after ← self.runSumcheck D evals proof lastClaims shapeStep transcript
  self.finish D proof after

end Field

end EinSumContext

end DeepProve
