import DeepProve.EinSum.Verify
import DeepProve.Lookup.LookupVerifier
import DeepProve.SumcheckVerifier

/-!
# The verifier of a pooling layer

`layers/pooling.rs`. The output is the largest of the four entries of a kernel: each difference is
looked up in a range, and one of them is zero. The four differences and the output are claims about
commitments; the four entries are one claim about the input, at a point with two more coordinates.
-/

namespace DeepProve

/-- The shapes of a step, with that of its output. -/
structure OutputShapeStep extends ShapeStep where
  paddedOutputShape : List Shape

structure Maxpool2D where
  kernelSize : Nat
  stride : Nat

structure PoolingCtx where
  poolinfo : Maxpool2D

structure PoolingProof {F : Type} (D : DpCrypto F) (C : Type) where
  sumcheck : D.IOPProof
  lookup : LogUpBatchProof D
  zerocheckEvals : List F
  variableGap : Nat
  commitments : List (VerifierCommitment C)

/-- `maxpool2d_shape`: the sizes of the layer are not read. -/
def maxpool2dShape (inputShape : Shape) : Outcome Shape := do
  let stride := 2
  let padding := 0
  let kernel := 2
  let dilation := 1
  let d1 ← unwrap inputShape[0]? "index out of bounds"
  let height ← unwrap inputShape[1]? "index out of bounds"
  let rest ← usizeSub (height + 2 * padding) (dilation * (kernel - 1))
  let rest ← usizeSub rest 1
  let d2 := rest / stride + 1
  .ok [d1, d2, d2]

/-- `Pooling::num_vars_for_outputs`. -/
def numVarsForOutputs (outputShapes : List Shape) : Outcome Nat := do
  let numVars ← outputShapes.foldlM (fun (expected : Option Nat) shape => do
      let numVars := (shape.map ceilLog2).sum
      ensure (expected.all (· == numVars))
        "All output shapes for pooling must have the same number of variables"
      .ok (some numVars))
    none
  unwrap numVars "No output shape found for pooling layer?"

namespace PoolingCtx

/-- `output_shapes`. -/
def outputShapes (_self : PoolingCtx) (inputShapes : List Shape) : Outcome (List Shape) :=
  inputShapes.mapM maxpool2dShape

variable (self : PoolingCtx) {F : Type} [Field F] [DecidableEq F] {D : DpCrypto F} {C : Type}
  (fl : Float32Ops)

/-- The verification of the lookup argument, at the start of `verify_pooling`. -/
def verifyLookups (verifier : Verifier D C) (proof : PoolingProof D C) (shapeStep : OutputShapeStep) :
    Outcome (LogUpBatchVerifierClaim F × D.Transcript × NumeratorsAndDenominators F) := do
  let outputShape ← unwrap shapeStep.paddedOutputShape[0]? "index out of bounds"
  let fullVars := ceilLog2 outputShape.numel
  let table := Table.newShiftCheck
  let (constantChallenge, columnSepChallenge) ←
    okOr (verifier.challengeStorage.getChallengesByName (table.name fl))
      s!"No challenges found for lookup table {table.name fl} during MaxPool2D verifying"
  let numVars ← usizeSub fullVars 1
  let logupInstance : LogUpVerifierInstance F :=
    ⟨constantChallenge, columnSepChallenge, table.numColumns, .lookup, numVars⟩
  let logupInstances := List.replicate 4 logupInstance
  let (numerators, denominators) ← proof.lookup.fractionalOutputs
  let stored ← LookupInputConfig.chargeTable fl verifier.numeratorsAndDenominators table
    "Denominator in pooling lookup proof fractional output cannot be zero" numerators denominators
  let (batchClaim, transcript) ←
    newVerifyLogupProofMultipleSizes D proof.lookup logupInstances verifier.transcript
  .ok (batchClaim, transcript, stored)

omit [DecidableEq F] in
/-- The claimed sum: the claims of the lookups and the last claim, in powers of the challenge. -/
def initialValue (polyEvals : List F) (batchingChallenge lastClaimEval : F) : F :=
  let (initialValueNoLastClaim, finalBatchingChallenge) := polyEvals.foldl
    (fun (acc, comb) e => (acc + e * comb, comb * batchingChallenge)) (0, batchingChallenge)
  initialValueNoLastClaim + finalBatchingChallenge * lastClaimEval

/-- `expected_eval`, for the evaluations of the kernel. -/
def zerocheckEval (betaEval lastClaimBetaEval batchingChallenge : F) (kernelEvals : List F)
    (outputEval : F) : F :=
  let (prodClaim, sumClaim, batchChal) := kernelEvals.foldl
    (fun (prodAcc, sumAcc, challengeComb) eval =>
      (prodAcc * eval, sumAcc + challengeComb * eval, challengeComb * batchingChallenge))
    (betaEval, 0, batchingChallenge)
  prodClaim + sumClaim * betaEval + outputEval * lastClaimBetaEval * batchChal

/-- `zerocheck_input_eval`. -/
def zerocheckInputEval (kernelEvals : List F) (outputEval r1 r2 : F) : F :=
  let oneMinusR1 := 1 - r1
  let oneMinusR2 := 1 - r2
  let evalMultiplicands := [oneMinusR1 * oneMinusR2, oneMinusR1 * r2, r1 * oneMinusR2, r1 * r2]
  (kernelEvals.zip evalMultiplicands).foldl (fun acc (ze, me) => acc + (outputEval - ze) * me) 0

section Verify

variable (verifySumcheck : SumcheckVerifier F D.IOPProof D.Transcript)
  (appendAndSample : D.Transcript → String → F × D.Transcript) (verifier : Verifier D C)
  (lastClaim : Claim F) (proof : PoolingProof D C) (nodeId : NodeId)

/-- The sumcheck and what follows it, in `verify_pooling`. -/
def verifyZerocheck (numVars : Nat) (batchClaim : LogUpBatchVerifierClaim F)
    (transcript : D.Transcript) (stored : NumeratorsAndDenominators F) :
    Outcome (Claim F × Verifier D C) := do
  let polyAux := fromMleListDimensions [List.replicate 5 numVars]
  let (batchingChallenge, transcript) := appendAndSample transcript "batch_pooling"
  let (subclaim, transcript) ← verifySumcheck
    (initialValue batchClaim.polyEvals batchingChallenge lastClaim.eval) proof.sumcheck polyAux transcript
  let zerocheckPoint := subclaim.point
  let betaEval := identityEval batchClaim.point zerocheckPoint
  let lastClaimBetaEval := identityEval lastClaim.point zerocheckPoint
  let kernelSize ← usizeSub proof.zerocheckEvals.length 1
  let kernelEvals := proof.zerocheckEvals.take kernelSize
  let outputEval ← unwrap proof.zerocheckEvals[kernelSize]? "index out of bounds"
  ensure (zerocheckEval betaEval lastClaimBetaEval batchingChallenge kernelEvals outputEval ==
    subclaim.expectedEvaluation) "Expected pooling zerocheck claim did not equal the verifier claim"
  let claims := proof.zerocheckEvals.map fun eval => (⟨zerocheckPoint, eval⟩ : Claim F)
  let commitVerifier := verifier.commitVerifier.addWitnessClaim nodeId
    ((proof.commitments.zip claims).map fun (comm, claim) => ⟨comm, [claim]⟩)
  -- `[append_and_sample(..); 2]`: one challenge, which is copied
  let (r, transcript) := appendAndSample transcript "input_batching"
  let (r1, r2) := (r, r)
  let low ← sliceTo zerocheckPoint proof.variableGap
  let high ← sliceFrom zerocheckPoint proof.variableGap
  .ok (⟨[r1] ++ low ++ [r2] ++ high, zerocheckInputEval kernelEvals outputEval r1 r2⟩,
    { verifier with commitVerifier, transcript, numeratorsAndDenominators := stored })

/-- `verify_pooling`. The verifier of its own sumcheck and the challenges after the lookup argument
    are any functions. -/
def verifyPooling (shapeStep : OutputShapeStep) : Outcome (Claim F × Verifier D C) := do
  let (batchClaim, transcript, stored) ← verifyLookups fl verifier proof shapeStep
  let outputShapes ← self.outputShapes shapeStep.paddedInputShape
  let numVars ← numVarsForOutputs outputShapes
  verifyZerocheck verifySumcheck appendAndSample verifier lastClaim proof nodeId numVars batchClaim
    transcript stored

end Verify

end PoolingCtx

end DeepProve
