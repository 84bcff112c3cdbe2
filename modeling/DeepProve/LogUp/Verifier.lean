import DeepProve.LogUp.Structs

/-!
# The LogUp verifier

`lookup/logup_gkr/verifier.rs`: the layers of all circuits are verified together,
the largest circuits first; smaller ones are rolled in when their number of layers
is reached, so that all of them end in the last round. One round checks one
sumcheck and hands its point to the next.
-/

namespace DeepProve

/-- What one round needs to know: for each circuit size that runs in it the point
    of the `eq` polynomial and the sumcheck expression, and the expression of the
    claim. -/
structure PreppedLayerVerifyingInfo {F : Type} (D : DpCrypto F) where
  eqPoints : List (List F)
  sumcheckExpressions : List D.Expression
  claimExpression : D.Expression

/-- What one round hands to the next. -/
structure LogUpRoundState {F : Type} (D : DpCrypto F) where
  transcript : D.Transcript
  batchingChallenge : F
  alpha : F
  lambda : F
  sumcheckPoint : List F

variable {F : Type} [CommRing F] (D : DpCrypto F)

namespace PreppedLayerVerifyingInfo

variable {D}

/-- `compute_current_claim`. -/
def computeCurrentClaim (self : PreppedLayerVerifyingInfo D) (witEvals : List F)
    (alpha lambda batchingChallenge : F) : Outcome F :=
  D.eval witEvals [alpha, lambda, batchingChallenge] self.claimExpression

/-- `full_sumcheck_expression`. -/
def fullSumcheckExpression (self : PreppedLayerVerifyingInfo D) (witnessOffset : UInt16) :
    D.Expression :=
  self.sumcheckExpressions.zipIdx.foldl
    (fun acc (expr, i) => D.add acc (D.mul expr (D.witIn (witnessOffset + UInt16.ofNat i))))
    (D.constant 0)

/-- `eq_evaluations`: every `eq` polynomial at the last coordinates of the point. -/
def eqEvaluations (self : PreppedLayerVerifyingInfo D) (currentPoint : List F) :
    Outcome (List F) :=
  self.eqPoints.mapM fun eqPoint => do
    let start ← usizeSub currentPoint.length eqPoint.length
    .ok (identityEval (currentPoint.drop start) eqPoint)

end PreppedLayerVerifyingInfo

omit [CommRing F] in
/-- `unique_layer_size`, in ascending order. -/
def uniqueLayerSize (instances : List (LogUpVerifierInstance F)) : List Nat :=
  (instances.foldl (fun (sizes : BTreeMap Nat Unit) inst => sizes.insert inst.numVars ()) ∅).keys

omit [CommRing F] in
/-- `output_evals.get(&size)`: the outputs of the circuits of a size, if there are any. -/
def outputEvals (instances : List (LogUpVerifierInstance F)) (circuitOutputs : List (List F))
    (size : Nat) : Option (List (List F)) :=
  match ((instances.map LogUpVerifierInstance.numVars).zip circuitOutputs).filterMap
      fun (numVars, evals) => if numVars = size then some evals else none with
  | [] => none
  | evals => some evals

/-- `from_mle_list_dimensions`. -/
def fromMleListDimensions (productList : List (List Nat)) : VPAuxInfo where
  maxDegree := (productList.map List.length).foldl max 0
  maxNumVariables := (productList.map fun product => product.foldl max 0).foldl max 0

/-- `wit_evals`: what the round before has left, with the outputs of the circuits
    that are rolled in. -/
def roundWitEvals (proof : LogUpBatchProof D) (instances : List (LogUpVerifierInstance F))
    (i remainingLayers : Nat) : Outcome (List F) :=
  let newEvals := outputEvals instances proof.circuitOutputs remainingLayers
  match i with
  | i + 1 => do
    let previous ← unwrap proof.roundEvaluations[i]? "index out of bounds"
    match newEvals with
    | some newEvals => .ok (previous ++ newEvals.flatten)
    | none => .ok previous
  | 0 => do
    let newEvals ← okOr newEvals
      s!"No previous evals and no evals for this number of variables: {remainingLayers}"
    .ok newEvals.flatten

/-- What the closure over the sizes accumulates. -/
structure LayerAcc where
  info : PreppedLayerVerifyingInfo D
  layerCount : Nat
  witnessOffset : UInt16

/-- One instance of the size at hand. -/
def prepareInstance (claimExprMultiplier : D.Expression) (isFinalRound : Bool)
    (acc : LayerAcc D × D.Expression) (inst : LogUpVerifierInstance F) :
    LayerAcc D × D.Expression :=
  let (acc, sumcheckExpr) := acc
  let ((sumcheckExpression, claimExpression), layerCount, witnessOffset) :=
    inst.instanceExpressions D acc.layerCount acc.witnessOffset isFinalRound
  (⟨{ acc.info with
        claimExpression := D.add acc.info.claimExpression
          (D.mul claimExprMultiplier claimExpression) }, layerCount, witnessOffset⟩,
    D.add sumcheckExpr sumcheckExpression)

/-- One size that runs in the round. -/
def prepareSize (instances : List (LogUpVerifierInstance F)) (totalLayers remainingLayers : Nat)
    (isFinalRound : Bool) (sumcheckPoint : List F) (acc : LayerAcc D) (size : Nat) :
    Outcome (LayerAcc D) :=
  if remainingLayers ≤ size then do
    let shift ← usizeSub totalLayers size
    let claimExprMultiplier := D.constant ((2 ^ (shift % 64) : Nat) : F)
    let currentVarCount := size + 1 - remainingLayers
    let (acc, sumcheckExpr) := (instances.filter fun inst => inst.numVars = size).foldl
      (prepareInstance D claimExprMultiplier isFinalRound) (acc, D.constant 0)
    let start ← usizeSub sumcheckPoint.length currentVarCount
    .ok { acc with
          info := { acc.info with
            eqPoints := acc.info.eqPoints ++ [sumcheckPoint.drop start]
            sumcheckExpressions := acc.info.sumcheckExpressions ++ [sumcheckExpr] } }
  else
    .ok acc

/-- `verifying_info`, with the witness offset after the last instance. -/
def verifyingInfo (instances : List (LogUpVerifierInstance F)) (totalLayers remainingLayers : Nat)
    (isFinalRound : Bool) (sumcheckPoint : List F) : Outcome (LayerAcc D) :=
  (uniqueLayerSize instances).reverse.foldlM
    (prepareSize D instances totalLayers remainingLayers isFinalRound sumcheckPoint)
    ⟨⟨[], [], D.constant 0⟩, 0, 0⟩

/-- The sumcheck of one round: what the round has prepared, and what the sumcheck
    leaves to be checked. -/
def roundSumcheck (proof : LogUpBatchProof D) (instances : List (LogUpVerifierInstance F))
    (state : LogUpRoundState D) (sumcheckProof : D.IOPProof) (i : Nat) :
    Outcome (LayerAcc D × SumcheckSubclaim F × D.Transcript) := do
  let totalLayers := proof.sumcheckProofs.length
  let remainingLayers := totalLayers - i
  let witEvals ← roundWitEvals D proof instances i remainingLayers
  let acc ← verifyingInfo D instances totalLayers remainingLayers (i + 1 == totalLayers)
    state.sumcheckPoint
  let currentClaim ← acc.info.computeCurrentClaim witEvals state.alpha state.lambda
    state.batchingChallenge
  let transcript := D.appendScalars state.transcript [currentClaim]
  let auxInfo := fromMleListDimensions [List.replicate 3 (i + 1)]
  let (subclaim, transcript) ← D.verifySumcheck currentClaim sumcheckProof auxInfo transcript
  .ok (acc, subclaim, transcript)

variable [DecidableEq F]

/-- One round of the loop. -/
def verifyRound (proof : LogUpBatchProof D) (instances : List (LogUpVerifierInstance F))
    (state : LogUpRoundState D) (entry : (D.IOPProof × List F) × Nat) :
    Outcome (LogUpRoundState D) := do
  let ((sumcheckProof, roundEvaluations), i) := entry
  let totalLayers := proof.sumcheckProofs.length
  let (acc, subclaim, transcript) ← roundSumcheck D proof instances state sumcheckProof i
  let (batchingChallenge, transcript) := D.appendAndSample transcript "logup_batching"
  let eqEvaluations ← acc.info.eqEvaluations subclaim.point
  let calcSumcheckEval ← D.eval (roundEvaluations ++ eqEvaluations) [state.alpha, state.lambda]
    (acc.info.fullSumcheckExpression acc.witnessOffset)
  let (alpha, lambda, transcript) :=
    if i + 1 != totalLayers then
      let (alpha, transcript) := D.appendAndSample transcript "logup_alpha"
      let (lambda, transcript) := D.appendAndSample transcript "logup_lambda"
      (alpha, lambda, transcript)
    else
      (state.alpha, state.lambda, transcript)
  ensure (calcSumcheckEval == subclaim.expectedEvaluation)
    s!"LogUp Verifier error: Calculated sumcheck claim does not equal this rounds sumcheck output claim at round: {i}"
  .ok ⟨transcript, batchingChallenge, alpha, lambda, subclaim.point ++ [batchingChallenge]⟩

omit [DecidableEq F] in
/-- What is squeezed before the first round. -/
def initialRoundState (proof : LogUpBatchProof D) (instances : List (LogUpVerifierInstance F))
    (transcript : D.Transcript) : LogUpRoundState D :=
  let transcript := D.appendScalars transcript [(instances.length : F)]
  let transcript := proof.appendToTranscript transcript
  let (batchingChallenge, transcript) := D.appendAndSample transcript "initial_batching"
  let (alpha, transcript) := D.appendAndSample transcript "initial_alpha"
  let (lambda, transcript) := D.appendAndSample transcript "initial_lambda"
  ⟨transcript, batchingChallenge, alpha, lambda, [batchingChallenge]⟩

omit [DecidableEq F] in
/-- The claims of one instance, from its block of the final evaluations. -/
def outputClaimsOf (finalRoundEvaluations : List F) (batchingChallenge : F)
    (sumcheckPoint : List F) (acc : List (Claim F) × Nat) (inst : LogUpVerifierInstance F) :
    Outcome (List (Claim F) × Nat) := do
  let (claims, skip) := acc
  let stop := skip + inst.numFinalRoundEvals
  if stop ≤ finalRoundEvaluations.length then
    let evalsSlice := (finalRoundEvaluations.drop skip).take inst.numFinalRoundEvals
    let newClaims ← inst.finalClaim evalsSlice batchingChallenge sumcheckPoint
    .ok (claims ++ newClaims, stop)
  else
    .error (.panic "range end index out of range")

/-- `new_verify_logup_proof_multiple_sizes`. -/
def newVerifyLogupProofMultipleSizes (proof : LogUpBatchProof D)
    (instances : List (LogUpVerifierInstance F)) (transcript : D.Transcript) :
    Outcome (LogUpBatchVerifierClaim F × D.Transcript) := do
  let (numerators, denominators) ← proof.fractionalOutputs
  let state ← proof.proofsAndEvals.zipIdx.foldlM (verifyRound D proof instances)
    (initialRoundState D proof instances transcript)
  let finalRoundEvaluations ← okOr proof.roundEvaluations.getLast?
    "LogUp verifier: No final round evaluations found"
  let (outputClaims, _) ← instances.foldlM
    (outputClaimsOf finalRoundEvaluations state.batchingChallenge state.sumcheckPoint) ([], 0)
  .ok (⟨0, outputClaims, state.sumcheckPoint, proof.outputClaims.map Claim.eval, numerators,
    denominators⟩, state.transcript)

end DeepProve
