import DeepProve.AttentionMask.Mask
import DeepProve.EinSum.Verify
import DeepProve.SumcheckVerifier

/-!
# The verifier of the attention mask

`layers/transformer/attention_mask/verify.rs`. A tensor of more than two dimensions is a batch of
matrices, the heads. The sumcheck is over one matrix; the prover sends one evaluation for each head,
and before them one of the second polynomial of a local mask, about which there is a sumcheck of its
own.
-/

namespace DeepProve

structure AttentionMask where
  span : AttentionSpan
  negativeInfinity : Int

structure AttentionMaskProof (F P : Type) where
  sumcheckProof : P
  evaluations : List F
  /-- For the second polynomial of a local mask. -/
  localMaskProof : Option P

structure MaskVerifyingData (F : Type) where
  /-- One for each head. -/
  batchingChallenges : List F
  batchingPoint : List F
  eqPoint : List F

namespace MaskVerifyingData

variable {F : Type} [Field F]

/-- `new_from_claim_and_shape_data`; `evals` are the evaluations of the `eq` polynomial. -/
def newFromClaimAndShapeData (evals : List F → List F) (claim : Claim F)
    (inputShape unpaddedInputShape : Shape) : Outcome (MaskVerifyingData F) := do
  let rank := inputShape.rank
  let dimPoints ← inputShape.splitPoint claim.point
  let mid ← usizeSub rank 2
  let lastPoints ← sliceFrom dimPoints mid
  let leadPoints ← sliceTo dimPoints mid
  let leadDims ← sliceTo unpaddedInputShape mid
  let batchingChallenges := (leadPoints.zip leadDims).foldl (fun acc (pointSlice, dim) =>
    acc.flatMap fun c => ((evals pointSlice).take dim).map (c * ·)) [1]
  .ok {
    batchingChallenges := batchingChallenges
    batchingPoint := leadPoints.reverse.flatten
    eqPoint := lastPoints.reverse.flatten }

end MaskVerifyingData

namespace AttentionMask

variable (self : AttentionMask) {F : Type} [Field F] [DecidableEq F] {P T : Type}

def isLocalMask : Bool :=
  match self.span with
  | .localWindow _ => true
  | .full => false

section Verifier

variable (verifySumcheck : SumcheckVerifier F P T) (evals : List F → List F)

/-- `verify_additional_mask_poly_eval`. -/
def verifyAdditionalMaskPolyEval (rowPoint columnPoint : List F) (eval : F) (localMaskProof : P)
    (transcript : T) : Outcome T :=
  match self.span with
  | .full => .error (.err "Found sumcheck proof for full attention mask")
  | .localWindow window => do
    let numRowVars := rowPoint.length
    let seqLen := 2 ^ numRowVars
    ensure (decide (window < seqLen)) "Sliding window not smaller than sequence length"
    let numColVars := columnPoint.length
    let start ← usizeSub seqLen window
    let padColBits ← bitsOf start numColVars
    let paddedEval := 1 - evalZeroifierMle columnPoint padColBits
    let (subclaim, transcript) ←
      verifySumcheck (eval - paddedEval) localMaskProof ⟨2, numColVars⟩ transcript
    let upperEval := evalZeroifierMle rowPoint subclaim.point
    let shift ← usizeSub window 1
    let shiftEval ← evalShiftMatrix evals subclaim.point columnPoint shift
    ensure (upperEval * shiftEval == subclaim.expectedEvaluation) "Mask sumcheck verification failed"
    .ok transcript

/-- The sum over the heads in the identity that is checked. -/
def headsSum (maskEval negInf : F) (batchingChallenges inputEvals : List F) : F :=
  (batchingChallenges.zip inputEvals).foldl
    (fun acc (chal, eval) => acc + chal * (maskEval * eval + negInf * (1 - maskEval))) 0

/-- `verify_internal`. -/
def verifyInternal (proof : AttentionMaskProof F P) (lastClaim : Claim F)
    (data : MaskVerifyingData F) (unpaddedSeqLen : Nat) (transcript : T) :
    Outcome (List (Claim F) × T) := do
  let numVars := data.eqPoint.length
  let additionalMaskPoly := proof.localMaskProof.isSome
  ensure (!additionalMaskPoly || self.isLocalMask)
    "Found sumcheck proof for local mask with a full attention mask"
  let maxDegree := if additionalMaskPoly then 6 else 5
  let (subclaim, transcript) ←
    verifySumcheck lastClaim.eval proof.sumcheckProof ⟨maxDegree, numVars⟩ transcript
  let sumcheckPoint := subclaim.point
  let dimVars := numVars / 2
  let eqEval := identityEval sumcheckPoint data.eqPoint
  let (columnPoint, rowPoint) ← splitAtMid sumcheckPoint dimVars
  let maskEval := evalZeroifierMle columnPoint rowPoint
  let (maskEval, transcript) ← match proof.localMaskProof with
    | some localMaskProof => do
      let first ← unwrap proof.evaluations[0]? "index out of bounds"
      let transcript ← self.verifyAdditionalMaskPolyEval verifySumcheck evals rowPoint columnPoint
        first localMaskProof transcript
      .ok (maskEval * first, transcript)
    | none => .ok (maskEval, transcript)
  let inputEvals ← sliceFrom proof.evaluations additionalMaskPoly.toNat
  let (rowLtEval, columnLtEval) ← evaluateRowColumnLtPolys rowPoint columnPoint unpaddedSeqLen
  let ltEval := rowLtEval * columnLtEval
  let calcEval := eqEval * ltEval *
    headsSum maskEval (self.negativeInfinity : F) data.batchingChallenges inputEvals
  ensure (calcEval == subclaim.expectedEvaluation) "Casual Mask verification failed"
  let combinedEval := (data.batchingChallenges.zip inputEvals).foldl
    (fun acc (c, e) => acc + c * e) 0
  .ok ([⟨sumcheckPoint ++ data.batchingPoint, combinedEval⟩], transcript)

/-- `AttentionMaskCtx::verify`. -/
def verify (proof : AttentionMaskProof F P) (lastClaims : List (Claim F)) (shapeStep : ShapeStep)
    (transcript : T) : Outcome (List (Claim F) × T) := do
  let inputShapes := shapeStep.paddedInputShape
  ensure (inputShapes.length == 1) "CasualMask can only be applied to a single input"
  let inputShape ← unwrap inputShapes[0]? "index out of bounds"
  ensure (decide (inputShape.rank ≥ 2)) "CasualMask can only be applied to rank 2 or higher tensors"
  ensure (lastClaims.length == 1)
    s!"Expected one claim for AttentionMask verifying, got {lastClaims.length}"
  let lastClaim ← unwrap lastClaims[0]? "index out of bounds"
  let unpaddedInputShape ← unwrap shapeStep.unpaddedInputShape[0]? "index out of bounds"
  let data ← MaskVerifyingData.newFromClaimAndShapeData evals lastClaim inputShape unpaddedInputShape
  let unpaddedSeqLen ← unpaddedInputShape.lastDim
  self.verifyInternal verifySumcheck evals proof lastClaim data unpaddedSeqLen transcript

end Verifier

end AttentionMask

end DeepProve
