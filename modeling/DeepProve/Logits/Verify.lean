import DeepProve.Convolution.Verify
import DeepProve.Llm.Verify
import DeepProve.Lookup.LookupVerifier
import DeepProve.Tensor

/-!
# The verifier of the logits

`LogitsCtx::verify_chunk` of `layers/transformer/logits.rs`. The output is the token with the largest
entry in each row of the input. The differences between the maximum and the entries are looked up in a
range, in chunks; one sumcheck shows that the chunks belong to the input and to the maxima, and that
the maxima stand at the tokens. The verifier solves its identity for the evaluation of the one-hot
matrix of the tokens, and computes that from the tokens.
-/

namespace DeepProve

/-- `IO`, of which the outputs are used. -/
structure OutputIo (F : Type) where
  output : List (Tensor F)
  splittedOutputs : Option (HashMap Nat (List (Tensor F)))

structure LogitsCtx where
  rangeCheckChunks : Nat

structure LogitsProof {F : Type} (D : DpCrypto F) (C : Type) where
  logupProof : LogUpBatchProof D
  /-- The first is that of the maxima. -/
  commitments : List (VerifierCommitment C)
  hadamardProof : D.IOPProof
  /-- The evaluations of the input and of the maxima. -/
  sumcheckEvals : List F

namespace Logits

variable {F : Type}

/-- `split_claim_point`: the coordinates of the columns and of the rows. -/
def splitClaimPoint (point : List F) (numRowVars : Nat) : Outcome (List F × List F) := do
  let splitItem ← usizeSub point.length numRowVars
  .ok (point.take splitItem, point.drop splitItem)

/-- `squeeze_challenge`. -/
def squeezeChallenge (D : DpCrypto F) (transcript : D.Transcript) (inputClaim : Claim F) :
    F × D.Transcript :=
  let transcript := D.appendScalars transcript inputClaim.point
  let transcript := D.appendScalars transcript [inputClaim.eval]
  D.challengeScalar transcript

/-- `recombine_range_check_claims`. -/
def recombineRangeCheckClaims [Field F] [DecidableEq F] (logupClaims : List (Claim F)) :
    Outcome (Claim F) := do
  ensure (!logupClaims.isEmpty) "Condition failed: `!logup_claims.is_empty()`"
  let first ← unwrap logupClaims[0]? "index out of bounds"
  let multiplier : F := 2 ^ shiftCheckTableBitSize
  let (eval, _) ← logupClaims.foldlM (fun (state : F × F) claim => do
      let (eval, factor) := state
      ensure (claim.point == first.point)
        "All logup claims must be on the same point to recombine"
      .ok (eval + factor * claim.eval, factor * multiplier))
    (0, 1)
  .ok ⟨first.point, eval⟩

end Logits

namespace LogitsCtx

section Output

variable {p : Nat} [Fact p.Prime] (evals : List (ZMod p) → List (ZMod p))

/-- `Tensor::shape`. -/
def shapeOf (tensor : Tensor (ZMod p)) : Outcome Shape :=
  if tensor.shape.isEmpty then .error (.panic "Empty tensor") else .ok tensor.shape

/-- The output of a chunk. -/
def chunkOutput (io : OutputIo (ZMod p)) (chunkNumber : Nat) : Outcome (Tensor (ZMod p)) :=
  match io.splittedOutputs.bind fun splittedOutputs => splittedOutputs[0]? with
  | some outputs => unwrap outputs[chunkNumber]? "index out of bounds"
  | none => unwrap io.output[0]? "index out of bounds"

/-- The number of variables of the rows of an output. -/
def outputRowVars (output : Tensor (ZMod p)) : Outcome Nat := do
  let shape ← shapeOf output
  ensure (shape.all Shape.isPowerOfTwo) "Output shape in Logits layer is not a power of 2"
  let rows ← unwrap shape[0]? "index out of bounds"
  .ok (Nat.log2 rows)

/-- What one token adds. -/
def addToken (columnBeta : List (ZMod p)) (unpaddedDimSize : Nat) (sum : ZMod p)
    (entry : ZMod p × ZMod p) : Outcome (ZMod p) := do
  let (token, b1) := entry
  let tokenValue ← tokenOf token
  ensure (decide (tokenValue < unpaddedDimSize))
    s!"Token value {tokenValue} exceeds unpadded dimension size {unpaddedDimSize}"
  let selector ← unwrap columnBeta[tokenValue]? "index out of bounds"
  .ok (sum + b1 * selector)

/-- `verify_output_evaluation`. -/
def verifyOutputEvaluation (io : OutputIo (ZMod p)) (outputClaim : Claim (ZMod p))
    (unpaddedDimSize chunkNumber : Nat) : Outcome Unit := do
  ensure (io.output.length == 1)
    s!"Expected 1 output tensor when verifying logits layer output claim, found {io.output.length}"
  let output ← chunkOutput io chunkNumber
  let numRowVars ← outputRowVars output
  let (columnPoint, rowPoint) ← Logits.splitClaimPoint outputClaim.point numRowVars
  let beta := evals rowPoint
  let columnBeta := evals columnPoint
  let computedEval ← (output.data.zip beta).foldlM (addToken columnBeta unpaddedDimSize) 0
  ensure (computedEval == outputClaim.eval) "Output claim evaluation check failed for Logits layer"

/-- `expected_output_eval` where the divisor is zero. -/
def zeroDivisorEval (io : OutputIo (ZMod p)) (sumcheckPoint : List (ZMod p)) (rest : ZMod p) :
    Outcome (ZMod p) := do
  let output ← unwrap io.output[0]? "index out of bounds"
  let numRowVars ← outputRowVars output
  let (columnPoint, rowPoint) ← Logits.splitClaimPoint sumcheckPoint numRowVars
  let rowPart := (evals rowPoint).sum
  let columnPart := (columnPoint.map (1 - ·)).prod
  if rest = 0 then .ok (rowPart * columnPart)
  else .error (.panic "assertion failed")

end Output

section Verify

variable {p : Nat} [Fact p.Prime] {D : DpCrypto (ZMod p)} {C : Type} (self : LogitsCtx)
  (fl : Float32Ops)

/-- The verification of the lookup argument. -/
def verifyLookups (verifier : Verifier D C) (proof : LogitsProof D C) (inputShape : Shape) :
    Outcome (LogUpBatchVerifierClaim (ZMod p) × D.Transcript × NumeratorsAndDenominators (ZMod p)) := do
  let fullVars := ceilLog2 inputShape.numel
  let table := Table.newShiftCheck
  let (constantChallenge, columnSeparationChallenge) ←
    okOr (verifier.challengeStorage.getChallengesByName (table.name fl))
      s!"Cannot verify Argmax, cannot get {table.name fl} table challenges"
  let numVars ← usizeSub fullVars 1
  let logupInstance : LogUpVerifierInstance (ZMod p) :=
    ⟨constantChallenge, columnSeparationChallenge, table.numColumns, .lookup, numVars⟩
  let instances := List.replicate self.rangeCheckChunks logupInstance
  let (numerators, denominators) ← proof.logupProof.fractionalOutputs
  let stored ← LookupInputConfig.chargeTable fl verifier.numeratorsAndDenominators table
    "Denominator in fractional output for Logits layer lookup cannot be zero" numerators denominators
  let (batchClaim, transcript) ←
    newVerifyLogupProofMultipleSizes D proof.logupProof instances verifier.transcript
  .ok (batchClaim, transcript, stored)

/-- What is known before the sumcheck. -/
structure BeforeSumcheck (D : DpCrypto (ZMod p)) where
  polyClaims : List (Claim (ZMod p))
  inputClaim : Claim (ZMod p)
  rowPoint : List (ZMod p)
  numRowVars : Nat
  numColVars : Nat
  challenge : ZMod p
  inputNumVars : Nat
  transcript : D.Transcript
  stored : NumeratorsAndDenominators (ZMod p)

/-- `verify_chunk`, up to the sumcheck. -/
def beforeSumcheck (verifier : Verifier D C) (proof : LogitsProof D C) (shapeStep : ShapeStep) :
    Outcome (BeforeSumcheck D) := do
  ensure (shapeStep.paddedInputShape.length == 1)
    s!"Expected 1 padded input shape when verifying Logits layer, found {shapeStep.paddedInputShape.length}"
  let inputShape ← unwrap shapeStep.paddedInputShape[0]? "index out of bounds"
  let (batchClaim, transcript, stored) ← self.verifyLookups fl verifier proof inputShape
  let polyClaims := batchClaim.polyEvals.map fun eval => (⟨batchClaim.point, eval⟩ : Claim (ZMod p))
  ensure (polyClaims.length == self.rangeCheckChunks)
    s!"Expected {self.rangeCheckChunks} claims for logup when verifying Logis layer, found {polyClaims.length}"
  let last ← usizeSub inputShape.rank 1
  let numRowVars ← ilog2 (inputShape.take last).prod
  let lastDim ← unwrap inputShape[last]? "index out of bounds"
  let numColVars ← ilog2 lastDim
  let (_, rowPoint) ← Logits.splitClaimPoint batchClaim.point numRowVars
  let inputClaim ← Logits.recombineRangeCheckClaims polyClaims
  let _ ← inverseOrPanic (2 : ZMod p) "Cannot fail when inverting 2"
  let (challenge, transcript) := Logits.squeezeChallenge D transcript inputClaim
  let vars ← inputShape.numVars
  .ok ⟨polyClaims, inputClaim, rowPoint, numRowVars, numColVars, challenge, vars.sum, transcript, stored⟩

namespace BeforeSumcheck

variable (run : BeforeSumcheck D)

/-- `sum_eq_point`. -/
def sumEqPoint : List (ZMod p) := List.replicate run.numColVars 2⁻¹ ++ run.rowPoint

def numCols : ZMod p := 2 ^ run.numColVars

/-- `beta_eval`. -/
def betaEval (sumcheckPoint : List (ZMod p)) : ZMod p := identityEval run.sumEqPoint sumcheckPoint

/-- `input_eq_eval`. -/
def inputEqEval (sumcheckPoint : List (ZMod p)) : ZMod p :=
  identityEval run.inputClaim.point sumcheckPoint

/-- `challenge * lt_eval * input_eq_eval * (max_eval - input_eval)`. -/
def inputTerm (sumcheckPoint : List (ZMod p)) (ltEval maxEval inputEval : ZMod p) : ZMod p :=
  run.challenge * ltEval * run.inputEqEval sumcheckPoint * (maxEval - inputEval)

end BeforeSumcheck

variable (evals : List (ZMod p) → List (ZMod p)) (io : OutputIo (ZMod p))

/-- The unpadded size of the last dimension, and the bits of its last index. -/
def lastColumnBits (shapeStep : ShapeStep) (numColVars : Nat) : Outcome (Nat × List (ZMod p)) := do
  let unpaddedInputShape ← unwrap shapeStep.unpaddedInputShape[0]? "index out of bounds"
  let last ← usizeSub unpaddedInputShape.rank 1
  let unpaddedDimSize ← unwrap unpaddedInputShape[last]? "index out of bounds"
  let lastColumn ← usizeSub unpaddedDimSize 1
  let dimSizeBits ← bitsOf lastColumn numColVars
  .ok (unpaddedDimSize, dimSizeBits)

/-- The claims about the commitments. -/
def witnessClaims (proof : LogitsProof D C) (polyClaims : List (Claim (ZMod p)))
    (maxClaim : Claim (ZMod p)) : Outcome (List (VerifierClaim (ZMod p) C)) :=
  if self.rangeCheckChunks = 1 then do
    ensure (proof.commitments.length == 1)
      s!"Expected 1 commitment in Logits proof, found {proof.commitments.length}"
    let first ← unwrap proof.commitments[0]? "index out of bounds"
    .ok [⟨first, [maxClaim]⟩]
  else do
    ensure (proof.commitments.length == self.rangeCheckChunks + 1)
      s!"Expected {self.rangeCheckChunks + 1} commitments in Logits proof, found {proof.commitments.length}"
    let first ← unwrap proof.commitments[0]? "index out of bounds"
    let rest ← sliceFrom proof.commitments 1
    .ok (⟨first, [maxClaim]⟩ :: (rest.zip polyClaims).map fun (commitment, claim) => ⟨commitment, [claim]⟩)

/-- `verify_chunk`, after the sumcheck. -/
def afterSumcheck (run : BeforeSumcheck D) (verifier : Verifier D C) (proof : LogitsProof D C)
    (shapeStep : ShapeStep) (nodeId : NodeId) (chunkNumber : Nat) (subclaim : SumcheckSubclaim (ZMod p))
    (transcript : D.Transcript) : Outcome (List (Claim (ZMod p)) × Verifier D C) := do
  let sumcheckPoint := subclaim.point
  let betaEval := run.betaEval sumcheckPoint
  let (unpaddedDimSize, dimSizeBits) ← lastColumnBits shapeStep run.numColVars
  let columnPoint ← sliceTo sumcheckPoint run.numColVars
  let ltEval := evalZeroifierMle columnPoint dimSizeBits
  let inputEval ← unwrap proof.sumcheckEvals[0]? "index out of bounds"
  let maxEval ← unwrap proof.sumcheckEvals[1]? "index out of bounds"
  let rest := subclaim.expectedEvaluation - run.inputTerm sumcheckPoint ltEval maxEval inputEval -
    betaEval * maxEval
  let divisor := -run.numCols * betaEval * inputEval
  let expectedOutputEval ←
    if divisor = 0 then zeroDivisorEval evals io sumcheckPoint rest else .ok (rest * divisor⁻¹)
  verifyOutputEvaluation evals io ⟨sumcheckPoint, expectedOutputEval⟩ unpaddedDimSize chunkNumber
  let maxPoint ← sliceFrom sumcheckPoint run.numColVars
  let claims ← self.witnessClaims proof run.polyClaims ⟨maxPoint, maxEval⟩
  .ok ([⟨sumcheckPoint, inputEval⟩],
    { verifier with
      commitVerifier := verifier.commitVerifier.addWitnessClaim nodeId claims
      transcript
      numeratorsAndDenominators := run.stored })

variable (verifySumcheck : SumcheckVerifier (ZMod p) D.IOPProof D.Transcript)

/-- `verify_chunk`. The verifier of its own sumcheck is any function. -/
def verifyChunk (verifier : Verifier D C) (proof : LogitsProof D C) (shapeStep : ShapeStep)
    (nodeId : NodeId) (chunkNumber : Nat) : Outcome (List (Claim (ZMod p)) × Verifier D C) := do
  let run ← self.beforeSumcheck fl verifier proof shapeStep
  let (subclaim, transcript) ← verifySumcheck (run.challenge * run.inputClaim.eval) proof.hadamardProof
    (fromMleListDimensions [[run.inputNumVars, run.inputNumVars, run.inputNumVars]]) run.transcript
  self.afterSumcheck evals io run verifier proof shapeStep nodeId chunkNumber subclaim transcript

end Verify

end LogitsCtx

end DeepProve
