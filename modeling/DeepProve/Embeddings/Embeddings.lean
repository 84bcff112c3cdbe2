import DeepProve.EinSum.Verify
import DeepProve.Llm.Verify
import DeepProve.SumcheckProver

/-!
# Embeddings

`layers/transformer/embeddings.rs`: every token is replaced by a row of the embedding matrix. It is
proven as the product of the one-hot matrix of the tokens with the embedding matrix. The prover fixes
the variables of the rows of the one-hot matrix, of which only one entry in each row is not zero. The
verifier evaluates the one-hot matrix itself, on the tokens of the input.
-/

namespace DeepProve

/-- What the code uses of the crate for polynomials, which are given by their evaluations. -/
structure MleLibrary (F : Type) where
  /-- `poly::eq::evals`. -/
  evals : List F → List F
  /-- `fix_low_variables_in_place_parallel`. -/
  fixLowVariables : List F → List F → List F

structure EmbeddingsProof (F P : Type) where
  sumcheck : P
  individualClaims : List F

structure Embeddings where
  mat : Tensor Int
  embSize : Nat
  vocabSize : Nat
  storageKey : CommitmentId

structure EmbeddingsCtx where
  vocabSize : Nat
  embSize : Nat
  embeddingKey : CommitmentId

namespace Embeddings

section Points

variable {F : Type}

/-- `split_output_point`: the points of the rows and of the columns. -/
def splitOutputPoint (lastClaim : Claim F) (embSize : Nat) : Outcome (List F × List F) := do
  let numVars := Nat.log2 (nextPowerOfTwo embSize)
  let columnPoint ← sliceTo lastClaim.point numVars
  let rowPoint ← sliceFrom lastClaim.point numVars
  .ok (rowPoint, columnPoint)

/-- `build_points_for_claims`. -/
def buildPointsForClaims (lastClaim : Claim F) (embSize : Nat) (sumcheckPoint : List F) :
    Outcome (List F × List F) := do
  let (rowPoint, columnPoint) ← splitOutputPoint lastClaim embSize
  .ok (sumcheckPoint ++ rowPoint, columnPoint ++ sumcheckPoint)

end Points

variable (self : Embeddings)

/-- `select` of the rows of a matrix. -/
def selectRows (tensor : Tensor Int) (indices : List Int) : Outcome (Tensor Int) :=
  match tensor.shape with
  | [rows, cols] => do
    let selected ← indices.mapM fun (index : Int) =>
      if 0 ≤ index ∧ index < rows then .ok ((tensor.data.drop (index.toNat * cols)).take cols)
      else .error (.panic "index out of bounds")
    .ok ⟨selected.flatten, [indices.length, cols], [indices.length, cols]⟩
  | _ => .error (.panic "index out of bounds")

/-- `evaluate`. -/
def evaluate (inputs : List (Tensor Int)) : Outcome (Tensor Int) := do
  ensure (inputs.all fun x => x.shape.rank == 1) "embeddings only support 1d tensors"
  ensure (inputs.length == 1) "embeddings only support 1 input tensor"
  let input ← unwrap inputs[0]? "index out of bounds"
  selectRows self.mat input.data

section Prove

variable {F : Type} [Field F] (L : MleLibrary F)

/-- One step of the loop that fills `reduced_one_hot`. -/
def addToken (betaVec : List F) (reducedOneHot : List F) (entry : Int × Nat) : Outcome (List F) := do
  let (x, i) := entry
  let beta ← unwrap betaVec[i]? "index out of bounds"
  let value ← unwrap reducedOneHot[toUsize x]? "index out of bounds"
  .ok (reducedOneHot.set (toUsize x) (value + beta))

/-- `reduced_one_hot`, in `prove`. -/
def reducedOneHot (vocabSize : Nat) (input : Tensor Int) (rowPoint : List F) : Outcome (List F) :=
  (input.data.take input.unpaddedShape.numel).zipIdx.foldlM (addToken (L.evals rowPoint))
    (List.replicate vocabSize 0)

/-- The factors of the sumcheck, in `prove`: the one-hot matrix with its rows fixed, and the embedding
    matrix with its columns fixed. -/
def sumcheckFactors (lastClaim : Claim F) (input : Tensor Int) : Outcome (List F × List F) := do
  let (rowPoint, columnPoint) ← splitOutputPoint lastClaim self.embSize
  let vocabSize := nextPowerOfTwo self.vocabSize
  let embSize := nextPowerOfTwo self.embSize
  let reduced ← reducedOneHot L vocabSize input rowPoint
  let reduced ← Tensor.new [1, vocabSize] reduced
  let embeddingMatrix := self.mat.padNextPowerOfTwo
  let rows ← embeddingMatrix.nrows2d
  ensure (vocabSize == rows) s!"Expected {vocabSize} rows for embedding matrix, found {rows}"
  let cols ← embeddingMatrix.ncols2d
  ensure (embSize == cols) s!"Expected {embSize} columns for embedding matrix, found {cols}"
  let inputMle ← reduced.intoMle2d
  let matrix ← embeddingMatrix.intoMle2d
  let embeddingMatMle := L.fixLowVariables (toField F matrix) columnPoint
  assertEq inputMle.length embeddingMatMle.length
  .ok (inputMle, embeddingMatMle)
where
  /-- `assert_eq!` on the numbers of variables. -/
  assertEq (n m : Nat) : Outcome Unit :=
    if n = m then .ok () else .error (.panic "assertion `left == right` failed")

variable {P T : Type} (proveSumcheck : SumcheckProver F P T)

/-- `prove`: the proof, the claims about the committed polynomials, and the claim about the input. -/
def prove (lastClaims : List (Claim F)) (nodeInputs : List (Tensor Int)) (transcript : T) :
    Outcome (EmbeddingsProof F P × List (CommitmentId × Claim F) × List (Claim F) × T) := do
  ensure (nodeInputs.length == 1) "embeddings only support 1 input tensor"
  ensure (lastClaims.length == 1) "embeddings only support 1 last claim"
  let lastClaim ← unwrap lastClaims[0]? "index out of bounds"
  let input ← unwrap (nodeInputs.map Tensor.padNextPowerOfTwo)[0]? "index out of bounds"
  let (inputMle, embeddingMatMle) ← self.sumcheckFactors L lastClaim input
  let (proof, challenges, finalEvaluations, transcript) :=
    proveSumcheck [inputMle, embeddingMatMle] transcript
  let oneHotEval ← unwrap finalEvaluations[0]? "index out of bounds"
  let embeddingMatEval ← unwrap finalEvaluations[1]? "index out of bounds"
  let (oneHotClaimPoint, embeddingMatPoint) ←
    buildPointsForClaims lastClaim self.embSize challenges
  let outputClaim : Claim F := ⟨oneHotClaimPoint, oneHotEval⟩
  let embeddingClaim : Claim F := ⟨embeddingMatPoint, embeddingMatEval⟩
  .ok (⟨proof, finalEvaluations⟩, [(self.storageKey, embeddingClaim)], [outputClaim], transcript)

end Prove

end Embeddings

namespace EmbeddingsCtx

variable {p : Nat} (L : MleLibrary (ZMod p)) (self : EmbeddingsCtx)

/-- What one token of the input adds, in `verify_input_claim`. -/
def addSelector (r1 : List (ZMod p)) (sum : ZMod p) (entry : ZMod p × ZMod p) : Outcome (ZMod p) := do
  let (token, beta) := entry
  let tokenValue ← tokenOf token
  let tokenLeBits ← bitsOf tokenValue r1.length
  .ok (sum + beta * identityEval r1 tokenLeBits)

/-- `verify_input_claim`. -/
def verifyInputClaim (inputs : List (Tensor (ZMod p))) (claims : List (Claim (ZMod p))) :
    Outcome Unit := do
  ensure (inputs.length == 1) "embeddings only support 1 input tensor"
  ensure (claims.length == 1) "embeddings only support 1 claim"
  let input ← unwrap inputs[0]? "index out of bounds"
  let oneHotClaim ← unwrap claims[0]? "index out of bounds"
  let vocabNv := Nat.log2 (nextPowerOfTwo self.vocabSize)
  let seqLen ← unwrap input.shape[0]? "index out of bounds"
  let seqLenNv := Nat.log2 (nextPowerOfTwo seqLen)
  ensure (vocabNv + seqLenNv == oneHotClaim.point.length)
    s!"vocab_nv: {vocabNv}, seq_len_nv: {seqLenNv}, one_hot_claim.point.len(): {oneHotClaim.point.length}"
  let (r1, r2) ← splitAtMid oneHotClaim.point vocabNv
  let b1 := L.evals r2
  let sum ← ((input.data.take input.unpaddedShape.numel).zip b1).foldlM (addSelector r1) 0
  ensure (sum == oneHotClaim.eval) "one hot encoding claim is incorrect"

end EmbeddingsCtx

end DeepProve
