import DeepProve.EinSum.Verify
import DeepProve.LogUp.Verifier
import DeepProve.SumcheckVerifier

/-!
# The verifier of a convolution

`layers/convolution/proof.rs` and `layers/hadamard.rs`. The output is first cleared of the padding by a
product with a tensor of zeros and ones; then come the sumchecks of the inverse transform, of the
product of the transforms, and of the transforms of the input and of the filter. A transform is
evaluated by a chain of smaller sumchecks, the delegation.
-/

namespace DeepProve

/-- What the code uses of the crates for fields and polynomials. -/
structure PolyLibrary (F : Type) where
  /-- `F::get_root_of_unity`. -/
  rootOfUnity : Nat → Option F
  /-- `poly::eq::evals`. -/
  evals : List F → List F
  /-- `into_mle` and `evaluate`, on evaluations and a point. -/
  evaluate : List F → List F → Outcome F

/-- `usize::ilog2`. -/
def ilog2 (n : Nat) : Outcome Nat :=
  if n = 0 then .error (.panic "argument of integer logarithm must be positive") else .ok (Nat.log2 n)

/-- `conv2d_shape`. -/
def conv2dShape (inputShape filterShape : Shape) : Outcome Shape := do
  let stride := 1
  let padding := 0
  let dilation := 1
  let hIn ← unwrap (if inputShape.length == 3 then inputShape[1]? else inputShape[2]?)
    "index out of bounds"
  let kernel ← unwrap filterShape[2]? "index out of bounds"
  let kernelRest ← usizeSub kernel 1
  let rest ← usizeSub (hIn + 2 * padding) (dilation * kernelRest)
  let rest ← usizeSub rest 1
  let hOut := rest / stride + 1
  let channels ← unwrap filterShape[0]? "index out of bounds"
  .ok [channels, hOut, hOut]

/-- `padded_conv2d_shape`. -/
def paddedConv2dShape (inputShape filterShape : Shape) : Outcome Shape := do
  let shape ← conv2dShape inputShape filterShape
  .ok shape.nextPowerOfTwo

/-- `new_clearing_tensor`: its data, channel after channel. -/
def newClearingTensor (ogShape paddedShape : Shape) : Outcome (List Int) := do
  let ogShape : Shape ←
    if ogShape.length == 4 then do
      let group ← unwrap ogShape[0]? "index out of bounds"
      ensure (group == 1) "Grouping is not supported"
      .ok (ogShape.drop 1)
    else .ok ogShape
  ensure (paddedShape.rank == ogShape.rank)
    s!"The original and padded shapes must have the same rank. original {paddedShape.rank} padded {ogShape.rank}"
  ensure (paddedShape.rank == 3) s!"Only rank 3 shapes are supported. got {paddedShape.rank}"
  let dim := fun (shape : Shape) i => shape.getD i 0
  .ok ((List.range (dim paddedShape 0)).flatMap fun channel =>
    (List.range (dim paddedShape 1)).flatMap fun height =>
      (List.range (dim paddedShape 2)).map fun width =>
        if channel < dim ogShape 0 ∧ height < dim ogShape 1 ∧ width < dim ogShape 2 then 1 else 0)

section Proofs

/-- `HadamardProof`. -/
structure HadamardProof (F P : Type) where
  sumcheck : P
  individualClaim : List F
  point : List F

structure ConvCtx where
  kw : Nat
  kx : Nat
  realNw : Nat
  nw : Nat
  filterSize : Nat
  unpaddedFilterShape : Shape
  paddedFilterShape : Shape
  filterKey : CommitmentId
  biasKey : CommitmentId

structure ConvProof (F P : Type) where
  fftProof : P
  fftProofWeights : P
  fftPoint : List F
  fftDelegationProof : List P
  fftDelegationProofWeights : List P
  ifftProof : P
  ifftPoint : List F
  ifftDelegationProof : List P
  ifftDelegationPoints : List (List F)
  hadamardProof : P
  hadamardPoint : List F
  fftClaims : List F
  fftWeightClaims : List F
  ifftClaims : List F
  fftDelegationClaims : List (List F)
  fftDelegationPoints : List (List F)
  fftDelegationWeightsClaims : List (List F)
  fftDelegationWeightsPoints : List (List F)
  fftWeightPoint : List F
  ifftDelegationClaims : List (List F)
  partialEvals : List F
  hadamardClams : List F
  biasClaim : F
  clearingProof : HadamardProof F P

end Proofs

section Field

variable {F : Type} [Field F] [DecidableEq F] (L : PolyLibrary F)

/-- `inverse().expect(..)`. -/
def inverseOrPanic (x : F) (msg : String) : Outcome F :=
  if x = 0 then .error (.panic msg) else .ok x⁻¹

/-- `pow_two_omegas`. -/
def powTwoOmegas (n : Nat) (isFft : Bool) : Outcome (List F) := do
  let size ← usizeSub n 1
  let rou ← okOr (L.rootOfUnity (2 ^ n)) s!"Cannot compute 2^{n}-th root of unity"
  let rou ← if isFft then inverseOrPanic rou "Tried to invert zero when proving FFT" else .ok rou
  ensurePos size
  .ok ((List.range size).map fun i => rou ^ 2 ^ i)
where
  /-- `pows[0]`. -/
  ensurePos (size : Nat) : Outcome Unit :=
    if size = 0 then .error (.panic "index out of bounds") else .ok ()

/-- `phi_eval`. -/
def phiEval (r : List F) (rand1 rand2 : F) (exponents : List F) (firstIter : Bool) : Outcome F := do
  let eval ← r.zipIdx.foldlM (fun (eval : F) (ri, i) => do
      let start ← usizeSub exponents.length r.length
      let exponent ← unwrap exponents[start + i]? "index out of bounds"
      .ok (eval * (1 - ri + ri * exponent)))
    1
  .ok (if firstIter then (1 - rand2) * (1 - rand1 + rand1 * eval)
    else 1 - rand1 + (1 - 2 * rand2) * rand1 * eval)

/-- `to_bits`. -/
def toBits (num bitlen : Nat) : List F := (List.range bitlen).map fun i => ((num / 2 ^ i % 2 : Nat) : F)

variable {P T : Type} (v : SumcheckVerifier F P T)

/-- `hadamard::verify`. -/
def hadamardVerify (sumcheckAux : VPAuxInfo) (proof : HadamardProof F P) (outputClaim : Claim F)
    (expectedV2Eval : F) (transcript : T) : Outcome (Claim F × T) := do
  let (subclaim, transcript) ← v outputClaim.eval proof.sumcheck sumcheckAux transcript
  let betaEval ← L.evaluate (L.evals outputClaim.point) proof.point
  let v2Eval ← unwrap proof.individualClaim[1]? "index out of bounds"
  ensure (expectedV2Eval == v2Eval) "Hadamard verification failed for v2 eval"
  let v1Eval ← unwrap proof.individualClaim[0]? "index out of bounds"
  ensure (betaEval * v1Eval * v2Eval == subclaim.expectedEvaluation)
    "Hadamard verification failed for product eval"
  .ok (⟨proof.point, v1Eval⟩, transcript)

/-- The proofs, the claims and the points of a chain of sumchecks. -/
structure Delegation (F P : Type) where
  proofs : List P
  claims : List (List F)
  points : List (List F)

/-- One sumcheck of a chain. What it leaves is not looked at. -/
def delegationStep (delegation : Delegation F P) (aux : List VPAuxInfo) (rand1 : Nat → Outcome F)
    (isFirst : Nat → Bool) (exponents : List F) (state : F × List F × T) (entry : P × Nat) :
    Outcome (F × List F × T) := do
  let (claim, prevR, transcript) := state
  let (proof, i) := entry
  let polyAux ← unwrap aux[i]? "index out of bounds"
  let (_, transcript) ← v claim proof polyAux transcript
  let point ← unwrap delegation.points[i]? "index out of bounds"
  let claims ← unwrap delegation.claims[i]? "index out of bounds"
  let identityClaim ← unwrap claims[0]? "index out of bounds"
  ensure (identityEval point prevR == identityClaim)
    s!"Error in identity evaluation fft delegation iter : {i}"
  let rand1 ← rand1 i
  let last ← usizeSub prevR.length 1
  let rand2 ← unwrap prevR[last]? "index out of bounds"
  let phi ← phiEval point rand1 rand2 exponents (isFirst i)
  let phiClaim ← unwrap claims[1]? "index out of bounds"
  ensure (phi == phiClaim) s!"Error in phi computation fft delegation iter : {i}"
  let nextClaim ← unwrap claims[2]? "index out of bounds"
  .ok (nextClaim, point, transcript)

/-- `verify_fft_delegation`. -/
def verifyFftDelegation (claim : F) (proof : ConvProof F P) (delegation : Delegation F P)
    (aux : List VPAuxInfo) (prevR : List F) (transcript : T) : Outcome T := do
  let iter := delegation.proofs.length
  let exponents ← powTwoOmegas L (iter + 1) false
  let (claim, prevR, transcript) ← delegation.proofs.zipIdx.foldlM
    (delegationStep v delegation aux
      (fun i => unwrap proof.hadamardPoint[i]? "index out of bounds") (fun i => i == 0) exponents)
    (claim, prevR, transcript)
  let rand ← unwrap proof.hadamardPoint[iter]? "index out of bounds"
  let first ← unwrap prevR[0]? "index out of bounds"
  ensure (claim == (1 - 2 * rand) * first + 1 - first) "Error in final FFT delegation step"
  .ok transcript

namespace ConvCtx

variable (self : ConvCtx)

/-- The clearing of the padding, at the start of `verify_convolution`: the claim about the output before
    it. -/
def verifyClearing (lastClaim : Claim F) (proof : ConvProof F P) (shapeStep : ShapeStep)
    (transcript : T) : Outcome (Claim F × T) := do
  ensure (shapeStep.unpaddedInputShape.length == 1)
    "More than 1 unpadded input shape found for convolution layer"
  ensure (shapeStep.paddedInputShape.length == 1)
    "More than 1 padded input shape found for convolution layer"
  let unpaddedInputShape ← unwrap shapeStep.unpaddedInputShape[0]? "index out of bounds"
  let unpaddedOutputShape ← conv2dShape unpaddedInputShape self.unpaddedFilterShape
  let paddedInputShape ← unwrap shapeStep.paddedInputShape[0]? "index out of bounds"
  let realOutputShape ← paddedConv2dShape paddedInputShape self.paddedFilterShape
  let clearingTensor ← newClearingTensor unpaddedOutputShape realOutputShape
  let numVars := Nat.log2 (nextPowerOfTwo realOutputShape.numel)
  let expectedV2Eval ← L.evaluate (clearingTensor.map fun (x : Int) => (x : F)) proof.clearingProof.point
  hadamardVerify L v (fromMleListDimensions [[numVars, numVars, numVars]]) proof.clearingProof lastClaim
    expectedV2Eval transcript

/-- `delegation_fft_aux`. -/
def delegationFftAux (filterVars : Nat) : List VPAuxInfo :=
  (List.range filterVars).reverse.map fun i => fromMleListDimensions [[i + 1, i + 1, i + 1]]

/-- The inverse transform, in `verify_convolution`; `lastClaim` is about the output before the
    clearing. -/
def verifyInverse (lastClaim : Claim F) (proof : ConvProof F P) (filterVars : Nat) (transcript : T) :
    Outcome T := do
  let convClaim := lastClaim.eval - proof.biasClaim
  let fftAux := fromMleListDimensions [[filterVars + 1, filterVars + 1]]
  let (_, transcript) ← v convClaim proof.ifftProof fftAux transcript
  let iter := proof.ifftDelegationProof.length
  let claim ← unwrap proof.ifftClaims[1]? "index out of bounds"
  let exponents ← powTwoOmegas L (iter + 1) true
  let (claim, prevR, transcript) ← proof.ifftDelegationProof.zipIdx.foldlM
    (delegationStep v ⟨proof.ifftDelegationProof, proof.ifftDelegationClaims, proof.ifftDelegationPoints⟩
      (delegationFftAux filterVars)
      (fun i => do
        let coordinate ← unwrap lastClaim.point[i]? "index out of bounds"
        .ok (1 - coordinate))
      (fun _ => false) exponents)
    (claim, proof.ifftPoint, transcript)
  let scale ← inverseOrPanic ((2 : F) ^ (iter + 1)) "Tried to invert 0 when verifying convoltution"
  let first ← unwrap prevR[0]? "index out of bounds"
  ensure (claim == scale * 1 * first + scale * (1 - first)) "Error in final iFFT delegation step"
  .ok transcript

/-- The product of the transforms, and the transforms of the input and of the filter. -/
def verifyForward (proof : ConvProof F P) (filterVars hadamardVars : Nat) (transcript : T) :
    Outcome T := do
  let fftAux := fromMleListDimensions [[filterVars + 1, filterVars + 1]]
  let hadamardAux := fromMleListDimensions [[hadamardVars + 1, hadamardVars + 1, hadamardVars + 1]]
  let ifftClaim ← unwrap proof.ifftClaims[0]? "index out of bounds"
  let (_, transcript) ← v ifftClaim proof.hadamardProof hadamardAux transcript
  let betaClaim ← unwrap proof.hadamardClams[2]? "index out of bounds"
  ensure (betaClaim == identityEval proof.ifftPoint proof.hadamardPoint) "Error in Beta evaluation"
  let inputClaim ← unwrap proof.hadamardClams[1]? "index out of bounds"
  let (_, transcript) ← v inputClaim proof.fftProof fftAux transcript
  let claim ← unwrap proof.fftClaims[1]? "index out of bounds"
  ensure ((delegationFftAux filterVars).length == proof.fftDelegationProof.length)
    "Inconsistency in FFT delegation proofs/aux size"
  let transcript ← verifyFftDelegation L v claim proof
    ⟨proof.fftDelegationProof, proof.fftDelegationClaims, proof.fftDelegationPoints⟩
    (delegationFftAux filterVars) proof.fftPoint transcript
  let weightClaim ← unwrap proof.hadamardClams[0]? "index out of bounds"
  let (_, transcript) ← v weightClaim proof.fftProofWeights fftAux transcript
  let claim ← unwrap proof.fftWeightClaims[1]? "index out of bounds"
  verifyFftDelegation L v claim proof
    ⟨proof.fftDelegationProofWeights, proof.fftDelegationWeightsClaims,
      proof.fftDelegationWeightsPoints⟩ (delegationFftAux filterVars) proof.fftWeightPoint transcript

/-- The sumchecks after the clearing, in `verify_convolution`. -/
def verifyTransforms (lastClaim : Claim F) (proof : ConvProof F P) (transcript : T) : Outcome T := do
  let filterVars ← ilog2 self.filterSize
  let delegationAuxLen := (delegationFftAux filterVars).length
  ensure (delegationAuxLen == proof.ifftDelegationProof.length)
    s!"Inconsistency in iFFT delegation proofs/aux size, {delegationAuxLen} != {proof.ifftDelegationProof.length}"
  let hadamardVars ← ilog2 (self.kx * self.filterSize)
  let transcript ← verifyInverse L v lastClaim proof filterVars transcript
  verifyForward L v proof filterVars hadamardVars transcript

/-- The last coordinate of a point, inverted, and the others. -/
def popInverse (point : List F) (msg : String) : Outcome (F × List F) := do
  let last ← unwrap point.getLast? "called `Option::unwrap()` on a `None` value"
  let inverse ← inverseOrPanic (1 - last) msg
  .ok (inverse, point.dropLast)

/-- The check of the padded filter, in `verify_convolution`. -/
def checkWeights (proof : ConvProof F P) : Outcome Unit := do
  let (inverse, weightsPoint) ←
    popInverse proof.fftWeightPoint "Trying to invert zero when veirfying convolution"
  let yWeights ← ((List.range self.realNw).product (List.range self.realNw)).foldlM
    (fun (acc : F) (i, j) => do
      let partialEval ← unwrap proof.partialEvals[i * self.realNw + j]? "index out of bounds"
      let vars ← ilog2 self.nw
      .ok (acc + partialEval * identityEval (toBits (i * self.nw + j) (vars * 2)) weightsPoint))
    0
  let weightClaim ← unwrap proof.fftWeightClaims[0]? "index out of bounds"
  ensure (weightClaim * inverse == yWeights) "Error in padded_fft evaluation claim"

/-- `read_challenges`. -/
def readChallenges (challengeScalar : T → F × T) : Nat → T → List F × T
  | 0, transcript => ([], transcript)
  | n + 1, transcript =>
    let (challenge, transcript) := challengeScalar transcript
    let (rest, transcript) := readChallenges challengeScalar n transcript
    (challenge :: rest, transcript)

/-- The claims about the filter and the bias: the entries of a hash map, so that the second replaces the
    first if the keys are the same. -/
def commonClaims (lastClaim : Claim F) (proof : ConvProof F P) (weightsRand : List F) :
    Outcome (List (CommitmentId × Claim F)) := do
  let filterVars ← ilog2 self.filterSize
  let lastRest ← sliceFrom lastClaim.point filterVars
  let point := proof.hadamardPoint ++ lastRest
  let biasPoint ← sliceFrom lastClaim.point proof.ifftDelegationProof.length
  let biasClaim : Claim F := ⟨biasPoint, proof.biasClaim⟩
  let paddedVars ← ilog2 (2 * self.nw * self.nw)
  let pointRest ← sliceFrom point paddedVars
  let filterEval ← L.evaluate proof.partialEvals weightsRand
  let filterClaim : Claim F := ⟨weightsRand ++ pointRest, filterEval⟩
  .ok (if self.filterKey = self.biasKey then [(self.biasKey, biasClaim)]
    else [(self.filterKey, filterClaim), (self.biasKey, biasClaim)])

/-- The claim about the input. -/
def inputClaim (proof : ConvProof F P) : Outcome (Claim F) := do
  let (inverse, inputPoint) ←
    popInverse proof.fftPoint "Tried to invert 0 when verifying convolution"
  let filterVars ← ilog2 (self.filterSize * 2)
  let channelPoint ← sliceFrom proof.hadamardPoint filterVars
  let fftClaim ← unwrap proof.fftClaims[0]? "index out of bounds"
  .ok ⟨inputPoint.map (1 - ·) ++ channelPoint, fftClaim * inverse⟩

variable {C : Type} (challengeScalar : T → F × T)

/-- What follows the sumchecks in `verify_convolution`: the claims about the filter, the bias and the
    input. -/
def addClaims (commitVerifier : CommitmentVerifier F C) (lastClaim : Claim F) (proof : ConvProof F P)
    (nodeId : NodeId) (transcript : T) : Outcome (Claim F × CommitmentVerifier F C × T) := do
  self.checkWeights proof
  let weightVars ← ilog2 (self.realNw * self.realNw)
  let (weightsRand, transcript) := readChallenges challengeScalar weightVars transcript
  let claims ← self.commonClaims L lastClaim proof weightsRand
  let commitVerifier ← commitVerifier.addCommonClaims
    (claims.map fun (polyId, claim) => (polyId, [(nodeId, claim)]))
  let claim ← self.inputClaim proof
  .ok (claim, commitVerifier, transcript)

/-- `verify_convolution`. -/
def verifyConvolution (commitVerifier : CommitmentVerifier F C) (lastClaim : Claim F)
    (proof : ConvProof F P) (shapeStep : ShapeStep) (nodeId : NodeId) (transcript : T) :
    Outcome (Claim F × CommitmentVerifier F C × T) := do
  let (lastClaim, transcript) ← self.verifyClearing L v lastClaim proof shapeStep transcript
  let transcript ← self.verifyTransforms L v lastClaim proof transcript
  self.addClaims L challengeScalar commitVerifier lastClaim proof nodeId transcript

end ConvCtx

end Field

end DeepProve
