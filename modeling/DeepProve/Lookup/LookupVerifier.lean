import DeepProve.Lookup.RoundTrip
import DeepProve.Lookup.TableVerifier
import DeepProve.Lookup.VariantVerifier

/-!
# The verifier of a lookup layer

`lookup/operation/generic_verify.rs`, with the linking sumcheck of
`lookup/operation/inputs/verifying.rs`. The LogUp argument is verified first, then the
sumcheck that links it to the output of the layer. The claims that are left are recorded
for the commitments, or returned for the inputs of the layer.

The claims of the LogUp argument are there twice: the verified claim has the point that the
verifier has drawn, and the proof has one that the prover has written. The claims use both.
-/

namespace DeepProve

/-- What the sumcheck library has besides `DpCrypto`. -/
structure SumcheckUtil {F : Type} (D : DpCrypto F) where
  /-- `Expression::degree`. -/
  degree : D.Expression → Nat
  /-- `poly::eq::evals`. -/
  eqEvals : List F → List F

structure GenericLookupProof {F : Type} (D : DpCrypto F) (C : Type) where
  logupProof : LogUpBatchProof D
  sumcheckProof : D.IOPProof
  evaluations : List F
  weightEvaluation : Option F
  shiftEvaluations : Option (List F)
  commitments : List (VerifierCommitment C)

structure LookupVerifyResult (F : Type) where
  inputClaims : List (Claim F)
  weightEvaluationPoint : Option (List F)

/-- The parts of the verifier that a lookup layer uses. -/
structure Verifier {F : Type} (D : DpCrypto F) (C : Type) where
  commitVerifier : CommitmentVerifier F C
  transcript : D.Transcript
  challengeStorage : ChallengeStorage F
  numeratorsAndDenominators : NumeratorsAndDenominators F

/-- `LogUpBatchProof::point`. -/
def LogUpBatchProof.point {F : Type} {D : DpCrypto F} (self : LogUpBatchProof D) :
    Outcome (List F) := do
  let claim ← unwrap self.outputClaims[0]? "index out of bounds"
  .ok claim.point

/-- The LogUp proof with another point in its first claim. -/
def LogUpBatchProof.withPoint {F : Type} {D : DpCrypto F} (self : LogUpBatchProof D)
    (point : List F) : LogUpBatchProof D :=
  { self with outputClaims := self.outputClaims.modify 0 fun claim => { claim with point } }

section Verify

variable {F : Type} [Field F] [DecidableEq F] {D : DpCrypto F} (U : SumcheckUtil D)
  (fl : Float32Ops)

/-- The `eq` polynomial of the normalisation check, where the last dimension is summed over. -/
def normEqEvals (variant : LookupVariant) (unpaddedInputShape : Shape)
    (logupPoint sumcheckPoint : List F) : Outcome (List F) :=
  if variant.isNormalised then do
    let lastDim ← unpaddedInputShape.lastDim
    let normDimVars := ceilLog2 lastDim
    let half ← ChunkingInfo.inverseOf (2 : F) "Cannot fail when inverting 2"
    let rest ← sliceFrom logupPoint normDimVars
    .ok [identityEval (List.replicate normDimVars half ++ rest) sumcheckPoint]
  else
    .ok []

/-- `verify_linking_sumcheck`. -/
def LookupInputConfig.verifyLinkingSumcheck (self : LookupInputConfig) (sumcheckProof : D.IOPProof)
    (evaluations : List F) (weightEval : Option F) (transcript : D.Transcript) (lastClaim : Claim F)
    (logupClaim : LogUpBatchVerifierClaim F) (shiftEvals : Option (List F)) :
    Outcome ((List F × List F) × D.Transcript) := do
  let shape := self.unpaddedInputShape
  let (outputEqPoint, batchingChallenges) ←
    shape.computeEqPointAndBatchingChallenges U.eqEvals lastClaim.point
  let (sumChallenge, transcript) := D.appendAndSample transcript "sum"
  let (otherChallenges, transcript) := self.variant.squeezeSumcheckChallenges D transcript
  let batchingChallenges := sumChallenge :: batchingChallenges ++ otherChallenges
  let initialClaim ← self.variant.prepareSumcheckVerification logupClaim lastClaim.eval shiftEvals
    batchingChallenges self.chunkingInfo shape
  let lastDim ← shape.lastDim
  let expression ←
    self.variant.buildFullSumcheckExpression D fl self.numberOfChunks lastDim self.chunkingInfo
  let auxInfo := ⟨U.degree expression, outputEqPoint.length⟩
  let (subclaim, transcript) ← D.verifySumcheck initialClaim sumcheckProof auxInfo transcript
  let outputEqEval := identityEval outputEqPoint subclaim.point
  let logupEqEval := identityEval logupClaim.point subclaim.point
  let normEqEvals ← normEqEvals self.variant shape logupClaim.point subclaim.point
  let allEvals := evaluations ++ [outputEqEval, logupEqEval] ++ normEqEvals ++ weightEval.toList
  let calculatedClaim ← D.eval allEvals batchingChallenges expression
  ensure (calculatedClaim == subclaim.expectedEvaluation) "Lookup sumcheck verification failed"
  .ok ((batchingChallenges, subclaim.point), transcript)

/-- What the verification of the two arguments leaves. -/
structure VerifiedLookup (F : Type) where
  inputConfig : LookupInputConfig
  logupClaim : LogUpBatchVerifierClaim F
  /-- The shift evaluations without the padded columns. -/
  shiftEvals : Option (List F)
  batchingChallenges : List F
  sumcheckPoint : List F

variable {C : Type} (lookupOp : LookupOp) (lastClaim : Claim F) (unpaddedInputShape : Shape)
  (table : Table)

/-- `evaluate_dim_lt_poly` times the shift evaluations. -/
def rescaledShifts (logupPoint : List F) : Option (List F) → Outcome (Option (List F))
  | none => .ok none
  | some evals => do
    let finalDim ← unpaddedInputShape.lastDim
    let finalDimPoint ← sliceTo logupPoint (ceilLog2 finalDim)
    let ltEval ← evaluateDimLtPoly finalDimPoint finalDim
    .ok (some (evals.map (· * ltEval)))

/-- The verification of the LogUp argument and of the linking sumcheck, in
    `verify_lookup_op`. -/
def verifyArguments (proof : GenericLookupProof D C) (verifier : Verifier D C) :
    Outcome (VerifiedLookup F × D.Transcript × NumeratorsAndDenominators F) := do
  let chunkingInfo ← lookupOp.chunkingInfo table
  let inputConfig := lookupOp.inputConfig chunkingInfo unpaddedInputShape
  let stored ← inputConfig.sortFractionalOutputs fl verifier.numeratorsAndDenominators
    proof.logupProof
  let logupInstances ← inputConfig.createLogupVerifierInstances fl verifier.challengeStorage
  let (logupClaim, transcript) ←
    newVerifyLogupProofMultipleSizes D proof.logupProof logupInstances verifier.transcript
  let shiftEvals ← rescaledShifts unpaddedInputShape logupClaim.point proof.shiftEvaluations
  let ((batchingChallenges, sumcheckPoint), transcript) ←
    inputConfig.verifyLinkingSumcheck U fl proof.sumcheckProof proof.evaluations
      proof.weightEvaluation transcript lastClaim logupClaim shiftEvals
  .ok (⟨inputConfig, logupClaim, shiftEvals, batchingChallenges, sumcheckPoint⟩, transcript, stored)

/-- The evaluations that the claims are about. -/
def lookupEvaluations (proof : GenericLookupProof D C) (verified : VerifiedLookup F) :
    Outcome (LookupEvaluations F) :=
  verified.inputConfig.constructLookupEvaluations (verified.logupClaim.outputClaims.map Claim.eval)
    proof.evaluations (verified.batchingChallenges.drop 1) verified.shiftEvals

/-- The claims about the values that normalise the inputs. -/
def normalisationClaims (evals sumcheckPoint : List F) (finalDimVars : Nat) :
    LookupVariant → Outcome (List (Claim F))
  | .normalisation .. => evals.mapM fun eval => do
    let point ← sliceFrom sumcheckPoint finalDimVars
    .ok ⟨point, eval⟩
  | .standard | .glu | .softmax .. => .ok []

def shiftClaims (logupPoint : List F) (finalDimVars : Nat) :
    Option (List F) → Outcome (List (Claim F))
  | some shiftEvals => do
    let shiftPoint ← sliceFrom logupPoint finalDimVars
    .ok (shiftEvals.map fun eval => ⟨shiftPoint, eval⟩)
  | none => .ok []

/-- `weight_evaluation.map(..)`. -/
def weightPoint (sumcheckPoint : List F) (finalDimVars : Nat) :
    Option F → Outcome (Option (List F))
  | some _ => do
    let point ← sliceTo sumcheckPoint finalDimVars
    .ok (some point)
  | none => .ok none

/-- The claims about the commitments; those about the inputs of lookups are at `inputPoint`. -/
def commitmentClaims (proof : GenericLookupProof D C) (verified : VerifiedLookup F)
    (evals : LookupEvaluations F) (inputPoint : List F) : Outcome (List (Claim F)) := do
  let finalDim ← unpaddedInputShape.lastDim
  let finalDimVars := ceilLog2 finalDim
  let normalisationClaims ← normalisationClaims evals.normalisationCommitmentEvals
    verified.sumcheckPoint finalDimVars lookupOp.variant
  let shiftClaims ← shiftClaims verified.logupClaim.point finalDimVars proof.shiftEvaluations
  .ok (evals.inputCommitmentEvals.map (fun eval => ⟨inputPoint, eval⟩) ++
    evals.outputCommitmentEvals.map (fun eval => ⟨verified.sumcheckPoint, eval⟩) ++
    normalisationClaims ++ shiftClaims)

/-- `zip_eq` of the claims and the commitments. -/
def zipCommitments (claims : List (Claim F)) (commitments : List (VerifierCommitment C)) :
    Outcome (List (VerifierClaim F C)) :=
  if claims.length = commitments.length then
    .ok ((claims.zip commitments).map fun (claim, comm) => ⟨comm, [claim]⟩)
  else
    .error (.panic "itertools: .zip_eq() reached end of one iterator before the other")

/-- `verify_lookup_op`. -/
def verifyLookupOp (proof : GenericLookupProof D C) (verifier : Verifier D C) (nodeId : NodeId) :
    Outcome (LookupVerifyResult F × Verifier D C) := do
  let (verified, transcript, stored) ←
    verifyArguments U fl lookupOp lastClaim unpaddedInputShape table proof verifier
  let evals ← lookupEvaluations proof verified
  -- the point in the proof, not the one of the verified claim
  let rawPoint ← proof.logupProof.point
  let claims ← commitmentClaims lookupOp unpaddedInputShape proof verified evals rawPoint
  let inputClaims ← lookupOp.variant.produceInputClaims unpaddedInputShape lookupOp lastClaim.point
    rawPoint verified.sumcheckPoint evals.inputClaimEvals
  let witnessClaims ← zipCommitments claims proof.commitments
  let finalDim ← unpaddedInputShape.lastDim
  let weightEvaluationPoint ←
    weightPoint verified.sumcheckPoint (ceilLog2 finalDim) proof.weightEvaluation
  .ok (⟨inputClaims, weightEvaluationPoint⟩,
    { verifier with
      commitVerifier := verifier.commitVerifier.addWitnessClaim nodeId witnessClaims
      transcript
      numeratorsAndDenominators := stored })

/-! ## The claims of an accepted run -/

/-- The claims that a run records and returns are at points of the last claim, the verified LogUp
    claim and the linking sumcheck, and about evaluations that the two verifications had. -/
def ClaimsVerified (proof : GenericLookupProof D C) (verifier : Verifier D C) (nodeId : NodeId)
    (result : LookupVerifyResult F) (verifier' : Verifier D C) : Prop :=
  ∃ verified transcript stored evals claims witnessClaims,
    verifyArguments U fl lookupOp lastClaim unpaddedInputShape table proof verifier =
      .ok (verified, transcript, stored) ∧
    lookupEvaluations proof verified = .ok evals ∧
    commitmentClaims lookupOp unpaddedInputShape proof verified evals verified.logupClaim.point =
      .ok claims ∧
    lookupOp.variant.produceInputClaims unpaddedInputShape lookupOp lastClaim.point
      verified.logupClaim.point verified.sumcheckPoint evals.inputClaimEvals =
      .ok result.inputClaims ∧
    zipCommitments claims proof.commitments = .ok witnessClaims ∧
    verifier'.commitVerifier = verifier.commitVerifier.addWitnessClaim nodeId witnessClaims

/-- The input claims of a normalisation are at the point of the sumcheck. -/
def LookupVariant.readsLogupPoint : LookupVariant → Bool
  | normalisation .. => false
  | standard | glu | softmax .. => true

/-- Another point leads to the same claims: it is the same one, or there are no chunks and it
    is completed to the same one. -/
def SamePoints (variant : LookupVariant) (numberOfChunks : Nat) (lastClaimPoint rawPoint
    logupPoint : List F) : Prop :=
  rawPoint = logupPoint ∨ numberOfChunks = 0 ∧ (variant.readsLogupPoint = true →
    LookupVariant.completePoint rawPoint lastClaimPoint =
      LookupVariant.completePoint logupPoint lastClaimPoint)

/-- The point in the proof is the point that the LogUp argument is verified at. -/
def RawPointVerified (proof : GenericLookupProof D C) (verifier : Verifier D C) : Prop :=
  ∃ verified transcript stored rawPoint,
    verifyArguments U fl lookupOp lastClaim unpaddedInputShape table proof verifier =
      .ok (verified, transcript, stored) ∧
    proof.logupProof.point = .ok rawPoint ∧
    SamePoints lookupOp.variant verified.inputConfig.numberOfChunks lastClaim.point rawPoint
      verified.logupClaim.point

variable {U fl lookupOp lastClaim unpaddedInputShape table} {proof : GenericLookupProof D C}
  {verifier verifier' : Verifier D C} {nodeId : NodeId} {result : LookupVerifyResult F}

theorem verifyLookupOp_eq_ok
    (h : verifyLookupOp U fl lookupOp lastClaim unpaddedInputShape table proof verifier nodeId =
      .ok (result, verifier')) :
    ∃ verified transcript stored evals rawPoint claims witnessClaims,
      verifyArguments U fl lookupOp lastClaim unpaddedInputShape table proof verifier =
        .ok (verified, transcript, stored) ∧
      lookupEvaluations proof verified = .ok evals ∧
      proof.logupProof.point = .ok rawPoint ∧
      commitmentClaims lookupOp unpaddedInputShape proof verified evals rawPoint = .ok claims ∧
      lookupOp.variant.produceInputClaims unpaddedInputShape lookupOp lastClaim.point rawPoint
        verified.sumcheckPoint evals.inputClaimEvals = .ok result.inputClaims ∧
      zipCommitments claims proof.commitments = .ok witnessClaims ∧
      verifier'.commitVerifier = verifier.commitVerifier.addWitnessClaim nodeId witnessClaims := by
  simp only [verifyLookupOp, Outcome.bind_eq_ok] at h
  obtain ⟨⟨verified, transcript, stored⟩, hverified, evals, hevals, rawPoint, hraw, claims, hclaims,
    inputClaims, hinput, witnessClaims, hzip, finalDim, hfinalDim, weightPoint, hweight, hresult⟩ := h
  obtain ⟨rfl, rfl⟩ := Prod.mk.inj (Except.ok.inj hresult)
  exact ⟨verified, transcript, stored, evals, rawPoint, claims, witnessClaims, hverified, hevals,
    hraw, hclaims, hinput, hzip, rfl⟩

variable {variant : LookupVariant} {chunkingInfo : ChunkingInfo} {verified : VerifiedLookup F}
variable {claims : List (Claim F)}

/-- What one chunk adds to the evaluations. -/
theorem updateForChunk_eq_ok {shiftEvals : Option (List F)} {additionalEvals : List F}
    {numberOfChunks : Nat} {self self' : LookupEvaluations F} {entry : Nat × List F × F}
    (h : LookupEvaluations.updateForChunk variant chunkingInfo shiftEvals additionalEvals
      numberOfChunks self entry = .ok self') :
    ∃ evals, splitChunkEvals chunkingInfo entry.2.1 = .ok evals ∧
      self'.inputCommitmentEvals = self.inputCommitmentEvals ++ evals.commitmentEvals chunkingInfo := by
  obtain ⟨chunkIdx, logupChunk, batchChal⟩ := entry
  simp only [LookupEvaluations.updateForChunk, Outcome.bind_eq_ok] at h
  obtain ⟨evals, hevals, h⟩ := h
  refine ⟨evals, hevals, ?_⟩
  cases variant with
  | standard =>
    simp only [Outcome.bind_eq_ok] at h
    obtain ⟨_, _, _, _, hself⟩ := h
    rw [← Except.ok.inj hself]
  | glu =>
    simp only [Outcome.bind_eq_ok] at h
    obtain ⟨_, _, _, _, _, _, _, _, hself⟩ := h
    rw [← Except.ok.inj hself]
  | softmax =>
    simp only [Outcome.bind_eq_ok] at h
    obtain ⟨_, _, _, _, _, _, _, _, hself⟩ := h
    rw [← Except.ok.inj hself]
  | normalisation =>
    simp only [Outcome.bind_eq_ok] at h
    obtain ⟨_, _, _, _, _, _, hself⟩ := h
    rw [← Except.ok.inj hself]

/-- The chunks only add evaluations. -/
theorem inputCommitmentEvals_ne_nil {shiftEvals : Option (List F)} {additionalEvals : List F}
    {numberOfChunks : Nat} {entries : List (Nat × List F × F)} {self self' : LookupEvaluations F}
    (hself : self.inputCommitmentEvals ≠ [])
    (h : entries.foldlM (LookupEvaluations.updateForChunk variant chunkingInfo shiftEvals
      additionalEvals numberOfChunks) self = .ok self') :
    self'.inputCommitmentEvals ≠ [] := by
  induction entries generalizing self with
  | nil =>
    rw [← Except.ok.inj h]
    exact hself
  | cons entry entries ih =>
    rw [List.foldlM_cons, Outcome.bind_eq_ok] at h
    obtain ⟨next, hnext, hrest⟩ := h
    obtain ⟨evals, _, heq⟩ := updateForChunk_eq_ok hnext
    apply ih _ hrest
    rw [heq]
    exact List.append_ne_nil_of_left_ne_nil hself _

omit [Field F] [DecidableEq F] in
/-- A chunk has an evaluation for each of its shifted chunks. -/
theorem commitmentEvals_ne_nil {logupChunk : List F} {evals : ChunkEvals F}
    (hpos : 0 < chunkingInfo.numberOfShiftedChunks)
    (h : splitChunkEvals chunkingInfo logupChunk = .ok evals) :
    evals.commitmentEvals chunkingInfo ≠ [] := by
  simp only [splitChunkEvals, Outcome.bind_eq_ok] at h
  obtain ⟨⟨shifted, other⟩, hshifted, _, _, _, _, hevals⟩ := h
  obtain ⟨hle, hshifted, _⟩ := splitAtMid_eq_ok.mp hshifted
  rw [← Except.ok.inj hevals]
  have hne : shifted ≠ [] := by
    intro hnil
    have hlength := congrArg List.length hshifted
    rw [hnil, List.length_take] at hlength
    simp only [List.length_nil] at hlength
    omega
  exact List.append_ne_nil_of_left_ne_nil (List.append_ne_nil_of_left_ne_nil hne _) _

/-- The evaluations and the challenges of an accepted run cover all chunks. -/
theorem verifyArguments_covers {transcript : D.Transcript} {stored : NumeratorsAndDenominators F}
    (h : verifyArguments U fl lookupOp lastClaim unpaddedInputShape table proof verifier =
      .ok (verified, transcript, stored)) :
    0 < verified.inputConfig.chunkingInfo.numberOfShiftedChunks ∧
      verified.inputConfig.variant = lookupOp.variant ∧
      (verified.inputConfig.chunkingInfo.totalInputsPerChunk +
          verified.inputConfig.chunkingInfo.totalOutputsPerChunk) *
        verified.inputConfig.numberOfChunks ≤ verified.logupClaim.outputClaims.length ∧
      1 + verified.inputConfig.numberOfChunks ≤ verified.batchingChallenges.length := by
  simp only [verifyArguments, Outcome.bind_eq_ok] at h
  obtain ⟨chunkingInfo, hinfo, _, _, _, _, ⟨logupClaim, _⟩, _, shiftEvals, _,
    ⟨⟨batchingChallenges, sumcheckPoint⟩, _⟩, hlinking, hresult⟩ := h
  obtain ⟨rfl, _⟩ := Prod.mk.inj (Except.ok.inj hresult)
  refine ⟨(ChunkingInfo.isNew_of_new_eq_ok hinfo).numberOfShiftedChunks_pos, rfl, ?_⟩
  simp only [LookupInputConfig.verifyLinkingSumcheck, Outcome.bind_eq_ok] at hlinking
  obtain ⟨⟨_, _⟩, _, initialClaim, hinitial, _, _, _, _, ⟨_, _⟩, _, _, _, _, _, _, _, hchallenges⟩ :=
    hlinking
  obtain ⟨hchallenges, _⟩ := Prod.mk.inj (Except.ok.inj hchallenges)
  obtain ⟨hchallenges, _⟩ := Prod.mk.inj hchallenges
  simp only [LookupVariant.prepareSumcheckVerification, Outcome.bind_eq_ok] at hinitial
  obtain ⟨_, _, ⟨_, _⟩, hsplit, _, _, _, _, _, _, _, hslice, _⟩ := hinitial
  rw [hchallenges] at hslice
  have hle := (splitAtMid_eq_ok.mp hsplit).1
  rw [List.length_map] at hle
  exact ⟨hle, (sliceTo_eq_ok.mp hslice).1⟩

/-- There are claims about commitments to inputs exactly if there are chunks. -/
theorem inputCommitmentEvals_eq_nil_iff {transcript : D.Transcript}
    {stored : NumeratorsAndDenominators F} {evals : LookupEvaluations F}
    (h : verifyArguments U fl lookupOp lastClaim unpaddedInputShape table proof verifier =
      .ok (verified, transcript, stored)) (hevals : lookupEvaluations proof verified = .ok evals) :
    evals.inputCommitmentEvals = [] ↔ verified.inputConfig.numberOfChunks = 0 := by
  obtain ⟨hpos, _, hlength, hchallenges⟩ := verifyArguments_covers h
  simp only [lookupEvaluations, LookupInputConfig.constructLookupEvaluations,
    Outcome.bind_eq_ok] at hevals
  obtain ⟨⟨outputEvals, additionalEvals⟩, _, logupChunks, hchunks, hfold⟩ := hevals
  obtain ⟨hsize, hchunks⟩ := chunksOf_eq_ok.mp hchunks
  cases hcount : verified.inputConfig.numberOfChunks with
  | zero =>
    rw [hcount] at hfold
    rw [← Except.ok.inj hfold]
    simp
  | succ n =>
    refine ⟨fun hnil => absurd hnil ?_, fun hzero => by simp at hzero⟩
    -- the first chunk has evaluations, and the others only add more
    obtain ⟨chunk, chunks, hcons⟩ : ∃ chunk chunks, logupChunks = chunk :: chunks := by
      apply List.exists_cons_of_ne_nil
      rw [hchunks]
      intro hnil
      have hlen := congrArg List.length hnil
      simp only [pieces, List.length_map, List.length_range, List.length_nil,
        Nat.div_eq_zero_iff] at hlen
      have hle := Nat.le_mul_of_pos_right (verified.inputConfig.chunkingInfo.totalInputsPerChunk +
        verified.inputConfig.chunkingInfo.totalOutputsPerChunk) (show 0 < n + 1 from Nat.succ_pos n)
      rw [hcount] at hlength
      omega
    obtain ⟨challenge, challenges, hchal⟩ :
        ∃ challenge challenges, verified.batchingChallenges.drop 1 = challenge :: challenges := by
      apply List.exists_cons_of_ne_nil
      intro hnil
      rw [List.drop_eq_nil_iff] at hnil
      omega
    rw [hcount, hcons, hchal, List.range_succ_eq_map, List.zip_cons_cons, List.zip_cons_cons,
      List.foldlM_cons, Outcome.bind_eq_ok] at hfold
    obtain ⟨first, hfirst, hrest⟩ := hfold
    obtain ⟨chunkEvals, hsplit, heq⟩ := updateForChunk_eq_ok hfirst
    apply inputCommitmentEvals_ne_nil _ hrest
    rw [heq]
    exact List.append_ne_nil_of_right_ne_nil _ (commitmentEvals_ne_nil hpos hsplit)

/-! ## The input claims -/

/-- Only the completed point is read. -/
theorem produceInputClaims_congr {p q sumcheckPoint evals : List F}
    (h : variant.readsLogupPoint = true →
      LookupVariant.completePoint p lastClaim.point = LookupVariant.completePoint q lastClaim.point) :
    variant.produceInputClaims unpaddedInputShape lookupOp lastClaim.point p sumcheckPoint evals =
      variant.produceInputClaims unpaddedInputShape lookupOp lastClaim.point q sumcheckPoint
        evals := by
  unfold LookupVariant.produceInputClaims LookupVariant.inputEvalOf
  cases variant with
  | standard | glu | softmax => rw [h rfl]
  | normalisation => rfl

/-- The first input claim is at the completed point. -/
theorem completePoint_of_produceInputClaims {p sumcheckPoint evals : List F}
    (hreads : variant.readsLogupPoint = true)
    (h : variant.produceInputClaims unpaddedInputShape lookupOp lastClaim.point p sumcheckPoint
      evals = .ok claims) :
    ∃ point, LookupVariant.completePoint p lastClaim.point = .ok point ∧
      claims.head?.map Claim.point = some point := by
  have hfirst : ∃ eval firstClaim,
      LookupVariant.inputEvalOf unpaddedInputShape lookupOp lastClaim.point p eval = .ok firstClaim ∧
        claims.head? = some firstClaim := by
    simp only [LookupVariant.produceInputClaims, Outcome.bind_eq_ok] at h
    obtain ⟨eval, _, h⟩ := h
    cases variant with
    | standard | glu | softmax =>
      simp only [Outcome.bind_eq_ok] at h
      obtain ⟨firstClaim, hfirst, _, _, hclaims⟩ := h
      rw [← Except.ok.inj hclaims]
      exact ⟨eval, firstClaim, hfirst, rfl⟩
    | normalisation => cases hreads
  obtain ⟨eval, firstClaim, hfirst, hhead⟩ := hfirst
  rw [hhead]
  simp only [LookupVariant.inputEvalOf, Outcome.bind_eq_ok] at hfirst
  obtain ⟨_, _, _, _, _, _, point, hpoint, hclaim⟩ := hfirst
  refine ⟨point, hpoint, ?_⟩
  by_cases hpadding : lookupOp.paddingValue ≠ 0
  · rw [if_pos hpadding] at hclaim
    simp only [Outcome.bind_eq_ok] at hclaim
    obtain ⟨_, _, _, _, hclaim⟩ := hclaim
    rw [← Except.ok.inj hclaim]
    rfl
  · rw [if_neg hpadding] at hclaim
    rw [← Except.ok.inj hclaim]
    rfl

/-! ## When the claims are at verified points -/

omit [Field F] [DecidableEq F] in
/-- The claims can be read off what is recorded. -/
theorem zipCommitments_inj {claims' : List (Claim F)} {commitments : List (VerifierCommitment C)}
    {witnessClaims : List (VerifierClaim F C)}
    (h : zipCommitments claims commitments = .ok witnessClaims)
    (h' : zipCommitments claims' commitments = .ok witnessClaims) : claims = claims' := by
  have hclaims : ∀ claims : List (Claim F), zipCommitments claims commitments = .ok witnessClaims →
      witnessClaims.map VerifierClaim.claims = claims.map fun claim => [claim] := by
    intro claims h
    unfold zipCommitments at h
    split at h
    case isFalse => cases h
    case isTrue hlength =>
      have hfirst : (claims.zip commitments).map Prod.fst = claims := List.map_fst_zip hlength.le
      rw [← Except.ok.inj h, List.map_map]
      conv_rhs => rw [← hfirst, List.map_map]
      rfl
  apply List.map_injective_iff.mpr (fun a b hab => List.singleton_inj.mp hab)
  rw [← hclaims claims h, ← hclaims claims' h']

omit [Field F] [DecidableEq F] in
theorem addWitnessClaim_inj {self : CommitmentVerifier F C} {claims claims' : List (VerifierClaim F C)}
    (h : self.addWitnessClaim nodeId claims = self.addWitnessClaim nodeId claims') :
    claims = claims' := by
  have hget := congrArg (fun v => v.witnessClaims[nodeId]?) h
  simpa [CommitmentVerifier.addWitnessClaim] using hget

omit [Field F] [DecidableEq F] in
/-- Only the claims about inputs are at the point that is handed over. -/
theorem commitmentClaims_eq_ok {evals : LookupEvaluations F} {inputPoint : List F}
    (h : commitmentClaims lookupOp unpaddedInputShape proof verified evals inputPoint =
      .ok claims) :
    ∃ rest, claims = evals.inputCommitmentEvals.map (fun eval => ⟨inputPoint, eval⟩) ++ rest ∧
      ∀ point, commitmentClaims lookupOp unpaddedInputShape proof verified evals point =
        .ok (evals.inputCommitmentEvals.map (fun eval => ⟨point, eval⟩) ++ rest) := by
  simp only [commitmentClaims, Outcome.bind_eq_ok] at h
  obtain ⟨finalDim, hfinalDim, norm, hnorm, shift, hshift, hclaims⟩ := h
  refine ⟨evals.outputCommitmentEvals.map (fun eval => ⟨verified.sumcheckPoint, eval⟩) ++
    (norm ++ shift), ?_, fun point => ?_⟩
  · rw [← Except.ok.inj hclaims, List.append_assoc, List.append_assoc]
  · simp only [commitmentClaims, hfinalDim, hnorm, hshift, Outcome.ok_bind, List.append_assoc]

/-- The claims of an accepted run are at verified points exactly if the point that the prover has
    written into the LogUp proof is the verified one. -/
theorem verifyLookupOp_claimsVerified_iff
    (h : verifyLookupOp U fl lookupOp lastClaim unpaddedInputShape table proof verifier nodeId =
      .ok (result, verifier')) :
    ClaimsVerified U fl lookupOp lastClaim unpaddedInputShape table proof verifier nodeId result
        verifier' ↔
      RawPointVerified U fl lookupOp lastClaim unpaddedInputShape table proof verifier := by
  obtain ⟨verified, transcript, stored, evals, rawPoint, claims, witnessClaims, hverified, hevals,
    hraw, hclaims, hinput, hzip, hrecorded⟩ := verifyLookupOp_eq_ok h
  obtain ⟨rest, hrest, hallPoints⟩ := commitmentClaims_eq_ok hclaims
  have hnil := inputCommitmentEvals_eq_nil_iff hverified hevals
  constructor
  · rintro ⟨verified', transcript', stored', evals', claims', witnessClaims', hverified', hevals',
      hclaims', hinput', hzip', hrecorded'⟩
    -- both runs have the same verified data and the same record
    obtain ⟨rfl, _⟩ := Prod.mk.inj (Except.ok.inj (hverified.symm.trans hverified'))
    obtain rfl := Except.ok.inj (hevals.symm.trans hevals')
    obtain rfl := addWitnessClaim_inj (hrecorded.symm.trans hrecorded')
    refine ⟨verified, transcript, stored, rawPoint, hverified, hraw, ?_⟩
    have hsame := zipCommitments_inj hzip hzip'
    rw [hallPoints] at hclaims'
    rw [hrest, ← Except.ok.inj hclaims'] at hsame
    cases hempty : evals.inputCommitmentEvals with
    | cons eval inputEvals =>
      left
      rw [hempty] at hsame
      exact congrArg Claim.point (List.cons.inj hsame).1
    | nil =>
      right
      refine ⟨hnil.mp hempty, fun hreads => ?_⟩
      obtain ⟨point, hpoint, hhead⟩ := completePoint_of_produceInputClaims hreads hinput
      obtain ⟨point', hpoint', hhead'⟩ := completePoint_of_produceInputClaims hreads hinput'
      rw [hpoint, hpoint', Option.some.inj (hhead.symm.trans hhead')]
  · rintro ⟨verified', transcript', stored', rawPoint', hverified', hraw', hsame⟩
    obtain ⟨rfl, _⟩ := Prod.mk.inj (Except.ok.inj (hverified.symm.trans hverified'))
    obtain rfl := Except.ok.inj (hraw.symm.trans hraw')
    refine ⟨verified, transcript, stored, evals, claims, witnessClaims, hverified, hevals, ?_, ?_,
      hzip, hrecorded⟩
    · rcases hsame with rfl | ⟨hzero, _⟩
      · exact hclaims
      · rw [hallPoints, hrest, hnil.mpr hzero]
        rfl
    · rcases hsame with rfl | ⟨_, hpoints⟩
      · exact hinput
      · rw [← produceInputClaims_congr hpoints]
        exact hinput

end Verify

/-! ## A layer of four values -/

section FourSigns

/-- The signs of four values. -/
def fourSignsOp : LookupOp where
  rightShift := 1
  fixedPointMultiplier := 1
  maxBitSize := 2
  valueChunks := 1
  paddingValue := 0
  variant := .standard

def fourSignsTable : Table := Table.newRequantise 1

def fourSignsChallenges : ChallengeStorage (ZMod 5) :=
  ⟨3, ((∅ : HashMap String (ZMod 5)).insert (Table.newShiftCheck.name noFloats) 1).insert
    (fourSignsTable.name noFloats) 1⟩

/-- An accepted proof, with the given point in its first LogUp claim. -/
def fourSignsProof (point : List (ZMod 5)) : GenericLookupProof constantCrypto Unit where
  logupProof :=
    { sumcheckProofs := [[fun _ => 0]]
      roundEvaluations := [[1, 1, 1, 1]]
      outputClaims := [⟨point, 1⟩, ⟨[3, 3], 1⟩]
      circuitOutputs := [[2, 2, 1, 1], [2, 2, 1, 1]] }
  sumcheckProof := [fun _ => 0, fun x => x ^ 2 - x]
  evaluations := [1]
  weightEvaluation := none
  shiftEvaluations := none
  commitments := [⟨[()], 2⟩, ⟨[()], 2⟩]

def fourSignsVerifier : Verifier constantCrypto Unit := ⟨.default, [], fourSignsChallenges, ∅⟩

abbrev plainUtil : SumcheckUtil constantCrypto := ⟨fun _ => 3, fun point =>
  (List.range (2 ^ point.length)).map (Multilinear.eqWeight point)⟩

def fourSignsInfo : ChunkingInfo where
  valueChunkSize := 1
  numberOfValueChunks := 1
  rightShift := 1
  offset := 2
  valueChunkOffset := 1
  numberOfShiftedChunks := 1
  numberOfZeroingChunks := 0
  isSigned := true
  shiftedChunkMultiplier := 2 ^ 15
  topZeroingChunkOffset := 0
  table := fourSignsTable

def fourSignsConfig : LookupInputConfig := ⟨fourSignsInfo, .standard, [4]⟩

def fourSignsVerified : VerifiedLookup (ZMod 5) where
  inputConfig := fourSignsConfig
  logupClaim := ⟨0, [⟨[3, 3], 1⟩, ⟨[3, 3], 1⟩], [3, 3], [1, 1], [4, 4], [1, 1]⟩
  shiftEvals := none
  batchingChallenges := [3, 1]
  sumcheckPoint := [3, 3]

theorem fourSigns_instances :
    fourSignsConfig.createLogupVerifierInstances noFloats fourSignsChallenges =
      .ok [⟨3, 1, 1, .lookup, 1⟩, ⟨3, 1, 1, .lookup, 1⟩] := by
  have hname : ∀ name ∈ [Table.newShiftCheck.name noFloats, fourSignsTable.name noFloats],
      fourSignsChallenges.getChallengesByName name = some (3, 1) := by
    intro name hname
    have hget : fourSignsChallenges.challengeMap[name]? = some 1 := by
      rw [fourSignsChallenges, Std.ExtTreeMap.getElem?_insert, Std.ExtTreeMap.getElem?_insert]
      rcases List.mem_pair.mp hname with rfl | rfl
      · split <;> simp
      · simp
    rw [ChallengeStorage.getChallengesByName, hget]
    rfl
  have hshift : LookupInputConfig.challengesOf noFloats fourSignsChallenges Table.newShiftCheck
      "ShiftCheckTable" = .ok (3, 1) := by
    rw [LookupInputConfig.challengesOf, hname _ (by simp)]
    rfl
  have hvalue : LookupInputConfig.challengesOf noFloats fourSignsChallenges
      fourSignsConfig.chunkingInfo.table "ValueTable" = .ok (3, 1) := by
    rw [LookupInputConfig.challengesOf, hname _ (by simp [fourSignsConfig, fourSignsInfo])]
    rfl
  simp only [LookupInputConfig.createLogupVerifierInstances, hshift, hvalue]
  rfl

/-- Fractions without zero denominators are added to what is stored. -/
theorem chargeTable_ok {F : Type} [Field F] [DecidableEq F] {fl : Float32Ops} {table : Table}
    {msg : String} {numerators denominators : List F} (h : ∀ den ∈ denominators, den ≠ 0)
    (stored : NumeratorsAndDenominators F) :
    ∃ stored', LookupInputConfig.chargeTable fl stored table msg numerators denominators =
      .ok stored' := by
  have hfold : ∀ (fractions : List (F × F)) (acc : F × F), (∀ fraction ∈ fractions, fraction.2 ≠ 0) →
      ∃ total, fractions.foldlM (LookupInputConfig.addFraction msg) acc = .ok total := by
    intro fractions
    induction fractions with
    | nil => exact fun acc _ => ⟨acc, rfl⟩
    | cons fraction fractions ih =>
      intro acc hne
      obtain ⟨hfraction, hrest⟩ := List.forall_mem_cons.mp hne
      have hstep : LookupInputConfig.addFraction msg acc fraction = .ok
          (fraction.1 * acc.2 + acc.1 * fraction.2, acc.2 * fraction.2) := by
        unfold LookupInputConfig.addFraction
        rw [bne_iff_ne.mpr hfraction]
        rfl
      rw [List.foldlM_cons, hstep]
      exact ih _ hrest
  obtain ⟨total, htotal⟩ := hfold (numerators.zip denominators)
    ((stored[table.name fl]?).getD (0, 1))
    fun fraction hfraction => h _ (List.of_mem_zip hfraction).2
  refine ⟨stored.insert (table.name fl) total, ?_⟩
  rw [LookupInputConfig.chargeTable, htotal]
  rfl

/-- The fractions of the layer are stored. -/
theorem fourSigns_fractions (point : List (ZMod 5)) : ∃ stored,
    fourSignsConfig.sortFractionalOutputs noFloats ∅ (fourSignsProof point).logupProof =
      .ok stored := by
  have hne : ∀ den ∈ [(1 : ZMod 5)], den ≠ 0 := by decide
  obtain ⟨shifted, hshifted⟩ := @chargeTable_ok _ _ _ noFloats Table.newShiftCheck
    "Denominator was zero in shift check lookup!" [(4 : ZMod 5)] _ hne ∅
  obtain ⟨value, hvalue⟩ := @chargeTable_ok _ _ _ noFloats fourSignsTable
    "Denominator was zero in value lookup!" [(4 : ZMod 5)] _ hne shifted
  obtain ⟨norm, hnorm⟩ := @chargeTable_ok (ZMod 5) _ _ noFloats Table.newShiftCheck
    "Denominator was zero in normalisation shift check lookup!" [] [] (by simp) value
  have hchunk : fourSignsConfig.chargeChunk noFloats ∅ ([(4 : ZMod 5), 4], [1, 1]) = .ok value := by
    show (do
      let stored ← LookupInputConfig.chargeTable noFloats ∅ Table.newShiftCheck
        "Denominator was zero in shift check lookup!" [(4 : ZMod 5)] [1]
      let stored ← LookupInputConfig.chargeTable noFloats stored fourSignsTable
        "Denominator was zero in value lookup!" [(4 : ZMod 5)] [1]
      .ok stored) = Except.ok value
    rw [hshifted, Outcome.ok_bind, hvalue]
    rfl
  refine ⟨norm, ?_⟩
  show (do
    let stored ← fourSignsConfig.chargeChunk noFloats ∅ ([(4 : ZMod 5), 4], [1, 1])
    LookupInputConfig.chargeTable noFloats stored Table.newShiftCheck
      "Denominator was zero in normalisation shift check lookup!" [] []) = Except.ok norm
  rw [hchunk, Outcome.ok_bind, hnorm]

abbrev fourSignsInstances : List (LogUpVerifierInstance (ZMod 5)) :=
  [⟨3, 1, 1, .lookup, 1⟩, ⟨3, 1, 1, .lookup, 1⟩]

/-- The LogUp argument has one round, and the point in the proof is not read. -/
theorem fourSigns_logup (point : List (ZMod 5)) :
    newVerifyLogupProofMultipleSizes constantCrypto (fourSignsProof point).logupProof
      fourSignsInstances [] =
        .ok (fourSignsVerified.logupClaim, [2, 2, 2, 1, 1, 2, 2, 1, 1, 3, 3, 3, 0, 0, 0, 3]) := by
  have hinit : initialRoundState constantCrypto (fourSignsProof point).logupProof
      fourSignsInstances [] = ⟨[2, 2, 2, 1, 1, 2, 2, 1, 1, 3, 3, 3], 3, 3, 3, [3]⟩ := by rfl
  have hround : verifyRound constantCrypto (fourSignsProof point).logupProof fourSignsInstances
      ⟨[2, 2, 2, 1, 1, 2, 2, 1, 1, 3, 3, 3], 3, 3, 3, [3]⟩ (([fun _ => 0], [1, 1, 1, 1]), 0) =
        .ok ⟨[2, 2, 2, 1, 1, 2, 2, 1, 1, 3, 3, 3, 0, 0, 0, 3], 3, 3, 3, [3, 3]⟩ := by rfl
  have hrounds : (fourSignsProof point).logupProof.proofsAndEvals.zipIdx =
      [(([fun _ => 0], [1, 1, 1, 1]), 0)] := by rfl
  unfold newVerifyLogupProofMultipleSizes
  rw [hrounds, hinit, List.foldlM_cons, hround]
  rfl

def fourSignsTranscript : List (ZMod 5) :=
  [2, 2, 2, 1, 1, 2, 2, 1, 1, 3, 3, 3, 0, 0, 0, 3, 3, 0, 0, 0, 0]

theorem fourSigns_verifyArguments (point : List (ZMod 5)) : ∃ stored,
    verifyArguments plainUtil noFloats fourSignsOp ⟨[2, 2], 2⟩ [4] fourSignsTable
      (fourSignsProof point) fourSignsVerifier =
        .ok (fourSignsVerified, fourSignsTranscript, stored) := by
  obtain ⟨stored, hstored⟩ := fourSigns_fractions point
  have hinfo : fourSignsOp.chunkingInfo fourSignsTable = .ok fourSignsInfo := by decide
  have hconfig : fourSignsOp.inputConfig fourSignsInfo [4] = fourSignsConfig := rfl
  have hstored' : fourSignsConfig.sortFractionalOutputs noFloats
      fourSignsVerifier.numeratorsAndDenominators (fourSignsProof point).logupProof = .ok stored :=
    hstored
  have hinstances : fourSignsConfig.createLogupVerifierInstances noFloats
      fourSignsVerifier.challengeStorage = .ok fourSignsInstances := fourSigns_instances
  have hlogup : newVerifyLogupProofMultipleSizes constantCrypto (fourSignsProof point).logupProof
      fourSignsInstances fourSignsVerifier.transcript = _ := fourSigns_logup point
  refine ⟨stored, ?_⟩
  unfold verifyArguments
  rw [hinfo]
  simp only [Outcome.ok_bind]
  rw [hconfig, hstored', hinstances, Outcome.ok_bind, Outcome.ok_bind, hlogup]
  rfl

theorem fourSigns_combine : fourSignsInfo.combineInputClaims [(1 : ZMod 5)] [1] [] = .ok 4 := by
  have hinv : ((2 ^ 15 : Int) : ZMod 5)⁻¹ = 2 := inv_eq_of_mul_eq_one_right (by decide)
  have hshifted : fourSignsInfo.combineShifted (0 : ZMod 5) (1, 0) = .ok 2 := by
    show Except.ok ((0 : ZMod 5) + 1 * ((2 ^ 15 : Int) : ZMod 5)⁻¹ * 2 ^ (0 * 16)) = _
    rw [hinv]
    rfl
  have hfold : [(1 : ZMod 5)].zipIdx.foldlM fourSignsInfo.combineShifted 0 = .ok 2 := by
    show [((1 : ZMod 5), 0)].foldlM fourSignsInfo.combineShifted 0 = _
    rw [List.foldlM_cons, hshifted]
    rfl
  unfold ChunkingInfo.combineInputClaims
  rw [hfold]
  rfl

theorem fourSigns_lookupEvaluations (point : List (ZMod 5)) :
    lookupEvaluations (fourSignsProof point) fourSignsVerified = .ok ⟨[1], [1], [], [4]⟩ := by
  show (do
    let combined ← fourSignsInfo.combineInputClaims [(1 : ZMod 5)] [1] []
    let inputClaimEvals ← addToEval [(0 : ZMod 5)] 0 (combined * 1)
    .ok (⟨[1], [1], [], inputClaimEvals⟩ : LookupEvaluations (ZMod 5))) = _
  rw [fourSigns_combine]
  rfl

theorem fourSigns_inputClaims (a b : ZMod 5) :
    fourSignsOp.variant.produceInputClaims [4] fourSignsOp [2, 2] [a, b] [3, 3] [4] =
      .ok [⟨[a, b], 3⟩] := by
  have hinv : ChunkingInfo.inverseOf ((fourSignsOp.fixedPointMultiplier : Int) : ZMod 5)
      "Tried to invert 0 as fixed point multiplier" = .ok 1 := by
    show Except.ok ((1 : Int) : ZMod 5)⁻¹ = _
    rw [Int.cast_one, inv_one]
  have hclaim : LookupVariant.inputEvalOf [4] fourSignsOp [2, 2] [a, b] (4 : ZMod 5) =
      .ok ⟨[a, b], 3⟩ := by
    unfold LookupVariant.inputEvalOf
    rw [hinv]
    rfl
  show (do
    let firstClaim ← LookupVariant.inputEvalOf [4] fourSignsOp [2, 2] [a, b] (4 : ZMod 5)
    let secondPoint ← LookupVariant.completePoint [3, 3] [2, 2]
    .ok (firstClaim :: [].map fun eval => ⟨secondPoint, eval⟩)) = _
  rw [hclaim]
  rfl

/-- The claims of the accepted proof, for any point of two coordinates that it carries. -/
theorem fourSigns_verified (a b : ZMod 5) : ∃ stored,
    verifyLookupOp plainUtil noFloats fourSignsOp ⟨[2, 2], 2⟩ [4] fourSignsTable
      (fourSignsProof [a, b]) fourSignsVerifier 7 =
        .ok (⟨[⟨[a, b], 3⟩], none⟩,
          ⟨CommitmentVerifier.default.addWitnessClaim 7
              [⟨⟨[()], 2⟩, [⟨[a, b], 1⟩]⟩, ⟨⟨[()], 2⟩, [⟨[3, 3], 1⟩]⟩],
            fourSignsTranscript, fourSignsChallenges, stored⟩) := by
  obtain ⟨stored, hverified⟩ := fourSigns_verifyArguments [a, b]
  refine ⟨stored, ?_⟩
  have hraw : (fourSignsProof [a, b]).logupProof.point = .ok [a, b] := rfl
  have hinput : fourSignsOp.variant.produceInputClaims [4] fourSignsOp [2, 2] [a, b]
      fourSignsVerified.sumcheckPoint [4] = _ := fourSigns_inputClaims a b
  have hclaims : commitmentClaims fourSignsOp [4] (fourSignsProof [a, b]) fourSignsVerified
      ⟨[1], [1], [], [4]⟩ [a, b] = .ok [⟨[a, b], 1⟩, ⟨[3, 3], 1⟩] := rfl
  unfold verifyLookupOp
  simp only [hverified, fourSigns_lookupEvaluations, hraw, hclaims, hinput, Outcome.ok_bind]
  rfl

/-- The honest point is the verified one. -/
theorem fourSigns_claimsVerified : ∃ result verifier',
    verifyLookupOp plainUtil noFloats fourSignsOp ⟨[2, 2], 2⟩ [4] fourSignsTable
      (fourSignsProof [3, 3]) fourSignsVerifier 7 = .ok (result, verifier') ∧
    ClaimsVerified plainUtil noFloats fourSignsOp ⟨[2, 2], 2⟩ [4] fourSignsTable
      (fourSignsProof [3, 3]) fourSignsVerifier 7 result verifier' := by
  obtain ⟨stored, h⟩ := fourSigns_verified 3 3
  obtain ⟨stored', harguments⟩ := fourSigns_verifyArguments [3, 3]
  exact ⟨_, _, h, (verifyLookupOp_claimsVerified_iff h).mpr
    ⟨_, _, _, _, harguments, rfl, .inl rfl⟩⟩

/-- The point `[0, 0]` is not verified by anything, and it is accepted and recorded. -/
theorem fourSigns_claims_not_verified :
    (∃ result verifier',
      verifyLookupOp plainUtil noFloats fourSignsOp ⟨[2, 2], 2⟩ [4] fourSignsTable
        (fourSignsProof [0, 0]) fourSignsVerifier 7 = .ok (result, verifier') ∧
      ¬ ClaimsVerified plainUtil noFloats fourSignsOp ⟨[2, 2], 2⟩ [4] fourSignsTable
        (fourSignsProof [0, 0]) fourSignsVerifier 7 result verifier') ∧
    ∃ proof : GenericLookupProof constantCrypto Unit, ∃ point result verifier' result' verifier'',
      verifyLookupOp plainUtil noFloats fourSignsOp ⟨[2, 2], 2⟩ [4] fourSignsTable proof
        fourSignsVerifier 7 = .ok (result, verifier') ∧
      verifyLookupOp plainUtil noFloats fourSignsOp ⟨[2, 2], 2⟩ [4] fourSignsTable
        { proof with logupProof := proof.logupProof.withPoint point } fourSignsVerifier 7 =
          .ok (result', verifier'') ∧
      verifier'.commitVerifier ≠ verifier''.commitVerifier ∧
      result.inputClaims ≠ result'.inputClaims := by
  obtain ⟨stored, h⟩ := fourSigns_verified 3 3
  obtain ⟨stored', h'⟩ := fourSigns_verified 0 0
  have hne : ([3, 3] : List (ZMod 5)) ≠ [0, 0] := by decide
  refine ⟨⟨_, _, h', ?_⟩, fourSignsProof [3, 3], [0, 0], _, _, _, _, h, h', ?_, ?_⟩
  · rintro ⟨verified, transcript, stored'', evals, claims, witnessClaims, hverified, hevals, _,
      hinput, _⟩
    -- a verified run has the point `[3, 3]` in its first input claim
    obtain ⟨_, harguments⟩ := fourSigns_verifyArguments [0, 0]
    obtain ⟨rfl, _⟩ := Prod.mk.inj (Except.ok.inj (harguments.symm.trans hverified))
    obtain rfl := Except.ok.inj ((fourSigns_lookupEvaluations [0, 0]).symm.trans hevals)
    have hpoints := Except.ok.inj ((fourSigns_inputClaims 3 3).symm.trans hinput)
    exact hne (congrArg Claim.point (List.cons.inj hpoints).1)
  · intro hsame
    have hclaims := (List.cons.inj (addWitnessClaim_inj hsame)).1
    exact hne (congrArg Claim.point (List.cons.inj (congrArg VerifierClaim.claims hclaims)).1)
  · intro hsame
    exact hne (congrArg Claim.point (List.cons.inj hsame).1)

end FourSigns
end DeepProve
