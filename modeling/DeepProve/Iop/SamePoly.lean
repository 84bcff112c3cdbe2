import DeepProve.Iop.Transcript

/-!
# Merging claims about one polynomial

`iop/same_poly.rs`, and `MergeClaimNodeProof` of `iop/prover.rs`. The claims are combined with
challenges that are drawn from the transcript as it is; the claims themselves are not appended to
it. The sumcheck leaves one value of the polynomial, which the proof gives and the verifier checks
against a multiple of it.
-/

namespace DeepProve

variable {F C : Type} [Field F] [DecidableEq F] (D : DpCrypto F)

/-- `same_poly::Proof`. -/
structure SamePolyProof where
  sumcheck : D.IOPProof
  eval : F

/-- `MergeClaimNodeProof`, with what the verifier reads of it. -/
structure MergeClaimNodeProof where
  proof : SamePolyProof D
  numVars : Nat

/-- `aggregated_rlc`. -/
def aggregatedRlc (claims challenges : List F) : Outcome F := do
  ensure (claims.length == challenges.length)
    s!"claims length not equal to challenges length {claims.length} != {challenges.length}"
  .ok ((claims.zip challenges).foldl (fun acc (claim, r) => acc + claim * r) 0)

/-- `computed_y`: what the value of the polynomial at the point is multiplied with. -/
def computedY (challenges : List F) (claims : List (Claim F)) (point : List F) : F :=
  (challenges.zip claims).foldl (fun acc (a, claim) => acc + a * identityEval claim.point point) 0

/-- `same_poly::Context::new`, the shape of the sumcheck. -/
def samePolyContext (numVars : Nat) : VPAuxInfo := fromMleListDimensions [[numVars, numVars]]

@[simp] theorem samePolyContext_maxNumVariables (numVars : Nat) :
    (samePolyContext numVars).maxNumVariables = numVars := by
  simp [samePolyContext, fromMleListDimensions]

variable {D}

/-- `same_poly::Verifier::verify`. -/
def SamePolyProof.verify (proof : SamePolyProof D) (aux : VPAuxInfo) (claims : List (Claim F))
    (transcript : D.Transcript) : Outcome (Claim F × D.Transcript) := do
  let (challenges, transcript) := readChallenges D transcript claims.length
  let claimedSum ← aggregatedRlc (claims.map Claim.eval) challenges
  let (subclaim, transcript) ← D.verifySumcheck claimedSum proof.sumcheck aux transcript
  ensure (proof.eval * computedY challenges claims subclaim.point == subclaim.expectedEvaluation)
    "Same Poly verification failed"
  .ok (⟨subclaim.point, proof.eval⟩, transcript)

namespace MergeClaimNodeProof

/-- The check of `add_claim`. -/
def addClaim (numVars : Nat) (claim : Claim F) : Outcome Unit :=
  ensure (claim.point.length == numVars)
    s!"invalid input len wrt to poly in ctx, claim point length: {claim.point.length}, expected point length: {numVars}"

/-- `verify_proof`. -/
def verifyProof (self : MergeClaimNodeProof D) (claims : List (Claim F)) (transcript : D.Transcript) :
    Outcome (Claim F × D.Transcript) := do
  forM claims (addClaim (samePolyContext self.numVars).maxNumVariables)
  self.proof.verify (samePolyContext self.numVars) claims transcript

end MergeClaimNodeProof

/-- The transcript from which the sumcheck of a merging starts. -/
def mergeStart (D : DpCrypto F) (claims : List (Claim F)) (transcript : D.Transcript) : D.Transcript :=
  (readChallenges D transcript claims.length).2

/-- The sum that a merging claims. -/
def mergeSum (D : DpCrypto F) (claims : List (Claim F)) (transcript : D.Transcript) : F :=
  ((claims.map Claim.eval).zip (readChallenges D transcript claims.length).1).foldl
    (fun acc (claim, r) => acc + claim * r) 0

/-- The multiple against which a merging checks the value of the polynomial. -/
def mergeWeight (D : DpCrypto F) (claims : List (Claim F)) (transcript : D.Transcript)
    (point : List F) : F :=
  computedY (readChallenges D transcript claims.length).1 claims point

namespace MergeClaimNodeProof

variable {self : MergeClaimNodeProof D} {claims : List (Claim F)} {transcript transcript' : D.Transcript}
  {merged : Claim F}

/-- When a merging is accepted. -/
theorem verifyProof_eq_ok :
    self.verifyProof claims transcript = .ok (merged, transcript') ↔
      (∀ claim ∈ claims, claim.point.length = self.numVars) ∧
      ∃ subclaim, D.verifySumcheck (mergeSum D claims transcript) self.proof.sumcheck
          (samePolyContext self.numVars) (mergeStart D claims transcript) =
            .ok (subclaim, transcript') ∧
        self.proof.eval * mergeWeight D claims transcript subclaim.point =
          subclaim.expectedEvaluation ∧
        merged = ⟨subclaim.point, self.proof.eval⟩ := by
  have hchecks : forM claims (addClaim (samePolyContext self.numVars).maxNumVariables) = .ok () ↔
      ∀ claim ∈ claims, claim.point.length = self.numVars := by
    rw [Outcome.forM_eq_ok]
    simp [addClaim, ensure_eq_ok]
  have hlen : ((claims.map Claim.eval).length ==
      (readChallenges D transcript claims.length).1.length) = true := by
    rw [TranscriptLog.length_readChallenges, List.length_map, beq_self_eq_true]
  rw [verifyProof, Outcome.bind_eq_ok, ← hchecks]
  simp only [SamePolyProof.verify, aggregatedRlc, hlen, ensure_true, Outcome.ok_bind,
    Outcome.bind_eq_ok, ensure_eq_ok, beq_iff_eq]
  constructor
  · intro ⟨_, hall, ⟨subclaim, after⟩, hsumcheck, _, heval, hmerged⟩
    obtain ⟨rfl, rfl⟩ := Prod.mk.inj (Except.ok.inj hmerged)
    exact ⟨hall, subclaim, hsumcheck, heval, rfl⟩
  · intro ⟨hall, subclaim, hsumcheck, heval, hmerged⟩
    exact ⟨(), hall, (subclaim, transcript'), hsumcheck, (), heval, by rw [hmerged]⟩

theorem verifyProof_extends {A : Appender D C} (T : TranscriptLog D A)
    (h : self.verifyProof claims transcript = .ok (merged, transcript')) :
    T.Extends transcript transcript' := by
  obtain ⟨-, subclaim, hsumcheck, -, -⟩ := verifyProof_eq_ok.mp h
  have hsum : T.Extends (mergeStart D claims transcript) transcript' :=
    (T.sumcheckAppends _ _ _ _ _ _ hsumcheck).1
  exact (TranscriptLog.readChallenges_extends transcript claims.length).trans hsum

end MergeClaimNodeProof

/-! ## Two mergings of one transcript -/

/-- The claims are about as many variables. -/
def SameShape (claims₁ claims₂ : List (Claim F)) : Prop :=
  List.Forall₂ (fun c₁ c₂ : Claim F => c₁.point.length = c₂.point.length) claims₁ claims₂

namespace MergeClaimNodeProof

variable {A : Appender D C} (T : TranscriptLog D A) {proof₁ proof₂ : MergeClaimNodeProof D}
  {claims₁ claims₂ : List (Claim F)}
  {transcript transcript₁ transcript₂ : D.Transcript} {whole : List (Entry F C)} {merged₁ merged₂ : Claim F}

/-- Two mergings of claims of one shape that start from one transcript and do not part on it end
    with one transcript, and with claims about one point. -/
theorem verifyProof_delimited (hne : claims₁ ≠ [])
    (hshape : SameShape claims₁ claims₂)
    (h₁ : proof₁.verifyProof claims₁ transcript = .ok (merged₁, transcript₁))
    (h₂ : proof₂.verifyProof claims₂ transcript = .ok (merged₂, transcript₂))
    (hw₁ : T.log transcript₁ <+: whole) (hw₂ : T.log transcript₂ <+: whole) :
    transcript₁ = transcript₂ ∧ merged₁.point = merged₂.point := by
  obtain ⟨hall₁, subclaim₁, hsumcheck₁, -, rfl⟩ := verifyProof_eq_ok.mp h₁
  obtain ⟨hall₂, subclaim₂, hsumcheck₂, -, rfl⟩ := verifyProof_eq_ok.mp h₂
  have hnumVars : proof₁.numVars = proof₂.numVars := by
    cases hshape with
    | nil => exact absurd rfl hne
    | cons hlen _ =>
      rw [← hall₁ _ List.mem_cons_self, ← hall₂ _ List.mem_cons_self, hlen]
  have hstart : mergeStart D claims₁ transcript = mergeStart D claims₂ transcript := by
    rw [mergeStart, mergeStart, hshape.length_eq]
  rw [hnumVars, hstart] at hsumcheck₁
  obtain ⟨heq, hpoint, -⟩ := T.sumcheckDelimited _ _ _ _ _ _ _ _ _ _ _ hsumcheck₁ hsumcheck₂ hw₁ hw₂
  exact ⟨heq, hpoint⟩

/-- Two mergings of the same claims end with the same claim, unless the value of the polynomial is
    checked against zero. -/
theorem verifyProof_binds {claims : List (Claim F)} (hne : claims ≠ [])
    (h₁ : proof₁.verifyProof claims transcript = .ok (merged₁, transcript₁))
    (h₂ : proof₂.verifyProof claims transcript = .ok (merged₂, transcript₂))
    (hw₁ : T.log transcript₁ <+: whole) (hw₂ : T.log transcript₂ <+: whole)
    (hweight : mergeWeight D claims transcript merged₁.point ≠ 0) :
    transcript₁ = transcript₂ ∧ merged₁ = merged₂ := by
  have hshape : SameShape claims claims := List.forall₂_same.mpr fun _ _ => rfl
  obtain ⟨heq, hpoint⟩ := verifyProof_delimited T hne hshape h₁ h₂ hw₁ hw₂
  obtain ⟨hall₁, subclaim₁, hsumcheck₁, heval₁, rfl⟩ := verifyProof_eq_ok.mp h₁
  obtain ⟨hall₂, subclaim₂, hsumcheck₂, heval₂, rfl⟩ := verifyProof_eq_ok.mp h₂
  obtain ⟨claim, hclaim⟩ := List.exists_mem_of_ne_nil claims hne
  rw [← hall₁ claim hclaim] at hsumcheck₁
  rw [← hall₂ claim hclaim] at hsumcheck₂
  obtain ⟨-, -, hexpected⟩ := T.sumcheckDelimited _ _ _ _ _ _ _ _ _ _ _ hsumcheck₁ hsumcheck₂ hw₁ hw₂
  -- both values are checked against the same multiple of the same number
  have hproduct : proof₁.proof.eval * mergeWeight D claims transcript subclaim₁.point =
      proof₂.proof.eval * mergeWeight D claims transcript subclaim₁.point := by
    rw [heval₁, hexpected rfl, ← heval₂, show subclaim₁.point = subclaim₂.point from hpoint]
  have heval : proof₁.proof.eval = proof₂.proof.eval := mul_right_cancel₀ hweight hproduct
  refine ⟨heq, ?_⟩
  rw [heval, show subclaim₁.point = subclaim₂.point from hpoint]

end MergeClaimNodeProof

end DeepProve
