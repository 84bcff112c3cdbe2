import DeepProve.PolyCommit.Basic
import DeepProve.Graph.Basic

/-!
# The commitment verifier

`poly_commit/verifier.rs`: claims about the polynomials of the model and about
witness polynomials are added one by one; `verify` folds all of them into one
sumcheck and opens the committed chunks at the point of that sumcheck.
-/

namespace DeepProve

/-- A commitment to a polynomial, as the verifier sees it. -/
structure VerifierCommitment (C : Type) where
  chunkCommitments : List C
  numVars : Nat
  deriving DecidableEq, Repr

instance {C : Type} : ChunkedCommitment (VerifierCommitment C) where
  numChunks c := c.chunkCommitments.length
  numVars c := c.numVars

/-- The claims about one committed polynomial. -/
structure VerifierClaim (F C : Type) where
  commitment : VerifierCommitment C
  claims : List (Claim F)

/-- For each polynomial of the model, at most one claim for each node. -/
abbrev ModelClaims (F : Type) := HashMap CommitmentId (BTreeMap NodeId (Claim F))

structure CommitmentVerifier (F C : Type) where
  modelClaims : ModelClaims F
  witnessClaims : BTreeMap NodeId (List (VerifierClaim F C))

structure CommitmentVerifierCtx (C Setup : Type) where
  verifierParams : Setup
  modelCommitments : BTreeMap CommitmentId (VerifierCommitment C)

structure OpeningProof {F : Type} (D : DpCrypto F) (PcsProof : Type) where
  sumcheckProof : D.IOPProof
  sumcheckEvals : List F
  pcsProof : PcsProof

/-- What the verifier keeps of the sumcheck. -/
structure ClaimsBatchingVerifier (F C : Type) where
  point : List F
  commitments : List C

namespace CommitmentVerifier

section AddClaims

variable {F C : Type}

/-- `CommitmentVerifier::default`. -/
def default : CommitmentVerifier F C := ⟨∅, ∅⟩

def addWitnessClaim (self : CommitmentVerifier F C) (nodeId : NodeId)
    (claims : List (VerifierClaim F C)) : CommitmentVerifier F C :=
  { self with witnessClaims := self.witnessClaims.insert nodeId claims }

/-- `self.model_claims.entry(poly_id).or_default()`. -/
def modelEntry (self : CommitmentVerifier F C) (polyId : CommitmentId) :
    BTreeMap NodeId (Claim F) :=
  (self.modelClaims[polyId]?).getD ∅

/-- Insert a claim about a polynomial of the model; there may not be one yet for
    the node. -/
def insertModelClaim (polyClaims : BTreeMap NodeId (Claim F)) (entry : NodeId × Claim F) :
    Outcome (BTreeMap NodeId (Claim F)) :=
  if polyClaims[entry.1]? = none then
    .ok (polyClaims.insert entry.1 entry.2)
  else
    .error (.panic "assertion failed: poly_claims.insert(node_id, claim).is_none()")

/-- The claims of one polynomial, in `add_common_claims`. -/
def addPolyClaims (self : CommitmentVerifier F C)
    (entry : CommitmentId × List (NodeId × Claim F)) : Outcome (CommitmentVerifier F C) := do
  let polyClaims ← entry.2.foldlM insertModelClaim (self.modelEntry entry.1)
  .ok { self with modelClaims := self.modelClaims.insert entry.1 polyClaims }

/-- The claims are the entries of two levels of hash maps, in the order in which
    those yield them. -/
def addCommonClaims (self : CommitmentVerifier F C)
    (claims : List (CommitmentId × List (NodeId × Claim F))) : Outcome (CommitmentVerifier F C) :=
  claims.foldlM addPolyClaims self

/-- Of the table only the name is used. -/
def addTableClaim (self : CommitmentVerifier F C) (tableNodeId : NodeId) (tableName : String)
    (claim : Claim F) : Outcome (CommitmentVerifier F C) :=
  self.addPolyClaims (tablePolyId tableName, [(tableNodeId, claim)])

end AddClaims

variable {F : Type} [CommRing F] [DecidableEq F] (D : DpCrypto F)

/-- What the two loops over the claims accumulate. -/
structure Batch {F : Type} (D : DpCrypto F) (C : Type) where
  transcript : D.Transcript
  eqPoints : List (List F)
  evals : List F
  commitments : List C
  maxNumVars : Nat
  batchingCoefficientsPerPoly : List (ChunkedCommittedPolyInfo F)

variable {C : Type}

/-- Take in one claim about the polynomial `comm`, and compute the coefficients
    of the chunks. -/
def batchClaim (comm : VerifierCommitment C) (acc : Batch D C × List (List F)) (claim : Claim F) :
    Outcome (Batch D C × List (List F)) := do
  let (batch, coeffs) := acc
  let eqPoint ← ChunkedCommitment.eqPointPerChunk D comm claim.point
  let chunkCoeffs ← ChunkedCommitment.batchingCoefficientsForChunks D comm claim.point
  .ok ({ batch with
          transcript := D.appendScalars batch.transcript [claim.eval]
          eqPoints := batch.eqPoints ++ [eqPoint]
          evals := batch.evals ++ [claim.eval] },
        coeffs ++ [chunkCoeffs])

/-- Take in the claims about one polynomial. -/
def batchPoly (batch : Batch D C) (poly : VerifierClaim F C) : Outcome (Batch D C) := do
  let (batch, coeffs) ← poly.claims.foldlM (batchClaim D poly.commitment) (batch, [])
  let numVars ← ChunkedCommitment.numVarsForChunk D poly.commitment
  .ok { batch with
        maxNumVars := max batch.maxNumVars numVars
        commitments := batch.commitments ++ poly.commitment.chunkCommitments
        batchingCoefficientsPerPoly := batch.batchingCoefficientsPerPoly ++
          [ChunkedCommitment.toChunkedInfo poly.commitment coeffs] }

/-- One round of the loop over the commitments of the context: a polynomial
    without claims is passed over. -/
def batchModelPoly (acc : ModelClaims F × Batch D C)
    (entry : CommitmentId × VerifierCommitment C) : Outcome (ModelClaims F × Batch D C) := do
  let (modelClaims, batch) := acc
  match modelClaims[entry.1]? with
  | some claims =>
    let batch ← batchPoly D batch ⟨entry.2, claims.values⟩
    .ok (modelClaims.erase entry.1, batch)
  | none => .ok (modelClaims, batch)

/-- Both loops over the claims: the model's polynomials come first, then the
    witness polynomials node by node. -/
def collectClaims {Setup : Type} (self : CommitmentVerifier F C)
    (commitCtx : CommitmentVerifierCtx C Setup) (transcript : D.Transcript) :
    Outcome (ModelClaims F × Batch D C) := do
  let (modelClaims, batch) ← commitCtx.modelCommitments.toList.foldlM (batchModelPoly D)
    (self.modelClaims, ⟨transcript, [], [], [], 0, []⟩)
  let batch ← self.witnessClaims.values.foldlM
    (fun batch claims => claims.foldlM (batchPoly D) batch) batch
  .ok (modelClaims, batch)

omit [DecidableEq F] in
/-- Combine the claimed evaluations with the powers of the challenge. -/
def claimedSum (challenge : F) (evals : List F) : F :=
  (evals.foldl (fun (sumAcc, chalAcc) e => (sumAcc + chalAcc * e, chalAcc * challenge))
    ((0 : F), (1 : F))).1

omit [DecidableEq F] in
/-- The evaluation of an `eq` polynomial padded with zeros. -/
def paddedEqEval (sumcheckPoint eqPoint : List F) : Outcome F :=
  if eqPoint.length ≤ sumcheckPoint.length then
    let (identityPoint, paddingPoint) := sumcheckPoint.splitAt eqPoint.length
    .ok (paddingPoint.foldl (fun acc p => acc * (1 - p)) (identityEval identityPoint eqPoint))
  else
    .error (.panic "mid > len")

/-- `claims_batching_sumcheck`. The claims it takes in leave the verifier. -/
def claimsBatchingSumcheck {Setup : Type} (self : CommitmentVerifier F C)
    (sumcheckProof : D.IOPProof) (sumcheckEvals : List F)
    (commitCtx : CommitmentVerifierCtx C Setup) (transcript : D.Transcript) :
    Outcome (ClaimsBatchingVerifier F C × CommitmentVerifier F C × D.Transcript) := do
  let (modelClaims, batch) ← collectClaims D self commitCtx transcript
  let sumcheckExpression ← buildSumcheckExpression D batch.batchingCoefficientsPerPoly
  let (challenge, transcript) := D.appendAndSample batch.transcript "model_batching"
  let auxInfo : VPAuxInfo := ⟨2, batch.maxNumVars⟩
  let (subclaim, transcript) ←
    D.verifySumcheck (claimedSum challenge batch.evals) sumcheckProof auxInfo transcript
  let eqEvals ← batch.eqPoints.mapM (paddedEqEval subclaim.point)
  let calcEval ← D.eval (sumcheckEvals ++ eqEvals) [challenge] sumcheckExpression
  ensure (calcEval == subclaim.expectedEvaluation)
    "PCS verification failed, model sumcheck calculated evaluation did not equal subclaim expected evaluation"
  .ok (⟨subclaim.point, batch.commitments⟩, ⟨modelClaims, ∅⟩, transcript)

omit [DecidableEq F] in
/-- One challenge for each commitment. -/
def sampleChallenges (transcript : D.Transcript) : Nat → List F × D.Transcript
  | 0 => ([], transcript)
  | n + 1 =>
    let (challenge, transcript) := D.challengeScalar transcript
    let (challenges, transcript) := sampleChallenges transcript n
    (challenge :: challenges, transcript)

/-- `verify`. -/
def verify (PCS : CommitmentScheme F D.Transcript) (self : CommitmentVerifier F PCS.Commitment)
    (commitCtx : CommitmentVerifierCtx PCS.Commitment PCS.VerifierSetup)
    (proof : OpeningProof D PCS.Proof) (transcript : D.Transcript) :
    Outcome (CommitmentVerifier F PCS.Commitment × D.Transcript) := do
  let (⟨point, commitments⟩, self, transcript) ←
    claimsBatchingSumcheck D self proof.sumcheckProof proof.sumcheckEvals commitCtx transcript
  let transcript := D.appendScalars transcript point
  let transcript := D.appendScalars transcript proof.sumcheckEvals
  let (challenges, transcript) := sampleChallenges D transcript commitments.length
  let commitment ← PCS.combineCommitments commitments challenges
  let combinedEval := (proof.sumcheckEvals.zip challenges).foldl
    (fun combinedEval (eval, challenge) => combinedEval + eval * challenge) 0
  let transcript ← PCS.verify commitCtx.verifierParams proof.pcsProof transcript point combinedEval
    commitment
  .ok (self, transcript)

end CommitmentVerifier

end DeepProve
