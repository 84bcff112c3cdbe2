import DeepProve.PolyCommit.Verifier
import DeepProve.ForStd.Multilinear

/-!
# The commitment prover

`poly_commit/prover.rs`: the prover goes through the claims as the verifier does,
pads the chunks and the `eq` polynomials to one number of variables and runs the
sumcheck on the expression over them.
-/

namespace DeepProve

variable {F : Type}

/-- `DensePolynomial`, from the proof library: a multilinear polynomial by its
    evaluations on the hypercube. -/
structure DensePolys (F : Type) where
  Poly : Type
  numVars : Poly → Nat
  /-- `poly[i]`. -/
  index : Poly → Nat → F
  evaluate : Poly → List F → Outcome F
  asViewChunks : Poly → Nat → List Poly
  zeroPadNumVars : Poly → Nat → Outcome Poly
  /-- `eq::evals(point).into_mle()`. -/
  eqEvals : List F → Poly

/-- What the code relies on: the first coordinate is the lowest bit of the index,
    chunks are consecutive, padding adds zeros at the end. -/
structure DensePolys.Lawful [CommRing F] (L : DensePolys F) : Prop where
  evaluate : ∀ p r, r.length = L.numVars p → L.evaluate p r = .ok (Multilinear.eval (L.index p) r)
  asViewChunks_length : ∀ p b, b ≤ L.numVars p → (L.asViewChunks p (2 ^ b)).length = 2 ^ b
  asViewChunks : ∀ p b j q, b ≤ L.numVars p → (L.asViewChunks p (2 ^ b))[j]? = some q →
    L.numVars q = L.numVars p - b ∧
      ∀ i < 2 ^ L.numVars q, L.index q i = L.index p (j * 2 ^ L.numVars q + i)
  zeroPadNumVars : ∀ p n, L.numVars p ≤ n → ∃ q, L.zeroPadNumVars p n = .ok q ∧ L.numVars q = n ∧
    ∀ i < 2 ^ n, L.index q i = Multilinear.zeroPad (L.numVars p) (L.index p) i
  eqEvals : ∀ z, L.numVars (L.eqEvals z) = z.length ∧
    ∀ i < 2 ^ z.length, L.index (L.eqEvals z) i = Multilinear.eqWeight z i

structure CommittedPolynomial (L : DensePolys F) (C : Type) where
  chunkCommitments : List C
  polynomial : L.Poly

instance {L : DensePolys F} {C : Type} : ChunkedCommitment (CommittedPolynomial L C) where
  numChunks p := p.chunkCommitments.length
  numVars p := L.numVars p.polynomial

namespace CommittedPolynomial

variable {L : DensePolys F} {C : Type}

def chunkedPolys (p : CommittedPolynomial L C) : List L.Poly :=
  L.asViewChunks p.polynomial (ChunkedCommitment.numChunks p)

/-- `VerifierCommitment::from`. -/
def toVerifier (p : CommittedPolynomial L C) : VerifierCommitment C :=
  ⟨p.chunkCommitments, L.numVars p.polynomial⟩

end CommittedPolynomial

structure CommitmentProverCtx (L : DensePolys F) (C : Type) where
  modelCommitments : BTreeMap CommitmentId (CommittedPolynomial L C)

/-- The verifier's side of `generate_contexts`. -/
def CommitmentProverCtx.toVerifier {L : DensePolys F} {C Setup : Type}
    (commitCtx : CommitmentProverCtx L C) (verifierParams : Setup) :
    CommitmentVerifierCtx C Setup :=
  ⟨verifierParams, commitCtx.modelCommitments.map fun _ p => p.toVerifier⟩

/-- What the sumcheck prover gets from the builder: an expression over polynomials
    in one number of variables. -/
structure VirtualPolynomial (D : DpCrypto F) (L : DensePolys F) where
  numVars : Nat
  mles : List L.Poly
  expression : D.Expression
  challenges : List F

/-- The value of the expression at a point. -/
def VirtualPolynomial.evaluate {D : DpCrypto F} {L : DensePolys F} (vp : VirtualPolynomial D L)
    (point : List F) : Outcome F := do
  let evals ← vp.mles.mapM fun p => L.evaluate p point
  D.eval evals vp.challenges vp.expression

structure CommitmentProver (F : Type) where
  modelClaims : ModelClaims F
  /-- For each node, the claims about each of its polynomials. -/
  witnessClaims : BTreeMap NodeId (List (List (Claim F)))

namespace CommitmentProver

variable [CommRing F] (D : DpCrypto F) (L : DensePolys F) {C : Type}

omit [CommRing F] in
/-- What the two loops over the claims accumulate. -/
structure Batch {F : Type} (D : DpCrypto F) (L : DensePolys F) where
  transcript : D.Transcript
  eqPolys : List L.Poly
  committedPolys : List L.Poly
  maxNumVars : Nat
  batchingCoeffsPerPoly : List (ChunkedCommittedPolyInfo F)

/-- Take in one claim about a polynomial. -/
def batchClaim (poly : CommittedPolynomial L C) (acc : Batch D L × List (List F))
    (claim : Claim F) : Outcome (Batch D L × List (List F)) := do
  let (batch, coeffs) := acc
  let eqPoint ← ChunkedCommitment.eqPointPerChunk D poly claim.point
  let chunkCoeffs ← ChunkedCommitment.batchingCoefficientsForChunks D poly claim.point
  .ok ({ batch with
          transcript := D.appendScalars batch.transcript [claim.eval]
          eqPolys := batch.eqPolys ++ [L.eqEvals eqPoint] },
        coeffs ++ [chunkCoeffs])

/-- Take in the claims about one polynomial. -/
def batchPoly (batch : Batch D L) (entry : List (Claim F) × CommittedPolynomial L C) :
    Outcome (Batch D L) := do
  let (claims, poly) := entry
  let (batch, coeffs) ← claims.foldlM (batchClaim D L poly) (batch, [])
  let numVars ← ChunkedCommitment.numVarsForChunk D poly
  .ok { batch with
        maxNumVars := max batch.maxNumVars numVars
        committedPolys := batch.committedPolys ++ poly.chunkedPolys
        batchingCoeffsPerPoly := batch.batchingCoeffsPerPoly ++
          [ChunkedCommitment.toChunkedInfo poly coeffs] }

/-- One round of the loop over the polynomials of the context. -/
def batchModelPoly (acc : ModelClaims F × Batch D L)
    (entry : CommitmentId × CommittedPolynomial L C) : Outcome (ModelClaims F × Batch D L) := do
  let (modelClaims, batch) := acc
  match modelClaims[entry.1]? with
  | some claims =>
    let batch ← batchPoly D L batch (claims.values, entry.2)
    .ok (modelClaims.erase entry.1, batch)
  | none => .ok (modelClaims, batch)

/-- One round of the loop over the nodes with witness claims. -/
def batchWitnessNode (witnessCommitments : HashMap NodeId (List (CommittedPolynomial L C)))
    (batch : Batch D L) (entry : NodeId × List (List (Claim F))) : Outcome (Batch D L) := do
  let (nodeId, claims) := entry
  let comms ← okOr witnessCommitments[nodeId]? s!"No commitments found for node {nodeId}"
  ensure (comms.length == claims.length)
    s!"Number of claims for node {nodeId} different from number of committed polys: {claims.length} vs  {comms.length}"
  (claims.zip comms).foldlM (batchPoly D L) batch

/-- Both loops over the claims. -/
def collectClaims (self : CommitmentProver F)
    (witnessCommitments : HashMap NodeId (List (CommittedPolynomial L C)))
    (commitCtx : CommitmentProverCtx L C) (transcript : D.Transcript) :
    Outcome (ModelClaims F × Batch D L) := do
  let (modelClaims, batch) ← commitCtx.modelCommitments.toList.foldlM (batchModelPoly D L)
    (self.modelClaims, ⟨transcript, [], [], 0, []⟩)
  let batch ← self.witnessClaims.toList.foldlM (batchWitnessNode D L witnessCommitments) batch
  .ok (modelClaims, batch)

/-- The first part of `claims_batching_sumcheck`: what the sumcheck is run on. -/
def buildVirtualPoly (self : CommitmentProver F)
    (witnessCommitments : HashMap NodeId (List (CommittedPolynomial L C)))
    (commitCtx : CommitmentProverCtx L C) (transcript : D.Transcript) :
    Outcome (VirtualPolynomial D L × List L.Poly × CommitmentProver F × D.Transcript) := do
  let (modelClaims, batch) ← collectClaims D L self witnessCommitments commitCtx transcript
  let sumcheckExpression ← buildSumcheckExpression D batch.batchingCoeffsPerPoly
  let polyViews ← (batch.committedPolys ++ batch.eqPolys).mapM fun poly =>
    L.zeroPadNumVars poly batch.maxNumVars
  let (challenge, transcript) := D.appendAndSample batch.transcript "model_batching"
  .ok (⟨batch.maxNumVars, polyViews, sumcheckExpression, [challenge]⟩, batch.committedPolys,
    { self with modelClaims := modelClaims }, transcript)

end CommitmentProver

end DeepProve
