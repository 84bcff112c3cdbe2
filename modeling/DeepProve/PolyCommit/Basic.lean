import DeepProve.DpCrypto

/-!
# Polynomials committed in chunks

`poly_commit/mod.rs`: a committed polynomial is split into a power of two of
chunks, each committed on its own. A claim about the polynomial is a combination
of claims about its chunks; all claims are batched in one sumcheck, whose
expression is built here.
-/

namespace DeepProve

/-- A claim that a multilinear polynomial has value `eval` at `point`. -/
structure Claim (F : Type) where
  point : List F
  eval : F
  deriving DecidableEq, Repr

abbrev CommitmentId := String

/-- `table_poly_id`. -/
def tablePolyId (tableName : String) : CommitmentId := "table_" ++ tableName

/-- A `usize` subtraction. -/
def usizeSub (a b : Nat) : Outcome Nat :=
  if b ≤ a then .ok (a - b) else .error (.panic "attempt to subtract with overflow")

theorem usizeSub_eq_ok {a b c : Nat} : usizeSub a b = .ok c ↔ b ≤ a ∧ c = a - b := by
  unfold usizeSub
  split <;> simp_all [eq_comm]

theorem panics_usizeSub {a b : Nat} : (usizeSub a b).Panics ↔ a < b := by
  unfold usizeSub
  split
  · next h => simpa using h
  · next h => simpa using h

/-- `to_bit_sequence_le`. -/
def toBitSequenceLe (num bitLength : Nat) : Outcome (List Nat) :=
  if bitLength ≤ 64 then
    .ok ((List.range bitLength).map fun i => num / 2 ^ i % 2)
  else
    .error (.panic "bit_length cannot exceed usize::BITS")

variable {F : Type} [CommRing F]

/-- `identity_eval`, on the common length of the two points. -/
def identityEval (r1 r2 : List F) : F :=
  (r1.zip r2).foldl (fun eval (r1i, r2i) => eval * (r1i * r2i + (1 - r1i) * (1 - r2i))) 1

/-- What the expression of the sumcheck needs to know about a polynomial
    committed in chunks. -/
structure ChunkedCommittedPolyInfo (F : Type) where
  numChunks : Nat
  numClaims : Nat
  /-- For each claim, one coefficient for each chunk. -/
  batchingCoefficients : List (List F)

class ChunkedCommitment (P : Type) where
  numChunks : P → Nat
  numVars : P → Nat

namespace ChunkedCommitment

variable {P : Type} [ChunkedCommitment P] (D : DpCrypto F)

/-- Split the coordinates of a point at those that select the chunk. -/
def splitPoint (c : P) (point : List F) : Outcome (List F × List F) := do
  let numBatchingVars ← D.log2Strict (numChunks c)
  let mid ← usizeSub point.length numBatchingVars
  .ok (point.splitAt mid)

/-- `batching_coefficients_for_chunks`. -/
def batchingCoefficientsForChunks (c : P) (point : List F) : Outcome (List F) := do
  let numBatchingVars ← D.log2Strict (numChunks c)
  let (_, batchingCoords) ← splitPoint D c point
  (List.range (numChunks c)).mapM fun i => do
    let bits ← toBitSequenceLe i numBatchingVars
    .ok (identityEval batchingCoords (bits.map fun (b : Nat) => (b : F)))

/-- `eq_point_per_chunk`. -/
def eqPointPerChunk (c : P) (point : List F) : Outcome (List F) := do
  let (eqPoint, _) ← splitPoint D c point
  .ok eqPoint

omit [CommRing F] in
/-- `to_chunked_info`. -/
def toChunkedInfo (c : P) (batchingChallenges : List (List F)) : ChunkedCommittedPolyInfo F where
  numChunks := numChunks c
  numClaims := batchingChallenges.length
  batchingCoefficients := batchingChallenges

omit [CommRing F] in
/-- `num_vars_for_chunk`. -/
def numVarsForChunk (c : P) : Outcome Nat := do
  let log ← D.log2Strict (numChunks c)
  usizeSub (numVars c) log

end ChunkedCommitment

section Expression

variable (D : DpCrypto F)

/-- `C_1*P_1 + ... + C_M*P_M`, where the chunks of the polynomial come after
    `totalPolys` other ones. -/
def chunkPolyExpr (totalPolys : Nat) (chunkCoeffs : List F) : D.Expression :=
  chunkCoeffs.zipIdx.foldl (fun inner (coeff, chunkIndex) =>
    D.add inner (D.mul (D.constant coeff) (D.witIn (UInt16.ofNat (totalPolys + chunkIndex)))))
    (D.constant 0)

/-- Add the term of one claim. -/
def addClaimTerm (eqOffset totalNumTerms totalPolys numChunks : Nat) (inner : D.Expression)
    (entry : List F × Nat) : Outcome D.Expression := do
  let (chunkCoeffs, i) := entry
  ensure (chunkCoeffs.length == numChunks)
    s!"Expected {numChunks} chunk challenges, found {chunkCoeffs.length}"
  .ok (D.add inner
    (D.mul (D.mul (D.challenge 0 (totalNumTerms + i) 1 0) (chunkPolyExpr D totalPolys chunkCoeffs))
      (D.witIn (UInt16.ofNat (totalNumTerms + i + eqOffset)))))

/-- Add the terms of the claims about one polynomial. -/
def addPolyTerms (eqOffset : Nat) (acc : D.Expression × Nat × Nat)
    (info : ChunkedCommittedPolyInfo F) : Outcome (D.Expression × Nat × Nat) := do
  let (expr, totalNumTerms, totalPolys) := acc
  let newExpr ← info.batchingCoefficients.zipIdx.foldlM
    (addClaimTerm D eqOffset totalNumTerms totalPolys info.numChunks) expr
  .ok (newExpr, totalNumTerms + info.numClaims, totalPolys + info.numChunks)

/-- `build_sumcheck_expression`. -/
def buildSumcheckExpression (chunkedPolyInfo : List (ChunkedCommittedPolyInfo F)) :
    Outcome D.Expression := do
  let eqOffset := (chunkedPolyInfo.map ChunkedCommittedPolyInfo.numChunks).sum
  let (expr, _, _) ← chunkedPolyInfo.foldlM (addPolyTerms D eqOffset) (D.constant 0, 0, 0)
  .ok expr

end Expression

end DeepProve
