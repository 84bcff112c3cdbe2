import DeepProve.PolyCommit.Chunks
import DeepProve.PolyCommit.Expression
import DeepProve.PolyCommit.Verifier

/-!
# Which claims the verifier takes in

The two loops of `collectClaims` read the claims in one order: the polynomials
of the context that have claims, then the witness polynomials. `polys` is that
list, `boundClaims` the claims with the position of the chunks they are about.
-/

namespace DeepProve

open ChunkedCommitment

namespace CommitmentVerifier

variable {F C Setup : Type}

/-- The polynomials of the context that have claims. -/
def modelPolys (modelClaims : ModelClaims F) (entries : List (CommitmentId × VerifierCommitment C)) :
    List (VerifierClaim F C) :=
  entries.filterMap fun (polyId, comm) =>
    (modelClaims[polyId]?).map fun claims => ⟨comm, claims.values⟩

/-- The polynomials with claims, in the order in which the verifier takes them in. -/
def polys (self : CommitmentVerifier F C) (commitCtx : CommitmentVerifierCtx C Setup) :
    List (VerifierClaim F C) :=
  modelPolys self.modelClaims commitCtx.modelCommitments.toList ++ self.witnessClaims.values.flatten

end CommitmentVerifier

/-- Every claim fits the polynomial it is about. -/
def VerifierClaim.WellFormed {F C : Type} (poly : VerifierClaim F C) : Prop :=
  (∀ claim ∈ poly.claims, Fits poly.commitment claim.point) ∧ Splits poly.commitment

/-- A claim with the position of the first chunk of its polynomial. -/
structure BoundClaim (F C : Type) where
  offset : Nat
  commitment : VerifierCommitment C
  claim : Claim F

namespace BoundClaim

variable {F C : Type}

/-- The number of chunks of the polynomial. -/
def width (b : BoundClaim F C) : Nat := numChunks b.commitment

/-- Where the chunks and the `eq` polynomial of the claim are evaluated. -/
def eqPoint (b : BoundClaim F C) : List F := chunkPoint b.commitment b.claim.point

/-- The coefficients of the chunks. -/
def coeffs [CommRing F] (b : BoundClaim F C) : List F := chunkCoeffs b.commitment b.claim.point

@[simp] theorem coeffs_length [CommRing F] (b : BoundClaim F C) : b.coeffs.length = b.width :=
  chunkCoeffs_length _ _

end BoundClaim

section BoundClaims

variable {F C : Type}

/-- The claims about a list of polynomials; the chunks of the first one start at
    `offset`. -/
def boundClaims (offset : Nat) : List (VerifierClaim F C) → List (BoundClaim F C)
  | [] => []
  | poly :: polys =>
    poly.claims.map (fun claim => ⟨offset, poly.commitment, claim⟩) ++
      boundClaims (offset + numChunks poly.commitment) polys

/-- The chunks of all polynomials. -/
def totalChunks (polys : List (VerifierClaim F C)) : Nat :=
  (polys.map fun poly => numChunks poly.commitment).sum

theorem boundClaims_map_claim (offset : Nat) (polys : List (VerifierClaim F C)) :
    (boundClaims offset polys).map BoundClaim.claim = polys.flatMap VerifierClaim.claims := by
  induction polys generalizing offset with
  | nil => rfl
  | cons poly polys ih =>
    rw [boundClaims, List.map_append, ih, List.map_map, List.flatMap_cons]
    simp only [Function.comp_def, List.map_id']

theorem boundClaims_map_eqPoint (offset : Nat) (polys : List (VerifierClaim F C)) :
    (boundClaims offset polys).map BoundClaim.eqPoint =
      polys.flatMap fun poly => poly.claims.map fun claim => chunkPoint poly.commitment claim.point := by
  induction polys generalizing offset with
  | nil => rfl
  | cons poly polys ih =>
    rw [boundClaims, List.map_append, ih, List.map_map, List.flatMap_cons]
    rfl

variable {b : BoundClaim F C}

/-- The chunks of a claim are at the claim's position, in any list that has an
    item for every chunk of every polynomial. -/
theorem getElem?_flatMap_of_boundClaim {E X : Type} {entries : List E}
    {toPoly : E → VerifierClaim F C} (items : E → List X)
    (hlen : ∀ e ∈ entries, (items e).length = numChunks (toPoly e).commitment) {offset : Nat}
    (hb : b ∈ boundClaims offset (entries.map toPoly)) :
    ∃ e ∈ entries, b.commitment = (toPoly e).commitment ∧ b.claim ∈ (toPoly e).claims ∧
      offset ≤ b.offset ∧
      ∀ j < b.width, (entries.flatMap items)[b.offset - offset + j]? = (items e)[j]? := by
  induction entries generalizing offset with
  | nil => nomatch hb
  | cons e entries ih =>
    have hfirst := hlen e List.mem_cons_self
    rw [List.map_cons, boundClaims, List.mem_append, List.mem_map] at hb
    rw [List.flatMap_cons]
    rcases hb with ⟨claim, hclaim, rfl⟩ | hb
    · refine ⟨e, List.mem_cons_self, rfl, hclaim, le_refl _, ?_⟩
      intro j hj
      have hj : j < numChunks (toPoly e).commitment := hj
      rw [Nat.sub_self, Nat.zero_add, List.getElem?_append_left (by omega)]
    · obtain ⟨e', he', hcomm, hclaim, hle, hget⟩ :=
        ih (fun e he => hlen e (List.mem_cons_of_mem _ he)) hb
      refine ⟨e', List.mem_cons_of_mem _ he', hcomm, hclaim, by omega, ?_⟩
      intro j hj
      rw [List.getElem?_append_right (by omega), ← hget j hj]
      congr 1
      omega

/-- The commitments to the chunks of a claim are at the claim's position. -/
theorem getElem?_commitments_of_boundClaim {polys : List (VerifierClaim F C)}
    (hb : b ∈ boundClaims 0 polys) {j : Nat} (hj : j < b.width) :
    (polys.flatMap fun poly => poly.commitment.chunkCommitments)[b.offset + j]? =
      b.commitment.chunkCommitments[j]? := by
  rw [← List.map_id polys] at hb
  obtain ⟨poly, _, hcomm, _, _, hget⟩ := getElem?_flatMap_of_boundClaim
    (fun poly => poly.commitment.chunkCommitments) (fun _ _ => rfl) hb
  have hget := hget j hj
  rw [Nat.sub_zero] at hget
  rw [hget, hcomm]
  rfl

/-- The chunks of a claim are among those of all polynomials. -/
theorem boundClaim_offset_le {offset : Nat} {polys : List (VerifierClaim F C)}
    (hb : b ∈ boundClaims offset polys) :
    b.offset + b.width ≤ offset + totalChunks polys := by
  induction polys generalizing offset with
  | nil => nomatch hb
  | cons poly polys ih =>
    rw [boundClaims, List.mem_append, List.mem_map] at hb
    rw [totalChunks, List.map_cons, List.sum_cons]
    rcases hb with ⟨claim, _, rfl⟩ | hb
    · show offset + numChunks poly.commitment ≤ _
      omega
    · have := ih hb
      rw [totalChunks] at this
      omega

end BoundClaims

namespace CommitmentVerifier

variable {F : Type} [CommRing F] {C : Type} {D : DpCrypto F}

/-- Append the evaluations of claims to a transcript, one by one. -/
def appendEvals (D : DpCrypto F) (transcript : D.Transcript) (claims : List (Claim F)) :
    D.Transcript :=
  claims.foldl (fun transcript claim => D.appendScalars transcript [claim.eval]) transcript

/-- What the expression needs to know about a polynomial and its claims. -/
def infoOf (poly : VerifierClaim F C) : ChunkedCommittedPolyInfo F :=
  ⟨numChunks poly.commitment, poly.claims.length,
    poly.claims.map fun claim => chunkCoeffs poly.commitment claim.point⟩

/-- What the batch looks like after taking in the claims about a polynomial. -/
def Batch.addPoly (batch : Batch D C) (poly : VerifierClaim F C) : Batch D C where
  transcript := appendEvals D batch.transcript poly.claims
  eqPoints := batch.eqPoints ++ poly.claims.map fun claim => chunkPoint poly.commitment claim.point
  evals := batch.evals ++ poly.claims.map Claim.eval
  commitments := batch.commitments ++ poly.commitment.chunkCommitments
  maxNumVars := max batch.maxNumVars (chunkNumVars poly.commitment)
  batchingCoefficientsPerPoly := batch.batchingCoefficientsPerPoly ++ [infoOf poly]

/-- One claim is taken in exactly if it fits. -/
theorem batchClaim_eq_ok (hD : D.Lawful) {comm : VerifierCommitment C}
    {acc acc' : Batch D C × List (List F)} {claim : Claim F} :
    batchClaim D comm acc claim = .ok acc' ↔
      Fits comm claim.point ∧ acc' =
        ({ acc.1 with
            transcript := D.appendScalars acc.1.transcript [claim.eval]
            eqPoints := acc.1.eqPoints ++ [chunkPoint comm claim.point]
            evals := acc.1.evals ++ [claim.eval] },
          acc.2 ++ [chunkCoeffs comm claim.point]) := by
  simp only [batchClaim, Outcome.bind_eq_ok, eqPointPerChunk_eq_ok hD,
    batchingCoefficientsForChunks_eq_ok hD, Except.ok.injEq]
  constructor
  · rintro ⟨_, ⟨_, rfl⟩, _, ⟨hfits, rfl⟩, rfl⟩
    exact ⟨hfits, rfl⟩
  · rintro ⟨hfits, rfl⟩
    obtain ⟨b, hb, hle, _⟩ := id hfits
    exact ⟨_, ⟨⟨b, hb, hle⟩, rfl⟩, _, ⟨hfits, rfl⟩, rfl⟩

/-- The claims about a polynomial are taken in exactly if all of them fit. -/
theorem foldlM_batchClaim_eq_ok (hD : D.Lawful) {comm : VerifierCommitment C}
    (claims : List (Claim F)) {acc acc' : Batch D C × List (List F)} :
    claims.foldlM (batchClaim D comm) acc = .ok acc' ↔
      (∀ claim ∈ claims, Fits comm claim.point) ∧ acc' =
        ({ acc.1 with
            transcript := appendEvals D acc.1.transcript claims
            eqPoints := acc.1.eqPoints ++ claims.map fun claim => chunkPoint comm claim.point
            evals := acc.1.evals ++ claims.map Claim.eval },
          acc.2 ++ claims.map fun claim => chunkCoeffs comm claim.point) := by
  induction claims generalizing acc with
  | nil =>
    rw [List.foldlM_nil]
    simp only [List.not_mem_nil, false_implies, implies_true, true_and, appendEvals,
      List.foldl_nil, List.map_nil, List.append_nil]
    exact ⟨fun h => (Except.ok.inj h).symm, fun h => congrArg Except.ok h.symm⟩
  | cons claim claims ih =>
    simp only [List.foldlM_cons, Outcome.bind_eq_ok, batchClaim_eq_ok hD]
    constructor
    · rintro ⟨acc₁, ⟨hfits, rfl⟩, hrest⟩
      obtain ⟨hall, rfl⟩ := ih.mp hrest
      refine ⟨List.forall_mem_cons.mpr ⟨hfits, hall⟩, ?_⟩
      simp only [List.map_cons, List.append_assoc, List.cons_append, List.nil_append]
      rfl
    · rintro ⟨hall, rfl⟩
      obtain ⟨hfits, hall⟩ := List.forall_mem_cons.mp hall
      refine ⟨_, ⟨hfits, rfl⟩, ih.mpr ⟨hall, ?_⟩⟩
      simp only [List.map_cons, List.append_assoc, List.cons_append, List.nil_append]
      rfl

variable {batch : Batch D C}

/-- A polynomial is taken in exactly if its claims fit. -/
theorem batchPoly_eq_ok (hD : D.Lawful) {batch' : Batch D C} {poly : VerifierClaim F C} :
    batchPoly D batch poly = .ok batch' ↔ poly.WellFormed ∧ batch' = batch.addPoly poly := by
  simp only [batchPoly, Outcome.bind_eq_ok, foldlM_batchClaim_eq_ok hD, numVarsForChunk_eq_ok hD,
    Except.ok.injEq]
  have hinfo : toChunkedInfo poly.commitment
      ([] ++ poly.claims.map fun claim => chunkCoeffs poly.commitment claim.point) =
      infoOf poly := by
    rw [List.nil_append, toChunkedInfo, List.length_map, infoOf]
  constructor
  · rintro ⟨acc, ⟨hfits, rfl⟩, _, ⟨hsplits, rfl⟩, rfl⟩
    refine ⟨⟨hfits, hsplits⟩, ?_⟩
    simp only [hinfo]
    rfl
  · rintro ⟨⟨hfits, hsplits⟩, rfl⟩
    refine ⟨_, ⟨hfits, rfl⟩, _, ⟨hsplits, rfl⟩, ?_⟩
    simp only [hinfo]
    rfl

/-- A list of polynomials is taken in exactly if the claims of all of them fit. -/
theorem foldlM_batchPoly_eq_ok (hD : D.Lawful) (polys : List (VerifierClaim F C))
    {batch' : Batch D C} :
    polys.foldlM (batchPoly D) batch = .ok batch' ↔
      (∀ poly ∈ polys, poly.WellFormed) ∧ batch' = polys.foldl Batch.addPoly batch := by
  induction polys generalizing batch with
  | nil =>
    simp only [List.foldlM_nil, List.not_mem_nil, false_implies, implies_true, true_and,
      List.foldl_nil]
    exact ⟨fun h => (Except.ok.inj h).symm, fun h => congrArg Except.ok h.symm⟩
  | cons poly polys ih =>
    simp only [List.foldlM_cons, Outcome.bind_eq_ok, batchPoly_eq_ok hD, ih, List.forall_mem_cons,
      List.foldl_cons]
    constructor
    · rintro ⟨_, ⟨hwf, rfl⟩, hall, rfl⟩
      exact ⟨⟨hwf, hall⟩, rfl⟩
    · rintro ⟨⟨hwf, hall⟩, rfl⟩
      exact ⟨_, ⟨hwf, rfl⟩, hall, rfl⟩

/-- The loop over the nodes with witness claims is one over their polynomials. -/
theorem foldlM_flatten_batchPoly (nodes : List (List (VerifierClaim F C))) (batch : Batch D C) :
    nodes.foldlM (fun batch claims => claims.foldlM (batchPoly D) batch) batch =
      nodes.flatten.foldlM (batchPoly D) batch := by
  induction nodes generalizing batch with
  | nil => rfl
  | cons claims nodes ih =>
    rw [List.foldlM_cons, List.flatten_cons, List.foldlM_append]
    simp only [ih]

/-- The loop over the context takes in the polynomials that have claims. -/
theorem foldlM_batchModelPoly (entries : List (CommitmentId × VerifierCommitment C))
    (hkeys : (entries.map Prod.fst).Nodup) (modelClaims : ModelClaims F) (batch : Batch D C) :
    entries.foldlM (batchModelPoly D) (modelClaims, batch) =
      (modelPolys modelClaims entries).foldlM (batchPoly D) batch >>= fun batch =>
        .ok (entries.foldl (fun modelClaims entry => modelClaims.erase entry.1) modelClaims,
          batch) := by
  apply Std.ExtTreeMap.foldlM_remove (M := Outcome)
    (g := fun comm (claims : BTreeMap NodeId (Claim F)) =>
      (⟨comm, claims.values⟩ : VerifierClaim F C)) _ _ _ hkeys
  · intro acc entry claims hclaims
    simp only [batchModelPoly, hclaims]
    rfl
  · intro acc entry hclaims
    simp only [batchModelPoly, hclaims]
    rfl

/-- What the batch holds after a list of polynomials. -/
theorem foldl_addPoly (polys : List (VerifierClaim F C)) (batch : Batch D C) :
    polys.foldl Batch.addPoly batch =
      { transcript := appendEvals D batch.transcript (polys.flatMap VerifierClaim.claims)
        eqPoints := batch.eqPoints ++ polys.flatMap fun poly =>
          poly.claims.map fun claim => chunkPoint poly.commitment claim.point
        evals := batch.evals ++ (polys.flatMap VerifierClaim.claims).map Claim.eval
        commitments := batch.commitments ++ polys.flatMap fun poly => poly.commitment.chunkCommitments
        maxNumVars := (polys.map fun poly => chunkNumVars poly.commitment).foldl max batch.maxNumVars
        batchingCoefficientsPerPoly := batch.batchingCoefficientsPerPoly ++ polys.map infoOf } := by
  induction polys generalizing batch with
  | nil => simp [appendEvals]
  | cons poly polys ih =>
    rw [List.foldl_cons, ih]
    simp only [Batch.addPoly, appendEvals, List.flatMap_cons, List.foldl_append, List.map_append,
      List.append_assoc, List.map_cons, List.foldl_cons, List.cons_append, List.nil_append]

/-- What the two loops accumulate from the start. -/
def batchOf (transcript : D.Transcript) (polys : List (VerifierClaim F C)) : Batch D C where
  transcript := appendEvals D transcript (polys.flatMap VerifierClaim.claims)
  eqPoints := (boundClaims 0 polys).map BoundClaim.eqPoint
  evals := (polys.flatMap VerifierClaim.claims).map Claim.eval
  commitments := polys.flatMap fun poly => poly.commitment.chunkCommitments
  maxNumVars := (polys.map fun poly => chunkNumVars poly.commitment).foldl max 0
  batchingCoefficientsPerPoly := polys.map infoOf

/-- The loops return exactly if every claim fits its polynomial. -/
theorem collectClaims_eq_ok (hD : D.Lawful) (transcript : D.Transcript)
    {self : CommitmentVerifier F C} {commitCtx : CommitmentVerifierCtx C Setup} :
    (∃ modelClaims, collectClaims D self commitCtx transcript = .ok (modelClaims, batch)) ↔
      (∀ poly ∈ self.polys commitCtx, poly.WellFormed) ∧
        batch = batchOf transcript (self.polys commitCtx) := by
  have hbatch : batchOf transcript (self.polys commitCtx) =
      (self.polys commitCtx).foldl Batch.addPoly
        (⟨transcript, [], [], [], 0, []⟩ : Batch D C) := by
    rw [foldl_addPoly, batchOf, boundClaims_map_eqPoint]
    simp only [List.nil_append]
  have hkeys : (commitCtx.modelCommitments.toList.map Prod.fst).Nodup := by
    rw [Std.ExtTreeMap.map_fst_toList_eq_keys]
    exact Std.ExtTreeMap.nodup_keys
  simp only [hbatch, collectClaims, foldlM_flatten_batchPoly, foldlM_batchModelPoly _ hkeys,
    Outcome.bind_eq_ok, Prod.exists, Except.ok.injEq, Prod.mk.injEq, foldlM_batchPoly_eq_ok hD]
  rw [polys, List.foldl_append, List.forall_mem_append]
  constructor
  · rintro ⟨_, mc, batch₁, ⟨_, ⟨hwf, rfl⟩, -, rfl⟩, _, ⟨hwf', rfl⟩, -, rfl⟩
    exact ⟨⟨hwf, hwf'⟩, rfl⟩
  · rintro ⟨⟨hwf, hwf'⟩, rfl⟩
    exact ⟨_, _, _, ⟨_, ⟨hwf, rfl⟩, rfl, rfl⟩, _, ⟨hwf', rfl⟩, rfl, rfl⟩

/-- The terms of the expression are those of the claims. -/
theorem termsFrom_infoOf (offset : Nat) (polys : List (VerifierClaim F C)) :
    termsFrom offset (polys.map infoOf) =
      (boundClaims offset polys).map fun b => (b.offset, b.coeffs) := by
  induction polys generalizing offset with
  | nil => rfl
  | cons poly polys ih =>
    rw [List.map_cons, termsFrom, boundClaims, List.map_append, infoOf, ih, List.map_map,
      List.map_map]
    rfl

theorem infoOf_wellFormed (poly : VerifierClaim F C) : (infoOf poly).WellFormed := by
  refine ⟨by rw [infoOf, List.length_map], ?_⟩
  intro coeffs hcoeffs
  obtain ⟨claim, _, rfl⟩ := List.mem_map.mp hcoeffs
  exact chunkCoeffs_length _ _

theorem sum_numChunks_infoOf (polys : List (VerifierClaim F C)) :
    ((polys.map infoOf).map ChunkedCommittedPolyInfo.numChunks).sum = totalChunks polys := by
  rw [List.map_map, totalChunks]
  rfl

/-- The evaluation of an `eq` polynomial at a point with enough coordinates. -/
theorem paddedEqEval_eq_ok {r eqPoint : List F} {v : F} :
    paddedEqEval r eqPoint = .ok v ↔ eqPoint.length ≤ r.length ∧
      v = Multilinear.eval (Multilinear.zeroPad eqPoint.length (Multilinear.eqWeight eqPoint)) r := by
  unfold paddedEqEval
  split
  · next hle =>
    simp only [List.splitAt_eq, paddedEq_eq_eval eqPoint r hle, Except.ok.injEq, hle, true_and]
    exact eq_comm
  · next hle =>
    simp only [reduceCtorEq, hle, false_and]

/-- The batching challenge and the transcript after it. -/
def batchingChallenge (D : DpCrypto F) (transcript : D.Transcript)
    (polys : List (VerifierClaim F C)) : F × D.Transcript :=
  D.appendAndSample (batchOf transcript polys).transcript "model_batching"

end CommitmentVerifier

end DeepProve
