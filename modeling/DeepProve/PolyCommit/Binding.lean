import DeepProve.PolyCommit.Collect
import DeepProve.PlainCrypto

/-!
# What an accepted opening binds

The verifier checks the sumcheck's last claim against an expression that reads
the evaluations of the chunks, which come with the proof, and the evaluations of
the `eq` polynomials, which the verifier computes, from one list. The code does
not check how many evaluations come with the proof; with one too many, an
evaluation of the proof is read in place of an `eq` evaluation.
-/

namespace DeepProve

open ChunkedCommitment CommitmentVerifier

variable {F : Type} [CommRing F]

/-- The evaluation of the claim's `eq` polynomial, padded with zeros. -/
def BoundClaim.eqEval {C : Type} (b : BoundClaim F C) (r : List F) : F :=
  Multilinear.eval (Multilinear.zeroPad b.eqPoint.length (Multilinear.eqWeight b.eqPoint)) r

/-- `sum_j C_ij * v_ij`, on the entries of `sumcheckEvals` for the chunks. -/
def BoundClaim.chunkSum {C : Type} (b : BoundClaim F C) (sumcheckEvals : List F) : F :=
  ∑ j ∈ Finset.range b.width,
    Multilinear.eqWeight (batchingCoords b.commitment b.claim.point) j *
      sumcheckEvals.getD (b.offset + j) 0

/-- `sum_i c^i * (sum_j C_ij * v_ij) * E_i`. -/
def batchedEval {C : Type} (c : F) (r sumcheckEvals : List F) (bs : List (BoundClaim F C)) : F :=
  (bs.zipIdx.map fun (b, i) => c ^ i * b.chunkSum sumcheckEvals * b.eqEval r).sum

/-- The sumcheck's last claim speaks about every claim. -/
structure BindsEveryClaim {C : Type} (polys : List (VerifierClaim F C)) (sumcheckEvals : List F)
    (c : F) (subclaim : SumcheckSubclaim F) : Prop where
  /-- There is an evaluation for every chunk. -/
  chunks : ∀ b ∈ boundClaims 0 polys, b.offset + b.width ≤ sumcheckEvals.length
  identity : subclaim.expectedEvaluation =
    batchedEval c subclaim.point sumcheckEvals (boundClaims 0 polys)
  /-- The factor read as the `i`-th `eq` evaluation is the one the verifier computed. -/
  eqFactors : ∀ i < (boundClaims 0 polys).length,
    eqPosition (totalChunks polys) i = sumcheckEvals.length + i

/-- As many evaluations as chunks, and few enough of both and of claims for 16-bit
    positions. From 2^16 chunks on, positions start over; the polynomials with
    claims have to come before that. -/
def EvalsMatch {C : Type} (polys : List (VerifierClaim F C)) (numEvals : Nat) : Prop :=
  boundClaims 0 polys = [] ∨
    numEvals = totalChunks polys % 2 ^ 16 ∧
      numEvals + (boundClaims 0 polys).length ≤ 2 ^ 16 ∧
      ∀ b ∈ boundClaims 0 polys, b.offset + b.width ≤ numEvals

omit [CommRing F] in
/-- Below 2^16 the evaluations match if there is one for each chunk. -/
theorem evalsMatch_of_length_eq {C : Type} {polys : List (VerifierClaim F C)} {numEvals : Nat}
    (hlen : numEvals = totalChunks polys)
    (hsmall : totalChunks polys + (boundClaims 0 polys).length ≤ 2 ^ 16) :
    EvalsMatch polys numEvals := by
  by_cases hnil : boundClaims 0 polys = []
  · exact Or.inl hnil
  · have hpos := List.length_pos_iff.mpr hnil
    refine Or.inr ⟨?_, by omega, ?_⟩
    · rw [hlen, Nat.mod_eq_of_lt (by omega)]
    · intro b hb
      have hle := boundClaim_offset_le hb
      omega

section Identity

variable {C : Type}

/-- The terms of the expression, at the evaluations of the proof and of the
    verifier, add up to the batched evaluation. -/
theorem foldTerms_eq_batchedEval (c : F) (r sumcheckEvals : List F) (eqVal : Nat → F)
    (bs : List (BoundClaim F C)) (start : Nat)
    (heq : ∀ p ∈ bs.zipIdx start, eqVal p.2 = p.1.eqEval r) :
    foldTerms c (fun p => sumcheckEvals.getD p 0) eqVal start
        (bs.map fun b => (b.offset, b.coeffs)) =
      ((bs.zipIdx start).map fun (b, i) =>
        c ^ i * b.chunkSum sumcheckEvals * b.eqEval r).sum := by
  have hchunk : ∀ b : BoundClaim F C,
      combineChunks (fun p => sumcheckEvals.getD p 0) (b.offset, b.coeffs) =
        b.chunkSum sumcheckEvals := by
    intro b
    rw [BoundClaim.coeffs, chunkCoeffs, combineChunks_range]
    rfl
  induction bs generalizing start with
  | nil => rfl
  | cons b bs ih =>
    rw [List.zipIdx_cons, List.forall_mem_cons] at heq
    obtain ⟨hb, hrest⟩ := heq
    rw [List.map_cons, foldTerms_cons, ih (start + 1) hrest, hchunk, List.zipIdx_cons,
      List.map_cons, List.sum_cons]
    simp only [hb]

end Identity

section Main

variable [DecidableEq F] {C Setup : Type} {D : DpCrypto F}
variable {polys : List (VerifierClaim F C)} {sumcheckEvals : List F}

/-- What an accepted call has computed. -/
theorem claimsBatchingSumcheck_ok (hD : D.Lawful) {self self' : CommitmentVerifier F C}
    {sumcheckProof : D.IOPProof} {commitCtx : CommitmentVerifierCtx C Setup}
    {transcript transcript' : D.Transcript} {out : ClaimsBatchingVerifier F C}
    (hpolys : self.polys commitCtx = polys)
    (h : claimsBatchingSumcheck D self sumcheckProof sumcheckEvals commitCtx transcript =
      .ok (out, self', transcript')) :
    ∃ expr subclaim,
      buildSumcheckExpression D (polys.map infoOf) = .ok expr ∧
      D.verifySumcheck
        (claimedSum (batchingChallenge D transcript polys).1 (batchOf transcript polys).evals)
        sumcheckProof ⟨2, (batchOf transcript polys).maxNumVars⟩
        (batchingChallenge D transcript polys).2 = .ok (subclaim, transcript') ∧
      D.eval (sumcheckEvals ++ (boundClaims 0 polys).map fun b => b.eqEval subclaim.point)
        [(batchingChallenge D transcript polys).1] expr = .ok subclaim.expectedEvaluation ∧
      out = ⟨subclaim.point, (batchOf transcript polys).commitments⟩ := by
  simp only [claimsBatchingSumcheck, Outcome.bind_eq_ok, Prod.exists] at h
  obtain ⟨modelClaims, batch, hcollect, expr, hexpr, h⟩ := h
  obtain ⟨-, rfl⟩ := (collectClaims_eq_ok hD _).mp ⟨modelClaims, hcollect⟩
  rw [hpolys] at hexpr h
  obtain ⟨subclaim, _, hverify, eqEvals, heq, calcEval, heval, _, hcheck, hout⟩ := h
  obtain ⟨hout, -, rfl⟩ := hout
  rw [ensure_eq_ok, beq_iff_eq] at hcheck
  have heqEvals := Outcome.eq_map_of_mapM_eq_ok
    (fun eqPoint v hv => (paddedEqEval_eq_ok.mp hv).2) heq
  rw [batchOf, List.map_map] at heqEvals
  rw [heqEvals, hcheck] at heval
  exact ⟨expr, subclaim, hexpr, hverify, heval, rfl⟩

omit [DecidableEq F] in
/-- When the evaluations match, every position reads what it is meant to. -/
theorem identity_of_evalsMatch (hD : D.Lawful) {c : F} {r : List F} {expr : D.Expression} {v : F}
    (hexpr : buildSumcheckExpression D (polys.map infoOf) = .ok expr)
    (heval : D.eval (sumcheckEvals ++ (boundClaims 0 polys).map fun b => b.eqEval r) [c] expr =
      .ok v) (hmatch : EvalsMatch polys sumcheckEvals.length) :
    v = batchedEval c r sumcheckEvals (boundClaims 0 polys) := by
  -- with a claim at hand, the bounds of `EvalsMatch` hold
  have hbounds : ∀ i < (boundClaims 0 polys).length,
      sumcheckEvals.length + (boundClaims 0 polys).length ≤ 2 ^ 16 ∧
        (∀ b ∈ boundClaims 0 polys, b.offset + b.width ≤ sumcheckEvals.length) ∧
        eqPosition (totalChunks polys) i = sumcheckEvals.length + i := by
    intro i hi
    rcases hmatch with hnil | ⟨hlen, hsmall, hchunks⟩
    · rw [hnil] at hi
      nomatch hi
    · exact ⟨hsmall, hchunks, (eqFactors_iff (by omega)).mpr ⟨hlen, hsmall⟩ i hi⟩
  let eqEvals := (boundClaims 0 polys).map fun b => b.eqEval r
  have heqs : ∀ i < (termsFrom 0 (polys.map infoOf)).length,
      readWitIn (sumcheckEvals ++ eqEvals)
        (i + ((polys.map infoOf).map ChunkedCommittedPolyInfo.numChunks).sum) =
        some (eqEvals.getD i 0) := by
    intro i hi
    rw [termsFrom_infoOf, List.length_map] at hi
    have hpos := (hbounds i hi).2.2
    rw [eqPosition] at hpos
    rw [sum_numChunks_infoOf, readWitIn, hpos, List.getElem?_append_right (by omega),
      Nat.add_sub_cancel_left, List.getD_eq_getElem?_getD,
      List.getElem?_eq_getElem (by simpa [eqEvals] using hi)]
    rfl
  have hchunks : ∀ term ∈ termsFrom 0 (polys.map infoOf), ∀ j < term.2.length,
      readWitIn (sumcheckEvals ++ eqEvals) (term.1 + j) =
        some (sumcheckEvals.getD (term.1 + j) 0) := by
    intro term hterm j hj
    rw [termsFrom_infoOf, List.mem_map] at hterm
    obtain ⟨b, hb, rfl⟩ := hterm
    rw [BoundClaim.coeffs_length] at hj
    have hpos := List.length_pos_of_mem hb
    obtain ⟨hsmall, hall, -⟩ := hbounds 0 hpos
    have hle := hall b hb
    have hlt : b.offset + j < sumcheckEvals.length := by omega
    show readWitIn _ (b.offset + j) = some (sumcheckEvals.getD (b.offset + j) 0)
    rw [readWitIn_eq (by omega), List.getElem?_append_left hlt, List.getD_eq_getElem?_getD,
      List.getElem?_eq_getElem hlt]
    rfl
  obtain ⟨expr', hexpr', heval'⟩ := eval_buildSumcheckExpression (c := c) hD
    (fun p => sumcheckEvals.getD p 0) (fun i => eqEvals.getD i 0)
    (fun info hinfo => by
      obtain ⟨poly, _, rfl⟩ := List.mem_map.mp hinfo
      exact infoOf_wellFormed poly)
    hchunks heqs
  rw [hexpr, Except.ok.injEq] at hexpr'
  rw [← hexpr', heval, Except.ok.injEq, termsFrom_infoOf] at heval'
  rw [heval', batchedEval]
  apply foldTerms_eq_batchedEval
  intro p hp
  obtain ⟨-, hlt, hget⟩ := List.mem_zipIdx hp
  rw [List.getD_eq_getElem?_getD, List.getElem?_map, List.getElem?_eq_getElem (by omega), hget]
  simp

omit [DecidableEq F] in
/-- Every claim is bound exactly if the evaluations match the chunks. -/
theorem bindsEveryClaim_iff (hD : D.Lawful) {c : F} {subclaim : SumcheckSubclaim F}
    {expr : D.Expression} (hexpr : buildSumcheckExpression D (polys.map infoOf) = .ok expr)
    (heval : D.eval
      (sumcheckEvals ++ (boundClaims 0 polys).map fun b => b.eqEval subclaim.point) [c] expr =
      .ok subclaim.expectedEvaluation) :
    BindsEveryClaim polys sumcheckEvals c subclaim ↔ EvalsMatch polys sumcheckEvals.length := by
  constructor
  · intro h
    by_cases hnil : boundClaims 0 polys = []
    · exact Or.inl hnil
    · obtain ⟨hlen, hsmall⟩ := (eqFactors_iff (List.length_pos_iff.mpr hnil)).mp h.eqFactors
      exact Or.inr ⟨hlen, hsmall, h.chunks⟩
  · intro h
    have hidentity := identity_of_evalsMatch hD hexpr heval h
    rcases h with hnil | ⟨hlen, hsmall, hchunks⟩
    · rw [hnil] at hidentity
      constructor <;> simp [hnil, hidentity]
    · by_cases hnil : boundClaims 0 polys = []
      · rw [hnil] at hidentity
        constructor <;> simp [hnil, hidentity]
      · exact ⟨hchunks, hidentity, (eqFactors_iff (List.length_pos_iff.mpr hnil)).mpr ⟨hlen, hsmall⟩⟩

/-- **Opening verification binds every claim** exactly if the proof has as many
    evaluations as there are chunks: for any call that returns, with the point and
    the evaluation that the sumcheck verifier left. -/
theorem claimsBatchingSumcheck_binds_iff (hD : D.Lawful) {self self' : CommitmentVerifier F C}
    {sumcheckProof : D.IOPProof} {sumcheckEvals : List F}
    {commitCtx : CommitmentVerifierCtx C Setup} {transcript transcript' : D.Transcript}
    {out : ClaimsBatchingVerifier F C}
    (h : claimsBatchingSumcheck D self sumcheckProof sumcheckEvals commitCtx transcript =
      .ok (out, self', transcript')) :
    let polys := self.polys commitCtx
    let (c, transcript₁) := batchingChallenge D transcript polys
    ∃ subclaim,
      D.verifySumcheck (claimedSum c (batchOf transcript polys).evals) sumcheckProof
        ⟨2, (batchOf transcript polys).maxNumVars⟩ transcript₁ = .ok (subclaim, transcript') ∧
      out.point = subclaim.point ∧
      (∀ b ∈ boundClaims 0 polys, ∀ j < b.width,
        out.commitments[b.offset + j]? = b.commitment.chunkCommitments[j]?) ∧
      (BindsEveryClaim polys sumcheckEvals c subclaim ↔ EvalsMatch polys sumcheckEvals.length) := by
  obtain ⟨expr, subclaim, hexpr, hverify, heval, rfl⟩ := claimsBatchingSumcheck_ok hD rfl h
  refine ⟨subclaim, hverify, rfl, ?_, bindsEveryClaim_iff hD hexpr heval⟩
  exact fun b hb j hj => getElem?_commitments_of_boundClaim hb hj

end Main

section FalseClaim

/-- A context with one constant polynomial, in one chunk. -/
def constantCtx : CommitmentVerifierCtx String Unit :=
  ⟨(), (∅ : BTreeMap CommitmentId (VerifierCommitment String)).insert "bias" ⟨["commitment"], 0⟩⟩

/-- The claim that the constant is two. -/
def constantVerifier : CommitmentVerifier (ZMod 5) String :=
  ⟨(∅ : ModelClaims (ZMod 5)).insert "bias"
    ((∅ : BTreeMap NodeId (Claim (ZMod 5))).insert 0 ⟨[], 2⟩), ∅⟩

/-- With the evaluation of its only chunk, the claim is bound. -/
theorem claimsBatchingSumcheck_binds_constant :
    BindsEveryClaim (constantVerifier.polys constantCtx) [2] 3 ⟨[], 2⟩ := by
  have hrun : claimsBatchingSumcheck (plainCrypto fun _ => 3) constantVerifier [] [2] constantCtx []
      = .ok (⟨[], ["commitment"]⟩, ⟨∅, ∅⟩, [2, 3]) := rfl
  obtain ⟨subclaim, hverify, -, -, hbinds⟩ :=
    claimsBatchingSumcheck_binds_iff (plainCrypto_lawful fun _ => (3 : ZMod 5)) hrun
  obtain ⟨rfl, -⟩ := Prod.mk.inj (Except.ok.inj hverify)
  apply hbinds.mpr
  exact evalsMatch_of_length_eq rfl (by decide)

/-- The evaluation `1` of the only chunk is accepted for a claim of `2`: the proof
    has the evaluation `2` as well, which is read as the `eq` evaluation. -/
theorem claimsBatchingSumcheck_accepts_false_claim :
    claimsBatchingSumcheck (plainCrypto fun _ => 3) constantVerifier [] [1, 2] constantCtx [] =
        .ok (⟨[], ["commitment"]⟩, ⟨∅, ∅⟩, [2, 3]) ∧
      (plainCrypto fun _ => (3 : ZMod 5)).verifySumcheck 2 [] ⟨2, 0⟩ [2, 3] = .ok (⟨[], 2⟩, [2, 3]) ∧
      ¬ BindsEveryClaim (constantVerifier.polys constantCtx) [1, 2] 3 ⟨[], 2⟩ := by
  refine ⟨rfl, rfl, fun h => ?_⟩
  have hidentity := h.identity
  have hclaims : boundClaims 0 (constantVerifier.polys constantCtx) =
      [⟨0, ⟨["commitment"], 0⟩, ⟨[], 2⟩⟩] := rfl
  rw [hclaims] at hidentity
  revert hidentity
  decide

end FalseClaim

end DeepProve
