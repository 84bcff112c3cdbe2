import DeepProve.ForStd.WeightedSums
import DeepProve.PolyCommit.Binding

/-!
# Openings of true claims

Prover and verifier go through the claims in two loops written on their own. They
see the same polynomials in the same order, so they build the same expression and
the same transcript; the chunks and the `eq` polynomials are where the expression
reads them as long as positions fit in 16 bits.
-/

namespace DeepProve

open ChunkedCommitment CommitmentVerifier

variable {F : Type} {L : DensePolys F} {C Setup : Type}

/-- The claims about a committed polynomial, as the verifier sees them. -/
def toVerifierClaim (entry : List (Claim F) × CommittedPolynomial L C) : VerifierClaim F C :=
  ⟨entry.2.toVerifier, entry.1⟩

namespace CommitmentProver

/-- The polynomials with claims, in the order in which the prover takes them in. -/
def polys (self : CommitmentProver F)
    (witnessCommitments : HashMap NodeId (List (CommittedPolynomial L C)))
    (commitCtx : CommitmentProverCtx L C) : List (List (Claim F) × CommittedPolynomial L C) :=
  (commitCtx.modelCommitments.toList.filterMap fun entry =>
    self.modelClaims[entry.1]?.map fun claims => (claims.values, entry.2)) ++
  self.witnessClaims.toList.flatMap fun entry =>
    entry.2.zip (witnessCommitments[entry.1]?.getD [])

/-- The verifier to which the same claims have been added, each with the commitment
    of its polynomial. -/
def toVerifier (self : CommitmentProver F)
    (witnessCommitments : HashMap NodeId (List (CommittedPolynomial L C))) :
    CommitmentVerifier F C :=
  ⟨self.modelClaims, self.witnessClaims.map fun nodeId claims =>
    (claims.zip (witnessCommitments[nodeId]?.getD [])).map toVerifierClaim⟩

/-- The verifier takes in the same polynomials in the same order. -/
theorem toVerifier_polys (self : CommitmentProver F)
    (witnessCommitments : HashMap NodeId (List (CommittedPolynomial L C)))
    (commitCtx : CommitmentProverCtx L C) (verifierParams : Setup) :
    (self.toVerifier witnessCommitments).polys (commitCtx.toVerifier verifierParams) =
      (self.polys witnessCommitments commitCtx).map toVerifierClaim := by
  rw [CommitmentVerifier.polys, CommitmentProver.polys, List.map_append]
  congr 1
  · show modelPolys self.modelClaims (Std.ExtTreeMap.toList (commitCtx.modelCommitments.map _)) = _
    rw [Std.ExtTreeMap.toList_map, modelPolys, List.filterMap_map, List.map_filterMap]
    apply List.filterMap_congr
    intro entry _
    rw [Option.map_map]
    rfl
  · show (Std.ExtTreeMap.values (self.witnessClaims.map _)).flatten = _
    rw [Std.ExtTreeMap.values_eq_map_snd_toList, Std.ExtTreeMap.toList_map, List.map_map,
      List.map_flatMap, List.flatMap_def]
    rfl

section Collect

variable [CommRing F] {D : DpCrypto F}

/-- What the batch looks like after taking in the claims about a polynomial. -/
def Batch.addPoly (batch : Batch D L) (entry : List (Claim F) × CommittedPolynomial L C) :
    Batch D L where
  transcript := appendEvals D batch.transcript entry.1
  eqPolys := batch.eqPolys ++ entry.1.map fun claim => L.eqEvals (chunkPoint entry.2 claim.point)
  committedPolys := batch.committedPolys ++ entry.2.chunkedPolys
  maxNumVars := max batch.maxNumVars (chunkNumVars entry.2)
  batchingCoeffsPerPoly := batch.batchingCoeffsPerPoly ++ [infoOf (toVerifierClaim entry)]

/-- Claims that fit their polynomial are taken in. -/
theorem foldlM_batchClaim (hD : D.Lawful) {poly : CommittedPolynomial L C}
    (claims : List (Claim F)) (hfits : ∀ claim ∈ claims, Fits poly claim.point)
    (acc : Batch D L × List (List F)) :
    claims.foldlM (batchClaim D L poly) acc =
      .ok ({ acc.1 with
              transcript := appendEvals D acc.1.transcript claims
              eqPolys := acc.1.eqPolys ++ claims.map fun claim => L.eqEvals (chunkPoint poly claim.point) },
            acc.2 ++ claims.map fun claim => chunkCoeffs poly claim.point) := by
  induction claims generalizing acc with
  | nil => simp [appendEvals, pure, Except.pure]
  | cons claim claims ih =>
    obtain ⟨hclaim, hclaims⟩ := List.forall_mem_cons.mp hfits
    obtain ⟨b, hb, hle, _⟩ := id hclaim
    have hpoint := (eqPointPerChunk_eq_ok hD (c := poly)).mpr ⟨⟨b, hb, hle⟩, rfl⟩
    have hcoeffs := (batchingCoefficientsForChunks_eq_ok hD (c := poly)).mpr ⟨hclaim, rfl⟩
    rw [List.foldlM_cons]
    simp only [batchClaim, hpoint, hcoeffs, Outcome.ok_bind, ih hclaims, List.map_cons,
      List.append_assoc, List.cons_append, List.nil_append]
    rfl

/-- A polynomial whose claims fit is taken in. -/
theorem batchPoly_eq (hD : D.Lawful) {batch : Batch D L}
    {entry : List (Claim F) × CommittedPolynomial L C} (hwf : (toVerifierClaim entry).WellFormed) :
    batchPoly D L batch entry = .ok (batch.addPoly entry) := by
  obtain ⟨hfits, hsplits⟩ := hwf
  have hvars := (numVarsForChunk_eq_ok hD (c := entry.2)).mpr ⟨hsplits, rfl⟩
  simp only [batchPoly, foldlM_batchClaim hD entry.1 hfits, hvars, Outcome.ok_bind,
    List.nil_append, toChunkedInfo, List.length_map]
  rfl

theorem foldlM_batchPoly_eq (hD : D.Lawful)
    (entries : List (List (Claim F) × CommittedPolynomial L C))
    (hwf : ∀ entry ∈ entries, (toVerifierClaim entry).WellFormed) (batch : Batch D L) :
    entries.foldlM (batchPoly D L) batch = .ok (entries.foldl Batch.addPoly batch) := by
  induction entries generalizing batch with
  | nil => rfl
  | cons entry entries ih =>
    obtain ⟨hfirst, hrest⟩ := List.forall_mem_cons.mp hwf
    rw [List.foldlM_cons, batchPoly_eq hD hfirst, Outcome.ok_bind, ih hrest, List.foldl_cons]

/-- The loop over the context takes in the polynomials that have claims. -/
theorem foldlM_batchModelPoly (entries : List (CommitmentId × CommittedPolynomial L C))
    (hkeys : (entries.map Prod.fst).Nodup) (modelClaims : ModelClaims F) (batch : Batch D L) :
    entries.foldlM (batchModelPoly D L) (modelClaims, batch) =
      (entries.filterMap fun entry =>
          modelClaims[entry.1]?.map fun claims => (claims.values, entry.2)).foldlM
        (batchPoly D L) batch >>= fun batch =>
        .ok (entries.foldl (fun modelClaims entry => modelClaims.erase entry.1) modelClaims,
          batch) := by
  apply Std.ExtTreeMap.foldlM_remove (M := Outcome)
    (g := fun comm (claims : BTreeMap NodeId (Claim F)) => (claims.values, comm)) _ _ _ hkeys
  · intro acc entry claims hclaims
    simp only [batchModelPoly, hclaims]
    rfl
  · intro acc entry hclaims
    simp only [batchModelPoly, hclaims]
    rfl

/-- Every node with claims has committed to that many polynomials. -/
def HasCommitments (self : CommitmentProver F)
    (witnessCommitments : HashMap NodeId (List (CommittedPolynomial L C))) : Prop :=
  ∀ entry ∈ self.witnessClaims.toList,
    ∃ comms, witnessCommitments[entry.1]? = some comms ∧ comms.length = entry.2.length

variable {witnessCommitments : HashMap NodeId (List (CommittedPolynomial L C))}

/-- The loop over the nodes with witness claims is one over their polynomials. -/
theorem foldlM_batchWitnessNode (nodes : List (NodeId × List (List (Claim F))))
    (hcomms : ∀ entry ∈ nodes,
      ∃ comms, witnessCommitments[entry.1]? = some comms ∧ comms.length = entry.2.length)
    (batch : Batch D L) :
    nodes.foldlM (batchWitnessNode D L witnessCommitments) batch =
      (nodes.flatMap fun entry => entry.2.zip (witnessCommitments[entry.1]?.getD [])).foldlM
        (batchPoly D L) batch := by
  induction nodes generalizing batch with
  | nil => rfl
  | cons entry nodes ih =>
    obtain ⟨⟨comms, hget, hlen⟩, hrest⟩ := List.forall_mem_cons.mp hcomms
    rw [List.foldlM_cons, List.flatMap_cons, List.foldlM_append]
    simp only [batchWitnessNode, hget, okOr_some, hlen, beq_self_eq_true, ensure_true,
      Outcome.ok_bind, Option.getD_some, ih hrest]

/-- What the two loops accumulate from the start. -/
def batchOf (transcript : D.Transcript) (entries : List (List (Claim F) × CommittedPolynomial L C)) :
    Batch D L where
  transcript := appendEvals D transcript (entries.flatMap Prod.fst)
  eqPolys := ((boundClaims 0 (entries.map toVerifierClaim)).map BoundClaim.eqPoint).map L.eqEvals
  committedPolys := entries.flatMap fun entry => entry.2.chunkedPolys
  maxNumVars := (entries.map fun entry => chunkNumVars entry.2).foldl max 0
  batchingCoeffsPerPoly := (entries.map toVerifierClaim).map infoOf

theorem foldl_addPoly (entries : List (List (Claim F) × CommittedPolynomial L C))
    (batch : Batch D L) :
    entries.foldl Batch.addPoly batch =
      { transcript := appendEvals D batch.transcript (entries.flatMap Prod.fst)
        eqPolys := batch.eqPolys ++ (entries.flatMap fun entry =>
          entry.1.map fun claim => chunkPoint entry.2 claim.point).map L.eqEvals
        committedPolys := batch.committedPolys ++ entries.flatMap fun entry => entry.2.chunkedPolys
        maxNumVars := (entries.map fun entry => chunkNumVars entry.2).foldl max batch.maxNumVars
        batchingCoeffsPerPoly := batch.batchingCoeffsPerPoly ++
          (entries.map toVerifierClaim).map infoOf } := by
  induction entries generalizing batch with
  | nil => simp [appendEvals]
  | cons entry entries ih =>
    rw [List.foldl_cons, ih]
    simp only [Batch.addPoly, appendEvals, List.flatMap_cons, List.foldl_append, List.map_append,
      List.append_assoc, List.map_cons, List.foldl_cons, List.cons_append, List.nil_append,
      List.map_map]
    rfl

/-- The prover's loops return when all claims fit their polynomials. -/
theorem collectClaims_eq (hD : D.Lawful) {self : CommitmentProver F}
    (commitCtx : CommitmentProverCtx L C) (hcomms : self.HasCommitments witnessCommitments)
    (hwf : ∀ entry ∈ self.polys witnessCommitments commitCtx, (toVerifierClaim entry).WellFormed)
    (transcript : D.Transcript) :
    ∃ modelClaims, collectClaims D L self witnessCommitments commitCtx transcript =
      .ok (modelClaims, batchOf transcript (self.polys witnessCommitments commitCtx)) := by
  have hkeys : (commitCtx.modelCommitments.toList.map Prod.fst).Nodup := by
    rw [Std.ExtTreeMap.map_fst_toList_eq_keys]
    exact Std.ExtTreeMap.nodup_keys
  have hbatch : batchOf transcript (self.polys witnessCommitments commitCtx) =
      (self.polys witnessCommitments commitCtx).foldl Batch.addPoly
        (⟨transcript, [], [], 0, []⟩ : Batch D L) := by
    have hpoints := boundClaims_map_eqPoint 0
      ((self.polys witnessCommitments commitCtx).map toVerifierClaim)
    rw [List.flatMap_map] at hpoints
    rw [foldl_addPoly, batchOf, hpoints]
    rfl
  obtain ⟨hmodel, hwitness⟩ := List.forall_mem_append.mp hwf
  exists commitCtx.modelCommitments.toList.foldl
    (fun modelClaims entry => modelClaims.erase entry.1) self.modelClaims
  simp only [collectClaims, foldlM_batchModelPoly _ hkeys, foldlM_batchPoly_eq hD _ hmodel,
    foldlM_batchWitnessNode _ hcomms, foldlM_batchPoly_eq hD _ hwitness, Outcome.ok_bind]
  rw [← List.foldl_append, hbatch]
  rfl

/-- What the prover hands to the sumcheck, after its loops. -/
theorem buildVirtualPoly_eq {self : CommitmentProver F} {commitCtx : CommitmentProverCtx L C}
    {transcript : D.Transcript} {modelClaims : ModelClaims F} {batch : Batch D L}
    {expr : D.Expression} {views : List L.Poly}
    (hcollect : collectClaims D L self witnessCommitments commitCtx transcript =
      .ok (modelClaims, batch))
    (hexpr : buildSumcheckExpression D batch.batchingCoeffsPerPoly = .ok expr)
    (hviews : (batch.committedPolys ++ batch.eqPolys).mapM
      (fun poly => L.zeroPadNumVars poly batch.maxNumVars) = .ok views) :
    buildVirtualPoly D L self witnessCommitments commitCtx transcript =
      .ok (⟨batch.maxNumVars, views, expr,
          [(D.appendAndSample batch.transcript "model_batching").1]⟩, batch.committedPolys,
        { self with modelClaims := modelClaims },
        (D.appendAndSample batch.transcript "model_batching").2) := by
  simp only [buildVirtualPoly, hcollect, hexpr, hviews, Outcome.ok_bind]

end Collect

end CommitmentProver

section Padding

variable [CommRing F]

/-- The value at a point of a polynomial padded with zeros. -/
def paddedEval (L : DensePolys F) (r : List F) (p : L.Poly) : F :=
  Multilinear.eval (Multilinear.zeroPad (L.numVars p) (L.index p)) r

/-- The views of the polynomials padded to `n` variables have the padded values. -/
theorem mapM_zeroPadNumVars (hL : L.Lawful) {n : Nat} (ps : List L.Poly)
    (hvars : ∀ p ∈ ps, L.numVars p ≤ n) :
    ∃ views, ps.mapM (fun p => L.zeroPadNumVars p n) = .ok views ∧
      List.Forall₂ (fun p view => ∀ r : List F, r.length = n →
        L.evaluate view r = .ok (paddedEval L r p)) ps views := by
  induction ps with
  | nil => exact ⟨[], rfl, List.Forall₂.nil⟩
  | cons p ps ih =>
    obtain ⟨hp, hps⟩ := List.forall_mem_cons.mp hvars
    obtain ⟨views, hviews, hvals⟩ := ih hps
    obtain ⟨view, hview, hnum, hindex⟩ := hL.zeroPadNumVars p n hp
    refine ⟨view :: views, ?_, List.Forall₂.cons ?_ hvals⟩
    · rw [List.mapM_cons, hview, Outcome.ok_bind, hviews]
      rfl
    · intro r hr
      rw [hL.evaluate view r (hr.trans hnum.symm), paddedEval]
      congr 1
      apply Multilinear.eval_congr
      intro i hi
      exact hindex i (hr ▸ hi)

/-- Evaluate views that have the padded values. -/
theorem mapM_evaluate_views {n : Nat} {ps views : List L.Poly}
    (h : List.Forall₂ (fun p view => ∀ r : List F, r.length = n →
      L.evaluate view r = .ok (paddedEval L r p)) ps views) {r : List F} (hr : r.length = n) :
    views.mapM (fun view => L.evaluate view r) = .ok (ps.map (paddedEval L r)) := by
  induction h with
  | nil => rfl
  | cons hp _ ih =>
    rw [List.mapM_cons, hp r hr, Outcome.ok_bind, ih]
    rfl

/-- At a vertex the padded value is the entry of the table, or zero. -/
theorem paddedEval_vertex (p : L.Poly) {n i : Nat} (hi : i < 2 ^ n) :
    paddedEval L (Multilinear.vertex n i) p = Multilinear.zeroPad (L.numVars p) (L.index p) i :=
  Multilinear.eval_vertex _ hi

end Padding

section Terms

variable [CommRing F]

/-- The combination of claimed evaluations, as a sum. -/
theorem claimedSum_eq_sum (c : F) (evals : List F) :
    claimedSum c evals = (evals.zipIdx.map fun (e, i) => c ^ i * e).sum := by
  suffices hgen : ∀ (l : List F) (start : Nat) (sumAcc : F),
      (l.foldl (fun acc e => (acc.1 + acc.2 * e, acc.2 * c))
        (sumAcc, c ^ start)).1 = sumAcc + ((l.zipIdx start).map fun (e, i) => c ^ i * e).sum by
    have h := hgen evals 0 0
    rw [pow_zero, zero_add] at h
    exact h
  intro l
  induction l with
  | nil => simp
  | cons e l ih =>
    intro start sumAcc
    rw [List.foldl_cons, List.zipIdx_cons, List.map_cons, List.sum_cons, ← add_assoc]
    show (l.foldl _ (sumAcc + c ^ start * e, c ^ start * c)).1 = _
    rw [← pow_succ]
    exact ih _ _

/-- Sum the terms of all claims over the hypercube, claim by claim. -/
theorem sum_foldTerms (c : F) (N : Nat) (chunkVal eqVal : Nat → Nat → F)
    (bs : List (BoundClaim F C)) (start : Nat)
    (h : ∀ p ∈ bs.zipIdx start, ∑ i ∈ Finset.range N,
      combineChunks (chunkVal i) (p.1.offset, p.1.coeffs) * eqVal i p.2 = p.1.claim.eval) :
    ∑ i ∈ Finset.range N, foldTerms c (chunkVal i) (eqVal i) start
        (bs.map fun b => (b.offset, b.coeffs)) =
      ((bs.map fun b => b.claim.eval).zipIdx start |>.map fun (e, i) => c ^ i * e).sum := by
  induction bs generalizing start with
  | nil => simp [foldTerms_nil]
  | cons b bs ih =>
    rw [List.zipIdx_cons, List.forall_mem_cons] at h
    obtain ⟨hb, hrest⟩ := h
    simp only [List.map_cons, foldTerms_cons, Finset.sum_add_distrib, List.zipIdx_cons,
      List.sum_cons, ih (start + 1) hrest, mul_assoc, ← Finset.mul_sum, hb]

/-- The expression on a list of witness values that has one for each chunk and one
    for each claim. -/
theorem eval_expression_of_length {D : DpCrypto F} (hD : D.Lawful)
    {polys : List (VerifierClaim F C)} {witness : List F}
    (hlen : witness.length = totalChunks polys + (boundClaims 0 polys).length)
    (hsmall : boundClaims 0 polys = [] ∨ witness.length ≤ 2 ^ 16) (c : F) :
    ∃ expr, buildSumcheckExpression D (polys.map infoOf) = .ok expr ∧
      D.eval witness [c] expr = .ok (foldTerms c (fun p => witness.getD p 0)
        (fun i => witness.getD (i + totalChunks polys) 0) 0
        ((boundClaims 0 polys).map fun b => (b.offset, b.coeffs))) := by
  -- without claims nothing is read
  have hread : 0 < (boundClaims 0 polys).length → ∀ p < witness.length,
      readWitIn witness p = some (witness.getD p 0) := by
    intro hpos p hp
    have hsmall := hsmall.resolve_left (List.length_pos_iff.mp hpos)
    rw [readWitIn_eq (by omega), List.getD_eq_getElem?_getD, List.getElem?_eq_getElem hp]
    rfl
  rw [← termsFrom_infoOf]
  apply eval_buildSumcheckExpression hD (fun p => witness.getD p 0)
    (fun i => witness.getD (i + totalChunks polys) 0)
  · intro info hinfo
    obtain ⟨poly, _, rfl⟩ := List.mem_map.mp hinfo
    exact infoOf_wellFormed poly
  · intro term hterm j hj
    rw [termsFrom_infoOf, List.mem_map] at hterm
    obtain ⟨b, hb, rfl⟩ := hterm
    rw [BoundClaim.coeffs_length] at hj
    have hle := boundClaim_offset_le hb
    apply hread (List.length_pos_of_mem hb)
    show b.offset + j < _
    omega
  · intro i hi
    rw [termsFrom_infoOf, List.length_map] at hi
    rw [sum_numChunks_infoOf]
    apply hread <;> omega

end Terms

section Main

variable [CommRing F]

/-- Polynomials cut into a power of two of chunks, and true claims about them. -/
structure TrueClaims (entries : List (List (Claim F) × CommittedPolynomial L C)) : Prop where
  splits : ∀ entry ∈ entries, Splits entry.2
  holds : ∀ entry ∈ entries, ∀ claim ∈ entry.1,
    claim.point.length = L.numVars entry.2.polynomial ∧
      L.evaluate entry.2.polynomial claim.point = .ok claim.eval

/-- The positions the expression uses: one for each chunk and one for each claim. -/
def numPositions (entries : List (List (Claim F) × CommittedPolynomial L C)) : Nat :=
  totalChunks (entries.map toVerifierClaim) + (boundClaims 0 (entries.map toVerifierClaim)).length

/-- The positions fit in 16 bits; without claims none is used. -/
def FitsPositions (entries : List (List (Claim F) × CommittedPolynomial L C)) : Prop :=
  boundClaims 0 (entries.map toVerifierClaim) = [] ∨ numPositions entries ≤ 2 ^ 16

variable {entries : List (List (Claim F) × CommittedPolynomial L C)}
variable {entry : List (Claim F) × CommittedPolynomial L C} {b : BoundClaim F C}

omit [CommRing F] in
theorem numChunks_le_totalChunks (h : entry ∈ entries) :
    numChunks entry.2 ≤ totalChunks (entries.map toVerifierClaim) := by
  unfold totalChunks
  rw [List.map_map]
  exact List.single_le_sum (fun _ _ => Nat.zero_le _) _ (List.mem_map.mpr ⟨entry, h, rfl⟩)

omit [CommRing F] in
/-- True claims fit. -/
theorem wellFormed_of_trueClaims (htrue : TrueClaims entries) (hsmall : FitsPositions entries) :
    ∀ entry ∈ entries, (toVerifierClaim entry).WellFormed := by
  intro entry hentry
  refine ⟨?_, htrue.splits entry hentry⟩
  intro claim hclaim
  obtain ⟨b, hb, hle⟩ := htrue.splits entry hentry
  have hlen := (htrue.holds entry hentry claim hclaim).1
  have hb : numChunks entry.2 = 2 ^ b := hb
  have hle : b ≤ L.numVars entry.2.polynomial := hle
  have hchunks := numChunks_le_totalChunks hentry
  have hsome : claim ∈ (boundClaims 0 (entries.map toVerifierClaim)).map BoundClaim.claim := by
    rw [boundClaims_map_claim, List.flatMap_map]
    exact List.mem_flatMap.mpr ⟨entry, hentry, hclaim⟩
  have hsmall := hsmall.resolve_left (fun hnil => by rw [hnil] at hsome; nomatch hsome)
  unfold numPositions at hsmall
  have hpow : 2 ^ b ≤ 2 ^ 16 := by omega
  have hb16 := (Nat.pow_le_pow_iff_right (by omega)).mp hpow
  exact ⟨b, hb, by omega, by omega⟩

theorem le_foldl_max (l : List Nat) (a : Nat) : a ≤ l.foldl max a ∧ ∀ n ∈ l, n ≤ l.foldl max a := by
  induction l generalizing a with
  | nil => simp
  | cons x l ih =>
    obtain ⟨hacc, hall⟩ := ih (max a x)
    rw [List.foldl_cons]
    refine ⟨by omega, ?_⟩
    intro n hn
    rcases List.mem_cons.mp hn with rfl | hn
    · omega
    · exact hall n hn

/-- The largest number of variables of a chunk. -/
def maxNumVars (entries : List (List (Claim F) × CommittedPolynomial L C)) : Nat :=
  (entries.map fun entry => chunkNumVars entry.2).foldl max 0

omit [CommRing F] in
theorem chunkNumVars_le_maxNumVars (h : entry ∈ entries) :
    chunkNumVars entry.2 ≤ maxNumVars entries :=
  (le_foldl_max _ 0).2 _ (List.mem_map.mpr ⟨entry, h, rfl⟩)

/-- A claim of the list, with the polynomial it is about. -/
structure ClaimData (entries : List (List (Claim F) × CommittedPolynomial L C))
    (b : BoundClaim F C) (poly : CommittedPolynomial L C) : Prop where
  width : b.width = 2 ^ batchingVars poly
  numVars_eq : chunkNumVars poly = L.numVars poly.polynomial - batchingVars poly
  le : batchingVars poly ≤ L.numVars poly.polynomial
  eqPoint_length : b.eqPoint.length = chunkNumVars poly
  coords_length : (batchingCoords b.commitment b.claim.point).length = batchingVars poly
  le_max : chunkNumVars poly ≤ maxNumVars entries
  eval : Multilinear.eval (L.index poly.polynomial) b.claim.point = b.claim.eval
  chunk : ∀ j < b.width, ∃ q,
    (entries.flatMap fun entry => entry.2.chunkedPolys)[b.offset + j]? = some q ∧
      L.numVars q = chunkNumVars poly ∧
      ∀ i < 2 ^ L.numVars q, L.index q i =
        L.index poly.polynomial (j * 2 ^ L.numVars q + i)

theorem claimData_of_mem (hL : L.Lawful) (htrue : TrueClaims entries)
    (hb : b ∈ boundClaims 0 (entries.map toVerifierClaim)) :
    ∃ poly, ClaimData entries b poly := by
  have hlens : ∀ entry ∈ entries, entry.2.chunkedPolys.length =
      numChunks (toVerifierClaim entry).commitment := by
    intro entry hentry
    obtain ⟨k, hk, hle⟩ := htrue.splits entry hentry
    have hlen := hL.asViewChunks_length entry.2.polynomial k hle
    rw [← hk] at hlen
    exact hlen
  obtain ⟨entry, hentry, hcomm, hclaim, _, hget⟩ := getElem?_flatMap_of_boundClaim _ hlens hb
  obtain ⟨k, hk, hle⟩ := htrue.splits entry hentry
  obtain ⟨hlen, heval⟩ := htrue.holds entry hentry b.claim hclaim
  have hlenEq := hlens entry hentry
  obtain ⟨offset, commitment, claim⟩ := b
  subst hcomm
  have hbv : batchingVars entry.2 = k := batchingVars_of_numChunks hk
  have hbv' : batchingVars (toVerifierClaim entry).commitment = k := batchingVars_of_numChunks hk
  have hle : k ≤ L.numVars entry.2.polynomial := hle
  rw [hL.evaluate _ _ hlen, Except.ok.injEq] at heval
  have hvars : chunkNumVars entry.2 = L.numVars entry.2.polynomial - k := by
    rw [chunkNumVars, hbv]
    rfl
  refine ⟨entry.2, ?_, by rw [hvars, hbv], by omega, ?_, ?_, chunkNumVars_le_maxNumVars hentry,
    heval, ?_⟩
  · rw [hbv, ← hk]
    rfl
  · rw [BoundClaim.eqPoint, chunkPoint, List.length_take, hbv', hvars, hlen]
    omega
  · rw [batchingCoords, List.length_drop, hbv', hlen, hbv]
    omega
  · intro j hj
    have hj : j < numChunks (toVerifierClaim entry).commitment := hj
    have hlt : j < entry.2.chunkedPolys.length := by omega
    have hget := hget j hj
    rw [Nat.sub_zero, List.getElem?_eq_getElem hlt] at hget
    refine ⟨_, hget, ?_⟩
    have hlaw := hL.asViewChunks entry.2.polynomial k j entry.2.chunkedPolys[j] hle (by
      rw [← hk]
      exact List.getElem?_eq_getElem hlt)
    rw [hvars]
    exact hlaw

/-- All polynomials the expression reads: the chunks, then the `eq` polynomials. -/
def readPolys (entries : List (List (Claim F) × CommittedPolynomial L C)) : List L.Poly :=
  (entries.flatMap fun entry => entry.2.chunkedPolys) ++
    ((boundClaims 0 (entries.map toVerifierClaim)).map BoundClaim.eqPoint).map L.eqEvals

theorem length_chunkedPolys (hL : L.Lawful) (htrue : TrueClaims entries) :
    (entries.flatMap fun entry => entry.2.chunkedPolys).length =
      totalChunks (entries.map toVerifierClaim) := by
  unfold totalChunks
  rw [List.length_flatMap, List.map_map]
  congr 1
  apply List.map_congr_left
  intro entry hentry
  obtain ⟨k, hk, hle⟩ := htrue.splits entry hentry
  have hlen := hL.asViewChunks_length entry.2.polynomial k hle
  rw [← hk] at hlen
  exact hlen

/-- The `eq` polynomial of the `t`-th claim is read at its position. -/
theorem getElem?_readPolys_eq (hL : L.Lawful) (htrue : TrueClaims entries) {t : Nat}
    (hb : (b, t) ∈ (boundClaims 0 (entries.map toVerifierClaim)).zipIdx) :
    (readPolys entries)[t + totalChunks (entries.map toVerifierClaim)]? =
      some (L.eqEvals b.eqPoint) := by
  have hget := List.mem_zipIdx_iff_getElem?.mp hb
  have hlen := length_chunkedPolys hL htrue
  rw [readPolys, List.getElem?_append_right (by omega), hlen, Nat.add_sub_cancel,
    List.getElem?_map, List.getElem?_map, hget]
  rfl

/-- The tables of the polynomials, padded, at a vertex. -/
theorem getD_readPolys_vertex {p : Nat} {q : L.Poly} (hq : (readPolys entries)[p]? = some q)
    {n i : Nat} (hi : i < 2 ^ n) :
    ((readPolys entries).map (paddedEval L (Multilinear.vertex n i))).getD p 0 =
      Multilinear.zeroPad (L.numVars q) (L.index q) i := by
  rw [List.getD_eq_getElem?_getD, List.getElem?_map, hq, Option.map_some, Option.getD_some,
    paddedEval_vertex q hi]

/-- **One claim.** Its combination of chunks times its `eq` polynomial adds up to
    the claimed evaluation: the weights of the chunks put the polynomial back
    together. -/
theorem sum_claim (hL : L.Lawful) (htrue : TrueClaims entries) {t : Nat}
    (hb : (b, t) ∈ (boundClaims 0 (entries.map toVerifierClaim)).zipIdx) :
    ∑ i ∈ Finset.range (2 ^ maxNumVars entries),
      combineChunks (fun p => ((readPolys entries).map
          (paddedEval L (Multilinear.vertex (maxNumVars entries) i))).getD p 0)
        (b.offset, b.coeffs) *
      ((readPolys entries).map (paddedEval L (Multilinear.vertex (maxNumVars entries) i))).getD
        (t + totalChunks (entries.map toVerifierClaim)) 0 = b.claim.eval := by
  obtain ⟨poly, hdata⟩ := claimData_of_mem hL htrue
    (List.mem_of_getElem? (List.mem_zipIdx_iff_getElem?.mp hb))
  let k := chunkNumVars poly
  let chunk (j i : Nat) : F := L.index poly.polynomial (j * 2 ^ k + i)
  let weight := Multilinear.eqWeight (batchingCoords b.commitment b.claim.point)
  -- what is read at a vertex
  have hread : ∀ i ∈ Finset.range (2 ^ maxNumVars entries),
      combineChunks (fun p => ((readPolys entries).map
          (paddedEval L (Multilinear.vertex (maxNumVars entries) i))).getD p 0)
        (b.offset, b.coeffs) *
      ((readPolys entries).map (paddedEval L (Multilinear.vertex (maxNumVars entries) i))).getD
        (t + totalChunks (entries.map toVerifierClaim)) 0 =
      ∑ j ∈ Finset.range b.width, weight j *
        (Multilinear.zeroPad k (chunk j) i *
          Multilinear.zeroPad k (Multilinear.eqWeight b.eqPoint) i) := by
    intro i hi
    have hi := Finset.mem_range.mp hi
    obtain ⟨hvars, hindex⟩ := hL.eqEvals b.eqPoint
    rw [getD_readPolys_vertex (getElem?_readPolys_eq hL htrue hb) hi, hvars,
      Multilinear.zeroPad_congr hindex, hdata.eqPoint_length, BoundClaim.coeffs, chunkCoeffs,
      combineChunks_range, Finset.sum_mul]
    apply Finset.sum_congr rfl
    intro j hj
    obtain ⟨q, hq, hqvars, hqindex⟩ := hdata.chunk j (Finset.mem_range.mp hj)
    have hq' : (readPolys entries)[b.offset + j]? = some q := by
      have hlt := (List.getElem?_eq_some_iff.mp hq).1
      rw [readPolys, List.getElem?_append_left hlt, hq]
    rw [getD_readPolys_vertex hq' hi, Multilinear.zeroPad_congr hqindex, hqvars, mul_assoc]
  rw [Finset.sum_congr rfl hread, Finset.sum_comm]
  -- over the hypercube a chunk times the `eq` polynomial is an evaluation
  have hchunk : ∀ j, ∑ i ∈ Finset.range (2 ^ maxNumVars entries), weight j *
      (Multilinear.zeroPad k (chunk j) i *
        Multilinear.zeroPad k (Multilinear.eqWeight b.eqPoint) i) =
      weight j * Multilinear.eval (chunk j) b.eqPoint := by
    intro j
    rw [← Finset.mul_sum, Multilinear.sum_zeroPad_mul hdata.le_max, Multilinear.eval,
      hdata.eqPoint_length]
  simp only [hchunk]
  have hpoint : b.eqPoint ++ batchingCoords b.commitment b.claim.point = b.claim.point :=
    chunkPoint_append_batchingCoords _ _
  rw [← hdata.eval, ← hpoint, Multilinear.eval_append, hdata.coords_length, ← hdata.width,
    hdata.eqPoint_length]

/-- What prover and verifier have in common, the verifier's batch being `batch`. -/
structure Agree (D : DpCrypto F) (L : DensePolys F) (transcript : D.Transcript)
    (proverBatch : CommitmentProver.Batch D L) (vp : VirtualPolynomial D L)
    (batch : CommitmentVerifier.Batch D C) (c : F) : Prop where
  /-- The same evaluations go to the transcript in the same order; the verifier
      adds up these evaluations. -/
  claims : ∃ claims, proverBatch.transcript = appendEvals D transcript claims ∧
    batch.transcript = appendEvals D transcript claims ∧ batch.evals = claims.map Claim.eval
  expression : buildSumcheckExpression D batch.batchingCoefficientsPerPoly = .ok vp.expression
  numVars : vp.numVars = batch.maxNumVars
  /-- Over the hypercube the prover's polynomial adds up to the verifier's claim. -/
  sum : ∃ value : Nat → F,
    (∀ i < 2 ^ vp.numVars, vp.evaluate (Multilinear.vertex vp.numVars i) = .ok (value i)) ∧
    ∑ i ∈ Finset.range (2 ^ vp.numVars), value i = claimedSum c batch.evals
  /-- On the evaluations of the chunks, the verifier computes the prover's polynomial. -/
  finalCheck : ∀ r : List F, r.length = vp.numVars → ∃ chunkEvals eqEvals x,
    (vp.mles.take proverBatch.committedPolys.length).mapM (fun p => L.evaluate p r) =
      .ok chunkEvals ∧
    batch.eqPoints.mapM (paddedEqEval r) = .ok eqEvals ∧
    D.eval (chunkEvals ++ eqEvals) [c] vp.expression = .ok x ∧ vp.evaluate r = .ok x

/-- All polynomials can be padded to the largest number of variables. -/
theorem numVars_readPolys_le (hL : L.Lawful) (htrue : TrueClaims entries) :
    ∀ p ∈ readPolys entries, L.numVars p ≤ maxNumVars entries := by
  intro p hp
  rcases List.mem_append.mp hp with hp | hp
  · obtain ⟨entry, hentry, hp⟩ := List.mem_flatMap.mp hp
    obtain ⟨j, hj⟩ := List.mem_iff_getElem?.mp hp
    obtain ⟨k, hk, hle⟩ := htrue.splits entry hentry
    have hnum := (hL.asViewChunks entry.2.polynomial k j p hle (by rw [← hk]; exact hj)).1
    have hmax := chunkNumVars_le_maxNumVars hentry
    rw [chunkNumVars, batchingVars_of_numChunks hk] at hmax
    rw [hnum]
    exact hmax
  · simp only [List.mem_map] at hp
    obtain ⟨_, ⟨b, hb, rfl⟩, rfl⟩ := hp
    obtain ⟨poly, hdata⟩ := claimData_of_mem hL htrue hb
    rw [(hL.eqEvals b.eqPoint).1, hdata.eqPoint_length]
    exact hdata.le_max

/-- The values of all polynomials the expression reads. -/
def readVals (entries : List (List (Claim F) × CommittedPolynomial L C)) (r : List F) : List F :=
  (readPolys entries).map (paddedEval L r)

theorem length_readVals (hL : L.Lawful) (htrue : TrueClaims entries) (r : List F) :
    (readVals entries r).length = numPositions entries := by
  rw [readVals, List.length_map, readPolys, List.length_append, length_chunkedPolys hL htrue,
    List.length_map, List.length_map]
  rfl

/-- The one expression of prover and verifier, on these values. -/
theorem eval_readVals {D : DpCrypto F} (hD : D.Lawful) (hL : L.Lawful) (htrue : TrueClaims entries)
    (hsmall : FitsPositions entries) (c : F) :
    ∃ expr, buildSumcheckExpression D ((entries.map toVerifierClaim).map infoOf) = .ok expr ∧
      ∀ r, D.eval (readVals entries r) [c] expr =
        .ok (foldTerms c (fun p => (readVals entries r).getD p 0)
          (fun i => (readVals entries r).getD (i + totalChunks (entries.map toVerifierClaim)) 0) 0
          ((boundClaims 0 (entries.map toVerifierClaim)).map fun b => (b.offset, b.coeffs))) := by
  have heval := fun r => eval_expression_of_length hD (length_readVals hL htrue r)
    (by rw [length_readVals hL htrue]; exact hsmall) c
  obtain ⟨expr, hexpr, -⟩ := heval []
  refine ⟨expr, hexpr, ?_⟩
  intro r
  obtain ⟨expr', hexpr', hval⟩ := heval r
  rw [hexpr, Except.ok.injEq] at hexpr'
  rw [hexpr']
  exact hval

/-- Over the hypercube the expression adds up to the combination of the claims. -/
theorem sum_readVals (hL : L.Lawful) (htrue : TrueClaims entries) (c : F) :
    ∑ i ∈ Finset.range (2 ^ maxNumVars entries),
      foldTerms c
        (fun p => (readVals entries (Multilinear.vertex (maxNumVars entries) i)).getD p 0)
        (fun t => (readVals entries (Multilinear.vertex (maxNumVars entries) i)).getD
          (t + totalChunks (entries.map toVerifierClaim)) 0) 0
        ((boundClaims 0 (entries.map toVerifierClaim)).map fun b => (b.offset, b.coeffs)) =
      claimedSum c ((entries.flatMap Prod.fst).map Claim.eval) := by
  let vals (i : Nat) : List F := readVals entries (Multilinear.vertex (maxNumVars entries) i)
  have hsum := sum_foldTerms c (2 ^ maxNumVars entries) (fun i p => (vals i).getD p 0)
    (fun i t => (vals i).getD (t + totalChunks (entries.map toVerifierClaim)) 0)
    (boundClaims 0 (entries.map toVerifierClaim)) 0 (fun p hp => sum_claim (t := p.2) hL htrue hp)
  have hclaims := boundClaims_map_claim 0 (entries.map toVerifierClaim)
  rw [List.flatMap_map] at hclaims
  rw [hsum, claimedSum_eq_sum]
  show _ = (((entries.flatMap fun entry => (toVerifierClaim entry).claims).map
    Claim.eval).zipIdx.map _).sum
  rw [← hclaims, List.map_map]
  rfl

/-- The verifier's `eq` evaluations are the values of the prover's `eq` polynomials. -/
theorem mapM_paddedEqEval (hL : L.Lawful) (htrue : TrueClaims entries) {r : List F}
    (hr : r.length = maxNumVars entries) :
    ((boundClaims 0 (entries.map toVerifierClaim)).map BoundClaim.eqPoint).mapM (paddedEqEval r) =
      .ok ((((boundClaims 0 (entries.map toVerifierClaim)).map BoundClaim.eqPoint).map
        L.eqEvals).map (paddedEval L r)) := by
  rw [List.map_map]
  apply Outcome.mapM_eq_ok_map
  intro eqPoint hmem
  obtain ⟨b, hb, rfl⟩ := List.mem_map.mp hmem
  obtain ⟨poly, hdata⟩ := claimData_of_mem hL htrue hb
  obtain ⟨hvars, hindex⟩ := hL.eqEvals b.eqPoint
  apply paddedEqEval_eq_ok.mpr
  refine ⟨by rw [hr, hdata.eqPoint_length]; exact hdata.le_max, ?_⟩
  show Multilinear.eval (Multilinear.zeroPad (L.numVars (L.eqEvals b.eqPoint)) _) r = _
  rw [hvars]
  apply Multilinear.eval_congr
  intro i _
  exact Multilinear.zeroPad_congr hindex i

/-- **Opening completeness.** Prover and verifier agree about true claims, when the
    positions of chunks and claims fit in 16 bits. -/
theorem opening_complete {D : DpCrypto F} (hD : D.Lawful) (hL : L.Lawful)
    {prover : CommitmentProver F}
    {witnessCommitments : HashMap NodeId (List (CommittedPolynomial L C))}
    {commitCtx : CommitmentProverCtx L C} (verifierParams : Setup) (transcript : D.Transcript)
    (hcomms : prover.HasCommitments witnessCommitments)
    (htrue : TrueClaims (prover.polys witnessCommitments commitCtx))
    (hsmall : FitsPositions (prover.polys witnessCommitments commitCtx)) :
    ∃ left proverBatch vp left' batch c transcript',
      prover.collectClaims D L witnessCommitments commitCtx transcript = .ok (left, proverBatch) ∧
      prover.buildVirtualPoly D L witnessCommitments commitCtx transcript =
        .ok (vp, proverBatch.committedPolys, { prover with modelClaims := left }, transcript') ∧
      CommitmentVerifier.collectClaims D (prover.toVerifier witnessCommitments)
        (commitCtx.toVerifier verifierParams) transcript = .ok (left', batch) ∧
      D.appendAndSample batch.transcript "model_batching" = (c, transcript') ∧
      Agree D L transcript proverBatch vp batch c := by
  have hwf := wellFormed_of_trueClaims htrue hsmall
  obtain ⟨left, hprover⟩ := CommitmentProver.collectClaims_eq hD commitCtx hcomms hwf transcript
  have hpolys := CommitmentProver.toVerifier_polys prover witnessCommitments commitCtx verifierParams
  obtain ⟨left', hverifier⟩ := (collectClaims_eq_ok hD transcript).mpr
    ⟨by rw [hpolys]; exact List.forall_mem_map.mpr hwf, rfl⟩
  rw [hpolys] at hverifier
  let entries := prover.polys witnessCommitments commitCtx
  let proverBatch : CommitmentProver.Batch D L := CommitmentProver.batchOf transcript entries
  let batch : Batch D C := batchOf transcript (entries.map toVerifierClaim)
  let c := (D.appendAndSample proverBatch.transcript "model_batching").1
  have hclaims : (entries.map toVerifierClaim).flatMap VerifierClaim.claims =
      entries.flatMap Prod.fst := by
    rw [List.flatMap_map]
    rfl
  have htranscript : batch.transcript = proverBatch.transcript := by
    show appendEvals D transcript _ = appendEvals D transcript _
    rw [hclaims]
  -- the views the prover hands to the sumcheck
  obtain ⟨views, hviews, hvals⟩ :=
    mapM_zeroPadNumVars hL (readPolys entries) (numVars_readPolys_le hL htrue)
  obtain ⟨expr, hexpr, heval⟩ := eval_readVals hD hL htrue hsmall c
  let vp : VirtualPolynomial D L := ⟨maxNumVars entries, views, expr, [c]⟩
  have hvp : ∀ r : List F, r.length = maxNumVars entries →
      vp.evaluate r = D.eval (readVals entries r) [c] expr := by
    intro r hr
    unfold VirtualPolynomial.evaluate
    rw [mapM_evaluate_views hvals hr, Outcome.ok_bind]
    rfl
  refine ⟨left, proverBatch, vp, left', batch, c,
    (D.appendAndSample proverBatch.transcript "model_batching").2, hprover, ?_, hverifier,
    by rw [htranscript], ?_⟩
  · exact CommitmentProver.buildVirtualPoly_eq hprover hexpr hviews
  · refine ⟨⟨entries.flatMap Prod.fst, rfl, htranscript, ?_⟩, hexpr, ?_, ?_, ?_⟩
    · show ((entries.map toVerifierClaim).flatMap VerifierClaim.claims).map Claim.eval = _
      rw [hclaims]
    · show maxNumVars entries = ((entries.map toVerifierClaim).map fun _ => _).foldl max 0
      rw [List.map_map]
      rfl
    · -- sum over the hypercube, claim by claim
      refine ⟨fun i => _, fun i _ =>
        (hvp _ (Multilinear.vertex_length _ _)).trans (heval (Multilinear.vertex _ i)), ?_⟩
      rw [sum_readVals hL htrue]
      show _ = claimedSum c (((entries.map toVerifierClaim).flatMap VerifierClaim.claims).map
        Claim.eval)
      rw [hclaims]
    · intro r hr
      refine ⟨(entries.flatMap fun entry => entry.2.chunkedPolys).map (paddedEval L r), _, _, ?_,
        mapM_paddedEqEval hL htrue hr, ?_, (hvp r hr).trans (heval r)⟩
      · have htake := List.forall₂_take proverBatch.committedPolys.length hvals
        rw [show (readPolys entries).take proverBatch.committedPolys.length =
          entries.flatMap fun entry => entry.2.chunkedPolys from List.take_left] at htake
        exact mapM_evaluate_views htake hr
      · rw [← List.map_append]
        exact heval r

end Main

section Sound

variable {F : Type} [Field F] [DecidableEq F] {L : DensePolys F}
variable {entries : List (List (Claim F) × CommittedPolynomial L C)}

omit [DecidableEq F] in
theorem claimedSum_eq_sum_range (c : F) (evals : List F) :
    claimedSum c evals = ∑ i ∈ Finset.range evals.length, c ^ i * evals.getD i 0 := by
  have hlist : ∀ f : F × Nat → F, evals.zipIdx.map f =
      (List.range evals.length).map fun i => f (evals.getD i 0, i) := by
    intro f
    apply List.ext_getElem
    · simp
    · intro i hi _
      have hi : i < evals.length := by simpa using hi
      simp [List.getD_eq_getElem?_getD, List.getElem?_eq_getElem hi]
  rw [claimedSum_eq_sum, hlist]
  rfl

/-- **Opening soundness.** If claimed evaluations are not the true ones, their combination is the sum
    over the hypercube for fewer batching challenges than there are claims. -/
theorem opening_sound {D : DpCrypto F} (hD : D.Lawful) (hL : L.Lawful) (htrue : TrueClaims entries)
    (hsmall : FitsPositions entries) {claimed : List F}
    (hlength : claimed.length = (entries.flatMap Prod.fst).length)
    (hfalse : claimed ≠ (entries.flatMap Prod.fst).map Claim.eval) :
    ∃ lucky : Finset F, lucky.card < claimed.length ∧ ∀ c expr (value : Nat → F),
      buildSumcheckExpression D ((entries.map toVerifierClaim).map infoOf) = .ok expr →
      (∀ i < 2 ^ maxNumVars entries,
        D.eval (readVals entries (Multilinear.vertex (maxNumVars entries) i)) [c] expr =
          .ok (value i)) →
      ∑ i ∈ Finset.range (2 ^ maxNumVars entries), value i = claimedSum c claimed → c ∈ lucky := by
  have hevals : claimed.length = ((entries.flatMap Prod.fst).map Claim.eval).length := by
    rw [List.length_map, hlength]
  obtain ⟨lucky, hcard, hlucky⟩ := WeightedSums.exists_agreements hevals hfalse
  refine ⟨lucky, hcard, fun c expr value hexpr hvalue hsum => hlucky c ?_⟩
  obtain ⟨expr', hexpr', heval⟩ := eval_readVals hD hL htrue hsmall c
  obtain rfl := Except.ok.inj (hexpr.symm.trans hexpr')
  -- the expression adds up to the true evaluations
  have htruth := sum_readVals hL htrue c
  rw [← Finset.sum_congr rfl fun i hi => Except.ok.inj
    ((hvalue i (Finset.mem_range.mp hi)).symm.trans (heval _)), hsum, claimedSum_eq_sum_range,
    claimedSum_eq_sum_range, ← hevals] at htruth
  exact htruth

end Sound

section Overflow

/-- A prover with claims about one polynomial of one node. -/
def singleProver (claims : List (Claim (ZMod 5))) : CommitmentProver (ZMod 5) :=
  ⟨∅, (∅ : BTreeMap NodeId (List (List (Claim (ZMod 5))))).insert 0 [claims]⟩

def singleCommitments (poly : CommittedPolynomial (plainPolys (ZMod 5)) String) :
    HashMap NodeId (List (CommittedPolynomial (plainPolys (ZMod 5)) String)) :=
  (∅ : HashMap NodeId (List (CommittedPolynomial (plainPolys (ZMod 5)) String))).insert 0 [poly]

def noModel : CommitmentProverCtx (plainPolys (ZMod 5)) String := ⟨∅⟩

/-- The constant two, in one chunk. -/
def constantTwo : CommittedPolynomial (plainPolys (ZMod 5)) String :=
  ⟨["commitment"], (0, fun _ => 2)⟩

/-- The values one and three, in two chunks. -/
def oneThree : CommittedPolynomial (plainPolys (ZMod 5)) String :=
  ⟨["first", "second"], (1, fun i => if i = 0 then 1 else 3)⟩

theorem singleProver_hasCommitments (claims : List (Claim (ZMod 5)))
    (poly : CommittedPolynomial (plainPolys (ZMod 5)) String) :
    (singleProver claims).HasCommitments (singleCommitments poly) := by
  intro entry hentry
  obtain rfl := List.mem_singleton.mp (show entry ∈ [(0, [claims])] from hentry)
  exact ⟨[poly], rfl, rfl⟩

/-- Prover and verifier agree about the claim that the second polynomial is zero
    at the point two. -/
theorem opening_complete_oneThree :
    ∃ left proverBatch vp left' batch c transcript',
      (singleProver [⟨[2], 0⟩]).collectClaims (plainCrypto fun _ => 3) (plainPolys (ZMod 5))
        (singleCommitments oneThree) noModel [] = .ok (left, proverBatch) ∧
      (singleProver [⟨[2], 0⟩]).buildVirtualPoly (plainCrypto fun _ => 3) (plainPolys (ZMod 5))
        (singleCommitments oneThree) noModel [] =
        .ok (vp, proverBatch.committedPolys, ⟨left, (singleProver [⟨[2], 0⟩]).witnessClaims⟩,
          transcript') ∧
      CommitmentVerifier.collectClaims (plainCrypto fun _ => 3)
        ((singleProver [⟨[2], 0⟩]).toVerifier (singleCommitments oneThree))
        (noModel.toVerifier ()) [] = .ok (left', batch) ∧
      (plainCrypto fun _ => 3).appendAndSample batch.transcript "model_batching" =
        (c, transcript') ∧
      Agree (plainCrypto fun _ => 3) (plainPolys (ZMod 5)) [] proverBatch vp batch c := by
  apply opening_complete (plainCrypto_lawful fun _ => 3) plainPolys_lawful ()
  · exact singleProver_hasCommitments _ _
  · show TrueClaims [([⟨[2], 0⟩], oneThree)]
    refine ⟨?_, ?_⟩
    · intro entry hentry
      obtain rfl := List.mem_singleton.mp hentry
      exact ⟨1, rfl, le_refl 1⟩
    · intro entry hentry claim hclaim
      obtain rfl := List.mem_singleton.mp hentry
      obtain rfl := List.mem_singleton.mp hclaim
      refine ⟨rfl, ?_⟩
      decide
  · apply Or.inr
    show 3 ≤ 2 ^ 16
    omega

/-- Many nodes, or one node many times, claim that the constant is two. -/
def manyClaims (n : Nat) : List (Claim (ZMod 5)) := List.replicate n ⟨[], 2⟩

theorem boundClaims_manyClaims (n : Nat) :
    boundClaims 0 ([(manyClaims n, constantTwo)].map toVerifierClaim) =
      List.replicate n ⟨0, constantTwo.toVerifier, ⟨[], 2⟩⟩ := by
  show (manyClaims n).map _ ++ [] = _
  rw [List.append_nil, manyClaims, List.map_replicate]
  rfl

theorem manyClaims_true (n : Nat) : TrueClaims [(manyClaims n, constantTwo)] := by
  refine ⟨?_, ?_⟩
  · intro entry hentry
    obtain rfl := List.mem_singleton.mp hentry
    exact ⟨0, rfl, le_refl 0⟩
  · intro entry hentry claim hclaim
    obtain rfl := List.mem_singleton.mp hentry
    obtain rfl := List.eq_of_mem_replicate hclaim
    refine ⟨rfl, ?_⟩
    show (plainPolys (ZMod 5)).evaluate constantTwo.polynomial [] = .ok 2
    decide

/-- Three and one are claimed where both evaluations are two. -/
theorem opening_sound_manyClaims : ∃ lucky : Finset (ZMod 5), lucky.card < 2 ∧
    ∀ c expr (value : Nat → ZMod 5),
      buildSumcheckExpression (plainCrypto fun _ => 1)
        (([(manyClaims 2, constantTwo)].map toVerifierClaim).map infoOf) = .ok expr →
      (∀ i < 2 ^ 0, (plainCrypto fun _ => 1).eval
        (readVals [(manyClaims 2, constantTwo)] (Multilinear.vertex 0 i)) [c] expr = .ok (value i)) →
      ∑ i ∈ Finset.range (2 ^ 0), value i = claimedSum c [3, 1] → c ∈ lucky := by
  have hsmall : numPositions [(manyClaims 2, constantTwo)] ≤ 2 ^ 16 := by
    show 3 ≤ 2 ^ 16
    omega
  exact opening_sound (plainCrypto_lawful _) plainPolys_lawful (manyClaims_true 2) (.inr hsmall)
    (by rfl) (show [3, 1] ≠ _ by decide)

/-- The chunk has value two, every `eq` polynomial value one. -/
theorem readVals_manyClaims (n : Nat) :
    readVals [(manyClaims n, constantTwo)] [] = 2 :: List.replicate n 1 := by
  unfold readVals readPolys
  rw [boundClaims_manyClaims, List.map_append, List.map_replicate, List.map_replicate,
    List.map_replicate]
  have heq : paddedEval (plainPolys (ZMod 5)) [] ((plainPolys (ZMod 5)).eqEvals
      (BoundClaim.eqPoint ⟨0, constantTwo.toVerifier, ⟨[], 2⟩⟩)) = 1 := by decide
  rw [heq]
  congr 1

/-- With `1` for the challenge, the terms are just added up. -/
theorem foldTerms_replicate (chunkVal eqVal : Nat → ZMod 5) (n start : Nat) :
    foldTerms 1 chunkVal eqVal start (List.replicate n (0, [1])) =
      ∑ i ∈ Finset.range n, chunkVal 0 * eqVal (start + i) := by
  induction n generalizing start with
  | zero => rfl
  | succ n ih =>
    rw [List.replicate_succ, foldTerms_cons, ih, Finset.sum_range_succ', add_comm, one_pow]
    congr 1
    · apply Finset.sum_congr rfl
      intro i _
      rw [Nat.add_assoc, Nat.add_comm 1 i]
    · simp [combineChunks]

/-- **Too many claims.** With 2^16 claims about one constant, the `eq` polynomial of
    the last one is read from position 2^16, which is that of the chunk: its term is
    `2 * 2` instead of `2 * 1`. -/
theorem opening_incomplete :
    TrueClaims [(manyClaims 65536, constantTwo)] ∧
      ∃ vp committed prover transcript,
        (singleProver (manyClaims 65536)).buildVirtualPoly (plainCrypto fun _ => 1)
          (plainPolys (ZMod 5)) (singleCommitments constantTwo) noModel [] =
          .ok (vp, committed, prover, transcript) ∧
        vp.numVars = 0 ∧ vp.challenges = [1] ∧
        vp.evaluate (Multilinear.vertex 0 0) = .ok 4 ∧
        claimedSum (1 : ZMod 5) ((manyClaims 65536).map Claim.eval) = 2 := by
  have htrue := manyClaims_true 65536
  have hD : (plainCrypto fun _ => (1 : ZMod 5)).Lawful := plainCrypto_lawful _
  have hwf : ∀ entry ∈ [(manyClaims 65536, constantTwo)], (toVerifierClaim entry).WellFormed := by
    intro entry hentry
    obtain rfl := List.mem_singleton.mp hentry
    refine ⟨?_, ⟨0, rfl, le_refl 0⟩⟩
    intro claim hclaim
    obtain rfl := List.eq_of_mem_replicate hclaim
    exact ⟨0, rfl, le_refl 0, Nat.zero_le _⟩
  obtain ⟨left, hcollect⟩ := CommitmentProver.collectClaims_eq (L := plainPolys (ZMod 5)) hD noModel
    (singleProver_hasCommitments (manyClaims 65536) constantTwo) hwf []
  obtain ⟨views, hviews, hvals⟩ := mapM_zeroPadNumVars plainPolys_lawful
    (readPolys [(manyClaims 65536, constantTwo)]) (numVars_readPolys_le plainPolys_lawful htrue)
  -- the last `eq` polynomial is read from position zero
  have hreadEq : ∀ i < 65536, readWitIn (2 :: List.replicate 65536 (1 : ZMod 5)) (i + 1) =
      some (if i = 65535 then 2 else 1) := by
    intro i hi
    split
    · next hlast =>
      subst hlast
      rfl
    · next hne =>
      rw [readWitIn_eq (by omega), List.getElem?_cons_succ, List.getElem?_replicate, if_pos hi]
  have hterms : termsFrom 0 (([(manyClaims 65536, constantTwo)].map toVerifierClaim).map infoOf) =
      List.replicate 65536 (0, [(1 : ZMod 5)]) := by
    have hcoeffs : BoundClaim.coeffs ⟨0, constantTwo.toVerifier, ⟨[], (2 : ZMod 5)⟩⟩ = [1] := by
      decide
    rw [termsFrom_infoOf, boundClaims_manyClaims, List.map_replicate, hcoeffs]
  have hinfos : ∀ info ∈ ([(manyClaims 65536, constantTwo)].map toVerifierClaim).map infoOf,
      info.WellFormed := by
    intro info hinfo
    obtain ⟨poly, _, rfl⟩ := List.mem_map.mp hinfo
    exact infoOf_wellFormed poly
  have hreadChunks : ∀ term ∈ List.replicate 65536 (0, [(1 : ZMod 5)]), ∀ j < term.2.length,
      readWitIn (2 :: List.replicate 65536 (1 : ZMod 5)) (term.1 + j) = some 2 := by
    intro term hterm j hj
    obtain rfl := List.eq_of_mem_replicate hterm
    obtain rfl : j = 0 := by simpa using hj
    rfl
  rw [← hterms] at hreadChunks
  obtain ⟨expr, hexpr, heval⟩ := eval_buildSumcheckExpression (c := 1) hD (fun _ => 2)
    (fun i => if i = 65535 then 2 else 1) hinfos hreadChunks (by
      rw [hterms, List.length_replicate]
      exact hreadEq)
  refine ⟨htrue, _, _, _, _, CommitmentProver.buildVirtualPoly_eq hcollect hexpr hviews, rfl, rfl,
    ?_, ?_⟩
  · unfold VirtualPolynomial.evaluate
    show (views.mapM _ >>= fun evals => (plainCrypto fun _ => (1 : ZMod 5)).eval evals [1] expr) = _
    rw [mapM_evaluate_views hvals rfl, Outcome.ok_bind]
    show (plainCrypto fun _ => (1 : ZMod 5)).eval
      (readVals [(manyClaims 65536, constantTwo)] []) [1] expr = _
    rw [readVals_manyClaims, heval, hterms, foldTerms_replicate, Finset.sum_range_succ]
    have hfirst : ∀ i ∈ Finset.range 65535,
        (2 : ZMod 5) * (if 0 + i = 65535 then 2 else 1) = 2 := by
      intro i hi
      have hi := Finset.mem_range.mp hi
      rw [if_neg (by omega), mul_one]
    rw [Finset.sum_congr rfl hfirst, Finset.sum_const, Finset.card_range, nsmul_eq_mul]
    rfl
  · have hsum : (manyClaims 65536).map Claim.eval = List.replicate 65536 2 := by
      rw [manyClaims, List.map_replicate]
    have hone : ∀ p : ZMod 5 × Nat, (1 : ZMod 5) ^ p.2 * p.1 = p.1 := by
      intro p
      rw [one_pow, one_mul]
    rw [claimedSum_eq_sum, hsum]
    simp only [hone, List.zipIdx_map_fst, List.sum_replicate, nsmul_eq_mul]
    rfl

end Overflow

end DeepProve
