import DeepProve.AttentionMask.Agreement
import DeepProve.AttentionMask.Verify
import DeepProve.Lookup.DimWeights

/-!
# What the verifier of the attention mask enforces

Whatever the sumcheck verifier does: which mask is checked, and how many heads are, is said by the
proof. The mask of a local layer is checked only if the proof has the second sumcheck, and the heads
for which the proof has no evaluation are left out.
-/

namespace DeepProve

open Outcome
open Multilinear (eqWeight ltWeight)

/-- The second polynomial of the mask counts. -/
def AttentionSpan.isBand (span : AttentionSpan) (seqLen : Nat) : Bool :=
  match span with
  | .full => false
  | .localWindow n => decide (n < seqLen)

theorem AttentionSpan.isBand_eq_true {span : AttentionSpan} {seqLen : Nat} :
    span.isBand seqLen = true ↔ ∃ n, span = .localWindow n ∧ n < seqLen := by
  cases span with
  | full => simp [AttentionSpan.isBand]
  | localWindow n => simp [AttentionSpan.isBand]

section Field

variable {F : Type} [Field F]

/-- The value of the mask of a layer at a column and a row: the product of its polynomials. -/
def maskValue (span : AttentionSpan) (columnPoint rowPoint : List F) : F :=
  ((makeMaskPolys span (2 ^ rowPoint.length)).map fun poly =>
    mle poly (columnPoint ++ rowPoint)).prod

/-- The sum of the products of the upper triangular matrix and the shift matrix. -/
def localMaskSum (window : Nat) (columnPoint rowPoint : List F) : F :=
  ∑ k ∈ Finset.range (2 ^ rowPoint.length),
    evalZeroifierMle rowPoint (bitList k rowPoint.length) * shiftWeight columnPoint (window - 1) k

/-- The part of the second polynomial that is not in the product. -/
def localMaskPadding (window : Nat) (columnPoint rowPoint : List F) : F :=
  1 - evalZeroifierMle columnPoint (bitList (2 ^ rowPoint.length - window) columnPoint.length)

variable {columnPoint : List F}
variable {rowPoint : List F}

theorem mle_zeroifierMle (hlength : columnPoint.length = rowPoint.length) :
    mle (boolMleFromFn (2 ^ rowPoint.length) fun token other => decide (token ≥ other))
      (columnPoint ++ rowPoint) = evalZeroifierMle columnPoint rowPoint := by
  rw [evalZeroifierMle_eq_evalPair hlength, ← hlength, mle_boolMleFromFn _ hlength]
  apply Multilinear.evalPair_congr
  intro j _ i _
  simp

theorem maskValue_of_not_isBand {span : AttentionSpan}
    (hlength : columnPoint.length = rowPoint.length)
    (h : span.isBand (2 ^ rowPoint.length) = false) :
    maskValue span columnPoint rowPoint = evalZeroifierMle columnPoint rowPoint := by
  unfold maskValue makeMaskPolys
  cases span with
  | full => simp [mle_zeroifierMle hlength]
  | localWindow n =>
    have hge : n ≥ 2 ^ rowPoint.length := by simpa [AttentionSpan.isBand] using h
    simp [hge, mle_zeroifierMle hlength]

theorem maskValue_localWindow {n : Nat} (hlength : columnPoint.length = rowPoint.length)
    (hn : 1 ≤ n) (hwindow : n < 2 ^ rowPoint.length) :
    maskValue (.localWindow n) columnPoint rowPoint = evalZeroifierMle columnPoint rowPoint *
      (localMaskSum n columnPoint rowPoint + localMaskPadding n columnPoint rowPoint) := by
  have hlocal := mle_localMask columnPoint rowPoint hlength hn (by rwa [hlength])
  rw [hlength] at hlocal
  have hnot : ¬ n ≥ 2 ^ rowPoint.length := by omega
  simp only [maskValue, makeMaskPolys, hnot, if_false, List.map_cons, List.map_nil, List.prod_cons,
    List.prod_nil, mul_one, mle_zeroifierMle hlength, hlocal, localMaskSum, localMaskPadding, hlength]

end Field

/-! ## The claim about the output -/

section Data

variable {F : Type} [Field F] {evals : List F → List F} {lead : Shape} {q s : Nat} {lo hi : List F}

/-- The weights of the heads are made like the batching challenges of a lookup. -/
theorem foldl_batchDim (evals : List F → List F) (dims : List (List F × Nat)) {start skip : Nat}
    (hskip : start + dims.length ≤ skip) (eqPoint challenges : List F) :
    (dims.zipIdx start).foldl (Shape.batchDim evals skip) (eqPoint, challenges) =
      (eqPoint, dims.foldl (fun acc (pointSlice, dim) =>
        acc.flatMap fun c => ((evals pointSlice).take dim).map (c * ·)) challenges) := by
  induction dims generalizing start challenges with
  | nil => rfl
  | cons dim dims ih =>
    rw [List.length_cons] at hskip
    have hrest : start + 1 + dims.length ≤ skip := by omega
    rw [List.zipIdx_cons, List.foldl_cons, List.foldl_cons, ← ih hrest]
    congr 1
    exact if_pos (by omega)

/-- What is known of the claim: the weights of the unpadded heads, and the two parts of the point. -/
theorem newFromClaimAndShapeData_eq
    (hevals : ∀ point, evals point = (List.range (2 ^ point.length)).map (eqWeight point))
    (hlo : lo.length = ceilLog2 q + ceilLog2 s) (hhi : hi.length = lead.dimVars.sum)
    (hdims : ∀ d ∈ (lead ++ [q, s] : Shape), 0 < d ∧ ceilLog2 d ≤ 64) (eval : F) :
    MaskVerifyingData.newFromClaimAndShapeData evals ⟨lo ++ hi, eval⟩
        (Shape.nextPowerOfTwo (lead ++ [q, s])) (lead ++ [q, s]) =
      .ok ⟨leadWeights (dimEntries lead hi), hi, lo⟩ := by
  have hlo' : lo.length = (Shape.dimVars [q, s]).sum := by
    rw [hlo]
    simp [Shape.dimVars]
  have hpoint : (lo ++ hi).length = (Shape.dimVars (lead ++ [q, s])).sum := by
    have hsplit : Shape.dimVars (lead ++ [q, s]) = lead.dimVars ++ Shape.dimVars [q, s] :=
      List.map_append
    rw [List.length_append, hlo', hhi, hsplit, List.sum_append, Nat.add_comm]
  have hvars : lead.dimVars.length = lead.length := List.length_map _
  have hrank : (Shape.nextPowerOfTwo (lead ++ [q, s])).rank = lead.length + 2 := by
    simp [Shape.rank, Shape.nextPowerOfTwo]
  -- the slices of the leading dimensions, and of the last two
  have htake : (Shape.splitSlices hi lead.dimVars ++ Shape.splitSlices lo (Shape.dimVars [q, s])).take
      lead.length = Shape.splitSlices hi lead.dimVars :=
    List.take_left' (by rw [Shape.length_splitSlices, hvars])
  have hdrop : (Shape.splitSlices hi lead.dimVars ++ Shape.splitSlices lo (Shape.dimVars [q, s])).drop
      lead.length = Shape.splitSlices lo (Shape.dimVars [q, s]) :=
    List.drop_left' (by rw [Shape.length_splitSlices, hvars])
  have hweights : (dimEntries lead hi).foldl (fun acc (pointSlice, dim) =>
      acc.flatMap fun c => ((evals pointSlice).take dim).map (c * ·)) [1] =
        leadWeights (dimEntries lead hi) := by
    have hfirst := foldl_batchDim evals (dimEntries lead hi)
      (Nat.zero_add (dimEntries lead hi).length).le [] [1]
    rw [batch_lead hevals (fun dim hdim => (dimEntries_spec hhi dim hdim).2) (by omega)] at hfirst
    rw [← (Prod.mk.inj hfirst).2]
    simp
  unfold MaskVerifyingData.newFromClaimAndShapeData
  dsimp only
  rw [Shape.splitPoint_eq_ok _ hpoint, Outcome.ok_bind, hrank, usizeSub, if_pos (by omega),
    Outcome.ok_bind, Nat.add_sub_cancel, Shape.splitSlices_dimVars hhi, sliceFrom, sliceTo, sliceTo,
    if_pos (by simp [hvars]), if_pos (by simp [hvars]), if_pos (by simp), Outcome.ok_bind,
    Outcome.ok_bind, Outcome.ok_bind, htake, hdrop, List.take_left' rfl,
    Shape.flatten_reverse_splitSlices hlo', Shape.flatten_reverse_splitSlices hhi]
  rw [show (Shape.splitSlices hi lead.dimVars).zip lead = dimEntries lead hi from rfl, hweights]

end Data

/-! ## The two sumchecks -/

section Verifier

variable {F : Type} [Field F] [DecidableEq F] {P T : Type} {self : AttentionMask}
  {v : SumcheckVerifier F P T} {evals : List F → List F} {columnPoint rowPoint : List F}

/-- The second sumcheck, for a window that is in range. -/
theorem verifyAdditionalMaskPolyEval_eq
    (hevals : ∀ point, evals point = (List.range (2 ^ point.length)).map (eqWeight point))
    {n : Nat} (hspan : self.span = .localWindow n) (hn : n ≠ 0) (hbits : columnPoint.length ≤ 64)
    (first : F) (localMaskProof : P) (t : T) :
    self.verifyAdditionalMaskPolyEval v evals rowPoint columnPoint first localMaskProof t =
      if n < 2 ^ rowPoint.length then
        v (first - localMaskPadding n columnPoint rowPoint) localMaskProof ⟨2, columnPoint.length⟩ t >>=
          fun (subclaim, t) => do
            ensure (evalZeroifierMle rowPoint subclaim.point *
                Multilinear.eval (shiftWeight columnPoint (n - 1)) subclaim.point ==
              subclaim.expectedEvaluation) "Mask sumcheck verification failed"
            .ok t
      else .error (.err "Sliding window not smaller than sequence length") := by
  unfold AttentionMask.verifyAdditionalMaskPolyEval
  rw [hspan]
  dsimp only
  by_cases hwindow : n < 2 ^ rowPoint.length
  · rw [decide_eq_true hwindow, ensure_true, ok_bind, usizeSub, if_pos hwindow.le, ok_bind,
      bitsOf_eq_ok hbits, ok_bind, if_pos hwindow, usizeSub, if_pos (Nat.one_le_iff_ne_zero.mpr hn)]
    simp only [ok_bind, evalShiftMatrix_eq hevals _ _ _ hbits]
    rfl
  · rw [decide_eq_false hwindow, if_neg hwindow]
    rfl

/-- The end of the verifier: the identity of the first sumcheck. -/
def AttentionMask.checkHeads (self : AttentionMask) (data : MaskVerifyingData F) (unpaddedSeqLen : Nat)
    (subclaim : SumcheckSubclaim F) (columnPoint rowPoint : List F) (maskEval : F)
    (inputEvals : List F) (t : T) : Outcome (List (Claim F) × T) := do
  let (rowLtEval, columnLtEval) ← evaluateRowColumnLtPolys rowPoint columnPoint unpaddedSeqLen
  ensure (identityEval subclaim.point data.eqPoint * (rowLtEval * columnLtEval) *
      headsSum maskEval (self.negativeInfinity : F) data.batchingChallenges inputEvals ==
    subclaim.expectedEvaluation) "Casual Mask verification failed"
  .ok ([⟨subclaim.point ++ data.batchingPoint,
    (data.batchingChallenges.zip inputEvals).foldl (fun acc (c, e) => acc + c * e) 0⟩], t)

omit [DecidableEq F] in
theorem headsSum_eq (maskEval negInf : F) (batchingChallenges inputEvals : List F) :
    AttentionMask.headsSum maskEval negInf batchingChallenges inputEvals =
      ((batchingChallenges.zip inputEvals).map fun (c, e) =>
        c * (maskEval * e + negInf * (1 - maskEval))).sum := by
  rw [List.sum_eq_foldl, List.foldl_map]
  rfl

variable {data : MaskVerifyingData F}

/-- The lengths of the two points have to be those of a square matrix of the unpadded size. -/
theorem checkHeads_eq {s : Nat} (hpos : 0 < s) (hmax : ceilLog2 s ≤ 64)
    (hrow : rowPoint.length = ceilLog2 s) (hcolumn : columnPoint.length = ceilLog2 s)
    (subclaim : SumcheckSubclaim F) (maskEval : F) (inputEvals : List F) (t : T) :
    self.checkHeads data s subclaim columnPoint rowPoint maskEval inputEvals t = (do
      ensure (identityEval subclaim.point data.eqPoint *
          (ltWeight rowPoint s * ltWeight columnPoint s) *
          ((data.batchingChallenges.zip inputEvals).map fun (c, e) =>
            c * (maskEval * e + (self.negativeInfinity : F) * (1 - maskEval))).sum ==
        subclaim.expectedEvaluation) "Casual Mask verification failed"
      .ok ([⟨subclaim.point ++ data.batchingPoint,
        ((data.batchingChallenges.zip inputEvals).map fun (c, e) => c * e).sum⟩], t)) := by
  have hsum : ∀ l : List (F × F), l.foldl (fun acc (c, e) => acc + c * e) 0 =
      (l.map fun (c, e) => c * e).sum := by
    intro l
    rw [List.sum_eq_foldl, List.foldl_map]
  unfold AttentionMask.checkHeads
  rw [evaluateRowColumnLtPolys_eq hpos hmax hrow hcolumn, ok_bind]
  dsimp only
  rw [headsSum_eq, hsum]

theorem lengths_of_checkHeads_eq_ok {s : Nat} {subclaim : SumcheckSubclaim F} {maskEval : F}
    {inputEvals : List F} {t : T} {r : List (Claim F) × T}
    (h : self.checkHeads data s subclaim columnPoint rowPoint maskEval inputEvals t = .ok r) :
    rowPoint.length = ceilLog2 s ∧ columnPoint.length = ceilLog2 s := by
  unfold AttentionMask.checkHeads evaluateRowColumnLtPolys at h
  simp only [bind_eq_ok, ensure_eq_ok, beq_iff_eq] at h
  obtain ⟨_, ⟨_, hrow, _, hcolumn, _⟩, _⟩ := h
  exact ⟨hrow, hcolumn⟩

theorem not_panics_checkHeads {s : Nat} (hpos : 0 < s) (hmax : ceilLog2 s ≤ 64)
    (subclaim : SumcheckSubclaim F) (maskEval : F) (inputEvals : List F) (t : T) :
    ¬ (self.checkHeads data s subclaim columnPoint rowPoint maskEval inputEvals t).Panics := by
  by_cases hrow : rowPoint.length = ceilLog2 s
  · by_cases hcolumn : columnPoint.length = ceilLog2 s
    · rw [checkHeads_eq hpos hmax hrow hcolumn]
      simp [panics_bind]
    · simp [AttentionMask.checkHeads, evaluateRowColumnLtPolys, hrow, beq_false_of_ne hcolumn]
  · simp [AttentionMask.checkHeads, evaluateRowColumnLtPolys, beq_false_of_ne hrow]

section VerifyInternal

variable {data : MaskVerifyingData F} {proof : AttentionMaskProof F P} {lastClaim : Claim F} {s : Nat}
  {t : T}

/-- The two parts of the point of the first sumcheck. -/
def columnOf (data : MaskVerifyingData F) (subclaim : SumcheckSubclaim F) : List F :=
  subclaim.point.take (data.eqPoint.length / 2)

def rowOf (data : MaskVerifyingData F) (subclaim : SumcheckSubclaim F) : List F :=
  subclaim.point.drop (data.eqPoint.length / 2)

omit [Field F] [DecidableEq F] in
theorem column_append_row (data : MaskVerifyingData F) (subclaim : SumcheckSubclaim F) :
    subclaim.point = columnOf data subclaim ++ rowOf data subclaim :=
  (List.take_append_drop _ _).symm

theorem verifyInternal_none (hv : v.Proper) (hproof : proof.localMaskProof = none) :
    self.verifyInternal v evals proof lastClaim data s t =
      v lastClaim.eval proof.sumcheckProof ⟨5, data.eqPoint.length⟩ t >>= fun (subclaim, t) =>
        self.checkHeads data s subclaim (columnOf data subclaim) (rowOf data subclaim)
          (evalZeroifierMle (columnOf data subclaim) (rowOf data subclaim)) proof.evaluations t := by
  unfold AttentionMask.verifyInternal
  rw [hproof]
  dsimp only [Option.isSome_none]
  rw [Bool.not_false, Bool.true_or, ensure_true, ok_bind]
  cases hfirst : v lastClaim.eval proof.sumcheckProof ⟨5, data.eqPoint.length⟩ t with
  | error e => simp [hfirst]
  | ok r =>
    have hlength := hv.length _ _ _ _ _ _ hfirst
    simp only [Bool.false_eq_true, if_false, hfirst, ok_bind]
    rw [splitAtMid, if_pos (by rw [hlength]; exact Nat.div_le_self _ _)]
    simp only [ok_bind, Bool.toNat_false, sliceFrom, Nat.zero_le, if_true, List.drop_zero]
    rfl

theorem verifyInternal_some_full {localMaskProof : P} (hspan : self.span = .full)
    (hproof : proof.localMaskProof = some localMaskProof) :
    self.verifyInternal v evals proof lastClaim data s t =
      .error (.err "Found sumcheck proof for local mask with a full attention mask") := by
  unfold AttentionMask.verifyInternal AttentionMask.isLocalMask
  rw [hproof, hspan]
  rfl

theorem verifyInternal_some (hv : v.Proper) {n : Nat} (hspan : self.span = .localWindow n)
    {localMaskProof : P} (hproof : proof.localMaskProof = some localMaskProof) :
    self.verifyInternal v evals proof lastClaim data s t =
      v lastClaim.eval proof.sumcheckProof ⟨6, data.eqPoint.length⟩ t >>= fun (subclaim, t) => (do
        let first ← unwrap proof.evaluations[0]? "index out of bounds"
        let t ← self.verifyAdditionalMaskPolyEval v evals (rowOf data subclaim) (columnOf data subclaim)
          first localMaskProof t
        self.checkHeads data s subclaim (columnOf data subclaim) (rowOf data subclaim)
          (evalZeroifierMle (columnOf data subclaim) (rowOf data subclaim) * first)
          (proof.evaluations.drop 1) t) := by
  unfold AttentionMask.verifyInternal AttentionMask.isLocalMask
  rw [hproof, hspan]
  dsimp only [Option.isSome_some]
  rw [Bool.or_true, ensure_true, ok_bind]
  cases hfirst : v lastClaim.eval proof.sumcheckProof ⟨6, data.eqPoint.length⟩ t with
  | error e => simp [hfirst]
  | ok r =>
    have hlength := hv.length _ _ _ _ _ _ hfirst
    simp only [if_true, hfirst, ok_bind]
    rw [splitAtMid, if_pos (by rw [hlength]; exact Nat.div_le_self _ _)]
    simp only [ok_bind, Bool.toNat_true]
    cases hevaluations : proof.evaluations with
    | nil => rfl
    | cons first rest =>
      rw [sliceFrom, if_pos (by simp)]
      simp only [List.getElem?_cons_zero, unwrap_some, ok_bind]
      rfl

end VerifyInternal

/-! ## Which proofs are good enough -/

/-- The shapes of one input. -/
def maskShapeStep (dims : Shape) : ShapeStep where
  unpaddedInputShape := [dims]
  paddedInputShape := [dims.nextPowerOfTwo]

/-- The last two dimensions are at the front of the point. -/
def frontPoint (q s : Nat) (claim : Claim F) : List F := claim.point.take (ceilLog2 q + ceilLog2 s)

def headsPoint (q s : Nat) (claim : Claim F) : List F := claim.point.drop (ceilLog2 q + ceilLog2 s)

/-- The weights of the unpadded heads. -/
def headWeights (lead : Shape) (q s : Nat) (claim : Claim F) : List F :=
  leadWeights (dimEntries lead (headsPoint q s claim))

/-- The data of the shapes and the claim. -/
def maskData (lead : Shape) (q s : Nat) (lastClaim : Claim F) : MaskVerifyingData F :=
  ⟨headWeights lead q s lastClaim, headsPoint q s lastClaim, frontPoint q s lastClaim⟩

section Verify

variable {lead : Shape} {q s : Nat}

theorem rank_nextPowerOfTwo (lead : Shape) (q s : Nat) :
    (Shape.nextPowerOfTwo (lead ++ [q, s])).rank = lead.length + 2 := by
  simp [Shape.rank, Shape.nextPowerOfTwo]

theorem sum_dimVars (lead : Shape) (q s : Nat) :
    (Shape.dimVars (lead ++ [q, s])).sum = lead.dimVars.sum + (ceilLog2 q + ceilLog2 s) := by
  simp [Shape.dimVars]

/-- A single claim with a point of the right length. -/
theorem verify_eq_verifyInternal
    (hevals : ∀ point, evals point = (List.range (2 ^ point.length)).map (eqWeight point))
    (hdims : ∀ d ∈ (lead ++ [q, s] : Shape), 0 < d ∧ ceilLog2 d ≤ 64)
    (proof : AttentionMaskProof F P) {lastClaim : Claim F} (t : T)
    (hlength : lastClaim.point.length = (Shape.dimVars (lead ++ [q, s])).sum) :
    (frontPoint q s lastClaim).length = ceilLog2 q + ceilLog2 s ∧
      self.verify v evals proof [lastClaim] (maskShapeStep (lead ++ [q, s])) t =
        self.verifyInternal v evals proof lastClaim (maskData lead q s lastClaim) s t := by
  rw [sum_dimVars] at hlength
  have hfront : (frontPoint q s lastClaim).length = ceilLog2 q + ceilLog2 s := by
    rw [frontPoint, List.length_take]
    omega
  have hheads : (headsPoint q s lastClaim).length = lead.dimVars.sum := by
    rw [headsPoint, List.length_drop]
    omega
  have hdata := newFromClaimAndShapeData_eq hevals hfront hheads hdims lastClaim.eval
  rw [frontPoint, headsPoint, List.take_append_drop] at hdata
  refine ⟨hfront, ?_⟩
  unfold AttentionMask.verify maskShapeStep
  simp [rank_nextPowerOfTwo, hdata, Shape.lastDim, maskData, headWeights, frontPoint, headsPoint]

/-- Either the claims are rejected without a panic, or there is one, with a point of the right
    length. -/
theorem verify_cases (proof : AttentionMaskProof F P) (lastClaims : List (Claim F)) (t : T) :
    (∃ msg, self.verify v evals proof lastClaims (maskShapeStep (lead ++ [q, s])) t =
      .error (.err msg)) ∨
    ∃ lastClaim, lastClaims = [lastClaim] ∧
      lastClaim.point.length = (Shape.dimVars (lead ++ [q, s])).sum := by
  unfold AttentionMask.verify maskShapeStep
  match lastClaims with
  | [] => exact .inl ⟨_, by simp [rank_nextPowerOfTwo, ensure]; rfl⟩
  | first :: second :: rest => exact .inl ⟨_, by simp [rank_nextPowerOfTwo, ensure]; rfl⟩
  | [lastClaim] =>
    by_cases hlength : lastClaim.point.length = (Shape.dimVars (lead ++ [q, s])).sum
    · exact .inr ⟨lastClaim, rfl, hlength⟩
    · exact .inl ⟨_, by
        simp [rank_nextPowerOfTwo, MaskVerifyingData.newFromClaimAndShapeData, Shape.splitPoint,
          Shape.numVars_nextPowerOfTwo, beq_false_of_ne hlength]
        rfl⟩

end Verify

/-- The mask that is used is that of the layer, as far as the second sumcheck is sound. -/
def MaskBound (v : SumcheckVerifier F P T) (proof : AttentionMaskProof F P) (span : AttentionSpan)
    (columnPoint rowPoint : List F) (maskEval : F) (t : T) : Prop :=
  (span.isBand (2 ^ rowPoint.length) = false → maskEval = maskValue span columnPoint rowPoint) ∧
  ∀ n, span = .localWindow n → n < 2 ^ rowPoint.length →
    ∃ (eval : F) (localMaskProof : P) (subclaim : SumcheckSubclaim F) (t' : T),
      proof.evaluations[0]? = some eval ∧ proof.localMaskProof = some localMaskProof ∧
      v (eval - localMaskPadding n columnPoint rowPoint) localMaskProof ⟨2, columnPoint.length⟩ t =
        .ok (subclaim, t') ∧
      subclaim.expectedEvaluation = evalZeroifierMle rowPoint subclaim.point *
        Multilinear.eval (shiftWeight columnPoint (n - 1)) subclaim.point ∧
      (eval - localMaskPadding n columnPoint rowPoint = localMaskSum n columnPoint rowPoint →
        maskEval = maskValue span columnPoint rowPoint)

/-- What was checked when the claims are returned: the mask of the layer, on every unpadded head. -/
def AttentionMask.Enforces (self : AttentionMask) (v : SumcheckVerifier F P T)
    (proof : AttentionMaskProof F P) (lead : Shape) (q s : Nat) (lastClaim : Claim F) (t : T)
    (claims : List (Claim F)) : Prop :=
  ∃ (subclaim : SumcheckSubclaim F) (columnPoint rowPoint : List F) (maskEval : F)
    (inputEvals : List F),
    (∃ maxDegree t', v lastClaim.eval proof.sumcheckProof ⟨maxDegree, ceilLog2 q + ceilLog2 s⟩ t =
        .ok (subclaim, t') ∧
      MaskBound v proof self.span columnPoint rowPoint maskEval t') ∧
    subclaim.point = columnPoint ++ rowPoint ∧ columnPoint.length = ceilLog2 s ∧
    rowPoint.length = ceilLog2 s ∧
    inputEvals.length = lead.prod ∧
    inputEvals = (proof.evaluations.drop (self.span.isBand (2 ^ ceilLog2 s)).toNat).take lead.prod ∧
    subclaim.expectedEvaluation = identityEval subclaim.point (frontPoint q s lastClaim) *
      (ltWeight rowPoint s * ltWeight columnPoint s) *
      (((headWeights lead q s lastClaim).zip inputEvals).map fun (c, e) =>
        c * (maskEval * e + (self.negativeInfinity : F) * (1 - maskEval))).sum ∧
    claims = [⟨subclaim.point ++ headsPoint q s lastClaim,
      (((headWeights lead q s lastClaim).zip inputEvals).map fun (c, e) => c * e).sum⟩]

/-- The proofs whose parts are those of the layer. -/
structure AttentionMask.Adequate (mask : AttentionMask) (lead : Shape) (q s : Nat)
    (proof : AttentionMaskProof F P) : Prop where
  /-- The evaluation of the second polynomial is there, and the window is not empty. -/
  first : ∀ n, mask.span = .localWindow n → proof.localMaskProof.isSome = true →
    proof.evaluations ≠ [] ∧ n ≠ 0
  /-- The second sumcheck is there if the layer has the second polynomial. -/
  localMask : ceilLog2 q = ceilLog2 s → mask.span.isBand (2 ^ ceilLog2 s) = true →
    proof.localMaskProof.isSome = true
  /-- There are evaluations for all heads. -/
  heads : ceilLog2 q = ceilLog2 s →
    proof.localMaskProof.isSome = mask.span.isBand (2 ^ ceilLog2 s) →
    lead.prod + (mask.span.isBand (2 ^ ceilLog2 s)).toNat ≤ proof.evaluations.length

section Enforces

variable {lead : Shape} {q s : Nat} {proof : AttentionMaskProof F P} {lastClaim : Claim F} {t t' : T}
  {claims : List (Claim F)}

omit [Field F] [DecidableEq F] in
theorem zip_take_self_length {α β : Type} (xs : List α) (ys : List β) :
    xs.zip (ys.take xs.length) = xs.zip ys := by
  induction xs generalizing ys with
  | nil => rfl
  | cons x xs ih =>
    cases ys with
    | nil => rfl
    | cons y ys => rw [List.length_cons, List.take_succ_cons, List.zip_cons_cons, ih, List.zip_cons_cons]

/-- From the end of the verifier. -/
theorem enforces_of_checkHeads {subclaim : SumcheckSubclaim F} {maskEval : F} {maxDegree : Nat}
    {t₁ t₂ : T} (hpos : 0 < s) (hmax : ceilLog2 s ≤ 64)
    (hverify : v lastClaim.eval proof.sumcheckProof ⟨maxDegree, ceilLog2 q + ceilLog2 s⟩ t =
      .ok (subclaim, t₁))
    (hbound : columnPoint.length = ceilLog2 s → rowPoint.length = ceilLog2 s →
      MaskBound v proof self.span columnPoint rowPoint maskEval t₁)
    (hpoint : subclaim.point = columnPoint ++ rowPoint)
    (hheads : columnPoint.length = ceilLog2 s → rowPoint.length = ceilLog2 s →
      lead.prod + (self.span.isBand (2 ^ ceilLog2 s)).toNat ≤ proof.evaluations.length)
    (h : self.checkHeads (maskData lead q s lastClaim) s subclaim columnPoint rowPoint maskEval
      (proof.evaluations.drop (self.span.isBand (2 ^ ceilLog2 s)).toNat) t₂ = .ok (claims, t')) :
    self.Enforces v proof lead q s lastClaim t claims := by
  obtain ⟨hrow, hcolumn⟩ := lengths_of_checkHeads_eq_ok h
  have hlength := hheads hcolumn hrow
  rw [checkHeads_eq hpos hmax hrow hcolumn, bind_eq_ok] at h
  obtain ⟨_, hensure, hclaims⟩ := h
  have hidentity := beq_iff_eq.mp (ensure_eq_ok.mp hensure)
  have hweights : (headWeights lead q s lastClaim).length = lead.prod := length_leadWeights _ _
  refine ⟨subclaim, columnPoint, rowPoint, maskEval, _, ⟨maxDegree, t₁, hverify, hbound hcolumn hrow⟩,
    hpoint, hcolumn, hrow, ?_, rfl, ?_, ?_⟩
  · rw [List.length_take, List.length_drop]
    omega
  · rw [← hidentity, ← hweights, zip_take_self_length]
    rfl
  · rw [← (Prod.mk.inj (Except.ok.inj hclaims)).1, ← hweights, zip_take_self_length]
    rfl

/-- Enough of the proof is there: what is returned has been checked. -/
theorem AttentionMask.Adequate.enforces (hadequate : self.Adequate lead q s proof)
    (hevals : ∀ point, evals point = (List.range (2 ^ point.length)).map (eqWeight point))
    (hv : v.Proper) (hpos : 0 < s) (hmax : ceilLog2 s ≤ 64)
    (hfront : (frontPoint q s lastClaim).length = ceilLog2 q + ceilLog2 s)
    (h : self.verifyInternal v evals proof lastClaim (maskData lead q s lastClaim) s t =
      .ok (claims, t')) :
    self.Enforces v proof lead q s lastClaim t claims := by
  have hlength : (maskData lead q s lastClaim).eqPoint.length = ceilLog2 q + ceilLog2 s := hfront
  -- the two halves of a point have the length of a dimension only if the matrix is a square
  have hsquare : ∀ subclaim : SumcheckSubclaim F, subclaim.point.length = ceilLog2 q + ceilLog2 s →
      (rowOf (maskData lead q s lastClaim) subclaim).length = ceilLog2 s →
      (columnOf (maskData lead q s lastClaim) subclaim).length = ceilLog2 s →
      ceilLog2 q = ceilLog2 s := by
    intro subclaim hpoint hrow hcolumn
    rw [rowOf, List.length_drop] at hrow
    rw [columnOf, List.length_take] at hcolumn
    omega
  cases hproof : proof.localMaskProof with
  | none =>
    rw [verifyInternal_none hv hproof, bind_eq_ok] at h
    obtain ⟨⟨subclaim, t₁⟩, hfirst, h⟩ := h
    have hpoint := hv.length _ _ _ _ _ _ hfirst
    rw [hlength] at hfirst hpoint
    obtain ⟨hrow, hcolumn⟩ := lengths_of_checkHeads_eq_ok h
    have hq := hsquare subclaim hpoint hrow hcolumn
    have hband : self.span.isBand (2 ^ ceilLog2 s) = false := by
      by_contra hne
      have hsome := hadequate.localMask hq (Bool.eq_true_of_not_eq_false hne)
      rw [hproof] at hsome
      cases hsome
    have hheads := hadequate.heads hq (by rw [hproof, hband]; rfl)
    refine enforces_of_checkHeads hpos hmax hfirst (fun _ _ => ?_) (column_append_row _ _)
      (fun _ _ => hheads) (by rw [hband]; exact h)
    rw [MaskBound, hrow]
    refine ⟨fun _ => ?_, fun n hspan hn => ?_⟩
    · rw [maskValue_of_not_isBand (hcolumn.trans hrow.symm) (by rw [hrow]; exact hband)]
    · rw [hspan, AttentionSpan.isBand] at hband
      exact absurd hn (of_decide_eq_false hband)
  | some localMaskProof =>
    cases hspan : self.span with
    | full =>
      rw [verifyInternal_some_full hspan hproof] at h
      cases h
    | localWindow n =>
      obtain ⟨hne, hn⟩ := hadequate.first n hspan (by rw [hproof]; rfl)
      obtain ⟨first, rest, hevaluations⟩ := List.exists_cons_of_ne_nil hne
      rw [verifyInternal_some hv hspan hproof, bind_eq_ok] at h
      obtain ⟨⟨subclaim, t₁⟩, hfirst, h⟩ := h
      have hpoint := hv.length _ _ _ _ _ _ hfirst
      rw [hlength] at hfirst hpoint
      rw [hevaluations, List.getElem?_cons_zero, unwrap_some] at h
      simp only [ok_bind, bind_eq_ok] at h
      obtain ⟨t₂, hlocal, h⟩ := h
      obtain ⟨hrow, hcolumn⟩ := lengths_of_checkHeads_eq_ok h
      have hq := hsquare subclaim hpoint hrow hcolumn
      rw [verifyAdditionalMaskPolyEval_eq hevals hspan hn (by omega)] at hlocal
      split at hlocal
      · next hwindow =>
        rw [bind_eq_ok] at hlocal
        obtain ⟨⟨localSubclaim, t₃⟩, hlocal, hcheck⟩ := hlocal
        simp only [bind_eq_ok, ensure_eq_ok, beq_iff_eq] at hcheck
        obtain ⟨_, hexpected, _⟩ := hcheck
        have hband : self.span.isBand (2 ^ ceilLog2 s) = true := by
          rw [hspan, AttentionSpan.isBand, ← hrow]
          exact decide_eq_true hwindow
        have hheads := hadequate.heads hq (by rw [hproof, hband]; rfl)
        refine enforces_of_checkHeads hpos hmax hfirst (fun _ _ => ⟨fun hnot => ?_, ?_⟩)
          (column_append_row _ _) (fun _ _ => hheads)
          (by rw [hband, hevaluations]; exact h)
        · rw [hrow, hband] at hnot
          cases hnot
        · intro m hm _
          obtain rfl := AttentionSpan.localWindow.inj (hspan.symm.trans hm)
          refine ⟨first, localMaskProof, localSubclaim, t₃, by rw [hevaluations]; rfl, hproof, hlocal,
            hexpected.symm, fun hclaim => ?_⟩
          rw [hspan, maskValue_localWindow (hcolumn.trans hrow.symm) (Nat.one_le_iff_ne_zero.mpr hn)
            hwindow, ← hclaim, sub_add_cancel]
      · cases hlocal

theorem AttentionMask.Adequate.not_panics (hadequate : self.Adequate lead q s proof)
    (hevals : ∀ point, evals point = (List.range (2 ^ point.length)).map (eqWeight point))
    (hv : v.Proper) (hpos : 0 < s) (hmax : ceilLog2 q + ceilLog2 s ≤ 128) (hs : ceilLog2 s ≤ 64)
    (hfront : (frontPoint q s lastClaim).length = ceilLog2 q + ceilLog2 s) :
    ¬ (self.verifyInternal v evals proof lastClaim (maskData lead q s lastClaim) s t).Panics := by
  have hlength : (maskData lead q s lastClaim).eqPoint.length = ceilLog2 q + ceilLog2 s := hfront
  cases hproof : proof.localMaskProof with
  | none =>
    rw [verifyInternal_none hv hproof, panics_bind]
    rintro (hfirst | ⟨_, _, hrest⟩)
    · exact hv.noPanic _ _ _ _ hfirst
    · exact not_panics_checkHeads hpos hs _ _ _ _ hrest
  | some localMaskProof =>
    cases hspan : self.span with
    | full =>
      rw [verifyInternal_some_full hspan hproof]
      exact not_panics_err _
    | localWindow n =>
      obtain ⟨hne, hn⟩ := hadequate.first n hspan (by rw [hproof]; rfl)
      obtain ⟨first, rest, hevaluations⟩ := List.exists_cons_of_ne_nil hne
      rw [verifyInternal_some hv hspan hproof, panics_bind]
      rintro (hfirst | ⟨⟨subclaim, t₁⟩, hfirst, hrest⟩)
      · exact hv.noPanic _ _ _ _ hfirst
      · have hcolumn : (columnOf (maskData lead q s lastClaim) subclaim).length ≤ 64 := by
          rw [columnOf, List.length_take, hlength]
          omega
        rw [hevaluations, List.getElem?_cons_zero, unwrap_some] at hrest
        simp only [ok_bind, panics_bind] at hrest
        rcases hrest with hlocal | ⟨t₂, _, hheads⟩
        · rw [verifyAdditionalMaskPolyEval_eq hevals hspan hn hcolumn] at hlocal
          split at hlocal
          · rw [panics_bind] at hlocal
            rcases hlocal with hlocal | ⟨_, _, hcheck⟩
            · exact hv.noPanic _ _ _ _ hlocal
            · simp [panics_bind] at hcheck
          · simp at hlocal
        · exact not_panics_checkHeads hpos hs _ _ _ _ hheads

end Enforces

/-! ## The verifier enforces the mask exactly for these proofs -/

section Iff

/-- Whatever the sumcheck verifier does, the verifier does not panic, and what it accepts it has
    checked. -/
def AttentionMask.EnforcesMask (self : AttentionMask) (evals : List F → List F) (lead : Shape)
    (q s : Nat) (proof : AttentionMaskProof F P) (t : T) : Prop :=
  ∀ (v : SumcheckVerifier F P T) (lastClaims : List (Claim F)), v.Proper →
    ¬ (self.verify v evals proof lastClaims (maskShapeStep (lead ++ [q, s])) t).Panics ∧
    ∀ claims t', self.verify v evals proof lastClaims (maskShapeStep (lead ++ [q, s])) t =
        .ok (claims, t') →
      ∃ lastClaim, lastClaims = [lastClaim] ∧
        self.Enforces v proof lead q s lastClaim t claims

variable {lead : Shape} {q s : Nat} {proof : AttentionMaskProof F P} {t : T}

theorem AttentionMask.Adequate.enforcesMask
    (hevals : ∀ point, evals point = (List.range (2 ^ point.length)).map (eqWeight point))
    (hdims : ∀ d ∈ (lead ++ [q, s] : Shape), 0 < d ∧ ceilLog2 d ≤ 64)
    (hadequate : self.Adequate lead q s proof) : self.EnforcesMask evals lead q s proof t := by
  intro v lastClaims hv
  obtain ⟨hq, hqmax⟩ := hdims q (by simp)
  obtain ⟨hs, hsmax⟩ := hdims s (by simp)
  have hcases := @verify_cases F _ _ P T self v evals lead q s proof lastClaims t
  rcases hcases with ⟨msg, herror⟩ | ⟨lastClaim, rfl, hlength⟩
  · rw [herror]
    exact ⟨not_panics_err _, fun _ _ h => nomatch h⟩
  · obtain ⟨hfront, hverify⟩ := verify_eq_verifyInternal hevals hdims proof t hlength
    rw [hverify]
    exact ⟨hadequate.not_panics hevals hv hs (by omega) hsmax hfront, fun claims t' h =>
      ⟨lastClaim, rfl, hadequate.enforces hevals hv hs hsmax hfront h⟩⟩

/-- A claim at the origin. -/
def originClaim (F : Type) [Field F] (lead : Shape) (q s : Nat) : Claim F :=
  ⟨List.replicate (Shape.dimVars (lead ++ [q, s])).sum 0, 0⟩

/-- The run on the claim at the origin. -/
theorem verify_originClaim
    (hevals : ∀ point, evals point = (List.range (2 ^ point.length)).map (eqWeight point))
    (hdims : ∀ d ∈ (lead ++ [q, s] : Shape), 0 < d ∧ ceilLog2 d ≤ 64) :
    (frontPoint q s (originClaim F lead q s)).length = ceilLog2 q + ceilLog2 s ∧
      self.verify v evals proof [originClaim F lead q s] (maskShapeStep (lead ++ [q, s])) t =
        self.verifyInternal v evals proof (originClaim F lead q s)
          (maskData lead q s (originClaim F lead q s)) s t :=
  verify_eq_verifyInternal hevals hdims proof t List.length_replicate

/-- A window of size zero makes the second sumcheck panic. -/
theorem panics_verifyAdditionalMaskPolyEval (hspan : self.span = .localWindow 0)
    (hbits : columnPoint.length ≤ 64) (first : F) (localMaskProof : P) (t : T) :
    (self.verifyAdditionalMaskPolyEval (acceptingSumcheck 0 0) evals rowPoint columnPoint first
      localMaskProof t).Panics := by
  unfold AttentionMask.verifyAdditionalMaskPolyEval
  rw [hspan]
  dsimp only
  rw [decide_eq_true (Nat.two_pow_pos _), ensure_true, ok_bind, usizeSub, if_pos (Nat.zero_le _), ok_bind,
    bitsOf_eq_ok hbits]
  exact ⟨_, rfl⟩

/-- For some result the second sumcheck is accepted. -/
theorem exists_verifyAdditionalMaskPolyEval
    (hevals : ∀ point, evals point = (List.range (2 ^ point.length)).map (eqWeight point)) {n : Nat}
    (hspan : self.span = .localWindow n) (hn : n ≠ 0) (hwindow : n < 2 ^ rowPoint.length)
    (hbits : columnPoint.length ≤ 64) (first : F) (localMaskProof : P) (t : T) :
    ∃ second, ∀ value, self.verifyAdditionalMaskPolyEval (acceptingSumcheck value second) evals rowPoint
      columnPoint first localMaskProof t = .ok t := by
  simp only [verifyAdditionalMaskPolyEval_eq hevals hspan hn hbits, if_pos hwindow, acceptingSumcheck,
    ok_bind, if_true]
  exact ⟨_, fun _ => by rw [beq_self_eq_true, ensure_true, ok_bind]⟩

/-- For some result of the first sumcheck the identity holds. -/
theorem exists_checkHeads {data : MaskVerifyingData F} (hpos : 0 < s) (hmax : ceilLog2 s ≤ 64)
    (hrow : rowPoint.length = ceilLog2 s) (hcolumn : columnPoint.length = ceilLog2 s)
    (point : List F) (maskEval : F) (inputEvals : List F) (t : T) :
    ∃ value claims, self.checkHeads data s ⟨point, value⟩ columnPoint rowPoint maskEval inputEvals t =
      .ok (claims, t) := by
  simp only [checkHeads_eq hpos hmax hrow hcolumn]
  exact ⟨_, _, by rw [beq_self_eq_true, ensure_true, ok_bind]⟩

/-- A second sumcheck without evaluations, or for a window of size zero, makes the verifier panic. -/
theorem panics_of_not_first
    (hevals : ∀ point, evals point = (List.range (2 ^ point.length)).map (eqWeight point))
    (hdims : ∀ d ∈ (lead ++ [q, s] : Shape), 0 < d ∧ ceilLog2 d ≤ 64) {n : Nat}
    (hspan : self.span = .localWindow n) (hsome : proof.localMaskProof.isSome = true)
    (h : proof.evaluations = [] ∨ n = 0) :
    (self.verify (acceptingSumcheck 0 0) evals proof [originClaim F lead q s]
      (maskShapeStep (lead ++ [q, s])) t).Panics := by
  obtain ⟨hfront, hverify⟩ := @verify_originClaim F _ _ P T self (acceptingSumcheck 0 0) evals lead q s
    proof t hevals hdims
  obtain ⟨localMaskProof, hproof⟩ := Option.isSome_iff_exists.mp hsome
  have hq := (hdims q (by simp)).2
  have hs := (hdims s (by simp)).2
  rw [hverify, verifyInternal_some (acceptingSumcheck_proper 0 0) hspan hproof]
  rw [acceptingSumcheck_of_ne (by decide), ok_bind]
  cases hevaluations : proof.evaluations with
  | nil => exact ⟨_, rfl⟩
  | cons first rest =>
    obtain rfl : n = 0 := h.resolve_left (by rw [hevaluations]; exact List.cons_ne_nil _ _)
    refine panics_bind.mpr (.inr ⟨first, rfl, panics_bind.mpr (.inl ?_)⟩)
    apply panics_verifyAdditionalMaskPolyEval hspan
    rw [columnOf, List.length_take, List.length_replicate, maskData, hfront]
    omega

/-- Everything else is accepted, for some sumcheck verifier. -/
theorem exists_accepted
    (hevals : ∀ point, evals point = (List.range (2 ^ point.length)).map (eqWeight point))
    (hdims : ∀ d ∈ (lead ++ [q, s] : Shape), 0 < d ∧ ceilLog2 d ≤ 64)
    (hsquare : ceilLog2 q = ceilLog2 s)
    (h : proof.localMaskProof = none ∨ ∃ localMaskProof n, proof.localMaskProof = some localMaskProof ∧
      self.span = .localWindow n ∧ n < 2 ^ ceilLog2 s ∧ n ≠ 0 ∧ proof.evaluations ≠ []) :
    ∃ (v : SumcheckVerifier F P T) (claims : List (Claim F)), v.Proper ∧
      self.verify v evals proof [originClaim F lead q s] (maskShapeStep (lead ++ [q, s])) t =
        .ok (claims, t) := by
  obtain ⟨hpos, hmax⟩ := hdims s (by simp)
  have hrun := fun v : SumcheckVerifier F P T =>
    @verify_originClaim F _ _ P T self v evals lead q s proof t hevals hdims
  -- the point of both sumchecks is the origin, and so are the two parts of that of the first
  generalize hdata : maskData lead q s (originClaim F lead q s) = data at hrun
  have hlength : data.eqPoint.length = ceilLog2 s + ceilLog2 s := by
    have hfront := (hrun (acceptingSumcheck 0 0)).1
    rw [hsquare] at hfront
    rw [← hdata]
    exact hfront
  generalize hpoint : List.replicate data.eqPoint.length (0 : F) = point
  have hpointLength : point.length = ceilLog2 s + ceilLog2 s := by
    rw [← hpoint, List.length_replicate, hlength]
  have hcolumn : (point.take (data.eqPoint.length / 2)).length = ceilLog2 s := by
    rw [List.length_take]
    omega
  have hrow : (point.drop (data.eqPoint.length / 2)).length = ceilLog2 s := by
    rw [List.length_drop]
    omega
  rcases h with hproof | ⟨localMaskProof, n, hproof, hspan, hwindow, hn, hne⟩
  · obtain ⟨value, claims, hchecked⟩ := @exists_checkHeads _ _ _ _ self _ _ _ data hpos hmax
      hrow hcolumn point (evalZeroifierMle (point.take (data.eqPoint.length / 2))
        (point.drop (data.eqPoint.length / 2))) proof.evaluations t
    refine ⟨acceptingSumcheck value 0, claims, acceptingSumcheck_proper _ _, ?_⟩
    rw [(hrun _).2, verifyInternal_none (acceptingSumcheck_proper _ _) hproof,
      acceptingSumcheck_of_ne (by decide), ok_bind, hpoint]
    exact hchecked
  · obtain ⟨first, rest, hevaluations⟩ := List.exists_cons_of_ne_nil hne
    obtain ⟨second, hlocal⟩ := exists_verifyAdditionalMaskPolyEval hevals hspan hn
      (by rw [hrow]; exact hwindow) (by rw [hcolumn]; exact hmax) first localMaskProof t
    obtain ⟨value, claims, hchecked⟩ := @exists_checkHeads _ _ _ _ self _ _ _ data hpos hmax
      hrow hcolumn point (evalZeroifierMle (point.take (data.eqPoint.length / 2))
        (point.drop (data.eqPoint.length / 2)) * first) rest t
    refine ⟨acceptingSumcheck value second, claims, acceptingSumcheck_proper _ _, ?_⟩
    rw [(hrun _).2, verifyInternal_some (acceptingSumcheck_proper _ _) hspan hproof, hevaluations,
      acceptingSumcheck_of_ne (by decide), ok_bind, hpoint]
    refine bind_eq_ok.mpr ⟨first, rfl, ?_⟩
    exact bind_eq_ok.mpr ⟨t, hlocal value, hchecked⟩

theorem AttentionMask.EnforcesMask.adequate
    (hevals : ∀ point, evals point = (List.range (2 ^ point.length)).map (eqWeight point))
    (hdims : ∀ d ∈ (lead ++ [q, s] : Shape), 0 < d ∧ ceilLog2 d ≤ 64)
    (henforces : self.EnforcesMask evals lead q s proof t) : self.Adequate lead q s proof := by
  have hfirst : ∀ n, self.span = .localWindow n → proof.localMaskProof.isSome = true →
      proof.evaluations ≠ [] ∧ n ≠ 0 := by
    intro n hspan hsome
    by_contra h
    have hpanics := panics_of_not_first (t := t) hevals hdims hspan hsome
      (by rwa [not_and_or, not_ne_iff, not_ne_iff] at h)
    exact (henforces _ _ (acceptingSumcheck_proper 0 0)).1 hpanics
  -- an accepted run has checked the mask
  have hrun : ceilLog2 q = ceilLog2 s → (proof.localMaskProof = none ∨
      ∃ localMaskProof n, proof.localMaskProof = some localMaskProof ∧
        self.span = .localWindow n ∧ n < 2 ^ ceilLog2 s ∧ n ≠ 0 ∧ proof.evaluations ≠ []) →
      ∃ (v : SumcheckVerifier F P T) (claims : List (Claim F)),
        self.Enforces v proof lead q s (originClaim F lead q s) t claims := by
    intro hsquare h
    obtain ⟨v, claims, hv, hok⟩ := exists_accepted (t := t) hevals hdims hsquare h
    obtain ⟨lastClaim, hlast, hchecked⟩ := (henforces v _ hv).2 claims t hok
    rw [← (List.cons.inj hlast).1] at hchecked
    exact ⟨v, claims, hchecked⟩
  constructor
  case first => exact hfirst
  case localMask =>
    intro hsquare hband
    by_contra hnone
    rw [Bool.not_eq_true, Option.isSome_eq_false_iff, Option.isNone_iff_eq_none] at hnone
    obtain ⟨v, claims, subclaim, columnPoint, rowPoint, maskEval, _, ⟨_, t', _, _, hbound⟩, _, _, hrow, _⟩ :=
      hrun hsquare (.inl hnone)
    obtain ⟨n, hspan, hwindow⟩ := AttentionSpan.isBand_eq_true.mp hband
    obtain ⟨_, _, _, _, _, hsome, _⟩ := hbound n hspan (by rw [hrow]; exact hwindow)
    rw [hnone] at hsome
    cases hsome
  case heads =>
    intro hsquare hsame
    have hcases : proof.localMaskProof = none ∨ ∃ localMaskProof n,
        proof.localMaskProof = some localMaskProof ∧ self.span = .localWindow n ∧
        n < 2 ^ ceilLog2 s ∧ n ≠ 0 ∧ proof.evaluations ≠ [] := by
      cases hproof : proof.localMaskProof with
      | none => exact .inl rfl
      | some localMaskProof =>
        rw [hproof] at hsame
        obtain ⟨n, hspan, hwindow⟩ := AttentionSpan.isBand_eq_true.mp hsame.symm
        obtain ⟨hne, hn⟩ := hfirst n hspan (by rw [hproof]; rfl)
        exact .inr ⟨localMaskProof, n, rfl, hspan, hwindow, hn, hne⟩
    obtain ⟨v, claims, subclaim, columnPoint, rowPoint, maskEval, inputEvals, _, _, _, _, hlength,
      hinput, _⟩ := hrun hsquare hcases
    have hpos : 0 < lead.prod := by
      refine List.prod_pos ?_
      exact fun d hd => (hdims d (List.mem_append_left _ hd)).1
    rw [hinput, List.length_take, List.length_drop] at hlength
    omega

/-- For which proofs the verifier enforces the mask of the layer. -/
theorem enforcesMask_iff
    (hevals : ∀ point, evals point = (List.range (2 ^ point.length)).map (eqWeight point))
    (hdims : ∀ d ∈ (lead ++ [q, s] : Shape), 0 < d ∧ ceilLog2 d ≤ 64) :
    self.EnforcesMask evals lead q s proof t ↔ self.Adequate lead q s proof :=
  ⟨AttentionMask.EnforcesMask.adequate hevals hdims, AttentionMask.Adequate.enforcesMask hevals hdims⟩

/-- A square matrix of four tokens, each of which sees two, and a proof for that mask. -/
theorem enforcesMask_iff_four :
    (⟨.localWindow 2, -8⟩ : AttentionMask).EnforcesMask (F := ℚ) (P := Unit) (T := Unit)
      (fun point => (List.range (2 ^ point.length)).map (eqWeight point)) [] 4 4
      ⟨(), [1, 0], some ()⟩ () :=
  (enforcesMask_iff (fun _ => rfl) (by decide)).mpr {
    first := fun n hn _ => by
      rw [← AttentionSpan.localWindow.inj hn]
      simp
    localMask := fun _ _ => rfl
    heads := fun _ _ => by decide }

/-- Without the second sumcheck a token may also see the tokens before the last two. -/
theorem not_enforcesMask_four :
    ¬ (⟨.localWindow 2, -8⟩ : AttentionMask).EnforcesMask (F := ℚ) (P := Unit) (T := Unit)
      (fun point => (List.range (2 ^ point.length)).map (eqWeight point)) [] 4 4
      ⟨(), [0], none⟩ () := by
  intro h
  have hadequate := AttentionMask.EnforcesMask.adequate (fun _ => rfl) (by decide) h
  have hmask := hadequate.localMask rfl (by decide)
  cases hmask

end Iff

end Verifier

end DeepProve
