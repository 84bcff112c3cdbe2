import DeepProve.EinSum.Equation
import DeepProve.EinSum.Verify
import DeepProve.ForStd.WeightedSums
import DeepProve.PlainCrypto

/-!
# The evaluations of the stacked slices

The verifier of an Einstein summation checks the sum of the products of the evaluations, and hands on
the two sums of the evaluations on either side. So a prover may change the evaluations as long as the
two sums stay the same; the sum of the products does not, unless at most one stacking coefficient is not
zero, or two opposite ones belong to equal slices.
-/

namespace DeepProve

open Outcome WeightedSums

namespace EinSumContext

variable {F : Type} [Field F] {D : DpCrypto F}

/-! ## The expression of the sumcheck -/

theorem weightedSum_eq (evals coeffs : List F) :
    weightedSum evals coeffs = ((evals.zip coeffs).map fun (e, c) => e * c).sum := by
  unfold weightedSum
  rw [List.sum_eq_foldl, List.foldl_map]

theorem weightedSum_ofFn {s : Nat} (u c : Fin s → F) :
    weightedSum (List.ofFn u) (List.ofFn c) = ∑ j, c j * u j := by
  have hzip : ((List.ofFn u).zip (List.ofFn c)).map (fun (e, c) => e * c) =
      List.ofFn fun j => c j * u j := by
    apply List.ext_getElem
    · simp
    · intro i hi hi'
      simp [mul_comm]
  rw [weightedSum_eq, hzip, List.sum_ofFn]

/-- An evaluation by the number of its polynomial, which has 16 bits. -/
def evaluationAt (e : List F) (i : Nat) : F := e.getD (i % 2 ^ 16) 0

theorem eval_witIn (hD : D.Lawful) {e ch : List F} {i : Nat} (h : i < e.length) :
    D.eval e ch (D.witIn (UInt16.ofNat i)) = .ok (evaluationAt e i) := by
  have hlt : i % 2 ^ 16 < e.length := Nat.lt_of_le_of_lt (Nat.mod_le _ _) h
  apply hD.witIn
  rw [evaluationAt, List.getD_eq_getElem?_getD, List.getElem?_eq_getElem hlt, UInt16.toNat_ofNat']
  show e[i % 2 ^ 16]? = _
  rw [List.getElem?_eq_getElem hlt]
  rfl

/-- The products of one operation. -/
theorem eval_productsExpression (hD : D.Lawful) {e ch coeffs : List F} {offset rhsOffset : Nat}
    (hle : offset ≤ rhsOffset) (hlength : rhsOffset + coeffs.length ≤ e.length) (hne : coeffs ≠ []) :
    ∃ expression, productsExpression D coeffs offset rhsOffset = .ok expression ∧
      D.eval e ch expression = .ok ((coeffs.zipIdx.map fun (c, j) =>
        c * evaluationAt e (j + offset) * evaluationAt e (j + rhsOffset)).sum) := by
  have hterm : ∀ c j, j < coeffs.length → D.eval e ch (D.mul (D.mul (D.constant c)
      (D.witIn (UInt16.ofNat (j + offset)))) (D.witIn (UInt16.ofNat (j + rhsOffset)))) =
        .ok (c * evaluationAt e (j + offset) * evaluationAt e (j + rhsOffset)) := by
    intro c j hj
    exact hD.mul _ _ _ _ _ _ (hD.mul _ _ _ _ _ _ (hD.constant _ _ _) (eval_witIn hD (by omega)))
      (eval_witIn hD (by omega))
  cases coeffs with
  | nil => exact absurd rfl hne
  | cons c rest =>
    -- the terms are added in front of the first one
    have hfold : ∀ (l : List (F × Nat)) (inner : D.Expression) (v : F), D.eval e ch inner = .ok v →
        (∀ entry ∈ l, entry.2 + 1 < (c :: rest).length) →
        D.eval e ch (l.foldl (fun inner (c, j) =>
          D.add (D.mul (D.mul (D.constant c) (D.witIn (UInt16.ofNat (j + 1 + offset))))
            (D.witIn (UInt16.ofNat (j + 1 + rhsOffset)))) inner) inner) =
          .ok (v + (l.map fun (c, j) =>
            c * evaluationAt e (j + 1 + offset) * evaluationAt e (j + 1 + rhsOffset)).sum) := by
      intro l
      induction l with
      | nil =>
        intro inner v hinner _
        simpa using hinner
      | cons entry l ih =>
        intro inner v hinner hall
        obtain ⟨hentry, hall⟩ := List.forall_mem_cons.mp hall
        have hfirst := hD.add _ _ _ _ _ _ (hterm entry.1 (entry.2 + 1) hentry) hinner
        rw [List.foldl_cons, ih _ _ hfirst hall, List.map_cons, List.sum_cons]
        congr 1
        ring
    have hzero := hterm c 0 (Nat.zero_lt_succ _)
    rw [Nat.zero_add, Nat.zero_add] at hzero
    have hrest : ∀ entry ∈ rest.zipIdx, entry.2 + 1 < (c :: rest).length := by
      intro entry hentry
      have := List.snd_lt_of_mem_zipIdx hentry
      simp
      omega
    refine ⟨_, rfl, ?_⟩
    rw [hfold _ _ _ hzero hrest, List.zipIdx_cons', List.map_cons, List.sum_cons, List.map_map]
    simp [Function.comp_def]

/-- The expression for one operation. -/
theorem eval_buildEinsumExpression (hD : D.Lawful) (ctx : EinSumContext)
    (hinputs : ctx.mapping.inputCount = 2) {s : Nat} (hs : 0 < s) (c : Fin s → F) {e : List F}
    (hlength : e.length = 2 * s) (challenge : F) :
    ∃ expression, ctx.buildEinsumExpression D [List.ofFn c] = .ok expression ∧
      D.eval e [challenge] expression =
        .ok (∑ j : Fin s, c j * evaluationAt e j * evaluationAt e (j + s)) := by
  have hne : List.ofFn c ≠ [] := by
    intro h
    have := congrArg List.length h
    rw [List.length_ofFn, List.length_nil] at this
    omega
  have hfits : s + (List.ofFn c).length ≤ e.length := by
    rw [List.length_ofFn]
    omega
  have hexists : ∃ products, productsExpression D (List.ofFn c) 0 s = .ok products ∧
      D.eval e [challenge] products = .ok (((List.ofFn c).zipIdx.map fun (c, j) =>
        c * evaluationAt e (j + 0) * evaluationAt e (j + s)).sum) :=
    eval_productsExpression hD (Nat.zero_le s) hfits hne
  obtain ⟨products, hproducts, hvalue⟩ := hexists
  refine ⟨D.add (D.constant 0) (D.mul (D.challenge 0 0 1 0) products), ?_, ?_⟩
  · simp [buildEinsumExpression, hinputs, hproducts]
  · have hchallenge := hD.challenge e [challenge] 0 0 1 0 challenge rfl
    rw [hD.add _ _ _ _ _ _ (hD.constant _ _ _) (hD.mul _ _ _ _ _ _ hchallenge hvalue)]
    have hsum : ((List.ofFn c).zipIdx.map fun (c, j) =>
        c * evaluationAt e (j + 0) * evaluationAt e (j + s)) =
          List.ofFn fun j : Fin s => c j * evaluationAt e j * evaluationAt e (j + s) := by
      apply List.ext_getElem
      · simp
      · intro i hi hi'
        simp
    rw [hsum, List.sum_ofFn]
    congr 1
    ring

/-! ## What the verifier accepts -/

/-- An equation with one right input, which may be a constant, and a bias or none. -/
structure SingleOperation (ctx : EinSumContext) (eqn : Equation) : Prop where
  mapping : ∃ biasDims, AxesMapping.fromTerms [eqn.lhs, eqn.rhs] [eqn.out] biasDims = .ok ctx.mapping
  constant : ∃ key constShape, ctx.constantKeys = [key] ∧ ctx.constantUnpaddedShapes = [constShape]
  bias : ∃ key biasShape, ctx.biasKeys = [key] ∧ ctx.biasUnpaddedShapes = [biasShape]
  /-- Different tensors are committed under different names. -/
  distinct : ∀ key, ctx.constantKeys = [some key] → ctx.biasKeys ≠ [some key]

variable {ctx : EinSumContext} {eqn : Equation} {claimPoint : List F}

/-- What is known after the sumcheck, for an equation with one right input. -/
structure Ready (eqn : Equation) (claimPoint : List F) (after : AfterSumcheck D) : Prop where
  lhsFixes : after.fixed.lhsFixes = [eqn.lhs.map (eqn.fix claimPoint)]
  rhsFixes : after.fixed.rhsFixes = [eqn.rhs.map (eqn.fix claimPoint)]
  coeffs : after.stackingCoeffs = [List.ofFn (eqn.coefficient claimPoint)]
  padded : after.prepared.paddedInputShapes =
    [(eqn.shape eqn.lhs).nextPowerOfTwo, (eqn.shape eqn.rhs).nextPowerOfTwo]

/-- The sum of the products of the evaluations, as the verifier computes it. -/
def calculated (eqn : Equation) (claimPoint e : List F) : F :=
  ∑ j : Fin eqn.stackingSize, eqn.coefficient claimPoint j * evaluationAt e j *
    evaluationAt e (j + eqn.stackingSize)

/-- What the claim about the right input is made of. -/
def rhsEntry (eqn : Equation) (claimPoint e : List F) (key : Option CommitmentId)
    (constShape : Option Shape) : RhsEntry F where
  rhsFixes := eqn.rhs.map (eqn.fix claimPoint)
  evalChunk := e.drop eqn.stackingSize
  coeffs := List.ofFn (eqn.coefficient claimPoint)
  constShape := constShape
  polyId := key
  inputShape := (eqn.shape eqn.rhs).nextPowerOfTwo

theorem chunksOf_self {α : Type} {xs : List α} {size : Nat} (hsize : 0 < size)
    (h : xs.length = size) : chunksOf xs size = .ok [xs] := by
  have hpieces := @pieces_append α xs [] size hsize h
  rw [List.append_nil, pieces_nil] at hpieces
  rw [chunksOf, if_neg (by omega), hpieces]

variable [DecidableEq F]
variable {constShape : Option Shape} {claim : Claim F} {key : Option CommitmentId}

/-- What the verifier accepts after the sumcheck, and the claims it returns. -/
theorem finish_eq_ok_iff (hD : D.Lawful) (hinputs : ctx.mapping.inputCount = 2)
    (hkeys : ctx.constantKeys = [key]) (hshapes : ctx.constantUnpaddedShapes = [constShape])
    (hs : 0 < eqn.stackingSize) {after : AfterSumcheck D} (hready : Ready eqn claimPoint after)
    {proof : EinSumProof D} (hlength : proof.einsumEvaluations.length = 2 * eqn.stackingSize)
    {info : EinSumVerifierInfo F} {t' : D.Transcript} :
    ctx.finish D proof after = .ok (info, t') ↔
      after.einsumSubclaim.expectedEvaluation =
          calculated eqn claimPoint proof.einsumEvaluations ∧
        ∃ inputs weights lhs,
          rhsClaim after.einsumSubclaim.point ([], [])
            (rhsEntry eqn claimPoint proof.einsumEvaluations key constShape) =
              .ok (inputs, weights) ∧
          lhsClaim D proof.inputAggregationSumcheck [eqn.lhs.map (eqn.fix claimPoint)]
            after.einsumSubclaim.point (eqn.shape eqn.lhs).nextPowerOfTwo
            [proof.einsumEvaluations.take eqn.stackingSize]
            [List.ofFn (eqn.coefficient claimPoint)] after.transcript = .ok (lhs, t') ∧
          info = ⟨lhs :: inputs, (weights ++ after.prepared.outputs.biasClaims).foldl
            (fun constants (id, claim) => constants.insert id claim) ∅⟩ := by
  have hhalf : proof.einsumEvaluations.length / 2 = eqn.stackingSize := by omega
  have hrhs : chunksOf (proof.einsumEvaluations.drop eqn.stackingSize) eqn.stackingSize =
      .ok [proof.einsumEvaluations.drop eqn.stackingSize] :=
    chunksOf_self hs (by rw [List.length_drop]; omega)
  have hlhs : chunksOf (proof.einsumEvaluations.take eqn.stackingSize) eqn.stackingSize =
      .ok [proof.einsumEvaluations.take eqn.stackingSize] :=
    chunksOf_self hs (by rw [List.length_take]; omega)
  obtain ⟨expression, hbuild, hvalue⟩ := eval_buildEinsumExpression hD ctx hinputs hs
    (eqn.coefficient claimPoint) hlength after.batchingChallenge
  have hentries : ctx.rhsEntries after.fixed.rhsFixes
      [proof.einsumEvaluations.drop eqn.stackingSize] after.stackingCoeffs
      after.prepared.paddedInputShapes =
        [rhsEntry eqn claimPoint proof.einsumEvaluations key constShape] := by
    rw [rhsEntries, hready.rhsFixes, hready.coeffs, hready.padded, hkeys, hshapes]
    rfl
  unfold finish
  simp only [hready.coeffs, hready.lhsFixes, hready.padded, hbuild, hvalue, Outcome.ok_bind,
    List.getElem?_cons_zero, unwrap_some, List.length_ofFn, hhalf, hrhs, hlhs]
  rw [← hready.coeffs, ← hready.padded, hentries, List.foldlM_cons]
  simp only [List.foldlM_nil, bind_eq_ok, ensure_eq_ok, beq_iff_eq, Except.ok.injEq, Prod.mk.injEq,
    exists_and_left, Prod.exists]
  constructor
  · rintro ⟨hcalculated, _, _, _, ⟨inputs, weights, hrhsClaim, hpure⟩, lhs, _, hlhsClaim, rfl, rfl⟩
    obtain ⟨rfl, rfl⟩ := Prod.mk.inj (Except.ok.inj hpure)
    exact ⟨hcalculated, inputs, weights, hrhsClaim, lhs, hlhsClaim, rfl⟩
  · rintro ⟨hcalculated, inputs, weights, hrhsClaim, lhs, hlhsClaim, rfl⟩
    exact ⟨hcalculated, (), inputs, weights, ⟨inputs, weights, hrhsClaim, rfl⟩, lhs, t', hlhsClaim,
      rfl, rfl⟩

/-! ## What is known before -/

omit [DecidableEq F] in
/-- The claim about the output, cut at its axes. -/
theorem splitOutput_eq_ok {biasEvals : List F} {unpadded : Shape} {biasShape : Option Shape}
    {biasKey : Option CommitmentId} {outputs : OutputClaims F}
    (h : ctx.splitOutput ⟨biasEvals, 0, [], [], []⟩
      (⟨claim, (eqn.shape eqn.out).nextPowerOfTwo, unpadded, biasShape, biasKey⟩, 0) = .ok outputs) :
    claim.point.length = (eqn.shape eqn.out).dimVars.sum ∧
      outputs.splitPoints = [Shape.splitSlices claim.point (eqn.shape eqn.out).dimVars] ∧
      ∀ entry ∈ outputs.biasClaims, biasKey = some entry.1 := by
  unfold splitOutput at h
  cases biasShape with
  | none =>
    obtain ⟨slices, hslices, h⟩ := bind_eq_ok.mp h
    obtain ⟨hlength, rfl⟩ := Shape.splitPoint_eq_ok_iff.mp hslices
    rw [← Except.ok.inj h]
    exact ⟨hlength, rfl, fun _ hentry => nomatch hentry⟩
  | some _ =>
    obtain ⟨biasEval, _, h⟩ := bind_eq_ok.mp h
    obtain ⟨slices, hslices, h⟩ := bind_eq_ok.mp h
    obtain ⟨⟨broadcast, biasClaim⟩, _, h⟩ := bind_eq_ok.mp h
    obtain ⟨biasId, hbiasId, h⟩ := bind_eq_ok.mp h
    obtain ⟨hlength, rfl⟩ := Shape.splitPoint_eq_ok_iff.mp hslices
    rw [← Except.ok.inj h]
    refine ⟨hlength, rfl, fun entry hentry => ?_⟩
    rw [List.mem_singleton.mp hentry]
    exact unwrap_eq_ok.mp hbiasId

/-- The step has the shapes of the equation. -/
def HasShapes (ctx : EinSumContext) (eqn : Equation) (shapeStep : ShapeStep) : Prop :=
  ctx.inputShapes shapeStep = .ok ([eqn.shape eqn.lhs, eqn.shape eqn.rhs],
    [(eqn.shape eqn.lhs).nextPowerOfTwo, (eqn.shape eqn.rhs).nextPowerOfTwo])

theorem shape_nextPowerOfTwo (eqn : Equation) (dims : List Char) :
    (eqn.shape dims).nextPowerOfTwo = dims.map fun c => nextPowerOfTwo (eqn.size c) := by
  rw [Shape.nextPowerOfTwo, Equation.shape, List.map_map]
  rfl

omit [DecidableEq F] in
theorem prepare_eq_ok (hctx : SingleOperation ctx eqn) {shapeStep : ShapeStep}
    (hshapes : HasShapes ctx eqn shapeStep) {biasEvals : List F} {prepared : Prepared F}
    (h : ctx.prepare biasEvals [claim] shapeStep = .ok prepared) :
    claim.point.length = (eqn.shape eqn.out).dimVars.sum ∧
      prepared.unpaddedInputShapes = [eqn.shape eqn.lhs, eqn.shape eqn.rhs] ∧
      prepared.paddedInputShapes =
        [(eqn.shape eqn.lhs).nextPowerOfTwo, (eqn.shape eqn.rhs).nextPowerOfTwo] ∧
      prepared.outputs.splitPoints =
        [Shape.splitSlices claim.point (eqn.shape eqn.out).dimVars] ∧
      ∀ entry ∈ prepared.outputs.biasClaims, ctx.biasKeys = [some entry.1] := by
  obtain ⟨biasDims, hm⟩ := hctx.mapping
  obtain ⟨biasKey, biasShape, hkeys, hbiases⟩ := hctx.bias
  unfold prepare at h
  rw [show ctx.inputShapes shapeStep = _ from hshapes] at h
  obtain ⟨_, _, h⟩ := bind_eq_ok.mp h
  rw [Outcome.ok_bind] at h
  dsimp only at h
  obtain ⟨outs, houts, h⟩ := bind_eq_ok.mp h
  obtain ⟨unpaddedOuts, hunpadded, h⟩ := bind_eq_ok.mp h
  obtain ⟨sizes, _, h⟩ := bind_eq_ok.mp h
  obtain ⟨outputs, hfold, h⟩ := bind_eq_ok.mp h
  have hcount : ctx.mapping.outputCount = 1 := (Equation.describes hm).outputCount
  -- the shapes of the output
  rw [shape_nextPowerOfTwo, shape_nextPowerOfTwo] at houts
  have hpos : ∀ c ∈ eqn.out, nextPowerOfTwo (eqn.size c) ≠ 0 := fun c _ =>
    (Nat.two_pow_pos _).ne'
  obtain rfl := Equation.outputShapes_eq hm hpos houts
  have hlength := AxesMapping.length_outputShapes hunpadded
  rw [hcount] at hlength
  obtain ⟨unpadded, rfl⟩ := List.length_eq_one_iff.mp hlength
  rw [outputEntries, hkeys, hbiases, ← shape_nextPowerOfTwo] at hfold
  simp only [List.zip_cons_cons, List.zip_nil_left, List.map_cons, List.map_nil, List.zipIdx_cons,
    List.zipIdx_nil, List.foldlM_cons, List.foldlM_nil] at hfold
  obtain ⟨outputs', hsplit, hpure⟩ := bind_eq_ok.mp hfold
  obtain rfl := Except.ok.inj hpure
  obtain ⟨hpoint, hslices, hbias⟩ := splitOutput_eq_ok hsplit
  rw [← Except.ok.inj h]
  exact ⟨hpoint, rfl, rfl, hslices, fun entry hentry => by rw [hkeys, hbias entry hentry]⟩

omit [DecidableEq F] in
/-- What is known after the sumcheck. -/
theorem ready_of_runSumcheck (hctx : SingleOperation ctx eqn) {shapeStep : ShapeStep}
    (hshapes : HasShapes ctx eqn shapeStep) {evals : List F → List F}
    (hevals : ∀ point, evals point =
      (List.range (2 ^ point.length)).map (Multilinear.eqWeight point)) {proof : EinSumProof D}
    {t : D.Transcript} {after : AfterSumcheck D}
    (h : ctx.runSumcheck D evals proof [claim] shapeStep t = .ok after) :
    claim.point.length = (eqn.shape eqn.out).dimVars.sum ∧ Ready eqn claim.point after ∧
      ∀ entry ∈ after.prepared.outputs.biasClaims, ctx.biasKeys = [some entry.1] := by
  obtain ⟨biasDims, hm⟩ := hctx.mapping
  unfold runSumcheck at h
  simp only [bind_eq_ok, Except.ok.injEq] at h
  obtain ⟨prepared, hprepared, fixed, hfixed, lhsUnpadded, hlhs, coeffs, hcoeffs, ⟨subclaim, t'⟩, _,
    hafter⟩ := h
  obtain ⟨hpoint, hunpadded, hpadded, hslices, hbias⟩ := prepare_eq_ok hctx hshapes hprepared
  rw [hunpadded] at hlhs
  obtain rfl := Option.some.inj (unwrap_eq_ok.mp hlhs)
  rw [hslices] at hfixed
  obtain ⟨hlhsFixes, hrhsFixes⟩ := Equation.sortVariablesToAxes_single hm hfixed
  unfold FixedAxesMapping.stackingCoefficients at hcoeffs
  rw [hlhsFixes, List.mapM_cons] at hcoeffs
  obtain ⟨first, hfirst, hnil⟩ := bind_eq_ok.mp hcoeffs
  have hcoefficients : coeffs = [List.ofFn (eqn.coefficient claim.point)] := by
    rw [Equation.ofFn_coefficient]
    rw [show first = _ from Equation.coefficients_eq hevals eqn.lhs_nodup hfirst] at hnil
    exact (Except.ok.inj hnil).symm
  rw [← hafter]
  exact ⟨hpoint, ⟨hlhsFixes, hrhsFixes, hcoefficients, hpadded⟩, hbias⟩

/-! ## The claims about the inputs -/

/-- The point of the claim about an input. -/
def inputClaimPoint (eqn : Equation) (claimPoint sumcheckPoint : List F) (dims : List Char) : List F :=
  (eqn.inputSlices claimPoint sumcheckPoint dims).reverse.flatten

/-- The evaluations of the left input. -/
def lhsValues (eqn : Equation) (e : List F) (j : Fin eqn.stackingSize) : F := e.getD j 0

/-- The evaluations of the right input. -/
def rhsValues (eqn : Equation) (e : List F) (j : Fin eqn.stackingSize) : F :=
  e.getD (eqn.stackingSize + j) 0

/-- The sum of the evaluations of one input, with the stacking coefficients. -/
def stacked (eqn : Equation) (claimPoint : List F) (values : Fin eqn.stackingSize → F) : F :=
  ∑ j, eqn.coefficient claimPoint j * values j

variable {e sumcheckPoint : List F}

omit [DecidableEq F] in
theorem weightedSum_take (hlength : e.length = 2 * eqn.stackingSize) :
    weightedSum (e.take eqn.stackingSize) (List.ofFn (eqn.coefficient claimPoint)) =
      stacked eqn claimPoint (lhsValues eqn e) := by
  have htake : e.take eqn.stackingSize = List.ofFn (lhsValues eqn e) := by
    apply List.ext_getElem
    · rw [List.length_take, List.length_ofFn]
      omega
    · intro i hi hi'
      rw [List.length_ofFn] at hi'
      rw [List.getElem_take, List.getElem_ofFn, lhsValues, List.getD_eq_getElem?_getD,
        List.getElem?_eq_getElem (by omega)]
      rfl
  rw [htake, weightedSum_ofFn, stacked]

omit [DecidableEq F] in
theorem weightedSum_drop (hlength : e.length = 2 * eqn.stackingSize) :
    weightedSum (e.drop eqn.stackingSize) (List.ofFn (eqn.coefficient claimPoint)) =
      stacked eqn claimPoint (rhsValues eqn e) := by
  have hdrop : e.drop eqn.stackingSize = List.ofFn (rhsValues eqn e) := by
    apply List.ext_getElem
    · rw [List.length_drop, List.length_ofFn]
      omega
    · intro i hi hi'
      rw [List.length_ofFn] at hi'
      rw [List.getElem_drop, List.getElem_ofFn, rhsValues, List.getD_eq_getElem?_getD,
        List.getElem?_eq_getElem (by omega)]
      rfl
  rw [hdrop, weightedSum_ofFn, stacked]

omit [DecidableEq F] in
/-- The claim about the right input, as one of the node or as one about a constant. -/
theorem rhsClaim_eq_ok (hlength : e.length = 2 * eqn.stackingSize) {inputs : List (Claim F)}
    {weights : List (CommitmentId × Claim F)}
    (h : rhsClaim sumcheckPoint ([], []) (rhsEntry eqn claimPoint e key constShape) =
      .ok (inputs, weights)) :
    eqn.contractedVars eqn.rhs ≤ sumcheckPoint.length ∧
      (constShape = none ∧ weights = [] ∧
          inputs = [⟨inputClaimPoint eqn claimPoint sumcheckPoint eqn.rhs,
            stacked eqn claimPoint (rhsValues eqn e)⟩] ∨
        ∃ id, constShape.isSome ∧ key = some id ∧ inputs = [] ∧
          weights = [(id, ⟨inputClaimPoint eqn claimPoint sumcheckPoint eqn.rhs,
            stacked eqn claimPoint (rhsValues eqn e)⟩)]) := by
  unfold rhsClaim at h
  obtain ⟨point, hpoint, h⟩ := bind_eq_ok.mp h
  obtain ⟨hvars, rfl⟩ := Equation.reconstructFullPoint_eq hpoint
  dsimp only [rhsEntry] at h
  rw [weightedSum_drop hlength] at h
  refine ⟨hvars, ?_⟩
  cases constShape with
  | none =>
    obtain ⟨rfl, rfl⟩ := Prod.mk.inj (Except.ok.inj h)
    exact .inl ⟨rfl, rfl, rfl⟩
  | some _ =>
    obtain ⟨id, hid, h⟩ := bind_eq_ok.mp h
    obtain ⟨rfl, rfl⟩ := Prod.mk.inj (Except.ok.inj h)
    exact .inr ⟨id, rfl, unwrap_eq_ok.mp hid, rfl, rfl⟩

omit [DecidableEq F] in
/-- Whether the right input is a claim does not depend on the evaluations. -/
theorem exists_rhsClaim (e' : List F)
    (h : ∃ claims, rhsClaim sumcheckPoint ([], []) (rhsEntry eqn claimPoint e key constShape) =
      .ok claims) :
    ∃ claims, rhsClaim sumcheckPoint ([], []) (rhsEntry eqn claimPoint e' key constShape) =
      .ok claims := by
  obtain ⟨claims, h⟩ := h
  unfold rhsClaim at h ⊢
  obtain ⟨point, hpoint, h⟩ := bind_eq_ok.mp h
  have hpoint : reconstructFullPoint (rhsEntry eqn claimPoint e' key constShape).rhsFixes
      sumcheckPoint (rhsEntry eqn claimPoint e' key constShape).inputShape = .ok point := hpoint
  rw [hpoint]
  dsimp only [rhsEntry] at h ⊢
  cases constShape with
  | none => exact ⟨_, rfl⟩
  | some _ =>
    obtain ⟨id, hid, _⟩ := bind_eq_ok.mp h
    exact ⟨_, by rw [Outcome.ok_bind]; exact bind_eq_ok.mpr ⟨id, hid, rfl⟩⟩

omit [Field F] [DecidableEq F] in
/-- A claim is looked up under its name. -/
theorem getElem?_insert_all {id : CommitmentId} {others : List (CommitmentId × Claim F)}
    (h : ∀ entry ∈ others, entry.1 ≠ id) :
    (([(id, claim)] ++ others).foldl (fun (constants : HashMap CommitmentId (Claim F)) entry =>
      constants.insert entry.1 entry.2) ∅)[id]? = some claim := by
  have hkeep : ∀ (constants : HashMap CommitmentId (Claim F)), constants[id]? = some claim →
      (others.foldl (fun (constants : HashMap CommitmentId (Claim F)) entry =>
        constants.insert entry.1 entry.2) constants)[id]? = some claim := by
    induction others with
    | nil =>
      intro constants hconstants
      exact hconstants
    | cons entry others ih =>
      intro constants hconstants
      obtain ⟨hentry, hrest⟩ := List.forall_mem_cons.mp h
      rw [List.foldl_cons]
      apply ih hrest
      rw [Std.ExtTreeMap.getElem?_insert, if_neg (by simpa using hentry), hconstants]
  rw [List.singleton_append, List.foldl_cons]
  apply hkeep
  rw [Std.ExtTreeMap.getElem?_insert, if_pos (by simp)]

/-- The claim about the left input, from the evaluations or from a second sumcheck. -/
theorem lhsClaim_eq_ok (hlength : e.length = 2 * eqn.stackingSize)
    {aggregation : Option D.IOPProof} {lhs : Claim F} {t t' : D.Transcript}
    (h : lhsClaim D aggregation [eqn.lhs.map (eqn.fix claimPoint)] sumcheckPoint
      (eqn.shape eqn.lhs).nextPowerOfTwo [e.take eqn.stackingSize]
      [List.ofFn (eqn.coefficient claimPoint)] t = .ok (lhs, t')) :
    eqn.contractedVars eqn.lhs ≤ sumcheckPoint.length ∧
      (aggregation = none ∧ lhs = ⟨inputClaimPoint eqn claimPoint sumcheckPoint eqn.lhs,
          stacked eqn claimPoint (lhsValues eqn e)⟩ ∨
        ∃ proof aux t₁ subclaim t₂, aggregation = some proof ∧
          D.verifySumcheck (stacked eqn claimPoint (lhsValues eqn e)) proof aux t₁ =
            .ok (subclaim, t₂) ∧
          identityEval (inputClaimPoint eqn claimPoint sumcheckPoint eqn.lhs) subclaim.point ≠ 0 ∧
          lhs = ⟨subclaim.point, subclaim.expectedEvaluation *
            (identityEval (inputClaimPoint eqn claimPoint sumcheckPoint eqn.lhs)
              subclaim.point)⁻¹⟩) := by
  unfold lhsClaim at h
  cases aggregation with
  | none =>
    dsimp only [List.getElem?_cons_zero] at h
    rw [unwrap_some, Outcome.ok_bind] at h
    obtain ⟨point, hpoint, h⟩ := bind_eq_ok.mp h
    obtain ⟨hvars, rfl⟩ := Equation.reconstructFullPoint_eq hpoint
    obtain ⟨rfl, rfl⟩ := Prod.mk.inj (Except.ok.inj h)
    refine ⟨hvars, .inl ⟨rfl, ?_⟩⟩
    rw [List.zip_cons_cons, List.zip_nil_left, List.foldl_cons, List.foldl_nil, zero_add,
      weightedSum_take hlength]
    rfl
  | some proof =>
    simp only [List.mapM_cons, List.mapM_nil, bind_eq_ok] at h
    obtain ⟨_, ⟨point, hpoint, _, hnil, hpoints⟩, first, hfirst, ⟨subclaim, t₂⟩, hsumcheck, h⟩ := h
    obtain rfl := Except.ok.inj hnil
    obtain rfl := Except.ok.inj hpoints
    obtain ⟨hvars, rfl⟩ := Equation.reconstructFullPoint_eq hpoint
    simp only [List.zip_cons_cons, List.zip_nil_left, List.foldl_cons, List.foldl_nil, mul_one,
      zero_add, weightedSum_take hlength] at hsumcheck h
    split at h
    · cases h
    · next hne =>
      obtain ⟨rfl, rfl⟩ := Prod.mk.inj (Except.ok.inj h)
      exact ⟨hvars, .inr ⟨proof, _, _, subclaim, t₂, rfl, hsumcheck, hne, rfl⟩⟩

/-- Without a second sumcheck there is a claim about the left input, whatever the evaluations. -/
theorem exists_lhsClaim (e' : List F) (t₁ : D.Transcript) {aggregation : Option D.IOPProof}
    {lhsShape : Shape} {t : D.Transcript}
    (h : ∃ result, lhsClaim D aggregation [eqn.lhs.map (eqn.fix claimPoint)] sumcheckPoint lhsShape
      [e.take eqn.stackingSize] [List.ofFn (eqn.coefficient claimPoint)] t = .ok result) :
    ∃ lhs, lhsClaim D none [eqn.lhs.map (eqn.fix claimPoint)] sumcheckPoint lhsShape
      [e'.take eqn.stackingSize] [List.ofFn (eqn.coefficient claimPoint)] t₁ = .ok (lhs, t₁) := by
  have hpoint : ∃ point, reconstructFullPoint (eqn.lhs.map (eqn.fix claimPoint)) sumcheckPoint
      lhsShape = .ok point := by
    obtain ⟨result, h⟩ := h
    unfold lhsClaim at h
    cases aggregation with
    | none =>
      dsimp only [List.getElem?_cons_zero] at h
      rw [unwrap_some, Outcome.ok_bind] at h
      obtain ⟨point, hpoint, _⟩ := bind_eq_ok.mp h
      exact ⟨point, hpoint⟩
    | some proof =>
      simp only [List.mapM_cons, bind_eq_ok] at h
      obtain ⟨_, ⟨point, hpoint, _⟩, _⟩ := h
      exact ⟨point, hpoint⟩
  obtain ⟨point, hpoint⟩ := hpoint
  unfold lhsClaim
  dsimp only [List.getElem?_cons_zero]
  rw [unwrap_some, Outcome.ok_bind, hpoint]
  exact ⟨_, rfl⟩

/-! ## What a run says about the evaluations -/

/-- A claim about a padded tensor is true. -/
def IsTrue (shape : Shape) (tensor : List Nat → F) (claim : Claim F) : Prop :=
  claim.eval = Multilinear.eval (Multilinear.paddedTable shape tensor) claim.point

/-- The claim about the right input, wherever it is returned. -/
def returnedRhs (ctx : EinSumContext) (info : EinSumVerifierInfo F) : Option (Claim F) :=
  match ctx.constantUnpaddedShapes, ctx.constantKeys with
  | [some _], [some key] => info.constantsMap[key]?
  | _, _ => info.claims[1]?

/-- The claims about the two inputs are true. -/
def ClaimsTrue (ctx : EinSumContext) (eqn : Equation) (L R : List Nat → F)
    (info : EinSumVerifierInfo F) : Prop :=
  ∃ lhs rhs, info.claims[0]? = some lhs ∧ returnedRhs ctx info = some rhs ∧
    IsTrue (eqn.shape eqn.lhs) L lhs ∧ IsTrue (eqn.shape eqn.rhs) R rhs

/-- A sumcheck about the given sum is sound: if what it leaves is true, then so was the claim. -/
def SumcheckSound (D : DpCrypto F) (proof : D.IOPProof) (summand : List F → F) (total : F) : Prop :=
  ∀ claimed aux t subclaim t', D.verifySumcheck claimed proof aux t = .ok (subclaim, t') →
    subclaim.expectedEvaluation = summand subclaim.point → claimed = total

/-- The second sumcheck of a proof, if there is one, is sound. -/
def AggregationSound (eqn : Equation) (claimPoint sumcheckPoint : List F) (L : List Nat → F)
    (proof : EinSumProof D) : Prop :=
  let point := inputClaimPoint eqn claimPoint sumcheckPoint eqn.lhs
  let table := Multilinear.paddedTable (eqn.shape eqn.lhs) L
  ∀ aggregation, proof.inputAggregationSumcheck = some aggregation →
    SumcheckSound D aggregation (fun x => identityEval point x * Multilinear.eval table x)
      (Multilinear.eval table point)

/-- The verifier accepts a proof with two evaluations for each slice, and the sumcheck leaves the given
    subclaim. -/
structure AcceptedRun (ctx : EinSumContext) (D : DpCrypto F) (evals : List F → List F)
    (eqn : Equation) (claim : Claim F) (shapeStep : ShapeStep) (subclaim : SumcheckSubclaim F)
    (proof : EinSumProof D) (info : EinSumVerifierInfo F) : Prop where
  length : proof.einsumEvaluations.length = 2 * eqn.stackingSize
  run : ∃ t after t', ctx.runSumcheck D evals proof [claim] shapeStep t = .ok after ∧
    after.einsumSubclaim = subclaim ∧
    ctx.verifyInternal D evals proof [claim] shapeStep t = .ok (info, t')

section Runs

variable {evals : List F → List F} {claim : Claim F} {shapeStep : ShapeStep}
  {subclaim : SumcheckSubclaim F} {proof : EinSumProof D} {info : EinSumVerifierInfo F}

omit [Field F] [DecidableEq F] in
theorem returnedRhs_eq (lhs : Claim F) (hctx : SingleOperation ctx eqn) {key : Option CommitmentId}
    {constShape : Option Shape} (hkeys : ctx.constantKeys = [key])
    (hshapes : ctx.constantUnpaddedShapes = [constShape]) {rhs : Claim F}
    {inputs : List (Claim F)} {weights biasClaims : List (CommitmentId × Claim F)}
    (hbias : ∀ entry ∈ biasClaims, ctx.biasKeys = [some entry.1])
    (h : constShape = none ∧ weights = [] ∧ inputs = [rhs] ∨
      ∃ id, constShape.isSome ∧ key = some id ∧ inputs = [] ∧ weights = [(id, rhs)]) :
    returnedRhs ctx ⟨lhs :: inputs, (weights ++ biasClaims).foldl
      (fun constants (id, claim) => constants.insert id claim) ∅⟩ = some rhs := by
  unfold returnedRhs
  rw [hshapes, hkeys]
  obtain ⟨rfl, rfl, rfl⟩ | ⟨id, hsome, rfl, rfl, rfl⟩ := h
  · rfl
  · obtain ⟨shape, rfl⟩ := Option.isSome_iff_exists.mp hsome
    refine getElem?_insert_all fun entry hentry heq => ?_
    exact hctx.distinct id hkeys (heq ▸ hbias entry hentry)

/-- What an accepted run says about the evaluations, and when the returned claims are true. -/
theorem AcceptedRun.spec (hD : D.Lawful) (hctx : SingleOperation ctx eqn)
    (hshapes : HasShapes ctx eqn shapeStep)
    (hevals : ∀ point, evals point =
      (List.range (2 ^ point.length)).map (Multilinear.eqWeight point))
    (hs : 0 < eqn.stackingSize)
    (h : AcceptedRun ctx D evals eqn claim shapeStep subclaim proof info) (L R : List Nat → F) :
    subclaim.expectedEvaluation = calculated eqn claim.point proof.einsumEvaluations ∧
      (AggregationSound eqn claim.point subclaim.point L proof → ClaimsTrue ctx eqn L R info →
        stacked eqn claim.point (lhsValues eqn proof.einsumEvaluations) =
            stacked eqn claim.point (eqn.slice claim.point subclaim.point eqn.lhs L) ∧
          stacked eqn claim.point (rhsValues eqn proof.einsumEvaluations) =
            stacked eqn claim.point (eqn.slice claim.point subclaim.point eqn.rhs R)) ∧
      (proof.inputAggregationSumcheck = none →
        stacked eqn claim.point (lhsValues eqn proof.einsumEvaluations) =
            stacked eqn claim.point (eqn.slice claim.point subclaim.point eqn.lhs L) →
        stacked eqn claim.point (rhsValues eqn proof.einsumEvaluations) =
            stacked eqn claim.point (eqn.slice claim.point subclaim.point eqn.rhs R) →
        ClaimsTrue ctx eqn L R info) := by
  obtain ⟨t, after, t', hrun, rfl, hverify⟩ := h.run
  obtain ⟨key, constShape, hkeys, hconst⟩ := hctx.constant
  obtain ⟨biasDims, hm⟩ := hctx.mapping
  obtain ⟨hpoint, hready, hbias⟩ := ready_of_runSumcheck hctx hshapes hevals hrun
  rw [verifyInternal, hrun, Outcome.ok_bind] at hverify
  obtain ⟨hcalculated, inputs, weights, lhs, hrhs, hlhs, rfl⟩ :=
    (finish_eq_ok_iff hD (Equation.describes hm).inputCount hkeys hconst hs hready h.length).mp hverify
  obtain ⟨hrhsVars, hrhsClaim⟩ := rhsClaim_eq_ok h.length hrhs
  obtain ⟨hlhsVars, hlhsClaim⟩ := lhsClaim_eq_ok h.length hlhs
  have hreturned := returnedRhs_eq lhs hctx hkeys hconst hbias hrhsClaim
  -- the values of the two inputs at the points of the claims
  have hL := Equation.eval_eq_sum_slices hpoint eqn.lhs_nodup Equation.lhs_stacked hlhsVars L
  have hR := Equation.eval_eq_sum_slices hpoint eqn.rhs_nodup Equation.rhs_stacked hrhsVars R
  refine ⟨hcalculated, fun hsound htrue => ?_, fun hnone hleft hright => ?_⟩
  · obtain ⟨lhs', rhs', hlhs', hrhs', hlhsTrue, hrhsTrue⟩ := htrue
    obtain rfl := Option.some.inj hlhs'
    obtain rfl := Option.some.inj (hreturned.symm.trans hrhs')
    refine ⟨?_, hrhsTrue.trans hR⟩
    obtain ⟨_, rfl⟩ | ⟨aggregation, aux, t₁, sub, t₂, hsome, hsumcheck, hne, rfl⟩ := hlhsClaim
    · exact hlhsTrue.trans hL
    · rw [← show _ = stacked eqn claim.point _ from hL]
      apply hsound aggregation hsome _ _ _ _ _ hsumcheck
      have hvalue : Multilinear.eval (Multilinear.paddedTable (eqn.shape eqn.lhs) L) sub.point =
          sub.expectedEvaluation * (identityEval (inputClaimPoint eqn claim.point
            after.einsumSubclaim.point eqn.lhs) sub.point)⁻¹ := hlhsTrue.symm
      dsimp only
      rw [hvalue, mul_comm, mul_assoc, inv_mul_cancel₀ hne, mul_one]
  · obtain ⟨_, rfl⟩ | ⟨aggregation, _, _, _, _, hsome, _⟩ := hlhsClaim
    · exact ⟨_, _, rfl, hreturned, hleft.trans hL.symm, hright.trans hR.symm⟩
    · rw [hnone] at hsome
      cases hsome

theorem verifyInternal_of_run {lastClaims : List (Claim F)} {t : D.Transcript}
    {after : AfterSumcheck D}
    (h : ctx.runSumcheck D evals proof lastClaims shapeStep t = .ok after) :
    ctx.verifyInternal D evals proof lastClaims shapeStep t = ctx.finish D proof after := by
  rw [verifyInternal, h, Outcome.ok_bind]

/-- The same biases with other evaluations, and no second sumcheck. -/
def withEvaluations (proof : EinSumProof D) (sumcheck : D.IOPProof) (e : List F) : EinSumProof D where
  biasEvals := proof.biasEvals
  einsumSumcheck := sumcheck
  einsumEvaluations := e
  inputAggregationSumcheck := none

omit [DecidableEq F] in
/-- Up to the sumcheck nothing depends on the evaluations. -/
theorem runSumcheck_withEvaluations {t : D.Transcript} {after : AfterSumcheck D}
    (h : ctx.runSumcheck D evals proof [claim] shapeStep t = .ok after) {sumcheck : D.IOPProof}
    (hleaves : ∀ claimed aux t, ∃ t', D.verifySumcheck claimed sumcheck aux t = .ok (subclaim, t')) :
    ∃ after', ctx.runSumcheck D evals (withEvaluations proof sumcheck e) [claim] shapeStep t =
      .ok after' ∧ after'.einsumSubclaim = subclaim := by
  unfold runSumcheck at h ⊢
  simp only [bind_eq_ok, Except.ok.injEq] at h
  obtain ⟨prepared, hprepared, fixed, hfixed, lhsUnpadded, hunpadded, coeffs, hcoeffs, _⟩ := h
  obtain ⟨t', hsumcheck⟩ := hleaves (CommitmentVerifier.claimedSum
    (D.appendAndSample t "batching_challenge").1 prepared.outputs.claimEvaluations)
    ⟨2, ceilLog2 prepared.contractionSize⟩ (D.appendAndSample t "batching_challenge").2
  simp only [withEvaluations, hprepared, Outcome.ok_bind, hfixed, hunpadded, hcoeffs, hsumcheck]
  exact ⟨_, rfl, rfl⟩

/-- Other evaluations are accepted as well, if the sumcheck leaves what they give. -/
theorem AcceptedRun.replay (hD : D.Lawful) (hctx : SingleOperation ctx eqn)
    (hshapes : HasShapes ctx eqn shapeStep)
    (hevals : ∀ point, evals point =
      (List.range (2 ^ point.length)).map (Multilinear.eqWeight point))
    (hs : 0 < eqn.stackingSize)
    (h : AcceptedRun ctx D evals eqn claim shapeStep subclaim proof info)
    (hlength : e.length = 2 * eqn.stackingSize) {sumcheck : D.IOPProof}
    (hleaves : ∀ claimed aux t, ∃ t', D.verifySumcheck claimed sumcheck aux t =
      .ok (⟨subclaim.point, calculated eqn claim.point e⟩, t')) :
    ∃ info', AcceptedRun ctx D evals eqn claim shapeStep
      ⟨subclaim.point, calculated eqn claim.point e⟩ (withEvaluations proof sumcheck e) info' := by
  obtain ⟨t, after, t', hrun, rfl, hverify⟩ := h.run
  obtain ⟨key, constShape, hkeys, hconst⟩ := hctx.constant
  obtain ⟨biasDims, hm⟩ := hctx.mapping
  obtain ⟨_, hready, _⟩ := ready_of_runSumcheck hctx hshapes hevals hrun
  have hinputs := (Equation.describes hm).inputCount
  rw [verifyInternal_of_run hrun] at hverify
  obtain ⟨_, inputs, weights, lhs, hrhs, hlhs, _⟩ :=
    (finish_eq_ok_iff hD hinputs hkeys hconst hs hready h.length).mp hverify
  obtain ⟨after', hrun', hsubclaim⟩ := runSumcheck_withEvaluations (e := e) hrun hleaves
  obtain ⟨_, hready', _⟩ := ready_of_runSumcheck hctx hshapes hevals hrun'
  obtain ⟨⟨inputs', weights'⟩, hrhs'⟩ := exists_rhsClaim e ⟨_, hrhs⟩
  obtain ⟨lhs', hlhs'⟩ := exists_lhsClaim e after'.transcript ⟨_, hlhs⟩
  have hpoint : after'.einsumSubclaim.point = after.einsumSubclaim.point := by rw [hsubclaim]
  have hexpected : after'.einsumSubclaim.expectedEvaluation = calculated eqn claim.point e := by
    rw [hsubclaim]
  rw [← hpoint] at hrhs' hlhs'
  have hlength' : (withEvaluations proof sumcheck e).einsumEvaluations.length =
      2 * eqn.stackingSize := hlength
  have hfinish := (finish_eq_ok_iff hD hinputs hkeys hconst hs hready' hlength').mpr ⟨hexpected, inputs', weights', lhs', hrhs', hlhs', rfl⟩
  rw [← verifyInternal_of_run hrun'] at hfinish
  exact ⟨_, hlength, t, after', _, hrun', hsubclaim, hfinish⟩

end Runs

/-! ## When the products are bound -/

/-- The sum of the products of the slices, with the stacking coefficients. -/
def trueProducts (eqn : Equation) (claimPoint sumcheckPoint : List F) (L R : List Nat → F) : F :=
  ∑ j, eqn.coefficient claimPoint j * eqn.slice claimPoint sumcheckPoint eqn.lhs L j *
    eqn.slice claimPoint sumcheckPoint eqn.rhs R j

/-- Whatever evaluations a prover sends: if the verifier accepts and the claims it returns are true,
    then the sumcheck leaves the true sum of the products. -/
def BindsProducts (ctx : EinSumContext) (D : DpCrypto F) (evals : List F → List F) (eqn : Equation)
    (claim : Claim F) (shapeStep : ShapeStep) (sumcheckPoint : List F) (L R : List Nat → F) : Prop :=
  ∀ (proof : EinSumProof D) (expected : F) (info : EinSumVerifierInfo F),
    AcceptedRun ctx D evals eqn claim shapeStep ⟨sumcheckPoint, expected⟩ proof info →
    AggregationSound eqn claim.point sumcheckPoint L proof → ClaimsTrue ctx eqn L R info →
    expected = trueProducts eqn claim.point sumcheckPoint L R

/-- Some proof is accepted. -/
def Accepts (ctx : EinSumContext) (D : DpCrypto F) (evals : List F → List F) (eqn : Equation)
    (claim : Claim F) (shapeStep : ShapeStep) (sumcheckPoint : List F) : Prop :=
  ∃ (proof : EinSumProof D) (expected : F) (info : EinSumVerifierInfo F),
    AcceptedRun ctx D evals eqn claim shapeStep ⟨sumcheckPoint, expected⟩ proof info

/-- The polynomials of the products that count have numbers of 16 bits. -/
def IdsFit (eqn : Equation) (claimPoint : List F) : Prop :=
  ∀ j, eqn.coefficient claimPoint j ≠ 0 → j + eqn.stackingSize < 2 ^ 16

omit [DecidableEq F] in
theorem calculated_eq (hids : IdsFit eqn claimPoint) (e : List F) :
    calculated eqn claimPoint e =
      ∑ j, eqn.coefficient claimPoint j * lhsValues eqn e j * rhsValues eqn e j := by
  apply Finset.sum_congr rfl
  intro j _
  by_cases hzero : eqn.coefficient claimPoint j = 0
  · rw [hzero]
    ring
  · have hlt := hids j hzero
    rw [evaluationAt, evaluationAt, Nat.mod_eq_of_lt (by omega), Nat.mod_eq_of_lt hlt, Nat.add_comm]
    rfl

omit [DecidableEq F] in
/-- The evaluations `u` and `v`. -/
theorem values_ofFn (u v : Fin eqn.stackingSize → F) :
    lhsValues eqn (List.ofFn u ++ List.ofFn v) = u ∧
      rhsValues eqn (List.ofFn u ++ List.ofFn v) = v := by
  constructor
  · funext j
    rw [lhsValues, List.getD_eq_getElem?_getD, List.getElem?_append_left (by simp)]
    simp
  · funext j
    rw [rhsValues, List.getD_eq_getElem?_getD, List.getElem?_append_right (by simp)]
    simp

/-- The products are bound if at most one stacking coefficient is not zero, or two opposite ones of
    equal slices; otherwise a prover who can lead the sumcheck to any value can change them. -/
theorem bindsProducts_iff (hD : D.Lawful) (hctx : SingleOperation ctx eqn) {shapeStep : ShapeStep}
    (hshapes : HasShapes ctx eqn shapeStep) {evals : List F → List F}
    (hevals : ∀ point, evals point =
      (List.range (2 ^ point.length)).map (Multilinear.eqWeight point))
    (hs : 1 ≤ eqn.stackingSize) (claim : Claim F) (sumcheckPoint : List F)
    (hfree : ∀ expected : F, ∃ sumcheck, ∀ claimed aux t, ∃ t',
      D.verifySumcheck claimed sumcheck aux t = .ok (⟨sumcheckPoint, expected⟩, t'))
    (hids : IdsFit eqn claim.point) (L R : List Nat → F) :
    BindsProducts ctx D evals eqn claim shapeStep sumcheckPoint L R ↔
      (Accepts ctx D evals eqn claim shapeStep sumcheckPoint →
        Pinned (eqn.coefficient claim.point) (eqn.slice claim.point sumcheckPoint eqn.lhs L)
          (eqn.slice claim.point sumcheckPoint eqn.rhs R)) := by
  constructor
  · intro hbinds ⟨proof, expected, info, hrun⟩
    apply Determined.pinned
    intro u v hu hv
    obtain ⟨hleft, hright⟩ := values_ofFn u v
    have hlength : (List.ofFn u ++ List.ofFn v).length = 2 * eqn.stackingSize := by
      simp
      omega
    -- the prover sends `u` and `v` in the place of its evaluations
    obtain ⟨sumcheck, hleaves⟩ := hfree (calculated eqn claim.point (List.ofFn u ++ List.ofFn v))
    obtain ⟨info', hrun'⟩ := hrun.replay hD hctx hshapes hevals hs hlength hleaves
    obtain ⟨_, _, htrue⟩ := hrun'.spec hD hctx hshapes hevals hs L R
    have hsent : (withEvaluations proof sumcheck (List.ofFn u ++ List.ofFn v)).einsumEvaluations =
        List.ofFn u ++ List.ofFn v := rfl
    rw [hsent, hleft, hright] at htrue
    have hbound := hbinds _ _ info' hrun' (fun _ hsome => nomatch hsome) (htrue rfl hu hv)
    rw [calculated_eq hids, hleft, hright] at hbound
    exact hbound
  · intro hpinned proof expected info hrun hsound htrue
    obtain ⟨hcalculated, hsums, _⟩ := hrun.spec hD hctx hshapes hevals hs L R
    obtain ⟨hleft, hright⟩ := hsums hsound htrue
    have hdetermined := (hpinned ⟨proof, expected, info, hrun⟩).determined
    show (⟨sumcheckPoint, expected⟩ : SumcheckSubclaim F).expectedEvaluation = _
    rw [hcalculated, calculated_eq hids]
    exact hdetermined _ _ hleft hright

/-! ## The rows of two matrices -/

section TwoRows

instance fact_prime_seven : Fact (Nat.Prime 7) := ⟨by decide⟩

/-- The sumcheck leaves what its proof says. -/
@[reducible]
def idealCrypto {F : Type} (D : DpCrypto F) : DpCrypto F :=
  { D with
    IOPProof := SumcheckSubclaim F
    verifySumcheck := fun _ subclaim _ t => .ok (subclaim, t) }

theorem idealCrypto_lawful {F : Type} [Field F] {D : DpCrypto F} (hD : D.Lawful) :
    (idealCrypto D).Lawful :=
  ⟨hD.constant, hD.challenge, hD.witIn, hD.add, hD.sub, hD.mul, hD.neg, hD.log2Strict⟩

/-- The products of the rows of two matrices, `A(ij)@B(ij)->O(i)`. -/
def rows : Equation where
  lhs := ['i', 'j']
  rhs := ['i', 'j']
  out := ['i']
  size := fun _ => 2
  lhs_nodup := by decide
  rhs_nodup := by decide
  out_nodup := by decide

def rowsMapping : AxesMapping where
  inputCount := 2
  outputCount := 1
  biasCount := 0
  axes := [
    { lhsInput := .present 0, rhsInputs := [.present 0], outputs := [.present 0], biases := [],
      repr := 'i', axisType := .stacked },
    { lhsInput := .present 1, rhsInputs := [.present 1], outputs := [.absent], biases := [],
      repr := 'j', axisType := .contracted }]

theorem fromTerms_rows :
    AxesMapping.fromTerms [rows.lhs, rows.rhs] [rows.out] [] = .ok rowsMapping := by
  have hi : Axis.ofTerms [['i', 'j'], ['i', 'j']] [['i']] [] 'i' = .ok
      { lhsInput := .present 0, rhsInputs := [.present 0], outputs := [.present 0], biases := [],
        repr := 'i', axisType := .stacked } := by decide
  have hj : Axis.ofTerms [['i', 'j'], ['i', 'j']] [['i']] [] 'j' = .ok
      { lhsInput := .present 1, rhsInputs := [.present 1], outputs := [.absent], biases := [],
        repr := 'j', axisType := .contracted } := by decide
  simp [AxesMapping.fromTerms, rows, hi, hj, AxesMapping.sort, AxesMapping.occurrences, Axis.inputs,
    List.mergeSort, AxesMapping.occursBefore, List.findIdx_cons, rowsMapping]

def rowsContext : EinSumContext where
  mapping := rowsMapping
  constantKeys := [none]
  constantUnpaddedShapes := [none]
  biasKeys := [none]
  biasUnpaddedShapes := [none]

theorem rowsContext_single : SingleOperation rowsContext rows where
  mapping := ⟨[], fromTerms_rows⟩
  constant := ⟨none, none, rfl, rfl⟩
  bias := ⟨none, none, rfl, rfl⟩
  distinct _ h := nomatch h

abbrev sevenCrypto : DpCrypto (ZMod 7) := idealCrypto (plainCrypto fun _ => 0)

def eqEvals (point : List (ZMod 7)) : List (ZMod 7) :=
  (List.range (2 ^ point.length)).map (Multilinear.eqWeight point)

def rowsStep : ShapeStep := ⟨[[2, 2], [2, 2]], [[2, 2], [2, 2]]⟩

theorem rowsStep_shapes : HasShapes rowsContext rows rowsStep := by
  unfold HasShapes
  decide

/-- All entries are 1. -/
def ones (_ : List Nat) : ZMod 7 := 1

/-- The claim is about the output at 3, so the stacking coefficients are 5 and 3; the evaluations of
    either matrix should be 1 and 1, and are said to be 4 and 3. -/
theorem rows_unbound :
    ¬ BindsProducts rowsContext sevenCrypto eqEvals rows ⟨[3], 0⟩ rowsStep [2] ones ones := by
  intro h
  have hrun : AcceptedRun rowsContext sevenCrypto eqEvals rows ⟨[3], 0⟩ rowsStep ⟨[2], 2⟩
      ⟨[], ⟨[2], 2⟩, [4, 3, 4, 3], none⟩ ⟨[⟨[2, 3], 1⟩, ⟨[2, 3], 1⟩], ∅⟩ :=
    ⟨rfl, [], _, _, rfl, rfl, rfl⟩
  have htrue : ClaimsTrue rowsContext rows ones ones ⟨[⟨[2, 3], 1⟩, ⟨[2, 3], 1⟩], ∅⟩ := by
    refine ⟨_, _, rfl, rfl, ?_, ?_⟩
    · unfold IsTrue
      decide
    · unfold IsTrue
      decide
  have hbound := h _ _ _ hrun (fun _ hsome => nomatch hsome) htrue
  have hdifferent : (2 : ZMod 7) ≠ trueProducts rows [3] [2] ones ones := by decide
  exact hdifferent hbound

/-- About the first row alone the verifier is right. -/
theorem first_row_bound :
    BindsProducts rowsContext sevenCrypto eqEvals rows ⟨[0], 0⟩ rowsStep [2] ones ones := by
  have hcoefficients : ∀ j k : Fin rows.stackingSize, j ≠ k →
      rows.coefficient ([0] : List (ZMod 7)) j = 0 ∨ rows.coefficient ([0] : List (ZMod 7)) k = 0 := by
    decide
  have hids : IdsFit rows ([0] : List (ZMod 7)) := by
    unfold IdsFit
    decide
  exact (bindsProducts_iff (idealCrypto_lawful (plainCrypto_lawful _)) rowsContext_single
    rowsStep_shapes (fun _ => rfl) (by decide) ⟨[0], 0⟩ [2]
    (fun expected => ⟨⟨[2], expected⟩, fun _ _ t => ⟨t, rfl⟩⟩) hids ones ones).mpr
      fun _ => .inl hcoefficients

end TwoRows

end EinSumContext

end DeepProve
