import DeepProve.Logits.Output

/-!
# What the verifier of the logits binds

The verifier of the sumcheck is any function. The identity is solved by a division. Where the divisor is
zero an assertion takes its place, which fails with most outcomes of the sumcheck; and the divisor can
be made zero by the prover, with its evaluation of the input, or by the point of the sumcheck if the
input has more than one row. The number of tokens is not compared with that of the rows.
-/

namespace DeepProve

open Multilinear (eqWeight evalPair oneHot)
open Outcome

namespace LogitsCtx

variable {p : Nat} [Fact p.Prime] {D : DpCrypto (ZMod p)} {C : Type} {ctx : LogitsCtx} {fl : Float32Ops}
  {evals : List (ZMod p) → List (ZMod p)} {io : OutputIo (ZMod p)} {verifier : Verifier D C}
  {proof : LogitsProof D C} {shapeStep : ShapeStep} {nodeId : NodeId} {chunkNumber : Nat}
  {v : SumcheckVerifier (ZMod p) D.IOPProof D.Transcript} {run : BeforeSumcheck D}

/-! ## Before the sumcheck -/

/-- The number of rows of the padded input. -/
def paddedRows (shapeStep : ShapeStep) : Nat :=
  let inputShape := shapeStep.paddedInputShape.headD []
  (inputShape.take (inputShape.length - 1)).prod

/-- The variables of dimensions that are powers of two. -/
theorem log2_prod {dims : Shape} (h : dims.all Shape.isPowerOfTwo = true) :
    dims.prod = 2 ^ (dims.map Nat.log2).sum := by
  induction dims with
  | nil => rfl
  | cons d dims ih =>
    rw [List.all_cons, Bool.and_eq_true, Shape.isPowerOfTwo, beq_iff_eq] at h
    have hd : d = 2 ^ Nat.log2 d := by
      rw [h.1, nextPowerOfTwo, Nat.log2_two_pow]
    rw [List.prod_cons, ih h.2, List.map_cons, List.sum_cons, pow_add, ← hd]

/-- What is known before the sumcheck belongs to the shape of the input. -/
structure BeforeSumcheck.Fits (run : BeforeSumcheck D) (shapeStep : ShapeStep) : Prop where
  two : (2 : ZMod p) ≠ 0
  rowPoint : run.rowPoint.length = run.numRowVars
  inputNumVars : run.inputNumVars = run.numColVars + run.numRowVars
  rows : paddedRows shapeStep = 2 ^ run.numRowVars

variable {subclaim : SumcheckSubclaim (ZMod p)} {unpaddedDimSize : Nat} {point bits : List (ZMod p)}
variable {output : Tensor (ZMod p)}

theorem BeforeSumcheck.Fits.numColVars_le (hrun : run.Fits shapeStep)
    (hpoint : point.length = run.inputNumVars) : run.numColVars ≤ point.length := by
  rw [hpoint, hrun.inputNumVars]
  exact Nat.le_add_right _ _

theorem beforeSumcheck_fits (h : ctx.beforeSumcheck fl verifier proof shapeStep = .ok run) :
    run.Fits shapeStep := by
  simp only [beforeSumcheck, bind_eq_ok, ensure_eq_ok, unwrap_eq_ok] at h
  obtain ⟨_, hone, inputShape, hshape, ⟨batchClaim, t, stored⟩, _, _, _, last, hlast, numRowVars, hrows,
    lastDim, hlastDim, numColVars, hcols, ⟨_, rowPoint⟩, hsplit, inputClaim, _, _, htwo, vars, hvars,
    hresult⟩ := h
  have hshapes : shapeStep.paddedInputShape = [inputShape] := by
    obtain ⟨shape, hshapes⟩ := List.length_eq_one_iff.mp (beq_iff_eq.mp hone)
    rw [hshapes] at hshape ⊢
    rw [Option.some.inj hshape]
  have hlast : last = inputShape.length - 1 ∧ 1 ≤ inputShape.length := by
    unfold usizeSub Shape.rank at hlast
    split at hlast
    · next hle => exact ⟨(Except.ok.inj hlast).symm, hle⟩
    · cases hlast
  obtain ⟨rfl, hpos⟩ := hlast
  have hpower : inputShape.all Shape.isPowerOfTwo = true ∧ vars = inputShape.map Nat.log2 := by
    unfold Shape.numVars at hvars
    split at hvars
    · next hall => exact ⟨hall, (Except.ok.inj hvars).symm⟩
    · cases hvars
  obtain ⟨hall, rfl⟩ := hpower
  have hilog : ∀ {n k : Nat}, ilog2 n = .ok k → k = Nat.log2 n := by
    intro n k h
    unfold ilog2 at h
    split at h
    · cases h
    · exact (Except.ok.inj h).symm
  obtain rfl := hilog hrows
  obtain rfl := hilog hcols
  have hallTake : (inputShape.take (inputShape.length - 1)).all Shape.isPowerOfTwo = true := by
    rw [List.all_eq_true] at hall ⊢
    exact fun d hd => hall d (List.mem_of_mem_take hd)
  have hprod := log2_prod hallTake
  have hvarsRows : Nat.log2 (inputShape.take (inputShape.length - 1)).prod =
      ((inputShape.take (inputShape.length - 1)).map Nat.log2).sum := by
    rw [hprod, Nat.log2_two_pow]
  have hjoin : inputShape = inputShape.take (inputShape.length - 1) ++ [lastDim] := by
    conv => lhs; rw [← List.take_append_drop (inputShape.length - 1) inputShape]
    congr 1
    obtain ⟨hlt, hget⟩ := List.getElem?_eq_some_iff.mp hlastDim
    rw [List.drop_eq_getElem_cons hlt, hget, Nat.sub_add_cancel hpos, List.drop_length]
  simp only [Logits.splitClaimPoint, usizeSub] at hsplit
  have hsplit : rowPoint.length = Nat.log2 (inputShape.take (inputShape.length - 1)).prod := by
    split at hsplit
    · next hle =>
      rw [ok_bind] at hsplit
      obtain ⟨-, rfl⟩ := Prod.mk.inj (Except.ok.inj hsplit)
      rw [List.length_drop, Nat.sub_sub_self hle]
    · cases hsplit
  obtain rfl := Except.ok.inj hresult
  refine ⟨?_, hsplit, ?_, ?_⟩
  · intro hzero
    rw [inverseOrPanic, if_pos hzero] at htwo
    cases htwo
  · rw [hvarsRows]
    conv => lhs; rw [hjoin]
    rw [List.map_append, List.sum_append, Nat.add_comm]
    rfl
  · rw [paddedRows, hshapes]
    dsimp only [List.headD_cons]
    rw [hvarsRows, hprod]

/-! ## What is to hold -/

/-- The output has one row with one token for each row of the padded input. -/
structure OneTokenPerRow (output : Tensor (ZMod p)) (shapeStep : ShapeStep) : Prop where
  rows : output.shape[0]? = some (paddedRows shapeStep)
  length : output.data.length = paddedRows shapeStep

/-- The value that the sumcheck is to leave, for the tokens of the output. -/
def BeforeSumcheck.identity (run : BeforeSumcheck D) (sumcheckPoint bits : List (ZMod p))
    (inputEval maxEval : ZMod p) (tokens : List Nat) : ZMod p :=
  let outputEval := evalPair (oneHot tokens) (sumcheckPoint.take run.numColVars)
    (sumcheckPoint.drop run.numColVars)
  run.betaEval sumcheckPoint * (maxEval - run.numCols * outputEval * inputEval) +
    run.inputTerm sumcheckPoint (evalZeroifierMle (sumcheckPoint.take run.numColVars) bits) maxEval
      inputEval

/-- What is known of the output if the verifier accepts, given what the sumcheck has left. -/
structure TokensBound (io : OutputIo (ZMod p)) (chunkNumber : Nat) (shapeStep : ShapeStep)
    (proof : LogitsProof D C) (run : BeforeSumcheck D) (subclaim : SumcheckSubclaim (ZMod p)) : Prop where
  exists_output : ∃ output tokens unpaddedDimSize bits inputEval maxEval,
    chunkOutput io chunkNumber = .ok output ∧
    OneTokenPerRow output shapeStep ∧
    output.data.mapM tokenOf = .ok tokens ∧
    lastColumnBits shapeStep run.numColVars = .ok (unpaddedDimSize, bits) ∧
    (∀ t ∈ tokens, t < unpaddedDimSize) ∧
    proof.sumcheckEvals[0]? = some inputEval ∧ proof.sumcheckEvals[1]? = some maxEval ∧
    subclaim.expectedEvaluation = run.identity subclaim.point bits inputEval maxEval tokens

variable (ctx fl evals io verifier proof shapeStep nodeId chunkNumber)

/-- The verifier never panics, and if it accepts, the tokens are bound. -/
structure BindsTokens : Prop where
  noPanic : ∀ v : SumcheckVerifier (ZMod p) D.IOPProof D.Transcript, v.Proper →
    ¬ (ctx.verifyChunk fl evals io v verifier proof shapeStep nodeId chunkNumber).Panics
  tokens : ∀ v : SumcheckVerifier (ZMod p) D.IOPProof D.Transcript, v.Proper → ∀ result,
    ctx.verifyChunk fl evals io v verifier proof shapeStep nodeId chunkNumber = .ok result →
    ∃ run subclaim t, ctx.beforeSumcheck fl verifier proof shapeStep = .ok run ∧
      v (run.challenge * run.inputClaim.eval) proof.hadamardProof
        (fromMleListDimensions [[run.inputNumVars, run.inputNumVars, run.inputNumVars]]) run.transcript =
          .ok (subclaim, t) ∧
      TokensBound io chunkNumber shapeStep proof run subclaim

/-! ## When it does -/

variable (run)

/-- The tokens that are read from an output of so many rows. -/
def tokensRead (output : Tensor (ZMod p)) (rowVars unpaddedDimSize : Nat) : Outcome (List Nat) :=
  (output.data.take (2 ^ rowVars)).mapM (readToken unpaddedDimSize (2 ^ (run.inputNumVars - rowVars)))

/-- As many commitments as claims. -/
def CommitmentsFit : Prop :=
  proof.commitments.length = if ctx.rangeCheckChunks = 1 then 1 else ctx.rangeCheckChunks + 1

/-- The output of the chunk can be read, and it has one token for each row unless it is rejected. -/
structure OutputFits (output : Tensor (ZMod p)) : Prop where
  shape : ¬ (outputRowVars output).Panics
  rowVars : ∀ rowVars, outputRowVars output = .ok rowVars → rowVars ≤ run.inputNumVars
  read : ∀ rowVars unpaddedDimSize (bits : List (ZMod p)), outputRowVars output = .ok rowVars →
    lastColumnBits shapeStep run.numColVars = .ok (unpaddedDimSize, bits) →
    ¬ (tokensRead run output rowVars unpaddedDimSize).Panics
  rows : ∀ rowVars unpaddedDimSize (bits : List (ZMod p)) tokens, outputRowVars output = .ok rowVars →
    lastColumnBits shapeStep run.numColVars = .ok (unpaddedDimSize, bits) →
    tokensRead run output rowVars unpaddedDimSize = .ok tokens → ctx.CommitmentsFit proof →
    OneTokenPerRow output shapeStep

/-- The conditions on the rest of the input. -/
structure FitsAfter : Prop where
  lastColumn : ¬ (lastColumnBits shapeStep run.numColVars : Outcome (Nat × List (ZMod p))).Panics
  sumcheckEvals : 2 ≤ proof.sumcheckEvals.length
  /-- Where the divisor may be zero, the shape of the first output is rejected. -/
  divisor : (proof.sumcheckEvals[0]? = some 0 ∨ ∃ a ∈ run.rowPoint, a ≠ 2⁻¹) →
    ∃ output msg, io.output[0]? = some output ∧ outputRowVars output = .error (.err msg)
  chunk : proof.sumcheckEvals[0]? ≠ some 0 → io.output.length = 1 → ¬ (chunkOutput io chunkNumber).Panics
  output : proof.sumcheckEvals[0]? ≠ some 0 → io.output.length = 1 → ∀ output,
    chunkOutput io chunkNumber = .ok output → OutputFits ctx proof shapeStep run output

/-- The condition under which the verifier binds the tokens. -/
structure FitsTokens : Prop where
  before : ¬ (ctx.beforeSumcheck fl verifier proof shapeStep).Panics
  after : ∀ run, ctx.beforeSumcheck fl verifier proof shapeStep = .ok run →
    FitsAfter ctx io proof shapeStep chunkNumber run

variable {ctx fl evals io verifier proof shapeStep nodeId chunkNumber run}

/-! ## After the sumcheck -/

omit [Fact p.Prime] in
/-- The claims about the commitments depend on their number only. -/
theorem witnessClaims_eq_ok {maxClaim : Claim (ZMod p)} {polyClaims : List (Claim (ZMod p))} :
    (∃ claims, ctx.witnessClaims proof polyClaims maxClaim = .ok claims) ↔ ctx.CommitmentsFit proof := by
  unfold witnessClaims CommitmentsFit
  split
  · simp only [bind_eq_ok, ensure_eq_ok, unwrap_eq_ok, beq_iff_eq]
    constructor
    · rintro ⟨_, _, hlength, _⟩
      exact hlength
    · intro hlength
      obtain ⟨first, hfirst⟩ := List.length_eq_one_iff.mp hlength
      exact ⟨_, (), hlength, first, by rw [hfirst]; rfl, rfl⟩
  · simp only [bind_eq_ok, ensure_eq_ok, unwrap_eq_ok, beq_iff_eq]
    constructor
    · rintro ⟨_, _, hlength, _⟩
      exact hlength
    · intro hlength
      obtain ⟨first, rest, hcons⟩ := List.exists_cons_of_length_eq_add_one hlength
      exact ⟨_, (), hlength, first, by rw [hcons]; rfl, rest, by rw [hcons]; rfl, rfl⟩

omit [Fact p.Prime] in
theorem not_panics_witnessClaims {maxClaim : Claim (ZMod p)} {polyClaims : List (Claim (ZMod p))} :
    ¬ (ctx.witnessClaims proof polyClaims maxClaim).Panics := by
  intro hpanics
  unfold witnessClaims at hpanics
  split at hpanics
  · simp only [panics_bind, not_panics_ensure, ensure_eq_ok, beq_iff_eq, panics_unwrap, false_or,
      not_panics_ok, and_false, exists_false, or_false] at hpanics
    obtain ⟨_, hlength, hnone⟩ := hpanics
    rw [List.getElem?_eq_none_iff, hlength] at hnone
    omega
  · simp only [panics_bind, not_panics_ensure, ensure_eq_ok, beq_iff_eq, panics_unwrap, false_or,
      not_panics_ok, and_false, exists_false, or_false, sliceFrom, unwrap_eq_ok] at hpanics
    obtain ⟨_, hlength, hnone | ⟨_, _, hslice⟩⟩ := hpanics
    · rw [List.getElem?_eq_none_iff, hlength] at hnone
      omega
    · rw [if_pos (by omega)] at hslice
      exact not_panics_ok _ hslice

variable {inputEval maxEval : ZMod p} {t : D.Transcript}

/-- The rest of the verifier, where the evaluations and the dimensions are there. -/
theorem afterSumcheck_eq
    (hbits : lastColumnBits shapeStep run.numColVars = .ok (unpaddedDimSize, bits))
    (hinput : proof.sumcheckEvals[0]? = some inputEval)
    (hmax : proof.sumcheckEvals[1]? = some maxEval)
    (hpoint : run.numColVars ≤ subclaim.point.length) :
    ctx.afterSumcheck evals io run verifier proof shapeStep nodeId chunkNumber subclaim t =
      (let rest := subclaim.expectedEvaluation - run.inputTerm subclaim.point
        (evalZeroifierMle (subclaim.point.take run.numColVars) bits) maxEval inputEval -
        run.betaEval subclaim.point * maxEval
      let divisor := -run.numCols * run.betaEval subclaim.point * inputEval
      (if divisor = 0 then zeroDivisorEval evals io subclaim.point rest else .ok (rest * divisor⁻¹))
        >>= fun expectedOutputEval =>
      verifyOutputEvaluation evals io ⟨subclaim.point, expectedOutputEval⟩ unpaddedDimSize chunkNumber
        >>= fun _ =>
      ctx.witnessClaims proof run.polyClaims ⟨subclaim.point.drop run.numColVars, maxEval⟩
        >>= fun claims =>
      .ok ([⟨subclaim.point, inputEval⟩],
        { verifier with
          commitVerifier := verifier.commitVerifier.addWitnessClaim nodeId claims
          transcript := t
          numeratorsAndDenominators := run.stored })) := by
  simp only [afterSumcheck, hbits, sliceTo, sliceFrom, if_pos hpoint, hinput, hmax, unwrap_some, ok_bind]
  split
  · rfl
  · rfl

/-! ## The steps of the rest -/

omit [Fact p.Prime] in
theorem lastColumnBits_cases (shapeStep : ShapeStep) (numColVars : Nat) :
    (lastColumnBits shapeStep numColVars : Outcome (Nat × List (ZMod p))).Panics ∨
      ∃ result, (lastColumnBits shapeStep numColVars : Outcome (Nat × List (ZMod p))) = .ok result := by
  unfold lastColumnBits
  rcases shapeStep.unpaddedInputShape[0]? with _ | shape
  · exact .inl (panics_panic _)
  · rw [unwrap_some, ok_bind]
    unfold usizeSub
    split
    · rw [ok_bind]
      rcases shape[shape.rank - 1]? with _ | dim
      · exact .inl (panics_panic _)
      · rw [unwrap_some, ok_bind]
        split
        · rw [ok_bind]
          unfold bitsOf toBitSequenceLe
          split
          · exact .inr ⟨_, rfl⟩
          · exact .inl (panics_panic _)
        · exact .inl (panics_panic _)
    · exact .inl (panics_panic _)

omit [Fact p.Prime] in
theorem outputRowVars_cases (output : Tensor (ZMod p)) :
    (outputRowVars output).Panics ∨ (∃ msg, outputRowVars output = .error (.err msg)) ∨
      ∃ rowVars, outputRowVars output = .ok rowVars := by
  unfold outputRowVars shapeOf
  split
  · exact .inl (panics_panic _)
  · rw [ok_bind]
    rcases output.shape.all Shape.isPowerOfTwo with _ | _
    · exact .inr (.inl ⟨_, rfl⟩)
    · rw [ensure_true, ok_bind]
      rcases output.shape[0]? with _ | rows
      · exact .inl (panics_panic _)
      · exact .inr (.inr ⟨_, rfl⟩)

theorem zeroDivisorEval_of_err {msg : String} (houtput : io.output[0]? = some output)
    (herr : outputRowVars output = .error (.err msg)) (point : List (ZMod p)) (rest : ZMod p) :
    zeroDivisorEval evals io point rest = .error (.err msg) := by
  rw [zeroDivisorEval, houtput, unwrap_some, ok_bind, herr]
  rfl

/-- Unless the identity holds by itself, only the shape of the output can keep the assertion from
    failing. -/
theorem err_of_not_panics_zeroDivisorEval {rest : ZMod p} (hrest : rest ≠ 0)
    (h : ¬ (zeroDivisorEval evals io point rest).Panics) :
    ∃ output msg, io.output[0]? = some output ∧ outputRowVars output = .error (.err msg) := by
  unfold zeroDivisorEval at h
  rcases houtput : io.output[0]? with _ | output
  · rw [houtput] at h
    exact absurd (panics_panic _) h
  · rw [houtput, unwrap_some, ok_bind] at h
    rcases outputRowVars_cases output with hpanics | ⟨msg, herr⟩ | ⟨rowVars, hrowVars⟩
    · exact absurd (panics_bind.mpr (.inl hpanics)) h
    · exact ⟨output, msg, rfl, herr⟩
    · rw [hrowVars, ok_bind, Logits.splitClaimPoint, usizeSub] at h
      split at h
      · rw [ok_bind, ok_bind] at h
        exact absurd (panics_panic _) h
      · exact absurd (panics_panic _) h

/-- Where the divisor is zero. -/
theorem divisor_eq_zero_iff (hrun : run.Fits shapeStep) (hpoint : point.length = run.inputNumVars)
    (inputEval : ZMod p) :
    -run.numCols * run.betaEval point * inputEval = 0 ↔
      inputEval = 0 ∨ Multilinear.eqPoly run.rowPoint (point.drop run.numColVars) = 0 := by
  have hcols : run.numCols ≠ 0 := pow_ne_zero _ hrun.two
  have hhalf : (2⁻¹ : ZMod p) ^ run.numColVars ≠ 0 := pow_ne_zero _ (inv_ne_zero hrun.two)
  have htake : (point.take run.numColVars).length = run.numColVars :=
    List.length_take_of_le (by rw [hpoint, hrun.inputNumVars]; omega)
  conv => lhs; rw [← List.take_append_drop run.numColVars point]
  rw [BeforeSumcheck.betaEval_append hrun.two htake]
  simp only [mul_eq_zero, neg_eq_zero, hcols, hhalf, false_or]
  exact or_comm

variable (hevals : ∀ point, evals point = (List.range (2 ^ point.length)).map (eqWeight point))

include hevals in
/-- The output of the chunk, where it can be read. -/
theorem OutputFits.verifyOutputEvaluation (h : OutputFits ctx proof shapeStep run output)
    (hlength : io.output.length = 1) (houtput : chunkOutput io chunkNumber = .ok output)
    (claim : Claim (ZMod p)) (hpoint : claim.point.length = run.inputNumVars)
    (hbits : lastColumnBits shapeStep run.numColVars = .ok (unpaddedDimSize, bits)) :
    ¬ (verifyOutputEvaluation evals io claim unpaddedDimSize chunkNumber).Panics ∧
      ∀ u, LogitsCtx.verifyOutputEvaluation evals io claim unpaddedDimSize chunkNumber = .ok u →
        ∃ rowVars tokens, outputRowVars output = .ok rowVars ∧
          tokensRead run output rowVars unpaddedDimSize = .ok tokens ∧
          selectTokens (evals (claim.point.take (run.inputNumVars - rowVars)))
            (evals (claim.point.drop (run.inputNumVars - rowVars))) tokens = claim.eval := by
  rcases outputRowVars_cases output with hpanics | ⟨msg, herr⟩ | ⟨rowVars, hrowVars⟩
  · exact absurd hpanics h.shape
  · have hresult : LogitsCtx.verifyOutputEvaluation evals io claim unpaddedDimSize chunkNumber =
        .error (.err msg) := by
      rw [LogitsCtx.verifyOutputEvaluation, hlength, beq_self_eq_true, ensure_true, ok_bind, houtput,
        ok_bind, herr]
      rfl
    rw [hresult]
    refine ⟨not_panics_err _, ?_⟩
    rintro _ ⟨⟩
  · have hle := h.rowVars rowVars hrowVars
    have hread := h.read rowVars unpaddedDimSize bits hrowVars hbits
    rw [verifyOutputEvaluation_eq hevals hlength houtput hrowVars (hpoint ▸ hle), hpoint]
    refine ⟨?_, fun u hu => ?_⟩
    · simp only [panics_bind, not_panics_ensure, and_false, exists_false, or_false]
      exact hread
    · obtain ⟨tokens, htokens, hcompare⟩ := bind_eq_ok.mp hu
      exact ⟨rowVars, tokens, hrowVars, htokens, beq_iff_eq.mp (ensure_eq_ok.mp hcompare)⟩

/-- The tokens of an output that fits are those of the whole output. -/
theorem tokensRead_of_oneTokenPerRow (hrun : run.Fits shapeStep)
    (hone : OneTokenPerRow output shapeStep) {rowVars : Nat} {tokens : List Nat}
    (hrowVars : outputRowVars output = .ok rowVars)
    (htokens : tokensRead run output rowVars unpaddedDimSize = .ok tokens) :
    rowVars = run.numRowVars ∧ output.data.mapM tokenOf = .ok tokens ∧
      tokens.length = 2 ^ run.numRowVars ∧ ∀ t ∈ tokens, t < unpaddedDimSize ∧ t < 2 ^ run.numColVars := by
  have hrows : rowVars = run.numRowVars := by
    simp only [outputRowVars, bind_eq_ok, unwrap_eq_ok] at hrowVars
    obtain ⟨shape, hshape, _, _, rows, hget, hresult⟩ := hrowVars
    unfold shapeOf at hshape
    split at hshape
    · cases hshape
    · obtain rfl := Except.ok.inj hshape
      rw [hone.rows, Option.some.injEq] at hget
      rw [← Except.ok.inj hresult, ← hget, hrun.rows, Nat.log2_two_pow]
  subst hrows
  have hall : output.data.take (2 ^ run.numRowVars) = output.data := by
    rw [← hrun.rows, ← hone.length, List.take_length]
  have hcols : run.inputNumVars - run.numRowVars = run.numColVars := by
    rw [hrun.inputNumVars, Nat.add_sub_cancel]
  rw [tokensRead, hall, hcols] at htokens
  have hread := forall₂_of_mapM_eq_ok htokens
  have hlength := hread.length_eq
  rw [hone.length, hrun.rows] at hlength
  refine ⟨rfl, ?_, hlength.symm, ?_⟩
  · have hforall : List.Forall₂ (fun token u => tokenOf token = .ok u) output.data tokens :=
      hread.imp fun _ _ h => (readToken_eq_ok.mp h).1
    exact mapM_eq_ok_of_forall₂ hforall
  · intro t ht
    obtain ⟨j, hj, rfl⟩ := List.getElem_of_mem ht
    have hj' : j < output.data.length := hread.length_eq ▸ hj
    exact (readToken_eq_ok.mp (hread.get hj' hj)).2

include hevals in
/-- What an input that fits leads to after the sumcheck. -/
theorem FitsAfter.afterSumcheck (h : FitsAfter ctx io proof shapeStep chunkNumber run)
    (hrun : run.Fits shapeStep) (hpoint : subclaim.point.length = run.inputNumVars)
    (t : D.Transcript) :
    ¬ (ctx.afterSumcheck evals io run verifier proof shapeStep nodeId chunkNumber subclaim t).Panics ∧
      ∀ result, ctx.afterSumcheck evals io run verifier proof shapeStep nodeId chunkNumber subclaim t =
        .ok result → TokensBound io chunkNumber shapeStep proof run subclaim := by
  obtain ⟨⟨unpaddedDimSize, bits⟩, hbits⟩ := (lastColumnBits_cases shapeStep _).resolve_left h.lastColumn
  have hcount := h.sumcheckEvals
  obtain ⟨inputEval, hinput⟩ : ∃ inputEval, proof.sumcheckEvals[0]? = some inputEval :=
    ⟨_, List.getElem?_eq_getElem (by omega)⟩
  obtain ⟨maxEval, hmax⟩ : ∃ maxEval, proof.sumcheckEvals[1]? = some maxEval :=
    ⟨_, List.getElem?_eq_getElem (by omega)⟩
  rw [afterSumcheck_eq hbits hinput hmax (hrun.numColVars_le hpoint)]
  dsimp only
  by_cases hdivisor : -run.numCols * run.betaEval subclaim.point * inputEval = 0
  · -- the shape of the output is rejected before the assertion
    have hpremise : proof.sumcheckEvals[0]? = some 0 ∨ ∃ a ∈ run.rowPoint, a ≠ 2⁻¹ := by
      rcases (divisor_eq_zero_iff hrun hpoint inputEval).mp hdivisor with hzero | hzero
      · exact .inl (hzero ▸ hinput)
      · refine .inr ((exists_eqPoly_eq_zero_iff hrun.two _).mp ⟨_, ?_, hzero⟩)
        rw [List.length_drop, hpoint, hrun.inputNumVars, hrun.rowPoint, Nat.add_sub_cancel_left]
    obtain ⟨output, msg, houtput, herr⟩ := h.divisor hpremise
    rw [if_pos hdivisor, zeroDivisorEval_of_err houtput herr]
    exact ⟨not_panics_err _, fun _ h => nomatch h⟩
  · rw [if_neg hdivisor, ok_bind]
    have hne : proof.sumcheckEvals[0]? ≠ some 0 := by
      rw [hinput]
      intro hzero
      exact hdivisor (by rw [Option.some.inj hzero, mul_zero])
    by_cases hlength : io.output.length = 1
    · obtain ⟨output, houtput⟩ : ∃ output, chunkOutput io chunkNumber = .ok output := by
        have hchunk := h.chunk hne hlength
        unfold chunkOutput at hchunk ⊢
        split at hchunk
        · exact Option.ne_none_iff_exists'.mp (fun hnone => hchunk (panics_unwrap.mpr hnone)) |>.imp
            fun _ h => unwrap_eq_ok.mpr h
        · exact Option.ne_none_iff_exists'.mp (fun hnone => hchunk (panics_unwrap.mpr hnone)) |>.imp
            fun _ h => unwrap_eq_ok.mpr h
      have hfits := h.output hne hlength output houtput
      obtain ⟨hnoPanic, hok⟩ := hfits.verifyOutputEvaluation hevals hlength houtput
        ⟨subclaim.point, _⟩ hpoint hbits
      refine ⟨?_, fun result hresult => ?_⟩
      · simp only [panics_bind, not_panics_witnessClaims, not_panics_ok, and_false, exists_false, or_false]
        exact hnoPanic
      · simp only [bind_eq_ok] at hresult
        obtain ⟨u, hverify, claims, hclaims, _⟩ := hresult
        obtain ⟨rowVars, tokens, hrowVars, htokens, hselect⟩ := hok u hverify
        have hone := hfits.rows rowVars unpaddedDimSize bits tokens hrowVars hbits htokens
          (witnessClaims_eq_ok.mp ⟨claims, hclaims⟩)
        obtain ⟨rfl, hread, hcount, hbound⟩ := tokensRead_of_oneTokenPerRow hrun hone hrowVars htokens
        refine ⟨output, tokens, unpaddedDimSize, bits, inputEval, maxEval, houtput, hone, hread, hbits,
          fun t ht => (hbound t ht).1, hinput, hmax, ?_⟩
        have hcols : run.inputNumVars - run.numRowVars = run.numColVars := by
          rw [hrun.inputNumVars, Nat.add_sub_cancel]
        dsimp only at hselect
        rw [hcols, selectTokens_eq hevals] at hselect
        · -- the division is undone
          rw [eq_mul_inv_iff_mul_eq₀ hdivisor] at hselect
          rw [BeforeSumcheck.identity]
          linear_combination -hselect
        · rw [List.length_drop, hpoint, hrun.inputNumVars, Nat.add_sub_cancel_left, hcount]
        · intro t ht
          rw [List.length_take_of_le (hrun.numColVars_le hpoint)]
          exact (hbound t ht).2
    · have hresult : ∀ claim, LogitsCtx.verifyOutputEvaluation evals io claim unpaddedDimSize chunkNumber =
          .error (.err s!"Expected 1 output tensor when verifying logits layer output claim, found {io.output.length}") := by
        intro claim
        rw [LogitsCtx.verifyOutputEvaluation, beq_eq_false_iff_ne.mpr hlength]
        rfl
      rw [hresult]
      exact ⟨not_panics_err _, fun _ h => nomatch h⟩

include hevals in
theorem FitsTokens.bindsTokens (h : FitsTokens ctx fl io verifier proof shapeStep chunkNumber) :
    BindsTokens ctx fl evals io verifier proof shapeStep nodeId chunkNumber where
  noPanic := by
    intro v hv hpanics
    rw [verifyChunk, panics_bind] at hpanics
    rcases hpanics with hbefore | ⟨run, hrun, hpanics⟩
    · exact h.before hbefore
    · rcases panics_bind.mp hpanics with hcall | ⟨⟨subclaim, t⟩, hcall, hafter⟩
      · exact hv.noPanic _ _ _ _ hcall
      · have hpoint := hv.length _ _ _ _ _ _ hcall
        exact ((h.after run hrun).afterSumcheck hevals (beforeSumcheck_fits hrun)
          (hpoint.trans (by simp [fromMleListDimensions])) t).1 hafter
  tokens := by
    intro v hv result hresult
    simp only [verifyChunk, bind_eq_ok] at hresult
    obtain ⟨run, hrun, ⟨subclaim, t⟩, hcall, hafter⟩ := hresult
    have hpoint := hv.length _ _ _ _ _ _ hcall
    exact ⟨run, subclaim, t, hrun, hcall, ((h.after run hrun).afterSumcheck hevals
      (beforeSumcheck_fits hrun) (hpoint.trans (by simp [fromMleListDimensions])) t).2 result hafter⟩

/-! ## Each condition is needed -/

theorem not_panics_beforeSumcheck
    (h : ¬ (ctx.verifyChunk fl evals io v verifier proof shapeStep nodeId chunkNumber).Panics) :
    ¬ (ctx.beforeSumcheck fl verifier proof shapeStep).Panics :=
  fun hpanics => h (panics_bind.mpr (.inl hpanics))

/-- The sumcheck may end at any point, with any value. -/
theorem BindsTokens.after
    (h : BindsTokens ctx fl evals io verifier proof shapeStep nodeId chunkNumber)
    (hrun : ctx.beforeSumcheck fl verifier proof shapeStep = .ok run)
    (hpoint : point.length = run.inputNumVars) (value : ZMod p) :
    ¬ (ctx.afterSumcheck evals io run verifier proof shapeStep nodeId chunkNumber ⟨point, value⟩
        run.transcript).Panics ∧
      ∀ result, ctx.afterSumcheck evals io run verifier proof shapeStep nodeId chunkNumber ⟨point, value⟩
        run.transcript = .ok result → TokensBound io chunkNumber shapeStep proof run ⟨point, value⟩ := by
  have hcall : ∀ claimed, (fixedSumcheck point value : SumcheckVerifier (ZMod p) D.IOPProof D.Transcript)
      claimed proof.hadamardProof
        (fromMleListDimensions [[run.inputNumVars, run.inputNumVars, run.inputNumVars]]) run.transcript =
        .ok (⟨point, value⟩, run.transcript) := by
    intro claimed
    have hvars : (fromMleListDimensions
        [[run.inputNumVars, run.inputNumVars, run.inputNumVars]]).maxNumVariables = run.inputNumVars := by
      simp [fromMleListDimensions]
    rw [fixedSumcheck, hvars, if_pos hpoint]
  have hverify : ctx.verifyChunk fl evals io (fixedSumcheck point value) verifier proof shapeStep nodeId
      chunkNumber = ctx.afterSumcheck evals io run verifier proof shapeStep nodeId chunkNumber
        ⟨point, value⟩ run.transcript := by
    rw [verifyChunk, hrun, ok_bind, hcall, ok_bind]
  rw [← hverify]
  refine ⟨h.noPanic _ (fixedSumcheck_proper _ _), fun result hresult => ?_⟩
  obtain ⟨run', subclaim, t, hrun', hcall', hbound⟩ := h.tokens _ (fixedSumcheck_proper _ _) result hresult
  obtain rfl := Except.ok.inj (hrun.symm.trans hrun')
  obtain ⟨rfl, -⟩ := Prod.mk.inj (Except.ok.inj ((hcall _).symm.trans hcall'))
  exact hbound

/-- Before the evaluations are read. -/
theorem lastColumn_of_afterSumcheck
    (h : ¬ (ctx.afterSumcheck evals io run verifier proof shapeStep nodeId chunkNumber subclaim t).Panics) :
    ¬ (lastColumnBits shapeStep run.numColVars : Outcome (Nat × List (ZMod p))).Panics :=
  fun hpanics => h (panics_bind.mpr (.inl hpanics))

theorem sumcheckEvals_of_afterSumcheck (hpoint : run.numColVars ≤ subclaim.point.length)
    (h : ¬ (ctx.afterSumcheck evals io run verifier proof shapeStep nodeId chunkNumber subclaim t).Panics) :
    2 ≤ proof.sumcheckEvals.length := by
  obtain ⟨⟨unpaddedDimSize, bits⟩, hbits⟩ :=
    (lastColumnBits_cases shapeStep _).resolve_left (lastColumn_of_afterSumcheck h)
  by_contra hlength
  apply h
  rw [afterSumcheck, hbits, ok_bind]
  dsimp only
  rw [sliceTo, if_pos hpoint, ok_bind]
  rcases hinput : proof.sumcheckEvals[0]? with _ | inputEval
  · exact panics_panic _
  · rw [unwrap_some, ok_bind, List.getElem?_eq_none (by omega)]
    exact panics_panic _

/-- A point with the given coordinates of the rows. -/
theorem exists_point (hrun : run.Fits shapeStep) {rows : List (ZMod p)}
    (hrows : rows.length = run.rowPoint.length) :
    ∃ point : List (ZMod p), point.length = run.inputNumVars ∧ point.drop run.numColVars = rows := by
  refine ⟨List.replicate run.numColVars 0 ++ rows, ?_, ?_⟩
  · rw [List.length_append, List.length_replicate, hrows, hrun.rowPoint, hrun.inputNumVars]
  · rw [List.drop_left' List.length_replicate]

/-- The divisor is zero somewhere, and there the identity does not hold by itself. -/
theorem BindsTokens.divisor
    (h : BindsTokens ctx fl evals io verifier proof shapeStep nodeId chunkNumber)
    (hbefore : ctx.beforeSumcheck fl verifier proof shapeStep = .ok run)
    (hbits : lastColumnBits shapeStep run.numColVars = .ok (unpaddedDimSize, bits))
    (hinput : proof.sumcheckEvals[0]? = some inputEval)
    (hmax : proof.sumcheckEvals[1]? = some maxEval)
    (hzero : inputEval = 0 ∨ ∃ a ∈ run.rowPoint, a ≠ 2⁻¹) :
    ∃ output msg, io.output[0]? = some output ∧ outputRowVars output = .error (.err msg) := by
  have hrun := beforeSumcheck_fits hbefore
  obtain ⟨rows, hrows, hdivides⟩ : ∃ rows : List (ZMod p), rows.length = run.rowPoint.length ∧
      (inputEval = 0 ∨ Multilinear.eqPoly run.rowPoint rows = 0) := by
    rcases hzero with hzero | hne
    · exact ⟨run.rowPoint, rfl, .inl hzero⟩
    · obtain ⟨rows, hrows, heq⟩ := (exists_eqPoly_eq_zero_iff hrun.two _).mpr hne
      exact ⟨rows, hrows, .inr heq⟩
  obtain ⟨point, hpoint, hdrop⟩ := exists_point hrun hrows
  have hdivisor := (divisor_eq_zero_iff hrun hpoint inputEval).mpr (hdrop ▸ hdivides)
  -- what is left of the sumcheck is one too much
  have hnoPanic := (h.after hbefore hpoint (1 + run.betaEval point * maxEval + run.inputTerm point
    (evalZeroifierMle (point.take run.numColVars) bits) maxEval inputEval)).1
  rw [afterSumcheck_eq hbits hinput hmax (hrun.numColVars_le hpoint)] at hnoPanic
  dsimp only at hnoPanic
  rw [if_pos hdivisor, panics_bind, not_or] at hnoPanic
  apply err_of_not_panics_zeroDivisorEval _ hnoPanic.1
  rw [add_sub_cancel_right, add_sub_cancel_right]
  exact one_ne_zero

/-- Where the divisor is not zero, any evaluation of the output can be claimed. -/
theorem exists_expected (hrun : run.Fits shapeStep) {unpaddedDimSize : Nat} {bits : List (ZMod p)}
    (hbits : lastColumnBits shapeStep run.numColVars = .ok (unpaddedDimSize, bits))
    {inputEval maxEval : ZMod p} (hinput : proof.sumcheckEvals[0]? = some inputEval)
    (hmax : proof.sumcheckEvals[1]? = some maxEval) (hne : inputEval ≠ 0) :
    ∃ point : List (ZMod p), point.length = run.inputNumVars ∧ ∀ expected, ∃ value,
      ctx.afterSumcheck evals io run verifier proof shapeStep nodeId chunkNumber ⟨point, value⟩
        run.transcript =
      verifyOutputEvaluation evals io ⟨point, expected⟩ unpaddedDimSize chunkNumber >>= fun _ =>
        ctx.witnessClaims proof run.polyClaims ⟨point.drop run.numColVars, maxEval⟩ >>= fun claims =>
        .ok ([⟨point, inputEval⟩],
          { verifier with
            commitVerifier := verifier.commitVerifier.addWitnessClaim nodeId claims
            transcript := run.transcript
            numeratorsAndDenominators := run.stored }) := by
  obtain ⟨rows, hrows, heq⟩ := exists_eqPoly_ne_zero run.rowPoint
  obtain ⟨point, hpoint, hdrop⟩ := exists_point hrun hrows
  have hdivisor : -run.numCols * run.betaEval point * inputEval ≠ 0 := by
    rw [Ne, divisor_eq_zero_iff hrun hpoint, hdrop, not_or]
    exact ⟨hne, heq⟩
  refine ⟨point, hpoint, fun expected => ⟨expected * (-run.numCols * run.betaEval point * inputEval) +
    run.betaEval point * maxEval + run.inputTerm point
      (evalZeroifierMle (point.take run.numColVars) bits) maxEval inputEval, ?_⟩⟩
  rw [afterSumcheck_eq hbits hinput hmax (hrun.numColVars_le hpoint)]
  dsimp only
  rw [if_neg hdivisor, ok_bind, add_sub_cancel_right, add_sub_cancel_right, mul_assoc,
    mul_inv_cancel₀ hdivisor, mul_one]

include hevals in
/-- The conditions on the output of the chunk. -/
theorem BindsTokens.outputFits
    (h : BindsTokens ctx fl evals io verifier proof shapeStep nodeId chunkNumber)
    (hbefore : ctx.beforeSumcheck fl verifier proof shapeStep = .ok run)
    (hbits : lastColumnBits shapeStep run.numColVars = .ok (unpaddedDimSize, bits))
    (hinput : proof.sumcheckEvals[0]? = some inputEval)
    (hmax : proof.sumcheckEvals[1]? = some maxEval) (hne : inputEval ≠ 0)
    (hlength : io.output.length = 1) :
    ¬ (chunkOutput io chunkNumber).Panics ∧ ∀ output, chunkOutput io chunkNumber = .ok output →
      OutputFits ctx proof shapeStep run output := by
  have hrun := beforeSumcheck_fits hbefore
  obtain ⟨point, hpoint, hexpected⟩ := @exists_expected p _ D C ctx evals io verifier proof shapeStep nodeId
    chunkNumber run hrun _ _ hbits _ _ hinput hmax hne
  have hverify : ∀ expected,
      ¬ (verifyOutputEvaluation evals io ⟨point, expected⟩ unpaddedDimSize chunkNumber).Panics := by
    intro expected hpanics
    obtain ⟨value, hvalue⟩ := hexpected expected
    apply (h.after hbefore hpoint value).1
    rw [hvalue]
    exact panics_bind.mpr (.inl hpanics)
  have hopen := hverify 0
  rw [LogitsCtx.verifyOutputEvaluation, hlength, beq_self_eq_true, ensure_true, ok_bind] at hopen
  refine ⟨fun hpanics => hopen (panics_bind.mpr (.inl hpanics)), fun output houtput => ?_⟩
  rw [houtput, ok_bind] at hopen
  have hrowVars : ∀ rowVars, outputRowVars output = .ok rowVars → rowVars ≤ run.inputNumVars := by
    intro rowVars hrowVars
    by_contra hlt
    apply hopen
    rw [hrowVars, ok_bind, Logits.splitClaimPoint, panics_bind, panics_bind, panics_usizeSub]
    exact .inl (.inl (by rw [hpoint]; omega))
  refine ⟨fun hpanics => hopen (panics_bind.mpr (.inl hpanics)), hrowVars, ?_, ?_⟩
  · intro rowVars dimSize bits' hrow hbits' hpanics
    obtain ⟨rfl, -⟩ := Prod.mk.inj (Except.ok.inj (hbits.symm.trans hbits'))
    apply hverify 0
    rw [verifyOutputEvaluation_eq hevals hlength houtput hrow (hpoint ▸ hrowVars rowVars hrow), hpoint]
    exact panics_bind.mpr (.inl hpanics)
  · -- the evaluation of the tokens is claimed
    intro rowVars dimSize bits' tokens hrow hbits' htokens hcommitments
    obtain ⟨rfl, -⟩ := Prod.mk.inj (Except.ok.inj (hbits.symm.trans hbits'))
    obtain ⟨value, hvalue⟩ := hexpected (selectTokens (evals (point.take (run.inputNumVars - rowVars)))
      (evals (point.drop (run.inputNumVars - rowVars))) tokens)
    obtain ⟨claims, hclaims⟩ := (@witnessClaims_eq_ok p D C ctx proof
      ⟨point.drop run.numColVars, maxEval⟩ run.polyClaims).mpr hcommitments
    rw [tokensRead] at htokens
    rw [verifyOutputEvaluation_eq hevals hlength houtput hrow (hpoint ▸ hrowVars rowVars hrow), hpoint,
      htokens, ok_bind, beq_self_eq_true, ensure_true, ok_bind, hclaims, ok_bind] at hvalue
    obtain ⟨output', _, _, _, _, _, houtput', hone, _⟩ :=
      ((h.after hbefore hpoint value).2 _ hvalue).exists_output
    obtain rfl := Except.ok.inj (houtput.symm.trans houtput')
    exact hone

include hevals in
theorem BindsTokens.fitsTokens
    (h : BindsTokens ctx fl evals io verifier proof shapeStep nodeId chunkNumber) :
    FitsTokens ctx fl io verifier proof shapeStep chunkNumber where
  before := not_panics_beforeSumcheck (h.noPanic _ (acceptingSumcheck_proper 0 0))
  after := by
    intro run hbefore
    have hrun := beforeSumcheck_fits hbefore
    obtain ⟨point, hpoint, -⟩ := exists_point hrun rfl
    have hnoPanic := (h.after hbefore hpoint 0).1
    have hlastColumn := lastColumn_of_afterSumcheck hnoPanic
    have hcount : 2 ≤ proof.sumcheckEvals.length :=
      sumcheckEvals_of_afterSumcheck (by simp [hpoint, hrun.inputNumVars]) hnoPanic
    obtain ⟨⟨unpaddedDimSize, bits⟩, hbits⟩ := (lastColumnBits_cases shapeStep _).resolve_left hlastColumn
    obtain ⟨inputEval, hinput⟩ : ∃ inputEval, proof.sumcheckEvals[0]? = some inputEval :=
      ⟨_, List.getElem?_eq_getElem (by omega)⟩
    obtain ⟨maxEval, hmax⟩ : ∃ maxEval, proof.sumcheckEvals[1]? = some maxEval :=
      ⟨_, List.getElem?_eq_getElem (by omega)⟩
    have hnonzero : proof.sumcheckEvals[0]? ≠ some 0 → inputEval ≠ 0 :=
      fun hne hzero => hne (hzero ▸ hinput)
    refine ⟨hlastColumn, hcount, fun hzero => ?_, fun hne hlength => ?_, fun hne hlength => ?_⟩
    · apply h.divisor hbefore hbits hinput hmax
      rw [hinput, Option.some.injEq] at hzero
      exact hzero
    · exact (h.outputFits hevals hbefore hbits hinput hmax (hnonzero hne) hlength).1
    · exact (h.outputFits hevals hbefore hbits hinput hmax (hnonzero hne) hlength).2

/-- The verifier never panics and binds the tokens exactly if everything it indexes is there, the divisor
    cannot be zero, and the output that is read has one token for each row. -/
theorem bindsTokens_iff (evals : List (ZMod p) → List (ZMod p))
    (hevals : ∀ point, evals point = (List.range (2 ^ point.length)).map (eqWeight point))
    (ctx : LogitsCtx) (fl : Float32Ops) (io : OutputIo (ZMod p)) (verifier : Verifier D C)
    (proof : LogitsProof D C) (shapeStep : ShapeStep) (nodeId : NodeId) (chunkNumber : Nat) :
    BindsTokens ctx fl evals io verifier proof shapeStep nodeId chunkNumber ↔
      FitsTokens ctx fl io verifier proof shapeStep chunkNumber :=
  ⟨fun h => h.fitsTokens hevals, fun h => h.bindsTokens hevals⟩

/-! ## One row -/

section OneRow

/-- One row of two columns. -/
def oneRow : ShapeStep := ⟨[[1, 2]], [[1, 2]]⟩

def oneRowVerifier : Verifier constantCrypto Unit :=
  ⟨.default, [], ⟨3, (∅ : HashMap String (ZMod 5)).insert (Table.newShiftCheck.name noFloats) 1⟩, ∅⟩

/-- A proof with an evaluation of the input. -/
def oneRowProof (inputEval : ZMod 5) : LogitsProof constantCrypto Unit where
  logupProof :=
    { sumcheckProofs := []
      roundEvaluations := [[0, 0]]
      outputClaims := [⟨[], 1⟩]
      circuitOutputs := [] }
  commitments := [⟨[()], 1⟩]
  hadamardProof := []
  sumcheckEvals := [inputEval, 0]

/-- The token is the second column. -/
def oneToken : OutputIo (ZMod 5) := ⟨[⟨[1], [1], [1]⟩], none⟩

theorem oneRow_beforeSumcheck (inputEval : ZMod 5) : ∃ run,
    (⟨1⟩ : LogitsCtx).beforeSumcheck noFloats oneRowVerifier (oneRowProof inputEval) oneRow = .ok run ∧
      run.numColVars = 1 ∧ run.rowPoint = [] ∧ run.inputNumVars = 1 := by
  have hchallenges : oneRowVerifier.challengeStorage.getChallengesByName
      (Table.newShiftCheck.name noFloats) = some (3, 1) := by
    simp [oneRowVerifier, ChallengeStorage.getChallengesByName]
  have hvars : ceilLog2 (Shape.numel [1, 2]) = 1 := by decide
  have hlookups : ∃ lookups, (⟨1⟩ : LogitsCtx).verifyLookups noFloats oneRowVerifier
      (oneRowProof inputEval) [1, 2] = .ok lookups ∧ lookups.1.point = [3] ∧ lookups.1.polyEvals = [1] := by
    unfold verifyLookups
    dsimp only
    rw [hchallenges, hvars]
    exact ⟨_, rfl, rfl, rfl⟩
  obtain ⟨⟨batchClaim, t, stored⟩, hlookups, hpoint, hevals⟩ := hlookups
  dsimp only at hpoint hevals
  unfold beforeSumcheck
  dsimp only [oneRow, List.getElem?_cons_zero]
  rw [unwrap_some, ok_bind, List.length_singleton, beq_self_eq_true, ensure_true, ok_bind, hlookups,
    ok_bind]
  dsimp only
  rw [hpoint, hevals]
  exact ⟨_, rfl, rfl, rfl, rfl⟩

/-- The verifier binds the token. -/
theorem bindsTokens_oneRow :
    BindsTokens ⟨1⟩ noFloats (fun point => (List.range (2 ^ point.length)).map (eqWeight point)) oneToken
      oneRowVerifier (oneRowProof 1) oneRow 0 0 := by
  obtain ⟨run, hrun, hcols, hrows, hvars⟩ := oneRow_beforeSumcheck 1
  refine (bindsTokens_iff _ (fun _ => rfl) _ _ _ _ _ _ _ _).mpr ⟨by rw [hrun]; exact not_panics_ok _, ?_⟩
  intro run' hrun'
  obtain rfl := Except.ok.inj (hrun.symm.trans hrun')
  refine ⟨?_, le_rfl, ?_, fun _ _ => not_panics_ok _, ?_⟩
  · rw [hcols]
    exact not_panics_ok _
  · rw [hrows]
    rintro (hzero | ⟨a, ha, -⟩)
    · exact absurd (Option.some.inj hzero) (by decide)
    · cases ha
  · intro _ _ output houtput
    obtain rfl : (⟨[1], [1], [1]⟩ : Tensor (ZMod 5)) = output := Except.ok.inj houtput
    have hrowVars : outputRowVars (⟨[1], [1], [1]⟩ : Tensor (ZMod 5)) = .ok 0 := rfl
    refine ⟨not_panics_ok _, ?_, ?_, fun _ _ _ _ _ _ _ _ => ⟨rfl, rfl⟩⟩
    · rintro rowVars h
      obtain rfl := Except.ok.inj (hrowVars.symm.trans h)
      exact Nat.zero_le _
    · rintro rowVars dimSize bits h hbits
      obtain rfl := Except.ok.inj (hrowVars.symm.trans h)
      rw [hcols] at hbits
      obtain ⟨rfl, -⟩ := Prod.mk.inj (Except.ok.inj hbits)
      rw [tokensRead, hvars]
      exact not_panics_ok _

/-- With zero as the evaluation of the input, the assertion fails. -/
theorem not_bindsTokens_oneRow :
    ¬ BindsTokens ⟨1⟩ noFloats (fun point => (List.range (2 ^ point.length)).map (eqWeight point)) oneToken
      oneRowVerifier (oneRowProof 0) oneRow 0 0 := by
  intro h
  obtain ⟨run, hrun, hcols, -⟩ := oneRow_beforeSumcheck 0
  have hbits : lastColumnBits oneRow run.numColVars = .ok (2, [(1 : ZMod 5)]) := by
    rw [hcols]
    rfl
  obtain ⟨output, msg, houtput, herr⟩ := h.divisor hrun hbits rfl rfl (.inl rfl)
  obtain rfl : (⟨[1], [1], [1]⟩ : Tensor (ZMod 5)) = output := Option.some.inj houtput
  cases herr

end OneRow

end LogitsCtx

end DeepProve
