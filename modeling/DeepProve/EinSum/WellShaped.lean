import DeepProve.EinSum.Occurrences
import DeepProve.EinSum.StackedSizes

/-!
# The shape of a proof of an Einstein summation

The verifier does not look at the lengths of the lists of a proof, nor at whether the proof has a
second sumcheck. The claims it returns are about the evaluations it checked exactly if the list of
evaluations has the length of the expression; the claim about the left input of several operations is
sound only with the second sumcheck; and the map of the claims about constants keeps one claim for each
commitment.
-/

namespace DeepProve

open Outcome

namespace EinSumContext

/-- A context as the layer makes it. -/
structure FromLayer (ctx : EinSumContext) : Prop where
  axisOutputs : ∀ axis ∈ ctx.mapping.axes, axis.outputs.length = ctx.mapping.outputCount
  /-- One output for each operation. -/
  outputs : ctx.mapping.outputCount = ctx.mapping.inputCount - 1
  constants : ctx.constantUnpaddedShapes.length = ctx.mapping.inputCount - 1
  biases : ctx.biasUnpaddedShapes.length = ctx.mapping.outputCount
  biasCount : ctx.biasUnpaddedShapes.countP Option.isSome = ctx.mapping.biasCount
  /-- The keys are those of the constant tensors, as are the shapes. -/
  constantKeys : ctx.constantKeys.map Option.isSome =
    ctx.constantUnpaddedShapes.map Option.isSome
  biasKeys : ctx.biasKeys.map Option.isSome = ctx.biasUnpaddedShapes.map Option.isSome

variable {F : Type} [Field F] {D : DpCrypto F}

/-! ## What a well shaped proof is -/

/-- What the claims about the right inputs are made of, from the evaluations that the expression
    reads. -/
def rhsOperations (ctx : EinSumContext) (proof : EinSumProof D) (after : AfterSumcheck D) :
    List (RhsEntry F) :=
  ctx.rhsEntries after.fixed.rhsFixes
    ((occursRight (after.stackingCoeffs.map List.length)).map (evalsAt proof.einsumEvaluations))
    after.stackingCoeffs after.prepared.paddedInputShapes

variable [DecidableEq F]

/-- The claims that are returned, made of the evaluations that the expression reads. -/
structure Returned (ctx : EinSumContext) (proof : EinSumProof D) (after : AfterSumcheck D)
    (info : EinSumVerifierInfo F) (t' : D.Transcript) (lhs : Claim F) (inputs : List (Claim F))
    (weights : List (CommitmentId × Claim F)) : Prop where
  left : ∃ lhsShape, after.prepared.paddedInputShapes[0]? = some lhsShape ∧
    lhsClaim D proof.inputAggregationSumcheck after.fixed.lhsFixes after.einsumSubclaim.point lhsShape
      ((occursLeft (after.stackingCoeffs.map List.length)).map (evalsAt proof.einsumEvaluations))
      after.stackingCoeffs after.transcript = .ok (lhs, t')
  /-- There is one for each operation. -/
  count : (ctx.rhsOperations proof after).length = ctx.mapping.inputCount - 1
  right : (ctx.rhsOperations proof after).foldlM (rhsClaim after.einsumSubclaim.point) ([], []) =
    .ok (inputs, weights)
  claims : info.claims = lhs :: inputs
  /-- No claim about a constant or a bias is lost. -/
  constants : info.constantsMap.toList.Perm (weights ++ after.prepared.outputs.biasClaims)

/-- What a proof that is accepted should have. -/
structure WellShaped (ctx : EinSumContext) (proof : EinSumProof D) (after : AfterSumcheck D)
    (info : EinSumVerifierInfo F) (t' : D.Transcript) : Prop where
  /-- The claims are made of the evaluations that occur in the expression. -/
  left : claimedLeft (after.stackingCoeffs.map List.length) proof.einsumEvaluations.length =
    occursLeft (after.stackingCoeffs.map List.length)
  right : claimedRight (after.stackingCoeffs.map List.length) proof.einsumEvaluations.length =
    occursRight (after.stackingCoeffs.map List.length)
  /-- The sumcheck leaves what the expression says of them. -/
  checked : after.einsumSubclaim.expectedEvaluation =
    expressionValue after.batchingChallenge after.stackingCoeffs proof.einsumEvaluations
  returned : ∃ lhs inputs weights, Returned ctx proof after info t' lhs inputs weights
  aggregation : 2 < ctx.mapping.inputCount → ∃ aggProof claimedSum aux t₁ subclaim t₂,
    proof.inputAggregationSumcheck = some aggProof ∧
      D.verifySumcheck claimedSum aggProof aux t₁ = .ok (subclaim, t₂) ∧
        info.claims.head?.map Claim.point = some subclaim.point
  /-- As many evaluations are used as there are biases. -/
  biases : after.prepared.outputs.biasClaims.length = ctx.mapping.biasCount ∧
    after.prepared.outputs.biasClaims.map (·.2.eval) = proof.biasEvals.take ctx.mapping.biasCount

/-- The evaluations are as many as the equation has products, there is a second sumcheck if there are
    several operations, and the commitments have different names. -/
structure ShapedAs (ctx : EinSumContext) (shapeStep : ShapeStep) (proof : EinSumProof D) : Prop where
  fits : Fits (ctx.mapping.stackingSizes (shapeStep.unpaddedInputShape.headD []))
    proof.einsumEvaluations.length
  aggregation : 2 < ctx.mapping.inputCount → proof.inputAggregationSumcheck.isSome
  distinct : (ctx.constantKeys.reduceOption ++ ctx.biasKeys.reduceOption).Nodup

/-! ## What is known before the sumcheck -/

theorem nextInput_eq_ok {shapes shapes' : InputShapes} {constShape : Option Shape}
    (h : nextInput shapes constShape = .ok shapes') :
    (∃ s, shapes'.unpadded = shapes.unpadded ++ [s]) ∧
      ∃ s, shapes'.padded = shapes.padded ++ [s] := by
  unfold nextInput at h
  cases constShape with
  | some s =>
    rw [← Except.ok.inj h]
    exact ⟨⟨_, rfl⟩, ⟨_, rfl⟩⟩
  | none =>
    obtain ⟨unpadded, _, h⟩ := bind_eq_ok.mp h
    obtain ⟨padded, _, h⟩ := bind_eq_ok.mp h
    rw [← Except.ok.inj h]
    exact ⟨⟨_, rfl⟩, ⟨_, rfl⟩⟩

variable {ctx : EinSumContext} {coeffs : List (List F)}

/-- The left input comes first. -/
theorem inputShapes_eq_ok {shapeStep : ShapeStep} {unpadded padded : List Shape}
    (h : ctx.inputShapes shapeStep = .ok (unpadded, padded)) :
    unpadded[0]? = some (shapeStep.unpaddedInputShape.headD []) ∧
      padded.length = ctx.constantUnpaddedShapes.length + 1 := by
  unfold inputShapes at h
  obtain ⟨lhs, hlhs, h⟩ := bind_eq_ok.mp h
  obtain ⟨lhsPadded, _, h⟩ := bind_eq_ok.mp h
  obtain ⟨shapes, hfold, h⟩ := bind_eq_ok.mp h
  obtain ⟨rfl, rfl⟩ := Prod.mk.inj (Except.ok.inj h)
  have hinv := foldlM_induction (motive := fun constShapes (shapes : InputShapes) =>
    shapes.unpadded[0]? = some lhs ∧ shapes.padded.length = constShapes.length + 1) hfold
      ⟨rfl, rfl⟩ ?_
  · rw [List.headD_eq_head?_getD, okOr_eq_ok.mp hlhs]
    exact hinv
  · intro pre constShape post s₁ s₂ _ ⟨hfirst, hlength⟩ hstep
    obtain ⟨⟨_, hunpadded⟩, ⟨_, hpadded⟩⟩ := nextInput_eq_ok hstep
    refine ⟨?_, by rw [hpadded, List.length_append, List.length_append, hlength]; rfl⟩
    rw [hunpadded, List.getElem?_append_left (List.getElem?_eq_some_iff.mp hfirst).1, hfirst]

/-! ## The biases -/

omit [DecidableEq F] in
theorem splitOutput_biases {acc acc' : OutputClaims F} {output : OutputEntry F} {outputId : Nat}
    (h : ctx.splitOutput acc (output, outputId) = .ok acc') :
    (output.biasShape = none ∧ acc'.biasEvals = acc.biasEvals ∧ acc'.biasClaims = acc.biasClaims) ∨
      ∃ key claim, output.biasShape.isSome ∧ output.biasKey = some key ∧
        acc.biasEvals = claim.eval :: acc'.biasEvals ∧
        acc'.biasClaims = acc.biasClaims ++ [(key, claim)] := by
  unfold splitOutput at h
  dsimp only at h
  cases hshape : output.biasShape with
  | none =>
    rw [hshape] at h
    obtain ⟨_, _, h⟩ := bind_eq_ok.mp h
    rw [← Except.ok.inj h]
    exact .inl ⟨rfl, rfl, rfl⟩
  | some _ =>
    rw [hshape] at h
    obtain ⟨biasEval, hbiasEval, h⟩ := bind_eq_ok.mp h
    obtain ⟨splitPoint, _, h⟩ := bind_eq_ok.mp h
    obtain ⟨⟨broadcast, biasClaim⟩, hcompute, h⟩ := bind_eq_ok.mp h
    obtain ⟨key, hkey, h⟩ := bind_eq_ok.mp h
    rw [← Except.ok.inj h]
    refine .inr ⟨key, biasClaim, rfl, unwrap_eq_ok.mp hkey, ?_, rfl⟩
    -- the claim about the bias is the evaluation of the proof
    unfold AxesMapping.computeBiasEvaluation at hcompute
    obtain ⟨_, _, hcompute⟩ := bind_eq_ok.mp hcompute
    obtain ⟨_, _, hcompute⟩ := bind_eq_ok.mp hcompute
    obtain ⟨_, rfl⟩ := Prod.mk.inj (Except.ok.inj hcompute)
    exact (List.cons_head?_tail (okOr_eq_ok.mp hbiasEval)).symm

omit [DecidableEq F] in
/-- The claims about the biases are those of the evaluations of the proof, in order. -/
theorem foldlM_splitOutput {entries : List (OutputEntry F)} {first : Nat}
    {acc acc' : OutputClaims F} (hkeys : ∀ e ∈ entries, e.biasKey.isSome = e.biasShape.isSome)
    (h : (entries.zipIdx first).foldlM ctx.splitOutput acc = .ok acc') :
    ∃ new, acc'.biasClaims = acc.biasClaims ++ new ∧
      acc.biasEvals = new.map (·.2.eval) ++ acc'.biasEvals ∧
      new.map Prod.fst = (entries.map OutputEntry.biasKey).reduceOption := by
  induction entries generalizing first acc with
  | nil =>
    rw [← Except.ok.inj h]
    exact ⟨[], (List.append_nil _).symm, rfl, rfl⟩
  | cons entry entries ih =>
    rw [List.zipIdx_cons, List.foldlM_cons, bind_eq_ok] at h
    obtain ⟨acc₁, hfirst, hrest⟩ := h
    obtain ⟨hkey, hkeys⟩ := List.forall_mem_cons.mp hkeys
    obtain ⟨new, hclaims, hevals, hnew⟩ := ih hkeys hrest
    rcases splitOutput_biases hfirst with ⟨hshape, hsameEvals, hsameClaims⟩ |
      ⟨key, claim, hshape, hbiasKey, hfirstEval, hfirstClaim⟩
    · rw [hshape, Option.isSome_none, Option.isSome_eq_false_iff, Option.isNone_iff_eq_none] at hkey
      refine ⟨new, by rw [hclaims, hsameClaims], by rw [← hsameEvals, hevals], ?_⟩
      rw [hnew, List.map_cons, hkey, List.reduceOption_cons_of_none]
    · refine ⟨(key, claim) :: new, ?_, ?_, ?_⟩
      · rw [hclaims, hfirstClaim, List.append_assoc, List.singleton_append]
      · rw [hfirstEval, hevals]
        rfl
      · rw [List.map_cons, List.map_cons, hbiasKey, List.reduceOption_cons_of_some, hnew]

theorem forall_mem_zip_of_map_eq {α β γ : Type} {f : α → γ} {g : β → γ} {xs : List α} {ys : List β}
    (h : xs.map f = ys.map g) : ∀ p ∈ xs.zip ys, f p.1 = g p.2 := by
  induction xs generalizing ys with
  | nil => exact fun p hp => nomatch hp
  | cons x xs ih =>
    cases ys with
    | nil => exact fun p hp => nomatch hp
    | cons y ys =>
      obtain ⟨hfirst, hrest⟩ := List.cons.inj h
      rw [List.zip_cons_cons, List.forall_mem_cons]
      exact ⟨hfirst, ih hrest⟩

theorem length_reduceOption_eq {α β : Type} {keys : List (Option α)} {shapes : List (Option β)}
    (h : keys.map Option.isSome = shapes.map Option.isSome) :
    keys.reduceOption.length = shapes.countP Option.isSome := by
  have hcount := congrArg (List.countP id) h
  rw [List.countP_map, List.countP_map, Function.id_comp, Function.id_comp] at hcount
  rw [← hcount, List.countP_eq_length_filter, List.reduceOption_length_eq]

omit [DecidableEq F] in
/-- What is known before the sumcheck. -/
theorem prepare_eq_ok_of_fromLayer (hctx : ctx.FromLayer) {biasEvals : List F}
    {lastClaims : List (Claim F)} {shapeStep : ShapeStep} {prepared : Prepared F}
    (h : ctx.prepare biasEvals lastClaims shapeStep = .ok prepared) :
    prepared.unpaddedInputShapes[0]? = some (shapeStep.unpaddedInputShape.headD []) ∧
      prepared.paddedInputShapes.length = ctx.constantUnpaddedShapes.length + 1 ∧
      prepared.outputs.biasClaims.map Prod.fst = ctx.biasKeys.reduceOption ∧
      ∃ rest, biasEvals = prepared.outputs.biasClaims.map (·.2.eval) ++ rest := by
  unfold prepare at h
  obtain ⟨_, hcount, h⟩ := bind_eq_ok.mp h
  obtain ⟨⟨unpadded, padded⟩, hshapes, h⟩ := bind_eq_ok.mp h
  obtain ⟨outputShapes, houtputs, h⟩ := bind_eq_ok.mp h
  obtain ⟨unpaddedOutputs, hunpaddedOutputs, h⟩ := bind_eq_ok.mp h
  obtain ⟨sizes, _, h⟩ := bind_eq_ok.mp h
  obtain ⟨outputs, hfold, h⟩ := bind_eq_ok.mp h
  rw [← Except.ok.inj h]
  obtain ⟨hfirst, hlength⟩ := inputShapes_eq_ok hshapes
  -- there is an entry for every output
  have hclaims : lastClaims.length = ctx.mapping.outputCount := by
    simpa [ensure_eq_ok] using hcount
  have hkeysLength : ctx.biasKeys.length = ctx.mapping.outputCount := by
    have := congrArg List.length hctx.biasKeys
    rwa [List.length_map, List.length_map, hctx.biases] at this
  have hkeys : (ctx.outputEntries lastClaims outputShapes unpaddedOutputs).map OutputEntry.biasKey =
      ctx.biasKeys := by
    rw [outputEntries, List.map_map]
    apply List.ext_getElem
    · simp [hclaims, hkeysLength, hctx.biases, AxesMapping.length_outputShapes houtputs,
        AxesMapping.length_outputShapes hunpaddedOutputs]
    · intro i hi hi'
      simp
  have hsome : ∀ e ∈ ctx.outputEntries lastClaims outputShapes unpaddedOutputs,
      e.biasKey.isSome = e.biasShape.isSome := by
    intro e he
    obtain ⟨⟨claim, outputShape, unpaddedOutput, shape, key⟩, hmem, rfl⟩ := List.mem_map.mp he
    have hzip := (List.of_mem_zip (List.of_mem_zip (List.of_mem_zip hmem).2).2).2
    exact (forall_mem_zip_of_map_eq hctx.biasKeys.symm _ hzip).symm
  obtain ⟨new, hnew, hevals, hids⟩ := foldlM_splitOutput hsome hfold
  rw [List.nil_append] at hnew
  dsimp only at hevals ⊢
  rw [hnew, ← hkeys]
  exact ⟨hfirst, hlength, hids, outputs.biasEvals, hevals⟩

/-! ## The claims about the inputs -/

omit [DecidableEq F] in
/-- More evaluations than coefficients are not used. -/
theorem weightedSum_take_length (evals coeffs : List F) :
    weightedSum (evals.take coeffs.length) coeffs = weightedSum evals coeffs := by
  unfold weightedSum
  congr 1
  induction evals generalizing coeffs with
  | nil => rw [List.take_nil]
  | cons e evals ih =>
    cases coeffs with
    | nil => simp
    | cons c coeffs => simp [ih]

/-- The evaluations of an operation that are used. -/
def cutEntry (entry : RhsEntry F) : RhsEntry F :=
  { entry with evalChunk := entry.evalChunk.take entry.coeffs.length }

omit [DecidableEq F] in
theorem rhsClaim_cutEntry (point : List F) (acc : List (Claim F) × List (CommitmentId × Claim F))
    (entry : RhsEntry F) : rhsClaim point acc (cutEntry entry) = rhsClaim point acc entry := by
  obtain ⟨inputs, weights⟩ := acc
  unfold rhsClaim cutEntry
  dsimp only
  rw [weightedSum_take_length]

omit [Field F] [DecidableEq F] in
theorem rhsEntries_cut (ctx : EinSumContext) (fixes : List (List (FixedAxis (List F))))
    (chunks coeffs : List (List F)) (shapes : List Shape) :
    ctx.rhsEntries fixes ((chunks.zip coeffs).map fun (chunk, c) => chunk.take c.length) coeffs shapes =
      (ctx.rhsEntries fixes chunks coeffs shapes).map cutEntry := by
  unfold rhsEntries
  generalize ctx.constantUnpaddedShapes.zip (ctx.constantKeys.zip shapes.tail) = rest
  rw [List.map_map]
  induction fixes generalizing chunks coeffs rest with
  | nil => rfl
  | cons fix fixes ih =>
    cases chunks with
    | nil => rfl
    | cons chunk chunks =>
      cases coeffs with
      | nil => rfl
      | cons c coeffs =>
        cases rest with
        | nil => rfl
        | cons entry rest =>
          rw [List.zip_cons_cons, List.map_cons, List.zip_cons_cons, List.zip_cons_cons,
            List.zip_cons_cons, List.map_cons, ih, List.zip_cons_cons, List.zip_cons_cons,
            List.map_cons]
          rfl

theorem lhsClaim_cut (agg : Option D.IOPProof) (fixes : List (List (FixedAxis (List F))))
    (point : List F) (shape : Shape) (chunks coeffs : List (List F)) (t : D.Transcript) :
    lhsClaim D agg fixes point shape
        ((chunks.zip coeffs).map fun (chunk, c) => chunk.take c.length) coeffs t =
      lhsClaim D agg fixes point shape chunks coeffs t := by
  unfold lhsClaim
  simp only [zip_take_length, List.foldl_map, weightedSum_take_length]

omit [Field F] [DecidableEq F] in
theorem headD_map_length {first : List F} (h : coeffs[0]? = some first) :
    (coeffs.map List.length).headD 0 = first.length := by
  rw [List.headD_eq_head?_getD, List.head?_map, List.head?_eq_getElem?, h]
  rfl

omit [DecidableEq F] in
/-- The chunks of some of the evaluations, cut to the coefficients. -/
theorem cut_pieces_evalsAt (e : List F) {first : List F} (hfirst : coeffs[0]? = some first)
    (numbers : List Nat) :
    ((pieces (evalsAt e numbers) first.length).zip coeffs).map
        (fun (chunk, c) => chunk.take c.length) =
      (cutBySizes (coeffs.map List.length) numbers).map (evalsAt e) := by
  rw [cutBySizes, headD_map_length hfirst, evalsAt, pieces_map, List.zip_map_left, List.zip_map_right,
    List.map_map, List.map_map, List.map_map]
  apply List.map_congr_left
  rintro ⟨piece, c⟩ _
  simp [evalsAt, List.map_take]

omit [DecidableEq F] in
theorem evalsAt_range (e : List F) : evalsAt e (List.range e.length) = e := by
  apply List.ext_getElem
  · simp [evalsAt]
  · intro i hi hi'
    simp [evalsAt, hi']

/-! ## The claims of an accepted proof -/

omit [DecidableEq F] in
/-- There are coefficients for every operation. -/
theorem coeffs_of_buildEinsumExpression {expression : D.Expression}
    (h : ctx.buildEinsumExpression D coeffs = .ok expression) :
    coeffs.length = ctx.mapping.inputCount - 1 ∧ ∀ c ∈ coeffs, c ≠ [] := by
  unfold buildEinsumExpression at h
  dsimp only at h
  split at h
  · next hcount =>
    refine ⟨hcount, ?_⟩
    rintro c hc rfl
    obtain ⟨i, hi⟩ := List.mem_iff_getElem?.mp hc
    -- the expression of that operation would not be built
    have hsplit : coeffs.zipIdx = coeffs.zipIdx.take i ++ ([], i) :: coeffs.zipIdx.drop (i + 1) := by
      have hget : coeffs.zipIdx[i]? = some ([], i) := by
        rw [List.getElem?_zipIdx, hi]
        simp
      obtain ⟨hlt, heq⟩ := List.getElem?_eq_some_iff.mp hget
      rw [← heq, List.getElem_cons_drop, List.take_append_drop]
    rw [hsplit, List.foldlM_append, bind_eq_ok] at h
    obtain ⟨acc, _, h⟩ := h
    rw [List.foldlM_cons] at h
    cases h
  · cases h

omit [DecidableEq F] in
/-- The claims about constants have the keys of the operations. -/
theorem foldlM_rhsClaim_keys {point : List F} {entries : List (RhsEntry F)}
    {acc acc' : List (Claim F) × List (CommitmentId × Claim F)}
    (hkeys : ∀ e ∈ entries, e.polyId.isSome = e.constShape.isSome)
    (h : entries.foldlM (rhsClaim point) acc = .ok acc') :
    acc'.2.map Prod.fst = acc.2.map Prod.fst ++ (entries.map RhsEntry.polyId).reduceOption := by
  induction entries generalizing acc with
  | nil =>
    rw [← Except.ok.inj h]
    exact (List.append_nil _).symm
  | cons entry entries ih =>
    rw [List.foldlM_cons, bind_eq_ok] at h
    obtain ⟨acc₁, hfirst, hrest⟩ := h
    obtain ⟨hkey, hkeys⟩ := List.forall_mem_cons.mp hkeys
    rw [ih hkeys hrest]
    unfold rhsClaim at hfirst
    obtain ⟨fullPoint, _, hfirst⟩ := bind_eq_ok.mp hfirst
    cases hshape : entry.constShape with
    | none =>
      rw [hshape] at hfirst hkey
      rw [← Except.ok.inj hfirst, List.map_cons,
        Option.isNone_iff_eq_none.mp (Option.isSome_eq_false_iff.mp hkey),
        List.reduceOption_cons_of_none]
    | some _ =>
      rw [hshape] at hfirst
      obtain ⟨id, hid, hfirst⟩ := bind_eq_ok.mp hfirst
      rw [← Except.ok.inj hfirst, List.map_cons, unwrap_eq_ok.mp hid, List.map_append,
        List.reduceOption_cons_of_some, List.append_assoc]
      rfl

/-- The claims are made of the chunks of the two halves. -/
theorem finish_eq_ok {proof : EinSumProof D} {after : AfterSumcheck D} {info : EinSumVerifierInfo F}
    {t' : D.Transcript} (h : ctx.finish D proof after = .ok (info, t')) :
    ∃ expression value lhsShape lhs inputs weights,
      ctx.buildEinsumExpression D after.stackingCoeffs = .ok expression ∧
      D.eval proof.einsumEvaluations [after.batchingChallenge] expression = .ok value ∧
      after.einsumSubclaim.expectedEvaluation = value ∧
      after.prepared.paddedInputShapes[0]? = some lhsShape ∧
      lhsClaim D proof.inputAggregationSumcheck after.fixed.lhsFixes after.einsumSubclaim.point
        lhsShape ((claimedLeft (after.stackingCoeffs.map List.length)
          proof.einsumEvaluations.length).map (evalsAt proof.einsumEvaluations))
        after.stackingCoeffs after.transcript = .ok (lhs, t') ∧
      (ctx.rhsEntries after.fixed.rhsFixes ((claimedRight (after.stackingCoeffs.map List.length)
          proof.einsumEvaluations.length).map (evalsAt proof.einsumEvaluations))
        after.stackingCoeffs after.prepared.paddedInputShapes).foldlM
          (rhsClaim after.einsumSubclaim.point) ([], []) = .ok (inputs, weights) ∧
      info = ⟨lhs :: inputs, (weights ++ after.prepared.outputs.biasClaims).foldl
        (fun constants (id, claim) => constants.insert id claim) ∅⟩ ∧
      after.stackingCoeffs ≠ [] := by
  unfold finish at h
  simp only [bind_eq_ok, ensure_eq_ok, beq_iff_eq, chunksOf_eq_ok, unwrap_eq_ok] at h
  obtain ⟨expression, hbuild, value, hvalue, _, hexpected, first, hfirst, _, ⟨_, rfl⟩,
    ⟨inputs, weights⟩, hright, lhsShape, hlhsShape, _, ⟨_, rfl⟩, ⟨lhs, t''⟩, hleft, h⟩ := h
  obtain ⟨rfl, rfl⟩ := Prod.mk.inj (Except.ok.inj h)
  have htake : proof.einsumEvaluations.take (proof.einsumEvaluations.length / 2) =
      evalsAt proof.einsumEvaluations ((List.range proof.einsumEvaluations.length).take
        (proof.einsumEvaluations.length / 2)) := by
    rw [evalsAt, List.map_take, ← evalsAt, evalsAt_range]
  have hdrop : proof.einsumEvaluations.drop (proof.einsumEvaluations.length / 2) =
      evalsAt proof.einsumEvaluations ((List.range proof.einsumEvaluations.length).drop
        (proof.einsumEvaluations.length / 2)) := by
    rw [evalsAt, List.map_drop, ← evalsAt, evalsAt_range]
  refine ⟨expression, value, lhsShape, lhs, inputs, weights, hbuild, hvalue, hexpected, hlhsShape,
    ?_, ?_, rfl, List.ne_nil_of_mem (List.mem_of_getElem? hfirst)⟩
  · rw [claimedLeft, ← cut_pieces_evalsAt _ hfirst, lhsClaim_cut, ← htake]
    exact hleft
  · rw [claimedRight, ← cut_pieces_evalsAt _ hfirst, rhsEntries_cut, List.foldlM_map, ← hdrop]
    simp only [rhsClaim_cutEntry]
    exact hright

/-- The claim about the left input is made with the second sumcheck, if there is one. -/
theorem lhsClaim_some {aggProof : D.IOPProof} {fixes : List (List (FixedAxis (List F)))}
    {point : List F} {shape : Shape} {chunks : List (List F)} {t t' : D.Transcript} {lhs : Claim F}
    (h : lhsClaim D (some aggProof) fixes point shape chunks coeffs t = .ok (lhs, t')) :
    ∃ claimedSum aux t₁ subclaim t₂,
      D.verifySumcheck claimedSum aggProof aux t₁ = .ok (subclaim, t₂) ∧ lhs.point = subclaim.point := by
  unfold lhsClaim at h
  dsimp only at h
  obtain ⟨eqPoints, _, h⟩ := bind_eq_ok.mp h
  obtain ⟨first, _, h⟩ := bind_eq_ok.mp h
  obtain ⟨⟨subclaim, t₂⟩, hsumcheck, h⟩ := bind_eq_ok.mp h
  dsimp only at h
  split at h
  · cases h
  · obtain ⟨rfl, _⟩ := Prod.mk.inj (Except.ok.inj h)
    exact ⟨_, _, _, _, _, hsumcheck, rfl⟩

/-! ## When an accepted proof is well shaped -/

variable {ctx : EinSumContext} {evals : List F → List F} {proof : EinSumProof D}
  {lastClaims : List (Claim F)} {shapeStep : ShapeStep} {t t' : D.Transcript}
  {after : AfterSumcheck D} {info : EinSumVerifierInfo F}

omit [DecidableEq F] in
/-- What is known after the sumcheck. -/
theorem runSumcheck_eq_ok (hctx : ctx.FromLayer)
    (h : ctx.runSumcheck D evals proof lastClaims shapeStep t = .ok after) :
    after.stackingCoeffs.map List.length =
        ctx.mapping.stackingSizes (shapeStep.unpaddedInputShape.headD []) ∧
      after.fixed.rhsFixes.length = ctx.mapping.inputCount - 1 ∧
      after.prepared.paddedInputShapes.tail.length = ctx.mapping.inputCount - 1 ∧
      after.prepared.outputs.biasClaims.map Prod.fst = ctx.biasKeys.reduceOption ∧
      ∃ rest, proof.biasEvals = after.prepared.outputs.biasClaims.map (·.2.eval) ++ rest := by
  unfold runSumcheck at h
  simp only [bind_eq_ok, unwrap_eq_ok, Except.ok.injEq] at h
  obtain ⟨prepared, hprepared, fixed, hfixed, lhs, hlhs, coeffs, hcoeffs, ⟨subclaim, t₁⟩, _, rfl⟩ := h
  obtain ⟨hfirst, hpadded, hbias⟩ := prepare_eq_ok_of_fromLayer hctx hprepared
  obtain rfl := Option.some.inj (hlhs.symm.trans hfirst)
  obtain ⟨_, hrhs⟩ := AxesMapping.sortVariablesToAxes_eq hctx.axisOutputs hfixed
  refine ⟨FixedAxesMapping.length_stackingCoefficients hctx.axisOutputs hfixed hcoeffs, ?_, ?_, hbias⟩
  · dsimp only
    rw [hrhs, List.length_map, List.length_range, hctx.outputs]
  · rw [List.length_tail]
    dsimp only
    rw [hpadded, hctx.constants]
    rfl

omit [DecidableEq F] in
/-- There is an entry for every operation, with its key. -/
theorem map_polyId_rhsOperations (proof : EinSumProof D) (hctx : ctx.FromLayer)
    (hcount : after.stackingCoeffs.length = ctx.mapping.inputCount - 1)
    (hrhs : after.fixed.rhsFixes.length = ctx.mapping.inputCount - 1)
    (hpadded : after.prepared.paddedInputShapes.tail.length = ctx.mapping.inputCount - 1) :
    (ctx.rhsOperations proof after).map RhsEntry.polyId = ctx.constantKeys ∧
      ∀ e ∈ ctx.rhsOperations proof after, e.polyId.isSome = e.constShape.isSome := by
  have hkeys : ctx.constantKeys.length = ctx.mapping.inputCount - 1 := by
    have := congrArg List.length hctx.constantKeys
    rwa [List.length_map, List.length_map, hctx.constants] at this
  constructor
  · rw [rhsOperations, rhsEntries, List.map_map]
    apply List.ext_getElem
    · rw [List.length_tail] at hpadded
      simp [occursRight, numbering, hcount, hrhs, hpadded, hkeys, hctx.constants]
    · intro i hi hi'
      simp
  · intro e he
    obtain ⟨⟨fixes, chunk, c, shape, key, inputShape⟩, hmem, rfl⟩ := List.mem_map.mp he
    have hzip := (List.of_mem_zip (List.of_mem_zip (List.of_mem_zip hmem).2).2).2
    have hpair : (shape, key) ∈ ctx.constantUnpaddedShapes.zip ctx.constantKeys := by
      obtain ⟨i, hi⟩ := List.mem_iff_getElem?.mp hzip
      obtain ⟨hshape, hrest⟩ := List.getElem?_zip_eq_some.mp hi
      obtain ⟨hkey, _⟩ := List.getElem?_zip_eq_some.mp hrest
      exact List.mem_iff_getElem?.mpr ⟨i, List.getElem?_zip_eq_some.mpr ⟨hshape, hkey⟩⟩
    exact (forall_mem_zip_of_map_eq hctx.constantKeys.symm _ hpair).symm

/-- The proof is well shaped exactly if it has the shape of the equation. -/
theorem wellShaped_iff (hD : D.Lawful) (hctx : ctx.FromLayer)
    (hrun : ctx.runSumcheck D evals proof lastClaims shapeStep t = .ok after)
    (hfinish : ctx.finish D proof after = .ok (info, t')) :
    WellShaped ctx proof after info t' ↔ ShapedAs ctx shapeStep proof := by
  obtain ⟨hsizes, hrhs, hpadded, hbiasKeys, rest, hbiasEvals⟩ := runSumcheck_eq_ok hctx hrun
  obtain ⟨expression, value, lhsShape, lhs, inputs, weights, hbuild, hvalue, hexpected, hlhsShape,
    hleft, hright, rfl, hne⟩ := finish_eq_ok hfinish
  obtain ⟨hcount, hnonempty⟩ := coeffs_of_buildEinsumExpression hbuild
  obtain ⟨hpolyIds, hpolySome⟩ := map_polyId_rhsOperations proof hctx hcount hrhs hpadded
  have hpos : ∀ s ∈ after.stackingCoeffs.map List.length, 0 < s := by
    intro s hs
    obtain ⟨c, hc, rfl⟩ := List.mem_map.mp hs
    exact List.length_pos_iff.mpr (hnonempty c hc)
  have hsizesNe : after.stackingCoeffs.map List.length ≠ [] :=
    fun heq => hne (List.map_eq_nil_iff.mp heq)
  -- the keys of the claims about constants and biases
  have hkeysOf : ∀ {inputs weights},
      (ctx.rhsOperations proof after).foldlM (rhsClaim after.einsumSubclaim.point) ([], []) =
        .ok (inputs, weights) →
      (weights ++ after.prepared.outputs.biasClaims).map Prod.fst =
        ctx.constantKeys.reduceOption ++ ctx.biasKeys.reduceOption := by
    intro inputs weights hfold
    have hkeys := foldlM_rhsClaim_keys hpolySome hfold
    rw [List.map_nil, List.nil_append, hpolyIds] at hkeys
    rw [List.map_append, hkeys, hbiasKeys]
  have hlengths : (ctx.rhsOperations proof after).length = ctx.mapping.inputCount - 1 := by
    rw [← List.length_map RhsEntry.polyId, hpolyIds, ← List.length_map Option.isSome,
      hctx.constantKeys, List.length_map, hctx.constants]
  constructor
  · intro hshaped
    obtain ⟨lhs', inputs', weights', hreturned⟩ := hshaped.returned
    refine ⟨?_, fun htwo => ?_, ?_⟩
    · rw [← hsizes]
      exact (claimed_eq_occurring_iff hsizesNe hpos).mp ⟨hshaped.left, hshaped.right⟩
    · obtain ⟨aggProof, _, _, _, _, _, hsome, _⟩ := hshaped.aggregation htwo
      rw [hsome]
      rfl
    · rw [← hkeysOf hreturned.right]
      exact Std.ExtTreeMap.nodup_keys_of_toList_perm hreturned.constants
  · rintro ⟨hfits, haggregation, hdistinct⟩
    rw [← hsizes] at hfits
    obtain ⟨hclaimedLeft, hclaimedRight⟩ := (claimed_eq_occurring_iff hsizesNe hpos).mpr hfits
    obtain ⟨expression', hbuild', hvalue'⟩ :=
      eval_buildEinsumExpression_of_fits hD hcount hnonempty hfits after.batchingChallenge
    obtain rfl := Except.ok.inj (hbuild.symm.trans hbuild')
    rw [hclaimedLeft] at hleft
    rw [hclaimedRight] at hright
    rw [← hkeysOf hright] at hdistinct
    have hbiases : after.prepared.outputs.biasClaims.length = ctx.mapping.biasCount := by
      rw [← List.length_map Prod.fst, hbiasKeys, length_reduceOption_eq hctx.biasKeys, hctx.biasCount]
    refine
      { left := hclaimedLeft
        right := hclaimedRight
        checked := hexpected.trans (Except.ok.inj (hvalue.symm.trans hvalue'))
        returned := ⟨lhs, inputs, weights, ⟨lhsShape, hlhsShape, hleft⟩, hlengths, hright, rfl,
          Std.ExtTreeMap.toList_foldl_insert_perm_iff.mpr hdistinct⟩
        aggregation := fun htwo => ?_
        biases := ⟨hbiases, ?_⟩ }
    · obtain ⟨aggProof, hsome⟩ := Option.isSome_iff_exists.mp (haggregation htwo)
      rw [hsome] at hleft
      obtain ⟨claimedSum, aux, t₁, subclaim, t₂, hsumcheck, hpoint⟩ := lhsClaim_some hleft
      exact ⟨aggProof, claimedSum, aux, t₁, subclaim, t₂, hsome, hsumcheck, by rw [← hpoint]; rfl⟩
    · rw [hbiasEvals, ← hbiases, List.take_left' (List.length_map _)]

/-- An accepted proof is well shaped exactly if it has the shape of the equation. -/
theorem verifyInternal_wellShaped_iff (hD : D.Lawful) (hctx : ctx.FromLayer)
    (h : ctx.verifyInternal D evals proof lastClaims shapeStep t = .ok (info, t')) :
    ∃ after, ctx.runSumcheck D evals proof lastClaims shapeStep t = .ok after ∧
      ctx.finish D proof after = .ok (info, t') ∧
      (WellShaped ctx proof after info t' ↔ ShapedAs ctx shapeStep proof) := by
  obtain ⟨after, hrun, hfinish⟩ := bind_eq_ok.mp h
  exact ⟨after, hrun, hfinish, wellShaped_iff hD hctx hrun hfinish⟩

/-! ## The rows of two matrices -/

section TwoRows

theorem rowsContext_fromLayer : rowsContext.FromLayer where
  axisOutputs := by decide
  outputs := rfl
  constants := rfl
  biases := rfl
  biasCount := rfl
  constantKeys := rfl
  biasKeys := rfl

/-- A proof with the given evaluations, whose sumcheck leaves 2. -/
def rowsProof (e : List (ZMod 7)) : EinSumProof sevenCrypto := ⟨[], ⟨[2], 2⟩, e, none⟩

/-- Four evaluations, two for each matrix. -/
theorem rows_wellShaped : ∃ after info t',
    rowsContext.runSumcheck sevenCrypto eqEvals (rowsProof [1, 1, 2, 2]) [⟨[3], 0⟩] rowsStep [] =
        .ok after ∧
      rowsContext.finish sevenCrypto (rowsProof [1, 1, 2, 2]) after = .ok (info, t') ∧
      WellShaped rowsContext (rowsProof [1, 1, 2, 2]) after info t' := by
  have hverify : rowsContext.verifyInternal sevenCrypto eqEvals (rowsProof [1, 1, 2, 2]) [⟨[3], 0⟩]
      rowsStep [] = .ok (⟨[⟨[2, 3], 1⟩, ⟨[2, 3], 2⟩], ∅⟩, _) := rfl
  obtain ⟨after, hrun, hfinish, hiff⟩ := verifyInternal_wellShaped_iff
    (idealCrypto_lawful (plainCrypto_lawful _)) rowsContext_fromLayer hverify
  refine ⟨after, _, _, hrun, hfinish, hiff.mpr ⟨⟨?_, ?_, ?_⟩, ?_, ?_⟩⟩
  all_goals decide

/-- Two more evaluations: the claim about the second matrix is about 2 and 0, while 2 and 2 were
    checked. -/
theorem rows_detached :
    rowsContext.verifyInternal sevenCrypto eqEvals (rowsProof [1, 1, 2, 2, 0, 0]) [⟨[3], 0⟩] rowsStep
        [] = .ok (⟨[⟨[2, 3], 1⟩, ⟨[2, 3], 3⟩], ∅⟩, [0]) ∧
      ∀ after, rowsContext.runSumcheck sevenCrypto eqEvals (rowsProof [1, 1, 2, 2, 0, 0]) [⟨[3], 0⟩]
        rowsStep [] = .ok after →
      ¬ WellShaped rowsContext (rowsProof [1, 1, 2, 2, 0, 0]) after
        ⟨[⟨[2, 3], 1⟩, ⟨[2, 3], 3⟩], ∅⟩ [0] := by
  refine ⟨rfl, fun after hrun hshaped => ?_⟩
  have hverify : rowsContext.verifyInternal sevenCrypto eqEvals (rowsProof [1, 1, 2, 2, 0, 0])
      [⟨[3], 0⟩] rowsStep [] = .ok (⟨[⟨[2, 3], 1⟩, ⟨[2, 3], 3⟩], ∅⟩, [0]) := rfl
  rw [verifyInternal, hrun, Outcome.ok_bind] at hverify
  have hhalf := ((wellShaped_iff (idealCrypto_lawful (plainCrypto_lawful _)) rowsContext_fromLayer
    hrun hverify).mp hshaped).fits.half
  have hdifferent : ¬ 6 / 2 = (rowsMapping.stackingSizes [2, 2]).length *
      (rowsMapping.stackingSizes [2, 2]).headD 0 := by decide
  exact hdifferent hhalf

end TwoRows

end EinSumContext

end DeepProve
