import DeepProve.Lookup.Combine
import DeepProve.Lookup.DimWeights

/-!
# The claim about the input of a lookup

The blocks of a witness are padded with the padding value, scaled and rounded before they are
decomposed. `produce_input_claims` undoes all of this, so that the claim that is left is about the
input itself, filled up with zeros.
-/

namespace DeepProve

open Multilinear (eqWeight ltWeight)

/-! ## The value of a block -/

section Block

variable {F : Type} [Field F] {lead tail : Shape} {secondLastDim lastDim : Nat}

/-- An entry of the padded last dimensions. -/
theorem LastDims.paddedEntry_eq (h : LastDims lead tail secondLastDim lastDim) {chunk : List Int}
    {i : Nat} (hi : i < nextPowerOfTwo secondLastDim * nextPowerOfTwo lastDim) :
    paddedEntry tail chunk i =
      if i / nextPowerOfTwo lastDim < secondLastDim ∧ i % nextPowerOfTwo lastDim < lastDim then
        chunk.getD (i / nextPowerOfTwo lastDim * lastDim + i % nextPowerOfTwo lastDim) 0
      else
        0 := by
  cases h with
  | vector =>
    have hone : nextPowerOfTwo 1 = 1 := rfl
    rw [hone, Nat.one_mul] at hi
    rw [paddedEntry_vector, Nat.div_eq_of_lt hi, Nat.mod_eq_of_lt hi]
    simp
  | matrix =>
    have hsize : (Shape.nextPowerOfTwo [lastDim]).numel = nextPowerOfTwo lastDim := by
      simp [Shape.nextPowerOfTwo, Shape.numel]
    rw [paddedEntry, hsize, paddedEntry_vector]
    by_cases hrow : i / nextPowerOfTwo lastDim < secondLastDim
    · by_cases hcol : i % nextPowerOfTwo lastDim < lastDim
      · rw [if_pos hrow, if_pos hcol, if_pos ⟨hrow, hcol⟩]
        simp [hcol]
      · rw [if_pos hrow, if_neg hcol, if_neg fun h => hcol h.2]
    · rw [if_neg hrow, if_neg fun h => hrow h.1]

/-- The weight of the entries that are not padding. -/
theorem LastDims.eval_inside (h : LastDims lead tail secondLastDim lastDim) {z : List F}
    (hz : z.length = tail.dimVars.sum) :
    Multilinear.eval (fun i => if i / nextPowerOfTwo lastDim < secondLastDim ∧
        i % nextPowerOfTwo lastDim < lastDim then (1 : F) else 0) z =
      ltProd (dimEntries tail z) := by
  have hle : ∀ d : Nat, d ≤ 2 ^ ceilLog2 d := fun d => Nat.le_pow_clog (by decide) d
  have hsum := h.vars_eq
  rw [← hz] at hsum
  obtain ⟨htake, hdrop⟩ := splits_of_length hsum
  have hjoin := List.take_append_drop (z.length - ceilLog2 secondLastDim) z
  have hrows : secondLastDim ≤ 2 ^ (z.drop (z.length - ceilLog2 secondLastDim)).length :=
    hdrop.symm ▸ hle _
  have hcolumns : lastDim ≤ 2 ^ (z.take (z.length - ceilLog2 secondLastDim)).length :=
    htake.symm ▸ hle _
  have hmain := Multilinear.eval_lt_lt hrows hcolumns
  rw [hjoin, htake] at hmain
  refine hmain.trans ?_
  cases h with
  | vector =>
    have hone : ceilLog2 1 = 0 := rfl
    rw [hone, Nat.sub_zero, List.drop_length, List.take_length]
    rw [hone, Nat.zero_add] at hsum
    simp [dimEntries, Shape.splitSlices, Shape.dimVars, ltProd, ltWeight, eqWeight, hsum]
  | matrix =>
    rw [dimEntries_cons, dimEntries_cons, htake, Nat.sub_self, List.drop_zero]
    simp [dimEntries, Shape.splitSlices, Shape.dimVars, ltProd]

variable (lookupOp : LookupOp)

/-- The value of a block, from that of the padded sub tensor: the padding is filled in, and
    everything is scaled and rounded. -/
theorem LastDims.eval_block (h : LastDims lead tail secondLastDim lastDim) {z : List F}
    (hz : z.length = tail.dimVars.sum) (chunk : List Int) :
    Multilinear.eval (fun i =>
        ((lookupOp.rescale (lookupOp.blockEntry secondLastDim lastDim chunk i) : Int) : F)) z =
      ((lookupOp.fixedPointMultiplier : Int) : F) *
        (Multilinear.eval (fun i => ((paddedEntry tail chunk i : Int) : F)) z +
          ((lookupOp.paddingValue : Int) : F) * (1 - ltProd (dimEntries tail z))) +
        ((lookupOp.roundingConstant : Int) : F) := by
  have hsize : 2 ^ z.length = nextPowerOfTwo secondLastDim * nextPowerOfTwo lastDim := by
    rw [hz, h.vars_eq, pow_add]
    rfl
  have hentry : ∀ i < 2 ^ z.length,
      ((lookupOp.rescale (lookupOp.blockEntry secondLastDim lastDim chunk i) : Int) : F) =
        ((lookupOp.fixedPointMultiplier : Int) : F) * (((paddedEntry tail chunk i : Int) : F) +
          ((lookupOp.paddingValue : Int) : F) * (1 + -1 *
            if i / nextPowerOfTwo lastDim < secondLastDim ∧ i % nextPowerOfTwo lastDim < lastDim
            then 1 else 0)) + ((lookupOp.roundingConstant : Int) : F) := by
    intro i hi
    rw [h.paddedEntry_eq (hsize ▸ hi), LookupOp.rescale, LookupOp.blockEntry]
    split
    · push_cast
      ring
    · push_cast
      ring
  rw [Multilinear.eval_congr hentry, Multilinear.eval_add, Multilinear.eval_mul_left,
    Multilinear.eval_add, Multilinear.eval_mul_left, Multilinear.eval_add, Multilinear.eval_mul_left,
    h.eval_inside hz, Multilinear.eval_const, Multilinear.eval_const]
  ring

end Block

/-! ## The sum of the chunks -/

section Evaluations

variable {F : Type} [Field F] [DecidableEq F] {info : ChunkingInfo}

/-- The evaluations of a chunk combine to a value. -/
def CombinesTo (info : ChunkingInfo) (chunkEvals : List F) (value : F) : Prop :=
  ∃ evals, splitChunkEvals info chunkEvals = .ok evals ∧ evals.combine info = .ok value

/-- One more chunk is added to the evaluation of the input. -/
theorem updateForChunk_standard {self : LookupEvaluations F} {chunkEvals : List F} {value acc : F}
    (hacc : self.inputClaimEvals = [acc]) (h : CombinesTo info chunkEvals value)
    (shiftEvals : Option (List F)) (additionalEvals : List F) (numberOfChunks chunkIdx : Nat)
    (challenge : F) :
    ∃ self', LookupEvaluations.updateForChunk .standard info shiftEvals additionalEvals
        numberOfChunks self (chunkIdx, chunkEvals, challenge) = .ok self' ∧
      self'.inputClaimEvals = [acc + challenge * value] := by
  obtain ⟨evals, hsplit, hcombine⟩ := h
  simp only [LookupEvaluations.updateForChunk, hsplit, Outcome.ok_bind, hcombine, hacc, addToEval,
    List.getElem?_cons_zero, unwrap_some, List.set_cons_zero, mul_comm value]
  exact ⟨_, rfl, rfl⟩

/-- The evaluation of the input is the sum over the chunks. -/
theorem updateForChunks_standard {chunks : List (List F)} {values : List F}
    (h : List.Forall₂ (CombinesTo info) chunks values) {indices : List Nat} {challenges : List F}
    (hindices : indices.length = chunks.length) (hchallenges : challenges.length = chunks.length)
    {self : LookupEvaluations F} {acc : F} (hacc : self.inputClaimEvals = [acc])
    (shiftEvals : Option (List F)) (additionalEvals : List F) (numberOfChunks : Nat) :
    ∃ self', (indices.zip (chunks.zip challenges)).foldlM
        (LookupEvaluations.updateForChunk .standard info shiftEvals additionalEvals numberOfChunks)
        self = .ok self' ∧
      self'.inputClaimEvals =
        [acc + ((challenges.zip values).map fun (challenge, value) => challenge * value).sum] := by
  induction h generalizing indices challenges self acc with
  | nil =>
    obtain rfl := List.length_eq_zero_iff.mp hchallenges
    refine ⟨self, by simp [pure, Except.pure], ?_⟩
    simpa using hacc
  | @cons chunk value chunks values hchunk _ ih =>
    cases indices with
    | nil => cases hindices
    | cons index indices =>
      cases challenges with
      | nil => cases hchallenges
      | cons challenge challenges =>
        obtain ⟨self', hstep, hacc'⟩ := updateForChunk_standard hacc hchunk shiftEvals
          additionalEvals numberOfChunks index challenge
        obtain ⟨self'', hrest, hacc''⟩ := ih (Nat.succ.inj hindices) (Nat.succ.inj hchallenges) hacc'
        refine ⟨self'', ?_, ?_⟩
        · rw [List.zip_cons_cons, List.zip_cons_cons, List.foldlM_cons, hstep, Outcome.ok_bind, hrest]
        · rw [hacc'', List.zip_cons_cons, List.map_cons, List.sum_cons, add_assoc]

end Evaluations

/-! ## The input claim -/

section InputClaim

variable {F : Type} [Field F]

/-- Weighted sums of affine functions. -/
theorem sum_zip_affine {α : Type} {weights : List F} {xs : List α} {f g : α → F} {a b : F}
    (hf : ∀ x ∈ xs, f x = a * g x + b) (hlength : weights.length = xs.length) :
    ((weights.zip (xs.map f)).map fun (weight, value) => weight * value).sum =
      a * ((weights.zip xs).map fun (weight, x) => weight * g x).sum + b * weights.sum := by
  induction xs generalizing weights with
  | nil =>
    rw [List.length_eq_zero_iff.mp hlength]
    simp
  | cons x xs ih =>
    cases weights with
    | nil => cases hlength
    | cons weight weights =>
      obtain ⟨hx, hxs⟩ := List.forall_mem_cons.mp hf
      simp only [List.map_cons, List.zip_cons_cons, List.sum_cons, hx, ih hxs (Nat.succ.inj hlength)]
      ring

/-- The weighted sum of the values of all blocks. -/
theorem LookupOp.sum_blocks (lookupOp : LookupOp) {lead tail : Shape} {secondLastDim lastDim : Nat}
    (h : LastDims lead tail secondLastDim lastDim) {z hi : List F}
    (hz : z.length = tail.dimVars.sum) (hhi : hi.length = lead.dimVars.sum) (htail : 0 < tail.prod)
    {input : List Int} (hinput : input.length = lead.prod * tail.prod) :
    (((leadWeights (dimEntries lead hi)).zip ((pieces input tail.prod).map fun chunk =>
        Multilinear.eval (fun i => ((lookupOp.rescale
          (lookupOp.blockEntry secondLastDim lastDim chunk i) : Int) : F)) z)).map
            fun (weight, value) => weight * value).sum =
      ((lookupOp.fixedPointMultiplier : Int) : F) *
          Multilinear.eval (fun i => ((paddedEntry (lead ++ tail) input i : Int) : F)) (z ++ hi) +
        (((lookupOp.fixedPointMultiplier : Int) : F) * (((lookupOp.paddingValue : Int) : F) *
          (1 - ltProd (dimEntries tail z))) + ((lookupOp.roundingConstant : Int) : F)) *
            ltProd (dimEntries lead hi) := by
  have hlength : (leadWeights (dimEntries lead hi)).length = (pieces input tail.prod).length := by
    rw [length_leadWeights, pieces_of_length htail hinput, List.length_map, List.length_range]
  rw [eval_paddedEntry hz hhi htail hinput, ← sum_leadWeights (dimEntries lead hi)]
  apply sum_zip_affine
    (g := fun chunk => Multilinear.eval (fun i => ((paddedEntry tail chunk i : Int) : F)) z) _ hlength
  intro chunk _
  rw [h.eval_block lookupOp hz chunk, mul_add, add_assoc]

/-- The evaluations of all columns of a witness. -/
def witnessEvals (info : ChunkingInfo) (witness : LookupOpWitness) (z : List F) : List F :=
  (witness.chunkedInputs.zip witness.chunkedOutputs).flatMap fun (chunkedInput, chunkedOutput) =>
    (blockColumns info chunkedInput chunkedOutput).toList.map fun column =>
      columnEval z (toField F column)

variable [DecidableEq F] {lookupOp : LookupOp} {lead tail : Shape} {secondLastDim lastDim : Nat}
  {lo hi z : List F} {eval : F}

/-- The rounding constant, the multiplier and the padding are undone. -/
theorem inputEvalOf_eq_ok (h : LastDims lead tail secondLastDim lastDim)
    (hdims : ∀ d ∈ (lead ++ tail : Shape), 0 < d ∧ ceilLog2 d ≤ 64)
    (hlo : lo.length = tail.dimVars.sum) (hhi : hi.length = lead.dimVars.sum)
    (hz : z.length = tail.dimVars.sum)
    (hfpm : ((lookupOp.fixedPointMultiplier : Int) : F) ≠ 0)
    (heval : eval = ((lookupOp.fixedPointMultiplier : Int) : F) * value +
      (((lookupOp.fixedPointMultiplier : Int) : F) * (((lookupOp.paddingValue : Int) : F) *
        (1 - ltProd (dimEntries tail z))) + ((lookupOp.roundingConstant : Int) : F)) *
          ltProd (dimEntries lead hi)) :
    LookupVariant.inputEvalOf (lead ++ tail) lookupOp (lo ++ hi) z eval =
      .ok ⟨z ++ hi, value⟩ := by
  have hsum : (lo ++ hi).length = (Shape.dimVars (lead ++ tail)).sum := by
    rw [List.length_append, hlo, hhi, Shape.dimVars, Shape.dimVars, Shape.dimVars, List.map_append,
      List.sum_append, Nat.add_comm]
  have hsum' : (z ++ hi).length = (Shape.dimVars (lead ++ tail)).sum := by
    rw [← hsum, List.length_append, List.length_append, hz, hlo]
  have hcomplete : LookupVariant.completePoint z (lo ++ hi) = .ok (z ++ hi) := by
    have hslice : sliceFrom (lo ++ hi) z.length = .ok hi := by
      rw [sliceFrom_eq_ok, hz, ← hlo]
      exact ⟨by simp, List.drop_left.symm⟩
    unfold LookupVariant.completePoint
    rw [hslice]
    rfl
  have hinv : ChunkingInfo.inverseOf ((lookupOp.fixedPointMultiplier : Int) : F)
      "Tried to invert 0 as fixed point multiplier" =
        .ok ((lookupOp.fixedPointMultiplier : Int) : F)⁻¹ := if_neg hfpm
  unfold LookupVariant.inputEvalOf
  simp only [Shape.splitPoint_eq_ok _ hsum, Outcome.ok_bind, h.rank_sub, List.drop_left,
    broadcastingEvaluation_eq_ok hlo hhi hdims, hinv, hcomplete]
  have hscaled : (eval - ltProd (dimEntries lead hi) * ((lookupOp.roundingConstant : Int) : F)) *
      ((lookupOp.fixedPointMultiplier : Int) : F)⁻¹ = value +
        ltProd (dimEntries lead hi) * (1 - ltProd (dimEntries tail z)) *
          ((lookupOp.paddingValue : Int) : F) := by
    rw [heval, mul_inv_eq_iff_eq_mul₀ hfpm]
    ring
  split
  · simp only [Shape.splitPoint_eq_ok _ hsum', Outcome.ok_bind,
      computeLookupPaddingEvaluation_eq_ok h hz hhi hdims, hscaled, add_sub_cancel_right]
  · next hzero =>
    have hzero : lookupOp.paddingValue = 0 := not_not.mp hzero
    rw [hscaled, hzero, Int.cast_zero, mul_zero, add_zero]

omit [Field F] [DecidableEq F] in
theorem LastDims.eq_nextPowerOfTwo (h : LastDims lead tail secondLastDim lastDim)
    (hall : tail.all Shape.isPowerOfTwo = true) :
    secondLastDim = nextPowerOfTwo secondLastDim ∧ lastDim = nextPowerOfTwo lastDim := by
  have hpow : ∀ d ∈ tail, d = nextPowerOfTwo d := fun d hd =>
    beq_iff_eq.mp (List.all_eq_true.mp hall d hd)
  cases h with
  | vector => exact ⟨rfl, hpow _ List.mem_cons_self⟩
  | matrix => exact ⟨hpow _ List.mem_cons_self, hpow _ (by simp)⟩

theorem ceilLog2_le {d : Nat} (h : d ≤ 2 ^ 63) : ceilLog2 d ≤ 64 :=
  (Nat.clog_le_of_le_pow h).trans (by decide)

/-- A block of the witness, with the evaluations of its columns. -/
theorem combinesTo_block {fl : Float32Ops} {table : Table} {info : ChunkingInfo}
    {chunk : List Int} {chunkedOutput : ChunkedOutput}
    (hinfo : lookupOp.chunkingInfo table = .ok info) (h2 : (2 : F) ≠ 0)
    (h : LastDims lead tail secondLastDim lastDim) (hlast : 0 < lastDim)
    (hz : z.length = tail.dimVars.sum) (hchunk : chunk.length = secondLastDim * lastDim)
    (hrange : ∀ x ∈ chunk, info.DecompositionRange (lookupOp.rescale x))
    (hpadding : tail.all Shape.isPowerOfTwo = true ∨
      info.DecompositionRange (lookupOp.rescale lookupOp.paddingValue))
    (houtput : info.tableOutput fl
      (info.decomposeInput (lookupOp.blockData secondLastDim lastDim chunk)) table =
        .ok chunkedOutput) :
    CombinesTo info ((blockColumns info
        (info.decomposeInput (lookupOp.blockData secondLastDim lastDim chunk))
        chunkedOutput).toList.map fun column => columnEval z (toField F column))
      (Multilinear.eval (fun i =>
        ((lookupOp.rescale (lookupOp.blockEntry secondLastDim lastDim chunk i) : Int) : F)) z) := by
  have hsize : 2 ^ z.length = nextPowerOfTwo secondLastDim * nextPowerOfTwo lastDim := by
    rw [hz, h.vars_eq, pow_add]
    rfl
  rw [lookupOp.blockData_eq hlast hchunk, ← hsize] at houtput ⊢
  refine combine_blockColumns (ChunkingInfo.isNew_of_new_eq_ok hinfo) h2 (fun i hi => ?_) houtput
  unfold LookupOp.blockEntry
  split
  · next hinside =>
    apply hrange
    have hlt : i / nextPowerOfTwo lastDim * lastDim + i % nextPowerOfTwo lastDim <
        chunk.length := by
      have hle : (i / nextPowerOfTwo lastDim + 1) * lastDim ≤ secondLastDim * lastDim :=
        Nat.mul_le_mul_right _ hinside.1
      rw [Nat.succ_mul] at hle
      omega
    rw [List.getD_eq_getElem?_getD, List.getElem?_eq_getElem hlt]
    exact List.getElem_mem hlt
  · next hinside =>
    -- there is padding, so the dimensions are no powers of two
    apply hpadding.resolve_left
    intro hall
    apply hinside
    obtain ⟨hsecondPow, hlastPow⟩ := h.eq_nextPowerOfTwo hall
    rw [hsize] at hi
    constructor
    · conv => rhs; rw [hsecondPow]
      exact Nat.div_lt_of_lt_mul (Nat.mul_comm _ _ ▸ hi)
    · conv => rhs; rw [hlastPow]
      exact Nat.mod_lt _ (Nat.two_pow_pos _)

variable {fl : Float32Ops} {table : Table} {info : ChunkingInfo} {shape : Shape}
  {input : List Int} {witness : LookupOpWitness}

/-- The evaluations of a witness are cut into those of its blocks, which combine to the values of
    the blocks. -/
theorem combinesTo_witness (hinfo : lookupOp.chunkingInfo table = .ok info) (h2 : (2 : F) ≠ 0)
    (h : LastDims lead tail secondLastDim lastDim)
    (hinput : input.length = lead.prod * tail.prod)
    (hrange : ∀ x ∈ input, info.DecompositionRange (lookupOp.rescale x))
    (hpadding : tail.all Shape.isPowerOfTwo = true ∨
      info.DecompositionRange (lookupOp.rescale lookupOp.paddingValue))
    (hwitness : lookupOp.generateWitness fl (lead ++ tail) input table = .ok witness)
    (hz : z.length = tail.dimVars.sum) :
    List.Forall₂ (CombinesTo info)
      (pieces (witnessEvals info witness z) (info.totalInputsPerChunk + info.totalOutputsPerChunk))
      ((pieces input tail.prod).map fun chunk => Multilinear.eval (fun i =>
        ((lookupOp.rescale (lookupOp.blockEntry secondLastDim lastDim chunk i) : Int) : F)) z) := by
  obtain ⟨secondLastDim', lastDim', info', hdims', hsecond, hlast, hinfo', hinputs, houtputs⟩ :=
    lookupOp.generateWitness_eq_ok hwitness
  obtain rfl := Except.ok.inj (hinfo.symm.trans hinfo')
  obtain ⟨rfl, rfl⟩ := Prod.mk.inj (Except.ok.inj (h.lastDims_eq.symm.trans hdims'))
  have hprod := h.prod_eq
  have hsize : 0 < secondLastDim * lastDim := Nat.mul_pos hsecond hlast
  rw [hprod] at hinput ⊢
  rw [hinputs, List.forall₂_map_left_iff] at houtputs
  have hblocks : List.Forall₂ (fun chunk chunkedOutput =>
      BlockFits info (lookupOp.blockData secondLastDim lastDim chunk).length
          (info.decomposeInput (lookupOp.blockData secondLastDim lastDim chunk)) chunkedOutput ∧
        CombinesTo info ((blockColumns info
            (info.decomposeInput (lookupOp.blockData secondLastDim lastDim chunk))
            chunkedOutput).toList.map fun column => columnEval z (toField F column))
          (Multilinear.eval (fun i =>
            ((lookupOp.rescale (lookupOp.blockEntry secondLastDim lastDim chunk i) : Int) : F)) z))
      (pieces input (secondLastDim * lastDim)) witness.chunkedOutputs := by
    have hmem : ∀ chunk ∈ pieces input (secondLastDim * lastDim),
        chunk ∈ pieces input (secondLastDim * lastDim) := fun _ h => h
    apply ((List.forall₂_and_left _ _).mpr ⟨hmem, houtputs⟩).imp
    intro chunk chunkedOutput ⟨hchunk, houtput⟩
    refine ⟨blockFits_of_tableOutput houtput, ?_⟩
    apply combinesTo_block hinfo h2 h hlast hz (length_of_mem_pieces hsize hinput hchunk) _ hpadding
      houtput
    exact fun x hx => hrange x (mem_of_mem_pieces hchunk hx)
  have hpos : 0 < info.totalInputsPerChunk + info.totalOutputsPerChunk := by
    have hshifted := (ChunkingInfo.isNew_of_new_eq_ok hinfo).numberOfShiftedChunks_pos
    rw [ioLookups_eq]
    omega
  unfold witnessEvals
  rw [hinputs]
  generalize pieces input (secondLastDim * lastDim) = blocks at hblocks
  clear houtputs hinputs hwitness
  generalize witness.chunkedOutputs = outputs at hblocks
  induction hblocks with
  | nil =>
    rw [List.map_nil, List.zip_nil_left, List.flatMap_nil, pieces_nil]
    exact List.Forall₂.nil
  | cons hblock _ ih =>
    rw [List.map_cons, List.zip_cons_cons, List.flatMap_cons, pieces_append hpos, List.map_cons]
    · exact List.Forall₂.cons hblock.2 ih
    · rw [List.length_map, hblock.1.length_toList]

/-- The first input claim of a lookup is about the input, filled up with zeros. -/
theorem produceInputClaims_standard {evals : List F → List F} {lastClaimPoint logupPoint
    sumcheckPoint eqPoint batchingChallenges sumcheckEvals : List F}
    (hvariant : lookupOp.variant = .standard)
    (hinfo : lookupOp.chunkingInfo table = .ok info) (h2 : (2 : F) ≠ 0)
    (hfpm : ((lookupOp.fixedPointMultiplier : Int) : F) ≠ 0)
    (hdims : ∀ d ∈ shape, 0 < d ∧ d ≤ 2 ^ 63) (hinput : input.length = shape.prod)
    (hrange : ∀ x ∈ input, info.DecompositionRange (lookupOp.rescale x))
    (hpadding : (shape.drop (shape.rank - 2)).all Shape.isPowerOfTwo = true ∨
      info.DecompositionRange (lookupOp.rescale lookupOp.paddingValue))
    (hwitness : lookupOp.generateWitness fl shape input table = .ok witness)
    (hevals : ∀ point, evals point = (List.range (2 ^ point.length)).map (eqWeight point))
    (hlastClaim : lastClaimPoint.length = shape.dimVars.sum)
    (hlogup : logupPoint.length = (Shape.dimVars (shape.drop (shape.rank - 2))).sum)
    (hsumcheck : sumcheckPoint.length ≤ lastClaimPoint.length)
    (hbatch : shape.computeEqPointAndBatchingChallenges evals lastClaimPoint =
      .ok (eqPoint, batchingChallenges))
    (houtputs : info.totalOutputsPerChunk * (lookupOp.inputConfig info shape).numberOfChunks ≤
      sumcheckEvals.length) (shiftEvals : Option (List F)) :
    ∃ result, (lookupOp.inputConfig info shape).constructLookupEvaluations
        (witnessEvals info witness logupPoint) sumcheckEvals batchingChallenges shiftEvals =
          .ok result ∧
      lookupOp.variant.produceInputClaims shape lookupOp lastClaimPoint logupPoint sumcheckPoint
        result.inputClaimEvals = .ok [⟨logupPoint ++ lastClaimPoint.drop logupPoint.length,
          Multilinear.eval (fun i => ((paddedEntry shape input i : Int) : F))
            (logupPoint ++ lastClaimPoint.drop logupPoint.length)⟩] := by
  obtain ⟨secondLastDim, lastDim, _, hlastDims, hsecond, hlast, _⟩ :=
    lookupOp.generateWitness_eq_ok hwitness
  obtain ⟨lead, tail, rfl, h⟩ := lastDims_cases hlastDims
  rw [h.rank_sub, List.drop_left] at hpadding hlogup
  have hdims : ∀ d ∈ (lead ++ tail : Shape), 0 < d ∧ ceilLog2 d ≤ 64 :=
    fun d hd => ⟨(hdims d hd).1, ceilLog2_le (hdims d hd).2⟩
  have hcount : (lookupOp.inputConfig info (lead ++ tail)).numberOfChunks = lead.prod := by
    show ((lead ++ tail).take (Shape.rank (lead ++ tail) - 2)).prod = lead.prod
    rw [h.rank_sub, List.take_left]
  have htail : 0 < tail.prod := by
    rw [h.prod_eq]
    exact Nat.mul_pos hsecond hlast
  rw [List.prod_append] at hinput
  -- the coordinates of the leading dimensions
  have hsum : (Shape.dimVars (lead ++ tail)).sum = tail.dimVars.sum + lead.dimVars.sum := by
    rw [Shape.dimVars, List.map_append, List.sum_append, Nat.add_comm]
    rfl
  rw [hsum, ← hlogup] at hlastClaim
  have hlo : (lastClaimPoint.take logupPoint.length).length = tail.dimVars.sum := by
    rw [List.length_take, ← hlogup]
    omega
  have hhi : (lastClaimPoint.drop logupPoint.length).length = lead.dimVars.sum := by
    rw [List.length_drop]
    omega
  have hsplit := List.take_append_drop logupPoint.length lastClaimPoint
  generalize lastClaimPoint.take logupPoint.length = lo at hlo hsplit
  generalize lastClaimPoint.drop logupPoint.length = hi at hhi hsplit ⊢
  have hweights := computeEqPointAndBatchingChallenges_eq_ok hevals hlo hhi h.rank_sub
  rw [hsplit] at hweights
  obtain ⟨_, rfl⟩ := Prod.mk.inj (Except.ok.inj (hbatch.symm.trans hweights))
  -- the evaluations of the chunks
  have hcombine := combinesTo_witness hinfo h2 h hinput hrange hpadding hwitness hlogup
  have hpieces : (pieces input tail.prod).length = lead.prod := by
    rw [pieces_of_length htail hinput, List.length_map, List.length_range]
  have hchunks := hcombine.length_eq
  rw [List.length_map, hpieces] at hchunks
  have hindices : (List.range lead.prod).length =
      (pieces (witnessEvals info witness logupPoint)
        (info.totalInputsPerChunk + info.totalOutputsPerChunk)).length := by
    rw [List.length_range, hchunks]
  have hchallenges : (leadWeights (dimEntries lead hi)).length =
      (pieces (witnessEvals info witness logupPoint)
        (info.totalInputsPerChunk + info.totalOutputsPerChunk)).length := by
    rw [length_leadWeights, hchunks]
  have hstart : (⟨[], sumcheckEvals.take (info.totalOutputsPerChunk * lead.prod), [], [0]⟩ :
      LookupEvaluations F).inputClaimEvals = [0] := rfl
  obtain ⟨result, hfold, hclaims⟩ := updateForChunks_standard hcombine hindices hchallenges hstart
    shiftEvals (sumcheckEvals.drop (info.totalOutputsPerChunk * lead.prod)) lead.prod
  refine ⟨result, ?_, ?_⟩
  · have hpos : info.totalInputsPerChunk + info.totalOutputsPerChunk ≠ 0 := by
      have hshifted := (ChunkingInfo.isNew_of_new_eq_ok hinfo).numberOfShiftedChunks_pos
      rw [ioLookups_eq]
      omega
    rw [hcount] at houtputs
    have hnoglu : (if LookupVariant.standard = LookupVariant.glu then [0, 0] else [0] : List F) =
        [0] := if_neg (by decide)
    unfold LookupInputConfig.constructLookupEvaluations
    rw [hcount]
    simp only [LookupOp.inputConfig, splitAtMid_eq_ok.mpr ⟨houtputs, rfl, rfl⟩,
      chunksOf_eq_ok.mpr ⟨hpos, rfl⟩, Outcome.ok_bind, hvariant, hnoglu]
    exact hfold
  · have hclaim := inputEvalOf_eq_ok h hdims hlo hhi hlogup hfpm
      ((zero_add _).trans (lookupOp.sum_blocks h hlogup hhi htail hinput))
    have hrest : sliceFrom (lo ++ hi) sumcheckPoint.length =
        .ok ((lo ++ hi).drop sumcheckPoint.length) :=
      sliceFrom_eq_ok.mpr ⟨hsplit ▸ hsumcheck, rfl⟩
    unfold LookupVariant.produceInputClaims
    simp only [hvariant, hclaims, List.getElem?_cons_zero, unwrap_some, Outcome.ok_bind, ← hsplit,
      hclaim, LookupVariant.completePoint, hrest, List.drop_succ_cons, List.drop_nil, List.take_nil,
      List.map_nil]

end InputClaim

/-! ## A row of three values -/

section PaddedSigns

/-- Three of the four signs, the missing value is filled up. -/
def paddedSignsOp (paddingValue : Int) : LookupOp := { fourSignsOp with paddingValue }

theorem fourSignsInfo_range {value : Int} (hlow : -2 ≤ value) (hhigh : value < 2) :
    fourSignsInfo.DecompositionRange value := by
  show (-2 ^ 63 ≤ value ∧ value < 2 ^ 63) ∧ 0 ≤ value + 2 ∧ value + 2 < 2 ^ 2 ∧
    (64 < 2 → value + 2 < 2 ^ 63)
  omega

theorem paddedSigns_range (paddingValue : Int) :
    ∀ x ∈ ([0, -1, -2] : List Int),
      fourSignsInfo.DecompositionRange ((paddedSignsOp paddingValue).rescale x) := by
  intro x hx
  have hrescale : (paddedSignsOp paddingValue).rescale x = x * 1 + 1 := rfl
  simp only [List.mem_cons, List.not_mem_nil, or_false] at hx
  rw [hrescale]
  apply fourSignsInfo_range <;> omega

/-- A value that is padded with one in the range. -/
theorem paddedSigns_inputClaim :
    ∃ result, ((paddedSignsOp (-3)).inputConfig fourSignsInfo [3]).constructLookupEvaluations
        (witnessEvals fourSignsInfo ⟨[⟨[[2 ^ 15, 0, 2 ^ 15, 0]], [[0, 0, -1, -1]], []⟩],
          [⟨[[0, 0, -1, -1]], []⟩]⟩ [(3 : ZMod 5), 3]) [1] [1] none = .ok result ∧
      LookupVariant.standard.produceInputClaims [3] (paddedSignsOp (-3)) [3, 3] [3, 3] [3, 3]
        result.inputClaimEvals = .ok [⟨[3, 3],
          Multilinear.eval (fun i => ((paddedEntry [3] [0, -1, -2] i : Int) : ZMod 5)) [3, 3]⟩] := by
  have hinfo : (paddedSignsOp (-3)).chunkingInfo fourSignsTable = .ok fourSignsInfo := rfl
  have hwitness : (paddedSignsOp (-3)).generateWitness noFloats [3] [0, -1, -2] fourSignsTable =
      .ok ⟨[⟨[[2 ^ 15, 0, 2 ^ 15, 0]], [[0, 0, -1, -1]], []⟩], [⟨[[0, 0, -1, -1]], []⟩]⟩ := rfl
  have hbatch : Shape.computeEqPointAndBatchingChallenges [3]
      (fun point => (List.range (2 ^ point.length)).map (eqWeight point)) [(3 : ZMod 5), 3] =
        .ok ([3, 3], [1]) := rfl
  have hpadding : fourSignsInfo.DecompositionRange ((paddedSignsOp (-3)).rescale (-3)) :=
    fourSignsInfo_range (by decide) (by decide)
  exact produceInputClaims_standard rfl hinfo (by decide) (by decide) (by decide) rfl
    (paddedSigns_range _) (.inr hpadding) hwitness (fun _ => rfl) rfl rfl (by decide) hbatch
    (by decide) none

/-- The padding is decomposed to another value when it is not in the range. -/
private theorem paddedSigns_sum : (0 : ZMod 5) +
    (([1].zip [0]).map fun (challenge, value) => challenge * value).sum = 0 := by
  decide

theorem paddedSigns_inputClaim_differs :
    ∃ witness result claim,
      (∀ x ∈ ([0, -1, -2] : List Int),
        fourSignsInfo.DecompositionRange ((paddedSignsOp 3).rescale x)) ∧
      (paddedSignsOp 3).generateWitness noFloats [3] [0, -1, -2] fourSignsTable = .ok witness ∧
      Shape.computeEqPointAndBatchingChallenges [3]
        (fun point => (List.range (2 ^ point.length)).map (eqWeight point)) [(3 : ZMod 5), 3] =
          .ok ([3, 3], [1]) ∧
      ((paddedSignsOp 3).inputConfig fourSignsInfo [3]).constructLookupEvaluations
        (witnessEvals fourSignsInfo witness [(3 : ZMod 5), 3]) [1] [1] none = .ok result ∧
      LookupVariant.standard.produceInputClaims [3] (paddedSignsOp 3) [3, 3] [3, 3] [3, 3]
        result.inputClaimEvals = .ok [claim] ∧
      claim.eval ≠
        Multilinear.eval (fun i => ((paddedEntry [3] [0, -1, -2] i : Int) : ZMod 5)) claim.point := by
  have hinverse : ((fourSignsInfo.shiftedChunkMultiplier : Int) : ZMod 5)⁻¹ = 2 :=
    inv_eq_of_mul_eq_one_right (by decide)
  have hshifted : fourSignsInfo.combineShifted (0 : ZMod 5) (4, 0) = .ok 3 := by
    have hnonzero : ¬ ((fourSignsInfo.shiftedChunkMultiplier : Int) : ZMod 5) = 0 := by decide
    unfold ChunkingInfo.combineShifted
    simp only [ChunkingInfo.inverseOf, if_neg hnonzero, hinverse]
    rfl
  have hcombines : CombinesTo fourSignsInfo [(4 : ZMod 5), 1] 0 := by
    refine ⟨⟨[4], [1], []⟩, rfl, ?_⟩
    unfold ChunkEvals.combine ChunkingInfo.combineInputClaims
    simp only [List.zipIdx_cons, List.zipIdx_nil, List.foldlM_cons, List.foldlM_nil, hshifted]
    rfl
  have hcombines : List.Forall₂ (CombinesTo fourSignsInfo) [[(4 : ZMod 5), 1]] [0] := by
    simpa using hcombines
  have hstart : (⟨[], [1], [], [0]⟩ : LookupEvaluations (ZMod 5)).inputClaimEvals = [0] := rfl
  have hindices : [0].length = [[(4 : ZMod 5), 1]].length := rfl
  have hchallenges : [(1 : ZMod 5)].length = [[(4 : ZMod 5), 1]].length := rfl
  obtain ⟨result, hfold, hclaims⟩ :=
    updateForChunks_standard hcombines hindices hchallenges hstart none [] 1
  have heval : (0 : ZMod 5) = (((paddedSignsOp 3).fixedPointMultiplier : Int) : ZMod 5) * 2 +
      ((((paddedSignsOp 3).fixedPointMultiplier : Int) : ZMod 5) *
        ((((paddedSignsOp 3).paddingValue : Int) : ZMod 5) * (1 - ltProd (dimEntries [3] [3, 3]))) +
          (((paddedSignsOp 3).roundingConstant : Int) : ZMod 5)) * ltProd (dimEntries [] []) := by
    decide
  have hlength : ([3, 3] : List (ZMod 5)).length = (Shape.dimVars [3]).sum := rfl
  have hclaim : LookupVariant.inputEvalOf [3] (paddedSignsOp 3) [(3 : ZMod 5), 3] [3, 3] 0 =
      .ok ⟨[3, 3], 2⟩ :=
    inputEvalOf_eq_ok (.vector 3) (by decide) hlength rfl hlength (by decide) heval
  refine ⟨_, result, ⟨[3, 3], 2⟩, paddedSigns_range 3, rfl, rfl, hfold, ?_, by decide⟩
  rw [hclaims]
  unfold LookupVariant.produceInputClaims
  rw [paddedSigns_sum, List.getElem?_cons_zero, unwrap_some, Outcome.ok_bind]
  dsimp only
  rw [hclaim]
  rfl

end PaddedSigns

end DeepProve
