import DeepProve.EinSum.Equation

/-!
# The evaluation of a broadcast bias

The bias of an Einstein summation has some of the axes of the output, in an order of its own, and is
added along the others. Its evaluation at the coordinates of its own axes is turned into that of the
broadcast tensor: an axis that the bias lacks compares the coordinates with the size.
-/

namespace DeepProve

open Outcome Multilinear

/-- The coordinates of the slices, the last slice first. -/
theorem foldlM_concat {F : Type} (slices : List (List F)) (msg : String) :
    (slices.map some).reverse.foldlM (fun (point : List F) slice => do
        let slice ← okOr slice msg
        .ok (point ++ slice)) [] = .ok slices.reverse.flatten := by
  rw [← List.map_reverse]
  refine foldlM_eq_ok_of_prefix (fun pre => pre.reduceOption.flatten) rfl ?_ |>.trans ?_
  · intro pre slice post hslices
    obtain ⟨slice, _, rfl⟩ := List.mem_map.mp
      (hslices ▸ List.mem_append_right _ (List.mem_cons_self ..) : slice ∈ slices.reverse.map some)
    simp [List.reduceOption_append]
  · simp [List.reduceOption]

/-! ## The axes of the output and the bias -/

section Axes

variable {F : Type} {outDims biasDims : List Char}

/-- The places of the axes of the bias, with the coordinates there. -/
def biasEntries (biasDims : List Char) (point : Char → List F) (names : List Char) :
    List (Nat × Option (List F)) :=
  (names.filter (· ∈ biasDims)).map fun c => (biasDims.idxOf c, some (point c))

/-- Each axis of the bias is set once. -/
theorem placed_biasEntries {names : List Char} (hnames : names.Nodup) (hnodup : biasDims.Nodup)
    (hsub : ∀ c ∈ biasDims, c ∈ names) (point : Char → List F) :
    placed none (biasEntries biasDims point names) = (biasDims.map point).map some := by
  rw [List.map_map]
  apply placed_eq_map
  · rw [biasEntries, List.map_map]
    refine List.Nodup.map_on ?_ (hnames.filter _)
    intro c hc c' _ heq
    exact (List.idxOf_inj (of_decide_eq_true (List.mem_filter.mp hc).2)).mp heq
  · intro entry hentry
    obtain ⟨c, hc, rfl⟩ := List.mem_map.mp hentry
    exact List.idxOf_lt_length_iff.mpr (of_decide_eq_true (List.mem_filter.mp hc).2)
  · intro i c hc
    obtain ⟨hi, hget⟩ := List.getElem?_eq_some_iff.mp hc
    have hmem : c ∈ biasDims := List.mem_of_getElem? hc
    refine List.mem_map.mpr ⟨c, List.mem_filter.mpr ⟨hsub c hmem, decide_eq_true hmem⟩, ?_⟩
    rw [← hget, hnodup.idxOf_getElem]
    rfl

variable [CommRing F]

/-- The comparisons of the axes that the bias lacks. -/
def newAxes (outDims biasDims : List Char) (size : Char → Nat) (point : Char → List F)
    (names : List Char) : F :=
  ((names.filter fun c => c ∈ outDims ∧ c ∉ biasDims).map fun c => ltWeight (point c) (size c)).prod

/-- The axes of the mapping that are in the output are those of the output. -/
theorem newAxes_eq {names : List Char} (hnames : names.Nodup) (hnodup : outDims.Nodup)
    (hsub : ∀ c ∈ outDims, c ∈ names) (size : Char → Nat) (point : Char → List F) :
    newAxes outDims biasDims size point names =
      ((outDims.filter (· ∉ biasDims)).map fun c => ltWeight (point c) (size c)).prod := by
  have hperm : (names.filter fun c => c ∈ outDims ∧ c ∉ biasDims).Perm
      (outDims.filter (· ∉ biasDims)) := by
    refine (List.perm_ext_iff_of_nodup (hnames.filter _) (hnodup.filter _)).mpr fun c => ?_
    simp only [List.mem_filter, decide_eq_true_iff]
    have := hsub c
    tauto
  exact (hperm.map _).prod_eq

/-- What the mapping knows of an output and a bias. -/
structure HasBias (m : AxesMapping) (outputId biasId : Nat) (outDims biasDims : List Char) :
    Prop where
  outputId_lt : outputId < m.outputCount
  biasId_lt : biasId < m.biasCount
  names_nodup : (m.axes.map Axis.repr).Nodup
  out_nodup : outDims.Nodup
  bias_nodup : biasDims.Nodup
  bias_sub : ∀ c ∈ biasDims, c ∈ outDims
  out_sub : ∀ c ∈ outDims, c ∈ m.axes.map Axis.repr
  output : ∀ axis ∈ m.axes, axis.outputs[outputId]? = some (Dimension.inTerm outDims axis.repr)
  bias : ∀ axis ∈ m.axes, axis.biases[biasId]? = some (Dimension.inTerm biasDims axis.repr)

omit [CommRing F] in
/-- The mapping that is built from the terms. -/
theorem hasBias_of_fromTerms {inputParts outputParts biasParts : List (List Char)} {m : AxesMapping}
    (hm : AxesMapping.fromTerms inputParts outputParts biasParts = .ok m) {outputId biasId : Nat}
    (hout : outputParts[outputId]? = some outDims) (hbias : biasParts[biasId]? = some biasDims)
    (hnodup : outDims.Nodup) (hbiasNodup : biasDims.Nodup) (hsub : ∀ c ∈ biasDims, c ∈ outDims) :
    HasBias m outputId biasId outDims biasDims := by
  obtain ⟨hnames, hmem, haxes⟩ := fromTerms_axes hm
  obtain ⟨_, houtputs, hbiases⟩ := fromTerms_counts hm
  constructor
  case outputId_lt => exact houtputs ▸ (List.getElem?_eq_some_iff.mp hout).1
  case biasId_lt => exact hbiases ▸ (List.getElem?_eq_some_iff.mp hbias).1
  case names_nodup => exact hnames
  case out_nodup => exact hnodup
  case bias_nodup => exact hbiasNodup
  case bias_sub => exact hsub
  case out_sub =>
    intro c hc
    exact (hmem c).mpr ⟨outDims, List.mem_append_right _ (List.mem_of_getElem? hout), hc⟩
  case output =>
    intro axis haxis
    rw [(ofTerms_places (haxes axis haxis)).2.1, List.getElem?_map, hout]
    rfl
  case bias =>
    intro axis haxis
    rw [(ofTerms_places (haxes axis haxis)).2.2, List.getElem?_map, hbias]
    rfl

end Axes

/-! ## The walk over the axes -/

namespace HasBias

variable {F : Type} {m : AxesMapping} {outputId biasId : Nat} {outDims biasDims : List Char}
  (h : HasBias m outputId biasId outDims biasDims) {point : Char → List F} {size : Char → Nat}

include h

/-- Where an axis is in the output and the bias. -/
theorem cases (axis : Axis) (haxis : axis ∈ m.axes) :
    (axis.repr ∉ outDims ∧ axis.repr ∉ biasDims ∧ axis.outputs[outputId]? = some .absent ∧
      axis.biases[biasId]? = some .absent) ∨
    (∃ outputPos, axis.repr ∈ outDims ∧ axis.repr ∉ biasDims ∧ outDims[outputPos]? = some axis.repr ∧
      axis.outputs[outputId]? = some (.present outputPos) ∧ axis.biases[biasId]? = some .absent) ∨
    ∃ outputPos, axis.repr ∈ biasDims ∧ outDims[outputPos]? = some axis.repr ∧
      axis.outputs[outputId]? = some (.present outputPos) ∧
      axis.biases[biasId]? = some (.present (biasDims.idxOf axis.repr)) := by
  rw [h.output axis haxis, h.bias axis haxis]
  by_cases hout : axis.repr ∈ outDims
  · have hget : outDims[outDims.idxOf axis.repr]? = some axis.repr := List.getElem?_idxOf hout
    rw [(Dimension.inTerm_eq_present h.out_nodup).mpr hget]
    by_cases hbias : axis.repr ∈ biasDims
    · rw [(Dimension.inTerm_eq_present h.bias_nodup).mpr (List.getElem?_idxOf hbias)]
      exact .inr (.inr ⟨_, hbias, hget, rfl, rfl⟩)
    · rw [Dimension.inTerm_eq_absent.mpr hbias]
      exact .inr (.inl ⟨_, hout, hbias, hget, rfl, rfl⟩)
  · have hbias : axis.repr ∉ biasDims := fun hmem => hout (h.bias_sub _ hmem)
    rw [Dimension.inTerm_eq_absent.mpr hout, Dimension.inTerm_eq_absent.mpr hbias]
    exact .inl ⟨hout, hbias, rfl, rfl⟩

/-- The axes of the bias are among those of the mapping. -/
theorem placed_axes (point : Char → List F) :
    placed none (biasEntries biasDims point (m.axes.map Axis.repr)) = (biasDims.map point).map some :=
  placed_biasEntries h.names_nodup h.bias_nodup (fun c hc => h.out_sub c (h.bias_sub c hc)) point

/-- The coordinates of the bias. -/
theorem biasEvaluationPoint_eq :
    m.biasEvaluationPoint outputId biasId (outDims.map point) =
      .ok (biasDims.map point).reverse.flatten := by
  unfold AxesMapping.biasEvaluationPoint
  rw [decide_eq_true h.outputId_lt, decide_eq_true h.biasId_lt, ensure_true, ensure_true,
    Outcome.ok_bind, Outcome.ok_bind]
  refine bind_eq_ok.mpr ⟨_, foldlM_eq_ok_of_prefix
    (fun pre => placed none (biasEntries biasDims point (pre.map Axis.repr))) rfl ?_, ?_⟩
  · intro pre axis post haxes
    have haxis : axis ∈ m.axes := haxes ▸ List.mem_append_right _ (List.mem_cons_self ..)
    rcases h.cases axis haxis with ⟨_, hbias, houtput, hbiasDim⟩ |
      ⟨pos, _, hbias, _, houtput, hbiasDim⟩ | ⟨pos, hbias, hget, houtput, hbiasDim⟩
    · simp [houtput, hbiasDim, biasEntries, hbias]
    · simp [houtput, hbiasDim, biasEntries, hbias]
    · simp [houtput, hbiasDim, biasEntries, hbias, hget, placed]
  · rw [h.placed_axes, foldlM_concat]

variable [CommRing F]

/-- The comparisons and the coordinates of the bias. -/
theorem computeBiasEvaluation_eq (biasEval : F)
    (hsize : ∀ c ∈ outDims, 0 < size c ∧ size c ≤ 2 ^ (point c).length ∧ (point c).length ≤ 64) :
    m.computeBiasEvaluation outputId biasId (outDims.map point) biasEval (outDims.map size) =
      .ok (biasEval * ((outDims.filter (· ∉ biasDims)).map fun c => ltWeight (point c) (size c)).prod,
        ⟨(biasDims.map point).reverse.flatten, biasEval⟩) := by
  unfold AxesMapping.computeBiasEvaluation
  refine bind_eq_ok.mpr ⟨_, foldlM_eq_ok_of_prefix
    (fun pre => (biasEval * newAxes outDims biasDims size point (pre.map Axis.repr),
      placed none (biasEntries biasDims point (pre.map Axis.repr)))) ?_ ?_, ?_⟩
  · rw [List.map_nil, newAxes, List.filter_nil, List.map_nil, List.prod_nil, mul_one]
    rfl
  · intro pre axis post haxes
    have haxis : axis ∈ m.axes := haxes ▸ List.mem_append_right _ (List.mem_cons_self ..)
    rcases h.cases axis haxis with ⟨hout, hbias, houtput, hbiasDim⟩ |
      ⟨pos, hout, hbias, hget, houtput, hbiasDim⟩ | ⟨pos, hbias, hget, houtput, hbiasDim⟩
    · simp [houtput, hbiasDim, biasEntries, newAxes, hout, hbias]
    · obtain ⟨hpos, hle, h64⟩ := hsize axis.repr hout
      have hlt : size axis.repr - 1 < 2 ^ (point axis.repr).length := by omega
      have hsub : usizeSub (size axis.repr) 1 = .ok (size axis.repr - 1) :=
        usizeSub_eq_ok.mpr ⟨hpos, rfl⟩
      have hmle := evalZeroifierMle_bitList (point axis.repr) (size axis.repr - 1) hlt
      rw [Nat.sub_add_cancel hpos] at hmle
      simp [houtput, hbiasDim, biasEntries, newAxes, hout, hbias, hget, hsub, bitsOf_eq_ok h64, hmle,
        mul_assoc]
    · simp [houtput, hbiasDim, biasEntries, newAxes, hbias, hget, placed]
  · rw [newAxes_eq h.names_nodup h.out_nodup h.out_sub, h.placed_axes]
    dsimp only
    rw [foldlM_concat]
    rfl

end HasBias

/-! ## The value of the broadcast bias -/

/-- The sizes of the bias in an output of the given shape. -/
def biasSizes (outDims biasDims : List Char) (shape : Shape) : Shape :=
  biasDims.map fun c => shape.getD (outDims.idxOf c) 0

/-- The value of the broadcast bias is computed, and the claim is that about the bias. -/
theorem AxesMapping.computeBiasEvaluation_broadcast {F : Type} [CommRing F]
    {inputParts outputParts biasParts : List (List Char)} {m : AxesMapping}
    (hm : fromTerms inputParts outputParts biasParts = .ok m) {outputId biasId : Nat}
    {outDims biasDims : List Char} (hout : outputParts[outputId]? = some outDims)
    (hbias : biasParts[biasId]? = some biasDims) (hnodup : outDims.Nodup)
    (hbiasNodup : biasDims.Nodup) (hsub : ∀ c ∈ biasDims, c ∈ outDims) {shape : Shape}
    (hrank : shape.length = outDims.length) (hsizes : ∀ d ∈ shape, 0 < d ∧ d < 2 ^ 64)
    {claimPoint : List F} {slices : List (List F)}
    (hsplit : shape.nextPowerOfTwo.splitPoint claimPoint = .ok slices) (bias : List Nat → F) :
    ∃ biasPoint, m.biasEvaluationPoint outputId biasId slices = .ok biasPoint ∧
      ∀ biasEval, biasEval = eval (paddedTable (biasSizes outDims biasDims shape) bias) biasPoint →
        m.computeBiasEvaluation outputId biasId slices biasEval shape =
          .ok (eval (paddedTable shape (broadcast outDims biasDims bias)) claimPoint,
            ⟨biasPoint, biasEval⟩) := by
  have h := hasBias_of_fromTerms hm hout hbias hnodup hbiasNodup hsub
  obtain ⟨hlength, rfl⟩ := Shape.splitPoint_eq_ok_iff.mp hsplit
  -- the sizes and the coordinates by the names of the axes
  let size : Char → Nat := fun c => shape.getD (outDims.idxOf c) 0
  let point : Char → List F :=
    fun c => (Shape.splitSlices claimPoint shape.dimVars).getD (outDims.idxOf c) []
  have hshape : outDims.map size = shape := Equation.map_getD_idxOf hnodup hrank 0
  have hslices : outDims.map point = Shape.splitSlices claimPoint shape.dimVars :=
    Equation.map_getD_idxOf hnodup
      (by rw [Shape.length_splitSlices, Shape.dimVars, List.length_map, hrank]) []
  have hvars : outDims.map (fun c => (point c).length) = outDims.map fun c => ceilLog2 (size c) := by
    have hcut := Equation.map_length_splitSlices hlength
    rw [← hslices, Shape.dimVars, ← hshape, List.map_map, List.map_map] at hcut
    exact hcut
  have hpoint : ∀ c ∈ outDims, (point c).length = ceilLog2 (size c) := List.map_inj_left.mp hvars
  have hsize : ∀ c ∈ outDims,
      0 < size c ∧ size c ≤ 2 ^ (point c).length ∧ (point c).length ≤ 64 := by
    intro c hc
    obtain ⟨hpos, hlt⟩ := hsizes (size c) (hshape ▸ List.mem_map_of_mem hc)
    rw [hpoint c hc]
    exact ⟨hpos, Nat.le_pow_clog (by decide) _, Nat.clog_le_of_le_pow hlt.le⟩
  have hfits : ∀ names : List Char, (∀ c ∈ names, c ∈ outDims) →
      Fits (names.map size) (names.map point) := by
    intro names hnames
    unfold Fits
    rw [List.map_map, List.map_map]
    exact List.map_congr_left fun c hc => hpoint c (hnames c hc)
  have hvalue : eval (paddedTable shape (broadcast outDims biasDims bias)) claimPoint =
      tensorEval (biasDims.map size) bias (biasDims.map point) *
        ((outDims.filter (· ∉ biasDims)).map fun c => ltWeight (point c) (size c)).prod := by
    have hjoin : (outDims.map point).reverse.flatten = claimPoint := by
      rw [hslices, Shape.flatten_reverse_splitSlices hlength]
    rw [← tensorEval_broadcast hnodup hbiasNodup hsub, ← eval_paddedTable (hfits _ fun _ hc => hc),
      hjoin, hshape]
  refine ⟨(biasDims.map point).reverse.flatten, ?_, ?_⟩
  · rw [← hslices]
    exact h.biasEvaluationPoint_eq
  · rintro biasEval hbiasEval
    have heval : biasEval = tensorEval (biasDims.map size) bias (biasDims.map point) :=
      hbiasEval.trans (eval_paddedTable (hfits _ hsub) bias)
    rw [hvalue, ← heval, ← hslices]
    conv_lhs => rw [← hshape]
    exact h.computeBiasEvaluation_eq biasEval hsize

/-- The bias has the first and the last axis of a matrix product. -/
theorem AxesMapping.computeBiasEvaluation_broadcast_rational :
    ∃ (m : AxesMapping) (biasPoint : List ℚ) (eval : ℚ),
      fromTerms [['i', 'j', 'k'], ['i', 'k', 'l']] [['i', 'j', 'l']] [['i', 'l']] = .ok m ∧
      m.biasEvaluationPoint 0 0 [[2], [3, 4], [5]] = .ok biasPoint ∧
      m.computeBiasEvaluation 0 0 [[2], [3, 4], [5]] eval [2, 3, 2] =
        .ok (Multilinear.eval (paddedTable [2, 3, 2]
          (broadcast ['i', 'j', 'l'] ['i', 'l'] fun index => (index.sum : ℚ))) [5, 3, 4, 2],
          ⟨biasPoint, eval⟩) := by
  have hm : ∃ m, fromTerms [['i', 'j', 'k'], ['i', 'k', 'l']] [['i', 'j', 'l']] [['i', 'l']] =
      .ok m := ⟨_, rfl⟩
  obtain ⟨m, hm⟩ := hm
  have hsplit : Shape.splitPoint (Shape.nextPowerOfTwo [2, 3, 2]) [(5 : ℚ), 3, 4, 2] =
      .ok [[2], [3, 4], [5]] := by
    rw [Shape.splitPoint_eq_ok_iff]
    exact ⟨by decide, by decide⟩
  have hout : [['i', 'j', 'l']][0]? = some ['i', 'j', 'l'] := rfl
  have hbias : [['i', 'l']][0]? = some ['i', 'l'] := rfl
  obtain ⟨biasPoint, hpoint, hvalue⟩ := computeBiasEvaluation_broadcast hm hout hbias (by decide)
    (by decide) (by simp) rfl (by decide) hsplit fun index => (index.sum : ℚ)
  exact ⟨m, biasPoint, _, hm, hpoint, hvalue _ rfl⟩

end DeepProve
