import DeepProve.EinSum.Axis

/-!
# The sizes of the stacked axes

How many stacking coefficients an operation has is a matter of the axes and of the shape of the left
input alone, not of the claims.
-/

namespace DeepProve

open Outcome

namespace FixedAxis

variable {T : Type}

def isStacked : FixedAxis T → Bool
  | stacked _ => true
  | _ => false

@[simp] theorem isStacked_new (point : T) (axisType : AxisType) :
    (FixedAxis.new point axisType).isStacked = (axisType == .stacked) := by
  cases axisType <;> rfl

@[simp] theorem isStacked_contracted : (FixedAxis.contracted : FixedAxis T).isStacked = false := rfl

end FixedAxis

/-- Whether the axis at a position of the left input is stacked, once another axis is sorted in. -/
def Axis.stackedAfter (axis : Axis) (outDim : Dimension) (pos : Nat) (stacked : Bool) : Bool :=
  match axis.lhsInput, outDim with
  | .present p, .present _ => if pos = p then axis.axisType == .stacked else stacked
  | .present p, .absent => if pos = p ∧ axis.axisType = .contracted then false else stacked
  | .absent, _ => stacked

namespace AxesMapping

/-- Whether the axis at a position of the left input is stacked in an output. -/
def stackedAt (axes : List Axis) (outputId pos : Nat) : Bool :=
  axes.foldl (fun stacked axis =>
    match axis.outputs[outputId]? with
    | some outDim => axis.stackedAfter outDim pos stacked
    | none => stacked) false

theorem stackedAt_concat (axes : List Axis) (axis : Axis) (outputId pos : Nat) :
    stackedAt (axes ++ [axis]) outputId pos =
      match axis.outputs[outputId]? with
      | some outDim => axis.stackedAfter outDim pos (stackedAt axes outputId pos)
      | none => stackedAt axes outputId pos := by
  unfold stackedAt
  rw [List.foldl_append]
  rfl

/-- How many indices the stacked axes of an output have. -/
def stackingSize (self : AxesMapping) (lhs : Shape) (outputId : Nat) : Nat :=
  (lhs.zipIdx.map fun (size, pos) => if stackedAt self.axes outputId pos then size else 1).prod

/-- Those of all outputs. -/
def stackingSizes (self : AxesMapping) (lhs : Shape) : List Nat :=
  (List.range self.outputCount).map (self.stackingSize lhs)

variable {F : Type}

/-- Whether an axis is stacked in the fixes of an output. -/
def fixedStacked (fixes : List (List (FixedAxis (List F)))) (outputId pos : Nat) : Bool :=
  (fixes[outputId]?.bind (·[pos]?)).any FixedAxis.isStacked

theorem any_resizeSet (axes : List (FixedAxis (List F))) (pos p : Nat) (fix : FixedAxis (List F)) :
    (resizeSet axes .contracted p fix)[pos]?.any FixedAxis.isStacked =
      if pos = p then fix.isStacked else axes[pos]?.any FixedAxis.isStacked := by
  unfold resizeSet
  rw [List.getElem?_set]
  split
  · next h =>
    subst h
    rw [if_pos (by simp; omega), if_pos rfl]
    rfl
  · next h =>
    rw [if_neg (Ne.symm h), List.getElem?_append]
    split
    · rfl
    · next hlen =>
      rw [List.getElem?_eq_none (l := axes) (Nat.le_of_not_lt hlen), List.getElem?_replicate]
      split <;> rfl

variable {outputId : Nat}

/-- Only the fixes of one output change. -/
theorem fixedStacked_setFix {fixes : List (List (FixedAxis (List F)))} {p : Nat}
    (fix : FixedAxis (List F)) (h : outputId < fixes.length) (i pos : Nat) :
    fixedStacked (setFix fixes outputId p fix) i pos =
      if i = outputId ∧ pos = p then fix.isStacked else fixedStacked fixes i pos := by
  unfold fixedStacked setFix
  rw [List.getElem?_modify]
  by_cases hi : outputId = i
  · subst hi
    rw [List.getElem?_eq_getElem h]
    simp [any_resizeSet]
  · rw [if_neg (fun heq => hi heq.1.symm)]
    cases fixes[i]? <;> simp [hi]

variable {claimPoints : List (List (List F))} {axis : Axis} {fixed fixed' : FixedAxesMapping F}

/-- What the fix of one axis says of the stacked axes. -/
theorem fixedStacked_lhs (fix : FixedAxis (List F)) {outDim : Dimension}
    (hlt : outputId < fixed.lhsFixes.length) (hfix : ∀ p pos stacked, axis.lhsInput = .present p →
      axis.stackedAfter outDim pos stacked = if pos = p then fix.isStacked else stacked)
    (hlhs : fixed'.lhsFixes = match axis.lhsInput with
      | .present p => setFix fixed.lhsFixes outputId p fix
      | .absent => fixed.lhsFixes) :
    fixed'.lhsFixes.length = fixed.lhsFixes.length ∧ ∀ i pos,
      fixedStacked fixed'.lhsFixes i pos =
        if i = outputId then axis.stackedAfter outDim pos (fixedStacked fixed.lhsFixes i pos)
        else fixedStacked fixed.lhsFixes i pos := by
  cases hdim : axis.lhsInput with
  | absent =>
    rw [hdim] at hlhs
    dsimp only at hlhs
    rw [hlhs]
    refine ⟨rfl, fun i pos => ?_⟩
    unfold Axis.stackedAfter
    rw [hdim]
    cases outDim <;> simp
  | present p =>
    rw [hdim] at hlhs
    dsimp only at hlhs
    rw [hlhs]
    refine ⟨List.length_modify _ _ _, fun i pos => ?_⟩
    rw [fixedStacked_setFix fix hlt, hfix p pos _ hdim]
    by_cases hi : i = outputId
    · rw [if_pos hi]
      simp [hi]
    · rw [if_neg hi, if_neg (fun heq => hi heq.1)]

/-- One axis of one output. -/
theorem fixedStacked_sortAxis {outDim : Dimension}
    (h : sortAxis claimPoints axis fixed (outDim, outputId) = .ok fixed')
    (hlt : outputId < fixed.lhsFixes.length) :
    fixed'.lhsFixes.length = fixed.lhsFixes.length ∧ ∀ i pos,
      fixedStacked fixed'.lhsFixes i pos =
        if i = outputId then axis.stackedAfter outDim pos (fixedStacked fixed.lhsFixes i pos)
        else fixedStacked fixed.lhsFixes i pos := by
  unfold sortAxis at h
  cases outDim with
  | present outPos =>
    simp only [bind_eq_ok, unwrap_eq_ok] at h
    obtain ⟨point, _, claimPoint, _, _, _, h⟩ := h
    rw [← Except.ok.inj h]
    apply fixedStacked_lhs (FixedAxis.new claimPoint axis.axisType) hlt
    · intro p pos stacked hdim
      unfold Axis.stackedAfter
      rw [hdim, FixedAxis.isStacked_new]
    · cases axis.lhsInput <;> cases axis.rhsInputs[outputId]? with
      | none => rfl
      | some dim => cases dim <;> rfl
  | absent =>
    by_cases htype : axis.axisType = .contracted
    · rw [htype] at h
      cases hdim : axis.lhsInput with
      | absent =>
        simp only [hdim] at h
        cases h
      | present lhsPos =>
        cases hrhs : axis.rhsInputs[outputId]? with
        | none =>
          simp only [hdim, hrhs] at h
          cases h
        | some dim =>
          cases dim with
          | absent =>
            simp only [hdim, hrhs] at h
            cases h
          | present rhsPos =>
            simp only [hdim, hrhs, Except.ok.injEq] at h
            rw [← h]
            apply fixedStacked_lhs FixedAxis.contracted hlt
            · intro p pos stacked hp
              unfold Axis.stackedAfter
              rw [hp]
              simp [htype]
            · rw [hdim]
    · have hfixed : fixed' = fixed := by
        cases haxis : axis.axisType with
        | contracted => exact absurd haxis htype
        | stacked =>
          simp only [haxis, Except.ok.injEq] at h
          exact h.symm
        | outer =>
          simp only [haxis, Except.ok.injEq] at h
          exact h.symm
      rw [hfixed]
      refine ⟨rfl, fun i pos => ?_⟩
      unfold Axis.stackedAfter
      cases axis.lhsInput <;> simp [htype]

/-- One axis of all outputs. -/
theorem fixedStacked_outputs {outDims : List Dimension} {first : Nat}
    (h : (outDims.zipIdx first).foldlM (sortAxis claimPoints axis) fixed = .ok fixed')
    (hle : first + outDims.length ≤ fixed.lhsFixes.length) :
    fixed'.lhsFixes.length = fixed.lhsFixes.length ∧ ∀ i pos,
      fixedStacked fixed'.lhsFixes i pos =
        if i < first then fixedStacked fixed.lhsFixes i pos
        else match outDims[i - first]? with
          | some outDim => axis.stackedAfter outDim pos (fixedStacked fixed.lhsFixes i pos)
          | none => fixedStacked fixed.lhsFixes i pos := by
  induction outDims generalizing first fixed with
  | nil =>
    rw [← Except.ok.inj h]
    exact ⟨rfl, fun i pos => by simp⟩
  | cons outDim outDims ih =>
    rw [List.zipIdx_cons, List.foldlM_cons, bind_eq_ok] at h
    obtain ⟨fixed₁, hfirst, hrest⟩ := h
    rw [List.length_cons] at hle
    obtain ⟨hlength₁, hstacked₁⟩ := fixedStacked_sortAxis hfirst (by omega)
    obtain ⟨hlength, hstacked⟩ := ih hrest (by omega)
    refine ⟨hlength.trans hlength₁, fun i pos => ?_⟩
    rw [hstacked, hstacked₁]
    rcases Nat.lt_trichotomy i first with hlt | rfl | hgt
    · rw [if_pos (by omega), if_neg (by omega), if_pos hlt]
    · rw [if_pos (by omega), if_pos rfl, if_neg (by omega), Nat.sub_self, List.getElem?_cons_zero]
    · rw [if_neg (by omega), if_neg (by omega), if_neg (by omega),
        show i - first = i - (first + 1) + 1 by omega, List.getElem?_cons_succ]

/-- The fixes of all outputs. -/
theorem fixedStacked_sortVariablesToAxes {m : AxesMapping}
    (houtputs : ∀ axis ∈ m.axes, axis.outputs.length = m.outputCount)
    (h : m.sortVariablesToAxes claimPoints = .ok fixed) :
    fixed.lhsFixes.length = m.outputCount ∧
      ∀ i pos, fixedStacked fixed.lhsFixes i pos = stackedAt m.axes i pos := by
  unfold sortVariablesToAxes at h
  obtain ⟨_, _, h⟩ := bind_eq_ok.mp h
  refine foldlM_induction (motive := fun axes (fixed : FixedAxesMapping F) =>
    fixed.lhsFixes.length = m.outputCount ∧
      ∀ i pos, fixedStacked fixed.lhsFixes i pos = stackedAt axes i pos) h ?_ ?_
  · refine ⟨List.length_replicate, fun i pos => ?_⟩
    unfold fixedStacked
    rw [List.getElem?_replicate]
    split <;> rfl
  · intro pre axis post s₁ s₂ haxes hpre hfold
    obtain ⟨hlength, hpre⟩ := hpre
    have hcount := houtputs axis (haxes ▸ by simp)
    obtain ⟨hlength₂, hstacked⟩ := fixedStacked_outputs hfold (by omega)
    refine ⟨hlength₂.trans hlength, fun i pos => ?_⟩
    rw [hstacked, if_neg (Nat.not_lt_zero i), hpre, stackedAt_concat, Nat.sub_zero]

/-- The sizes of the stacked axes of an input. -/
theorem prod_zip_eq {fixes : List (FixedAxis (List F))} {shape : Shape} {stacked : Nat → Bool}
    {first : Nat} (h : ∀ pos, fixes[pos]?.any FixedAxis.isStacked = stacked (first + pos)) :
    ((fixes.zip shape).map fun (axis, size) => if axis.isStacked then size else 1).prod =
      ((shape.zipIdx first).map fun (size, pos) => if stacked pos then size else 1).prod := by
  induction shape generalizing fixes first with
  | nil => simp
  | cons size shape ih =>
    cases fixes with
    | nil =>
      -- no axis is stacked from here on
      symm
      apply List.prod_eq_one
      intro n hn
      obtain ⟨⟨size', pos⟩, hmem, rfl⟩ := List.mem_map.mp hn
      obtain ⟨k, rfl⟩ := Nat.exists_eq_add_of_le (List.le_snd_of_mem_zipIdx hmem)
      dsimp only
      rw [← h k]
      rfl
    | cons axis fixes =>
      have hfirst := h 0
      rw [List.getElem?_cons_zero, Option.any_some, Nat.add_zero] at hfirst
      have hrest : ∀ pos, fixes[pos]?.any FixedAxis.isStacked = stacked (first + 1 + pos) := by
        intro pos
        rw [← List.getElem?_cons_succ (a := axis), h]
        congr 1
        omega
      rw [List.zip_cons_cons, List.map_cons, List.prod_cons, ih hrest, List.zipIdx_cons, List.map_cons,
        List.prod_cons]
      dsimp only
      rw [hfirst]

end AxesMapping

namespace FixedAxesMapping

variable {F : Type} [CommRing F] {evals : List F → List F}

/-- There is a coefficient for every index of the stacked axes. -/
theorem length_coefficients {fixes : List (FixedAxis (List F))} {shape : Shape} {coeffs : List F}
    (h : coefficients evals fixes shape = .ok coeffs) :
    coeffs.length =
      ((fixes.zip shape).map fun (axis, size) => if axis.isStacked then size else 1).prod := by
  have hreverse := (List.reverse_perm (fixes.zip shape)).map
    fun ((axis, size) : FixedAxis (List F) × Nat) => if axis.isStacked then size else 1
  rw [← hreverse.prod_eq]
  refine Outcome.foldlM_induction (motive := fun (axes : List (FixedAxis (List F) × Nat))
    (coeffs : List F) => coeffs.length =
      (axes.map fun (axis, size) => if axis.isStacked then size else 1).prod) h rfl ?_
  intro pre ⟨axis, size⟩ post s₁ s₂ _ hpre hstep
  rw [List.map_append, List.prod_append, ← hpre, List.map_singleton, List.prod_singleton]
  cases axis with
  | stacked point =>
    obtain ⟨betaEvals, hbeta, hmap⟩ := bind_eq_ok.mp hstep
    obtain ⟨hle, rfl⟩ := sliceTo_eq_ok.mp hbeta
    rw [← Except.ok.inj hmap, List.length_flatMap]
    simp [FixedAxis.isStacked, Nat.min_eq_left hle, Nat.mul_comm]
  | outer point =>
    rw [Except.ok.inj hstep]
    simp [FixedAxis.isStacked]
  | contracted =>
    rw [Except.ok.inj hstep]
    simp [FixedAxis.isStacked]

/-- How many coefficients each output has. -/
theorem length_stackingCoefficients {m : AxesMapping} {claimPoints : List (List (List F))}
    {fixed : FixedAxesMapping F} (houtputs : ∀ axis ∈ m.axes, axis.outputs.length = m.outputCount)
    (hfixed : m.sortVariablesToAxes claimPoints = .ok fixed) {lhs : Shape} {coeffs : List (List F)}
    (h : fixed.stackingCoefficients evals lhs = .ok coeffs) :
    coeffs.map List.length = m.stackingSizes lhs := by
  obtain ⟨hlength, hstacked⟩ := AxesMapping.fixedStacked_sortVariablesToAxes houtputs hfixed
  have hcoeffs := forall₂_of_mapM_eq_ok h
  have hcount := hcoeffs.length_eq
  apply List.ext_getElem
  · simp [AxesMapping.stackingSizes]
    omega
  · intro i hi hi'
    rw [List.length_map] at hi
    have hilhs : i < fixed.lhsFixes.length := hcount ▸ hi
    have hcoeff := List.forall₂_iff_get.mp hcoeffs |>.2 i hilhs hi
    rw [List.get_eq_getElem, List.get_eq_getElem] at hcoeff
    simp only [AxesMapping.stackingSizes, List.getElem_map, List.getElem_range]
    rw [length_coefficients hcoeff]
    apply AxesMapping.prod_zip_eq
    intro pos
    rw [Nat.zero_add, ← hstacked, AxesMapping.fixedStacked, List.getElem?_eq_getElem hilhs]
    rfl

end FixedAxesMapping

end DeepProve
