import DeepProve.EinSum.Axis

/-!
# What the mapping of an equation describes

The mapping has an axis for each name in the equation, and each axis knows its places in the terms.
From this follows what the fixes of an input are: the axis at a place is fixed to what its name is
fixed to, whatever the order of the axes in the mapping.
-/

namespace DeepProve

open Outcome

/-! ## Lists that are filled place by place -/

section Places

variable {α : Type}

/-- The entries set one after the other. -/
def placed (default : α) (entries : List (Nat × α)) : List α :=
  entries.foldl (fun xs entry => resizeSet xs default entry.1 entry.2) []

theorem length_resizeSet (xs : List α) (default : α) (pos : Nat) (a : α) :
    (resizeSet xs default pos a).length = max xs.length (pos + 1) := by
  rw [resizeSet, List.length_set, List.length_append, List.length_replicate]
  omega

theorem getElem?_resizeSet_self (xs : List α) (default : α) (pos : Nat) (a : α) :
    (resizeSet xs default pos a)[pos]? = some a := by
  rw [resizeSet, List.getElem?_set_self]
  rw [List.length_append, List.length_replicate]
  omega

variable {entries : List (Nat × α)} {default : α}

/-- An entry that is there stays. -/
theorem getElem?_resizeSet_of_ne {xs : List α} {pos i : Nat} {a b : α} (hne : i ≠ pos)
    (h : xs[i]? = some b) : (resizeSet xs default pos a)[i]? = some b := by
  obtain ⟨hi, _⟩ := List.getElem?_eq_some_iff.mp h
  rw [resizeSet, List.getElem?_set_ne (Ne.symm hne), List.getElem?_append_left hi, h]

theorem placed_concat (default : α) (entries : List (Nat × α)) (entry : Nat × α) :
    placed default (entries ++ [entry]) =
      resizeSet (placed default entries) default entry.1 entry.2 := by
  rw [placed, List.foldl_append]
  rfl

theorem getElem?_placed (hnodup : (entries.map Prod.fst).Nodup) {i : Nat} {a : α}
    (h : (i, a) ∈ entries) :
    (placed default entries)[i]? = some a := by
  induction entries using List.reverseRecOn with
  | nil => cases h
  | append_singleton entries entry ih =>
    rw [List.map_append, List.nodup_append] at hnodup
    rw [placed_concat]
    rcases List.mem_append.mp h with h | h
    · have hne : i ≠ entry.1 :=
        hnodup.2.2 i (List.mem_map_of_mem (f := Prod.fst) h) entry.1 (List.mem_singleton_self _)
      exact getElem?_resizeSet_of_ne hne (ih hnodup.1 h)
    · rw [← List.mem_singleton.mp h]
      exact getElem?_resizeSet_self _ _ _ _

theorem length_placed_le {n : Nat} (h : ∀ entry ∈ entries, entry.1 < n) :
    (placed default entries).length ≤ n := by
  induction entries using List.reverseRecOn with
  | nil => exact Nat.zero_le _
  | append_singleton entries entry ih =>
    have hlast := h entry (List.mem_append_right _ (List.mem_singleton_self _))
    have hrest := ih fun entry hentry => h entry (List.mem_append_left _ hentry)
    rw [placed_concat, length_resizeSet]
    omega

/-- Every place of a list is set once. -/
theorem placed_eq_map {β : Type} {xs : List β} (value : β → α)
    (hnodup : (entries.map Prod.fst).Nodup) (hlt : ∀ entry ∈ entries, entry.1 < xs.length)
    (hmem : ∀ (i : Nat) (x : β), xs[i]? = some x → (i, value x) ∈ entries) :
    placed default entries = xs.map value := by
  apply List.ext_getElem?
  intro i
  rcases Nat.lt_or_ge i xs.length with hi | hi
  · have hx := List.getElem?_eq_getElem hi
    rw [getElem?_placed hnodup (hmem i _ hx), List.getElem?_map, hx]
    rfl
  · rw [List.getElem?_eq_none ((length_placed_le hlt).trans hi),
      List.getElem?_eq_none (by rwa [List.length_map])]

end Places

/-! ## The mapping of an equation -/

variable {repr : Char} {names : List Char}

theorem Dimension.inTerm_eq_present {dims : List Char} {pos : Nat} (hnodup : dims.Nodup) :
    Dimension.inTerm dims repr = .present pos ↔ dims[pos]? = some repr := by
  unfold inTerm
  cases h : dims.idxOf? repr with
  | none =>
    rw [List.idxOf?_eq_none_iff] at h
    simp only [reduceCtorEq, false_iff]
    exact fun hget => h (List.mem_of_getElem? hget)
  | some i =>
    obtain ⟨hi, hget, _⟩ := List.idxOf?_eq_some_iff.mp h
    have hsome : dims[i]? = some repr := by rw [List.getElem?_eq_getElem hi, hget]
    simp only [present.injEq]
    constructor
    · rintro rfl
      exact hsome
    · intro hpos
      exact (List.getElem?_inj hi hnodup).mp (hsome.trans hpos.symm)

theorem Dimension.inTerm_eq_absent {dims : List Char} :
    Dimension.inTerm dims repr = .absent ↔ repr ∉ dims := by
  unfold inTerm
  cases h : dims.idxOf? repr with
  | none => simpa using List.idxOf?_eq_none_iff.mp h
  | some i =>
    obtain ⟨hi, hget, _⟩ := List.idxOf?_eq_some_iff.mp h
    simp only [reduceCtorEq, false_iff, not_not]
    exact hget ▸ List.getElem_mem hi

theorem Dimension.isPresent_inTerm (dims : List Char) (repr : Char) :
    (Dimension.inTerm dims repr).isPresent = dims.contains repr := by
  cases h : Dimension.inTerm dims repr with
  | present pos =>
    have hmem : repr ∈ dims := by
      by_contra hmem
      rw [inTerm_eq_absent.mpr hmem] at h
      cases h
    exact (List.contains_iff_mem.mpr hmem).symm
  | absent =>
    rw [isPresent, eq_comm, Bool.eq_false_iff, ne_eq, List.contains_iff_mem]
    exact inTerm_eq_absent.mp h

/-- An axis as the terms have it. -/
structure DescribesAxis (inputParts outputDims biasDims : List (List Char)) (axis : Axis) :
    Prop where
  lhsInput : axis.lhsInput = Dimension.inTerm (inputParts.headD []) axis.repr
  rhsInputs : axis.rhsInputs = inputParts.tail.map (Dimension.inTerm · axis.repr)
  outputs : axis.outputs = outputDims.map (Dimension.inTerm · axis.repr)
  biases : axis.biases = biasDims.map (Dimension.inTerm · axis.repr)
  axisType : Axis.typeOf ((inputParts.headD []).contains axis.repr)
    (inputParts.tail.any (·.contains axis.repr)) (outputDims.any (·.contains axis.repr)) =
      .ok axis.axisType

/-- The mapping has an axis for each name. -/
structure Describes (inputParts outputDims biasDims : List (List Char)) (m : AxesMapping) :
    Prop where
  inputCount : m.inputCount = inputParts.length
  outputCount : m.outputCount = outputDims.length
  biasCount : m.biasCount = biasDims.length
  nodup : (m.axes.map Axis.repr).Nodup
  mem : ∀ c, c ∈ m.axes.map Axis.repr ↔ ∃ dims ∈ inputParts ++ outputDims, c ∈ dims
  axis : ∀ axis ∈ m.axes, DescribesAxis inputParts outputDims biasDims axis

variable {inputParts outputDims biasDims : List (List Char)}

/-- The right inputs are set one after the other. -/
theorem foldlM_setRhsInput (repr : Char) (parts : List (List Char)) {n : Nat}
    (h : parts.length ≤ n) :
    parts.zipIdx.foldlM (Axis.setRhsInput repr) (List.replicate n Dimension.absent) =
      .ok (parts.map (Dimension.inTerm · repr) ++ List.replicate (n - parts.length) .absent) := by
  induction parts using List.reverseRecOn with
  | nil => rfl
  | append_singleton parts dims ih =>
    rw [List.length_append, List.length_singleton] at h
    have hrest : n - parts.length = n - (parts.length + 1) + 1 := by omega
    have hlength : (parts ++ [dims]).length = parts.length + 1 := by simp
    rw [List.zipIdx_append, List.foldlM_append, ih (by omega), Outcome.ok_bind, List.zipIdx_singleton,
      List.foldlM_cons, hlength, List.map_append, List.map_singleton, hrest, List.replicate_succ,
      List.append_assoc, List.singleton_append, Axis.setRhsInput]
    dsimp only
    cases hdim : Dimension.inTerm dims repr with
    | absent => rfl
    | present pos =>
      have hlt : 0 + parts.length < (parts.map (Dimension.inTerm · repr) ++
          Dimension.absent :: List.replicate (n - (parts.length + 1)) Dimension.absent).length := by
        rw [List.length_append, List.length_map, List.length_cons]
        omega
      dsimp only
      rw [if_pos hlt, Nat.zero_add, List.set_append_right _ _ (by rw [List.length_map]),
        List.length_map, Nat.sub_self, List.set_cons_zero]
      rfl

/-- Where an axis is in the outputs and the biases. -/
theorem ofTerms_places {axis : Axis}
    (h : Axis.ofTerms inputParts outputDims biasDims repr = .ok axis) :
    axis.repr = repr ∧ axis.outputs = outputDims.map (Dimension.inTerm · repr) ∧
      axis.biases = biasDims.map (Dimension.inTerm · repr) := by
  unfold Axis.ofTerms at h
  simp only [bind_eq_ok, Except.ok.injEq] at h
  obtain ⟨rhsInputs, _, axisType, _, rfl⟩ := h
  exact ⟨rfl, rfl, rfl⟩

theorem ofTerms_eq_ok {axis : Axis} (hcount : outputDims.length + 1 = inputParts.length)
    (h : Axis.ofTerms inputParts outputDims biasDims repr = .ok axis) :
    axis.repr = repr ∧ DescribesAxis inputParts outputDims biasDims axis := by
  have htail : inputParts.tail.length = outputDims.length := by
    rw [List.length_tail]
    omega
  unfold Axis.ofTerms at h
  simp only [bind_eq_ok, Except.ok.injEq] at h
  obtain ⟨rhsInputs, hrhs, axisType, htype, rfl⟩ := h
  rw [foldlM_setRhsInput _ _ htail.le, htail, Nat.sub_self, List.replicate_zero, List.append_nil,
    Except.ok.injEq] at hrhs
  rw [Dimension.isPresent_inTerm] at htype
  exact ⟨rfl, rfl, hrhs.symm, rfl, rfl, htype⟩

variable {m : AxesMapping}

/-- The names of the axes, each with the axis that is built for it, in any order of the names. -/
theorem fromTermsIn_axes (hnodup : names.Nodup)
    (h : AxesMapping.fromTermsIn names inputParts outputDims biasDims = .ok m) :
    (m.axes.map Axis.repr).Nodup ∧ (∀ c, c ∈ m.axes.map Axis.repr ↔ c ∈ names) ∧
      ∀ axis ∈ m.axes, Axis.ofTerms inputParts outputDims biasDims axis.repr = .ok axis := by
  obtain ⟨axes, haxes, hm⟩ := bind_eq_ok.mp h
  obtain rfl := Except.ok.inj hm
  have hperm : (AxesMapping.sort axes).Perm axes := List.mergeSort_perm _ _
  have hnames : axes.map Axis.repr = names := by
    have hall := forall₂_of_mapM_eq_ok haxes
    clear haxes hperm h hm hnodup
    induction hall with
    | nil => rfl
    | cons haxis _ ih => rw [List.map_cons, ih, (ofTerms_places haxis).1]
  refine ⟨?_, ?_, ?_⟩
  · rw [(hperm.map _).nodup_iff, hnames]
    exact hnodup
  · intro c
    rw [(hperm.map _).mem_iff, hnames]
  · intro axis haxis
    obtain ⟨c, _, hc⟩ := exists_of_mem_mapM_eq_ok haxes (hperm.mem_iff.mp haxis)
    rwa [(ofTerms_places hc).1]

theorem fromTerms_eq_ok (h : AxesMapping.fromTerms inputParts outputDims biasDims = .ok m) :
    AxesMapping.fromTermsIn (inputParts ++ outputDims).flatten.dedup inputParts outputDims
      biasDims = .ok m := by
  obtain ⟨_, _, h⟩ := bind_eq_ok.mp h
  exact h

/-- The names of the axes, each with the axis that is built for it. -/
theorem fromTerms_axes (h : AxesMapping.fromTerms inputParts outputDims biasDims = .ok m) :
    (m.axes.map Axis.repr).Nodup ∧
      (∀ c, c ∈ m.axes.map Axis.repr ↔ ∃ dims ∈ inputParts ++ outputDims, c ∈ dims) ∧
      ∀ axis ∈ m.axes, Axis.ofTerms inputParts outputDims biasDims axis.repr = .ok axis := by
  obtain ⟨hnodup, hmem, haxes⟩ := fromTermsIn_axes (List.nodup_dedup _) (fromTerms_eq_ok h)
  refine ⟨hnodup, fun c => ?_, haxes⟩
  rw [hmem, List.mem_dedup, List.mem_flatten]

theorem fromTermsIn_counts
    (h : AxesMapping.fromTermsIn names inputParts outputDims biasDims = .ok m) :
    m.inputCount = inputParts.length ∧ m.outputCount = outputDims.length ∧
      m.biasCount = biasDims.length := by
  obtain ⟨_, _, h⟩ := bind_eq_ok.mp h
  rw [← Except.ok.inj h]
  exact ⟨rfl, rfl, rfl⟩

theorem fromTerms_counts (h : AxesMapping.fromTerms inputParts outputDims biasDims = .ok m) :
    m.inputCount = inputParts.length ∧ m.outputCount = outputDims.length ∧
      m.biasCount = biasDims.length :=
  fromTermsIn_counts (fromTerms_eq_ok h)

/-- The mapping that is built from the terms, in any order of the names. -/
theorem fromTermsIn_describes (hnodup : names.Nodup)
    (hnames : ∀ c, c ∈ names ↔ c ∈ (inputParts ++ outputDims).flatten)
    (hcount : outputDims.length + 1 = inputParts.length)
    (h : AxesMapping.fromTermsIn names inputParts outputDims biasDims = .ok m) :
    Describes inputParts outputDims biasDims m := by
  obtain ⟨hnodup, hmem, haxes⟩ := fromTermsIn_axes hnodup h
  obtain ⟨hinputs, houtputs, hbiases⟩ := fromTermsIn_counts h
  refine ⟨hinputs, houtputs, hbiases, hnodup, fun c => ?_,
    fun axis haxis => (ofTerms_eq_ok hcount (haxes axis haxis)).2⟩
  rw [hmem, hnames, List.mem_flatten]

/-- The mapping that is built from the terms. -/
theorem fromTerms_describes (hcount : outputDims.length + 1 = inputParts.length)
    (h : AxesMapping.fromTerms inputParts outputDims biasDims = .ok m) :
    Describes inputParts outputDims biasDims m :=
  fromTermsIn_describes (List.nodup_dedup _) (fun _ => List.mem_dedup) hcount (fromTerms_eq_ok h)

/-! ## The shapes of the outputs -/

theorem AxesMapping.length_setOutputSize {axis : Axis} {inputId dimSize : Nat}
    {outs outs' : List Shape} {output : Dimension × Nat}
    (h : setOutputSize axis inputId dimSize outs output = .ok outs') : outs'.length = outs.length := by
  obtain ⟨dim, outputId⟩ := output
  unfold setOutputSize at h
  cases dim with
  | absent => rw [Except.ok.inj h]
  | present pos =>
    obtain ⟨shape, _, h⟩ := bind_eq_ok.mp h
    dsimp only at h
    split at h
    · rw [← Except.ok.inj h, List.length_set]
    · obtain ⟨_, _, h⟩ := bind_eq_ok.mp h
      rw [← Except.ok.inj h, List.length_set]

/-- There is a shape for each output. -/
theorem AxesMapping.length_outputShapes {inputShapes outs : List Shape}
    (h : m.outputShapes inputShapes = .ok outs) : outs.length = m.outputCount := by
  unfold outputShapes at h
  obtain ⟨_, _, h⟩ := bind_eq_ok.mp h
  refine foldlM_induction (motive := fun _ (outs : List Shape) => outs.length = m.outputCount) h
    List.length_replicate ?_
  intro _ axis _ outs₁ outs₂ _ hlength haxis
  refine foldlM_induction (motive := fun _ (outs : List Shape) => outs.length = m.outputCount) haxis
    hlength ?_
  intro _ ⟨dim, inputId⟩ _ outs₃ outs₄ _ hlength hinput
  unfold setOutputSizes at hinput
  cases dim with
  | absent => rw [← Except.ok.inj hinput, hlength]
  | present pos =>
    obtain ⟨dimSize, _, hinput⟩ := bind_eq_ok.mp hinput
    refine foldlM_induction (motive := fun _ (outs : List Shape) => outs.length = m.outputCount)
      hinput hlength ?_
    intro _ output _ outs₅ outs₆ _ hlength houtput
    rw [length_setOutputSize houtput, hlength]

/-! ## The fixes of the inputs -/

namespace AxesMapping

variable {F : Type} (claimPoints : List (List (List F)))

/-- What an axis is fixed to in the inputs of an output. -/
def fixAt (outputId : Nat) (axis : Axis) : Option (FixedAxis (List F)) :=
  match axis.outputs[outputId]? with
  | some (.present pos) => do
    let point ← claimPoints[outputId]?
    let claimPoint ← point[pos]?
    some (.new claimPoint axis.axisType)
  | some .absent => if axis.axisType = .contracted then some .contracted else none
  | none => none

/-- The place of an axis in an input, and what it is fixed to. -/
def entryAt (outputId : Nat) (side : Axis → Dimension) (axis : Axis) :
    Option (Nat × FixedAxis (List F)) :=
  match side axis, fixAt claimPoints outputId axis with
  | .present pos, some fix => some (pos, fix)
  | _, _ => none

/-- The right input of an output. -/
def rhsInput (outputId : Nat) (axis : Axis) : Dimension := axis.rhsInputs.getD outputId .absent

/-- The fixes of an input, for an output. -/
def fixesAt (axes : List Axis) (outputId : Nat) (side : Axis → Dimension) :
    List (FixedAxis (List F)) :=
  placed .contracted (axes.filterMap (entryAt claimPoints outputId side))

/-- Set the fix of an axis, if it has one. -/
def addEntry (fixes : List (FixedAxis (List F))) :
    Option (Nat × FixedAxis (List F)) → List (FixedAxis (List F))
  | some entry => resizeSet fixes .contracted entry.1 entry.2
  | none => fixes

theorem fixesAt_concat (axes : List Axis) (axis : Axis) (outputId : Nat) (side : Axis → Dimension) :
    fixesAt claimPoints (axes ++ [axis]) outputId side =
      addEntry (fixesAt claimPoints axes outputId side) (entryAt claimPoints outputId side axis) := by
  unfold fixesAt
  rw [List.filterMap_append]
  cases hentry : entryAt claimPoints outputId side axis with
  | none =>
    rw [List.filterMap_cons_none hentry, List.filterMap_nil, List.append_nil]
    rfl
  | some entry =>
    rw [List.filterMap_cons_some hentry, List.filterMap_nil, placed_concat]
    rfl

theorem modify_map_range {α : Type} (g : Nat → α) (f : α → α) (n j : Nat) :
    ((List.range n).map g).modify j f =
      (List.range n).map fun k => if k = j then f (g k) else g k := by
  apply List.ext_getElem?
  intro i
  rw [List.getElem?_modify, List.getElem?_map, List.getElem?_map]
  rcases Nat.lt_or_ge i n with hi | hi
  · rw [List.getElem?_range hi]
    simp only [Option.map_some, eq_comm]
    split <;> rfl
  · rw [List.getElem?_eq_none (by rwa [List.length_range])]
    rfl

variable {claimPoints}

/-- One axis of one output. -/
theorem sortAxis_eq {axis : Axis} {fixed fixed' : FixedAxesMapping F} {outDim : Dimension} {j : Nat}
    (hout : axis.outputs[j]? = some outDim)
    (h : sortAxis claimPoints axis fixed (outDim, j) = .ok fixed') :
    fixed'.lhsFixes = fixed.lhsFixes.modify j
        (addEntry · (entryAt claimPoints j Axis.lhsInput axis)) ∧
      fixed'.rhsFixes = fixed.rhsFixes.modify j
        (addEntry · (entryAt claimPoints j (rhsInput j) axis)) := by
  have hsame : ∀ fixes : List (List (FixedAxis (List F))), fixes.modify j (addEntry · none) = fixes :=
    fun fixes => List.modify_id j fixes
  have hget : rhsInput j axis = (axis.rhsInputs[j]?).getD .absent := List.getD_eq_getElem?_getD
  unfold sortAxis at h
  cases outDim with
  | present outPos =>
    simp only [bind_eq_ok, unwrap_eq_ok] at h
    obtain ⟨point, hpoint, claimPoint, hclaimPoint, h⟩ := h
    have hfix : fixAt claimPoints j axis = some (.new claimPoint axis.axisType) := by
      simp only [fixAt, hout, hpoint, Option.bind_eq_bind, Option.bind_some, hclaimPoint]
    unfold entryAt
    rw [hfix, hget]
    -- the axis may be in each of the two inputs
    cases hlhs : axis.lhsInput with
    | present lhsPos =>
      cases hrhs : axis.rhsInputs[j]? with
      | none =>
        simp only [hlhs, hrhs, Except.ok.injEq] at h
        obtain ⟨_, _, rfl⟩ := h
        exact ⟨rfl, (hsame _).symm⟩
      | some dim =>
        cases dim with
        | present rhsPos =>
          simp only [hlhs, hrhs, Except.ok.injEq] at h
          obtain ⟨_, _, rfl⟩ := h
          exact ⟨rfl, rfl⟩
        | absent =>
          simp only [hlhs, hrhs, Except.ok.injEq] at h
          obtain ⟨_, _, rfl⟩ := h
          exact ⟨rfl, (hsame _).symm⟩
    | absent =>
      cases hrhs : axis.rhsInputs[j]? with
      | none =>
        simp only [hlhs, hrhs, Except.ok.injEq] at h
        obtain ⟨_, _, rfl⟩ := h
        exact ⟨(hsame _).symm, (hsame _).symm⟩
      | some dim =>
        cases dim with
        | present rhsPos =>
          simp only [hlhs, hrhs, Except.ok.injEq] at h
          obtain ⟨_, _, rfl⟩ := h
          exact ⟨(hsame _).symm, rfl⟩
        | absent =>
          simp only [hlhs, hrhs, Except.ok.injEq] at h
          obtain ⟨_, _, rfl⟩ := h
          exact ⟨(hsame _).symm, (hsame _).symm⟩
  | absent =>
    by_cases htype : axis.axisType = .contracted
    · have hfix : fixAt claimPoints j axis = some .contracted := by
        simp only [fixAt, hout, if_pos htype]
      unfold entryAt
      rw [hfix, hget]
      simp only [htype] at h
      cases hlhs : axis.lhsInput with
      | absent =>
        simp only [hlhs] at h
        cases h
      | present lhsPos =>
        cases hrhs : axis.rhsInputs[j]? with
        | none =>
          simp only [hlhs, hrhs] at h
          cases h
        | some dim =>
          cases dim with
          | absent =>
            simp only [hlhs, hrhs] at h
            cases h
          | present rhsPos =>
            simp only [hlhs, hrhs, Except.ok.injEq] at h
            subst h
            exact ⟨rfl, rfl⟩
    · have hfix : fixAt claimPoints j axis = none := by
        simp only [fixAt, hout, if_neg htype]
      have hentry : ∀ side, entryAt claimPoints j side axis = none := by
        intro side
        unfold entryAt
        rw [hfix]
        cases side axis <;> rfl
      have hfixed : fixed' = fixed := by
        cases haxis : axis.axisType with
        | contracted => exact absurd haxis htype
        | stacked =>
          simp only [haxis, Except.ok.injEq] at h
          exact h.symm
        | outer =>
          simp only [haxis, Except.ok.injEq] at h
          exact h.symm
      rw [hentry, hentry, hsame, hsame, hfixed]
      exact ⟨rfl, rfl⟩

/-- The fixes of the inputs, output by output. -/
theorem sortVariablesToAxes_eq {m : AxesMapping} {fixed : FixedAxesMapping F}
    (houtputs : ∀ axis ∈ m.axes, axis.outputs.length = m.outputCount)
    (h : m.sortVariablesToAxes claimPoints = .ok fixed) :
    fixed.lhsFixes =
        (List.range m.outputCount).map (fixesAt claimPoints m.axes · Axis.lhsInput) ∧
      fixed.rhsFixes =
        (List.range m.outputCount).map fun k => fixesAt claimPoints m.axes k (rhsInput k) := by
  unfold sortVariablesToAxes at h
  rw [bind_eq_ok] at h
  obtain ⟨_, _, h⟩ := h
  refine foldlM_induction (motive := fun axes (fixed : FixedAxesMapping F) =>
    fixed.lhsFixes = (List.range m.outputCount).map (fixesAt claimPoints axes · Axis.lhsInput) ∧
      fixed.rhsFixes =
        (List.range m.outputCount).map fun k => fixesAt claimPoints axes k (rhsInput k)) h ?_ ?_
  · have hnone : ∀ side k, fixesAt claimPoints [] k side = [] := fun _ _ => rfl
    simp only [hnone, List.map_const', List.length_range, and_self]
  · intro pre axis post s₁ s₂ haxes hpre hfold
    have hlength := houtputs axis (haxes ▸ by simp)
    -- the outputs before the current one are done with the axis
    let axesAt := fun (done k : Nat) => if k < done then pre ++ [axis] else pre
    have hinner := foldlM_induction (motive := fun outputs (fixed : FixedAxesMapping F) =>
      fixed.lhsFixes = (List.range m.outputCount).map
          (fun k => fixesAt claimPoints (axesAt outputs.length k) k Axis.lhsInput) ∧
        fixed.rhsFixes = (List.range m.outputCount).map
          fun k => fixesAt claimPoints (axesAt outputs.length k) k (rhsInput k)) hfold ?_ ?_
    · rw [List.length_zipIdx, hlength] at hinner
      have hall : ∀ side : Nat → Axis → Dimension, (List.range m.outputCount).map
          (fun k => fixesAt claimPoints (axesAt m.outputCount k) k (side k)) =
          (List.range m.outputCount).map
            fun k => fixesAt claimPoints (pre ++ [axis]) k (side k) := by
        intro side
        apply List.map_congr_left
        intro k hk
        rw [show axesAt m.outputCount k = pre ++ [axis] from if_pos (List.mem_range.mp hk)]
      exact ⟨hinner.1.trans (hall fun _ => Axis.lhsInput), hinner.2.trans (hall rhsInput)⟩
    · exact hpre
    · intro done ⟨outDim, j⟩ rest t₁ t₂ houts hdone hstep
      have hj : axis.outputs[done.length]? = some outDim ∧ j = done.length := by
        have hget : axis.outputs.zipIdx[done.length]? = some (outDim, j) := by
          rw [houts, List.getElem?_append_right le_rfl, Nat.sub_self]
          rfl
        rw [List.getElem?_zipIdx, Option.map_eq_some_iff] at hget
        obtain ⟨dim, hdim, heq⟩ := hget
        obtain ⟨rfl, rfl⟩ := Prod.mk.inj heq
        exact ⟨hdim, Nat.zero_add _⟩
      obtain ⟨hout, rfl⟩ := hj
      obtain ⟨hlhs, hrhs⟩ := sortAxis_eq hout hstep
      have hset : ∀ side : Nat → Axis → Dimension, ((List.range m.outputCount).map
          fun k => fixesAt claimPoints (axesAt done.length k) k (side k)).modify done.length
            (addEntry · (entryAt claimPoints done.length (side done.length) axis)) =
          (List.range m.outputCount).map fun k =>
            fixesAt claimPoints (axesAt (done.length + 1) k) k (side k) := by
        intro side
        rw [modify_map_range]
        apply List.map_congr_left
        intro k _
        rcases Nat.lt_trichotomy k done.length with hlt | rfl | hgt
        · rw [if_neg hlt.ne, show axesAt done.length k = pre ++ [axis] from if_pos hlt,
            show axesAt (done.length + 1) k = pre ++ [axis] from if_pos (Nat.lt_succ_of_lt hlt)]
        · rw [if_pos rfl, show axesAt done.length done.length = pre from if_neg (Nat.lt_irrefl _),
            show axesAt (done.length + 1) done.length = pre ++ [axis] from if_pos (Nat.lt_succ_self _),
            fixesAt_concat]
        · rw [if_neg hgt.ne', show axesAt done.length k = pre from if_neg (Nat.lt_asymm hgt),
            show axesAt (done.length + 1) k = pre from if_neg (by omega)]
      rw [List.length_append, List.length_singleton, hlhs, hrhs, hdone.1, hdone.2]
      exact ⟨hset fun _ => Axis.lhsInput, hset rhsInput⟩

end AxesMapping

end DeepProve
