import DeepProve.EinSum.AxisSpec
import DeepProve.Lookup.DimWeights

/-!
# Equations with one right input

An equation such as `A(ijm)@B(imk)->X(ijk)` and the sizes of its axes. The coordinates of a claim about
the output belong to its axes; those of the contracted axes are the ones of the sumcheck, the last
axis first.
-/

namespace DeepProve

open Outcome
open Multilinear (eqWeight weight weight_cons weight_nil axesOf Fits)

/-- An equation with one right input, and the sizes of its axes. -/
structure Equation where
  lhs : List Char
  rhs : List Char
  out : List Char
  size : Char → Nat
  lhs_nodup : lhs.Nodup
  rhs_nodup : rhs.Nodup
  out_nodup : out.Nodup

namespace Equation

variable (self : Equation)

/-- In both inputs and the output. -/
def isStacked (c : Char) : Bool := self.lhs.contains c && self.rhs.contains c && self.out.contains c

/-- The stacked axes, in the order of the left input. -/
def stackedNames : List Char := self.lhs.filter self.isStacked

def stackedAxes : List (Char × Nat) := axesOf self.size self.stackedNames

/-- The unpadded shape of a tensor with the given axes. -/
def shape (dims : List Char) : Shape := dims.map self.size

section Points

variable {F : Type} (claimPoint : List F)

/-- The coordinates of an axis of the output. -/
def outPoint (c : Char) : List F :=
  (Shape.splitSlices claimPoint (self.shape self.out).dimVars).getD (self.out.idxOf c) []

/-- The number of coordinates of the contracted axes. -/
def contractedVars (dims : List Char) : Nat :=
  ((dims.filter fun c => !self.out.contains c).map fun c => ceilLog2 (self.size c)).sum

/-- The coordinates of the axes of an input; the contracted ones are those of the sumcheck. -/
def inputSlices (sumcheckPoint : List F) : List Char → List (List F)
  | [] => []
  | c :: dims =>
    (if self.out.contains c then
      self.outPoint claimPoint c
    else
      (sumcheckPoint.drop (self.contractedVars dims)).take (ceilLog2 (self.size c))) ::
        inputSlices sumcheckPoint dims

/-- The coordinates of an axis of an input. -/
def inputPoint (sumcheckPoint : List F) (dims : List Char) (c : Char) : List F :=
  (self.inputSlices claimPoint sumcheckPoint dims).getD (dims.idxOf c) []

/-- What an axis is fixed to. -/
def fix (c : Char) : FixedAxis (List F) :=
  if self.out.contains c then
    .new (self.outPoint claimPoint c)
      (if self.lhs.contains c && self.rhs.contains c then .stacked else .outer)
  else
    .contracted

end Points

/-! ## The axes of the equation -/

section Axes

variable {self} {biasDims : List (List Char)} {m : AxesMapping}
  (hm : AxesMapping.fromTerms [self.lhs, self.rhs] [self.out] biasDims = .ok m)

include hm

theorem describes : Describes [self.lhs, self.rhs] [self.out] biasDims m :=
  fromTerms_describes rfl hm

theorem inputs_eq {axis : Axis} (haxis : axis ∈ m.axes) :
    axis.lhsInput = .inTerm self.lhs axis.repr ∧ axis.rhsInputs = [.inTerm self.rhs axis.repr] ∧
      axis.outputs = [.inTerm self.out axis.repr] :=
  ⟨((describes hm).axis axis haxis).lhsInput, ((describes hm).axis axis haxis).rhsInputs,
    ((describes hm).axis axis haxis).outputs⟩

/-- An axis that is not in the output is in both inputs. -/
theorem axisType_eq {axis : Axis} (haxis : axis ∈ m.axes) :
    (self.out.contains axis.repr = true → axis.axisType =
        if self.lhs.contains axis.repr && self.rhs.contains axis.repr then .stacked else .outer) ∧
      (self.out.contains axis.repr = false → axis.axisType = .contracted ∧
        self.lhs.contains axis.repr = true ∧ self.rhs.contains axis.repr = true) ∧
      (self.lhs.contains axis.repr = true ∨ self.rhs.contains axis.repr = true) := by
  have htype := ((describes hm).axis axis haxis).axisType
  have hlhs : ([self.lhs, self.rhs].headD []) = self.lhs := rfl
  have hany : ∀ dims : List Char, ([dims].any fun dims => dims.contains axis.repr) =
      dims.contains axis.repr := fun dims => by rw [List.any_cons, List.any_nil, Bool.or_false]
  rw [hlhs, List.tail_cons, hany, hany] at htype
  cases hl : self.lhs.contains axis.repr <;> cases hr : self.rhs.contains axis.repr <;>
    cases ho : self.out.contains axis.repr <;> rw [hl, hr, ho] at htype <;>
    simp_all [Axis.typeOf, eq_comm]

theorem mem_names {c : Char} (h : c ∈ self.lhs ∨ c ∈ self.rhs ∨ c ∈ self.out) :
    ∃ axis ∈ m.axes, axis.repr = c := by
  apply List.mem_map.mp
  apply ((describes hm).mem c).mpr
  rcases h with h | h | h
  · exact ⟨self.lhs, by simp, h⟩
  · exact ⟨self.rhs, by simp, h⟩
  · exact ⟨self.out, by simp, h⟩

end Axes

/-! ## The shape of the output -/

section OutputShape

variable {out : List Char} {f : Char → Nat}

/-- The sizes of the given axes are set in the shape of the output, and no wrong ones. -/
structure SizesSet (out : List Char) (f : Char → Nat) (done : List Char) (shape : Shape) : Prop where
  length_le : shape.length ≤ out.length
  size_or : ∀ (pos : Nat) (c : Char), out[pos]? = some c →
    shape.getD pos 0 = 0 ∨ shape.getD pos 0 = f c
  size_done : ∀ c ∈ done, ∀ pos : Nat, out[pos]? = some c → shape.getD pos 0 = f c

theorem SizesSet.mono {done done' : List Char} {shape : Shape} (h : SizesSet out f done shape)
    (hsub : ∀ c ∈ done', c ∈ done) : SizesSet out f done' shape :=
  ⟨h.length_le, h.size_or, fun c hc => h.size_done c (hsub c hc)⟩

theorem getD_append_zeros (shape : Shape) (n i : Nat) :
    (shape ++ List.replicate n 0).getD i 0 = shape.getD i 0 := by
  rw [List.getD_eq_getElem?_getD, List.getD_eq_getElem?_getD, List.getElem?_append]
  split
  · rfl
  · next hi =>
    rw [List.getElem?_eq_none (Nat.le_of_not_lt hi), List.getElem?_replicate]
    split <;> rfl

theorem setOutputSize_eq_ok (hnodup : out.Nodup) {axis : Axis} {inputId : Nat} {done : List Char} {shape : Shape}
    {outs : List Shape} (h : SizesSet out f done shape)
    (hok : AxesMapping.setOutputSize axis inputId (f axis.repr) [shape]
      (Dimension.inTerm out axis.repr, 0) = .ok outs) :
    ∃ shape', outs = [shape'] ∧ SizesSet out f (axis.repr :: done) shape' := by
  unfold AxesMapping.setOutputSize at hok
  cases hdim : Dimension.inTerm out axis.repr with
  | absent =>
    have hnot := Dimension.inTerm_eq_absent.mp hdim
    simp only [hdim, Except.ok.injEq] at hok
    refine ⟨shape, hok.symm, h.length_le, h.size_or, fun c hc pos hpos => ?_⟩
    rcases List.mem_cons.mp hc with rfl | hc
    · exact absurd (List.mem_of_getElem? hpos) hnot
    · exact h.size_done c hc pos hpos
  | present outPos =>
    have hget := (Dimension.inTerm_eq_present hnodup).mp hdim
    obtain ⟨hlt, _⟩ := List.getElem?_eq_some_iff.mp hget
    -- no other axis of the output is at the place
    have hplace : ∀ (pos : Nat) (c : Char), out[pos]? = some c →
        (pos = outPos ↔ c = axis.repr) := by
      intro pos c hpos
      constructor
      · rintro rfl
        exact Option.some.inj (hpos.symm.trans hget)
      · rintro rfl
        exact (List.getElem?_inj (List.getElem?_eq_some_iff.mp hpos).1 hnodup).mp
          (hpos.trans hget.symm)
    let extended := shape ++ List.replicate (outPos + 1 - shape.length) 0
    have hextended : ∀ pos, extended.getD pos 0 = shape.getD pos 0 := getD_append_zeros shape _
    have hlength : extended.length = max shape.length (outPos + 1) := by
      rw [List.length_append, List.length_replicate]
      omega
    have hle : extended.length ≤ out.length := by
      have := h.length_le
      omega
    simp only [hdim, List.getElem?_cons_zero, unwrap_some, Outcome.ok_bind] at hok
    split at hok
    · obtain rfl := Except.ok.inj hok
      have hset : ∀ pos, (extended.set outPos (f axis.repr)).getD pos 0 =
          if pos = outPos then f axis.repr else shape.getD pos 0 := by
        intro pos
        rw [← hextended pos, List.getD_eq_getElem?_getD, List.getD_eq_getElem?_getD,
          List.getElem?_set]
        by_cases hpos : pos = outPos
        · rw [if_pos hpos.symm, if_pos (by omega), if_pos hpos]
          rfl
        · rw [if_neg (Ne.symm hpos), if_neg hpos]
      refine ⟨extended.set outPos (f axis.repr), rfl, by rwa [List.length_set], ?_, ?_⟩
      · intro pos c hpos
        rw [hset]
        split
        · next heq => rw [(hplace pos c hpos).mp heq]; exact .inr rfl
        · exact h.size_or pos c hpos
      · intro c hc pos hpos
        rw [hset]
        split
        · next heq => rw [(hplace pos c hpos).mp heq]
        · next hne =>
          have hother := mt (hplace pos c hpos).mpr hne
          exact h.size_done c ((List.mem_cons.mp hc).resolve_left hother) pos hpos
    · next hnonzero =>
      simp only [bind_eq_ok, Except.ok.injEq, ensure_eq_ok, beq_iff_eq] at hok
      obtain ⟨_, hsize, rfl⟩ := hok
      refine ⟨extended, rfl, hle, ?_, ?_⟩
      · intro pos c hpos
        rw [hextended]
        exact h.size_or pos c hpos
      · intro c hc pos hpos
        rcases List.mem_cons.mp hc with rfl | hc
        · rw [(hplace pos _ hpos).mpr rfl]
          exact hsize
        · rw [hextended]
          exact h.size_done c hc pos hpos

theorem SizesSet.eq_map {done : List Char} {shape : Shape} (h : SizesSet out f done shape)
    (hall : ∀ c ∈ out, c ∈ done) (hpos : ∀ c ∈ out, f c ≠ 0) : shape = out.map f := by
  have hget : ∀ (pos : Nat) (c : Char), out[pos]? = some c → shape[pos]? = some (f c) := by
    intro pos c hc
    have hmem := List.mem_of_getElem? hc
    have hsize := h.size_done c (hall c hmem) pos hc
    rw [List.getD_eq_getElem?_getD] at hsize
    cases hshape : shape[pos]? with
    | none =>
      rw [hshape] at hsize
      exact absurd hsize.symm (hpos c hmem)
    | some n =>
      rw [hshape] at hsize
      exact congrArg some hsize
  apply List.ext_getElem?
  intro i
  rw [List.getElem?_map]
  cases hi : out[i]? with
  | none =>
    have hlength := List.getElem?_eq_none_iff.mp hi
    exact List.getElem?_eq_none (h.length_le.trans hlength)
  | some c => exact hget i c hi

end OutputShape

section Mapping

variable {self} {biasDims : List (List Char)} {m : AxesMapping} {f : Char → Nat}

/-- The size of an axis in an input. -/
theorem inputSize_eq {dims : List Char} {shapes : List Shape} {axis : Axis} {inputId pos n : Nat}
    (hshape : shapes[inputId]? = some (dims.map f)) (hget : dims[pos]? = some axis.repr)
    (hok : AxesMapping.inputSize shapes axis inputId pos = .ok n) : n = f axis.repr := by
  unfold AxesMapping.inputSize at hok
  rw [hshape, unwrap_some, Outcome.ok_bind, List.getElem?_map, hget] at hok
  exact (Except.ok.inj hok).symm

/-- One input of an axis. -/
theorem outputShapes_input {dims : List Char} {shapes outs : List Shape} {shape : Shape} {axis : Axis}
    {inputId : Nat} {done : List Char} (hnodup : dims.Nodup) (hshape : shapes[inputId]? = some (dims.map f))
    (houts : axis.outputs = [.inTerm self.out axis.repr])
    (h : SizesSet self.out f done shape)
    (hok : AxesMapping.setOutputSizes shapes axis [shape] (.inTerm dims axis.repr, inputId) =
      .ok outs) :
    ∃ shape', outs = [shape'] ∧ SizesSet self.out f done shape' ∧
      (axis.repr ∈ dims → SizesSet self.out f (axis.repr :: done) shape') := by
  unfold AxesMapping.setOutputSizes at hok
  cases hdim : Dimension.inTerm dims axis.repr with
  | absent =>
    rw [hdim] at hok
    have hnot := Dimension.inTerm_eq_absent.mp hdim
    exact ⟨shape, (Except.ok.inj hok).symm, h, fun hmem => absurd hmem hnot⟩
  | present pos =>
    rw [hdim] at hok
    have hget := (Dimension.inTerm_eq_present hnodup).mp hdim
    obtain ⟨n, hn, hok⟩ := bind_eq_ok.mp hok
    obtain rfl := inputSize_eq hshape hget hn
    rw [houts, List.zipIdx_singleton, List.foldlM_cons] at hok
    obtain ⟨outs', hset, hnil⟩ := bind_eq_ok.mp hok
    obtain rfl := Except.ok.inj hnil
    obtain ⟨shape', rfl, hshape'⟩ := setOutputSize_eq_ok self.out_nodup h hset
    exact ⟨shape', rfl, hshape'.mono fun c hc => List.mem_cons_of_mem _ hc, fun _ => hshape'⟩

/-- The shape of the output, for shapes in which every axis has one size. -/
theorem outputShapes_eq (hm : AxesMapping.fromTerms [self.lhs, self.rhs] [self.out] biasDims = .ok m)
    (hpos : ∀ c ∈ self.out, f c ≠ 0) {outs : List Shape}
    (hok : m.outputShapes [self.lhs.map f, self.rhs.map f] = .ok outs) :
    outs = [self.out.map f] := by
  unfold AxesMapping.outputShapes at hok
  obtain ⟨_, _, hok⟩ := bind_eq_ok.mp hok
  have hcount : m.outputCount = 1 := (describes hm).outputCount
  have hall := foldlM_induction (motive := fun axes (outs : List Shape) =>
    ∃ shape, outs = [shape] ∧ SizesSet self.out f (axes.map Axis.repr) shape) hok ?_ ?_
  · obtain ⟨shape, rfl, hshape⟩ := hall
    rw [hshape.eq_map (fun c hc => ?_) hpos]
    obtain ⟨axis, haxis, rfl⟩ := mem_names hm (.inr (.inr hc))
    exact List.mem_map_of_mem haxis
  · rw [hcount]
    refine ⟨[], rfl, Nat.zero_le _, fun _ _ _ => .inl rfl, fun c hc => ?_⟩
    cases hc
  · intro pre axis post outs₁ outs₂ haxes ⟨shape, houts, hshape⟩ hstep
    have haxis : axis ∈ m.axes := by
      rw [haxes]
      exact List.mem_append_right _ List.mem_cons_self
    obtain ⟨hlhs, hrhs, houtput⟩ := inputs_eq hm haxis
    have hinputs : axis.inputs.zipIdx = 
        [(Dimension.inTerm self.lhs axis.repr, 0), (Dimension.inTerm self.rhs axis.repr, 1)] := by
      rw [Axis.inputs, hlhs, hrhs]
      rfl
    rw [hinputs, List.foldlM_cons, houts] at hstep
    obtain ⟨outs', hfirst, hstep⟩ := bind_eq_ok.mp hstep
    rw [List.foldlM_cons] at hstep
    obtain ⟨outs'', hsecond, hnil⟩ := bind_eq_ok.mp hstep
    obtain rfl := Except.ok.inj hnil
    obtain ⟨shape', rfl, hkeep, hset⟩ := outputShapes_input self.lhs_nodup rfl
      houtput hshape hfirst
    rw [List.map_append, List.map_singleton]
    -- the axis is in one of the two inputs
    have hmem : ∀ c ∈ pre.map Axis.repr ++ [axis.repr], c ∈ axis.repr :: pre.map Axis.repr := by
      intro c hc
      rcases List.mem_append.mp hc with hc | hc
      · exact List.mem_cons_of_mem _ hc
      · exact List.mem_cons.mpr (.inl (List.mem_singleton.mp hc))
    rcases (axisType_eq hm haxis).2.2 with hl | hr
    · obtain ⟨shape'', rfl, hkeep', _⟩ := outputShapes_input self.rhs_nodup rfl
        houtput (hset (List.contains_iff_mem.mp hl)) hsecond
      exact ⟨shape'', rfl, hkeep'.mono hmem⟩
    · obtain ⟨shape'', rfl, _, hset'⟩ := outputShapes_input self.rhs_nodup rfl
        houtput hkeep hsecond
      exact ⟨shape'', rfl, (hset' (List.contains_iff_mem.mp hr)).mono hmem⟩

end Mapping

/-! ## The fixes of the inputs -/

theorem map_getD_idxOf {α β : Type} [DecidableEq α] {xs : List α} {ys : List β} (hnodup : xs.Nodup)
    (hlength : ys.length = xs.length) (default : β) :
    xs.map (fun c => ys.getD (xs.idxOf c) default) = ys := by
  apply List.ext_getElem
  · rw [List.length_map, hlength]
  · intro i hi hi'
    rw [List.getElem_map, hnodup.idxOf_getElem, List.getD_eq_getElem?_getD,
      List.getElem?_eq_getElem hi']
    rfl

section Fixes

variable {self} {biasDims : List (List Char)} {m : AxesMapping} {F : Type} {claimPoint : List F}

theorem map_outPoint : self.out.map (self.outPoint claimPoint) =
    Shape.splitSlices claimPoint (self.shape self.out).dimVars := by
  apply map_getD_idxOf self.out_nodup
  rw [Shape.length_splitSlices, Shape.dimVars, List.length_map, shape, List.length_map]

theorem fixAt_eq (hm : AxesMapping.fromTerms [self.lhs, self.rhs] [self.out] biasDims = .ok m)
    {axis : Axis} (haxis : axis ∈ m.axes) :
    AxesMapping.fixAt [Shape.splitSlices claimPoint (self.shape self.out).dimVars] 0 axis =
      some (self.fix claimPoint axis.repr) := by
  obtain ⟨hstay, hgone, _⟩ := axisType_eq hm haxis
  unfold AxesMapping.fixAt
  rw [(inputs_eq hm haxis).2.2, ← map_outPoint]
  cases hdim : Dimension.inTerm self.out axis.repr with
  | absent =>
    have hnot : self.out.contains axis.repr = false := by
      rw [Bool.eq_false_iff, ne_eq, List.contains_iff_mem]
      exact Dimension.inTerm_eq_absent.mp hdim
    simp only [List.getElem?_cons_zero, (hgone hnot).1, if_true, fix, hnot]
    rfl
  | present pos =>
    have hget := (Dimension.inTerm_eq_present self.out_nodup).mp hdim
    have hmem : self.out.contains axis.repr = true :=
      List.contains_iff_mem.mpr (List.mem_of_getElem? hget)
    simp only [List.getElem?_cons_zero, Option.bind_eq_bind, Option.bind_some, List.getElem?_map,
      hget, Option.map_some, hstay hmem, fix, hmem, if_true]

/-- The axes of an input, in its order. -/
theorem fixesAt_eq (claimPoint : List F)
    (hm : AxesMapping.fromTerms [self.lhs, self.rhs] [self.out] biasDims = .ok m)
    {dims : List Char} (hnodup : dims.Nodup) (side : Axis → Dimension)
    (hside : ∀ axis ∈ m.axes, side axis = .inTerm dims axis.repr)
    (hnames : ∀ c ∈ dims, ∃ axis ∈ m.axes, axis.repr = c) :
    AxesMapping.fixesAt [Shape.splitSlices claimPoint (self.shape self.out).dimVars] m.axes 0 side =
      dims.map (self.fix claimPoint) := by
  -- the entry of an axis is at the place of its name
  have hentry : ∀ axis ∈ m.axes, ∀ entry, AxesMapping.entryAt
      [Shape.splitSlices claimPoint (self.shape self.out).dimVars] 0 side axis = some entry →
        dims[entry.1]? = some axis.repr := by
    intro axis haxis entry hentry
    unfold AxesMapping.entryAt at hentry
    rw [hside axis haxis, fixAt_eq hm haxis] at hentry
    cases hdim : Dimension.inTerm dims axis.repr with
    | absent =>
      rw [hdim] at hentry
      cases hentry
    | present pos =>
      rw [hdim] at hentry
      obtain rfl := Option.some.inj hentry
      exact (Dimension.inTerm_eq_present hnodup).mp hdim
  apply placed_eq_map
  · unfold List.Nodup
    rw [List.pairwise_map, List.pairwise_filterMap]
    have hreprs : m.axes.Pairwise fun a b => a.repr ≠ b.repr := List.pairwise_map.mp (describes hm).nodup
    apply hreprs.imp_of_mem
    intro a b ha hb hne entry hentry_a entry' hentry_b heq
    have hget_a := hentry a ha entry hentry_a
    rw [heq, hentry b hb entry' hentry_b] at hget_a
    exact hne (Option.some.inj hget_a).symm
  · intro entry hmem
    obtain ⟨axis, haxis, hentry_axis⟩ := List.mem_filterMap.mp hmem
    exact (List.getElem?_eq_some_iff.mp (hentry axis haxis entry hentry_axis)).1
  · intro i c hget
    obtain ⟨axis, haxis, rfl⟩ := hnames c (List.mem_of_getElem? hget)
    apply List.mem_filterMap.mpr
    refine ⟨axis, haxis, ?_⟩
    unfold AxesMapping.entryAt
    rw [hside axis haxis, (Dimension.inTerm_eq_present hnodup).mpr hget, fixAt_eq hm haxis]

/-- What the axes of the two inputs are fixed to. -/
theorem sortVariablesToAxes_single
    (hm : AxesMapping.fromTerms [self.lhs, self.rhs] [self.out] biasDims = .ok m)
    {fixed : FixedAxesMapping F} (hok : m.sortVariablesToAxes
      [Shape.splitSlices claimPoint (self.shape self.out).dimVars] = .ok fixed) :
    fixed.lhsFixes = [self.lhs.map (self.fix claimPoint)] ∧
      fixed.rhsFixes = [self.rhs.map (self.fix claimPoint)] := by
  have hcount : m.outputCount = 1 := (describes hm).outputCount
  have houtputs : ∀ axis ∈ m.axes, axis.outputs.length = m.outputCount := by
    intro axis haxis
    rw [(inputs_eq hm haxis).2.2, hcount]
    rfl
  obtain ⟨hlhs, hrhs⟩ := AxesMapping.sortVariablesToAxes_eq houtputs hok
  rw [hlhs, hrhs, hcount]
  have hleft := fixesAt_eq claimPoint hm self.lhs_nodup Axis.lhsInput
    (fun axis haxis => (inputs_eq hm haxis).1) (fun c hc => mem_names hm (.inl hc))
  have hright := fixesAt_eq claimPoint hm self.rhs_nodup (AxesMapping.rhsInput 0)
    (fun axis haxis => by rw [AxesMapping.rhsInput, (inputs_eq hm haxis).2.1]; rfl)
    (fun c hc => mem_names hm (.inr (.inl hc)))
  exact ⟨congrArg (fun fixes => [fixes]) hleft, congrArg (fun fixes => [fixes]) hright⟩

end Fixes

/-! ## The stacking coefficients -/

section Coefficients

variable {self} {F : Type} {claimPoint : List F}

theorem fix_of_isStacked {c : Char} (h : self.isStacked c = true) :
    self.fix claimPoint c = .stacked (self.outPoint claimPoint c) := by
  simp only [isStacked, Bool.and_eq_true] at h
  simp only [fix, h.1.1, h.1.2, h.2, if_true, Bool.and_true]
  rfl

theorem fix_of_not_isStacked {c : Char} (h : self.isStacked c = false) :
    self.fix claimPoint c =
      if self.out.contains c then .outer (self.outPoint claimPoint c) else .contracted := by
  unfold fix
  by_cases hout : self.out.contains c = true
  · rw [if_pos hout, if_pos hout]
    rw [isStacked, hout, Bool.and_true] at h
    rw [h]
    rfl
  · rw [if_neg hout, if_neg hout]

variable [CommRing F] {evals : List F → List F}

/-- The stacking coefficients are the weights of the indices of the stacked axes. -/
theorem coefficients_eq
    (hevals : ∀ point, evals point = (List.range (2 ^ point.length)).map (eqWeight point))
    {dims : List Char} (hnodup : dims.Nodup) {coeffs : List F}
    (hok : FixedAxesMapping.coefficients evals (dims.map (self.fix claimPoint)) (self.shape dims) =
      .ok coeffs) :
    coeffs = (Assignments.all (axesOf self.size (dims.filter self.isStacked))).map
      (weight (dims.filter self.isStacked) (self.outPoint claimPoint)) := by
  unfold FixedAxesMapping.coefficients shape at hok
  induction dims generalizing coeffs with
  | nil =>
    obtain rfl := Except.ok.inj hok
    rfl
  | cons c dims ih =>
    rw [List.nodup_cons] at hnodup
    rw [List.map_cons, List.map_cons, List.zip_cons_cons, List.reverse_cons, List.foldlM_append] at hok
    obtain ⟨acc, hrest, hfold⟩ := bind_eq_ok.mp hok
    have hacc := ih hnodup.2 hrest
    rw [List.foldlM_cons] at hfold
    obtain ⟨last, hlast, hnil⟩ := bind_eq_ok.mp hfold
    obtain rfl := Except.ok.inj hnil
    cases hstacked : self.isStacked c with
    | true =>
      rw [fix_of_isStacked hstacked] at hlast
      dsimp only at hlast
      obtain ⟨betaEvals, hbeta, hmap⟩ := bind_eq_ok.mp hlast
      obtain ⟨hle, rfl⟩ := sliceTo_eq_ok.mp hbeta
      rw [hevals, List.length_map, List.length_range] at hle
      have hrange : min (self.size c) (2 ^ (self.outPoint claimPoint c).length) = self.size c :=
        Nat.min_eq_left hle
      rw [← Except.ok.inj hmap, List.filter_cons_of_pos hstacked, hacc, hevals, ← List.map_take,
        List.take_range, hrange, List.flatMap_map]
      unfold axesOf
      rw [List.map_cons, Assignments.all, List.map_flatMap]
      congr 1
      funext i
      rw [List.map_map, List.map_map]
      apply List.map_congr_left
      intro σ _
      -- the index of the axis is not one of the others
      have hother : ∀ b ∈ dims.filter self.isStacked,
          self.outPoint claimPoint b = self.outPoint claimPoint b ∧ σ b = Function.update σ c i b := by
        intro b hb
        have hne : b ≠ c := fun heq => hnodup.1 (heq ▸ (List.mem_filter.mp hb).1)
        exact ⟨rfl, (Function.update_of_ne hne _ _).symm⟩
      show weight _ _ σ * eqWeight _ i = weight _ _ (Function.update σ c i)
      rw [weight_cons, Function.update_self, Multilinear.weight_congr hother, mul_comm]
    | false =>
      have hkeep : last = acc := by
        rw [fix_of_not_isStacked hstacked] at hlast
        by_cases hout : self.out.contains c = true
        · rw [if_pos hout] at hlast
          exact (Except.ok.inj hlast).symm
        · rw [if_neg hout] at hlast
          exact (Except.ok.inj hlast).symm
      rw [List.filter_cons_of_neg (by simp [hstacked]), hkeep, hacc]

end Coefficients

/-! ## The point of a claim about an input -/

section InputPoint

variable {self} {F : Type} {claimPoint sumcheckPoint : List F}

theorem ceilLog2_nextPowerOfTwo (n : Nat) : ceilLog2 (nextPowerOfTwo n) = ceilLog2 n :=
  Nat.clog_pow 2 _ Nat.one_lt_two

variable {dims : List Char}

/-- The point has the coordinates of all axes, the last axis first. -/
theorem reconstructFullPoint_eq {point : List F}
    (hok : reconstructFullPoint (dims.map (self.fix claimPoint)) sumcheckPoint
      (self.shape dims).nextPowerOfTwo = .ok point) :
    self.contractedVars dims ≤ sumcheckPoint.length ∧
      point = (self.inputSlices claimPoint sumcheckPoint dims).reverse.flatten := by
  unfold reconstructFullPoint at hok
  obtain ⟨⟨full, skip⟩, hfold, hfull⟩ := bind_eq_ok.mp hok
  obtain rfl := Except.ok.inj hfull
  unfold Shape.nextPowerOfTwo shape at hfold
  have hall : self.contractedVars dims ≤ sumcheckPoint.length ∧
      full = (self.inputSlices claimPoint sumcheckPoint dims).reverse.flatten ∧
        skip = self.contractedVars dims := by
    clear hok hfull
    induction dims generalizing full skip with
    | nil =>
      obtain ⟨rfl, rfl⟩ := Prod.mk.inj (Except.ok.inj hfold)
      exact ⟨Nat.zero_le _, rfl, rfl⟩
    | cons c dims ih =>
      rw [List.map_cons, List.map_cons, List.map_cons, List.zip_cons_cons, List.reverse_cons,
        List.foldlM_append] at hfold
      obtain ⟨⟨before, skipped⟩, hrest, hcons⟩ := bind_eq_ok.mp hfold
      obtain ⟨hle, rfl, rfl⟩ := ih before skipped hrest
      rw [List.foldlM_cons] at hcons
      obtain ⟨last, hlast, hnil⟩ := bind_eq_ok.mp hcons
      obtain rfl := Except.ok.inj hnil
      rw [inputSlices, List.reverse_cons, List.flatten_append, List.flatten_singleton]
      by_cases hout : self.out.contains c = true
      · have hvars : self.contractedVars (c :: dims) = self.contractedVars dims := by
          rw [contractedVars, List.filter_cons_of_neg (by simp [List.contains_iff_mem.mp hout])]
          rfl
        rw [hvars, if_pos hout]
        cases hstacked : self.isStacked c with
        | true =>
          rw [fix_of_isStacked hstacked] at hlast
          obtain ⟨rfl, rfl⟩ := Prod.mk.inj (Except.ok.inj hlast)
          exact ⟨hle, rfl, rfl⟩
        | false =>
          rw [fix_of_not_isStacked hstacked, if_pos hout] at hlast
          obtain ⟨rfl, rfl⟩ := Prod.mk.inj (Except.ok.inj hlast)
          exact ⟨hle, rfl, rfl⟩
      · have hvars : self.contractedVars (c :: dims) =
            self.contractedVars dims + ceilLog2 (self.size c) := by
          rw [contractedVars, List.filter_cons_of_pos (by simpa using hout), List.map_cons,
            List.sum_cons, Nat.add_comm]
          rfl
        rw [fix, if_neg hout] at hlast
        dsimp only at hlast
        obtain ⟨upTo, hupTo, hpoint⟩ := bind_eq_ok.mp hlast
        rw [ceilLog2_nextPowerOfTwo] at hupTo hpoint
        obtain ⟨hlength, rfl⟩ := sliceTo_eq_ok.mp hupTo
        obtain ⟨rfl, rfl⟩ := Prod.mk.inj (Except.ok.inj hpoint)
        rw [hvars, if_neg hout, List.drop_take, Nat.add_sub_cancel_left]
        exact ⟨hlength, rfl, rfl⟩
  exact ⟨hall.1, hall.2.1⟩

theorem length_inputSlices (dims : List Char) :
    (self.inputSlices claimPoint sumcheckPoint dims).length = dims.length := by
  induction dims with
  | nil => rfl
  | cons c dims ih => rw [inputSlices, List.length_cons, List.length_cons, ih]

theorem map_inputPoint (hnodup : dims.Nodup) :
    dims.map (self.inputPoint claimPoint sumcheckPoint dims) =
      self.inputSlices claimPoint sumcheckPoint dims :=
  map_getD_idxOf hnodup (length_inputSlices dims) []

/-- An axis of the output has its coordinates in both inputs. -/
theorem inputPoint_of_mem_out {c : Char} (hmem : c ∈ dims) (hout : self.out.contains c = true) :
    self.inputPoint claimPoint sumcheckPoint dims c = self.outPoint claimPoint c := by
  unfold inputPoint
  induction dims with
  | nil => cases hmem
  | cons b dims ih =>
    by_cases hbc : b = c
    · rw [hbc, List.idxOf_cons_self, inputSlices, if_pos hout]
      rfl
    · have hrest := (List.mem_cons.mp hmem).resolve_left (Ne.symm hbc)
      rw [List.idxOf_cons_ne _ hbc, inputSlices, List.getD_cons_succ, ih hrest]

theorem map_length_splitSlices {vars : List Nat} (h : claimPoint.length = vars.sum) :
    (Shape.splitSlices claimPoint vars).map List.length = vars := by
  induction vars generalizing claimPoint with
  | nil => rfl
  | cons v vars ih =>
    rw [List.sum_cons] at h
    have hrest : (claimPoint.take (claimPoint.length - v)).length = vars.sum := by
      rw [List.length_take]
      omega
    rw [Shape.splitSlices, List.map_cons, ih hrest, List.length_drop]
    congr 1
    omega

theorem length_outPoint (h : claimPoint.length = (self.shape self.out).dimVars.sum) {c : Char}
    (hmem : c ∈ self.out) : (self.outPoint claimPoint c).length = ceilLog2 (self.size c) := by
  have hlengths := map_length_splitSlices h
  rw [← map_outPoint, List.map_map] at hlengths
  have hsizes : (self.shape self.out).dimVars = self.out.map fun c => ceilLog2 (self.size c) := by
    unfold Shape.dimVars shape
    rw [List.map_map]
    rfl
  rw [hsizes] at hlengths
  exact List.map_inj_left.mp hlengths c hmem

/-- The coordinates of an input have the lengths of its axes. -/
theorem fits_inputSlices (h : claimPoint.length = (self.shape self.out).dimVars.sum)
    (hvars : self.contractedVars dims ≤ sumcheckPoint.length) :
    Fits (self.shape dims) (self.inputSlices claimPoint sumcheckPoint dims) := by
  unfold Fits shape
  induction dims with
  | nil => rfl
  | cons c dims ih =>
    rw [inputSlices, List.map_cons, List.map_cons, List.map_cons]
    by_cases hout : self.out.contains c = true
    · have hrest : self.contractedVars dims ≤ sumcheckPoint.length := by
        rwa [contractedVars, List.filter_cons_of_neg (by simp [List.contains_iff_mem.mp hout])] at hvars
      rw [if_pos hout, length_outPoint h (List.contains_iff_mem.mp hout), ih hrest]
      rfl
    · rw [contractedVars, List.filter_cons_of_pos (by simpa using hout), List.map_cons,
        List.sum_cons] at hvars
      have hrest : self.contractedVars dims + ceilLog2 (self.size c) ≤ sumcheckPoint.length := by
        rw [Nat.add_comm]
        exact hvars
      have hlength : ((sumcheckPoint.drop (self.contractedVars dims)).take
          (ceilLog2 (self.size c))).length = ceilLog2 (self.size c) := by
        rw [List.length_take, List.length_drop]
        omega
      rw [if_neg hout, hlength, ih (by omega)]
      rfl

end InputPoint

/-! ## The slices of the inputs -/

section Slices

variable {F : Type} [CommRing F] (claimPoint sumcheckPoint : List F)

/-- The size of the stacked axes together. -/
def stackingSize : Nat := (Assignments.all self.stackedAxes).length

/-- The indices of the stacked axes in the slice `j`. -/
def stackedIndex (j : Fin self.stackingSize) : Char → Nat := (Assignments.all self.stackedAxes).get j

/-- The stacking coefficient of the slice `j`. -/
def coefficient (j : Fin self.stackingSize) : F :=
  weight self.stackedNames (self.outPoint claimPoint) (self.stackedIndex j)

/-- The value of the slice `j` of an input, with the outer axes fixed, at the point of the
    sumcheck. -/
def slice (dims : List Char) (tensor : List Nat → F) (j : Fin self.stackingSize) : F :=
  Multilinear.sliceValue self.size dims self.isStacked tensor
    (self.inputPoint claimPoint sumcheckPoint dims) (self.stackedIndex j)

variable {self claimPoint sumcheckPoint}

/-- The value of an input is the sum of those of its slices, with the stacking coefficients. -/
theorem eval_eq_sum_slices (h : claimPoint.length = (self.shape self.out).dimVars.sum)
    {dims : List Char} (hnodup : dims.Nodup)
    (hstacked : (dims.filter self.isStacked).Perm self.stackedNames)
    (hvars : self.contractedVars dims ≤ sumcheckPoint.length) (tensor : List Nat → F) :
    Multilinear.eval (Multilinear.paddedTable (self.shape dims) tensor)
        (self.inputSlices claimPoint sumcheckPoint dims).reverse.flatten =
      ∑ j, self.coefficient claimPoint j * self.slice claimPoint sumcheckPoint dims tensor j := by
  have hslices : dims.map (self.inputPoint claimPoint sumcheckPoint dims) =
      self.inputSlices claimPoint sumcheckPoint dims := map_inputPoint hnodup
  have haxes : (axesOf self.size (dims.filter self.isStacked)).Perm self.stackedAxes := hstacked.map _
  rw [Multilinear.eval_paddedTable (fits_inputSlices h hvars), ← hslices, shape,
    Multilinear.tensorEval_eq_sum_slices hnodup self.size self.isStacked,
    Assignments.sumOver_perm haxes]
  · unfold Assignments.sumOver
    rw [← Fin.sum_univ_fun_getElem]
    refine Finset.sum_congr rfl fun j _ => ?_
    have hpoint : ∀ c ∈ dims.filter self.isStacked,
        self.inputPoint claimPoint sumcheckPoint dims c = self.outPoint claimPoint c ∧
          self.stackedIndex j c = self.stackedIndex j c := by
      intro c hc
      obtain ⟨hmem, hc⟩ := List.mem_filter.mp hc
      simp only [isStacked, Bool.and_eq_true] at hc
      exact ⟨inputPoint_of_mem_out hmem hc.2, rfl⟩
    have hweight : weight (dims.filter self.isStacked) (self.inputPoint claimPoint sumcheckPoint dims)
        (self.stackedIndex j) = self.coefficient claimPoint j := by
      rw [Multilinear.weight_congr hpoint, Multilinear.weight_perm hstacked]
      rfl
    rw [← hweight]
    rfl
  · rw [Multilinear.axesOf_map_fst]
    exact hnodup.filter _

theorem lhs_stacked : (self.lhs.filter self.isStacked).Perm self.stackedNames := List.Perm.refl _

theorem rhs_stacked : (self.rhs.filter self.isStacked).Perm self.stackedNames := by
  apply (List.perm_ext_iff_of_nodup (self.rhs_nodup.filter _) (self.lhs_nodup.filter _)).mpr
  intro c
  simp only [List.mem_filter, isStacked, Bool.and_eq_true, List.contains_iff_mem]
  tauto

/-- The list of the stacking coefficients. -/
theorem ofFn_coefficient : List.ofFn (self.coefficient claimPoint) =
    (Assignments.all self.stackedAxes).map (weight self.stackedNames (self.outPoint claimPoint)) := by
  apply List.ext_getElem
  · rw [List.length_ofFn, List.length_map]
    rfl
  · intro i hi hi'
    rw [List.getElem_ofFn, List.getElem_map]
    rfl

end Slices

end Equation

end DeepProve
