import DeepProve.Reshape.Layout

/-!
# Claims through the layers that are not proven

The prover and the verifier hand the claim about the output of such a layer to the layer before it,
unchanged. The claim is about a padded tensor, while the layer reshapes one without padding, and checks
the number of entries only. The padded tensors are the same exactly if padding leaves the same gaps.
-/

namespace DeepProve

open Outcome

/-- A layer that is not proven. -/
inductive NonProvable where
  | reshape (reshape : Reshape)
  | flatten (flatten : Flatten)
  deriving DecidableEq, Repr

namespace NonProvable

def outputShapes (layer : NonProvable) (inputShapes : List Shape) (paddingMode : PaddingMode) :
    Outcome (List Shape) :=
  match layer with
  | .reshape layer => layer.outputShapes inputShapes paddingMode
  | .flatten layer => layer.outputShapes inputShapes paddingMode

def evaluate (layer : NonProvable) (inputs : List (WrappedTensor Int)) :
    Outcome (List (WrappedTensor Int)) :=
  match layer with
  | .reshape layer => layer.evaluateLayer inputs
  | .flatten layer => layer.evaluate inputs

end NonProvable

/-! ## What is to hold -/

/-- A claim about the padded output is one about the padded input. -/
structure CarriesClaim (unpadded padded : Shape) (input output : WrappedTensor Int) : Prop where
  shape : output.shape = unpadded
  unpaddedShape : output.unpaddedShape = unpadded
  paddedShape : output.padNextPowerOfTwo.shape = padded
  claim : ∀ (F : Type) [Field F] (point : List F),
    mle (toField F output.padNextPowerOfTwo.data) point = mle (toField F input.padNextPowerOfTwo.data) point

/-- There is an output for each input and each shape, and the claims are carried over. -/
structure CarriesClaims (inputs outputs : List (WrappedTensor Int)) (unpadded padded : List Shape) :
    Prop where
  lengthOutputs : outputs.length = inputs.length
  lengthUnpadded : unpadded.length = inputs.length
  lengthPadded : padded.length = inputs.length
  carries : ∀ (i : Nat) (input output : WrappedTensor Int) (u v : Shape),
    inputs[i]? = some input → outputs[i]? = some output →
    unpadded[i]? = some u → padded[i]? = some v → CarriesClaim u v input output

/-- Both predictions of the shapes of the outputs. -/
def Predicts (layer : NonProvable) (shapes unpadded padded : List Shape) : Prop :=
  layer.outputShapes shapes .noPadding = .ok unpadded ∧
    layer.outputShapes (shapes.map Shape.nextPowerOfTwo) .padding = .ok padded

/-- Whatever the entries of the inputs, the layer can be evaluated and the claims survive. -/
def SurvivesClaims (layer : NonProvable) (shapes : List Shape) : Prop :=
  ∀ unpadded padded, Predicts layer shapes unpadded padded →
    ∀ inputs : List (WrappedTensor Int), (inputs.map fun input => input.shape) = shapes →
      (∀ input ∈ inputs, input.isPadded = false) →
      ∃ outputs, layer.evaluate inputs = .ok outputs ∧ CarriesClaims inputs outputs unpadded padded

/-! ## When it does -/

/-- The shape is one of a tensor, and padding leaves the same gaps as before. -/
def SameGaps (shape new : Shape) : Prop :=
  (1 ≤ new.rank ∧ new.rank ≤ 4) ∧ shape.gaps = new.gaps

instance (shape new : Shape) : Decidable (SameGaps shape new) := by
  unfold SameGaps
  infer_instance

/-- The condition on the parameters of the layer and the shapes of its inputs. -/
def KeepsLayout (layer : NonProvable) (shapes : List Shape) : Prop :=
  match layer with
  | .reshape (.full newDim unpaddedNewDim) =>
    newDim = unpaddedNewDim ∧ ∀ pair ∈ shapes.zip newDim, SameGaps pair.1 pair.2
  | .reshape (.subspace inner) => ∀ shape ∈ shapes, inner.toAdd = inner.unpaddedToAdd ∧
    SameGaps shape (shape.take inner.toRemove.1 ++ inner.toAdd ++ shape.drop inner.toRemove.2)
  | .reshape (.squeeze _) => ∀ shape ∈ shapes, shape.rank ≤ 3
  | .flatten layer =>
    shapes.length = 1 ∧ (layer.padded = true ∨ ∀ shape ∈ shapes, shape.all Shape.isPowerOfTwo = true)

/-! ## The shapes of a reshape -/

theorem getElem?_zip_of {α β : Type} {l : List α} {r : List β} {i : Nat} {a : α} {b : β}
    (ha : l[i]? = some a) (hb : r[i]? = some b) : (l.zip r)[i]? = some (a, b) :=
  List.getElem?_zip_eq_some.mpr ⟨ha, hb⟩

namespace Reshape

variable {reshape : Reshape} {shapes new : List Shape}

/-- As many shapes as inputs, of as many entries. -/
theorem internalOutput_eq_ok : reshape.internalOutput shapes = .ok new ↔
    reshape.newDims shapes = .ok new ∧
      List.Forall₂ (fun (newDim shape : Shape) => newDim.numel = shape.numel) new shapes := by
  simp only [internalOutput, bind_eq_ok, ensure_eq_ok, beq_iff_eq, List.all_eq_true, List.forall₂_iff_zip,
    Prod.forall]
  constructor
  · rintro ⟨_, hnew, _, hlength, _, hnumel, hresult⟩
    obtain rfl := Except.ok.inj hresult
    exact ⟨hnew, hlength, fun hmem => hnumel _ _ hmem⟩
  · rintro ⟨hnew, hlength, hnumel⟩
    exact ⟨new, hnew, (), hlength, (), fun _ _ hmem => hnumel hmem, rfl⟩

theorem outputShapes_noPadding : reshape.outputShapes shapes .noPadding = .ok new ↔
    reshape.toUnpaddedReshape.internalOutput shapes = .ok new := by
  unfold outputShapes
  dsimp only
  rcases reshape.toUnpaddedReshape.internalOutput shapes with (_ | _ | _) | _ <;> simp

theorem outputShapes_padding : reshape.outputShapes shapes .padding = .ok new ↔
    reshape.toPaddedReshape.internalOutput shapes = .ok new := by
  unfold outputShapes
  dsimp only
  rcases reshape.toPaddedReshape.internalOutput shapes with (_ | _ | _) | _ <;> simp

theorem splice_eq_ok {shape : Shape} {range : Nat × Nat} {toAdd : List Nat} {out : Shape} :
    shape.splice range toAdd = .ok out ↔
      (range.1 ≤ range.2 ∧ range.2 ≤ shape.rank) ∧ out = shape.take range.1 ++ toAdd ++ shape.drop range.2 := by
  unfold Shape.splice
  split
  · simp; omega
  · split
    · simp; omega
    · simp only [Except.ok.injEq]
      constructor
      · rintro rfl
        exact ⟨by omega, rfl⟩
      · rintro ⟨-, rfl⟩
        rfl

/-- Padding the layer and its inputs pads its outputs. -/
theorem newDims_toPaddedReshape (h : reshape.newDims shapes = .ok new) :
    reshape.toPaddedReshape.newDims (shapes.map Shape.nextPowerOfTwo) =
      .ok (new.map Shape.nextPowerOfTwo) := by
  cases reshape with
  | full newDim unpaddedNewDim =>
    obtain rfl := Except.ok.inj h
    rfl
  | subspace inner =>
    have hnew := forall₂_of_mapM_eq_ok h
    apply mapM_eq_ok_of_forall₂
    rw [List.forall₂_map_left_iff, List.forall₂_map_right_iff]
    refine hnew.imp fun shape out hout => ?_
    obtain ⟨hrange, rfl⟩ := splice_eq_ok.mp hout
    refine splice_eq_ok.mpr ⟨?_, ?_⟩
    · simpa [Shape.rank, Shape.nextPowerOfTwo] using hrange
    · simp [Shape.nextPowerOfTwo, List.map_take, List.map_drop]
  | squeeze index =>
    simp only [newDims, bind_eq_ok, ensure_eq_ok, unwrap_eq_ok, decide_eq_true_eq] at h
    obtain ⟨shape, hshape, _, hindex, hresult⟩ := h
    obtain rfl := Except.ok.inj hresult
    have hone : DeepProve.nextPowerOfTwo 1 = 1 := rfl
    simp only [toPaddedReshape, newDims, List.getElem?_map, hshape, Option.map_some, unwrap_some, ok_bind,
      Shape.rank, Shape.nextPowerOfTwo, List.length_map]
    rw [decide_eq_true (show index < List.length shape from hindex), ensure_true, ok_bind, List.map_singleton,
      Shape.nextPowerOfTwo, List.map_insertIdx, hone]

end Reshape

/-! ## The evaluation of a reshape -/

namespace WrappedTensor

theorem isPadded_eq_false {tensor : WrappedTensor Int} :
    tensor.isPadded = false ↔ tensor.unpaddedShape = tensor.shape := by
  rw [isPadded, bne_eq_false_iff_eq]

/-- A tensor without padding keeps its data. -/
theorem reshape_eq_ok {tensor out : WrappedTensor Int} (h : tensor.isPadded = false) {new : Shape} :
    tensor.reshape new = .ok out ↔
      (1 ≤ new.rank ∧ new.rank ≤ 4) ∧ new.numel = tensor.shape.numel ∧ out.toTensor = ⟨tensor.data, new, new⟩ := by
  have hunpadded : tensor.newUnpadded new = .ok new := by
    rw [newUnpadded, h]
    rfl
  rw [reshape, hunpadded, ok_bind]
  split
  · next hrank =>
    split
    · next hnumel =>
      constructor
      · intro hout
        obtain rfl := Except.ok.inj hout
        exact ⟨hrank, hnumel, rfl⟩
      · rintro ⟨-, -, hout⟩
        cases out
        obtain rfl := hout
        rfl
    · next hnumel => exact ⟨fun h => (nomatch h), fun h => absurd h.2.1 hnumel⟩
  · next hrank => exact ⟨fun h => (nomatch h), fun h => absurd h.1 hrank⟩

/-- A tensor with a single one. -/
def unit (shape : Shape) (hrank : 1 ≤ shape.rank ∧ shape.rank ≤ 4) (k : Nat) : WrappedTensor Int where
  data := unitData shape.numel k
  shape := shape
  unpaddedShape := shape
  rank := hrank
  length := by rw [unitData, List.length_map, List.length_range]

end WrappedTensor

/-- Inputs with a single one each. -/
def unitInputs (shapes : List Shape) (hrank : ∀ shape ∈ shapes, 1 ≤ shape.rank ∧ shape.rank ≤ 4) (k : Nat) :
    List (WrappedTensor Int) :=
  shapes.pmap (fun shape h => WrappedTensor.unit shape h k) hrank

section UnitInputs

variable {shapes : List Shape} {hrank : ∀ shape ∈ shapes, 1 ≤ shape.rank ∧ shape.rank ≤ 4} {k : Nat}

theorem unitInputs_shape : ((unitInputs shapes hrank k).map fun input => input.shape) = shapes := by
  rw [unitInputs, List.map_pmap]
  conv => rhs; rw [← List.map_id shapes, ← List.pmap_eq_map hrank]
  rfl

theorem unitInputs_isPadded : ∀ input ∈ unitInputs shapes hrank k, input.isPadded = false := by
  intro input hinput
  obtain ⟨shape, hshape, rfl⟩ := List.mem_pmap.mp hinput
  exact WrappedTensor.isPadded_eq_false.mpr rfl

theorem unitInputs_getElem? {i : Nat} {shape : Shape} (h : shapes[i]? = some shape) :
    ∃ hshape, (unitInputs shapes hrank k)[i]? = some (WrappedTensor.unit shape hshape k) := by
  obtain ⟨hi, rfl⟩ := List.getElem?_eq_some_iff.mp h
  refine ⟨hrank _ (List.getElem_mem hi), ?_⟩
  rw [unitInputs, List.getElem?_pmap]
  simp [hi]

end UnitInputs

/-! ## The entries from the claims -/

/-- The claims at the vertices are the entries. -/
theorem getD_eq_of_mle_eq {xs ys : List Int}
    (h : ∀ point : List ℚ, mle (toField ℚ xs) point = mle (toField ℚ ys) point) (i : Nat) :
    xs.getD i 0 = ys.getD i 0 := by
  have hvertex := h (Multilinear.vertex i i)
  rw [mle, mle, Multilinear.eval_vertex _ Nat.lt_two_pow_self, Multilinear.eval_vertex _ Nat.lt_two_pow_self]
    at hvertex
  have hcast : ∀ zs : List Int, (toField ℚ zs).getD i 0 = ((zs.getD i 0 : Int) : ℚ) := by
    intro zs
    rw [toField, List.getD_eq_getElem?_getD, List.getD_eq_getElem?_getD, List.getElem?_map]
    cases zs[i]? <;> simp
  rw [hcast, hcast] at hvertex
  exact Int.cast_injective hvertex

theorem padNextPowerOfTwo_getD (tensor : WrappedTensor Int) {i : Nat}
    (hi : i < tensor.shape.nextPowerOfTwo.numel) :
    tensor.padNextPowerOfTwo.data.getD i 0 = paddedEntry tensor.shape tensor.data i := by
  simp [WrappedTensor.padNextPowerOfTwo, Tensor.padNextPowerOfTwo, List.getD_eq_getElem?_getD, hi]

/-! ## Reshape -/

theorem ne_nil_of_rank {shape : Shape} (h : 1 ≤ shape.rank) : shape ≠ [] :=
  List.ne_nil_of_length_pos h

namespace Reshape

variable {reshape : Reshape} {shapes unpadded padded : List Shape}

/-- What both predictions say. -/
theorem predicts (h : Predicts (.reshape reshape) shapes unpadded padded) :
    reshape.toUnpaddedReshape.newDims shapes = .ok unpadded ∧
      List.Forall₂ (fun (new shape : Shape) => new.numel = shape.numel) unpadded shapes ∧
      reshape.toPaddedReshape.newDims (shapes.map Shape.nextPowerOfTwo) = .ok padded ∧
      List.Forall₂ (fun (new shape : Shape) => new.numel = shape.nextPowerOfTwo.numel) padded shapes := by
  obtain ⟨hunpadded, hnumel⟩ := internalOutput_eq_ok.mp (outputShapes_noPadding.mp h.1)
  obtain ⟨hpadded, hnumel'⟩ := internalOutput_eq_ok.mp (outputShapes_padding.mp h.2)
  rw [List.forall₂_map_right_iff] at hnumel'
  exact ⟨hunpadded, hnumel, hpadded, hnumel'⟩

/-- The layer changes the shapes of its inputs, if there is no padding. -/
theorem evaluateLayer_eq_ok {inputs outputs : List (WrappedTensor Int)}
    (hshapes : (inputs.map fun input => input.shape) = shapes)
    (hinputs : ∀ input ∈ inputs, input.isPadded = false) :
    reshape.evaluateLayer inputs = .ok outputs ↔ ∃ new, reshape.internalOutput shapes = .ok new ∧
      List.Forall₂ (fun (pair : Shape × WrappedTensor Int) (output : WrappedTensor Int) =>
        (1 ≤ pair.1.rank ∧ pair.1.rank ≤ 4) ∧ output.toTensor = ⟨pair.2.data, pair.1, pair.1⟩)
        (new.zip inputs) outputs := by
  rw [evaluateLayer, hshapes, bind_eq_ok]
  apply exists_congr
  intro new
  apply and_congr_right
  intro hnew
  have hnumel := (internalOutput_eq_ok.mp hnew).2
  rw [← hshapes, List.forall₂_map_right_iff, List.forall₂_iff_zip] at hnumel
  -- each input is reshaped on its own
  have hstep : ∀ pair ∈ new.zip inputs, ∀ output : WrappedTensor Int,
      pair.2.reshape pair.1 = .ok output ↔
        (1 ≤ pair.1.rank ∧ pair.1.rank ≤ 4) ∧ output.toTensor = ⟨pair.2.data, pair.1, pair.1⟩ := by
    intro pair hpair output
    rw [WrappedTensor.reshape_eq_ok (hinputs _ (List.of_mem_zip hpair).2)]
    have hsame := hnumel.2 hpair
    tauto
  have hmapM : ((new.zip inputs).mapM fun (shape, input) => input.reshape shape) = .ok outputs ↔
      List.Forall₂ (fun pair output => pair.2.reshape pair.1 = .ok output) (new.zip inputs) outputs :=
    ⟨forall₂_of_mapM_eq_ok, mapM_eq_ok_of_forall₂⟩
  rw [hmapM, List.forall₂_iff_zip, List.forall₂_iff_zip]
  apply and_congr_right
  intro _
  exact ⟨fun h pair output hmem => (hstep pair (List.of_mem_zip hmem).1 output).mp (h hmem),
    fun h pair output hmem => (hstep pair (List.of_mem_zip hmem).1 output).mpr (h hmem)⟩

/-- The padded entries are those of the input if padding leaves the same gaps. -/
theorem carriesClaim {new : Shape} {input output : WrappedTensor Int}
    (hnumel : new.numel = input.shape.numel)
    (hpadded : new.nextPowerOfTwo.numel = input.shape.nextPowerOfTwo.numel)
    (houtput : output.toTensor = ⟨input.data, new, new⟩) (hgaps : SameGaps input.shape new) :
    CarriesClaim new new.nextPowerOfTwo input output := by
  obtain ⟨⟨data, shape, unpaddedShape⟩, hrank, hlength⟩ := output
  obtain ⟨rfl, rfl, rfl⟩ := Tensor.mk.inj houtput
  refine ⟨rfl, rfl, rfl, fun F _ point => ?_⟩
  congr 2
  change (List.range _).map _ = (List.range _).map _
  rw [hpadded]
  apply List.map_congr_left
  intro i hi
  exact (padded_eq_of_gaps_eq (ne_nil_of_rank input.rank.1) (ne_nil_of_rank hrank.1) hnumel.symm
    hpadded.symm hgaps.2 _ (List.mem_range.mp hi)).symm

/-- What the claims about inputs with a single one say about one of the shapes. -/
theorem carries_unitInputs {hrank : ∀ shape ∈ shapes, 1 ≤ shape.rank ∧ shape.rank ≤ 4} {k i : Nat}
    {new : List Shape} {outputs : List (WrappedTensor Int)} {shape u : Shape}
    (hnew : reshape.internalOutput shapes = .ok new)
    (heval : reshape.evaluateLayer (unitInputs shapes hrank k) = .ok outputs)
    (hcarries : CarriesClaims (unitInputs shapes hrank k) outputs unpadded padded)
    (hshape : shapes[i]? = some shape) (hu : unpadded[i]? = some u) :
    new[i]? = some u ∧ (1 ≤ u.rank ∧ u.rank ≤ 4) ∧
      ∀ j < shape.nextPowerOfTwo.numel, u.nextPowerOfTwo.numel = shape.nextPowerOfTwo.numel →
        paddedEntry shape (unitData shape.numel k) j = paddedEntry u (unitData shape.numel k) j := by
  obtain ⟨hshape', hinput⟩ := @unitInputs_getElem? shapes hrank k i shape hshape
  obtain ⟨new', hnew', houtputs⟩ := (evaluateLayer_eq_ok unitInputs_shape unitInputs_isPadded).mp heval
  obtain rfl := Except.ok.inj (hnew.symm.trans hnew')
  have hi : i < (unitInputs shapes hrank k).length := (List.getElem?_eq_some_iff.mp hinput).1
  have hlength := (internalOutput_eq_ok.mp hnew).2.length_eq
  have hcount : (unitInputs shapes hrank k).length = shapes.length := List.length_pmap
  obtain ⟨output, houtput⟩ : ∃ output, outputs[i]? = some output :=
    ⟨_, List.getElem?_eq_getElem (hcarries.lengthOutputs ▸ hi)⟩
  obtain ⟨v, hv⟩ : ∃ v, padded[i]? = some v := ⟨_, List.getElem?_eq_getElem (hcarries.lengthPadded ▸ hi)⟩
  obtain ⟨n, hn⟩ : ∃ n, new[i]? = some n := ⟨_, List.getElem?_eq_getElem (by omega)⟩
  obtain ⟨hrank', htensor⟩ := List.getElem?_of_forall₂ houtputs
    (getElem?_zip_of hn hinput) houtput
  have hclaim := hcarries.carries i _ _ _ _ hinput houtput hu hv
  dsimp only at hrank' htensor
  have hnu : n = u := by
    rw [← hclaim.shape, htensor]
  rw [hnu] at hn hrank' htensor
  refine ⟨hn, hrank', fun j hj hpadded => ?_⟩
  have hentries := getD_eq_of_mle_eq (fun point => hclaim.claim ℚ point) j
  rw [padNextPowerOfTwo_getD _ (by rw [htensor]; exact hpadded ▸ hj), padNextPowerOfTwo_getD _ hj, htensor]
    at hentries
  exact hentries.symm

/-- For which shapes the claims survive a reshape. -/
theorem survives (hrank : ∀ shape ∈ shapes, 1 ≤ shape.rank ∧ shape.rank ≤ 4) :
    SurvivesClaims (.reshape reshape) shapes ↔ ∀ unpadded padded,
      Predicts (.reshape reshape) shapes unpadded padded →
        reshape.newDims shapes = .ok unpadded ∧ ∀ pair ∈ shapes.zip unpadded, SameGaps pair.1 pair.2 := by
  constructor
  · intro hsurvives unpadded padded hpredicts
    obtain ⟨hunpadded, hnumel, hpadded, hnumel'⟩ := predicts hpredicts
    have hrun := fun k => hsurvives unpadded padded hpredicts (unitInputs shapes hrank k) unitInputs_shape
      unitInputs_isPadded
    obtain ⟨outputs, heval, hcarries⟩ := hrun 0
    obtain ⟨new, hnew, -⟩ := (evaluateLayer_eq_ok unitInputs_shape unitInputs_isPadded).mp heval
    have hsame : new = unpadded := by
      apply List.ext_getElem?
      intro i
      have hlength := (internalOutput_eq_ok.mp hnew).2.length_eq
      rcases Nat.lt_or_ge i shapes.length with hi | hi
      · have hu := List.getElem?_eq_getElem (hnumel.length_eq ▸ hi : i < unpadded.length)
        rw [hu]
        exact (carries_unitInputs hnew heval hcarries (List.getElem?_eq_getElem hi) hu).1
      · rw [List.getElem?_eq_none (hlength ▸ hi), List.getElem?_eq_none (hnumel.length_eq ▸ hi)]
    subst hsame
    have hnewDims := (internalOutput_eq_ok.mp hnew).1
    have hpads : padded = new.map Shape.nextPowerOfTwo :=
      Except.ok.inj (hpadded.symm.trans (newDims_toPaddedReshape hnewDims))
    rw [hpads, List.forall₂_map_left_iff] at hnumel'
    refine ⟨hnewDims, fun pair hpair => ?_⟩
    obtain ⟨i, hi⟩ := List.getElem?_of_mem hpair
    obtain ⟨hshape, hu⟩ := List.getElem?_zip_eq_some.mp hi
    have hcarried := fun k => (hrun k).elim fun outputs ⟨heval, hcarries⟩ =>
      carries_unitInputs hnew heval hcarries hshape hu
    have hnumelPair := List.getElem?_of_forall₂ hnumel hu hshape
    have hpaddedPair := List.getElem?_of_forall₂ hnumel' hu hshape
    have hrank' := (hcarried 0).2.1
    refine ⟨hrank', gaps_eq_of_padded_eq (ne_nil_of_rank (hrank _ (List.mem_of_getElem? hshape)).1)
      (ne_nil_of_rank hrank'.1) hnumelPair.symm hpaddedPair.symm fun k j hj => ?_⟩
    exact (hcarried k).2.2 j hj hpaddedPair
  · intro h unpadded padded hpredicts inputs hshapes hinputs
    obtain ⟨hunpadded, hnumel, hpadded, hnumel'⟩ := predicts hpredicts
    obtain ⟨hnew, hgaps⟩ := h unpadded padded hpredicts
    have hpads : padded = unpadded.map Shape.nextPowerOfTwo :=
      Except.ok.inj (hpadded.symm.trans (newDims_toPaddedReshape hnew))
    subst hpads
    rw [List.forall₂_map_left_iff] at hnumel'
    have hinternal := internalOutput_eq_ok.mpr ⟨hnew, hnumel⟩
    subst hshapes
    rw [List.forall₂_map_right_iff] at hnumel hnumel'
    obtain ⟨outputs, heval⟩ : ∃ outputs, reshape.evaluateLayer inputs = .ok outputs := by
      rw [evaluateLayer, hinternal, ok_bind]
      apply exists_mapM_eq_ok
      intro pair hpair
      have hsame := (List.forall₂_iff_zip.mp hnumel).2 hpair
      have hmem : (pair.2.shape, pair.1) ∈ (inputs.map fun input => input.shape).zip unpadded := by
        obtain ⟨i, hi⟩ := List.getElem?_of_mem hpair
        obtain ⟨hu, hinput⟩ := List.getElem?_zip_eq_some.mp hi
        refine List.mem_of_getElem? (getElem?_zip_of ?_ hu)
        rw [List.getElem?_map, hinput]
        rfl
      exact ⟨⟨⟨pair.2.data, pair.1, pair.1⟩, (hgaps _ hmem).1, pair.2.length.trans hsame.symm⟩,
        (WrappedTensor.reshape_eq_ok (hinputs _ (List.of_mem_zip hpair).2)).mpr ⟨(hgaps _ hmem).1, hsame, rfl⟩⟩
    obtain ⟨new, hnew', houtputs⟩ := (evaluateLayer_eq_ok rfl hinputs).mp heval
    obtain rfl := Except.ok.inj (hinternal.symm.trans hnew')
    refine ⟨outputs, heval, ?_, hnumel.length_eq, by rw [List.length_map]; exact hnumel.length_eq, ?_⟩
    · rw [← houtputs.length_eq, List.length_zip, hnumel.length_eq, Nat.min_self]
    · intro i input output u v hinput houtput hu hv
      obtain ⟨-, htensor⟩ := List.getElem?_of_forall₂ houtputs
        (getElem?_zip_of hu hinput) houtput
      rw [List.getElem?_map, hu, Option.map_some, Option.some.injEq] at hv
      rw [← hv]
      have hmem : (input.shape, u) ∈ (inputs.map fun input => input.shape).zip unpadded := by
        refine List.mem_of_getElem? (getElem?_zip_of ?_ hu)
        rw [List.getElem?_map, hinput]
        rfl
      exact carriesClaim (List.getElem?_of_forall₂ hnumel hu hinput) (List.getElem?_of_forall₂ hnumel' hu hinput)
        htensor (hgaps _ hmem)

/-- The condition, for each kind of reshape. -/
theorem keepsLayout_iff (hpredicts : Predicts (.reshape reshape) shapes unpadded padded) :
    KeepsLayout (.reshape reshape) shapes ↔
      reshape.newDims shapes = .ok unpadded ∧ ∀ pair ∈ shapes.zip unpadded, SameGaps pair.1 pair.2 := by
  obtain ⟨hunpadded, hnumel, -⟩ := predicts hpredicts
  cases reshape with
  | full newDim unpaddedNewDim =>
    obtain rfl : unpaddedNewDim = unpadded := Except.ok.inj hunpadded
    rw [KeepsLayout, newDims, Except.ok.injEq]
    constructor
    · rintro ⟨rfl, hgaps⟩
      exact ⟨rfl, hgaps⟩
    · rintro ⟨rfl, hgaps⟩
      exact ⟨rfl, hgaps⟩
  | subspace inner =>
    have hsplice : List.Forall₂ (fun (shape out : Shape) =>
        shape.splice inner.toRemove inner.unpaddedToAdd = .ok out) shapes unpadded :=
      forall₂_of_mapM_eq_ok hunpadded
    have hnewDims : (Reshape.subspace inner).newDims shapes = .ok unpadded ↔ List.Forall₂
        (fun (shape out : Shape) => shape.splice inner.toRemove inner.toAdd = .ok out) shapes unpadded :=
      ⟨forall₂_of_mapM_eq_ok, mapM_eq_ok_of_forall₂⟩
    rw [hnewDims, KeepsLayout]
    clear hnewDims hpredicts hunpadded hnumel
    induction hsplice with
    | nil => simp
    | @cons shape out shapes unpadded hout _ ih =>
      obtain ⟨hrange, rfl⟩ := splice_eq_ok.mp hout
      rw [List.forall_mem_cons, List.forall₂_cons, List.zip_cons_cons, List.forall_mem_cons, splice_eq_ok]
      have happend : shape.take inner.toRemove.1 ++ inner.unpaddedToAdd ++ shape.drop inner.toRemove.2 =
          shape.take inner.toRemove.1 ++ inner.toAdd ++ shape.drop inner.toRemove.2 ↔
            inner.toAdd = inner.unpaddedToAdd := by
        rw [List.append_left_inj, List.append_right_inj, eq_comm]
      rw [happend]
      constructor
      · rintro ⟨⟨hadd, hgaps⟩, hrest⟩
        obtain ⟨hout, hrestGaps⟩ := ih.mp hrest
        exact ⟨⟨⟨hrange, hadd⟩, hout⟩, hadd ▸ hgaps, hrestGaps⟩
      · rintro ⟨⟨⟨-, hadd⟩, hout⟩, hgaps, hrestGaps⟩
        exact ⟨⟨hadd, hadd ▸ hgaps⟩, ih.mpr ⟨hout, hrestGaps⟩⟩
  | squeeze index =>
    have hnew : (Reshape.squeeze index).newDims shapes = .ok unpadded := hunpadded
    have hsteps := hnew
    simp only [newDims, bind_eq_ok, ensure_eq_ok, unwrap_eq_ok, decide_eq_true_eq] at hsteps
    obtain ⟨shape, hshape, _, hindex, hresult⟩ := hsteps
    obtain rfl := Except.ok.inj hresult
    have hlength : shapes.length = 1 := hnumel.length_eq.symm
    obtain ⟨first, rfl⟩ := List.length_eq_one_iff.mp hlength
    obtain rfl := Option.some.inj hshape
    have hgaps : first.gaps = Shape.gaps (first.insertIdx index 1) :=
      (RowMajor.gaps_insertIdx_one rfl (Nat.le_of_lt hindex)).symm
    have hrank : Shape.rank (first.insertIdx index 1) = first.rank + 1 :=
      List.length_insertIdx_of_le_length (Nat.le_of_lt hindex) 1
    rw [KeepsLayout, List.forall_mem_singleton, List.zip_cons_cons, List.zip_nil_left,
      List.forall_mem_singleton, SameGaps, hrank]
    constructor
    · intro hle
      exact ⟨hnew, ⟨by omega, by omega⟩, hgaps⟩
    · rintro ⟨-, ⟨-, hle⟩, -⟩
      omega

/-! ## After the model is padded -/

end Reshape

/-! ## Flatten -/

/-- The data of a vector whose length is a power of two. -/
theorem padNextPowerOfTwo_vector {tensor : WrappedTensor Int} {n : Nat} (h : tensor.shape = [2 ^ n]) :
    tensor.padNextPowerOfTwo.data = tensor.data := by
  have hlength : tensor.data.length = 2 ^ n := by
    rw [tensor.length, h]
    simp [Shape.numel]
  have hsize : tensor.shape.nextPowerOfTwo.numel = 2 ^ n := by
    rw [h, Shape.nextPowerOfTwo, List.map_singleton, nextPowerOfTwo, Nat.clog_pow _ _ (by decide)]
    simp [Shape.numel]
  change (List.range _).map _ = _
  rw [hsize, h]
  apply List.ext_getElem
  · rw [List.length_map, List.length_range, hlength]
  · intro i hi hi'
    rw [List.getElem_map, List.getElem_range]
    have hlt : i < 2 ^ n := hlength ▸ hi'
    simp [paddedEntry, Shape.nextPowerOfTwo, Shape.numel, hlt, hi']

/-- A flattened tensor is a claim about the padded input. -/
theorem Flatten.evaluate_singleton (layer : Flatten) (input : WrappedTensor Int) :
    ∃ output, layer.evaluate [input] = .ok [output] ∧
      CarriesClaim [input.shape.nextPowerOfTwo.numel] [input.shape.nextPowerOfTwo.numel] input output := by
  refine ⟨_, rfl, rfl, rfl, ?_, fun F _ point => ?_⟩
  · change [nextPowerOfTwo input.shape.nextPowerOfTwo.numel] = _
    rw [Shape.numel_nextPowerOfTwo, nextPowerOfTwo, Nat.clog_pow _ _ (by decide)]
  · congr 2
    refine padNextPowerOfTwo_vector (n := input.shape.dimVars.sum) ?_
    change [input.shape.nextPowerOfTwo.numel] = _
    rw [Shape.numel_nextPowerOfTwo]

namespace Flatten

variable {layer : Flatten} {shapes : List Shape}

theorem outputShapes_padding : layer.outputShapes (shapes.map Shape.nextPowerOfTwo) .padding =
    .ok (shapes.map fun shape => [shape.nextPowerOfTwo.numel]) := by
  rw [outputShapes]
  · rw [List.map_map]
    rfl
  · exact fun _ h => nomatch h

/-- The prediction without padding is that of the padded shape, or needs one. -/
theorem outputShapes_noPadding {shape : Shape} :
    layer.outputShapes [shape] .noPadding = .ok [[shape.nextPowerOfTwo.numel]] ↔
      layer.padded = true ∨ shape.all Shape.isPowerOfTwo = true := by
  obtain ⟨padded⟩ := layer
  cases padded with
  | true => exact ⟨fun _ => .inl rfl, fun _ => rfl⟩
  | false =>
    change Except.ok [[shape.numel]] = Except.ok [[shape.nextPowerOfTwo.numel]] ↔ _
    rw [Except.ok.injEq, List.singleton_inj, List.singleton_inj]
    constructor
    · intro h
      exact .inr (Shape.all_isPowerOfTwo_of_numel_eq h.symm)
    · rintro (h | h)
      · cases h
      · rw [Shape.nextPowerOfTwo_eq_self h]

/-- For which shapes the claims survive a flatten layer. -/
theorem survives (hrank : ∀ shape ∈ shapes, 1 ≤ shape.rank ∧ shape.rank ≤ 4) :
    SurvivesClaims (.flatten layer) shapes ↔ ∀ unpadded padded,
      Predicts (.flatten layer) shapes unpadded padded → KeepsLayout (.flatten layer) shapes := by
  constructor
  · intro h unpadded padded hpredicts
    obtain ⟨outputs, heval, hcarries⟩ := h unpadded padded hpredicts (unitInputs shapes hrank 0)
      unitInputs_shape unitInputs_isPadded
    have hcount : (unitInputs shapes hrank 0).length = shapes.length := List.length_pmap
    have hone : shapes.length = 1 := by
      simp only [NonProvable.evaluate, evaluate, bind_eq_ok, ensure_eq_ok, beq_iff_eq] at heval
      obtain ⟨_, hone, -⟩ := heval
      exact hcount.symm.trans hone
    obtain ⟨shape, rfl⟩ := List.length_eq_one_iff.mp hone
    refine ⟨rfl, ?_⟩
    rw [List.forall_mem_singleton, ← outputShapes_noPadding]
    obtain ⟨output, heval', hcarry⟩ := layer.evaluate_singleton
      (WrappedTensor.unit shape (hrank shape List.mem_cons_self) 0)
    obtain rfl := Except.ok.inj (heval'.symm.trans heval)
    obtain ⟨u, rfl⟩ := List.length_eq_one_iff.mp (hcarries.lengthUnpadded.trans hcount)
    obtain ⟨v, rfl⟩ := List.length_eq_one_iff.mp (hcarries.lengthPadded.trans hcount)
    have hclaim := hcarries.carries 0 _ _ _ _ rfl rfl rfl rfl
    have hu : u = [shape.nextPowerOfTwo.numel] := hclaim.shape.symm.trans hcarry.shape
    exact hu ▸ hpredicts.1
  · intro h unpadded' padded hpredicts inputs hshapes hinputs
    obtain ⟨hone, hpadded⟩ := h unpadded' padded hpredicts
    obtain ⟨shape, rfl⟩ := List.length_eq_one_iff.mp hone
    have hcount : inputs.length = 1 := by simpa using congrArg List.length hshapes
    obtain ⟨input, rfl⟩ := List.length_eq_one_iff.mp hcount
    obtain rfl : input.shape = shape := (List.cons.inj hshapes).1
    rw [List.forall_mem_singleton, ← outputShapes_noPadding] at hpadded
    obtain rfl := Except.ok.inj (hpadded.symm.trans hpredicts.1)
    obtain rfl := Except.ok.inj (outputShapes_padding.symm.trans hpredicts.2)
    obtain ⟨output, heval, hcarry⟩ := layer.evaluate_singleton input
    refine ⟨[output], heval, rfl, rfl, rfl, ?_⟩
    rintro (_ | i) _ _ _ _ hinput houtput hu hv
    · obtain rfl := Option.some.inj hinput
      obtain rfl := Option.some.inj houtput
      obtain rfl := Option.some.inj hu
      obtain rfl := Option.some.inj hv
      exact hcarry
    · cases hinput

end Flatten

/-! ## All layers -/

/-- The claims survive exactly if, whenever both predictions succeed, the layer has the shapes without
    padding and padding leaves the same gaps before and after it. -/
theorem survivesClaims_iff (layer : NonProvable) (shapes : List Shape)
    (hrank : ∀ shape ∈ shapes, 1 ≤ shape.rank ∧ shape.rank ≤ 4) :
    SurvivesClaims layer shapes ↔
      ∀ unpadded padded, Predicts layer shapes unpadded padded → KeepsLayout layer shapes := by
  cases layer with
  | reshape reshape =>
    rw [Reshape.survives hrank]
    exact forall_congr' fun unpadded => forall_congr' fun padded => forall_congr' fun hpredicts =>
      (Reshape.keepsLayout_iff hpredicts).symm
  | flatten layer => exact Flatten.survives hrank

/-- A matrix of two rows of four is cut into rows of two. -/
theorem survivesClaims_halfRows :
    SurvivesClaims (.reshape (.newFixed [[4, 2]])) [[2, 4]] := by
  refine (survivesClaims_iff _ _ (by decide)).mpr fun _ _ _ => ⟨rfl, ?_⟩
  decide

/-- A vector of six entries is cut into two rows of three. The padding comes after each row. -/
theorem not_survivesClaims_twoRows : ¬ SurvivesClaims (.reshape (.newFixed [[2, 3]])) [[6]] := by
  intro h
  obtain ⟨outputs, heval, hcarries⟩ := h [[2, 3]] [[2, 4]] ⟨rfl, rfl⟩
    (unitInputs [[6]] (by decide) 3) unitInputs_shape unitInputs_isPadded
  obtain ⟨-, -, hentries⟩ := Reshape.carries_unitInputs (i := 0) rfl heval hcarries rfl rfl
  have hentry := hentries 3 (by decide) rfl
  revert hentry
  decide

end DeepProve
