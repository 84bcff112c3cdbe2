import DeepProve.EinSum.Axis
import DeepProve.Quantization.ScalingFactor
import DeepProve.Tensor

/-!
# The bit sizes of a quantised Einstein summation

`layers/einsum/quantise.rs`: for each right input the bits of the results, which go into its
requantisation, and the scaling of its bias. An output is a sum of products over the contracted
axes, and the bias.

The bits leave no room for a bias, whose domain is that of all signed numbers of these bits; and
without a bias the largest products can fill the bits.
-/

namespace DeepProve

open Outcome BitWidth Assignments

/-- The parts of an Einstein summation that are quantised. -/
structure EinSum (T : Type) where
  mapping : AxesMapping
  constantTensors : List (Option (Tensor T))
  biases : List (Option (Tensor T))
  requantise : Bool

/-- What is computed for a right input. -/
structure QuantisedRhs (T : Type) where
  intermediateBitSize : Nat
  /-- The scaling of the weights, or of the input. -/
  rhsScaling : ScalingFactor T
  biasScaling : ScalingFactor T
  weight : Option (Tensor Int)
  bias : Option (Tensor Int)
  requant : Option (Requant T)
  outputScaling : ScalingFactor T

namespace EinSum

variable {fl : ScaleFloats}

/-- `max_abs`. -/
def maxAbs (tensor : Tensor fl.F32) : fl.F32 :=
  tensor.data.foldl (fun max x => fl.max max (fl.abs x)) fl.zero

/-- `quantize` of a tensor. -/
def quantizeTensor (scaling : ScalingFactor fl.F32) (tensor : Tensor fl.F32) : Tensor Int where
  data := tensor.data.map scaling.quantize
  shape := tensor.shape
  unpaddedShape := tensor.unpaddedShape

section Quantise

variable (bitLen : Nat) (self : EinSum fl.F32)

/-- The requantisation, or the scaling of the results themselves. -/
def quantiseOutput (lhsInputScaling rhsScaling biasScaling outputScaling : ScalingFactor fl.F32)
    (intermediateBitSize : Nat) : Outcome (Option (Requant fl.F32) × ScalingFactor fl.F32) :=
  if self.requantise then do
    let requant ← Requant.fromScalingFactors fl bitLen lhsInputScaling rhsScaling outputScaling
      intermediateBitSize
    .ok (some requant, outputScaling)
  else do
    let bits ← usizeSub intermediateBitSize 1
    let domain ← signedDomain bits
    .ok (none, ⟨outputScaling.min, outputScaling.max, biasScaling.scale, domain⟩)

/-- One right input: a constant tensor, or the next input. -/
def quantiseRhs (lhsInputScaling : ScalingFactor fl.F32) (contractionBits : Nat)
    (acc : List (QuantisedRhs fl.F32) × List (ScalingFactor fl.F32))
    (entry : Option (Tensor fl.F32) × Option (Tensor fl.F32) × ScalingFactor fl.F32) :
    Outcome (List (QuantisedRhs fl.F32) × List (ScalingFactor fl.F32)) :=
  let (outputs, inputScalings) := acc
  let (weightOpt, biasOpt, outputScaling) := entry
  let lhsBitSize := lhsInputScaling.bitSize
  match weightOpt with
  | some weightTensor => do
    let intermediateBitSize :=
      if biasOpt.isSome then lhsBitSize + bitLen + contractionBits + 1
      else lhsBitSize + bitLen + contractionBits
    let biasBits ← usizeSub intermediateBitSize 1
    let (weightScaling, biasScaling) ← ScalingFactor.modelScalingFactorFromTensorAndBias fl bitLen
      lhsInputScaling (maxAbs weightTensor) biasBits
    let (requant, outputScaling) ← self.quantiseOutput bitLen lhsInputScaling weightScaling
      biasScaling outputScaling intermediateBitSize
    .ok (outputs ++ [{
      intermediateBitSize := intermediateBitSize
      rhsScaling := weightScaling
      biasScaling := biasScaling
      weight := some (quantizeTensor weightScaling weightTensor)
      bias := biasOpt.map (quantizeTensor biasScaling)
      requant := requant
      outputScaling := outputScaling }], inputScalings)
  | none => do
    let rhsInputScaling ← unwrap inputScalings.head?
      "Missing input scaling factor for einsum input tensor"
    let rhsBitSize := rhsInputScaling.bitSize
    let intermediateBitSize :=
      if biasOpt.isSome then lhsBitSize + rhsBitSize + contractionBits + 2
      else lhsBitSize + rhsBitSize + contractionBits + 1
    let biasBits ← usizeSub intermediateBitSize 1
    let biasScaling ← ScalingFactor.biasScaling fl lhsInputScaling rhsInputScaling biasBits
    let (requant, outputScaling) ← self.quantiseOutput bitLen lhsInputScaling rhsInputScaling
      biasScaling outputScaling intermediateBitSize
    .ok (outputs ++ [{
      intermediateBitSize := intermediateBitSize
      rhsScaling := rhsInputScaling
      biasScaling := biasScaling
      weight := none
      bias := biasOpt.map (quantizeTensor biasScaling)
      requant := requant
      outputScaling := outputScaling }], inputScalings.tail)

/-- The shapes of all inputs, those of constant tensors included. -/
def fullShapes (unpaddedInputShapes : List Shape) : Outcome (List Shape) := do
  let lhsUnpaddedShape ← okOr unpaddedInputShapes.head? "Missing LHS unpadded input shape"
  let (shapes, _) ← self.constantTensors.foldlM (fun (shapes, inputShapes) tensor =>
      match tensor with
      | some tensor => .ok (shapes ++ [tensor.shape], inputShapes)
      | none => do
        let shape ← okOr (List.head? inputShapes)
          "Missing unpadded input shape for einsum input tensor"
        .ok (shapes ++ [shape], List.tail inputShapes))
    (([] : List Shape), unpaddedInputShapes.tail)
  .ok (lhsUnpaddedShape :: shapes)

/-- `quantise`: what is computed for each right input. -/
def quantise (inputScalingFactors outputScalingFactors : List (ScalingFactor fl.F32))
    (unpaddedInputShapes : List Shape) : Outcome (List (QuantisedRhs fl.F32)) := do
  let outputCount := self.mapping.outputCount
  ensure (outputScalingFactors.length == outputCount)
    s!"Number of output scaling factors ({outputScalingFactors.length}) does not match number of outputs (expected: {outputCount} outputs)"
  let lhsInputScaling ← okOr inputScalingFactors.head? "Missing LHS input scaling factor"
  let fullShapes ← self.fullShapes unpaddedInputShapes
  let sizes ← self.mapping.axesSizes fullShapes
  let contractionBits := ceilLog2 sizes.contracted
  let (outputs, _) ←
    (self.constantTensors.zip (self.biases.zip outputScalingFactors)).foldlM
      (self.quantiseRhs bitLen lhsInputScaling contractionBits) ([], inputScalingFactors.tail)
  .ok outputs

end Quantise

/-- The domain of a right input: that of the weights of a constant tensor, or that of the next
    input. -/
def domainOf (bitLen : Nat) (weightOpt : Option (Tensor fl.F32))
    (inputScaling : Option (ScalingFactor fl.F32)) : Option (Int × Int) :=
  match weightOpt with
  | some _ => some (-2 ^ (bitLen - 1), 2 ^ (bitLen - 1) - 1)
  | none => inputScaling.map ScalingFactor.quantizedDomain

/-- The domain of the right input of an output. -/
def rhsDomain (bitLen : Nat) (self : EinSum fl.F32)
    (inputScalingFactors : List (ScalingFactor fl.F32)) (outputId : Nat) : Option (Int × Int) := do
  let weightOpt ← self.constantTensors[outputId]?
  domainOf bitLen weightOpt
    inputScalingFactors.tail[(self.constantTensors.take outputId).countP Option.isNone]?

/-- Whether an output has a bias. -/
def hasBias (self : EinSum fl.F32) (outputId : Nat) : Bool :=
  self.biases[outputId]?.join.isSome

/-! ## The values of the outputs -/

section Values

/-- The axes with their sizes. -/
def axisSizes (mapping : AxesMapping) (shapes : List Shape) : Outcome (List (Axis × Nat)) :=
  mapping.axes.mapM fun axis => do
    let (inputId, pos) ← okOr (AxesMapping.firstInput axis)
      s!"No present dimension found for axis {axis.repr}"
    let dimSize ← AxesMapping.inputSize shapes axis inputId pos
    .ok (axis, dimSize)

/-- The names and sizes of the contracted axes. -/
def contractedAxes (sizes : List (Axis × Nat)) : List (Char × Nat) :=
  (sizes.filter fun (axis, _) => axis.axisType = .contracted).map fun (axis, n) => (axis.repr, n)

/-- The names and sizes of the other axes. -/
def freeAxes (sizes : List (Axis × Nat)) : List (Char × Nat) :=
  (sizes.filter fun (axis, _) => axis.axisType ≠ .contracted).map fun (axis, n) => (axis.repr, n)

/-- The index of a tensor at an assignment to the axes. -/
def indexAt (axes : List Axis) (dimension : Axis → Dimension) (σ : Char → Nat) : List Nat :=
  (List.range (axes.countP fun axis => (dimension axis).isPresent)).map fun pos =>
    match axes.find? fun axis => dimension axis = .present pos with
    | some axis => σ axis.repr
    | none => 0

/-- The tensors of one operation. -/
structure Operands where
  lhs : List Nat → Int
  rhs : List Nat → Int
  bias : Option (List Nat → Int)

/-- An output: the sum over the contracted axes, and the bias. -/
def outputValue (axes : List Axis) (contracted : List (Char × Nat)) (outputId biasId : Nat)
    (operands : Operands) (σ : Char → Nat) : Int :=
  let products := sumOver contracted fun τ =>
    let ρ := override (contracted.map Prod.fst) τ σ
    operands.lhs (indexAt axes Axis.lhsInput ρ) *
      operands.rhs (indexAt axes (fun axis => axis.rhsInputs.getD outputId .absent) ρ)
  match operands.bias with
  | some bias => products + bias (indexAt axes (fun axis => axis.biases.getD biasId .absent) σ)
  | none => products

/-- All values of an output. The biases that there are have consecutive numbers. -/
def outputValues (self : EinSum fl.F32) (sizes : List (Axis × Nat)) (outputId : Nat)
    (operands : Operands) : List Int :=
  let biasId := (self.biases.take outputId).countP Option.isSome
  (all (freeAxes sizes)).map
    (outputValue self.mapping.axes (contractedAxes sizes) outputId biasId operands)

end Values

/-! ## The computed bit sizes -/

section Spec

variable {bitLen : Nat} {self : EinSum fl.F32} {lhsInputScaling : ScalingFactor fl.F32}
  {contractionBits : Nat}

/-- The bits of the sums of products, one for the sign, and one more for a bias. The bias may be any
    signed number of all these bits. -/
structure HasBits (bitLen : Nat) (lhsInputScaling : ScalingFactor fl.F32) (contractionBits : Nat)
    (r : QuantisedRhs fl.F32) : Prop where
  intermediateBitSize : r.intermediateBitSize = bits lhsInputScaling.quantizedDomain +
    bits r.rhsScaling.quantizedDomain + contractionBits + 1 + if r.bias.isSome then 1 else 0
  biasDomain : r.biasScaling.quantizedDomain =
    (-2 ^ (r.intermediateBitSize - 1), 2 ^ (r.intermediateBitSize - 1) - 1)
  requant : ∀ requant, r.requant = some requant → ∃ multiplier outputScaling,
    Requant.fromMultiplier fl bitLen multiplier r.intermediateBitSize outputScaling = .ok requant

theorem HasBits.within_iff {r : QuantisedRhs fl.F32}
    (h : HasBits bitLen lhsInputScaling contractionBits r) (b : Int) :
    Within r.biasScaling.quantizedDomain b ↔ InSigned r.intermediateBitSize b := by
  rw [h.biasDomain]
  unfold Within InSigned
  omega

theorem bits_signedDomain (n : Nat) : bits (-2 ^ n, 2 ^ n - 1) = n := by
  have hmax : max (2 ^ n - 1 : Int).natAbs (-2 ^ n : Int).natAbs = 2 ^ n := by
    have hcast : ((2 ^ n : Nat) : Int) = 2 ^ n := by push_cast; rfl
    have hpos : 0 < 2 ^ n := Nat.two_pow_pos n
    omega
  rw [bits, hmax, Nat.clog_pow _ _ (by decide)]

theorem bits_defaultDomain {domain : Int × Int} (h : defaultDomain bitLen = .ok domain) :
    bitLen = bits domain + 1 := by
  obtain ⟨n, hn, h⟩ := bind_eq_ok.mp h
  obtain ⟨hle, rfl⟩ := usizeSub_eq_ok.mp hn
  rw [signedDomain_eq_ok h, bits_signedDomain]
  omega

variable {biasScaling : ScalingFactor fl.F32}

theorem biasScaling_domain {input model : ScalingFactor fl.F32} {n : Nat}
    (h : ScalingFactor.biasScaling fl input model n = .ok biasScaling) :
    biasScaling.quantizedDomain = (-2 ^ n, 2 ^ n - 1) := by
  obtain ⟨domain, hdomain, h⟩ := bind_eq_ok.mp h
  rw [← Except.ok.inj h]
  exact signedDomain_eq_ok hdomain

theorem quantiseOutput_requant {rhsScaling outputScaling scaling : ScalingFactor fl.F32} {n : Nat}
    {requant : Option (Requant fl.F32)}
    (h : self.quantiseOutput bitLen lhsInputScaling rhsScaling biasScaling outputScaling n =
      .ok (requant, scaling)) (q : Requant fl.F32) (hq : requant = some q) :
    ∃ multiplier outputScaling, Requant.fromMultiplier fl bitLen multiplier n outputScaling =
      .ok q := by
  unfold quantiseOutput at h
  split at h
  · obtain ⟨q', hq', h⟩ := bind_eq_ok.mp h
    obtain ⟨rfl, _⟩ := Prod.mk.inj (Except.ok.inj h)
    exact ⟨_, _, Option.some.inj hq ▸ hq'⟩
  · obtain ⟨_, _, h⟩ := bind_eq_ok.mp h
    obtain ⟨_, _, h⟩ := bind_eq_ok.mp h
    obtain ⟨rfl, _⟩ := Prod.mk.inj (Except.ok.inj h)
    cases hq

theorem defaultDomain_eq {domain : Int × Int} (h : defaultDomain bitLen = .ok domain) :
    domain = (-2 ^ (bitLen - 1), 2 ^ (bitLen - 1) - 1) := by
  obtain ⟨n, hn, h⟩ := bind_eq_ok.mp h
  obtain ⟨_, rfl⟩ := usizeSub_eq_ok.mp hn
  exact signedDomain_eq_ok h

/-- One right input. -/
theorem quantiseRhs_eq_ok
    {acc acc' : List (QuantisedRhs fl.F32) × List (ScalingFactor fl.F32)}
    {entry : Option (Tensor fl.F32) × Option (Tensor fl.F32) × ScalingFactor fl.F32}
    (h : self.quantiseRhs bitLen lhsInputScaling contractionBits acc entry = .ok acc') :
    ∃ r, acc'.1 = acc.1 ++ [r] ∧ HasBits bitLen lhsInputScaling contractionBits r ∧
      r.bias.isSome = entry.2.1.isSome ∧
      domainOf bitLen entry.1 acc.2.head? = some r.rhsScaling.quantizedDomain ∧
      acc'.2 = acc.2.drop (if entry.1.isNone then 1 else 0) := by
  obtain ⟨outputs, inputScalings⟩ := acc
  obtain ⟨weightOpt, biasOpt, outputScaling⟩ := entry
  cases weightOpt with
  | some weightTensor =>
    obtain ⟨biasBits, hbiasBits, h⟩ := bind_eq_ok.mp h
    obtain ⟨hpos, rfl⟩ := usizeSub_eq_ok.mp hbiasBits
    obtain ⟨⟨weightScaling, biasScaling⟩, hscalings, h⟩ := bind_eq_ok.mp h
    obtain ⟨⟨requant, scaling⟩, hrequant, h⟩ := bind_eq_ok.mp h
    obtain ⟨domain, hdomain, hscalings⟩ := bind_eq_ok.mp hscalings
    obtain ⟨biasScaling', hbias, hscalings⟩ := bind_eq_ok.mp hscalings
    obtain ⟨rfl, rfl⟩ := Prod.mk.inj (Except.ok.inj hscalings)
    rw [← Except.ok.inj h]
    refine ⟨_, rfl, ⟨?_, biasScaling_domain hbias, quantiseOutput_requant hrequant⟩,
      Option.isSome_map, congrArg some (defaultDomain_eq hdomain).symm, rfl⟩
    have hbits := bits_defaultDomain hdomain
    show (if biasOpt.isSome then _ else _) = _
    rw [Option.isSome_map, lhsInputScaling.bitSize_eq]
    show _ = _ + bits domain + _ + 1 + _
    split <;> omega
  | none =>
    obtain ⟨rhsInputScaling, hhead, h⟩ := bind_eq_ok.mp h
    rw [unwrap_eq_ok] at hhead
    obtain ⟨biasBits, hbiasBits, h⟩ := bind_eq_ok.mp h
    obtain ⟨hpos, rfl⟩ := usizeSub_eq_ok.mp hbiasBits
    obtain ⟨biasScaling, hbias, h⟩ := bind_eq_ok.mp h
    obtain ⟨⟨requant, scaling⟩, hrequant, h⟩ := bind_eq_ok.mp h
    rw [← Except.ok.inj h]
    refine ⟨_, rfl, ⟨?_, biasScaling_domain hbias, quantiseOutput_requant hrequant⟩,
      Option.isSome_map, congrArg (Option.map ScalingFactor.quantizedDomain) hhead,
      List.drop_one.symm⟩
    show (if biasOpt.isSome then _ else _) = _
    rw [Option.isSome_map, lhsInputScaling.bitSize_eq, rhsInputScaling.bitSize_eq]
    show _ = _ + bits rhsInputScaling.quantizedDomain + _ + 1 + _
    split <;> omega

/-- The right inputs so far: each has its bits, its domain and maybe a bias. -/
structure Quantised (bitLen : Nat) (lhsInputScaling : ScalingFactor fl.F32) (contractionBits : Nat)
    (inputScalings : List (ScalingFactor fl.F32))
    (pre : List (Option (Tensor fl.F32) × Option (Tensor fl.F32) × ScalingFactor fl.F32))
    (acc : List (QuantisedRhs fl.F32) × List (ScalingFactor fl.F32)) : Prop where
  length : acc.1.length = pre.length
  left : acc.2 = inputScalings.drop (pre.countP fun entry => entry.1.isNone)
  spec : ∀ (k : Nat) entry r, pre[k]? = some entry → acc.1[k]? = some r →
    HasBits bitLen lhsInputScaling contractionBits r ∧ r.bias.isSome = entry.2.1.isSome ∧
      domainOf bitLen entry.1 inputScalings[(pre.take k).countP fun entry => entry.1.isNone]? =
        some r.rhsScaling.quantizedDomain

/-- One more right input. -/
theorem Quantised.step {inputScalings : List (ScalingFactor fl.F32)}
    {pre : List (Option (Tensor fl.F32) × Option (Tensor fl.F32) × ScalingFactor fl.F32)}
    {acc acc' : List (QuantisedRhs fl.F32) × List (ScalingFactor fl.F32)}
    (h : Quantised bitLen lhsInputScaling contractionBits inputScalings pre acc)
    {entry : Option (Tensor fl.F32) × Option (Tensor fl.F32) × ScalingFactor fl.F32}
    (hstep : self.quantiseRhs bitLen lhsInputScaling contractionBits acc entry = .ok acc') :
    Quantised bitLen lhsInputScaling contractionBits inputScalings (pre ++ [entry]) acc' := by
  obtain ⟨r', hr', hbits, hbias, hdomain, hleft⟩ := quantiseRhs_eq_ok hstep
  constructor
  case length => rw [hr', List.length_append, List.length_append, h.length]; rfl
  case left =>
    rw [hleft, h.left, List.drop_drop, List.countP_append, List.countP_singleton]
  case spec =>
    intro k entry' r hentry hr
    rw [hr'] at hr
    rcases lt_trichotomy k pre.length with hlt | heq | hgt
    · rw [List.getElem?_append_left hlt] at hentry
      rw [List.getElem?_append_left (h.length ▸ hlt)] at hr
      rw [List.take_append_of_le_length hlt.le]
      exact h.spec k entry' r hentry hr
    · rw [heq, List.getElem?_concat_length] at hentry
      rw [heq, ← h.length, List.getElem?_concat_length] at hr
      rw [← Option.some.inj hentry, ← Option.some.inj hr, heq, List.take_left]
      rw [h.left, List.head?_drop] at hdomain
      exact ⟨hbits, hbias, hdomain⟩
    · rw [List.getElem?_eq_none (by simp; omega)] at hentry
      cases hentry

/-- The right inputs of all outputs. -/
theorem quantise_spec {inputScalingFactors outputScalingFactors : List (ScalingFactor fl.F32)}
    {unpaddedInputShapes : List Shape} {outputs : List (QuantisedRhs fl.F32)}
    (h : self.quantise bitLen inputScalingFactors outputScalingFactors unpaddedInputShapes =
      .ok outputs) :
    ∃ lhsInputScaling fullShapes sizes, inputScalingFactors.head? = some lhsInputScaling ∧
      self.fullShapes unpaddedInputShapes = .ok fullShapes ∧
      self.mapping.axesSizes fullShapes = .ok sizes ∧
      ∀ (outputId : Nat) r, outputs[outputId]? = some r →
        HasBits bitLen lhsInputScaling (ceilLog2 sizes.contracted) r ∧
          r.bias.isSome = self.hasBias outputId ∧
          self.rhsDomain bitLen inputScalingFactors outputId =
            some r.rhsScaling.quantizedDomain := by
  obtain ⟨_, _, h⟩ := bind_eq_ok.mp h
  obtain ⟨lhsInputScaling, hlhs, h⟩ := bind_eq_ok.mp h
  obtain ⟨fullShapes, hshapes, h⟩ := bind_eq_ok.mp h
  obtain ⟨sizes, hsizes, h⟩ := bind_eq_ok.mp h
  obtain ⟨⟨outputs', _⟩, hfold, h⟩ := bind_eq_ok.mp h
  obtain rfl := Except.ok.inj h
  refine ⟨lhsInputScaling, fullShapes, sizes, okOr_eq_ok.mp hlhs, hshapes, hsizes, ?_⟩
  have hall := foldlM_induction hfold
    (motive := Quantised bitLen lhsInputScaling (ceilLog2 sizes.contracted)
      inputScalingFactors.tail)
    ⟨rfl, rfl, fun k _ _ hentry => by cases hentry⟩
    (fun pre entry post acc acc' _ hacc hstep => hacc.step hstep)
  intro outputId r hr
  -- the zipped lists are as long as the outputs
  have hlt := (List.getElem?_eq_some_iff.mp hr).1
  rw [hall.length] at hlt
  have hentry := List.getElem?_eq_getElem hlt
  obtain ⟨hbits, hbias, hdomain⟩ := hall.spec outputId _ r hentry hr
  obtain ⟨hweight, hrest⟩ := List.getElem?_zip_eq_some.mp hentry
  obtain ⟨hbiasOpt, _⟩ := List.getElem?_zip_eq_some.mp hrest
  refine ⟨hbits, ?_, ?_⟩
  · rw [hbias, hasBias, hbiasOpt]
    rfl
  · have htake : ((self.constantTensors.zip (self.biases.zip outputScalingFactors)).take
        outputId).countP (fun entry => entry.1.isNone) =
          (self.constantTensors.take outputId).countP Option.isNone := by
      rw [List.length_zip] at hlt
      have hle : (self.constantTensors.take outputId).length ≤
          ((self.biases.zip outputScalingFactors).take outputId).length := by
        rw [List.length_take, List.length_take]
        omega
      rw [List.zip_eq_zipWith, List.take_zipWith, ← List.zip_eq_zipWith,
        ← List.map_fst_zip hle, List.countP_map, List.map_fst_zip hle]
      rfl
    rw [rhsDomain, hweight, ← htake]
    exact hdomain

theorem contractedAxes_cons_of_eq {axis : Axis} (h : axis.axisType = .contracted) (n : Nat)
    (sizes : List (Axis × Nat)) :
    contractedAxes ((axis, n) :: sizes) = (axis.repr, n) :: contractedAxes sizes := by
  simp [contractedAxes, h]

theorem contractedAxes_cons_of_ne {axis : Axis} (h : axis.axisType ≠ .contracted) (n : Nat)
    (sizes : List (Axis × Nat)) : contractedAxes ((axis, n) :: sizes) = contractedAxes sizes := by
  simp [contractedAxes, h]

/-- The size of the contraction after any of the axes. -/
theorem foldlM_contracted {shapes : List Shape} {axes : List Axis} {sizes : List (Axis × Nat)}
    (hsizes : axes.mapM (fun axis => do
      let (inputId, pos) ← okOr (AxesMapping.firstInput axis)
        s!"No present dimension found for axis {axis.repr}"
      let dimSize ← AxesMapping.inputSize shapes axis inputId pos
      .ok (axis, dimSize)) = .ok sizes) {start total : AxesMapping.AxesSizes}
    (hfold : axes.foldlM (fun (sizes : AxesMapping.AxesSizes) axis => do
      let (inputId, pos) ← okOr (AxesMapping.firstInput axis)
        s!"No present dimension found for axis {axis.repr}"
      let dimSize ← AxesMapping.inputSize shapes axis inputId pos
      match axis.axisType with
      | .stacked => .ok { sizes with stacked := sizes.stacked * dimSize }
      | .outer => .ok { sizes with outer := sizes.outer * dimSize }
      | .contracted => .ok { sizes with contracted := sizes.contracted * dimSize }) start =
        .ok total) :
    total.contracted = start.contracted * ((contractedAxes sizes).map Prod.snd).prod := by
  have hpairs := forall₂_of_mapM_eq_ok hsizes
  clear hsizes
  induction hpairs generalizing start with
  | nil =>
    rw [← Except.ok.inj hfold]
    exact (Nat.mul_one _).symm
  | @cons axis entry axes sizes haxis _ ih =>
    rw [List.foldlM_cons, bind_eq_ok] at hfold
    obtain ⟨next, hnext, hfold⟩ := hfold
    rw [ih hfold]
    obtain ⟨⟨inputId, pos⟩, hplace, haxis⟩ := bind_eq_ok.mp haxis
    obtain ⟨dimSize, hdimSize, haxis⟩ := bind_eq_ok.mp haxis
    obtain rfl := Except.ok.inj haxis
    simp only [hplace, ok_bind, hdimSize] at hnext
    cases htype : axis.axisType with
    | contracted =>
      simp only [htype] at hnext
      rw [← Except.ok.inj hnext, contractedAxes_cons_of_eq htype, List.map_cons, List.prod_cons,
        Nat.mul_assoc]
    | stacked | outer =>
      simp only [htype] at hnext
      rw [← Except.ok.inj hnext, contractedAxes_cons_of_ne (by simp [htype])]

/-- The size of the contraction is that of the contracted axes together. -/
theorem contracted_eq {mapping : AxesMapping} {shapes : List Shape} {total : AxesMapping.AxesSizes}
    (htotal : mapping.axesSizes shapes = .ok total) {sizes : List (Axis × Nat)}
    (hsizes : axisSizes mapping shapes = .ok sizes) :
    total.contracted = (all (contractedAxes sizes)).length := by
  obtain ⟨_, _, hfold⟩ := bind_eq_ok.mp htotal
  rw [foldlM_contracted hsizes hfold, length_all, Nat.one_mul]

end Spec

/-! ## The range of the outputs -/

section Range

variable {bitLen : Nat} {self : EinSum fl.F32}

/-- All operands are in their domains; there is a bias if the layer has one. -/
structure InDomains (lhsInputScaling : ScalingFactor fl.F32) (r : QuantisedRhs fl.F32)
    (operands : Operands) : Prop where
  lhs : ∀ index, Within lhsInputScaling.quantizedDomain (operands.lhs index)
  rhs : ∀ index, Within r.rhsScaling.quantizedDomain (operands.rhs index)
  isSome_bias : operands.bias.isSome = r.bias.isSome
  bias : ∀ bias, operands.bias = some bias → ∀ index,
    Within r.biasScaling.quantizedDomain (bias index)

/-- Every output is a signed number of the bits that go into the requantisation, which takes it. -/
def StaysInside (self : EinSum fl.F32) (lhsInputScaling : ScalingFactor fl.F32)
    (sizes : List (Axis × Nat)) (outputId : Nat) (r : QuantisedRhs fl.F32) : Prop :=
  ∀ operands, InDomains lhsInputScaling r operands →
    ∀ value ∈ self.outputValues sizes outputId operands,
      InSigned r.intermediateBitSize value ∧
        ∀ requant, r.requant = some requant → requant.Takes value

/-- Two domains have values whose sum of products leaves no room: any but zero if there is a bias,
    and the largest ones if they fill the bits. -/
structure LeavesNoRoom (lhs rhs : Int × Int) (hasBias : Bool) (sizes : List (Axis × Nat)) :
    Prop where
  size_pos : ∀ axis ∈ freeAxes sizes, 0 < axis.2
  lhs_le : lhs.1 ≤ lhs.2
  rhs_le : rhs.1 ≤ rhs.2
  biased : hasBias = true → (all (contractedAxes sizes)).length ≠ 0 ∧ lhs ≠ (0, 0) ∧ rhs ≠ (0, 0)
  unbiased : hasBias = false →
    FillsBits (all (contractedAxes sizes)).length ∧ ReachesBits lhs rhs

/-- There are outputs if no axis is empty. -/
theorem all_ne_nil_iff {axes : List (Char × Nat)} :
    all axes ≠ [] ↔ ∀ axis ∈ axes, 0 < axis.2 := by
  rw [← List.length_pos_iff, length_all, Nat.pos_iff_ne_zero, Ne, List.prod_eq_zero_iff]
  constructor
  · intro hzero axis haxis
    exact Nat.pos_of_ne_zero fun h => hzero (h ▸ List.mem_map_of_mem haxis)
  · intro hpos hzero
    obtain ⟨axis, haxis, h⟩ := List.mem_map.mp hzero
    exact absurd h (Nat.pos_iff_ne_zero.mp (hpos axis haxis))

/-- A domain with a value other than zero. -/
theorem exists_within_ne_zero {domain : Int × Int} (hle : domain.1 ≤ domain.2)
    (hne : domain ≠ (0, 0)) : ∃ x, Within domain x ∧ x ≠ 0 := by
  by_cases hzero : domain.1 = 0
  · refine ⟨domain.2, ⟨hle, le_rfl⟩, fun h => hne (Prod.ext hzero h)⟩
  · exact ⟨domain.1, ⟨le_rfl, hle⟩, hzero⟩

/-- The value of all outputs for constant tensors. -/
theorem outputValue_const (axes : List Axis) (contracted : List (Char × Nat))
    (outputId biasId : Nat) (x w : Int) (bias : Option Int) (σ : Char → Nat) :
    outputValue axes contracted outputId biasId
        ⟨fun _ => x, fun _ => w, bias.map fun b _ => b⟩ σ =
      (all contracted).length * (x * w) + bias.getD 0 := by
  have hsum : (sumOver contracted fun _ => x * w) = (all contracted).length * (x * w) := by
    rw [sumOver, List.map_const', List.sum_replicate, nsmul_eq_mul]
  cases bias with
  | none => rw [Option.map_none, Option.getD_none, add_zero, ← hsum]; rfl
  | some b => rw [Option.map_some, Option.getD_some, ← hsum]; rfl

variable {lhsInputScaling : ScalingFactor fl.F32}

/-- Constant tensors whose outputs leave the range. -/
theorem LeavesNoRoom.exists_operands {sizes : List (Axis × Nat)} {r : QuantisedRhs fl.F32}
    (hroom : LeavesNoRoom lhsInputScaling.quantizedDomain r.rhsScaling.quantizedDomain
      r.bias.isSome sizes)
    (hbits : HasBits bitLen lhsInputScaling (ceilLog2 (all (contractedAxes sizes)).length) r) :
    ∃ (x w : Int) (bias : Option Int),
      InDomains lhsInputScaling r ⟨fun _ => x, fun _ => w, bias.map fun b _ => b⟩ ∧
      ¬ InSigned r.intermediateBitSize
        ((all (contractedAxes sizes)).length * (x * w) + bias.getD 0) := by
  by_cases hbias : r.bias.isSome
  · -- any sum but zero leaves the range with some bias
    obtain ⟨hcount, hlhs, hrhs⟩ := hroom.biased hbias
    obtain ⟨x, hx, hx0⟩ := exists_within_ne_zero hroom.lhs_le hlhs
    obtain ⟨w, hw, hw0⟩ := exists_within_ne_zero hroom.rhs_le hrhs
    have hsum : ((all (contractedAxes sizes)).length : Int) * (x * w) ≠ 0 :=
      mul_ne_zero (by exact_mod_cast hcount) (mul_ne_zero hx0 hw0)
    obtain ⟨b, hb, hout⟩ := exists_not_inSigned_add (n := r.intermediateBitSize) hsum
    refine ⟨x, w, some b, ⟨fun _ => hx, fun _ => hw, hbias.symm, ?_⟩, hout⟩
    intro bias heq index
    rw [← Option.some.inj heq]
    exact (hbits.within_iff b).mpr hb
  · obtain ⟨hfills, hreaches⟩ := hroom.unbiased (Bool.not_eq_true _ ▸ hbias)
    obtain ⟨x, w, hx, hw, hout⟩ := exists_not_inSigned hroom.lhs_le hroom.rhs_le hfills hreaches
    refine ⟨x, w, none, ⟨fun _ => hx, fun _ => hw, ?_, fun _ heq => nomatch heq⟩, ?_⟩
    · rw [Bool.not_eq_true] at hbias
      exact hbias.symm
    · rw [Option.getD_none, add_zero, hbits.intermediateBitSize, if_neg hbias]
      exact hout

/-- An output of operands in their domains, if there is room. -/
theorem inSigned_outputValue {sizes : List (Axis × Nat)} {r : QuantisedRhs fl.F32}
    (hbits : HasBits bitLen lhsInputScaling (ceilLog2 (all (contractedAxes sizes)).length) r)
    (hroom : ¬ LeavesNoRoom lhsInputScaling.quantizedDomain r.rhsScaling.quantizedDomain
      r.bias.isSome sizes) {operands : Operands} (hin : InDomains lhsInputScaling r operands)
    (hne : all (freeAxes sizes) ≠ []) (axes : List Axis) (outputId biasId : Nat) (σ : Char → Nat) :
    InSigned r.intermediateBitSize
      (outputValue axes (contractedAxes sizes) outputId biasId operands σ) := by
  have hlhs : lhsInputScaling.quantizedDomain.1 ≤ lhsInputScaling.quantizedDomain.2 :=
    (hin.lhs []).1.trans (hin.lhs []).2
  have hrhs : r.rhsScaling.quantizedDomain.1 ≤ r.rhsScaling.quantizedDomain.2 :=
    (hin.rhs []).1.trans (hin.rhs []).2
  -- the products
  let product := fun τ : Char → Nat =>
    let ρ := override ((contractedAxes sizes).map Prod.fst) τ σ
    operands.lhs (indexAt axes Axis.lhsInput ρ) *
      operands.rhs (indexAt axes (fun axis => axis.rhsInputs.getD outputId .absent) ρ)
  let zs := (all (contractedAxes sizes)).map product
  have hlength : zs.length = (all (contractedAxes sizes)).length := List.length_map _
  have hzs : ∀ z ∈ zs, ∃ x w, Within lhsInputScaling.quantizedDomain x ∧
      Within r.rhsScaling.quantizedDomain w ∧ z = x * w := by
    intro z hz
    obtain ⟨τ, _, rfl⟩ := List.mem_map.mp hz
    exact ⟨_, _, hin.lhs _, hin.rhs _, rfl⟩
  cases hbias : operands.bias with
  | none =>
    have hnone : r.bias.isSome = false := by
      rw [← hin.isSome_bias, hbias]
      rfl
    have hnot : ¬ (FillsBits zs.length ∧
        ReachesBits lhsInputScaling.quantizedDomain r.rhsScaling.quantizedDomain) := by
      rw [hlength]
      exact fun hfull => hroom
        ⟨all_ne_nil_iff.mp hne, hlhs, hrhs, (fun hsome => nomatch hnone.symm.trans hsome),
          fun _ => hfull⟩
    have hsigned := inSigned_sum hzs hnot
    rw [hbits.intermediateBitSize, if_neg (Bool.not_eq_true _ ▸ hnone), outputValue, hbias]
    rw [hlength] at hsigned
    exact hsigned
  | some bias =>
    have hsome : r.bias.isSome := by
      rw [← hin.isSome_bias, hbias]
      rfl
    -- there is room only if all products are zero
    have hzero : ∀ z ∈ zs, z = 0 := by
      intro z hz
      obtain ⟨x, w, hx, hw, rfl⟩ := hzs z hz
      by_contra hne0
      refine hroom ⟨all_ne_nil_iff.mp hne, hlhs, hrhs, fun _ => ⟨?_, ?_, ?_⟩,
        fun hnone => nomatch hnone.symm.trans hsome⟩
      · rw [← hlength]
        exact fun h => List.ne_nil_of_mem hz (List.length_eq_zero_iff.mp h)
      · intro heq
        rw [heq] at hx
        exact hne0 (by rw [le_antisymm hx.2 hx.1, zero_mul])
      · intro heq
        rw [heq] at hw
        exact hne0 (by rw [le_antisymm hw.2 hw.1, mul_zero])
    have hsum : zs.sum = 0 := List.sum_eq_zero hzero
    have hvalue : outputValue axes (contractedAxes sizes) outputId biasId operands σ =
        zs.sum + bias (indexAt axes (fun axis => axis.biases.getD biasId .absent) σ) := by
      rw [outputValue, hbias]
      rfl
    rw [hvalue, hsum, zero_add]
    exact (hbits.within_iff _).mp (hin.bias bias hbias _)

/-- Every output stays inside the bits exactly when the domains leave room for it. -/
theorem quantise_staysInside_iff (hfl : fl.Lawful)
    {inputScalingFactors outputScalingFactors : List (ScalingFactor fl.F32)}
    {unpaddedInputShapes fullShapes : List Shape} {outputs : List (QuantisedRhs fl.F32)}
    (h : self.quantise bitLen inputScalingFactors outputScalingFactors unpaddedInputShapes =
      .ok outputs) {outputId : Nat} {r : QuantisedRhs fl.F32} (hr : outputs[outputId]? = some r)
    {lhsInputScaling : ScalingFactor fl.F32}
    (hlhs : inputScalingFactors.head? = some lhsInputScaling)
    {rhs : Int × Int} (hrhs : self.rhsDomain bitLen inputScalingFactors outputId = some rhs)
    (hshapes : self.fullShapes unpaddedInputShapes = .ok fullShapes)
    {sizes : List (Axis × Nat)} (hsizes : axisSizes self.mapping fullShapes = .ok sizes) :
    self.StaysInside lhsInputScaling sizes outputId r ↔
      ¬ LeavesNoRoom lhsInputScaling.quantizedDomain rhs (self.hasBias outputId) sizes := by
  obtain ⟨lhs, full, total, hlhs', hshapes', htotal, hall⟩ := quantise_spec h
  obtain rfl := Option.some.inj (hlhs.symm.trans hlhs')
  obtain rfl := Except.ok.inj (hshapes.symm.trans hshapes')
  obtain ⟨hbits, hbias, hdomain⟩ := hall outputId r hr
  obtain rfl := Option.some.inj (hrhs.symm.trans hdomain)
  rw [contracted_eq htotal hsizes] at hbits
  rw [← hbias]
  constructor
  · intro hinside hroom
    obtain ⟨x, w, bias, hin, hout⟩ := hroom.exists_operands hbits
    obtain ⟨σ, hσ⟩ := List.exists_mem_of_ne_nil _ (all_ne_nil_iff.mpr hroom.size_pos)
    apply hout
    rw [← outputValue_const self.mapping.axes (contractedAxes sizes) outputId
      ((self.biases.take outputId).countP Option.isSome) x w bias σ]
    exact (hinside _ hin _ (List.mem_map_of_mem hσ)).1
  · intro hroom operands hin value hvalue
    obtain ⟨σ, hσ, rfl⟩ := List.mem_map.mp hvalue
    have hsigned := inSigned_outputValue hbits hroom hin (List.ne_nil_of_mem hσ) self.mapping.axes
      outputId ((self.biases.take outputId).countP Option.isSome) σ
    refine ⟨hsigned, fun requant hrequant => ?_⟩
    obtain ⟨multiplier, outputScaling, hnew⟩ := hbits.requant requant hrequant
    refine Requant.takes_of_inSigned hfl hnew ?_ hsigned
    rw [hbits.intermediateBitSize]
    omega

end Range

/-! ## A product of two inputs -/

section Product

/-- Integers as floats, for scales that are powers of two. -/
def wholeFloats : ScaleFloats where
  F32 := Int
  ofElement := id
  toElement := id
  zero := 0
  neg := Neg.neg
  abs := abs
  sub := (· - ·)
  mul := (· * ·)
  div := (· / ·)
  max := Max.max
  log2 x := Nat.log2 x.toNat
  trunc := id
  fract _ := 0
  exp2 x := 2 ^ x.toNat
  roundTiesEven := id

theorem wholeFloats_lawful : wholeFloats.Lawful where
  fixedPoint_nonneg _ := by
    show (0 : Int) ≤ 2 ^ 0 * 2 ^ 15
    decide
  fixedPoint_le _ := by
    show (2 : Int) ^ 0 * 2 ^ 15 ≤ 2 ^ 16
    decide

/-- `A(ij)@B(jk)->O(ik)+BIAS(k)`, with or without the bias. -/
def productMapping : AxesMapping where
  inputCount := 2
  outputCount := 1
  biasCount := 1
  axes := [
    ⟨.present 0, [.absent], [.present 0], [.absent], 'i', .outer⟩,
    ⟨.present 1, [.present 0], [.absent], [.absent], 'j', .contracted⟩,
    ⟨.absent, [.present 1], [.present 1], [.present 0], 'k', .outer⟩]

/-- The product of two inputs, with the given bias. -/
def product (bias : Option (Tensor wholeFloats.F32)) : EinSum wholeFloats.F32 where
  mapping := productMapping
  constantTensors := [none]
  biases := [bias]
  requantise := true

/-- The scale of one, with the given smallest value and the largest one of 12 bits. -/
def unitScaling (min : Int) : ScalingFactor wholeFloats.F32 :=
  ⟨min, (2047 : Int), (1 : Int), (min, 2047)⟩

/-- The bias of one entry. -/
def zeroBias : Tensor wholeFloats.F32 := ⟨[(0 : Int)], [1], [1]⟩

/-- The sizes of the axes. -/
def productSizes : List (Axis × Nat) := productMapping.axes.map fun axis => (axis, 1)

/-- What is computed for the second input: 11 bits for either input, one for the sign, and with a
    bias another one. -/
def productRhs (bias : Option (Tensor Int)) (bitSize : Nat) : QuantisedRhs wholeFloats.F32 where
  intermediateBitSize := bitSize
  rhsScaling := unitScaling (-2048)
  biasScaling := ⟨(0 : Int), (0 : Int), (1 : Int), (-2 ^ (bitSize - 1), 2 ^ (bitSize - 1) - 1)⟩
  weight := none
  bias := bias
  requant := some ⟨unitScaling (-2048), Table.newRequantise 12,
    ⟨15, 32768, bitSize, 0, Table.newRequantise 12, false, 1⟩⟩
  outputScaling := unitScaling (-2048)

/-- `1 * 1` and the largest bias leave the range. -/
theorem product_not_staysInside :
    (product (some zeroBias)).quantise 12 [unitScaling (-2048), unitScaling (-2048)]
      [unitScaling (-2048)] [[1, 1], [1, 1]] = .ok [productRhs (some ⟨[0], [1], [1]⟩) 24] ∧
    ¬ (product (some zeroBias)).StaysInside (unitScaling (-2048)) productSizes 0
      (productRhs (some ⟨[0], [1], [1]⟩) 24) := by
  refine ⟨rfl, fun hinside => ?_⟩
  have hone : Within (unitScaling (-2048)).quantizedDomain 1 := by decide
  have hlargest : Within (-2 ^ 23, 2 ^ 23 - 1) (2 ^ 23 - 1) := by decide
  have hin := hinside ⟨fun _ => 1, fun _ => 1, some fun _ => 2 ^ 23 - 1⟩
    ⟨fun _ => hone, fun _ => hone, rfl, fun bias hbias _ => Option.some.inj hbias ▸ hlargest⟩
    (2 ^ 23) (by decide)
  exact absurd hin.1 (by decide)

/-- Without a bias, and with the domain of one input symmetric, the product stays inside. -/
theorem product_staysInside :
    (product none).StaysInside (unitScaling (-2047)) productSizes 0 (productRhs none 23) := by
  have hquantise : (product none).quantise 12 [unitScaling (-2047), unitScaling (-2048)]
      [unitScaling (-2048)] [[1, 1], [1, 1]] = .ok [productRhs none 23] := rfl
  refine (quantise_staysInside_iff wholeFloats_lawful hquantise rfl rfl rfl rfl rfl).mpr ?_
  intro hroom
  exact absurd (hroom.unbiased (by decide)).2 (by decide)

end Product

end EinSum

end DeepProve
