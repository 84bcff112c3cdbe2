import DeepProve.ForStd.BitWidth
import DeepProve.Lookup.RoundTrip
import DeepProve.Lookup.VariantVerifier

/-!
# Scaling factors and requantisation

`quantization/mod.rs`: a scaling factor has the domain of the integers that stand for the floats.
From `layers/requant/mod.rs` and `layers/activation/lookup_data.rs`: the requantisation that is
built from the scaling factors of a layer.

`f32` and its functions are parameters. Arithmetic of `i64` panics on overflow.
-/

namespace DeepProve

open BitWidth

/-- The `f32` operations of scaling factors. -/
structure ScaleFloats where
  F32 : Type
  /-- `x as f32`. -/
  ofElement : Int → F32
  /-- `x as Element`. -/
  toElement : F32 → Int
  zero : F32
  neg : F32 → F32
  abs : F32 → F32
  sub : F32 → F32 → F32
  mul : F32 → F32 → F32
  div : F32 → F32 → F32
  max : F32 → F32 → F32
  log2 : F32 → F32
  trunc : F32 → F32
  fract : F32 → F32
  /-- `2.0f32.powf(x)`. -/
  exp2 : F32 → F32
  roundTiesEven : F32 → F32

/-- The values of `i64`. -/
def IsElement (x : Int) : Prop := InSigned 64 x

/-- `a - b`. -/
def elementSub (a b : Int) : Outcome Int :=
  if -2 ^ 63 ≤ a - b ∧ a - b < 2 ^ 63 then
    .ok (a - b)
  else
    .error (.panic "attempt to subtract with overflow")

/-- `(-1 << bits, (1 << bits) - 1)`. -/
def signedDomain (bits : Nat) : Outcome (Int × Int) :=
  if bits < 63 then
    .ok (-2 ^ bits, 2 ^ bits - 1)
  else if bits = 63 then
    .error (.panic "attempt to subtract with overflow")
  else
    .error (.panic "attempt to shift left with overflow")

theorem signedDomain_eq_ok {bits : Nat} {domain : Int × Int} (h : signedDomain bits = .ok domain) :
    domain = (-2 ^ bits, 2 ^ bits - 1) := by
  unfold signedDomain at h
  split at h
  · exact (Except.ok.inj h).symm
  · split at h <;> cases h

/-- `(MIN, MAX)`, for the bit length of the quantization. -/
def defaultDomain (bitLen : Nat) : Outcome (Int × Int) := do
  let bits ← usizeSub bitLen 1
  signedDomain bits

structure ScalingFactor (T : Type) where
  min : T
  max : T
  scale : T
  quantizedDomain : Int × Int

namespace ScalingFactor

section New

variable (fl : ScaleFloats)

/-- `from_span`. -/
def fromSpan (min max : fl.F32) (domain : Int × Int) : ScalingFactor fl.F32 where
  min := min
  max := max
  scale := fl.div (fl.sub max min) (fl.ofElement (domain.2 - domain.1))
  quantizedDomain := domain

/-- `from_absolute_max`. -/
def fromAbsoluteMax (absMax : fl.F32) (domain : Int × Int) : ScalingFactor fl.F32 :=
  fromSpan fl (fl.neg (fl.abs absMax)) (fl.abs absMax) domain

/-- `from_scale`. -/
def fromScale (scale : fl.F32) (domain : Int × Int) : ScalingFactor fl.F32 :=
  let max := fl.mul (fl.div scale (fl.ofElement 2)) (fl.ofElement (domain.2 - domain.1))
  { min := fl.neg (fl.abs max), max, scale, quantizedDomain := domain }

/-- `bias_scaling`. -/
def biasScaling (input model : ScalingFactor fl.F32) (intermediateBitSize : Nat) :
    Outcome (ScalingFactor fl.F32) := do
  let domain ← signedDomain intermediateBitSize
  .ok (fromScale fl (fl.mul input.scale model.scale) domain)

/-- `model_scaling_factor_from_tensor_and_bias`. -/
def modelScalingFactorFromTensorAndBias (bitLen : Nat) (input : ScalingFactor fl.F32)
    (mainMaxAbs : fl.F32) (intermediateBitSize : Nat) :
    Outcome (ScalingFactor fl.F32 × ScalingFactor fl.F32) := do
  let domain ← defaultDomain bitLen
  let mainSf := fromAbsoluteMax fl mainMaxAbs domain
  let biasSf ← biasScaling fl input mainSf intermediateBitSize
  .ok (mainSf, biasSf)

end New

section Use

variable {fl : ScaleFloats} (self : ScalingFactor fl.F32)

/-- `bit_size`. -/
def bitSize : Nat :=
  let (min, max) := self.quantizedDomain
  ceilLog2 (Nat.max max.natAbs min.natAbs)

theorem bitSize_eq : self.bitSize = bits self.quantizedDomain := rfl

/-- `m`: `S1 * S2 / S3`. -/
def m (s2 s3 : ScalingFactor fl.F32) : fl.F32 := fl.div (fl.mul self.scale s2.scale) s3.scale

/-- `quantize`. -/
def quantize (value : fl.F32) : Int :=
  clamp (fl.toElement (fl.roundTiesEven (fl.div value self.scale))) self.quantizedDomain.1
    self.quantizedDomain.2

end Use

end ScalingFactor

/-! ## Requantisation -/

structure ActivationLookupData where
  rightShift : Nat
  fixedPointMultiplier : Int
  intermediateBitSize : Nat
  paddingValue : Int
  table : Table
  isGlu : Bool
  valueChunks : Nat
  deriving DecidableEq

namespace ActivationLookupData

variable (self : ActivationLookupData)

/-- The bit size that `chunking_info` decomposes with. -/
def maxBits : Nat :=
  let fpmBits := ceilLog2 self.fixedPointMultiplier.natAbs
  if fpmBits > fixedPointScale then
    self.intermediateBitSize + fpmBits
  else
    self.intermediateBitSize + fixedPointScale

/-- The data as a lookup operation. -/
def lookupOp : LookupOp where
  rightShift := self.rightShift
  fixedPointMultiplier := self.fixedPointMultiplier
  maxBitSize := self.maxBits
  valueChunks := self.valueChunks
  paddingValue := self.paddingValue
  variant := if self.isGlu then .glu else .standard

/-- `chunking_info`. -/
def chunkingInfo (table : Table) : Outcome ChunkingInfo := self.lookupOp.chunkingInfo table

end ActivationLookupData

structure Requant (T : Type) where
  outputScaling : ScalingFactor T
  table : Table
  activationLookupData : ActivationLookupData

namespace Requant

variable (fl : ScaleFloats) (bitLen : Nat)

/-- The rounded fixed point multiplier, for the logarithm of a multiplier. -/
def fixedPoint (logM : fl.F32) : Int :=
  let epsilon := fl.exp2 (fl.fract logM)
  fl.toElement (fl.roundTiesEven (fl.mul epsilon (fl.ofElement (2 ^ fixedPointScale))))

/-- `from_multiplier`. -/
def fromMultiplier (multiplier : fl.F32) (intermediateBitSize : Nat)
    (outputScaling : ScalingFactor fl.F32) : Outcome (Requant fl.F32) := do
  let logM := fl.log2 multiplier
  let intPart := fl.toElement (fl.trunc logM)
  let fixedPointMultiplier := fixedPoint fl logM
  assertThat (decide (intermediateBitSize + fixedPointScale ≤ 63))
    s!"intermediate bit size: {intermediateBitSize}, fp scale: {fixedPointScale}, int part: {intPart}"
  let shift ← elementSub intPart fixedPointScale
  let rightShift := shift.natAbs
  let outputBitSize := outputScaling.bitSize + 1
  assertThat (bitLen != 0) "attempt to divide by zero"
  let valueChunks := outputBitSize / bitLen
  assertThat (outputBitSize % bitLen == 0)
    s!"Output bit size after requantisation must be a multiple of {bitLen}, got {outputBitSize}"
  .ok {
    outputScaling := outputScaling
    table := Table.newRequantise bitLen
    activationLookupData := {
      rightShift := rightShift
      fixedPointMultiplier := fixedPointMultiplier
      intermediateBitSize := intermediateBitSize
      paddingValue := 0
      table := Table.newRequantise bitLen
      isGlu := false
      valueChunks := valueChunks } }

/-- `from_scaling_factors`. -/
def fromScalingFactors (inputScale weightsScale outputScale : ScalingFactor fl.F32)
    (intermediateBitSize : Nat) : Outcome (Requant fl.F32) :=
  fromMultiplier fl bitLen (inputScale.m weightsScale outputScale) intermediateBitSize outputScale

end Requant

/-- What requantisation relies on: a power of two with a fractional exponent is between a half and
    two, so that the multiplier is at most twice the fixed point scale. -/
structure ScaleFloats.Lawful (fl : ScaleFloats) : Prop where
  fixedPoint_nonneg : ∀ logM, 0 ≤ Requant.fixedPoint fl logM
  fixedPoint_le : ∀ logM, Requant.fixedPoint fl logM ≤ 2 ^ (fixedPointScale + 1)

namespace Requant

variable {fl : ScaleFloats} {bitLen : Nat}
variable {outputScaling : ScalingFactor fl.F32} {intermediateBitSize : Nat}

/-- What a requantisation was built with. -/
theorem fromMultiplier_eq_ok {multiplier : fl.F32} {r : Requant fl.F32}
    (h : fromMultiplier fl bitLen multiplier intermediateBitSize outputScaling = .ok r) :
    intermediateBitSize + fixedPointScale ≤ 63 ∧
      r.activationLookupData.intermediateBitSize = intermediateBitSize ∧
      r.activationLookupData.fixedPointMultiplier = fixedPoint fl (fl.log2 multiplier) ∧
      r.activationLookupData.table = Table.newRequantise bitLen := by
  obtain ⟨_, hassert, h⟩ := Outcome.bind_eq_ok.mp h
  obtain ⟨_, _, h⟩ := Outcome.bind_eq_ok.mp h
  obtain ⟨_, _, h⟩ := Outcome.bind_eq_ok.mp h
  obtain ⟨_, _, h⟩ := Outcome.bind_eq_ok.mp h
  obtain rfl := Except.ok.inj h
  exact ⟨of_decide_eq_true (assertThat_eq_ok.mp hassert), rfl, rfl, rfl⟩

/-- The values that a requantisation takes: they and their products with the multiplier fit into
    the element type, and the products are decomposed into all their bits. -/
structure Takes (self : Requant fl.F32) (value : Int) : Prop where
  element : IsElement value
  product : IsElement (value * self.activationLookupData.fixedPointMultiplier)
  decomposed : ChunkingInfo.Representable self.activationLookupData.maxBits
    self.activationLookupData.table.tableSign
    (value * self.activationLookupData.fixedPointMultiplier)

/-- A requantisation takes the signed numbers of its bit size. -/
theorem takes_of_inSigned (hfl : fl.Lawful) {multiplier : fl.F32} {r : Requant fl.F32}
    (h : fromMultiplier fl bitLen multiplier intermediateBitSize outputScaling = .ok r)
    (hpos : 0 < intermediateBitSize) {value : Int} (hvalue : InSigned intermediateBitSize value) :
    r.Takes value := by
  obtain ⟨hle, hbits, hfpm, htable⟩ := fromMultiplier_eq_ok h
  have hnonneg := hfl.fixedPoint_nonneg (fl.log2 multiplier)
  have hmax := hfl.fixedPoint_le (fl.log2 multiplier)
  rw [← hfpm] at hnonneg hmax
  have hscale : fixedPointScale = 15 := rfl
  have hproduct := hvalue.mul hpos hnonneg hmax
  constructor
  case element => exact hvalue.mono (by omega)
  case product => exact hproduct.mono (by omega)
  case decomposed =>
    have hsign : r.activationLookupData.table.tableSign = .mixed := by
      rw [htable]
      rfl
    rw [hsign]
    show InSigned r.activationLookupData.maxBits _
    -- the bits of the multiplier are counted when it is above the scale
    have hclog : r.activationLookupData.fixedPointMultiplier ≤
        2 ^ ceilLog2 r.activationLookupData.fixedPointMultiplier.natAbs := by
      have hcast := Nat.le_pow_clog (b := 2) (by decide)
        r.activationLookupData.fixedPointMultiplier.natAbs
      have hcast : (r.activationLookupData.fixedPointMultiplier.natAbs : Int) ≤
        2 ^ ceilLog2 r.activationLookupData.fixedPointMultiplier.natAbs := by exact_mod_cast hcast
      omega
    refine (hvalue.mul hpos hnonneg hclog).mono ?_
    simp only [ActivationLookupData.maxBits, hbits]
    split <;> omega

end Requant

end DeepProve
