import DeepProve.ForStd.Rounding
import DeepProve.Lookup.Witness
import DeepProve.Quantization.ScalingFactor

/-!
# Fixed point rescaling

`layers/activation/lookup_data.rs`: the lookup data of an activation are built from scaling factors
as those of a requantisation are. Both multiply an integer with a fixed point mantissa, add a
rounding constant and shift to the right.

The shift is the distance of the exponent to the fixed point scale, also when the exponent is
larger, and the bits of the decomposition do not count the rounding constant.
-/

namespace DeepProve

open BitWidth Rounding

inductive ActivationLayer where
  | relu
  | gelu
  | silu
  deriving DecidableEq, Repr

namespace Table

/-- `new_relu`, for the bit length of the quantization. -/
def newRelu (bitLen : Nat) : Table := ⟨.reLU, oneBits, oneBits, bitLen⟩

/-- `new_gelu`. -/
def newGelu (inputSf outputSf : UInt32) (tableBitSize : Nat) : Table :=
  ⟨.geLU, inputSf, outputSf, tableBitSize⟩

/-- `new_silu`. -/
def newSilu (inputSf outputSf : UInt32) (tableBitSize : Nat) : Table :=
  ⟨.siLU, inputSf, outputSf, tableBitSize⟩

end Table

/-! ## The lookup data of an activation -/

/-- Further `f32` operations: `recip` and `to_bits`. -/
structure TableFloats (fl : ScaleFloats) where
  recip : fl.F32 → fl.F32
  toBits : fl.F32 → UInt32

namespace ActivationLookupData

section New

variable {fl : ScaleFloats} (tf : TableFloats fl) (bitLen : Nat)
  (inputScaling outputScaling tableInputScaling tableOutputScaling : ScalingFactor fl.F32)

/-- The multiplier, the table and the padding value of an operation. -/
def ofOperation (operation : ActivationLayer) : fl.F32 × Table × Int :=
  match operation with
  | .relu => (fl.div inputScaling.scale outputScaling.scale, Table.newRelu bitLen, 0)
  | .gelu =>
    (fl.div inputScaling.scale tableInputScaling.scale,
      Table.newGelu (tf.toBits (tf.recip tableInputScaling.scale))
        (tf.toBits (tf.recip tableOutputScaling.scale)) (tableInputScaling.bitSize + 1), 0)
  | .silu =>
    (fl.div inputScaling.scale tableInputScaling.scale,
      Table.newSilu (tf.toBits (tf.recip tableInputScaling.scale))
        (tf.toBits (tf.recip tableOutputScaling.scale)) (tableInputScaling.bitSize + 1), 0)

/-- `new_from_scalings`. -/
def newFromScalings (operation : ActivationLayer) : Outcome ActivationLookupData := do
  let (multiplier, table, paddingValue) :=
    ofOperation tf bitLen inputScaling outputScaling tableInputScaling tableOutputScaling operation
  let intermediateBitSize := inputScaling.bitSize + 1
  let logM := fl.log2 multiplier
  let intPart := fl.toElement (fl.trunc logM)
  let fixedPointMultiplier := Requant.fixedPoint fl logM
  ensure (decide (intermediateBitSize + fixedPointScale ≤ 63))
    s!"intermediate bit size: {intermediateBitSize}, fp scale: {fixedPointScale}, int part: {intPart}"
  let shift ← elementSub intPart fixedPointScale
  .ok {
    rightShift := shift.natAbs
    fixedPointMultiplier
    intermediateBitSize
    paddingValue
    table
    isGlu := false
    valueChunks := 1 }

end New

/-- The value that is passed to the table. -/
def tableInput (self : ActivationLookupData) (x : Int) : Int :=
  self.lookupOp.rescale x / 2 ^ self.rightShift

end ActivationLookupData

theorem elementSub_eq_ok {a b c : Int} (h : elementSub a b = .ok c) : c = a - b := by
  unfold elementSub at h
  split at h
  · exact (Except.ok.inj h).symm
  · cases h

/-! ## Exact logarithms -/

/-- The logarithm of a multiplier: its integer part, and the power of two with its fractional part
    as exponent. Both parts have one sign. -/
structure Logarithm where
  intPart : Int
  mantissa : ℚ
  half_lt : 1 / 2 < mantissa
  lt_two : mantissa < 2
  one_le : 0 < intPart → 1 ≤ mantissa
  le_one : intPart < 0 → mantissa ≤ 1

namespace Logarithm

variable (l : Logarithm)

/-- The multiplier. -/
def value : ℚ := 2 ^ l.intPart * l.mantissa

/-- The mantissa at the fixed point scale. -/
def fixedPoint : Int := roundTiesEven (l.mantissa * 2 ^ fixedPointScale)

/-- The float operations give this logarithm for a multiplier. -/
structure Of (fl : ScaleFloats) (multiplier : fl.F32) : Prop where
  intPart : fl.toElement (fl.trunc (fl.log2 multiplier)) = l.intPart
  fixedPoint : Requant.fixedPoint fl (fl.log2 multiplier) = l.fixedPoint

theorem le_fixedPoint : 2 ^ 14 ≤ l.fixedPoint := by
  apply le_roundTiesEven
  have h := l.half_lt
  show ((2 ^ 14 : Int) : ℚ) ≤ l.mantissa * 2 ^ 15
  push_cast
  linarith

theorem fixedPoint_le : l.fixedPoint ≤ 2 ^ 16 := by
  apply roundTiesEven_le
  have h := l.lt_two
  show l.mantissa * 2 ^ 15 ≤ ((2 ^ 16 : Int) : ℚ)
  push_cast
  linarith

/-- Below one the mantissa is not above the scale. -/
theorem fixedPoint_le_of_neg (h : l.intPart < 0) : l.fixedPoint ≤ 2 ^ 15 := by
  apply roundTiesEven_le
  have h := l.le_one h
  show l.mantissa * 2 ^ 15 ≤ ((2 ^ 15 : Int) : ℚ)
  push_cast
  linarith

end Logarithm

/-- The lookup data that `from_multiplier` and `new_from_scalings` build for a multiplier. -/
inductive BuiltFor {fl : ScaleFloats} (tf : TableFloats fl) (bitLen : Nat) (l : Logarithm) :
    ActivationLookupData → Prop
  | fromMultiplier {multiplier : fl.F32} {intermediateBitSize : Nat}
      {outputScaling : ScalingFactor fl.F32} {r : Requant fl.F32}
      (h : Requant.fromMultiplier fl bitLen multiplier intermediateBitSize outputScaling = .ok r)
      (hl : l.Of fl multiplier) : BuiltFor tf bitLen l r.activationLookupData
  | newFromScalings {inputScaling outputScaling tableInputScaling tableOutputScaling :
      ScalingFactor fl.F32} {operation : ActivationLayer} {data : ActivationLookupData}
      (h : ActivationLookupData.newFromScalings tf bitLen inputScaling outputScaling
        tableInputScaling tableOutputScaling operation = .ok data)
      (hl : l.Of fl (ActivationLookupData.ofOperation tf bitLen inputScaling outputScaling
        tableInputScaling tableOutputScaling operation).1) : BuiltFor tf bitLen l data

namespace ActivationLookupData

/-- What both constructors put into the fields. -/
structure IsBuilt (data : ActivationLookupData) (l : Logarithm) : Prop where
  intermediateBitSize : data.intermediateBitSize + fixedPointScale ≤ 63
  fixedPointMultiplier : data.fixedPointMultiplier = l.fixedPoint
  rightShift : data.rightShift = (l.intPart - fixedPointScale).natAbs
  tableSign : data.table.tableSign = .mixed
  valueChunks : data.valueChunks = 1 ∨ data.table.operation = .requantise

theorem isBuilt_of_builtFor {fl : ScaleFloats} {tf : TableFloats fl} {bitLen : Nat} {l : Logarithm}
    {self : ActivationLookupData} (h : BuiltFor tf bitLen l self) : self.IsBuilt l := by
  cases h with
  | fromMultiplier h hl =>
    obtain ⟨_, hassert, h⟩ := Outcome.bind_eq_ok.mp h
    obtain ⟨shift, hshift, h⟩ := Outcome.bind_eq_ok.mp h
    obtain ⟨_, _, h⟩ := Outcome.bind_eq_ok.mp h
    obtain ⟨_, _, h⟩ := Outcome.bind_eq_ok.mp h
    obtain rfl := Except.ok.inj h
    refine ⟨of_decide_eq_true (assertThat_eq_ok.mp hassert), hl.fixedPoint, ?_, rfl, Or.inr rfl⟩
    show shift.natAbs = _
    rw [elementSub_eq_ok hshift, hl.intPart]
  | @newFromScalings _ _ _ _ operation _ h hl =>
    obtain ⟨_, hensure, h⟩ := Outcome.bind_eq_ok.mp h
    obtain ⟨shift, hshift, h⟩ := Outcome.bind_eq_ok.mp h
    obtain rfl := Except.ok.inj h
    refine ⟨of_decide_eq_true (ensure_eq_ok.mp hensure), hl.fixedPoint, ?_, ?_, Or.inl rfl⟩
    · show shift.natAbs = _
      rw [elementSub_eq_ok hshift, ← hl.intPart]
      rfl
    · cases operation <;> rfl

/-- An input is rescaled correctly: neither the arithmetic of `i64` nor a shift overflows, the value
    that is passed to the table is near the product, and it is decomposed exactly. -/
structure Rescales (data : ActivationLookupData) (multiplier : ℚ) (x : Int) : Prop where
  product : IsElement (x * data.fixedPointMultiplier)
  sum : IsElement (data.lookupOp.rescale x)
  rightShift : 0 < data.rightShift ∧ data.rightShift < 64
  near : |(data.tableInput x : ℚ) - x * multiplier| ≤ 1 / 2 + |(x : ℚ)| / 2 ^ (data.rightShift + 1)
  shifts : ChunkingInfo.ShiftsFit data.rightShift data.table data.maxBits data.valueChunks
  decomposed : ∃ info, data.chunkingInfo data.table = .ok info ∧
    ∀ (F : Type) [Field F] [DecidableEq F], (2 : F) ≠ 0 →
      ChunkingInfo.RoundTrips F info [data.lookupOp.rescale x]

end ActivationLookupData

/-! ## The error -/

namespace Logarithm

variable (l : Logarithm)

/-- The right shift, for an exponent that is not above the scale. -/
def rightShift : Nat := (fixedPointScale - l.intPart).toNat

/-- The bits of the decomposition. -/
def maxBits (intermediateBitSize : Nat) : Nat :=
  intermediateBitSize + max fixedPointScale (ceilLog2 l.fixedPoint.natAbs)

variable {l}

/-- Below the scale, shifting by the distance to it divides by it. -/
theorem value_eq (h : l.intPart ≤ fixedPointScale) :
    l.value = l.mantissa * 2 ^ fixedPointScale / 2 ^ l.rightShift := by
  have hexp : l.intPart = fixedPointScale - (l.rightShift : Int) := by
    unfold rightShift
    omega
  rw [value, hexp, zpow_sub₀ (by decide), zpow_natCast, zpow_natCast]
  ring

/-- The rescaled value is off by a half for the rounding right shift, and by the rounding of the
    mantissa for each unit of the input. -/
theorem abs_shiftRound_sub_value_le (h : l.intPart < fixedPointScale) (x : Int) :
    |(shiftRound (x * l.fixedPoint) l.rightShift : ℚ) - x * l.value| ≤
      1 / 2 + |(x : ℚ)| / 2 ^ (l.rightShift + 1) := by
  have hshift : 0 < l.rightShift := by
    unfold rightShift
    omega
  have hround := abs_shiftRound_sub_le (α := ℚ) (x * l.fixedPoint) hshift
  have hmantissa := abs_roundTiesEven_sub_le (l.mantissa * 2 ^ fixedPointScale)
  have hpos : (0 : ℚ) < 2 ^ l.rightShift := by positivity
  have hsplit : ((x * l.fixedPoint : Int) : ℚ) / 2 ^ l.rightShift - x * l.value =
      x * (l.fixedPoint - l.mantissa * 2 ^ fixedPointScale) / 2 ^ l.rightShift := by
    rw [value_eq h.le]
    push_cast
    ring
  have hscaled : |((x * l.fixedPoint : Int) : ℚ) / 2 ^ l.rightShift - x * l.value| ≤
      |(x : ℚ)| / 2 ^ (l.rightShift + 1) := by
    rw [hsplit, abs_div, abs_mul, abs_of_pos hpos]
    calc |(x : ℚ)| * |(l.fixedPoint : ℚ) - l.mantissa * 2 ^ fixedPointScale| / 2 ^ l.rightShift
        ≤ |(x : ℚ)| * (1 / 2) / 2 ^ l.rightShift := by gcongr; exact hmantissa
      _ = |(x : ℚ)| / 2 ^ (l.rightShift + 1) := by rw [pow_succ]; field_simp
  calc |(shiftRound (x * l.fixedPoint) l.rightShift : ℚ) - x * l.value|
      ≤ |(shiftRound (x * l.fixedPoint) l.rightShift : ℚ) -
            (x * l.fixedPoint : Int) / 2 ^ l.rightShift| +
          |((x * l.fixedPoint : Int) : ℚ) / 2 ^ l.rightShift - x * l.value| := abs_sub_le _ _ _
    _ ≤ 1 / 2 + |(x : ℚ)| / 2 ^ (l.rightShift + 1) := add_le_add hround hscaled

/-- When the exponent is above the scale, the shift goes the wrong way. -/
theorem not_near_of_lt (h : fixedPointScale < l.intPart) {rs : Nat}
    (hrs : rs = (l.intPart - fixedPointScale).natAbs) :
    ¬ |(shiftRound (-1 * l.fixedPoint) rs : ℚ) - (-1) * l.value| ≤ 1 / 2 + 1 / 2 ^ (rs + 1) := by
  have hscale : (fixedPointScale : Int) = 15 := rfl
  have hpos : 0 < rs := by omega
  have hround := (abs_le.mp (abs_shiftRound_sub_le (α := ℚ) (-1 * l.fixedPoint) hpos)).1
  -- the multiplier is at least `2 ^ 16`, and half of the fixed point one at most `2 ^ 15`
  have hvalue : (2 : ℚ) ^ 16 ≤ l.value := by
    have hexp : (2 : ℚ) ^ (16 : Int) ≤ 2 ^ l.intPart :=
      zpow_le_zpow_right₀ (by norm_num) (by omega)
    have hmantissa := l.one_le (by omega)
    have h16 : (2 : ℚ) ^ (16 : Int) = 2 ^ 16 := by norm_num
    rw [h16] at hexp
    calc (2 : ℚ) ^ 16 = 2 ^ 16 * 1 := by ring
      _ ≤ 2 ^ l.intPart * l.mantissa := by gcongr
  have htwo : (2 : ℚ) ≤ 2 ^ rs := by
    calc (2 : ℚ) = 2 ^ 1 := by norm_num
      _ ≤ 2 ^ rs := pow_le_pow_right₀ (by norm_num) hpos
  have hquot : (-2 ^ 15 : ℚ) ≤ ((-1 * l.fixedPoint : Int) : ℚ) / 2 ^ rs := by
    have hle : (l.fixedPoint : ℚ) ≤ 2 ^ 16 := by exact_mod_cast l.fixedPoint_le
    rw [le_div_iff₀ (by positivity)]
    push_cast
    nlinarith
  have hsmall : (1 : ℚ) / 2 ^ (rs + 1) ≤ 1 := by
    rw [div_le_one (by positivity)]
    exact one_le_pow₀ (by norm_num)
  intro hnear
  have hupper := (abs_le.mp hnear).2
  linarith

end Logarithm

/-! ## The range -/

/-- The values that are passed on: those of the input bits times the mantissa, and the rounding
    constant. -/
def Logarithm.largest (l : Logarithm) (intermediateBitSize : Nat) : Int :=
  (2 ^ (intermediateBitSize - 1) - 1) * l.fixedPoint + 2 ^ (l.rightShift - 1)

/-- **When all inputs are rescaled correctly.** The exponent is below the fixed point scale, the
    shifts of the decomposition stay within `i64`, and the largest value does not overflow. -/
structure Logarithm.Fits (l : Logarithm) (intermediateBitSize : Nat) (table : Table)
    (valueChunks : Nat) : Prop where
  intPart : l.intPart < fixedPointScale
  shifts : ChunkingInfo.ShiftsFit l.rightShift table (l.maxBits intermediateBitSize) valueChunks
  largest : ¬ ChunkingInfo.Overflows l.rightShift table (l.maxBits intermediateBitSize) valueChunks
    (l.largest intermediateBitSize)

/-- The signed numbers of some bits; there is none of no bits. -/
def SignedInput (bits : Nat) (x : Int) : Prop := 0 < bits ∧ InSigned bits x

instance (bits : Nat) (x : Int) : Decidable (SignedInput bits x) :=
  inferInstanceAs (Decidable (_ ∧ _))

namespace ActivationLookupData

namespace IsBuilt

variable {self : ActivationLookupData} {l : Logarithm} (h : self.IsBuilt l)

include h

theorem maxBits_eq : self.maxBits = l.maxBits self.intermediateBitSize := by
  unfold maxBits Logarithm.maxBits
  rw [h.fixedPointMultiplier]
  dsimp only
  split <;> omega

theorem rightShift_eq (hexp : l.intPart ≤ fixedPointScale) : self.rightShift = l.rightShift := by
  rw [h.rightShift, Logarithm.rightShift]
  omega

theorem rescale_eq (x : Int) :
    self.lookupOp.rescale x = x * l.fixedPoint + 2 ^ (self.rightShift - 1) := by
  rw [← h.fixedPointMultiplier]
  rfl

theorem tableInput_eq (x : Int) :
    self.tableInput x = shiftRound (x * l.fixedPoint) self.rightShift := by
  rw [tableInput, h.rescale_eq]
  rfl

variable {x : Int}

/-- The products fit into the bits of the decomposition. -/
theorem product_inSigned (hx : SignedInput self.intermediateBitSize x) :
    InSigned self.maxBits (x * l.fixedPoint) := by
  have hnonneg : 0 ≤ l.fixedPoint := le_trans (by decide) l.le_fixedPoint
  have hclog : l.fixedPoint ≤ 2 ^ max fixedPointScale (ceilLog2 l.fixedPoint.natAbs) := by
    have hle := Nat.le_pow_clog (b := 2) (by decide) l.fixedPoint.natAbs
    have hcast : (l.fixedPoint.natAbs : Int) ≤ 2 ^ ceilLog2 l.fixedPoint.natAbs := by
      exact_mod_cast hle
    have hmono : (2 : Int) ^ ceilLog2 l.fixedPoint.natAbs ≤
        2 ^ max fixedPointScale (ceilLog2 l.fixedPoint.natAbs) :=
      pow_le_pow_right₀ (by decide) (Nat.le_max_right _ _)
    omega
  rw [h.maxBits_eq]
  exact hx.2.mul hx.1 hnonneg hclog

/-- The largest input gives the largest value. -/
theorem rescale_le_largest (hexp : l.intPart ≤ fixedPointScale)
    (hx : SignedInput self.intermediateBitSize x) :
    self.lookupOp.rescale x ≤ l.largest self.intermediateBitSize := by
  have hnonneg : 0 ≤ l.fixedPoint := le_trans (by decide) l.le_fixedPoint
  have hmul := mul_le_mul_of_nonneg_right (Int.le_sub_one_of_lt hx.2.2) hnonneg
  rw [h.rescale_eq, h.rightShift_eq hexp, Logarithm.largest]
  omega

theorem rescale_rounded (hexp : l.intPart ≤ fixedPointScale)
    (hx : SignedInput self.intermediateBitSize x) :
    ChunkingInfo.Rounded l.rightShift self.maxBits self.table.tableSign
      (self.lookupOp.rescale x) := by
  have hproduct := h.product_inSigned hx
  have hpos := Digits.two_pow_pos (l.rightShift - 1)
  rw [h.tableSign, h.rescale_eq, h.rightShift_eq hexp]
  obtain ⟨hlow, hhigh⟩ := hproduct
  constructor <;> omega

theorem largest_eq (hexp : l.intPart ≤ fixedPointScale) :
    self.lookupOp.rescale (2 ^ (self.intermediateBitSize - 1) - 1) =
      l.largest self.intermediateBitSize := by
  rw [h.rescale_eq, h.rightShift_eq hexp, Logarithm.largest]

theorem chunkingInfo_eq_ok (hpos : 0 < self.rightShift) :
    ∃ info, self.chunkingInfo self.table = .ok info := by
  have hchunks : (self.valueChunks == 1 || self.table.operation == .requantise) = true := by
    rcases h.valueChunks with heq | heq <;> simp [heq]
  show ∃ info, ChunkingInfo.new self.rightShift self.table self.maxBits self.valueChunks = .ok info
  unfold ChunkingInfo.new
  rw [(ensure_eq_ok (u := ())).mpr (decide_eq_true hpos), Outcome.ok_bind,
    (ensure_eq_ok (u := ())).mpr hchunks, Outcome.ok_bind]
  exact ⟨_, rfl⟩

/-- The products and the sums fit into `i64`. -/
theorem isElement_rescale (hexp : l.intPart < fixedPointScale) (hshift : l.rightShift ≤ 62)
    (hx : SignedInput self.intermediateBitSize x) :
    IsElement (x * l.fixedPoint) ∧ IsElement (self.lookupOp.rescale x) := by
  have hbits := h.intermediateBitSize
  have hscale : fixedPointScale = 15 := rfl
  have hnonneg : 0 ≤ l.fixedPoint := le_trans (by decide) l.le_fixedPoint
  have hrounding : (2 : Int) ^ (l.rightShift - 1) ≤ 2 ^ 61 :=
    pow_le_pow_right₀ (by decide) (by omega)
  have hpos := Digits.two_pow_pos (l.rightShift - 1)
  rw [h.rescale_eq, h.rightShift_eq hexp.le]
  rcases lt_or_ge l.intPart 0 with hneg | hge
  · -- the mantissa has 15 bits, so that the products have 63
    have hproduct := (hx.2.mul hx.1 hnonneg (l.fixedPoint_le_of_neg hneg)).mono (n := 63) (by omega)
    obtain ⟨hlow, hhigh⟩ := hproduct
    refine ⟨⟨?_, ?_⟩, ?_, ?_⟩ <;> omega
  · -- the rounding constant is below the mantissa, which is taken once less than a power of two
    have hsmall : (2 : Int) ^ (l.rightShift - 1) ≤ 2 ^ 14 := by
      apply pow_le_pow_right₀ (by decide)
      unfold Logarithm.rightShift
      omega
    have hproduct := (hx.2.mul hx.1 hnonneg l.fixedPoint_le).mono (n := 64) (by omega)
    have hinput := hx.2.2
    have hpow : (2 : Int) ^ (self.intermediateBitSize - 1) ≤ 2 ^ 47 :=
      pow_le_pow_right₀ (by decide) (by omega)
    have hmul := mul_le_mul_of_nonneg_right (show x ≤ 2 ^ 47 - 1 by omega) hnonneg
    have hle := l.fixedPoint_le
    have hge := l.le_fixedPoint
    refine ⟨hproduct, ?_, ?_⟩
    · have := hproduct.1
      omega
    · omega

/-- An input is decomposed exactly if it does not overflow. -/
theorem roundTrips_rescale_iff {F : Type} [Field F] [DecidableEq F] (h2 : (2 : F) ≠ 0)
    (hexp : l.intPart ≤ fixedPointScale) {info : ChunkingInfo}
    (hinfo : self.chunkingInfo self.table = .ok info)
    (hshifts : ChunkingInfo.ShiftsFit self.rightShift self.table self.maxBits self.valueChunks)
    (hx : SignedInput self.intermediateBitSize x) :
    ChunkingInfo.RoundTrips F info [self.lookupOp.rescale x] ↔
      ¬ ChunkingInfo.Overflows self.rightShift self.table self.maxBits self.valueChunks
        (self.lookupOp.rescale x) := by
  have hrounded := h.rescale_rounded hexp hx
  rw [← h.rightShift_eq hexp] at hrounded
  have hinput : ∀ value ∈ [self.lookupOp.rescale x],
      ChunkingInfo.Rounded self.rightShift self.maxBits self.table.tableSign value := by
    intro value hvalue
    obtain rfl := List.mem_singleton.mp hvalue
    exact hrounded
  have htrips := ChunkingInfo.roundTrips_rounded_iff h2 hinfo hshifts hinput
  rw [htrips, List.forall_mem_singleton]
  rfl

end IsBuilt

end ActivationLookupData

/-- The lookup data rescale all inputs correctly exactly if the multiplier fits. -/
theorem rescales_iff {fl : ScaleFloats} {tf : TableFloats fl} {bitLen : Nat} {l : Logarithm}
    {self : ActivationLookupData} (hbuilt : BuiltFor tf bitLen l self) :
    (∀ x, SignedInput self.intermediateBitSize x → self.Rescales l.value x) ↔
      self.intermediateBitSize = 0 ∨
        l.Fits self.intermediateBitSize self.table self.valueChunks := by
  have h := ActivationLookupData.isBuilt_of_builtFor hbuilt
  have hscale : fixedPointScale = 15 := rfl
  constructor
  · intro hall
    rcases Nat.eq_zero_or_pos self.intermediateBitSize with hzero | hpos
    · exact Or.inl hzero
    have hpow := Digits.two_pow_pos (self.intermediateBitSize - 1)
    have hrescales := hall (-1) ⟨hpos, by omega, by omega⟩
    have hshift := hrescales.rightShift.1
    have hexp : l.intPart < fixedPointScale := by
      rcases lt_trichotomy l.intPart fixedPointScale with hlt | heq | hgt
      · exact hlt
      · -- at the scale there is no shift
        rw [h.rightShift, heq] at hshift
        omega
      · have hnear := hrescales.near
        rw [h.tableInput_eq] at hnear
        exact absurd (by simpa using hnear) (Logarithm.not_near_of_lt hgt h.rightShift)
    refine Or.inr ⟨hexp, ?_, ?_⟩
    · rw [← h.rightShift_eq hexp.le, ← h.maxBits_eq]
      exact hrescales.shifts
    · -- the largest input
      have hlargest : SignedInput self.intermediateBitSize
          (2 ^ (self.intermediateBitSize - 1) - 1) := ⟨hpos, by omega, by omega⟩
      obtain ⟨info, hinfo, htrips⟩ := (hall _ hlargest).decomposed
      have hno := (h.roundTrips_rescale_iff (by norm_num) hexp.le hinfo hrescales.shifts
        hlargest).mp (htrips ℚ (by norm_num))
      rw [h.largest_eq hexp.le] at hno
      rw [← h.rightShift_eq hexp.le, ← h.maxBits_eq]
      exact hno
  · rintro (hzero | hfits) x hx
    · exact absurd hx.1 (by omega)
    have hexp := hfits.intPart
    have hright := h.rightShift_eq hexp.le
    have hshift : 0 < l.rightShift := by
      unfold Logarithm.rightShift
      omega
    obtain ⟨hproduct, hsum⟩ := h.isElement_rescale hexp hfits.shifts.rightShift hx
    have hshifts := hfits.shifts
    have hlargest := hfits.largest
    rw [← hright, ← h.maxBits_eq] at hshifts hlargest
    obtain ⟨info, hinfo⟩ := h.chunkingInfo_eq_ok (by omega)
    constructor
    case product =>
      rw [h.fixedPointMultiplier]
      exact hproduct
    case sum => exact hsum
    case rightShift =>
      have := hshifts.rightShift
      omega
    case near =>
      rw [h.tableInput_eq, hright]
      exact Logarithm.abs_shiftRound_sub_value_le hexp x
    case shifts => exact hshifts
    case decomposed =>
      refine ⟨info, hinfo, ?_⟩
      intro F _ _ h2
      apply (h.roundTrips_rescale_iff h2 hexp.le hinfo hshifts hx).mpr
      exact fun hover => hlargest (hover.mono (h.rescale_le_largest hexp.le hx))

/-! ## Halving -/

section Halving

/-- Exact arithmetic; the logarithms are those of powers of two. -/
def exactFloats : ScaleFloats where
  F32 := ℚ
  ofElement x := x
  toElement x := x.num.tdiv x.den
  zero := 0
  neg := Neg.neg
  abs := abs
  sub := (· - ·)
  mul := (· * ·)
  div := (· / ·)
  max := Max.max
  log2 x := Int.log 2 x
  trunc x := x.num.tdiv x.den
  fract x := x - x.num.tdiv x.den
  exp2 x := 2 ^ ⌊x⌋
  roundTiesEven x := Rounding.roundTiesEven x

def exactTableFloats : TableFloats exactFloats where
  recip := (Inv.inv : ℚ → ℚ)
  toBits _ := oneBits

/-- The logarithm of a half. -/
def logHalf : Logarithm where
  intPart := -1
  mantissa := 1
  half_lt := by norm_num
  lt_two := by norm_num
  one_le := fun h => absurd h (by decide)
  le_one := fun _ => le_refl 1

/-- Outputs of eight bits. -/
def byteScaling : ScalingFactor exactFloats.F32 :=
  ⟨(-1 : ℚ), (1 : ℚ), (1 / 128 : ℚ), (-128, 127)⟩

/-- Inputs of some bits are halved. -/
def halving (intermediateBitSize : Nat) : ActivationLookupData where
  rightShift := 16
  fixedPointMultiplier := 2 ^ 15
  intermediateBitSize
  paddingValue := 0
  table := Table.newRequantise 8
  isGlu := false
  valueChunks := 1

theorem of_logHalf : logHalf.Of exactFloats ((1 / 2 : ℚ)) := by
  constructor
  · decide +kernel
  · decide +kernel

variable {intermediateBitSize : Nat}

theorem fromMultiplier_halving (h : intermediateBitSize ≤ 48) :
    Requant.fromMultiplier exactFloats 8 ((1 / 2 : ℚ)) intermediateBitSize byteScaling =
      .ok ⟨byteScaling, Table.newRequantise 8, halving intermediateBitSize⟩ := by
  have hassert : intermediateBitSize + fixedPointScale ≤ 63 := by
    show intermediateBitSize + 15 ≤ 63
    omega
  have hbits : byteScaling.bitSize = 7 := by decide +kernel
  have hfixed : logHalf.fixedPoint = 2 ^ 15 := by decide +kernel
  simp only [Requant.fromMultiplier, of_logHalf.intPart, of_logHalf.fixedPoint, hfixed, hbits]
  rw [assertThat_eq_ok (u := ()).mpr (decide_eq_true hassert)]
  rfl

theorem builtFor_halving (h : intermediateBitSize ≤ 48) :
    BuiltFor exactTableFloats 8 logHalf (halving intermediateBitSize) :=
  .fromMultiplier (fromMultiplier_halving h) of_logHalf

/-- The largest input of eight bits is halved correctly. -/
theorem rescales_halving : (halving 8).Rescales logHalf.value 127 := by
  have hbits : logHalf.maxBits 8 = 23 := by decide +kernel
  have hlargest : logHalf.largest 8 = 127 * 2 ^ 15 + 2 ^ 15 := by decide +kernel
  refine (rescales_iff (builtFor_halving (by decide))).mpr (Or.inr ⟨by decide, ?_, ?_⟩) 127
    (by decide)
  · rw [show (halving 8).intermediateBitSize = 8 from rfl, hbits]
    exact ⟨by decide, by decide, by decide, fun _ => by decide⟩
  · rw [show (halving 8).intermediateBitSize = 8 from rfl, hbits, hlargest]
    decide

/-- **The largest input of nine bits is not.** Half of 255 is rounded to 128, which no signed
    byte is, and no zeroing chunk has been left for the carry. -/
theorem not_rescales_halving :
    BuiltFor exactTableFloats 8 logHalf (halving 9) ∧ SignedInput 9 255 ∧
      ¬ (halving 9).Rescales logHalf.value 255 := by
  have hbuilt : BuiltFor exactTableFloats 8 logHalf (halving 9) := builtFor_halving (by decide)
  have hinput : SignedInput 9 255 := by decide
  refine ⟨hbuilt, hinput, ?_⟩
  rintro ⟨_, _, _, _, hshifts, info, hinfo, htrips⟩
  have hno := ((ActivationLookupData.isBuilt_of_builtFor hbuilt).roundTrips_rescale_iff
    (by norm_num) (by decide) hinfo hshifts hinput).mp (htrips ℚ (by norm_num))
  revert hno
  decide

end Halving

end DeepProve
