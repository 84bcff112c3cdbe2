import DeepProve.Quantization.Rescale

/-!
# Quantised addition

`AddQuantInfo::new` of `layers/add.rs`: both inputs of an addition are multiplied by an integer, so
that one right shift brings their sum to the scale of the output.

The shift is the distance of the smaller exponent to the fixed point scale, also when the exponent
is larger. Where the sum needs more than 62 bits, bits of the multipliers are traded against the
shift.
-/

namespace DeepProve

open BitWidth Rounding

namespace QuantizeAdd

/-- The logarithm of a rescale factor: its integer part, and the power of two with its fractional
    part as exponent. -/
structure RescaleLog where
  intPart : Int
  mantissa : ℚ
  half_lt : 1 / 2 < mantissa
  lt_two : mantissa < 2

/-- `1u64 << n`. -/
def shiftLeftOne (n : Nat) : Outcome Nat :=
  if n < 64 then .ok (2 ^ n) else .error (.panic "attempt to shift left with overflow")

/-- `x as Element` of a float. -/
def saturate (x : Int) : Int := max (-2 ^ 63) (min x (2 ^ 63 - 1))

namespace RescaleLog

/-- The rescale factor. -/
def value (l : RescaleLog) : ℚ := 2 ^ l.intPart * l.mantissa

/-- `2.0f32.powf(fract) * (1u64 << n) as f32`, rounded. -/
def fixedPoint (l : RescaleLog) (n : Nat) : Outcome Int := do
  let one ← shiftLeftOne n
  .ok (saturate (roundTiesEven (l.mantissa * one)))

end RescaleLog

/-- The common right shift and the multipliers. -/
def align (left right : RescaleLog) : Outcome (Nat × Int × Int) :=
  let leftInputShift := left.intPart - fixedPointScale
  let rightInputShift := right.intPart - fixedPointScale
  match compare leftInputShift rightInputShift with
  | .lt => do
    let shiftDiff := rightInputShift - leftInputShift
    let rightMultiplier ← right.fixedPoint (fixedPointScale + shiftDiff.natAbs)
    let leftMultiplier ← left.fixedPoint fixedPointScale
    .ok (leftInputShift.natAbs, leftMultiplier, rightMultiplier)
  | .eq => do
    let rightMultiplier ← right.fixedPoint fixedPointScale
    let leftMultiplier ← left.fixedPoint fixedPointScale
    .ok (leftInputShift.natAbs, leftMultiplier, rightMultiplier)
  | .gt => do
    let shiftDiff := leftInputShift - rightInputShift
    let leftMultiplier ← left.fixedPoint (fixedPointScale + shiftDiff.natAbs)
    let rightMultiplier ← right.fixedPoint fixedPointScale
    .ok (rightInputShift.natAbs, leftMultiplier, rightMultiplier)

/-- `while total_bit_size >= 63`: a bit of both multipliers for one of the shift. -/
def trade : Nat → Nat → Int → Int → Outcome (Nat × Nat × Int × Int)
  | 0, finalRightShift, leftMultiplier, rightMultiplier =>
    .ok (0, finalRightShift, leftMultiplier, rightMultiplier)
  | totalBitSize + 1, finalRightShift, leftMultiplier, rightMultiplier =>
    if 63 ≤ totalBitSize + 1 then do
      let finalRightShift ← usizeSub finalRightShift 1
      trade totalBitSize finalRightShift (leftMultiplier >>> (1 : Nat))
        (rightMultiplier >>> (1 : Nat))
    else
      .ok (totalBitSize + 1, finalRightShift, leftMultiplier, rightMultiplier)

structure AddQuantInfo (T : Type) where
  leftMultiplier : Int
  rightMultiplier : Int
  rightShift : Nat
  intermediateBitSize : Nat
  outputScaling : ScalingFactor T

namespace AddQuantInfo

variable {fl : ScaleFloats} (left right : RescaleLog)
  (leftScaling rightScaling outputScaling : ScalingFactor fl.F32)

/-- `new`, for the logarithms of the scales of the inputs over that of the output. -/
def new : Outcome (AddQuantInfo fl.F32) := do
  let (finalRightShift, leftMultiplier, rightMultiplier) ← align left right
  let maxMultiplier := max leftMultiplier rightMultiplier
  let maxMultBitSize := ceilLog2 maxMultiplier.toNat
  let maxInputBitSize := max leftScaling.bitSize rightScaling.bitSize
  -- one bit for the addition and one for the sign
  let totalBitSize := maxMultBitSize + maxInputBitSize + 2
  let (totalBitSize, finalRightShift, leftMultiplier, rightMultiplier) ←
    trade totalBitSize finalRightShift leftMultiplier rightMultiplier
  .ok {
    leftMultiplier
    rightMultiplier
    rightShift := finalRightShift
    intermediateBitSize := totalBitSize
    outputScaling }

/-- `Add::evaluate`, on one entry of each input. -/
def evaluate (self : AddQuantInfo fl.F32) (left right : Int) : Int :=
  left * self.leftMultiplier + right * self.rightMultiplier

/-- The sums are numbers of the intermediate bits and no step overflows, and the multipliers are the
    rescale factors at the scale of the shift, up to one unit. -/
structure IsExact (data : AddQuantInfo fl.F32) (left right : RescaleLog)
    (leftDomain rightDomain : Int × Int) : Prop where
  inSigned : ∀ l r, Within leftDomain l → Within rightDomain r →
    InSigned data.intermediateBitSize (data.evaluate l r)
  isElement : ∀ l r, Within leftDomain l → Within rightDomain r →
    IsElement (l * data.leftMultiplier) ∧ IsElement (r * data.rightMultiplier) ∧
      IsElement (data.evaluate l r)
  left : |(data.leftMultiplier : ℚ) / 2 ^ data.rightShift - left.value| ≤ 1 / 2 ^ data.rightShift
  right : |(data.rightMultiplier : ℚ) / 2 ^ data.rightShift - right.value| ≤ 1 / 2 ^ data.rightShift

end AddQuantInfo

/-! ## The multipliers -/

namespace RescaleLog

variable (l : RescaleLog) (low : Int)

/-- The rescale factor at the fixed point scale of the lower exponent. -/
def aligned : ℚ := l.mantissa * 2 ^ (fixedPointScale + (l.intPart - low).toNat)

/-- The multiplier. -/
def multiplier : Int := saturate (roundTiesEven (l.aligned low))

theorem two_pow_lt_aligned : 2 ^ (14 + (l.intPart - low).toNat) < l.aligned low := by
  have h := l.half_lt
  have hpos : (0 : ℚ) < 2 ^ (l.intPart - low).toNat := by positivity
  rw [aligned, show fixedPointScale = 14 + 1 from rfl, add_right_comm, pow_succ, pow_add]
  nlinarith

theorem aligned_lt_two_pow : l.aligned low < 2 ^ (16 + (l.intPart - low).toNat) := by
  have h := l.lt_two
  have hpos : (0 : ℚ) < 2 ^ (l.intPart - low).toNat := by positivity
  rw [aligned, pow_add, pow_add]
  norm_num
  nlinarith

theorem le_aligned : 2 ^ 14 ≤ l.aligned low :=
  (pow_le_pow_right₀ (by norm_num) (Nat.le_add_right _ _)).trans (l.two_pow_lt_aligned low).le

/-- The factor with the lower exponent has 16 bits. -/
theorem aligned_lt_of_eq (h : l.intPart = low) : l.aligned low < 2 ^ 16 := by
  have hlt := l.aligned_lt_two_pow low
  rwa [h, sub_self, Int.toNat_zero, add_zero] at hlt

/-- Below the scale, the distance to it is the shift. -/
theorem aligned_eq (h : low ≤ fixedPointScale) (hlow : low ≤ l.intPart) :
    l.aligned low = l.value * 2 ^ (low - fixedPointScale).natAbs := by
  have hexp : ((fixedPointScale + (l.intPart - low).toNat : Nat) : Int) =
      l.intPart + ((low - fixedPointScale).natAbs : Nat) := by
    have hscale : fixedPointScale = 15 := rfl
    omega
  rw [aligned, value, ← zpow_natCast, hexp, zpow_add₀ (by norm_num), zpow_natCast]
  ring

theorem fixedPoint_eq (h : (l.intPart - low).toNat ≤ 48) :
    l.fixedPoint (fixedPointScale + (l.intPart - low).toNat) = .ok (l.multiplier low) := by
  have hscale : fixedPointScale = 15 := rfl
  rw [fixedPoint, shiftLeftOne, if_pos (by omega)]
  show Except.ok _ = _
  rw [multiplier, aligned]
  push_cast
  rfl

end RescaleLog

theorem saturate_le_iff {x n : Int} (hlo : -2 ^ 63 ≤ n) (hhi : n < 2 ^ 63 - 1) :
    saturate x ≤ n ↔ x ≤ n := by
  unfold saturate
  omega

theorem le_saturate_iff {x n : Int} (hlo : -2 ^ 63 < n) (hhi : n ≤ 2 ^ 63 - 1) :
    n ≤ saturate x ↔ n ≤ x := by
  unfold saturate
  omega

theorem two_pow_emod_two {t : Nat} (ht : 0 < t) : (2 ^ t : Int) % 2 = 0 := by
  obtain ⟨k, rfl⟩ := Nat.exists_eq_add_of_le' ht
  rw [pow_succ]
  omega

theorem saturate_le (x : Int) : saturate x ≤ 2 ^ 63 - 1 := by
  unfold saturate
  omega

namespace RescaleLog

variable {l : RescaleLog} {low : Int}

theorem le_multiplier : 2 ^ 14 ≤ l.multiplier low := by
  refine (le_saturate_iff (by norm_num) (by norm_num)).mpr (le_roundTiesEven ?_)
  exact_mod_cast l.le_aligned low

/-- The bits of a multiplier. -/
theorem multiplier_le_iff (hfits : l.aligned low ≤ 2 ^ 63) {t : Nat} (ht : 0 < t) :
    l.multiplier low ≤ 2 ^ t ↔ l.aligned low ≤ 2 ^ t + 1 / 2 := by
  have heven := two_pow_emod_two ht
  by_cases hsmall : t < 63
  · have hlt : (2 : Int) ^ t < 2 ^ 63 - 1 := by
      have hle : (2 : Int) ^ t ≤ 2 ^ 62 := pow_le_pow_right₀ (by decide) (by omega)
      omega
    have hround := roundTiesEven_le_iff (x := l.aligned low) heven
    push_cast at hround
    rw [multiplier, saturate_le_iff (by have : (0 : Int) < 2 ^ t := by positivity
                                        omega) hlt, hround]
  · -- all multipliers have 63 bits
    have hint : (2 : Int) ^ 63 ≤ 2 ^ t := pow_le_pow_right₀ (by decide) (by omega)
    have hrat : (2 : ℚ) ^ 63 ≤ 2 ^ t := pow_le_pow_right₀ (by norm_num) (by omega)
    have hmul := saturate_le (roundTiesEven (l.aligned low))
    refine ⟨fun _ => by linarith, fun _ => ?_⟩
    show saturate _ ≤ _
    omega

theorem le_multiplier_iff {t : Nat} (ht : 0 < t) (hsmall : t < 63) :
    2 ^ t ≤ l.multiplier low ↔ 2 ^ t - 1 / 2 ≤ l.aligned low := by
  have heven := two_pow_emod_two ht
  have hle : (2 : Int) ^ t ≤ 2 ^ 62 := pow_le_pow_right₀ (by decide) (by omega)
  have hpos : (0 : Int) < 2 ^ t := by positivity
  have hround := le_roundTiesEven_iff (x := l.aligned low) heven
  push_cast at hround
  rw [multiplier, le_saturate_iff (by omega) (by omega), hround]

/-- The error of a multiplier that has not saturated. -/
theorem multiplier_near (hfits : l.aligned low ≤ 2 ^ 63) :
    l.aligned low - 1 ≤ l.multiplier low ∧ (l.multiplier low : ℚ) ≤ l.aligned low + 1 / 2 := by
  have herror := abs_le.mp (abs_roundTiesEven_sub_le (l.aligned low))
  have hround : roundTiesEven (l.aligned low) ≤ 2 ^ 63 := roundTiesEven_le (by exact_mod_cast hfits)
  have hlow : 2 ^ 14 ≤ roundTiesEven (l.aligned low) :=
    le_roundTiesEven (by exact_mod_cast l.le_aligned low)
  rcases hround.lt_or_eq with hlt | heq
  · have hmul : l.multiplier low = roundTiesEven (l.aligned low) := by
      unfold multiplier saturate
      omega
    rw [hmul]
    constructor <;> linarith
  · have hmul : l.multiplier low = 2 ^ 63 - 1 := by
      unfold multiplier saturate
      omega
    rw [heq] at herror
    rw [hmul]
    push_cast at herror ⊢
    constructor <;> linarith

/-- A multiplier that has saturated, once bits of it are traded. -/
theorem multiplier_ediv_lt (hlarge : 2 ^ 63 < l.aligned low) {s : Nat} (hs : s ≤ 63) :
    ((l.multiplier low / 2 ^ s : Int) : ℚ) < l.aligned low / 2 ^ s - 1 := by
  have hround : 2 ^ 63 ≤ roundTiesEven (l.aligned low) :=
    le_roundTiesEven (by exact_mod_cast hlarge.le)
  have hmul : l.multiplier low = 2 ^ 63 - 1 := by
    unfold multiplier saturate
    omega
  have hsplit : (2 : Int) ^ 63 = 2 ^ (63 - s) * 2 ^ s := by
    rw [← pow_add, Nat.sub_add_cancel hs]
  have hpos : (0 : Int) < 2 ^ s := by positivity
  have hdiv : (2 ^ 63 - 1 : Int) / 2 ^ s = 2 ^ (63 - s) - 1 := by
    rw [Int.ediv_eq_iff_of_pos hpos, hsplit]
    constructor <;> linarith
  rw [hmul, hdiv, lt_sub_iff_add_lt, lt_div_iff₀ (by positivity)]
  push_cast
  rw [sub_add_cancel, ← pow_add, Nat.sub_add_cancel hs]
  exact hlarge

end RescaleLog

/-! ## The bits -/

/-- The lower exponent. -/
def low (left right : RescaleLog) : Int := min left.intPart right.intPart

variable {right left : RescaleLog}

theorem align_of_le (h : max left.intPart right.intPart ≤ low left right + 48) :
    align left right =
      .ok ((low left right - fixedPointScale).natAbs, left.multiplier (low left right),
        right.multiplier (low left right)) := by
  obtain ⟨lo, hlow⟩ : ∃ n, n = min left.intPart right.intPart := ⟨_, rfl⟩
  rw [show low left right = lo from hlow.symm] at h ⊢
  have hleft := left.fixedPoint_eq lo (by omega)
  have hright := right.fixedPoint_eq lo (by omega)
  unfold align
  dsimp only
  split
  case h_1 hcompare =>
    have hlt := compare_lt_iff_lt.mp hcompare
    obtain rfl : lo = left.intPart := by omega
    have hdiff : (right.intPart - fixedPointScale - (left.intPart - fixedPointScale)).natAbs =
        (right.intPart - left.intPart).toNat := by omega
    rw [hdiff, hright, Outcome.ok_bind]
    rw [sub_self] at hleft
    rw [show left.fixedPoint fixedPointScale = _ from hleft]
    rfl
  case h_2 hcompare =>
    have heq := compare_eq_iff_eq.mp hcompare
    obtain rfl : lo = left.intPart := by omega
    rw [sub_self] at hleft
    rw [show right.intPart - left.intPart = 0 by omega] at hright
    rw [show right.fixedPoint fixedPointScale = _ from hright, Outcome.ok_bind,
      show left.fixedPoint fixedPointScale = _ from hleft]
    rfl
  case h_3 hcompare =>
    have hlt := compare_gt_iff_gt.mp hcompare
    obtain rfl : lo = right.intPart := by omega
    have hdiff : (left.intPart - fixedPointScale - (right.intPart - fixedPointScale)).natAbs =
        (left.intPart - right.intPart).toNat := by omega
    rw [hdiff, hleft, Outcome.ok_bind]
    rw [sub_self] at hright
    rw [show right.fixedPoint fixedPointScale = _ from hright]
    rfl

theorem align_of_lt (h : low left right + 48 < max left.intPart right.intPart) :
    ∃ msg, align left right = .error (.panic msg) := by
  refine ⟨"attempt to shift left with overflow", ?_⟩
  have hlow : low left right = min left.intPart right.intPart := rfl
  have hscale : fixedPointScale = 15 := rfl
  unfold align
  dsimp only
  split
  case h_1 hcompare =>
    have hlt := compare_lt_iff_lt.mp hcompare
    rw [RescaleLog.fixedPoint, shiftLeftOne, if_neg (by omega)]
    rfl
  case h_2 hcompare =>
    have heq := compare_eq_iff_eq.mp hcompare
    omega
  case h_3 hcompare =>
    have hlt := compare_gt_iff_gt.mp hcompare
    rw [RescaleLog.fixedPoint, shiftLeftOne, if_neg (by omega)]
    rfl

theorem trade_of_le {totalBitSize finalRightShift : Nat} {leftMultiplier rightMultiplier : Int}
    (h : totalBitSize - 62 ≤ finalRightShift) :
    trade totalBitSize finalRightShift leftMultiplier rightMultiplier =
      .ok (totalBitSize - (totalBitSize - 62), finalRightShift - (totalBitSize - 62),
        leftMultiplier / 2 ^ (totalBitSize - 62), rightMultiplier / 2 ^ (totalBitSize - 62)) := by
  induction totalBitSize generalizing finalRightShift leftMultiplier rightMultiplier with
  | zero => simp [trade]
  | succ n ih =>
    rw [trade]
    split
    case isTrue hlarge =>
      obtain ⟨j, hj⟩ : ∃ j, n = j + 62 := ⟨n - 62, by omega⟩
      rw [usizeSub, if_pos (by omega), Outcome.ok_bind, ih (by omega), hj,
        show j + 62 + 1 - 62 = j + 1 by omega, show j + 62 - 62 = j by omega, pow_succ']
      simp only [Int.shiftRight_eq_div_pow, pow_one, Except.ok.injEq, Prod.mk.injEq]
      refine ⟨by omega, by omega, ?_, ?_⟩
      · exact Int.ediv_ediv_of_nonneg (by decide)
      · exact Int.ediv_ediv_of_nonneg (by decide)
    case isFalse hsmall =>
      rw [show n + 1 - 62 = 0 by omega]
      simp

theorem trade_of_lt {totalBitSize finalRightShift : Nat} {leftMultiplier rightMultiplier : Int}
    (h : finalRightShift < totalBitSize - 62) :
    ∃ msg, trade totalBitSize finalRightShift leftMultiplier rightMultiplier =
      .error (.panic msg) := by
  induction totalBitSize generalizing finalRightShift leftMultiplier rightMultiplier with
  | zero => omega
  | succ n ih =>
    rw [trade, if_pos (by omega)]
    cases finalRightShift with
    | zero => exact ⟨_, rfl⟩
    | succ k =>
      rw [usizeSub, if_pos (by omega), Outcome.ok_bind]
      exact ih (by omega)

section New

variable {fl : ScaleFloats} {left right : RescaleLog} {domains : (Int × Int) × (Int × Int)}
  {leftScaling rightScaling outputScaling : ScalingFactor fl.F32}

/-- The bits of the larger multiplier. -/
def multBits (left right : RescaleLog) : Nat :=
  ceilLog2 (max (left.multiplier (low left right)) (right.multiplier (low left right))).toNat

/-- The bits that are traded, for inputs of some bits. -/
def excess (left right : RescaleLog) (inputBits : Nat) : Nat :=
  multBits left right + inputBits + 2 - 62

/-- **When there are multipliers.** The exponents are at most 48 apart, and the shift has the bits
    that are traded. -/
theorem new_eq_ok_iff {info : AddQuantInfo fl.F32} {b : Nat}
    (hb : b = max leftScaling.bitSize rightScaling.bitSize) :
    AddQuantInfo.new left right leftScaling rightScaling outputScaling = .ok info ↔
      max left.intPart right.intPart ≤ low left right + 48 ∧
      excess left right b ≤ (low left right - fixedPointScale).natAbs ∧
      info = {
        leftMultiplier := left.multiplier (low left right) / 2 ^ excess left right b
        rightMultiplier := right.multiplier (low left right) / 2 ^ excess left right b
        rightShift := (low left right - fixedPointScale).natAbs - excess left right b
        intermediateBitSize := multBits left right + b + 2 - excess left right b
        outputScaling } := by
  subst hb
  by_cases hdiff : max left.intPart right.intPart ≤ low left right + 48
  · have hnew : AddQuantInfo.new left right leftScaling rightScaling outputScaling =
        trade (multBits left right + max leftScaling.bitSize rightScaling.bitSize + 2)
          (low left right - fixedPointScale).natAbs (left.multiplier (low left right))
          (right.multiplier (low left right)) >>= fun (total, shift, l, r) =>
            .ok ⟨l, r, shift, total, outputScaling⟩ := by
      unfold AddQuantInfo.new
      rw [align_of_le hdiff]
      rfl
    by_cases htrade : excess left right (max leftScaling.bitSize rightScaling.bitSize) ≤
        (low left right - fixedPointScale).natAbs
    · rw [hnew, trade_of_le htrade, Outcome.ok_bind]
      exact ⟨fun h => ⟨hdiff, htrade, (Except.ok.inj h).symm⟩, fun h => congrArg _ h.2.2.symm⟩
    · obtain ⟨msg, hmsg⟩ := trade_of_lt (not_le.mp htrade)
      rw [hnew, hmsg]
      exact ⟨fun h => (by cases h), fun h => absurd h.2.1 htrade⟩
  · obtain ⟨msg, hmsg⟩ := align_of_lt (not_le.mp hdiff)
    unfold AddQuantInfo.new
    rw [hmsg]
    exact ⟨fun h => (by cases h), fun h => absurd h.1 hdiff⟩

end New

theorem multBits_le_iff {t : Nat} :
    multBits left right ≤ t ↔
      left.multiplier (low left right) ≤ 2 ^ t ∧ right.multiplier (low left right) ≤ 2 ^ t := by
  have hcast : ((2 ^ t : Nat) : Int) = 2 ^ t := by
    push_cast
    rfl
  have hpos : (0 : Int) < 2 ^ t := by positivity
  rw [multBits, ceilLog2, Nat.clog_le_iff_le_pow (by decide)]
  omega

/-! ## The scale -/

namespace RescaleLog

variable {l : RescaleLog} {low : Int} {j : Nat}

/-- Below the scale, a multiplier keeps the factor unless it saturates. -/
theorem near_iff (hscale : low ≤ fixedPointScale) (hlow : low ≤ l.intPart)
    (hj : j ≤ (low - fixedPointScale).natAbs) (hj63 : j ≤ 63) :
    |((l.multiplier low / 2 ^ j : Int) : ℚ) / 2 ^ ((low - fixedPointScale).natAbs - j) - l.value| ≤
      1 / 2 ^ ((low - fixedPointScale).natAbs - j) ↔ l.aligned low ≤ 2 ^ 63 := by
  have haligned := l.aligned_eq low hscale hlow
  obtain ⟨k, hk⟩ := Nat.exists_eq_add_of_le hj
  have hpos : (0 : ℚ) < 2 ^ k := by positivity
  have hquot : l.aligned low / 2 ^ j = l.value * 2 ^ k := by
    rw [haligned, hk, pow_add]
    field_simp
  have hunit (a : ℚ) : |a / 2 ^ k - l.value| ≤ 1 / 2 ^ k ↔ |a - l.value * 2 ^ k| ≤ 1 := by
    rw [le_div_iff₀ hpos, ← abs_of_pos hpos, ← abs_mul, abs_of_pos hpos, sub_mul,
      div_mul_cancel₀ _ hpos.ne']
  rw [hk, Nat.add_sub_cancel_left, hunit, ← hquot]
  constructor
  · intro hnear
    by_contra hlarge
    have hlt := multiplier_ediv_lt (not_le.mp hlarge) hj63
    have hlo := (abs_le.mp hnear).1
    linarith
  · intro hfits
    obtain ⟨hlo, hhi⟩ := multiplier_near hfits
    exact abs_ediv_two_pow_sub_le hlo hhi j

/-- Above the scale, the shift goes the wrong way. -/
theorem not_near (hscale : fixedPointScale < low) (heq : l.intPart = low)
    (hj : j ≤ (low - fixedPointScale).natAbs) :
    ¬ |((l.multiplier low / 2 ^ j : Int) : ℚ) / 2 ^ ((low - fixedPointScale).natAbs - j) -
        l.value| ≤ 1 / 2 ^ ((low - fixedPointScale).natAbs - j) := by
  intro hnear
  obtain ⟨k, hk⟩ := Nat.exists_eq_add_of_le hj
  have hpos : (0 : ℚ) < 2 ^ k := by positivity
  have hposj : (0 : ℚ) < 2 ^ j := by positivity
  rw [hk, Nat.add_sub_cancel_left] at hnear
  have hlt := aligned_lt_of_eq l low heq
  have hle := l.le_aligned low
  have hmul : (l.multiplier low : ℚ) ≤ l.aligned low + 1 / 2 :=
    (multiplier_near (hlt.le.trans (by norm_num))).2
  -- the factor is the multiplier times a power of two, and not over it
  have hvalue : l.value = l.aligned low * (2 ^ j * 2 ^ k) := by
    have hexp : l.intPart = ((15 + (j + k) : Nat) : Int) := by
      have h15 : fixedPointScale = 15 := rfl
      omega
    rw [value, hexp, zpow_natCast, aligned, heq, sub_self, Int.toNat_zero, add_zero, pow_add,
      pow_add]
    ring
  have hfloor : ((l.multiplier low / 2 ^ j : Int) : ℚ) ≤ l.aligned low + 1 / 2 := by
    have hpow : (0 : Int) ≤ l.multiplier low := le_trans (by norm_num) le_multiplier
    have hdiv := Int.ediv_le_self (2 ^ j) hpow
    have hcast : ((l.multiplier low / 2 ^ j : Int) : ℚ) ≤ l.multiplier low := by
      exact_mod_cast hdiv
    exact hcast.trans hmul
  have hquot : ((l.multiplier low / 2 ^ j : Int) : ℚ) / 2 ^ k ≤ (l.aligned low + 1 / 2) / 2 ^ k :=
    div_le_div_of_nonneg_right hfloor hpos.le
  have hlo := (abs_le.mp hnear).1
  have hone : (1 : ℚ) ≤ 2 ^ k := one_le_pow₀ (by norm_num)
  have htwo : (2 : ℚ) ≤ 2 ^ j * 2 ^ k := by
    rw [← pow_add, ← hk]
    calc (2 : ℚ) = 2 ^ 1 := by norm_num
      _ ≤ 2 ^ (low - fixedPointScale).natAbs := pow_le_pow_right₀ (by norm_num) (by omega)
  have hdivk : (l.aligned low + 1 / 2) / 2 ^ k ≤ l.aligned low + 1 / 2 :=
    div_le_self (by linarith) hone
  have hunit : (1 : ℚ) / 2 ^ k ≤ 1 := by
    rw [div_le_one hpos]
    exact hone
  nlinarith

end RescaleLog

/-! ## The range -/

/-- A product that reaches the product of the bounds. -/
theorem eq_of_mul_le_mul {x y a c : Int} (hx : x ≤ a) (hy0 : 0 ≤ y) (hy : y ≤ c) (ha : 0 < a)
    (hc : 0 < c) (h : a * c ≤ x * y) : x = a ∧ y = c := by
  have hxy : x * y ≤ a * y := mul_le_mul_of_nonneg_right hx hy0
  have hyc : y = c := le_antisymm hy (le_of_mul_le_mul_left (h.trans hxy) ha)
  subst hyc
  exact ⟨le_antisymm hx (le_of_mul_le_mul_right h hc), rfl⟩

/-- The sum of two products has the bits of a factor of each and two more, unless all factors are
    the largest. -/
theorem inSigned_add_mul {b n : Nat} {l r x y : Int} (hl : |l| ≤ 2 ^ b) (hr : |r| ≤ 2 ^ b)
    (hx0 : 0 ≤ x) (hx : x ≤ 2 ^ n) (hy0 : 0 ≤ y) (hy : y ≤ 2 ^ n)
    (hnot : ¬ ((l = 2 ^ b ∧ x = 2 ^ n) ∧ r = 2 ^ b ∧ y = 2 ^ n)) :
    InSigned (n + b + 2) (l * x + r * y) := by
  have hpb : (0 : Int) < 2 ^ b := by positivity
  have hpn : (0 : Int) < 2 ^ n := by positivity
  have hpow : (2 : Int) ^ (n + b + 2 - 1) = 2 ^ b * 2 ^ n + 2 ^ b * 2 ^ n := by
    rw [show n + b + 2 - 1 = b + n + 1 by omega, pow_succ, pow_add]
    ring
  have hlx : |l * x| ≤ 2 ^ b * 2 ^ n := by
    rw [abs_mul, abs_of_nonneg hx0]
    exact mul_le_mul hl hx hx0 hpb.le
  have hry : |r * y| ≤ 2 ^ b * 2 ^ n := by
    rw [abs_mul, abs_of_nonneg hy0]
    exact mul_le_mul hr hy hy0 hpb.le
  obtain ⟨hlx1, hlx2⟩ := abs_le.mp hlx
  obtain ⟨hry1, hry2⟩ := abs_le.mp hry
  rw [InSigned, hpow]
  refine ⟨by linarith, ?_⟩
  by_contra hle
  -- then both products are the largest ones
  exact hnot ⟨eq_of_mul_le_mul (abs_le.mp hl).2 hx0 hx hpb hpn (by linarith),
    eq_of_mul_le_mul (abs_le.mp hr).2 hy0 hy hpb hpn (by linarith)⟩

/-! ## When the addition is exact -/

/-- The lower exponent is not above the scale, no multiplier saturates, the shift has the bits that
    are traded, and not both inputs and both multipliers reach one power of two. -/
structure Fits (left right : RescaleLog) (leftDomain rightDomain : Int × Int) : Prop where
  low_le : low left right ≤ fixedPointScale
  element : left.aligned (low left right) ≤ 2 ^ 63 ∧ right.aligned (low left right) ≤ 2 ^ 63
  shift :
    left.aligned (low left right) ≤
      2 ^ (75 - low left right - max (bits leftDomain) (bits rightDomain)).toNat + 1 / 2 ∧
    right.aligned (low left right) ≤
      2 ^ (75 - low left right - max (bits leftDomain) (bits rightDomain)).toNat + 1 / 2
  largest : ¬ ∃ n,
    (Within leftDomain (2 ^ max (bits leftDomain) (bits rightDomain)) ∧
      |left.aligned (low left right) - 2 ^ n| ≤ 1 / 2) ∧
    Within rightDomain (2 ^ max (bits leftDomain) (bits rightDomain)) ∧
      |right.aligned (low left right) - 2 ^ n| ≤ 1 / 2

section Exact

variable {left right : RescaleLog} {b : Nat}

theorem low_le_left : low left right ≤ left.intPart := min_le_left _ _

theorem low_le_right : low left right ≤ right.intPart := min_le_right _ _

/-- The bits that are traded are within the shift. -/
theorem excess_le_iff (hscale : low left right ≤ fixedPointScale) (hb : b ≤ 24)
    (hleft : left.aligned (low left right) ≤ 2 ^ 63)
    (hright : right.aligned (low left right) ≤ 2 ^ 63) :
    excess left right b ≤ (low left right - fixedPointScale).natAbs ↔
      left.aligned (low left right) ≤ 2 ^ (75 - low left right - b).toNat + 1 / 2 ∧
      right.aligned (low left right) ≤ 2 ^ (75 - low left right - b).toNat + 1 / 2 := by
  have h15 : fixedPointScale = 15 := rfl
  have hpos : 0 < (75 - low left right - b).toNat := by omega
  rw [← RescaleLog.multiplier_le_iff hleft hpos, ← RescaleLog.multiplier_le_iff hright hpos,
    ← multBits_le_iff, excess]
  omega

theorem multBits_le : multBits left right ≤ 63 := by
  have hleft := saturate_le (roundTiesEven (left.aligned (low left right)))
  have hright := saturate_le (roundTiesEven (right.aligned (low left right)))
  refine multBits_le_iff.mpr ⟨?_, ?_⟩ <;> unfold RescaleLog.multiplier <;> omega

theorem le_multBits : 14 ≤ multBits left right := by
  by_contra hlt
  have hle := (multBits_le_iff.mp (show multBits left right ≤ 13 by omega)).1
  have hlow : 2 ^ 14 ≤ left.multiplier (low left right) := RescaleLog.le_multiplier
  omega

/-- The bits that are traded are bits of the multipliers. -/
theorem excess_le_multBits (hb : b ≤ 24) : excess left right b ≤ multBits left right := by
  have h : 14 ≤ multBits left right := le_multBits
  unfold excess
  omega

theorem ediv_le_two_pow {x : Int} {n j : Nat} (hj : j ≤ n) (hx : x ≤ 2 ^ n) :
    x / 2 ^ j ≤ 2 ^ (n - j) := by
  have hsplit : (2 : Int) ^ n = 2 ^ (n - j) * 2 ^ j := by rw [← pow_add, Nat.sub_add_cancel hj]
  have hpos : (0 : Int) < 2 ^ j := by positivity
  calc x / 2 ^ j ≤ 2 ^ n / 2 ^ j := Int.ediv_le_ediv hpos hx
    _ = 2 ^ (n - j) := by rw [hsplit, Int.mul_ediv_cancel _ hpos.ne']

theorem le_of_two_pow_le_ediv {x : Int} {n j : Nat} (hj : j ≤ n) (hx : 2 ^ (n - j) ≤ x / 2 ^ j) :
    2 ^ n ≤ x := by
  have hsplit : (2 : Int) ^ n = 2 ^ (n - j) * 2 ^ j := by rw [← pow_add, Nat.sub_add_cancel hj]
  have hpos : (0 : Int) < 2 ^ j := by positivity
  rw [hsplit]
  exact (Int.le_ediv_iff_mul_le hpos).mp hx

/-- The largest multiplier is not a power of two. -/
theorem multBits_lt_of_eq (hleft : left.multiplier (low left right) = 2 ^ multBits left right) :
    0 < multBits left right ∧ multBits left right < 63 := by
  have hlow : 14 ≤ multBits left right := le_multBits
  refine ⟨by omega, ?_⟩
  by_contra hle
  have hlarge : (2 : Int) ^ 63 ≤ 2 ^ multBits left right :=
    pow_le_pow_right₀ (by decide) (not_lt.mp hle)
  have hsmall := saturate_le (roundTiesEven (left.aligned (low left right)))
  rw [← hleft] at hlarge
  unfold RescaleLog.multiplier at hlarge
  omega

/-- Both multipliers are the largest of their bits. -/
theorem multiplier_eq_iff (hleft : left.aligned (low left right) ≤ 2 ^ 63)
    (hright : right.aligned (low left right) ≤ 2 ^ 63) :
    left.multiplier (low left right) = 2 ^ multBits left right ∧
        right.multiplier (low left right) = 2 ^ multBits left right ↔
      ∃ n, |left.aligned (low left right) - 2 ^ n| ≤ 1 / 2 ∧
        |right.aligned (low left right) - 2 ^ n| ≤ 1 / 2 := by
  have habs (q : ℚ) (n : Nat) : |q - 2 ^ n| ≤ 1 / 2 ↔ q ≤ 2 ^ n + 1 / 2 ∧ 2 ^ n - 1 / 2 ≤ q := by
    rw [abs_le]
    constructor <;> rintro ⟨h1, h2⟩ <;> constructor <;> linarith
  constructor
  · rintro ⟨hl, hr⟩
    obtain ⟨hpos, hlt⟩ := multBits_lt_of_eq hl
    refine ⟨multBits left right, ?_, ?_⟩
    · rw [habs, ← RescaleLog.multiplier_le_iff hleft hpos, ← RescaleLog.le_multiplier_iff hpos hlt]
      exact ⟨hl.le, hl.ge⟩
    · rw [habs, ← RescaleLog.multiplier_le_iff hright hpos, ← RescaleLog.le_multiplier_iff hpos hlt]
      exact ⟨hr.le, hr.ge⟩
  · rintro ⟨n, hl, hr⟩
    rw [habs] at hl hr
    -- the factor with the lower exponent bounds the power
    have hn16 : (2 : ℚ) ^ n < 2 ^ 17 := by
      rcases min_choice left.intPart right.intPart with hmin | hmin
      · have hlt := RescaleLog.aligned_lt_of_eq left (low left right) hmin.symm
        linarith [hl.2]
      · have hlt := RescaleLog.aligned_lt_of_eq right (low left right) hmin.symm
        linarith [hr.2]
    have hn13 : (2 : ℚ) ^ 13 < 2 ^ n := by
      have hle := left.le_aligned (low left right)
      linarith [hl.1]
    have hlt : n < 17 := (pow_lt_pow_iff_right₀ (by norm_num)).mp hn16
    have hgt : 13 < n := (pow_lt_pow_iff_right₀ (by norm_num)).mp hn13
    rw [← RescaleLog.multiplier_le_iff hleft (by omega),
      ← RescaleLog.le_multiplier_iff (by omega) (by omega)] at hl
    rw [← RescaleLog.multiplier_le_iff hright (by omega),
      ← RescaleLog.le_multiplier_iff (by omega) (by omega)] at hr
    have hmult : multBits left right = n := by
      refine le_antisymm (multBits_le_iff.mpr ⟨hl.1, hr.1⟩) ?_
      have hle := hl.2.trans (multBits_le_iff.mp le_rfl).1
      exact (pow_le_pow_iff_right₀ (by decide)).mp hle
    rw [hmult]
    exact ⟨le_antisymm hl.1 hl.2, le_antisymm hr.1 hr.2⟩

end Exact

section IsExact

variable {fl : ScaleFloats} {left right : RescaleLog}
  {leftScaling rightScaling outputScaling : ScalingFactor fl.F32} {info : AddQuantInfo fl.F32}

/-- With the conditions, the sums have the intermediate bits and no step overflows. -/
theorem inSigned_of_fits (hleft : leftScaling.bitSize ≤ 24) (hright : rightScaling.bitSize ≤ 24)
    (hfits : Fits left right leftScaling.quantizedDomain rightScaling.quantizedDomain)
    (hnew : AddQuantInfo.new left right leftScaling rightScaling outputScaling = .ok info)
    {l r : Int} (hl : Within leftScaling.quantizedDomain l)
    (hr : Within rightScaling.quantizedDomain r) :
    (IsElement (l * info.leftMultiplier) ∧ IsElement (r * info.rightMultiplier)) ∧
      InSigned info.intermediateBitSize (info.evaluate l r) ∧ IsElement (info.evaluate l r) := by
  obtain ⟨b, hb⟩ : ∃ b, b = max leftScaling.bitSize rightScaling.bitSize := ⟨_, rfl⟩
  obtain ⟨_, _, rfl⟩ := (new_eq_ok_iff hb).mp hnew
  have hb24 : b ≤ 24 := by omega
  have hexcess : excess left right b ≤ multBits left right := excess_le_multBits hb24
  have hmult : multBits left right ≤ 63 := multBits_le
  obtain ⟨hml, hmr⟩ := multBits_le_iff.mp (le_refl (multBits left right))
  have hlb : |l| ≤ 2 ^ b :=
    hl.abs_le_two_pow.trans (pow_le_pow_right₀ (by decide) (hb ▸ le_max_left _ _))
  have hrb : |r| ≤ 2 ^ b :=
    hr.abs_le_two_pow.trans (pow_le_pow_right₀ (by decide) (hb ▸ le_max_right _ _))
  have hx := ediv_le_two_pow hexcess hml
  have hy := ediv_le_two_pow hexcess hmr
  have hx0 : 0 ≤ left.multiplier (low left right) / 2 ^ excess left right b :=
    Int.ediv_nonneg (le_trans (by norm_num) RescaleLog.le_multiplier) (by positivity)
  have hy0 : 0 ≤ right.multiplier (low left right) / 2 ^ excess left right b :=
    Int.ediv_nonneg (le_trans (by norm_num) RescaleLog.le_multiplier) (by positivity)
  have hbits : multBits left right - excess left right b + b + 2 ≤ 62 := by
    unfold excess
    omega
  have hsum := inSigned_add_mul hlb hrb hx0 hx hy0 hy <| by
    rintro ⟨⟨rfl, hxeq⟩, rfl, hyeq⟩
    have hleq := le_antisymm hml (le_of_two_pow_le_ediv hexcess hxeq.ge)
    have hreq := le_antisymm hmr (le_of_two_pow_le_ediv hexcess hyeq.ge)
    obtain ⟨n, hln, hrn⟩ := (multiplier_eq_iff hfits.element.1 hfits.element.2).mp ⟨hleq, hreq⟩
    exact hfits.largest ⟨n, hb ▸ ⟨hl, hln⟩, hb ▸ hr, hrn⟩
  -- the products alone are sums with nothing
  have hpos : (0 : Int) < 2 ^ b := by positivity
  have hleftProduct := inSigned_add_mul hlb (r := 0) (by simp) hx0 hx hy0 hy <| by
    rintro ⟨_, h, _⟩
    omega
  have hrightProduct := inSigned_add_mul (l := 0) (by simp) hrb hx0 hx hy0 hy <| by
    rintro ⟨⟨h, _⟩, _⟩
    omega
  rw [zero_mul, add_zero] at hleftProduct
  rw [zero_mul, zero_add] at hrightProduct
  refine ⟨⟨hleftProduct.mono (by omega), hrightProduct.mono (by omega)⟩, ?_, hsum.mono (by omega)⟩
  have heq : multBits left right + b + 2 - excess left right b =
      multBits left right - excess left right b + b + 2 := by omega
  show InSigned (multBits left right + b + 2 - excess left right b) _
  rw [heq]
  exact hsum

/-- The largest sum has a bit more. -/
theorem not_largest_of_isExact (hleft : leftScaling.bitSize ≤ 24)
    (hright : rightScaling.bitSize ≤ 24)
    (hfitsLeft : left.aligned (low left right) ≤ 2 ^ 63)
    (hfitsRight : right.aligned (low left right) ≤ 2 ^ 63)
    (hnew : AddQuantInfo.new left right leftScaling rightScaling outputScaling = .ok info)
    (hexact : info.IsExact left right leftScaling.quantizedDomain rightScaling.quantizedDomain) :
    ¬ ∃ n,
      (Within leftScaling.quantizedDomain (2 ^ max leftScaling.bitSize rightScaling.bitSize) ∧
        |left.aligned (low left right) - 2 ^ n| ≤ 1 / 2) ∧
      Within rightScaling.quantizedDomain (2 ^ max leftScaling.bitSize rightScaling.bitSize) ∧
        |right.aligned (low left right) - 2 ^ n| ≤ 1 / 2 := by
  rintro ⟨n, ⟨hl, hln⟩, hr, hrn⟩
  obtain ⟨b, hb⟩ : ∃ b, b = max leftScaling.bitSize rightScaling.bitSize := ⟨_, rfl⟩
  obtain ⟨_, _, rfl⟩ := (new_eq_ok_iff hb).mp hnew
  rw [← hb] at hl hr
  have hexcess : excess left right b ≤ multBits left right := excess_le_multBits (by omega)
  obtain ⟨hleq, hreq⟩ := (multiplier_eq_iff hfitsLeft hfitsRight).mpr ⟨n, hln, hrn⟩
  have hlt := (hexact.inSigned _ _ hl hr).2
  have hsplit : (2 : Int) ^ multBits left right =
      2 ^ (multBits left right - excess left right b) * 2 ^ excess left right b := by
    rw [← pow_add, Nat.sub_add_cancel hexcess]
  have hquot : (2 : Int) ^ multBits left right / 2 ^ excess left right b =
      2 ^ (multBits left right - excess left right b) := by
    rw [hsplit, Int.mul_ediv_cancel _ (by positivity)]
  unfold AddQuantInfo.evaluate at hlt
  dsimp only at hlt
  rw [hleq, hreq, hquot, show multBits left right + b + 2 - excess left right b - 1 =
    b + (multBits left right - excess left right b) + 1 by omega, pow_succ, pow_add] at hlt
  linarith

/-- **When the quantised addition is exact.** For inputs of at most 24 bits there are multipliers,
    the sums stay in range and the scales are kept exactly under these conditions. -/
theorem isExact_iff (hleft : leftScaling.bitSize ≤ 24) (hright : rightScaling.bitSize ≤ 24) :
    (∃ info, AddQuantInfo.new left right leftScaling rightScaling outputScaling = .ok info ∧
      info.IsExact left right leftScaling.quantizedDomain rightScaling.quantizedDomain) ↔
      Fits left right leftScaling.quantizedDomain rightScaling.quantizedDomain := by
  obtain ⟨b, hb⟩ : ∃ b, b = max leftScaling.bitSize rightScaling.bitSize := ⟨_, rfl⟩
  have hb24 : b ≤ 24 := by omega
  have hexcess63 : excess left right b ≤ 63 :=
    (excess_le_multBits hb24).trans multBits_le
  constructor
  · rintro ⟨info, hnew, hexact⟩
    obtain ⟨hdiff, htrade, hinfo⟩ := (new_eq_ok_iff hb).mp hnew
    have hnearLeft := hexact.left
    have hnearRight := hexact.right
    rw [hinfo] at hnearLeft hnearRight
    have hlow : low left right ≤ fixedPointScale := by
      by_contra hlt
      rcases min_choice left.intPart right.intPart with hmin | hmin
      · exact RescaleLog.not_near (not_le.mp hlt) hmin.symm htrade hnearLeft
      · exact RescaleLog.not_near (not_le.mp hlt) hmin.symm htrade hnearRight
    have hfitsLeft := (RescaleLog.near_iff hlow low_le_left htrade hexcess63).mp hnearLeft
    have hfitsRight := (RescaleLog.near_iff hlow low_le_right htrade hexcess63).mp hnearRight
    have hshift := (excess_le_iff hlow hb24 hfitsLeft hfitsRight).mp htrade
    rw [hb] at hshift
    exact ⟨hlow, ⟨hfitsLeft, hfitsRight⟩, hshift,
      not_largest_of_isExact hleft hright hfitsLeft hfitsRight hnew hexact⟩
  · intro hfits
    obtain ⟨hlow, ⟨hfitsLeft, hfitsRight⟩, hshift, -⟩ := id hfits
    have htrade := (excess_le_iff hlow hb24 hfitsLeft hfitsRight).mpr (hb ▸ hshift)
    have hdiff : max left.intPart right.intPart ≤ low left right + 48 := by
      have hl : 14 + (left.intPart - low left right).toNat < 63 :=
        (pow_lt_pow_iff_right₀ (by norm_num)).mp ((left.two_pow_lt_aligned _).trans_le hfitsLeft)
      have hr : 14 + (right.intPart - low left right).toNat < 63 :=
        (pow_lt_pow_iff_right₀ (by norm_num)).mp ((right.two_pow_lt_aligned _).trans_le hfitsRight)
      omega
    have hnew := (@new_eq_ok_iff _ _ _ _ _ outputScaling _ _ hb).mpr ⟨hdiff, htrade, rfl⟩
    refine ⟨_, hnew, ?_, ?_, ?_, ?_⟩
    · exact fun l r hl hr => (inSigned_of_fits hleft hright hfits hnew hl hr).2.1
    · intro l r hl hr
      obtain ⟨⟨hlx, hry⟩, _, hsum⟩ := inSigned_of_fits hleft hright hfits hnew hl hr
      exact ⟨hlx, hry, hsum⟩
    · exact (RescaleLog.near_iff hlow low_le_left htrade hexcess63).mpr hfitsLeft
    · exact (RescaleLog.near_iff hlow low_le_right htrade hexcess63).mpr hfitsRight

end IsExact

/-! ## Two additions -/

/-- A scale of eight bits. -/
def byteScaling : ScalingFactor exactFloats.F32 := ⟨(0 : ℚ), (0 : ℚ), (1 : ℚ), (-128, 127)⟩

/-- The rescale factor `2 ^ n`. -/
def powerLog (n : Int) : RescaleLog := ⟨n, 1, logHalf.half_lt, logHalf.lt_two⟩

/-- Inputs at a half of the scale of the output, and at a quarter. -/
theorem isExact_half : ∃ info, AddQuantInfo.new (powerLog (-1)) (powerLog (-2)) byteScaling
    byteScaling byteScaling = .ok info ∧
      info.IsExact (powerLog (-1)) (powerLog (-2)) (-128, 127) (-128, 127) := by
  refine (isExact_iff (by decide) (by decide)).mpr ⟨by decide, ?_, ?_, ?_⟩
  · constructor <;> norm_num [RescaleLog.aligned, powerLog, low]
  · have hbits : (75 - low (powerLog (-1)) (powerLog (-2)) - (max (bits byteScaling.quantizedDomain)
        (bits byteScaling.quantizedDomain) : Nat)).toNat = 70 := by decide
    rw [hbits]
    constructor <;> norm_num [RescaleLog.aligned, powerLog, low]
  · have hnot : ¬ Within byteScaling.quantizedDomain
        (2 ^ max (bits byteScaling.quantizedDomain) (bits byteScaling.quantizedDomain)) := by
      decide
    exact fun ⟨_, h, _⟩ => hnot h.1

/-- Inputs at a scale `2 ^ 16` times that of the output are shifted to the right. -/
theorem not_isExact_large : ¬ ∃ info, AddQuantInfo.new (powerLog 16) (powerLog 16) byteScaling
    byteScaling byteScaling = .ok info ∧
      info.IsExact (powerLog 16) (powerLog 16) (-128, 127) (-128, 127) := by
  rintro ⟨info, hnew, hexact⟩
  obtain ⟨_, htrade, rfl⟩ := (new_eq_ok_iff rfl).mp hnew
  exact @RescaleLog.not_near (powerLog 16) 16 _ (by decide) rfl htrade hexact.left

end QuantizeAdd

end DeepProve
