import DeepProve.ForStd.RunningMax
import DeepProve.Normalisation.Verify
import DeepProve.Quantization.Rescale

/-!
# The evaluation of a normalisation

`layers/transformer/normalisation`: every row is multiplied by a fixed point mantissa and shifted
right. All rows of a call are shifted by the same number of bits, the largest one of this and of the
earlier calls, which `NormalisationCache` keeps; the mantissas are shifted left by the difference.

The normalising factor of a row and its rescaled mean are any rationals, and logarithms and powers are
exact. What rounds the elements of a float tensor is a parameter.
-/

namespace DeepProve

/-! ## Exact logarithms -/

namespace Logarithm

section Mantissa

variable {x : ℚ}

theorem div_log_bounds (hx : 0 < x) : 1 ≤ x / 2 ^ Int.log 2 x ∧ x / 2 ^ Int.log 2 x < 2 := by
  have hpos : (0 : ℚ) < 2 ^ Int.log 2 x := by positivity
  have hle := Int.zpow_log_le_self (b := 2) Nat.one_lt_two hx
  have hlt := Int.lt_zpow_succ_log_self (b := 2) Nat.one_lt_two x
  rw [Nat.cast_ofNat] at hle hlt
  rw [zpow_add₀ (by norm_num), zpow_one] at hlt
  rw [one_le_div hpos, div_lt_iff₀ hpos]
  constructor <;> linarith

theorem div_clog_bounds (hx : 0 < x) : 1 / 2 < x / 2 ^ Int.clog 2 x ∧ x / 2 ^ Int.clog 2 x ≤ 1 := by
  have hpos : (0 : ℚ) < 2 ^ Int.clog 2 x := by positivity
  have hle := Int.self_le_zpow_clog (b := 2) Nat.one_lt_two x
  have hlt := Int.zpow_pred_clog_lt_self (b := 2) Nat.one_lt_two hx
  rw [Nat.cast_ofNat] at hle hlt
  rw [zpow_sub₀ (by norm_num), zpow_one] at hlt
  rw [div_le_one hpos, lt_div_iff₀ hpos]
  constructor <;> linarith

theorem log_nonneg (hx : 1 ≤ x) : 0 ≤ Int.log 2 x := by
  have hmono := Int.log_mono_right (b := 2) zero_lt_one hx
  rwa [Int.log_one_right] at hmono

theorem clog_nonpos (hpos : 0 < x) (hx : x ≤ 1) : Int.clog 2 x ≤ 0 := by
  have hmono := Int.clog_mono_right (b := 2) hpos hx
  rwa [Int.clog_one_right] at hmono

end Mantissa

/-- The logarithm of a positive rational; `trunc` rounds it to zero. -/
def of (x : { q : ℚ // 0 < q }) : Logarithm :=
  if hone : 1 ≤ x.val then
    { intPart := Int.log 2 x.val
      mantissa := x.val / 2 ^ Int.log 2 x.val
      half_lt := (by norm_num : (1 / 2 : ℚ) < 1).trans_le (div_log_bounds x.prop).1
      lt_two := (div_log_bounds x.prop).2
      one_le := fun _ => (div_log_bounds x.prop).1
      le_one := fun hneg => absurd (log_nonneg hone) (not_le.mpr hneg) }
  else
    { intPart := Int.clog 2 x.val
      mantissa := x.val / 2 ^ Int.clog 2 x.val
      half_lt := (div_clog_bounds x.prop).1
      lt_two := (div_clog_bounds x.prop).2.trans_lt (by norm_num)
      one_le := fun hpos => absurd (clog_nonpos x.prop (not_le.mp hone).le) (not_le.mpr hpos)
      le_one := fun _ => (div_clog_bounds x.prop).2 }

end Logarithm

/-! ## The cache -/

structure NormalisationCache where
  maxShift : Nat
  initialized : Bool
  fresh : initialized = false → maxShift = 0

namespace NormalisationCache

def new : NormalisationCache := ⟨0, false, fun _ => rfl⟩

def update (self : NormalisationCache) (shift : Nat) : NormalisationCache :=
  if !self.initialized || decide (self.maxShift < shift) then ⟨shift, true, nofun⟩ else self

def getShift (self : NormalisationCache) : Nat := self.maxShift

theorem maxShift_update (self : NormalisationCache) (shift : Nat) :
    (self.update shift).maxShift = max self.maxShift shift := by
  rw [update]
  split
  case isTrue h =>
    rcases hinit : self.initialized with _ | _
    · rw [self.fresh hinit, Nat.zero_max]
    · rw [hinit, Bool.not_true, Bool.false_or, decide_eq_true_eq] at h
      exact (Nat.max_eq_right h.le).symm
  case isFalse h =>
    rw [Bool.or_eq_true, not_or, decide_eq_true_eq, not_lt] at h
    exact (Nat.max_eq_left h.2).symm

end NormalisationCache

/-! ## The rows -/

section Rows

/-- The mantissa of a factor, and how far it is shifted. -/
def shiftedFactor (factor : Logarithm) : Outcome (Int × Nat) :=
  let fractMul := factor.fixedPoint
  let shiftAmount := factor.intPart - fixedPointScale
  if shiftAmount < 0 then
    .ok (fractMul, shiftAmount.natAbs)
  else
    .error (.panic
      s!"RMSNorm normalising factor fract part calculation produced invalid shift amount {shiftAmount}")

/-- The mantissas and the shifts of all rows, each of which updates the cache. -/
def collectParts (part : List Int → Outcome (Int × Nat)) (cache : NormalisationCache) :
    List (List Int) → Outcome (NormalisationCache × List (Int × Nat))
  | [] => .ok (cache, [])
  | row :: rows => do
    let (mulVal, shiftVal) ← part row
    let (cache, parts) ← collectParts part (cache.update shiftVal) rows
    .ok (cache, (mulVal, shiftVal) :: parts)

/-- `lookup_tensor`, for an entry: the table clamps it. -/
def normalisationLookup (bitSize : Nat) (v : Int) : Int :=
  let table := Table.newNormalisation (bitSize + 1)
  clamp v table.minInputValue table.maxInputValue

end Rows

/-- A layer that takes off the mean. The factor of a row is what `norm_with_scale` has for it. -/
structure LayerNorm where
  normWithScale : List Int → { q : ℚ // 0 < q }
  rescaledMean : List Int → ℚ
  /-- `intermediate_scaling_factor.bit_size()`. -/
  intermediateBitSize : Nat
  gamma : List Int
  beta : List Int

namespace LayerNorm

variable (round : ℚ → Int) (self : LayerNorm)

/-- `LayerNormProvingData::apply`, for a row. -/
def apply (rightShift : Nat) (mult meanToSub : Int) (row : List Int) : List Int :=
  row.map fun x => normalisationLookup self.intermediateBitSize
    ((x * mult - meanToSub + 2 ^ (rightShift - 1)) >>> rightShift)

/-- The weights of the layer. -/
def weigh (row : List Int) : List Int :=
  List.zipWith (· + ·) (List.zipWith (· * ·) row self.gamma) self.beta

/-- `evaluate_quantised_internal`. -/
def evaluateQuantisedInternal (cache : NormalisationCache) (input : List (List Int)) :
    Outcome (NormalisationCache × List (List Int)) := do
  let (cache, parts) ← collectParts (fun row => shiftedFactor (.of (self.normWithScale row))) cache input
  let maxShift := cache.getShift
  let mult := parts.map fun (mulVal, shiftVal) => mulVal <<< (maxShift - shiftVal)
  let meanToSub := input.map fun row => round (self.rescaledMean row * 2 ^ maxShift)
  let _ ← usizeSub maxShift 1
  let normalised := (input.zip (mult.zip meanToSub)).map fun (row, m, mean) =>
    self.apply maxShift m mean row
  .ok (cache, normalised.map self.weigh)

end LayerNorm

/-- A layer that does not take off the mean. The factor of a row that is not zero is `nws`. -/
structure RMSNorm where
  nws : List Int → { q : ℚ // 0 < q }
  /-- `normalisation_scaling_factor.bit_size()`. -/
  normalisationBitSize : Nat
  alpha : Option (List Int)

namespace RMSNorm

variable (self : RMSNorm)

/-- The mantissa and the shift of a row; a zero row has a dummy shift. -/
def part (row : List Int) : Outcome (Int × Nat) :=
  let inputSumsq := (row.map fun x => x * x).sum
  if inputSumsq ≠ 0 then
    shiftedFactor (.of (self.nws row))
  else
    .ok (0, fixedPointScale + 1)

/-- `RMSNormProvingData::apply`, for a row. -/
def apply (rightShift : Nat) (normalisation : Int) (row : List Int) : List Int :=
  row.map fun x => normalisationLookup self.normalisationBitSize
    ((x * normalisation + 2 ^ (rightShift - 1)) >>> rightShift)

/-- The weights of the layer. -/
def weigh (row : List Int) : List Int :=
  match self.alpha with
  | some alpha => List.zipWith (· * ·) row alpha
  | none => row

/-- `evaluate_quantised_internal`. -/
def evaluateQuantisedInternal (cache : NormalisationCache) (input : List (List Int)) :
    Outcome (NormalisationCache × List (List Int)) := do
  let (cache, parts) ← collectParts self.part cache input
  let maxShift := cache.getShift
  let mult := parts.map fun (mulVal, shiftVal) => mulVal <<< (maxShift - shiftVal)
  let _ ← usizeSub maxShift 1
  let tmpOutput := (input.zip mult).map fun (row, m) => self.apply maxShift m row
  .ok (cache, tmpOutput.map self.weigh)

end RMSNorm

/-! ## A call as one with a running maximum -/

section Follows

variable (part : List Int → Outcome (Int × Nat)) (finish : Nat → Int × Nat → List Int → List Int)

/-- The shift of a row. -/
def rowShift (row : List Int) : Outcome Nat := do
  let (_, shiftVal) ← part row
  .ok shiftVal

/-- A row, for the largest shift. -/
def finishRow (maxShift : Nat) (row : List Int) : List Int :=
  match part row with
  | .ok rowPart => finish maxShift rowPart row
  | .error _ => []

/-- What the calls of both layers do. -/
def normalise (cache : NormalisationCache) (input : List (List Int)) :
    Outcome (NormalisationCache × List (List Int)) := do
  let (cache, parts) ← collectParts part cache input
  let _ ← usizeSub cache.getShift 1
  .ok (cache, (input.zip parts).map fun (row, rowPart) => finish cache.getShift rowPart row)

variable {part finish}
variable {input : List (List Int)}

/-- The cache after the rows, and their parts. -/
theorem collectParts_eq_ok {parts : List (Int × Nat)} (h : input.mapM part = .ok parts)
    (cache : NormalisationCache) :
    ∃ cache', collectParts part cache input = .ok (cache', parts) ∧
      cache'.maxShift = (parts.map Prod.snd).foldl max cache.maxShift := by
  induction input generalizing cache parts with
  | nil =>
    obtain rfl : [] = parts := Except.ok.inj h
    exact ⟨cache, rfl, rfl⟩
  | cons row rows ih =>
    rw [List.mapM_cons, Outcome.bind_eq_ok] at h
    obtain ⟨⟨mulVal, shiftVal⟩, hrow, h⟩ := h
    rw [Outcome.bind_eq_ok] at h
    obtain ⟨rest, hrest, h⟩ := h
    obtain rfl := Except.ok.inj h
    obtain ⟨cache', hcollect, hmax⟩ := ih hrest (cache.update shiftVal)
    refine ⟨cache', ?_, ?_⟩
    · rw [collectParts, hrow, Outcome.ok_bind]
      dsimp only
      rw [hcollect, Outcome.ok_bind]
    · rw [hmax, NormalisationCache.maxShift_update, List.map_cons, List.foldl_cons]

theorem collectParts_eq_error {e : Fault} (h : input.mapM part = .error e)
    (cache : NormalisationCache) :
    collectParts part cache input = .error e := by
  induction input generalizing cache with
  | nil => cases h
  | cons row rows ih =>
    rw [List.mapM_cons] at h
    rw [collectParts]
    rcases hrow : part row with e' | ⟨mulVal, shiftVal⟩
    · rw [hrow] at h
      cases h
      rfl
    · rw [hrow, Outcome.ok_bind] at h
      rcases hrest : rows.mapM part with e' | rest
      · rw [hrest] at h
        cases h
        rw [Outcome.ok_bind]
        dsimp only
        rw [ih hrest]
        rfl
      · rw [hrest] at h
        cases h

theorem mapM_rowShift (input : List (List Int)) :
    input.mapM (rowShift part) = (input.mapM part).map fun parts => parts.map Prod.snd := by
  induction input with
  | nil => rfl
  | cons row rows ih =>
    rw [List.mapM_cons, List.mapM_cons, ih, rowShift]
    rcases part row with e | rowPart
    · rfl
    · rw [Outcome.ok_bind]
      rcases rows.mapM part with e | rest
      · rfl
      · rfl

/-- The rows of a call that returns. -/
theorem map_finishRow {parts : List (Int × Nat)} (h : input.mapM part = .ok parts)
    (maxShift : Nat) :
    (input.zip parts).map (fun (row, rowPart) => finish maxShift rowPart row) =
      input.map (finishRow part finish maxShift) := by
  induction input generalizing parts with
  | nil => rfl
  | cons row rows ih =>
    rw [List.mapM_cons, Outcome.bind_eq_ok] at h
    obtain ⟨rowPart, hrow, h⟩ := h
    rw [Outcome.bind_eq_ok] at h
    obtain ⟨rest, hrest, h⟩ := h
    obtain rfl := Except.ok.inj h
    rw [List.zip_cons_cons, List.map_cons, List.map_cons, ih hrest, finishRow, hrow]

/-- A call as one with a running maximum; shifts are positive. -/
theorem normalise_follows (hpos : ∀ row rowPart, part row = .ok rowPart → 0 < rowPart.2)
    {input : List (List Int)} (hne : input ≠ []) (cache : NormalisationCache) :
    (normalise part finish cache input).map (fun (cache, outputs) => (cache.maxShift, outputs)) =
      RunningMax.evaluate (rowShift part) (finishRow part finish) cache.maxShift input := by
  rw [normalise, RunningMax.evaluate, mapM_rowShift]
  rcases hparts : input.mapM part with e | parts
  · rw [collectParts_eq_error hparts]
    rfl
  · obtain ⟨cache', hcollect, hmax⟩ := collectParts_eq_ok hparts cache
    have hshift : 1 ≤ cache'.maxShift := by
      obtain ⟨row, rows, rfl⟩ := List.exists_cons_of_ne_nil hne
      obtain ⟨rowPart, rest, hrow, -, rfl⟩ := List.forall₂_cons_left_iff.mp
        (Outcome.forall₂_of_mapM_eq_ok hparts)
      have hrowPos := hpos row rowPart hrow
      rw [hmax, List.map_cons, List.foldl_cons, RunningMax.foldl_max]
      omega
    have hsub : usizeSub cache'.getShift 1 = .ok (cache'.maxShift - 1) :=
      usizeSub_eq_ok.mpr ⟨hshift, rfl⟩
    rw [hcollect, Outcome.ok_bind]
    dsimp only
    rw [hsub, Outcome.ok_bind, map_finishRow hparts]
    change Except.ok (cache'.maxShift, input.map (finishRow part finish cache'.maxShift)) = _
    rw [hmax]
    rfl

end Follows

theorem shiftedFactor_pos {factor : Logarithm} {rowPart : Int × Nat}
    (h : shiftedFactor factor = .ok rowPart) : 0 < rowPart.2 := by
  unfold shiftedFactor at h
  dsimp only at h
  split at h
  case isTrue hneg =>
    obtain rfl := Except.ok.inj h
    dsimp only
    omega
  case isFalse => cases h

namespace LayerNorm

variable (round : ℚ → Int) (self : LayerNorm)

/-- The mantissa and the shift of a row. -/
def part (row : List Int) : Outcome (Int × Nat) := shiftedFactor (.of (self.normWithScale row))

/-- A row, for the largest shift. -/
def finish (maxShift : Nat) (rowPart : Int × Nat) (row : List Int) : List Int :=
  self.weigh (self.apply maxShift (rowPart.1 <<< (maxShift - rowPart.2))
    (round (self.rescaledMean row * 2 ^ maxShift)) row)

theorem evaluateQuantisedInternal_eq (cache : NormalisationCache) (input : List (List Int)) :
    self.evaluateQuantisedInternal round cache input =
      normalise self.part (self.finish round) cache input := by
  have hrows : ∀ (maxShift : Nat) (parts : List (Int × Nat)),
      ((input.zip ((parts.map fun (mulVal, shiftVal) => mulVal <<< (maxShift - shiftVal)).zip
        (input.map fun row => round (self.rescaledMean row * 2 ^ maxShift)))).map
          fun (row, m, mean) => self.apply maxShift m mean row).map self.weigh =
        (input.zip parts).map fun (row, rowPart) => self.finish round maxShift rowPart row := by
    intro maxShift parts
    induction input generalizing parts with
    | nil => rfl
    | cons row rows ih =>
      cases parts with
      | nil => rfl
      | cons rowPart parts =>
        simp only [List.map_cons, List.zip_cons_cons, ih]
        rfl
  rw [evaluateQuantisedInternal, normalise]
  simp only [hrows]
  rfl

end LayerNorm

namespace RMSNorm

variable (self : RMSNorm)

/-- A row, for the largest shift. -/
def finish (maxShift : Nat) (rowPart : Int × Nat) (row : List Int) : List Int :=
  self.weigh (self.apply maxShift (rowPart.1 <<< (maxShift - rowPart.2)) row)

theorem evaluateQuantisedInternal_eq (cache : NormalisationCache) (input : List (List Int)) :
    self.evaluateQuantisedInternal cache input = normalise self.part self.finish cache input := by
  have hrows : ∀ (maxShift : Nat) (parts : List (Int × Nat)),
      ((input.zip (parts.map fun (mulVal, shiftVal) => mulVal <<< (maxShift - shiftVal))).map
        fun (row, m) => self.apply maxShift m row).map self.weigh =
        (input.zip parts).map fun (row, rowPart) => self.finish maxShift rowPart row := by
    intro maxShift parts
    rw [List.zip_map_right, List.map_map, List.map_map]
    rfl
  rw [evaluateQuantisedInternal, normalise]
  simp only [hrows]

theorem part_pos {row : List Int} {rowPart : Int × Nat} (h : self.part row = .ok rowPart) :
    0 < rowPart.2 := by
  unfold part at h
  dsimp only at h
  split at h
  case isTrue => exact shiftedFactor_pos h
  case isFalse =>
    obtain rfl := Except.ok.inj h
    exact Nat.succ_pos _

end RMSNorm

end DeepProve
