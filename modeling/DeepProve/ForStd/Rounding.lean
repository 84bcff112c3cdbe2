import Mathlib

/-!
# Rounding

Rounding to the nearest integer, with ties to the even one, and the rounding right shift of an
integer: half of the divisor is added before the division.
-/

namespace Rounding

variable {α : Type} [Field α] [LinearOrder α] [IsStrictOrderedRing α] [FloorRing α]

/-- The nearest integer; a tie goes to the even one. -/
def roundTiesEven (x : α) : Int :=
  if Int.fract x < 1 / 2 then
    ⌊x⌋
  else if 1 / 2 < Int.fract x then
    ⌊x⌋ + 1
  else if ⌊x⌋ % 2 = 0 then
    ⌊x⌋
  else
    ⌊x⌋ + 1

omit [IsStrictOrderedRing α] in
theorem roundTiesEven_eq_or (x : α) :
    roundTiesEven x = ⌊x⌋ ∨ 1 / 2 ≤ Int.fract x ∧ roundTiesEven x = ⌊x⌋ + 1 := by
  unfold roundTiesEven
  split
  case isTrue => exact Or.inl rfl
  case isFalse hlow =>
    have hhalf := not_lt.mp hlow
    split
    · exact Or.inr ⟨hhalf, rfl⟩
    · split
      · exact Or.inl rfl
      · exact Or.inr ⟨hhalf, rfl⟩

/-- The rounding error is at most a half. -/
theorem abs_roundTiesEven_sub_le (x : α) : |(roundTiesEven x : α) - x| ≤ 1 / 2 := by
  have hx := Int.floor_add_fract x
  have h0 := Int.fract_nonneg x
  have h1 := Int.fract_lt_one x
  unfold roundTiesEven
  rw [abs_le]
  split
  case isTrue hlow =>
    constructor <;> linarith
  case isFalse hlow =>
    split
    case isTrue hhigh =>
      push_cast
      constructor <;> linarith
    case isFalse hhigh =>
      -- a tie: both neighbours are as near
      split
      · constructor <;> linarith
      · push_cast
        constructor <;> linarith

omit [IsStrictOrderedRing α] in
theorem le_roundTiesEven {x : α} {n : Int} (h : (n : α) ≤ x) : n ≤ roundTiesEven x := by
  have hfloor := Int.le_floor.mpr h
  rcases roundTiesEven_eq_or x with heq | ⟨_, heq⟩ <;> omega

theorem roundTiesEven_le {x : α} {n : Int} (h : x ≤ (n : α)) : roundTiesEven x ≤ n := by
  rcases roundTiesEven_eq_or x with heq | ⟨hhalf, heq⟩
  · have hfloor : (⌊x⌋ : α) ≤ n := (Int.floor_le x).trans h
    rw [heq]
    exact_mod_cast hfloor
  · -- the number is above its floor, and so is the bound
    have hfract := Int.floor_add_fract x
    have hlt : (⌊x⌋ : α) < n := by linarith
    rw [heq]
    exact_mod_cast hlt

/-- What rounds to an even number or below it; a tie goes to the even number. -/
theorem roundTiesEven_le_iff {x : α} {n : Int} (hn : n % 2 = 0) :
    roundTiesEven x ≤ n ↔ x ≤ n + 1 / 2 := by
  have hx := Int.floor_add_fract x
  have h0 := Int.fract_nonneg x
  have h1 := Int.fract_lt_one x
  constructor
  · intro hle
    have herror := (abs_le.mp (abs_roundTiesEven_sub_le x)).1
    have hcast : (roundTiesEven x : α) ≤ n := by exact_mod_cast hle
    linarith
  · intro hle
    have hfloor : (⌊x⌋ : α) < (n + 1 : Int) := by
      push_cast
      linarith
    have hlt : ⌊x⌋ < n + 1 := by exact_mod_cast hfloor
    rcases roundTiesEven_eq_or x with heq | ⟨hhalf, heq⟩
    · omega
    rcases (Int.lt_add_one_iff.mp hlt).lt_or_eq with hbelow | hfloor
    · omega
    -- only the tie is left, and the floor is even
    · have hcast : (⌊x⌋ : α) = n := by exact_mod_cast hfloor
      have htie : Int.fract x = 1 / 2 := by linarith
      unfold roundTiesEven
      rw [if_neg (by simp [htie]), if_neg (by simp [htie]), if_pos (hfloor ▸ hn)]
      exact hfloor.le

/-- What rounds to an even number or above it. -/
theorem le_roundTiesEven_iff {x : α} {n : Int} (hn : n % 2 = 0) :
    n ≤ roundTiesEven x ↔ n - 1 / 2 ≤ x := by
  have hx := Int.floor_add_fract x
  have h0 := Int.fract_nonneg x
  have h1 := Int.fract_lt_one x
  constructor
  · intro hle
    have herror := (abs_le.mp (abs_roundTiesEven_sub_le x)).2
    have hcast : (n : α) ≤ roundTiesEven x := by exact_mod_cast hle
    linarith
  · intro hle
    have hfloor : ((n - 2 : Int) : α) < ⌊x⌋ := by
      push_cast
      linarith
    have hlt : n - 2 < ⌊x⌋ := by exact_mod_cast hfloor
    rcases (show n - 1 ≤ ⌊x⌋ by omega).lt_or_eq with habove | hodd
    · rcases roundTiesEven_eq_or x with heq | ⟨_, heq⟩ <;> omega
    · -- the floor is odd, and the fraction at least a half
      have hcast : ((n - 1 : Int) : α) = ⌊x⌋ := by exact_mod_cast hodd
      push_cast at hcast
      have hhalf : 1 / 2 ≤ Int.fract x := by linarith
      unfold roundTiesEven
      rw [if_neg (not_lt.mpr hhalf)]
      split
      · omega
      · rw [if_neg (by omega)]
        omega

/-- The rounding right shift. -/
def shiftRound (y : Int) (s : Nat) : Int := (y + 2 ^ (s - 1)) / 2 ^ s

/-- The rounding right shift is off by at most a half. -/
theorem abs_shiftRound_sub_le (y : Int) {s : Nat} (hs : 0 < s) :
    |(shiftRound y s : α) - y / 2 ^ s| ≤ 1 / 2 := by
  obtain ⟨k, rfl⟩ := Nat.exists_eq_add_of_le' hs
  have hpos : (0 : α) < 2 ^ (k + 1) := by positivity
  have hdiv := Int.emod_add_mul_ediv (y + 2 ^ k) (2 ^ (k + 1))
  have h0 := Int.emod_nonneg (y + 2 ^ k) (b := 2 ^ (k + 1)) (by positivity)
  have h1 := Int.emod_lt_of_pos (y + 2 ^ k) (b := 2 ^ (k + 1)) (by positivity)
  show |(((y + 2 ^ k) / 2 ^ (k + 1) : Int) : α) - y / 2 ^ (k + 1)| ≤ 1 / 2
  generalize (y + 2 ^ k) / 2 ^ (k + 1) = q at hdiv ⊢
  generalize (y + 2 ^ k) % 2 ^ (k + 1) = r at hdiv h0 h1
  -- the quotient is `y / 2 ^ s + 1 / 2 - r / 2 ^ s`
  have hq : (q : α) - y / 2 ^ (k + 1) = 1 / 2 - r / 2 ^ (k + 1) := by
    have hcast : (r : α) + 2 ^ (k + 1) * q = y + 2 ^ k := by exact_mod_cast hdiv
    have htwo : (2 : α) ^ (k + 1) = 2 * 2 ^ k := by rw [pow_succ, mul_comm]
    field_simp
    linear_combination 2 * hcast - htwo
  have hr0 : (0 : α) ≤ r / 2 ^ (k + 1) := div_nonneg (by exact_mod_cast h0) hpos.le
  have hr1 : (r : α) / 2 ^ (k + 1) ≤ 1 := by
    rw [div_le_one hpos]
    exact_mod_cast h1.le
  rw [hq, abs_le]
  constructor <;> linarith

/-- A right shift by some bits, of a number that is near another one. -/
theorem abs_ediv_two_pow_sub_le {y : Int} {x : α} (hlo : x - 1 ≤ y) (hhi : (y : α) ≤ x + 1 / 2)
    (s : Nat) : |((y / 2 ^ s : Int) : α) - x / 2 ^ s| ≤ 1 := by
  have hpos : (0 : α) < 2 ^ s := by positivity
  have hone : (1 : α) ≤ 2 ^ s := one_le_pow₀ (by norm_num)
  have hdiv := Int.emod_add_mul_ediv y (2 ^ s)
  have h0 := Int.emod_nonneg y (b := 2 ^ s) (by positivity)
  have h1 := Int.emod_lt_of_pos y (b := 2 ^ s) (by positivity)
  generalize y / 2 ^ s = q at hdiv ⊢
  generalize y % 2 ^ s = r at hdiv h0 h1
  have hcast : (r : α) + 2 ^ s * q = y := by exact_mod_cast hdiv
  have hr0 : (0 : α) ≤ r := by exact_mod_cast h0
  have hr1 : (r : α) ≤ 2 ^ s - 1 := by
    have : r ≤ 2 ^ s - 1 := by omega
    exact_mod_cast this
  have hq : (q : α) - x / 2 ^ s = (y - x - r) / 2 ^ s := by
    field_simp
    linear_combination hcast
  rw [hq, abs_le, le_div_iff₀ hpos, div_le_one hpos]
  constructor <;> linarith

end Rounding
