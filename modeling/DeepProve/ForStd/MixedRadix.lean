import Mathlib

/-!
# Positions in arrays of any rank

The entries of an array with the dimensions `b 0, .., b (q - 1)` are stored row after row. The
position of an entry is a number in the mixed radix `b`, whose digits are the coordinates; the first
coordinate is the most significant one.
-/

namespace MixedRadix

open Finset

/-- The number of entries of a block of the dimensions from `m` on. -/
def place (b : Nat → Nat) (q m : Nat) : Nat := ∏ j ∈ Ico m q, b j

/-- A coordinate of a position. -/
def digit (b : Nat → Nat) (q c i : Nat) : Nat := c / place b q (i + 1) % b i

/-- The position of an entry. -/
def value (b : Nat → Nat) (q : Nat) (x : Nat → Nat) : Nat :=
  ∑ i ∈ range q, x i * place b q (i + 1)

variable {b : Nat → Nat} {q : Nat}

@[simp] theorem place_self (b : Nat → Nat) (q : Nat) : place b q q = 1 := by
  simp [place]

variable {m : Nat}

theorem place_eq_mul (h : m < q) : place b q m = b m * place b q (m + 1) :=
  prod_eq_prod_Ico_succ_bot h b

/-- The blocks of more dimensions are made of the blocks of the last ones. -/
theorem place_mul_place {k : Nat} (hm : m ≤ k) (hk : k ≤ q) :
    place b k m * place b q k = place b q m :=
  prod_Ico_consecutive b hm hk

theorem place_congr {b' : Nat → Nat} (h : ∀ j, m ≤ j → j < q → b j = b' j) :
    place b q m = place b' q m := by
  apply prod_congr rfl
  intro j hj
  rw [mem_Ico] at hj
  exact h j hj.1 hj.2

theorem place_pos (hb : ∀ i < q, 0 < b i) (m : Nat) : 0 < place b q m := by
  apply prod_pos
  intro j hj
  exact hb j (mem_Ico.mp hj).2

theorem place_dvd {k : Nat} (h : m ≤ k) : place b q k ∣ place b q m :=
  prod_dvd_prod_of_subset _ _ _ (Ico_subset_Ico_left h)

/-- The places of the last dimensions. -/
theorem place_add (b : Nat → Nat) (k q m : Nat) :
    place (fun i => b (k + i)) q m = place b (k + q) (k + m) := by
  rw [place, place, prod_Ico_add b m q k, Nat.add_comm m k, Nat.add_comm q k]

theorem digit_lt (hb : ∀ i < q, 0 < b i) (c : Nat) {i : Nat} (hi : i < q) : digit b q c i < b i :=
  Nat.mod_lt _ (hb i hi)

/-- The last coordinates are those of the remainder. -/
theorem sum_digit_Ico (c : Nat) (hm : m ≤ q) :
    ∑ i ∈ Ico m q, digit b q c i * place b q (i + 1) = c % place b q m := by
  induction hm using Nat.decreasingInduction with
  | self => simp [Nat.mod_one]
  | of_succ m hm ih =>
    rw [sum_eq_sum_Ico_succ_bot hm, ih, place_eq_mul hm, Nat.mul_comm (b m), Nat.mod_mul, digit]
    ring

/-- A position is the sum of its coordinates times their places. -/
theorem sum_digit {c : Nat} (hc : c < place b q 0) :
    value b q (digit b q c) = c := by
  rw [value, range_eq_Ico, sum_digit_Ico c (Nat.zero_le q), Nat.mod_eq_of_lt hc]

/-- A block ends before the next one. -/
theorem sum_Ico_lt {x : Nat → Nat} (hx : ∀ i < q, x i < b i) (hm : m ≤ q) :
    ∑ i ∈ Ico m q, x i * place b q (i + 1) < place b q m := by
  induction hm using Nat.decreasingInduction with
  | self => simp
  | of_succ m hm ih =>
    rw [sum_eq_sum_Ico_succ_bot hm, place_eq_mul hm]
    have hle : (x m + 1) * place b q (m + 1) ≤ b m * place b q (m + 1) :=
      Nat.mul_le_mul_right _ (hx m hm)
    rw [Nat.add_mul, Nat.one_mul] at hle
    omega

theorem value_lt {x : Nat → Nat} (hx : ∀ i < q, x i < b i) : value b q x < place b q 0 := by
  rw [value, range_eq_Ico]
  exact sum_Ico_lt hx (Nat.zero_le q)

/-- The coordinates are determined by the position. -/
theorem digit_value {x : Nat → Nat} (hx : ∀ i < q, x i < b i) {i : Nat} (hi : i < q) :
    digit b q (value b q x) i = x i := by
  have hpos : 0 < place b q (i + 1) := place_pos (fun j hj => Nat.zero_lt_of_lt (hx j hj)) _
  -- the places before are multiples, and the ones behind make up less than one place
  have hsplit : value b q x =
      ∑ j ∈ range i, x j * place b q (j + 1) + x i * place b q (i + 1) +
        ∑ j ∈ Ico (i + 1) q, x j * place b q (j + 1) := by
    rw [value, range_eq_Ico, range_eq_Ico, ← sum_Ico_consecutive _ (Nat.zero_le i) (Nat.le_of_lt hi),
      sum_eq_sum_Ico_succ_bot hi, ← Nat.add_assoc]
  have hdvd : place b q i ∣ ∑ j ∈ range i, x j * place b q (j + 1) := by
    apply dvd_sum
    intro j hj
    exact Dvd.dvd.mul_left (place_dvd (mem_range.mp hj)) _
  obtain ⟨y, hy⟩ := hdvd
  rw [hy, place_eq_mul hi] at hsplit
  have hsplit : value b q x = place b q (i + 1) * (x i + b i * y) +
      ∑ j ∈ Ico (i + 1) q, x j * place b q (j + 1) := by
    rw [hsplit]
    ring
  rw [digit, hsplit, Nat.mul_add_div hpos, Nat.div_eq_of_lt (sum_Ico_lt hx hi), Nat.add_zero,
    Nat.add_mul_mod_self_left, Nat.mod_eq_of_lt (hx i hi)]

/-- A block of a dimension begins where its coordinate is zero. -/
theorem dvd_iff_digit_eq_zero {c : Nat} (hdvd : place b q (m + 1) ∣ c) (hm : m < q)
    (hb : ∀ i < q, 0 < b i) : place b q m ∣ c ↔ digit b q c m = 0 := by
  have hpos := place_pos hb (m + 1)
  obtain ⟨y, rfl⟩ := hdvd
  rw [digit, Nat.mul_div_cancel_left y hpos, place_eq_mul hm, Nat.mul_comm (b m),
    Nat.mul_dvd_mul_iff_left hpos, Nat.dvd_iff_mod_eq_zero]

/-! ## The next position -/

section Next

variable {c m : Nat}

/-- Coordinates before a block do not change within it. -/
theorem digit_succ_of_lt (hnot : ¬ place b q m ∣ c + 1) {i : Nat} (hi : i < m) :
    digit b q (c + 1) i = digit b q c i := by
  have hnot' : ¬ place b q (i + 1) ∣ c + 1 := fun h => hnot ((place_dvd hi).trans h)
  rw [digit, digit, Nat.succ_div_of_not_dvd hnot']

/-- At the end of a block its coordinates start again. -/
theorem digit_succ_of_dvd (hdvd : place b q m ∣ c + 1) (hb : ∀ i < q, 0 < b i) {i : Nat}
    (hi : m ≤ i) (hiq : i < q) : digit b q (c + 1) i = 0 ∧ digit b q c i = b i - 1 := by
  have hplace : place b q i ∣ c + 1 := (place_dvd hi).trans hdvd
  rw [place_eq_mul hiq] at hplace
  obtain ⟨y, hy⟩ := hplace
  have hpos := place_pos hb (i + 1)
  have hbi := hb i hiq
  have hquot : (c + 1) / place b q (i + 1) = b i * y := by
    rw [hy, Nat.mul_comm (b i), Nat.mul_assoc, Nat.mul_div_cancel_left _ hpos]
  have hsucc := Nat.succ_div_of_dvd (Dvd.intro_left (b i * y) (by rw [hy]; ring) :
    place b q (i + 1) ∣ c + 1)
  rw [hquot] at hsucc
  refine ⟨by rw [digit, hquot, Nat.mul_mod_right], ?_⟩
  have hyne : y ≠ 0 := by
    rintro rfl
    rw [Nat.mul_zero] at hy
    omega
  obtain ⟨z, rfl⟩ := Nat.exists_eq_succ_of_ne_zero hyne
  have hlast : c / place b q (i + 1) = b i * z + (b i - 1) := by
    rw [Nat.mul_succ] at hsucc
    omega
  rw [digit, hlast, Nat.mul_add_mod, Nat.mod_eq_of_lt (by omega)]

/-- The coordinate before a block that ends counts on. -/
theorem digit_succ (hdvd : place b q (m + 1) ∣ c + 1) (hnot : ¬ place b q m ∣ c + 1) (hm : m < q)
    (hb : ∀ i < q, 0 < b i) : digit b q (c + 1) m = digit b q c m + 1 := by
  have hpos := place_pos hb (m + 1)
  have hsucc := Nat.succ_div_of_dvd hdvd
  have hnot' : ¬ b m ∣ (c + 1) / place b q (m + 1) := by
    intro h
    apply hnot
    rw [place_eq_mul hm, Nat.mul_comm]
    exact (Nat.mul_dvd_of_dvd_div hdvd h)
  have hbm := hb m hm
  rw [digit, digit, hsucc]
  rw [hsucc] at hnot'
  generalize c / place b q (m + 1) = y at hnot' ⊢
  have hlt : y % b m + 1 < b m := by
    have hmod := Nat.mod_lt y hbm
    by_contra hge
    apply hnot'
    have heq : y % b m + 1 = b m := by omega
    have hdiv := Nat.mod_add_div y (b m)
    exact ⟨y / b m + 1, by rw [Nat.mul_add, Nat.mul_one]; omega⟩
  rw [Nat.add_mod, Nat.mod_eq_of_lt (show 1 < b m by omega), Nat.mod_eq_of_lt hlt]

end Next

end MixedRadix
