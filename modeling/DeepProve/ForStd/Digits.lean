import Mathlib

/-!
# Digits of various widths

An integer in two's complement, cut into digits from the lowest bits up; the `i`-th
digit has `width i` bits. The digits, each shifted to its place, add up to the integer
modulo the power of two that they cover.
-/

namespace Digits

variable (width : Nat → Nat)

/-- The number of bits below the `i`-th digit. -/
def offset (i : Nat) : Nat := ∑ j ∈ Finset.range i, width j

/-- The `i`-th digit. -/
def digit (x : Int) (i : Nat) : Int := x / 2 ^ offset width i % 2 ^ width i

@[simp] theorem offset_zero : offset width 0 = 0 := rfl

theorem offset_succ (i : Nat) : offset width (i + 1) = offset width i + width i :=
  Finset.sum_range_succ width i

theorem offset_const (w i : Nat) : offset (fun _ => w) i = w * i := by
  induction i with
  | zero => rfl
  | succ i ih => rw [offset_succ, ih, Nat.mul_succ]

/-- Only the widths of the digits below matter. -/
theorem offset_congr {width width' : Nat → Nat} {i : Nat} (h : ∀ j < i, width j = width' j) :
    offset width i = offset width' i :=
  Finset.sum_congr rfl fun j hj => h j (Finset.mem_range.mp hj)

theorem two_pow_pos (n : Nat) : (0 : Int) < 2 ^ n := pow_pos (by decide) n

theorem digit_nonneg (x : Int) (i : Nat) : 0 ≤ digit width x i :=
  Int.emod_nonneg _ (two_pow_pos _).ne'

theorem digit_lt (x : Int) (i : Nat) : digit width x i < 2 ^ width i :=
  Int.emod_lt_of_pos _ (two_pow_pos _)

theorem ediv_two_pow_add (x : Int) (a b : Nat) : x / 2 ^ (a + b) = x / 2 ^ a / 2 ^ b := by
  rw [pow_add, Int.ediv_ediv_of_nonneg (two_pow_pos a).le]

/-- The lowest bits in two parts. -/
theorem emod_two_pow_add (x : Int) (a b : Nat) :
    x % 2 ^ (a + b) = x % 2 ^ a + x / 2 ^ a % 2 ^ b * 2 ^ a := by
  have hall := Int.emod_add_mul_ediv x (2 ^ (a + b))
  have hlow := Int.emod_add_mul_ediv x (2 ^ a)
  have hhigh := Int.emod_add_mul_ediv (x / 2 ^ a) (2 ^ b)
  rw [ediv_two_pow_add, pow_add] at hall
  have hprod := congrArg (2 ^ a * ·) hhigh
  simp only [mul_add] at hprod
  have hassoc : (2 : Int) ^ a * (2 ^ b * (x / 2 ^ a / 2 ^ b)) =
      2 ^ a * 2 ^ b * (x / 2 ^ a / 2 ^ b) := by ring
  rw [pow_add, mul_comm (x / 2 ^ a % 2 ^ b)]
  omega

/-- The digits add up to the integer modulo the power of two that they cover. -/
theorem sum_digit (x : Int) (n : Nat) :
    ∑ i ∈ Finset.range n, digit width x i * 2 ^ offset width i = x % 2 ^ offset width n := by
  induction n with
  | zero => simp
  | succ n ih => rw [Finset.sum_range_succ, ih, offset_succ, emod_two_pow_add, digit]

/-- The quotient, given the bits on both sides. -/
theorem ediv_two_pow_eq {x q r : Int} {n : Nat} (h : x = q * 2 ^ n + r) (h0 : 0 ≤ r)
    (hlt : r < 2 ^ n) : x / 2 ^ n = q := by
  rw [h, add_comm, Int.add_mul_ediv_right _ _ (two_pow_pos n).ne', Int.ediv_eq_zero_of_lt h0 hlt,
    zero_add]

/-- The highest digit that is covered. -/
theorem ediv_emod_two_pow (x : Int) (a b : Nat) :
    x / 2 ^ a % 2 ^ b = x % 2 ^ (a + b) / 2 ^ a := by
  have hsum : x % 2 ^ (a + b) = x / 2 ^ a % 2 ^ b * 2 ^ a + x % 2 ^ a := by
    rw [emod_two_pow_add, add_comm]
  exact (ediv_two_pow_eq hsum (Int.emod_nonneg _ (two_pow_pos a).ne')
    (Int.emod_lt_of_pos _ (two_pow_pos a))).symm

/-- Bits that are covered do not depend on the bits above. -/
theorem ediv_emod_of_le (x : Int) {a b n : Nat} (h : a + b ≤ n) :
    x % 2 ^ n / 2 ^ a % 2 ^ b = x / 2 ^ a % 2 ^ b := by
  rw [ediv_emod_two_pow, ediv_emod_two_pow, Int.emod_emod_of_dvd _ (pow_dvd_pow 2 h)]

/-- A multiple of a power of two only changes the quotient. -/
theorem add_two_pow_ediv (x : Int) {a n : Nat} (h : a ≤ n) :
    (x + 2 ^ n) / 2 ^ a = x / 2 ^ a + 2 ^ (n - a) := by
  have hsplit : (2 : Int) ^ n = 2 ^ (n - a) * 2 ^ a := by
    rw [← pow_add, Nat.sub_add_cancel h]
  rw [hsplit, Int.add_mul_ediv_right _ _ (two_pow_pos a).ne']

theorem add_two_pow_emod (x : Int) {a n : Nat} (h : a ≤ n) : (x + 2 ^ n) % 2 ^ a = x % 2 ^ a := by
  rw [Int.add_emod, Int.emod_eq_zero_of_dvd (pow_dvd_pow 2 h), add_zero, Int.emod_emod_of_dvd _ dvd_rfl]

/-- All digits vanish exactly if the bits that they cover do. -/
theorem forall_digit_eq_zero_iff (x : Int) (n : Nat) :
    (∀ i < n, digit width x i = 0) ↔ x % 2 ^ offset width n = 0 := by
  rw [← sum_digit, Finset.sum_eq_zero_iff_of_nonneg
    fun i _ => mul_nonneg (digit_nonneg width x i) (two_pow_pos _).le]
  simp only [Finset.mem_range, mul_eq_zero, (two_pow_pos _).ne', or_false]

/-! ## Numbers from digits -/

section Sums

variable {f : Nat → Int} {w n : Nat} (hf : ∀ i < n, 0 ≤ f i ∧ f i < 2 ^ w)

include hf

theorem sum_nonneg : 0 ≤ ∑ i ∈ Finset.range n, f i * 2 ^ (w * i) :=
  Finset.sum_nonneg fun i hi =>
    mul_nonneg (hf i (Finset.mem_range.mp hi)).1 (two_pow_pos (w * i)).le

theorem sum_lt : ∑ i ∈ Finset.range n, f i * 2 ^ (w * i) < 2 ^ (w * n) := by
  induction n with
  | zero => simp
  | succ n ih =>
    have hlower := ih fun i hi => hf i (Nat.lt_succ_of_lt hi)
    have htop : f n * 2 ^ (w * n) ≤ (2 ^ w - 1) * 2 ^ (w * n) :=
      mul_le_mul_of_nonneg_right (by have := (hf n (Nat.lt_succ_self n)).2; omega)
        (two_pow_pos (w * n)).le
    rw [Finset.sum_range_succ, Nat.mul_succ, pow_add]
    linarith

/-- A number is zero exactly if its digits are. -/
theorem sum_eq_zero_iff : ∑ i ∈ Finset.range n, f i * 2 ^ (w * i) = 0 ↔ ∀ i < n, f i = 0 := by
  rw [Finset.sum_eq_zero_iff_of_nonneg fun i hi =>
    mul_nonneg (hf i (Finset.mem_range.mp hi)).1 (two_pow_pos (w * i)).le]
  simp only [Finset.mem_range, mul_eq_zero, (two_pow_pos _).ne', or_false]

end Sums

end Digits
