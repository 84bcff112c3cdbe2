import Mathlib

/-!
# Discrete Fourier transforms

The transform of a sequence at a root of unity, its inverse and the theorem on convolutions. A
transform of twice the size splits into those of the entries at even and at odd places. When the
entries are first brought into the order of their reversed bits, these are the two halves.
-/

namespace Dft

section Transform

variable {F : Type} [Field F]

/-- The discrete Fourier transform of length `n`. -/
def dft (w : F) (n : Nat) (v : Nat → F) (j : Nat) : F := ∑ i ∈ Finset.range n, v i * w ^ (i * j)

/-- The cyclic convolution of length `n`. -/
def cyclic (n : Nat) (u v : Nat → F) (j : Nat) : F :=
  ∑ i ∈ Finset.range n, ∑ l ∈ Finset.range n, if (i + l) % n = j then u i * v l else 0

theorem dft_congr {w : F} {n : Nat} {u v : Nat → F} (h : ∀ i < n, u i = v i) (j : Nat) :
    dft w n u j = dft w n v j := by
  apply Finset.sum_congr rfl
  intro i hi
  rw [h i (Finset.mem_range.mp hi)]

variable {w : F} {n : Nat} (hw : IsPrimitiveRoot w n)

include hw

/-- Exponents count modulo the length. -/
theorem pow_mod_mul (a b : Nat) : w ^ (a % n * b) = w ^ (a * b) := by
  have hmod : w ^ (a % n) = w ^ a := by
    conv_rhs => rw [← Nat.mod_add_div a n, pow_add, pow_mul, hw.pow_eq_one, one_pow, mul_one]
  rw [pow_mul, hmod, ← pow_mul]

/-- The powers of the root are orthogonal. -/
theorem sum_pow_mul_inv_pow {j l : Nat} (hj : j < n) (hl : l < n) :
    ∑ i ∈ Finset.range n, w ^ (j * i) * w⁻¹ ^ (i * l) = if j = l then (n : F) else 0 := by
  have hne : w ≠ 0 := hw.ne_zero (by omega)
  have hterm : ∀ i, w ^ (j * i) * w⁻¹ ^ (i * l) = (w ^ j * w⁻¹ ^ l) ^ i := by
    intro i
    rw [mul_pow, ← pow_mul, ← pow_mul, Nat.mul_comm i l]
  simp only [hterm]
  split
  case isTrue heq =>
    rw [heq, inv_pow, mul_inv_cancel₀ (pow_ne_zero l hne)]
    simp
  case isFalse hjl =>
    -- a geometric sum over all powers of another root of unity
    have hratio : w ^ j * w⁻¹ ^ l ≠ 1 := by
      intro hone
      apply hjl
      apply hw.pow_inj hj hl
      rw [inv_pow, mul_inv_eq_one₀ (pow_ne_zero l hne)] at hone
      exact hone
    have hpow : (w ^ j * w⁻¹ ^ l) ^ n = 1 := by
      rw [mul_pow, ← pow_mul, ← pow_mul, Nat.mul_comm j, Nat.mul_comm l, pow_mul, pow_mul, inv_pow,
        hw.pow_eq_one, inv_one, one_pow, one_pow, one_mul]
    rw [geom_sum_eq hratio, hpow, sub_self, zero_div]

/-- Transforming with the inverse root undoes a transform, up to the length. -/
theorem dft_inv_dft (v : Nat → F) {l : Nat} (hl : l < n) :
    dft w⁻¹ n (dft w n v) l = n * v l := by
  have hterm : ∀ j ∈ Finset.range n,
      (∑ i ∈ Finset.range n, v i * w ^ (i * j)) * w⁻¹ ^ (j * l) =
        ∑ i ∈ Finset.range n, v i * (w ^ (i * j) * w⁻¹ ^ (j * l)) := by
    intro j _
    rw [Finset.sum_mul]
    exact Finset.sum_congr rfl fun i _ => mul_assoc _ _ _
  unfold dft
  rw [Finset.sum_congr rfl hterm, Finset.sum_comm]
  have hinner : ∀ i ∈ Finset.range n,
      ∑ j ∈ Finset.range n, v i * (w ^ (i * j) * w⁻¹ ^ (j * l)) =
        if i = l then n * v l else 0 := by
    intro i hi
    rw [← Finset.mul_sum, sum_pow_mul_inv_pow hw (Finset.mem_range.mp hi) hl]
    split
    case isTrue heq => rw [heq, mul_comm]
    case isFalse => rw [mul_zero]
  rw [Finset.sum_congr rfl hinner, Finset.sum_ite_eq', if_pos (Finset.mem_range.mpr hl)]

/-- A transform turns cyclic convolutions into products. -/
theorem dft_cyclic (u v : Nat → F) (k : Nat) :
    dft w n (cyclic n u v) k = dft w n u k * dft w n v k := by
  have hpick : ∀ i ∈ Finset.range n, ∀ l ∈ Finset.range n,
      ∑ j ∈ Finset.range n, (if (i + l) % n = j then u i * v l else 0) * w ^ (j * k) =
        u i * w ^ (i * k) * (v l * w ^ (l * k)) := by
    intro i hi l _
    have hlt : (i + l) % n < n := Nat.mod_lt _ (Nat.zero_lt_of_lt (Finset.mem_range.mp hi))
    simp only [ite_mul, zero_mul]
    rw [Finset.sum_ite_eq, if_pos (Finset.mem_range.mpr hlt), pow_mod_mul hw, Nat.add_mul, pow_add]
    ring
  unfold dft cyclic
  rw [Finset.sum_mul_sum]
  calc ∑ j ∈ Finset.range n, (∑ i ∈ Finset.range n, ∑ l ∈ Finset.range n,
          if (i + l) % n = j then u i * v l else 0) * w ^ (j * k)
      = ∑ j ∈ Finset.range n, ∑ i ∈ Finset.range n, ∑ l ∈ Finset.range n,
          (if (i + l) % n = j then u i * v l else 0) * w ^ (j * k) := by
        simp only [Finset.sum_mul]
    _ = ∑ i ∈ Finset.range n, ∑ l ∈ Finset.range n, ∑ j ∈ Finset.range n,
          (if (i + l) % n = j then u i * v l else 0) * w ^ (j * k) := by
        rw [Finset.sum_comm]
        exact Finset.sum_congr rfl fun i _ => Finset.sum_comm
    _ = ∑ i ∈ Finset.range n, ∑ l ∈ Finset.range n,
          u i * w ^ (i * k) * (v l * w ^ (l * k)) :=
        Finset.sum_congr rfl fun i hi => Finset.sum_congr rfl fun l hl => hpick i hi l hl

end Transform

/-! ## Reversed bits -/

/-- The lowest bits of a number in reversed order. -/
def bitrev : Nat → Nat → Nat
  | 0, _ => 0
  | l + 1, i => i % 2 * 2 ^ l + bitrev l (i / 2)

theorem bitrev_lt (l i : Nat) : bitrev l i < 2 ^ l := by
  induction l generalizing i with
  | zero => exact Nat.one_pos
  | succ l ih =>
    have hrest := ih (i / 2)
    rw [bitrev, pow_succ]
    rcases Nat.mod_two_eq_zero_or_one i with h | h <;> rw [h] <;> omega

@[simp] theorem bitrev_zero_right (l : Nat) : bitrev l 0 = 0 := by
  induction l with
  | zero => rfl
  | succ l ih => simp [bitrev, ih]

/-- Reversing more bits first reverses the lower ones. -/
theorem bitrev_add (k d i : Nat) :
    bitrev (k + d) i = bitrev k i * 2 ^ d + bitrev d (i / 2 ^ k) := by
  induction k generalizing i with
  | zero => simp [bitrev]
  | succ k ih =>
    have hpow : (2 : Nat) ^ (k + d) = 2 ^ k * 2 ^ d := pow_add 2 k d
    have hdiv : i / 2 / 2 ^ k = i / 2 ^ (k + 1) := by rw [Nat.div_div_eq_div_mul, pow_succ']
    rw [Nat.add_right_comm, bitrev, bitrev, ih, hdiv, hpow]
    ring

/-- The highest bits of the reversed number are the lowest ones in reversed order. -/
theorem bitrev_div {k d i : Nat} (hi : i < 2 ^ k) : bitrev (k + d) i / 2 ^ d = bitrev k i := by
  rw [bitrev_add, Nat.div_eq_of_lt hi, bitrev_zero_right, Nat.add_zero,
    Nat.mul_div_cancel _ (Nat.two_pow_pos d)]

@[simp] theorem bitrev_two_mul (l i : Nat) : bitrev (l + 1) (2 * i) = bitrev l i := by
  rw [bitrev, Nat.mul_mod_right, Nat.zero_mul, Nat.zero_add, Nat.mul_div_cancel_left i Nat.two_pos]

@[simp] theorem bitrev_two_mul_add_one (l i : Nat) :
    bitrev (l + 1) (2 * i + 1) = 2 ^ l + bitrev l i := by
  have hmod : (2 * i + 1) % 2 = 1 := by omega
  have hdiv : (2 * i + 1) / 2 = i := by omega
  rw [bitrev, hmod, hdiv, Nat.one_mul]

/-- Only the reversed bits matter. -/
theorem bitrev_mod (l i : Nat) : bitrev l (i % 2 ^ l) = bitrev l i := by
  induction l generalizing i with
  | zero => rfl
  | succ l ih =>
    have hlow : i % 2 ^ (l + 1) % 2 = i % 2 := Nat.mod_mod_of_dvd i (dvd_pow_self 2 (by omega))
    have hrest : i % 2 ^ (l + 1) / 2 = i / 2 % 2 ^ l := by rw [pow_succ', Nat.mod_mul_right_div_self]
    rw [bitrev, bitrev, hlow, hrest, ih]

/-- Reversing bits twice. -/
theorem bitrev_bitrev {l i : Nat} (hi : i < 2 ^ l) : bitrev l (bitrev l i) = i := by
  induction l generalizing i with
  | zero =>
    rw [pow_zero, Nat.lt_one_iff] at hi
    rw [hi]
    rfl
  | succ l ih =>
    -- the lowest bit becomes the highest one, and then the lowest one again
    have hhalf : i / 2 < 2 ^ l := by
      rw [pow_succ] at hi
      omega
    have hrev := bitrev_lt l (i / 2)
    have hswap : bitrev (l + 1) (bitrev (l + 1) i) =
        bitrev l (bitrev (l + 1) i) * 2 ^ 1 + bitrev 1 (bitrev (l + 1) i / 2 ^ l) := bitrev_add l 1 _
    have hlow : bitrev l (bitrev (l + 1) i) = i / 2 := by
      rw [← bitrev_mod, bitrev, Nat.add_comm, Nat.add_mul_mod_self_right, Nat.mod_eq_of_lt hrev,
        ih hhalf]
    have hhigh : bitrev (l + 1) i / 2 ^ l = i % 2 := by
      rw [bitrev, Nat.add_comm, Nat.add_mul_div_right _ _ (Nat.two_pow_pos l),
        Nat.div_eq_of_lt hrev, Nat.zero_add]
    rw [hswap, hlow, hhigh]
    simp only [bitrev]
    omega

/-! ## Transforms of twice the size -/

section Double

variable {F : Type} [Field F] (w : F) (m : Nat) (v : Nat → F)

/-- A transform splits into those of the entries at even and at odd places. -/
theorem dft_two_mul (j : Nat) :
    dft w (2 * m) v j =
      dft (w ^ 2) m (fun i => v (2 * i)) j + dft (w ^ 2) m (fun i => v (2 * i + 1)) j * w ^ j := by
  unfold dft
  induction m with
  | zero => simp
  | succ m ih =>
    rw [Nat.mul_succ, Finset.sum_range_succ, Finset.sum_range_succ, ih, Finset.sum_range_succ,
      Finset.sum_range_succ]
    ring

/-- In the second half, the entries at odd places count negatively. -/
theorem dft_two_mul_add (hw : w ^ m = -1) (j : Nat) :
    dft w (2 * m) v (j + m) =
      dft (w ^ 2) m (fun i => v (2 * i)) j - dft (w ^ 2) m (fun i => v (2 * i + 1)) j * w ^ j := by
  have hone : (w ^ 2) ^ m = 1 := by rw [← pow_mul, Nat.mul_comm, pow_mul, hw, neg_one_sq]
  have hperiod : ∀ u : Nat → F, dft (w ^ 2) m u (j + m) = dft (w ^ 2) m u j := by
    intro u
    apply Finset.sum_congr rfl
    intro i _
    rw [Nat.mul_add, pow_add, Nat.mul_comm i m, pow_mul (w ^ 2) m i, hone, one_pow, mul_one]
  rw [dft_two_mul, hperiod, hperiod, pow_add, hw]
  ring

variable (s : Nat) (f : Nat → F) (j : Nat)

/-- In the order of the reversed bits the entries at even places are the first half. -/
theorem dft_bitrev_low :
    dft w (2 ^ (s + 1)) (fun t => f (bitrev (s + 1) t)) j =
      dft (w ^ 2) (2 ^ s) (fun t => f (bitrev s t)) j +
        dft (w ^ 2) (2 ^ s) (fun t => f (2 ^ s + bitrev s t)) j * w ^ j := by
  rw [pow_succ', dft_two_mul]
  simp only [bitrev_two_mul, bitrev_two_mul_add_one]

theorem dft_bitrev_high (hw : w ^ 2 ^ s = -1) :
    dft w (2 ^ (s + 1)) (fun t => f (bitrev (s + 1) t)) (j + 2 ^ s) =
      dft (w ^ 2) (2 ^ s) (fun t => f (bitrev s t)) j -
        dft (w ^ 2) (2 ^ s) (fun t => f (2 ^ s + bitrev s t)) j * w ^ j := by
  rw [pow_succ', dft_two_mul_add w _ _ hw]
  simp only [bitrev_two_mul, bitrev_two_mul_add_one]

end Double

/-- Half of the order of a root leads to minus one. -/
theorem pow_half_eq_neg_one {F : Type} [Field F] {w : F} {s : Nat}
    (hw : IsPrimitiveRoot w (2 ^ (s + 1))) : w ^ 2 ^ s = -1 := by
  have hsquare : w ^ 2 ^ s * w ^ 2 ^ s = 1 := by
    rw [← pow_add, ← two_mul, ← pow_succ', hw.pow_eq_one]
  apply (mul_self_eq_one_iff.mp hsquare).resolve_left
  exact hw.pow_ne_one_of_pos_of_lt (Nat.two_pow_pos s).ne' (Nat.pow_lt_pow_right (by decide) (by omega))

end Dft
