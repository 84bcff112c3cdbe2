import Mathlib

/-!
# What two weighted sums say about a sum of products

Two families of values are known by their weighted sums only, with the same weights. The weighted sum
of the products is determined by the two only if at most one weight is not zero, or in the case of two
opposite weights and two equal values on either side. One family is determined by its sums with enough
challenges.
-/

namespace WeightedSums

variable {ι F : Type*} [Fintype ι] [DecidableEq ι] [Field F]

/-- The sum of the products is determined by the two sums. -/
def Determined (c L R : ι → F) : Prop :=
  ∀ u v : ι → F, ∑ i, c i * u i = ∑ i, c i * L i → ∑ i, c i * v i = ∑ i, c i * R i →
    ∑ i, c i * u i * v i = ∑ i, c i * L i * R i

/-- At most one weight is not zero, or two opposite ones with equal values. -/
def Pinned (c L R : ι → F) : Prop :=
  (∀ j k, j ≠ k → c j = 0 ∨ c k = 0) ∨
    ∃ j k, j ≠ k ∧ (∀ i, i ≠ j → i ≠ k → c i = 0) ∧ c j + c k = 0 ∧ L j = L k ∧ R j = R k

/-- The direction along two values that leaves their weighted sum as it is. -/
def direction (c : ι → F) (j k : ι) (i : ι) : F := if i = j then c k else if i = k then -c j else 0

variable {c L R : ι → F} {j k : ι}

omit [Fintype ι] in
@[simp] theorem direction_self (c : ι → F) (j k : ι) : direction c j k j = c k := if_pos rfl

omit [Fintype ι] in
theorem direction_right (hne : j ≠ k) : direction c j k k = -c j := by
  rw [direction, if_neg (Ne.symm hne), if_pos rfl]

omit [Fintype ι] in
theorem direction_other {i : ι} (hj : i ≠ j) (hk : i ≠ k) : direction c j k i = 0 := by
  rw [direction, if_neg hj, if_neg hk]

theorem sum_mul_direction (hne : j ≠ k) (f : ι → F) :
    ∑ i, f i * direction c j k i = f j * c k - f k * c j := by
  rw [Fintype.sum_eq_add j k hne, direction_self, direction_right hne]
  · ring
  · intro i hi
    rw [direction_other hi.1 hi.2, mul_zero]

theorem sum_add_direction (hne : j ≠ k) (f : ι → F) :
    ∑ i, c i * (f i + direction c j k i) = ∑ i, c i * f i := by
  simp only [mul_add, Finset.sum_add_distrib, sum_mul_direction hne]
  ring

namespace Determined

/-- The values on one side are equal wherever the weight is not zero. -/
theorem left_eq (h : Determined c L R) (hne : j ≠ k) (hj : c j ≠ 0) (hk : c k ≠ 0) : L j = L k := by
  have hsum := h L (fun i => R i + direction c j k i) rfl (sum_add_direction hne R)
  simp only [mul_add, Finset.sum_add_distrib, sum_mul_direction hne] at hsum
  have hprod : c j * c k * (L j - L k) = 0 := by linear_combination hsum
  have hzero := (mul_eq_zero.mp hprod).resolve_left (mul_ne_zero hj hk)
  exact sub_eq_zero.mp hzero

omit [DecidableEq ι] in
theorem symm (h : Determined c L R) : Determined c R L := by
  intro u v hu hv
  have hcomm : ∀ a b : ι → F, ∑ i, c i * a i * b i = ∑ i, c i * b i * a i := by
    intro a b
    exact Finset.sum_congr rfl fun i _ => mul_right_comm _ _ _
  rw [hcomm u v, hcomm R L]
  exact h v u hv hu

/-- Two directions that leave the sums as they are have no weighted product. -/
theorem sum_direction_mul (h : Determined c L R) {l m : ι} (hjk : j ≠ k) (hlm : l ≠ m)
    (hj : c j ≠ 0) (hk : c k ≠ 0) (hl : c l ≠ 0) (hm : c m ≠ 0) :
    ∑ i, c i * direction c j k i * direction c l m i = 0 := by
  have hsum := h (fun i => L i + direction c j k i) (fun i => R i + direction c l m i)
    (sum_add_direction hjk L) (sum_add_direction hlm R)
  have hL := h.left_eq hlm hl hm
  have hR := h.symm.left_eq hjk hj hk
  have hleft : ∑ i, c i * L i * direction c l m i = 0 := by
    rw [sum_mul_direction hlm, hL]
    ring
  have hright : ∑ i, c i * direction c j k i * R i = 0 := by
    have hcomm : ∀ i, c i * direction c j k i * R i = c i * R i * direction c j k i :=
      fun i => mul_right_comm _ _ _
    simp only [hcomm, sum_mul_direction hjk, hR]
    ring
  simp only [mul_add, add_mul, Finset.sum_add_distrib, hleft, hright] at hsum
  linear_combination hsum

theorem pinned (h : Determined c L R) : Pinned c L R := by
  by_cases hsingle : ∀ j k, j ≠ k → c j = 0 ∨ c k = 0
  · exact .inl hsingle
  · push Not at hsingle
    obtain ⟨j, k, hne, hj, hk⟩ := hsingle
    refine .inr ⟨j, k, hne, fun i hij hik => ?_, ?_, h.left_eq hne hj hk, h.symm.left_eq hne hj hk⟩
    · -- a third weight gives two directions that meet in one value
      by_contra hi
      have hzero := h.sum_direction_mul hne (Ne.symm hij) hj hk hj hi
      rw [Fintype.sum_eq_single j] at hzero
      · rw [direction_self, direction_self] at hzero
        exact mul_ne_zero (mul_ne_zero hj hk) hi hzero
      · intro x hx
        by_cases hxk : x = k
        · rw [direction_other (k := i) hx (hxk ▸ Ne.symm hik), mul_zero]
        · rw [direction_other hx hxk, mul_zero, zero_mul]
    · have hzero := h.sum_direction_mul hne hne hj hk hj hk
      rw [sum_mul_direction hne, direction_self, direction_right hne] at hzero
      have hprod : c j * c k * (c j + c k) = 0 := by linear_combination hzero
      exact (mul_eq_zero.mp hprod).resolve_left (mul_ne_zero hj hk)

end Determined

omit [DecidableEq ι] in
/-- A value whose weight is the only one is known from the sum. -/
theorem weight_mul_sub (hsingle : ∀ j k, j ≠ k → c j = 0 ∨ c k = 0) {u : ι → F}
    (h : ∑ i, c i * u i = ∑ i, c i * L i) (i : ι) : c i * u i = c i * L i := by
  by_cases hi : c i = 0
  · rw [hi, zero_mul, zero_mul]
  · have hother : ∀ f : ι → F, ∑ j, c j * f j = c i * f i := by
      intro f
      apply Fintype.sum_eq_single
      intro j hj
      rw [(hsingle j i hj).resolve_right hi, zero_mul]
    rw [← hother u, ← hother L, h]

omit [DecidableEq ι] in
theorem Pinned.determined (h : Pinned c L R) : Determined c L R := by
  intro u v hu hv
  rcases h with hsingle | ⟨j, k, hne, hother, hsum, hL, hR⟩
  · apply Finset.sum_congr rfl
    intro i _
    calc c i * u i * v i = c i * L i * v i := by rw [weight_mul_sub hsingle hu]
      _ = c i * v i * L i := mul_right_comm _ _ _
      _ = c i * R i * L i := by rw [weight_mul_sub hsingle hv]
      _ = c i * L i * R i := mul_right_comm _ _ _
  · have hk : c k = -c j := by linear_combination hsum
    -- a weighted sum is a difference of two values
    have htwo : ∀ f : ι → F, ∑ i, c i * f i = c j * (f j - f k) := by
      intro f
      rw [Fintype.sum_eq_add j k hne, hk]
      · ring
      · intro i hi
        rw [hother i hi.1 hi.2, zero_mul]
    rw [htwo, htwo, hL, sub_self, mul_zero] at hu
    rw [htwo, htwo, hR, sub_self, mul_zero] at hv
    simp only [mul_assoc, htwo]
    rw [hL, hR, sub_self, mul_zero]
    rcases mul_eq_zero.mp hu with hj | hu
    · rw [hj, zero_mul]
    · linear_combination c j * v j * hu + u k * hv

/-! ## Powers of a challenge -/

section Powers

open Polynomial

variable {F : Type*} [Field F] [DecidableEq F]

/-- With the powers of a challenge for their weights, two lists of one length have the same sum for
    fewer challenges than they have entries, unless they are the same. -/
theorem exists_agreements {as bs : List F} (hlength : as.length = bs.length) (hne : as ≠ bs) :
    ∃ lucky : Finset F, lucky.card < as.length ∧
      ∀ c, ∑ i ∈ Finset.range as.length, c ^ i * as.getD i 0 =
        ∑ i ∈ Finset.range as.length, c ^ i * bs.getD i 0 → c ∈ lucky := by
  let p : F[X] := ∑ i ∈ Finset.range as.length, C (as.getD i 0 - bs.getD i 0) * X ^ i
  have hcoeff : ∀ i < as.length, p.coeff i = as.getD i 0 - bs.getD i 0 := by
    intro i hi
    simp only [p, finsetSum_coeff, coeff_C_mul_X_pow, Finset.sum_ite_eq, Finset.mem_range, if_pos hi]
  have hpoly : p ≠ 0 := by
    intro hzero
    refine hne (List.ext_getElem hlength fun i hi hi' => ?_)
    have hsame := hcoeff i hi
    rw [hzero, coeff_zero, eq_comm, sub_eq_zero] at hsame
    simpa [List.getD_eq_getElem?_getD, hi, hi'] using hsame
  have hdegree : p.natDegree ≤ as.length - 1 := by
    apply natDegree_sum_le_of_forall_le
    intro i hi
    have hi := Finset.mem_range.mp hi
    exact (natDegree_C_mul_X_pow_le _ i).trans (by omega)
  have hpos : 0 < as.length := by
    by_contra hzero
    exact hpoly (by simp [p, Nat.eq_zero_of_not_pos hzero])
  refine ⟨p.roots.toFinset, ?_, fun c hc => ?_⟩
  · have hroots := (Multiset.toFinset_card_le p.roots).trans (card_roots' p)
    omega
  · have heval : p.eval c = ∑ i ∈ Finset.range as.length, (c ^ i * as.getD i 0 - c ^ i * bs.getD i 0) := by
      rw [eval_finsetSum]
      refine Finset.sum_congr rfl fun i _ => ?_
      rw [eval_mul, eval_C, eval_pow, eval_X, mul_comm, mul_sub]
    rw [Multiset.mem_toFinset, mem_roots hpoly, IsRoot, heval, Finset.sum_sub_distrib, hc, sub_self]

end Powers

end WeightedSums
