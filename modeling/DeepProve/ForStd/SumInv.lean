import Mathlib

/-!
# Sums of inverses

A sum of inverses of positive numbers is not zero, also not over a prime field if the prime
is large.
-/

namespace SumInv

/-- The numerator of the sum of the inverses, over the product of all. -/
def numerator : List Nat → Nat
  | [] => 0
  | d :: ds => ds.prod + d * numerator ds

theorem numerator_pos {ds : List Nat} (hne : ds ≠ []) (hpos : ∀ d ∈ ds, 0 < d) :
    0 < numerator ds := by
  cases ds with
  | nil => exact absurd rfl hne
  | cons d ds =>
    have hprod : 0 < ds.prod := List.prod_pos fun d hd => hpos d (List.mem_cons_of_mem _ hd)
    exact Nat.add_pos_left hprod _

theorem prod_mul_sum_inv {F : Type*} [Field F] {ds : List Nat} (hne : ∀ d ∈ ds, (d : F) ≠ 0) :
    (ds.prod : F) * (ds.map fun d : Nat => (d : F)⁻¹).sum = numerator ds := by
  induction ds with
  | nil => simp [numerator]
  | cons d ds ih =>
    obtain ⟨hd, hds⟩ := List.forall_mem_cons.mp hne
    have hinv : (d : F) * (d : F)⁻¹ = 1 := mul_inv_cancel₀ hd
    rw [List.prod_cons, List.map_cons, List.sum_cons, numerator, Nat.cast_add, Nat.cast_mul,
      Nat.cast_mul, ← ih hds]
    linear_combination (ds.prod : F) * hinv

/-- Over a large enough prime field the inverses of positive numbers do not cancel. -/
theorem exists_prime_sum_inv_ne_zero {ds lost : List Nat} (hlost : lost ≠ [])
    (hsub : ∀ d ∈ lost, d ∈ ds) (hpos : ∀ d ∈ ds, 0 < d) :
    ∃ p, p.Prime ∧ (∀ d ∈ ds, (d : ZMod p) ≠ 0) ∧
      (lost.map fun d : Nat => (d : ZMod p)⁻¹).sum ≠ 0 := by
  obtain ⟨p, hp, hprime⟩ := Nat.exists_infinite_primes (ds.sum + numerator lost + 1)
  have := Fact.mk hprime
  have hcast : ∀ n : Nat, 0 < n → n < p → (n : ZMod p) ≠ 0 := by
    intro n hn hlt hzero
    have hdvd := (ZMod.natCast_eq_zero_iff n p).mp hzero
    exact absurd (Nat.le_of_dvd hn hdvd) (by omega)
  have hne : ∀ d ∈ ds, (d : ZMod p) ≠ 0 := by
    intro d hd
    have hle : d ≤ ds.sum := List.single_le_sum (by simp) d hd
    exact hcast d (hpos d hd) (by omega)
  refine ⟨p, hprime, hne, fun hsum => ?_⟩
  have hnum := prod_mul_sum_inv fun d hd => hne d (hsub d hd)
  rw [hsum, mul_zero] at hnum
  exact hcast _ (numerator_pos hlost fun d hd => hpos d (hsub d hd)) (by omega) hnum.symm

end SumInv
