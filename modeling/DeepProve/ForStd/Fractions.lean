import Mathlib

/-!
# Fractions without division

Fractions over a commutative ring, added by the rule for fractions, whether their denominators are
zero or not. They form a commutative monoid; what a sum of fractions is doesn't depend on the order
in which they are added.
-/

/-- A numerator and a denominator. -/
@[ext]
structure Fraction (F : Type*) where
  numerator : F
  denominator : F
  deriving DecidableEq, Repr

namespace Fraction

variable {F : Type*}

section CommRing

variable [CommRing F]

instance : Add (Fraction F) where
  add a b := ⟨a.numerator * b.denominator + a.denominator * b.numerator, a.denominator * b.denominator⟩

instance : Zero (Fraction F) where
  zero := ⟨0, 1⟩

@[simp] theorem add_numerator (a b : Fraction F) :
    (a + b).numerator = a.numerator * b.denominator + a.denominator * b.numerator := rfl

@[simp] theorem add_denominator (a b : Fraction F) :
    (a + b).denominator = a.denominator * b.denominator := rfl

@[simp] theorem zero_numerator : (0 : Fraction F).numerator = 0 := rfl

@[simp] theorem zero_denominator : (0 : Fraction F).denominator = 1 := rfl

instance : AddCommMonoid (Fraction F) where
  add_assoc a b c := by
    ext
    · simp only [add_numerator, add_denominator]
      ring
    · exact mul_assoc _ _ _
  zero_add a := by ext <;> simp
  add_zero a := by ext <;> simp
  add_comm a b := by
    ext
    · simp only [add_numerator]
      ring
    · exact mul_comm _ _
  nsmul := nsmulRec

theorem denominator_sum {ι : Type*} (s : Finset ι) (f : ι → Fraction F) :
    (∑ i ∈ s, f i).denominator = ∏ i ∈ s, (f i).denominator := by
  classical
  induction s using Finset.induction_on with
  | empty => rfl
  | insert i s hi ih => rw [Finset.sum_insert hi, Finset.prod_insert hi, add_denominator, ih]

/-- Each numerator is multiplied by the other denominators. -/
theorem numerator_sum {ι : Type*} [DecidableEq ι] (s : Finset ι) (f : ι → Fraction F) :
    (∑ i ∈ s, f i).numerator = ∑ i ∈ s, (f i).numerator * ∏ j ∈ s.erase i, (f j).denominator := by
  induction s using Finset.induction_on with
  | empty => rfl
  | insert i s hi ih =>
    have hother : ∀ k ∈ s, (f k).numerator * ∏ j ∈ (insert i s).erase k, (f j).denominator =
        (f i).denominator * ((f k).numerator * ∏ j ∈ s.erase k, (f j).denominator) := by
      intro k hk
      have hne : i ≠ k := fun heq => hi (heq ▸ hk)
      rw [Finset.erase_insert_of_ne hne, Finset.prod_insert fun h => hi (Finset.mem_of_mem_erase h)]
      ring
    rw [Finset.sum_insert hi, add_numerator, ih, denominator_sum, Finset.sum_insert hi,
      Finset.erase_insert hi, Finset.sum_congr rfl hother, Finset.mul_sum]

/-- Add the second half to the first, place by place. -/
theorem sum_range_halves (m : Nat) (f : Nat → Fraction F) :
    ∑ i ∈ Finset.range m, (f i + f (i + m)) = ∑ i ∈ Finset.range (2 * m), f i := by
  rw [Finset.sum_add_distrib, two_mul, Finset.sum_range_add]
  exact congrArg _ (Finset.sum_congr rfl fun i _ => by rw [Nat.add_comm])

end CommRing

/-- Where no denominator is zero, fractions add up to the sum of their quotients. -/
theorem sum_div [Field F] {ι : Type*} (s : Finset ι) (f : ι → Fraction F)
    (hne : ∀ i ∈ s, (f i).denominator ≠ 0) :
    (∑ i ∈ s, f i).numerator / (∑ i ∈ s, f i).denominator =
      ∑ i ∈ s, (f i).numerator / (f i).denominator := by
  classical
  induction s using Finset.induction_on with
  | empty => simp
  | insert i s hi ih =>
    obtain ⟨hi', hs⟩ := Finset.forall_mem_insert i s _ |>.mp hne
    have hrest : (∑ i ∈ s, f i).denominator ≠ 0 := by
      rw [denominator_sum]
      exact Finset.prod_ne_zero_iff.mpr hs
    rw [Finset.sum_insert hi, Finset.sum_insert hi, ← ih hs, add_numerator, add_denominator,
      ← div_add_div _ _ hi' hrest]

end Fraction
