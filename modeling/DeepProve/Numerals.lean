import Mathlib

/-!
# Numerals and small fields

A numeral of a field rests on a proof that it is at least two. The numerals of
the definitions rest on the ones named here; the field of five elements is the
one that most failing inputs are taken over.
-/

namespace DeepProve

instance atLeastTwo_two : Nat.AtLeastTwo 2 := ⟨Nat.le_refl 2⟩

instance atLeastTwo_three : Nat.AtLeastTwo 3 := ⟨by decide⟩

instance atLeastTwo_four : Nat.AtLeastTwo 4 := ⟨by decide⟩

instance atLeastTwo_five : Nat.AtLeastTwo 5 := ⟨by decide⟩

instance fact_prime_five : Fact (Nat.Prime 5) := ⟨by decide⟩

end DeepProve
