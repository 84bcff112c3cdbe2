import DeepProve.ForStd.Dft
import DeepProve.ForStd.Interpolate

/-!
# A table of powers at a point

The multilinear polynomial with the powers of an element for its table is a product: a coordinate
contributes the square of what the coordinate before it contributes.

For the powers of a root of unity, seen as a function of the exponent, the first coordinate can be
summed out: the two halves of the exponents differ only in the sign of one term.
-/

namespace Multilinear

section Ring

variable {F : Type*} [CommRing F]

/-- The sum of the powers of `a`, with the weights of a point. -/
def powerEval (a : F) (r : List F) : F := eval (fun x => a ^ x) r

@[simp] theorem powerEval_nil (a : F) : powerEval a [] = 1 := by
  rw [powerEval, eval_nil, pow_zero]

theorem powerEval_cons (a r : F) (rs : List F) :
    powerEval a (r :: rs) = (1 - r + r * a) * powerEval (a ^ 2) rs := by
  have heven : (fun i : Nat => a ^ (2 * i)) = fun i => (a ^ 2) ^ i := by
    funext i
    rw [pow_mul]
  have hodd : eval (fun i => a ^ (2 * i + 1)) rs = a * eval (fun i => (a ^ 2) ^ i) rs := by
    rw [← eval_mul_left]
    apply eval_congr
    intro i _
    rw [pow_succ, pow_mul, mul_comm]
  rw [powerEval, eval_cons, heven, hodd, powerEval]
  ring

end Ring

section Field

variable {F : Type} [Field F] {u : F} {i : Nat}

/-- The powers of a root of unity repeat. -/
theorem powerEval_pow_add_two_pow (hu : u ^ 2 ^ i = 1) (s : List F) (b : Nat) :
    powerEval (u ^ (2 ^ i + b)) s = powerEval (u ^ b) s := by
  rw [pow_add, hu, one_mul]

/-- The lower half of the exponents. -/
theorem powerEval_pow (r : F) (s : List F) (b : Nat) :
    powerEval (u ^ b) (r :: s) = (1 - r + r * u ^ b) * powerEval ((u ^ 2) ^ b) s := by
  rw [powerEval_cons, ← pow_mul, ← pow_mul, Nat.mul_comm]

/-- The upper half of the exponents. -/
theorem powerEval_pow_add (hu : u ^ 2 ^ i = -1) (r : F) (s : List F) (b : Nat) :
    powerEval (u ^ (2 ^ i + b)) (r :: s) = (1 - r - r * u ^ b) * powerEval ((u ^ 2) ^ b) s := by
  have hsquare : (u ^ 2) ^ 2 ^ i = 1 := by
    rw [← pow_mul, Nat.mul_comm, pow_mul, hu, neg_one_sq]
  rw [powerEval_pow, powerEval_pow_add_two_pow hsquare, pow_add, hu]
  ring

/-- The first coordinate is summed out: the last coordinate of the point chooses the sign. -/
theorem eval_powerEval {lo : List F} (hu : u ^ 2 ^ lo.length = -1) (c r : F) (s : List F) (a : F) :
    eval (fun b => a * powerEval (u ^ b) (r :: s)) (lo ++ [c]) =
      eval (fun b => (1 - r + (1 - 2 * c) * r * u ^ b) * (a * powerEval ((u ^ 2) ^ b) s)) lo := by
  rw [eval_concat, upperBlock, mul_comm, mul_comm _ c, ← eval_mul_left, ← eval_mul_left, ← eval_add]
  apply eval_congr
  intro b _
  rw [powerEval_pow, powerEval_pow_add hu]
  ring

/-- The same for a table whose upper half is zero. -/
theorem eval_powerEval_lower {lo : List F} (c r : F) (s : List F) (a : F) :
    eval (fun b => if b < 2 ^ lo.length then a * powerEval (u ^ b) (r :: s) else 0) (lo ++ [c]) =
      eval (fun b => (1 - c) * (1 - r + r * u ^ b) * (a * powerEval ((u ^ 2) ^ b) s)) lo := by
  have hupper : eval (fun i => if 2 ^ lo.length + i < 2 ^ lo.length then
      a * powerEval (u ^ (2 ^ lo.length + i)) (r :: s) else 0) lo = 0 := by
    refine (eval_congr ?_).trans (eval_const 0 lo)
    intro i _
    exact if_neg (Nat.not_lt.mpr (Nat.le_add_right _ i))
  rw [eval_concat, upperBlock, hupper, zero_mul, add_zero, mul_comm, ← eval_mul_left]
  apply eval_congr
  intro b hb
  rw [if_pos hb, powerEval_pow]
  ring

end Field

end Multilinear
