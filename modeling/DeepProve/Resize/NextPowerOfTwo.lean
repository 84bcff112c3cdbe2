import DeepProve.Resize.Padding

/-!
# Padding to the next powers of two

The entries of a padded tensor are stated one by one in `padNextPowerOfTwo`.
-/

namespace DeepProve

open List (cells)
open MixedRadix

namespace Shape

theorem position_cons (d x : Nat) (dims : Shape) (index : List Nat) :
    position (d :: dims) (x :: index) = x * dims.prod + position dims index := by
  rw [position, strides, List.zipWith_cons_cons, List.sum_cons, position]

/-- An index of the shape has its position in the data. -/
theorem position_lt {shape : Shape} {index : List Nat} (h : shape.Contains index) :
    shape.position index < shape.prod := by
  induction h with
  | nil => exact Nat.one_pos
  | @cons x d index dims hx _ ih =>
    have hle : x * dims.prod + dims.prod ≤ d * dims.prod := by
      rw [← Nat.succ_mul]
      exact Nat.mul_le_mul_right _ hx
    rw [position_cons, List.prod_cons]
    omega

end Shape

/-- The entry of a padded tensor at an index. -/
theorem paddedEntry_position {shape : Shape} {data : List Int} {index : List Nat}
    (h : shape.nextPowerOfTwo.Contains index) (hlength : data.length = shape.numel) :
    (shape.Contains index → paddedEntry shape data (shape.nextPowerOfTwo.position index) =
        data.getD (shape.position index) 0) ∧
      (¬ shape.Contains index → paddedEntry shape data (shape.nextPowerOfTwo.position index) = 0) := by
  induction shape generalizing data index with
  | nil =>
    obtain rfl : index = [] := List.forall₂_nil_right_iff.mp h
    exact ⟨fun _ => rfl, fun hnot => absurd List.Forall₂.nil hnot⟩
  | cons d dims ih =>
    obtain ⟨x, index, hx, hrest, rfl⟩ := List.forall₂_cons_right_iff.mp h
    have hlt : (Shape.nextPowerOfTwo dims).position index < (Shape.nextPowerOfTwo dims).prod :=
      Shape.position_lt hrest
    have hpos : 0 < (Shape.nextPowerOfTwo dims).prod := Nat.zero_lt_of_lt hlt
    have hposition : Shape.position (Shape.nextPowerOfTwo (d :: dims)) (x :: index) =
        (Shape.nextPowerOfTwo dims).prod * x + (Shape.nextPowerOfTwo dims).position index := by
      rw [Nat.mul_comm]
      exact Shape.position_cons _ _ _ _
    have hquot : ((Shape.nextPowerOfTwo dims).prod * x +
        (Shape.nextPowerOfTwo dims).position index) / (Shape.nextPowerOfTwo dims).prod = x := by
      rw [Nat.mul_add_div hpos, Nat.div_eq_of_lt hlt, Nat.add_zero]
    have hrem : ((Shape.nextPowerOfTwo dims).prod * x +
        (Shape.nextPowerOfTwo dims).position index) % (Shape.nextPowerOfTwo dims).prod =
          (Shape.nextPowerOfTwo dims).position index := by
      rw [Nat.mul_add_mod, Nat.mod_eq_of_lt hlt]
    rw [hposition, paddedEntry, Shape.numel, hquot, hrem]
    by_cases hxd : x < d
    · have hslice : x * dims.prod + dims.prod ≤ data.length := by
        rw [hlength, Shape.numel, List.prod_cons, ← Nat.succ_mul]
        exact Nat.mul_le_mul_right _ hxd
      have htake : ((data.drop (x * dims.prod)).take dims.prod).length = Shape.numel dims := by
        rw [List.length_take, List.length_drop, Shape.numel]
        omega
      obtain ⟨hinside, houtside⟩ := ih hrest htake
      rw [if_pos hxd]
      constructor
      · intro hcontains
        have hdims : Shape.Contains dims index := (List.forall₂_cons.mp hcontains).2
        have hdimsLt := Shape.position_lt hdims
        rw [hinside hdims, List.getD_eq_getElem?_getD, List.getElem?_take, if_pos hdimsLt,
          List.getElem?_drop, Shape.position_cons, List.getD_eq_getElem?_getD]
      · intro hnot
        exact houtside fun hdims => hnot (List.Forall₂.cons hxd hdims)
    · rw [if_neg hxd]
      exact ⟨fun hcontains => absurd (List.forall₂_cons.mp hcontains).1 hxd, fun _ => rfl⟩

end DeepProve
