import DeepProve.ForStd.RowMajor
import DeepProve.Reshape.Reshape

/-!
# The layout of a padded tensor

Zero padding moves the entries of a tensor apart. The padded tensors of two shapes are the same for
all data exactly if the padding leaves the same gaps between the entries.
-/

namespace DeepProve

open RowMajor (spread)

namespace Shape

/-- The gaps that zero padding leaves between the entries: after each block of how many entries there
    are how many zeros. -/
def gaps (self : Shape) : List (Nat × Nat) := RowMajor.gaps DeepProve.nextPowerOfTwo self

/-- Where zero padding moves an entry. -/
def paddedIndex (self : Shape) (k : Nat) : Nat := spread DeepProve.nextPowerOfTwo self k

theorem paddedIndex_lt {self : Shape} {k : Nat} (hk : k < self.numel) :
    self.paddedIndex k < self.nextPowerOfTwo.numel :=
  RowMajor.spread_lt le_nextPowerOfTwo hk

end Shape

/-! ## The entries -/

variable {data : List Int}

/-- The entry of the sub tensor at an index of the leading dimension. -/
theorem getD_drop_take {q n r : Nat} (hr : r < n) :
    ((data.drop (q * n)).take n).getD r 0 = data.getD (q * n + r) 0 := by
  simp [List.getD_eq_getElem?_getD, hr]

variable {shape : Shape}

theorem paddedEntry_spread {k : Nat} (hk : k < shape.numel) :
    paddedEntry shape data (shape.paddedIndex k) = data.getD k 0 := by
  induction shape generalizing data k with
  | nil =>
    have hzero : k = 0 := by simpa [Shape.numel] using hk
    rw [hzero]
    rfl
  | cons d dims ih =>
    have hmul : k < d * dims.prod := by simpa [Shape.numel] using hk
    have hpos : 0 < dims.prod := Nat.pos_of_mul_pos_left (Nat.zero_lt_of_lt hmul)
    have hmod : k % dims.prod < dims.prod := Nat.mod_lt k hpos
    have hinner : Shape.paddedIndex dims (k % dims.prod) < (Shape.nextPowerOfTwo dims).numel :=
      Shape.paddedIndex_lt hmod
    have hindex : Shape.paddedIndex (d :: dims) k = (Shape.nextPowerOfTwo dims).numel * (k / dims.prod) +
        Shape.paddedIndex dims (k % dims.prod) := by
      rw [Nat.mul_comm]
      rfl
    have hdiv : Shape.paddedIndex (d :: dims) k / (Shape.nextPowerOfTwo dims).numel = k / dims.prod := by
      rw [hindex, Nat.mul_add_div (Nat.zero_lt_of_lt hinner), Nat.div_eq_of_lt hinner, Nat.add_zero]
    have hrem : Shape.paddedIndex (d :: dims) k % (Shape.nextPowerOfTwo dims).numel =
        Shape.paddedIndex dims (k % dims.prod) := by
      rw [hindex, Nat.mul_add_mod, Nat.mod_eq_of_lt hinner]
    have hjoin : k / dims.prod * dims.prod + k % dims.prod = k := by
      rw [Nat.mul_comm, Nat.div_add_mod]
    rw [paddedEntry, hdiv, hrem, if_pos ((Nat.div_lt_iff_lt_mul hpos).mpr hmul), ih hmod,
      getD_drop_take hmod, hjoin]

/-- Everything else is padding. -/
theorem paddedEntry_eq_zero {i : Nat} (hi : i < shape.nextPowerOfTwo.numel)
    (h : ∀ k < shape.numel, shape.paddedIndex k ≠ i) :
    paddedEntry shape data i = 0 := by
  induction shape generalizing data i with
  | nil =>
    have hzero : i = 0 := by simpa [Shape.numel, Shape.nextPowerOfTwo] using hi
    exact absurd hzero.symm (h 0 (by simp [Shape.numel]))
  | cons d dims ih =>
    rw [paddedEntry]
    split
    · next hlead =>
      have hsize : 0 < (Shape.nextPowerOfTwo dims).numel := by
        rw [Shape.numel_nextPowerOfTwo]
        exact Nat.two_pow_pos _
      apply ih (Nat.mod_lt i hsize)
      intro k (hk : k < dims.prod) heq
      have hpos : 0 < dims.prod := Nat.zero_lt_of_lt hk
      -- the entry of the sub tensor is one of the tensor
      apply h (i / (Shape.nextPowerOfTwo dims).numel * dims.prod + k)
      · calc i / (Shape.nextPowerOfTwo dims).numel * dims.prod + k
            < (i / (Shape.nextPowerOfTwo dims).numel + 1) * dims.prod := by
              rw [Nat.succ_mul]
              exact Nat.add_lt_add_left hk _
          _ ≤ d * dims.prod := Nat.mul_le_mul_right _ hlead
          _ = Shape.numel (d :: dims) := List.prod_cons.symm
      · rw [Shape.paddedIndex, RowMajor.spread_block _ hpos, RowMajor.spread, Nat.div_eq_of_lt hk,
          Nat.mod_eq_of_lt hk, Nat.zero_mul, Nat.zero_add]
        have hdims : spread nextPowerOfTwo dims k = i % (Shape.nextPowerOfTwo dims).numel := heq
        rw [hdims, Nat.mul_comm]
        exact Nat.div_add_mod i _
    · rfl

/-! ## Shapes with the same padded tensors -/

/-- A tensor with a one and else zeros. -/
def unitData (n k : Nat) : List Int := (List.range n).map fun i => if i = k then 1 else 0

theorem unitData_getD {n k i : Nat} (hi : i < n) : (unitData n k).getD i 0 = if i = k then 1 else 0 := by
  simp [unitData, List.getD_eq_getElem?_getD, hi]

/-- A one is moved to the place of its entry. -/
theorem paddedEntry_unitData {k i : Nat} (hi : i < shape.nextPowerOfTwo.numel)
    (h : paddedEntry shape (unitData shape.numel k) i ≠ 0) : shape.paddedIndex k = i := by
  by_contra hne
  apply h
  by_cases hmem : ∃ j < shape.numel, shape.paddedIndex j = i
  · obtain ⟨j, hj, rfl⟩ := hmem
    rw [paddedEntry_spread hj, unitData_getD hj, if_neg]
    rintro rfl
    exact hne rfl
  · push Not at hmem
    exact paddedEntry_eq_zero hi hmem

/-- Padding that leaves the same gaps gives the same tensors. -/
theorem padded_eq_of_gaps_eq {new : Shape} (hshape : shape ≠ []) (hnew : new ≠ [])
    (hnumel : shape.numel = new.numel)
    (hpadded : shape.nextPowerOfTwo.numel = new.nextPowerOfTwo.numel) (h : shape.gaps = new.gaps)
    (data : List Int) {i : Nat} (hi : i < shape.nextPowerOfTwo.numel) :
    paddedEntry shape data i = paddedEntry new data i := by
  have hindex : ∀ k < shape.numel, shape.paddedIndex k = new.paddedIndex k :=
    (RowMajor.gaps_eq_iff le_nextPowerOfTwo rfl hshape hnew hnumel).mp h
  by_cases hmem : ∃ k < shape.numel, shape.paddedIndex k = i
  · obtain ⟨k, hk, rfl⟩ := hmem
    rw [paddedEntry_spread hk, hindex k hk, paddedEntry_spread (hnumel ▸ hk)]
  · push Not at hmem
    rw [paddedEntry_eq_zero hi hmem, paddedEntry_eq_zero (hpadded ▸ hi)]
    intro k hk heq
    exact hmem k (hnumel ▸ hk) ((hindex k (hnumel ▸ hk)).trans heq)

/-- Tensors with a single one tell the gaps. -/
theorem gaps_eq_of_padded_eq {new : Shape} (hshape : shape ≠ []) (hnew : new ≠ [])
    (hnumel : shape.numel = new.numel)
    (hpadded : shape.nextPowerOfTwo.numel = new.nextPowerOfTwo.numel)
    (h : ∀ k, ∀ i < shape.nextPowerOfTwo.numel, paddedEntry shape (unitData shape.numel k) i =
      paddedEntry new (unitData shape.numel k) i) : shape.gaps = new.gaps := by
  refine (RowMajor.gaps_eq_iff le_nextPowerOfTwo rfl hshape hnew hnumel).mpr ?_
  intro k (hk : k < shape.numel)
  have hlt := Shape.paddedIndex_lt (hnumel ▸ hk : k < new.numel)
  have heq := h k (new.paddedIndex k) (hpadded ▸ hlt)
  rw [paddedEntry_spread (hnumel ▸ hk), unitData_getD hk, if_pos rfl] at heq
  have hne : paddedEntry shape (unitData shape.numel k) (new.paddedIndex k) ≠ 0 := by
    rw [heq]
    decide
  exact paddedEntry_unitData (hpadded ▸ hlt) hne

/-! ## Dimensions that are powers of two -/

theorem Shape.numel_nextPowerOfTwo_pos (shape : Shape) : 0 < shape.nextPowerOfTwo.numel := by
  rw [Shape.numel_nextPowerOfTwo]
  exact Nat.two_pow_pos _

theorem Shape.nextPowerOfTwo_eq_self (h : shape.all Shape.isPowerOfTwo = true) :
    shape.nextPowerOfTwo = shape := by
  unfold Shape.nextPowerOfTwo
  conv => rhs; rw [← List.map_id shape]
  apply List.map_congr_left
  intro d hd
  exact (beq_iff_eq.mp (List.all_eq_true.mp h d hd)).symm

/-- Padding adds no entries only if all dimensions are powers of two. -/
theorem Shape.all_isPowerOfTwo_of_numel_eq (h : shape.nextPowerOfTwo.numel = shape.numel) :
    shape.all Shape.isPowerOfTwo = true := by
  induction shape with
  | nil => rfl
  | cons d dims ih =>
    have hprod : DeepProve.nextPowerOfTwo d * (Shape.nextPowerOfTwo dims).numel = d * Shape.numel dims := by
      simpa [Shape.numel, Shape.nextPowerOfTwo] using h
    have hdims : Shape.numel dims ≤ (Shape.nextPowerOfTwo dims).numel :=
      RowMajor.prod_le_prod_map le_nextPowerOfTwo dims
    have hpos := Shape.numel_nextPowerOfTwo_pos dims
    have hd : DeepProve.nextPowerOfTwo d = d := by
      refine Nat.le_antisymm ?_ (le_nextPowerOfTwo d)
      by_contra hlt
      have hmul := Nat.mul_le_mul_left d hdims
      have hless := (Nat.mul_lt_mul_right hpos).mpr (Nat.lt_of_not_le hlt)
      omega
    rw [hd] at hprod
    have hzero : 0 < d := hd ▸ Nat.two_pow_pos _
    rw [List.all_cons, ih (Nat.eq_of_mul_eq_mul_left hzero hprod), Bool.and_true, Shape.isPowerOfTwo, hd,
      beq_self_eq_true]

end DeepProve
