import DeepProve.Lookup.PaddedTensor

/-!
# Tensors

`tensor/mod.rs`: the data of a tensor, row after row. The padding with zeros is stated entry by
entry, and so is the polynomial of a tensor.
-/

namespace DeepProve

/-- `Tensor`. -/
structure Tensor (α : Type) where
  data : List α
  shape : Shape
  unpaddedShape : Shape

namespace Tensor

/-- `Tensor::new`. -/
def new {α : Type} (shape : Shape) (data : List α) : Outcome (Tensor α) := do
  ensure (shape.numel == data.length)
    s!"Shape does not match data length: shape {shape}->{shape.numel} vs data.len() {data.length}"
  .ok ⟨data, shape, shape⟩

/-- `pad_next_power_of_two`. -/
def padNextPowerOfTwo (self : Tensor Int) : Tensor Int where
  data := (List.range self.shape.nextPowerOfTwo.numel).map (paddedEntry self.shape self.data)
  shape := self.shape.nextPowerOfTwo
  unpaddedShape := self.unpaddedShape

variable {α : Type} (self : Tensor α)

/-- `nrows_2d`. -/
def nrows2d : Outcome Nat := do
  let rows := match self.shape with
    | [rows, _] => rows
    | [filters, _, side, _] => filters * side * side
    | _ => 0
  ensurePos rows
  .ok rows
where
  /-- `assert!(cols != 0, ..)`. -/
  ensurePos (n : Nat) : Outcome Unit :=
    if n = 0 then .error (.panic "Shape is not a matrix or convolution") else .ok ()

/-- `ncols_2d`. -/
def ncols2d : Outcome Nat := do
  let cols := match self.shape with
    | [_, cols] => cols
    | [_, channels, side, _] => channels * side * side
    | _ => 0
  nrows2d.ensurePos cols
  .ok cols

/-- `into_mle_2d`: the evaluations of the polynomial. -/
def intoMle2d : Outcome (List α) := do
  ensure (self.shape.rank == 2) "Tensor is not a matrix"
  let rows ← self.nrows2d
  ensure (Shape.isPowerOfTwo rows) s!"number of rows {rows} is not a power of two"
  let cols ← self.ncols2d
  ensure (Shape.isPowerOfTwo cols) s!"number of columns {cols} is not a power of two"
  .ok self.data

end Tensor

section Field

variable {F : Type} [Field F]

/-- The value of the polynomial with the given evaluations. -/
def mle (evaluations point : List F) : F := Multilinear.eval (evaluations.getD · 0) point

/-- `to_field`. -/
def toField (F : Type) [Field F] (chunk : List Int) : List F := chunk.map fun v : Int => (v : F)

/-- The polynomial of a padded tensor. -/
theorem mle_padNextPowerOfTwo {tensor : Tensor Int} {point : List F}
    (h : 2 ^ point.length = tensor.shape.nextPowerOfTwo.numel) :
    mle (toField F tensor.padNextPowerOfTwo.data) point =
      Multilinear.eval (fun i => ((paddedEntry tensor.shape tensor.data i : Int) : F)) point := by
  apply Multilinear.eval_congr
  intro i hi
  rw [toField, Tensor.padNextPowerOfTwo]
  dsimp only
  rw [List.map_map, List.getD_eq_getElem?_getD, List.getElem?_map, List.getElem?_range (h ▸ hi)]
  rfl

/-- The polynomial of a padded matrix, from those of its rows. -/
theorem eval_paddedEntry_matrix {rows cols : Nat} {data : List Int} {columnPoint rowPoint : List F}
    (hcols : columnPoint.length = ceilLog2 cols) (hrows : rows ≤ 2 ^ rowPoint.length) :
    Multilinear.eval (fun i => ((paddedEntry [rows, cols] data i : Int) : F)) (columnPoint ++ rowPoint) =
      ∑ j ∈ Finset.range rows, Multilinear.eqWeight rowPoint j * Multilinear.eval
        (fun i => ((paddedEntry [cols] ((data.drop (j * cols)).take cols) i : Int) : F)) columnPoint := by
  have hsize : (Shape.nextPowerOfTwo [cols]).numel = 2 ^ columnPoint.length := by
    rw [Shape.numel_nextPowerOfTwo, hcols]
    simp [Shape.dimVars]
  rw [Multilinear.eval_append_of_lt hrows]
  · apply Finset.sum_congr rfl
    intro j hj
    congr 1
    apply Multilinear.eval_congr
    intro i hi
    have hdiv : (j * 2 ^ columnPoint.length + i) / 2 ^ columnPoint.length = j := by
      rw [Nat.mul_comm, Nat.mul_add_div (Nat.two_pow_pos _), Nat.div_eq_of_lt hi, Nat.add_zero]
    have hmod : (j * 2 ^ columnPoint.length + i) % 2 ^ columnPoint.length = i := by
      rw [Nat.mul_comm, Nat.mul_add_mod, Nat.mod_eq_of_lt hi]
    rw [paddedEntry, hsize, hdiv, hmod, if_pos (Finset.mem_range.mp hj), List.prod_singleton]
  · intro i hi
    rw [paddedEntry, hsize, if_neg (Nat.not_lt.mpr hi), Int.cast_zero]

end Field

end DeepProve
