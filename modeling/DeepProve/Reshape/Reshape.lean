import DeepProve.Tensor

/-!
# Reshape and flatten

`layers/reshape.rs` and `layers/flatten.rs`: the layers that are not proven. They give the entries of a
tensor, row after row, another shape. A layer is padded with the model, and says which shapes its
outputs have without and with padding; it is evaluated on tensors without padding.
-/

namespace DeepProve

inductive PaddingMode where
  | noPadding
  | padding
  deriving DecidableEq, Repr

/-! ## Tensors of a backend -/

/-- `WrappedTensor`. -/
structure WrappedTensor (α : Type) extends Tensor α where
  rank : 1 ≤ shape.rank ∧ shape.rank ≤ 4
  length : data.length = shape.numel

namespace WrappedTensor

section Reshape

variable {α : Type} (tensor : WrappedTensor α)

/-- `is_padded`. -/
def isPadded : Bool := tensor.unpaddedShape != tensor.shape

/-- `next`, which is expected to be there. -/
def nextDim (dims : List Nat) (msg : String) : Outcome (Nat × List Nat) :=
  match dims with
  | dim :: dims => .ok (dim, dims)
  | [] => .error (.panic msg)

/-- `while *new != curr`. -/
def mergeDims (new : Nat) : List Nat → List Nat → Nat → Nat → Outcome (Nat × List Nat × List Nat)
  | dim :: dims, unpaddedDim :: unpaddedDims, curr, unpadded =>
    if new = curr then .ok (unpadded, dim :: dims, unpaddedDim :: unpaddedDims)
    else mergeDims new dims unpaddedDims (curr * dim) (unpadded * unpaddedDim)
  | [], unpaddedDims, curr, unpadded =>
    if new = curr then .ok (unpadded, [], unpaddedDims)
    else .error (.panic "Current shape rank is at least equal to new")
  | dim :: dims, [], curr, unpadded =>
    if new = curr then .ok (unpadded, dim :: dims, [])
    else .error (.panic "Current unpadded shape rank is at least equal to new")

/-- One dimension of the new shape. -/
def unpaddedDim (state : List Nat × List Nat × List Nat) (new : Nat) :
    Outcome (List Nat × List Nat × List Nat) := do
  let (dims, unpaddedDims, newUnpadded) := state
  let (curr, dims) ← nextDim dims "Current shape rank is at least equal to new"
  let (unpadded, unpaddedDims) ←
    nextDim unpaddedDims "Current unpadded shape rank is at least equal to new"
  let (unpadded, dims, unpaddedDims) ← mergeDims new dims unpaddedDims curr unpadded
  .ok (dims, unpaddedDims, newUnpadded ++ [unpadded])

def debugShape (shape : Shape) : String := s!"Shape \x7b dims: {shape} \x7d"

/-- `new_unpadded`. -/
def newUnpadded (newShape : Shape) : Outcome Shape :=
  if !tensor.isPadded then
    .ok newShape
  else do
    ensure (decide (newShape.rank ≤ tensor.unpaddedShape.rank))
      s!"Increasing the number of dimensions is not supported. shape: {debugShape tensor.shape} unppaded_shape: {debugShape tensor.unpaddedShape} new_shape: {debugShape newShape}"
    let (_, _, newUnpadded) ← newShape.foldlM unpaddedDim (tensor.shape, tensor.unpaddedShape, [])
    .ok newUnpadded

/-- `reshape`. -/
def reshape (newShape : Shape) : Outcome (WrappedTensor α) := do
  let newUnpadded ← tensor.newUnpadded newShape
  if hrank : 1 ≤ newShape.rank ∧ newShape.rank ≤ 4 then
    if hnumel : newShape.numel = tensor.shape.numel then
      .ok ⟨⟨tensor.data, newShape, newUnpadded⟩, hrank, tensor.length.trans hnumel.symm⟩
    else
      .error (.panic "The given shape doesn't have the same number of elements as the current shape")
  else
    .error (.err s!"Unexpected tensor rank: {newShape.rank}.")

/-- `flatten_1d`. -/
def flatten1d : WrappedTensor α where
  data := tensor.data
  shape := [tensor.shape.numel]
  unpaddedShape := [tensor.unpaddedShape.numel]
  rank := ⟨Nat.le_refl 1, Nat.le_of_ble_eq_true rfl⟩
  length := by simpa [Shape.numel] using tensor.length

end Reshape

/-- `pad_next_power_of_two`. -/
def padNextPowerOfTwo (tensor : WrappedTensor Int) : WrappedTensor Int where
  toTensor := tensor.toTensor.padNextPowerOfTwo
  rank := by simpa [Tensor.padNextPowerOfTwo, Shape.rank, Shape.nextPowerOfTwo] using tensor.rank
  length := by simp [Tensor.padNextPowerOfTwo]

end WrappedTensor

/-! ## Reshape -/

/-- `Subspace`. -/
structure Subspace where
  /-- The first index that is removed, and the first one after these that is not. -/
  toRemove : Nat × Nat
  toAdd : List Nat
  unpaddedToAdd : List Nat
  deriving DecidableEq, Repr

/-- `Reshape`. -/
inductive Reshape where
  /-- The new shapes, and these without padding. -/
  | full (newDim unpaddedNewDim : List Shape)
  | subspace (inner : Subspace)
  /-- Adds a one at the index. -/
  | squeeze (index : Nat)
  deriving DecidableEq, Repr

/-- `splice`. -/
def Shape.splice (self : Shape) (range : Nat × Nat) (replaceWith : List Nat) : Outcome Shape :=
  if range.2 < range.1 then
    .error (.panic s!"slice index starts at {range.1} but ends at {range.2}")
  else if self.rank < range.2 then
    .error (.panic s!"range end index {range.2} out of range for slice of length {self.rank}")
  else
    .ok (self.take range.1 ++ replaceWith ++ self.drop range.2)

namespace Reshape

/-- `new_fixed`. -/
def newFixed (newDim : List Shape) : Reshape := .full newDim newDim

/-- `to_unpadded_reshape`. -/
def toUnpaddedReshape : Reshape → Reshape
  | .full _ unpaddedNewDim => .full unpaddedNewDim unpaddedNewDim
  | .subspace inner => .subspace { inner with toAdd := inner.unpaddedToAdd }
  | .squeeze index => .squeeze index

/-- `to_padded_reshape`. -/
def toPaddedReshape : Reshape → Reshape
  | .full actualShapes unpaddedShapes => .full (actualShapes.map Shape.nextPowerOfTwo) unpaddedShapes
  | .subspace inner => .subspace { inner with toAdd := Shape.nextPowerOfTwo inner.toAdd }
  | .squeeze index => .squeeze index

variable (self : Reshape)

/-- `new_dims`. -/
def newDims (inputShapes : List Shape) : Outcome (List Shape) :=
  match self with
  | .squeeze index => do
    let shape ← unwrap inputShapes[0]? "index out of bounds"
    ensure (decide (index < shape.rank)) "index out of bounds"
    .ok [shape.insertIdx index 1]
  | .full newDim _ => .ok newDim
  | .subspace inner => inputShapes.mapM fun shape => shape.splice inner.toRemove inner.toAdd

/-- `internal_output`. -/
def internalOutput (inputShapes : List Shape) : Outcome (List Shape) := do
  let newDims ← self.newDims inputShapes
  ensure (newDims.length == inputShapes.length) "new_dims.len() == input_shapes.len()"
  ensure ((newDims.zip inputShapes).all fun (newDim, inputShape) => newDim.numel == inputShape.numel)
    "Condition failed: `new_dims.iter().zip(input_shapes.iter()).all(|(new_dim, input_shape)| new_dim.product() == input_shape.product())`"
  .ok newDims

/-- `evaluate_layer`. -/
def evaluateLayer {α : Type} (inputs : List (WrappedTensor α)) : Outcome (List (WrappedTensor α)) := do
  let outputShapes ← self.internalOutput (inputs.map fun input => input.shape)
  (outputShapes.zip inputs).mapM fun (shape, input) => input.reshape shape

/-- `output_shapes`. -/
def outputShapes (inputShapes : List Shape) (paddingMode : PaddingMode) : Outcome (List Shape) :=
  let reshape := match paddingMode with
    | .noPadding => self.toUnpaddedReshape
    | .padding => self.toPaddedReshape
  match reshape.internalOutput inputShapes with
  | .error (.err e) => .error (.panic s!"invalid reshape parameters: {e}")
  | result => result

end Reshape

/-! ## Flatten -/

/-- `Flatten`. -/
structure Flatten where
  padded : Bool
  deriving DecidableEq, Repr

namespace Flatten

variable (self : Flatten)

/-- `output_shapes`. -/
def outputShapes (inputShapes : List Shape) (paddingMode : PaddingMode) : Outcome (List Shape) :=
  match self.padded, paddingMode with
  | true, .noPadding => .ok (inputShapes.map fun s => [s.nextPowerOfTwo.numel])
  | _, _ => .ok (inputShapes.map fun s => [s.numel])

/-- `evaluate` of integers. The input is padded first. -/
def evaluate (_ : Flatten) (inputs : List (WrappedTensor Int)) : Outcome (List (WrappedTensor Int)) := do
  ensure (inputs.length == 1) "Found more than 1 input when evaluating reshape layer"
  let input ← unwrap inputs[0]? "index out of bounds"
  let out := input.padNextPowerOfTwo.flatten1d
  .ok [{ out with unpaddedShape := out.shape }]

end Flatten

/-! ## Padding the model -/

end DeepProve
