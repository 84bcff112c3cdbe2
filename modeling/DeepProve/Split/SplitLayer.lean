import DeepProve.Shape

/-!
# Split layers

`SplitLayer` of `layers/split.rs`: the inputs are split over their first dimension, into chunks of a
power of two of rows.
-/

namespace DeepProve

variable {T : Type}

/-- `SplitLayer`. -/
structure SplitLayer where
  unpaddedInputShapes : List Shape
  numChunks : List Nat

namespace SplitLayer

variable (self : SplitLayer)

/-- `evaluate`, where `split` splits one input. -/
def evaluate (split : Nat → T → Outcome (List T)) (inputs : List T) : Outcome (List T) := do
  let outputs ← (inputs.zip self.numChunks).mapM fun (input, numChunks) => split numChunks input
  .ok outputs.flatten

/-- `check_is_splittable`. -/
def checkIsSplittable (unpaddedInputShapes : List Shape) : Outcome Unit := do
  ensure (unpaddedInputShapes.length == self.numChunks.length)
    "Condition failed: unpadded_input_shapes.len() == self.num_chunks.len()"
  (unpaddedInputShapes.zip self.numChunks).forM fun (shape, numChunks) => do
    let dim ← unwrap shape[0]? "index out of bounds"
    let chunkSize := nextPowerOfTwo dim / nextPowerOfTwo numChunks
    ensure (decide (dim ≤ chunkSize * numChunks))
      s!"Too few number of chunks ({numChunks}) for shape {shape}"

/-- The shapes of the chunks of one input. -/
def chunkShapes (shape : Shape) (numChunks : Nat) : Outcome (List Shape) := do
  let dim ← unwrap shape[0]? "index out of bounds"
  let chunkSize := nextPowerOfTwo dim / nextPowerOfTwo numChunks
  if numChunks = 0 then .error (.panic "attempt to subtract with overflow")
  else if chunkSize = 0 then
    .error (.panic "attempt to calculate the remainder with a divisor of zero")
  else
    let lastSize := if dim % chunkSize = 0 then chunkSize else dim % chunkSize
    .ok (List.replicate (numChunks - 1) (chunkSize :: shape.tail) ++ [lastSize :: shape.tail])

/-- `unpadded_output_shapes`. -/
def unpaddedOutputShapes (unpaddedInputShapes : List Shape) : Outcome (List Shape) := do
  self.checkIsSplittable unpaddedInputShapes
  let shapes ← (unpaddedInputShapes.zip self.numChunks).mapM fun (shape, numChunks) =>
    chunkShapes shape numChunks
  .ok shapes.flatten

end SplitLayer

end DeepProve
