import DeepProve.Shape
import DeepProve.ForStd.TensorPoly

/-!
# The axes of an Einstein summation

`layers/einsum/axis.rs`: the axes of the tensors in an equation such as `A(ijm)@B(imk)->X(ijk)`. An
axis is stacked if it is in both inputs and the output, contracted if it is in both inputs only, and
outer if it is in one input and the output.

The mapping is built from the terms of the equation, each the list of the axes of a tensor.
-/

namespace DeepProve

/-- Whether a tensor has an axis, and where. -/
inductive Dimension where
  | present (pos : Nat)
  | absent
  deriving DecidableEq

inductive AxisType where
  /-- In both inputs and the output. -/
  | stacked
  /-- In both inputs, and summed over. -/
  | contracted
  /-- In one input and the output. -/
  | outer
  deriving DecidableEq

structure Axis where
  lhsInput : Dimension
  rhsInputs : List Dimension
  outputs : List Dimension
  biases : List Dimension
  repr : Char
  axisType : AxisType
  deriving DecidableEq

/-- All input dimensions. -/
def Axis.inputs (self : Axis) : List Dimension := self.lhsInput :: self.rhsInputs

structure AxesMapping where
  inputCount : Nat
  outputCount : Nat
  biasCount : Nat
  axes : List Axis

/-- Where the axis is in a term. -/
def Dimension.inTerm (dims : List Char) (repr : Char) : Dimension :=
  match dims.idxOf? repr with
  | some pos => .present pos
  | none => .absent

namespace Dimension

def isPresent : Dimension → Bool
  | present _ => true
  | absent => false

end Dimension

/-- `resize` up to a position, and set the entry there. -/
def resizeSet {α : Type} (xs : List α) (default : α) (pos : Nat) (a : α) : List α :=
  (xs ++ List.replicate (pos + 1 - xs.length) default).set pos a

namespace Axis

/-- The type of an axis that is present or not in the left input, the right inputs and the
    outputs. -/
def typeOf (presentLhs presentRhs presentOutput : Bool) : Outcome AxisType :=
  match presentLhs, presentRhs, presentOutput with
  | true, true, true => .ok .stacked
  | true, true, false => .ok .contracted
  | true, false, true => .ok .outer
  | false, true, true => .ok .outer
  | _, _, _ => .error (.err "Axis must be present in at least one input and the output")

/-- Set the place in one of the right inputs. -/
def setRhsInput (repr : Char) (rhsInputs : List Dimension) (part : List Char × Nat) :
    Outcome (List Dimension) :=
  match Dimension.inTerm part.1 repr with
  | .present pos =>
    if part.2 < rhsInputs.length then
      .ok (rhsInputs.set part.2 (.present pos))
    else
      .error (.panic "index out of bounds")
  | .absent => .ok rhsInputs

/-- The axis of the given name. -/
def ofTerms (inputParts outputDims biasDims : List (List Char)) (repr : Char) : Outcome Axis := do
  let lhsInput := Dimension.inTerm (inputParts.headD []) repr
  let rhsInputs ← inputParts.tail.zipIdx.foldlM (setRhsInput repr)
    (List.replicate outputDims.length Dimension.absent)
  let outputs := outputDims.map (Dimension.inTerm · repr)
  let axisType ← typeOf lhsInput.isPresent (inputParts.tail.any (·.contains repr))
    (outputDims.any (·.contains repr))
  .ok {
    lhsInput := lhsInput
    rhsInputs := rhsInputs
    outputs := outputs
    biases := biasDims.map (Dimension.inTerm · repr)
    repr := repr
    axisType := axisType }

end Axis

namespace AxesMapping

/-- Where an axis is in the inputs. -/
def occurrences (axis : Axis) : List (Nat × Nat × Char) :=
  axis.inputs.zipIdx.filterMap fun (dim, i) =>
    match dim with
    | .present pos => some (i, pos, axis.repr)
    | .absent => none

/-- The order of tuples. -/
def occursBefore (a b : Nat × Nat × Char) : Bool :=
  a.1 < b.1 || a.1 == b.1 && (a.2.1 < b.2.1 || a.2.1 == b.2.1 && a.2.2 ≤ b.2.2)

/-- `sort`: by the first occurrence in the inputs. -/
def sort (axes : List Axis) : List Axis :=
  let order := (axes.flatMap occurrences).mergeSort occursBefore
  let key := fun (axis : Axis) => order.findIdx fun tuple => tuple.2.2 == axis.repr
  axes.mergeSort fun a b => key a ≤ key b

/-- The axes of some names, in the order of the names until they are sorted. -/
def fromTermsIn (names : List Char) (inputParts outputDims biasDims : List (List Char)) :
    Outcome AxesMapping := do
  let axes ← names.mapM (Axis.ofTerms inputParts outputDims biasDims)
  .ok {
    inputCount := inputParts.length
    outputCount := outputDims.length
    biasCount := biasDims.length
    axes := sort axes }

/-- `from_string`, once the terms are parsed. The code walks over a hash set of the names; the axes
    are sorted afterwards. -/
def fromTerms (inputParts outputDims biasDims : List (List Char)) : Outcome AxesMapping := do
  ensure (decide (inputParts.length ≥ 2)) "Invalid equantion, it must specify at least two inputs"
  let uniqueChars := (inputParts ++ outputDims).flatten.dedup
  let axes ← uniqueChars.mapM (Axis.ofTerms inputParts outputDims biasDims)
  .ok {
    inputCount := inputParts.length
    outputCount := outputDims.length
    biasCount := biasDims.length
    axes := sort axes }

variable (self : AxesMapping)

/-- The size of an axis in one of the inputs. -/
def inputSize (inputShapes : List Shape) (axis : Axis) (inputId pos : Nat) : Outcome Nat := do
  let shape ← unwrap inputShapes[inputId]? "index out of bounds"
  okOr shape[pos]? s!"Input tensor {inputId} does not have dimension {pos} for axis {axis.repr}"

/-- Set the size of an axis in one of the outputs. -/
def setOutputSize (axis : Axis) (inputId dimSize : Nat) (outputShapes : List Shape)
    (output : Dimension × Nat) : Outcome (List Shape) :=
  match output with
  | (.absent, _) => .ok outputShapes
  | (.present outPos, outputId) => do
    let shape ← unwrap outputShapes[outputId]? "index out of bounds"
    let shape := shape ++ List.replicate (outPos + 1 - shape.length) 0
    let outDimSize := shape.getD outPos 0
    if outDimSize = 0 then
      .ok (outputShapes.set outputId (shape.set outPos dimSize))
    else do
      ensure (outDimSize == dimSize)
        s!"Mismatched dimension sizes for axis {axis.repr}: input tensor {inputId} has size {dimSize}, output tensor {outputId} has size {outDimSize}"
      .ok (outputShapes.set outputId shape)

/-- Set the size of an axis of one of the inputs in all outputs. -/
def setOutputSizes (inputShapes : List Shape) (axis : Axis) (outputShapes : List Shape)
    (input : Dimension × Nat) : Outcome (List Shape) :=
  match input with
  | (.absent, _) => .ok outputShapes
  | (.present pos, inputId) => do
    let dimSize ← inputSize inputShapes axis inputId pos
    axis.outputs.zipIdx.foldlM (setOutputSize axis inputId dimSize) outputShapes

/-- `output_shapes`. -/
def outputShapes (inputShapes : List Shape) : Outcome (List Shape) := do
  ensure (inputShapes.length == self.inputCount)
    s!"Mismatched number of input shapes, expected {self.inputCount}, got {inputShapes.length}"
  self.axes.foldlM (fun outputShapes axis =>
      axis.inputs.zipIdx.foldlM (setOutputSizes inputShapes axis) outputShapes)
    (List.replicate self.outputCount [])

/-- The sizes of the stacked, outer and contracted axes. -/
structure AxesSizes where
  stacked : Nat
  outer : Nat
  contracted : Nat
  deriving DecidableEq

/-- The first input that has the axis. -/
def firstInput (axis : Axis) : Option (Nat × Nat) :=
  axis.inputs.zipIdx.findSome? fun (dim, inputId) =>
    match dim with
    | .present pos => some (inputId, pos)
    | .absent => none

/-- `axes_sizes`. -/
def axesSizes (unpaddedInputShapes : List Shape) : Outcome AxesSizes := do
  ensure (unpaddedInputShapes.length == self.inputCount)
    s!"Mismatched number of input shapes, expected {self.inputCount}, got {unpaddedInputShapes.length}"
  self.axes.foldlM (fun (sizes : AxesSizes) axis => do
      let (inputId, pos) ← okOr (firstInput axis) s!"No present dimension found for axis {axis.repr}"
      let dimSize ← inputSize unpaddedInputShapes axis inputId pos
      match axis.axisType with
      | .stacked => .ok { sizes with stacked := sizes.stacked * dimSize }
      | .outer => .ok { sizes with outer := sizes.outer * dimSize }
      | .contracted => .ok { sizes with contracted := sizes.contracted * dimSize })
    ⟨1, 1, 1⟩

end AxesMapping

/-! ## The coordinates of the axes -/

/-- What is known of an axis of an input. -/
inductive FixedAxis (T : Type) where
  | stacked (point : T)
  | outer (point : T)
  | contracted

def FixedAxis.new {T : Type} (point : T) : AxisType → FixedAxis T
  | .stacked => .stacked point
  | .outer => .outer point
  | .contracted => .contracted

/-- The axes of the inputs, for each output. -/
structure FixedAxesMapping (F : Type) where
  lhsFixes : List (List (FixedAxis (List F)))
  rhsFixes : List (List (FixedAxis (List F)))

namespace AxesMapping

variable (self : AxesMapping) {F : Type}

/-- Set an axis in the fixes of one output. -/
def setFix (fixes : List (List (FixedAxis (List F)))) (outputId pos : Nat)
    (fix : FixedAxis (List F)) : List (List (FixedAxis (List F))) :=
  fixes.modify outputId fun axes => resizeSet axes .contracted pos fix

/-- One axis of one output. -/
def sortAxis (claimPoints : List (List (List F))) (axis : Axis) (fixed : FixedAxesMapping F)
    (output : Dimension × Nat) : Outcome (FixedAxesMapping F) :=
  let (outDim, outputId) := output
  match outDim with
  | .present outPos => do
    let point ← unwrap claimPoints[outputId]? "index out of bounds"
    let claimPoint ← unwrap point[outPos]? "index out of bounds"
    let fix := FixedAxis.new claimPoint axis.axisType
    let (fixed, foundInLhs) := match axis.lhsInput with
      | .present lhsPos => ({ fixed with lhsFixes := setFix fixed.lhsFixes outputId lhsPos fix }, true)
      | .absent => (fixed, false)
    let (fixed, foundInRhs) := match axis.rhsInputs[outputId]? with
      | some (.present rhsPos) =>
        ({ fixed with rhsFixes := setFix fixed.rhsFixes outputId rhsPos fix }, true)
      | _ => (fixed, false)
    ensure (foundInLhs || foundInRhs)
      s!"Axis {axis.repr} in output tensor {outputId} not found in any input tensor"
    .ok fixed
  | .absent =>
    match axis.axisType with
    | .contracted =>
      match axis.lhsInput, axis.rhsInputs[outputId]? with
      | .present lhsPos, some (.present rhsPos) =>
        .ok {
          lhsFixes := setFix fixed.lhsFixes outputId lhsPos .contracted
          rhsFixes := setFix fixed.rhsFixes outputId rhsPos .contracted }
      | _, _ => .error (.err
          s!"Contracted axis {axis.repr} not present in both LHS and RHS tensors for output tensor {outputId}")
    | _ => .ok fixed

/-- `sort_variables_to_axes`. -/
def sortVariablesToAxes (claimPoints : List (List (List F))) : Outcome (FixedAxesMapping F) := do
  ensure (claimPoints.length == self.outputCount)
    s!"Mismatched number of output points, expected {self.outputCount}, got {claimPoints.length}"
  self.axes.foldlM (fun fixed axis =>
      axis.outputs.zipIdx.foldlM (sortAxis claimPoints axis) fixed)
    ⟨List.replicate self.outputCount [], List.replicate self.outputCount []⟩

/-- `bias_evaluation_point`: the coordinates of the axes of the bias. -/
def biasEvaluationPoint (outputId biasId : Nat) (claimPoint : List (List F)) :
    Outcome (List F) := do
  ensure (decide (outputId < self.outputCount))
    s!"Invalid output id {outputId}, only {self.outputCount} outputs in mapping"
  ensure (decide (biasId < self.biasCount))
    s!"Invalid bias id {biasId}, only {self.biasCount} biases in mapping"
  let pointSlices ← self.axes.foldlM
    (fun (slices : List (Option (List F))) axis => do
      let outputDim ← unwrap axis.outputs[outputId]? "index out of bounds"
      let biasDim ← unwrap axis.biases[biasId]? "index out of bounds"
      match outputDim, biasDim with
      | .present outputPos, .present biasPos =>
        let claimSlice ← unwrap claimPoint[outputPos]? "index out of bounds"
        .ok (resizeSet slices none biasPos (some claimSlice))
      | .absent, .present _ => .error (.err
          s!"Bias tensor {biasId} has an axis {axis.repr} that is not present in output tensor {outputId}")
      | _, _ => .ok slices)
    []
  pointSlices.reverse.foldlM (fun (point : List F) slice => do
      let slice ← okOr slice
        s!"Bias tensor {biasId} does not have all its axes present in output tensor {outputId}"
      .ok (point ++ slice))
    []

/-- `compute_bias_evaluation`: the value of the bias in the output, and the claim about the bias. -/
def computeBiasEvaluation [CommRing F] (outputId biasId : Nat) (claimPoint : List (List F))
    (biasEval : F) (outputShape : Shape) : Outcome (F × Claim F) := do
  let (eval, claimSlices) ← self.axes.foldlM
    (fun ((eval, slices) : F × List (Option (List F))) axis => do
      let outputDim ← unwrap axis.outputs[outputId]? "index out of bounds"
      let biasDim ← unwrap axis.biases[biasId]? "index out of bounds"
      match outputDim, biasDim with
      | .present outputPos, .absent =>
        let claimSlice ← unwrap claimPoint[outputPos]? "index out of bounds"
        let dimSize ← unwrap outputShape[outputPos]? "index out of bounds"
        let last ← usizeSub dimSize 1
        let dimSizeBits ← bitsOf last claimSlice.length
        .ok (eval * evalZeroifierMle claimSlice dimSizeBits, slices)
      | .present outputPos, .present biasPos =>
        let claimSlice ← unwrap claimPoint[outputPos]? "index out of bounds"
        .ok (eval, resizeSet slices none biasPos (some claimSlice))
      | _, _ => .ok (eval, slices))
    (biasEval, [])
  let point ← claimSlices.reverse.foldlM (fun (point : List F) slice => do
      let slice ← okOr slice
        s!"Bias tensor {biasId} does not have all its axes present in output tensor {outputId}"
      .ok (point ++ slice))
    []
  .ok (eval, ⟨point, biasEval⟩)

end AxesMapping

namespace FixedAxesMapping

variable {F : Type} [CommRing F]

/-- The coefficients of one output; `evals` are the evaluations of the `eq` polynomial. -/
def coefficients (evals : List F → List F) (fixedAxes : List (FixedAxis (List F)))
    (unpaddedShape : Shape) : Outcome (List F) :=
  (fixedAxes.zip unpaddedShape).reverse.foldlM (fun (acc : List F) (axis, size) =>
      match axis with
      | .stacked point => do
        let betaEvals ← sliceTo (evals point) size
        .ok (betaEvals.flatMap fun b => acc.map (· * b))
      | _ => .ok acc)
    [1]

/-- `stacking_coefficients`. -/
def stackingCoefficients (self : FixedAxesMapping F) (evals : List F → List F)
    (unpaddedShape : Shape) : Outcome (List (List F)) :=
  self.lhsFixes.mapM fun fixedAxes => coefficients evals fixedAxes unpaddedShape

end FixedAxesMapping

/-- `reconstruct_full_point`: the coordinates of the contracted axes are those of the sumcheck. -/
def reconstructFullPoint {F : Type} (fixedAxes : List (FixedAxis (List F)))
    (sumcheckPoint : List F) (inputShape : Shape) : Outcome (List F) := do
  let (point, _) ← (fixedAxes.zip inputShape).reverse.foldlM
    (fun ((point, skip) : List F × Nat) (axis, inputDim) =>
      match axis with
      | .outer slice => .ok (point ++ slice, skip)
      | .stacked slice => .ok (point ++ slice, skip)
      | .contracted => do
        let dimLog := ceilLog2 inputDim
        let upTo ← sliceTo sumcheckPoint (skip + dimLog)
        .ok (point ++ upTo.drop skip, skip + dimLog))
    ([], 0)
  .ok point

end DeepProve
