import DeepProve.Tensor

/-!
# The attention mask

`layers/transformer/attention_mask`: which entries of the matrix of the attention scores are kept. A
token sees the tokens before it, all of them or the last few. The mask is made as a boolean tensor for
the evaluation (of the whole matrix, or of its last row when the rows before it are cached), as tables
of polynomials for the prover, and as closed formulas for the verifier.
-/

namespace DeepProve

/-- Which entries the mask keeps. -/
inductive AttentionSpan where
  /-- All previous tokens. -/
  | full
  /-- The last previous tokens only. -/
  | localWindow (n : Nat)
  deriving DecidableEq

/-- The boolean matrices of the tensor library, which is not part of the repository. -/
structure BoolTensors where
  Mask : Type
  full : Nat → Nat → Bool → Mask
  trilMask : Nat → Nat → Int → Mask
  triuMask : Nat → Nat → Int → Mask
  boolOr : Mask → Mask → Mask
  entry : Mask → Nat → Nat → Bool

/-- What is documented of them: the entries outside of a triangle are `true`. -/
structure BoolTensors.Lawful (B : BoolTensors) : Prop where
  full : ∀ rows columns value, ∀ i < rows, ∀ j < columns,
    B.entry (B.full rows columns value) i j = value
  trilMask : ∀ rows columns offset, ∀ i < rows, ∀ j < columns,
    B.entry (B.trilMask rows columns offset) i j = decide (offset < (j : Int) - i)
  triuMask : ∀ rows columns offset, ∀ i < rows, ∀ j < columns,
    B.entry (B.triuMask rows columns offset) i j = decide ((j : Int) - i < offset)
  boolOr : ∀ a b i j, B.entry (B.boolOr a b) i j = (B.entry a i j || B.entry b i j)

/-! ## `evaluate.rs` -/

section Evaluate

variable (B : BoolTensors)

/-- `caching_case_mask`: a single row. -/
def cachingCaseMask (span : AttentionSpan) (seqLen : Nat) : B.Mask :=
  match span with
  | .full => B.full 1 seqLen false
  | .localWindow n =>
    let offset := seqLen - n
    if offset = 0 then B.full 1 seqLen false else B.triuMask 1 seqLen offset

/-- `non_caching_case_mask`: a square matrix. -/
def nonCachingCaseMask (span : AttentionSpan) (seqLen : Nat) : B.Mask :=
  let plainMask := B.trilMask seqLen seqLen 0
  match span with
  | .full => plainMask
  | .localWindow n =>
    if n ≥ seqLen then plainMask
    else B.boolOr plainMask (B.triuMask seqLen seqLen (1 - (n : Int)))

/-- The mask of `evaluate_internal`, for the last two dimensions of the input. -/
def evaluateMask (span : AttentionSpan) (qLen seqLen : Nat) : B.Mask :=
  let cachingCase := qLen == 1 && decide (seqLen > 1)
  if cachingCase then cachingCaseMask B span seqLen else nonCachingCaseMask B span seqLen

end Evaluate

/-! ## `prove.rs` -/

section Prove

variable {F : Type} [Field F]

/-- The evaluations of a square matrix of booleans, row after row. -/
def boolMleFromFn (seqLen : Nat) (evalsFn : Nat → Nat → Bool) : List F :=
  (List.range seqLen).flatMap fun row =>
    (List.range seqLen).map fun col => if evalsFn row col then 1 else 0

/-- `make_mask_polys`. -/
def makeMaskPolys (span : AttentionSpan) (seqLen : Nat) : List (List F) :=
  let zeroifierMle := boolMleFromFn seqLen fun token other => decide (token ≥ other)
  match span with
  | .localWindow n =>
    if n ≥ seqLen then [zeroifierMle]
    else
      let localMaskMle := boolMleFromFn seqLen fun token other => decide (token < other + n)
      [zeroifierMle, localMaskMle]
  | .full => [zeroifierMle]

/-- `make_row_column_lt_polys`: those of the rows, and those of the columns. -/
def makeRowColumnLtPolys (unpaddedSeqLen : Nat) : List F × List F :=
  let paddedSeqLen := nextPowerOfTwo unpaddedSeqLen
  let row := (List.range paddedSeqLen).map fun rowIndex => if rowIndex < unpaddedSeqLen then 1 else 0
  let rowEvals := (List.replicate paddedSeqLen row).flatten
  let columnEvals := List.replicate (unpaddedSeqLen * paddedSeqLen) 1 ++
    List.replicate ((paddedSeqLen - unpaddedSeqLen) * paddedSeqLen) 0
  (rowEvals, columnEvals)

/-- `fix_mle_rec`, on the coordinates that are left. -/
def fixMleRec (fixRow : Bool) : List F → List F → F → Nat → Nat → List F
  | [], evals, acc, evalIndex, _ => evals.set evalIndex acc
  | c :: rest, evals, acc, evalIndex, numBits =>
    let updateAcc := fun newBit =>
      if fixRow then acc * (1 - newBit - c + 2 * newBit * c) + (1 - newBit) * c
      else acc * (1 - c - newBit + 2 * c * newBit) + (1 - c) * newBit
    let evals := fixMleRec fixRow rest evals (updateAcc 0) evalIndex (numBits + 1)
    fixMleRec fixRow rest evals (updateAcc 1) (evalIndex ||| 1 <<< numBits) (numBits + 1)

/-- `fix_lower_mle_columns`. -/
def fixLowerMleColumns (columnPoint : List F) : List F :=
  fixMleRec false columnPoint (List.replicate (2 ^ columnPoint.length) 0) 1 0 0

/-- The shift matrix with its columns fixed, as `prove_internal` computes it; `evals` are the
    evaluations of the `eq` polynomial. -/
def shiftFixedEvals (evals : List F → List F) (columnPoint : List F) (n : Nat) : Outcome (List F) := do
  let betaVec := evals columnPoint
  let seqLen := 2 ^ columnPoint.length
  let first ← usizeSub n 1
  (List.range' first (seqLen - first)).foldlM (fun (shiftFixedEvals : List F) row => do
      let beta ← unwrap betaVec[row + 1 - n]? "index out of bounds"
      .ok (shiftFixedEvals.modify row (· + beta)))
    (List.replicate seqLen 0)

end Prove

/-! ## `verify.rs` -/

section Verify

variable {F : Type} [Field F]

/-- `evaluate_row_column_lt_polys`. -/
def evaluateRowColumnLtPolys (rowPoint columnPoint : List F) (unpaddedSeqLen : Nat) :
    Outcome (F × F) := do
  let bitLen := ceilLog2 unpaddedSeqLen
  ensure (rowPoint.length == bitLen)
    s!"Row point length {rowPoint.length} does not match unpadded seq len log2 {bitLen}"
  ensure (columnPoint.length == bitLen)
    s!"Column point length {columnPoint.length} does not match unpadded seq len log2 {bitLen}"
  let last ← usizeSub unpaddedSeqLen 1
  let seqLenBits ← bitsOf last bitLen
  .ok (evalZeroifierMle rowPoint seqLenBits, evalZeroifierMle columnPoint seqLenBits)

/-- `eval_shift_matrix`. -/
def evalShiftMatrix (evals : List F → List F) (rowPoint columnPoint : List F) (shift : Nat) :
    Outcome F := do
  let b1 := evals rowPoint
  if b1.length = 2 ^ rowPoint.length then
    ((List.range (2 ^ rowPoint.length)).zip b1).foldlM (fun sum (row, beta) =>
        if row < shift then .ok sum
        else do
          let colLeBits ← bitsOf (row - shift) columnPoint.length
          .ok (sum + beta * identityEval columnPoint colLeBits))
      0
  else
    .error (.panic "assertion `left == right` failed")

end Verify

end DeepProve
