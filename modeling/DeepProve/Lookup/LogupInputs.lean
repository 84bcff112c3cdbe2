import DeepProve.Lookup.Witness

/-!
# The LogUp inputs of a lookup layer

`create_logup_inputs` of `lookup/operation/inputs.rs`, with `compute_extra_lookup_inputs` of
`lookup/operation/variant/proving.rs`: the columns of each chunk are grouped by the table that
they are looked up in. The checks of a normalisation come after all chunks.
-/

namespace DeepProve

/-- An output tensor that is reduced to its unpadded shape. -/
structure UnpaddedTensor where
  unpaddedShape : Shape
  data : List Int
  length_eq : data.length = unpaddedShape.numel

section Columns

variable {α : Type}

/-- Pairs of an input and an output, one after the other. -/
def interleave (inputs outputs : List α) : List α :=
  (inputs.zip outputs).flatMap fun (input, output) => [input, output]

/-- The columns of a chunk, by the kind of table that they are looked up in. -/
structure ChunkColumns (α : Type) where
  shifted : List α
  value : List α
  zeroing : List α

/-- How `create_logup_inputs` sorts the polynomials of a chunk. -/
def sortColumns (chunkingInfo : ChunkingInfo) (inputChunkMles outputChunkMles : List α) :
    Outcome (ChunkColumns α) := do
  let (shifted, rest) ← splitAtMid inputChunkMles chunkingInfo.numberOfShiftedChunks
  let numberZeroChunks := chunkingInfo.numberOfZeroingChunks
  let numberOfValueChunks := chunkingInfo.numberOfValueChunks
  match chunkingInfo.table.numColumns with
  | 1 =>
    -- only the outputs of the value table are committed to
    .ok ⟨shifted, outputChunkMles.take numberOfValueChunks,
      interleave (rest.take numberZeroChunks) (outputChunkMles.drop numberOfValueChunks)⟩
  | 2 => do
    let (valueInputMles, zeroingInputMles) ← splitAtMid rest numberOfValueChunks
    .ok ⟨shifted, interleave valueInputMles (outputChunkMles.take numberOfValueChunks),
      interleave (zeroingInputMles.take numberZeroChunks)
        (outputChunkMles.drop numberOfValueChunks)⟩
  | _ => .error (.err "Value table has unsupported number of columns for LogUp proof")

end Columns

namespace LookupVariant

variable {F : Type} [Field F]

/-- The values of a check, for the rows of one chunk and the padding of the chunk. -/
def checkColumn (offset normConst : Int) (rowValue : List Int → Int) (dimSize : Nat)
    (chunk : List Int) : Outcome (List F) := do
  let len := chunk.length / dimSize
  let diff := nextPowerOfTwo len - len
  let rows ← chunksOf chunk dimSize
  .ok (toField F (rows.map (fun row => offset + normConst - rowValue row) ++
    List.replicate diff offset))

/-- The check of all chunks of the output. -/
def checkInput (offset normConst : Int) (rowValue : List Int → Int) (dimSize : Nat)
    (outputChunks : List (List Int)) (challenges : F × F) : Outcome (LogUpInput F) := do
  let columnEvals ← outputChunks.mapM (checkColumn offset normConst rowValue dimSize)
  LogUpInput.newLookup columnEvals challenges.1 challenges.2 Table.newShiftCheck.numColumns

/-- `(1 << SHIFT_CHECK_TABLE_BIT_SIZE) - 1 - (2 * error_bound)`. -/
def checkOffset (errorBound : Int) : Int := 2 ^ shiftCheckTableBitSize - 1 - 2 * errorBound

/-- `compute_extra_lookup_inputs`. -/
def computeExtraLookupInputs (self : LookupVariant) (numberOfChunks : Nat)
    (output : UnpaddedTensor) (challenges : F × F) : Outcome (List (LogUpInput F)) := do
  let chunkSize ←
    if numberOfChunks = 0 then
      .error (.panic "attempt to divide by zero")
    else
      .ok (output.unpaddedShape.numel / numberOfChunks)
  let dimSize ← output.unpaddedShape.lastDim
  let outputChunks ← chunksOf output.data chunkSize
  match self with
  | softmax normalisedSumValue errorBound => do
    let input ← checkInput (checkOffset errorBound) (normalisedSumValue + errorBound) List.sum
      dimSize outputChunks challenges
    .ok [input]
  | normalisation normalisedMagnitudeValue magnitudeErrorBound normalisedSumValue _ => do
    let sumsq ← checkInput (checkOffset magnitudeErrorBound)
      (normalisedMagnitudeValue + magnitudeErrorBound) (fun row => (row.map fun x => x * x).sum)
      dimSize outputChunks challenges
    match normalisedSumValue with
    | none => .ok [sumsq]
    | some (normSum, sumErrorBound) => do
      let sum ← checkInput (checkOffset sumErrorBound) (normSum + sumErrorBound) List.sum dimSize
        outputChunks challenges
      .ok [sumsq, sum]
  | standard | glu => .ok []

/-- `requires_output`. -/
def requiresOutput : LookupVariant → Bool
  | softmax .. | normalisation .. => true
  | standard | glu => false

end LookupVariant

namespace LookupInputConfig

variable {F : Type} [Field F] (self : LookupInputConfig) (fl : Float32Ops)
  (challengeStorage : ChallengeStorage F)

/-- The input for the columns of one table. -/
def lookupInput (columnEvals : List (List F)) (challenges : F × F) (numColumns : Nat)
    (msg : String) : Outcome (LogUpInput F) :=
  (LogUpInput.newLookup columnEvals challenges.1 challenges.2 numColumns).mapErr fun e =>
    s!"Failed to create LogUpInput for {msg} Inputs: {e}"

/-- The inputs for the zeroing chunks of a chunk. -/
def zeroingInputs (zeroingColumnEvals : List (List F)) : Outcome (List (LogUpInput F)) :=
  let zeroCheckTable := Table.newZeroCheck
  let signedZeroCheckTable := Table.newSignedZeroCheck
  match self.chunkingInfo.numberOfZeroingChunks, self.chunkingInfo.isSigned with
  | 0, _ => .ok []
  | 1, true => do
    let signed ← challengesOf fl challengeStorage signedZeroCheckTable "SignedZeroCheckTable"
    let input ← lookupInput zeroingColumnEvals signed signedZeroCheckTable.numColumns "Signed Zero"
    .ok [input]
  | n + 2, true => do
    let (zeroCheckColumns, signedColumns) ← splitAtMid zeroingColumnEvals (2 * (n + 1))
    let zero ← challengesOf fl challengeStorage zeroCheckTable "ZeroCheckTable"
    let zeroInput ← lookupInput zeroCheckColumns zero zeroCheckTable.numColumns "Zero Check"
    let signed ← challengesOf fl challengeStorage signedZeroCheckTable "SignedZeroCheckTable"
    let signedInput ← lookupInput signedColumns signed signedZeroCheckTable.numColumns "Signed Zero"
    .ok [zeroInput, signedInput]
  | _ + 1, false => do
    let zero ← challengesOf fl challengeStorage zeroCheckTable "ZeroCheckTable"
    let input ← lookupInput zeroingColumnEvals zero zeroCheckTable.numColumns "Zero Check"
    .ok [input]

/-- The inputs of one chunk. -/
def chunkInputs (shift value : F × F) (chunk : List (List F) × List (List F)) :
    Outcome (List (LogUpInput F)) := do
  let (inputChunkMles, outputChunkMles) := chunk
  let columns ← sortColumns self.chunkingInfo inputChunkMles outputChunkMles
  -- the shift check has one column, and no challenge to separate it
  let shiftInput ← lookupInput columns.shifted (shift.1, 1) Table.newShiftCheck.numColumns "Shifted"
  let valueInput ← lookupInput columns.value value self.chunkingInfo.table.numColumns "Value"
  let zeroing ← self.zeroingInputs fl challengeStorage columns.zeroing
  .ok (shiftInput :: valueInput :: zeroing)

/-- The normalisation inputs. -/
def normalisationInputs (output : Option UnpaddedTensor) (shift : F × F) :
    Outcome (List (LogUpInput F)) :=
  match output with
  | some output => self.variant.computeExtraLookupInputs self.numberOfChunks output shift
  | none => .ok []

/-- `create_logup_inputs`. -/
def createLogupInputs (mles : List (List F)) (output : Option UnpaddedTensor) :
    Outcome (List (LogUpInput F)) := do
  let totalInputsPerChunk := self.chunkingInfo.totalInputsPerChunk
  let (allInputMles, allOutputMles) ←
    splitAtMid mles (self.numberOfChunks * totalInputsPerChunk)
  let shift ← challengesOf fl challengeStorage Table.newShiftCheck "ShiftCheckTable"
  let value ← challengesOf fl challengeStorage self.chunkingInfo.table "ValueTable"
  let inputChunks ← chunksOf allInputMles totalInputsPerChunk
  let outputChunks ← chunksOf allOutputMles self.chunkingInfo.totalOutputsPerChunk
  let inputs ← (inputChunks.zip outputChunks).mapM
    (self.chunkInputs fl challengeStorage shift value)
  let normalisation ← self.normalisationInputs output shift
  .ok (inputs.flatten ++ normalisation)

end LookupInputConfig

end DeepProve
