import DeepProve.Lookup.Table

/-!
# Decomposition of lookup inputs

`lookup/operation/decomposer.rs`: a value is cut into chunks that are small enough to be
looked up. The lowest bits are shifted out, the next ones are looked up in the value
table, and the highest ones decide whether the output has to be clamped. Values of both
signs are first made non-negative by an offset.

The addition of the offset is the only one that can leave the range of `i64`; there the
model wraps as the code does. A mask and a right shift of an `i64` are the remainder and
the quotient by a power of two, also of a negative number.
-/

namespace DeepProve

/-- `SHIFT_CHECK_TABLE_BIT_SIZE`. -/
abbrev shiftCheckTableBitSize : Nat := 16

/-- `ZERO_CHECK_TABLE_BIT_SIZE`. -/
abbrev zeroCheckTableBitSize : Nat := 16

/-- The `i64` that an integer wraps to. -/
def wrapI64 (x : Int) : Int := x.bmod (2 ^ 64)

/-- `usize::div_ceil`. -/
def divCeil (a b : Nat) : Nat := (a + b - 1) / b

structure ChunkingInfo where
  valueChunkSize : Nat
  numberOfValueChunks : Nat
  rightShift : Nat
  offset : Int
  valueChunkOffset : Int
  numberOfShiftedChunks : Nat
  numberOfZeroingChunks : Nat
  isSigned : Bool
  shiftedChunkMultiplier : Int
  topZeroingChunkOffset : Int
  table : Table
  deriving DecidableEq, Repr

/-- The chunks of a list of values: for each chunk the list of its values. -/
structure ChunkedInput where
  shiftedChunks : List (List Int)
  valueChunks : List (List Int)
  zeroingChunks : List (List Int)
  deriving DecidableEq, Repr

structure ChunkedOutput where
  valueChunkOutputs : List (List Int)
  zeroingChunkOutputs : List (List Int)
  deriving DecidableEq, Repr

/-- A loop over chunks: each takes the lowest bits of the remaining value. -/
def takeChunks (width : Nat → Nat) (store : Nat → Int → Int) (count : Nat)
    (remainingValue : Int) : List Int × Int :=
  (List.range count).foldl (fun (chunks, remainingValue) i =>
    (chunks ++ [store i (remainingValue % 2 ^ width i)], remainingValue / 2 ^ width i))
    ([], remainingValue)

/-- Every chunk of one more value is pushed to its storage. -/
def pushChunks (storage : List (List Int)) (chunks : List Int) : List (List Int) :=
  List.zipWith (fun chunkStorage chunk => chunkStorage ++ [chunk]) storage chunks

namespace ChunkingInfo

section New

variable (rightShift : Nat) (table : Table) (maxBitSize numberOfValueChunks : Nat)

/-- `number_of_zeroing_chunks`. -/
def zeroingChunksFor : Nat :=
  divCeil (maxBitSize - (rightShift + table.tableBitSize * numberOfValueChunks))
    zeroCheckTableBitSize

/-- `combined_value_offset << right_shift`. -/
def shiftedValueOffset : Int :=
  2 ^ (table.tableBitSize * numberOfValueChunks - 1) * 2 ^ rightShift

/-- `offset`. -/
def offsetFor : Int :=
  match table.tableSign with
  | .mixed =>
    max (2 ^ (maxBitSize - 1)) (shiftedValueOffset rightShift table numberOfValueChunks) +
      if 0 < zeroingChunksFor rightShift table maxBitSize numberOfValueChunks then
        shiftedValueOffset rightShift table numberOfValueChunks
      else
        0
  | .positive | .negative => 0

/-- `ChunkingInfo::new`. -/
def new : Outcome ChunkingInfo := do
  ensure (decide (0 < rightShift))
    s!"Right shift must be greater than zero to decompose value, got {rightShift}"
  ensure (numberOfValueChunks == 1 || table.operation == .requantise)
    s!"Multiple value chunks are currently only supported for Requantisation tables, got {numberOfValueChunks} value chunks and table type {table.operation.debug}"
  let numberOfZeroingChunks := zeroingChunksFor rightShift table maxBitSize numberOfValueChunks
  let offset := offsetFor rightShift table maxBitSize numberOfValueChunks
  .ok {
    valueChunkSize := table.tableBitSize
    numberOfValueChunks
    rightShift
    offset
    valueChunkOffset :=
      match table.tableSign with
      | .mixed => 2 ^ (table.tableBitSize - 1)
      | .positive | .negative => 0
    numberOfShiftedChunks := divCeil rightShift shiftCheckTableBitSize
    numberOfZeroingChunks
    isSigned := table.tableSign == .mixed
    shiftedChunkMultiplier :=
      if rightShift % shiftCheckTableBitSize ≠ 0 then
        2 ^ (shiftCheckTableBitSize - rightShift % shiftCheckTableBitSize)
      else
        1
    topZeroingChunkOffset :=
      if 0 < numberOfZeroingChunks ∧ table.tableSign = .mixed then
        offset / 2 ^ (rightShift + table.tableBitSize * numberOfValueChunks +
          (numberOfZeroingChunks - 1) * zeroCheckTableBitSize)
      else
        0
    table }

end New

section Decompose

variable (self : ChunkingInfo)

/-- The offset makes the value non-negative. -/
def offsetValue (value : Int) : Int :=
  match self.table.tableSign with
  | .mixed => wrapI64 (value + self.offset)
  | .positive => value
  | .negative => -value

/-- A chunk with all its bits, or the last one of a shift that is no multiple of the bits
    of the table. -/
def isFullShiftedChunk (i : Nat) : Prop :=
  i ≠ self.numberOfShiftedChunks - 1 ∨ self.rightShift % shiftCheckTableBitSize = 0

instance (i : Nat) : Decidable (self.isFullShiftedChunk i) :=
  inferInstanceAs (Decidable (_ ∨ _))

def shiftedChunkSize (i : Nat) : Nat :=
  if self.isFullShiftedChunk i then
    shiftCheckTableBitSize
  else
    self.rightShift % shiftCheckTableBitSize

def storeShiftedChunk (i : Nat) (chunk : Int) : Int :=
  if self.isFullShiftedChunk i then chunk else chunk * self.shiftedChunkMultiplier

def storeValueChunk (valueChunk : Int) : Int :=
  match self.table.tableSign with
  | .mixed => valueChunk - self.valueChunkOffset
  | .positive => valueChunk
  | .negative => -valueChunk

/-- A zeroing chunk that no offset is taken off. -/
def isPlainZeroingChunk (i : Nat) : Prop :=
  i ≠ self.numberOfZeroingChunks - 1 ∨ self.isSigned = false

instance (i : Nat) : Decidable (self.isPlainZeroingChunk i) :=
  inferInstanceAs (Decidable (_ ∨ _))

def storeZeroingChunk (i : Nat) (chunk : Int) : Int :=
  if self.isPlainZeroingChunk i then chunk else chunk - self.topZeroingChunkOffset

/-- The chunks of one value: the shifted ones, the value chunks and the zeroing chunks. -/
def decomposeValue (value : Int) : List Int × List Int × List Int :=
  let (shifted, remainingValue) := takeChunks self.shiftedChunkSize self.storeShiftedChunk
    self.numberOfShiftedChunks (self.offsetValue value)
  let (values, remainingValue) := takeChunks (fun _ => self.valueChunkSize)
    (fun _ => self.storeValueChunk) self.numberOfValueChunks remainingValue
  let (zeroing, _) := takeChunks (fun _ => zeroCheckTableBitSize) self.storeZeroingChunk
    self.numberOfZeroingChunks remainingValue
  (shifted, values, zeroing)

/-- `decompose_input`. -/
def decomposeInput (input : List Int) : ChunkedInput :=
  input.foldl (fun acc value =>
    let (shifted, values, zeroing) := self.decomposeValue value
    ⟨pushChunks acc.shiftedChunks shifted, pushChunks acc.valueChunks values,
      pushChunks acc.zeroingChunks zeroing⟩)
    ⟨List.replicate self.numberOfShiftedChunks [], List.replicate self.numberOfValueChunks [],
      List.replicate self.numberOfZeroingChunks []⟩

/-- The lookups of one chunk. -/
def chunkOutput (fl : Float32Ops) (table : Table) (chunk : List Int) :
    Outcome (List Int) :=
  chunk.mapM (table.lookup fl)

/-- The table a zeroing chunk is looked up in. -/
def zeroingTable (i : Nat) : Table :=
  if self.isPlainZeroingChunk i then Table.newZeroCheck else Table.newSignedZeroCheck

/-- `table_output`. -/
def tableOutput (fl : Float32Ops) (chunkedInput : ChunkedInput) (valueTable : Table) :
    Outcome ChunkedOutput := do
  let valueChunkOutputs ← chunkedInput.valueChunks.mapM (chunkOutput fl valueTable)
  let zeroingChunkOutputs ←
    if self.numberOfZeroingChunks = 0 then
      .ok []
    else
      chunkedInput.zeroingChunks.zipIdx.mapM fun (chunk, i) =>
        chunkOutput fl (self.zeroingTable i) chunk
  .ok ⟨valueChunkOutputs, zeroingChunkOutputs⟩

/-- `rounding_constant`. -/
def roundingConstant : Int := 2 ^ (self.rightShift - 1)

/-- `total_inputs_per_chunk`. -/
def totalInputsPerChunk : Nat :=
  self.numberOfShiftedChunks + self.numberOfValueChunks * (self.table.numColumns - 1) +
    self.numberOfZeroingChunks

/-- `total_outputs_per_chunk`. -/
def totalOutputsPerChunk : Nat := self.numberOfValueChunks + self.numberOfZeroingChunks

section Combine

variable {F : Type} [Field F] [DecidableEq F]

/-- `Field::inverse().expect(..)`. -/
def inverseOf (x : F) (msg : String) : Outcome F :=
  if x = 0 then .error (.panic msg) else .ok x⁻¹

/-- One shifted chunk is added. -/
def combineShifted (acc : F) (entry : F × Nat) : Outcome F := do
  let (chunkClaim, j) := entry
  if self.isFullShiftedChunk j then
    .ok (acc + chunkClaim * 2 ^ (j * shiftCheckTableBitSize))
  else
    let inv ← inverseOf ((self.shiftedChunkMultiplier : Int) : F)
      "Tried to invert 0 when inverting shifted chunk multiplier"
    .ok (acc + (chunkClaim * inv) * 2 ^ (j * shiftCheckTableBitSize))

/-- One value chunk is added. -/
def combineValue (acc : F) (entry : F × Nat) : F :=
  let (valueClaim, j) := entry
  let reconstructedValue :=
    match self.table.tableSign with
    | .mixed => valueClaim + ((self.valueChunkOffset : Int) : F)
    | .positive => valueClaim
    | .negative => -valueClaim
  acc + reconstructedValue * 2 ^ (j * self.valueChunkSize)

/-- One zeroing chunk is added. -/
def combineZeroing (acc : F) (entry : F × Nat) : F :=
  let (chunkClaim, j) := entry
  let shiftValueField := 2 ^ (self.valueChunkSize * self.numberOfValueChunks + self.rightShift +
    j * zeroCheckTableBitSize)
  if self.isPlainZeroingChunk j then
    acc + chunkClaim * shiftValueField
  else
    acc + (chunkClaim + ((self.topZeroingChunkOffset : Int) : F)) * shiftValueField

/-- `combine_input_claims`. -/
def combineInputClaims (shiftedClaims valueClaims zeroingClaims : List F) : Outcome F := do
  let offsetVal ← shiftedClaims.zipIdx.foldlM self.combineShifted 0
  let combinedValue := valueClaims.zipIdx.foldl self.combineValue 0
  let initialVal := offsetVal + combinedValue * 2 ^ self.rightShift
  let fullOffsetVal := zeroingClaims.zipIdx.foldl self.combineZeroing initialVal
  match self.table.tableSign with
  | .mixed => .ok (fullOffsetVal - ((self.offset : Int) : F))
  | .positive => .ok fullOffsetVal
  | .negative => .ok (-fullOffsetVal)

end Combine

end Decompose

end ChunkingInfo

end DeepProve
