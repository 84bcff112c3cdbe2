import DeepProve.Lookup.Context
import DeepProve.Lookup.Variant

/-!
# The layout of a lookup layer

`lookup/operation/inputs.rs` and `lookup/operation/inputs/verifying.rs`: the input of a
layer is cut into two dimensional tensors, here called chunks, and each of them is
decomposed. The instances of the LogUp argument, its fractions and its evaluations are
flat lists, in which the chunks come one after the other, each with its shifted chunks, its
value chunks and its zeroing chunks; the lookups of a normalisation check come last.
-/

namespace DeepProve

structure LookupInputConfig where
  chunkingInfo : ChunkingInfo
  variant : LookupVariant
  unpaddedInputShape : Shape

/-- `number_of_chunks`. -/
def LookupInputConfig.numberOfChunks (self : LookupInputConfig) : Nat :=
  (self.unpaddedInputShape.take (self.unpaddedInputShape.rank - 2)).prod

/-- `chunks(2)`, as a list of first and one of second entries. -/
def unzipPairs {α : Type} : List α → Outcome (List α × List α)
  | [] => .ok ([], [])
  | [_] => .error (.panic "index out of bounds")
  | a :: b :: rest => do
    let (firsts, seconds) ← unzipPairs rest
    .ok (a :: firsts, b :: seconds)

/-- `iter().step_by(step)`. -/
def stepBy {α : Type} (xs : List α) (step : Nat) : List α :=
  (List.range xs.length).filterMap fun i => xs[i * step]?

/-- The columns of the value evaluations of a chunk: what is looked up, and the outputs. -/
def splitValueColumns {α : Type} (table : Table) (allValueEvals : List α) :
    Outcome (List α × List α) :=
  match table.numColumns with
  | 1 => .ok (allValueEvals, allValueEvals)
  | 2 => unzipPairs allValueEvals
  | numColumns => .error (.err s!"Unsupported number of table columns: {numColumns}")

/-- For each table the sum of the fractions of its lookups. -/
abbrev NumeratorsAndDenominators (F : Type) := HashMap String (F × F)

namespace LookupInputConfig

variable {F : Type} [Field F] (fl : Float32Ops) (self : LookupInputConfig)

section Instances

omit [Field F]

/-- Instances of one table. -/
def pushInstances (count : Nat) (challenges : F × F) (numColumns vars : Nat) :
    Outcome (List (LogUpVerifierInstance F)) :=
  if count = 0 then
    .ok []
  else do
    let numVars ← usizeSub vars 1
    .ok (List.replicate count ⟨challenges.1, challenges.2, numColumns, .lookup, numVars⟩)

variable (challengeStorage : ChallengeStorage F)

def challengesOf (table : Table) (msg : String) : Outcome (F × F) :=
  okOr (challengeStorage.getChallengesByName (table.name fl)) s!"Could not find challenges for {msg}"

/-- The zeroing instances of a chunk. -/
def zeroingInstances (fullVars : Nat) : Outcome (List (LogUpVerifierInstance F)) :=
  let zeroCheckTable := Table.newZeroCheck
  let signedZeroCheckTable := Table.newSignedZeroCheck
  match self.chunkingInfo.numberOfZeroingChunks, self.chunkingInfo.table.isSigned with
  | 0, _ => .ok []
  | 1, true => do
    let signed ← challengesOf fl challengeStorage signedZeroCheckTable "SignedZeroCheckTable"
    pushInstances 1 signed signedZeroCheckTable.numColumns fullVars
  | n + 2, true => do
    let zero ← challengesOf fl challengeStorage zeroCheckTable "ZeroCheckTable"
    let zeroInstances ← pushInstances (n + 1) zero zeroCheckTable.numColumns fullVars
    let signed ← challengesOf fl challengeStorage signedZeroCheckTable "SignedZeroCheckTable"
    let signedInstances ← pushInstances 1 signed signedZeroCheckTable.numColumns fullVars
    .ok (zeroInstances ++ signedInstances)
  | n + 1, false => do
    let zero ← challengesOf fl challengeStorage zeroCheckTable "ZeroCheckTable"
    pushInstances (n + 1) zero zeroCheckTable.numColumns fullVars

/-- `compute_normalisation_lookup_verifier_instances`. -/
def computeNormalisationLookupVerifierInstances (shiftCheckChallenges : F × F) (normVars : Nat) :
    Outcome (List (LogUpVerifierInstance F)) :=
  pushInstances self.variant.normLookupsPerChunk shiftCheckChallenges
    Table.newShiftCheck.numColumns normVars

end Instances

/-- `create_logup_verifier_instances`. -/
def createLogupVerifierInstances (challengeStorage : ChallengeStorage F) :
    Outcome (List (LogUpVerifierInstance F)) := do
  let table := self.chunkingInfo.table
  let shape := self.unpaddedInputShape
  let (normDimSize, lastDim) ← shape.lastDims
  let fullVars := ceilLog2 (nextPowerOfTwo normDimSize * nextPowerOfTwo lastDim)
  let normVars := ceilLog2 normDimSize
  let shiftCheckTable := Table.newShiftCheck
  let shift ← challengesOf fl challengeStorage shiftCheckTable "ShiftCheckTable"
  let value ← challengesOf fl challengeStorage table "ValueTable"
  let (instances, normInstances) ← (List.range self.numberOfChunks).foldlM
    (fun (instances, normInstances) _ => do
      let shiftedInstances ← pushInstances self.chunkingInfo.numberOfShiftedChunks shift
        shiftCheckTable.numColumns fullVars
      let valueInstances ← pushInstances self.chunkingInfo.numberOfValueChunks value
        table.numColumns fullVars
      let zeroing ← self.zeroingInstances fl challengeStorage fullVars
      let chunkNormalisationInstances ←
        self.computeNormalisationLookupVerifierInstances (shift.1, 1) normVars
      .ok (instances ++ shiftedInstances ++ valueInstances ++ zeroing,
        normInstances ++ chunkNormalisationInstances))
    ([], [])
  .ok (instances ++ normInstances)

section FractionalOutputs

variable [DecidableEq F]

/-- One more fraction is added. -/
def addFraction (msg : String) (acc fraction : F × F) : Outcome (F × F) := do
  ensure (fraction.2 != 0) msg
  .ok (fraction.1 * acc.2 + acc.1 * fraction.2, acc.2 * fraction.2)

/-- The fractions of lookups into one table are added to what is stored for it. -/
def chargeTable (stored : NumeratorsAndDenominators F) (table : Table) (msg : String)
    (numerators denominators : List F) : Outcome (NumeratorsAndDenominators F) := do
  let acc := (stored[table.name fl]?).getD (0, 1)
  let total ← (numerators.zip denominators).foldlM (addFraction msg) acc
  .ok (stored.insert (table.name fl) total)

/-- The zeroing fractions of a chunk. -/
def chargeZeroing (stored : NumeratorsAndDenominators F) (zeroNums zeroDenoms : List F) :
    Outcome (NumeratorsAndDenominators F) :=
  match self.chunkingInfo.table.isSigned, self.chunkingInfo.numberOfZeroingChunks with
  | _, 0 => .ok stored
  | true, 1 =>
    chargeTable fl stored Table.newSignedZeroCheck "Denominator was zero in signed zero check lookup!"
      zeroNums zeroDenoms
  | true, n + 2 => do
    let (zeroNums, signedNum) ← splitAtMid zeroNums (n + 1)
    let (zeroDenoms, signedDenom) ← splitAtMid zeroDenoms (n + 1)
    let stored ← chargeTable fl stored Table.newZeroCheck
      "Denominator was zero in zero check lookup!" zeroNums zeroDenoms
    let denom ← unwrap signedDenom[0]? "index out of bounds"
    let num ← unwrap signedNum[0]? "index out of bounds"
    chargeTable fl stored Table.newSignedZeroCheck "Denominator was zero in signed zero check lookup!"
      [num] [denom]
  | false, _ + 1 =>
    chargeTable fl stored Table.newZeroCheck "Denominator was zero in zero check lookup!" zeroNums
      zeroDenoms

/-- The fractions of one chunk. -/
def chargeChunk (stored : NumeratorsAndDenominators F) (chunk : List F × List F) :
    Outcome (NumeratorsAndDenominators F) := do
  let (numeratorChunk, denominatorChunk) := chunk
  let (shiftedNums, otherNums) ← splitAtMid numeratorChunk self.chunkingInfo.numberOfShiftedChunks
  let (shiftedDens, othersDens) ←
    splitAtMid denominatorChunk self.chunkingInfo.numberOfShiftedChunks
  let stored ← chargeTable fl stored Table.newShiftCheck "Denominator was zero in shift check lookup!"
    shiftedNums shiftedDens
  let (valueNums, zeroNums) ← splitAtMid otherNums self.chunkingInfo.numberOfValueChunks
  let (valueDenoms, zeroDenoms) ← splitAtMid othersDens self.chunkingInfo.numberOfValueChunks
  let stored ← chargeTable fl stored self.chunkingInfo.table "Denominator was zero in value lookup!"
    valueNums valueDenoms
  self.chargeZeroing fl stored zeroNums zeroDenoms

/-- `regular_lookups_per_chunk`. -/
def regularLookupsPerChunk : Nat :=
  self.chunkingInfo.numberOfShiftedChunks + self.chunkingInfo.numberOfValueChunks +
    self.chunkingInfo.numberOfZeroingChunks

/-- `sort_fractional_outputs`, for given fractions. -/
def sortFractions (stored : NumeratorsAndDenominators F) (numerators denominators : List F) :
    Outcome (NumeratorsAndDenominators F) := do
  let numeratorChunks ← chunksOf numerators self.regularLookupsPerChunk
  let denominatorChunks ← chunksOf denominators self.regularLookupsPerChunk
  let stored ← ((numeratorChunks.zip denominatorChunks).take self.numberOfChunks).foldlM
    (self.chargeChunk fl) stored
  let skipped := self.numberOfChunks * self.regularLookupsPerChunk
  chargeTable fl stored Table.newShiftCheck
    "Denominator was zero in normalisation shift check lookup!"
    (numerators.drop skipped) (denominators.drop skipped)

/-- `sort_fractional_outputs`. -/
def sortFractionalOutputs {D : DpCrypto F} (stored : NumeratorsAndDenominators F)
    (logupProof : LogUpBatchProof D) : Outcome (NumeratorsAndDenominators F) := do
  let (numerators, denominators) ← logupProof.fractionalOutputs
  self.sortFractions fl stored numerators denominators

end FractionalOutputs

end LookupInputConfig

/-! ## The evaluations of a layer -/

structure LookupEvaluations (F : Type) where
  inputCommitmentEvals : List F
  outputCommitmentEvals : List F
  normalisationCommitmentEvals : List F
  inputClaimEvals : List F

section Evaluations

variable {F : Type} [Field F] [DecidableEq F]

/-- `input_claim_evals[i] += eval`. -/
def addToEval (inputClaimEvals : List F) (i : Nat) (eval : F) : Outcome (List F) := do
  let acc ← unwrap inputClaimEvals[i]? "index out of bounds"
  .ok (inputClaimEvals.set i (acc + eval))

/-- The evaluations of a chunk in the LogUp argument, by what they are evaluations of. -/
structure ChunkEvals (F : Type) where
  shifted : List F
  valueIn : List F
  zeroIn : List F

/-- How `update_for_chunk` splits the evaluations of a chunk. -/
def splitChunkEvals (chunkingInfo : ChunkingInfo) (logupChunk : List F) :
    Outcome (ChunkEvals F) := do
  let (shifted, otherLogup) ← splitAtMid logupChunk chunkingInfo.numberOfShiftedChunks
  let (allValueEvals, zeroEvals) ←
    splitAtMid otherLogup (chunkingInfo.table.numColumns * chunkingInfo.numberOfValueChunks)
  let (valueIn, _) ← splitValueColumns chunkingInfo.table allValueEvals
  .ok ⟨shifted, valueIn, stepBy zeroEvals 2⟩

/-- `combine_input_claims` of the evaluations of a chunk. -/
def ChunkEvals.combine (self : ChunkEvals F) (chunkingInfo : ChunkingInfo) : Outcome F :=
  chunkingInfo.combineInputClaims self.shifted self.valueIn self.zeroIn

/-- The evaluations that are claimed about commitments to the inputs of a chunk. -/
def ChunkEvals.commitmentEvals (self : ChunkEvals F) (chunkingInfo : ChunkingInfo) : List F :=
  self.shifted ++ (if chunkingInfo.table.numColumns ≠ 1 then self.valueIn else []) ++ self.zeroIn

/-- `update_for_chunk`. -/
def LookupEvaluations.updateForChunk (variant : LookupVariant) (chunkingInfo : ChunkingInfo)
    (shiftEvals : Option (List F)) (additionalEvals : List F) (numberOfChunks : Nat)
    (self : LookupEvaluations F) (entry : Nat × List F × F) : Outcome (LookupEvaluations F) := do
  let (chunkIdx, logupChunk, batchChal) := entry
  let evals ← splitChunkEvals chunkingInfo logupChunk
  let self := { self with
    inputCommitmentEvals := self.inputCommitmentEvals ++ evals.commitmentEvals chunkingInfo }
  match variant with
  | .glu =>
    let gluChunkWitness ← unwrap additionalEvals[chunkIdx]? "index out of bounds"
    let combined ← evals.combine chunkingInfo
    let inputClaimEvals ← addToEval self.inputClaimEvals 0 (combined * batchChal)
    let inputClaimEvals ← addToEval inputClaimEvals 1 (gluChunkWitness * batchChal)
    .ok { self with inputClaimEvals }
  | .standard =>
    let combined ← evals.combine chunkingInfo
    let inputClaimEvals ← addToEval self.inputClaimEvals 0 (combined * batchChal)
    .ok { self with inputClaimEvals }
  | .softmax .. =>
    let combined ← evals.combine chunkingInfo
    let shiftEvals ← okOr shiftEvals "Shift evaluations missing for Softmax variant"
    let shiftEval ← unwrap shiftEvals[chunkIdx]? "index out of bounds"
    let inputClaimEvals ← addToEval self.inputClaimEvals 0 ((combined + shiftEval) * batchChal)
    .ok { self with inputClaimEvals }
  | .normalisation .. =>
    -- the input is one of the sumcheck and not one of the lookups
    let inputChunkEval ← unwrap additionalEvals[chunkIdx]? "index out of bounds"
    let normalisationEval ← unwrap additionalEvals[numberOfChunks + chunkIdx]? "index out of bounds"
    let inputClaimEvals ← addToEval self.inputClaimEvals 0 (inputChunkEval * batchChal)
    .ok { self with
          inputClaimEvals
          normalisationCommitmentEvals := self.normalisationCommitmentEvals ++ [normalisationEval] }

/-- `construct_lookup_evaluations`. -/
def LookupInputConfig.constructLookupEvaluations (self : LookupInputConfig) (logupEvals
    sumcheckEvals batchingChallenges : List F) (shiftEvals : Option (List F)) :
    Outcome (LookupEvaluations F) := do
  let lookupOutputsPerChunk := self.chunkingInfo.totalOutputsPerChunk
  let totalClaimsPerChunk := self.chunkingInfo.totalInputsPerChunk + lookupOutputsPerChunk
  let (outputEvals, additionalEvals) ←
    splitAtMid sumcheckEvals (lookupOutputsPerChunk * self.numberOfChunks)
  let inputClaimEvals := if self.variant = .glu then [0, 0] else [0]
  let logupChunks ← chunksOf logupEvals totalClaimsPerChunk
  ((List.range self.numberOfChunks).zip (logupChunks.zip batchingChallenges)).foldlM
    (LookupEvaluations.updateForChunk self.variant self.chunkingInfo shiftEvals additionalEvals
      self.numberOfChunks)
    ⟨[], outputEvals, [], inputClaimEvals⟩

end Evaluations

end DeepProve
