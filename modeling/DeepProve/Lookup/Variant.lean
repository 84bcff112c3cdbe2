import DeepProve.Shape
import DeepProve.Lookup.Decomposer

/-!
# Lookup variants

`lookup/operation/variant.rs`: the expression of the sumcheck that links the output of a
layer to its lookups. The part that is the same for all variants turns the looked up
values into the output: a selector is 1 if no clamping was required, and a clamping
expression takes over where it was.
-/

namespace DeepProve

inductive LookupVariant where
  | standard
  | glu
  | softmax (normalisedSumValue errorBound : Int)
  | normalisation (normalisedMagnitudeValue magnitudeErrorBound : Int)
      (normalisedSumValue : Option (Int × Int)) (hasWeight : Bool)
  deriving DecidableEq, Repr

/-- The expressions for the output part of a lookup operation. -/
structure LookupExpressions (E : Type) where
  value : E
  prodSelector : E
  clampingExpression : E
  squaredClampingExpression : E
  sum : E

structure ValueExpression (T : Type) where
  value : T
  initialSum : T
  witnessOffset : UInt16
  sumChallengeOffset : Nat

variable {F : Type} [Field F] [DecidableEq F] (D : DpCrypto F)

/-- `1 << (number_value_chunks * table_bit_size - 1)`. -/
def fullValueOffset (chunkingInfo : ChunkingInfo) : Int :=
  2 ^ (chunkingInfo.numberOfValueChunks * chunkingInfo.table.tableBitSize - 1)

omit [DecidableEq F] in
/-- The power of the challenge that separates the witnesses. -/
def sumChallenge (power : Nat) : D.Expression := D.challenge 0 power 1 0

/-- `ValueExpression::new`. -/
def ValueExpression.new (chunkingInfo : ChunkingInfo) (initialWitnessOffset : UInt16) :
    ValueExpression D.Expression :=
  if chunkingInfo.numberOfValueChunks = 1 then
    { value := D.witIn initialWitnessOffset
      initialSum := D.mul (D.witIn initialWitnessOffset) (sumChallenge D 1)
      witnessOffset := initialWitnessOffset + 1
      sumChallengeOffset := 2 }
  else
    let tableBitSize := chunkingInfo.table.tableBitSize
    let (value, sum) := (List.range chunkingInfo.numberOfValueChunks).foldl
      (fun (valueAcc, sumAcc) idx =>
        let chunkExpr := D.witIn (initialWitnessOffset + UInt16.ofNat idx)
        let shiftAmount := D.constant (2 ^ (tableBitSize * idx))
        let valueOffsetExpr := D.constant (2 ^ (tableBitSize - 1))
        let valuePart := D.mul shiftAmount (D.add chunkExpr valueOffsetExpr)
        (D.add valueAcc valuePart, D.add sumAcc (D.mul chunkExpr (sumChallenge D (idx + 1)))))
      (D.constant (-((fullValueOffset chunkingInfo : Int) : F)), D.constant 0)
    { value
      initialSum := sum
      witnessOffset := initialWitnessOffset + UInt16.ofNat chunkingInfo.numberOfValueChunks
      sumChallengeOffset := 1 + chunkingInfo.numberOfValueChunks }

/-- `ValueExpression::evaluate`. -/
def ValueExpression.evaluate (values : List F) (sumChallenge : F) (chunkingInfo : ChunkingInfo) :
    Outcome (ValueExpression F) :=
  if chunkingInfo.numberOfValueChunks = 1 then do
    let value ← unwrap values[0]? "index out of bounds"
    .ok { value, initialSum := value * sumChallenge, witnessOffset := 0, sumChallengeOffset := 2 }
  else
    let tableBitSize := chunkingInfo.table.tableBitSize
    let (value, sum, _) := values.zipIdx.foldl
      (fun (valueAcc, sumAcc, challengeAcc) (val, idx) =>
        (valueAcc + 2 ^ (tableBitSize * idx) * (val + 2 ^ (tableBitSize - 1)),
          sumAcc + val * challengeAcc, challengeAcc * sumChallenge))
      (-((fullValueOffset chunkingInfo : Int) : F), (0 : F), sumChallenge)
    .ok { value, initialSum := sum, witnessOffset := 0,
          sumChallengeOffset := 1 + chunkingInfo.numberOfValueChunks }

/-- The product of the outputs of zeroing chunks and their sum with powers of the challenge. -/
def foldZeroChunks (initialSum : D.Expression) (witnessOffset : UInt16) (sumChallengeOffset n : Nat) :
    D.Expression × D.Expression :=
  (List.range n).foldl (fun (prodAcc, sumAcc) idx =>
    let chunkExpr := D.witIn (witnessOffset + UInt16.ofNat idx)
    (D.mul prodAcc chunkExpr,
      D.add sumAcc (D.mul chunkExpr (sumChallenge D (sumChallengeOffset + idx)))))
    (D.constant 1, initialSum)

namespace LookupVariant

/-- The values of outputs below and above the range of the table, or of all value chunks. -/
def clampingValues (fl : Float32Ops) (chunkingInfo : ChunkingInfo) : Outcome (Int × Int) :=
  let table := chunkingInfo.table
  if chunkingInfo.numberOfValueChunks = 1 then do
    let min ← table.minOutputValue fl
    let max ← table.maxOutputValue fl
    .ok (min, max)
  else
    .ok (-fullValueOffset chunkingInfo, fullValueOffset chunkingInfo - 1)

/-- The part of `build_lookup_output_expressions` for tables of both signs. -/
def signedExpressions (fl : Float32Ops) (self : LookupVariant) (chunkingInfo : ChunkingInfo)
    (valueExpr : ValueExpression D.Expression) : Outcome (LookupExpressions D.Expression) := do
  let numberZeroChunks := chunkingInfo.numberOfZeroingChunks
  let witnessOffset := valueExpr.witnessOffset
  let (prod, sum) := foldZeroChunks D valueExpr.initialSum witnessOffset
    valueExpr.sumChallengeOffset (numberZeroChunks - 1)
  let (clampingMin, clampingMax) ← clampingValues fl chunkingInfo
  if numberZeroChunks ≠ 0 then
    let one := D.constant 1
    let lastChunkExpr := D.witIn (witnessOffset - 1 + UInt16.ofNat numberZeroChunks)
    let lowerChunksExpr := prod
    let oneMinusTcSquared := D.sub one (D.mul lastChunkExpr lastChunkExpr)
    let prod := D.mul prod oneMinusTcSquared
    let sum := D.add sum (D.mul lastChunkExpr
      (sumChallenge D (valueExpr.sumChallengeOffset - 1 + numberZeroChunks)))
    let maxCoeff := D.constant ((clampingMax : Int) : F)
    let minCoeff := D.constant ((clampingMin : Int) : F)
    let twoInv ← ChunkingInfo.inverseOf (2 : F) "Cannot fail when inverting 2"
    let twoInvExpr := D.constant twoInv
    let clampingFirstPart := D.add
      (D.mul (D.mul lastChunkExpr (D.add lastChunkExpr one)) twoInvExpr)
      (D.sub oneMinusTcSquared (D.mul lowerChunksExpr oneMinusTcSquared))
    let clampingSecondPart := D.mul (D.mul lastChunkExpr (D.sub lastChunkExpr one)) twoInvExpr
    let clampingExpression := D.add (D.mul clampingFirstPart maxCoeff)
      (D.mul clampingSecondPart minCoeff)
    let squaredClampingExpression :=
      match self with
      | .normalisation .. =>
        D.add (D.mul (D.mul clampingFirstPart maxCoeff) maxCoeff)
          (D.mul (D.mul clampingSecondPart minCoeff) minCoeff)
      | _ => D.constant 0
    .ok ⟨valueExpr.value, prod, clampingExpression, squaredClampingExpression, sum⟩
  else
    -- no clamping needed
    .ok ⟨valueExpr.value, prod, D.constant 0, D.constant 0, sum⟩

/-- The part of `build_lookup_output_expressions` for tables of one sign. -/
def unsignedExpressions (fl : Float32Ops) (chunkingInfo : ChunkingInfo)
    (valueExpr : ValueExpression D.Expression) : Outcome (LookupExpressions D.Expression) := do
  let table := chunkingInfo.table
  let numberZeroChunks := chunkingInfo.numberOfZeroingChunks
  let (prod, sum) := foldZeroChunks D valueExpr.initialSum valueExpr.witnessOffset
    valueExpr.sumChallengeOffset numberZeroChunks
  let clampingExpression ←
    if numberZeroChunks ≠ 0 then do
      let clampingValue ←
        match table.operation.inputSign with
        | .positive => table.maxOutputValue fl
        | .negative => table.minOutputValue fl
        | .mixed =>
          .error (.panic "Already checked that the table doesn't have mixed signs")
      .ok (D.constant ((clampingValue : Int) : F))
    else
      .ok (D.constant 1)
  .ok ⟨valueExpr.value, prod, clampingExpression, D.constant 0, sum⟩

/-- `build_lookup_output_expressions`. -/
def buildLookupOutputExpressions (fl : Float32Ops) (self : LookupVariant) (currentChunk : Nat)
    (chunkingInfo : ChunkingInfo) : Outcome (LookupExpressions D.Expression) :=
  let totalWitnessesPerChunk :=
    chunkingInfo.numberOfValueChunks + chunkingInfo.numberOfZeroingChunks
  let offset := UInt16.ofNat (currentChunk * totalWitnessesPerChunk)
  let valueExpr := ValueExpression.new D chunkingInfo offset
  if chunkingInfo.table.isSigned then
    self.signedExpressions D fl chunkingInfo valueExpr
  else
    unsignedExpressions D fl chunkingInfo valueExpr

end LookupVariant

/-- `clamping_expression + prod_selector * value`. -/
def LookupExpressions.prodExpression (expressions : LookupExpressions D.Expression) :
    D.Expression :=
  D.add expressions.clampingExpression (D.mul expressions.prodSelector expressions.value)

/-- `squared_clamping_expression + prod_selector * value * value`. -/
def LookupExpressions.prodSquaredExpression (expressions : LookupExpressions D.Expression) :
    D.Expression :=
  D.add expressions.squaredClampingExpression
    (D.mul (D.mul expressions.prodSelector expressions.value) expressions.value)

namespace LookupVariant

/-- `additional_witnesses_per_chunk`. -/
def additionalWitnessesPerChunk : LookupVariant → Nat
  | standard | softmax .. => 0
  | glu => 1
  | normalisation .. => 2

/-- `norm_lookups_per_chunk`. -/
def normLookupsPerChunk : LookupVariant → Nat
  | standard | glu => 0
  | softmax .. => 1
  | normalisation _ _ none _ => 1
  | normalisation _ _ (some _) _ => 2

/-- `Softmax { .. } | Normalisation { .. }`. -/
def isNormalised : LookupVariant → Bool
  | standard | glu => false
  | softmax .. | normalisation .. => true

section Sumcheck

variable (fl : Float32Ops) (self : LookupVariant)

/-- `sumcheck_expression_for_chunk`. -/
def sumcheckExpressionForChunk (chunkNumber totalChunks finalDimSize : Nat)
    (chunkingInfo : ChunkingInfo) : Outcome D.Expression := do
  let totalOutputWitnesses :=
    totalChunks * (chunkingInfo.numberOfValueChunks + chunkingInfo.numberOfZeroingChunks)
  let totalWitnesses := totalChunks * self.additionalWitnessesPerChunk + totalOutputWitnesses
  let witIn (id : Nat) := D.witIn (UInt16.ofNat id)
  let challenge (id power : Nat) (scalar : F) := D.challenge (UInt16.ofNat id) power scalar 0
  let outputLinkingEq := witIn totalWitnesses
  let lookupLinkingEq := witIn (totalWitnesses + 1)
  let chunkChallenge := challenge (1 + chunkNumber) 1 1
  let expressions ← self.buildLookupOutputExpressions D fl chunkNumber chunkingInfo
  let prodExpression := expressions.prodExpression D
  let powTwo : F := 2 ^ ceilLog2 finalDimSize
  match self with
  | standard =>
    .ok (D.mul chunkChallenge
      (D.add (D.mul outputLinkingEq prodExpression) (D.mul lookupLinkingEq expressions.sum)))
  | glu =>
    let gluChunkWitness := witIn (totalOutputWitnesses + chunkNumber)
    .ok (D.mul chunkChallenge
      (D.add (D.mul (D.mul outputLinkingEq prodExpression) gluChunkWitness)
        (D.mul lookupLinkingEq expressions.sum)))
  | softmax .. =>
    let normalisationEq := witIn (totalWitnesses + 2)
    let sumNormChallenge := challenge (1 + totalChunks) 1 powTwo
    .ok (D.mul chunkChallenge
      (D.add
        (D.add (D.mul outputLinkingEq prodExpression)
          (D.mul sumNormChallenge (D.mul normalisationEq prodExpression)))
        (D.mul lookupLinkingEq expressions.sum)))
  | normalisation _ _ normalisedSumValue hasWeight =>
    let normalisationEq := witIn (totalWitnesses + 2)
    let sumsqNormChallenge := challenge (1 + totalChunks) 1 powTwo
    let outputLinkingEq :=
      if hasWeight then D.mul outputLinkingEq (witIn (totalWitnesses + 3)) else outputLinkingEq
    let inputChunkExpression := witIn (totalOutputWitnesses + chunkNumber)
    let scalingWitnessExpression := witIn (totalOutputWitnesses + totalChunks + chunkNumber)
    let inputChallenge := challenge (2 + totalChunks) 1 1
    let outputPart := D.mul outputLinkingEq prodExpression
    let outputPart :=
      if normalisedSumValue.isSome then
        D.add outputPart (D.mul (challenge (1 + totalChunks) 2 powTwo)
          (D.mul normalisationEq prodExpression))
      else
        outputPart
    .ok (D.mul chunkChallenge
      (D.add
        (D.add outputPart (D.mul sumsqNormChallenge
          (D.mul normalisationEq (expressions.prodSquaredExpression D))))
        (D.mul lookupLinkingEq (D.add expressions.sum
          (D.mul inputChallenge (D.mul inputChunkExpression scalingWitnessExpression))))))

/-- `build_full_sumcheck_expression`. -/
def buildFullSumcheckExpression (totalChunks finalDimSize : Nat) (chunkingInfo : ChunkingInfo) :
    Outcome D.Expression :=
  (List.range totalChunks).foldlM (fun acc chunkNumber => do
    let expression ←
      self.sumcheckExpressionForChunk D fl chunkNumber totalChunks finalDimSize chunkingInfo
    .ok (D.add acc expression)) (D.constant 0)

omit [Field F] [DecidableEq F] in
/-- `squeeze_sumcheck_challenges`. -/
def squeezeSumcheckChallenges (transcript : D.Transcript) : List F × D.Transcript :=
  match self with
  | standard | glu => ([], transcript)
  | softmax .. =>
    let (normChallenge, transcript) := D.appendAndSample transcript "normalisation"
    ([normChallenge], transcript)
  | normalisation .. =>
    let (normChallenge, transcript) := D.appendAndSample transcript "normalisation"
    let (inputChallenge, transcript) := D.appendAndSample transcript "input"
    ([normChallenge, inputChallenge], transcript)

end Sumcheck

end LookupVariant

end DeepProve
