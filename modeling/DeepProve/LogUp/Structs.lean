import DeepProve.Shape

/-!
# LogUp instances and proofs

`lookup/logup_gkr/structs.rs`: what the verifier of a batched LogUp argument knows
about every instance, the expressions an instance contributes to a round, and what
the proof carries. Witness ids and the layer count are 16-bit where the code's are.
-/

namespace DeepProve

inductive ProofType where
  | lookup
  | table
  deriving DecidableEq, Repr

structure LogUpVerifierInstance (F : Type) where
  constantChallenge : F
  columnSeparationChallenge : F
  numColumns : Nat
  instanceType : ProofType
  numVars : Nat
  deriving DecidableEq, Repr

/-- The proof, less the fields that the verifier does not read. -/
structure LogUpBatchProof {F : Type} (D : DpCrypto F) where
  sumcheckProofs : List D.IOPProof
  roundEvaluations : List (List F)
  outputClaims : List (Claim F)
  circuitOutputs : List (List F)

structure LogUpBatchVerifierClaim (F : Type) where
  claim : F
  outputClaims : List (Claim F)
  point : List F
  polyEvals : List F
  numerators : List F
  denominators : List F

variable {F : Type} [CommRing F]

namespace LogUpVerifierInstance

omit [CommRing F] in
/-- `num_final_round_evals`. -/
def numFinalRoundEvals (self : LogUpVerifierInstance F) : Nat :=
  match self.instanceType with
  | .lookup => 2 * self.numColumns
  | .table => 2 * (1 + self.numColumns)

/-- `&sumcheck_point[point_length - 1 - self.num_vars()..]`. -/
def finalPoint (self : LogUpVerifierInstance F) (sumcheckPoint : List F) : Outcome (List F) := do
  let len ← usizeSub sumcheckPoint.length 1
  let start ← usizeSub len self.numVars
  .ok (sumcheckPoint.drop start)

/-- `batching_challenge * (high - low) + low`. -/
def foldPair (batchingChallenge : F) (pair : F × F) : F :=
  batchingChallenge * (pair.2 - pair.1) + pair.1

/-- The claims at the final point for a list of evaluations. -/
def claimsAt (self : LogUpVerifierInstance F) (sumcheckPoint : List F) (evals : List F) :
    Outcome (List (Claim F)) :=
  evals.mapM fun eval => do
    let point ← self.finalPoint sumcheckPoint
    .ok ⟨point, eval⟩

/-- `final_claim`. -/
def finalClaim (self : LogUpVerifierInstance F) (finalRoundEvals : List F) (batchingChallenge : F)
    (sumcheckPoint : List F) : Outcome (List (Claim F)) :=
  match self.instanceType with
  | .lookup =>
    if self.numColumns ≤ finalRoundEvals.length then
      let (lowEvals, highEvals) := finalRoundEvals.splitAt self.numColumns
      self.claimsAt sumcheckPoint ((lowEvals.zip highEvals).map (foldPair batchingChallenge))
    else
      .error (.panic "mid > len")
  | .table => do
    match finalRoundEvals with
    | multiplicityLow :: multiplicityHigh :: tableColumnEvals =>
      if self.numColumns ≤ tableColumnEvals.length then
        let (lowEvals, highEvals) := tableColumnEvals.splitAt self.numColumns
        self.claimsAt sumcheckPoint
          (foldPair batchingChallenge (multiplicityLow, multiplicityHigh) ::
            (lowEvals.zip highEvals).map (foldPair batchingChallenge))
      else
        .error (.panic "mid > len")
    | _ => .error (.panic "mid > len")

section Expressions

variable (D : DpCrypto F)

/-- The expressions of the two denominators; the columns of the low one start at
    `low`, those of the high one at `high`. -/
def denomExprs (self : LogUpVerifierInstance F) (low high : UInt16) :
    D.Expression × D.Expression :=
  let constantExpr := D.constant self.constantChallenge
  let (accLow, accHigh, _) := (List.range (self.numColumns % 2 ^ 16)).foldl
    (fun (accLow, accHigh, chalAcc) i =>
      (D.add accLow (D.mul (D.constant chalAcc) (D.witIn (low + UInt16.ofNat i))),
        D.add accHigh (D.mul (D.constant chalAcc) (D.witIn (high + UInt16.ofNat i))),
        chalAcc * self.columnSeparationChallenge))
    (constantExpr, constantExpr, (1 : F))
  (accLow, accHigh)

/-- The power of `alpha` that scales an instance. -/
def alphaPower (layerCount : Nat) : D.Expression := D.challenge 0 layerCount 1 0

/-- `lambda`. -/
def lambdaExpr : D.Expression := D.challenge 1 1 1 0

/-- The expression that links the previous layer to this one. -/
def claimExpression (layerCount : Nat) : D.Expression :=
  let numLowId : UInt16 := UInt16.ofNat layerCount * 4
  let numHighId := numLowId + 1
  let denomLowId := numHighId + 1
  let denomHighId := denomLowId + 1
  let batching := D.challenge 2 1 1 0
  D.mul (alphaPower D layerCount)
    (D.add
      (D.add (D.mul batching (D.sub (D.witIn numHighId) (D.witIn numLowId))) (D.witIn numLowId))
      (D.mul (lambdaExpr D)
        (D.add (D.mul batching (D.sub (D.witIn denomHighId) (D.witIn denomLowId)))
          (D.witIn denomLowId))))

/-- The expression that links this layer to the next one. -/
def sumcheckExpression (self : LogUpVerifierInstance F) (layerCount : Nat) (witnessId : UInt16)
    (isFinalRound : Bool) : D.Expression :=
  if !isFinalRound then
    let numLowId := witnessId
    let numHighId := numLowId + 1
    let denomLowId := numHighId + 1
    let denomHighId := denomLowId + 1
    D.mul (alphaPower D layerCount)
      (D.add
        (D.add (D.mul (D.witIn numLowId) (D.witIn denomHighId))
          (D.mul (D.witIn numHighId) (D.witIn denomLowId)))
        (D.mul (D.mul (lambdaExpr D) (D.witIn denomLowId)) (D.witIn denomHighId)))
  else
    match self.instanceType with
    | .table =>
      let numLowId := witnessId
      let numHighId := numLowId + 1
      let (denomLowExpr, denomHighExpr) := self.denomExprs D (numHighId + 1)
        (numHighId + 1 + UInt16.ofNat self.numColumns)
      D.mul (alphaPower D layerCount)
        (D.add
          (D.add (D.mul (D.witIn numLowId) denomHighExpr) (D.mul (D.witIn numHighId) denomLowExpr))
          (D.mul (D.mul (lambdaExpr D) denomLowExpr) denomHighExpr))
    | .lookup =>
      let (denomLowExpr, denomHighExpr) := self.denomExprs D witnessId
        (witnessId + UInt16.ofNat self.numColumns)
      -- the numerators are all -1
      D.mul (alphaPower D layerCount)
        (D.add (D.sub (D.neg denomHighExpr) denomLowExpr)
          (D.mul (D.mul (lambdaExpr D) denomLowExpr) denomHighExpr))

omit [CommRing F] in
/-- The number of evaluations an instance takes up in a round. -/
def numRoundEvals (self : LogUpVerifierInstance F) (isFinalRound : Bool) : Nat :=
  if !isFinalRound then 4 else self.numFinalRoundEvals

/-- `instance_expressions`: the sumcheck and the claim expression, and the next
    layer count and witness id. -/
def instanceExpressions (self : LogUpVerifierInstance F) (layerCount : Nat) (witnessId : UInt16)
    (isFinalRound : Bool) : (D.Expression × D.Expression) × Nat × UInt16 :=
  ((self.sumcheckExpression D layerCount witnessId isFinalRound, claimExpression D layerCount),
    layerCount + 1, witnessId + UInt16.ofNat (self.numRoundEvals isFinalRound))

end Expressions

end LogUpVerifierInstance

namespace LogUpBatchProof

variable {D : DpCrypto F}

omit [CommRing F] in
def appendToTranscript (self : LogUpBatchProof D) (transcript : D.Transcript) : D.Transcript :=
  self.circuitOutputs.foldl D.appendScalars transcript

/-- The fraction a circuit adds up to. -/
def fractionalOutput (evals : List F) : Outcome (F × F) :=
  match evals with
  | a :: b :: c :: d :: _ => .ok (a * d + b * c, c * d)
  | _ => .error (.panic "index out of bounds")

/-- `fractional_outputs`. -/
def fractionalOutputs (self : LogUpBatchProof D) : Outcome (List F × List F) := do
  let fractions ← self.circuitOutputs.mapM fractionalOutput
  .ok fractions.unzip

omit [CommRing F] in
def proofsAndEvals (self : LogUpBatchProof D) : List (D.IOPProof × List F) :=
  self.sumcheckProofs.zip self.roundEvaluations

end LogUpBatchProof

end DeepProve

/-!
## The inputs of a LogUp argument

`LogUpInput` of `lookup/logup_gkr/structs.rs`: the columns that are looked up, or the columns
of a table with their multiplicities, and how the circuit merges the columns of a row.
-/

namespace DeepProve

inductive LogUpInput (F : Type) where
  | lookup (columnEvals : List (List F)) (constantChallenge columnSeparationChallenge : F)
      (columnsPerInstance : Nat)
  | table (columnEvals : List (List F)) (multiplicities : List F)
      (constantChallenge columnSeparationChallenge : F)

namespace LogUpInput

variable {F : Type}

/-- The checks that `new_lookup` and `new_table` share; the number of evaluations. -/
def checkColumns (columnEvals : List (List F)) : Outcome Nat := do
  let first ← okOr columnEvals.head? "No column evals were provided for Lookup input"
  let firstEvalsLen := first.length
  ensure (Shape.isPowerOfTwo firstEvalsLen)
    s!"Need a power of two number of evaluations got: {firstEvalsLen}"
  ensure (columnEvals.tail.all fun evals => evals.length == firstEvalsLen)
    "All sets of evaluations should be the same length"
  .ok firstEvalsLen

/-- `new_lookup`. -/
def newLookup (columnEvals : List (List F)) (constantChallenge columnSeparationChallenge : F)
    (columnsPerInstance : Nat) : Outcome (LogUpInput F) := do
  let _ ← checkColumns columnEvals
  .ok (.lookup columnEvals constantChallenge columnSeparationChallenge columnsPerInstance)

end LogUpInput

/-- The columns and the challenges of one circuit. -/
structure CircuitInput (F : Type) where
  columns : List (List F)
  constantChallenge : F
  columnSeparationChallenge : F

/-- The circuits that `make_new_circuits` builds. -/
def LogUpInput.circuitInputs {F : Type} : LogUpInput F → List (CircuitInput F)
  | lookup columnEvals constant separation columnsPerInstance =>
    (pieces columnEvals columnsPerInstance).map fun columns => ⟨columns, constant, separation⟩
  | table columnEvals _ constant separation => [⟨columnEvals, constant, separation⟩]

section Merge

variable {F : Type} [CommRing F] (constantChallenge columnSeparationChallenge : F)

/-- The denominator of a row, as `next_layer` folds the columns. -/
def mergeRow (row : List F) : F :=
  (row.foldl (fun (acc, chalAcc) val =>
    (acc + chalAcc * val, chalAcc * columnSeparationChallenge)) (constantChallenge, 1)).1

/-- The denominator of the row at an index. -/
def denominatorAt (columns : List (List F)) (i : Nat) : F :=
  mergeRow constantChallenge columnSeparationChallenge (columns.map fun col => col.getD i 0)

@[simp] theorem mergeRow_singleton (val : F) :
    mergeRow constantChallenge columnSeparationChallenge [val] = constantChallenge + val := by
  simp [mergeRow]

@[simp] theorem mergeRow_pair (input output : F) :
    mergeRow constantChallenge columnSeparationChallenge [input, output] =
      constantChallenge + input + columnSeparationChallenge * output := by
  simp [mergeRow]

end Merge

end DeepProve
