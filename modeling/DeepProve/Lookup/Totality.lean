import DeepProve.Lookup.LookupVerifier

/-!
# Proofs that the verifier of a lookup layer does not expect

`verify_lookup_op` reads the lists of a proof by position. Some of the accesses are checked, and a
missing entry is an error; others panic. The first access of all panics: the fraction of a circuit
is read from four outputs, however many there are.
-/

namespace DeepProve

variable {F : Type} [Field F] [DecidableEq F] {D : DpCrypto F} {C : Type}

omit [DecidableEq F] in
/-- The fractions cannot be read if a circuit has less than four outputs. -/
theorem panics_fractionalOutputs {logupProof : LogUpBatchProof D} {output : List F}
    (houtput : output ∈ logupProof.circuitOutputs) (hlength : output.length < 4) :
    logupProof.fractionalOutputs.Panics := by
  have hshort : ∀ evals : List F, evals.length < 4 →
      LogUpBatchProof.fractionalOutput evals = .error (.panic "index out of bounds") := by
    intro evals hevals
    match evals, hevals with
    | [], _ => rfl
    | [_], _ => rfl
    | [_, _], _ => rfl
    | [_, _, _], _ => rfl
  have hmap : ∀ outputs : List (List F), output ∈ outputs →
      (outputs.mapM LogUpBatchProof.fractionalOutput).Panics := by
    intro outputs hmem
    induction outputs with
    | nil => cases hmem
    | cons evals outputs ih =>
      rw [List.mapM_cons, Outcome.panics_bind]
      by_cases hevals : evals.length < 4
      · rw [hshort evals hevals]
        exact .inl (Outcome.panics_panic _)
      · right
        obtain ⟨a, b, c, d, rest, rfl⟩ : ∃ a b c d rest, evals = a :: b :: c :: d :: rest := by
          match evals, hevals with
          | a :: b :: c :: d :: rest, _ => exact ⟨a, b, c, d, rest, rfl⟩
          | [], h | [_], h | [_, _], h | [_, _, _], h => simp at h
        refine ⟨_, rfl, Outcome.panics_bind.mpr (.inl (ih ?_))⟩
        rcases List.mem_cons.mp hmem with rfl | hmem
        · exact absurd hlength hevals
        · exact hmem
  rw [LogUpBatchProof.fractionalOutputs, Outcome.panics_bind]
  exact .inl (hmap _ houtput)

/-! ## What a run reads -/

/-- The witnesses of the sumcheck expression. -/
def LookupInputConfig.totalWitnesses (self : LookupInputConfig) : Nat :=
  self.numberOfChunks * self.variant.additionalWitnessesPerChunk + self.numberOfChunks *
    (self.chunkingInfo.numberOfValueChunks + self.chunkingInfo.numberOfZeroingChunks)

/-- The lookups of the layer. -/
def LookupInputConfig.totalLookups (self : LookupInputConfig) : Nat :=
  self.numberOfChunks * (self.regularLookupsPerChunk + self.variant.normLookupsPerChunk)

/-- The variant has evaluations of a shift: Softmax, and the normalisation with a mean. -/
def LookupVariant.usesShift : LookupVariant → Bool
  | softmax .. => true
  | normalisation _ _ normalisedSumValue _ => normalisedSumValue.isSome
  | standard | glu => false

/-- The variant has the evaluation of a weight. -/
def LookupVariant.usesWeight : LookupVariant → Bool
  | normalisation _ _ _ hasWeight => hasWeight
  | standard | glu | softmax .. => false

/-- The proof has what the layer reads, and nothing else. -/
structure ProofUsed (config : LookupInputConfig) (proof : GenericLookupProof D C) : Prop where
  evaluations : proof.evaluations.length = config.totalWitnesses
  shiftEvaluations : if config.variant.usesShift then
      ∃ evals, proof.shiftEvaluations = some evals ∧ evals.length = config.numberOfChunks
    else
      proof.shiftEvaluations = none
  weightEvaluation : proof.weightEvaluation.isSome = config.variant.usesWeight
  circuitOutputs : proof.logupProof.circuitOutputs.length = config.totalLookups
  fractions : ∀ output ∈ proof.logupProof.circuitOutputs, output.length = 4

variable (U : SumcheckUtil D) (fl : Float32Ops) (lookupOp : LookupOp) (lastClaim : Claim F)
  (unpaddedInputShape : Shape) (table : Table)

variable (C) in
/-- No proof makes the verifier panic, and of an accepted one everything is used. -/
def Total : Prop :=
  ∀ (proof : GenericLookupProof D C) (verifier : Verifier D C) (nodeId : NodeId),
    ¬ (verifyLookupOp U fl lookupOp lastClaim unpaddedInputShape table proof verifier
        nodeId).Panics ∧
      ∀ info result,
        lookupOp.chunkingInfo table = .ok info →
        verifyLookupOp U fl lookupOp lastClaim unpaddedInputShape table proof verifier nodeId =
          .ok result →
        ProofUsed (lookupOp.inputConfig info unpaddedInputShape) proof

variable {U fl lookupOp lastClaim unpaddedInputShape table} {proof : GenericLookupProof D C}
  {verifier : Verifier D C} {nodeId : NodeId}

/-- The verifier panics at a circuit with less than four outputs. -/
theorem panics_of_short_output {info : ChunkingInfo} (hinfo : lookupOp.chunkingInfo table = .ok info)
    {output : List F} (houtput : output ∈ proof.logupProof.circuitOutputs)
    (hlength : output.length < 4) :
    (verifyLookupOp U fl lookupOp lastClaim unpaddedInputShape table proof verifier
      nodeId).Panics := by
  have hsort : ((lookupOp.inputConfig info unpaddedInputShape).sortFractionalOutputs fl
      verifier.numeratorsAndDenominators proof.logupProof).Panics := by
    rw [LookupInputConfig.sortFractionalOutputs, Outcome.panics_bind]
    exact .inl (panics_fractionalOutputs houtput hlength)
  have hverify : (verifyArguments U fl lookupOp lastClaim unpaddedInputShape table proof
      verifier).Panics := by
    rw [verifyArguments, hinfo, Outcome.ok_bind, Outcome.panics_bind]
    exact .inl hsort
  rw [verifyLookupOp, Outcome.panics_bind]
  exact .inl hverify

omit [Field F] [DecidableEq F] in
theorem not_panics_chunkingInfo (lookupOp : LookupOp) (table : Table) :
    ¬ (lookupOp.chunkingInfo table).Panics := by
  rw [LookupOp.chunkingInfo, ChunkingInfo.new]
  simp only [Outcome.panics_bind, Outcome.not_panics_ensure, Outcome.not_panics_ok, false_or,
    and_false, exists_false, not_false_eq_true]

end DeepProve
