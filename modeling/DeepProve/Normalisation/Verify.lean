import DeepProve.EinSum.Binding
import DeepProve.Lookup.Totality

/-!
# The verifiers of RMSNorm and LayerNorm

`layers/transformer/normalisation`, `rmsnorm/verify.rs` and `layernorm/verify.rs`: both layers are a
lookup whose right shift is taken from the proof.
-/

namespace DeepProve

/-- `new_normalisation`. -/
def Table.newNormalisation (bitSize : Nat) : Table := ⟨.requantise, oneBits, oneBits, bitSize⟩

/-- A context of RMSNorm. Of the scaling factors it has what is computed from them. -/
structure RMSNormCtx where
  normalisationDimSize : Nat
  alphaKey : Option CommitmentId
  /-- `input_scaling.bit_size()`. -/
  inputBitSize : Nat
  /-- `normalisation_scaling.bit_size()`. -/
  normalisationBitSize : Nat
  /-- The size of the dimension over the square of the scale. -/
  normalisationSumSq : Int
  errorBound : Int
  inputBitSize_le : inputBitSize ≤ 64

/-- A context of LayerNorm, see `RMSNormCtx`. -/
structure LayerNormCtx where
  normalisationDimSize : Nat
  gammaKey : CommitmentId
  betaKey : CommitmentId
  /-- `mean_scaling.bit_size()`. -/
  meanBitSize : Nat
  normalisationBitSize : Nat
  normalisationSumSq : Int
  magnitudeErrorBound : Int
  normalisationDimSize_pos : 0 < normalisationDimSize
  normalisationDimSize_le : normalisationDimSize ≤ 2 ^ 64
  meanBitSize_le : meanBitSize ≤ 64

structure RMSNormProof {F : Type} (D : DpCrypto F) (C : Type) where
  logupProof : LogUpBatchProof D
  rightShift : Int
  commitments : List (VerifierCommitment C)
  ioProof : D.IOPProof
  ioEvaluations : List F
  alphaEvaluation : Option F

structure LayerNormProof {F : Type} (D : DpCrypto F) (C : Type) where
  logupProof : LogUpBatchProof D
  rightShift : UInt64
  commitments : List (VerifierCommitment C)
  ioProof : D.IOPProof
  ioEvaluations : List F
  meanEvals : List F
  gammaEval : F
  betaEval : F

/-- The lookup operation of both layers. -/
def normalisationOp (rightShift : Int) (intermediateBitSize : Nat) (variant : LookupVariant) :
    LookupOp where
  rightShift := rightShift.natAbs
  fixedPointMultiplier := 1
  maxBitSize := intermediateBitSize + fixedPointScale
  valueChunks := 1
  paddingValue := 0
  variant

/-- `RMSNormLookupVerifier`. -/
def RMSNormCtx.lookupOp (self : RMSNormCtx) (rightShift : Int) : LookupOp :=
  normalisationOp rightShift (self.inputBitSize + 1)
    (.normalisation self.normalisationSumSq self.errorBound none self.alphaKey.isSome)

def RMSNormCtx.table (self : RMSNormCtx) : Table :=
  .newNormalisation (self.normalisationBitSize + 1)

/-- `LayerNormLookupVerifier`. -/
def LayerNormCtx.lookupOp (self : LayerNormCtx) (rightShift : UInt64) : LookupOp :=
  normalisationOp (wrapI64 rightShift.toNat) (self.meanBitSize + 1)
    (.normalisation self.normalisationSumSq self.magnitudeErrorBound
      (some (0, (self.normalisationDimSize : Int))) true)

def LayerNormCtx.table (self : LayerNormCtx) : Table :=
  .newNormalisation (self.normalisationBitSize + 1)

section Verify

variable {F : Type} [Field F] [DecidableEq F] {D : DpCrypto F} {C : Type} (U : SumcheckUtil D)
  (fl : Float32Ops)

/-- The claims of a node about polynomials of the model. -/
def Verifier.addCommonClaims (verifier : Verifier D C) (nodeId : NodeId)
    (claims : HashMap CommitmentId (Claim F)) : Outcome (Verifier D C) := do
  let commitVerifier ← verifier.commitVerifier.addCommonClaims
    (claims.toList.map fun (polyId, claim) => (polyId, [(nodeId, claim)]))
  .ok { verifier with commitVerifier }

/-- `RMSNormCtx::verify_internal`. -/
def RMSNormCtx.verifyInternal (self : RMSNormCtx) (proof : RMSNormProof D C) (id : NodeId)
    (verifier : Verifier D C) (lastClaim : Claim F) (shapeStep : ShapeStep) :
    Outcome (List (Claim F) × Verifier D C) := do
  let genericLookupProof : GenericLookupProof D C :=
    { logupProof := proof.logupProof
      sumcheckProof := proof.ioProof
      evaluations := proof.ioEvaluations
      commitments := proof.commitments
      weightEvaluation := proof.alphaEvaluation
      shiftEvaluations := none }
  let unpaddedInputShape ← unwrap shapeStep.unpaddedInputShape[0]? "index out of bounds"
  let (result, verifier) ← verifyLookupOp U fl (self.lookupOp proof.rightShift) lastClaim
    unpaddedInputShape self.table genericLookupProof verifier id
  match proof.alphaEvaluation, result.weightEvaluationPoint, self.alphaKey with
  | some alphaEval, some weightEvalPoint, some alphaKey => do
    let claimsMap : HashMap CommitmentId (Claim F) :=
      (∅ : HashMap CommitmentId (Claim F)).insert alphaKey ⟨weightEvalPoint, alphaEval⟩
    let verifier ← verifier.addCommonClaims id claimsMap
    .ok (result.inputClaims, verifier)
  | none, none, none => .ok (result.inputClaims, verifier)
  | _, _, _ => .error (.err "Inconsistent alpha key/evaluation state in RMSNorm verification")

/-- The contribution of the bias to a claim, up to its evaluation, and the point of the bias. -/
def LayerNormCtx.biasPart (self : LayerNormCtx) (lastClaim : Claim F) (shapeStep : ShapeStep) :
    Outcome (F × List F) := do
  let paddedInputShape ← unwrap shapeStep.paddedInputShape[0]? "index out of bounds"
  let dimPoints ← paddedInputShape.splitPoint lastClaim.point
  let unpaddedInputShape ← unwrap shapeStep.unpaddedInputShape[0]? "index out of bounds"
  let rankDiff ← usizeSub unpaddedInputShape.rank 1
  let unbroadcastShape := List.replicate rankDiff 1 ++ [self.normalisationDimSize]
  let biasLtEval ← unpaddedInputShape.broadcastingEvaluation dimPoints unbroadcastShape
  let betaPoint ← okOr dimPoints.getLast?
    "Could not get last dimension point for beta evaluation in LayerNorm proving"
  .ok (biasLtEval, betaPoint)

/-- `LayerNormCtx::verify_internal`. -/
def LayerNormCtx.verifyInternal (self : LayerNormCtx) (proof : LayerNormProof D C) (id : NodeId)
    (verifier : Verifier D C) (lastClaim : Claim F) (shapeStep : ShapeStep) :
    Outcome (List (Claim F) × Verifier D C) := do
  let (biasLtEval, betaPoint) ← self.biasPart lastClaim shapeStep
  let lastClaim : Claim F := ⟨lastClaim.point, lastClaim.eval - proof.betaEval * biasLtEval⟩
  let genericLookupProof : GenericLookupProof D C :=
    { logupProof := proof.logupProof
      sumcheckProof := proof.ioProof
      evaluations := proof.ioEvaluations
      commitments := proof.commitments
      weightEvaluation := some proof.gammaEval
      shiftEvaluations := some proof.meanEvals }
  let unpaddedInputShape ← unwrap shapeStep.unpaddedInputShape[0]? "index out of bounds"
  let (result, verifier) ← verifyLookupOp U fl (self.lookupOp proof.rightShift) lastClaim
    unpaddedInputShape self.table genericLookupProof verifier id
  let gammaPoint ← okOr result.weightEvaluationPoint
    "Missing gamma weight evaluation point in LayerNorm verification"
  let claimsMap : HashMap CommitmentId (Claim F) :=
    ((∅ : HashMap CommitmentId (Claim F)).insert self.gammaKey ⟨gammaPoint, proof.gammaEval⟩).insert
      self.betaKey ⟨betaPoint, proof.betaEval⟩
  let verifier ← verifier.addCommonClaims id claimsMap
  .ok (result.inputClaims, verifier)

end Verify

/-! ## Proofs that make the verifier panic -/

/-- The shape step of a layer with one input, whose dimensions are those of a tensor. -/
structure ShapeStep.OfTensor (shapeStep : ShapeStep) (shape : Shape) : Prop where
  unpadded : shapeStep.unpaddedInputShape = [shape]
  padded : shapeStep.paddedInputShape = [shape.nextPowerOfTwo]
  ne_nil : shape ≠ []
  dim_pos : ∀ dim ∈ shape, 0 < dim
  dim_le : ∀ dim ∈ shape, dim ≤ 2 ^ 64

section Settles

variable {F : Type} [Field F] [DecidableEq F] {D : DpCrypto F} {C : Type} (U : SumcheckUtil D)
  (fl : Float32Ops)

variable (C) in
/-- The verifier of RMSNorm returns, whatever else is in a proof with the right shift. -/
def RMSNormCtx.SettlesFor (self : RMSNormCtx) (rightShift : Int) : Prop :=
  ∀ (proof : RMSNormProof D C) (id : NodeId) (verifier : Verifier D C) (lastClaim : Claim F)
    (shapeStep : ShapeStep) (shape : Shape), proof.rightShift = rightShift →
    shapeStep.OfTensor shape →
    (self.verifyInternal U fl proof id verifier lastClaim shapeStep).Settles

variable (C) in
/-- The verifier of LayerNorm returns, whatever else is in a proof with the right shift. -/
def LayerNormCtx.SettlesFor (self : LayerNormCtx) (rightShift : UInt64) : Prop :=
  ∀ (proof : LayerNormProof D C) (id : NodeId) (verifier : Verifier D C) (lastClaim : Claim F)
    (shapeStep : ShapeStep) (shape : Shape), proof.rightShift = rightShift →
    shapeStep.OfTensor shape →
    (self.verifyInternal U fl proof id verifier lastClaim shapeStep).Settles

/-- Nothing can be decomposed if nothing is shifted out. -/
theorem chunkingInfo_normalisationOp (rightShift : Int) (intermediateBitSize : Nat)
    (variant : LookupVariant) (table : Table) :
    (∃ info, (normalisationOp rightShift intermediateBitSize variant).chunkingInfo table =
        .ok info) ∧ rightShift ≠ 0 ∨
      (∃ msg, (normalisationOp rightShift intermediateBitSize variant).chunkingInfo table =
        .error (.err msg)) ∧ rightShift = 0 := by
  by_cases hshift : rightShift = 0
  · refine .inr ⟨?_, hshift⟩
    rw [hshift]
    exact ⟨_, rfl⟩
  · refine .inl ⟨?_, hshift⟩
    have hpos : 0 < rightShift.natAbs := Int.natAbs_pos.mpr hshift
    unfold LookupOp.chunkingInfo normalisationOp ChunkingInfo.new
    simp only [hpos, decide_true, ensure_true, Outcome.ok_bind, BEq.rfl, Bool.true_or]
    exact ⟨_, rfl⟩

variable {lookupOp : LookupOp} {lastClaim : Claim F} {shape : Shape} {table : Table}
  {proof : GenericLookupProof D C} {verifier : Verifier D C} {id : NodeId}

theorem verifyLookupOp_eq_err {msg : String} (h : lookupOp.chunkingInfo table = .error (.err msg)) :
    verifyLookupOp U fl lookupOp lastClaim shape table proof verifier id = .error (.err msg) := by
  rw [verifyLookupOp, verifyArguments, h]
  rfl

/-- A circuit without outputs: the first access to the proof panics. -/
theorem not_settles_verifyLookupOp {info : ChunkingInfo}
    (hinfo : lookupOp.chunkingInfo table = .ok info)
    (hproof : proof.logupProof = ⟨[], [], [], [[]]⟩) :
    ¬ (verifyLookupOp U fl lookupOp lastClaim shape table proof verifier id).Settles := by
  have houtput : [] ∈ proof.logupProof.circuitOutputs := by
    rw [hproof]
    exact List.mem_cons_self
  obtain ⟨msg, hmsg⟩ := @panics_of_short_output _ _ _ _ _ U fl _ lastClaim shape _ _ verifier id _
    hinfo _ houtput (Nat.succ_pos 3)
  rw [hmsg]
  exact Outcome.not_settles_panic msg

theorem RMSNormCtx.settlesFor_iff [Inhabited D.Transcript] [Inhabited D.IOPProof]
    (self : RMSNormCtx) (rightShift : Int) :
    self.SettlesFor C U fl rightShift ↔ rightShift = 0 := by
  constructor
  · intro hsettles
    rcases chunkingInfo_normalisationOp rightShift (self.inputBitSize + 1)
      (self.lookupOp rightShift).variant self.table with ⟨⟨info, hinfo⟩, _⟩ | ⟨_, hzero⟩
    · let proof : RMSNormProof D C := ⟨⟨[], [], [], [[]]⟩, rightShift, [], default, [], none⟩
      have hcall := hsettles proof 0 ⟨.default, default, ⟨0, ∅⟩, ∅⟩ ⟨[], 0⟩
        ⟨[[1]], [Shape.nextPowerOfTwo [1]]⟩ [1] rfl ⟨rfl, rfl, by decide, by decide, by decide⟩
      simp only [RMSNormCtx.verifyInternal, List.getElem?_cons_zero, unwrap_some,
        Outcome.ok_bind] at hcall
      exact absurd (Outcome.settles_bind.mp hcall).1 (not_settles_verifyLookupOp U fl hinfo rfl)
    · exact hzero
  · rintro rfl proof id verifier lastClaim shapeStep shape hright hshape
    rcases chunkingInfo_normalisationOp 0 (self.inputBitSize + 1)
      (self.lookupOp 0).variant self.table with ⟨_, hne⟩ | ⟨⟨msg, hmsg⟩, _⟩
    · exact absurd rfl hne
    · have hinfo : (self.lookupOp proof.rightShift).chunkingInfo self.table = .error (.err msg) := by
        rw [hright]
        exact hmsg
      simp only [RMSNormCtx.verifyInternal, hshape.unpadded, List.getElem?_cons_zero, unwrap_some,
        Outcome.ok_bind, verifyLookupOp_eq_err U fl hinfo, Outcome.error_bind, Outcome.settles_err]

/-! ### The part of the bias -/

omit [Field F] [DecidableEq F] in
/-- A slice has at most the coordinates of one dimension. -/
theorem length_le_of_mem_splitSlices {point slice : List F} {vars : List Nat}
    (h : slice ∈ Shape.splitSlices point vars) : ∃ v ∈ vars, slice.length ≤ v := by
  induction vars generalizing point with
  | nil => cases h
  | cons v vars ih =>
    rw [Shape.splitSlices, List.mem_cons] at h
    rcases h with rfl | h
    · refine ⟨v, List.mem_cons_self, ?_⟩
      rw [List.length_drop]
      omega
    · obtain ⟨v', hv', hle⟩ := ih h
      exact ⟨v', List.mem_cons_of_mem v hv', hle⟩

omit [DecidableEq F] in
theorem settles_broadcastDim {eval : F} {fullDim unbroadcastDim : Nat} {point : List F}
    (hdim : 0 < fullDim) (hpoint : point.length ≤ 64) :
    (Shape.broadcastDim eval (fullDim, unbroadcastDim, point)).Settles := by
  simp only [Shape.broadcastDim]
  split
  · have hsub : usizeSub fullDim 1 = .ok (fullDim - 1) := if_pos hdim
    simp only [hsub, bitsOf_eq_ok hpoint, Outcome.ok_bind, Outcome.settles_ok]
  · exact Outcome.settles_bind.mpr ⟨Outcome.settles_ensure _ _, fun _ _ => Outcome.settles_ok _⟩

omit [DecidableEq F] in
/-- The part before the lookup returns on the shape of a tensor. -/
theorem LayerNormCtx.settles_biasPart (self : LayerNormCtx) {shapeStep : ShapeStep} {shape : Shape}
    (hshape : shapeStep.OfTensor shape) (lastClaim : Claim F) :
    (self.biasPart lastClaim shapeStep).Settles := by
  have hrank : usizeSub shape.rank 1 = .ok (shape.rank - 1) :=
    if_pos (List.length_pos_iff.mpr hshape.ne_nil)
  simp only [biasPart, hshape.unpadded, hshape.padded, List.getElem?_cons_zero, unwrap_some,
    Outcome.ok_bind, hrank]
  refine Outcome.settles_bind.mpr ⟨?_, fun dimPoints hdimPoints => ?_⟩
  · rw [Shape.splitPoint, Shape.numVars_nextPowerOfTwo, Outcome.ok_bind]
    exact Outcome.settles_bind.mpr ⟨Outcome.settles_ensure _ _, fun _ _ => Outcome.settles_ok _⟩
  obtain ⟨-, rfl⟩ := Shape.splitPoint_eq_ok_iff.mp hdimPoints
  refine Outcome.settles_bind.mpr ⟨?_, fun _ _ => Outcome.settles_bind.mpr
    ⟨Outcome.settles_okOr _ _, fun _ _ => Outcome.settles_ok _⟩⟩
  refine Outcome.settles_bind.mpr ⟨Outcome.settles_ensure _ _, fun _ _ => ?_⟩
  refine Outcome.settles_bind.mpr ⟨Outcome.settles_ensure _ _, fun _ _ => ?_⟩
  rw [Outcome.settles_foldlM]
  rintro pre ⟨fullDim, unbroadcastDim, point⟩ post eval hsplit -
  have hmem := List.of_mem_zip (hsplit ▸ List.mem_append_right pre List.mem_cons_self)
  have hslice := (List.of_mem_zip hmem.2).2
  obtain ⟨v, hv, hle⟩ := length_le_of_mem_splitSlices hslice
  obtain ⟨dim, hdim, rfl⟩ := List.mem_map.mp hv
  -- a dimension is a `usize`, so it has at most 64 variables
  have h64 : ceilLog2 dim ≤ 64 := Nat.clog_le_of_le_pow (hshape.dim_le dim hdim)
  exact settles_broadcastDim (hshape.dim_pos fullDim hmem.1) (hle.trans h64)

omit [DecidableEq F] in
/-- The part before the lookup succeeds on a row of the size that is normalised. -/
theorem LayerNormCtx.exists_biasPart (self : LayerNormCtx)
    (hle : self.normalisationDimSize ≤ 2 ^ 64) (hpos : 0 < self.normalisationDimSize) :
    ∃ part, self.biasPart ⟨List.replicate (ceilLog2 self.normalisationDimSize) (0 : F), 0⟩
      ⟨[[self.normalisationDimSize]], [Shape.nextPowerOfTwo [self.normalisationDimSize]]⟩ =
      .ok part := by
  set dim := self.normalisationDimSize with hdim
  set point := List.replicate (ceilLog2 dim) (0 : F) with hpoint
  have hlength : point.length = ceilLog2 dim := List.length_replicate
  have hslices : Shape.splitSlices point [ceilLog2 dim] = [point] := by
    rw [Shape.splitSlices, hlength, Nat.sub_self, List.drop_zero]
    rfl
  have hsplit : Shape.splitPoint (Shape.nextPowerOfTwo [dim]) point = .ok [point] := by
    rw [Shape.splitPoint_eq_ok [dim] (by simp [Shape.dimVars, hlength]), ← hslices]
    rfl
  have hrank : usizeSub (Shape.rank [dim]) 1 = .ok 0 := rfl
  have h64 : point.length ≤ 64 := hlength.trans_le (Nat.clog_le_of_le_pow hle)
  have hbroadcast : ∃ eval : F, Shape.broadcastDim (1 : F) (dim, dim, point) = .ok eval := by
    simp only [Shape.broadcastDim]
    split
    · have hsub : usizeSub dim 1 = .ok (dim - 1) := if_pos hpos
      exact ⟨_, by rw [hsub, Outcome.ok_bind, bitsOf_eq_ok h64]; rfl⟩
    · exact ⟨1, by rw [beq_self_eq_true]; rfl⟩
  obtain ⟨eval, heval⟩ := hbroadcast
  have hfold : Shape.broadcastingEvaluation [dim] [point] [dim] = .ok eval := by
    show ([dim].zip ([dim].zip [point])).foldlM Shape.broadcastDim 1 = .ok eval
    rw [List.zip_cons_cons, List.zip_cons_cons, List.foldlM_cons, heval]
    rfl
  refine ⟨(eval, point), ?_⟩
  simp only [biasPart, List.getElem?_cons_zero, unwrap_some, Outcome.ok_bind, hsplit, hrank,
    List.replicate_zero, List.nil_append, ← hdim, hfold]
  rfl

theorem wrapI64_toNat_eq_zero {x : UInt64} : wrapI64 x.toNat = 0 ↔ x = 0 := by
  have hlt := x.toNat_lt
  have hzero : x = 0 ↔ x.toNat = 0 := by
    rw [← UInt64.toNat_inj]
    rfl
  rw [hzero]
  by_cases hsmall : x.toNat < 2 ^ 63
  · rw [ChunkingInfo.wrapI64_of_lt (by omega) (by exact_mod_cast hsmall)]
    omega
  · rw [ChunkingInfo.wrapI64_of_ge (by omega) (by exact_mod_cast hlt)]
    omega

theorem LayerNormCtx.chunkingInfo_lookupOp (self : LayerNormCtx) (rightShift : UInt64) :
    (∃ info, (self.lookupOp rightShift).chunkingInfo self.table = .ok info) ∧ rightShift ≠ 0 ∨
      (∃ msg, (self.lookupOp rightShift).chunkingInfo self.table = .error (.err msg)) ∧
        rightShift = 0 := by
  rw [ne_eq, ← wrapI64_toNat_eq_zero]
  exact chunkingInfo_normalisationOp _ (self.meanBitSize + 1) _ self.table

theorem LayerNormCtx.settlesFor_iff [Inhabited D.Transcript] [Inhabited D.IOPProof]
    (self : LayerNormCtx) (rightShift : UInt64) :
    self.SettlesFor C U fl rightShift ↔ rightShift = 0 := by
  constructor
  · intro hsettles
    rcases self.chunkingInfo_lookupOp rightShift with ⟨⟨info, hinfo⟩, _⟩ | ⟨_, hzero⟩
    · obtain ⟨proof, hright, hlogup⟩ : ∃ proof : LayerNormProof D C,
          proof.rightShift = rightShift ∧ proof.logupProof = ⟨[], [], [], [[]]⟩ :=
        ⟨⟨⟨[], [], [], [[]]⟩, rightShift, [], default, [], [], 0, 0⟩, rfl, rfl⟩
      rw [← hright] at hinfo
      have hdim := self.normalisationDimSize_pos
      have hle := self.normalisationDimSize_le
      obtain ⟨part, hpart⟩ := @LayerNormCtx.exists_biasPart F _ self hle hdim
      have hshape : ShapeStep.OfTensor ⟨[[self.normalisationDimSize]],
          [Shape.nextPowerOfTwo [self.normalisationDimSize]]⟩ [self.normalisationDimSize] :=
        ⟨rfl, rfl, List.cons_ne_nil _ _, List.forall_mem_singleton.mpr hdim,
          List.forall_mem_singleton.mpr hle⟩
      have hcall := hsettles proof 0 ⟨.default, default, ⟨0, ∅⟩, ∅⟩
        ⟨List.replicate (ceilLog2 self.normalisationDimSize) 0, 0⟩ _ _ hright hshape
      rw [LayerNormCtx.verifyInternal, hpart, Outcome.ok_bind] at hcall
      dsimp only at hcall
      rw [List.getElem?_cons_zero, unwrap_some, Outcome.ok_bind] at hcall
      exact absurd (Outcome.settles_bind.mp hcall).1
        (not_settles_verifyLookupOp U fl hinfo hlogup)
    · exact hzero
  · intro hzero proof id verifier lastClaim shapeStep shape hright hshape
    rcases self.chunkingInfo_lookupOp rightShift with ⟨_, hne⟩ | ⟨⟨msg, hmsg⟩, _⟩
    · exact absurd hzero hne
    · rw [← hright] at hmsg
      refine Outcome.settles_bind.mpr ⟨self.settles_biasPart hshape lastClaim, fun part _ => ?_⟩
      simp only [hshape.unpadded, List.getElem?_cons_zero, unwrap_some, Outcome.ok_bind,
        verifyLookupOp_eq_err U fl hmsg, Outcome.error_bind, Outcome.settles_err]

end Settles

end DeepProve
