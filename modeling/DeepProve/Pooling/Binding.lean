import DeepProve.Pooling.Verify

/-!
# What the claims of a pooling layer bind

The verifier of the sumcheck and the challenges are any functions. The number of evaluations, the
number of commitments and where the point of the input is cut are all said by the proof. The two
coordinates at which the four entries of a kernel are interpolated are one and the same challenge, so
the entries beside the diagonal can be exchanged.
-/

namespace DeepProve

open Outcome

namespace PoolingCtx

variable {F : Type} [Field F] [DecidableEq F] {D : DpCrypto F} {C : Type} {self : PoolingCtx}
  {fl : Float32Ops} {verifier : Verifier D C} {proof : PoolingProof D C} {nodeId : NodeId}
  {v : SumcheckVerifier F D.IOPProof D.Transcript}
  {sample : D.Transcript → String → F × D.Transcript} {lastClaim : Claim F} {shapeStep : OutputShapeStep}
  {a b : Nat}

/-! ## The shapes -/

theorem maxpool2dShape_eq (a b : Nat) :
    maxpool2dShape [2 ^ a, 2 ^ (b + 1), 2 ^ (b + 1)] = .ok [2 ^ a, 2 ^ b, 2 ^ b] := by
  have hpos := Nat.two_pow_pos b
  have hhalf : (2 ^ (b + 1) - 1 - 1) / 2 + 1 = 2 ^ b := by
    rw [pow_succ]
    omega
  have htwo : 2 ≤ 2 ^ (b + 1) := by
    rw [pow_succ]
    omega
  simp only [maxpool2dShape, List.getElem?_cons_zero, List.getElem?_cons_succ, unwrap_some, ok_bind,
    usizeSub, Nat.mul_zero, Nat.add_zero, Nat.one_mul, Nat.add_one_sub_one]
  rw [if_pos (by omega), ok_bind, if_pos (by omega), ok_bind, hhalf]

theorem ceilLog2_two_pow (n : Nat) : ceilLog2 (2 ^ n) = n := Nat.clog_pow 2 n (by decide)

theorem outputShapes_eq (hshape : shapeStep.paddedInputShape = [[2 ^ a, 2 ^ (b + 1), 2 ^ (b + 1)]]) :
    self.outputShapes shapeStep.paddedInputShape = .ok [[2 ^ a, 2 ^ b, 2 ^ b]] := by
  rw [hshape, outputShapes, List.mapM_cons, maxpool2dShape_eq]
  rfl

/-- The number of variables of the padded output. -/
theorem numVarsForOutputs_eq (a b : Nat) :
    numVarsForOutputs [[2 ^ a, 2 ^ b, 2 ^ b]] = .ok (a + (b + b)) := by
  simp [numVarsForOutputs, ceilLog2_two_pow]

theorem verifyPooling_eq
    (hshape : shapeStep.paddedInputShape = [[2 ^ a, 2 ^ (b + 1), 2 ^ (b + 1)]]) :
    self.verifyPooling fl v sample verifier lastClaim proof nodeId shapeStep =
      verifyLookups fl verifier proof shapeStep >>= fun (batchClaim, transcript, stored) =>
        verifyZerocheck v sample verifier lastClaim proof nodeId (a + (b + b)) batchClaim transcript
          stored := by
  simp only [verifyPooling, outputShapes_eq hshape, numVarsForOutputs_eq, ok_bind]

/-! ## An accepted run -/

section Run

variable {batchClaim : LogUpBatchVerifierClaim F} {t : D.Transcript} {stored : NumeratorsAndDenominators F}
  {numVars : Nat}

/-- What the sumcheck is about. -/
def zerocheckSum (sample : D.Transcript → String → F × D.Transcript) (t : D.Transcript)
    (batchClaim : LogUpBatchVerifierClaim F) (lastClaim : Claim F) : F :=
  initialValue batchClaim.polyEvals (sample t "batch_pooling").1 lastClaim.eval

/-- The identity that the result of the sumcheck has to satisfy at a point. -/
def identityAt (sample : D.Transcript → String → F × D.Transcript) (t : D.Transcript)
    (batchClaim : LogUpBatchVerifierClaim F) (lastClaim : Claim F) (kernelEvals : List F)
    (outputEval : F) (point : List F) : F :=
  zerocheckEval (identityEval batchClaim.point point) (identityEval lastClaim.point point)
    (sample t "batch_pooling").1 kernelEvals outputEval

/-- The claim about the input, for a value of the last challenge. -/
def inputClaim (kernelEvals : List F) (outputEval : F) (gap : Nat) (point : List F) (r : F) : Claim F :=
  ⟨[r] ++ point.take gap ++ [r] ++ point.drop gap, zerocheckInputEval kernelEvals outputEval r r⟩

/-- The claims about the commitments. -/
def witnessClaims (proof : PoolingProof D C) (point : List F) : List (VerifierClaim F C) :=
  (proof.commitments.zip (proof.zerocheckEvals.map fun eval => ⟨point, eval⟩)).map
    fun (comm, claim) => ⟨comm, [claim]⟩

omit [Field F] [DecidableEq F] in
theorem fromMleListDimensions_replicate (n : Nat) :
    fromMleListDimensions [List.replicate 5 n] = ⟨5, n⟩ := by
  simp [fromMleListDimensions, List.replicate]

/-- The run of a proof with evaluations. -/
theorem verifyZerocheck_eq {kernelEvals : List F} {outputEval : F}
    (hevals : proof.zerocheckEvals = kernelEvals ++ [outputEval]) :
    verifyZerocheck v sample verifier lastClaim proof nodeId numVars batchClaim t stored =
      v (zerocheckSum sample t batchClaim lastClaim) proof.sumcheck ⟨5, numVars⟩
          (sample t "batch_pooling").2 >>= fun (subclaim, t') => (do
        ensure (identityAt sample t batchClaim lastClaim kernelEvals outputEval subclaim.point ==
          subclaim.expectedEvaluation)
          "Expected pooling zerocheck claim did not equal the verifier claim"
        let _ ← sliceTo subclaim.point proof.variableGap
        .ok (inputClaim kernelEvals outputEval proof.variableGap subclaim.point
            (sample t' "input_batching").1,
          { verifier with
            commitVerifier := verifier.commitVerifier.addWitnessClaim nodeId
              (witnessClaims proof subclaim.point)
            transcript := (sample t' "input_batching").2
            numeratorsAndDenominators := stored })) := by
  have hlast : (kernelEvals ++ [outputEval])[kernelEvals.length]? = some outputEval := by simp
  have htake : (kernelEvals ++ [outputEval]).take kernelEvals.length = kernelEvals := by simp
  unfold verifyZerocheck
  rw [fromMleListDimensions_replicate, hevals, List.length_append, List.length_singleton, usizeSub,
    if_pos (Nat.le_add_left _ _), Nat.add_sub_cancel]
  simp only [ok_bind, hlast, htake, unwrap_some]
  congr 1
  funext ⟨subclaim, t'⟩
  dsimp only
  congr 1
  funext _
  unfold sliceTo sliceFrom
  by_cases hgap : proof.variableGap ≤ subclaim.point.length
  · simp only [if_pos hgap, ok_bind]
    simp [inputClaim, witnessClaims, hevals]
  · simp only [if_neg hgap]
    rfl

/-- A proof without evaluations makes the verifier panic. -/
theorem verifyZerocheck_nil (hevals : proof.zerocheckEvals = []) :
    verifyZerocheck v sample verifier lastClaim proof nodeId numVars batchClaim t stored =
      v (zerocheckSum sample t batchClaim lastClaim) proof.sumcheck ⟨5, numVars⟩
          (sample t "batch_pooling").2 >>= fun _ =>
        .error (.panic "attempt to subtract with overflow") := by
  unfold verifyZerocheck
  rw [fromMleListDimensions_replicate, hevals]
  rfl

end Run

/-! ## A single proof -/

section Single

/-- The interpolation of the entries of a kernel, from the output and the differences. -/
def interpolate (output d₀ d₁ d₂ d₃ r₁ r₂ : F) : F :=
  (1 - r₁) * (1 - r₂) * (output - d₀) + (1 - r₁) * r₂ * (output - d₁) +
    r₁ * (1 - r₂) * (output - d₂) + r₁ * r₂ * (output - d₃)

omit [DecidableEq F] in
theorem zerocheckInputEval_four (d₀ d₁ d₂ d₃ output r₁ r₂ : F) :
    zerocheckInputEval [d₀, d₁, d₂, d₃] output r₁ r₂ = interpolate output d₀ d₁ d₂ d₃ r₁ r₂ := by
  simp only [zerocheckInputEval, List.zip_cons_cons, List.zip_nil_left, List.foldl_cons,
    List.foldl_nil, interpolate]
  ring

omit [DecidableEq F] in
theorem zerocheckEval_four (β βLast χ d₀ d₁ d₂ d₃ output : F) :
    zerocheckEval β βLast χ [d₀, d₁, d₂, d₃] output =
      β * (d₀ * d₁ * d₂ * d₃) + β * (χ * d₀ + χ ^ 2 * d₁ + χ ^ 3 * d₂ + χ ^ 4 * d₃) +
        χ ^ 5 * βLast * output := by
  simp only [zerocheckEval, List.foldl_cons, List.foldl_nil]
  ring

/-- What an accepted run has checked and handed on, after the lookups. -/
def KernelChecked (v : SumcheckVerifier F D.IOPProof D.Transcript)
    (sample : D.Transcript → String → F × D.Transcript) (verifier : Verifier D C) (lastClaim : Claim F)
    (proof : PoolingProof D C) (nodeId : NodeId) (a b : Nat)
    (batchClaim : LogUpBatchVerifierClaim F) (t : D.Transcript) (claim : Claim F)
    (verifier' : Verifier D C) : Prop :=
  ∃ (d₀ d₁ d₂ d₃ output : F) (subclaim : SumcheckSubclaim F) (t' : D.Transcript),
    proof.zerocheckEvals = [d₀, d₁, d₂, d₃, output] ∧
    v (zerocheckSum sample t batchClaim lastClaim) proof.sumcheck ⟨5, a + (b + b)⟩
      (sample t "batch_pooling").2 = .ok (subclaim, t') ∧
    (let χ := (sample t "batch_pooling").1
     let β := identityEval batchClaim.point subclaim.point
     let βLast := identityEval lastClaim.point subclaim.point
     subclaim.expectedEvaluation = β * (d₀ * d₁ * d₂ * d₃) +
      β * (χ * d₀ + χ ^ 2 * d₁ + χ ^ 3 * d₂ + χ ^ 4 * d₃) + χ ^ 5 * βLast * output) ∧
    (∃ commitments, commitments <+: proof.commitments ∧ commitments.length = 5 ∧
      verifier'.commitVerifier = verifier.commitVerifier.addWitnessClaim nodeId
        ((commitments.zip proof.zerocheckEvals).map fun (comm, eval) =>
          ⟨comm, [⟨subclaim.point, eval⟩]⟩)) ∧
    ∃ r₁ r₂, claim.point = [r₁] ++ subclaim.point.take b ++ [r₂] ++ subclaim.point.drop b ∧
      claim.eval = interpolate output d₀ d₁ d₂ d₃ r₁ r₂

variable (self fl verifier proof nodeId shapeStep a b)

/-- Whatever the sumcheck verifier and the challenges are: no panic, and what is accepted is
    checked. -/
def ChecksKernel : Prop :=
  ∀ (v : SumcheckVerifier F D.IOPProof D.Transcript)
    (sample : D.Transcript → String → F × D.Transcript) (lastClaim : Claim F), v.Proper →
    ¬ (self.verifyPooling fl v sample verifier lastClaim proof nodeId shapeStep).Panics ∧
    ∀ claim verifier', self.verifyPooling fl v sample verifier lastClaim proof nodeId shapeStep =
        .ok (claim, verifier') →
      ∃ batchClaim t stored, verifyLookups fl verifier proof shapeStep = .ok (batchClaim, t, stored) ∧
        KernelChecked v sample verifier lastClaim proof nodeId a b batchClaim t claim verifier'

end Single

/-- Five evaluations and as many commitments, and the point of the input is cut after the coordinates
    of a row. -/
structure Adequate (proof : PoolingProof D C) (b : Nat) : Prop where
  evals : proof.zerocheckEvals.length = 5
  commitments : 5 ≤ proof.commitments.length
  gap : proof.variableGap = b

/-- The lookups of the proof do not make the verifier panic, and if they are accepted then the rest of
    the proof has the right sizes. -/
def Fits (fl : Float32Ops) (verifier : Verifier D C) (proof : PoolingProof D C)
    (shapeStep : OutputShapeStep) (b : Nat) : Prop :=
  ¬ (verifyLookups fl verifier proof shapeStep).Panics ∧
    ∀ lookups, verifyLookups fl verifier proof shapeStep = .ok lookups → Adequate proof b

omit [Field F] [DecidableEq F] in
/-- The evaluations of such a proof. -/
theorem Adequate.exists_evals (h : Adequate proof b) :
    ∃ d₀ d₁ d₂ d₃ output, proof.zerocheckEvals = [d₀, d₁, d₂, d₃] ++ [output] := by
  match hevals : proof.zerocheckEvals, h.evals with
  | [d₀, d₁, d₂, d₃, output], _ => exact ⟨d₀, d₁, d₂, d₃, output, rfl⟩

omit [Field F] [DecidableEq F] in
/-- Each evaluation is claimed of one commitment. -/
theorem Adequate.witnessClaims_eq (h : Adequate proof b) (point : List F) :
    witnessClaims proof point = ((proof.commitments.take 5).zip proof.zerocheckEvals).map
      fun (comm, eval) => ⟨comm, [⟨point, eval⟩]⟩ := by
  have hzip := @List.zip_eq_zip_take_min _ _ proof.commitments proof.zerocheckEvals
  rw [h.evals, Nat.min_eq_right h.commitments, ← h.evals, List.take_length, h.evals] at hzip
  rw [witnessClaims, List.zip_map_right, hzip, List.map_map]
  rfl

section Sufficient

variable {batchClaim : LogUpBatchVerifierClaim F} {t : D.Transcript} {stored : NumeratorsAndDenominators F}

theorem Adequate.not_panics (h : Adequate proof b) (hv : v.Proper) :
    ¬ (verifyZerocheck v sample verifier lastClaim proof nodeId (a + (b + b)) batchClaim t
      stored).Panics := by
  obtain ⟨d₀, d₁, d₂, d₃, output, hevals⟩ := h.exists_evals
  rw [verifyZerocheck_eq hevals, panics_bind]
  rintro (hfirst | ⟨⟨subclaim, t'⟩, hfirst, hrest⟩)
  · exact hv.noPanic _ _ _ _ hfirst
  · have hlength : subclaim.point.length = a + (b + b) := hv.length _ _ _ _ _ _ hfirst
    have hgap : proof.variableGap ≤ subclaim.point.length := by
      rw [h.gap, hlength]
      omega
    simp [panics_bind, sliceTo, hgap] at hrest

theorem Adequate.checked (h : Adequate proof b) {claim : Claim F} {verifier' : Verifier D C}
    (hok : verifyZerocheck v sample verifier lastClaim proof nodeId (a + (b + b)) batchClaim t stored =
      .ok (claim, verifier')) :
    KernelChecked v sample verifier lastClaim proof nodeId a b batchClaim t claim verifier' := by
  obtain ⟨d₀, d₁, d₂, d₃, output, hevals⟩ := h.exists_evals
  rw [verifyZerocheck_eq hevals, bind_eq_ok] at hok
  obtain ⟨⟨subclaim, t'⟩, hfirst, hrest⟩ := hok
  simp only [bind_eq_ok, ensure_eq_ok, beq_iff_eq] at hrest
  obtain ⟨_, hidentity, _, _, hresult⟩ := hrest
  obtain ⟨rfl, rfl⟩ := Prod.mk.inj (Except.ok.inj hresult)
  refine ⟨d₀, d₁, d₂, d₃, output, subclaim, t', hevals, hfirst, ?_, ⟨proof.commitments.take 5,
    List.take_prefix _ _, ?_, ?_⟩, (sample t' "input_batching").1, (sample t' "input_batching").1, ?_, ?_⟩
  · rw [← hidentity]
    exact zerocheckEval_four _ _ _ _ _ _ _ _
  · rw [List.length_take, Nat.min_eq_left h.commitments]
  · rw [← h.witnessClaims_eq]
  · rw [← h.gap]
    rfl
  · exact zerocheckInputEval_four _ _ _ _ _ _ _

end Sufficient

/-! ## The runs that are accepted -/

section Necessary

variable {batchClaim : LogUpBatchVerifierClaim F} {t : D.Transcript} {stored : NumeratorsAndDenominators F}
  {kernelEvals : List F} {outputEval : F} {numVars : Nat}

/-- The sumcheck leaves what the identity asks for. -/
theorem verifyZerocheck_accepting (sample : D.Transcript → String → F × D.Transcript)
    (lastClaim : Claim F) (hevals : proof.zerocheckEvals = kernelEvals ++ [outputEval])
    (hgap : proof.variableGap ≤ numVars) {value : F}
    (hvalue : identityAt sample t batchClaim lastClaim kernelEvals outputEval
      (List.replicate numVars 0) = value) :
    ∃ verifier', verifyZerocheck (acceptingSumcheck value value) sample verifier lastClaim proof
        nodeId numVars batchClaim t stored =
      .ok (inputClaim kernelEvals outputEval proof.variableGap (List.replicate numVars 0)
        (sample (sample t "batch_pooling").2 "input_batching").1, verifier') := by
  rw [verifyZerocheck_eq hevals, acceptingSumcheck_of_ne (by decide), ok_bind]
  dsimp only
  rw [hvalue, beq_self_eq_true, ensure_true, ok_bind, sliceTo, if_pos (by rwa [List.length_replicate]),
    ok_bind]
  exact ⟨_, rfl⟩

theorem panics_of_gap (sample : D.Transcript → String → F × D.Transcript) (lastClaim : Claim F)
    (hevals : proof.zerocheckEvals = kernelEvals ++ [outputEval]) (hgap : numVars < proof.variableGap)
    {value : F} (hvalue : identityAt sample t batchClaim lastClaim kernelEvals outputEval
      (List.replicate numVars 0) = value) :
    (verifyZerocheck (acceptingSumcheck value value) sample verifier lastClaim proof
      nodeId numVars batchClaim t stored).Panics := by
  rw [verifyZerocheck_eq hevals, acceptingSumcheck_of_ne (by decide), ok_bind]
  dsimp only
  rw [hvalue, beq_self_eq_true, ensure_true, ok_bind, sliceTo,
    if_neg (by rw [List.length_replicate]; omega)]
  exact ⟨_, rfl⟩

omit [DecidableEq F] in
/-- Where the one stands between zeros. -/
theorem eq_of_replicate_append {gap cut m k : Nat} {r : F}
    (h : List.replicate gap (0 : F) ++ 1 :: List.replicate m 0 =
      List.replicate cut 0 ++ r :: List.replicate k 0) : gap = cut := by
  induction gap generalizing cut with
  | zero =>
    cases cut with
    | zero => rfl
    | succ cut =>
      rw [List.replicate_succ, List.cons_append] at h
      exact absurd (List.cons.inj h).1 one_ne_zero
  | succ gap ih =>
    cases cut with
    | zero =>
      rw [List.replicate_succ, List.cons_append] at h
      have hmem : (1 : F) ∈ List.replicate k 0 := by
        have htail := (List.cons.inj h).2
        rw [← htail]
        simp
      exact absurd (List.eq_of_mem_replicate hmem) one_ne_zero
    | succ cut =>
      rw [List.replicate_succ, List.replicate_succ, List.cons_append, List.cons_append] at h
      rw [ih (List.cons.inj h).2]

theorem ChecksKernel.fits
    (hshape : shapeStep.paddedInputShape = [[2 ^ a, 2 ^ (b + 1), 2 ^ (b + 1)]])
    (h : self.ChecksKernel fl verifier proof nodeId shapeStep a b) :
    Fits fl verifier proof shapeStep b := by
  have hrun := fun v sample lastClaim => @verifyPooling_eq F _ _ D C self fl verifier proof nodeId v
    sample lastClaim shapeStep a b hshape
  constructor
  · intro hpanics
    have hfirst := (h (acceptingSumcheck 0 0) (fun t _ => (1, t)) ⟨[], 0⟩
      (acceptingSumcheck_proper 0 0)).1
    rw [hrun] at hfirst
    exact hfirst (panics_bind.mpr (.inl hpanics))
  · rintro ⟨batchClaim, t, stored⟩ hlookups
    have hrest := fun value : F => h (acceptingSumcheck value value) (fun t _ => (1, t)) ⟨[], 0⟩
      (acceptingSumcheck_proper value value)
    simp only [hrun, hlookups, ok_bind] at hrest
    rcases List.eq_nil_or_concat proof.zerocheckEvals with hnil | ⟨kernelEvals, outputEval, hevals⟩
    · have hpanics := (hrest 0).1
      rw [verifyZerocheck_nil hnil, acceptingSumcheck_of_ne (by decide), ok_bind] at hpanics
      exact absurd ⟨_, rfl⟩ hpanics
    · rw [List.concat_eq_append] at hevals
      by_cases hgap : proof.variableGap ≤ a + (b + b)
      · obtain ⟨verifier', hok⟩ := @verifyZerocheck_accepting F _ _ D C verifier proof nodeId
          batchClaim t stored kernelEvals outputEval _ (fun t _ => (1, t)) ⟨[], 0⟩ hevals hgap _ rfl
        obtain ⟨batchClaim', t', stored', hsame, d₀, d₁, d₂, d₃, output, subclaim, t'', hfive, hsub, _,
          ⟨commitments, hinit, hlength, _⟩, r₁, r₂, hpoint, _⟩ := (hrest _).2 _ _ hok
        rw [acceptingSumcheck_of_ne (by decide)] at hsub
        obtain ⟨rfl, _⟩ := Prod.mk.inj (Except.ok.inj hsub)
        refine ⟨by rw [hfive]; rfl, hlength ▸ hinit.length_le, ?_⟩
        rw [inputClaim] at hpoint
        simp only [List.take_replicate, List.drop_replicate, List.append_assoc, List.cons_append,
          List.nil_append] at hpoint
        have hcut := eq_of_replicate_append (List.cons.inj hpoint).2
        omega
      · exact absurd (panics_of_gap _ _ hevals (not_le.mp hgap) rfl) (hrest _).1

end Necessary

/-- A single proof. -/
theorem checksKernel_iff
    (hshape : shapeStep.paddedInputShape = [[2 ^ a, 2 ^ (b + 1), 2 ^ (b + 1)]]) :
    self.ChecksKernel fl verifier proof nodeId shapeStep a b ↔ Fits fl verifier proof shapeStep b := by
  refine ⟨ChecksKernel.fits hshape, fun hfits v sample lastClaim hv => ?_⟩
  rw [verifyPooling_eq hshape]
  refine ⟨?_, fun claim verifier' hok => ?_⟩
  · rw [panics_bind]
    rintro (hlookups | ⟨⟨batchClaim, t, stored⟩, hlookups, hrest⟩)
    · exact hfits.1 hlookups
    · exact (hfits.2 _ hlookups).not_panics hv hrest
  · rw [bind_eq_ok] at hok
    obtain ⟨⟨batchClaim, t, stored⟩, hlookups, hrest⟩ := hok
    exact ⟨batchClaim, t, stored, hlookups, (hfits.2 _ hlookups).checked hrest⟩

/-! ## Two proofs -/

section Pair

variable {proof' : PoolingProof D C}

/-- The entries of the kernel, as the evaluations of a proof have them. -/
def kernelEntries (proof : PoolingProof D C) : List F :=
  proof.zerocheckEvals.dropLast.map (proof.zerocheckEvals.getLastD 0 - ·)

/-- The same challenges up to the last one. -/
def withInputBatching {T : Type} (sample : T → String → F × T) (r : F) : T → String → F × T :=
  fun t label => if label = "input_batching" then (r, (sample t label).2) else sample t label

/-- Proofs that give the same claim, whatever the last challenge is, have the same entries. -/
def Separates (self : PoolingCtx) (fl : Float32Ops) (verifier : Verifier D C)
    (proof proof' : PoolingProof D C) (nodeId : NodeId) (shapeStep : OutputShapeStep) : Prop :=
  ∀ (v v' : SumcheckVerifier F D.IOPProof D.Transcript)
    (sample : D.Transcript → String → F × D.Transcript) (lastClaim : Claim F) (claims : F → Claim F),
    v.Proper → v'.Proper →
    (∀ r, (∃ verifier', self.verifyPooling fl v (withInputBatching sample r) verifier lastClaim proof
          nodeId shapeStep = .ok (claims r, verifier')) ∧
        ∃ verifier', self.verifyPooling fl v' (withInputBatching sample r) verifier lastClaim proof'
          nodeId shapeStep = .ok (claims r, verifier')) →
    kernelEntries proof = kernelEntries proof'

/-- The entries differ beside the diagonal only, and have the same sum there. -/
def Collides (entries entries' : List F) : Prop :=
  ∃ x₀ x₁ x₂ x₃ y₁ y₂, entries = [x₀, x₁, x₂, x₃] ∧ entries' = [x₀, y₁, y₂, x₃] ∧
    x₁ + x₂ = y₁ + y₂ ∧ entries ≠ entries'

/-- The verifier checks both proofs, and tells them apart. -/
structure BindsKernel (ctx : PoolingCtx) (fl : Float32Ops) (verifier : Verifier D C)
    (proof proof' : PoolingProof D C) (nodeId : NodeId) (shapeStep : OutputShapeStep) (a b : Nat) :
    Prop where
  first : ctx.ChecksKernel fl verifier proof nodeId shapeStep a b
  second : ctx.ChecksKernel fl verifier proof' nodeId shapeStep a b
  separates : ctx.Separates fl verifier proof proof' nodeId shapeStep

omit [DecidableEq F] in
theorem kernelEntries_eq {d₀ d₁ d₂ d₃ output : F}
    (hevals : proof.zerocheckEvals = [d₀, d₁, d₂, d₃] ++ [output]) :
    kernelEntries proof = [output - d₀, output - d₁, output - d₂, output - d₃] := by
  rw [kernelEntries, hevals]
  rfl

omit [DecidableEq F] in
/-- The interpolation at a single coordinate sees the sum of the two entries beside the diagonal. -/
theorem interpolate_diagonal (output d₀ d₁ d₂ d₃ r : F) :
    interpolate output d₀ d₁ d₂ d₃ r r = (1 - r) ^ 2 * (output - d₀) +
      r * (1 - r) * ((output - d₁) + (output - d₂)) + r ^ 2 * (output - d₃) := by
  unfold interpolate
  ring

omit [DecidableEq F] in
theorem interpolate_inj (hF : ∃ r : F, r ≠ 0 ∧ r ≠ 1) {o d₀ d₁ d₂ d₃ o' e₀ e₁ e₂ e₃ : F}
    (h : ∀ r, interpolate o d₀ d₁ d₂ d₃ r r = interpolate o' e₀ e₁ e₂ e₃ r r) :
    o - d₀ = o' - e₀ ∧ (o - d₁) + (o - d₂) = (o' - e₁) + (o' - e₂) ∧ o - d₃ = o' - e₃ := by
  have hzero := h 0
  have hone := h 1
  obtain ⟨r, hr0, hr1⟩ := hF
  have hr := h r
  simp only [interpolate_diagonal] at hzero hone hr
  have hfirst : o - d₀ = o' - e₀ := by linear_combination hzero
  have hlast : o - d₃ = o' - e₃ := by linear_combination hone
  refine ⟨hfirst, ?_, hlast⟩
  rw [hfirst, hlast] at hr
  have hmiddle : r * (1 - r) * ((o - d₁) + (o - d₂)) = r * (1 - r) * ((o' - e₁) + (o' - e₂)) := by
    linear_combination hr
  exact mul_left_cancel₀ (mul_ne_zero hr0 (sub_ne_zero.mpr (Ne.symm hr1))) hmiddle

/-- The claim of an accepted run, for each value of the last challenge. -/
theorem claim_of_accepted {batchClaim : LogUpBatchVerifierClaim F} {t : D.Transcript}
    {stored : NumeratorsAndDenominators F} {d₀ d₁ d₂ d₃ output : F} {r : F} {claim : Claim F}
    {verifier' : Verifier D C}
    (hshape : shapeStep.paddedInputShape = [[2 ^ a, 2 ^ (b + 1), 2 ^ (b + 1)]])
    (hlookups : verifyLookups fl verifier proof shapeStep = .ok (batchClaim, t, stored))
    (hevals : proof.zerocheckEvals = [d₀, d₁, d₂, d₃] ++ [output])
    (hok : self.verifyPooling fl v (withInputBatching sample r) verifier lastClaim proof nodeId shapeStep =
      .ok (claim, verifier')) :
    claim.eval = interpolate output d₀ d₁ d₂ d₃ r r := by
  rw [verifyPooling_eq hshape, hlookups, ok_bind] at hok
  dsimp only at hok
  rw [verifyZerocheck_eq hevals, bind_eq_ok] at hok
  obtain ⟨⟨subclaim, t'⟩, _, hrest⟩ := hok
  simp only [bind_eq_ok] at hrest
  obtain ⟨_, _, _, _, hresult⟩ := hrest
  rw [← (Prod.mk.inj (Except.ok.inj hresult)).1]
  exact zerocheckInputEval_four _ _ _ _ _ _ _

theorem separates_of_not_collides (hF : ∃ r : F, r ≠ 0 ∧ r ≠ 1)
    (hshape : shapeStep.paddedInputShape = [[2 ^ a, 2 ^ (b + 1), 2 ^ (b + 1)]])
    (hfits : Fits fl verifier proof shapeStep b) (hfits' : Fits fl verifier proof' shapeStep b)
    (h : ∀ lookups lookups', verifyLookups fl verifier proof shapeStep = .ok lookups →
      verifyLookups fl verifier proof' shapeStep = .ok lookups' →
      ¬ Collides (kernelEntries proof) (kernelEntries proof')) :
    self.Separates fl verifier proof proof' nodeId shapeStep := by
  intro v v' sample lastClaim claims _ _ hruns
  have hlookups : ∀ (w : SumcheckVerifier F D.IOPProof D.Transcript) (π : PoolingProof D C) r verifier',
      self.verifyPooling fl w (withInputBatching sample r) verifier lastClaim π nodeId shapeStep =
        .ok (claims r, verifier') → ∃ lookups, verifyLookups fl verifier π shapeStep = .ok lookups := by
    intro w π r verifier' hok
    rw [verifyPooling_eq hshape, bind_eq_ok] at hok
    obtain ⟨lookups, hlookups, _⟩ := hok
    exact ⟨lookups, hlookups⟩
  obtain ⟨⟨_, hfirst⟩, ⟨_, hsecond⟩⟩ := hruns 0
  obtain ⟨lookups, hlookup⟩ := hlookups v proof 0 _ hfirst
  obtain ⟨lookups', hlookup'⟩ := hlookups v' proof' 0 _ hsecond
  obtain ⟨d₀, d₁, d₂, d₃, o, hevals⟩ := (hfits.2 _ hlookup).exists_evals
  obtain ⟨e₀, e₁, e₂, e₃, o', hevals'⟩ := (hfits'.2 _ hlookup').exists_evals
  -- the two claims are the same interpolation
  have hsame : ∀ r, interpolate o d₀ d₁ d₂ d₃ r r = interpolate o' e₀ e₁ e₂ e₃ r r := by
    intro r
    obtain ⟨⟨_, hok⟩, ⟨_, hok'⟩⟩ := hruns r
    rw [← claim_of_accepted hshape hlookup hevals hok, ← claim_of_accepted hshape hlookup' hevals' hok']
  obtain ⟨hzero, hmiddle, hthree⟩ := interpolate_inj hF hsame
  by_contra hne
  apply h _ _ hlookup hlookup'
  refine ⟨_, _, _, _, _, _, kernelEntries_eq hevals, ?_, hmiddle, hne⟩
  rw [kernelEntries_eq hevals', hzero, hthree]

omit [DecidableEq F] in
/-- The last challenge does not change the ones before it. -/
theorem identityAt_withInputBatching (sample : D.Transcript → String → F × D.Transcript) (r : F)
    (t : D.Transcript) (batchClaim : LogUpBatchVerifierClaim F) (lastClaim : Claim F)
    (kernelEvals : List F) (outputEval : F) (point : List F) :
    identityAt (withInputBatching sample r) t batchClaim lastClaim kernelEvals outputEval point =
      identityAt sample t batchClaim lastClaim kernelEvals outputEval point := by
  simp [identityAt, withInputBatching]

/-- A proof of the right sizes is accepted by the same sumcheck verifier for all values of the last
    challenge. -/
theorem Adequate.accepted (self : PoolingCtx) (nodeId : NodeId)
    (hshape : shapeStep.paddedInputShape = [[2 ^ a, 2 ^ (b + 1), 2 ^ (b + 1)]])
    (hadequate : Adequate proof b)
    {lookups : LogUpBatchVerifierClaim F × D.Transcript × NumeratorsAndDenominators F}
    (hlookups : verifyLookups fl verifier proof shapeStep = .ok lookups)
    {kernelEvals : List F} {outputEval : F}
    (hevals : proof.zerocheckEvals = kernelEvals ++ [outputEval])
    (sample : D.Transcript → String → F × D.Transcript) (lastClaim : Claim F) :
    ∃ v : SumcheckVerifier F D.IOPProof D.Transcript, v.Proper ∧
      ∀ r, ∃ verifier', self.verifyPooling fl v (withInputBatching sample r) verifier lastClaim proof
          nodeId shapeStep =
        .ok (inputClaim kernelEvals outputEval b (List.replicate (a + (b + b)) 0) r, verifier') := by
  obtain ⟨batchClaim, t, stored⟩ := lookups
  generalize hvalue : identityAt sample t batchClaim lastClaim kernelEvals outputEval
    (List.replicate (a + (b + b)) 0) = value
  refine ⟨acceptingSumcheck value value, acceptingSumcheck_proper _ _, fun r => ?_⟩
  have hgap : proof.variableGap ≤ a + (b + b) := by
    rw [hadequate.gap]
    omega
  rw [← identityAt_withInputBatching sample r] at hvalue
  obtain ⟨verifier', hok⟩ := @verifyZerocheck_accepting F _ _ D C verifier proof nodeId batchClaim t
    stored kernelEvals outputEval _ _ lastClaim hevals hgap _ hvalue
  rw [verifyPooling_eq hshape, hlookups, ok_bind, ← hadequate.gap]
  refine ⟨verifier', ?_⟩
  dsimp only
  rw [← hadequate.gap] at hok
  rw [hok]
  simp [withInputBatching]

theorem not_separates_of_collides
    (hshape : shapeStep.paddedInputShape = [[2 ^ a, 2 ^ (b + 1), 2 ^ (b + 1)]])
    (hadequate : Adequate proof b) (hadequate' : Adequate proof' b)
    {lookups lookups' : LogUpBatchVerifierClaim F × D.Transcript × NumeratorsAndDenominators F}
    (hlookups : verifyLookups fl verifier proof shapeStep = .ok lookups)
    (hlookups' : verifyLookups fl verifier proof' shapeStep = .ok lookups')
    (hcollides : Collides (kernelEntries proof) (kernelEntries proof')) :
    ¬ self.Separates fl verifier proof proof' nodeId shapeStep := by
  intro hseparates
  obtain ⟨d₀, d₁, d₂, d₃, o, hevals⟩ := hadequate.exists_evals
  obtain ⟨e₀, e₁, e₂, e₃, o', hevals'⟩ := hadequate'.exists_evals
  obtain ⟨x₀, x₁, x₂, x₃, y₁, y₂, hentries, hentries', hsum, hne⟩ := hcollides
  rw [kernelEntries_eq hevals] at hentries
  rw [kernelEntries_eq hevals'] at hentries'
  simp only [List.cons.injEq, and_true] at hentries hentries'
  obtain ⟨hx₀, hx₁, hx₂, hx₃⟩ := hentries
  obtain ⟨hy₀, hy₁, hy₂, hy₃⟩ := hentries'
  obtain ⟨v, hv, hok⟩ := hadequate.accepted self nodeId hshape hlookups hevals
    (fun t _ => (1, t)) ⟨[], 0⟩
  obtain ⟨v', hv', hok'⟩ := hadequate'.accepted self nodeId hshape hlookups'
    hevals' (fun t _ => (1, t)) ⟨[], 0⟩
  have hclaims : ∀ r : F, inputClaim [d₀, d₁, d₂, d₃] o b (List.replicate (a + (b + b)) 0) r =
      inputClaim [e₀, e₁, e₂, e₃] o' b (List.replicate (a + (b + b)) 0) r := by
    intro r
    rw [inputClaim, inputClaim, zerocheckInputEval_four, zerocheckInputEval_four, interpolate_diagonal,
      interpolate_diagonal, hx₀, hx₁, hx₂, hx₃, hy₀, hy₁, hy₂, hy₃, hsum]
  refine hne (hseparates v v' (fun t _ => (1, t)) ⟨[], 0⟩ _ hv hv' fun r => ⟨hok r, ?_⟩)
  rw [hclaims r]
  exact hok' r

/-- For which proofs the verifier binds the entries of the kernel. -/
theorem bindsKernel_iff (hF : ∃ r : F, r ≠ 0 ∧ r ≠ 1)
    (hshape : shapeStep.paddedInputShape = [[2 ^ a, 2 ^ (b + 1), 2 ^ (b + 1)]]) :
    self.BindsKernel fl verifier proof proof' nodeId shapeStep a b ↔
      Fits fl verifier proof shapeStep b ∧ Fits fl verifier proof' shapeStep b ∧
        ∀ lookups lookups', verifyLookups fl verifier proof shapeStep = .ok lookups →
          verifyLookups fl verifier proof' shapeStep = .ok lookups' →
          ¬ Collides (kernelEntries proof) (kernelEntries proof') := by
  constructor
  · intro h
    have hfits := (checksKernel_iff hshape).mp h.first
    have hfits' := (checksKernel_iff hshape).mp h.second
    refine ⟨hfits, hfits', fun lookups lookups' hlookups hlookups' hcollides => ?_⟩
    exact not_separates_of_collides hshape (hfits.2 _ hlookups) (hfits'.2 _ hlookups') hlookups
      hlookups' hcollides h.separates
  · intro ⟨hfits, hfits', h⟩
    exact ⟨(checksKernel_iff hshape).mpr hfits, (checksKernel_iff hshape).mpr hfits',
      separates_of_not_collides hF hshape hfits hfits' h⟩

end Pair

/-! ## Two channels of a single kernel -/

section TwoKernels

def twoKernels : OutputShapeStep := ⟨⟨[[2, 2, 2]], [[2, 2, 2]]⟩, [[2, 1, 1]]⟩

def twoKernelsVerifier : Verifier constantCrypto Unit :=
  ⟨.default, [], ⟨3, (∅ : HashMap String (ZMod 5)).insert (Table.newShiftCheck.name noFloats) 1⟩, ∅⟩

/-- A proof with the differences of a kernel. -/
def twoKernelsProof (differences : List (ZMod 5)) : PoolingProof constantCrypto Unit where
  sumcheck := []
  lookup :=
    { sumcheckProofs := []
      roundEvaluations := [[0, 0, 0, 0, 0, 0, 0, 0]]
      outputClaims := []
      circuitOutputs := [] }
  zerocheckEvals := differences ++ [0]
  variableGap := 0
  commitments := List.replicate 5 ⟨[()], 1⟩

theorem twoKernels_verifyLookups (differences : List (ZMod 5)) :
    ∃ lookups, verifyLookups noFloats twoKernelsVerifier (twoKernelsProof differences) twoKernels =
      .ok lookups := by
  have hchallenges : twoKernelsVerifier.challengeStorage.getChallengesByName
      (Table.newShiftCheck.name noFloats) = some (3, 1) := by
    simp [twoKernelsVerifier, ChallengeStorage.getChallengesByName]
  have hvars : ceilLog2 (Shape.numel [2, 1, 1]) = 1 := by decide
  unfold verifyLookups
  dsimp only [twoKernels, List.getElem?_cons_zero]
  rw [unwrap_some, ok_bind, hchallenges, hvars]
  exact ⟨_, rfl⟩

theorem twoKernels_adequate {differences : List (ZMod 5)} (h : differences.length = 4) :
    Adequate (twoKernelsProof differences) 0 where
  evals := by
    rw [twoKernelsProof, List.length_append, h]
    rfl
  commitments := le_rfl
  gap := rfl

theorem twoKernels_fits {differences : List (ZMod 5)} (h : differences.length = 4) :
    Fits noFloats twoKernelsVerifier (twoKernelsProof differences) twoKernels 0 := by
  obtain ⟨lookups, hlookups⟩ := twoKernels_verifyLookups differences
  refine ⟨?_, fun _ _ => twoKernels_adequate h⟩
  rw [hlookups]
  exact not_panics_ok _

/-- Two proofs that differ on the diagonal. -/
theorem bindsKernel_twoKernels :
    (⟨⟨2, 2⟩⟩ : PoolingCtx).BindsKernel noFloats twoKernelsVerifier (twoKernelsProof [0, 1, 2, 3])
      (twoKernelsProof [0, 1, 2, 4]) 0 twoKernels 1 0 := by
  refine (bindsKernel_iff ⟨2, by decide, by decide⟩ rfl).mpr
    ⟨twoKernels_fits rfl, twoKernels_fits rfl, ?_⟩
  rintro _ _ _ _ ⟨_, _, _, x₃, _, _, hentries, hentries', _⟩
  have hthree : (2 : ZMod 5) = x₃ := (List.cons.inj (List.cons.inj (List.cons.inj (List.cons.inj
    hentries).2).2).2).1
  have hfour : (1 : ZMod 5) = x₃ := (List.cons.inj (List.cons.inj (List.cons.inj (List.cons.inj
    hentries').2).2).2).1
  exact absurd (hthree.trans hfour.symm) (by decide)

/-- Two proofs with the entries beside the diagonal exchanged. -/
theorem not_bindsKernel_twoKernels :
    ¬ (⟨⟨2, 2⟩⟩ : PoolingCtx).BindsKernel noFloats twoKernelsVerifier (twoKernelsProof [0, 1, 2, 3])
      (twoKernelsProof [0, 2, 1, 3]) 0 twoKernels 1 0 := by
  intro h
  obtain ⟨lookups, hlookups⟩ := twoKernels_verifyLookups [0, 1, 2, 3]
  obtain ⟨lookups', hlookups'⟩ := twoKernels_verifyLookups [0, 2, 1, 3]
  have hcollides : Collides (kernelEntries (twoKernelsProof [0, 1, 2, 3]))
      (kernelEntries (twoKernelsProof [0, 2, 1, 3])) :=
    ⟨0, 4, 3, 2, 3, 4, rfl, rfl, by decide, by decide⟩
  exact @not_separates_of_collides _ _ _ _ _ _ _ _ _ _ _ 1 _ _ rfl (twoKernels_adequate rfl)
    (twoKernels_adequate rfl) _ _ hlookups hlookups' hcollides h.separates

end TwoKernels

end PoolingCtx

end DeepProve
