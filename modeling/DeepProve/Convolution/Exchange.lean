import DeepProve.Convolution.Verify

/-!
# The sumchecks of a convolution can be exchanged

After the clearing nothing that a sumcheck leaves is looked at: the points and the evaluations are
those in the proof. So with any other verifier that accepts, the run goes on in the same way.
-/

namespace DeepProve

open Outcome

section Follows

variable {F : Type} [Field F] [DecidableEq F] {L : PolyLibrary F} {P T₁ T₂ : Type}
  {v₁ : SumcheckVerifier F P T₁} {v₂ : SumcheckVerifier F P T₂} {R : T₁ → T₂ → Prop}

variable {proof : ConvProof F P} {delegation : Delegation F P} {t₁' t₁ : T₁} {t₂ : T₂}
variable {lastClaim : Claim F} {aux : List VPAuxInfo} {prevR : List F}

theorem delegationStep_follows (hv : v₁.Follows v₂ R) {rand1 : Nat → Outcome F}
    {isFirst : Nat → Bool} {exponents : List F} {claim claim' : F} {prevR' : List F}
    {entry : P × Nat} (ht : R t₁ t₂)
    (h : delegationStep v₁ delegation aux rand1 isFirst exponents (claim, prevR, t₁) entry =
      .ok (claim', prevR', t₁')) :
    ∃ t₂', delegationStep v₂ delegation aux rand1 isFirst exponents (claim, prevR, t₂) entry =
      .ok (claim', prevR', t₂') ∧ R t₁' t₂' := by
  simp only [delegationStep, bind_eq_ok, ensure_eq_ok] at h
  obtain ⟨polyAux, haux, ⟨subclaim, t⟩, hcall, point, hpoint, claims, hclaims, c0, hc0, _, hidentity,
    rand, hrand, last, hlast, rand2, hrand2, phi, hphi, c1, hc1, _, hphiClaim, c2, hc2, hresult⟩ := h
  obtain ⟨subclaim', t', hcall', hR⟩ := hv ht hcall
  simp only [Except.ok.injEq, Prod.mk.injEq] at hresult
  obtain ⟨rfl, rfl, rfl⟩ := hresult
  refine ⟨t', ?_, hR⟩
  simp only [delegationStep, haux, hcall', hpoint, hclaims, hc0, hidentity, hrand, hlast, hrand2, hphi,
    hc1, hphiClaim, hc2, ok_bind, ensure_true]

theorem delegation_follows (hv : v₁.Follows v₂ R) {rand1 : Nat → Outcome F} {isFirst : Nat → Bool}
    {exponents : List F} {claim claim' : F} {prevR' : List F} {entries : List (P × Nat)}
    (ht : R t₁ t₂)
    (h : entries.foldlM (delegationStep v₁ delegation aux rand1 isFirst exponents) (claim, prevR, t₁) =
      .ok (claim', prevR', t₁')) :
    ∃ t₂', entries.foldlM (delegationStep v₂ delegation aux rand1 isFirst exponents)
      (claim, prevR, t₂) = .ok (claim', prevR', t₂') ∧ R t₁' t₂' := by
  induction entries generalizing claim prevR t₁ t₂ with
  | nil =>
    obtain ⟨rfl, rfl, rfl⟩ := h
    exact ⟨t₂, rfl, ht⟩
  | cons entry entries ih =>
    rw [List.foldlM_cons, bind_eq_ok] at h
    obtain ⟨⟨claim₁, prevR₁, t⟩, hstep, hrest⟩ := h
    obtain ⟨t', hstep', hR⟩ := delegationStep_follows hv ht hstep
    obtain ⟨t₂', hrest', hR'⟩ := ih hR hrest
    exact ⟨t₂', by rw [List.foldlM_cons, hstep', ok_bind, hrest'], hR'⟩

theorem verifyFftDelegation_follows (hv : v₁.Follows v₂ R) {claim : F} (ht : R t₁ t₂)
    (h : verifyFftDelegation L v₁ claim proof delegation aux prevR t₁ = .ok t₁') :
    ∃ t₂', verifyFftDelegation L v₂ claim proof delegation aux prevR t₂ = .ok t₂' ∧ R t₁' t₂' := by
  simp only [verifyFftDelegation, bind_eq_ok, ensure_eq_ok] at h
  obtain ⟨exponents, hexponents, ⟨claim', prevR', t⟩, hloop, rand, hrand, first, hfirst, _, hlast, hresult⟩ := h
  obtain ⟨t', hloop', hR⟩ := delegation_follows hv ht hloop
  obtain rfl := Except.ok.inj hresult
  refine ⟨t', ?_, hR⟩
  simp only [verifyFftDelegation, hexponents, hloop', hrand, hfirst, hlast, ok_bind, ensure_true]

theorem verifyInverse_follows (hv : v₁.Follows v₂ R) {filterVars : Nat} (ht : R t₁ t₂)
    (h : ConvCtx.verifyInverse L v₁ lastClaim proof filterVars t₁ = .ok t₁') :
    ∃ t₂', ConvCtx.verifyInverse L v₂ lastClaim proof filterVars t₂ = .ok t₂' ∧ R t₁' t₂' := by
  simp only [ConvCtx.verifyInverse, bind_eq_ok, ensure_eq_ok] at h
  obtain ⟨⟨_, ta⟩, hifft, claim, hclaim, exponents, hexponents, ⟨claim', prevR, tb⟩, hloop, scale,
    hscale, first, hfirst, _, hfinal, hresult⟩ := h
  obtain ⟨_, ta', hifft', hRa⟩ := hv ht hifft
  obtain ⟨tb', hloop', hRb⟩ := delegation_follows hv hRa hloop
  obtain rfl := Except.ok.inj hresult
  refine ⟨tb', ?_, hRb⟩
  simp only [ConvCtx.verifyInverse, hifft', hclaim, hexponents, hloop', hscale, hfirst, hfinal, ok_bind,
    ensure_true]

theorem verifyForward_follows (hv : v₁.Follows v₂ R) {filterVars hadamardVars : Nat} (ht : R t₁ t₂)
    (h : ConvCtx.verifyForward L v₁ proof filterVars hadamardVars t₁ = .ok t₁') :
    ∃ t₂', ConvCtx.verifyForward L v₂ proof filterVars hadamardVars t₂ = .ok t₂' ∧ R t₁' t₂' := by
  simp only [ConvCtx.verifyForward, bind_eq_ok, ensure_eq_ok] at h
  obtain ⟨ifftClaim, hifftClaim, ⟨_, tc⟩, hhadamard, betaClaim, hbetaClaim, _, hbeta, inputClaim,
    hinputClaim, ⟨_, td⟩, hfft, fftClaim, hfftClaim, _, hfftLength, te, hdelegation, weightClaim,
    hweightClaim, ⟨_, tf⟩, hweights, fftWeightClaim, hfftWeightClaim, hweightDelegation⟩ := h
  obtain ⟨_, tc', hhadamard', hRc⟩ := hv ht hhadamard
  obtain ⟨_, td', hfft', hRd⟩ := hv hRc hfft
  obtain ⟨te', hdelegation', hRe⟩ := verifyFftDelegation_follows hv hRd hdelegation
  obtain ⟨_, tf', hweights', hRf⟩ := hv hRe hweights
  obtain ⟨tg', hweightDelegation', hRg⟩ := verifyFftDelegation_follows hv hRf hweightDelegation
  refine ⟨tg', ?_, hRg⟩
  simp only [ConvCtx.verifyForward, hifftClaim, hhadamard', hbetaClaim, hbeta, hinputClaim, hfft',
    hfftClaim, hfftLength, hdelegation', hweightClaim, hweights', hfftWeightClaim, hweightDelegation',
    ok_bind, ensure_true]

theorem verifyTransforms_follows (hv : v₁.Follows v₂ R) {self : ConvCtx} {lastClaim : Claim F}
    {proof : ConvProof F P} {t₁ t₁' : T₁} {t₂ : T₂} (ht : R t₁ t₂)
    (h : self.verifyTransforms L v₁ lastClaim proof t₁ = .ok t₁') :
    ∃ t₂', self.verifyTransforms L v₂ lastClaim proof t₂ = .ok t₂' ∧ R t₁' t₂' := by
  simp only [ConvCtx.verifyTransforms, bind_eq_ok, ensure_eq_ok] at h
  obtain ⟨filterVars, hvars, _, hlength, hadamardVars, hhadamardVars, ta, hinverse, hforward⟩ := h
  obtain ⟨ta', hinverse', hRa⟩ := verifyInverse_follows hv ht hinverse
  obtain ⟨tb', hforward', hRb⟩ := verifyForward_follows hv hRa hforward
  refine ⟨tb', ?_, hRb⟩
  simp only [ConvCtx.verifyTransforms, hvars, hlength, hhadamardVars, hinverse', hforward', ok_bind,
    ensure_true]

/-- The first of the recorded sumchecks is that of the inverse transform. -/
theorem verifyTransforms_recorded {self : ConvCtx} {value : F}
    {start calls : List (SumcheckCall F P)}
    (h : self.verifyTransforms L (recordingSumcheck value) lastClaim proof start = .ok calls) :
    ∃ numVars, start ++ [⟨lastClaim.eval - proof.biasClaim, proof.ifftProof,
      fromMleListDimensions [[numVars, numVars]]⟩] <+: calls := by
  simp only [ConvCtx.verifyTransforms, ConvCtx.verifyInverse, bind_eq_ok] at h
  obtain ⟨filterVars, _, _, _, _, _, ta, ⟨⟨_, tb⟩, hifft, _, _, _, _, ⟨_, _, tc⟩, hloop, _, _, _, _, _, _,
    hresult⟩, hforward⟩ := h
  obtain ⟨_, rfl⟩ := Prod.mk.inj (Except.ok.inj hifft)
  obtain rfl := Except.ok.inj hresult
  have hv := recordingSumcheck_follows value (start ++ [(⟨lastClaim.eval - proof.biasClaim,
    proof.ifftProof, fromMleListDimensions [[filterVars + 1, filterVars + 1]]⟩ : SumcheckCall F P)])
  obtain ⟨_, _, hRc⟩ := delegation_follows hv ⟨rfl, List.prefix_rfl⟩ hloop
  obtain ⟨_, _, hRd⟩ := verifyForward_follows hv ⟨rfl, hRc.2⟩ hforward
  exact ⟨filterVars + 1, hRd.2⟩

/-! ## The clearing -/

/-- The product that the result of the clearing is compared with. -/
def clearingProduct (L : PolyLibrary F) (lastClaim : Claim F) (proof : ConvProof F P) : F :=
  match L.evaluate (L.evals lastClaim.point) proof.clearingProof.point,
    proof.clearingProof.individualClaim with
  | .ok betaEval, v1Eval :: v2Eval :: _ => betaEval * v1Eval * v2Eval
  | _, _ => 0

/-- With a verifier that leaves the product. -/
theorem verifyClearing_follows (hv : v₁.Follows v₂ R) {self : ConvCtx} {lastClaim claim : Claim F}
    {proof : ConvProof F P} {shapeStep : ShapeStep} {t₁ t₁' : T₁} {t₂ : T₂} (ht : R t₁ t₂)
    (hproduct : ∀ numVars subclaim t₂',
      v₂ lastClaim.eval proof.clearingProof.sumcheck (fromMleListDimensions [[numVars, numVars, numVars]]) t₂ =
        .ok (subclaim, t₂') → subclaim.expectedEvaluation = clearingProduct L lastClaim proof)
    (h : self.verifyClearing L v₁ lastClaim proof shapeStep t₁ = .ok (claim, t₁')) :
    ∃ t₂', self.verifyClearing L v₂ lastClaim proof shapeStep t₂ = .ok (claim, t₂') ∧ R t₁' t₂' := by
  simp only [ConvCtx.verifyClearing, hadamardVerify, bind_eq_ok, ensure_eq_ok] at h
  obtain ⟨_, hunpadded, _, hpadded, unpaddedShape, hunpaddedShape, outputShape, houtputShape, paddedShape,
    hpaddedShape, realShape, hrealShape, tensor, htensor, expected, hexpected, ⟨subclaim, t₃⟩, hcall,
    betaEval, hbeta, v2Eval, hv2, _, hv2Eval, v1Eval, hv1, _, _, hresult⟩ := h
  obtain ⟨subclaim', t₂', hcall', hR⟩ := hv ht hcall
  obtain ⟨rfl, rfl⟩ := Prod.mk.inj (Except.ok.inj hresult)
  refine ⟨t₂', ?_, hR⟩
  have hvalue : betaEval * v1Eval * v2Eval = subclaim'.expectedEvaluation := by
    rw [hproduct _ _ _ hcall', clearingProduct, hbeta]
    match hclaims : proof.clearingProof.individualClaim with
    | [] => rw [hclaims] at hv1; cases hv1
    | [_] => rw [hclaims] at hv2; cases hv2
    | first :: second :: _ =>
      rw [hclaims] at hv1 hv2
      obtain rfl := Except.ok.inj hv1
      obtain rfl := Except.ok.inj hv2
      rfl
  simp only [ConvCtx.verifyClearing, hadamardVerify, hunpadded, hpadded, hunpaddedShape, houtputShape,
    hpaddedShape, hrealShape, htensor, hexpected, hcall', hbeta, hv2, hv2Eval, hv1, hvalue, ok_bind,
    ensure_true, beq_self_eq_true]

theorem verifyClearing_recorded {self : ConvCtx} {claim : Claim F} {shapeStep : ShapeStep}
    {value : F} {calls : List (SumcheckCall F P)}
    (h : self.verifyClearing L (recordingSumcheck value) lastClaim proof shapeStep [] =
      .ok (claim, calls)) :
    ∃ numVars, calls = [⟨lastClaim.eval, proof.clearingProof.sumcheck,
      fromMleListDimensions [[numVars, numVars, numVars]]⟩] := by
  simp only [ConvCtx.verifyClearing, hadamardVerify, bind_eq_ok] at h
  obtain ⟨_, _, _, _, _, _, _, _, _, _, realShape, _, _, _, _, _, ⟨_, t⟩, hcall, _, _, _, _, _, _, _, _, _,
    _, hresult⟩ := h
  obtain ⟨_, rfl⟩ := Prod.mk.inj (Except.ok.inj hresult)
  obtain ⟨_, rfl⟩ := Prod.mk.inj (Except.ok.inj hcall)
  exact ⟨_, rfl⟩

end Follows

end DeepProve
