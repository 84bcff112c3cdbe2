import DeepProve.Convolution.Exchange

/-!
# What the sumchecks of a convolution bind

Of the sumchecks only the first, of the clearing, is looked at when it is verified, and of that only
the value. What the others leave is dropped, and the points and the evaluations in the proof are used
in its place. So a proof that passes the checks of its own fields is accepted whatever the sumchecks
leave.
-/

namespace DeepProve

open Outcome

/-! ## The claims can be added whatever the challenges are -/

section AddClaims

variable {F : Type} {L : PolyLibrary F} {C P T : Type}

/-- Whether a polynomial can be evaluated depends on the number of the coordinates only. -/
def PolyLibrary.Uniform (L : PolyLibrary F) : Prop :=
  ∀ evaluations point point' y, point.length = point'.length →
    L.evaluate evaluations point = .ok y → ∃ y', L.evaluate evaluations point' = .ok y'

theorem length_readChallenges (challengeScalar : T → F × T) (n : Nat) (t : T) :
    (ConvCtx.readChallenges challengeScalar n t).1.length = n := by
  induction n generalizing t with
  | zero => rfl
  | succ n ih => rw [ConvCtx.readChallenges, List.length_cons, ih]

/-- A claim about a polynomial is added if there is none yet for the node. -/
theorem addPolyClaims_single {cv : CommitmentVerifier F C} {polyId : CommitmentId} {nodeId : NodeId}
    {claim : Claim F} : (∃ cv', cv.addPolyClaims (polyId, [(nodeId, claim)]) = .ok cv') ↔
      (cv.modelEntry polyId)[nodeId]? = none := by
  unfold CommitmentVerifier.addPolyClaims CommitmentVerifier.insertModelClaim
  dsimp only
  rw [List.foldlM_cons]
  by_cases hnone : (cv.modelEntry polyId)[nodeId]? = none
  · rw [if_pos hnone]
    exact ⟨fun _ => hnone, fun _ => ⟨_, rfl⟩⟩
  · rw [if_neg hnone]
    exact ⟨fun ⟨_, h⟩ => (nomatch h), fun h => absurd h hnone⟩

variable {claims : List (CommitmentId × Claim F)} {cv : CommitmentVerifier F C}

theorem modelEntry_addPolyClaims {cv' : CommitmentVerifier F C} {polyId other : CommitmentId}
    {entries : List (NodeId × Claim F)} (hne : polyId ≠ other)
    (h : cv.addPolyClaims (polyId, entries) = .ok cv') :
    cv'.modelEntry other = cv.modelEntry other := by
  simp only [CommitmentVerifier.addPolyClaims, bind_eq_ok] at h
  obtain ⟨_, _, hresult⟩ := h
  rw [← Except.ok.inj hresult]
  simp [CommitmentVerifier.modelEntry, Std.ExtTreeMap.getElem?_insert, hne]

variable {lastClaim : Claim F} {proof : ConvProof F P}

theorem nodup_commonClaims {self : ConvCtx} {rand : List F}
    (h : self.commonClaims L lastClaim proof rand = .ok claims) :
    (claims.map Prod.fst).Nodup := by
  simp only [ConvCtx.commonClaims, bind_eq_ok] at h
  obtain ⟨_, _, _, _, _, _, _, _, _, _, _, _, hresult⟩ := h
  obtain rfl := Except.ok.inj hresult
  split
  · simp
  · next hne => simpa using hne

theorem commonClaims_of_ok {self : ConvCtx} (hL : L.Uniform) {rand rand' : List F}
    (hrand : rand.length = rand'.length)
    (h : self.commonClaims L lastClaim proof rand = .ok claims) :
    ∃ claims', self.commonClaims L lastClaim proof rand' = .ok claims' ∧
      claims'.map Prod.fst = claims.map Prod.fst := by
  simp only [ConvCtx.commonClaims, bind_eq_ok] at h
  obtain ⟨filterVars, hvars, lastRest, hlastRest, biasPoint, hbiasPoint, paddedVars, hpaddedVars, pointRest,
    hpointRest, filterEval, hfilterEval, hresult⟩ := h
  obtain ⟨filterEval', hfilterEval'⟩ := hL _ _ _ _ hrand hfilterEval
  obtain rfl := Except.ok.inj hresult
  simp only [ConvCtx.commonClaims, hvars, hlastRest, hbiasPoint, hpaddedVars, hpointRest, hfilterEval',
    ok_bind]
  refine ⟨_, rfl, ?_⟩
  split <;> rfl

/-- Whether the claims can be added depends on the polynomials and the node only. -/
theorem addCommonClaims_of_ok {cv₁ : CommitmentVerifier F C} {nodeId : NodeId}
    {claims' : List (CommitmentId × Claim F)} (hkeys : claims'.map Prod.fst = claims.map Prod.fst)
    (hnodup : (claims.map Prod.fst).Nodup)
    (h : cv.addCommonClaims (claims.map fun (polyId, claim) => (polyId, [(nodeId, claim)])) =
      .ok cv₁) :
    ∃ cv₂, cv.addCommonClaims (claims'.map fun (polyId, claim) => (polyId, [(nodeId, claim)])) =
      .ok cv₂ := by
  suffices hgeneral : ∀ cv',
      (∀ polyId ∈ claims.map Prod.fst, cv'.modelEntry polyId = cv.modelEntry polyId) →
      ∃ cv₂, CommitmentVerifier.addCommonClaims cv'
        (claims'.map fun (polyId, claim) => (polyId, [(nodeId, claim)])) = .ok cv₂ from
    hgeneral cv fun _ _ => rfl
  induction claims generalizing cv claims' with
  | nil =>
    obtain rfl := List.map_eq_nil_iff.mp hkeys
    exact fun cv' _ => ⟨cv', rfl⟩
  | cons entry claims ih =>
    obtain ⟨entry', rest', rfl, hkey, hrest⟩ := List.map_eq_cons_iff.mp hkeys
    obtain ⟨_, claim⟩ := entry
    obtain ⟨polyId, claim'⟩ := entry'
    obtain rfl := hkey
    obtain ⟨hnotin, hnodup⟩ := List.nodup_cons.mp hnodup
    simp only [CommitmentVerifier.addCommonClaims, List.map_cons, List.foldlM_cons, bind_eq_ok] at h ⊢
    obtain ⟨cvNext, hadd, hclaims⟩ := h
    intro cv' hcv'
    have hentry : cv'.modelEntry polyId = cv.modelEntry polyId := hcv' _ List.mem_cons_self
    obtain ⟨cvNext', hadd'⟩ := (@addPolyClaims_single _ _ _ _ _ claim').mpr
      (hentry ▸ addPolyClaims_single.mp ⟨_, hadd⟩)
    obtain ⟨cv₂, hcv₂⟩ := ih hrest hnodup hclaims cvNext' fun other hother => by
      have hne : polyId ≠ other := fun heq => hnotin (heq ▸ hother)
      rw [modelEntry_addPolyClaims hne hadd', modelEntry_addPolyClaims hne hadd]
      exact hcv' other (List.mem_cons_of_mem _ hother)
    exact ⟨cv₂, cvNext', hadd', hcv₂⟩

/-- If the claims can be added after one transcript, they can after any other. -/
theorem addClaims_of_ok [Field F] [DecidableEq F] {self : ConvCtx} (hL : L.Uniform) {T₁ T₂ : Type}
    {challengeScalar₁ : T₁ → F × T₁} (challengeScalar₂ : T₂ → F × T₂) {nodeId : NodeId} {t₁ : T₁}
    (t₂ : T₂) {result : Claim F × CommitmentVerifier F C × T₁}
    (h : self.addClaims L challengeScalar₁ cv lastClaim proof nodeId t₁ = .ok result) :
    ∃ result', self.addClaims L challengeScalar₂ cv lastClaim proof nodeId t₂ = .ok result' := by
  simp only [ConvCtx.addClaims, bind_eq_ok] at h
  obtain ⟨_, hweights, weightVars, hweightVars, claims, hclaims, cv₁, hadd, inputClaim, hinput, hresult⟩ := h
  have hrand : (ConvCtx.readChallenges challengeScalar₁ weightVars t₁).1.length =
      (ConvCtx.readChallenges challengeScalar₂ weightVars t₂).1.length := by
    rw [length_readChallenges, length_readChallenges]
  obtain ⟨claims', hclaims', hkeys⟩ := commonClaims_of_ok hL hrand hclaims
  obtain ⟨cv₂, hadd'⟩ := addCommonClaims_of_ok hkeys (nodup_commonClaims hclaims) hadd
  simp only [ConvCtx.addClaims, hweights, hweightVars, hclaims', hadd', hinput, ok_bind]
  exact ⟨_, rfl⟩

end AddClaims

section Binding

variable {F : Type} [Field F] [DecidableEq F] {P : Type}

/-- The points and the products of the evaluations that the proof has for a chain of sumchecks. -/
def Delegation.results (self : Delegation F P) : List (List F × F) :=
  ((self.points.zip self.claims).take self.proofs.length).map fun (point, claims) =>
    (point, (claims.take 3).prod)

/-- The point and the product of the evaluations that the proof has for each sumcheck, in the order in
    which they are verified. -/
def ConvProof.results (L : PolyLibrary F) (lastClaim : Claim F) (proof : ConvProof F P) : List (List F × F) :=
  [(proof.clearingProof.point, clearingProduct L lastClaim proof),
    (proof.ifftPoint, (proof.ifftClaims.take 2).prod)] ++
  (⟨proof.ifftDelegationProof, proof.ifftDelegationClaims, proof.ifftDelegationPoints⟩ :
    Delegation F P).results ++
  [(proof.hadamardPoint, (proof.hadamardClams.take 3).prod),
    (proof.fftPoint, (proof.fftClaims.take 2).prod)] ++
  (⟨proof.fftDelegationProof, proof.fftDelegationClaims, proof.fftDelegationPoints⟩ :
    Delegation F P).results ++
  [(proof.fftWeightPoint, (proof.fftWeightClaims.take 2).prod)] ++
  (⟨proof.fftDelegationProofWeights, proof.fftDelegationWeightsClaims,
    proof.fftDelegationWeightsPoints⟩ : Delegation F P).results

/-- The messages of the sumchecks are the same. -/
structure ConvProof.SameMessages (proof other : ConvProof F P) : Prop where
  fftProof : other.fftProof = proof.fftProof
  fftProofWeights : other.fftProofWeights = proof.fftProofWeights
  fftDelegationProof : other.fftDelegationProof = proof.fftDelegationProof
  fftDelegationProofWeights : other.fftDelegationProofWeights = proof.fftDelegationProofWeights
  ifftProof : other.ifftProof = proof.ifftProof
  ifftDelegationProof : other.ifftDelegationProof = proof.ifftDelegationProof
  hadamardProof : other.hadamardProof = proof.hadamardProof
  clearingProof : other.clearingProof.sumcheck = proof.clearingProof.sumcheck

variable (L : PolyLibrary F)

namespace ConvCtx

variable (ctx : ConvCtx)

/-- The sumchecks of a run that goes on to the end. -/
def sumcheckCalls (lastClaim : Claim F) (proof : ConvProof F P) (shapeStep : ShapeStep) :
    Outcome (List (SumcheckCall F P)) := do
  let recording := recordingSumcheck (clearingProduct L lastClaim proof)
  let (claim, calls) ← ctx.verifyClearing L recording lastClaim proof shapeStep []
  ctx.verifyTransforms L recording claim proof calls

variable {T C : Type} (challengeScalar : T → F × T) (commitVerifier : CommitmentVerifier F C)
  (lastClaim : Claim F) (proof : ConvProof F P) (shapeStep : ShapeStep) (nodeId : NodeId)

/-- Every sumcheck is bound: its point and its evaluation are those in the proof, and with other points or
    evaluations and the same messages the proof is rejected. -/
structure BindsSumchecks (t : T) : Prop where
  results : ∀ v : SumcheckVerifier F P T, v.Proper → ∀ result,
    ctx.verifyConvolution L v challengeScalar commitVerifier lastClaim proof shapeStep nodeId t =
      .ok result →
    ∃ calls subclaims t', ctx.sumcheckCalls L lastClaim proof shapeStep = .ok calls ∧
      runCalls v calls t = .ok (subclaims, t') ∧
      subclaims.map (fun subclaim => (subclaim.point, subclaim.expectedEvaluation)) =
        proof.results L lastClaim
  changes : ∀ v : SumcheckVerifier F P T, v.Proper → ∀ other : ConvProof F P, proof.SameMessages other →
    ∀ result result',
    ctx.verifyConvolution L v challengeScalar commitVerifier lastClaim proof shapeStep nodeId t =
      .ok result →
    ctx.verifyConvolution L v challengeScalar commitVerifier lastClaim other shapeStep nodeId t =
      .ok result' →
    other = proof

/-- The checks that are left if every sumcheck is accepted, and that of the clearing leaves the product
    of the evaluations. -/
def PassesChecks (t : T) : Prop :=
  ∃ result, ctx.verifyConvolution L
    (acceptingSumcheck (clearingProduct L lastClaim proof) 0 : SumcheckVerifier F P T) challengeScalar
    commitVerifier lastClaim proof shapeStep nodeId t = .ok result

variable {ctx L challengeScalar commitVerifier lastClaim proof shapeStep nodeId}

/-- A proof that is accepted with some outcomes of the sumchecks is accepted with these as well. -/
theorem accepted_of_accepted (hL : L.Uniform) {v : SumcheckVerifier F P T} {t : T}
    {result : Claim F × CommitmentVerifier F C × T}
    (h : ctx.verifyConvolution L v challengeScalar commitVerifier lastClaim proof shapeStep nodeId t =
      .ok result) (second : F) :
    ∃ result', ctx.verifyConvolution L
      (acceptingSumcheck (clearingProduct L lastClaim proof) second : SumcheckVerifier F P T)
      challengeScalar commitVerifier lastClaim proof shapeStep nodeId t = .ok result' := by
  simp only [verifyConvolution, bind_eq_ok] at h
  obtain ⟨⟨claim, t₁⟩, hclearing, t₂, htransforms, hclaims⟩ := h
  have hv := @follows_acceptingSumcheck _ _ _ _ T v (clearingProduct L lastClaim proof) second
  obtain ⟨t₁', hclearing', -⟩ := @verifyClearing_follows _ _ _ _ _ _ _ _ _ _ hv _ _ _ _ _ _ _ t trivial
    (fun numVars subclaim t' hcall => by
      obtain ⟨rfl, -⟩ := Prod.mk.inj (Except.ok.inj hcall)
      rfl) hclearing
  obtain ⟨t₂', htransforms', -⟩ := @verifyTransforms_follows _ _ _ _ _ _ _ _ _ _ hv _ _ _ _ _ t₁' trivial
    htransforms
  obtain ⟨result', hclaims'⟩ := addClaims_of_ok hL challengeScalar t₂' hclaims
  exact ⟨result', by simp only [verifyConvolution, hclearing', htransforms', hclaims', ok_bind]⟩

/-- The checks of the fields decide whether the proof can be accepted at all. -/
theorem passesChecks_iff (hL : L.Uniform) {t : T} :
    ctx.PassesChecks L challengeScalar commitVerifier lastClaim proof shapeStep nodeId t ↔
      ∃ v : SumcheckVerifier F P T, v.Proper ∧ ∃ result, ctx.verifyConvolution L v challengeScalar
        commitVerifier lastClaim proof shapeStep nodeId t = .ok result :=
  ⟨fun ⟨result, h⟩ => ⟨_, acceptingSumcheck_proper _ _, result, h⟩,
    fun ⟨_, _, _, h⟩ => accepted_of_accepted hL h 0⟩

/-- The value that the sumcheck of the inverse transform leaves can be any. -/
theorem not_bindsSumchecks_of_passesChecks (hL : L.Uniform) {t : T}
    (h : ctx.PassesChecks L challengeScalar commitVerifier lastClaim proof shapeStep nodeId t) :
    ¬ ctx.BindsSumchecks L challengeScalar commitVerifier lastClaim proof shapeStep nodeId t := by
  intro hbinds
  obtain ⟨result, hresult⟩ := h
  obtain ⟨result', hresult'⟩ := accepted_of_accepted hL hresult ((proof.ifftClaims.take 2).prod + 1)
  obtain ⟨calls, subclaims, t', hcalls, hrun, hsubclaims⟩ :=
    hbinds.results _ (acceptingSumcheck_proper _ _) _ hresult'
  rw [runCalls_acceptingSumcheck] at hrun
  obtain ⟨rfl, -⟩ := Prod.mk.inj (Except.ok.inj hrun)
  simp only [sumcheckCalls, bind_eq_ok] at hcalls
  obtain ⟨⟨claim, start⟩, hclearing, htransforms⟩ := hcalls
  obtain ⟨numVars, rfl⟩ := verifyClearing_recorded hclearing
  obtain ⟨numVars', rest, rfl⟩ := verifyTransforms_recorded htransforms
  have hsecond := congrArg (fun results => results[1]?.map Prod.snd) hsubclaims
  simp [ConvProof.results, fromMleListDimensions] at hsecond

/-- For which proofs every sumcheck is bound: for those only that no outcome of the sumchecks makes the
    verifier accept. -/
theorem bindsSumchecks_iff (hL : L.Uniform) {t : T} :
    ctx.BindsSumchecks L challengeScalar commitVerifier lastClaim proof shapeStep nodeId t ↔
      ¬ ctx.PassesChecks L challengeScalar commitVerifier lastClaim proof shapeStep nodeId t := by
  constructor
  · intro hbinds hpasses
    exact not_bindsSumchecks_of_passesChecks hL hpasses hbinds
  · intro hfails
    exact
      { results := fun v hv result h => absurd ((passesChecks_iff hL).mpr ⟨v, hv, result, h⟩) hfails
        changes := fun v hv _ _ result _ h _ =>
          absurd ((passesChecks_iff hL).mpr ⟨v, hv, result, h⟩) hfails }

end ConvCtx

end Binding

/-! ## A convolution of one channel -/

section OneChannel

instance fact_prime_seventeen : Fact (Nat.Prime 17) := ⟨by decide⟩

/-- The evaluations of multilinear polynomials, and the eighth root of unity. -/
def smallLibrary : PolyLibrary (ZMod 17) where
  rootOfUnity n := if n = 8 then some 2 else none
  evals point := (List.range (2 ^ point.length)).map (Multilinear.eqWeight point)
  evaluate evaluations point :=
    if evaluations.length = 2 ^ point.length then .ok (Multilinear.eval (evaluations.getD · 0) point)
    else .error (.panic "the number of variables differs")

theorem smallLibrary_uniform : smallLibrary.Uniform := by
  intro evaluations point point' y hlength h
  simp only [smallLibrary] at h ⊢
  rw [← hlength]
  split at h
  · exact ⟨_, if_pos ‹_›⟩
  · cases h

/-- One channel of two rows and columns, and a filter of one entry. -/
def oneChannel : ConvCtx where
  kw := 1
  kx := 1
  realNw := 1
  nw := 2
  filterSize := 4
  unpaddedFilterShape := [1, 1, 1, 1]
  paddedFilterShape := [1, 1, 1, 1]
  filterKey := "filter"
  biasKey := "bias"

/-- A proof with all points at the origin, so that most of the evaluations are one. -/
def originProof (hadamardClams : List (ZMod 17)) : ConvProof (ZMod 17) Unit where
  fftProof := ()
  fftProofWeights := ()
  fftPoint := [0, 0, 0]
  fftDelegationProof := [(), ()]
  fftDelegationProofWeights := [(), ()]
  ifftProof := ()
  ifftPoint := [0, 0, 0]
  ifftDelegationProof := [(), ()]
  ifftDelegationPoints := [[0, 0], [0]]
  hadamardProof := ()
  hadamardPoint := [0, 0, 0]
  fftClaims := [1, 1]
  fftWeightClaims := [1, 1]
  ifftClaims := [1, 1]
  fftDelegationClaims := [[1, 1, 1], [1, 1, 1]]
  fftDelegationPoints := [[0, 0], [0]]
  fftDelegationWeightsClaims := [[1, 1, 1], [1, 1, 1]]
  fftDelegationWeightsPoints := [[0, 0], [0]]
  fftWeightPoint := [0, 0, 0]
  ifftDelegationClaims := [[1, 1, 1], [1, 1, 8⁻¹]]
  partialEvals := [1]
  hadamardClams := hadamardClams
  biasClaim := 0
  clearingProof := ⟨(), [1, 1], [0, 0]⟩

def oneChannelClaim : Claim (ZMod 17) := ⟨[0, 0], 1⟩

def oneChannelStep : ShapeStep := ⟨[[1, 2, 2]], [[1, 2, 2]]⟩

theorem originProof_verifyClearing (claims : List (ZMod 17)) (second : ZMod 17) :
    oneChannel.verifyClearing smallLibrary (acceptingSumcheck
      (clearingProduct smallLibrary oneChannelClaim (originProof claims)) second) oneChannelClaim
      (originProof claims) oneChannelStep () = .ok (oneChannelClaim, ()) := rfl

theorem originProof_verifyInverse (claims : List (ZMod 17)) (first second : ZMod 17) :
    ConvCtx.verifyInverse smallLibrary (acceptingSumcheck first second) oneChannelClaim (originProof claims) 2
      () = .ok () := by
  have htwo : (2 : ZMod 17) ≠ 0 := by decide
  have height : (8 : ZMod 17) = 2 ^ 3 := by decide
  -- the roots are inverted, which does not reduce, and multiplied by the coordinates, which are zero
  simp [ConvCtx.verifyInverse, originProof, oneChannelClaim, acceptingSumcheck, powTwoOmegas,
    powTwoOmegas.ensurePos, delegationStep, smallLibrary, inverseOrPanic, phiEval, usizeSub, unwrap, okOr,
    ensure, ConvCtx.delegationFftAux, List.range_succ, identityEval, htwo, height]

theorem originProof_checkWeights (claims : List (ZMod 17)) :
    oneChannel.checkWeights (originProof claims) = .ok () := by
  have hpop : ConvCtx.popInverse ([0, 0, 0] : List (ZMod 17))
      "Trying to invert zero when veirfying convolution" = .ok (1, [0, 0]) := by
    simp [ConvCtx.popInverse, unwrap, inverseOrPanic]
  rw [ConvCtx.checkWeights]
  dsimp only [originProof]
  rw [hpop]
  rfl

theorem originProof_passesChecks :
    oneChannel.PassesChecks (C := Unit) smallLibrary (fun t => (0, t)) .default oneChannelClaim
      (originProof [1, 1, 1]) oneChannelStep 0 () := by
  have hclaims : ∃ result, oneChannel.addClaims (C := Unit) smallLibrary (fun t => (0, t)) .default
      oneChannelClaim (originProof [1, 1, 1]) 0 () = .ok result := by
    rw [ConvCtx.addClaims, originProof_checkWeights, ok_bind]
    exact ⟨_, rfl⟩
  obtain ⟨result, hresult⟩ := hclaims
  refine ⟨result, ?_⟩
  rw [ConvCtx.verifyConvolution, originProof_verifyClearing, ok_bind]
  have htransforms : oneChannel.verifyTransforms smallLibrary (acceptingSumcheck
      (clearingProduct smallLibrary oneChannelClaim (originProof [1, 1, 1])) 0) oneChannelClaim
      (originProof [1, 1, 1]) () = .ok () := by
    have hinverse := originProof_verifyInverse [1, 1, 1]
      (clearingProduct smallLibrary oneChannelClaim (originProof [1, 1, 1])) 0
    rw [ConvCtx.verifyTransforms, show ilog2 oneChannel.filterSize = .ok 2 from rfl, ok_bind]
    dsimp only
    rw [hinverse]
    rfl
  dsimp only
  rw [htransforms, ok_bind, hresult]

/-- With a wrong evaluation of the identity polynomial the proof is always rejected. -/
theorem bindsSumchecks_originProof :
    oneChannel.BindsSumchecks (C := Unit) smallLibrary (fun t => (0, t)) .default oneChannelClaim
      (originProof [1, 1, 2]) oneChannelStep 0 () := by
  refine (ConvCtx.bindsSumchecks_iff smallLibrary_uniform).mpr ?_
  rintro ⟨result, h⟩
  rw [ConvCtx.verifyConvolution, originProof_verifyClearing, ok_bind] at h
  simp only [ConvCtx.verifyTransforms, show ilog2 oneChannel.filterSize = .ok 2 from rfl, ok_bind,
    originProof_verifyInverse] at h
  cases h

/-- The evaluation that the sumcheck of the inverse transform leaves is not compared with anything. -/
theorem not_bindsSumchecks_originProof :
    ¬ oneChannel.BindsSumchecks (C := Unit) smallLibrary (fun t => (0, t)) .default oneChannelClaim
      (originProof [1, 1, 1]) oneChannelStep 0 () :=
  ConvCtx.not_bindsSumchecks_of_passesChecks smallLibrary_uniform originProof_passesChecks

end OneChannel

end DeepProve
