import DeepProve.LogUp.Layout
import DeepProve.PlainCrypto

/-!
# The bookkeeping of the LogUp verifier

The verifier zips, concatenates and indexes the vectors of a proof whose lengths it
does not check. `LogUpSound` says that it has nevertheless checked what it returns
claims about; `LogUpComplies` is the condition on the proof and the instances under
which that is so.
-/

namespace DeepProve

variable {F : Type} [CommRing F]

/-! ## The final claims -/

namespace LogUpVerifierInstance

/-- The evaluations of the claims of an instance, from its block of the evaluations. -/
def claimEvals (self : LogUpVerifierInstance F) (batchingChallenge : F) (block : List F) : List F :=
  match self.instanceType, block with
  | .lookup, columns =>
    ((columns.take self.numColumns).zip (columns.drop self.numColumns)).map
      (foldPair batchingChallenge)
  | .table, low :: high :: columns =>
    foldPair batchingChallenge (low, high) ::
      ((columns.take self.numColumns).zip (columns.drop self.numColumns)).map
        (foldPair batchingChallenge)
  | .table, _ => []

omit [CommRing F] in
theorem eval_of_claimsAt {self : LogUpVerifierInstance F} {sumcheckPoint evals : List F}
    {claims : List (Claim F)} (h : self.claimsAt sumcheckPoint evals = .ok claims) :
    claims.map Claim.eval = evals := by
  unfold claimsAt at h
  induction evals generalizing claims with
  | nil => rw [← Except.ok.inj h]; rfl
  | cons eval evals ih =>
    simp only [List.mapM_cons, Outcome.bind_eq_ok] at h
    obtain ⟨claim, ⟨point, _, hclaim⟩, rest, hrest, hclaims⟩ := h
    rw [← Except.ok.inj hclaims, List.map_cons, ih hrest, ← Except.ok.inj hclaim]

theorem eval_of_finalClaim {self : LogUpVerifierInstance F} {block sumcheckPoint : List F}
    {batchingChallenge : F} {claims : List (Claim F)}
    (h : self.finalClaim block batchingChallenge sumcheckPoint = .ok claims) :
    claims.map Claim.eval = self.claimEvals batchingChallenge block := by
  unfold finalClaim at h
  unfold claimEvals
  cases htype : self.instanceType with
  | lookup =>
    simp only [htype, List.splitAt_eq] at h
    split at h
    · exact eval_of_claimsAt h
    · cases h
  | table =>
    simp only [htype, List.splitAt_eq] at h
    split at h
    · split at h
      · exact eval_of_claimsAt h
      · cases h
    · cases h

end LogUpVerifierInstance

/-- The evaluations of all claims, block by block. -/
def claimEvals (instances : List (LogUpVerifierInstance F)) (batchingChallenge : F)
    (evals : List F) (start : Nat) : List F :=
  (Blocks.layout LogUpVerifierInstance.numFinalRoundEvals start instances).flatMap
    fun (inst, start) =>
      inst.claimEvals batchingChallenge ((evals.drop start).take inst.numFinalRoundEvals)

/-- The final claims are built from the last evaluations of the proof, one block for
    each instance in the order of the instances. -/
theorem outputClaims_eval {evals sumcheckPoint : List F} {batchingChallenge : F}
    {instances : List (LogUpVerifierInstance F)} {claims claims' : List (Claim F)}
    {skip skip' : Nat}
    (h : instances.foldlM (outputClaimsOf evals batchingChallenge sumcheckPoint) (claims, skip) =
      .ok (claims', skip')) :
    claims'.map Claim.eval =
      claims.map Claim.eval ++ claimEvals instances batchingChallenge evals skip := by
  induction instances generalizing claims skip with
  | nil =>
    obtain ⟨rfl, _⟩ := Prod.mk.inj (Except.ok.inj h)
    simp [claimEvals]
  | cons inst instances ih =>
    rw [List.foldlM_cons, Outcome.bind_eq_ok] at h
    obtain ⟨⟨claims₁, skip₁⟩, hstep, hrest⟩ := h
    simp only [outputClaimsOf] at hstep
    split at hstep
    · rw [Outcome.bind_eq_ok] at hstep
      obtain ⟨new, hnew, hpair⟩ := hstep
      obtain ⟨rfl, rfl⟩ := Prod.mk.inj (Except.ok.inj hpair)
      rw [ih hrest, List.map_append, inst.eval_of_finalClaim hnew, List.append_assoc]
      simp [claimEvals]
    · cases hstep

/-! ## The rounds -/

/-- A loop that returned has returned from each of its steps. -/
theorem exists_step_of_foldlM_eq_ok {α β : Type} {f : β → α → Outcome β} {l : List α} {init out : β}
    (h : l.foldlM f init = .ok out) {i : Nat} {a : α} (ha : l[i]? = some a) :
    ∃ before after, (l.take i).foldlM f init = .ok before ∧ f before a = .ok after := by
  induction l generalizing init i with
  | nil => cases ha
  | cons b l ih =>
    rw [List.foldlM_cons, Outcome.bind_eq_ok] at h
    obtain ⟨next, hstep, hrest⟩ := h
    cases i with
    | zero =>
      cases ha
      exact ⟨init, next, rfl, hstep⟩
    | succ i =>
      obtain ⟨before, after, hbefore, hafter⟩ := ih hrest ha
      refine ⟨before, after, ?_, hafter⟩
      rw [List.take_succ_cons, List.foldlM_cons, hstep]
      exact hbefore

variable (D : DpCrypto F) [DecidableEq F] (proof : LogUpBatchProof D)
  (instances : List (LogUpVerifierInstance F)) (transcript : D.Transcript)

/-- The state before round `i`. -/
def roundState (i : Nat) : Outcome (LogUpRoundState D) :=
  (proof.proofsAndEvals.zipIdx.take i).foldlM (verifyRound D proof instances)
    (initialRoundState D proof instances transcript)

/-- The sizes that run in round `i`. -/
def sizesOfRound (i : Nat) : List Nat := runningSizes instances (proof.sumcheckProofs.length - i)

/-- Round `i` of a run, with what it computes before its check. -/
structure RoundRun (i : Nat) where
  sumcheckProof : D.IOPProof
  roundEvaluations : List F
  entry : proof.proofsAndEvals[i]? = some (sumcheckProof, roundEvaluations)
  state : LogUpRoundState D
  reached : roundState D proof instances transcript i = .ok state
  acc : LayerAcc D
  subclaim : SumcheckSubclaim F
  transcript' : D.Transcript
  sumcheck : roundSumcheck D proof instances state sumcheckProof i = .ok (acc, subclaim, transcript')
  eqEvaluations : List F
  eqs : acc.info.eqEvaluations subclaim.point = .ok eqEvaluations
  check : D.eval (roundEvaluations ++ eqEvaluations) [state.alpha, state.lambda]
    (acc.info.fullSumcheckExpression acc.witnessOffset) = .ok subclaim.expectedEvaluation

namespace RoundRun

variable {D proof instances transcript} {i : Nat} (round : RoundRun D proof instances transcript i)

/-- Whether this is the last round. -/
def isFinal (_ : RoundRun D proof instances transcript i) : Bool :=
  i + 1 == proof.sumcheckProofs.length

/-- The number of evaluations the round reads before the `eq` factors. -/
def needed : Nat := neededEvals instances round.isFinal (sizesOfRound D proof instances i)

/-- Every `eq` factor is read at a position that holds an evaluation the verifier has
    computed, the one of its size. -/
def FactorsComputed : Prop :=
  ∀ g < round.eqEvaluations.length,
    (round.acc.witnessOffset + UInt16.ofNat g).toNat = round.roundEvaluations.length + g

/-- The `eq` evaluation of a size. -/
def eqFactor (size : Nat) : F :=
  let eqPoint := eqPointOf round.state.sumcheckPoint (proof.sumcheckProofs.length - i) size
  identityEval (round.subclaim.point.drop (round.subclaim.point.length - eqPoint.length)) eqPoint

/-- What the check of the round compares the sumcheck with: the layer of every
    instance that runs, on its block of the evaluations of the round. -/
def checkedValue : F :=
  blocksValue round.isFinal round.state.alpha round.state.lambda
    (fun j => round.roundEvaluations[j]?.getD 0) round.eqFactor
    (roundBlocks instances round.isFinal (sizesOfRound D proof instances i)).zipIdx

theorem prepared :
    Prepared instances (proof.sumcheckProofs.length - i) round.isFinal round.state.sumcheckPoint
      (sizesOfRound D proof instances i) round.acc := by
  have h := round.sumcheck
  simp only [roundSumcheck, Outcome.bind_eq_ok] at h
  obtain ⟨_, _, acc, hacc, _, _, _, _, heq⟩ := h
  rw [← (Prod.mk.inj (Except.ok.inj heq)).1]
  exact prepared_of_verifyingInfo hacc

theorem eqEvaluations_eq :
    round.eqEvaluations = (sizesOfRound D proof instances i).map round.eqFactor := by
  have h := Outcome.eq_map_of_mapM_eq_ok (g := fun eqPoint => identityEval
    (round.subclaim.point.drop (round.subclaim.point.length - eqPoint.length)) eqPoint) (by
      intro eqPoint x hx
      rw [Outcome.bind_eq_ok] at hx
      obtain ⟨start, hstart, hx⟩ := hx
      rw [← Except.ok.inj hx, (usizeSub_eq_ok.mp hstart).2]) round.eqs
  rw [h, round.prepared.eqPoints, List.map_map]
  rfl

theorem length_eqEvaluations :
    round.eqEvaluations.length = (sizesOfRound D proof instances i).length := by
  rw [round.eqEvaluations_eq, List.length_map]

/-- The factors are read behind the evaluations of the proof exactly if there are as
    many of these as the round reads. -/
theorem factorsComputed_iff (hpos : 0 < (sizesOfRound D proof instances i).length) :
    round.FactorsComputed ↔ round.roundEvaluations.length = round.needed % 2 ^ 16 ∧
      round.roundEvaluations.length + (sizesOfRound D proof instances i).length ≤ 2 ^ 16 := by
  rw [← eqFactors_iff hpos, FactorsComputed, length_eqEvaluations, round.prepared.witnessOffset]
  unfold eqPosition
  simp only [← UInt16.ofNat_add, Nat.add_comm, needed]

/-- What the check of a round says. -/
theorem expectedEvaluation_eq (hD : D.Lawful)
    (hpos : 0 < (sizesOfRound D proof instances i).length) (hfactors : round.FactorsComputed)
    (hneeded : round.needed < 2 ^ 16) :
    round.subclaim.expectedEvaluation = round.checkedValue := by
  obtain ⟨hlen, hle⟩ := (round.factorsComputed_iff hpos).mp hfactors
  rw [Nat.mod_eq_of_lt hneeded] at hlen
  have hvalue := eval_fullSumcheckExpression hD round.prepared hlen
    (by rw [length_eqEvaluations]; exact hle) hpos round.eqEvaluations_eq round.state.alpha
    round.state.lambda
  rw [round.check] at hvalue
  exact Except.ok.inj hvalue

end RoundRun

variable {D proof instances transcript}

/-- Every round of a run that returned. -/
theorem exists_roundRun {i n : Nat} {state : LogUpRoundState D}
    (h : roundState D proof instances transcript n = .ok state) {entry : D.IOPProof × List F}
    (hin : i < n) (hentry : proof.proofsAndEvals[i]? = some entry) :
    ∃ round : RoundRun D proof instances transcript i, round.roundEvaluations = entry.2 := by
  have hget : (proof.proofsAndEvals.zipIdx.take n)[i]? = some (entry, i) := by
    rw [List.getElem?_take_of_lt hin, List.getElem?_zipIdx, hentry]
    simp
  obtain ⟨before, after, hbefore, hafter⟩ := exists_step_of_foldlM_eq_ok h hget
  rw [List.take_take, Nat.min_eq_left (Nat.le_of_lt hin)] at hbefore
  simp only [verifyRound, Outcome.bind_eq_ok] at hafter
  obtain ⟨⟨acc, subclaim, transcript'⟩, hsumcheck, eqs, heqs, eval, heval, _, hensure, _⟩ := hafter
  have heq : eval = subclaim.expectedEvaluation := by simpa using ensure_eq_ok.mp hensure
  exact ⟨⟨entry.1, entry.2, hentry, before, hbefore, acc, subclaim, transcript', hsumcheck, eqs,
    heqs, heq ▸ heval⟩, rfl⟩

omit [CommRing F] [DecidableEq F] in
theorem exists_of_outputEvals_eq_some {circuitOutputs evals : List (List F)} {size : Nat}
    (h : outputEvals instances circuitOutputs size = some evals) :
    ∃ inst ∈ instances, inst.numVars = size := by
  by_cases hex : ∃ inst ∈ instances, inst.numVars = size
  · exact hex
  · -- no circuit of that size, so nothing is collected
    rw [outputEvals, List.filterMap_eq_nil_iff.mpr ?_] at h
    · cases h
    · rintro ⟨numVars, evals⟩ hmem
      obtain ⟨inst, hinst, hvars⟩ := List.mem_map.mp (List.of_mem_zip hmem).1
      exact if_neg fun heq => hex ⟨inst, hinst, by rw [hvars, heq]⟩

/-- The first round needs an instance with as many variables as there are rounds. -/
theorem RoundRun.exists_largest (round : RoundRun D proof instances transcript 0) :
    ∃ inst ∈ instances, inst.numVars = proof.sumcheckProofs.length := by
  have h := round.sumcheck
  simp only [roundSumcheck, roundWitEvals, Outcome.bind_eq_ok] at h
  obtain ⟨_, ⟨evals, hevals, _⟩, _⟩ := h
  rw [okOr_eq_ok, Nat.sub_zero] at hevals
  exact exists_of_outputEvals_eq_some hevals

/-- So there is a size that runs in every round. -/
theorem sizesOfRound_pos {i n : Nat} {state : LogUpRoundState D}
    (h : roundState D proof instances transcript n = .ok state) {entry : D.IOPProof × List F}
    (hin : i < n) (hentry : proof.proofsAndEvals[i]? = some entry) :
    0 < (sizesOfRound D proof instances i).length := by
  have hlt : 0 < proof.proofsAndEvals.length := by
    have hi := (List.getElem?_eq_some_iff.mp hentry).1
    omega
  obtain ⟨round, _⟩ := exists_roundRun h (by omega) (List.getElem?_eq_getElem hlt)
  obtain ⟨inst, hinst, hvars⟩ := round.exists_largest
  apply List.length_pos_of_mem (a := inst.numVars)
  unfold sizesOfRound
  exact mem_runningSizes.mpr ⟨⟨inst, hinst, rfl⟩, by omega⟩

/-! ## What a proof must look like -/

section Soundness

variable (D proof instances transcript)

omit [CommRing F] [DecidableEq F] in
/-- The evaluations of the last round that is checked, if that is the last of all rounds. -/
def lastChecked : Option (List F) :=
  if 0 < proof.sumcheckProofs.length then
    (proof.proofsAndEvals[proof.sumcheckProofs.length - 1]?).map Prod.snd
  else
    none

omit [CommRing F] [DecidableEq F] in
/-- The blocks the final claims are built from. -/
def claimBlocks : List ((LogUpVerifierInstance F × Nat) × Nat) :=
  Blocks.layout (fun inst => inst.1.numFinalRoundEvals) 0 instances.zipIdx

omit [CommRing F] [DecidableEq F] in
/-- The blocks the last round reads. -/
def checkedBlocks : List ((LogUpVerifierInstance F × Nat) × Nat) :=
  roundBlocks instances true (runningSizes instances 1)

/-- What a run that returned `out` should have made sure of. -/
structure LogUpSound (out : LogUpBatchVerifierClaim F) : Prop where
  /-- In every round the `eq` factors are the evaluations the verifier has computed, -/
  factors : ∀ i, ∀ round : RoundRun D proof instances transcript i, round.FactorsComputed
  /-- and the sumcheck of the round is about the layers of the instances. -/
  checked : ∀ i, ∀ round : RoundRun D proof instances transcript i, round.needed < 2 ^ 16 →
    round.subclaim.expectedEvaluation = round.checkedValue
  checkedLast : ∀ i, ∀ round : RoundRun D proof instances transcript i, round.isFinal = true →
    round.subclaim.expectedEvaluation = round.checkedValue
  /-- The final claims are built from the evaluations that the last round has checked, -/
  lastRound : ∃ evals, proof.roundEvaluations.getLast? = some evals ∧
    lastChecked D proof = some evals ∧
    -- which the blocks of the instances cover,
    Blocks.total LogUpVerifierInstance.numFinalRoundEvals instances = evals.length
  /-- and every instance gets the block that was checked for it. -/
  blocks : ∀ block ∈ claimBlocks instances, 0 < block.1.1.numFinalRoundEvals →
    block ∈ checkedBlocks instances
  outputs : proof.circuitOutputs.length = instances.length
  polyEvals : out.polyEvals = out.outputClaims.map Claim.eval

/-- The condition on the proof and the instances. -/
structure LogUpComplies : Prop where
  /-- Every round has as many evaluations as it reads, counted in 16 bits. -/
  rounds : ∀ i entry, proof.proofsAndEvals[i]? = some entry →
    let sizes := sizesOfRound D proof instances i
    entry.2.length =
        neededEvals instances (i + 1 == proof.sumcheckProofs.length) sizes % 2 ^ 16 ∧
      entry.2.length + sizes.length ≤ 2 ^ 16
  /-- There is a round, and no evaluations come after those of the last round. -/
  lastRound : 0 < proof.sumcheckProofs.length ∧
    proof.roundEvaluations[proof.sumcheckProofs.length - 1]? = proof.roundEvaluations.getLast?
  covered : ∀ evals, proof.roundEvaluations.getLast? = some evals →
    Blocks.total LogUpVerifierInstance.numFinalRoundEvals instances = evals.length
  /-- The instances with claims are listed by size, the largest first, and run. -/
  ordered : (instances.filter fun inst => 0 < inst.numFinalRoundEvals).Pairwise
    fun inst inst' => inst'.numVars ≤ inst.numVars
  running : ∀ inst ∈ instances, 0 < inst.numFinalRoundEvals → 1 ≤ inst.numVars
  outputs : proof.circuitOutputs.length = instances.length
  /-- The claims that come with the proof are the ones its last evaluations give. -/
  claims : ∀ evals state, proof.roundEvaluations.getLast? = some evals →
    roundState D proof instances transcript proof.proofsAndEvals.length = .ok state →
    proof.outputClaims.map Claim.eval = claimEvals instances state.batchingChallenge evals 0

variable {D proof instances transcript}

/-- What a run that returned has gone through. -/
theorem newVerifyLogupProofMultipleSizes_run {out : LogUpBatchVerifierClaim F}
    {transcript' : D.Transcript}
    (h : newVerifyLogupProofMultipleSizes D proof instances transcript = .ok (out, transcript')) :
    ∃ state evals skip,
      roundState D proof instances transcript proof.proofsAndEvals.length = .ok state ∧
      proof.roundEvaluations.getLast? = some evals ∧
      instances.foldlM (outputClaimsOf evals state.batchingChallenge state.sumcheckPoint) ([], 0) =
        .ok (out.outputClaims, skip) ∧
      out.polyEvals = proof.outputClaims.map Claim.eval ∧ out.point = state.sumcheckPoint := by
  simp only [newVerifyLogupProofMultipleSizes, Outcome.bind_eq_ok] at h
  obtain ⟨_, _, state, hstate, evals, hevals, ⟨claims, skip⟩, hclaims, hout⟩ := h
  obtain ⟨rfl, _⟩ := Prod.mk.inj (Except.ok.inj hout)
  refine ⟨state, evals, skip, ?_, okOr_eq_ok.mp hevals, hclaims, rfl, rfl⟩
  rw [roundState, List.take_of_length_le (by rw [List.length_zipIdx])]
  exact hstate

theorem newVerifyLogupProofMultipleSizes_eq_ok {out : LogUpBatchVerifierClaim F}
    {transcript' : D.Transcript}
    (h : newVerifyLogupProofMultipleSizes D proof instances transcript = .ok (out, transcript')) :
    ∃ state evals, roundState D proof instances transcript proof.proofsAndEvals.length = .ok state ∧
      proof.roundEvaluations.getLast? = some evals ∧
      out.polyEvals = proof.outputClaims.map Claim.eval ∧
      out.outputClaims.map Claim.eval = claimEvals instances state.batchingChallenge evals 0 := by
  obtain ⟨state, evals, _, hstate, hevals, hclaims, hpolys, -⟩ :=
    newVerifyLogupProofMultipleSizes_run h
  exact ⟨state, evals, hstate, hevals, hpolys, outputClaims_eval hclaims⟩

omit [CommRing F] [DecidableEq F] in
/-- The last evaluations are those the last round has checked exactly if there is a
    round and none come after those of the last round. -/
theorem lastChecked_eq_some_iff {evals : List F}
    (hlast : proof.roundEvaluations.getLast? = some evals) :
    lastChecked D proof = some evals ↔ 0 < proof.sumcheckProofs.length ∧
      proof.roundEvaluations[proof.sumcheckProofs.length - 1]? =
        proof.roundEvaluations.getLast? := by
  unfold lastChecked
  by_cases hpos : 0 < proof.sumcheckProofs.length
  · have hproof := List.getElem?_eq_getElem (l := proof.sumcheckProofs)
      (i := proof.sumcheckProofs.length - 1) (by omega)
    rw [if_pos hpos, LogUpBatchProof.proofsAndEvals, List.zip, List.getElem?_zipWith, hproof, hlast]
    cases proof.roundEvaluations[proof.sumcheckProofs.length - 1]? <;> simp [hpos]
  · simp [hpos]

omit [CommRing F] [DecidableEq F] in
/-- Every instance gets the block that was checked for it exactly if the instances are
    listed by size, the largest first, and run. -/
theorem claimBlocks_subset_iff :
    (∀ block ∈ claimBlocks instances, 0 < block.1.1.numFinalRoundEvals →
        block ∈ checkedBlocks instances) ↔
      ((instances.filter fun inst => 0 < inst.numFinalRoundEvals).Pairwise
          fun inst inst' => inst'.numVars ≤ inst.numVars) ∧
        ∀ inst ∈ instances, 0 < inst.numFinalRoundEvals → 1 ≤ inst.numVars := by
  have hlayout := Blocks.layout_subset_byKeys_iff
    (fun (inst : LogUpVerifierInstance F × Nat) => inst.1.numFinalRoundEvals)
    (fun inst => inst.1.numVars) (pairwise_runningSizes instances 1)
    (l := instances.zipIdx)
  have hfilter := List.filter_map (f := Prod.fst) (l := instances.zipIdx)
    (p := fun (inst : LogUpVerifierInstance F) => decide (0 < inst.numFinalRoundEvals))
  rw [List.zipIdx_map_fst] at hfilter
  rw [hfilter, List.pairwise_map]
  refine hlayout.trans (and_congr_right fun _ => ?_)
  constructor
  · intro h inst hinst hwidth
    obtain ⟨i, hi⟩ := List.mem_iff_getElem?.mp hinst
    exact (mem_runningSizes.mp (h (inst, i) (List.mem_zipIdx_iff_getElem?.mpr hi) hwidth)).2
  · intro h inst hinst hwidth
    have hmem := List.fst_mem_of_mem_zipIdx hinst
    exact mem_runningSizes.mpr ⟨⟨inst.1, hmem, rfl⟩, h inst.1 hmem hwidth⟩

/-- The last round reads no more than the blocks take up. -/
theorem needed_le_of_isFinal {i : Nat} (round : RoundRun D proof instances transcript i)
    (hfinal : round.isFinal = true) :
    round.needed ≤ Blocks.total LogUpVerifierInstance.numFinalRoundEvals instances := by
  have hle := Blocks.total_byKeys_le (fun inst => inst.1.numVars)
    (fun (inst : LogUpVerifierInstance F × Nat) => inst.1.numFinalRoundEvals)
    (pairwise_runningSizes instances (proof.sumcheckProofs.length - i)) instances.zipIdx
  have hmap : Blocks.total (fun (inst : LogUpVerifierInstance F × Nat) =>
      inst.1.numFinalRoundEvals) instances.zipIdx =
        Blocks.total LogUpVerifierInstance.numFinalRoundEvals instances := by
    rw [Blocks.total, Blocks.total, ← List.zipIdx_map_fst 0 instances, List.map_map]
    simp [Function.comp_def]
  rw [hmap] at hle
  unfold RoundRun.needed
  rw [hfinal]
  exact hle

/-- A run that returned has made sure of what it returns claims about exactly if the
    proof and the instances comply. -/
theorem newVerifyLogupProofMultipleSizes_sound_iff (hD : D.Lawful)
    {out : LogUpBatchVerifierClaim F} {transcript' : D.Transcript}
    (h : newVerifyLogupProofMultipleSizes D proof instances transcript = .ok (out, transcript')) :
    LogUpSound D proof instances transcript out ↔ LogUpComplies D proof instances transcript := by
  obtain ⟨state, evals, hstate, hlast, hpolyEvals, hclaims⟩ :=
    newVerifyLogupProofMultipleSizes_eq_ok h
  have hrounds : ∀ i entry, proof.proofsAndEvals[i]? = some entry →
      i < proof.proofsAndEvals.length ∧ 0 < (sizesOfRound D proof instances i).length := by
    intro i entry hentry
    have hi := (List.getElem?_eq_some_iff.mp hentry).1
    exact ⟨hi, sizesOfRound_pos hstate hi hentry⟩
  constructor
  · intro hsound
    obtain ⟨evals', hevals', hchecked, hcovered⟩ := hsound.lastRound
    obtain rfl : evals = evals' := Option.some.inj (hlast.symm.trans hevals')
    have hblocks := claimBlocks_subset_iff.mp hsound.blocks
    constructor
    case rounds =>
      intro i entry hentry
      obtain ⟨hi, hpos⟩ := hrounds i entry hentry
      obtain ⟨round, heq⟩ := exists_roundRun hstate hi hentry
      rw [← heq]
      exact (round.factorsComputed_iff hpos).mp (hsound.factors i round)
    case lastRound => exact (lastChecked_eq_some_iff hlast).mp hchecked
    case covered =>
      intro evals' h'
      rw [hcovered, Option.some.inj (hlast.symm.trans h')]
    case ordered => exact hblocks.1
    case running => exact hblocks.2
    case outputs => exact hsound.outputs
    case claims =>
      intro evals' state' h' hstate'
      rw [← Option.some.inj (hlast.symm.trans h'), ← Except.ok.inj (hstate.symm.trans hstate'),
        ← hclaims, ← hsound.polyEvals, hpolyEvals]
  · intro hcomplies
    have hfactors : ∀ i, ∀ round : RoundRun D proof instances transcript i,
        round.FactorsComputed := by
      intro i round
      obtain ⟨_, hpos⟩ := hrounds i _ round.entry
      exact (round.factorsComputed_iff hpos).mpr (hcomplies.rounds i _ round.entry)
    constructor
    case factors => exact hfactors
    case checked =>
      intro i round hneeded
      obtain ⟨_, hpos⟩ := hrounds i _ round.entry
      exact round.expectedEvaluation_eq hD hpos (hfactors i round) hneeded
    case checkedLast =>
      intro i round hfinal
      obtain ⟨_, hpos⟩ := hrounds i _ round.entry
      -- the evaluations of the last round are the last ones, and few enough
      have hle := needed_le_of_isFinal round hfinal
      have hi : i = proof.sumcheckProofs.length - 1 := by
        have := eq_of_beq hfinal
        omega
      have hchecked := (lastChecked_eq_some_iff hlast).mpr hcomplies.lastRound
      rw [lastChecked, if_pos hcomplies.lastRound.1, ← hi, round.entry] at hchecked
      obtain rfl : round.roundEvaluations = evals := Option.some.inj hchecked
      have hlen := (hcomplies.rounds i _ round.entry).2
      rw [hcomplies.covered _ hlast] at hle
      simp only at hlen
      exact round.expectedEvaluation_eq hD hpos (hfactors i round) (by omega)
    case lastRound =>
      exact ⟨evals, hlast, (lastChecked_eq_some_iff hlast).mpr hcomplies.lastRound,
        hcomplies.covered evals hlast⟩
    case blocks => exact claimBlocks_subset_iff.mpr ⟨hcomplies.ordered, hcomplies.running⟩
    case outputs => exact hcomplies.outputs
    case polyEvals => rw [hpolyEvals, hclaims, hcomplies.claims evals state hlast hstate]

end Soundness

/-! ## One lookup -/

section OneLookup

/-- One column of two entries, both `1`. -/
def oneLookup : LogUpVerifierInstance (ZMod 5) where
  constantChallenge := 0
  columnSeparationChallenge := 1
  numColumns := 1
  instanceType := .lookup
  numVars := 1

/-- The proof for it when every challenge is `3`, with more evaluations after those of
    the only round. -/
def oneLookupProof (more : List (List (ZMod 5))) :
    LogUpBatchProof (plainCrypto fun _ => (3 : ZMod 5)) where
  sumcheckProofs := [[fun x => 2 * x ^ 2]]
  roundEvaluations := [1, 1] :: more
  outputClaims := [⟨[3, 3], 1⟩]
  circuitOutputs := [[4, 4, 1, 1]]

/-- What the verifier returns for it, given the evaluation it computes. -/
def oneLookupClaim (eval : ZMod 5) : LogUpBatchVerifierClaim (ZMod 5) where
  claim := 0
  outputClaims := [⟨[3, 3], eval⟩]
  point := [3, 3]
  polyEvals := [1]
  numerators := [3]
  denominators := [1]

theorem oneLookup_complies :
    LogUpComplies (plainCrypto fun _ => (3 : ZMod 5)) (oneLookupProof []) [oneLookup] [] where
  rounds := by
    intro i entry hentry
    cases i with
    | zero =>
      cases hentry
      exact ⟨by decide, by decide⟩
    | succ i => cases hentry
  lastRound := by decide
  covered := by
    intro evals hevals
    cases hevals
    rfl
  ordered := by decide
  running := by decide
  outputs := rfl
  claims := by
    intro evals state hevals hstate
    cases hevals
    have hrun : roundState (plainCrypto fun _ => (3 : ZMod 5)) (oneLookupProof []) [oneLookup] [] 1 =
        .ok ⟨[1, 4, 4, 1, 1, 3, 3, 3, 2, 0, 2, 3], 3, 3, 3, [3, 3]⟩ := by rfl
    obtain rfl := Except.ok.inj (hrun.symm.trans hstate)
    decide

/-- The honest proof makes sure of everything. -/
theorem newVerifyLogupProofMultipleSizes_sound_oneLookup :
    LogUpSound (plainCrypto fun _ => (3 : ZMod 5)) (oneLookupProof []) [oneLookup] []
      (oneLookupClaim 1) :=
  have hrun : newVerifyLogupProofMultipleSizes (plainCrypto fun _ => (3 : ZMod 5))
      (oneLookupProof []) [oneLookup] [] =
        .ok (oneLookupClaim 1, [1, 4, 4, 1, 1, 3, 3, 3, 2, 0, 2, 3]) := by rfl
  (newVerifyLogupProofMultipleSizes_sound_iff (plainCrypto_lawful _) hrun).mpr oneLookup_complies

/-- **Evaluations that nobody checked.** -/
theorem newVerifyLogupProofMultipleSizes_accepts_unchecked :
    newVerifyLogupProofMultipleSizes (plainCrypto fun _ => (3 : ZMod 5)) (oneLookupProof [[2, 4]])
        [oneLookup] [] = .ok (oneLookupClaim 3, [1, 4, 4, 1, 1, 3, 3, 3, 2, 0, 2, 3]) ∧
      ¬ LogUpSound (plainCrypto fun _ => (3 : ZMod 5)) (oneLookupProof [[2, 4]]) [oneLookup] []
        (oneLookupClaim 3) := by
  refine ⟨by rfl, ?_⟩
  intro hsound
  obtain ⟨evals, hlast, hchecked, _⟩ := hsound.lastRound
  cases hlast
  cases hchecked

end OneLookup

end DeepProve
