import DeepProve.Convolution.Delegate

/-!
# The checks of a delegation

The chain that the prover runs is the one that `verify_fft_delegation` and `verify_convolution` check:
a claim is the sum of the next sumcheck, the verifier's closed formula is the polynomial that the prover
has summed with, and the last claim is the constant formula.
-/

namespace DeepProve

open List (cells)
open Multilinear (eval eqWeight)

namespace Chain

variable {F : Type} [Field F] {P T : Type} {chain : Chain F P T}

variable (chain) in
/-- The claim before sumcheck `j`. -/
def claim (j : Nat) : F :=
  eval (levelTable chain.a chain.scale chain.rx chain.isFft j) (chain.state j).1

/-- The claim is the sum of the next sumcheck. -/
theorem claim_eq_sum {j : Nat} (hj : j + 1 < chain.rx.length) :
    chain.claim j =
      hypercubeSum (chain.rx.length - (j + 1)) (chain.factors j (chain.state j).1) := by
  obtain ⟨lo, last, r, hpoint, hlo, hr⟩ := chain.state_eq_concat (Nat.lt_of_succ_lt hj)
  have hcount : chain.rx.length - (j + 1) = lo.length := by omega
  rw [claim, hpoint, chain.factors_concat hr hlo, hcount, hypercubeSum_cells,
    levelTable_eval chain.root hj hr hlo]

theorem claim_succ {j : Nat} :
    chain.claim (j + 1) = eval (phiLevel chain.a chain.scale chain.rx (chain.rx.length - (j + 1)))
      (chain.state (j + 1)).1 := by
  have hnot : ¬ (!chain.isFft && j + 1 == 0) = true := by simp
  apply Multilinear.eval_congr
  intro b _
  rw [levelTable, if_neg hnot]

theorem identityEval_concat {lo point : List F} (hlength : point.length = lo.length) (last : F) :
    identityEval point (lo ++ [last]) = eval (eqWeight lo) point := by
  have hzip : point.zip (lo ++ [last]) = point.zip lo := by
    have happend : (point ++ []).zip (lo ++ [last]) = point.zip lo ++ [].zip [last] :=
      List.zip_append hlength
    rwa [List.append_nil, List.zip_nil_left, List.append_nil] at happend
  rw [identityEval, hzip, Multilinear.eval_eqWeight lo point hlength.symm, Multilinear.eqPoly_comm,
    ← identityEval_eq_eqPoly, identityEval]

/-- The evaluations that the prover sends. -/
theorem finalEvaluations_eq {j : Nat} {lo : List F} {last r : F} (hpoint : (chain.state j).1 = lo ++ [last])
    (hlo : lo.length + j + 1 = chain.rx.length) (hr : chain.rx[j]? = some r) :
    (chain.result j).2.2.1 =
      [identityEval (chain.state (j + 1)).1 (chain.state j).1,
        eval (phiTable chain.a r last chain.isFft j) (chain.state (j + 1)).1, chain.claim (j + 1)] := by
  have hlength : (chain.state (j + 1)).1.length = lo.length := by
    rw [chain.state_length]
    omega
  have hcount : chain.rx.length - (j + 1) = lo.length := by omega
  have hchallenges : (chain.result j).2.1 = (chain.state (j + 1)).1 := rfl
  have hevaluations := chain.lawful.finalEvaluations (chain.factors j (chain.state j).1) _ (chain.state j).2
    (List.cons_ne_nil _ _) (chain.factors_length j _)
  refine hevaluations.trans ?_
  change (chain.factors j (chain.state j).1).map
    (fun f => mle f (chain.result j).2.1) = _
  rw [hchallenges, hpoint, chain.factors_concat hr hlo, identityEval_concat hlength, claim_succ, hcount]
  simp only [List.map_cons, List.map_nil, mle_cells _ hlength]

/-- The factors of the sumcheck as `from_mle_list_dimensions` knows them. -/
theorem delegationFftAux_get {m j : Nat} (hj : j < m) :
    (ConvCtx.delegationFftAux m)[j]? = some (fromMleListDimensions [[m - j, m - j, m - j]]) := by
  have hlt : j < ((List.range m).reverse).length := by simpa using hj
  rw [ConvCtx.delegationFftAux, List.getElem?_map, List.getElem?_eq_getElem hlt, List.getElem_reverse]
  simp only [List.getElem_range, List.length_range, Option.map_some]
  rw [show m - 1 - j + 1 = m - j by omega]

section Verifier

variable [DecidableEq F] {v : SumcheckVerifier F P T} (rand1 : Nat → Outcome F)

/-- The checks of one sumcheck pass. -/
theorem delegationStep_eq_ok (hv : v.Accepts chain.prover) {j : Nat} (hj : j + 1 < chain.rx.length)
    (hrand : ∀ r, chain.rx[j]? = some r → rand1 j = .ok r) :
    delegationStep v (chain.delegation (chain.rx.length - 1))
        (ConvCtx.delegationFftAux (chain.rx.length - 1)) rand1 (fun i => !chain.isFft && i == 0)
        (cells (chain.rx.length - 1) (chain.a ^ 2 ^ ·)) (chain.claim j, chain.state j)
        ((chain.result j).1, j) =
      .ok (chain.claim (j + 1), chain.state (j + 1)) := by
  obtain ⟨lo, last, r, hpoint, hlo, hr⟩ := chain.state_eq_concat (Nat.lt_of_succ_lt hj)
  have hlt : j < chain.rx.length - 1 := by omega
  have hlength := chain.state_length (j + 1)
  obtain ⟨subclaim, hverify⟩ := hv (chain.factors j (chain.state j).1) _ (chain.state j).2
    (List.cons_ne_nil _ _) (chain.factors_length j _)
  rw [← chain.claim_eq_sum hj] at hverify
  change v (chain.claim j) (chain.result j).1 (fromMleListDimensions
    [[chain.rx.length - (j + 1), chain.rx.length - (j + 1), chain.rx.length - (j + 1)]])
    (chain.state j).2 = .ok (subclaim, (chain.state (j + 1)).2) at hverify
  have haux := delegationFftAux_get hlt
  rw [show chain.rx.length - 1 - j = chain.rx.length - (j + 1) by omega] at haux
  have hpoints : (chain.delegation (chain.rx.length - 1)).points[j]? = some (chain.state (j + 1)).1 :=
    List.getElem?_cells hlt
  have hclaims := chain.finalEvaluations_eq hpoint hlo hr
  have hsent : (chain.delegation (chain.rx.length - 1)).claims[j]? =
      some (chain.result j).2.2.1 := List.getElem?_cells hlt
  rw [hclaims] at hsent
  have hcount : usizeSub (chain.state j).1.length 1 = .ok lo.length := by
    rw [hpoint, List.length_append, List.length_singleton]
    exact usizeSub_eq_ok.mpr ⟨by omega, rfl⟩
  have hlast : (chain.state j).1[lo.length]? = some last := by
    rw [hpoint, List.getElem?_append_right (Nat.le_refl _), Nat.sub_self]
    rfl
  have hphi : phiEval (chain.state (j + 1)).1 r last (cells (chain.rx.length - 1) (chain.a ^ 2 ^ ·))
      (!chain.isFft && j == 0) =
        .ok (eval (phiTable chain.a r last chain.isFft j) (chain.state (j + 1)).1) :=
    phiEval_eq_ok (by omega) r last
  have hstate : chain.state j = ((chain.state j).1, (chain.state j).2) := rfl
  rw [hstate, delegationStep]
  dsimp only
  rw [haux, unwrap_some, Outcome.ok_bind, hverify, Outcome.ok_bind, hpoints, unwrap_some,
    Outcome.ok_bind, hsent, unwrap_some, Outcome.ok_bind]
  simp only [List.getElem?_cons_zero, List.getElem?_cons_succ, unwrap_some, Outcome.ok_bind,
    beq_self_eq_true, ensure_true, hrand r hr, hcount, hlast, hphi]

/-- The checks of the chain pass. -/
theorem foldlM_delegationStep (hv : v.Accepts chain.prover)
    (hrand : ∀ j r, j + 1 < chain.rx.length → chain.rx[j]? = some r → rand1 j = .ok r) :
    (chain.delegation (chain.rx.length - 1)).proofs.zipIdx.foldlM
        (delegationStep v (chain.delegation (chain.rx.length - 1))
          (ConvCtx.delegationFftAux (chain.rx.length - 1)) rand1 (fun i => !chain.isFft && i == 0)
          (cells (chain.rx.length - 1) (chain.a ^ 2 ^ ·)))
        (chain.claim 0, chain.r2, chain.transcript) =
      .ok (chain.claim (chain.rx.length - 1), chain.state (chain.rx.length - 1)) := by
  have hentries : ∀ k, (cells k fun j => (chain.result j).1).zipIdx =
      (List.range k).map fun j => ((chain.result j).1, j) := by
    intro k
    apply List.ext_getElem
    · simp
    · intro i _ _
      simp [cells]
  have hrun : ∀ k ≤ chain.rx.length - 1, (List.range k).foldlM (fun state j =>
      delegationStep v (chain.delegation (chain.rx.length - 1))
        (ConvCtx.delegationFftAux (chain.rx.length - 1)) rand1 (fun i => !chain.isFft && i == 0)
        (cells (chain.rx.length - 1) (chain.a ^ 2 ^ ·)) state ((chain.result j).1, j))
      (chain.claim 0, chain.r2, chain.transcript) = .ok (chain.claim k, chain.state k) := by
    intro k hk
    induction k with
    | zero => rfl
    | succ k ih =>
      rw [List.range_succ, List.foldlM_append, ih (by omega), Outcome.ok_bind, List.foldlM_cons,
        chain.delegationStep_eq_ok rand1 hv (by omega) fun r hr => hrand k r (by omega) hr, Outcome.ok_bind]
      rfl
  rw [delegation, hentries, List.foldlM_map]
  exact hrun _ (Nat.le_refl _)

end Verifier

/-- The last claim. -/
theorem claim_last (hn : 2 ≤ chain.rx.length) {r : F}
    (hr : chain.rx[chain.rx.length - 1]? = some r) :
    ∃ p, (chain.state (chain.rx.length - 1)).1 = [p] ∧
      chain.claim (chain.rx.length - 1) = chain.scale * (1 - p) + chain.scale * (1 - 2 * r) * p := by
  have hlength := chain.state_length (chain.rx.length - 1)
  obtain ⟨p, hp⟩ := List.length_eq_one_iff.mp
    (show (chain.state (chain.rx.length - 1)).1.length = 1 by omega)
  obtain ⟨k, hk⟩ := Nat.exists_eq_add_of_le' (show 1 ≤ chain.rx.length - 1 by omega)
  have hone : chain.rx.length - (k + 1) = 1 := by omega
  refine ⟨p, hp, ?_⟩
  rw [hk, claim_succ, hone, ← hk, hp, eval_phiLevel_one chain.root (by omega) hr]

end Chain

/-! ## Both directions -/

section Directions

variable {F : Type} [Field F] {P T : Type}

/-- The values of one sumcheck: the claim is the sum, the prover sends the values of its factors, and
    the verifier computes the first two. -/
structure LevelHolds (exponents : List F) (firstIter : Bool) (r last claim : F)
    (prevR point beta phi middle claims : List F) : Prop where
  sum : claim = hypercubeSum point.length [beta, phi, middle]
  claims : claims = [mle beta point, mle phi point, mle middle point]
  identity : identityEval point prevR = mle beta point
  phi : phiEval point r last exponents firstIter = .ok (mle phi point)

/-- The claim before sumcheck `j`: at first about the row of the matrix, then what the sumcheck before
    has left. -/
def claimBefore (phiG r2 : List F) (delegation : Delegation F P) : Nat → Option F
  | 0 => some (mle phiG r2)
  | j + 1 => do
    let claims ← delegation.claims[j]?
    claims[2]?

variable [DecidableEq F]

/-- The values of all sumchecks of a chain. -/
def LevelsHold (L : PolyLibrary F) (rx r2 : List F) (isFft : Bool) (phiG : List F)
    (midPhiG : List (List F)) (delegation : Delegation F P) : Prop :=
  ∃ omegas exponents,
    phiPowInit L (List.replicate (2 ^ rx.length) 0) rx.length isFft = .ok omegas ∧
    powTwoOmegas L rx.length isFft = .ok exponents ∧
    ∀ j, j + 1 < rx.length → ∃ r last claim prevR point phi middle claims,
      rx[j]? = some r ∧ claimBefore phiG r2 delegation j = some claim ∧
      (r2 :: delegation.points)[j]? = some prevR ∧ prevR.getLast? = some last ∧
      delegation.points[j]? = some point ∧ point.length = rx.length - (j + 1) ∧
      midPhiG[rx.length - (j + 2)]? = some middle ∧
      (List.range middle.length).mapM
        (phiFactor rx omegas midPhiG.length (rx.length - (j + 2)) last isFft) = .ok phi ∧
      delegation.claims[j]? = some claims ∧
      LevelHolds exponents (!isFft && j == 0) r last claim prevR point (L.evals prevR.dropLast) phi
        middle claims

variable {L : PolyLibrary F} {w : F}

theorem powTwoOmegas_eq_ok {n : Nat} (hn : 2 ≤ n) (hroot : L.rootOfUnity (2 ^ n) = some w)
    (hw : IsPrimitiveRoot w (2 ^ n)) (isFft : Bool) :
    powTwoOmegas L n isFft = .ok (cells (n - 1) (directedRoot w isFft ^ 2 ^ ·)) := by
  have hsize : usizeSub n 1 = .ok (n - 1) := usizeSub_eq_ok.mpr ⟨by omega, rfl⟩
  have hpos : powTwoOmegas.ensurePos (n - 1) = .ok () := if_neg (by omega)
  rw [powTwoOmegas, hsize, Outcome.ok_bind, hroot, okOr_some, Outcome.ok_bind]
  cases isFft with
  | false =>
    dsimp only
    rw [if_neg Bool.false_ne_true, hpos]
    rfl
  | true =>
    dsimp only
    rw [if_pos rfl, inverseOrPanic, if_neg (hw.ne_zero (Nat.two_pow_pos n).ne'), hpos]
    rfl

/-- The row of the matrix, and the levels that are kept. -/
theorem phiGInit_eq_ok {rx : List F} (hroot : L.rootOfUnity (2 ^ rx.length) = some w)
    (hw : IsPrimitiveRoot w (2 ^ rx.length)) (hn : 0 < rx.length) (scale : F) (isFft : Bool) :
    phiGInit L (List.replicate (2 ^ rx.length) 0) (List.replicate (rx.length - 1) []) rx scale rx.length
        isFft =
      .ok (cells (2 ^ rx.length) (levelTable (directedRoot w isFft) scale rx isFft 0),
        phiMiddles (directedRoot w isFft) scale rx) := by
  cases isFft with
  | false => exact phiGInit_forward hroot hw hn scale
  | true => exact phiGInit_inverse hroot hw hn scale

theorem Chain.levelsHold {chain : Chain F P T} (hn : 2 ≤ chain.rx.length)
    (hevals : ∀ z, L.evals z = cells (2 ^ z.length) (eqWeight z))
    (hroot : L.rootOfUnity (2 ^ chain.rx.length) = some w)
    (hw : IsPrimitiveRoot w (2 ^ chain.rx.length)) (ha : chain.a = directedRoot w chain.isFft) :
    LevelsHold L chain.rx chain.r2 chain.isFft
      (cells (2 ^ chain.rx.length) (levelTable chain.a chain.scale chain.rx chain.isFft 0))
      (phiMiddles chain.a chain.scale chain.rx) (chain.delegation (chain.rx.length - 1)) := by
  refine ⟨cells (2 ^ chain.rx.length) (chain.a ^ ·), cells (chain.rx.length - 1) (chain.a ^ 2 ^ ·), ?_,
    ?_, ?_⟩
  · rw [List.replicate_eq_cells, phiPowInit_eq_ok hroot hw, ha]
  · rw [powTwoOmegas_eq_ok hn hroot hw, ha]
  intro j hj
  obtain ⟨lo, last, r, hpoint, hlo, hr⟩ := chain.state_eq_concat (Nat.lt_of_succ_lt hj)
  have hcount : chain.rx.length - (j + 1) = lo.length := by omega
  have hlength : (chain.state (j + 1)).1.length = lo.length := by rw [chain.state_length, hcount]
  refine ⟨r, last, chain.claim j, (chain.state j).1, (chain.state (j + 1)).1,
    cells (2 ^ lo.length) (phiTable chain.a r last chain.isFft j),
    cells (2 ^ lo.length) (phiLevel chain.a chain.scale chain.rx lo.length),
    (chain.result j).2.2.1, hr, ?_, ?_, ?_, ?_, by omega, ?_, ?_, ?_, ?_⟩
  · -- the claim before is the one that the sumcheck before has left
    cases j with
    | zero => exact congrArg some (mle_cells _ chain.length_r2)
    | succ j =>
      obtain ⟨lo', last', r', hpoint', hlo', hr'⟩ := chain.state_eq_concat (show j < chain.rx.length by omega)
      have hsent : (chain.delegation (chain.rx.length - 1)).claims[j]? = some (chain.result j).2.2.1 :=
        List.getElem?_cells (by omega)
      rw [chain.finalEvaluations_eq hpoint' hlo' hr'] at hsent
      rw [claimBefore, hsent]
      rfl
  · cases j with
    | zero => rfl
    | succ j => exact List.getElem?_cells (by omega)
  · rw [hpoint, List.getLast?_concat]
  · exact List.getElem?_cells (by omega)
  · rw [phiMiddles, List.getElem?_cells (by omega), phiMiddle,
      show chain.rx.length - (j + 2) + 1 = lo.length by omega]
  · rw [List.length_cells, phiMiddles, List.length_cells]
    exact chain.mapM_phiFactor hr hj hlo
  · exact List.getElem?_cells (by omega)
  · have hfront : L.evals (chain.state j).1.dropLast = cells (2 ^ lo.length) (eqWeight lo) := by
      rw [hpoint, List.dropLast_concat, hevals]
    have hidentity : identityEval (chain.state (j + 1)).1 (chain.state j).1 =
        mle (cells (2 ^ lo.length) (eqWeight lo)) (chain.state (j + 1)).1 := by
      rw [hpoint, Chain.identityEval_concat hlength, mle_cells _ hlength]
    rw [hfront]
    refine ⟨?_, ?_, hidentity, ?_⟩
    · rw [hlength, chain.claim_eq_sum hj, hpoint, chain.factors_concat hr hlo, hcount]
    · rw [chain.finalEvaluations_eq hpoint hlo hr, hidentity, mle_cells _ hlength, mle_cells _ hlength,
        mle_cells _ hlength, chain.claim_succ, hcount]
    · rw [mle_cells _ hlength]
      exact phiEval_eq_ok (by omega) r last

/-- The run of a direction: what `phi_g_init` and `delegate_matrix_evaluation` return, and the values on
    all levels. -/
structure Delegated (L : PolyLibrary F) (prover : SumcheckProver F P T) (rx r2 : List F) (scale : F)
    (isFft : Bool) (t : T) (phiG : List F) (midPhiG : List (List F)) (delegation : Delegation F P)
    (t' : T) : Prop where
  init : phiGInit L (List.replicate (2 ^ rx.length) 0) (List.replicate (rx.length - 1) []) rx scale
    rx.length isFft = .ok (phiG, midPhiG)
  run : delegateMatrixEvaluation L prover midPhiG rx r2 isFft t = .ok (delegation, t')
  levels : LevelsHold L rx r2 isFft phiG midPhiG delegation

/-- The first entries that were kept, at the last point. -/
def LastLevel (midPhiG : List (List F)) (delegation : Delegation F P) (levels : Nat) (formula : F → F) :
    Prop :=
  ∃ level p, midPhiG[0]? = some level ∧ delegation.points[levels - 1]? = some [p] ∧
    mle level [p] = formula p

section Run

variable {v : SumcheckVerifier F P T} {chain : Chain F P T}

theorem Chain.delegated (hn : 2 ≤ chain.rx.length)
    (hevals : ∀ z, L.evals z = cells (2 ^ z.length) (eqWeight z))
    (hroot : L.rootOfUnity (2 ^ chain.rx.length) = some w)
    (hw : IsPrimitiveRoot w (2 ^ chain.rx.length)) (ha : chain.a = directedRoot w chain.isFft) :
    Delegated L chain.prover chain.rx chain.r2 chain.scale chain.isFft chain.transcript
      (cells (2 ^ chain.rx.length) (levelTable chain.a chain.scale chain.rx chain.isFft 0))
      (phiMiddles chain.a chain.scale chain.rx) (chain.delegation (chain.rx.length - 1))
      (chain.state (chain.rx.length - 1)).2 where
  init := by rw [phiGInit_eq_ok hroot hw (by omega), ha]
  run := chain.delegateMatrixEvaluation_eq_ok hevals hroot hw ha (by omega)
  levels := chain.levelsHold hn hevals hroot hw ha

omit [DecidableEq F] in
theorem Chain.lastLevel (hn : 2 ≤ chain.rx.length) {r : F}
    (hr : chain.rx[chain.rx.length - 1]? = some r) :
    LastLevel (phiMiddles chain.a chain.scale chain.rx) (chain.delegation (chain.rx.length - 1))
      (chain.rx.length - 1) fun p => chain.scale * (1 - p) + chain.scale * (1 - 2 * r) * p := by
  obtain ⟨p, hpoint, -⟩ := chain.claim_last hn hr
  obtain ⟨k, hk⟩ := Nat.exists_eq_add_of_le' (show 1 ≤ chain.rx.length - 1 by omega)
  refine ⟨phiMiddle chain.a chain.scale chain.rx 0, p, List.getElem?_cells (by omega), ?_, ?_⟩
  · rw [hk] at hpoint ⊢
    rw [← hpoint, Nat.add_sub_cancel]
    exact List.getElem?_cells (Nat.lt_succ_self k)
  · exact (mle_cells _ rfl).trans (eval_phiLevel_one chain.root (by omega) hr p)

/-- `verify_fft_delegation` accepts. -/
theorem Chain.verifyFftDelegation_eq_ok (hn : 2 ≤ chain.rx.length)
    (hroot : L.rootOfUnity (2 ^ chain.rx.length) = some w)
    (hw : IsPrimitiveRoot w (2 ^ chain.rx.length)) (hv : v.Accepts chain.prover)
    (hforward : chain.isFft = false) (ha : chain.a = w) (hscale : chain.scale = 1)
    {proof : ConvProof F P} (hpoint : ∀ i < chain.rx.length, proof.hadamardPoint[i]? = chain.rx[i]?) :
    verifyFftDelegation L v (chain.claim 0) proof (chain.delegation (chain.rx.length - 1))
        (ConvCtx.delegationFftAux (chain.rx.length - 1)) chain.r2 chain.transcript =
      .ok (chain.state (chain.rx.length - 1)).2 := by
  have hlast : chain.rx.length - 1 < chain.rx.length := by omega
  obtain ⟨r, hr⟩ : ∃ r, chain.rx[chain.rx.length - 1]? = some r := ⟨_, List.getElem?_eq_getElem hlast⟩
  obtain ⟨p, hp, hclaim⟩ := chain.claim_last hn hr
  have hiter : (chain.delegation (chain.rx.length - 1)).proofs.length = chain.rx.length - 1 :=
    List.length_cells
  have hrun := chain.foldlM_delegationStep
    (fun i => unwrap proof.hadamardPoint[i]? "index out of bounds") hv (by
      intro j r hj hr
      rw [hpoint j (by omega), hr, unwrap_some])
  rw [hforward, ha] at hrun
  have hfirst : (fun i => !false && i == 0) = fun i : Nat => i == 0 := by
    funext i
    rfl
  rw [hfirst] at hrun
  have hpair : chain.state (chain.rx.length - 1) = ([p], (chain.state (chain.rx.length - 1)).2) := by
    rw [← hp]
  have hformula : chain.claim (chain.rx.length - 1) = (1 - 2 * r) * p + 1 - p := by
    rw [hclaim, hscale]
    ring
  have hexponents : powTwoOmegas L (chain.rx.length - 1 + 1) false =
      .ok (cells (chain.rx.length - 1) (w ^ 2 ^ ·)) := by
    rw [Nat.sub_add_cancel (by omega)]
    exact powTwoOmegas_eq_ok hn hroot hw false
  rw [verifyFftDelegation, hiter]
  dsimp only
  rw [hexponents, Outcome.ok_bind, hrun, Outcome.ok_bind, hpair]
  dsimp only
  rw [hpoint _ hlast, hr, unwrap_some, Outcome.ok_bind, List.getElem?_cons_zero, unwrap_some,
    Outcome.ok_bind, hformula, beq_self_eq_true, ensure_true, Outcome.ok_bind]

/-- The part of `verify_convolution` that is about the inverse transform accepts. -/
theorem Chain.verifyInverse_eq_ok (hn : 2 ≤ chain.rx.length)
    (hroot : L.rootOfUnity (2 ^ chain.rx.length) = some w)
    (hw : IsPrimitiveRoot w (2 ^ chain.rx.length)) (hv : v.Accepts chain.prover)
    (hinverse : chain.isFft = true) (ha : chain.a = w⁻¹)
    (hscale : chain.scale = ((2 : F) ^ chain.rx.length)⁻¹)
    (hzero : chain.rx[chain.rx.length - 1]? = some 0) {lastClaim : Claim F} {proof : ConvProof F P}
    {t₀ : T} {subclaim : SumcheckSubclaim F}
    (hfirst : v (lastClaim.eval - proof.biasClaim) proof.ifftProof
      (fromMleListDimensions [[chain.rx.length - 1 + 1, chain.rx.length - 1 + 1]]) t₀ =
        .ok (subclaim, chain.transcript))
    (hclaim : proof.ifftClaims[1]? = some (chain.claim 0)) (hr2 : proof.ifftPoint = chain.r2)
    (hdelegation : (⟨proof.ifftDelegationProof, proof.ifftDelegationClaims, proof.ifftDelegationPoints⟩ :
      Delegation F P) = chain.delegation (chain.rx.length - 1))
    (hpoint : ∀ i, i + 1 < chain.rx.length →
      ∃ c, lastClaim.point[i]? = some c ∧ chain.rx[i]? = some (1 - c)) :
    ConvCtx.verifyInverse L v lastClaim proof (chain.rx.length - 1) t₀ =
      .ok (chain.state (chain.rx.length - 1)).2 := by
  obtain ⟨p, hp, hlast⟩ := chain.claim_last hn hzero
  have hproofs : proof.ifftDelegationProof = (chain.delegation (chain.rx.length - 1)).proofs := by
    rw [← hdelegation]
  have hiter : (chain.delegation (chain.rx.length - 1)).proofs.length = chain.rx.length - 1 :=
    List.length_cells
  have hrun := chain.foldlM_delegationStep
    (fun i => do
      let coordinate ← unwrap lastClaim.point[i]? "index out of bounds"
      .ok (1 - coordinate)) hv (by
      intro j r hj hr
      obtain ⟨c, hc, hrx⟩ := hpoint j hj
      rw [hc, unwrap_some, Outcome.ok_bind, Option.some.inj (hr.symm.trans hrx)])
  rw [hinverse, ha] at hrun
  have hnever : (fun i => !true && i == 0) = fun _ : Nat => false := by
    funext i
    rfl
  rw [hnever] at hrun
  have hpair : chain.state (chain.rx.length - 1) = ([p], (chain.state (chain.rx.length - 1)).2) := by
    rw [← hp]
  have htwo : (2 : F) ^ chain.rx.length ≠ 0 := by
    have hne : NeZero (2 ^ chain.rx.length) := ⟨(Nat.two_pow_pos _).ne'⟩
    have hcast := hw.neZero'.ne
    rwa [Nat.cast_pow, Nat.cast_ofNat] at hcast
  have hformula : chain.claim (chain.rx.length - 1) =
      ((2 : F) ^ chain.rx.length)⁻¹ * 1 * p + ((2 : F) ^ chain.rx.length)⁻¹ * (1 - p) := by
    rw [hlast, hscale]
    ring
  have hcancel : chain.rx.length - 1 + 1 = chain.rx.length := Nat.sub_add_cancel (by omega)
  have hexponents : powTwoOmegas L chain.rx.length true =
      .ok (cells (chain.rx.length - 1) (w⁻¹ ^ 2 ^ ·)) := powTwoOmegas_eq_ok hn hroot hw true
  rw [ConvCtx.verifyInverse]
  dsimp only
  rw [hfirst, Outcome.ok_bind]
  dsimp only
  rw [hclaim, unwrap_some, Outcome.ok_bind, hdelegation, hproofs, hiter, hcancel, hexponents,
    Outcome.ok_bind, hr2, hrun, Outcome.ok_bind, hpair]
  dsimp only
  rw [inverseOrPanic, if_neg htwo, Outcome.ok_bind, List.getElem?_cons_zero, unwrap_some,
    Outcome.ok_bind, hformula, beq_self_eq_true, ensure_true, Outcome.ok_bind]

/-- The delegation of a transform, for both directions: the row of the matrix, the values on all levels,
    the formula for the last level, and the checks of the verifier. -/
theorem delegation_holds {prover : SumcheckProver F P T}
    (hevals : ∀ z, L.evals z = cells (2 ^ z.length) (eqWeight z)) (hprover : prover.Lawful)
    (hv : v.Accepts prover) {rx r2 : List F} (hn : 2 ≤ rx.length)
    (hroot : L.rootOfUnity (2 ^ rx.length) = some w) (hw : IsPrimitiveRoot w (2 ^ rx.length))
    (hr2 : r2.length = rx.length) (t : T) :
    (∀ scale, rx[rx.length - 1]? = some 0 → ∃ phiG midPhiG delegation t',
      Delegated L prover rx r2 scale true t phiG midPhiG delegation t' ∧
      phiG = cells (2 ^ rx.length) (fun b =>
        scale * ∑ x ∈ Finset.range (2 ^ rx.length), eqWeight rx x * w⁻¹ ^ (x * b)) ∧
      LastLevel midPhiG delegation (rx.length - 1) (fun p => scale * 1 * p + scale * (1 - p)) ∧
      (scale = ((2 : F) ^ rx.length)⁻¹ → ∀ (lastClaim : Claim F) (proof : ConvProof F P) t₀ subclaim,
        v (lastClaim.eval - proof.biasClaim) proof.ifftProof
          (fromMleListDimensions [[rx.length - 1 + 1, rx.length - 1 + 1]]) t₀ = .ok (subclaim, t) →
        proof.ifftClaims[1]? = some (mle phiG r2) → proof.ifftPoint = r2 →
        (⟨proof.ifftDelegationProof, proof.ifftDelegationClaims, proof.ifftDelegationPoints⟩ :
          Delegation F P) = delegation →
        (∀ i, i + 1 < rx.length → ∃ c, lastClaim.point[i]? = some c ∧ rx[i]? = some (1 - c)) →
        ConvCtx.verifyInverse L v lastClaim proof (rx.length - 1) t₀ = .ok t')) ∧
    ∃ phiG midPhiG delegation t',
      Delegated L prover rx r2 1 false t phiG midPhiG delegation t' ∧
      phiG = cells (2 ^ rx.length) (fun b =>
        if b < 2 ^ (rx.length - 1) then
          ∑ x ∈ Finset.range (2 ^ rx.length), eqWeight rx x * w ^ (x * b)
        else 0) ∧
      (∀ r, rx[rx.length - 1]? = some r →
        LastLevel midPhiG delegation (rx.length - 1) (fun p => (1 - 2 * r) * p + 1 - p)) ∧
      ∀ proof : ConvProof F P, (∀ i < rx.length, proof.hadamardPoint[i]? = rx[i]?) →
        verifyFftDelegation L v (mle phiG r2) proof delegation
          (ConvCtx.delegationFftAux (rx.length - 1)) r2 t = .ok t' := by
  have hclaim : ∀ chain : Chain F P T, mle (cells (2 ^ chain.rx.length)
      (levelTable chain.a chain.scale chain.rx chain.isFft 0)) chain.r2 = chain.claim 0 :=
    fun chain => mle_cells _ chain.length_r2
  constructor
  · intro scale hzero
    let chain : Chain F P T :=
      ⟨prover, hprover, w⁻¹, scale, rx, true, hw.inv, r2, hr2, t⟩
    refine ⟨_, _, _, _, chain.delegated hn hevals hroot hw rfl, ?_, ?_, ?_⟩
    · apply List.cells_congr
      intro b _
      exact phiLevel_length w⁻¹ scale rx b
    · obtain ⟨level, p, hlevel, hp, hvalue⟩ := chain.lastLevel hn hzero
      refine ⟨level, p, hlevel, hp, hvalue.trans ?_⟩
      ring
    · intro hscale lastClaim proof t₀ subclaim hfirst hifft hr2 hdelegation hpoint
      rw [hclaim chain] at hifft
      exact chain.verifyInverse_eq_ok hn hroot hw hv rfl rfl hscale hzero hfirst hifft hr2 hdelegation
        hpoint
  · let chain : Chain F P T := ⟨prover, hprover, w, 1, rx, false, hw, r2, hr2, t⟩
    refine ⟨_, _, _, _, chain.delegated hn hevals hroot hw rfl, ?_, ?_, ?_⟩
    · apply List.cells_congr
      intro b _
      rw [← one_mul (∑ x ∈ Finset.range (2 ^ rx.length), _), ← phiLevel_length w 1 rx b]
      rfl
    · intro r hr
      obtain ⟨level, p, hlevel, hp, hvalue⟩ := chain.lastLevel hn hr
      refine ⟨level, p, hlevel, hp, hvalue.trans ?_⟩
      ring
    · intro proof hpoint
      rw [hclaim chain]
      exact chain.verifyFftDelegation_eq_ok hn hroot hw hv rfl rfl rfl hpoint

end Run

end Directions

/-! ## A small instance -/

section Small

variable {F : Type} [Field F] [DecidableEq F]

/-- A prover that sends the polynomials themselves, with the same challenges every time. -/
def sendingProver (challenge : F) : SumcheckProver F (List (List F)) Unit := fun tables t =>
  let point := List.replicate (Nat.log2 (tables.headD []).length) challenge
  (tables, point, tables.map (mle · point), t)

/-- The verifier adds up the products of what was sent. -/
def addingVerifier (challenge : F) : SumcheckVerifier F (List (List F)) Unit := fun claimed tables aux t =>
  let point := List.replicate aux.maxNumVariables challenge
  if claimed = hypercubeSum aux.maxNumVariables tables then
    .ok (⟨point, (tables.map (mle · point)).prod⟩, t)
  else
    .error (.panic "wrong subclaim")

omit [DecidableEq F] in
theorem sendingProver_lawful (challenge : F) : (sendingProver challenge).Lawful where
  challenges := by
    intro tables n t hne hlength
    obtain ⟨table, rest, rfl⟩ := List.exists_cons_of_ne_nil hne
    have hlog : Nat.log2 table.length = n := by
      rw [hlength table List.mem_cons_self, Nat.log2_two_pow]
    exact (List.length_replicate).trans hlog
  finalEvaluations := fun _ _ _ _ _ => rfl

theorem addingVerifier_accepts (challenge : F) :
    (addingVerifier challenge).Accepts (sendingProver challenge) := by
  intro tables n t hne hlength
  have hvars : (fromMleListDimensions [tables.map fun _ => n]).maxNumVariables = n := by
    obtain ⟨table, rest, rfl⟩ := List.exists_cons_of_ne_nil hne
    have hmax : ∀ rest : List (List F), (rest.map fun _ => n).foldl max n = n := by
      intro rest
      induction rest with
      | nil => rfl
      | cons table rest ih => rw [List.map_cons, List.foldl_cons, Nat.max_self, ih]
    show max 0 ((rest.map fun _ => n).foldl max (max 0 n)) = n
    rw [Nat.zero_max, Nat.zero_max, hmax]
  refine ⟨⟨List.replicate n challenge, (tables.map (mle · (List.replicate n challenge))).prod⟩, ?_⟩
  rw [addingVerifier, hvars]
  exact if_pos rfl

theorem delegation_four_entries :
    (∃ phiG midPhiG delegation t', Delegated fourthRoots (sendingProver 3) [2, 0] [7, 6] 10 true
      () phiG midPhiG delegation t') ∧
    ∃ phiG midPhiG delegation t',
      Delegated fourthRoots (sendingProver 3) [2, 0] [7, 6] 1 false () phiG midPhiG delegation
        t' ∧
      ∀ proof : ConvProof (ZMod 13) (List (List (ZMod 13))), proof.hadamardPoint = [2, 0] →
        verifyFftDelegation fourthRoots (addingVerifier 3) (mle phiG [7, 6]) proof delegation
          (ConvCtx.delegationFftAux 1) [7, 6] () = .ok t' := by
  have hholds := delegation_holds (L := fourthRoots) (w := 5) (fun _ => rfl) (sendingProver_lawful 3)
    (addingVerifier_accepts 3) (show 2 ≤ ([2, 0] : List (ZMod 13)).length by decide) rfl
    isPrimitiveRoot_five (show ([7, 6] : List (ZMod 13)).length = 2 from rfl) ()
  obtain ⟨⟨phiG, midPhiG, delegation, t', hrun, -⟩, phiF, midPhiF, delegationF, tF, hrunF, -, -, hverify⟩ :=
    And.imp_left (fun hscale => hscale 10 rfl) hholds
  refine ⟨⟨phiG, midPhiG, delegation, t', hrun⟩, phiF, midPhiF, delegationF, tF, hrunF, ?_⟩
  intro proof hpoint
  apply hverify proof
  intro i _
  rw [hpoint]

end Small

end DeepProve
