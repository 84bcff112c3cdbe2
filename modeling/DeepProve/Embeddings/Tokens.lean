import DeepProve.Embeddings.Argument
import DeepProve.Lookup.Chunks
import DeepProve.PolyCommit.Chunks

/-!
# The tokens of the input

The verifier evaluates the one-hot matrix on the bits of the tokens, of which it takes as many as the
padded vocabulary has. So it checks the claim of the prover exactly, and it does not see the bits above:
a token outside the vocabulary stands for the one that it is congruent to.
-/

namespace DeepProve

open Multilinear (eqWeight evalPair oneHot)
open Outcome

/-! ## The selectors -/

section Selectors

variable {F : Type} [Field F]

/-- The bits of a number select its weight. -/
theorem identityEval_bitList (r : List F) (u : Nat) :
    identityEval r (bitList u r.length) = eqWeight r u := by
  rw [identityEval_eq_eqPoly]
  induction r generalizing u with
  | nil => simp [Multilinear.eqPoly, eqWeight]
  | cons a r ih =>
    have ih := ih (u / 2)
    rw [Multilinear.eqPoly] at ih ⊢
    rw [List.length_cons, bitList_succ, List.zip_cons_cons, List.map_cons, List.prod_cons, ih, eqWeight]
    congr 1
    rcases Nat.mod_two_eq_zero_or_one u with hbit | hbit
    · simp [hbit]
    · simp [hbit]

/-- The weight depends on the lowest bits only. -/
theorem eqWeight_mod (r : List F) (u : Nat) : eqWeight r (u % 2 ^ r.length) = eqWeight r u := by
  induction r generalizing u with
  | nil => rfl
  | cons a r ih =>
    have hbit : u % 2 ^ (r.length + 1) % 2 = u % 2 :=
      Nat.mod_mod_of_dvd u (Dvd.intro_left _ (pow_succ 2 r.length).symm)
    have hrest : u % 2 ^ (r.length + 1) / 2 = u / 2 % 2 ^ r.length := by
      rw [pow_succ, Nat.mul_comm, Nat.mod_mul_right_div_self]
    rw [eqWeight, eqWeight, List.length_cons, hbit, hrest, ih]

end Selectors

section Claims

variable {p : Nat} [Fact p.Prime] {L : MleLibrary (ZMod p)}

/-- The tokens of the input, as the verifier has them. -/
def publicInput (elements : List (ZMod p)) : Tensor (ZMod p) :=
  ⟨elements, [elements.length], [elements.length]⟩

omit [Fact p.Prime] in
/-- A token that is added has been read. -/
theorem tokenOf_of_foldlM {r1 : List (ZMod p)} {entries : List (ZMod p × ZMod p)} {start sum : ZMod p}
    (h : entries.foldlM (EmbeddingsCtx.addSelector r1) start = .ok sum) :
    ∀ entry ∈ entries, ∃ u, tokenOf entry.1 = .ok u := by
  induction entries generalizing start with
  | nil =>
    intro _ hmem
    cases hmem
  | cons entry entries ih =>
    rw [List.foldlM_cons, bind_eq_ok] at h
    obtain ⟨next, hstep, hrest⟩ := h
    simp only [EmbeddingsCtx.addSelector, bind_eq_ok] at hstep
    obtain ⟨u, hu, _⟩ := hstep
    exact List.forall_mem_cons.mpr ⟨⟨u, hu⟩, ih hrest⟩

theorem addSelector_eq_ok {r1 : List (ZMod p)} (hr1 : r1.length ≤ 64) {element beta : ZMod p} {u : Nat}
    (hu : tokenOf element = .ok u) (sum : ZMod p) :
    EmbeddingsCtx.addSelector r1 sum (element, beta) = .ok (sum + beta * eqWeight r1 u) := by
  simp only [EmbeddingsCtx.addSelector, hu, bitsOf_eq_ok hr1, identityEval_bitList, ok_bind]

variable {elements : List (ZMod p)}

/-- What the verifier adds up is the value of the one-hot matrix of the lowest bits. -/
theorem sum_selectors {r1 r2 : List (ZMod p)} (hL : L.Lawful) (hr1 : r1.length ≤ 64) {us : List Nat}
    (hus : elements.mapM tokenOf = .ok us) (hr2 : r2.length = ceilLog2 elements.length) :
    (elements.zip (L.evals r2)).foldlM (EmbeddingsCtx.addSelector r1) 0 =
      .ok (evalPair (oneHot (us.map (· % 2 ^ r1.length))) r1 r2) := by
  have hread := forall₂_of_mapM_eq_ok hus
  have hlength := hread.length_eq
  have hrows : us.length ≤ 2 ^ r2.length := by
    rw [← hlength, hr2]
    exact Nat.le_pow_clog (by decide) _
  have hentries : elements.zip (L.evals r2) =
      (List.range us.length).map fun j => (elements.getD j 0, eqWeight r2 j) := by
    rw [hL.evals]
    apply List.ext_getElem
    · simp [hlength, hrows]
    · intro j hj _
      have hj : j < elements.length := by
        rw [List.length_zip] at hj
        omega
      simp [hj]
  have hstep : ∀ j < us.length, ∀ sum,
      EmbeddingsCtx.addSelector r1 sum (elements.getD j 0, eqWeight r2 j) =
        .ok (sum + eqWeight r2 j * eqWeight r1 (us.getD j 0)) := by
    intro j hj sum
    have hj' : j < elements.length := hlength ▸ hj
    have hu := hread.get hj' hj
    rw [List.get_eq_getElem, List.get_eq_getElem] at hu
    rw [addSelector_eq_ok hr1 (u := us.getD j 0)]
    simpa [hj, hj'] using hu
  rw [hentries, foldlM_map_range hstep, zero_add, Multilinear.evalPair_oneHot]
  · rw [List.length_map]
    congr 1
    apply Finset.sum_congr rfl
    intro j hj
    have hj := Finset.mem_range.mp hj
    simp [hj, eqWeight_mod]
  · rwa [List.length_map]
  · intro t ht
    obtain ⟨u, _, rfl⟩ := List.mem_map.mp ht
    exact Nat.mod_lt _ (Nat.two_pow_pos _)

/-- The claims that are accepted: those with the value of the one-hot matrix of the lowest bits. -/
theorem verifyInputClaim_eq_ok {ctx : EmbeddingsCtx} (hL : L.Lawful)
    (hvocab : ctx.vocabSize ≤ 2 ^ 63) {us : List Nat} (hus : elements.mapM tokenOf = .ok us)
    {claim : Claim (ZMod p)} :
    ctx.verifyInputClaim L [publicInput elements] [claim] = .ok () ↔
      claim.point.length = ceilLog2 ctx.vocabSize + ceilLog2 elements.length ∧
      claim.eval = evalPair (oneHot (us.map (· % nextPowerOfTwo ctx.vocabSize)))
        (claim.point.take (ceilLog2 ctx.vocabSize)) (claim.point.drop (ceilLog2 ctx.vocabSize)) := by
  have hbits : ceilLog2 ctx.vocabSize ≤ 64 := by
    have hclog : ceilLog2 ctx.vocabSize ≤ 63 := Nat.clog_le_of_le_pow hvocab
    omega
  have hnumel : (publicInput elements).unpaddedShape.numel = elements.length := Nat.mul_one _
  simp only [EmbeddingsCtx.verifyInputClaim, List.length_singleton, List.getElem?_cons_zero, unwrap_some,
    beq_self_eq_true, ensure_true, ok_bind, log2_nextPowerOfTwo, hnumel]
  simp only [publicInput, List.getElem?_cons_zero, unwrap_some, ok_bind, List.take_length]
  by_cases hlength : claim.point.length = ceilLog2 ctx.vocabSize + ceilLog2 elements.length
  · have hle : ceilLog2 ctx.vocabSize ≤ claim.point.length := hlength ▸ Nat.le_add_right _ _
    have hr1 : (claim.point.take (ceilLog2 ctx.vocabSize)).length = ceilLog2 ctx.vocabSize :=
      List.length_take_of_le hle
    have hr2 : (claim.point.drop (ceilLog2 ctx.vocabSize)).length = ceilLog2 elements.length := by
      rw [List.length_drop]
      omega
    have hsum := sum_selectors hL (hr1.trans_le hbits) hus hr2
    rw [hr1] at hsum
    rw [hlength, beq_self_eq_true, ensure_true, ok_bind, splitAtMid, if_pos (hlength ▸ hle), ok_bind]
    dsimp only
    rw [hsum, ok_bind, ensure_eq_ok, beq_iff_eq]
    exact ⟨fun h => ⟨rfl, h.symm⟩, fun h => h.2.symm⟩
  · have hbeq : (ceilLog2 ctx.vocabSize + ceilLog2 elements.length == claim.point.length) = false :=
      beq_eq_false_iff_ne.mpr fun h => hlength h.symm
    rw [hbeq]
    exact ⟨fun h => (nomatch h), fun h => absurd h.1 hlength⟩

/-- An input that is accepted has been read. -/
theorem mapM_tokenOf_of_accepted {ctx : EmbeddingsCtx} (hL : L.Lawful) {claim : Claim (ZMod p)}
    (h : ctx.verifyInputClaim L [publicInput elements] [claim] = .ok ()) :
    ∃ us, elements.mapM tokenOf = .ok us := by
  simp only [EmbeddingsCtx.verifyInputClaim, bind_eq_ok, ensure_eq_ok] at h
  obtain ⟨_, _, _, _, input, hinput, oneHotClaim, hclaim, seqLen, hseqLen, _, hlength, ⟨r1, r2⟩, hsplit, sum,
    hsum, _⟩ := h
  obtain rfl := Except.ok.inj hinput
  obtain rfl := Except.ok.inj hclaim
  obtain rfl := Except.ok.inj hseqLen
  obtain ⟨hle, rfl, rfl⟩ := splitAtMid_eq_ok.mp hsplit
  have hnumel : (publicInput elements).unpaddedShape.numel = elements.length := Nat.mul_one _
  rw [beq_iff_eq, log2_nextPowerOfTwo, log2_nextPowerOfTwo] at hlength
  rw [log2_nextPowerOfTwo] at hsum
  have hbetas : elements.length ≤
      (L.evals (claim.point.drop (ceilLog2 ctx.vocabSize))).length := by
    rw [hL.evals, List.length_map, List.length_range, List.length_drop, ← hlength,
      Nat.add_sub_cancel_left]
    exact Nat.le_pow_clog (by decide) _
  have hread : ∀ element ∈ elements, ∃ u, tokenOf element = .ok u := by
    intro element helement
    obtain ⟨j, hj, rfl⟩ := List.getElem_of_mem helement
    have hj' := hj.trans_le hbetas
    refine tokenOf_of_foldlM hsum
      (elements[j], (L.evals (claim.point.drop (ceilLog2 ctx.vocabSize)))[j]) ?_
    rw [hnumel, List.mem_iff_getElem]
    exact ⟨j, by simp [publicInput, hj, hj'], by simp [publicInput]⟩
  choose! u hu using hread
  exact ⟨_, mapM_eq_ok_map hu⟩

theorem map_mod_eq_self {tokens : List Nat} {n m : Nat} (htokens : ∀ t ∈ tokens, t < n) (hle : n ≤ m) :
    tokens.map (· % m) = tokens := by
  conv => rhs; rw [← List.map_id tokens]
  apply List.map_congr_left
  intro t ht
  exact Nat.mod_eq_of_lt ((htokens t ht).trans_le hle)

/-- Every claim that is accepted for the tokens is accepted for the other input. -/
def AcceptedInPlace (L : MleLibrary (ZMod p)) (ctx : EmbeddingsCtx) (elements others : List (ZMod p)) :
    Prop :=
  ∀ claim, ctx.verifyInputClaim L [publicInput elements] [claim] = .ok () →
    ctx.verifyInputClaim L [publicInput others] [claim] = .ok ()

/-- The inputs that are accepted in place of another one are those that are congruent to it. -/
theorem acceptedInPlace_iff {ctx : EmbeddingsCtx} (hL : L.Lawful) (hvocab : ctx.vocabSize ≤ 2 ^ 63)
    {others : List (ZMod p)} {tokens : List Nat} (htokens : ∀ t ∈ tokens, t < ctx.vocabSize)
    (helements : elements.mapM tokenOf = .ok tokens) :
    AcceptedInPlace L ctx elements others ↔ ∃ us, others.mapM tokenOf = .ok us ∧
      us.map (· % nextPowerOfTwo ctx.vocabSize) = tokens := by
  have hpadded : ctx.vocabSize ≤ nextPowerOfTwo ctx.vocabSize := Nat.le_pow_clog (by decide) _
  have hreduced : tokens.map (· % nextPowerOfTwo ctx.vocabSize) = tokens :=
    map_mod_eq_self htokens hpadded
  have hlength := (forall₂_of_mapM_eq_ok helements).length_eq
  constructor
  · intro haccepted
    -- the claims about the polynomial of the tokens are accepted for the others
    have hclaim : ∀ x y : List (ZMod p), x.length = ceilLog2 ctx.vocabSize →
        y.length = ceilLog2 elements.length →
        ctx.verifyInputClaim L [publicInput others] [⟨x ++ y, evalPair (oneHot tokens) x y⟩] = .ok () := by
      intro x y hx hy
      apply haccepted
      rw [verifyInputClaim_eq_ok hL hvocab helements, hreduced]
      dsimp only
      rw [← hx, List.take_left, List.drop_left, List.length_append, hx, hy]
      exact ⟨rfl, rfl⟩
    obtain ⟨us, hus⟩ := mapM_tokenOf_of_accepted hL (hclaim (List.replicate _ 0) (List.replicate _ 0)
      List.length_replicate List.length_replicate)
    refine ⟨us, hus, ?_⟩
    have hvalue : ∀ x y : List (ZMod p), x.length = ceilLog2 ctx.vocabSize →
        y.length = ceilLog2 elements.length →
        ceilLog2 others.length = ceilLog2 elements.length ∧
        evalPair (oneHot (us.map (· % nextPowerOfTwo ctx.vocabSize))) x y = evalPair (oneHot tokens) x y := by
      intro x y hx hy
      have haccept := (verifyInputClaim_eq_ok hL hvocab hus).mp (hclaim x y hx hy)
      dsimp only at haccept
      rw [← hx, List.take_left, List.drop_left, List.length_append, hx, hy] at haccept
      exact ⟨(Nat.add_left_cancel haccept.1).symm, haccept.2.symm⟩
    have hothers := (forall₂_of_mapM_eq_ok hus).length_eq
    have hrows : ceilLog2 others.length = ceilLog2 elements.length :=
      (hvalue (List.replicate _ 0) (List.replicate _ 0) List.length_replicate List.length_replicate).1
    refine Multilinear.eq_of_evalPair_oneHot (F := ZMod p) (m := ceilLog2 ctx.vocabSize)
      (n := ceilLog2 elements.length) ?_ ?_ ?_ ?_ fun x y hx hy => (hvalue x y hx hy).2
    · rw [List.length_map, ← hothers, ← hrows]
      exact Nat.le_pow_clog (by decide) _
    · rw [← hlength]
      exact Nat.le_pow_clog (by decide) _
    · intro t ht
      obtain ⟨u, _, rfl⟩ := List.mem_map.mp ht
      exact Nat.mod_lt _ (Nat.two_pow_pos _)
    · exact fun t ht => (htokens t ht).trans_le hpadded
  · rintro ⟨us, hus, hcongruent⟩ claim hclaim
    rw [verifyInputClaim_eq_ok hL hvocab helements, hreduced] at hclaim
    rw [verifyInputClaim_eq_ok hL hvocab hus, hcongruent]
    have hothers : others.length = elements.length := by
      rw [(forall₂_of_mapM_eq_ok hus).length_eq, hlength, ← hcongruent, List.length_map]
    rw [hothers]
    exact hclaim

/-! ## The whole argument -/

/-- The context of the verifier, as `step_info` makes it. -/
def Embeddings.ctx (self : Embeddings) : EmbeddingsCtx := ⟨self.vocabSize, self.embSize, self.storageKey⟩

/-- The polynomial of the padded one-hot matrix of some tokens. -/
def Embeddings.oneHotMle (self : Embeddings) (tokens : List Nat) (point : List (ZMod p)) : ZMod p :=
  mle (toField (ZMod p) (oneHotMatrix self.vocabSize tokens).padNextPowerOfTwo.data) point

variable {P T : Type}

/-- What is to hold of the tokens, which the verifier has as `elements`, and of another input. -/
structure EmbeddingsArgument (L : MleLibrary (ZMod p)) (proveSumcheck : SumcheckProver (ZMod p) P T)
    (emb : Embeddings) (tokens : List Nat) (elements others : List (ZMod p)) : Prop where
  /-- The table of the prover is the one-hot matrix with its rows fixed, and the sum is the value of
      the output. -/
  factors : ∀ lastClaim : Claim (ZMod p),
    lastClaim.point.length = ceilLog2 emb.embSize + ceilLog2 tokens.length →
    ∃ reduced matrix output,
      emb.sumcheckFactors L lastClaim (tokenTensor tokens).padNextPowerOfTwo = .ok (reduced, matrix) ∧
      emb.evaluate [tokenTensor tokens] = .ok output ∧
      (∀ x, x.length = ceilLog2 emb.vocabSize →
        mle reduced x = emb.oneHotMle tokens (x ++ lastClaim.point.drop (ceilLog2 emb.embSize))) ∧
      ∑ k ∈ Finset.range (nextPowerOfTwo emb.vocabSize), reduced.getD k 0 * matrix.getD k 0 =
        mle (toField (ZMod p) output.padNextPowerOfTwo.data) lastClaim.point
  /-- The claims of the prover are true. -/
  claims : ∀ (lastClaim : Claim (ZMod p)) (t : T),
    lastClaim.point.length = ceilLog2 emb.embSize + ceilLog2 tokens.length →
    ∃ proof embeddingClaim oneHotClaim t',
      emb.prove L proveSumcheck [lastClaim] [tokenTensor tokens] t =
        .ok (proof, [(emb.storageKey, embeddingClaim)], [oneHotClaim], t') ∧
      embeddingClaim.eval =
        mle (toField (ZMod p) emb.mat.padNextPowerOfTwo.data) embeddingClaim.point ∧
      oneHotClaim.eval = emb.oneHotMle tokens oneHotClaim.point
  /-- The claims that the verifier accepts are the true ones. -/
  inputClaim : ∀ claim : Claim (ZMod p),
    emb.ctx.verifyInputClaim L [publicInput elements] [claim] = .ok () ↔
      claim.point.length = ceilLog2 emb.vocabSize + ceilLog2 tokens.length ∧
      claim.eval = emb.oneHotMle tokens claim.point
  /-- With a token outside the vocabulary the other input is not accepted in place of the tokens. -/
  outside : (∃ y ∈ others, ¬ ∃ u < emb.vocabSize, tokenOf y = .ok u) →
    ¬ AcceptedInPlace L emb.ctx elements others

omit [Fact p.Prime] in
/-- A point of a claim about the output. -/
theorem exists_split {lastClaim : Claim (ZMod p)} {a b : Nat} (h : lastClaim.point.length = a + b) :
    ∃ columnPoint rowPoint, lastClaim = ⟨columnPoint ++ rowPoint, lastClaim.eval⟩ ∧
      columnPoint.length = a ∧ rowPoint.length = b := by
  refine ⟨lastClaim.point.take a, lastClaim.point.drop a, ?_, ?_, ?_⟩
  · rw [List.take_append_drop]
  · rw [List.length_take]
    omega
  · rw [List.length_drop]
    omega

/-- For which inputs the argument is complete and binding: the other input is not congruent to the
    tokens, unless it is within the vocabulary. -/
theorem embeddings_argument_iff {proveSumcheck : SumcheckProver (ZMod p) P T} {emb : Embeddings}
    (hL : L.Lawful) (hprove : proveSumcheck.Lawful) (h : emb.WellFormed) {tokens : List Nat}
    (htokens : ∀ t ∈ tokens, t < emb.vocabSize) {elements others : List (ZMod p)}
    (helements : elements.mapM tokenOf = .ok tokens) :
    EmbeddingsArgument L proveSumcheck emb tokens elements others ↔
      ∀ us, others.mapM tokenOf = .ok us → us.map (· % nextPowerOfTwo emb.vocabSize) = tokens →
        ∀ u ∈ us, u < emb.vocabSize := by
  have haccepted : AcceptedInPlace L emb.ctx elements others ↔ ∃ us, others.mapM tokenOf = .ok us ∧
      us.map (· % nextPowerOfTwo emb.vocabSize) = tokens :=
    acceptedInPlace_iff hL h.vocabSize htokens helements
  constructor
  · intro hargument us hus hcongruent u hu
    by_contra hnot
    refine hargument.outside ?_ (haccepted.mpr ⟨us, hus, hcongruent⟩)
    have hread := forall₂_of_mapM_eq_ok hus
    obtain ⟨j, hj, rfl⟩ := List.getElem_of_mem hu
    have hj' : j < others.length := hread.length_eq ▸ hj
    have htoken := hread.get hj' hj
    refine ⟨others[j], List.getElem_mem hj', fun ⟨u, hlt, hu⟩ => hnot ?_⟩
    rw [List.get_eq_getElem, List.get_eq_getElem, hu] at htoken
    exact Except.ok.inj htoken ▸ hlt
  · intro hcondition
    refine ⟨fun lastClaim hlength => ?_, fun lastClaim t hlength => ?_, fun claim => ?_, ?_⟩
    · obtain ⟨columnPoint, rowPoint, hpoint, hcolumn, hrow⟩ := exists_split hlength
      obtain ⟨reduced, hfactors, _, hsum⟩ :=
        h.sumcheckFactors_eq_ok hL htokens hcolumn hrow lastClaim.eval
      have houtput := h.evaluate_eq_ok htokens
      rw [hpoint]
      refine ⟨reduced, _, _, hfactors, houtput, fun x hx => ?_, ?_⟩
      · rw [← hcolumn, List.drop_left]
        exact mle_of_weighted_sums htokens hrow hsum hx
      · rw [hsum]
        exact h.sum_fixedMatrix htokens houtput hcolumn hrow
    · obtain ⟨columnPoint, rowPoint, hpoint, hcolumn, hrow⟩ := exists_split hlength
      rw [hpoint]
      exact h.prove_eq_ok hL hprove htokens hcolumn hrow t
    · have hpadded : emb.vocabSize ≤ nextPowerOfTwo emb.vocabSize := Nat.le_pow_clog (by decide) _
      have hreduced : tokens.map (· % nextPowerOfTwo emb.vocabSize) = tokens :=
        map_mod_eq_self htokens hpadded
      rw [verifyInputClaim_eq_ok hL h.vocabSize helements, (forall₂_of_mapM_eq_ok helements).length_eq]
      refine and_congr_right fun hlength => ?_
      obtain ⟨x, y, hpoint, hx, hy⟩ := exists_split hlength
      have hx : x.length = ceilLog2 emb.vocabSize := hx
      rw [hpoint]
      dsimp only [Embeddings.ctx, Embeddings.oneHotMle]
      rw [hreduced, mle_oneHotMatrix htokens hx hy, ← hx, List.take_left, List.drop_left]
    · rintro ⟨y, hy, hnot⟩ haccept
      obtain ⟨us, hus, hcongruent⟩ := haccepted.mp haccept
      have hread := forall₂_of_mapM_eq_ok hus
      obtain ⟨j, hj, rfl⟩ := List.getElem_of_mem hy
      have hj' : j < us.length := hread.length_eq ▸ hj
      exact hnot ⟨us[j], hcondition us hus hcongruent _ (List.getElem_mem hj'), hread.get hj hj'⟩

end Claims

/-! ## A vocabulary of three tokens -/

section ThreeTokens

/-- Polynomials by their evaluations. -/
def plainMle (F : Type) [Field F] : MleLibrary F where
  evals point := (List.range (2 ^ point.length)).map (eqWeight point)
  fixLowVariables evaluations point :=
    (List.range (2 ^ (Nat.log2 evaluations.length - point.length))).map fun j =>
      mle ((evaluations.drop (j * 2 ^ point.length)).take (2 ^ point.length)) point

theorem plainMle_lawful (F : Type) [Field F] : (plainMle F).Lawful where
  evals := fun _ => rfl
  fixLowVariables := by
    intro evaluations point n h
    dsimp only [plainMle]
    rw [h, Nat.log2_two_pow, Nat.add_sub_cancel_left]

/-- A sumcheck whose challenges are zero. -/
def originSumcheck (F : Type) [Field F] : SumcheckProver F Unit Unit := fun tables t =>
  let challenges := List.replicate (Nat.log2 (tables.headD []).length) 0
  ((), challenges, tables.map (mle · challenges), t)

theorem originSumcheck_lawful (F : Type) [Field F] : (originSumcheck F).Lawful where
  challenges := by
    intro tables n t hne htables
    obtain ⟨table, tables, rfl⟩ := List.exists_cons_of_ne_nil hne
    have hlength := htables table List.mem_cons_self
    simp [originSumcheck, hlength]
  finalEvaluations := fun _ _ _ _ _ => rfl

instance fact_prime_nineteen : Fact (Nat.Prime 19) := ⟨by decide⟩

def threeTokens : Embeddings := ⟨⟨[7, 8, 9], [3, 1], [3, 1]⟩, 1, 3, "embeddings"⟩

theorem threeTokens_wellFormed : threeTokens.WellFormed where
  shape := rfl
  length := rfl
  vocabSize := by decide

/-- A token outside the vocabulary that is not congruent to the first token. -/
theorem embeddings_argument_threeTokens : EmbeddingsArgument (plainMle (ZMod 19))
    (originSumcheck (ZMod 19)) threeTokens [1, 2] [1, 2] [3, 2] :=
  (embeddings_argument_iff (plainMle_lawful _) (originSumcheck_lawful _) threeTokens_wellFormed (by decide)
    rfl).mpr fun _ hus hcongruent => by
      obtain rfl := Except.ok.inj hus
      exact absurd hcongruent (by decide)

/-- Five stands for one. -/
theorem not_embeddings_argument_threeTokens : ¬ EmbeddingsArgument (plainMle (ZMod 19))
    (originSumcheck (ZMod 19)) threeTokens [1, 2] [1, 2] [5, 2] := by
  intro h
  refine h.outside ⟨5, List.mem_cons_self, ?_⟩ ?_
  · rintro ⟨u, hlt, hu⟩
    obtain rfl := Except.ok.inj hu
    exact absurd hlt (by decide)
  · exact (acceptedInPlace_iff (plainMle_lawful _) (by decide) (by decide) rfl).mpr ⟨[5, 2], rfl, by decide⟩

end ThreeTokens

end DeepProve
