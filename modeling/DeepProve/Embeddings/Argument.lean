import DeepProve.Embeddings.Embeddings
import DeepProve.ForStd.OneHot

/-!
# The argument of the embeddings

The prover never writes the one-hot matrix down. The table that it fills is that of the matrix with
its rows fixed, so the sumcheck is about the output, and its claims are true.
-/

namespace DeepProve

open Multilinear (eqWeight evalPair oneHot)
open Outcome

/-! ## The assumptions about the library -/

structure MleLibrary.Lawful {F : Type} [Field F] (L : MleLibrary F) : Prop where
  evals : ∀ point, L.evals point = (List.range (2 ^ point.length)).map (eqWeight point)
  fixLowVariables : ∀ evaluations point n, evaluations.length = 2 ^ (point.length + n) →
    L.fixLowVariables evaluations point = (List.range (2 ^ n)).map fun j =>
      mle ((evaluations.drop (j * 2 ^ point.length)).take (2 ^ point.length)) point

/-- The matrix has the dimensions that are kept beside it. The padded size of the vocabulary does not
    overflow. -/
structure Embeddings.WellFormed (emb : Embeddings) : Prop where
  shape : emb.mat.shape = [emb.vocabSize, emb.embSize]
  length : emb.mat.data.length = emb.vocabSize * emb.embSize
  vocabSize : emb.vocabSize ≤ 2 ^ 63

/-! ## The tensors -/

/-- The tokens of the input. -/
def tokenTensor (tokens : List Nat) : Tensor Int :=
  ⟨tokens.map fun t : Nat => (t : Int), [tokens.length], [tokens.length]⟩

/-- One row for each token, with a one at the token. -/
def oneHotMatrix (vocabSize : Nat) (tokens : List Nat) : Tensor Int where
  data := tokens.flatMap fun t => (List.range vocabSize).map fun v => if v = t then 1 else 0
  shape := [tokens.length, vocabSize]
  unpaddedShape := [tokens.length, vocabSize]

/-- The row of a token. -/
def Embeddings.row (self : Embeddings) (t : Nat) : List Int :=
  (self.mat.data.drop (t * self.embSize)).take self.embSize

/-- Of the padded tokens the first are the tokens. -/
theorem take_padNextPowerOfTwo_tokenTensor (tokens : List Nat) :
    (tokenTensor tokens).padNextPowerOfTwo.data.take tokens.length =
      tokens.map fun t : Nat => (t : Int) := by
  have hnumel : (Shape.nextPowerOfTwo [tokens.length]).numel = nextPowerOfTwo tokens.length :=
    Nat.mul_one _
  have hle : tokens.length ≤ nextPowerOfTwo tokens.length := Nat.le_pow_clog (by decide) _
  apply List.ext_getElem?
  intro i
  rw [Tensor.padNextPowerOfTwo, tokenTensor, hnumel]
  by_cases hi : i < tokens.length
  · rw [List.getElem?_take, if_pos hi, List.getElem?_map, List.getElem?_range (hi.trans_le hle),
      Option.map_some, paddedEntry_vector, if_pos hi, List.getD_eq_getElem?_getD]
    simp [hi]
  · rw [List.getElem?_take, if_neg hi, List.getElem?_map, List.getElem?_eq_none (Nat.le_of_not_lt hi)]
    rfl

section Field

variable {F : Type} [Field F]
variable {emb : Embeddings} {columnPoint rowPoint : List F} {tokens : List Nat}
variable {vocabSize : Nat} {L : MleLibrary F}

/-- The polynomial of the padded one-hot matrix. -/
theorem mle_oneHotMatrix (htokens : ∀ t ∈ tokens, t < vocabSize) {x y : List F}
    (hx : x.length = ceilLog2 vocabSize) (hy : y.length = ceilLog2 tokens.length) :
    mle (toField F (oneHotMatrix vocabSize tokens).padNextPowerOfTwo.data) (x ++ y) =
      evalPair (oneHot tokens) x y := by
  have hrows : tokens.length ≤ 2 ^ y.length := hy ▸ Nat.le_pow_clog (by decide) _
  have hcols : vocabSize ≤ 2 ^ x.length := hx ▸ Nat.le_pow_clog (by decide) _
  rw [mle_padNextPowerOfTwo, oneHotMatrix, eval_paddedEntry_matrix hx hrows,
    Multilinear.evalPair_oneHot hrows fun t ht => (htokens t ht).trans_le hcols]
  · apply Finset.sum_congr rfl
    intro j hj
    have hj := Finset.mem_range.mp hj
    have hmem : tokens[j] < vocabSize := htokens _ (List.getElem_mem hj)
    rw [List.take_drop_flatMap (by simp) hj, List.getD_eq_getElem?_getD, List.getElem?_eq_getElem hj,
      Option.getD_some, Multilinear.eval, Finset.sum_eq_single tokens[j]]
    · rw [paddedEntry_vector, if_pos hmem, List.getD_eq_getElem?_getD, List.getElem?_map,
        List.getElem?_range hmem]
      simp
    · intro v _ hv
      rw [paddedEntry_vector]
      split
      · next hlt =>
        rw [List.getD_eq_getElem?_getD, List.getElem?_map, List.getElem?_range hlt]
        simp [hv]
      · simp
    · intro hnot
      exact absurd (Finset.mem_range.mpr (hmem.trans_le hcols)) hnot
  · rw [Shape.numel_nextPowerOfTwo, List.length_append, hx, hy, Nat.add_comm]
    rfl

/-! ## The factors of the sumcheck -/

/-- What the loop leaves, weighed by any table. -/
theorem foldlM_addToken {betas table : List F} {token : Nat → Int} {n : Nat} (hn : n ≤ betas.length)
    (htoken : ∀ j < n, toUsize (token j) < table.length) :
    ∃ reduced, ((List.range n).map fun j => (token j, j)).foldlM (Embeddings.addToken betas) table =
        .ok reduced ∧
      reduced.length = table.length ∧
      ∀ f : Nat → F, ∑ k ∈ Finset.range table.length, reduced.getD k 0 * f k =
        ∑ k ∈ Finset.range table.length, table.getD k 0 * f k +
          ∑ j ∈ Finset.range n, betas.getD j 0 * f (toUsize (token j)) := by
  induction n with
  | zero => exact ⟨table, rfl, rfl, by simp⟩
  | succ n ih =>
    obtain ⟨reduced, hfold, hlength, hsum⟩ := ih (Nat.le_of_succ_le hn)
      fun j hj => htoken j (Nat.lt_succ_of_lt hj)
    have hlast : toUsize (token n) < reduced.length := hlength ▸ htoken n (Nat.lt_succ_self n)
    have hstep : Embeddings.addToken betas reduced (token n, n) =
        .ok (reduced.set (toUsize (token n)) (reduced[toUsize (token n)] + betas[n])) := by
      rw [Embeddings.addToken, List.getElem?_eq_getElem hn, List.getElem?_eq_getElem hlast]
      rfl
    refine ⟨reduced.set (toUsize (token n)) (reduced[toUsize (token n)] + betas[n]), ?_,
      List.length_set.trans hlength, fun f => ?_⟩
    · rw [List.range_succ, List.map_append, List.foldlM_append, hfold, ok_bind, List.map_singleton,
        List.foldlM_cons, hstep]
      rfl
    · have hset := Multilinear.sum_set_add hlast betas[n] f
      rw [hlength] at hset
      rw [hset, hsum f, Finset.sum_range_succ, List.getD_eq_getElem?_getD (i := n),
        List.getElem?_eq_getElem hn, Option.getD_some, add_assoc]

theorem toUsize_natCast {t : Nat} (ht : t < 2 ^ 64) : toUsize (t : Int) = t := by
  unfold toUsize
  omega

/-- The table that the prover fills is that of the one-hot matrix with its rows fixed. -/
theorem reducedOneHot_eq_ok (hL : L.Lawful) (hvocab : vocabSize ≤ 2 ^ 63)
    (htokens : ∀ t ∈ tokens, t < vocabSize) (hrow : rowPoint.length = ceilLog2 tokens.length) :
    ∃ reduced, Embeddings.reducedOneHot L (nextPowerOfTwo vocabSize)
        (tokenTensor tokens).padNextPowerOfTwo rowPoint = .ok reduced ∧
      reduced.length = nextPowerOfTwo vocabSize ∧
      ∀ f : Nat → F, ∑ k ∈ Finset.range (nextPowerOfTwo vocabSize), reduced.getD k 0 * f k =
        ∑ j ∈ Finset.range tokens.length, eqWeight rowPoint j * f (tokens.getD j 0) := by
  have hrows : tokens.length ≤ 2 ^ rowPoint.length := hrow ▸ Nat.le_pow_clog (by decide) _
  have hpadded : vocabSize ≤ nextPowerOfTwo vocabSize := Nat.le_pow_clog (by decide) _
  have htoken : ∀ j < tokens.length, tokens.getD j 0 < vocabSize := by
    intro j hj
    rw [List.getD_eq_getElem?_getD, List.getElem?_eq_getElem hj, Option.getD_some]
    exact htokens _ (List.getElem_mem hj)
  have husize : ∀ j < tokens.length, toUsize ((tokens.getD j 0 : Nat) : Int) = tokens.getD j 0 :=
    fun j hj => toUsize_natCast (by have := htoken j hj; omega)
  have hentries : (((tokenTensor tokens).padNextPowerOfTwo.data.take
      (tokenTensor tokens).padNextPowerOfTwo.unpaddedShape.numel).zipIdx) =
      (List.range tokens.length).map fun j => (((tokens.getD j 0 : Nat) : Int), j) := by
    have hnumel : (tokenTensor tokens).padNextPowerOfTwo.unpaddedShape.numel = tokens.length :=
      Nat.mul_one _
    rw [hnumel, take_padNextPowerOfTwo_tokenTensor]
    apply List.ext_getElem
    · simp
    · intro i hi _
      have hi : i < tokens.length := by simpa using hi
      simp [hi]
  have hbetas : (L.evals rowPoint).length = 2 ^ rowPoint.length := by simp [hL.evals]
  obtain ⟨reduced, hfold, hlength, hsum⟩ := @foldlM_addToken _ _
    (L.evals rowPoint) (List.replicate (nextPowerOfTwo vocabSize) (0 : F))
    (fun j => ((tokens.getD j 0 : Nat) : Int)) _ (hbetas ▸ hrows) fun j hj => by
      rw [husize j hj, List.length_replicate]
      exact (htoken j hj).trans_le hpadded
  rw [List.length_replicate] at hlength hsum
  refine ⟨reduced, ?_, hlength, fun f => ?_⟩
  · rw [Embeddings.reducedOneHot, hentries, hfold]
  · have hzero : ∑ k ∈ Finset.range (nextPowerOfTwo vocabSize),
        (List.replicate (nextPowerOfTwo vocabSize) (0 : F)).getD k 0 * f k = 0 := by
      apply Finset.sum_eq_zero
      intro k hk
      simp [Finset.mem_range.mp hk]
    rw [hsum f, hzero, zero_add]
    apply Finset.sum_congr rfl
    intro j hj
    have hj := Finset.mem_range.mp hj
    have hbeta : (L.evals rowPoint).getD j 0 = eqWeight rowPoint j := by
      rw [hL.evals, List.getD_eq_getElem?_getD, List.getElem?_map,
        List.getElem?_range (hj.trans_le hrows)]
      rfl
    rw [hbeta, husize j hj]

theorem mle_take_drop (l : List F) (start : Nat) (x : List F) :
    mle ((l.drop start).take (2 ^ x.length)) x = Multilinear.eval (fun i => l.getD (start + i) 0) x := by
  apply Multilinear.eval_congr
  intro i hi
  rw [List.getD_eq_getElem?_getD, List.getElem?_take, if_pos hi, List.getElem?_drop,
    List.getD_eq_getElem?_getD]

/-- The padded embedding matrix with its columns fixed. -/
def Embeddings.fixedMatrix (self : Embeddings) (columnPoint : List F) : List F :=
  (List.range (nextPowerOfTwo self.vocabSize)).map fun k =>
    mle (((toField F self.mat.padNextPowerOfTwo.data).drop (k * 2 ^ columnPoint.length)).take
      (2 ^ columnPoint.length)) columnPoint

theorem Embeddings.WellFormed.length_padNextPowerOfTwo (h : emb.WellFormed) :
    emb.mat.padNextPowerOfTwo.data.length = 2 ^ (ceilLog2 emb.embSize + ceilLog2 emb.vocabSize) := by
  rw [Tensor.padNextPowerOfTwo, List.length_map, List.length_range, h.shape,
    Shape.numel_nextPowerOfTwo]
  simp [Shape.dimVars, Nat.add_comm]

/-- An entry of the fixed matrix is the value of the padded row. -/
theorem Embeddings.WellFormed.fixedMatrix_getD (h : emb.WellFormed)
    (hcolumn : columnPoint.length = ceilLog2 emb.embSize) {t : Nat} (ht : t < emb.vocabSize) :
    (emb.fixedMatrix columnPoint).getD t 0 = Multilinear.eval
      (fun i => ((paddedEntry [emb.embSize] (emb.row t) i : Int) : F)) columnPoint := by
  have hpadded : emb.vocabSize ≤ nextPowerOfTwo emb.vocabSize := Nat.le_pow_clog (by decide) _
  rw [fixedMatrix, List.getD_eq_getElem?_getD, List.getElem?_map,
    List.getElem?_range (ht.trans_le hpadded), Option.map_some, Option.getD_some, mle_take_drop]
  apply Multilinear.eval_congr
  intro i hi
  have hsize : (Shape.nextPowerOfTwo [emb.embSize]).numel = 2 ^ columnPoint.length := by
    rw [hcolumn]
    exact Nat.mul_one _
  have hdiv : (t * 2 ^ columnPoint.length + i) / 2 ^ columnPoint.length = t := by
    rw [Nat.mul_comm, Nat.mul_add_div (Nat.two_pow_pos _), Nat.div_eq_of_lt hi, Nat.add_zero]
  have hmod : (t * 2 ^ columnPoint.length + i) % 2 ^ columnPoint.length = i := by
    rw [Nat.mul_comm, Nat.mul_add_mod, Nat.mod_eq_of_lt hi]
  have hindex : t * 2 ^ columnPoint.length + i < (Shape.nextPowerOfTwo emb.mat.shape).numel := by
    have hlength := h.length_padNextPowerOfTwo
    rw [Tensor.padNextPowerOfTwo, List.length_map, List.length_range, ← hcolumn, pow_add] at hlength
    rw [hlength, Nat.mul_comm (2 ^ columnPoint.length)]
    have hnext : (t + 1) * 2 ^ columnPoint.length ≤
        2 ^ ceilLog2 emb.vocabSize * 2 ^ columnPoint.length :=
      Nat.mul_le_mul_right _ (ht.trans_le hpadded)
    rw [Nat.succ_mul] at hnext
    omega
  rw [toField, Tensor.padNextPowerOfTwo, List.getD_eq_getElem?_getD, List.getElem?_map, List.getElem?_map,
    List.getElem?_range hindex, h.shape]
  simp only [Option.map_some, Option.getD_some]
  rw [paddedEntry, hsize, hdiv, hmod, if_pos ht, List.prod_singleton]
  rfl

/-- With the columns fixed, the polynomial of the embedding matrix is one in the rows. -/
theorem Embeddings.mle_fixedMatrix {x : List F} (hx : x.length = ceilLog2 emb.vocabSize) :
    mle (emb.fixedMatrix columnPoint) x =
      mle (toField F emb.mat.padNextPowerOfTwo.data) (columnPoint ++ x) := by
  rw [mle, mle, Multilinear.eval_append, Multilinear.eval]
  apply Finset.sum_congr rfl
  intro k hk
  have hk : k < nextPowerOfTwo emb.vocabSize := by
    rw [hx] at hk
    exact Finset.mem_range.mp hk
  rw [fixedMatrix, List.getD_eq_getElem?_getD, List.getElem?_map, List.getElem?_range hk,
    Option.map_some, Option.getD_some, mle_take_drop, mul_comm]

/-! ## The output -/

theorem Embeddings.WellFormed.length_row (h : emb.WellFormed) {t : Nat} (ht : t < emb.vocabSize) :
    (emb.row t).length = emb.embSize := by
  have hle : (t + 1) * emb.embSize ≤ emb.vocabSize * emb.embSize := Nat.mul_le_mul_right _ ht
  rw [Nat.succ_mul] at hle
  rw [row, List.length_take, List.length_drop, h.length]
  omega

theorem Embeddings.WellFormed.evaluate_eq_ok (h : emb.WellFormed)
    (htokens : ∀ t ∈ tokens, t < emb.vocabSize) :
    emb.evaluate [tokenTensor tokens] =
      .ok ⟨tokens.flatMap emb.row, [tokens.length, emb.embSize], [tokens.length, emb.embSize]⟩ := by
  have hselect : (tokens.map fun t : Nat => (t : Int)).mapM (fun index : Int =>
      if 0 ≤ index ∧ index < emb.vocabSize then
        (.ok ((emb.mat.data.drop (index.toNat * emb.embSize)).take emb.embSize) : Outcome (List Int))
      else .error (.panic "index out of bounds")) = .ok (tokens.map emb.row) := by
    rw [mapM_eq_ok_map (g := fun index : Int => emb.row index.toNat), List.map_map]
    · rfl
    · intro index hindex
      obtain ⟨t, ht, rfl⟩ := List.mem_map.mp hindex
      rw [if_pos ⟨Int.natCast_nonneg t, Int.ofNat_lt.mpr (htokens t ht)⟩]
      rfl
  rw [evaluate]
  simp only [tokenTensor, List.all_cons, List.all_nil, Shape.rank, List.length_singleton,
    beq_self_eq_true, Bool.and_true, ensure_true, ok_bind, List.getElem?_cons_zero, unwrap_some,
    selectRows, h.shape, hselect, List.length_map, List.flatMap_def]

/-! ## The sumcheck -/

theorem log2_nextPowerOfTwo (n : Nat) : Nat.log2 (nextPowerOfTwo n) = ceilLog2 n := Nat.log2_two_pow

omit [Field F] in
/-- The point of a claim about the output, cut between the columns and the rows. -/
theorem splitOutputPoint_eq_ok {embSize : Nat} {eval : F}
    (hcolumn : columnPoint.length = ceilLog2 embSize) :
    Embeddings.splitOutputPoint ⟨columnPoint ++ rowPoint, eval⟩ embSize =
      .ok (rowPoint, columnPoint) := by
  have hle : columnPoint.length ≤ (columnPoint ++ rowPoint).length := by simp
  simp only [Embeddings.splitOutputPoint, log2_nextPowerOfTwo, ← hcolumn, sliceTo, sliceFrom,
    if_pos hle, List.take_left, List.drop_left, ok_bind]

/-- What the prover starts the sumcheck with. -/
theorem Embeddings.WellFormed.sumcheckFactors_eq_ok (h : emb.WellFormed) (hL : L.Lawful)
    (htokens : ∀ t ∈ tokens, t < emb.vocabSize)
    (hcolumn : columnPoint.length = ceilLog2 emb.embSize)
    (hrow : rowPoint.length = ceilLog2 tokens.length) (eval : F) :
    ∃ reduced, emb.sumcheckFactors L ⟨columnPoint ++ rowPoint, eval⟩
        (tokenTensor tokens).padNextPowerOfTwo = .ok (reduced, emb.fixedMatrix columnPoint) ∧
      reduced.length = nextPowerOfTwo emb.vocabSize ∧
      ∀ f : Nat → F, ∑ k ∈ Finset.range (nextPowerOfTwo emb.vocabSize), reduced.getD k 0 * f k =
        ∑ j ∈ Finset.range tokens.length, eqWeight rowPoint j * f (tokens.getD j 0) := by
  obtain ⟨reduced, hreduced, hlength, hsum⟩ := reducedOneHot_eq_ok hL h.vocabSize htokens hrow
  refine ⟨reduced, ?_, hlength, hsum⟩
  have hpos : ∀ n, nextPowerOfTwo n ≠ 0 := fun n => (Nat.two_pow_pos _).ne'
  have hpower : ∀ n, Shape.isPowerOfTwo (nextPowerOfTwo n) = true := by
    intro n
    rw [Shape.isPowerOfTwo, beq_iff_eq, nextPowerOfTwo, nextPowerOfTwo, Nat.clog_pow _ _ (by decide)]
  have hpowerOne : Shape.isPowerOfTwo 1 = true := by decide
  have hshape : emb.mat.padNextPowerOfTwo.shape =
      [nextPowerOfTwo emb.vocabSize, nextPowerOfTwo emb.embSize] := by
    rw [Tensor.padNextPowerOfTwo, h.shape]
    rfl
  have hmatrix : L.fixLowVariables (toField F emb.mat.padNextPowerOfTwo.data) columnPoint =
      emb.fixedMatrix columnPoint := by
    have hdata : (toField F emb.mat.padNextPowerOfTwo.data).length =
        2 ^ (columnPoint.length + ceilLog2 emb.vocabSize) := by
      rw [toField, List.length_map, h.length_padNextPowerOfTwo, hcolumn]
    rw [hL.fixLowVariables _ _ _ hdata]
    rfl
  have hnumel : Shape.numel [1, nextPowerOfTwo emb.vocabSize] = reduced.length := by
    rw [hlength]
    simp [Shape.numel]
  have hvars : reduced.length = (emb.fixedMatrix columnPoint).length := by
    rw [hlength, fixedMatrix, List.length_map, List.length_range]
  simp only [sumcheckFactors, splitOutputPoint_eq_ok hcolumn, hreduced, Tensor.new, hnumel,
    Tensor.nrows2d, Tensor.ncols2d, Tensor.nrows2d.ensurePos, hshape, if_neg (hpos _),
    Tensor.intoMle2d, Shape.rank, List.length_cons, List.length_nil, hpower, hpowerOne, hmatrix,
    sumcheckFactors.assertEq, if_pos hvars, one_ne_zero, if_false, Nat.reduceAdd, beq_self_eq_true,
    ensure_true, ok_bind]

/-- The sum over the rows of the embedding matrix is the value of the output. -/
theorem Embeddings.WellFormed.sum_fixedMatrix (h : emb.WellFormed)
    (htokens : ∀ t ∈ tokens, t < emb.vocabSize) {output : Tensor Int}
    (houtput : emb.evaluate [tokenTensor tokens] = .ok output)
    (hcolumn : columnPoint.length = ceilLog2 emb.embSize)
    (hrow : rowPoint.length = ceilLog2 tokens.length) :
    ∑ j ∈ Finset.range tokens.length,
        eqWeight rowPoint j * (emb.fixedMatrix columnPoint).getD (tokens.getD j 0) 0 =
      mle (toField F output.padNextPowerOfTwo.data) (columnPoint ++ rowPoint) := by
  rw [h.evaluate_eq_ok htokens] at houtput
  obtain rfl := Except.ok.inj houtput
  have hrows : tokens.length ≤ 2 ^ rowPoint.length := hrow ▸ Nat.le_pow_clog (by decide) _
  rw [mle_padNextPowerOfTwo, eval_paddedEntry_matrix hcolumn hrows]
  · apply Finset.sum_congr rfl
    intro j hj
    have hj := Finset.mem_range.mp hj
    have htoken : tokens.getD j 0 = tokens[j] := by simp [hj]
    rw [List.take_drop_flatMap (fun t ht => h.length_row (htokens t ht)) hj, htoken,
      h.fixedMatrix_getD hcolumn (htokens _ (List.getElem_mem hj))]
  · rw [Shape.numel_nextPowerOfTwo, List.length_append, hcolumn, hrow, Nat.add_comm]
    rfl

/-- The polynomial of the table that the prover fills. -/
theorem mle_of_weighted_sums {reduced : List F} (htokens : ∀ t ∈ tokens, t < vocabSize)
    (hrow : rowPoint.length = ceilLog2 tokens.length)
    (hsum : ∀ f : Nat → F, ∑ k ∈ Finset.range (nextPowerOfTwo vocabSize), reduced.getD k 0 * f k =
      ∑ j ∈ Finset.range tokens.length, eqWeight rowPoint j * f (tokens.getD j 0)) {x : List F}
    (hx : x.length = ceilLog2 vocabSize) :
    mle reduced x = mle (toField F (oneHotMatrix vocabSize tokens).padNextPowerOfTwo.data)
      (x ++ rowPoint) := by
  have hrows : tokens.length ≤ 2 ^ rowPoint.length := hrow ▸ Nat.le_pow_clog (by decide) _
  have hcols : vocabSize ≤ 2 ^ x.length := hx ▸ Nat.le_pow_clog (by decide) _
  rw [mle_oneHotMatrix htokens hx hrow,
    Multilinear.evalPair_oneHot hrows fun t ht => (htokens t ht).trans_le hcols, ← hsum (eqWeight x),
    mle, Multilinear.eval, hx]
  rfl

/-- The prover's claims are true. -/
theorem Embeddings.WellFormed.prove_eq_ok (h : emb.WellFormed) (hL : L.Lawful) {P T : Type}
    {proveSumcheck : SumcheckProver F P T} (hprove : proveSumcheck.Lawful)
    (htokens : ∀ t ∈ tokens, t < emb.vocabSize) {eval : F}
    (hcolumn : columnPoint.length = ceilLog2 emb.embSize)
    (hrow : rowPoint.length = ceilLog2 tokens.length) (t : T) :
    ∃ proof embeddingClaim oneHotClaim t',
      emb.prove L proveSumcheck [⟨columnPoint ++ rowPoint, eval⟩] [tokenTensor tokens] t =
        .ok (proof, [(emb.storageKey, embeddingClaim)], [oneHotClaim], t') ∧
      embeddingClaim.eval = mle (toField F emb.mat.padNextPowerOfTwo.data) embeddingClaim.point ∧
      oneHotClaim.eval = mle (toField F (oneHotMatrix emb.vocabSize tokens).padNextPowerOfTwo.data)
        oneHotClaim.point := by
  obtain ⟨reduced, hfactors, hlength, hsum⟩ :=
    h.sumcheckFactors_eq_ok hL htokens hcolumn hrow eval
  have htables : ∀ table ∈ [reduced, emb.fixedMatrix columnPoint],
      table.length = 2 ^ ceilLog2 emb.vocabSize := by
    intro table htable
    rcases List.mem_pair.mp htable with rfl | rfl
    · exact hlength
    · rw [fixedMatrix, List.length_map, List.length_range]
      rfl
  have hne : [reduced, emb.fixedMatrix columnPoint] ≠ [] := List.cons_ne_nil _ _
  have hchallenges := hprove.challenges _ _ t hne htables
  have hevaluations := hprove.finalEvaluations _ _ t hne htables
  rcases hrun : proveSumcheck [reduced, emb.fixedMatrix columnPoint] t with
    ⟨proof, challenges, finalEvaluations, t'⟩
  rw [hrun] at hchallenges hevaluations
  dsimp only at hchallenges hevaluations
  subst hevaluations
  have hrun' : emb.prove L proveSumcheck [⟨columnPoint ++ rowPoint, eval⟩] [tokenTensor tokens] t =
      .ok (⟨proof, [reduced, emb.fixedMatrix columnPoint].map (mle · challenges)⟩,
        [(emb.storageKey, ⟨columnPoint ++ challenges, mle (emb.fixedMatrix columnPoint) challenges⟩)],
        [⟨challenges ++ rowPoint, mle reduced challenges⟩], t') := by
    simp only [prove, hfactors, hrun, List.map_cons, List.map_nil, List.length_singleton,
      List.getElem?_cons_zero, List.getElem?_cons_succ, buildPointsForClaims,
      splitOutputPoint_eq_ok hcolumn, unwrap_some, beq_self_eq_true, ensure_true, ok_bind]
  exact ⟨_, _, _, _, hrun', mle_fixedMatrix hchallenges,
    mle_of_weighted_sums htokens hrow hsum hchallenges⟩

end Field

end DeepProve
