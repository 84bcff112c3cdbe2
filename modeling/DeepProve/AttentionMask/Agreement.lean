import DeepProve.AttentionMask.Mask
import DeepProve.PolyCommit.Chunks

/-!
# The descriptions of the attention mask agree

The mask is written down several times: for the whole matrix and for a single row, as boolean tensors,
as tables of the prover and as formulas of the verifier. They are the same mask. The verifier has the
two polynomials for the unpadded part in the other order than the prover; only their product is used.
-/

namespace DeepProve

open Outcome
open Multilinear (eqWeight ltWeight evalPair)

/-! ## What the mask is -/

/-- Token `i` does not see token `j`. -/
def AttentionSpan.masked (span : AttentionSpan) (i j : Nat) : Bool :=
  decide (i < j) || match span with
    | .full => false
    | .localWindow n => decide (j + n ≤ i)

section Evaluate

variable {B : BoolTensors} {span : AttentionSpan} {seqLen : Nat}

/-- The mask of the whole matrix. -/
theorem entry_nonCachingCaseMask (hB : B.Lawful) {i j : Nat} (hi : i < seqLen) (hj : j < seqLen) :
    B.entry (nonCachingCaseMask B span seqLen) i j = span.masked i j := by
  have hplain : B.entry (B.trilMask seqLen seqLen 0) i j = decide (i < j) := by
    rw [hB.trilMask _ _ _ i hi j hj]
    simp
  unfold nonCachingCaseMask AttentionSpan.masked
  cases span with
  | full =>
    dsimp only
    rw [hplain]
    simp
  | localWindow n =>
    dsimp only
    split
    · next hn =>
      -- the window covers the whole matrix
      have hsees : ¬ j + n ≤ i := by omega
      rw [hplain]
      simp [hsees]
    · have hwindow : decide ((j : Int) - i < 1 - n) = decide (j + n ≤ i) := by
        apply decide_eq_decide.mpr
        omega
      rw [hB.boolOr, hplain, hB.triuMask _ _ _ i hi j hj, hwindow]

/-- The mask of a single row is that of the last row of the matrix. -/
theorem entry_cachingCaseMask (hB : B.Lawful) {i j : Nat} (hj : j ≤ i) :
    B.entry (cachingCaseMask B span (i + 1)) 0 j = span.masked i j := by
  have hsees : ¬ i < j := by omega
  have hfull : B.entry (B.full 1 (i + 1) false) 0 j = false :=
    hB.full _ _ _ 0 Nat.one_pos j (by omega)
  unfold cachingCaseMask AttentionSpan.masked
  cases span with
  | full =>
    dsimp only
    rw [hfull]
    simp [hsees]
  | localWindow n =>
    dsimp only
    split
    · next hoffset =>
      have hwindow : ¬ j + n ≤ i := by omega
      rw [hfull]
      simp [hsees, hwindow]
    · next hoffset =>
      have hwindow : decide ((j : Int) - (0 : Nat) < ((i + 1 - n : Nat) : Int)) = decide (j + n ≤ i) := by
        apply decide_eq_decide.mpr
        omega
      rw [hB.triuMask _ _ _ 0 Nat.one_pos j (by omega), hwindow]
      simp [hsees]

/-- A square matrix is not taken for a single row. -/
theorem evaluateMask_square : evaluateMask B span seqLen seqLen = nonCachingCaseMask B span seqLen := by
  unfold evaluateMask
  by_cases h : seqLen = 1
  · simp [h]
  · simp [h]

end Evaluate

/-! ## The tables of the prover -/

section Prove

variable {F : Type} [Field F]

theorem getD_map_range (f : Nat → F) {n k : Nat} (h : k < n) :
    ((List.range n).map f).getD k 0 = f k := by
  rw [List.getD_eq_getElem?_getD, List.getElem?_map, List.getElem?_range h]
  rfl

theorem boolMleFromFn_eq (n : Nat) (f : Nat → Nat → Bool) :
    (boolMleFromFn n f : List F) =
      (List.range (n * n)).map fun k => if f (k / n) (k % n) then 1 else 0 :=
  List.flatMap_range_map_range _ n n

/-- An entry of a table. -/
theorem getD_boolMleFromFn {n i j : Nat} (f : Nat → Nat → Bool) (hi : i < n) (hj : j < n) :
    (boolMleFromFn n f : List F).getD (i * n + j) 0 = if f i j then 1 else 0 := by
  have hlt : i * n + j < n * n := by
    have := Nat.mul_le_mul_right n (Nat.succ_le_of_lt hi)
    rw [Nat.succ_mul] at this
    omega
  rw [boolMleFromFn_eq, getD_map_range _ hlt, Nat.mul_comm, Nat.mul_add_div (by omega),
    Nat.mul_add_mod, Nat.div_eq_of_lt hj, Nat.mod_eq_of_lt hj, Nat.add_zero]

/-- The polynomial of a table, at a column and a row. -/
theorem mle_boolMleFromFn (f : Nat → Nat → Bool) {column row : List F}
    (h : column.length = row.length) :
    mle (boolMleFromFn (2 ^ column.length) f) (column ++ row) =
      evalPair (fun j i => if f i j then 1 else 0) column row := by
  rw [← Multilinear.eval_rows, mle]
  apply Multilinear.eval_congr
  intro k hk
  rw [List.length_append, ← h, pow_add] at hk
  rw [boolMleFromFn_eq, getD_map_range _ hk]

/-- The product of the tables is one where the mask keeps the entry. -/
theorem prod_makeMaskPolys {span : AttentionSpan} {n i j : Nat} (hi : i < n) (hj : j < n) :
    ((makeMaskPolys span n : List (List F)).map fun poly => poly.getD (i * n + j) 0).prod =
      if span.masked i j then 0 else 1 := by
  unfold makeMaskPolys AttentionSpan.masked
  cases span with
  | full =>
    simp only [List.map_cons, List.map_nil, List.prod_cons, List.prod_nil, mul_one, Bool.or_false,
      getD_boolMleFromFn _ hi hj]
    by_cases h : i < j
    · simp [h]
    · simp [h, not_lt.mp h]
  | localWindow w =>
    dsimp only
    split
    · next hw =>
      have hwindow : ¬ j + w ≤ i := by omega
      simp only [List.map_cons, List.map_nil, List.prod_cons, List.prod_nil, mul_one, hwindow,
        decide_false, Bool.or_false, getD_boolMleFromFn _ hi hj]
      by_cases h : i < j
      · simp [h]
      · simp [h, not_lt.mp h]
    · simp only [List.map_cons, List.map_nil, List.prod_cons, List.prod_nil, mul_one,
        getD_boolMleFromFn _ hi hj]
      by_cases h : i < j
      · simp [h]
      · by_cases hw : j + w ≤ i
        · simp [hw, not_lt.mpr hw]
        · simp [h, hw, not_lt.mp h, not_le.mp hw]

/-! ## The fixed polynomials of the prover -/

theorem bitList_eq_vertex (num bitLength : Nat) :
    (bitList num bitLength : List F) = Multilinear.vertex bitLength num := by
  induction bitLength generalizing num with
  | zero => rfl
  | succ n ih => rw [bitList_succ, Multilinear.vertex, ih]

/-- The comparison of a column and a row. -/
theorem evalZeroifierMle_eq_evalPair {x y : List F} (h : x.length = y.length) :
    evalZeroifierMle x y = evalPair (fun i j => if i ≤ j then 1 else 0) x y :=
  (Multilinear.evalPair_le h).symm

/-- One coordinate of the comparison. -/
def zeroifierStep (acc : F) (cr : F × F) : F :=
  acc * (1 - cr.1 - cr.2 + 2 * cr.1 * cr.2) + (1 - cr.1) * cr.2

@[simp] theorem length_fixMleRec (fixRow : Bool) (rest evals : List F) (acc : F)
    (evalIndex numBits : Nat) :
    (fixMleRec fixRow rest evals acc evalIndex numBits).length = evals.length := by
  induction rest generalizing evals acc evalIndex numBits with
  | nil => rw [fixMleRec, List.length_set]
  | cons c rest ih => rw [fixMleRec, ih, ih]

/-- The entries that are written: those whose lowest bits are the index so far. -/
theorem getElem?_fixMleRec (rest evals : List F) (acc : F) {evalIndex numBits k : Nat}
    (hindex : evalIndex < 2 ^ numBits) (hk : k < evals.length) :
    (fixMleRec false rest evals acc evalIndex numBits)[k]? =
      if k % 2 ^ numBits = evalIndex ∧ k / 2 ^ numBits < 2 ^ rest.length then
        some ((rest.zip (bitList (k / 2 ^ numBits) rest.length)).foldl zeroifierStep acc)
      else evals[k]? := by
  induction rest generalizing evals acc evalIndex numBits with
  | nil =>
    have hdiv := Nat.div_add_mod k (2 ^ numBits)
    rw [fixMleRec, List.getElem?_set, List.length_nil, pow_zero]
    by_cases heq : evalIndex = k
    · subst heq
      have hzero : evalIndex / 2 ^ numBits < 1 := Nat.lt_one_iff.mpr (Nat.div_eq_of_lt hindex)
      rw [if_pos rfl, if_pos hk, if_pos ⟨Nat.mod_eq_of_lt hindex, hzero⟩]
      rfl
    · rw [if_neg heq, if_neg]
      rintro ⟨hmod, hlt⟩
      have hzero : k / 2 ^ numBits = 0 := Nat.lt_one_iff.mp hlt
      rw [hzero, Nat.mul_zero] at hdiv
      omega
  | cons c rest ih =>
    have hor : evalIndex ||| 1 <<< numBits = evalIndex + 2 ^ numBits := by
      rw [Nat.one_shiftLeft, Nat.or_comm, Nat.add_comm]
      have := Nat.two_pow_add_eq_or_of_lt hindex 1
      rw [Nat.mul_one] at this
      exact this.symm
    have hmod : k % 2 ^ (numBits + 1) = k % 2 ^ numBits + 2 ^ numBits * (k / 2 ^ numBits % 2) :=
      Nat.mod_pow_succ
    have hquot : k / 2 ^ (numBits + 1) = k / 2 ^ numBits / 2 := by
      rw [pow_succ, Nat.div_div_eq_div_mul]
    have hsize : k / 2 ^ numBits / 2 < 2 ^ rest.length ↔ k / 2 ^ numBits < 2 ^ (rest.length + 1) := by
      rw [pow_succ]
      omega
    have hlow := Nat.mod_lt k (Nat.two_pow_pos numBits)
    have hpow : 2 ^ (numBits + 1) = 2 ^ numBits + 2 ^ numBits := by
      rw [pow_succ]
      omega
    rw [fixMleRec, hor, ih _ _ (by omega) (by rw [length_fixMleRec]; exact hk),
      ih _ _ (by omega) hk, hmod, hquot, List.length_cons, bitList_succ, List.zip_cons_cons,
      List.foldl_cons]
    simp only [hsize]
    -- the next bit tells which of the two calls has written the entry
    rcases Nat.mod_two_eq_zero_or_one (k / 2 ^ numBits) with hbit | hbit
    · rw [hbit, Nat.mul_zero, Nat.add_zero, if_neg (by omega)]
      simp only [zeroifierStep, Nat.cast_zero, if_false, Bool.false_eq_true]
    · have hother : ¬ k % 2 ^ numBits + 2 ^ numBits = evalIndex := by omega
      simp only [hbit, Nat.mul_one, Nat.add_left_inj, hother, false_and, zeroifierStep, Nat.cast_one,
        if_false, Bool.false_eq_true]

/-- The upper triangular matrix with its rows fixed. -/
theorem fixLowerMleColumns_eq (point : List F) :
    fixLowerMleColumns point =
      (List.range (2 ^ point.length)).map fun k => evalZeroifierMle point (bitList k point.length) := by
  apply List.ext_getElem?
  intro k
  rcases Nat.lt_or_ge k (2 ^ point.length) with hk | hk
  · rw [fixLowerMleColumns, getElem?_fixMleRec _ _ _ (by decide) (by rwa [List.length_replicate]),
      List.getElem?_map, List.getElem?_range hk, pow_zero, Nat.mod_one, Nat.div_one,
      if_pos ⟨rfl, hk⟩]
    rfl
  · rw [List.getElem?_eq_none (by simpa [fixLowerMleColumns] using hk),
      List.getElem?_eq_none (by simpa using hk)]

/-- The weights of the columns of the shift matrix, row by row. -/
def shiftWeight (columnPoint : List F) (shift row : Nat) : F :=
  if row < shift then 0 else eqWeight columnPoint (row - shift)

variable {evals : List F → List F}

/-- The shift matrix with its columns fixed. -/
theorem shiftFixedEvals_eq
    (hevals : ∀ point, evals point = (List.range (2 ^ point.length)).map (eqWeight point))
    (columnPoint : List F) {n : Nat} (hn : 1 ≤ n) :
    shiftFixedEvals evals columnPoint n =
      .ok ((List.range (2 ^ columnPoint.length)).map (shiftWeight columnPoint (n - 1))) := by
  -- the rows before `n - 1 + m` are done
  have hloop : ∀ m, n - 1 + m ≤ 2 ^ columnPoint.length →
      (List.range' (n - 1) m).foldlM (fun (shiftFixedEvals : List F) row => do
          let beta ← unwrap (evals columnPoint)[row + 1 - n]? "index out of bounds"
          .ok (shiftFixedEvals.modify row (· + beta)))
        (List.replicate (2 ^ columnPoint.length) 0) =
      (.ok ((List.range (2 ^ columnPoint.length)).map fun k =>
        if k < n - 1 + m then shiftWeight columnPoint (n - 1) k else 0) : Outcome (List F)) := by
    intro m
    induction m with
    | zero =>
      intro _
      rw [List.range'_zero, List.foldlM_nil]
      congr 1
      apply List.ext_getElem
      · simp
      · intro k hk hk'
        rw [List.getElem_replicate, List.getElem_map, List.getElem_range, shiftWeight]
        split
        · next h => rw [if_pos (by omega)]
        · rfl
    | succ m ih =>
      intro hm
      have hrow : n - 1 + m + 1 - n = m := by omega
      have hlt : m < 2 ^ columnPoint.length := by omega
      rw [List.range'_concat, List.foldlM_append, Nat.one_mul, ih (by omega), Outcome.ok_bind,
        List.foldlM_cons, hrow, hevals, List.getElem?_map, List.getElem?_range hlt, Option.map_some,
        unwrap_some, Outcome.ok_bind, Outcome.ok_bind, List.foldlM_nil]
      congr 1
      apply List.ext_getElem
      · simp
      · intro k hk hk'
        rw [List.getElem_modify]
        simp only [List.getElem_map, List.getElem_range, shiftWeight]
        rcases Nat.lt_trichotomy k (n - 1 + m) with h | h | h
        · rw [if_neg (by omega), if_pos h, if_pos (show k < n - 1 + (m + 1) by omega)]
        · have hk : k - (n - 1) = m := by omega
          rw [if_pos h.symm, if_neg (by omega), if_pos (show k < n - 1 + (m + 1) by omega),
            if_neg (by omega), hk, zero_add]
        · rw [if_neg (by omega), if_neg (by omega), if_neg (by omega)]
  unfold shiftFixedEvals
  rw [usizeSub, if_pos hn, Outcome.ok_bind]
  rcases Nat.le_total (n - 1) (2 ^ columnPoint.length) with hle | hge
  · have hend : n - 1 + (2 ^ columnPoint.length - (n - 1)) = 2 ^ columnPoint.length := by omega
    rw [hloop _ (by omega), hend]
    congr 1
    apply List.map_congr_left
    intro k hk
    rw [if_pos (List.mem_range.mp hk)]
  · -- the shift is larger than the matrix
    rw [Nat.sub_eq_zero_of_le hge, List.range'_zero, List.foldlM_nil]
    congr 1
    apply List.ext_getElem
    · simp
    · intro k hk hk'
      rw [List.length_replicate] at hk
      rw [List.getElem_replicate, List.getElem_map, List.getElem_range, shiftWeight,
        if_pos (by omega)]

/-! ## The formulas of the verifier -/

/-- The polynomial of the shift matrix. -/
theorem evalShiftMatrix_eq
    (hevals : ∀ point, evals point = (List.range (2 ^ point.length)).map (eqWeight point))
    (rowPoint columnPoint : List F) (shift : Nat) (hbits : columnPoint.length ≤ 64) :
    evalShiftMatrix evals rowPoint columnPoint shift =
      .ok (Multilinear.eval (shiftWeight columnPoint shift) rowPoint) := by
  have hloop : ∀ m, m ≤ 2 ^ rowPoint.length →
      ((List.range m).map fun row => (row, eqWeight rowPoint row)).foldlM
        (fun sum entry =>
          if entry.1 < shift then .ok sum
          else do
            let colLeBits ← bitsOf (entry.1 - shift) columnPoint.length
            .ok (sum + entry.2 * identityEval columnPoint colLeBits)) 0 =
      (.ok (∑ row ∈ Finset.range m, shiftWeight columnPoint shift row * eqWeight rowPoint row) :
        Outcome F) := by
    intro m
    induction m with
    | zero => exact fun _ => rfl
    | succ m ih =>
      intro hm
      rw [List.range_succ, List.map_append, List.foldlM_append, ih (by omega), Outcome.ok_bind,
        List.map_singleton, List.foldlM_cons, Finset.sum_range_succ]
      dsimp only
      unfold shiftWeight
      split
      · rw [Outcome.ok_bind, List.foldlM_nil, zero_mul, add_zero]
        rfl
      · have hcolumn : identityEval columnPoint (bitList (m - shift) columnPoint.length) =
            eqWeight columnPoint (m - shift) := by
          rw [← identityEval_bits, List.map_map]
          rfl
        rw [bitsOf_eq_ok hbits, Outcome.ok_bind, Outcome.ok_bind, List.foldlM_nil, hcolumn, mul_comm]
        rfl
  have hlist : (List.range (2 ^ rowPoint.length)).zip
      ((List.range (2 ^ rowPoint.length)).map (eqWeight rowPoint)) =
        (List.range (2 ^ rowPoint.length)).map fun row => (row, eqWeight rowPoint row) := by
    rw [List.zip_map_right, List.zip_eq_zipWith, List.zipWith_self, List.map_map]
    rfl
  unfold evalShiftMatrix
  dsimp only
  rw [hevals, List.length_map, List.length_range, if_pos rfl, hlist]
  exact hloop _ (le_refl _)

/-- At a vertex the shift matrix is one row of it. -/
theorem eval_bitList (table : Nat → F) {n k : Nat} (h : k < 2 ^ n) :
    Multilinear.eval table (bitList k n) = table k := by
  rw [bitList_eq_vertex, Multilinear.eval_vertex table h]

/-- The second polynomial of the mask is the product of the upper triangular matrix and the shift
    matrix, with the columns on the right filled up with ones. -/
theorem mle_localMask (columnPoint rowPoint : List F) (h : columnPoint.length = rowPoint.length)
    {n : Nat} (hn : 1 ≤ n) (hwindow : n < 2 ^ columnPoint.length) :
    mle (boolMleFromFn (2 ^ columnPoint.length) fun token other => decide (token < other + n))
        (columnPoint ++ rowPoint) =
      (∑ k ∈ Finset.range (2 ^ rowPoint.length),
        evalZeroifierMle rowPoint (bitList k rowPoint.length) * shiftWeight columnPoint (n - 1) k) +
      (1 - evalZeroifierMle columnPoint
        (bitList (2 ^ columnPoint.length - n) columnPoint.length)) := by
  -- entry by entry
  have hentry : ∀ j < 2 ^ columnPoint.length, ∀ i < 2 ^ rowPoint.length,
      (if decide (i < j + n) = true then (1 : F) else 0) =
        (∑ k ∈ Finset.range (2 ^ rowPoint.length),
          (if k = j + (n - 1) then 1 else 0) * (if i < k + 1 then 1 else 0)) +
        (1 - if j < 2 ^ columnPoint.length - n + 1 then 1 else 0) := by
    intro j hj i hi
    simp only [ite_mul, one_mul, zero_mul, decide_eq_true_eq]
    rw [Finset.sum_ite_eq']
    by_cases hpad : j < 2 ^ columnPoint.length - n + 1
    · have hmem : j + (n - 1) ∈ Finset.range (2 ^ rowPoint.length) := by
        rw [Finset.mem_range, ← h]
        omega
      have hiff : i < j + (n - 1) + 1 ↔ i < j + n := by omega
      simp only [hmem, hpad, hiff, if_true, sub_self, add_zero]
    · have hmem : ¬ j + (n - 1) ∈ Finset.range (2 ^ rowPoint.length) := by
        rw [Finset.mem_range, ← h]
        omega
      have hsees : i < j + n := by
        rw [← h] at hi
        omega
      simp only [hmem, hpad, hsees, if_true, if_false, sub_zero, zero_add]
  rw [mle_boolMleFromFn _ h, Multilinear.evalPair_congr hentry, Multilinear.evalPair_add,
    Multilinear.evalPair_mul]
  congr 1
  · apply Finset.sum_congr rfl
    intro k hk
    have hk := Finset.mem_range.mp hk
    rw [evalZeroifierMle_bitList _ _ hk, Multilinear.eval_lt (by omega), mul_comm]
    congr 1
    -- only one column of the shift matrix is in this row
    unfold shiftWeight Multilinear.eval
    split
    · next hlt =>
      apply Finset.sum_eq_zero
      intro j _
      dsimp only
      rw [if_neg (by omega), zero_mul]
    · next hge =>
      rw [Finset.sum_eq_single (k - (n - 1))]
      · dsimp only
        rw [if_pos (by omega), one_mul]
      · intro j _ hne
        dsimp only
        rw [if_neg (by omega), zero_mul]
      · intro hout
        rw [Finset.mem_range, h] at hout
        omega
  · rw [Multilinear.evalPair_of_left, evalZeroifierMle_bitList _ _ (by omega)]
    have hsub : ∀ j, (1 - if j < 2 ^ columnPoint.length - n + 1 then (1 : F) else 0) =
        1 + -1 * if j < 2 ^ columnPoint.length - n + 1 then (1 : F) else 0 := fun j => by ring
    simp only [hsub]
    rw [Multilinear.eval_add, Multilinear.eval_const, Multilinear.eval_mul_left,
      Multilinear.eval_lt (by omega)]
    ring

/-- The polynomials for the unpadded part, at a column and a row: that of the rows depends on the
    column. -/
theorem mle_makeRowColumnLtPolys {seqLen : Nat} {columnPoint rowPoint : List F}
    (hcolumn : columnPoint.length = ceilLog2 seqLen) (hrow : rowPoint.length = ceilLog2 seqLen) :
    mle (makeRowColumnLtPolys seqLen).1 (columnPoint ++ rowPoint) = ltWeight columnPoint seqLen ∧
      mle (makeRowColumnLtPolys seqLen).2 (columnPoint ++ rowPoint) = ltWeight rowPoint seqLen := by
  have hpadded : nextPowerOfTwo seqLen = 2 ^ columnPoint.length := by rw [hcolumn]; rfl
  have hle : seqLen ≤ 2 ^ columnPoint.length := by
    rw [← hpadded]
    exact Nat.le_pow_clog (by decide) seqLen
  have hsame : columnPoint.length = rowPoint.length := hcolumn.trans hrow.symm
  constructor
  · have htable : (makeRowColumnLtPolys seqLen).1 =
        (List.range (2 ^ columnPoint.length * 2 ^ columnPoint.length)).map fun k =>
          if k % 2 ^ columnPoint.length < seqLen then (1 : F) else 0 := by
      rw [← List.flatMap_range_map_range fun _ j => if j < seqLen then (1 : F) else 0]
      simp [makeRowColumnLtPolys, hpadded, List.flatMap, List.map_const']
    rw [← Multilinear.eval_lt hle, ← Multilinear.evalPair_of_left _ columnPoint rowPoint,
      ← Multilinear.eval_rows, mle]
    apply Multilinear.eval_congr
    intro k hk
    rw [List.length_append, ← hsame, pow_add] at hk
    rw [htable, getD_map_range _ hk]
  · rw [← Multilinear.eval_lt (by rwa [← hsame]), ← Multilinear.evalPair_of_right _ columnPoint rowPoint,
      ← Multilinear.eval_rows, mle]
    apply Multilinear.eval_congr
    intro k hk
    rw [List.length_append, ← hsame, pow_add] at hk
    have hdiv : k < seqLen * 2 ^ columnPoint.length ↔ k / 2 ^ columnPoint.length < seqLen :=
      (Nat.div_lt_iff_lt_mul (Nat.two_pow_pos _)).symm
    rw [makeRowColumnLtPolys, hpadded, List.getD_eq_getElem?_getD, List.getElem?_append,
      List.length_replicate, List.getElem?_replicate, List.getElem?_replicate]
    by_cases hlt : k / 2 ^ columnPoint.length < seqLen
    · simp only [hdiv.mpr hlt, hlt, if_true, Option.getD_some]
    · have hge : ¬ k < seqLen * 2 ^ columnPoint.length := fun h => hlt (hdiv.mp h)
      simp only [hge, hlt, if_false]
      split <;> rfl

theorem evaluateRowColumnLtPolys_eq {seqLen : Nat} (hpos : 1 ≤ seqLen) (hmax : ceilLog2 seqLen ≤ 64)
    {rowPoint columnPoint : List F} (hrow : rowPoint.length = ceilLog2 seqLen)
    (hcolumn : columnPoint.length = ceilLog2 seqLen) :
    evaluateRowColumnLtPolys rowPoint columnPoint seqLen =
      .ok (ltWeight rowPoint seqLen, ltWeight columnPoint seqLen) := by
  have hle : seqLen ≤ 2 ^ ceilLog2 seqLen := Nat.le_pow_clog (by decide) seqLen
  have hlt : ∀ point : List F, point.length = ceilLog2 seqLen →
      evalZeroifierMle point (bitList (seqLen - 1) (ceilLog2 seqLen)) = ltWeight point seqLen := by
    intro point hpoint
    have hlast : seqLen - 1 + 1 = seqLen := by omega
    rw [← hpoint, evalZeroifierMle_bitList _ _ (by rw [hpoint]; omega), hlast]
  unfold evaluateRowColumnLtPolys
  rw [hrow, hcolumn]
  simp only [beq_self_eq_true, ensure_true, Outcome.ok_bind, usizeSub, if_pos hpos,
    bitsOf_eq_ok hmax, hlt rowPoint hrow, hlt columnPoint hcolumn]

end Prove

/-! ## All descriptions -/

section Descriptions

/-- A row of the whole matrix is the mask of a single row, up to its own token, and nothing is kept
    after it. -/
def RowsAgree (B : BoolTensors) (span : AttentionSpan) (seqLen : Nat) : Prop :=
  ∀ i < seqLen,
    (∀ j ≤ i, B.entry (nonCachingCaseMask B span seqLen) i j =
      B.entry (cachingCaseMask B span (i + 1)) 0 j) ∧
    ∀ j < seqLen, i < j → B.entry (nonCachingCaseMask B span seqLen) i j = true

/-- The product of the polynomials is one where the mask of the evaluation does not fill in negative
    infinity. -/
def PolysAgree (F : Type) [Field F] (B : BoolTensors) (span : AttentionSpan) (seqLen : Nat) : Prop :=
  ∀ i < seqLen, ∀ j < seqLen,
    ((makeMaskPolys span (nextPowerOfTwo seqLen) : List (List F)).map fun poly =>
      poly.getD (i * nextPowerOfTwo seqLen + j) 0).prod = 1 ↔
    B.entry (evaluateMask B span seqLen seqLen) i j = false

variable {F : Type} [Field F]

/-- The second polynomial has the value that the verifier checks, and the vectors of the prover are its
    two factors. -/
def LocalMaskAgrees (evals : List F → List F) (span : AttentionSpan) (seqLen : Nat)
    (rowPoint columnPoint : List F) : Prop :=
  ∀ zeroifierMle localMaskMle, makeMaskPolys span (nextPowerOfTwo seqLen) = [zeroifierMle, localMaskMle] →
    ∃ n shift, span = .localWindow n ∧
      (∀ k < 2 ^ rowPoint.length,
        evalShiftMatrix evals (bitList k rowPoint.length) columnPoint (n - 1) = .ok (shift k)) ∧
      mle localMaskMle (columnPoint ++ rowPoint) =
        (∑ k ∈ Finset.range (2 ^ rowPoint.length),
          evalZeroifierMle rowPoint (bitList k rowPoint.length) * shift k) +
        (1 - evalZeroifierMle columnPoint
          (bitList (nextPowerOfTwo seqLen - n) columnPoint.length)) ∧
      shiftFixedEvals evals columnPoint n = .ok ((List.range (2 ^ rowPoint.length)).map shift) ∧
      fixLowerMleColumns rowPoint = (List.range (2 ^ rowPoint.length)).map fun k =>
        evalZeroifierMle rowPoint (bitList k rowPoint.length)

/-- The verifier has the values of the two polynomials for the unpadded part in the other order. -/
def LtPolysAgree (seqLen : Nat) (rowPoint columnPoint : List F) : Prop :=
  evaluateRowColumnLtPolys rowPoint columnPoint seqLen =
    .ok (mle (makeRowColumnLtPolys seqLen).2 (columnPoint ++ rowPoint),
      mle (makeRowColumnLtPolys seqLen).1 (columnPoint ++ rowPoint))

variable {B : BoolTensors} {evals : List F → List F} {span : AttentionSpan} {seqLen : Nat}

theorem rowsAgree (hB : B.Lawful) : RowsAgree B span seqLen := by
  intro i hi
  refine ⟨fun j hj => ?_, fun j hj hlt => ?_⟩
  · rw [entry_nonCachingCaseMask hB hi (by omega), entry_cachingCaseMask hB hj]
  · rw [entry_nonCachingCaseMask hB hi hj]
    simp [AttentionSpan.masked, hlt]

theorem polysAgree (hB : B.Lawful) : PolysAgree F B span seqLen := by
  intro i hi j hj
  have hle : seqLen ≤ nextPowerOfTwo seqLen := Nat.le_pow_clog (by decide) seqLen
  rw [prod_makeMaskPolys (by omega) (by omega), evaluateMask_square, entry_nonCachingCaseMask hB hi hj]
  cases span.masked i j <;> simp

theorem localMaskAgrees
    (hevals : ∀ point, evals point = (List.range (2 ^ point.length)).map (eqWeight point))
    (hspan : ∀ n, span = .localWindow n → 1 ≤ n) {rowPoint columnPoint : List F}
    (hrow : rowPoint.length = ceilLog2 seqLen) (hcolumn : columnPoint.length = ceilLog2 seqLen)
    (hmax : ceilLog2 seqLen ≤ 64) :
    LocalMaskAgrees evals span seqLen rowPoint columnPoint := by
  intro zeroifierMle localMaskMle hpolys
  have hpadded : nextPowerOfTwo seqLen = 2 ^ columnPoint.length := by rw [hcolumn]; rfl
  have hsame : columnPoint.length = rowPoint.length := hcolumn.trans hrow.symm
  rw [hpadded] at hpolys ⊢
  unfold makeMaskPolys at hpolys
  cases span with
  | full => cases hpolys
  | localWindow n =>
    have hn := hspan n rfl
    dsimp only at hpolys
    split at hpolys
    · cases hpolys
    · next hwindow =>
      obtain ⟨_, hpolys⟩ := List.cons.inj hpolys
      obtain ⟨rfl, _⟩ := List.cons.inj hpolys
      refine ⟨n, shiftWeight columnPoint (n - 1), rfl, fun k hk => ?_,
        mle_localMask columnPoint rowPoint hsame hn (by omega), ?_, fixLowerMleColumns_eq rowPoint⟩
      · rw [evalShiftMatrix_eq hevals _ _ _ (by omega), eval_bitList _ hk]
      · rw [shiftFixedEvals_eq hevals columnPoint hn, hsame]

theorem ltPolysAgree (hpos : 1 ≤ seqLen) (hmax : ceilLog2 seqLen ≤ 64) {rowPoint columnPoint : List F}
    (hrow : rowPoint.length = ceilLog2 seqLen) (hcolumn : columnPoint.length = ceilLog2 seqLen) :
    LtPolysAgree seqLen rowPoint columnPoint := by
  obtain ⟨hfirst, hsecond⟩ := mle_makeRowColumnLtPolys hcolumn hrow
  rw [LtPolysAgree, hfirst, hsecond, evaluateRowColumnLtPolys_eq hpos hmax hrow hcolumn]

/-- All descriptions of the mask. -/
theorem descriptions_agree (hB : B.Lawful)
    (hevals : ∀ point, evals point = (List.range (2 ^ point.length)).map (eqWeight point))
    (hspan : ∀ n, span = .localWindow n → 1 ≤ n) (hpos : 1 ≤ seqLen) (hmax : seqLen < 2 ^ 64)
    {rowPoint columnPoint : List F} (hrow : rowPoint.length = ceilLog2 seqLen)
    (hcolumn : columnPoint.length = ceilLog2 seqLen) :
    RowsAgree B span seqLen ∧ PolysAgree F B span seqLen ∧
      LocalMaskAgrees evals span seqLen rowPoint columnPoint ∧
      LtPolysAgree seqLen rowPoint columnPoint := by
  have hbits : ceilLog2 seqLen ≤ 64 := Nat.clog_le_of_le_pow hmax.le
  exact ⟨rowsAgree hB, polysAgree hB, localMaskAgrees hevals hspan hrow hcolumn hbits,
    ltPolysAgree hpos hbits hrow hcolumn⟩

end Descriptions

/-- Boolean matrices as functions. -/
abbrev boolFunctions : BoolTensors where
  Mask := Nat → Nat → Bool
  full _ _ value _ _ := value
  trilMask _ _ offset i j := decide (offset < (j : Int) - i)
  triuMask _ _ offset i j := decide ((j : Int) - i < offset)
  boolOr a b i j := a i j || b i j
  entry m := m

theorem boolFunctions_lawful : boolFunctions.Lawful where
  full _ _ _ _ _ _ _ := rfl
  trilMask _ _ _ _ _ _ _ := rfl
  triuMask _ _ _ _ _ _ _ := rfl
  boolOr _ _ _ _ := rfl

/-- Three tokens, each of which sees itself and the token before. -/
theorem descriptions_agree_three :
    RowsAgree boolFunctions (.localWindow 2) 3 ∧ PolysAgree ℚ boolFunctions (.localWindow 2) 3 ∧
      LocalMaskAgrees (fun point : List ℚ => (List.range (2 ^ point.length)).map (eqWeight point))
        (.localWindow 2) 3 [2, 3] [5, 7] ∧
      LtPolysAgree 3 ([2, 3] : List ℚ) [5, 7] := by
  have hspan : ∀ n, AttentionSpan.localWindow 2 = .localWindow n → 1 ≤ n := by
    rintro n ⟨⟩
    decide
  exact descriptions_agree boolFunctions_lawful (fun _ => rfl) hspan (by decide) (by decide)
    (by decide) (by decide)

/-- In the order of the prover the two values are not those of the verifier. -/
theorem ltPolys_not_in_order :
    ¬ evaluateRowColumnLtPolys ([0, 0] : List ℚ) [1, 1] 3 =
      .ok (mle (makeRowColumnLtPolys 3).1 ([1, 1] ++ [0, 0]),
        mle (makeRowColumnLtPolys 3).2 ([1, 1] ++ [0, 0])) := by
  have hlog : ceilLog2 3 = 2 := by decide
  have hcolumn : ([1, 1] : List ℚ).length = ceilLog2 3 := hlog.symm
  have hrow : ([0, 0] : List ℚ).length = ceilLog2 3 := hlog.symm
  obtain ⟨hfirst, hsecond⟩ := mle_makeRowColumnLtPolys hcolumn hrow
  rw [hfirst, hsecond, evaluateRowColumnLtPolys_eq (by decide) (by rw [hlog]; decide) hrow hcolumn]
  intro h
  have hzero := (Prod.mk.inj (Except.ok.inj h)).1
  norm_num [ltWeight, eqWeight, Finset.sum_range_succ] at hzero

end DeepProve
