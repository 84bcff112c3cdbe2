import DeepProve.Lookup.Decomposer
import DeepProve.Split.SplitLayer

/-!
# The number of chunks

`SplitLayer::num_chunks_for_input_shape` of `layers/split.rs` halves the number of chunks until they
cover the first dimension, and then leaves out the chunks that would be empty.
-/

namespace DeepProve.SplitLayer

/-- `chunk_size`. -/
def chunkSize (firstDim numChunks : Nat) : Nat := nextPowerOfTwo firstDim / nextPowerOfTwo numChunks

/-- `while chunk_size(num_chunks) * num_chunks < first_dim`. -/
def halveChunks (firstDim : Nat) : Nat → Nat → Outcome Nat
  | 0, _ => .error .outOfFuel
  | fuel + 1, numChunks =>
    if chunkSize firstDim numChunks * numChunks < firstDim then
      halveChunks firstDim fuel (nextPowerOfTwo numChunks / 2)
    else
      .ok numChunks

/-- `num_chunks_for_input_shape`; `fuel` bounds the rounds of its loop. -/
def numChunksForInputShape (fuel maxNumChunks : Nat) (unpaddedInputShape : Shape) : Outcome Nat := do
  let firstDim ← unwrap unpaddedInputShape[0]? "index out of bounds"
  let numChunks ← halveChunks firstDim fuel maxNumChunks
  let chunkSize := chunkSize firstDim numChunks
  if chunkSize = 0 then
    .error (.panic "attempt to divide by zero")
  else
    let numChunks := divCeil firstDim chunkSize
    ensure (decide (numChunks ≤ maxNumChunks))
      s!"Cannot instantiate a SplitLayer with {maxNumChunks} chunks for the provided input shape: {unpaddedInputShape}"
    .ok numChunks

/-- The geometry of a split into at most `m` chunks: `k` is what the loop ends with, `c` the size of
    the chunks, and `r` that of the last one. -/
def HasGeometry (d m : Nat) (dims : Shape) : Prop :=
  ∃ k n c r, (∀ fuel ≥ m, halveChunks d fuel m = .ok k ∧
      numChunksForInputShape fuel m (d :: dims) = .ok n) ∧
    c = chunkSize d k ∧ (∃ i, c = 2 ^ i) ∧ 1 ≤ n ∧ n ≤ m ∧
    chunkSize d n = c ∧ c * (n - 1) < d ∧ d ≤ c * n ∧
    (∀ self : SplitLayer, self.numChunks = [n] → self.checkIsSplittable [d :: dims] = .ok () ∧
      self.unpaddedOutputShapes [d :: dims] =
        .ok (List.replicate (n - 1) (c :: dims) ++ [r :: dims])) ∧
    0 < r ∧ r ≤ c ∧ (List.replicate (n - 1) c ++ [r]).sum = d

variable {d k m : Nat}

/-- The loop ends with chunks that cover the dimension: a single one does. -/
theorem halveChunks_eq_ok (m : Nat) (hm : 1 ≤ m) :
    ∃ k, k ≤ m ∧ d ≤ chunkSize d k * k ∧ ∀ fuel ≥ m, halveChunks d fuel m = .ok k := by
  induction m using Nat.strong_induction_on with
  | _ m ih =>
    have hfuel (fuel : Nat) (h : fuel ≥ m) : ∃ f, fuel = f + 1 :=
      Nat.exists_eq_succ_of_ne_zero (by omega)
    by_cases hlt : chunkSize d m * m < d
    · have hone : 1 < m := by
        by_contra hle
        obtain rfl : m = 1 := by omega
        have hsize : chunkSize d 1 = nextPowerOfTwo d := by simp [chunkSize, nextPowerOfTwo]
        rw [hsize, Nat.mul_one] at hlt
        exact absurd (Nat.le_pow_clog (by decide) d) (not_le.mpr hlt)
      have hhalf : nextPowerOfTwo m / 2 = 2 ^ (Nat.clog 2 m).pred := by
        obtain ⟨b, hb⟩ := Nat.exists_eq_succ_of_ne_zero (Nat.clog_pos Nat.one_lt_two hone).ne'
        rw [nextPowerOfTwo, hb, pow_succ, Nat.mul_div_cancel _ (by decide)]
        rfl
      have hless : nextPowerOfTwo m / 2 < m := hhalf ▸ Nat.pow_pred_clog_lt_self (by decide) hone
      obtain ⟨k, hk, hcover, hrun⟩ := ih _ hless (hhalf ▸ Nat.one_le_two_pow)
      refine ⟨k, hk.trans hless.le, hcover, fun fuel h => ?_⟩
      obtain ⟨f, rfl⟩ := hfuel fuel h
      rw [halveChunks, if_pos hlt]
      exact hrun f (by omega)
    · refine ⟨m, le_rfl, not_lt.mp hlt, fun fuel h => ?_⟩
      obtain ⟨f, rfl⟩ := hfuel fuel h
      rw [halveChunks, if_neg hlt]

/-- Chunks that cover a dimension have a power of two of rows. -/
theorem chunkSize_eq_pow (hd : 1 ≤ d) (hcover : d ≤ chunkSize d k * k) :
    Nat.clog 2 k ≤ Nat.clog 2 d ∧ chunkSize d k = 2 ^ (Nat.clog 2 d - Nat.clog 2 k) := by
  have hle : Nat.clog 2 k ≤ Nat.clog 2 d := by
    by_contra hlt
    have hzero : chunkSize d k = 0 :=
      Nat.div_eq_of_lt (Nat.pow_lt_pow_right (by decide) (not_le.mp hlt))
    rw [hzero] at hcover
    omega
  exact ⟨hle, Nat.pow_div hle (by decide)⟩

theorem divCeil_bounds {c : Nat} (hc : 0 < c) (hd : 1 ≤ d) :
    1 ≤ divCeil d c ∧ c * (divCeil d c - 1) < d ∧ d ≤ c * divCeil d c := by
  have hle := Nat.mul_div_le (d + c - 1) c
  have hlt := Nat.lt_mul_div_succ (d + c - 1) hc
  have hpos : 1 ≤ (d + c - 1) / c := (Nat.one_le_div_iff hc).mpr (by omega)
  rw [divCeil, Nat.mul_sub_one]
  rw [Nat.mul_succ] at hlt
  have hmul := Nat.mul_le_mul_left c hpos
  omega

/-- Without the empty chunks the size of a chunk is the same. -/
theorem chunkSize_divCeil (hd : 1 ≤ d) (hcover : d ≤ chunkSize d k * k) :
    divCeil d (chunkSize d k) ≤ k ∧ chunkSize d (divCeil d (chunkSize d k)) = chunkSize d k := by
  obtain ⟨hle, hpow⟩ := chunkSize_eq_pow hd hcover
  have hc : 0 < chunkSize d k := hpow ▸ Nat.two_pow_pos _
  obtain ⟨hpos, hlt, hcovered⟩ := divCeil_bounds hc hd
  generalize divCeil d (chunkSize d k) = n at hpos hlt hcovered ⊢
  have hnk : n ≤ k := by
    have h := Nat.lt_of_mul_lt_mul_left (hlt.trans_le hcover)
    omega
  refine ⟨hnk, ?_⟩
  have hlower : Nat.clog 2 k ≤ Nat.clog 2 n := by
    by_contra hsmall
    obtain ⟨b, hb⟩ := Nat.exists_eq_succ_of_ne_zero (show Nat.clog 2 k ≠ 0 by omega)
    have hn : n ≤ 2 ^ b := (Nat.clog_le_iff_le_pow Nat.one_lt_two).mp (by omega)
    -- half of the next power of two would cover the dimension
    have hhalf : d ≤ 2 ^ (Nat.clog 2 d - 1) := by
      refine hcovered.trans ((Nat.mul_le_mul_left _ hn).trans ?_)
      rw [hpow, ← pow_add]
      exact Nat.pow_le_pow_right (by decide) (by omega)
    have hclog := Nat.clog_le_of_le_pow hhalf
    omega
  rw [chunkSize, chunkSize, nextPowerOfTwo, nextPowerOfTwo, nextPowerOfTwo,
    hlower.antisymm (Nat.clog_mono_right 2 hnk)]

/-- The rows that are left for the last chunk. -/
theorem lastSize_eq {c n s : Nat} (hs : 0 < s) (hsc : s ≤ c) (h : d = c * n + s) :
    (if d % c = 0 then c else d % c) = s := by
  rw [h, Nat.mul_add_mod]
  rcases hsc.lt_or_eq with hlt | rfl
  · rw [Nat.mod_eq_of_lt hlt, if_neg hs.ne']
  · rw [Nat.mod_self, if_pos rfl]

theorem unpaddedOutputShapes_eq {self : SplitLayer} {n c s : Nat} {dims : Shape}
    (hself : self.numChunks = [n]) (hsame : chunkSize d n = c) (hn : 1 ≤ n) (hc : 0 < c)
    (hcovered : d ≤ c * n) (hs : 0 < s) (hsc : s ≤ c) (hlast : d = c * (n - 1) + s) :
    self.checkIsSplittable [d :: dims] = .ok () ∧
      self.unpaddedOutputShapes [d :: dims] =
        .ok (List.replicate (n - 1) (c :: dims) ++ [s :: dims]) := by
  have hsize : nextPowerOfTwo d / nextPowerOfTwo n = c := hsame
  have hcheck : self.checkIsSplittable [d :: dims] = .ok () := by
    simp [checkIsSplittable, hself, hsize, hcovered]
  have hshapes : chunkShapes (d :: dims) n =
      .ok (List.replicate (n - 1) (c :: dims) ++ [s :: dims]) := by
    unfold chunkShapes
    rw [List.getElem?_cons_zero, unwrap_some, Outcome.ok_bind]
    simp only [hsize, if_neg (Nat.ne_of_gt hn), if_neg hc.ne', lastSize_eq hs hsc hlast,
      List.tail_cons]
  refine ⟨hcheck, ?_⟩
  unfold unpaddedOutputShapes
  rw [hcheck, Outcome.ok_bind, hself]
  simp [hshapes]

end DeepProve.SplitLayer
