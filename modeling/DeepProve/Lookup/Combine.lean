import DeepProve.Lookup.LayoutSplit

/-!
# The combination of chunk evaluations

The combination of chunks is an affine function of them, so it takes the values of the chunk
polynomials at a point to the value of the polynomial that was decomposed, as long as its values
are in the range that the chunks can hold.
-/

namespace DeepProve

namespace ChunkingInfo

section Combine

variable {F : Type} [Field F] [DecidableEq F] {self : ChunkingInfo}

/-- The combination of chunks is an affine function of them. -/
theorem combineInputClaims_affine (self : ChunkingInfo)
    (hne : ((self.shiftedChunkMultiplier : Int) : F) ≠ 0) :
    ∃ (a b c : Nat → F) (d : F), ∀ shifted values zeroing : Nat → F,
      self.combineInputClaims ((List.range self.numberOfShiftedChunks).map shifted)
          ((List.range self.numberOfValueChunks).map values)
          ((List.range self.numberOfZeroingChunks).map zeroing) =
        .ok (∑ j ∈ Finset.range self.numberOfShiftedChunks, a j * shifted j +
          ∑ j ∈ Finset.range self.numberOfValueChunks, b j * values j +
          ∑ j ∈ Finset.range self.numberOfZeroingChunks, c j * zeroing j + d) := by
  have hshifted : ∃ a : Nat → F, ∀ f : Nat → F, ∀ j < self.numberOfShiftedChunks, ∀ acc : F,
      self.combineShifted acc (f j, j) = .ok (acc + a j * f j) := by
    refine ⟨fun j => if self.isFullShiftedChunk j then 2 ^ (j * shiftCheckTableBitSize) else
      ((self.shiftedChunkMultiplier : Int) : F)⁻¹ * 2 ^ (j * shiftCheckTableBitSize), ?_⟩
    intro f j _ acc
    unfold combineShifted
    by_cases hfull : self.isFullShiftedChunk j
    · simp only [if_pos hfull, mul_comm]
    · simp only [if_neg hfull, inverseOf, if_neg hne, Outcome.ok_bind]
      congr 1
      ring
  have hvalue : ∃ b b' : Nat → F, ∀ f : Nat → F, ∀ j < self.numberOfValueChunks, ∀ acc : F,
      self.combineValue acc (f j, j) = acc + (b j * f j + b' j) := by
    unfold combineValue
    cases self.table.tableSign with
    | mixed =>
      refine ⟨fun j => 2 ^ (j * self.valueChunkSize), fun j =>
        ((self.valueChunkOffset : Int) : F) * 2 ^ (j * self.valueChunkSize), fun f j _ acc => ?_⟩
      dsimp only
      ring
    | positive =>
      refine ⟨fun j => 2 ^ (j * self.valueChunkSize), fun j => 0, fun f j _ acc => ?_⟩
      dsimp only
      ring
    | negative =>
      refine ⟨fun j => -2 ^ (j * self.valueChunkSize), fun j => 0, fun f j _ acc => ?_⟩
      dsimp only
      ring
  have hzeroing : ∃ c c' : Nat → F, ∀ f : Nat → F, ∀ j < self.numberOfZeroingChunks, ∀ acc : F,
      self.combineZeroing acc (f j, j) = acc + (c j * f j + c' j) := by
    refine ⟨fun j => 2 ^ (self.valueChunkSize * self.numberOfValueChunks + self.rightShift +
      j * zeroCheckTableBitSize), fun j => if self.isPlainZeroingChunk j then 0 else
        ((self.topZeroingChunkOffset : Int) : F) * 2 ^ (self.valueChunkSize *
          self.numberOfValueChunks + self.rightShift + j * zeroCheckTableBitSize), ?_⟩
    intro f j _ acc
    unfold combineZeroing
    by_cases hplain : self.isPlainZeroingChunk j
    · simp only [if_pos hplain]
      ring
    · simp only [if_neg hplain]
      ring
  obtain ⟨a, ha⟩ := hshifted
  obtain ⟨b, b', hb⟩ := hvalue
  obtain ⟨c, c', hc⟩ := hzeroing
  -- the loops, before the sign is undone
  have hloops : ∀ shifted values zeroing : Nat → F, ∃ total,
      total = ∑ j ∈ Finset.range self.numberOfShiftedChunks, a j * shifted j +
        (∑ j ∈ Finset.range self.numberOfValueChunks, b j * values j +
          ∑ j ∈ Finset.range self.numberOfValueChunks, b' j) * 2 ^ self.rightShift +
        (∑ j ∈ Finset.range self.numberOfZeroingChunks, c j * zeroing j +
          ∑ j ∈ Finset.range self.numberOfZeroingChunks, c' j) ∧
      self.combineInputClaims ((List.range self.numberOfShiftedChunks).map shifted)
          ((List.range self.numberOfValueChunks).map values)
          ((List.range self.numberOfZeroingChunks).map zeroing) =
        .ok (if self.table.tableSign = .mixed then total - ((self.offset : Int) : F)
          else if self.table.tableSign = .positive then total
          else -total) := by
    intro shifted values zeroing
    refine ⟨_, rfl, ?_⟩
    unfold combineInputClaims
    rw [zipIdx_map_range, foldlM_map_range (ha shifted), zipIdx_map_range,
      foldl_map_range (hb values), Outcome.ok_bind]
    dsimp only
    rw [zipIdx_map_range, foldl_map_range (hc zeroing), zero_add, zero_add,
      Finset.sum_add_distrib, Finset.sum_add_distrib]
    cases self.table.tableSign <;> rfl
  have hscale : ∀ (s : F) (e f : Nat → F) (n : Nat),
      ∑ j ∈ Finset.range n, s * e j * f j = s * ∑ j ∈ Finset.range n, e j * f j := by
    intro s e f n
    rw [Finset.mul_sum]
    exact Finset.sum_congr rfl fun j _ => mul_assoc _ _ _
  generalize ∑ j ∈ Finset.range self.numberOfValueChunks, b' j = valueConst at hloops
  generalize ∑ j ∈ Finset.range self.numberOfZeroingChunks, c' j = zeroingConst at hloops
  generalize (2 : F) ^ self.rightShift = shift at hloops
  cases hsign : self.table.tableSign with
  | mixed =>
    refine ⟨a, fun j => shift * b j, c,
      valueConst * shift + zeroingConst - ((self.offset : Int) : F), fun shifted values zeroing => ?_⟩
    obtain ⟨total, htotal, hloop⟩ := hloops shifted values zeroing
    rw [hloop, hsign, if_pos rfl, htotal, hscale]
    congr 1
    ring
  | positive =>
    refine ⟨a, fun j => shift * b j, c, valueConst * shift + zeroingConst,
      fun shifted values zeroing => ?_⟩
    obtain ⟨total, htotal, hloop⟩ := hloops shifted values zeroing
    rw [hloop, hsign, if_neg (by decide), if_pos rfl, htotal, hscale]
    congr 1
    ring
  | negative =>
    refine ⟨fun j => -1 * a j, fun j => -shift * b j, fun j => -1 * c j,
      -(valueConst * shift + zeroingConst), fun shifted values zeroing => ?_⟩
    obtain ⟨total, htotal, hloop⟩ := hloops shifted values zeroing
    rw [hloop, hsign, if_neg (by decide), if_neg (by decide), htotal, hscale, hscale, hscale]
    congr 1
    ring

variable {rs : Nat} {tt : Table} {m nv : Nat}

/-- The combination of the values of chunk polynomials is the value of the combined polynomial. -/
theorem combineInputClaims_eval (hself : self.IsNew rs tt m nv) (h2 : (2 : F) ≠ 0)
    (value : Nat → Int) (z : List F) :
    self.combineInputClaims
        ((List.range self.numberOfShiftedChunks).map fun k =>
          Multilinear.eval (fun i => ((self.shiftedChunk (value i) k : Int) : F)) z)
        ((List.range self.numberOfValueChunks).map fun k =>
          Multilinear.eval (fun i => ((self.valueChunk (value i) k : Int) : F)) z)
        ((List.range self.numberOfZeroingChunks).map fun k =>
          Multilinear.eval (fun i => ((self.zeroingChunk (value i) k : Int) : F)) z) =
      .ok (Multilinear.eval (fun i => ((self.signedValue (self.offsetValue (value i) %
        2 ^ (rs + tt.tableBitSize * nv + 16 * self.numberOfZeroingChunks)) : Int) : F)) z) := by
  obtain ⟨a, b, c, d, haffine⟩ :=
    combineInputClaims_affine self (hself.shiftedChunkMultiplier_ne_zero h2)
  have hvalue : ∀ i, ((self.signedValue (self.offsetValue (value i) %
      2 ^ (rs + tt.tableBitSize * nv + 16 * self.numberOfZeroingChunks)) : Int) : F) =
        ∑ j ∈ Finset.range self.numberOfShiftedChunks,
            a j * ((self.shiftedChunk (value i) j : Int) : F) +
          ∑ j ∈ Finset.range self.numberOfValueChunks,
            b j * ((self.valueChunk (value i) j : Int) : F) +
          ∑ j ∈ Finset.range self.numberOfZeroingChunks,
            c j * ((self.zeroingChunk (value i) j : Int) : F) + d := by
    intro i
    have hchunks := hself.combineInputClaims_chunks h2 (value i)
    rw [haffine] at hchunks
    exact (Except.ok.inj hchunks).symm
  simp only [haffine, hvalue, Multilinear.eval_add, Multilinear.eval_sum, Multilinear.eval_mul_left,
    Multilinear.eval_const]

end Combine

/-! ## The values that are covered -/

section Range

variable (self : ChunkingInfo)

/-- The number of bits of all chunks. -/
def chunkBits : Nat :=
  self.rightShift + self.valueChunkSize * self.numberOfValueChunks +
    zeroCheckTableBitSize * self.numberOfZeroingChunks

/-- The `i64`s that the chunks can hold: with its offset or without its sign such a value fits
    into the bits of the chunks. The sum with the offset wraps as an `i64`. -/
def DecompositionRange (value : Int) : Prop :=
  (-2 ^ 63 ≤ value ∧ value < 2 ^ 63) ∧
  match self.table.tableSign with
  | .mixed => 0 ≤ value + self.offset ∧ value + self.offset < 2 ^ self.chunkBits ∧
      (64 < self.chunkBits → value + self.offset < 2 ^ 63)
  | .positive => 0 ≤ value ∧ value < 2 ^ self.chunkBits
  | .negative => -2 ^ self.chunkBits < value ∧ value ≤ 0

variable {self} {value : Int}

/-- A value in the range is what its chunks hold. -/
theorem signedValue_of_range (h : self.DecompositionRange value) :
    self.signedValue (self.offsetValue value % 2 ^ self.chunkBits) = value := by
  have h := h.2
  unfold signedValue offsetValue
  cases hsign : self.table.tableSign with
  | mixed =>
    simp only [hsign] at h ⊢
    obtain ⟨h0, hlt, h63⟩ := h
    have hwrap : wrapI64 (value + self.offset) % 2 ^ self.chunkBits = value + self.offset := by
      rcases Nat.lt_or_ge 64 self.chunkBits with hbig | hsmall
      · rw [wrapI64_of_lt h0 (h63 hbig), Int.emod_eq_of_lt h0 hlt]
      · rw [wrapI64_emod _ hsmall, Int.emod_eq_of_lt h0 hlt]
    rw [hwrap, add_sub_cancel_right]
  | positive =>
    simp only [hsign] at h ⊢
    exact Int.emod_eq_of_lt h.1 h.2
  | negative =>
    simp only [hsign] at h ⊢
    obtain ⟨hlow, hhigh⟩ := h
    rw [Int.emod_eq_of_lt (by omega) (by omega), neg_neg]

variable {rs : Nat} {tt : Table} {m nv : Nat} {fl : Float32Ops} {output : Int}

/-- In a table with one column a value chunk is its own output. -/
theorem lookup_valueChunk_of_oneColumn (hself : self.IsNew rs tt m nv) (hone : tt.numColumns = 1)
    {k : Nat} (h : tt.lookup fl (self.valueChunk value k) = .ok output) :
    output = self.valueChunk value k := by
  have hop : tt.operation = .requantise ∨ tt.operation = .shiftCheck := by
    unfold Table.numColumns at hone
    cases hop : tt.operation with
    | requantise => exact .inl rfl
    | shiftCheck => exact .inr rfl
    | exp | geLU | reLU | siLU | signedZeroCheck | zeroCheck =>
      rw [hop] at hone
      cases hone
  unfold Table.lookup at h
  rcases hop with hop | hop
  · -- no clamping in the range of the table
    have h0 := Digits.digit_nonneg (fun _ => self.valueChunkSize) (self.shiftedValue value) k
    have hlt : Digits.digit (fun _ => self.valueChunkSize) (self.shiftedValue value) k <
        2 ^ tt.tableBitSize := by
      rw [← hself.valueChunkSize]
      exact Digits.digit_lt (fun _ => self.valueChunkSize) _ _
    have hdouble : (2 : Int) ^ tt.tableBitSize ≤ 2 * 2 ^ (tt.tableBitSize - 1) := by
      rcases Nat.eq_zero_or_pos tt.tableBitSize with hzero | hpos
      · rw [hzero]
        decide
      · rw [two_pow_eq_add hpos]
        omega
    have hsign : tt.tableSign = .mixed := by
      unfold Table.tableSign
      rw [hop]
      rfl
    have hsign' : tt.operation.inputSign = .mixed := hsign
    simp only [hop, TableType.applyOp, Except.ok.injEq] at h
    rw [← h]
    unfold clamp Table.minInputValue Table.maxInputValue valueChunk storeValueChunk
    simp only [hsign', hself.table, hsign, hself.valueChunkOffset hsign]
    rw [if_neg (by omega), if_neg (by omega)]
  · simp only [hop, TableType.applyOp, TableType.applyInRange, Outcome.bind_eq_ok] at h
    obtain ⟨_, _, hok⟩ := h
    exact (Except.ok.inj hok).symm

end Range

end ChunkingInfo

/-! ## The evaluations of a block -/

section Block

variable {F : Type} [Field F]

/-- The value of the polynomial of a column. -/
def columnEval (z : List F) (column : List F) : F :=
  Multilinear.eval (fun i => column.getD i 0) z

theorem columnEval_toField {z : List F} {value : Nat → Int} {f : Int → Int} :
    columnEval z (toField F (((List.range (2 ^ z.length)).map value).map f)) =
      Multilinear.eval (fun i => ((f (value i) : Int) : F)) z := by
  apply Multilinear.eval_congr
  intro i hi
  simp [toField, hi]

variable [DecidableEq F] {fl : Float32Ops} {info : ChunkingInfo} {rs : Nat} {tt : Table} {m nv : Nat}

omit [Field F] [DecidableEq F] in
theorem eq_of_mapM_eq_ok {α : Type} {f : α → Outcome α} {l r : List α}
    (hf : ∀ a ∈ l, ∀ b, f a = .ok b → b = a) (h : l.mapM f = .ok r) : r = l := by
  induction l generalizing r with
  | nil => exact (Except.ok.inj h).symm
  | cons a l ih =>
    obtain ⟨ha, hl⟩ := List.forall_mem_cons.mp hf
    simp only [List.mapM_cons, Outcome.bind_eq_ok] at h
    obtain ⟨b, hb, bs, hbs, hr⟩ := h
    rw [← Except.ok.inj hr, ha b hb, ih hl hbs]

/-- The values of the columns of a block combine to the value of the block. -/
theorem combine_blockColumns {chunkedOutput : ChunkedOutput} {value : Nat → Int} {z : List F}
    (hself : info.IsNew rs tt m nv) (h2 : (2 : F) ≠ 0)
    (hrange : ∀ i < 2 ^ z.length, info.DecompositionRange (value i))
    (houtput : info.tableOutput fl
      (info.decomposeInput ((List.range (2 ^ z.length)).map value)) tt = .ok chunkedOutput) :
    ∃ evals, splitChunkEvals info ((blockColumns info
        (info.decomposeInput ((List.range (2 ^ z.length)).map value)) chunkedOutput).toList.map
          fun column => columnEval z (toField F column)) = .ok evals ∧
      evals.combine info = .ok (Multilinear.eval (fun i => ((value i : Int) : F)) z) := by
  have hfits := blockFits_of_tableOutput houtput
  refine ⟨_, splitChunkEvals_blockColumns hfits _, ?_⟩
  -- with one column the values are read off the outputs
  have hvalues : (if info.table.numColumns = 1 then chunkedOutput.valueChunkOutputs else
      (info.decomposeInput ((List.range (2 ^ z.length)).map value)).valueChunks) =
        (info.decomposeInput ((List.range (2 ^ z.length)).map value)).valueChunks := by
    split
    · next hone =>
      have hone : tt.numColumns = 1 := by rw [← hself.table, hone]
      have hcount : (info.decomposeInput ((List.range (2 ^ z.length)).map value)).zeroingChunks.length =
          info.numberOfZeroingChunks := hfits.zeroing
      apply eq_of_mapM_eq_ok _ (tableOutput_eq_ok hcount houtput).1
      intro chunk hchunk outputs houtputs
      rw [ChunkingInfo.decomposeInput_eq] at hchunk
      obtain ⟨k, _, rfl⟩ := List.mem_map.mp hchunk
      apply eq_of_mapM_eq_ok _ houtputs
      intro x hx output hlookup
      obtain ⟨v, _, rfl⟩ := List.mem_map.mp hx
      exact ChunkingInfo.lookup_valueChunk_of_oneColumn hself hone hlookup
    · rfl
  have hbits : rs + tt.tableBitSize * nv + 16 * info.numberOfZeroingChunks = info.chunkBits := by
    unfold ChunkingInfo.chunkBits
    rw [hself.rightShift, hself.valueChunkSize, hself.numberOfValueChunks]
  rw [hvalues, ChunkingInfo.decomposeInput_eq]
  have hvalue : ∀ i < 2 ^ z.length, ((info.signedValue (info.offsetValue (value i) %
      2 ^ (rs + tt.tableBitSize * nv + 16 * info.numberOfZeroingChunks)) : Int) : F) =
        ((value i : Int) : F) := by
    intro i hi
    rw [hbits, ChunkingInfo.signedValue_of_range (hrange i hi)]
  rw [← Multilinear.eval_congr hvalue, ← ChunkingInfo.combineInputClaims_eval hself h2 value z]
  have hcolumns : ∀ (chunk : Int → Nat → Int) (n : Nat),
      ((List.range n).map fun k =>
          ((List.range (2 ^ z.length)).map value).map fun v => chunk v k).map
        (fun column => columnEval z (toField F column)) =
      (List.range n).map fun k => Multilinear.eval (fun i => ((chunk (value i) k : Int) : F)) z := by
    intro chunk n
    rw [List.map_map]
    exact List.map_congr_left fun k _ => columnEval_toField
  unfold ChunkEvals.combine
  simp only [hcolumns]

end Block

end DeepProve
