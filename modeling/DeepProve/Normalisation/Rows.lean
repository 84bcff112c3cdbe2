import DeepProve.Lookup.ErrorBound
import DeepProve.Lookup.OutputExpression
import DeepProve.Normalisation.Verify

/-!
# The rows of a normalisation

What the verifier of a normalisation layer enforces of one row: the entries of the input are
multiplied by a value that the prover commits to, and a shift is taken off; the result is decomposed
into chunks, and the output is looked up. Nothing bounds the multiplier itself, which may be
negative.
-/

namespace DeepProve

/-- Expressions over the rationals, where integers do not wrap around. -/
abbrev exactCrypto : DpCrypto ℚ := plainCrypto fun _ => (0 : ℚ)

/-- The chunks that the prover commits to for one entry of a row. -/
structure CommittedEntry where
  shifted : List Int
  value : Int
  zeroing : List Int

namespace CommittedEntry

/-- The chunks are in their tables, and they combine to the value. -/
structure Decomposes (entry : CommittedEntry) (info : ChunkingInfo) (x : Int) : Prop where
  length_shifted : entry.shifted.length = info.numberOfShiftedChunks
  length_zeroing : entry.zeroing.length = info.numberOfZeroingChunks
  shifted_inRange : ∀ chunk ∈ entry.shifted, Table.newShiftCheck.InRange chunk
  value_inRange : info.table.InRange entry.value
  zeroing_inRange : ∀ (i : Nat) (chunk : Int), entry.zeroing[i]? = some chunk →
    (info.zeroingTable i).InRange chunk
  combined : info.combineInputClaims (entry.shifted.map fun chunk : Int => (chunk : ℚ))
    [(entry.value : ℚ)] (entry.zeroing.map fun chunk : Int => (chunk : ℚ)) = .ok (x : ℚ)

/-- The output is the value of the expression at what the chunks are looked up to. -/
def Outputs (self : CommittedEntry) (info : ChunkingInfo) (fl : Float32Ops)
    (variant : LookupVariant) (y : Int) : Prop :=
  ∃ valueOutput zeroingOutputs e,
    info.table.lookup fl self.value = .ok valueOutput ∧
    (self.zeroing.zipIdx.mapM fun (chunk, i) => (info.zeroingTable i).lookup fl chunk) =
      .ok zeroingOutputs ∧
    variant.buildLookupOutputExpressions exactCrypto fl 0 info = .ok e ∧
    exactCrypto.eval ((valueOutput :: zeroingOutputs).map fun output : Int => (output : ℚ)) []
      (e.prodExpression exactCrypto) = .ok (y : ℚ)

end CommittedEntry

/-- What the relations of a row depend on. -/
structure NormalisationRows where
  lookupOp : LookupOp
  table : Table
  /-- The length of a row. -/
  dimSize : Nat
  /-- A mean is taken off the rows. -/
  centred : Bool
  valueChunks_eq : lookupOp.valueChunks = 1
  maxBitSize_le : lookupOp.maxBitSize ≤ 80
  operation_eq : table.operation = .requantise
  tableBitSize_pos : 1 ≤ table.tableBitSize

def RMSNormCtx.rows (self : RMSNormCtx) (rightShift : Int) : NormalisationRows where
  lookupOp := self.lookupOp rightShift
  table := self.table
  dimSize := self.normalisationDimSize
  centred := false
  valueChunks_eq := rfl
  maxBitSize_le := by
    have := self.inputBitSize_le
    show self.inputBitSize + 1 + 15 ≤ 80
    omega
  operation_eq := rfl
  tableBitSize_pos := Nat.succ_pos _

def LayerNormCtx.rows (self : LayerNormCtx) (rightShift : UInt64) : NormalisationRows where
  lookupOp := self.lookupOp rightShift
  table := self.table
  dimSize := self.normalisationDimSize
  centred := true
  valueChunks_eq := rfl
  maxBitSize_le := by
    have := self.meanBitSize_le
    show self.meanBitSize + 1 + 15 ≤ 80
    omega
  operation_eq := rfl
  tableBitSize_pos := Nat.succ_pos _

namespace NormalisationRows

/-- The value of an entry that is decomposed. -/
def scaled (self : NormalisationRows) (m mu x : Int) : Int :=
  x * m - mu + self.lookupOp.roundingConstant

/-- The relations that the verifier enforces of an input row `x`, its multiplier `m`, its shift `mu`
    and the output row `y`. -/
structure Proves (fl : Float32Ops) (rows : NormalisationRows) (x : List Int) (m mu : Int)
    (y : List Int) : Prop where
  length : x.length = rows.dimSize
  shift : rows.centred = false → mu = 0
  entries : ∃ info, rows.lookupOp.chunkingInfo rows.table = .ok info ∧
    List.Forall₂ (fun xi yi => ∃ entry : CommittedEntry,
      entry.Decomposes info (rows.scaled m mu xi) ∧
        entry.Outputs info fl rows.lookupOp.variant yi) x y
  rowChecks : ∀ check ∈ rows.lookupOp.variant.rowChecks,
    Table.newShiftCheck.InRange (check.moved y)

end NormalisationRows

/-- Larger inputs do not have smaller outputs. -/
def OrderPreserving (x y : List Int) : Prop :=
  ∀ p ∈ x.zip y, ∀ q ∈ x.zip y, p.1 ≤ q.1 → p.2 ≤ q.2

/-- No output has the opposite sign of its input. -/
def SignsKept (x y : List Int) : Prop :=
  ∀ p ∈ x.zip y, ¬ (0 < p.1 ∧ p.2 < 0) ∧ ¬ (p.1 < 0 ∧ 0 < p.2)

/-- The output is fixed up to the error bound: it follows the order of the input, and without a mean
    also its signs. -/
def NormalisationRows.FollowsInput (self : NormalisationRows) (x y : List Int) : Prop :=
  OrderPreserving x y ∧ (self.centred = false → SignsKept x y)

/-! ## What the chunks combine to -/

theorem map_cast_eq_map_range (chunks : List Int) :
    (chunks.map fun chunk : Int => (chunk : ℚ)) =
      (List.range chunks.length).map fun i => ((chunks.getD i 0 : Int) : ℚ) := by
  apply List.ext_getElem
  · simp
  · intro i hi _
    have hlt : i < chunks.length := by simpa using hi
    simp [hlt]

namespace CommittedEntry

variable {info : ChunkingInfo} {rs m : Nat} {tt : Table}

/-- What a shifted chunk adds. -/
def shiftedTerm (info : ChunkingInfo) (chunks : List Int) (i : Nat) : ℚ :=
  (chunks.getD i 0 : Int) * (if info.isFullShiftedChunk i then 1 else
    ((info.shiftedChunkMultiplier : Int) : ℚ)⁻¹) * 2 ^ (i * 16)

/-- The part of a value that is shifted out. -/
def shiftedPart (self : CommittedEntry) (info : ChunkingInfo) : ℚ :=
  ∑ i ∈ Finset.range info.numberOfShiftedChunks, shiftedTerm info self.shifted i

/-- The value of the zeroing chunks, without the offset of the highest one. -/
def zeroingPart (self : CommittedEntry) : Int :=
  ∑ i ∈ Finset.range self.zeroing.length, self.zeroing.getD i 0 * 2 ^ (16 * i)

/-- The part of a value that is left by the shift. -/
def shiftedOut (self : CommittedEntry) (tt : Table) : Int :=
  self.value + 2 ^ tt.tableBitSize * self.zeroingPart

section Combine

variable (hself : info.IsNew rs tt m 1)

include hself

theorem foldlM_combineShifted (self : CommittedEntry)
    (hlength : self.shifted.length = info.numberOfShiftedChunks) :
    (self.shifted.map fun chunk : Int => (chunk : ℚ)).zipIdx.foldlM info.combineShifted 0 =
      .ok (self.shiftedPart info) := by
  have hne : ((info.shiftedChunkMultiplier : Int) : ℚ) ≠ 0 :=
    hself.shiftedChunkMultiplier_ne_zero (by norm_num)
  have hstep : ∀ i < info.numberOfShiftedChunks, ∀ acc : ℚ,
      info.combineShifted acc (((self.shifted.getD i 0 : Int) : ℚ), i) =
        .ok (acc + shiftedTerm info self.shifted i) := by
    intro i _ acc
    unfold ChunkingInfo.combineShifted shiftedTerm
    by_cases hfull : info.isFullShiftedChunk i
    · simp only [if_pos hfull, mul_one]
    · simp only [if_neg hfull, ChunkingInfo.inverseOf, if_neg hne, Outcome.ok_bind]
  rw [map_cast_eq_map_range, hlength, zipIdx_map_range, foldlM_map_range hstep, zero_add]
  rfl

/-- The zeroing chunks, with the offset of the highest one. -/
theorem foldl_combineZeroing (self : CommittedEntry)
    (hlength : self.zeroing.length = info.numberOfZeroingChunks) (init : ℚ) :
    (self.zeroing.map fun chunk : Int => (chunk : ℚ)).zipIdx.foldl info.combineZeroing init =
      init + (self.zeroingPart * 2 ^ (rs + tt.tableBitSize) +
        ∑ i ∈ Finset.range info.numberOfZeroingChunks,
          if info.isPlainZeroingChunk i then 0 else
            (info.topZeroingChunkOffset : ℚ) * 2 ^ (rs + tt.tableBitSize + 16 * i)) := by
  have hstep : ∀ i < info.numberOfZeroingChunks, ∀ acc : ℚ,
      info.combineZeroing acc (((self.zeroing.getD i 0 : Int) : ℚ), i) =
        acc + (((self.zeroing.getD i 0 * 2 ^ (16 * i) : Int) : ℚ) * 2 ^ (rs + tt.tableBitSize) +
          if info.isPlainZeroingChunk i then 0 else
            (info.topZeroingChunkOffset : ℚ) * 2 ^ (rs + tt.tableBitSize + 16 * i)) := by
    intro i _ acc
    unfold ChunkingInfo.combineZeroing
    rw [hself.valueChunkSize, hself.numberOfValueChunks, hself.rightShift, Nat.mul_one,
      Nat.add_comm tt.tableBitSize]
    dsimp only [zeroCheckTableBitSize]
    rw [Nat.mul_comm i]
    by_cases hplain : info.isPlainZeroingChunk i
    · simp only [if_pos hplain]
      push_cast
      ring
    · simp only [if_neg hplain]
      push_cast
      ring
  rw [map_cast_eq_map_range, hlength, zipIdx_map_range, foldl_map_range hstep,
    Finset.sum_add_distrib, ← Finset.sum_mul, ← Int.cast_sum, ← hlength]
  rfl

variable (hsign : tt.tableSign = .mixed) (hbits : 1 ≤ tt.tableBitSize)

include hsign hbits

/-- The offsets of the chunks cancel with that of the value. -/
theorem sum_topOffset :
    (2 : ℚ) ^ (tt.tableBitSize - 1) * 2 ^ rs + ∑ i ∈ Finset.range info.numberOfZeroingChunks,
      (if info.isPlainZeroingChunk i then 0 else
        (info.topZeroingChunkOffset : ℚ) * 2 ^ (rs + tt.tableBitSize + 16 * i)) =
      ((info.offset : Int) : ℚ) := by
  have hbits' : 1 ≤ tt.tableBitSize * 1 := by omega
  have hvalue : (2 : ℚ) ^ (tt.tableBitSize - 1) * 2 ^ rs =
      2 ^ (rs + tt.tableBitSize * 1 - 1) := by
    rw [← pow_add]
    congr 1
    omega
  rw [hvalue, hself.offset]
  by_cases hlt : rs + tt.tableBitSize * 1 < m
  · obtain ⟨top, htop, hK, hoffset⟩ := hself.topZeroingChunkOffset_eq hsign hbits' hlt
    have hplain : ∀ i < top, info.isPlainZeroingChunk i := fun i hi => .inl (by omega)
    have htop' := hself.not_isPlainZeroingChunk hsign htop
    have hlower : ∑ i ∈ Finset.range top, (if info.isPlainZeroingChunk i then 0 else
        (info.topZeroingChunkOffset : ℚ) * 2 ^ (rs + tt.tableBitSize + 16 * i)) = 0 :=
      Finset.sum_eq_zero fun i hi => if_pos (hplain i (Finset.mem_range.mp hi))
    rw [htop, Finset.sum_range_succ, hlower, if_neg htop', hoffset,
      ChunkingInfo.offsetFor_of_lt hsign hbits' hlt]
    push_cast
    rw [zero_add, ← pow_add, add_comm]
    congr 2
    omega
  · have hzero : info.numberOfZeroingChunks = 0 := by
      rw [hself.numberOfZeroingChunks]
      omega
    rw [hzero, Finset.range_zero, Finset.sum_empty, add_zero,
      ChunkingInfo.offsetFor_of_le hsign hbits' (by omega)]
    push_cast
    rfl

/-- The chunks combine to the part that is shifted out and the part that is left. -/
theorem combineInputClaims_eq (self : CommittedEntry)
    (hshifted : self.shifted.length = info.numberOfShiftedChunks)
    (hzeroing : self.zeroing.length = info.numberOfZeroingChunks) :
    info.combineInputClaims (self.shifted.map fun chunk : Int => (chunk : ℚ)) [(self.value : ℚ)]
        (self.zeroing.map fun chunk : Int => (chunk : ℚ)) =
      .ok (self.shiftedPart info + (self.shiftedOut tt : Int) * 2 ^ rs) := by
  have hoffset := hself.valueChunkOffset hsign
  have htop := sum_topOffset hself hsign hbits
  have hvalue : [(self.value : ℚ)].zipIdx.foldl info.combineValue 0 =
      self.value + 2 ^ (tt.tableBitSize - 1) := by
    simp only [List.zipIdx_cons, List.zipIdx_nil, List.foldl_cons, List.foldl_nil,
      ChunkingInfo.combineValue, hself.table, hsign, hoffset]
    push_cast
    ring
  unfold ChunkingInfo.combineInputClaims
  rw [foldlM_combineShifted hself self hshifted, Outcome.ok_bind, hvalue, hself.table]
  dsimp only
  rw [foldl_combineZeroing hself self hzeroing, hsign, hself.rightShift]
  simp only [Except.ok.injEq, shiftedOut]
  push_cast
  rw [pow_add]
  linarith

end Combine

/-! ### The part that is shifted out -/

theorem getD_of_shifted_inRange {chunks : List Int}
    (h : ∀ chunk ∈ chunks, Table.newShiftCheck.InRange chunk) (i : Nat) :
    0 ≤ chunks.getD i 0 ∧ chunks.getD i 0 < 2 ^ 16 := by
  rw [List.getD_eq_getElem?_getD]
  cases hchunk : chunks[i]? with
  | none => exact ⟨le_refl 0, by decide⟩
  | some chunk =>
    obtain ⟨h0, hle⟩ := LookupVariant.inRange_newShiftCheck.mp
      (h chunk (List.mem_of_getElem? hchunk))
    exact ⟨h0, Int.lt_of_le_sub_one hle⟩

variable (hself : info.IsNew rs tt m 1)

include hself

theorem shiftedPart_nonneg {self : CommittedEntry}
    (h : ∀ chunk ∈ self.shifted, Table.newShiftCheck.InRange chunk) :
    0 ≤ self.shiftedPart info := by
  have hmul := hself.shiftedChunkMultiplier
  refine Finset.sum_nonneg fun i _ => ?_
  have hchunk : (0 : ℚ) ≤ ((self.shifted.getD i 0 : Int) : ℚ) :=
    mod_cast (getD_of_shifted_inRange h i).1
  have hpos : (0 : ℚ) ≤ if info.isFullShiftedChunk i then 1 else
      ((info.shiftedChunkMultiplier : Int) : ℚ)⁻¹ := by
    rw [hmul]
    split
    · exact zero_le_one
    · split <;> positivity
  exact mul_nonneg (mul_nonneg hchunk hpos) (by positivity)

/-- The last shifted chunk does not overlap the others. -/
def EvenShift (rs : Nat) : Prop := rs ≤ 16 ∨ 16 ∣ rs

theorem shiftedPart_lt {self : CommittedEntry} (heven : EvenShift rs)
    (h : ∀ chunk ∈ self.shifted, Table.newShiftCheck.InRange chunk) :
    self.shiftedPart info < 2 ^ rs := by
  have hpos := hself.rightShift_pos
  have hcount := hself.numberOfShiftedChunks
  have hchunk := getD_of_shifted_inRange h
  by_cases hdvd : 16 ∣ rs
  · -- all chunks are full
    have hterm : ∀ i, shiftedTerm info self.shifted i =
        ((self.shifted.getD i 0 * 2 ^ (16 * i) : Int) : ℚ) := by
      intro i
      have hfull : info.isFullShiftedChunk i := by
        right
        rw [hself.rightShift]
        exact Nat.mod_eq_zero_of_dvd hdvd
      rw [shiftedTerm, if_pos hfull, mul_one, Nat.mul_comm i]
      push_cast
      rfl
    have hlt := @Digits.sum_lt _ 16 info.numberOfShiftedChunks fun i _ => hchunk i
    rw [show 16 * info.numberOfShiftedChunks = rs by omega] at hlt
    rw [shiftedPart, Finset.sum_congr rfl fun i _ => hterm i, ← Int.cast_sum]
    exact_mod_cast hlt
  · -- the only chunk has the bits that are shifted out at its upper end
    have hle : rs ≤ 16 := heven.resolve_right hdvd
    have hne : rs % 16 ≠ 0 := fun hzero => hdvd (Nat.dvd_of_mod_eq_zero hzero)
    have hfull : ¬ info.isFullShiftedChunk 0 := by
      rintro (hne' | hzero)
      · omega
      · rw [hself.rightShift] at hzero
        exact hne hzero
    have hsplit : (2 : ℚ) ^ 16 = 2 ^ (16 - rs % 16) * 2 ^ rs := by
      rw [← pow_add]
      congr 1
      omega
    have hlt : ((self.shifted.getD 0 0 : Int) : ℚ) < 2 ^ (16 - rs % 16) * 2 ^ rs := by
      rw [← hsplit]
      exact_mod_cast (hchunk 0).2
    rw [shiftedPart, show info.numberOfShiftedChunks = 1 by omega, Finset.sum_range_one, shiftedTerm,
      if_neg hfull, hself.shiftedChunkMultiplier, if_pos hne]
    push_cast
    rw [pow_zero, mul_one, ← div_eq_mul_inv, div_lt_iff₀ (by positivity), mul_comm]
    exact hlt

omit hself in
theorem clamp_shiftedOut {value q : Int} {t : Nat} (ht : 1 ≤ t) (hmin : -2 ^ (t - 1) ≤ value)
    (hmax : value ≤ 2 ^ (t - 1) - 1) :
    clamp (value + 2 ^ t * q) (-2 ^ (t - 1)) (2 ^ (t - 1) - 1) =
      if q = 0 then value else if 0 < q then 2 ^ (t - 1) - 1 else -2 ^ (t - 1) := by
  have hdouble : (2 : Int) ^ t = 2 ^ (t - 1) + 2 ^ (t - 1) := ChunkingInfo.two_pow_eq_add ht
  have hpow := Digits.two_pow_pos t
  unfold clamp
  rcases lt_trichotomy q 0 with hneg | hzero | hpos
  · have hmul : (2 : Int) ^ t * q ≤ 2 ^ t * (-1) := mul_le_mul_of_nonneg_left (by omega) hpow.le
    rw [if_pos (by omega), if_neg hneg.ne, if_neg hneg.not_gt]
  · rw [hzero, mul_zero, add_zero, if_neg (by omega), if_neg (by omega), if_pos rfl]
  · have hmul : (2 : Int) ^ t * 1 ≤ 2 ^ t * q := mul_le_mul_of_nonneg_left (by omega) hpow.le
    rw [if_neg (by omega), if_pos (by omega), if_neg hpos.ne', if_pos hpos]

/-! ### The output -/

/-- What a zeroing chunk is looked up to. -/
def zeroingOutput (self : CommittedEntry) (info : ChunkingInfo) (i : Nat) : Int :=
  if info.isPlainZeroingChunk i then if self.zeroing.getD i 0 = 0 then 1 else 0
  else (self.zeroing.getD i 0).sign

omit hself in
/-- The outputs of the zeroing chunks. -/
theorem exists_zeroingOutputs {self : CommittedEntry} {fl : Float32Ops} {x : Int}
    (hdecomposes : self.Decomposes info x) :
    ∃ zeroingOutputs : List Int,
      (self.zeroing.zipIdx.mapM fun (chunk, i) => (info.zeroingTable i).lookup fl chunk) =
        .ok zeroingOutputs ∧
      ∀ i < info.numberOfZeroingChunks,
        zeroingOutputs[i]? = some (self.zeroingOutput info i) := by
  have hall : ∀ entry ∈ self.zeroing.zipIdx, (info.zeroingTable entry.2).lookup fl entry.1 =
      .ok (if info.isPlainZeroingChunk entry.2 then if entry.1 = 0 then 1 else 0
        else entry.1.sign) := by
    intro entry hentry
    have hchunk := List.mk_mem_zipIdx_iff_getElem?.mp hentry
    exact ChunkingInfo.lookup_zeroingTable_of_inRange
      (hdecomposes.zeroing_inRange entry.2 entry.1 hchunk)
  refine ⟨_, Outcome.mapM_eq_ok_map hall, fun i hi => ?_⟩
  have hlt : i < self.zeroing.length := by
    rw [hdecomposes.length_zeroing]
    exact hi
  simp [zeroingOutput, hlt]

section Outputs

variable {self : CommittedEntry} {fl : Float32Ops} {variant : LookupVariant} {x y : Int}
  (hsign : tt.tableSign = .mixed) (hdecomposes : self.Decomposes info x)

include hsign hdecomposes

/-- What the zeroing chunks are, below the highest one and in the highest one. -/
theorem zeroingPart_split {top : Nat} (htop : info.numberOfZeroingChunks = top + 1) :
    (∀ i < top, info.isPlainZeroingChunk i) ∧ ¬ info.isPlainZeroingChunk top ∧
      (self.zeroingPart % 2 ^ (16 * top) = 0 ↔ ∀ i < top, self.zeroing.getD i 0 = 0) ∧
      self.zeroingPart / 2 ^ (16 * top) = self.zeroing.getD top 0 := by
  have hplain : ∀ i < top, info.isPlainZeroingChunk i := fun i hi => .inl (by omega)
  have htop' := hself.not_isPlainZeroingChunk hsign htop
  have hdigit : ∀ i < top, 0 ≤ self.zeroing.getD i 0 ∧ self.zeroing.getD i 0 < 2 ^ 16 := by
    intro i hi
    have hlt : i < self.zeroing.length := by
      rw [hdecomposes.length_zeroing]
      omega
    have hrange := hdecomposes.zeroing_inRange i _ (List.getElem?_eq_getElem hlt)
    rw [ChunkingInfo.zeroingTable, if_pos (hplain i hi)] at hrange
    rw [List.getD_eq_getElem?_getD, List.getElem?_eq_getElem hlt, Option.getD_some]
    exact ⟨hrange.1, Int.lt_of_le_sub_one hrange.2⟩
  have hsum : self.zeroingPart = self.zeroing.getD top 0 * 2 ^ (16 * top) +
      ∑ i ∈ Finset.range top, self.zeroing.getD i 0 * 2 ^ (16 * i) := by
    rw [zeroingPart, hdecomposes.length_zeroing, htop, Finset.sum_range_succ, add_comm]
  have hlt := Digits.sum_lt hdigit
  have h0 := Digits.sum_nonneg hdigit
  refine ⟨hplain, htop', ?_, Digits.ediv_two_pow_eq hsum h0 hlt⟩
  rw [hsum, Int.add_comm, Int.add_mul_emod_self_right, Int.emod_eq_of_lt h0 hlt,
    Digits.sum_eq_zero_iff hdigit]

/-- The outputs of the zeroing chunks select the value or an end of the range. -/
theorem clampedValue_zeroingOutput {top : Nat} (htop : info.numberOfZeroingChunks = top + 1)
    (value clampingMin clampingMax : ℚ) :
    clampedValue (∏ i ∈ Finset.range top, ((self.zeroingOutput info i : Int) : ℚ))
        (self.zeroingOutput info top : Int) value clampingMin clampingMax =
      if self.zeroingPart = 0 then value else
        if 0 < self.zeroingPart then clampingMax else clampingMin := by
  obtain ⟨hplain, hnotPlain, hlower, hhigh⟩ := zeroingPart_split hself hsign hdecomposes htop
  have hprod : ∏ i ∈ Finset.range top, ((self.zeroingOutput info i : Int) : ℚ) =
      if self.zeroingPart % 2 ^ (16 * top) = 0 then 1 else 0 := by
    by_cases hall : ∀ i < top, self.zeroing.getD i 0 = 0
    · rw [if_pos (hlower.mpr hall)]
      refine Finset.prod_eq_one fun i hi => ?_
      have hlt := Finset.mem_range.mp hi
      rw [zeroingOutput, if_pos (hplain i hlt), if_pos (hall i hlt), Int.cast_one]
    · rw [if_neg fun h => hall (hlower.mp h)]
      obtain ⟨i, hi⟩ := not_forall.mp hall
      obtain ⟨hlt, hne⟩ := Classical.not_imp.mp hi
      refine Finset.prod_eq_zero (Finset.mem_range.mpr hlt) ?_
      rw [zeroingOutput, if_pos (hplain i hlt), if_neg hne, Int.cast_zero]
  have htopOutput : ((self.zeroingOutput info top : Int) : ℚ) =
      ((self.zeroingPart / 2 ^ (16 * top)).sign : Int) := by
    rw [hhigh, zeroingOutput, if_neg hnotPlain]
  exact clampedValue_of_excess (by norm_num) hprod htopOutput

variable (hop : tt.operation = .requantise) (hbits : 1 ≤ tt.tableBitSize)
  (hcount : info.numberOfZeroingChunks < 2 ^ 15)

include hop hbits hcount

/-- The output is the part of the value that is left, clamped to the range of the table. -/
theorem outputs_clamp :
    self.Outputs info fl variant (clamp (self.shiftedOut tt) tt.minInputValue tt.maxInputValue) := by
  have htable := hself.table
  have hrange : tt.InRange self.value := htable ▸ hdecomposes.value_inRange
  have hvalue : info.table.lookup fl self.value = .ok self.value := by
    rw [htable]
    exact Table.lookup_requantise fl hop hrange
  obtain ⟨zeroingOutputs, hzeroing, hentries⟩ := @exists_zeroingOutputs _ _ fl _ hdecomposes
  -- the witnesses are the value, then the outputs of the zeroing chunks
  have hone : info.numberOfValueChunks = 1 := hself.numberOfValueChunks
  have hfirst : (ValueExpression.new exactCrypto info (UInt16.ofNat 0)).witnessOffset = 1 := by
    unfold ValueExpression.new
    rw [if_pos hone]
    rfl
  have hvalueEval : exactCrypto.eval
      ((self.value :: zeroingOutputs).map fun output : Int => (output : ℚ)) []
      (ValueExpression.new exactCrypto info (UInt16.ofNat 0)).value = .ok (self.value : ℚ) := by
    unfold ValueExpression.new
    rw [if_pos hone]
    exact (plainCrypto_lawful _).witIn _ _ _ _ rfl
  have hz : ∀ i < info.numberOfZeroingChunks,
      ((self.value :: zeroingOutputs).map fun output : Int => (output : ℚ))[((ValueExpression.new
        exactCrypto info (UInt16.ofNat 0)).witnessOffset + UInt16.ofNat i).toNat]? =
        some ((self.zeroingOutput info i : Int) : ℚ) := by
    intro i hi
    have hid : ((1 : UInt16) + UInt16.ofNat i).toNat = i + 1 := by
      rw [UInt16.toNat_add, UInt16.toNat_ofNat']
      show (1 + i % 2 ^ 16) % 2 ^ 16 = i + 1
      omega
    rw [hfirst, hid, List.map_cons, List.getElem?_cons_succ, List.getElem?_map, hentries i hi]
    rfl
  -- the ends of the range are those of the table
  obtain ⟨clampingMin, clampingMax, hclamp, hmin, hmax⟩ :=
    @clampingValues_eq fl _ _ _ _ _ hself hsign
  have hle := Table.minInputValue_le_maxInputValue tt
  have htt : tt.evaluationTable 1 = tt := if_pos rfl
  rw [htt, Table.minOutputValue, hop] at hmin
  rw [htt, Table.maxOutputValue, hop] at hmax
  obtain rfl := Except.ok.inj ((Table.lookup_requantise fl hop ⟨le_refl _, hle⟩).symm.trans hmin)
  obtain rfl := Except.ok.inj ((Table.lookup_requantise fl hop ⟨hle, le_refl _⟩).symm.trans hmax)
  obtain ⟨e, he, heval⟩ := LookupVariant.eval_signedExpressions (plainCrypto_lawful _)
    hvalueEval hz (by norm_num) variant hclamp
  have hsigned : info.table.isSigned = true := by
    rw [htable, Table.isSigned]
    exact beq_iff_eq.mpr hsign
  have hbuild : variant.buildLookupOutputExpressions exactCrypto fl 0 info = .ok e := by
    unfold LookupVariant.buildLookupOutputExpressions
    rw [if_pos hsigned, Nat.zero_mul]
    exact he
  refine ⟨_, _, e, hvalue, hzeroing, hbuild, heval.trans (congrArg Except.ok ?_)⟩
  have hselect : clamp (self.shiftedOut tt) tt.minInputValue tt.maxInputValue =
      if self.zeroingPart = 0 then self.value else
        if 0 < self.zeroingPart then tt.maxInputValue else tt.minInputValue := by
    have hsign' : tt.operation.inputSign = .mixed := hsign
    have hlow : tt.minInputValue = -2 ^ (tt.tableBitSize - 1) := by
      simp only [Table.minInputValue, hsign']
    have hhigh : tt.maxInputValue = 2 ^ (tt.tableBitSize - 1) - 1 := by
      simp only [Table.maxInputValue, hsign']
    obtain ⟨hmin', hmax'⟩ := hrange
    rw [hlow] at hmin' ⊢
    rw [hhigh] at hmax' ⊢
    exact clamp_shiftedOut hbits hmin' hmax'
  rw [hselect]
  by_cases hzero : info.numberOfZeroingChunks = 0
  · have hpart : self.zeroingPart = 0 := by
      rw [zeroingPart, hdecomposes.length_zeroing, hzero]
      rfl
    rw [if_pos hzero, if_pos hpart]
  · obtain ⟨top, htop⟩ := Nat.exists_eq_succ_of_ne_zero hzero
    rw [if_neg hzero, htop, Nat.succ_sub_one,
      clampedValue_zeroingOutput hself hsign hdecomposes htop]
    push_cast
    rfl

/-- The chunks determine the output. -/
theorem outputs_iff : self.Outputs info fl variant y ↔
    y = clamp (self.shiftedOut tt) tt.minInputValue tt.maxInputValue := by
  have hclamp := @outputs_clamp _ _ _ _ hself self fl variant _ hsign hdecomposes hop hbits hcount
  constructor
  · rintro ⟨value, zeroing, e, hvalue, hzeroing, he, heval⟩
    obtain ⟨value', zeroing', e', hvalue', hzeroing', he', heval'⟩ := hclamp
    obtain rfl := Except.ok.inj (hvalue.symm.trans hvalue')
    obtain rfl := Except.ok.inj (hzeroing.symm.trans hzeroing')
    obtain rfl := Except.ok.inj (he.symm.trans he')
    exact_mod_cast Except.ok.inj (heval.symm.trans heval')
  · rintro rfl
    exact hclamp

end Outputs

end CommittedEntry

end DeepProve
