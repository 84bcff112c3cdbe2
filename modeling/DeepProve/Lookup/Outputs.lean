import DeepProve.Lookup.RoundTrip

/-!
# The outputs of the chunks

What `table_output` gives for one value, in terms of the value shifted to the right: the
value chunks are its lowest bits, and the zeroing chunks tell on which side of the range
of the value chunks it lies.
-/

namespace DeepProve

/-- `evaluate`: several value chunks are one lookup in a table of all their bits. -/
def Table.evaluationTable (self : Table) (valueChunks : Nat) : Table :=
  if valueChunks = 1 then self else { self with tableBitSize := self.tableBitSize * valueChunks }

/-- The right shift of `LookupOp::apply`. The inputs of tables of negative values are those of
    `Softmax::apply`, which negates them before and after the shift. -/
def shiftInput (sign : TableSign) (rightShift : Nat) (x : Int) : Int :=
  match sign with
  | .negative => -(-x / 2 ^ rightShift)
  | .mixed | .positive => x / 2 ^ rightShift

/-- What inference gives for an input that has been scaled and rounded. -/
def applyShifted (fl : Float32Ops) (table : Table) (rightShift valueChunks : Nat) (x : Int) :
    Outcome Int :=
  (table.evaluationTable valueChunks).lookup fl (shiftInput table.tableSign rightShift x)

namespace ChunkingInfo

/-- What a zeroing chunk is looked up to: whether it is zero, or its sign. -/
def zeroingOutput (self : ChunkingInfo) (x : Int) (i : Nat) : Int :=
  if self.isPlainZeroingChunk i then
    if self.zeroingChunk x i = 0 then 1 else 0
  else
    (self.zeroingChunk x i).sign

section Outputs

variable {fl : Float32Ops} {self : ChunkingInfo} {valueTable : Table} {x : Int}

theorem lookup_zeroingTable_of_inRange {i : Nat} {chunk : Int}
    (h : (self.zeroingTable i).InRange chunk) :
    (self.zeroingTable i).lookup fl chunk =
      .ok (if self.isPlainZeroingChunk i then if chunk = 0 then 1 else 0 else chunk.sign) := by
  unfold zeroingTable at h ⊢
  by_cases hplain : self.isPlainZeroingChunk i
  · rw [if_pos hplain] at h ⊢
    rw [if_pos hplain]
    exact TableType.applyInRange_eq_ok (f := fun input => if input = 0 then 1 else 0) h
  · rw [if_neg hplain] at h ⊢
    rw [if_neg hplain]
    exact TableType.applyInRange_eq_ok h

theorem lookup_zeroingTable {i : Nat}
    (h : (self.zeroingTable i).InRange (self.zeroingChunk x i)) :
    (self.zeroingTable i).lookup fl (self.zeroingChunk x i) = .ok (self.zeroingOutput x i) :=
  lookup_zeroingTable_of_inRange h

/-- The outputs for one value. -/
theorem tableOutput_singleton {valueOutput : Nat → Int}
    (hvalue : ∀ i < self.numberOfValueChunks,
      valueTable.lookup fl (self.valueChunk x i) = .ok (valueOutput i))
    (hzeroing : ∀ i < self.numberOfZeroingChunks,
      (self.zeroingTable i).InRange (self.zeroingChunk x i)) :
    self.tableOutput fl (self.decomposeInput [x]) valueTable =
      .ok ⟨(List.range self.numberOfValueChunks).map fun i => [valueOutput i],
        (List.range self.numberOfZeroingChunks).map fun i => [self.zeroingOutput x i]⟩ := by
  have hvalues : ((List.range self.numberOfValueChunks).map fun i =>
      [self.valueChunk x i]).mapM (chunkOutput fl valueTable) =
      .ok ((List.range self.numberOfValueChunks).map fun i => [valueOutput i]) := by
    rw [List.mapM_map]
    apply Outcome.mapM_eq_ok_map
    intro i hi
    show chunkOutput fl valueTable [self.valueChunk x i] = _
    unfold chunkOutput
    rw [List.mapM_cons, hvalue i (List.mem_range.mp hi)]
    rfl
  have hzeroings : ((List.range self.numberOfZeroingChunks).map fun i =>
      [self.zeroingChunk x i]).zipIdx.mapM (fun e => chunkOutput fl (self.zeroingTable e.2) e.1) =
      .ok ((List.range self.numberOfZeroingChunks).map fun i => [self.zeroingOutput x i]) := by
    rw [zipIdx_map_range, List.mapM_map]
    apply Outcome.mapM_eq_ok_map
    intro i hi
    show chunkOutput fl (self.zeroingTable i) [self.zeroingChunk x i] = _
    unfold chunkOutput
    rw [List.mapM_cons, lookup_zeroingTable (hzeroing i (List.mem_range.mp hi))]
    rfl
  unfold tableOutput
  rw [decomposeInput_eq]
  simp only [List.map_cons, List.map_nil, hvalues, Outcome.ok_bind]
  by_cases hzero : self.numberOfZeroingChunks = 0
  · rw [if_pos hzero, hzero]
    rfl
  · rw [if_neg hzero]
    exact Outcome.bind_eq_ok.mpr ⟨_, hzeroings, rfl⟩

end Outputs

namespace IsNew

variable {self : ChunkingInfo} {rs : Nat} {tt : Table} {m nv : Nat}
  (hself : self.IsNew rs tt m nv)

include hself

theorem shiftedValue_eq (x : Int) : self.shiftedValue x = self.offsetValue x / 2 ^ rs := by
  rw [shiftedValue, hself.offset_numberOfShiftedChunks]

theorem zeroingValue_eq (x : Int) :
    self.zeroingValue x = self.offsetValue x / 2 ^ (rs + tt.tableBitSize * nv) := by
  rw [zeroingValue, hself.shiftedValue_eq, Digits.ediv_two_pow_add, hself.valueChunkSize,
    hself.numberOfValueChunks]

section Mixed

variable (hfit : ShiftsFit rs tt m nv) (hsign : tt.tableSign = .mixed) {x : Int}
  (hx : Representable m tt.tableSign x) (hno : ¬ TopOverflow rs tt m nv x)

/-- The part of a shifted value above the range of the value chunks; it is zero in the range. -/
def excess (rs : Nat) (tt : Table) (nv : Nat) (x : Int) : Int :=
  (x / 2 ^ rs + 2 ^ (tt.tableBitSize * nv - 1)) / 2 ^ (tt.tableBitSize * nv)

include hfit hsign hx hno

/-- Every part of the covered bits is one of the value with its offset. -/
theorem offsetValue_ediv_emod {a b : Nat} (h : a + b ≤ coveredBits rs tt m nv) :
    self.offsetValue x / 2 ^ a % 2 ^ b = (x + self.offset) / 2 ^ a % 2 ^ b := by
  rw [← Digits.ediv_emod_of_le _ h, hself.offsetValue_emod_of_mixed hfit hsign hx.rounded
    (hx.overflows_iff.not.mpr hno)]

omit hself hx hno in
/-- The offset of the value chunks, shifted to the right. -/
theorem add_valueOffset_ediv :
    (x + 2 ^ (rs + tt.tableBitSize * nv - 1)) / 2 ^ rs =
      x / 2 ^ rs + 2 ^ (tt.tableBitSize * nv - 1) := by
  obtain ⟨_, hbits, _⟩ := hfit.mixed hsign
  rw [Digits.add_two_pow_ediv _ (by omega)]
  congr 2
  omega

/-- The value chunks are the lowest bits of the shifted value with their offset. -/
theorem shiftedValue_emod_of_mixed :
    self.shiftedValue x % 2 ^ (tt.tableBitSize * nv) =
      (x / 2 ^ rs + 2 ^ (tt.tableBitSize * nv - 1)) % 2 ^ (tt.tableBitSize * nv) := by
  obtain ⟨_, hbits, _⟩ := hfit.mixed hsign
  have hcovered : rs + tt.tableBitSize * nv ≤ coveredBits rs tt m nv := Nat.le_add_right _ _
  rw [hself.shiftedValue_eq, hself.offsetValue_ediv_emod hfit hsign hx hno hcovered, hself.offset]
  rcases Nat.lt_or_ge (rs + tt.tableBitSize * nv) m with hlt | hge
  · rw [offsetFor_of_lt hsign hbits hlt, add_comm ((2 : Int) ^ (m - 1)), ← add_assoc,
      Digits.add_two_pow_ediv _ (show rs ≤ m - 1 by omega), add_valueOffset_ediv hfit hsign,
      Digits.add_two_pow_emod _ (by omega)]
  · rw [offsetFor_of_le hsign hbits hge, add_valueOffset_ediv hfit hsign]

omit hno in
/-- Without zeroing chunks no value exceeds the range of the value chunks. -/
theorem excess_of_noZeroing (hzero : self.numberOfZeroingChunks = 0) : excess rs tt nv x = 0 := by
  obtain ⟨hm, hbits, _⟩ := hfit.mixed hsign
  have hge := hself.maxBitSize_le
  rw [hzero] at hge
  obtain ⟨h0, hle, _⟩ := offset_bounds hfit hsign hx.rounded
  have hno : ¬ TopOverflow rs tt m nv x := by
    rintro ⟨_, hlt, _⟩
    omega
  have hlt := hle (by omega) (hx.overflows_iff.not.mpr hno)
  rw [offsetFor_of_le hsign hbits (by omega)] at h0 hlt
  unfold excess
  rw [← add_valueOffset_ediv hfit hsign, ← Digits.ediv_two_pow_add]
  exact Int.ediv_eq_zero_of_lt h0 hlt

omit hx hno in
/-- With zeroing chunks the value above the value chunks is the excess and the offset. -/
theorem add_offset_ediv (hlt : rs + tt.tableBitSize * nv < m) :
    (x + self.offset) / 2 ^ (rs + tt.tableBitSize * nv) =
      excess rs tt nv x + 2 ^ (m - 1 - (rs + tt.tableBitSize * nv)) := by
  obtain ⟨_, hbits, _⟩ := hfit.mixed hsign
  rw [hself.offset, offsetFor_of_lt hsign hbits hlt, add_comm ((2 : Int) ^ (m - 1)), ← add_assoc,
    Digits.add_two_pow_ediv _ (by omega), excess, ← add_valueOffset_ediv hfit hsign,
    ← Digits.ediv_two_pow_add]

/-- The zeroing chunks below the highest one are the lowest digits of the excess. -/
theorem zeroingChunk_of_mixed {i : Nat} (hi : i + 1 < self.numberOfZeroingChunks) :
    self.zeroingChunk x i = Digits.digit (fun _ => 16) (excess rs tt nv x) i := by
  have hcount := hself.numberOfZeroingChunks
  have hplain : self.isPlainZeroingChunk i := Or.inl (by omega)
  have hcovered := hself.coveredBits_eq
  rw [zeroingChunk, storeZeroingChunk, if_pos hplain]
  show self.zeroingValue x / 2 ^ Digits.offset (fun _ => 16) i % 2 ^ 16 =
    excess rs tt nv x / 2 ^ Digits.offset (fun _ => 16) i % 2 ^ 16
  rw [Digits.offset_const, hself.zeroingValue_eq, ← Digits.ediv_two_pow_add,
    hself.offsetValue_ediv_emod hfit hsign hx hno (by omega), Digits.ediv_two_pow_add,
    hself.add_offset_ediv hfit hsign (by omega), Digits.add_two_pow_ediv _ (by omega),
    Digits.add_two_pow_emod _ (by omega)]

/-- The highest zeroing chunk is what remains of the excess. -/
theorem topZeroingChunk_of_mixed (hpos : 0 < self.numberOfZeroingChunks) :
    self.zeroingChunk x (self.numberOfZeroingChunks - 1) =
      excess rs tt nv x / 2 ^ (16 * (self.numberOfZeroingChunks - 1)) := by
  have hcount := hself.numberOfZeroingChunks
  have hlt : rs + tt.tableBitSize * nv < m := by omega
  obtain ⟨top, htop, hK, hoffset, hchunk⟩ := hself.topOffset_eq hfit hsign hlt
  have hmixed := hself.offsetValue_emod_of_mixed hfit hsign hx.rounded
    (hx.overflows_iff.not.mpr hno)
  rw [← hself.coveredBits_eq, htop, Nat.mul_succ, ← Nat.add_assoc] at hmixed
  rw [htop, Nat.succ_sub_one, hchunk, hoffset, Digits.ediv_emod_two_pow, hmixed,
    Digits.ediv_two_pow_add, hself.add_offset_ediv hfit hsign hlt,
    Digits.add_two_pow_ediv _ (by omega), add_sub_assoc, Nat.sub_sub _ (rs + _), sub_self, add_zero]

end Mixed

/-! ## Tables of negative values -/

section Negative

variable (hsign : tt.tableSign = .negative) (x : Int)

include hsign

theorem offsetValue_of_negative : self.offsetValue x = -x := by
  simp only [offsetValue, hself.table, hsign]

theorem zeroingChunk_of_negative (i : Nat) :
    self.zeroingChunk x i =
      Digits.digit (fun _ => 16) (-x / 2 ^ (rs + tt.tableBitSize * nv)) i := by
  have hplain : self.isPlainZeroingChunk i := by
    right
    rw [hself.isSigned, hsign]
    rfl
  rw [zeroingChunk, storeZeroingChunk, if_pos hplain, hself.zeroingValue_eq,
    hself.offsetValue_of_negative hsign]

theorem valueChunk_of_negative :
    self.valueChunk x 0 = -(-x / 2 ^ rs % 2 ^ tt.tableBitSize) := by
  rw [valueChunk, storeValueChunk, hself.table, hsign, Digits.digit, Digits.offset_zero,
    hself.shiftedValue_eq, hself.offsetValue_of_negative hsign, hself.valueChunkSize, pow_zero,
    Int.ediv_one]

end Negative

end IsNew

end ChunkingInfo

end DeepProve
