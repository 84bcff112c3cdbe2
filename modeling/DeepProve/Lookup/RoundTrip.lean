import DeepProve.Lookup.Chunks

/-!
# The round trip of the decomposition

The chunks add up to a value again as long as the value with its offset fits into the
bits that they cover. With a table of both signs and zeroing chunks, the offset needs one
bit more than the values have; if the covered bits are exactly those of the values, the
largest values lose it.
-/

namespace DeepProve

namespace ChunkingInfo

/-! ## The offset -/

/-- The shifts that `new` and the combination of the chunks make stay within `i64`, and so
    does the range of the values. -/
structure ShiftsFit (rs : Nat) (tt : Table) (m nv : Nat) : Prop where
  rightShift : rs ≤ 62
  tableBitSize : tt.tableBitSize ≤ 62
  maxBitSize : m ≤ 63
  mixed : tt.tableSign = .mixed → 1 ≤ m ∧ 1 ≤ tt.tableBitSize * nv ∧
    tt.tableBitSize * nv - 1 + rs ≤ 62

/-- The values that are representable in `m` bits. -/
def Representable (m : Nat) : TableSign → Int → Prop
  | .mixed, value => -2 ^ (m - 1) ≤ value ∧ value < 2 ^ (m - 1)
  | .positive, value => 0 ≤ value ∧ value < 2 ^ m
  | .negative, value => -2 ^ m < value ∧ value ≤ 0

instance (m : Nat) (sign : TableSign) (value : Int) : Decidable (Representable m sign value) :=
  match sign with
  | .mixed | .positive | .negative => inferInstanceAs (Decidable (_ ∧ _))

/-- The bits that all chunks cover. -/
def coveredBits (rs : Nat) (tt : Table) (m nv : Nat) : Nat :=
  rs + tt.tableBitSize * nv + 16 * zeroingChunksFor rs tt m nv

/-- The largest values of a table of both signs, where the highest chunk has no bit left for
    the offset of the value chunks. -/
def TopOverflow (rs : Nat) (tt : Table) (m nv : Nat) (value : Int) : Prop :=
  tt.tableSign = .mixed ∧ rs + tt.tableBitSize * nv < m ∧
    2 ^ (m - 1) - 2 ^ (rs + tt.tableBitSize * nv - 1) ≤ value ∧
    (16 ∣ m - (rs + tt.tableBitSize * nv) ∨ m = 63 ∧ coveredBits rs tt m nv ≠ 64)

instance (rs : Nat) (tt : Table) (m nv : Nat) (value : Int) :
    Decidable (TopOverflow rs tt m nv value) :=
  inferInstanceAs (Decidable (_ ∧ _))

/-- The values that are representable in `m` bits, but for a rounding constant. -/
def Rounded (rs m : Nat) : TableSign → Int → Prop
  | .mixed, value => -2 ^ (m - 1) ≤ value ∧ value < 2 ^ (m - 1) + 2 ^ (rs - 1)
  | .positive, value => Representable m .positive value
  | .negative, value => Representable m .negative value

/-- The values that the chunks do not cover together with the offset. With a rounding constant
    this also happens when the chunks cover exactly `m` bits without a zeroing chunk. -/
def Overflows (rs : Nat) (tt : Table) (m nv : Nat) (value : Int) : Prop :=
  TopOverflow rs tt m nv value ∨
    tt.tableSign = .mixed ∧ m = rs + tt.tableBitSize * nv ∧ 2 ^ (m - 1) ≤ value

instance (rs : Nat) (tt : Table) (m nv : Nat) (value : Int) :
    Decidable (Overflows rs tt m nv value) :=
  inferInstanceAs (Decidable (_ ∨ _))

variable {value : Int}

theorem Representable.rounded {rs m : Nat} {sign : TableSign} (h : Representable m sign value) :
    Rounded rs m sign value := by
  cases sign with
  | mixed =>
    have hpos := Digits.two_pow_pos (rs - 1)
    exact ⟨h.1, by have := h.2; omega⟩
  | positive => exact h
  | negative => exact h

/-- A value of `m` bits overflows only at the top. -/
theorem Representable.overflows_iff {rs : Nat} {tt : Table} {m nv : Nat}
    (h : Representable m tt.tableSign value) :
    Overflows rs tt m nv value ↔ TopOverflow rs tt m nv value := by
  constructor
  · rintro (htop | ⟨hsign, _, hbig⟩)
    · exact htop
    · rw [hsign] at h
      exact absurd hbig (not_le.mpr h.2)
  · exact Or.inl

/-- Above a value that overflows all values do. -/
theorem Overflows.mono {rs : Nat} {tt : Table} {m nv : Nat} {value' : Int}
    (h : Overflows rs tt m nv value) (hle : value ≤ value') : Overflows rs tt m nv value' := by
  rcases h with ⟨hsign, hlt, hbig, hwhy⟩ | ⟨hsign, heq, hbig⟩
  · exact Or.inl ⟨hsign, hlt, hbig.trans hle, hwhy⟩
  · exact Or.inr ⟨hsign, heq, hbig.trans hle⟩

section Offset

variable {rs : Nat} {tt : Table} {m nv : Nat}

theorem shiftedValueOffset_eq (h : 1 ≤ tt.tableBitSize * nv) :
    shiftedValueOffset rs tt nv = 2 ^ (rs + tt.tableBitSize * nv - 1) := by
  rw [shiftedValueOffset, ← pow_add]
  congr 1
  omega

theorem zeroingChunksFor_eq :
    zeroingChunksFor rs tt m nv = (m - (rs + tt.tableBitSize * nv) + 15) / 16 := rfl

/-- Without zeroing chunks the offset is that of the value chunks. -/
theorem offsetFor_of_le (hsign : tt.tableSign = .mixed) (hbits : 1 ≤ tt.tableBitSize * nv)
    (h : m ≤ rs + tt.tableBitSize * nv) :
    offsetFor rs tt m nv = 2 ^ (rs + tt.tableBitSize * nv - 1) := by
  have hzero : ¬ 0 < zeroingChunksFor rs tt m nv := by
    rw [zeroingChunksFor_eq]
    omega
  have hle : (2 : Int) ^ (m - 1) ≤ 2 ^ (rs + tt.tableBitSize * nv - 1) :=
    pow_le_pow_right₀ (by decide) (by omega)
  simp only [offsetFor, hsign, if_neg hzero, shiftedValueOffset_eq hbits, max_eq_right hle, add_zero]

theorem offsetFor_of_lt (hsign : tt.tableSign = .mixed) (hbits : 1 ≤ tt.tableBitSize * nv)
    (h : rs + tt.tableBitSize * nv < m) :
    offsetFor rs tt m nv = 2 ^ (m - 1) + 2 ^ (rs + tt.tableBitSize * nv - 1) := by
  have hpos : 0 < zeroingChunksFor rs tt m nv := by
    rw [zeroingChunksFor_eq]
    omega
  have hle : (2 : Int) ^ (rs + tt.tableBitSize * nv - 1) ≤ 2 ^ (m - 1) :=
    pow_le_pow_right₀ (by decide) (by omega)
  simp only [offsetFor, hsign, if_pos hpos, shiftedValueOffset_eq hbits, max_eq_left hle]

/-- A number of at most 63 bits does not wrap. -/
theorem wrapI64_of_lt {x : Int} (h0 : 0 ≤ x) (h : x < 2 ^ 63) : wrapI64 x = x := by
  unfold wrapI64
  rw [Int.bmod_eq_of_le] <;> omega

/-- A number of 64 bits wraps to a negative one. -/
theorem wrapI64_of_ge {x : Int} (h : 2 ^ 63 ≤ x) (hlt : x < 2 ^ 64) : wrapI64 x = x - 2 ^ 64 := by
  have hneg : (x - 2 ^ 64).bmod (2 ^ 64) = x - 2 ^ 64 := by
    rw [Int.bmod_eq_of_le] <;> omega
  unfold wrapI64
  rw [← hneg]
  exact (Int.sub_bmod_right x (2 ^ 64)).symm

/-- Wrapping keeps the lowest 64 bits. -/
theorem wrapI64_emod (x : Int) {n : Nat} (h : n ≤ 64) : wrapI64 x % 2 ^ n = x % 2 ^ n := by
  have hdvd : (2 : Int) ^ n ∣ ((2 ^ 64 : Nat) : Int) := by
    rw [Nat.cast_pow]
    exact pow_dvd_pow 2 h
  unfold wrapI64
  rw [← Int.emod_emod_of_dvd (x.bmod (2 ^ 64)) hdvd, Int.bmod_emod, Int.emod_emod_of_dvd _ hdvd]

/-- A power of two is twice the one before. -/
theorem two_pow_eq_add {n : Nat} (h : 1 ≤ n) : (2 : Int) ^ n = 2 ^ (n - 1) + 2 ^ (n - 1) := by
  obtain ⟨k, rfl⟩ := Nat.exists_eq_add_of_le' h
  rw [Nat.add_sub_cancel, pow_succ]
  omega

/-- The value with its offset, for a table of both signs. -/
theorem offset_bounds (hfit : ShiftsFit rs tt m nv) (hsign : tt.tableSign = .mixed)
    {value : Int} (hvalue : Rounded rs m tt.tableSign value) :
    0 ≤ value + offsetFor rs tt m nv ∧
      (m ≤ rs + tt.tableBitSize * nv → ¬ Overflows rs tt m nv value →
        value + offsetFor rs tt m nv < 2 ^ (rs + tt.tableBitSize * nv)) ∧
      (rs + tt.tableBitSize * nv < m →
        2 ^ (rs + tt.tableBitSize * nv - 1) ≤ value + offsetFor rs tt m nv ∧
        value + offsetFor rs tt m nv < 2 ^ m + 2 ^ (rs + tt.tableBitSize * nv)) := by
  obtain ⟨hm, hbits, _⟩ := hfit.mixed hsign
  rw [hsign] at hvalue
  obtain ⟨hlow, hhigh⟩ := hvalue
  have hdouble := two_pow_eq_add (n := rs + tt.tableBitSize * nv) (by omega)
  rcases Nat.lt_or_ge (rs + tt.tableBitSize * nv) m with hlt | hge
  · have hpos := Digits.two_pow_pos (rs + tt.tableBitSize * nv - 1)
    have hrounding : (2 : Int) ^ (rs - 1) ≤ 2 ^ (rs + tt.tableBitSize * nv - 1) :=
      pow_le_pow_right₀ (by decide) (by omega)
    rw [offsetFor_of_lt hsign hbits hlt, two_pow_eq_add hm]
    omega
  · have hle : (2 : Int) ^ (m - 1) ≤ 2 ^ (rs + tt.tableBitSize * nv - 1) :=
      pow_le_pow_right₀ (by decide) (by omega)
    rw [offsetFor_of_le hsign hbits hge]
    refine ⟨by omega, fun _ hno => ?_, by omega⟩
    rcases Nat.lt_or_ge m (rs + tt.tableBitSize * nv) with hless | hexact
    · -- neither the bits of the values nor the rounding constant reach the highest bit
      have hquarter := two_pow_eq_add (n := rs + tt.tableBitSize * nv - 1) (by omega)
      have hvalues : (2 : Int) ^ (m - 1) ≤ 2 ^ (rs + tt.tableBitSize * nv - 1 - 1) :=
        pow_le_pow_right₀ (by decide) (by omega)
      have hrounding : (2 : Int) ^ (rs - 1) ≤ 2 ^ (rs + tt.tableBitSize * nv - 1 - 1) :=
        pow_le_pow_right₀ (by decide) (by omega)
      omega
    · have heq : m = rs + tt.tableBitSize * nv := by omega
      have hsmall : value < 2 ^ (m - 1) := by
        apply not_le.mp
        intro hbig
        exact hno (Or.inr ⟨hsign, heq, hbig⟩)
      rw [heq] at hsmall
      omega

end Offset

namespace IsNew

variable {self : ChunkingInfo} {rs : Nat} {tt : Table} {m nv : Nat}
  (hself : self.IsNew rs tt m nv) (hfit : ShiftsFit rs tt m nv)

include hself

theorem coveredBits_eq :
    rs + tt.tableBitSize * nv + 16 * self.numberOfZeroingChunks = coveredBits rs tt m nv := by
  rw [coveredBits, hself.numberOfZeroingChunks, zeroingChunksFor_eq]

include hfit

variable {value : Int}

/-- Unless it overflows, a value with its offset is what the chunks cover. -/
theorem offsetValue_emod_of_mixed (hsign : tt.tableSign = .mixed)
    (hvalue : Rounded rs m tt.tableSign value) (hno : ¬ Overflows rs tt m nv value) :
    self.offsetValue value % 2 ^ coveredBits rs tt m nv = value + self.offset := by
  obtain ⟨h0, hle, hlt⟩ := offset_bounds hfit hsign hvalue
  obtain ⟨hm, hbits, hshift⟩ := hfit.mixed hsign
  have hm63 := hfit.maxBitSize
  have hcovered := hself.maxBitSize_le
  rw [hself.coveredBits_eq] at hcovered
  rw [hself.offset]
  have hoffset : self.offsetValue value = wrapI64 (value + offsetFor rs tt m nv) := by
    simp only [offsetValue, hself.table, hsign, hself.offset]
  rw [hoffset]
  -- it is enough that the sum fits into the covered bits and into 63 or exactly 64 bits
  have hfits : ∀ n, value + offsetFor rs tt m nv < 2 ^ n → n ≤ 63 → n ≤ coveredBits rs tt m nv →
      wrapI64 (value + offsetFor rs tt m nv) % 2 ^ coveredBits rs tt m nv =
        value + offsetFor rs tt m nv := by
    intro n hn hn63 hncovered
    have h63 : (2 : Int) ^ n ≤ 2 ^ 63 := pow_le_pow_right₀ (by decide) hn63
    have hcov : (2 : Int) ^ n ≤ 2 ^ coveredBits rs tt m nv := pow_le_pow_right₀ (by decide) hncovered
    rw [wrapI64_of_lt h0 (by omega), Int.emod_eq_of_lt h0 (by omega)]
  rcases Nat.lt_or_ge (rs + tt.tableBitSize * nv) m with hltm | hge
  · obtain ⟨_, hupper⟩ := hlt hltm
    by_cases hsmall : value + offsetFor rs tt m nv < 2 ^ m
    · exact hfits m hsmall hm63 hcovered
    · -- one bit more is needed, and it is there
      have hbig : 2 ^ (m - 1) - 2 ^ (rs + tt.tableBitSize * nv - 1) ≤ value := by
        rw [offsetFor_of_lt hsign hbits hltm, two_pow_eq_add hm] at hsmall
        omega
      have hvalues : (2 : Int) ^ (rs + tt.tableBitSize * nv) ≤ 2 ^ m :=
        pow_le_pow_right₀ (by decide) (by omega)
      have hdouble : (2 : Int) ^ (m + 1) = 2 ^ m + 2 ^ m := two_pow_eq_add (n := m + 1) (by omega)
      have hnot : ¬ (16 ∣ m - (rs + tt.tableBitSize * nv) ∨
          m = 63 ∧ coveredBits rs tt m nv ≠ 64) := fun h => hno (Or.inl ⟨hsign, hltm, hbig, h⟩)
      have hmore : m + 1 ≤ coveredBits rs tt m nv := by
        rw [coveredBits, zeroingChunksFor_eq] at hcovered ⊢
        omega
      rcases Nat.lt_or_ge m 63 with hm62 | hm63'
      · exact hfits (m + 1) (by omega) (by omega) hmore
      · have h64 : coveredBits rs tt m nv = 64 := by omega
        have hm' : m = 63 := by omega
        rw [h64, wrapI64_emod _ (Nat.le_refl 64), Int.emod_eq_of_lt h0]
        subst hm'
        omega
  · refine hfits (rs + tt.tableBitSize * nv) (hle hge hno) (by omega) ?_
    rw [coveredBits]
    omega

/-- What the chunks combine to is the value. -/
theorem covered_eq (hvalue : Rounded rs m tt.tableSign value) (hno : ¬ Overflows rs tt m nv value) :
    self.signedValue (self.offsetValue value % 2 ^ coveredBits rs tt m nv) = value := by
  have hcovered := hself.maxBitSize_le
  rw [hself.coveredBits_eq] at hcovered
  have hpow : (2 : Int) ^ m ≤ 2 ^ coveredBits rs tt m nv := pow_le_pow_right₀ (by decide) hcovered
  unfold signedValue
  rw [hself.table]
  cases hsign : tt.tableSign with
  | mixed =>
    have hmixed := hself.offsetValue_emod_of_mixed hfit hsign hvalue hno
    simp only
    omega
  | positive =>
    rw [hsign] at hvalue
    simp only [offsetValue, hself.table, hsign]
    exact Int.emod_eq_of_lt hvalue.1 (lt_of_lt_of_le hvalue.2 hpow)
  | negative =>
    rw [hsign] at hvalue
    obtain ⟨hlow, hhigh⟩ := hvalue
    simp only [offsetValue, hself.table, hsign]
    rw [Int.emod_eq_of_lt (by omega) (by omega), neg_neg]

/-! ## The ranges -/

omit hself hfit in
/-- The highest chunk, from the value with its offset. -/
theorem topChunk_bounds {x : Int} {K : Nat} (h0 : 0 ≤ x) (hcovered : x < 2 ^ (K + 16))
    (hupper : x < 2 ^ m + 2 ^ K) (hK : K < m) (hm : m ≤ K + 16) :
    -2 ^ 15 ≤ x / 2 ^ K - 2 ^ (m - 1 - K) ∧ x / 2 ^ K - 2 ^ (m - 1 - K) ≤ 2 ^ 15 - 1 := by
  have hq0 : 0 ≤ x / 2 ^ K := Int.ediv_nonneg h0 (Digits.two_pow_pos K).le
  have hq16 : x / 2 ^ K < 2 ^ 16 := by
    rw [pow_add, mul_comm] at hcovered
    exact Int.ediv_lt_of_lt_mul (Digits.two_pow_pos K) hcovered
  have hqm : x / 2 ^ K < 2 ^ (m - K) + 1 := by
    apply Int.ediv_lt_of_lt_mul (Digits.two_pow_pos K)
    have hsplit : (2 : Int) ^ m = 2 ^ (m - K) * 2 ^ K := by
      rw [← pow_add, Nat.sub_add_cancel hK.le]
    rw [add_mul, one_mul, ← hsplit]
    exact hupper
  generalize x / 2 ^ K = q at hq0 hq16 hqm ⊢
  have hdouble : (2 : Int) ^ (m - K) = 2 ^ (m - 1 - K) + 2 ^ (m - 1 - K) := by
    rw [two_pow_eq_add (by omega), show m - K - 1 = m - 1 - K by omega]
  rcases Nat.lt_or_ge (m - 1 - K) 15 with hsmall | htop
  · have hle : (2 : Int) ^ (m - 1 - K) ≤ 2 ^ 14 := pow_le_pow_right₀ (by decide) (by omega)
    omega
  · rw [show m - 1 - K = 15 by omega]
    omega

omit hfit in
/-- A shifted chunk that is not full is scaled up to the size of the table. -/
theorem shiftedChunk_inRange (value : Int) (i : Nat) :
    Table.newShiftCheck.InRange (self.shiftedChunk value i) := by
  have h0 := Digits.digit_nonneg self.shiftedChunkSize (self.offsetValue value) i
  have hlt := Digits.digit_lt self.shiftedChunkSize (self.offsetValue value) i
  show 0 ≤ _ ∧ _ ≤ (2 : Int) ^ 16 - 1
  unfold shiftedChunk storeShiftedChunk
  by_cases hfull : self.isFullShiftedChunk i
  · rw [if_pos hfull]
    rw [show self.shiftedChunkSize i = 16 from if_pos hfull] at hlt
    omega
  · rw [if_neg hfull]
    have hright : ¬ rs % 16 = 0 := fun h => hfull (Or.inr (by rw [hself.rightShift]; exact h))
    rw [show self.shiftedChunkSize i = rs % 16 by
      rw [← hself.rightShift]
      exact if_neg hfull] at hlt
    rw [hself.shiftedChunkMultiplier, if_pos hright]
    generalize Digits.digit self.shiftedChunkSize (self.offsetValue value) i = d at h0 hlt
    have hsplit : (2 : Int) ^ (rs % 16) * 2 ^ (16 - rs % 16) = 2 ^ 16 := by
      rw [← pow_add]
      congr 1
      omega
    have hpos := Digits.two_pow_pos (16 - rs % 16)
    constructor
    · exact mul_nonneg h0 hpos.le
    · have hle := mul_le_mul_of_nonneg_right (show d + 1 ≤ 2 ^ (rs % 16) by omega) hpos.le
      rw [hsplit, add_mul, one_mul] at hle
      omega

omit hfit in
/-- The last shifted chunk is a multiple of the multiplier. -/
theorem shiftedChunkMultiplier_dvd (value : Int) :
    self.shiftedChunkMultiplier ∣ self.shiftedChunk value (self.numberOfShiftedChunks - 1) := by
  unfold shiftedChunk storeShiftedChunk
  by_cases hfull : self.isFullShiftedChunk (self.numberOfShiftedChunks - 1)
  · have hzero : self.rightShift % 16 = 0 := hfull.resolve_left (by simp)
    rw [hself.rightShift] at hzero
    rw [hself.shiftedChunkMultiplier, if_neg (by omega)]
    exact one_dvd _
  · rw [if_neg hfull]
    exact dvd_mul_left _ _

theorem valueChunk_inRange (value : Int) (i : Nat) : tt.InRange (self.valueChunk value i) := by
  have h0 := Digits.digit_nonneg (fun _ => self.valueChunkSize) (self.shiftedValue value) i
  have hlt : Digits.digit (fun _ => self.valueChunkSize) (self.shiftedValue value) i <
      2 ^ tt.tableBitSize := by
    rw [← hself.valueChunkSize]
    exact Digits.digit_lt (fun _ => self.valueChunkSize) _ _
  unfold Table.InRange Table.minInputValue Table.maxInputValue valueChunk storeValueChunk
  rw [hself.table]
  cases hsign : tt.tableSign with
  | mixed =>
    have hbits : 1 ≤ tt.tableBitSize := by
      have hmul := (hfit.mixed hsign).2.1
      exact Nat.pos_of_ne_zero fun h => by simp [h] at hmul
    have hsign' : tt.operation.inputSign = .mixed := hsign
    rw [two_pow_eq_add hbits] at hlt
    simp only [hsign', hself.valueChunkOffset hsign]
    omega
  | positive =>
    have hsign' : tt.operation.inputSign = .positive := hsign
    simp only [hsign']
    omega
  | negative =>
    have hsign' : tt.operation.inputSign = .negative := hsign
    simp only [hsign']
    omega

omit hself hfit in
theorem zeroingChunk_inRange (value : Int) {i : Nat} (hplain : self.isPlainZeroingChunk i) :
    Table.newZeroCheck.InRange (self.zeroingChunk value i) := by
  have h0 := Digits.digit_nonneg (fun _ => zeroCheckTableBitSize) (self.zeroingValue value) i
  have hlt : Digits.digit (fun _ => zeroCheckTableBitSize) (self.zeroingValue value) i < 2 ^ 16 :=
    Digits.digit_lt (fun _ => zeroCheckTableBitSize) _ _
  show 0 ≤ _ ∧ _ ≤ (2 : Int) ^ 16 - 1
  unfold zeroingChunk storeZeroingChunk
  rw [if_pos hplain]
  omega

omit hfit in
/-- The offset of the highest chunk; that of the value chunks is below it. -/
theorem topZeroingChunkOffset_eq (hsign : tt.tableSign = .mixed)
    (hbits : 1 ≤ tt.tableBitSize * nv) (hlt : rs + tt.tableBitSize * nv < m) :
    ∃ top, self.numberOfZeroingChunks = top + 1 ∧ rs + tt.tableBitSize * nv + 16 * top < m ∧
      self.topZeroingChunkOffset = 2 ^ (m - 1 - (rs + tt.tableBitSize * nv + 16 * top)) := by
  have hcount := hself.numberOfZeroingChunks
  obtain ⟨top, htop⟩ := Nat.exists_eq_add_of_le' (show 1 ≤ self.numberOfZeroingChunks by omega)
  have hK : rs + tt.tableBitSize * nv + 16 * top < m := by omega
  refine ⟨top, htop, hK, ?_⟩
  rw [hself.topZeroingChunkOffset (by omega) hsign, htop, Nat.add_sub_cancel, Nat.mul_comm top,
    hself.offset, offsetFor_of_lt hsign hbits hlt]
  apply Digits.ediv_two_pow_eq (r := 2 ^ (rs + tt.tableBitSize * nv - 1))
  · rw [← pow_add]
    congr 2
    omega
  · exact (Digits.two_pow_pos _).le
  · exact pow_lt_pow_right₀ (by decide) (by omega)

/-- The place of the highest chunk. -/
theorem topOffset_eq (hsign : tt.tableSign = .mixed) (hlt : rs + tt.tableBitSize * nv < m) :
    ∃ top, self.numberOfZeroingChunks = top + 1 ∧ rs + tt.tableBitSize * nv + 16 * top < m ∧
      self.topZeroingChunkOffset = 2 ^ (m - 1 - (rs + tt.tableBitSize * nv + 16 * top)) ∧
      ∀ value, self.zeroingChunk value top =
        self.offsetValue value / 2 ^ (rs + tt.tableBitSize * nv + 16 * top) % 2 ^ 16 -
          self.topZeroingChunkOffset := by
  obtain ⟨_, hbits, _⟩ := hfit.mixed hsign
  obtain ⟨top, htop, hK, hoffset⟩ := hself.topZeroingChunkOffset_eq hsign hbits hlt
  refine ⟨top, htop, hK, hoffset, ?_⟩
  · intro value
    have hnotPlain := hself.not_isPlainZeroingChunk hsign htop
    have hzeroing : self.zeroingValue value =
        self.offsetValue value / 2 ^ (rs + tt.tableBitSize * nv) := by
      rw [zeroingValue, shiftedValue, hself.offset_numberOfShiftedChunks,
        Digits.ediv_two_pow_add, hself.valueChunkSize, hself.numberOfValueChunks]
    rw [zeroingChunk, storeZeroingChunk, if_neg hnotPlain, Digits.digit, hzeroing,
      Digits.offset_const, ← Digits.ediv_two_pow_add]

/-- The highest chunk of a value that does not overflow. -/
theorem topZeroingChunk_inRange (hsign : tt.tableSign = .mixed)
    (hlt : rs + tt.tableBitSize * nv < m) (hvalue : Rounded rs m tt.tableSign value)
    (hno : ¬ Overflows rs tt m nv value) :
    Table.newSignedZeroCheck.InRange
      (self.zeroingChunk value (self.numberOfZeroingChunks - 1)) := by
  obtain ⟨top, htop, hK, hoffset, hchunk⟩ := hself.topOffset_eq hfit hsign hlt
  obtain ⟨h0, _, hbounds⟩ := offset_bounds hfit hsign hvalue
  obtain ⟨_, hupper⟩ := hbounds hlt
  have hcovered := hself.offsetValue_emod_of_mixed hfit hsign hvalue hno
  rw [← hself.coveredBits_eq, htop, Nat.mul_succ, ← Nat.add_assoc] at hcovered
  rw [htop, Nat.add_sub_cancel, hchunk, hoffset, Digits.ediv_emod_two_pow, hcovered]
  have hmax := hself.maxBitSize_le
  have hvalues : (2 : Int) ^ (rs + tt.tableBitSize * nv) ≤
      2 ^ (rs + tt.tableBitSize * nv + 16 * top) := pow_le_pow_right₀ (by decide) (by omega)
  rw [← hself.offset] at h0 hupper
  apply topChunk_bounds h0 ?_ (lt_of_lt_of_le hupper (by omega)) hK (by omega)
  rw [← hcovered]
  exact Int.emod_lt_of_pos _ (Digits.two_pow_pos _)

/-- The highest chunk of a value that wraps, when the chunks cover more than 64 bits. -/
theorem topZeroingChunk_not_inRange (hsign : tt.tableSign = .mixed)
    (hlt : rs + tt.tableBitSize * nv < m) (hm : m = 63) (hcovered : 64 < coveredBits rs tt m nv)
    (hvalue : Rounded rs m tt.tableSign value)
    (hbig : 2 ^ (m - 1) - 2 ^ (rs + tt.tableBitSize * nv - 1) ≤ value) :
    ¬ Table.newSignedZeroCheck.InRange
      (self.zeroingChunk value (self.numberOfZeroingChunks - 1)) := by
  obtain ⟨top, htop, hK, hoffset, hchunk⟩ := hself.topOffset_eq hfit hsign hlt
  obtain ⟨_, _, hbounds⟩ := offset_bounds hfit hsign hvalue
  obtain ⟨_, hupper⟩ := hbounds hlt
  obtain ⟨_, hbits, _⟩ := hfit.mixed hsign
  rw [← hself.coveredBits_eq, htop] at hcovered
  rw [htop, Nat.add_sub_cancel, hchunk, hoffset]
  have hvalues : (2 : Int) ^ (rs + tt.tableBitSize * nv) ≤
      2 ^ (rs + tt.tableBitSize * nv + 16 * top) := pow_le_pow_right₀ (by decide) (by omega)
  subst hm
  rw [← hself.offset] at hupper
  -- the sum is `2 ^ 63` and a remainder below the highest chunk
  have h63 : (2 : Int) ^ 63 ≤ value + self.offset := by
    rw [hself.offset, offsetFor_of_lt hsign hbits hlt]
    omega
  have hwrap : self.offsetValue value = value + self.offset - 2 ^ 64 := by
    have hoffset : self.offsetValue value = wrapI64 (value + self.offset) := by
      simp only [offsetValue, hself.table, hsign]
    have hle : (2 : Int) ^ (rs + tt.tableBitSize * nv) ≤ 2 ^ 62 :=
      pow_le_pow_right₀ (by decide) (by omega)
    rw [hoffset, wrapI64_of_ge h63 (by omega)]
  have hquot : self.offsetValue value / 2 ^ (rs + tt.tableBitSize * nv + 16 * top) =
      -2 ^ (63 - (rs + tt.tableBitSize * nv + 16 * top)) := by
    apply Digits.ediv_two_pow_eq (r := value + self.offset - 2 ^ 63)
    · rw [hwrap, neg_mul, ← pow_add, Nat.sub_add_cancel hK.le]
      omega
    · omega
    · omega
  rw [hquot]
  have hdouble : (2 : Int) ^ (63 - (rs + tt.tableBitSize * nv + 16 * top)) =
      2 ^ (63 - 1 - (rs + tt.tableBitSize * nv + 16 * top)) +
        2 ^ (63 - 1 - (rs + tt.tableBitSize * nv + 16 * top)) := by
    rw [two_pow_eq_add (by omega), Nat.sub_right_comm]
  have hsmall : (2 : Int) ^ (63 - 1 - (rs + tt.tableBitSize * nv + 16 * top)) ≤ 2 ^ 13 :=
    pow_le_pow_right₀ (by decide) (by omega)
  have hpos := Digits.two_pow_pos (63 - 1 - (rs + tt.tableBitSize * nv + 16 * top))
  rw [hdouble]
  generalize (2 : Int) ^ (63 - 1 - (rs + tt.tableBitSize * nv + 16 * top)) = d at hsmall hpos ⊢
  have hmod : -(d + d) % 2 ^ 16 = 2 ^ 16 - (d + d) := by
    have hdiv : -(d + d) / 2 ^ 16 = -1 := by omega
    omega
  show ¬ (-2 ^ 15 ≤ _ ∧ _ ≤ (2 : Int) ^ 15 - 1)
  omega

end IsNew

/-! ## The round trip -/

/-- The field images of the entries of the chunks at one position. -/
def claimsAt (F : Type) [IntCast F] (chunks : List (List Int)) (k : Nat) : List F :=
  chunks.map fun chunk => ((chunk.getD k 0 : Int) : F)

theorem claimsAt_map_range (F : Type) [IntCast F] (n : Nat) (chunk : Int → Nat → Int)
    {input : List Int} {k : Nat} (h : input[k]? = some value) :
    claimsAt F ((List.range n).map fun i => input.map fun value => chunk value i) k =
      (List.range n).map fun i => ((chunk value i : Int) : F) := by
  rw [claimsAt, List.map_map]
  apply List.map_congr_left
  intro i _
  simp [List.getD_eq_getElem?_getD, h]

/-- The decomposition of a list of values stays inside of the tables and can be undone. -/
structure RoundTrips (F : Type) [Field F] [DecidableEq F] (info : ChunkingInfo)
    (input : List Int) : Prop where
  shifted : ∀ chunk ∈ (info.decomposeInput input).shiftedChunks, ∀ entry ∈ chunk,
    Table.newShiftCheck.InRange entry
  lastShifted : ∀ chunk, (info.decomposeInput input).shiftedChunks.getLast? = some chunk →
    ∀ entry ∈ chunk, info.shiftedChunkMultiplier ∣ entry
  value : ∀ chunk ∈ (info.decomposeInput input).valueChunks, ∀ entry ∈ chunk,
    info.table.InRange entry
  zeroing : ∀ i chunk, (info.decomposeInput input).zeroingChunks[i]? = some chunk →
    ∀ entry ∈ chunk, (info.zeroingTable i).InRange entry
  combined : ∀ k value, input[k]? = some value →
    info.combineInputClaims (claimsAt F (info.decomposeInput input).shiftedChunks k)
      (claimsAt F (info.decomposeInput input).valueChunks k)
      (claimsAt F (info.decomposeInput input).zeroingChunks k) = .ok ((value : Int) : F)

section RoundTrip

variable {self : ChunkingInfo} {rs : Nat} {tt : Table} {m nv : Nat}

/-- The zeroing chunk of a value that does not overflow. -/
theorem IsNew.zeroingTable_inRange (hself : self.IsNew rs tt m nv) (hfit : ShiftsFit rs tt m nv)
    {value : Int} (hvalue : Rounded rs m tt.tableSign value)
    (hno : ¬ Overflows rs tt m nv value) {i : Nat} (hi : i < self.numberOfZeroingChunks) :
    (self.zeroingTable i).InRange (self.zeroingChunk value i) := by
  unfold zeroingTable
  by_cases hplain : self.isPlainZeroingChunk i
  · rw [if_pos hplain]
    exact zeroingChunk_inRange value hplain
  · rw [if_neg hplain]
    have htop : i = self.numberOfZeroingChunks - 1 := by
      apply Classical.byContradiction
      intro hne
      exact hplain (Or.inl hne)
    have hsign : tt.tableSign = .mixed := by
      have hsigned : ¬ self.isSigned = false := fun h => hplain (Or.inr h)
      rw [hself.isSigned] at hsigned
      simpa using hsigned
    have hlt : rs + tt.tableBitSize * nv < m := by
      have hcount := hself.numberOfZeroingChunks
      omega
    rw [htop]
    exact hself.topZeroingChunk_inRange hfit hsign hlt hvalue hno

/-- When the sum has one bit more than the chunks cover, they combine to another value. -/
theorem IsNew.not_combined {F : Type} [Field F] (h2 : (2 : F) ≠ 0)
    (hself : self.IsNew rs tt m nv) (hsign : tt.tableSign = .mixed)
    (hcovered : coveredBits rs tt m nv ≤ 64) {value : Int}
    (hlower : (2 : Int) ^ coveredBits rs tt m nv ≤ value + self.offset)
    (hupper : value + self.offset < 2 ^ coveredBits rs tt m nv + 2 ^ coveredBits rs tt m nv) :
    ((self.signedValue (self.offsetValue value % 2 ^ coveredBits rs tt m nv) : Int) : F) ≠
      ((value : Int) : F) := by
  intro hcombined
  have hmod : self.offsetValue value % 2 ^ coveredBits rs tt m nv =
      value + self.offset - 2 ^ coveredBits rs tt m nv := by
    have hoffset : self.offsetValue value = wrapI64 (value + self.offset) := by
      simp only [offsetValue, hself.table, hsign]
    rw [hoffset, wrapI64_emod _ hcovered, ← Int.sub_emod_right]
    exact Int.emod_eq_of_lt (by omega) (by omega)
  have hint : value + self.offset - 2 ^ coveredBits rs tt m nv - self.offset =
      value - 2 ^ coveredBits rs tt m nv := by omega
  simp only [signedValue, hself.table, hsign, hmod, hint] at hcombined
  push_cast at hcombined
  exact pow_ne_zero _ h2 (sub_eq_self.mp hcombined)

/-- A value that overflows makes the round trip fail. -/
theorem IsNew.not_overflows {F : Type} [Field F] [DecidableEq F] (h2 : (2 : F) ≠ 0)
    (hself : self.IsNew rs tt m nv) (hfit : ShiftsFit rs tt m nv) {value : Int}
    (hvalue : Rounded rs m tt.tableSign value)
    (hrange : ∀ i < self.numberOfZeroingChunks,
      (self.zeroingTable i).InRange (self.zeroingChunk value i))
    (hcombined : ((self.signedValue (self.offsetValue value % 2 ^ coveredBits rs tt m nv) : Int) : F)
      = ((value : Int) : F)) :
    ¬ Overflows rs tt m nv value := by
  have hcount := hself.numberOfZeroingChunks
  have hm63 := hfit.maxBitSize
  rintro (⟨hsign, hlt, hbig, hwhy⟩ | ⟨hsign, heq, hbig⟩)
  · obtain ⟨hm, hbits, _⟩ := hfit.mixed hsign
    by_cases hdvd : 16 ∣ m - (rs + tt.tableBitSize * nv)
    · -- the chunks cover `m` bits, and the sum has one more
      have hcovered : coveredBits rs tt m nv = m := by
        rw [coveredBits, zeroingChunksFor_eq]
        omega
      obtain ⟨_, _, hbounds⟩ := offset_bounds hfit hsign hvalue
      obtain ⟨_, hupper⟩ := hbounds hlt
      have hlower : (2 : Int) ^ m ≤ value + self.offset := by
        rw [hself.offset, offsetFor_of_lt hsign hbits hlt, two_pow_eq_add hm]
        omega
      have hvalues : (2 : Int) ^ (rs + tt.tableBitSize * nv) ≤ 2 ^ m :=
        pow_le_pow_right₀ (by decide) (by omega)
      rw [← hself.offset] at hupper
      exact hself.not_combined h2 hsign (by omega) (by rwa [hcovered])
        (by rw [hcovered]; omega) hcombined
    · -- the sum has 64 bits, and the sign is copied into the highest chunk
      obtain ⟨hm', hne⟩ := hwhy.resolve_left hdvd
      have hcovered : 64 < coveredBits rs tt m nv := by
        rw [coveredBits, zeroingChunksFor_eq] at hne ⊢
        omega
      have htop := hrange (self.numberOfZeroingChunks - 1) (by omega)
      have hsigned : ¬ self.isPlainZeroingChunk (self.numberOfZeroingChunks - 1) :=
        hself.not_isPlainZeroingChunk hsign (by omega)
      rw [zeroingTable, if_neg hsigned] at htop
      exact hself.topZeroingChunk_not_inRange hfit hsign hlt hm' hcovered hvalue hbig htop
  · -- no zeroing chunk takes the carry of the rounding constant
    obtain ⟨hm, hbits, _⟩ := hfit.mixed hsign
    have hcovered : coveredBits rs tt m nv = m := by
      rw [coveredBits, zeroingChunksFor_eq]
      omega
    have hoffset : self.offset = 2 ^ (m - 1) := by
      rw [hself.offset, offsetFor_of_le hsign hbits heq.le, heq]
    have hrounding : (2 : Int) ^ (rs - 1) ≤ 2 ^ m := pow_le_pow_right₀ (by decide) (by omega)
    have hdouble := two_pow_eq_add hm
    rw [hsign] at hvalue
    have hupper := hvalue.2
    exact hself.not_combined h2 hsign (by omega) (by rw [hcovered, hoffset]; omega)
      (by rw [hcovered, hoffset]; omega) hcombined

/-- The decomposition of rounded values stays inside of the tables and can be undone exactly if
    no value overflows. -/
theorem roundTrips_rounded_iff {F : Type} [Field F] [DecidableEq F] (h2 : (2 : F) ≠ 0)
    (hnew : new rs tt m nv = .ok self) (hfit : ShiftsFit rs tt m nv) {input : List Int}
    (hinput : ∀ value ∈ input, Rounded rs m tt.tableSign value) :
    RoundTrips F self input ↔ ∀ value ∈ input, ¬ Overflows rs tt m nv value := by
  have hself := isNew_of_new_eq_ok hnew
  have hcombine : ∀ k value, input[k]? = some value →
      self.combineInputClaims (claimsAt F (self.decomposeInput input).shiftedChunks k)
        (claimsAt F (self.decomposeInput input).valueChunks k)
        (claimsAt F (self.decomposeInput input).zeroingChunks k) =
      .ok ((self.signedValue (self.offsetValue value % 2 ^ coveredBits rs tt m nv) : Int) : F) := by
    intro k value hk
    rw [decomposeInput_eq, claimsAt_map_range F _ _ hk, claimsAt_map_range F _ _ hk,
      claimsAt_map_range F _ _ hk, hself.combineInputClaims_chunks h2, hself.coveredBits_eq]
  constructor
  · intro htrip value hvalue
    obtain ⟨k, hk⟩ := List.mem_iff_getElem?.mp hvalue
    apply hself.not_overflows h2 hfit (hinput value hvalue)
    · intro i hi
      have hchunk : (self.decomposeInput input).zeroingChunks[i]? =
          some (input.map fun value => self.zeroingChunk value i) := by
        rw [decomposeInput_eq, List.getElem?_map, List.getElem?_range hi]
        rfl
      exact htrip.zeroing i _ hchunk _ (List.mem_map_of_mem hvalue)
    · exact Except.ok.inj ((hcombine k value hk).symm.trans (htrip.combined k value hk))
  · intro hno
    constructor
    case shifted =>
      rw [decomposeInput_eq]
      intro chunk hchunk entry hentry
      obtain ⟨i, _, rfl⟩ := List.mem_map.mp hchunk
      obtain ⟨value, _, rfl⟩ := List.mem_map.mp hentry
      exact hself.shiftedChunk_inRange value i
    case lastShifted =>
      rw [decomposeInput_eq]
      intro chunk hchunk entry hentry
      obtain ⟨n, hn⟩ := Nat.exists_eq_succ_of_ne_zero hself.numberOfShiftedChunks_pos.ne'
      rw [hn, List.range_succ, List.map_append, List.map_singleton, List.getLast?_concat] at hchunk
      obtain rfl := Option.some.inj hchunk
      obtain ⟨value, _, rfl⟩ := List.mem_map.mp hentry
      have hdvd := hself.shiftedChunkMultiplier_dvd value
      rwa [hn] at hdvd
    case value =>
      rw [decomposeInput_eq, hself.table]
      intro chunk hchunk entry hentry
      obtain ⟨i, _, rfl⟩ := List.mem_map.mp hchunk
      obtain ⟨value, _, rfl⟩ := List.mem_map.mp hentry
      exact hself.valueChunk_inRange hfit value i
    case zeroing =>
      rw [decomposeInput_eq]
      intro i chunk hchunk entry hentry
      rw [List.getElem?_map, Option.map_eq_some_iff] at hchunk
      obtain ⟨j, hj, rfl⟩ := hchunk
      obtain ⟨hi, rfl⟩ := List.getElem?_eq_some_iff.mp hj
      rw [List.length_range] at hi
      rw [List.getElem_range] at hentry
      obtain ⟨value, hvalue, rfl⟩ := List.mem_map.mp hentry
      exact hself.zeroingTable_inRange hfit (hinput value hvalue) (hno value hvalue) hi
    case combined =>
      intro k value hk
      have hvalue := List.mem_of_getElem? hk
      rw [hcombine k value hk, hself.covered_eq hfit (hinput value hvalue) (hno value hvalue)]

/-- The decomposition stays inside of the tables and can be undone exactly if no value
    overflows. -/
theorem roundTrips_iff {F : Type} [Field F] [DecidableEq F] (h2 : (2 : F) ≠ 0)
    (hnew : new rs tt m nv = .ok self) (hfit : ShiftsFit rs tt m nv) {input : List Int}
    (hinput : ∀ value ∈ input, Representable m tt.tableSign value) :
    RoundTrips F self input ↔ ∀ value ∈ input, ¬ TopOverflow rs tt m nv value := by
  have hrounded := roundTrips_rounded_iff h2 hnew hfit fun value hvalue =>
    (hinput value hvalue).rounded
  rw [hrounded]
  constructor
  · intro hno value hvalue
    exact fun htop => hno value hvalue (Or.inl htop)
  · intro hno value hvalue
    rw [(hinput value hvalue).overflows_iff]
    exact hno value hvalue

end RoundTrip

/-! ## A decomposition into one chunk of each kind -/

section OneChunkOfEach

/-- 16 bits shifted out, 8 bits looked up, and 16 bits above them. -/
def oneChunkOfEach : ChunkingInfo where
  valueChunkSize := 8
  numberOfValueChunks := 1
  rightShift := 16
  offset := 2 ^ 39 + 2 ^ 23
  valueChunkOffset := 2 ^ 7
  numberOfShiftedChunks := 1
  numberOfZeroingChunks := 1
  isSigned := true
  shiftedChunkMultiplier := 1
  topZeroingChunkOffset := 2 ^ 15
  table := Table.newRequantise 8

theorem new_oneChunkOfEach : new 16 (Table.newRequantise 8) 40 1 = .ok oneChunkOfEach := by
  decide

/-- The largest value that does not overflow, and the smallest value. -/
theorem roundTrips_oneChunkOfEach :
    RoundTrips (ZMod 5) oneChunkOfEach [2 ^ 39 - 2 ^ 23 - 1, -2 ^ 39] :=
  (roundTrips_iff (by decide) new_oneChunkOfEach
    ⟨by decide, by decide, by decide, fun _ => by decide⟩ (by decide)).mpr (by decide)

/-- **The largest value overflows.** Its chunks combine to `2 ^ 40` less. -/
theorem roundTrips_fails_max :
    Representable 40 (Table.newRequantise 8).tableSign (2 ^ 39 - 1) ∧
      new 16 (Table.newRequantise 8) 40 1 = .ok oneChunkOfEach ∧
      ¬ RoundTrips (ZMod 5) oneChunkOfEach [2 ^ 39 - 1] := by
  refine ⟨by decide, new_oneChunkOfEach, ?_⟩
  intro htrip
  have hcombined := htrip.combined 0 (2 ^ 39 - 1) rfl
  revert hcombined
  decide

end OneChunkOfEach

end ChunkingInfo

end DeepProve
