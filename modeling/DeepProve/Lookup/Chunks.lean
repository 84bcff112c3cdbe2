import DeepProve.ForStd.Digits
import DeepProve.Lookup.Decomposer

/-!
# The chunks of a value

The chunks of a value are digits of various widths of the value with its offset, and
combining them adds these digits up again.
-/

namespace DeepProve

theorem zipIdx_map_range {α : Type} (f : Nat → α) (n : Nat) :
    ((List.range n).map f).zipIdx = (List.range n).map fun i => (f i, i) := by
  apply List.ext_getElem
  · simp
  · intro i _ _
    simp

/-- A loop that adds one term for each index. -/
theorem foldl_map_range {α F : Type} [AddCommMonoid F] {step : F → α → F} {entry : Nat → α}
    {term : Nat → F} {n : Nat} (h : ∀ i < n, ∀ acc, step acc (entry i) = acc + term i) (init : F) :
    ((List.range n).map entry).foldl step init = init + ∑ i ∈ Finset.range n, term i := by
  induction n with
  | zero => simp
  | succ n ih =>
    rw [List.range_succ, List.map_append, List.foldl_append,
      ih fun i hi => h i (Nat.lt_succ_of_lt hi), Finset.sum_range_succ, ← add_assoc]
    exact h n (Nat.lt_succ_self n) _

theorem foldlM_map_range {α F : Type} [AddCommMonoid F] {step : F → α → Outcome F}
    {entry : Nat → α} {term : Nat → F} {n : Nat}
    (h : ∀ i < n, ∀ acc, step acc (entry i) = .ok (acc + term i)) (init : F) :
    ((List.range n).map entry).foldlM step init =
      .ok (init + ∑ i ∈ Finset.range n, term i) := by
  induction n with
  | zero => simp; rfl
  | succ n ih =>
    rw [List.range_succ, List.map_append, List.foldlM_append,
      ih fun i hi => h i (Nat.lt_succ_of_lt hi), Finset.sum_range_succ, ← add_assoc,
      Outcome.ok_bind, List.map_singleton, List.foldlM_cons, h n (Nat.lt_succ_self n)]
    rfl

/-! ## The chunks as digits -/

/-- The loop over chunks cuts digits. -/
theorem takeChunks_eq (width : Nat → Nat) (store : Nat → Int → Int) (count : Nat)
    (x : Int) :
    takeChunks width store count x =
      ((List.range count).map fun i => store i (Digits.digit width x i),
        x / 2 ^ Digits.offset width count) := by
  unfold takeChunks
  induction count with
  | zero => simp
  | succ count ih =>
    rw [List.range_succ, List.foldl_append, ih, List.foldl_cons, List.foldl_nil, List.map_append,
      Digits.offset_succ, Digits.ediv_two_pow_add]
    rfl

/-- Pushing the chunks of one value after the other transposes them. -/
theorem foldl_pushChunks (n : Nat) (chunk : Int → Nat → Int) (input : List Int)
    (stored : Nat → List Int) :
    input.foldl (fun acc value => pushChunks acc ((List.range n).map (chunk value)))
        ((List.range n).map stored) =
      (List.range n).map fun i => stored i ++ input.map fun value => chunk value i := by
  induction input generalizing stored with
  | nil => simp
  | cons value input ih =>
    have hpush : pushChunks ((List.range n).map stored) ((List.range n).map (chunk value)) =
        (List.range n).map fun i => stored i ++ [chunk value i] := by
      rw [pushChunks, List.zipWith_map, List.zipWith_self]
    rw [List.foldl_cons, hpush, ih]
    simp

namespace ChunkingInfo

section Chunks

variable (self : ChunkingInfo)

/-- The value above the shifted chunks. -/
def shiftedValue (value : Int) : Int :=
  self.offsetValue value / 2 ^ Digits.offset self.shiftedChunkSize self.numberOfShiftedChunks

/-- The value above the value chunks. -/
def zeroingValue (value : Int) : Int :=
  self.shiftedValue value / 2 ^ (self.valueChunkSize * self.numberOfValueChunks)

/-- A value from what its chunks cover: the offset and the sign are undone. -/
def signedValue (covered : Int) : Int :=
  match self.table.tableSign with
  | .mixed => covered - self.offset
  | .positive => covered
  | .negative => -covered

def shiftedChunk (value : Int) (i : Nat) : Int :=
  self.storeShiftedChunk i (Digits.digit self.shiftedChunkSize (self.offsetValue value) i)

def valueChunk (value : Int) (i : Nat) : Int :=
  self.storeValueChunk (Digits.digit (fun _ => self.valueChunkSize) (self.shiftedValue value) i)

def zeroingChunk (value : Int) (i : Nat) : Int :=
  self.storeZeroingChunk i
    (Digits.digit (fun _ => zeroCheckTableBitSize) (self.zeroingValue value) i)

theorem decomposeValue_eq (value : Int) :
    self.decomposeValue value =
      ((List.range self.numberOfShiftedChunks).map (self.shiftedChunk value),
        (List.range self.numberOfValueChunks).map (self.valueChunk value),
        (List.range self.numberOfZeroingChunks).map (self.zeroingChunk value)) := by
  simp only [decomposeValue, takeChunks_eq, Digits.offset_const]
  rfl

/-- The chunks of all values. -/
theorem decomposeInput_eq (input : List Int) :
    self.decomposeInput input =
      ⟨(List.range self.numberOfShiftedChunks).map fun i =>
          input.map fun value => self.shiftedChunk value i,
        (List.range self.numberOfValueChunks).map fun i =>
          input.map fun value => self.valueChunk value i,
        (List.range self.numberOfZeroingChunks).map fun i =>
          input.map fun value => self.zeroingChunk value i⟩ := by
  -- the three components of the accumulator do not depend on each other
  have hsplit : ∀ acc : ChunkedInput, input.foldl (fun acc value =>
      let chunks := self.decomposeValue value
      (⟨pushChunks acc.shiftedChunks chunks.1, pushChunks acc.valueChunks chunks.2.1,
        pushChunks acc.zeroingChunks chunks.2.2⟩ : ChunkedInput)) acc =
      ⟨input.foldl (fun acc value => pushChunks acc
          ((List.range self.numberOfShiftedChunks).map (self.shiftedChunk value))) acc.shiftedChunks,
        input.foldl (fun acc value => pushChunks acc
          ((List.range self.numberOfValueChunks).map (self.valueChunk value))) acc.valueChunks,
        input.foldl (fun acc value => pushChunks acc
          ((List.range self.numberOfZeroingChunks).map (self.zeroingChunk value)))
          acc.zeroingChunks⟩ := by
    induction input with
    | nil => exact fun _ => rfl
    | cons value input ih =>
      intro acc
      rw [List.foldl_cons, ih, decomposeValue_eq]
      rfl
  have hempty : ∀ n, List.replicate n ([] : List Int) = (List.range n).map fun _ => [] := by
    intro n
    rw [List.map_const', List.length_range]
  unfold decomposeInput
  refine (hsplit _).trans ?_
  simp only [hempty, foldl_pushChunks, List.nil_append]

end Chunks

/-! ## A chunking info that `new` has built -/

/-- What `new` puts into the fields. -/
structure IsNew (info : ChunkingInfo) (rs : Nat) (tt : Table) (m nv : Nat) : Prop where
  rightShift_pos : 0 < rs
  oneValueChunk : nv = 1 ∨ tt.operation = .requantise
  valueChunkSize : info.valueChunkSize = tt.tableBitSize
  numberOfValueChunks : info.numberOfValueChunks = nv
  rightShift : info.rightShift = rs
  offset : info.offset = offsetFor rs tt m nv
  valueChunkOffset : tt.tableSign = .mixed →
    info.valueChunkOffset = 2 ^ (tt.tableBitSize - 1)
  numberOfShiftedChunks : info.numberOfShiftedChunks = (rs + 15) / 16
  numberOfZeroingChunks : info.numberOfZeroingChunks =
    (m - (rs + tt.tableBitSize * nv) + 15) / 16
  isSigned : info.isSigned = (tt.tableSign == .mixed)
  shiftedChunkMultiplier : info.shiftedChunkMultiplier =
    if rs % 16 ≠ 0 then 2 ^ (16 - rs % 16) else 1
  topZeroingChunkOffset : 0 < info.numberOfZeroingChunks → tt.tableSign = .mixed →
    info.topZeroingChunkOffset = info.offset / 2 ^ (rs +
      tt.tableBitSize * nv + (info.numberOfZeroingChunks - 1) * 16)
  table : info.table = tt

variable {self : ChunkingInfo} {rs : Nat} {tt : Table} {m nv : Nat}

theorem isNew_of_new_eq_ok (h : new rs tt m nv = .ok self) : self.IsNew rs tt m nv := by
  simp only [new, Outcome.bind_eq_ok, ensure_eq_ok, decide_eq_true_eq, Bool.or_eq_true,
    beq_iff_eq] at h
  obtain ⟨_, hpos, _, hchunks, hself⟩ := h
  obtain rfl := Except.ok.inj hself
  constructor
  case valueChunkOffset => exact fun hsign => by simp only [hsign]
  case topZeroingChunkOffset =>
    intro hzeroing hsign
    exact if_pos ⟨hzeroing, hsign⟩
  all_goals first | exact hpos | exact hchunks | rfl

namespace IsNew

/-- The highest chunk carries the sign. -/
theorem not_isPlainZeroingChunk (hself : self.IsNew rs tt m nv) (hsign : tt.tableSign = .mixed) {top : Nat}
    (htop : self.numberOfZeroingChunks = top + 1) : ¬ self.isPlainZeroingChunk top := by
  rintro (hne | hunsigned)
  · omega
  · rw [hself.isSigned, hsign] at hunsigned
    cases hunsigned

/-- All chunks of a shift but the last one are full. -/
theorem offset_shiftedChunkSize {i : Nat} (hi : i < self.numberOfShiftedChunks) :
    Digits.offset self.shiftedChunkSize i = 16 * i := by
  rw [← Digits.offset_const]
  apply Digits.offset_congr
  intro j hj
  exact if_pos (Or.inl (by omega))

variable (hself : self.IsNew rs tt m nv)

include hself

theorem numberOfShiftedChunks_pos : 0 < self.numberOfShiftedChunks := by
  have := hself.rightShift_pos
  rw [hself.numberOfShiftedChunks]
  omega

/-- The shifted chunks cover the right shift. -/
theorem offset_numberOfShiftedChunks :
    Digits.offset self.shiftedChunkSize self.numberOfShiftedChunks = rs := by
  have hpos := hself.numberOfShiftedChunks_pos
  have hcount := hself.numberOfShiftedChunks
  obtain ⟨n, hn⟩ := Nat.exists_eq_succ_of_ne_zero hpos.ne'
  rw [hn, Digits.offset_succ, offset_shiftedChunkSize (by omega)]
  have hright := hself.rightShift
  unfold shiftedChunkSize
  split
  case isTrue hfull =>
    have hzero : self.rightShift % 16 = 0 := hfull.resolve_left (by omega)
    show 16 * n + 16 = rs
    omega
  case isFalse hfull =>
    show 16 * n + self.rightShift % 16 = rs
    have hne : self.rightShift % 16 ≠ 0 := fun hzero => hfull (Or.inr hzero)
    omega

/-- The number of bits that the chunks cover. -/
theorem maxBitSize_le : m ≤
    rs + tt.tableBitSize * nv + 16 * self.numberOfZeroingChunks := by
  have hcount := hself.numberOfZeroingChunks
  omega

section Combine

variable {F : Type} [Field F]

/-- The multiplier of the last shifted chunk can be taken off again. -/
theorem shiftedChunkMultiplier_ne_zero (h2 : (2 : F) ≠ 0) :
    ((self.shiftedChunkMultiplier : Int) : F) ≠ 0 := by
  rw [hself.shiftedChunkMultiplier]
  split
  · push_cast
    exact pow_ne_zero _ h2
  · simp

variable [DecidableEq F]

theorem combineShifted_chunks (h2 : (2 : F) ≠ 0) (value : Int) :
    (((List.range self.numberOfShiftedChunks).map fun i =>
        ((self.shiftedChunk value i : Int) : F)).zipIdx).foldlM self.combineShifted 0 =
      .ok ((self.offsetValue value % 2 ^ rs : Int) : F) := by
  have hstep : ∀ i < self.numberOfShiftedChunks, ∀ acc : F,
      self.combineShifted acc (((self.shiftedChunk value i : Int) : F), i) =
        .ok (acc + ((Digits.digit self.shiftedChunkSize (self.offsetValue value) i *
          2 ^ Digits.offset self.shiftedChunkSize i : Int) : F)) := by
    intro i hi acc
    rw [offset_shiftedChunkSize hi, Nat.mul_comm 16 i]
    unfold combineShifted shiftedChunk storeShiftedChunk
    by_cases hfull : self.isFullShiftedChunk i
    · simp only [if_pos hfull]
      push_cast
      rfl
    · have hne := hself.shiftedChunkMultiplier_ne_zero (F := F) h2
      simp only [if_neg hfull, inverseOf, if_neg hne, Outcome.ok_bind]
      push_cast
      rw [mul_inv_cancel_right₀ hne]
  rw [zipIdx_map_range, foldlM_map_range hstep, zero_add, ← Int.cast_sum, Digits.sum_digit,
    hself.offset_numberOfShiftedChunks]

omit [DecidableEq F] in
/-- The chunk of the value table without its offset and its sign is the digit. -/
theorem combineValue_chunks (value : Int) :
    (((List.range self.numberOfValueChunks).map fun i =>
        ((self.valueChunk value i : Int) : F)).zipIdx).foldl self.combineValue 0 =
      ((self.shiftedValue value % 2 ^ (tt.tableBitSize * nv) : Int) : F) := by
  have hstep : ∀ i < self.numberOfValueChunks, ∀ acc : F,
      self.combineValue acc (((self.valueChunk value i : Int) : F), i) =
        acc + ((Digits.digit (fun _ => self.valueChunkSize) (self.shiftedValue value) i *
          2 ^ Digits.offset (fun _ => self.valueChunkSize) i : Int) : F) := by
    intro i _ acc
    rw [Digits.offset_const, Nat.mul_comm self.valueChunkSize i]
    unfold combineValue valueChunk storeValueChunk
    cases self.table.tableSign <;> push_cast <;> ring
  rw [zipIdx_map_range, foldl_map_range hstep, zero_add, ← Int.cast_sum, Digits.sum_digit,
    Digits.offset_const, hself.valueChunkSize, hself.numberOfValueChunks]

omit [DecidableEq F] in
theorem combineZeroing_chunks (value : Int) (init : F) :
    (((List.range self.numberOfZeroingChunks).map fun i =>
        ((self.zeroingChunk value i : Int) : F)).zipIdx).foldl self.combineZeroing init =
      init + ((self.zeroingValue value % 2 ^ (16 * self.numberOfZeroingChunks) *
        2 ^ (rs + tt.tableBitSize * nv) : Int) : F) := by
  have hstep : ∀ i < self.numberOfZeroingChunks, ∀ acc : F,
      self.combineZeroing acc (((self.zeroingChunk value i : Int) : F), i) =
        acc + ((Digits.digit (fun _ => 16) (self.zeroingValue value) i *
          2 ^ Digits.offset (fun _ => 16) i * 2 ^ (rs + tt.tableBitSize * nv) : Int) : F) := by
    intro i _ acc
    rw [Digits.offset_const, Nat.mul_comm 16 i]
    unfold combineZeroing zeroingChunk storeZeroingChunk
    rw [hself.valueChunkSize, hself.numberOfValueChunks, hself.rightShift]
    by_cases hplain : self.isPlainZeroingChunk i
    · simp only [if_pos hplain]
      push_cast
      ring
    · simp only [if_neg hplain]
      push_cast
      ring
  rw [zipIdx_map_range, foldl_map_range hstep, ← Int.cast_sum, ← Finset.sum_mul, Digits.sum_digit,
    Digits.offset_const]

/-- The chunks combine to the value with its offset, modulo what they cover. -/
theorem combineInputClaims_chunks (h2 : (2 : F) ≠ 0) (value : Int) :
    self.combineInputClaims
        ((List.range self.numberOfShiftedChunks).map fun i => ((self.shiftedChunk value i : Int) : F))
        ((List.range self.numberOfValueChunks).map fun i => ((self.valueChunk value i : Int) : F))
        ((List.range self.numberOfZeroingChunks).map fun i =>
          ((self.zeroingChunk value i : Int) : F)) =
      .ok ((self.signedValue (self.offsetValue value %
        2 ^ (rs + tt.tableBitSize * nv + 16 * self.numberOfZeroingChunks)) : Int) : F) := by
  have hshifted : self.shiftedValue value = self.offsetValue value / 2 ^ rs := by
    rw [shiftedValue, hself.offset_numberOfShiftedChunks]
  have hzeroing : self.zeroingValue value =
      self.offsetValue value / 2 ^ (rs + tt.tableBitSize * nv) := by
    rw [zeroingValue, hshifted, Digits.ediv_two_pow_add, hself.valueChunkSize,
      hself.numberOfValueChunks]
  rw [Digits.emod_two_pow_add, Digits.emod_two_pow_add, ← hshifted, ← hzeroing]
  unfold combineInputClaims signedValue
  rw [hself.combineShifted_chunks h2, hself.combineValue_chunks, Outcome.ok_bind]
  dsimp only
  rw [hself.combineZeroing_chunks, hself.table, hself.rightShift]
  cases tt.tableSign <;> simp only [Except.ok.injEq] <;> push_cast <;> ring

end Combine

end IsNew

end ChunkingInfo

end DeepProve
