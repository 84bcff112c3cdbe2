import DeepProve.Lookup.Outputs
import DeepProve.Lookup.Variant
import DeepProve.Lookup.TableVerifier

/-!
# The output of a lookup as an expression

The expression that the linking sumcheck is about is the output of inference, evaluated at
the outputs of the chunks: where the shifted value is in the range of the table the
selector is one, and elsewhere the zeroing chunks choose the end of the range.
-/

namespace DeepProve

/-! ## The table of inference -/

section EvaluationTable

variable {fl : Float32Ops} {tt : Table} {nv : Nat}

theorem Table.tableSign_evaluationTable : (tt.evaluationTable nv).tableSign = tt.tableSign := by
  unfold evaluationTable
  split <;> rfl

theorem Table.operation_evaluationTable : (tt.evaluationTable nv).operation = tt.operation := by
  unfold evaluationTable
  split <;> rfl

theorem Table.tableBitSize_evaluationTable :
    (tt.evaluationTable nv).tableBitSize = tt.tableBitSize * nv := by
  unfold evaluationTable
  split
  case isTrue h => rw [h, Nat.mul_one]
  case isFalse => rfl

theorem Table.maxInputValue_evaluationTable (hsign : tt.tableSign = .mixed) :
    (tt.evaluationTable nv).maxInputValue = 2 ^ (tt.tableBitSize * nv - 1) - 1 := by
  have hsign' : (tt.evaluationTable nv).operation.inputSign = .mixed :=
    tableSign_evaluationTable.trans hsign
  unfold maxInputValue
  rw [hsign', tableBitSize_evaluationTable]

theorem Table.minInputValue_evaluationTable (hsign : tt.tableSign = .mixed) :
    (tt.evaluationTable nv).minInputValue = -2 ^ (tt.tableBitSize * nv - 1) := by
  have hsign' : (tt.evaluationTable nv).operation.inputSign = .mixed :=
    tableSign_evaluationTable.trans hsign
  unfold minInputValue
  rw [hsign', tableBitSize_evaluationTable]

end EvaluationTable

namespace ChunkingInfo

/-! ## The range, from the excess -/

section Excess

variable {rs : Nat} {tt : Table} {nv : Nat} {x : Int}

theorem IsNew.excess_pos_iff (hsign : tt.tableSign = .mixed) (hbits : 1 ≤ tt.tableBitSize * nv) :
    0 < IsNew.excess rs tt nv x ↔ (tt.evaluationTable nv).maxInputValue < x / 2 ^ rs := by
  have hpos := Digits.two_pow_pos (tt.tableBitSize * nv)
  have hdouble : (2 : Int) ^ (tt.tableBitSize * nv) = _ := two_pow_eq_add hbits
  rw [Table.maxInputValue_evaluationTable hsign, IsNew.excess, ← Int.add_one_le_iff, zero_add,
    Int.le_ediv_iff_mul_le hpos, one_mul]
  omega

theorem IsNew.excess_neg_iff (hsign : tt.tableSign = .mixed) :
    IsNew.excess rs tt nv x < 0 ↔ x / 2 ^ rs < (tt.evaluationTable nv).minInputValue := by
  have hpos := Digits.two_pow_pos (tt.tableBitSize * nv)
  rw [Table.minInputValue_evaluationTable hsign, IsNew.excess, Int.ediv_lt_iff_lt_mul hpos, zero_mul]
  omega

theorem IsNew.excess_eq_zero_iff (hsign : tt.tableSign = .mixed)
    (hbits : 1 ≤ tt.tableBitSize * nv) :
    IsNew.excess rs tt nv x = 0 ↔ (tt.evaluationTable nv).InRange (x / 2 ^ rs) := by
  have hneg := @IsNew.excess_neg_iff rs tt nv x hsign
  have hpos := @IsNew.excess_pos_iff rs tt nv x hsign hbits
  unfold Table.InRange
  omega

end Excess

end ChunkingInfo

/-! ## The value of the expression -/

section Expression

variable {F : Type} [Field F] [DecidableEq F] {D : DpCrypto F} (hD : D.Lawful) {w ch : List F}

omit [DecidableEq F] in
/-- A product of tests whether digits are zero. -/
theorem prod_ite_one_zero {x : Int} {n : Nat} (width : Nat → Nat) :
    ∏ i ∈ Finset.range n, (if Digits.digit width x i = 0 then (1 : F) else 0) =
      if x % 2 ^ Digits.offset width n = 0 then 1 else 0 := by
  by_cases hall : x % 2 ^ Digits.offset width n = 0
  · rw [if_pos hall]
    apply Finset.prod_eq_one
    intro i hi
    exact if_pos ((Digits.forall_digit_eq_zero_iff width x n).mpr hall i (Finset.mem_range.mp hi))
  · rw [if_neg hall]
    rw [← Digits.forall_digit_eq_zero_iff] at hall
    obtain ⟨i, hi⟩ := not_forall.mp hall
    obtain ⟨hlt, hne⟩ := Classical.not_imp.mp hi
    exact Finset.prod_eq_zero (Finset.mem_range.mpr hlt) (if_neg hne)

/-- The value between two ends that the outputs of the zeroing chunks select: `p` is the product
    of the lower ones, `t` the highest one. -/
def clampedValue (p t value clampingMin clampingMax : F) : F :=
  (t * (t + 1) * 2⁻¹ + ((1 - t * t) - p * (1 - t * t))) * clampingMax +
    t * (t - 1) * 2⁻¹ * clampingMin + p * (1 - t * t) * value

omit [DecidableEq F] in
/-- The digits of an excess select the value or the end of the range that is exceeded. -/
theorem clampedValue_of_excess (h2 : (2 : F) ≠ 0) {p t value clampingMin clampingMax : F} {q : Int}
    {n : Nat} (hp : p = if q % 2 ^ n = 0 then 1 else 0) (ht : t = ((q / 2 ^ n).sign : Int)) :
    clampedValue p t value clampingMin clampingMax =
      if q = 0 then value else if 0 < q then clampingMax else clampingMin := by
  have hpow := Digits.two_pow_pos n
  have hsum := Int.emod_add_mul_ediv q (2 ^ n)
  have hmod := Int.emod_nonneg q hpow.ne'
  unfold clampedValue
  rcases lt_trichotomy (q / 2 ^ n) 0 with hneg | hzero | hpos
  · have hq : q < 0 := by
      rw [Int.ediv_lt_iff_lt_mul hpow, zero_mul] at hneg
      exact hneg
    rw [if_neg hq.ne, if_neg hq.not_gt, ht, Int.sign_eq_neg_one_of_neg hneg]
    push_cast
    linear_combination clampingMin * mul_inv_cancel₀ h2
  · rw [hzero, mul_zero, add_zero] at hsum
    rw [hsum] at hp hmod
    rw [ht, hzero, hp, Int.sign_zero]
    by_cases hq : q = 0
    · rw [if_pos hq, if_pos hq]
      push_cast
      ring
    · rw [if_neg hq, if_neg hq, if_pos (by omega)]
      push_cast
      ring
  · have hq : 0 < q := by
      have hmul := mul_pos hpow hpos
      omega
    rw [if_neg hq.ne', if_pos hq, ht, Int.sign_eq_one_of_pos hpos]
    push_cast
    linear_combination clampingMax * mul_inv_cancel₀ h2

include hD

omit [DecidableEq F] in
theorem eval_foldZeroChunks (initialSum : D.Expression) (offset : UInt16) (k : Nat) {n : Nat}
    {z : Nat → F} (hz : ∀ i < n, w[(offset + UInt16.ofNat i).toNat]? = some (z i)) :
    D.eval w ch (foldZeroChunks D initialSum offset k n).1 = .ok (∏ i ∈ Finset.range n, z i) := by
  unfold foldZeroChunks
  induction n with
  | zero => exact hD.constant w ch 1
  | succ n ih =>
    rw [List.range_succ, List.foldl_append, Finset.prod_range_succ]
    exact hD.mul _ _ _ _ _ _ (ih fun i hi => hz i (Nat.lt_succ_of_lt hi))
      (hD.witIn _ _ _ _ (hz n (Nat.lt_succ_self n)))

/-- What the value expression combines the outputs of the value chunks to. -/
def combinedValue (info : ChunkingInfo) (v : Nat → F) : F :=
  if info.numberOfValueChunks = 1 then
    v 0
  else
    -((fullValueOffset info : Int) : F) + ∑ i ∈ Finset.range info.numberOfValueChunks,
      2 ^ (info.table.tableBitSize * i) * (v i + 2 ^ (info.table.tableBitSize - 1))

omit [DecidableEq F] in
theorem eval_valueExpression {info : ChunkingInfo} {offset : UInt16} {v : Nat → F}
    (hv : ∀ i < info.numberOfValueChunks, w[(offset + UInt16.ofNat i).toNat]? = some (v i)) :
    D.eval w ch (ValueExpression.new D info offset).value = .ok (combinedValue info v) := by
  unfold ValueExpression.new combinedValue
  by_cases hone : info.numberOfValueChunks = 1
  · rw [if_pos hone, if_pos hone]
    apply hD.witIn
    have hfirst := hv 0 (by omega)
    rwa [show offset + UInt16.ofNat 0 = offset from UInt16.add_zero offset] at hfirst
  · rw [if_neg hone, if_neg hone]
    dsimp only
    generalize info.numberOfValueChunks = n at hv
    induction n with
    | zero =>
      rw [Finset.range_zero, Finset.sum_empty, add_zero]
      exact hD.constant _ _ _
    | succ n ih =>
      rw [List.range_succ, List.foldl_append, Finset.sum_range_succ, ← add_assoc]
      exact hD.add _ _ _ _ _ _ (ih fun i hi => hv i (Nat.lt_succ_of_lt hi))
        (hD.mul _ _ _ _ _ _ (hD.constant _ _ _)
          (hD.add _ _ _ _ _ _ (hD.witIn _ _ _ _ (hv n (Nat.lt_succ_self n))) (hD.constant _ _ _)))

namespace LookupVariant

variable {fl : Float32Ops} {info : ChunkingInfo} {valueExpr : ValueExpression D.Expression}
  {value : F} {z : Nat → F}
  (hvalue : D.eval w ch valueExpr.value = .ok value)
  (hz : ∀ i < info.numberOfZeroingChunks,
    w[(valueExpr.witnessOffset + UInt16.ofNat i).toNat]? = some (z i))

include hvalue hz

theorem eval_signedExpressions (h2 : (2 : F) ≠ 0) (self : LookupVariant)
    {clampingMin clampingMax : Int}
    (hclamp : clampingValues fl info = .ok (clampingMin, clampingMax)) :
    ∃ e, self.signedExpressions D fl info valueExpr = .ok e ∧
      D.eval w ch (e.prodExpression D) = .ok (
        if info.numberOfZeroingChunks = 0 then
          value
        else
          clampedValue (∏ i ∈ Finset.range (info.numberOfZeroingChunks - 1), z i)
            (z (info.numberOfZeroingChunks - 1)) value clampingMin clampingMax) := by
  have hprod := @eval_foldZeroChunks _ _ _ hD _ ch valueExpr.initialSum valueExpr.witnessOffset
    valueExpr.sumChallengeOffset (info.numberOfZeroingChunks - 1) _
    fun i hi => hz i (by omega)
  have hinv : ChunkingInfo.inverseOf (2 : F) "Cannot fail when inverting 2" = .ok 2⁻¹ := if_neg h2
  unfold signedExpressions
  simp only [hclamp, hinv, Outcome.ok_bind]
  by_cases hzero : info.numberOfZeroingChunks = 0
  · rw [if_neg (not_not_intro hzero), if_pos hzero]
    refine ⟨_, rfl, ?_⟩
    have hempty : ∏ i ∈ Finset.range (info.numberOfZeroingChunks - 1), z i = 1 := by
      rw [hzero]
      rfl
    have hsum := hD.add w ch _ _ _ _ (hD.constant w ch 0) (hD.mul w ch _ _ _ _ hprod hvalue)
    rw [hempty, one_mul, zero_add] at hsum
    exact hsum
  · rw [if_pos hzero, if_neg hzero]
    refine ⟨_, rfl, ?_⟩
    have hid : valueExpr.witnessOffset - 1 + UInt16.ofNat info.numberOfZeroingChunks =
        valueExpr.witnessOffset + UInt16.ofNat (info.numberOfZeroingChunks - 1) := by
      obtain ⟨n, hn⟩ := Nat.exists_eq_succ_of_ne_zero hzero
      rw [hn, Nat.succ_sub_one, Nat.succ_eq_add_one, UInt16.ofNat_add]
      grind
    have htop := hD.witIn w ch _ _ (hz (info.numberOfZeroingChunks - 1) (by omega))
    rw [← hid] at htop
    have hone := hD.constant w ch 1
    have homt := hD.sub w ch _ _ _ _ hone (hD.mul w ch _ _ _ _ htop htop)
    have hfirst := hD.add w ch _ _ _ _
      (hD.mul w ch _ _ _ _ (hD.mul w ch _ _ _ _ htop (hD.add w ch _ _ _ _ htop hone))
        (hD.constant w ch 2⁻¹))
      (hD.sub w ch _ _ _ _ homt (hD.mul w ch _ _ _ _ hprod homt))
    have hsecond := hD.mul w ch _ _ _ _
      (hD.mul w ch _ _ _ _ htop (hD.sub w ch _ _ _ _ htop hone)) (hD.constant w ch 2⁻¹)
    exact hD.add w ch _ _ _ _
      (hD.add w ch _ _ _ _ (hD.mul w ch _ _ _ _ hfirst (hD.constant w ch _))
        (hD.mul w ch _ _ _ _ hsecond (hD.constant w ch _)))
      (hD.mul w ch _ _ _ _ (hD.mul w ch _ _ _ _ hprod homt) hvalue)

omit [DecidableEq F] in
theorem eval_unsignedExpressions (hsign : info.table.tableSign = .negative)
    (hpos : 0 < info.numberOfZeroingChunks) :
    ∃ e, unsignedExpressions D fl info valueExpr = .ok e ∧
      D.eval w ch (e.prodExpression D) =
        .ok ((∏ i ∈ Finset.range info.numberOfZeroingChunks, z i) * value) := by
  have hprod := @eval_foldZeroChunks _ _ _ hD _ ch valueExpr.initialSum valueExpr.witnessOffset
    valueExpr.sumChallengeOffset _ _ hz
  have hsign' : info.table.operation.inputSign = .negative := hsign
  have hmin := Table.minOutputValue_of_negative fl hsign
  unfold unsignedExpressions
  simp only [hsign', hmin, Outcome.ok_bind, if_pos hpos.ne']
  refine ⟨_, rfl, ?_⟩
  have hsum := hD.add w ch _ _ _ _ (hD.constant w ch ((0 : Int) : F))
    (hD.mul w ch _ _ _ _ hprod hvalue)
  have hzero : ((0 : Int) : F) + (∏ i ∈ Finset.range info.numberOfZeroingChunks, z i) * value =
      (∏ i ∈ Finset.range info.numberOfZeroingChunks, z i) * value := by
    rw [Int.cast_zero, zero_add]
  rw [hzero] at hsum
  exact hsum

end LookupVariant

end Expression

/-! ## The chunks of one value -/

section Inference

variable {fl : Float32Ops} {info : ChunkingInfo} {rs : Nat} {tt : Table} {m nv : Nat} {x y : Int}

/-- The ends of the range are those of the table of inference. -/
theorem clampingValues_eq (hself : info.IsNew rs tt m nv) (hsign : tt.tableSign = .mixed) :
    ∃ clampingMin clampingMax,
      LookupVariant.clampingValues fl info = .ok (clampingMin, clampingMax) ∧
      (tt.evaluationTable nv).minOutputValue fl = .ok clampingMin ∧
      (tt.evaluationTable nv).maxOutputValue fl = .ok clampingMax := by
  have hle := Table.minInputValue_le_maxInputValue (tt.evaluationTable nv)
  have hmixed : (tt.evaluationTable nv).operation.inputSign = .mixed :=
    Table.tableSign_evaluationTable.trans hsign
  have hminOutput : (tt.evaluationTable nv).minOutputValue fl =
      (tt.evaluationTable nv).lookup fl (tt.evaluationTable nv).minInputValue := by
    unfold Table.minOutputValue
    cases hop : (tt.evaluationTable nv).operation <;> first | rfl | (rw [hop] at hmixed; cases hmixed)
  have hmaxOutput : (tt.evaluationTable nv).maxOutputValue fl =
      (tt.evaluationTable nv).lookup fl (tt.evaluationTable nv).maxInputValue := by
    unfold Table.maxOutputValue
    cases hop : (tt.evaluationTable nv).operation <;> first | rfl | (rw [hop] at hmixed; cases hmixed)
  unfold LookupVariant.clampingValues
  rw [hself.table, hself.numberOfValueChunks]
  by_cases hone : nv = 1
  · obtain ⟨clampingMin, hmin⟩ :=
      @Table.lookup_of_inRange fl (tt.evaluationTable nv) _ ⟨le_refl _, hle⟩
    obtain ⟨clampingMax, hmax⟩ :=
      @Table.lookup_of_inRange fl (tt.evaluationTable nv) _ ⟨hle, le_refl _⟩
    rw [← hminOutput] at hmin
    rw [← hmaxOutput] at hmax
    refine ⟨clampingMin, clampingMax, ?_, hmin, hmax⟩
    rw [Table.evaluationTable, if_pos hone] at hmin hmax
    rw [if_pos hone, hmin, hmax]
    rfl
  · -- several value chunks are those of a requantisation
    have hop : (tt.evaluationTable nv).operation = .requantise :=
      Table.operation_evaluationTable.trans (hself.oneValueChunk.resolve_left hone)
    rw [if_neg hone, hminOutput, hmaxOutput, Table.lookup_requantise fl hop ⟨le_refl _, hle⟩,
      Table.lookup_requantise fl hop ⟨hle, le_refl _⟩, Table.minInputValue_evaluationTable hsign,
      Table.maxInputValue_evaluationTable hsign, fullValueOffset, hself.table,
      hself.numberOfValueChunks, Nat.mul_comm nv]
    exact ⟨_, _, rfl, rfl, rfl⟩

section Value

variable {F : Type} [Field F] (hself : info.IsNew rs tt m nv) (hfit : ChunkingInfo.ShiftsFit rs tt m nv)
  (hsign : tt.tableSign = .mixed) (hx : ChunkingInfo.Representable m tt.tableSign x)
  (hno : ¬ ChunkingInfo.TopOverflow rs tt m nv x)

include hself hfit hsign hx hno

/-- In the range of the table the outputs of the value chunks combine to the output. -/
theorem combinedValue_of_excess_eq_zero (hzero : ChunkingInfo.IsNew.excess rs tt nv x = 0)
    (hy : applyShifted fl tt rs nv x = .ok y) {v : Nat → Int}
    (hv : ∀ i < info.numberOfValueChunks, tt.lookup fl (info.valueChunk x i) = .ok (v i)) :
    combinedValue info (fun i => ((v i : Int) : F)) = y := by
  obtain ⟨_, hbits, _⟩ := hfit.mixed hsign
  have hvalues := hself.shiftedValue_emod_of_mixed hfit hsign hx hno
  have hmod : (x / 2 ^ rs + 2 ^ (tt.tableBitSize * nv - 1)) % 2 ^ (tt.tableBitSize * nv) =
      x / 2 ^ rs + 2 ^ (tt.tableBitSize * nv - 1) := by
    have hsum := Int.emod_add_mul_ediv (x / 2 ^ rs + 2 ^ (tt.tableBitSize * nv - 1))
      (2 ^ (tt.tableBitSize * nv))
    rw [ChunkingInfo.IsNew.excess] at hzero
    rw [hzero, mul_zero, add_zero] at hsum
    exact hsum
  rw [hmod] at hvalues
  simp only [applyShifted, shiftInput, hsign] at hy
  have hchunk : ∀ i, info.valueChunk x i =
      Digits.digit (fun _ => tt.tableBitSize) (info.shiftedValue x) i - 2 ^ (tt.tableBitSize - 1) := by
    intro i
    rw [ChunkingInfo.valueChunk, ChunkingInfo.storeValueChunk, hself.table, hsign,
      hself.valueChunkOffset hsign, hself.valueChunkSize]
  unfold combinedValue
  by_cases hone : info.numberOfValueChunks = 1
  · rw [if_pos hone]
    rw [hself.numberOfValueChunks] at hone
    have hfirst := hv 0 (by rw [hself.numberOfValueChunks]; omega)
    rw [hone, Nat.mul_one] at hvalues
    have heq : info.valueChunk x 0 = x / 2 ^ rs := by
      rw [hchunk, Digits.digit, Digits.offset_zero, pow_zero, Int.ediv_one, hvalues]
      omega
    rw [heq] at hfirst
    rw [Table.evaluationTable, if_pos hone, hfirst] at hy
    exact congrArg Int.cast (Except.ok.inj hy)
  · rw [if_neg hone]
    rw [hself.numberOfValueChunks] at hone
    have hop := hself.oneValueChunk.resolve_left hone
    have hv' : ∀ i < info.numberOfValueChunks, v i = info.valueChunk x i := by
      intro i hi
      have hlookup := Table.lookup_requantise fl hop (hself.valueChunk_inRange hfit x i)
      exact Except.ok.inj ((hv i hi).symm.trans hlookup)
    have hyv : y = x / 2 ^ rs := by
      rw [Table.lookup_requantise fl (Table.operation_evaluationTable.trans hop)
        ((ChunkingInfo.IsNew.excess_eq_zero_iff hsign hbits).mp hzero)] at hy
      exact (Except.ok.inj hy).symm
    -- without their offsets the outputs are the digits of the shifted value
    have hterm : ∀ i ∈ Finset.range info.numberOfValueChunks,
        (2 : F) ^ (info.table.tableBitSize * i) *
          (((v i : Int) : F) + 2 ^ (info.table.tableBitSize - 1)) =
        ((Digits.digit (fun _ => tt.tableBitSize) (info.shiftedValue x) i *
          2 ^ Digits.offset (fun _ => tt.tableBitSize) i : Int) : F) := by
      intro i hi
      rw [hv' i (Finset.mem_range.mp hi), hchunk, hself.table, Digits.offset_const]
      push_cast
      ring
    rw [Finset.sum_congr rfl hterm, ← Int.cast_sum, Digits.sum_digit, Digits.offset_const,
      hself.numberOfValueChunks, hvalues, hyv, fullValueOffset, hself.table,
      hself.numberOfValueChunks, Nat.mul_comm nv]
    push_cast
    ring

/-- The product of the lower zeroing chunks tells whether the lowest bits of the excess vanish. -/
theorem prod_zeroingOutput_of_mixed :
    ∏ i ∈ Finset.range (info.numberOfZeroingChunks - 1), ((info.zeroingOutput x i : Int) : F) =
      if ChunkingInfo.IsNew.excess rs tt nv x % 2 ^ (16 * (info.numberOfZeroingChunks - 1)) = 0 then
        1
      else
        0 := by
  have houtput : ∀ i ∈ Finset.range (info.numberOfZeroingChunks - 1),
      ((info.zeroingOutput x i : Int) : F) =
        if Digits.digit (fun _ => 16) (ChunkingInfo.IsNew.excess rs tt nv x) i = 0 then 1 else 0 := by
    intro i hi
    have hlt := Finset.mem_range.mp hi
    have hplain : info.isPlainZeroingChunk i := Or.inl (by omega)
    rw [ChunkingInfo.zeroingOutput, if_pos hplain,
      hself.zeroingChunk_of_mixed hfit hsign hx hno (by omega), Int.cast_ite, Int.cast_one,
      Int.cast_zero]
  rw [Finset.prod_congr rfl houtput, ← Digits.offset_const, prod_ite_one_zero]

theorem topZeroingOutput_of_mixed (hpos : 0 < info.numberOfZeroingChunks) :
    info.zeroingOutput x (info.numberOfZeroingChunks - 1) =
      (ChunkingInfo.IsNew.excess rs tt nv x / 2 ^ (16 * (info.numberOfZeroingChunks - 1))).sign := by
  have hsigned := hself.not_isPlainZeroingChunk hsign (Nat.sub_add_cancel hpos).symm
  rw [ChunkingInfo.zeroingOutput, if_neg hsigned,
    hself.topZeroingChunk_of_mixed hfit hsign hx hno hpos]

end Value

/-- With a table of negative values the product is the output or zero, the lowest output. -/
theorem prod_mul_of_negative {F : Type} [Field F] (hself : info.IsNew rs tt m nv)
    (hsign : tt.tableSign = .negative) (hx : ChunkingInfo.Representable m tt.tableSign x)
    (hy : applyShifted fl tt rs nv x = .ok y) {v : Nat → Int}
    (hv : ∀ i, tt.lookup fl (info.valueChunk x i) = .ok (v i)) :
    (∏ i ∈ Finset.range info.numberOfZeroingChunks, ((info.zeroingOutput x i : Int) : F)) *
      combinedValue info (fun i => ((v i : Int) : F)) = y := by
  have hone : nv = 1 := by
    rcases hself.oneValueChunk with hone | hop
    · exact hone
    · rw [Table.tableSign, hop] at hsign
      cases hsign
  rw [hsign] at hx
  obtain ⟨hlow, hhigh⟩ := hx
  have houtput : ∀ i ∈ Finset.range info.numberOfZeroingChunks,
      ((info.zeroingOutput x i : Int) : F) =
        if Digits.digit (fun _ => 16) (-x / 2 ^ (rs + tt.tableBitSize * nv)) i = 0 then 1 else 0 := by
    intro i hi
    have hplain : info.isPlainZeroingChunk i := by
      right
      rw [hself.isSigned, hsign]
      rfl
    rw [ChunkingInfo.zeroingOutput, if_pos hplain, hself.zeroingChunk_of_negative hsign,
      Int.cast_ite, Int.cast_one, Int.cast_zero]
  -- the zeroing chunks cover all bits above the value chunk
  have hcovered : -x / 2 ^ (rs + tt.tableBitSize * nv) <
      2 ^ (16 * info.numberOfZeroingChunks) := by
    apply Int.ediv_lt_of_lt_mul (Digits.two_pow_pos _)
    have hle : (2 : Int) ^ m ≤
        2 ^ (16 * info.numberOfZeroingChunks + (rs + tt.tableBitSize * nv)) :=
      pow_le_pow_right₀ (by decide) (by have := hself.maxBitSize_le; omega)
    rw [pow_add] at hle
    omega
  rw [Finset.prod_congr rfl houtput, prod_ite_one_zero, Digits.offset_const,
    Int.emod_eq_of_lt (Int.ediv_nonneg (by omega) (Digits.two_pow_pos _).le) hcovered,
    combinedValue, if_pos (hself.numberOfValueChunks.trans hone), hone, Nat.mul_one,
    Digits.ediv_two_pow_add]
  simp only [applyShifted, shiftInput, hsign, Table.evaluationTable, if_pos hone] at hy
  have hshift : 0 ≤ -x / 2 ^ rs := Int.ediv_nonneg (by omega) (Digits.two_pow_pos _).le
  have hfirst := hv 0
  rw [hself.valueChunk_of_negative hsign] at hfirst
  have hpos := Digits.two_pow_pos tt.tableBitSize
  by_cases hzero : -x / 2 ^ rs / 2 ^ tt.tableBitSize = 0
  · have hlt : -x / 2 ^ rs < 2 ^ tt.tableBitSize := by
      by_contra hge
      have hle := (Int.le_ediv_iff_mul_le hpos).mpr (show 1 * 2 ^ tt.tableBitSize ≤ -x / 2 ^ rs by omega)
      omega
    rw [if_pos hzero, one_mul]
    rw [Int.emod_eq_of_lt hshift hlt, hy] at hfirst
    exact congrArg Int.cast (Except.ok.inj hfirst.symm)
  · have hge : 2 ^ tt.tableBitSize ≤ -x / 2 ^ rs := by
      by_contra hlt
      exact hzero (Int.ediv_eq_zero_of_lt hshift (not_le.mp hlt))
    have hsign' : tt.operation.inputSign = .negative := hsign
    have hbelow : -(-x / 2 ^ rs) ≤ tt.minInputValue := by
      simp only [Table.minInputValue, hsign']
      omega
    rw [Table.lookup_of_le_of_negative fl hsign hbelow] at hy
    rw [if_neg hzero, zero_mul, ← Except.ok.inj hy, Int.cast_zero]

/-! ## The expression is the output of inference -/

/-- The witnesses of a chunk of a tensor are the outputs of `table_output` for one value. -/
def OutputWitness {F : Type} [Field F] (w : List F) (currentChunk : Nat) (info : ChunkingInfo)
    (out : ChunkedOutput) : Prop :=
  ∀ (i : Nat) (v : Int), (out.valueChunkOutputs ++ out.zeroingChunkOutputs)[i]? = some [v] →
    w[(UInt16.ofNat (currentChunk * info.totalOutputsPerChunk + i)).toNat]? = some (v : F)

/-- The expression for a chunk has the value `y` at the outputs of the chunks of `x`. -/
def ProvesOutput {F : Type} [Field F] [DecidableEq F] (D : DpCrypto F) (fl : Float32Ops)
    (self : LookupVariant) (info : ChunkingInfo) (tt : Table) (x y : Int) : Prop :=
  ∃ out, info.tableOutput fl (info.decomposeInput [x]) tt = .ok out ∧
    ∀ (w ch : List F) (currentChunk : Nat), OutputWitness w currentChunk info out →
      ∃ e, self.buildLookupOutputExpressions D fl currentChunk info = .ok e ∧
        D.eval w ch (e.prodExpression D) = .ok (y : F)

end Inference

/-! ## Small tables over a large field -/

section SmallTables

/-- The order of a field that embeds `i64`. -/
theorem prime_largeModulus : Nat.Prime 221360928884514619393 := by
  apply lucas_primality 221360928884514619393 10
  · show (10 : ZMod 221360928884514619393) ^ 221360928884514619392 = 1
    reduce_mod_char
  · intro q hq hdvd
    rw [show 221360928884514619393 - 1 = 3 * 2 ^ 66 by norm_num] at hdvd
    rcases hq.dvd_mul.mp hdvd with h3 | h2
    · rw [(Nat.prime_dvd_prime_iff_eq hq Nat.prime_three).mp h3]
      show (10 : ZMod 221360928884514619393) ^ 73786976294838206464 ≠ 1
      reduce_mod_char
      decide
    · rw [(Nat.prime_dvd_prime_iff_eq hq Nat.prime_two).mp (hq.dvd_of_dvd_pow h2)]
      show (10 : ZMod 221360928884514619393) ^ 110680464442257309696 ≠ 1
      reduce_mod_char
      decide

instance fact_prime_largeModulus : Fact (Nat.Prime 221360928884514619393) := ⟨prime_largeModulus⟩

abbrev LargeField : Type := ZMod 221360928884514619393

abbrev largeCrypto : DpCrypto LargeField := plainCrypto fun _ => (0 : LargeField)

/-- Of the float operations only the conversion of `1.0` is used. -/
def unitFloats : Float32Ops :=
  { noFloats with toElement := fun (bits : UInt32) => if bits = oneBits then 1 else 0 }

/-- The exponentials of -1, which is the lowest input, and of 0. -/
def unitExp : Table := ⟨.exp, oneBits, oneBits, 1⟩

def signBit : Table := Table.newRequantise 1

def unitExpChunking (numberOfZeroingChunks : Nat) : ChunkingInfo where
  valueChunkSize := 1
  numberOfValueChunks := 1
  rightShift := 1
  offset := 0
  valueChunkOffset := 0
  numberOfShiftedChunks := 1
  numberOfZeroingChunks
  isSigned := false
  shiftedChunkMultiplier := 2 ^ 15
  topZeroingChunkOffset := 0
  table := unitExp

def signBitChunking : ChunkingInfo where
  valueChunkSize := 1
  numberOfValueChunks := 1
  rightShift := 1
  offset := 2 ^ 17 + 2
  valueChunkOffset := 1
  numberOfShiftedChunks := 1
  numberOfZeroingChunks := 1
  isSigned := true
  shiftedChunkMultiplier := 2 ^ 15
  topZeroingChunkOffset := 2 ^ 15
  table := signBit

theorem new_unitExpChunking : ChunkingInfo.new 1 unitExp 18 1 = .ok (unitExpChunking 1) := by
  decide

theorem new_unitExpChunking_zero : ChunkingInfo.new 1 unitExp 2 1 = .ok (unitExpChunking 0) := by
  decide

theorem new_signBitChunking : ChunkingInfo.new 1 signBit 18 1 = .ok signBitChunking := by
  decide

/-- The value of the expression, at the outputs of one value chunk. -/
theorem not_provesOutput {info : ChunkingInfo} {tt : Table} {x y v : Int} {zeroing : List Int}
    {valueOutput : Int} {e : LookupExpressions largeCrypto.Expression}
    (hout : info.tableOutput unitFloats (info.decomposeInput [x]) tt =
      .ok ⟨[[valueOutput]], zeroing.map fun output => [output]⟩)
    (hexpr : LookupVariant.standard.buildLookupOutputExpressions largeCrypto unitFloats 0 info = .ok e)
    (hlength : zeroing.length < 2 ^ 15)
    (heval : largeCrypto.eval ((valueOutput :: zeroing).map (Int.cast : Int → LargeField)) []
      (e.prodExpression largeCrypto) = .ok v)
    (hne : (v : LargeField) ≠ y) :
    ¬ ProvesOutput largeCrypto unitFloats .standard info tt x y := by
  rintro ⟨out, hout', hproves⟩
  obtain rfl := Except.ok.inj (hout.symm.trans hout')
  have hw : OutputWitness ((valueOutput :: zeroing).map (Int.cast : Int → LargeField)) 0 info
      ⟨[[valueOutput]], zeroing.map fun output => [output]⟩ := by
    intro i output hi
    have hentry : (valueOutput :: zeroing)[i]? = some output := by
      have hmap : ((valueOutput :: zeroing).map fun output => [output])[i]? = some [output] := hi
      rw [List.getElem?_map, Option.map_eq_some_iff] at hmap
      obtain ⟨entry, hentry, heq⟩ := hmap
      rw [hentry, List.singleton_inj.mp heq]
    have hlt : i < 2 ^ 16 := by
      have hi' := (List.getElem?_eq_some_iff.mp hentry).1
      rw [List.length_cons] at hi'
      omega
    rw [Nat.zero_mul, Nat.zero_add, UInt16.toNat_ofNat_of_lt' hlt, List.getElem?_map, hentry]
    rfl
  obtain ⟨e', he', heval'⟩ := hproves _ [] 0 hw
  obtain rfl := Except.ok.inj (hexpr.symm.trans he')
  exact hne (Except.ok.inj (heval.symm.trans heval'))

end SmallTables

end DeepProve
