import DeepProve.Normalisation.Rows

/-!
# The order of a normalised row

A row multiplied by a negative value satisfies all the relations that a normalisation enforces if
the negated row does: the sum of squares does not change, and no other relation looks at the sign
of the multiplier.
-/

namespace DeepProve

namespace NormalisationRows

variable {fl : Float32Ops} {self : NormalisationRows}

/-- The output of an entry where nothing but the bits of the shift is shifted out. -/
def roundedOutput (self : NormalisationRows) (m mu x : Int) : Int :=
  clamp (self.scaled m mu x / 2 ^ self.lookupOp.rightShift) self.table.minInputValue
    self.table.maxInputValue

/-- The rounding hides the sign of the multiplier: it maps different inputs to one output, and
    without a mean to zero. -/
def RoundedAway (self : NormalisationRows) (m mu : Int) (x : List Int) : Prop :=
  (∀ a ∈ x, ∀ b ∈ x, a < b → self.roundedOutput m mu a = self.roundedOutput m mu b) ∧
    (self.centred = false → ∀ a ∈ x, a ≠ 0 → self.roundedOutput m mu a = 0)

/-- All outputs of the row are the same, and zero if there is no mean. -/
def Flat (self : NormalisationRows) (y : List Int) : Prop :=
  (∀ v ∈ y, ∀ w ∈ y, v = w) ∧ (self.centred = false → ∀ v ∈ y, v = 0)

variable (fl self) in
/-- Every row that is proved follows its input. -/
def FixesOutput : Prop :=
  ∀ x m mu y, self.Proves fl x m mu y → self.FollowsInput x y

/-- A row of outputs that passes the checks of the rows. -/
structure Admits (rows : NormalisationRows) (y : List Int) : Prop where
  length : y.length = rows.dimSize
  inRange : ∀ v ∈ y, rows.table.InRange v
  rowChecks : ∀ check ∈ rows.lookupOp.variant.rowChecks,
    Table.newShiftCheck.InRange (check.moved y)

/-! ## The entries -/

theorem tableSign_eq (self : NormalisationRows) : self.table.tableSign = .mixed := by
  rw [Table.tableSign, self.operation_eq]
  rfl

theorem minInputValue_eq (self : NormalisationRows) :
    self.table.minInputValue = -2 ^ (self.table.tableBitSize - 1) := by
  rw [Table.minInputValue, self.operation_eq]
  rfl

theorem maxInputValue_eq (self : NormalisationRows) :
    self.table.maxInputValue = 2 ^ (self.table.tableBitSize - 1) - 1 := by
  rw [Table.maxInputValue, self.operation_eq]
  rfl

variable {y x : List Int} {info : ChunkingInfo} {m : Int}

theorem isNew (h : self.lookupOp.chunkingInfo self.table = .ok info) :
    info.IsNew self.lookupOp.rightShift self.table self.lookupOp.maxBitSize 1 := by
  rw [LookupOp.chunkingInfo, self.valueChunks_eq] at h
  exact ChunkingInfo.isNew_of_new_eq_ok h

theorem numberOfZeroingChunks_lt (h : self.lookupOp.chunkingInfo self.table = .ok info) :
    info.numberOfZeroingChunks < 2 ^ 15 := by
  have hle := self.maxBitSize_le
  rw [(isNew h).numberOfZeroingChunks]
  omega

theorem inRange_clamp (self : NormalisationRows) (x : Int) :
    self.table.InRange (clamp x self.table.minInputValue self.table.maxInputValue) := by
  have hle := Table.minInputValue_le_maxInputValue self.table
  unfold clamp Table.InRange
  split
  · omega
  · split <;> omega

/-- What a committed entry says about the value that is decomposed and about the output. -/
theorem exists_shifted {entry : CommittedEntry} {x y : Int}
    (hinfo : self.lookupOp.chunkingInfo self.table = .ok info)
    (hdecomposes : entry.Decomposes info x)
    (houtputs : entry.Outputs info fl self.lookupOp.variant y) :
    ∃ w : Int, y = clamp w self.table.minInputValue self.table.maxInputValue ∧
      0 ≤ x - w * 2 ^ self.lookupOp.rightShift ∧
      (CommittedEntry.EvenShift self.lookupOp.rightShift →
        x - w * 2 ^ self.lookupOp.rightShift < 2 ^ self.lookupOp.rightShift) := by
  have hself := isNew hinfo
  have hsum := hdecomposes.combined
  rw [CommittedEntry.combineInputClaims_eq hself self.tableSign_eq self.tableBitSize_pos entry
    hdecomposes.length_shifted hdecomposes.length_zeroing] at hsum
  have hpart : entry.shiftedPart info =
      ((x - entry.shiftedOut self.table * 2 ^ self.lookupOp.rightShift : Int) : ℚ) := by
    have hx := Except.ok.inj hsum
    push_cast
    linarith
  have houtput := (CommittedEntry.outputs_iff hself self.tableSign_eq hdecomposes self.operation_eq
    self.tableBitSize_pos (numberOfZeroingChunks_lt hinfo)).mp houtputs
  refine ⟨entry.shiftedOut self.table, houtput, ?_, fun heven => ?_⟩
  · have h0 := CommittedEntry.shiftedPart_nonneg hself hdecomposes.shifted_inRange
    rw [hpart] at h0
    exact_mod_cast h0
  · have hlt := CommittedEntry.shiftedPart_lt hself heven hdecomposes.shifted_inRange
    rw [hpart] at hlt
    exact_mod_cast hlt

variable {mu : Int}

/-- A row that is proved passes the checks. -/
theorem Proves.admits (h : self.Proves fl x m mu y) :
    self.Admits y := by
  obtain ⟨info, hinfo, hentries⟩ := h.entries
  refine ⟨hentries.length_eq.symm.trans h.length, fun v hv => ?_, h.rowChecks⟩
  obtain ⟨_, _, entry, hdecomposes, houtputs⟩ := List.exists_of_forall₂_left hentries.flip hv
  obtain ⟨w, rfl, -⟩ := exists_shifted hinfo hdecomposes houtputs
  exact self.inRange_clamp w

/-- Where no chunks overlap the output is the rounded one. -/
theorem Proves.eq_map (h : self.Proves fl x m mu y)
    (heven : CommittedEntry.EvenShift self.lookupOp.rightShift) :
    y = x.map (self.roundedOutput m mu) := by
  obtain ⟨info, hinfo, hentries⟩ := h.entries
  have hrounded : List.Forall₂ (fun xi yi => yi = self.roundedOutput m mu xi) x y := by
    refine hentries.imp fun xi yi ⟨entry, hdecomposes, houtputs⟩ => ?_
    obtain ⟨w, hy, h0, hlt⟩ := exists_shifted hinfo hdecomposes houtputs
    have hquot : self.scaled m mu xi / 2 ^ self.lookupOp.rightShift = w :=
      Digits.ediv_two_pow_eq (by ring) h0 (hlt heven)
    rw [hy, roundedOutput, hquot]
  clear h hentries
  induction hrounded with
  | nil => rfl
  | cons hxy _ ih => rw [List.map_cons, ← hxy, ← ih]

/-! ## Rows with a multiplier that is not negative -/

theorem clamp_mono {a b min max : Int} (hle : min ≤ max) (h : a ≤ b) :
    clamp a min max ≤ clamp b min max := by
  unfold clamp
  split_ifs <;> omega

theorem roundedOutput_mono {a b : Int} (h : a * m ≤ b * m) :
    self.roundedOutput m mu a ≤ self.roundedOutput m mu b := by
  have hpow := Digits.two_pow_pos self.lookupOp.rightShift
  refine clamp_mono (Table.minInputValue_le_maxInputValue _) (Int.ediv_le_ediv hpow ?_)
  unfold scaled
  omega

/-- Without a mean the output has the sign of the product, if it has one. -/
theorem roundedOutput_nonneg {a : Int} (h : 0 ≤ a * m) : 0 ≤ self.roundedOutput m 0 a := by
  have hpow := Digits.two_pow_pos self.lookupOp.rightShift
  have hround : 0 ≤ self.lookupOp.roundingConstant := (Digits.two_pow_pos _).le
  have hquot : 0 ≤ self.scaled m 0 a / 2 ^ self.lookupOp.rightShift := by
    refine Int.ediv_nonneg ?_ hpow.le
    unfold scaled
    omega
  have hmin := self.minInputValue_eq
  have hmax := self.maxInputValue_eq
  have hbits := Digits.two_pow_pos (self.table.tableBitSize - 1)
  unfold roundedOutput clamp
  split
  · omega
  · split <;> omega

theorem roundedOutput_nonpos {a : Int} (hshift : 0 < self.lookupOp.rightShift) (h : a * m ≤ 0) :
    self.roundedOutput m 0 a ≤ 0 := by
  have hpow := Digits.two_pow_pos self.lookupOp.rightShift
  have hround : self.lookupOp.roundingConstant < 2 ^ self.lookupOp.rightShift :=
    pow_lt_pow_right₀ (by decide) (by omega)
  have hquot : self.scaled m 0 a / 2 ^ self.lookupOp.rightShift < 1 := by
    refine Int.ediv_lt_of_lt_mul hpow ?_
    unfold scaled
    omega
  have hmin := self.minInputValue_eq
  have hmax := self.maxInputValue_eq
  have hbits := Digits.two_pow_pos (self.table.tableBitSize - 1)
  unfold roundedOutput clamp
  split
  · omega
  · split <;> omega

/-- The relations of a row, for the rounded outputs. -/
theorem followsInput_map_iff {f : Int → Int} :
    self.FollowsInput x (x.map f) ↔ (∀ a ∈ x, ∀ b ∈ x, a ≤ b → f a ≤ f b) ∧
      (self.centred = false → ∀ a ∈ x, ¬ (0 < a ∧ f a < 0) ∧ ¬ (a < 0 ∧ 0 < f a)) := by
  unfold FollowsInput OrderPreserving SignsKept
  rw [List.zip_map_self]
  simp only [List.forall_mem_map]

/-- **The output follows the input** if the multiplier is not negative, or rounding hides its
    sign. -/
theorem followsInput_iff (h : self.Proves fl x m mu y)
    (heven : CommittedEntry.EvenShift self.lookupOp.rightShift) :
    self.FollowsInput x y ↔ 0 ≤ m ∨ self.RoundedAway m mu x := by
  obtain ⟨info, hinfo, -⟩ := h.entries
  have hshift := (isNew hinfo).rightShift_pos
  rw [h.eq_map heven, followsInput_map_iff]
  constructor
  · intro ⟨horder, hsigns⟩
    refine or_iff_not_imp_left.mpr fun hneg => ⟨fun a ha b hb hlt => ?_, fun hcentred a ha hne => ?_⟩
    · have hback : b * m ≤ a * m := mul_le_mul_of_nonpos_right hlt.le (by omega)
      exact le_antisymm (horder a ha b hb hlt.le) (roundedOutput_mono hback)
    · obtain rfl := h.shift hcentred
      obtain ⟨hpos, hneg'⟩ := hsigns hcentred a ha
      rcases lt_or_gt_of_ne hne with hlt | hgt
      · have h0 : 0 ≤ a * m := mul_nonneg_of_nonpos_of_nonpos hlt.le (by omega)
        have hout : 0 ≤ self.roundedOutput m 0 a := roundedOutput_nonneg h0
        omega
      · have h0 : a * m ≤ 0 := mul_nonpos_of_nonneg_of_nonpos hgt.le (by omega)
        have hout := roundedOutput_nonpos hshift h0
        omega
  · rintro (hm | ⟨hsame, hzero⟩)
    · refine ⟨fun a _ b _ hle => roundedOutput_mono (mul_le_mul_of_nonneg_right hle hm),
        fun hcentred a _ => ?_⟩
      obtain rfl := h.shift hcentred
      refine ⟨fun ⟨ha, hout⟩ => ?_, fun ⟨ha, hout⟩ => ?_⟩
      · exact absurd (roundedOutput_nonneg (mul_nonneg ha.le hm)) (not_le.mpr hout)
      · exact absurd (roundedOutput_nonpos hshift (mul_nonpos_of_nonpos_of_nonneg ha.le hm))
          (not_le.mpr hout)
    · refine ⟨fun a ha b hb hle => ?_, fun hcentred a ha => ?_⟩
      · rcases hle.eq_or_lt with rfl | hlt
        · exact le_refl _
        · exact (hsame a ha b hb hlt).le
      · refine ⟨fun ⟨hpos, hout⟩ => ?_, fun ⟨hneg, hout⟩ => ?_⟩
        · exact absurd (hzero hcentred a ha hpos.ne') hout.ne
        · exact absurd (hzero hcentred a ha hneg.ne) hout.ne'

/-! ## Rows with any multiplier -/

theorem getD_replicate_zero (n i : Nat) : (List.replicate n (0 : Int)).getD i 0 = 0 := by
  rw [List.getD_eq_getElem?_getD, List.getElem?_replicate]
  split <;> rfl

theorem decomposes_zero (hinfo : self.lookupOp.chunkingInfo self.table = .ok info) {v : Int}
    (hv : self.table.InRange v) :
    CommittedEntry.Decomposes ⟨List.replicate info.numberOfShiftedChunks 0, v,
      List.replicate info.numberOfZeroingChunks 0⟩ info (v * 2 ^ self.lookupOp.rightShift) := by
  have hself := isNew hinfo
  constructor
  case length_shifted => exact List.length_replicate
  case length_zeroing => exact List.length_replicate
  case shifted_inRange =>
    intro chunk hchunk
    rw [List.eq_of_mem_replicate hchunk]
    decide
  case value_inRange => exact hself.table ▸ hv
  case zeroing_inRange =>
    intro i chunk hchunk
    rw [List.eq_of_mem_replicate (List.mem_of_getElem? hchunk)]
    unfold ChunkingInfo.zeroingTable
    split <;> decide
  case combined =>
    rw [CommittedEntry.combineInputClaims_eq hself self.tableSign_eq self.tableBitSize_pos _
      List.length_replicate List.length_replicate]
    simp only [CommittedEntry.shiftedPart, CommittedEntry.shiftedTerm, CommittedEntry.shiftedOut,
      CommittedEntry.zeroingPart, getD_replicate_zero, Int.cast_zero, zero_mul, Finset.sum_const_zero, mul_zero,
      add_zero, zero_add]
    push_cast
    rfl

/-- A row of admissible outputs is proved for every input that is mapped to it exactly. -/
theorem Admits.proves (h : self.Admits y) (hshift : self.lookupOp.rightShift ≠ 0)
    (hmu : self.centred = false → mu = 0) (hentries : List.Forall₂ (fun xi yi =>
      self.scaled m mu xi = yi * 2 ^ self.lookupOp.rightShift) x y) :
    self.Proves fl x m mu y := by
  obtain ⟨info, hinfo⟩ : ∃ info, self.lookupOp.chunkingInfo self.table = .ok info := by
    have hpos : decide (0 < self.lookupOp.rightShift) = true :=
      decide_eq_true (Nat.pos_of_ne_zero hshift)
    rw [LookupOp.chunkingInfo, self.valueChunks_eq, ChunkingInfo.new, hpos]
    exact ⟨_, rfl⟩
  refine ⟨hentries.length_eq.trans h.length, hmu, ⟨info, hinfo, ?_⟩, h.rowChecks⟩
  have hall : ∀ v ∈ y, self.table.InRange v := h.inRange
  clear h
  induction hentries with
  | nil => exact .nil
  | @cons xi v x y hxy _ ih =>
    obtain ⟨hv, hall⟩ := List.forall_mem_cons.mp hall
    have hdecomposes := decomposes_zero hinfo hv
    refine .cons ⟨_, hxy ▸ hdecomposes, ?_⟩ (ih hall)
    refine (CommittedEntry.outputs_iff (isNew hinfo) self.tableSign_eq hdecomposes
      self.operation_eq self.tableBitSize_pos (numberOfZeroingChunks_lt hinfo)).mpr ?_
    obtain ⟨hmin, hmax⟩ := hv
    have hpart : CommittedEntry.zeroingPart ⟨List.replicate info.numberOfShiftedChunks 0, v,
        List.replicate info.numberOfZeroingChunks 0⟩ = 0 := by
      refine Finset.sum_eq_zero fun i _ => ?_
      rw [getD_replicate_zero, zero_mul]
    rw [CommittedEntry.shiftedOut, hpart, mul_zero, add_zero, clamp, if_neg (not_lt.mpr hmin),
      if_neg (not_lt.mpr hmax)]

/-- The input that a negative multiplier maps to a row. -/
theorem scaled_negated (hshift : self.lookupOp.rightShift ≠ 0) (v : Int) :
    self.scaled (-2 ^ (self.lookupOp.rightShift - 1)) 0 (1 - 2 * v) =
      v * 2 ^ self.lookupOp.rightShift := by
  have hdouble := ChunkingInfo.two_pow_eq_add (Nat.one_le_iff_ne_zero.mpr hshift)
  rw [scaled, LookupOp.roundingConstant, hdouble]
  ring

theorem Admits.proves_negated (h : self.Admits y) (hshift : self.lookupOp.rightShift ≠ 0) :
    self.Proves fl (y.map fun v => 1 - 2 * v) (-2 ^ (self.lookupOp.rightShift - 1)) 0 y := by
  refine h.proves hshift (fun _ => rfl) ?_
  rw [List.forall₂_map_left_iff]
  exact List.forall₂_same.mpr fun v _ => scaled_negated hshift v

/-- A row that follows the input of a negative multiplier is the same everywhere. -/
theorem flat_of_followsInput (h : self.FollowsInput (y.map fun v => 1 - 2 * v) y) :
    self.Flat y := by
  have hzip : (y.map fun v => 1 - 2 * v).zip y = y.map fun v => (1 - 2 * v, v) := by
    rw [List.zip_map_left, List.zip_eq_zipWith, List.zipWith_self, List.map_map]
    rfl
  obtain ⟨horder, hsigns⟩ := h
  unfold OrderPreserving at horder
  unfold SignsKept at hsigns
  rw [hzip] at horder hsigns
  simp only [List.forall_mem_map] at horder hsigns
  refine ⟨fun v hv w hw => ?_, fun hcentred v hv => ?_⟩
  · have hvw := horder v hv w hw
    have hwv := horder w hw v hv
    omega
  · have hsign := hsigns hcentred v hv
    omega

theorem followsInput_of_flat (h : self.Flat y) : self.FollowsInput x y := by
  obtain ⟨hsame, hzero⟩ := h
  refine ⟨fun p hp q hq _ => ?_, fun hcentred p hp => ?_⟩
  · exact (hsame _ (List.of_mem_zip hp).2 _ (List.of_mem_zip hq).2).le
  · have hout := hzero hcentred _ (List.of_mem_zip hp).2
    omega

/-- Every row that is proved follows its input exactly if only rows pass the checks that are the
    same everywhere, or nothing can be decomposed. -/
theorem fixesOutput_iff : self.FixesOutput fl ↔
    self.lookupOp.rightShift = 0 ∨ ∀ y, self.Admits y → self.Flat y := by
  constructor
  · intro hfixes
    refine or_iff_not_imp_left.mpr fun hshift y hy => ?_
    exact flat_of_followsInput (hfixes _ _ _ _ (hy.proves_negated hshift))
  · rintro (hzero | hflat) x m mu y hproves
    · obtain ⟨info, hinfo, -⟩ := hproves.entries
      exact absurd hzero (isNew hinfo).rightShift_pos.ne'
    · exact followsInput_of_flat (hflat y hproves.admits)

end NormalisationRows

/-! ## A negated row -/

/-- Rows of two entries that are normalised to a magnitude of about 4 each. -/
def twoEntries : RMSNormCtx := ⟨2, none, 7, 7, 32, 18, by decide⟩

section Layers

variable {F : Type} [Field F] [DecidableEq F] {D : DpCrypto F} {C : Type} (U : SumcheckUtil D)
  (fl : Float32Ops)

end Layers

end DeepProve
