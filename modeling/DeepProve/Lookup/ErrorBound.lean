import DeepProve.Lookup.LogupInputs

/-!
# The error bound of a normalisation

The rows that Softmax and the normalisation layers put out may miss their sum, or their sum of
squares, by an error bound. `compute_extra_lookup_inputs` moves the value of each row into the table
of the shift check, where one lookup is to check both sides of the bound. The offset puts the rows
that keep the bound at the upper end of the table. Rows that miss the bound from above are moved
below them, where the table goes on.
-/

namespace DeepProve

/-- A check of the rows of an output. -/
structure RowCheck where
  rowValue : List Int → Int
  value : Int
  errorBound : Int

namespace RowCheck

variable (check : RowCheck)

/-- The value of the row keeps the error bound. -/
def Within (row : List Int) : Prop :=
  check.value - check.errorBound ≤ check.rowValue row ∧
    check.rowValue row ≤ check.value + check.errorBound

/-- The value of the row is looked up successfully. -/
def Passes (row : List Int) : Prop :=
  check.value - check.errorBound ≤ check.rowValue row ∧
    check.rowValue row ≤ check.value + (2 ^ shiftCheckTableBitSize - 1 - check.errorBound)

/-- The bound is not negative, and small enough for the table. -/
def BoundFits : Prop := 0 ≤ check.errorBound ∧ 0 ≤ LookupVariant.checkOffset check.errorBound

instance (row : List Int) : Decidable (check.Within row) := inferInstanceAs (Decidable (_ ∧ _))

instance (row : List Int) : Decidable (check.Passes row) := inferInstanceAs (Decidable (_ ∧ _))

instance : Decidable check.BoundFits := inferInstanceAs (Decidable (_ ∧ _))

/-- The offset of the check. -/
def offset : Int := LookupVariant.checkOffset check.errorBound

/-- The value that is looked up for a row. -/
def moved (row : List Int) : Int :=
  check.offset + (check.value + check.errorBound) - check.rowValue row

/-- The values of a chunk and its padding, as elements. -/
def column (dimSize : Nat) (chunk : List Int) : Outcome (List Int) := do
  let len := chunk.length / dimSize
  let diff := nextPowerOfTwo len - len
  let rows ← chunksOf chunk dimSize
  .ok (rows.map check.moved ++ List.replicate diff check.offset)

/-- What a column holds: one value for each row, and the offset in the padding. -/
def values (dimSize : Nat) (chunk : List Int) : List Int :=
  (pieces chunk dimSize).map check.moved ++
    List.replicate (nextPowerOfTwo (chunk.length / dimSize) - chunk.length / dimSize) check.offset

/-- The sum of squares is checked first, then the sum. -/
def sumsq (value errorBound : Int) : RowCheck :=
  ⟨fun row => (row.map fun x => x * x).sum, value, errorBound⟩

def sum (value errorBound : Int) : RowCheck := ⟨List.sum, value, errorBound⟩

variable {check}

theorem column_eq_ok {dimSize : Nat} {chunk column : List Int}
    (h : check.column dimSize chunk = .ok column) : column = check.values dimSize chunk := by
  simp only [RowCheck.column, Outcome.bind_eq_ok, chunksOf_eq_ok] at h
  obtain ⟨rows, ⟨-, rfl⟩, hcolumn⟩ := h
  exact (Except.ok.inj hcolumn).symm

end RowCheck

namespace UnpaddedTensor

variable (output : UnpaddedTensor)

/-- The size of the last dimension. -/
def dimSize : Nat := output.unpaddedShape.getLast?.getD 0

/-- The rows of the output. -/
def rows : List (List Int) := pieces output.data output.dimSize

/-- The rows of the chunks. -/
def checkedRows (numberOfChunks : Nat) : List (List Int) :=
  (pieces output.data (output.unpaddedShape.numel / numberOfChunks)).flatMap fun chunk =>
    pieces chunk output.dimSize

variable {output}

end UnpaddedTensor

namespace LookupVariant

/-- The checks of a variant. -/
def rowChecks : LookupVariant → List RowCheck
  | softmax normalisedSumValue errorBound => [.sum normalisedSumValue errorBound]
  | normalisation normalisedMagnitudeValue magnitudeErrorBound normalisedSumValue _ =>
    .sumsq normalisedMagnitudeValue magnitudeErrorBound ::
      match normalisedSumValue with
      | none => []
      | some (normSum, sumErrorBound) => [.sum normSum sumErrorBound]
  | standard | glu => []

variable (self : LookupVariant)

/-- `compute_extra_lookup_inputs`, up to the columns of elements. -/
def extraLookupColumns (numberOfChunks : Nat) (output : UnpaddedTensor) :
    Outcome (List (List (List Int))) := do
  let chunkSize ←
    if numberOfChunks = 0 then
      .error (.panic "attempt to divide by zero")
    else
      .ok (output.unpaddedShape.numel / numberOfChunks)
  let dimSize ← output.unpaddedShape.lastDim
  let outputChunks ← chunksOf output.data chunkSize
  self.rowChecks.mapM fun check => outputChunks.mapM (check.column dimSize)

variable {self} {F : Type} [Field F] {numberOfChunks : Nat} {output : UnpaddedTensor}
  {challenges : F × F}

/-! ## What the lookup lets pass -/

theorem inRange_newShiftCheck {x : Int} :
    Table.newShiftCheck.InRange x ↔ 0 ≤ x ∧ x ≤ 2 ^ shiftCheckTableBitSize - 1 := Iff.rfl

variable {check : RowCheck}

/-- A value that is moved is in the table between the bound below and what is left of the table
    above. -/
theorem inRange_moved {row : List Int} :
    Table.newShiftCheck.InRange (check.moved row) ↔ check.Passes row := by
  rw [inRange_newShiftCheck, RowCheck.moved, RowCheck.Passes, RowCheck.offset, checkOffset]
  omega

/-- The padding is in the table. -/
theorem inRange_offset (h : check.BoundFits) :
    Table.newShiftCheck.InRange check.offset := by
  obtain ⟨hbound, hoffset⟩ := h
  refine inRange_newShiftCheck.mpr ⟨hoffset, ?_⟩
  show checkOffset check.errorBound ≤ _
  rw [checkOffset]
  omega

/-- The values of a column are in the table if the rows of the chunk pass. -/
theorem inRange_values (h : check.BoundFits) {dimSize : Nat} {chunk : List Int} :
    (∀ x ∈ check.values dimSize chunk, Table.newShiftCheck.InRange x) ↔
      ∀ row ∈ pieces chunk dimSize, check.Passes row := by
  rw [RowCheck.values, List.forall_mem_append, List.forall_mem_map]
  constructor
  · intro ⟨hrows, _⟩ row hrow
    exact inRange_moved.mp (hrows row hrow)
  · intro hrows
    refine ⟨fun row hrow => inRange_moved.mpr (hrows row hrow), fun x hx => ?_⟩
    rw [List.eq_of_mem_replicate hx]
    exact inRange_offset h

variable {columns : List (List (List Int))}

theorem extraLookupColumns_eq_ok (h : self.extraLookupColumns numberOfChunks output = .ok columns) :
    columns = self.rowChecks.map fun check =>
      (pieces output.data (output.unpaddedShape.numel / numberOfChunks)).map
        (check.values output.dimSize) := by
  have hchunks : numberOfChunks ≠ 0 := by
    rintro rfl
    exact nomatch h
  simp only [extraLookupColumns, hchunks, if_false, Outcome.bind_eq_ok, Outcome.ok_bind] at h
  obtain ⟨dimSize, hdimSize, chunks, hdata, h⟩ := h
  obtain ⟨-, rfl⟩ := chunksOf_eq_ok.mp hdata
  have hdim : output.dimSize = dimSize := by
    rw [UnpaddedTensor.dimSize, unwrap_eq_ok.mp hdimSize, Option.getD_some]
  rw [hdim]
  refine Outcome.eq_map_of_mapM_eq_ok (fun check column hcolumn => ?_) h
  exact Outcome.eq_map_of_mapM_eq_ok (fun chunk column h => RowCheck.column_eq_ok h) hcolumn

/-- Which outputs the lookup lets pass. -/
theorem columnsInRange_iff (hfits : ∀ check ∈ self.rowChecks, check.BoundFits)
    (h : self.extraLookupColumns numberOfChunks output = .ok columns) :
    (∀ column ∈ columns.flatten, ∀ x ∈ column, Table.newShiftCheck.InRange x) ↔
      ∀ check ∈ self.rowChecks, ∀ row ∈ output.checkedRows numberOfChunks, check.Passes row := by
  rw [extraLookupColumns_eq_ok h, ← List.flatMap_def]
  simp only [List.forall_mem_flatMap, List.forall_mem_map, UnpaddedTensor.checkedRows]
  refine forall₂_congr fun check hcheck => forall₂_congr fun chunk _ => ?_
  exact inRange_values (hfits check hcheck)

/-! ## The error bound -/

variable (self numberOfChunks output) in
/-- The columns that are built are in the table of the shift check exactly if all rows keep the
    error bounds. -/
def EnforcesBounds : Prop :=
  ∀ columns, self.extraLookupColumns numberOfChunks output = .ok columns →
    ((∀ column ∈ columns.flatten, ∀ x ∈ column, Table.newShiftCheck.InRange x) ↔
      ∀ check ∈ self.rowChecks, ∀ row ∈ output.rows, check.Within row)

theorem enforcesBounds_congr (hfits : ∀ check ∈ self.rowChecks, check.BoundFits)
    (h : self.extraLookupColumns numberOfChunks output = .ok columns) :
    self.EnforcesBounds numberOfChunks output ↔
      ((∀ check ∈ self.rowChecks, ∀ row ∈ output.checkedRows numberOfChunks, check.Passes row) ↔
        ∀ check ∈ self.rowChecks, ∀ row ∈ output.rows, check.Within row) := by
  rw [← columnsInRange_iff hfits h]
  constructor
  · exact fun hall => hall columns h
  · intro hiff columns' h'
    rwa [← Except.ok.inj (h.symm.trans h')]

end LookupVariant

end DeepProve
