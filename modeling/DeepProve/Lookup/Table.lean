import DeepProve.Outcome

/-!
# Lookup tables

`lookup/table/mod.rs` and `lookup/table/tabletype.rs`. A table maps an interval of
integers to integers; three operations are floating point functions, the others
are integer functions. `Element` is `i64`: the model computes on `Int`, which is the
same as long as the bit size of a table is below 63.
-/

namespace DeepProve

/-- The `f32` operations of the tables. -/
structure Float32Ops where
  F32 : Type
  fromBits : UInt32 → F32
  /-- `x as f32`. -/
  ofElement : Int → F32
  div : F32 → F32 → F32
  mul : F32 → F32 → F32
  exp : F32 → F32
  geluFloat : F32 → F32
  siluFloat : F32 → F32
  roundTiesEven : F32 → F32
  /-- `x as Element`. -/
  toElement : F32 → Int
  display : F32 → String

/-- `1.0f32.to_bits()`. -/
def oneBits : UInt32 := 0x3f800000

/-- `Ord::clamp`. -/
def clamp (input min max : Int) : Int :=
  if input < min then min else if max < input then max else input

inductive TableType where
  | exp
  | geLU
  | reLU
  | siLU
  | requantise
  | shiftCheck
  | signedZeroCheck
  | zeroCheck
  deriving DecidableEq, Repr, Ord

/-- The sign of the inputs of a table. -/
inductive TableSign where
  | positive
  | negative
  | mixed
  deriving DecidableEq, Repr

namespace TableType

/-- `Display`. -/
def display : TableType → String
  | exp => "ExpTable"
  | geLU => "GeLUTable"
  | reLU => "ReLUTable"
  | siLU => "SiLUTable"
  | requantise => "RequantiseTable"
  | shiftCheck => "ShiftCheckTable"
  | signedZeroCheck => "SignedZeroCheckTable"
  | zeroCheck => "ZeroCheckTable"

/-- `Debug`. -/
def debug : TableType → String
  | exp => "Exp"
  | geLU => "GeLU"
  | reLU => "ReLU"
  | siLU => "SiLU"
  | requantise => "Requantise"
  | shiftCheck => "ShiftCheck"
  | signedZeroCheck => "SignedZeroCheck"
  | zeroCheck => "ZeroCheck"

def numColumns : TableType → Nat
  | requantise | shiftCheck => 1
  | _ => 2

def commitOutputColumn : TableType → Bool
  | reLU | requantise | shiftCheck => false
  | _ => true

def inputSign : TableType → TableSign
  | exp => .negative
  | shiftCheck | zeroCheck => .positive
  | _ => .mixed

/-- The columns are the input column and at most one output column. -/
theorem numColumns_eq (self : TableType) : self.numColumns = 1 ∨ self.numColumns = 2 := by
  cases self <;> decide

/-- `(f(input as f32 / input_sf) * output_sf).round_ties_even() as Element`. -/
def applyFloat (fl : Float32Ops) (f : fl.F32 → fl.F32) (input : Int)
    (inputSf outputSf : fl.F32) : Int :=
  fl.toElement (fl.roundTiesEven (fl.mul (f (fl.div (fl.ofElement input) inputSf)) outputSf))

/-- The float operations that are constant outside of the range of the table. -/
def applyFloatClamped (fl : Float32Ops) (f : fl.F32 → fl.F32) (input : Int)
    (inputSf outputSf : fl.F32) (inputMin inputMax : Int) : Int :=
  if input < inputMin then
    applyFloat fl f inputMin inputSf outputSf
  else if inputMax < input then
    applyFloat fl f inputMax inputSf outputSf
  else
    applyFloat fl f input inputSf outputSf

/-- The operations that fail outside of the range of the table. -/
def applyInRange (name : String) (f : Int → Int) (input inputMin inputMax : Int) :
    Outcome Int := do
  ensure (decide (inputMin ≤ input ∧ input ≤ inputMax))
    s!"Input value {input} out of range for {name}, min: {inputMin}, max: {inputMax}"
  .ok (f input)

theorem applyInRange_eq_ok {name : String} {f : Int → Int} {input inputMin inputMax : Int}
    (h : inputMin ≤ input ∧ input ≤ inputMax) :
    applyInRange name f input inputMin inputMax = .ok (f input) := by
  unfold applyInRange
  rw [decide_eq_true h]
  rfl

/-- `apply_op`. -/
def applyOp (fl : Float32Ops) (self : TableType) (input : Int) (inputSf outputSf : fl.F32)
    (inputMin inputMax : Int) : Outcome Int :=
  match self with
  | exp => .ok <|
    if input ≤ inputMin then
      0
    else if inputMax ≤ input then
      fl.toElement (fl.roundTiesEven outputSf)
    else
      applyFloat fl fl.exp input inputSf outputSf
  | geLU => .ok (applyFloatClamped fl fl.geluFloat input inputSf outputSf inputMin inputMax)
  | siLU => .ok (applyFloatClamped fl fl.siluFloat input inputSf outputSf inputMin inputMax)
  | reLU => .ok (clamp input 0 inputMax)
  | requantise => .ok (clamp input inputMin inputMax)
  | shiftCheck => applyInRange "ShiftCheckTable" id input inputMin inputMax
  | signedZeroCheck => applyInRange "SignedZeroCheckTable" Int.sign input inputMin inputMax
  | zeroCheck =>
    applyInRange "ZeroCheckTable" (fun input => if input = 0 then 1 else 0) input inputMin inputMax

end TableType

/-- A table; the scale factors are the bits of an `f32`. -/
structure Table where
  operation : TableType
  inputScaleFactor : UInt32
  outputScaleFactor : UInt32
  tableBitSize : Nat
  deriving DecidableEq, Repr

instance : Std.TransOrd TableType where
  eq_swap := by
    intro s t
    cases s <;> cases t <;> rfl
  isLE_trans := by
    intro s t u
    cases s <;> cases t <;> cases u <;> decide

instance : Std.LawfulEqOrd TableType where
  eq_of_compare := by
    intro s t
    cases s <;> cases t <;> decide

namespace Table

/-- The largest tables come first. -/
instance : Ord Table where
  compare := compareLex (fun self other => compareOn tableBitSize other self)
    (compareLex (compareOn operation)
      (compareLex (compareOn inputScaleFactor) (compareOn outputScaleFactor)))

instance : Std.TransOrd Table :=
  inferInstanceAs (Std.TransCmp (compareLex (fun self other => compareOn tableBitSize other self)
    (compareLex (compareOn operation)
      (compareLex (compareOn inputScaleFactor) (compareOn outputScaleFactor)))))

instance : Std.LawfulEqOrd Table where
  eq_of_compare := by
    intro s t h
    obtain ⟨operation, input, output, bits⟩ := s
    obtain ⟨operation', input', output', bits'⟩ := t
    have h : (compare bits' bits).then ((compare operation operation').then
      ((compare input input').then (compare output output'))) = .eq := h
    simp only [Ordering.then_eq_eq] at h
    obtain ⟨hbits, hoperation, hinput, houtput⟩ := h
    obtain rfl := Std.LawfulEqOrd.eq_of_compare hbits
    obtain rfl := Std.LawfulEqOrd.eq_of_compare hoperation
    obtain rfl := Std.LawfulEqOrd.eq_of_compare hinput
    obtain rfl := Std.LawfulEqOrd.eq_of_compare houtput
    rfl

def numColumns (self : Table) : Nat := self.operation.numColumns

def commitOutputColumn (self : Table) : Bool := self.operation.commitOutputColumn

def tableSign (self : Table) : TableSign := self.operation.inputSign

def isSigned (self : Table) : Bool := self.operation.inputSign == .mixed

def maxInputValue (self : Table) : Int :=
  match self.operation.inputSign with
  | .positive => 2 ^ self.tableBitSize - 1
  | .mixed => 2 ^ (self.tableBitSize - 1) - 1
  | .negative => 0

def minInputValue (self : Table) : Int :=
  match self.operation.inputSign with
  | .positive => 0
  | .mixed => -2 ^ (self.tableBitSize - 1)
  | .negative => -2 ^ self.tableBitSize + 1

/-- The inputs that the table handles. -/
def InRange (self : Table) (input : Int) : Prop :=
  self.minInputValue ≤ input ∧ input ≤ self.maxInputValue

instance (self : Table) (input : Int) : Decidable (self.InRange input) :=
  inferInstanceAs (Decidable (_ ∧ _))

section Lookup

variable (fl : Float32Ops) (self : Table)

def name : String :=
  self.operation.display ++ "_" ++ toString self.tableBitSize ++ "_bits_" ++
    fl.display (fl.fromBits self.inputScaleFactor) ++ "_input_sf_" ++
    fl.display (fl.fromBits self.outputScaleFactor) ++ "_output_sf"

/-- Looks up a value. -/
def lookup (input : Int) : Outcome Int :=
  self.operation.applyOp fl input (fl.fromBits self.inputScaleFactor)
    (fl.fromBits self.outputScaleFactor) self.minInputValue self.maxInputValue

def maxOutputValue : Outcome Int :=
  match self.operation with
  | .zeroCheck => .ok 1
  | _ => self.lookup fl self.maxInputValue

def minOutputValue : Outcome Int :=
  match self.operation with
  | .zeroCheck => .ok 0
  | _ => self.lookup fl self.minInputValue

omit fl in
theorem minInputValue_le_maxInputValue : self.minInputValue ≤ self.maxInputValue := by
  have hpow : ∀ n : Nat, (0 : Int) < 2 ^ n := fun n => pow_pos (by decide) n
  have hbits := hpow self.tableBitSize
  have hhalf := hpow (self.tableBitSize - 1)
  unfold minInputValue maxInputValue
  cases self.operation.inputSign <;> simp only <;> omega

variable {self} {input output : Int}

/-- A value in the range of a table has an output. -/
theorem lookup_of_inRange (h : self.InRange input) : ∃ output, self.lookup fl input = .ok output := by
  unfold lookup TableType.applyOp
  cases self.operation with
  | shiftCheck | signedZeroCheck | zeroCheck => exact ⟨_, TableType.applyInRange_eq_ok h⟩
  | exp | geLU | siLU | reLU | requantise => exact ⟨_, rfl⟩

/-- Below the range a table that has an output has the first one. -/
theorem lookup_of_lt_min (h : input < self.minInputValue)
    (hlookup : self.lookup fl input = .ok output) :
    self.lookup fl self.minInputValue = .ok output := by
  have hle := minInputValue_le_maxInputValue self
  unfold lookup at hlookup ⊢
  cases hop : self.operation with
  | exp =>
    rw [hop] at hlookup
    simp only [TableType.applyOp, if_pos h.le, if_pos (le_refl _)] at hlookup ⊢
    exact hlookup
  | geLU | siLU =>
    rw [hop] at hlookup
    simp only [TableType.applyOp, TableType.applyFloatClamped, if_pos h] at hlookup ⊢
    rw [if_neg (lt_irrefl _), if_neg (by omega), hlookup]
  | reLU =>
    rw [hop] at hlookup
    have hneg : self.minInputValue < 0 := by
      simp only [minInputValue, hop, TableType.inputSign]
      have hpos : (0 : Int) < 2 ^ (self.tableBitSize - 1) := pow_pos (by decide) _
      omega
    simp only [TableType.applyOp, clamp] at hlookup ⊢
    rw [if_pos (by omega)] at hlookup
    rw [if_pos hneg, hlookup]
  | requantise =>
    rw [hop] at hlookup
    simp only [TableType.applyOp, clamp, if_pos h] at hlookup ⊢
    rw [if_neg (lt_irrefl _), if_neg (by omega), hlookup]
  | shiftCheck | signedZeroCheck | zeroCheck =>
    rw [hop] at hlookup
    simp only [TableType.applyOp, TableType.applyInRange] at hlookup
    rw [decide_eq_false (by omega)] at hlookup
    cases hlookup

/-- Above the range a table that has an output has the last one. -/
theorem lookup_of_max_lt (hbits : self.operation = .exp → 1 ≤ self.tableBitSize)
    (h : self.maxInputValue < input) (hlookup : self.lookup fl input = .ok output) :
    self.lookup fl self.maxInputValue = .ok output := by
  have hle := minInputValue_le_maxInputValue self
  unfold lookup at hlookup ⊢
  cases hop : self.operation with
  | exp =>
    rw [hop] at hlookup
    have hlt : self.minInputValue < self.maxInputValue := by
      have htwo : (2 : Int) ^ 1 ≤ 2 ^ self.tableBitSize := pow_le_pow_right₀ (by decide) (hbits hop)
      simp only [minInputValue, maxInputValue, hop, TableType.inputSign]
      omega
    simp only [TableType.applyOp] at hlookup ⊢
    rw [if_neg (by omega), if_pos h.le] at hlookup
    rw [if_neg (by omega), if_pos (le_refl _), hlookup]
  | geLU | siLU =>
    rw [hop] at hlookup
    simp only [TableType.applyOp, TableType.applyFloatClamped] at hlookup ⊢
    rw [if_neg (by omega), if_pos h] at hlookup
    rw [if_neg (by omega), if_neg (lt_irrefl _), hlookup]
  | reLU =>
    rw [hop] at hlookup
    have hnonneg : 0 ≤ self.maxInputValue := by
      simp only [maxInputValue, hop, TableType.inputSign]
      have hpos : (0 : Int) < 2 ^ (self.tableBitSize - 1) := pow_pos (by decide) _
      omega
    simp only [TableType.applyOp, clamp] at hlookup ⊢
    rw [if_neg (by omega), if_pos h] at hlookup
    rw [if_neg (by omega), if_neg (lt_irrefl _), hlookup]
  | requantise =>
    rw [hop] at hlookup
    simp only [TableType.applyOp, clamp] at hlookup ⊢
    rw [if_neg (by omega), if_pos h] at hlookup
    rw [if_neg (by omega), if_neg (lt_irrefl _), hlookup]
  | shiftCheck | signedZeroCheck | zeroCheck =>
    rw [hop] at hlookup
    simp only [TableType.applyOp, TableType.applyInRange] at hlookup
    rw [decide_eq_false (by omega)] at hlookup
    cases hlookup

/-- Above its range a table of both signs is constant, or there is no output. -/
theorem maxOutputValue_of_lt (hsign : self.tableSign = .mixed) (h : self.maxInputValue < input)
    (hlookup : self.lookup fl input = .ok output) : self.maxOutputValue fl = .ok output := by
  have hsign' : self.operation.inputSign = .mixed := hsign
  have hlast := lookup_of_max_lt fl (fun hop => by rw [hop] at hsign'; cases hsign') h hlookup
  unfold maxOutputValue
  split
  · rename_i hop
    rw [hop] at hsign'
    cases hsign'
  · exact hlast

/-- Below its range a table of both signs is constant, or there is no output. -/
theorem minOutputValue_of_lt (hsign : self.tableSign = .mixed) (h : input < self.minInputValue)
    (hlookup : self.lookup fl input = .ok output) : self.minOutputValue fl = .ok output := by
  have hsign' : self.operation.inputSign = .mixed := hsign
  unfold minOutputValue
  split
  · rename_i hop
    rw [hop] at hsign'
    cases hsign'
  · exact lookup_of_lt_min fl h hlookup

/-- The lowest output of a table of negative values is zero, also below its range. -/
theorem lookup_of_le_of_negative (hsign : self.tableSign = .negative)
    (h : input ≤ self.minInputValue) : self.lookup fl input = .ok 0 := by
  have hsign' : self.operation.inputSign = .negative := hsign
  unfold lookup
  cases hop : self.operation with
  | exp => exact congrArg Except.ok (if_pos h)
  | geLU | siLU | reLU | requantise | signedZeroCheck | shiftCheck | zeroCheck =>
    rw [hop] at hsign'
    cases hsign'

theorem minOutputValue_of_negative (hsign : self.tableSign = .negative) :
    self.minOutputValue fl = .ok 0 := by
  have hlookup := lookup_of_le_of_negative fl hsign (le_refl _)
  unfold minOutputValue
  cases self.operation with
  | zeroCheck => rfl
  | _ => exact hlookup

/-- In its range a requantisation is the identity. -/
theorem lookup_requantise (hop : self.operation = .requantise) (h : self.InRange input) :
    self.lookup fl input = .ok input := by
  obtain ⟨hmin, hmax⟩ := h
  unfold lookup
  rw [hop]
  simp only [TableType.applyOp, clamp]
  rw [if_neg (by omega), if_neg (by omega)]

end Lookup

/-- `self.min_input_value()..=self.max_input_value()`. -/
def inputValues (self : Table) : List Int :=
  (List.range (self.maxInputValue + 1 - self.minInputValue).toNat).map fun i : Nat =>
    self.minInputValue + (i : Int)

theorem mem_inputValues {self : Table} {input : Int} :
    input ∈ self.inputValues ↔ self.InRange input := by
  have hle := minInputValue_le_maxInputValue self
  simp only [inputValues, List.mem_map, List.mem_range, InRange]
  constructor
  · rintro ⟨i, hi, rfl⟩
    omega
  · rintro ⟨hmin, hmax⟩
    exact ⟨(input - self.minInputValue).toNat, by omega, by omega⟩

theorem nodup_inputValues (self : Table) : self.inputValues.Nodup := by
  apply List.Nodup.map _ List.nodup_range
  intro i j hij
  have hij : self.minInputValue + (i : Int) = self.minInputValue + (j : Int) := hij
  omega

/-- `COLUMN_SEPARATOR`. -/
def columnSeparator : Int := 2 ^ 32

/-- `input + COLUMN_SEPARATOR * output`, which wraps. -/
def mergeColumns (input output : Int) : Int := (input + columnSeparator * output).bmod (2 ^ 64)

/-- The lowest 32 bits of a key are those of the input. -/
theorem mergeColumns_emod (input output : Int) : mergeColumns input output % 2 ^ 32 = input % 2 ^ 32 := by
  have hdvd : (2 : Int) ^ 32 ∣ ((2 ^ 64 : Nat) : Int) := ⟨2 ^ 32, by norm_num⟩
  unfold mergeColumns columnSeparator
  rw [← Int.emod_emod_of_dvd _ hdvd, Int.bmod_emod, Int.emod_emod_of_dvd _ hdvd,
    Int.add_mul_emod_self_left]

section Columns

variable (fl : Float32Ops) (self : Table)

/-- `self.lookup(inp).unwrap()`, of all inputs. -/
def outputValues : Outcome (List Int) :=
  self.inputValues.mapM fun inp => Outcome.unwrapped (self.lookup fl inp)

/-- `get_table_columns`. -/
def getTableColumns (F : Type) [CommRing F] : Outcome (List (List F)) :=
  match self.numColumns with
  | 1 => .ok [self.inputValues.map fun inp : Int => (inp : F)]
  | 2 => do
    let outputs ← self.outputValues fl
    .ok [self.inputValues.map fun inp : Int => (inp : F), outputs.map fun out : Int => (out : F)]
  | _ => .error (.panic "No table has more than 2 columns")

/-- `get_merged_table_columns`. -/
def getMergedTableColumns : Outcome (List Int) :=
  match self.numColumns with
  | 1 => .ok self.inputValues
  | 2 => self.inputValues.mapM fun inp => do
    let out ← Outcome.unwrapped (self.lookup fl inp)
    .ok (mergeColumns inp out)
  | _ => .error (.panic "No table has more than 2 columns")

end Columns

/-- The value of the binary number whose bits are the coordinates of the point. -/
def indexEval {F : Type} [CommRing F] (point : List F) : F :=
  point.zipIdx.foldl (fun acc (p, index) => acc + p * 2 ^ index) 0

/-- `evaluate_table_columns`. -/
def evaluateTableColumns {F : Type} [CommRing F] (self : Table) (point : List F) :
    Outcome (List F) := do
  ensure (point.length == self.tableBitSize)
    s!"Point was not the correct size to produce a table evaluation, point size: {point.length}, expected: {self.tableBitSize}"
  let firstColumn := indexEval point + (self.minInputValue : F)
  match self.operation with
  | .reLU =>
    let secondColumn := (point.zipIdx.take (point.length - 1)).foldl
      (fun acc (p, index) => acc + p * 2 ^ index * point.getLastD 0) 0
    .ok [firstColumn, secondColumn]
  | _ => .ok [firstColumn]

/-- `new_requantise`, for the bit length of the quantization. -/
def newRequantise (bitLen : Nat) : Table := ⟨.requantise, oneBits, oneBits, bitLen⟩

/-- `new_shift_check`. -/
def newShiftCheck : Table := ⟨.shiftCheck, oneBits, oneBits, 16⟩

/-- `new_signed_zero_check`. -/
def newSignedZeroCheck : Table := ⟨.signedZeroCheck, oneBits, oneBits, 16⟩

/-- `new_zero_check`. -/
def newZeroCheck : Table := ⟨.zeroCheck, oneBits, oneBits, 16⟩

end Table

end DeepProve
