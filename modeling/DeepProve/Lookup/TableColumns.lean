import DeepProve.Lookup.TableVerifier
import DeepProve.Lookup.WitnessGen

/-!
# The closed forms of the tables

`evaluate_table_columns` of `lookup/table/mod.rs`: the verifier evaluates the inputs of a table and
the outputs of a ReLU itself, and takes the evaluation of any other output from a commitment. Outside
of its range a table has the output of the nearest end. The rows of a table are counted under one
integer, whose lowest 32 bits are those of the input.
-/

namespace DeepProve

open Multilinear (eval)

section Index

variable {F : Type} [CommRing F]

theorem eval_natCast_cons (x : F) (xs : List F) :
    eval (fun i => (i : F)) (x :: xs) = x + 2 * eval (fun i => (i : F)) xs := by
  have heven : eval (fun i => ((2 * i : Nat) : F)) xs = 2 * eval (fun i => (i : F)) xs := by
    rw [← Multilinear.eval_mul_left]
    simp
  have hodd : eval (fun i => ((2 * i + 1 : Nat) : F)) xs = 2 * eval (fun i => (i : F)) xs + 1 := by
    have hone := Multilinear.eval_const (1 : F) xs
    rw [← heven, ← hone, ← Multilinear.eval_add]
    simp
  rw [Multilinear.eval_cons, heven, hodd]
  ring

/-- The weighted coordinates add up to the polynomial of the indices. -/
theorem foldl_zipIdx_two_pow (t acc : F) (point : List F) (k : Nat) :
    (point.zipIdx k).foldl (fun acc (p, index) => acc + p * 2 ^ index * t) acc =
      acc + 2 ^ k * eval (fun i => (i : F)) point * t := by
  induction point generalizing acc k with
  | nil => simp
  | cons x xs ih =>
    rw [List.zipIdx_cons, List.foldl_cons, ih, eval_natCast_cons]
    ring

theorem Table.indexEval_eq (point : List F) : indexEval point = eval (fun i => (i : F)) point := by
  have hfold := foldl_zipIdx_two_pow 1 0 point 0
  simpa [indexEval] using hfold

end Index

namespace Table

variable (fl : Float32Ops) (self : Table)

/-- `committed_columns`. -/
def committedColumns (F : Type) [Field F] : Outcome (Option (List F)) :=
  if self.commitOutputColumn then do
    let outputs ← self.outputValues fl
    .ok (some (outputs.map fun out : Int => (out : F)))
  else
    .ok none

/-- The polynomial of a column. -/
def columnEval {F : Type} [CommRing F] (point column : List F) : F :=
  eval (fun i => column.getD i 0) point

/-! ## The range -/

section Range

variable {fl self} (hbits : 1 ≤ self.tableBitSize)

include hbits

/-- A table of `b` bits has `2 ^ b` rows. -/
theorem maxInputValue_eq : self.maxInputValue = self.minInputValue + 2 ^ self.tableBitSize - 1 := by
  obtain ⟨k, hk⟩ := Nat.exists_eq_add_of_le' hbits
  have hdouble : (2 : Int) ^ (k + 1) = 2 ^ k + 2 ^ k := by
    rw [pow_succ]
    ring
  unfold maxInputValue minInputValue
  rw [hk, Nat.add_sub_cancel]
  cases self.operation.inputSign <;> simp only <;> omega

theorem length_inputValues : self.inputValues.length = 2 ^ self.tableBitSize := by
  have hmax := maxInputValue_eq hbits
  have hpos : (0 : Int) < 2 ^ self.tableBitSize := pow_pos (by decide) _
  unfold inputValues
  rw [List.length_map, List.length_range, hmax]
  have hsize : self.minInputValue + 2 ^ self.tableBitSize - 1 + 1 - self.minInputValue =
      ((2 ^ self.tableBitSize : Nat) : Int) := by
    push_cast
    ring
  rw [hsize, Int.toNat_natCast]

theorem getElem?_inputValues {i : Nat} (hi : i < 2 ^ self.tableBitSize) :
    self.inputValues[i]? = some (self.minInputValue + i) := by
  have hlength := length_inputValues hbits
  unfold inputValues at hlength ⊢
  rw [List.length_map, List.length_range] at hlength
  rw [List.getElem?_map, List.getElem?_range (by omega)]
  rfl

/-- The polynomial of a column, from the entry of every input. -/
theorem columnEval_map {F : Type} [CommRing F] (f : Int → F) {point : List F}
    (hpoint : point.length = self.tableBitSize) :
    columnEval point (self.inputValues.map f) = eval (fun i => f (self.minInputValue + i)) point := by
  apply Multilinear.eval_congr
  intro i hi
  rw [hpoint] at hi
  rw [List.getD_eq_getElem?_getD, List.getElem?_map, getElem?_inputValues hbits hi]
  rfl

/-- The inputs of a table. -/
theorem columnEval_inputs {F : Type} [CommRing F] {point : List F}
    (hpoint : point.length = self.tableBitSize) :
    columnEval point (self.inputValues.map fun inp : Int => (inp : F)) =
      indexEval point + (self.minInputValue : F) := by
  have hconst := Multilinear.eval_const ((self.minInputValue : Int) : F) point
  rw [columnEval_map hbits _ hpoint, indexEval_eq, add_comm, ← hconst, ← Multilinear.eval_add]
  simp

end Range

/-! ## The outputs -/

section Outputs

variable {fl self}

/-- The outputs of a ReLU: zero on the first half of the inputs, and then the inputs. -/
theorem eval_clamp {F : Type} [CommRing F] (hop : self.operation = .reLU) {point : List F}
    (hpoint : point.length = self.tableBitSize) (hbits : 1 ≤ self.tableBitSize) :
    eval (fun i => ((clamp (self.minInputValue + i) 0 self.maxInputValue : Int) : F)) point =
      (point.zipIdx.take (point.length - 1)).foldl
        (fun acc (p, index) => acc + p * 2 ^ index * point.getLastD 0) 0 := by
  have hne : point ≠ [] := List.ne_nil_of_length_pos (by omega)
  obtain ⟨lo, top, rfl⟩ := (List.eq_nil_or_concat point).resolve_left hne
  rw [List.concat_eq_append] at hpoint hne ⊢
  rw [List.length_append, List.length_singleton] at hpoint
  have hmin : self.minInputValue = -2 ^ lo.length := by
    simp only [minInputValue, hop, TableType.inputSign, ← hpoint, Nat.add_sub_cancel]
  have hmax : self.maxInputValue = 2 ^ lo.length - 1 := by
    simp only [maxInputValue, hop, TableType.inputSign, ← hpoint, Nat.add_sub_cancel]
  have htake : (lo ++ [top]).zipIdx.take ((lo ++ [top]).length - 1) = lo.zipIdx := by
    rw [List.zipIdx_append, List.length_append, List.length_singleton, Nat.add_sub_cancel,
      List.take_left' List.length_zipIdx]
  have hlast : (lo ++ [top]).getLastD 0 = top := by simp
  have hlow : eval (fun i => ((clamp (-2 ^ lo.length + (i : Int)) 0 (2 ^ lo.length - 1) : Int) : F))
      lo = 0 := by
    rw [← Multilinear.eval_const (0 : F) lo]
    apply Multilinear.eval_congr
    intro i hi
    have hi : (i : Int) < 2 ^ lo.length := by exact_mod_cast hi
    rw [clamp, if_pos (by omega), Int.cast_zero]
  have hhigh : eval (fun i => ((clamp (-2 ^ lo.length + ((2 ^ lo.length + i : Nat) : Int)) 0
      (2 ^ lo.length - 1) : Int) : F)) lo = eval (fun i => (i : F)) lo := by
    apply Multilinear.eval_congr
    intro i hi
    have hi : (i : Int) < 2 ^ lo.length := by exact_mod_cast hi
    have hinput : -2 ^ lo.length + ((2 ^ lo.length + i : Nat) : Int) = i := by
      push_cast
      ring
    rw [hinput, clamp, if_neg (by omega), if_neg (by omega), Int.cast_natCast]
  rw [hmin, hmax, htake, hlast, foldl_zipIdx_two_pow, Multilinear.eval_append]
  simp only [List.length_singleton, pow_one, Finset.sum_range_succ, Finset.sum_range_zero,
    Nat.zero_mul, Nat.zero_add, Nat.one_mul, Multilinear.eqWeight, hlow, hhigh]
  simp [mul_comm]

/-- The outputs are found, in the order of the inputs. -/
theorem exists_outputs : ∃ outputs : Int → Int,
    self.outputValues fl = .ok (self.inputValues.map outputs) ∧
      ∀ input, self.InRange input → self.lookup fl input = .ok (outputs input) := by
  obtain ⟨outputs, houtputs⟩ := @outputValues_eq fl self
  refine ⟨outputs, ?_, fun input h => houtputs input (mem_inputValues.mpr h)⟩
  apply Outcome.mapM_eq_ok_map
  intro input hmem
  rw [houtputs input hmem, Outcome.unwrapped_ok]

/-- A table with one column looks up its inputs. -/
theorem lookup_of_numColumns_eq_one {input output : Int} (hone : self.numColumns = 1)
    (h : self.InRange input) (hlookup : self.lookup fl input = .ok output) : output = input := by
  unfold numColumns at hone
  cases hop : self.operation with
  | requantise => exact Except.ok.inj (hlookup.symm.trans (lookup_requantise fl hop h))
  | shiftCheck =>
    unfold lookup at hlookup
    rw [hop] at hlookup
    exact Except.ok.inj (hlookup.symm.trans (TableType.applyInRange_eq_ok h))
  | exp | geLU | reLU | siLU | signedZeroCheck | zeroCheck =>
    rw [hop] at hone
    cases hone

/-- The last column has the outputs. -/
theorem getTableColumns_eq_ok {F : Type} [Field F] {outputs : Int → Int}
    (houtputs : self.outputValues fl = .ok (self.inputValues.map outputs))
    (hlookup : ∀ input, self.InRange input → self.lookup fl input = .ok (outputs input)) :
    self.getTableColumns fl F = .ok (
      (if self.numColumns = 1 then [] else [self.inputValues.map fun inp : Int => (inp : F)]) ++
        [(self.inputValues.map outputs).map fun out : Int => (out : F)]) := by
  unfold getTableColumns
  rcases TableType.numColumns_eq self.operation with hone | htwo
  · have hone : self.numColumns = 1 := hone
    have hinputs : self.inputValues.map outputs = self.inputValues := by
      have hid : ∀ input ∈ self.inputValues, outputs input = input := by
        intro input hmem
        have hinput := mem_inputValues.mp hmem
        exact lookup_of_numColumns_eq_one hone hinput (hlookup input hinput)
      rw [List.map_congr_left hid, List.map_id']
    rw [hone, hinputs]
    rfl
  · have htwo : self.numColumns = 2 := htwo
    rw [htwo, houtputs]
    rfl

/-- What the verifier evaluates itself and what is committed are the polynomials of all columns. -/
theorem evaluateTableColumns_eq {F : Type} [Field F] {point : List F}
    (hbits : 1 ≤ self.tableBitSize) (hpoint : point.length = self.tableBitSize)
    {outputs : Int → Int} (houtputs : self.outputValues fl = .ok (self.inputValues.map outputs))
    (hlookup : ∀ input, self.InRange input → self.lookup fl input = .ok (outputs input)) :
    ∃ values committed, self.evaluateTableColumns point = .ok values ∧
      self.committedColumns fl F = .ok committed ∧
      values ++ (committed.map (columnEval point)).toList =
        ((if self.numColumns = 1 then [] else [self.inputValues.map fun inp : Int => (inp : F)]) ++
          [(self.inputValues.map outputs).map fun out : Int => (out : F)]).map
            (columnEval point) := by
  have hinputs := columnEval_inputs hbits hpoint
  have hcheck : (point.length == self.tableBitSize) = true := beq_iff_eq.mpr hpoint
  unfold evaluateTableColumns committedColumns commitOutputColumn
  rw [hcheck, houtputs]
  cases hop : self.operation with
  | requantise | shiftCheck =>
    have hone : self.numColumns = 1 := by
      rw [numColumns, hop]
      rfl
    have hid : ∀ input ∈ self.inputValues, outputs input = input := by
      intro input hmem
      have hinput := mem_inputValues.mp hmem
      exact lookup_of_numColumns_eq_one hone hinput (hlookup input hinput)
    refine ⟨_, _, rfl, rfl, ?_⟩
    rw [if_pos hone, List.map_congr_left hid, List.map_id', List.nil_append, List.map_singleton,
      hinputs]
    rfl
  | reLU =>
    have htwo : ¬ self.numColumns = 1 := by
      rw [numColumns, hop]
      decide
    have hclamp : ∀ input ∈ self.inputValues, outputs input = clamp input 0 self.maxInputValue := by
      intro input hmem
      have hrelu := hlookup input (mem_inputValues.mp hmem)
      unfold lookup at hrelu
      rw [hop] at hrelu
      exact (Except.ok.inj hrelu).symm
    refine ⟨_, _, rfl, rfl, ?_⟩
    rw [if_neg htwo, List.map_congr_left hclamp, List.map_map, List.map_append, List.map_singleton,
      List.map_singleton, hinputs, columnEval_map hbits _ hpoint]
    simp only [Function.comp_apply, eval_clamp hop hpoint hbits]
    rfl
  | exp | geLU | siLU | signedZeroCheck | zeroCheck =>
    have htwo : ¬ self.numColumns = 1 := by
      rw [numColumns, hop]
      decide
    refine ⟨_, _, rfl, rfl, ?_⟩
    rw [if_neg htwo, List.map_append, List.map_singleton, List.map_singleton, hinputs]
    rfl

end Outputs

/-! ## The keys of the rows -/

section Keys

variable {fl self}

/-- Two inputs with the same lowest 32 bits are not both in a small range. -/
theorem eq_of_emod_eq (hbits : 1 ≤ self.tableBitSize) (hsmall : self.tableBitSize ≤ 32) {a b : Int}
    (ha : self.InRange a) (hb : self.InRange b) (h : a % 2 ^ 32 = b % 2 ^ 32) : a = b := by
  have hmax := maxInputValue_eq hbits
  have hpow : (2 : Int) ^ self.tableBitSize ≤ 2 ^ 32 := pow_le_pow_right₀ (by decide) hsmall
  obtain ⟨halow, hahigh⟩ := ha
  obtain ⟨hblow, hbhigh⟩ := hb
  omega

/-- Signs grow with the inputs, so their keys are apart unless they wrap. -/
theorem eq_of_signKey {a b : Int} (ha : -2 ^ 62 ≤ a ∧ a < 2 ^ 62) (hb : -2 ^ 62 ≤ b ∧ b < 2 ^ 62)
    (h : mergeColumns a a.sign = mergeColumns b b.sign) : a = b := by
  have hmod := congrArg (· % ((2 ^ 64 : Nat) : Int)) h
  simp only [mergeColumns, columnSeparator, Int.bmod_emod] at hmod
  have hsign : ∀ x : Int, x.sign = if 0 < x then 1 else if x < 0 then -1 else 0 := by
    intro x
    rcases lt_trichotomy x 0 with hneg | rfl | hpos
    · rw [if_neg hneg.not_gt, if_pos hneg, Int.sign_eq_neg_one_of_neg hneg]
    · rfl
    · rw [if_pos hpos, Int.sign_eq_one_of_pos hpos]
  rw [hsign a, hsign b] at hmod
  split at hmod <;> split at hmod <;> (try split at hmod) <;> (try split at hmod) <;> omega

/-- Rows are counted apart if the inputs fit into the 32 bits below the outputs. -/
theorem nodup_keys (hbits : 1 ≤ self.tableBitSize)
    (h : self.numColumns = 1 ∨ self.tableBitSize ≤ 32 ∨
      self.operation = .signedZeroCheck ∧ self.tableBitSize ≤ 63) :
    ((self.rows fl).map TableRow.key).Nodup := by
  unfold rows
  rw [List.map_map]
  apply (nodup_inputValues self).map_on
  intro a ha b hb hkey
  have ha := mem_inputValues.mp ha
  have hb := mem_inputValues.mp hb
  obtain ⟨outputs, _, hlookup⟩ := @exists_outputs fl self
  have hrow : ∀ input, self.InRange input → self.numColumns ≠ 1 →
      (self.row fl input).key = mergeColumns input (outputs input) := by
    intro input hinput hcolumns
    simp [row, TableRow.key, hcolumns, hlookup input hinput, Except.toOption]
  by_cases hone : self.numColumns = 1
  · simpa [row, TableRow.key, hone] using hkey
  · rw [Function.comp_apply, Function.comp_apply, hrow a ha hone, hrow b hb hone] at hkey
    rcases h with hcolumns | hsmall | ⟨hop, hwide⟩
    · exact absurd hcolumns hone
    · have hmod := congrArg (· % (2 : Int) ^ 32) hkey
      simp only [mergeColumns_emod] at hmod
      exact eq_of_emod_eq hbits hsmall ha hb hmod
    · have houtput : ∀ input, self.InRange input → outputs input = input.sign := by
        intro input hinput
        have hsign := hlookup input hinput
        unfold lookup at hsign
        rw [hop] at hsign
        exact (Except.ok.inj ((TableType.applyInRange_eq_ok hinput).symm.trans hsign)).symm
      have hpow : (2 : Int) ^ (self.tableBitSize - 1) ≤ 2 ^ 62 :=
        pow_le_pow_right₀ (by decide) (by omega)
      have hrange : ∀ input, self.InRange input → -2 ^ 62 ≤ input ∧ input < 2 ^ 62 := by
        intro input hinput
        obtain ⟨hlow, hhigh⟩ := hinput
        simp only [minInputValue, maxInputValue, hop, TableType.inputSign] at hlow hhigh
        omega
      rw [houtput a ha, houtput b hb] at hkey
      exact eq_of_signKey (hrange a ha) (hrange b hb) hkey

end Keys

/-- The ReLU of the values from -2 to 1. -/
def smallRelu : Table := ⟨.reLU, oneBits, oneBits, 2⟩

/-- A zero check of 33 bits. -/
def wideZeroCheck : Table := ⟨.zeroCheck, oneBits, oneBits, 33⟩

end Table

end DeepProve
