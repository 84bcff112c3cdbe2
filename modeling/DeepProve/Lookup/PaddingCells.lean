import DeepProve.Lookup.DimWeights

/-!
# The cells of the lookup padding

What `compute_lookup_padding_evaluation` is the evaluation of: the tensor that has the padding value
where the index of one of the last two dimensions lies in the padding, in the sub tensors that are
not padding.
-/

namespace DeepProve

open Multilinear (eval ltWeight)

/-! ## Cells -/

namespace Shape

/-- The indices of a cell of the padded tensor, each with the size of its dimension. -/
def cell : Shape → Nat → List (Nat × Nat)
  | [], _ => []
  | d :: dims, i =>
    (i / (nextPowerOfTwo dims).numel % DeepProve.nextPowerOfTwo d, d) :: cell dims i

theorem numel_nextPowerOfTwo_append (lead tail : Shape) :
    (nextPowerOfTwo (lead ++ tail)).numel =
      (nextPowerOfTwo tail).numel * (nextPowerOfTwo lead).numel := by
  rw [nextPowerOfTwo, List.map_append, numel, List.prod_append, Nat.mul_comm]
  rfl

@[simp] theorem length_cell (self : Shape) (i : Nat) : (self.cell i).length = self.length := by
  induction self with
  | nil => rfl
  | cons d dims ih => rw [cell, List.length_cons, ih, List.length_cons]

/-- The indices of the first dimensions are those of the sub tensor of the cell. -/
theorem cell_append (lead tail : Shape) (i : Nat) :
    cell (lead ++ tail) i = cell lead (i / (nextPowerOfTwo tail).numel) ++ cell tail i := by
  induction lead with
  | nil => rfl
  | cons d lead ih =>
    rw [List.cons_append, cell, cell, ih, numel_nextPowerOfTwo_append, ← Nat.div_div_eq_div_mul]
    rfl

/-- The cell is the same in each sub tensor. -/
theorem cell_mod (self : Shape) (i : Nat) : cell self (i % (nextPowerOfTwo self).numel) = cell self i := by
  induction self generalizing i with
  | nil => rfl
  | cons d dims ih =>
    have hnumel : (nextPowerOfTwo (d :: dims)).numel =
        (nextPowerOfTwo dims).numel * DeepProve.nextPowerOfTwo d := by
      rw [Nat.mul_comm]
      exact List.prod_cons
    have hindex : ∀ a b : Nat, i % (a * b) / a % b = i / a % b := fun a b => by
      rw [Nat.mod_mul_right_div_self, Nat.mod_mod]
    rw [cell, cell, hnumel, hindex, ← ih (i % _), Nat.mod_mul_right_mod, ih]

end Shape

/-- All indices are in the unpadded tensor. -/
def inShape (cell : List (Nat × Nat)) : Bool := cell.all fun (j, d) => j < d

section Eval

variable {F : Type} [Field F]

/-- The polynomial of the cells that are not padding compares each index with its size. -/
theorem eval_inShape {dims : Shape} {point : List F} (h : point.length = dims.dimVars.sum) :
    eval (fun i => if inShape (Shape.cell dims i) then 1 else 0) point = ltProd (dimEntries dims point) := by
  induction dims generalizing point with
  | nil =>
    rw [List.length_eq_zero_iff.mp h]
    simp [inShape, Shape.cell, ltProd, dimEntries]
  | cons d dims ih =>
    have hvars : Shape.dimVars (d :: dims) = ceilLog2 d :: Shape.dimVars dims := rfl
    rw [hvars, List.sum_cons] at h
    obtain ⟨htake, hdrop⟩ := splits_of_length h
    rw [dimEntries_cons]
    generalize hhead : point.take (point.length - ceilLog2 d) = head at htake
    generalize hlast : point.drop (point.length - ceilLog2 d) = last at hdrop
    have hjoin : point = head ++ last := by rw [← hhead, ← hlast, List.take_append_drop]
    have hsize : (Shape.nextPowerOfTwo dims).numel = 2 ^ head.length := by
      rw [Shape.numel_nextPowerOfTwo, htake]
    have hd : d ≤ 2 ^ last.length := by
      rw [hdrop]
      exact Nat.le_pow_clog (by decide) d
    have hpow : nextPowerOfTwo d = 2 ^ last.length := by rw [hdrop]; rfl
    have hsplit : eval (fun i => if inShape (Shape.cell (d :: dims) i) then (1 : F) else 0)
        (head ++ last) = eval (fun i =>
          (if i / 2 ^ head.length < d then 1 else 0) *
            if inShape (Shape.cell dims (i % 2 ^ head.length)) then 1 else 0) (head ++ last) := by
      apply Multilinear.eval_congr
      intro i hi
      rw [List.length_append, pow_add] at hi
      have hlt : i / 2 ^ head.length < 2 ^ last.length := Nat.div_lt_of_lt_mul hi
      rw [← hsize, Shape.cell_mod, hsize, Shape.cell, inShape, List.all_cons, hsize, hpow,
        Nat.mod_eq_of_lt hlt]
      show (if (decide (i / 2 ^ head.length < d) && inShape (Shape.cell dims i)) = true then (1 : F) else 0) = _
      by_cases hin : i / 2 ^ head.length < d
      · rw [decide_eq_true hin, Bool.true_and, if_pos hin, one_mul]
      · rw [decide_eq_false hin, Bool.false_and, if_neg hin, zero_mul, if_neg Bool.false_ne_true]
    rw [hjoin, hsplit, Multilinear.eval_append_mul (fun j => if j < d then 1 else 0)
      (fun i => if inShape (Shape.cell dims i) then 1 else 0), ih htake, Multilinear.eval_lt hd]
    rfl

/-- The padding value in the cells whose leading indices are not padding, but one of whose last two
    indices is; zero elsewhere. -/
def lookupPadding (paddingValue : F) (shape : Shape) (i : Nat) : F :=
  let lead := (shape.cell i).take (shape.rank - 2)
  let last := (shape.cell i).drop (shape.rank - 2)
  if inShape lead ∧ ∃ entry ∈ last, entry.2 ≤ entry.1 then paddingValue else 0

theorem eval_lookupPadding {lead tail : Shape} {secondLastDim lastDim : Nat} {lo hi : List F}
    (h : LastDims lead tail secondLastDim lastDim) (hlo : lo.length = tail.dimVars.sum)
    (hhi : hi.length = lead.dimVars.sum) (paddingValue : F) :
    eval (lookupPadding paddingValue (lead ++ tail)) (lo ++ hi) =
      ltProd (dimEntries lead hi) * (1 - ltProd (dimEntries tail lo)) * paddingValue := by
  have hsize : (Shape.nextPowerOfTwo tail).numel = 2 ^ lo.length := by
    rw [Shape.numel_nextPowerOfTwo, hlo]
  have hcell : ∀ i, lookupPadding paddingValue (lead ++ tail) i =
      (paddingValue * if inShape (lead.cell (i / 2 ^ lo.length)) then 1 else 0) *
        (1 + -1 * if inShape (tail.cell (i % 2 ^ lo.length)) then 1 else 0) := by
    intro i
    have hout : (∃ entry ∈ tail.cell i, entry.2 ≤ entry.1) ↔ inShape (tail.cell i) = false := by
      rw [inShape, List.all_eq_false]
      simp
    have hlength : (lead.cell (i / 2 ^ lo.length)).length = lead.length := Shape.length_cell _ _
    rw [← hsize, Shape.cell_mod, hsize]
    simp only [lookupPadding, h.rank_sub, Shape.cell_append, hsize, List.take_left' hlength,
      List.drop_left' hlength, hout]
    cases inShape (lead.cell (i / 2 ^ lo.length)) <;> cases inShape (tail.cell i) <;> simp
  have hcongr := Multilinear.eval_congr (x := lo ++ hi) fun i _ => hcell i
  rw [hcongr, Multilinear.eval_append_mul
      (fun j => paddingValue * if inShape (lead.cell j) then 1 else 0)
      (fun i => 1 + -1 * if inShape (tail.cell i) then 1 else 0),
    Multilinear.eval_mul_left, Multilinear.eval_add, Multilinear.eval_const, Multilinear.eval_mul_left,
    eval_inShape hhi, eval_inShape hlo]
  ring

/-- The padding is evaluated, whatever the rank and the sizes are. -/
theorem computeLookupPaddingEvaluation_eval [DecidableEq F] {shape : Shape} (hrank : 1 ≤ shape.rank)
    (hdims : ∀ d ∈ shape, 0 < d ∧ d < 2 ^ 64) (paddingValue : F) {point : List F}
    (hpoint : point.length = shape.dimVars.sum) :
    ∃ dimPoints, shape.nextPowerOfTwo.splitPoint point = .ok dimPoints ∧
      computeLookupPaddingEvaluation paddingValue shape dimPoints =
        .ok (eval (lookupPadding paddingValue shape) point) := by
  obtain ⟨secondLastDim, lastDim, hlast⟩ : ∃ secondLastDim lastDim,
      shape.lastDims = .ok (secondLastDim, lastDim) := by
    have hne : shape.reverse ≠ [] := fun hnil => by
      rw [List.reverse_eq_nil_iff.mp hnil] at hrank
      exact absurd hrank (by decide)
    unfold Shape.lastDims
    obtain ⟨last, rest, hrest⟩ := List.exists_cons_of_ne_nil hne
    rw [hrest]
    cases rest with
    | nil => exact ⟨_, _, rfl⟩
    | cons secondLast rest => exact ⟨_, _, rfl⟩
  obtain ⟨lead, tail, rfl, h⟩ := lastDims_cases hlast
  have hsum : point.length = lead.dimVars.sum + tail.dimVars.sum := by
    rw [hpoint, Shape.dimVars, List.map_append, List.sum_append]
    rfl
  obtain ⟨hlo, hhi⟩ := splits_of_length hsum
  generalize hloEq : point.take (point.length - lead.dimVars.sum) = lo at hlo
  generalize hhiEq : point.drop (point.length - lead.dimVars.sum) = hi at hhi
  have hjoin : point = lo ++ hi := by rw [← hloEq, ← hhiEq, List.take_append_drop]
  have hdims : ∀ d ∈ lead ++ tail, 0 < d ∧ ceilLog2 d ≤ 64 := fun d hd =>
    ⟨(hdims d hd).1, (Nat.clog_le_iff_le_pow (by decide)).mpr (hdims d hd).2.le⟩
  refine ⟨_, Shape.splitPoint_eq_ok _ hpoint, ?_⟩
  rw [hjoin, computeLookupPaddingEvaluation_eq_ok h hlo hhi hdims, eval_lookupPadding h hlo hhi]

theorem computeLookupPaddingEvaluation_eval_rational :
    ∃ dimPoints, Shape.splitPoint (Shape.nextPowerOfTwo [2, 3, 5]) [(1 : ℚ), 2, 3, 4, 5, 6] = .ok dimPoints ∧
      computeLookupPaddingEvaluation 7 [2, 3, 5] dimPoints =
        .ok (eval (lookupPadding 7 [2, 3, 5]) [1, 2, 3, 4, 5, 6]) :=
  computeLookupPaddingEvaluation_eval (by decide) (by decide) 7 (by decide)

end Eval

end DeepProve
