import DeepProve.Pooling.Kernels

/-!
# The witness of a pooling layer is right

`layers/pooling.rs`: the polynomials of `compute_polys` are looked up in a range, and `prove_pooling`
makes one claim about the input of the claims about them. The input is any square tensor. The kernels
leave out the last row and column of an odd side, and the output of half the side may be padded to
less than half of the padded side.
-/

namespace DeepProve

open List (cells)

namespace Maxpool2D

/-- `Maxpool2D::default`. -/
def default : Maxpool2D := ⟨maxpool2dKernelSize, maxpool2dKernelSize⟩

section Prove

variable {F : Type} [Field F]

/-- The claim about the input, at the end of `prove_pooling`: the evaluations of the sumcheck are
    those of the polynomials at its point. -/
def inputClaim (self : Maxpool2D) (input : Tensor Int) (layerPolys : List (List F))
    (zerocheckPoint : List F) (r1 r2 : F) : Outcome (Claim F) := do
  let sumcheckEvals := layerPolys.map fun poly => mle poly zerocheckPoint
  let kernelSize := self.kernelSize * self.kernelSize
  let outputEval ← unwrap sumcheckEvals[kernelSize]? "index out of bounds"
  let width ← unwrap input.shape.nextPowerOfTwo[2]? "index out of bounds"
  let paddedInputRowLengthLog := ceilLog2 width
  let oneMinusR1 := 1 - r1
  let oneMinusR2 := 1 - r2
  let multiplicands := [oneMinusR1 * oneMinusR2, oneMinusR1 * r2, r1 * oneMinusR2, r1 * r2]
  let zcInClaim := (multiplicands.zip (sumcheckEvals.take kernelSize)).foldl
    (fun acc (m, zc) => acc + m * (outputEval - zc)) 0
  let gap ← usizeSub paddedInputRowLengthLog 1
  let low ← sliceTo zerocheckPoint gap
  let high ← sliceFrom zerocheckPoint gap
  .ok ⟨[r1] ++ low ++ [r2] ++ high, zcInClaim⟩

/-- The entries of a quantised tensor. -/
def Quantised (bitLen : Nat) (input : Tensor Int) : Prop :=
  ∀ v ∈ input.data, -2 ^ (bitLen - 1) ≤ v ∧ v ≤ 2 ^ (bitLen - 1) - 1

/-- What the polynomials of a layer are for its output, over the padded output of the given shape:
    polynomial `2 * b + a` is the difference to the entry in row `a` and column `b` of the kernels. -/
structure PolysFor (bitLen : Nat) (layer : Maxpool2D) (input output : Tensor Int) (polys : List (List F))
    (channels side : Nat) : Prop where
  length : polys.length = 4
  cells : ∀ poly ∈ polys, poly.length = channels * side * side
  difference : ∀ a < 2, ∀ b < 2, ∀ c < channels, ∀ y < side, ∀ x < side,
    (polys.getD (2 * b + a) [])[(c * side + y) * side + x]? =
      some ((output.entryAt c y x - input.entryAt c (2 * y + a) (2 * x + b) : Int) : F)
  product : ∀ cell < channels * side * side, (polys.map (·.getD cell 0)).prod = 0
  inRange : Quantised bitLen input → ∀ a < 2, ∀ b < 2, ∀ c < channels, ∀ y < side, ∀ x < side,
    Table.newShiftCheck.InRange (output.entryAt c y x - input.entryAt c (2 * y + a) (2 * x + b))
  inputClaim : ∀ (outputShape : Shape) (point : List F), maxpool2dShape input.shape = .ok outputShape →
    numVarsForOutputs [outputShape] = .ok point.length → ∀ r1 r2, ∃ claim,
      layer.inputClaim input (polys ++ [toField F output.padNextPowerOfTwo.data]) point r1 r2 =
          .ok claim ∧
        claim.eval = mle (toField F input.padNextPowerOfTwo.data) claim.point

/-- The polynomials of a layer are right, in the layout of the padded output. -/
def PolysCorrect (F : Type) [Field F] (bitLen : Nat) (self : Maxpool2D) (input : Tensor Int) : Prop :=
  ∃ output polys channels side, input.maxpool2d self.kernelSize self.stride = .ok output ∧
    maxpool2dShape input.padNextPowerOfTwo.shape = .ok [channels, side, side] ∧
    self.computePolys F input = .ok polys ∧
    PolysFor bitLen self input output polys channels side

/-- The output is padded to half of the padded side, and no positive entry of a quantised tensor is
    left out by the kernels. -/
def KernelsFit (bitLen : Nat) (input : Tensor Int) (side : Nat) : Prop :=
  nextPowerOfTwo (side / 2) = nextPowerOfTwo side / 2 ∧
    (Quantised bitLen input → ∀ c y x, 2 * (side / 2) ≤ y ∨ 2 * (side / 2) ≤ x →
      input.entryAt c y x ≤ 0)

end Prove

/-! ## The layout -/

section Layout

variable {F : Type} [Field F] {input output : Tensor Int} {channels side l : Nat}

/-- The polynomials of the four places in the kernels. -/
def kernelPolys (F : Type) [Field F] (l n : Nat) (padded output : Nat → Int) : List (List F) :=
  [diffPoly F l n padded output 0 0, diffPoly F l n padded output 0 1,
    diffPoly F l n padded output 1 0, diffPoly F l n padded output 1 1]

theorem kernelPolys_getD (n : Nat) (padded output : Nat → Int) {a b : Nat} (ha : a < 2) (hb : b < 2) :
    (kernelPolys F l n padded output).getD (2 * b + a) [] = diffPoly F l n padded output b a := by
  rcases Nat.lt_succ_iff_lt_or_eq.mp ha with ha | rfl <;>
    rcases Nat.lt_succ_iff_lt_or_eq.mp hb with hb | rfl
  · obtain rfl := Nat.lt_one_iff.mp ha
    obtain rfl := Nat.lt_one_iff.mp hb
    rfl
  · obtain rfl := Nat.lt_one_iff.mp ha
    rfl
  · obtain rfl := Nat.lt_one_iff.mp hb
    rfl
  · rfl

theorem mem_kernelPolys {n : Nat} {padded output : Nat → Int} {poly : List F} :
    poly ∈ kernelPolys F l n padded output ↔ ∃ e < 2, ∃ b < 2, poly = diffPoly F l n padded output e b := by
  constructor
  · intro hpoly
    simp only [kernelPolys, List.mem_cons, List.not_mem_nil, or_false] at hpoly
    rcases hpoly with rfl | rfl | rfl | rfl
    · exact ⟨0, by decide, 0, by decide, rfl⟩
    · exact ⟨0, by decide, 1, by decide, rfl⟩
    · exact ⟨1, by decide, 0, by decide, rfl⟩
    · exact ⟨1, by decide, 1, by decide, rfl⟩
  · rintro ⟨e, he, b, hb, rfl⟩
    rw [← kernelPolys_getD n padded output hb he, List.getD_eq_getElem?_getD,
      List.getElem?_eq_getElem (show 2 * e + b < (kernelPolys F l n padded output).length by
        simp only [kernelPolys, List.length_cons, List.length_nil]
        omega), Option.getD_some]
    exact List.getElem_mem _

/-- A side of at least two has a padded half. -/
theorem exists_ceilLog2_eq_succ (hside : 2 ≤ side) : ∃ l, ceilLog2 side = l + 1 :=
  Nat.exists_eq_succ_of_ne_zero (Nat.clog_pos Nat.one_lt_two hside).ne'

theorem computePolys_square (hshape : input.shape = [channels, side, side])
    (hlog : ceilLog2 side = l + 1) (houtputShape : output.shape = [channels, side / 2, side / 2])
    (houtput : input.maxpool2d default.kernelSize default.stride = .ok output) :
    default.computePolys F input = .ok (kernelPolys F l
      (min (nextPowerOfTwo channels * 2 ^ l * 2 ^ l)
        (nextPowerOfTwo channels * nextPowerOfTwo (side / 2) * nextPowerOfTwo (side / 2)))
      (paddedEntry input.shape input.data) (paddedEntry output.shape output.data)) := by
  have hside : nextPowerOfTwo side = 2 ^ (l + 1) := by
    rw [nextPowerOfTwo, ← ceilLog2, hlog]
  have hpadded : input.padNextPowerOfTwo.shape =
      [nextPowerOfTwo channels, 2 ^ (l + 1), 2 ^ (l + 1)] := by
    rw [← hside, Tensor.padNextPowerOfTwo, hshape]
    rfl
  have hnumel : output.padNextPowerOfTwo.shape.numel =
      nextPowerOfTwo channels * nextPowerOfTwo (side / 2) * nextPowerOfTwo (side / 2) := by
    rw [Tensor.padNextPowerOfTwo, houtputShape]
    simp [Shape.nextPowerOfTwo, Shape.numel, Nat.mul_assoc]
  have hpolys := computePolys_eq_ok (F := F) default (l := l) (q := nextPowerOfTwo channels * 2 ^ l) (by rw [hpadded]; rfl)
    (by
      rw [hpadded, Shape.numel, pow_succ]
      simp only [List.prod_cons, List.prod_nil]
      ring)
    (Nat.mul_pos (Nat.two_pow_pos _) (Nat.two_pow_pos l)) houtput
  rw [hnumel, Nat.mul_comm (2 ^ l)] at hpolys
  exact hpolys

/-- The position of an entry of a kernel in the padded input. -/
theorem kernelPosition_eq (a b c : Nat) {y x : Nat} (hx : x < 2 ^ l) :
    kernelPosition l b a ((c * 2 ^ l + y) * 2 ^ l + x) =
      (c * 2 ^ (l + 1) + (2 * y + a)) * 2 ^ (l + 1) + (2 * x + b) := by
  have hpos := Nat.two_pow_pos l
  have hdiv : ((c * 2 ^ l + y) * 2 ^ l + x) / 2 ^ l = c * 2 ^ l + y := by
    rw [Nat.mul_comm, Nat.mul_add_div hpos, Nat.div_eq_of_lt hx, Nat.add_zero]
  have hmod : ((c * 2 ^ l + y) * 2 ^ l + x) % 2 ^ l = x := by
    rw [Nat.mul_comm, Nat.mul_add_mod, Nat.mod_eq_of_lt hx]
  rw [kernelPosition, hdiv, hmod, pow_succ]
  ring

/-- The entry of a kernel, in the padded input. -/
theorem paddedEntry_kernelPosition (hshape : input.shape = [channels, side, side])
    (hlength : input.data.length = input.shape.numel) (hlog : ceilLog2 side = l + 1) {a b c y x : Nat}
    (ha : a < 2) (hb : b < 2) (hc : c < nextPowerOfTwo channels) (hy : y < 2 ^ l) (hx : x < 2 ^ l) :
    paddedEntry input.shape input.data (kernelPosition l b a ((c * 2 ^ l + y) * 2 ^ l + x)) =
      input.entryAt c (2 * y + a) (2 * x + b) := by
  have hside : nextPowerOfTwo side = 2 ^ (l + 1) := by
    rw [nextPowerOfTwo, ← ceilLog2, hlog]
  have htwo : 2 ^ (l + 1) = 2 * 2 ^ l := pow_succ' 2 l
  rw [kernelPosition_eq a b c hx, ← hside]
  exact Tensor.paddedEntry_entryAt hshape hlength hc (by omega) (by omega)

end Layout

/-! ## The claim about the input -/

section Claim

variable {F : Type} [Field F]

theorem eval_intCast_sub (f g : Nat → Int) (point : List F) :
    Multilinear.eval (fun i => ((f i - g i : Int) : F)) point =
      Multilinear.eval (fun i => (f i : F)) point - Multilinear.eval (fun i => (g i : F)) point := by
  rw [Multilinear.eval, Multilinear.eval, Multilinear.eval, ← Finset.sum_sub_distrib]
  apply Finset.sum_congr rfl
  intro i _
  rw [Int.cast_sub]
  ring

/-- The polynomial of a list of values. -/
theorem mle_cells {n : Nat} (f : Nat → F) {point : List F} (hpoint : 2 ^ point.length = n) :
    mle (cells n f) point = Multilinear.eval f point := by
  apply Multilinear.eval_congr
  intro i hi
  rw [List.getD_eq_getElem?_getD, List.getElem?_cells (by omega), Option.getD_some]

/-- The value of the input at a point with a coordinate for the column and one for the row. -/
theorem eval_kernels (padded : Nat → Int) (low high : List F) (r1 r2 : F) :
    Multilinear.eval (fun i => (padded i : F)) ([r1] ++ low ++ [r2] ++ high) =
      (1 - r1) * (1 - r2) * Multilinear.eval
          (fun i => (padded (kernelPosition low.length 0 0 i) : F)) (low ++ high) +
        (1 - r1) * r2 * Multilinear.eval
          (fun i => (padded (kernelPosition low.length 0 1 i) : F)) (low ++ high) +
        r1 * (1 - r2) * Multilinear.eval
          (fun i => (padded (kernelPosition low.length 1 0 i) : F)) (low ++ high) +
        r1 * r2 * Multilinear.eval
          (fun i => (padded (kernelPosition low.length 1 1 i) : F)) (low ++ high) := by
  have hpoint : [r1] ++ low ++ [r2] ++ high = r1 :: (low ++ r2 :: high) := by simp
  have heven : ∀ b i, 2 * (i % 2 ^ low.length + 2 ^ low.length * (b + 2 * (i / 2 ^ low.length))) =
      kernelPosition low.length 0 b i := by
    intro b i
    rw [kernelPosition, pow_succ]
    ring
  have hfirst := heven 0
  simp only [Nat.zero_add] at hfirst
  have hodd : ∀ b i, kernelPosition low.length 0 b i + 1 = kernelPosition low.length 1 b i := by
    intro b i
    rw [kernelPosition, kernelPosition]
    ring
  rw [hpoint, Multilinear.eval_cons, Multilinear.eval_append_cons, Multilinear.eval_append_cons]
  simp only [hfirst, heven, hodd]
  ring

/-- The claim about the input is its value at the point. -/
theorem inputClaim_eq {input : Tensor Int} {l n : Nat} {point : List F} (padded output : Nat → Int)
    (hwidth : input.shape.nextPowerOfTwo[2]? = some (2 ^ (l + 1))) (hpoint : 2 ^ point.length = n)
    (hl : l ≤ point.length) (r1 r2 : F) :
    ∃ claim, default.inputClaim input
        (kernelPolys F l n padded output ++ [toField F (cells n output)]) point r1 r2 = .ok claim ∧
      claim.point = [r1] ++ point.take l ++ [r2] ++ point.drop l ∧
      claim.eval = Multilinear.eval (fun i => (padded i : F)) claim.point := by
  have hgap : usizeSub (ceilLog2 (2 ^ (l + 1))) 1 = .ok l := by
    rw [PoolingCtx.ceilLog2_two_pow]
    exact usizeSub_eq_ok.mpr ⟨Nat.le_add_left 1 l, rfl⟩
  have hdiff : ∀ e b, mle (diffPoly F l n padded output e b) point =
      Multilinear.eval (fun i => (output i : F)) point -
        Multilinear.eval (fun i => (padded (kernelPosition l e b i) : F)) point := by
    intro e b
    rw [diffPoly, mle_cells _ hpoint, eval_intCast_sub output fun i => padded (kernelPosition l e b i)]
  have houtput : mle (toField F (cells n output)) point =
      Multilinear.eval (fun i => (output i : F)) point := by
    rw [toField, List.map_cells, mle_cells _ hpoint]
  have hlow : (point.take l).length = l := by
    rw [List.length_take]
    omega
  have hkernels := eval_kernels padded (point.take l) (point.drop l) r1 r2
  rw [hlow, List.take_append_drop] at hkernels
  refine ⟨⟨[r1] ++ point.take l ++ [r2] ++ point.drop l, _⟩, ?_, rfl, hkernels.symm⟩
  -- the fifth evaluation is that of the output
  have houtputEval : ∀ d₀ d₁ d₂ d₃ o : F,
      [d₀, d₁, d₂, d₃, o][default.kernelSize * default.kernelSize]? = some o :=
    fun _ _ _ _ _ => rfl
  have hdiffs : ∀ d₀ d₁ d₂ d₃ o : F,
      [d₀, d₁, d₂, d₃, o].take (default.kernelSize * default.kernelSize) = [d₀, d₁, d₂, d₃] :=
    fun _ _ _ _ _ => rfl
  rw [inputClaim, hwidth]
  simp only [kernelPolys, List.cons_append, List.nil_append, List.map_cons, List.map_nil, houtputEval,
    hdiffs, unwrap_some, Outcome.ok_bind, hgap, sliceTo, sliceFrom, if_pos hl, List.zip_cons_cons,
    List.zip_nil_right, List.foldl_cons, List.foldl_nil, hdiff, houtput]
  congr 2
  ring

end Claim

/-! ## The polynomials of a layer -/

section Correct

variable {F : Type} [Field F] {bitLen : Nat} {input output : Tensor Int} {channels side l : Nat}

theorem maxpool2dShape_square (channels : Nat) (hside : 2 ≤ side) :
    maxpool2dShape [channels, side, side] = .ok [channels, side / 2, side / 2] := by
  have hhalf : (side - 1 - 1) / 2 + 1 = side / 2 := by omega
  simp only [maxpool2dShape, List.getElem?_cons_zero, List.getElem?_cons_succ, unwrap_some,
    Outcome.ok_bind, usizeSub, Nat.mul_zero, Nat.add_zero, Nat.one_mul, Nat.add_one_sub_one]
  rw [if_pos (by omega), Outcome.ok_bind, if_pos (by omega), Outcome.ok_bind, hhalf]

/-- The entries of a quantised tensor, and the zeros outside of it. -/
theorem Quantised.entryAt_bounds (hquantised : Quantised bitLen input)
    (hshape : input.shape = [channels, side, side]) (hlength : input.data.length = input.shape.numel)
    (c y x : Nat) :
    -2 ^ (bitLen - 1) ≤ input.entryAt c y x ∧ input.entryAt c y x ≤ 2 ^ (bitLen - 1) - 1 := by
  have hpos : (0 : Int) < 2 ^ (bitLen - 1) := by positivity
  by_cases hin : c < channels ∧ y < side ∧ x < side
  · have hlt : (c * side + y) * side + x < input.data.length := by
      rw [hlength, hshape, Shape.numel]
      simpa [Nat.mul_assoc] using Tensor.position_lt_length hin.1 hin.2.1 hin.2.2
    rw [Tensor.entryAt_of_lt hshape hin.1 hin.2.1 hin.2.2, List.getD_eq_getElem?_getD,
      List.getElem?_eq_getElem hlt, Option.getD_some]
    exact hquantised _ (List.getElem_mem hlt)
  · rw [Tensor.entryAt_of_not hshape hin]
    omega

/-- An output is not smaller than the entries of its kernel, and one of them is the output. -/
theorem kernelValue_spec (tensor : Tensor Int) (c y x : Nat) :
    (∀ a < 2, ∀ b < 2, tensor.entryAt c (2 * y + a) (2 * x + b) ≤ tensor.kernelValue c y x) ∧
      ∃ a < 2, ∃ b < 2, tensor.entryAt c (2 * y + a) (2 * x + b) = tensor.kernelValue c y x := by
  have hcases : ∀ a < 2, a = 0 ∨ a = 1 := by omega
  rw [Tensor.kernelValue]
  constructor
  · intro a ha b hb
    rcases hcases a ha with rfl | rfl <;> rcases hcases b hb with rfl | rfl <;>
      simp only [Nat.add_zero, le_max_iff, le_refl, true_or, or_true]
  · rcases max_choice (max (max (tensor.entryAt c (2 * y) (2 * x)) (tensor.entryAt c (2 * y) (2 * x + 1)))
      (tensor.entryAt c (2 * y + 1) (2 * x))) (tensor.entryAt c (2 * y + 1) (2 * x + 1)) with h | h <;>
      rw [h]
    · rcases max_choice (max (tensor.entryAt c (2 * y) (2 * x)) (tensor.entryAt c (2 * y) (2 * x + 1)))
        (tensor.entryAt c (2 * y + 1) (2 * x)) with h | h <;> rw [h]
      · rcases max_choice (tensor.entryAt c (2 * y) (2 * x)) (tensor.entryAt c (2 * y) (2 * x + 1))
          with h | h <;> rw [h]
        · exact ⟨0, by decide, 0, by decide, rfl⟩
        · exact ⟨0, by decide, 1, by decide, rfl⟩
      · exact ⟨1, by decide, 0, by decide, rfl⟩
    · exact ⟨1, by decide, 1, by decide, rfl⟩

/-- The output at a cell of the padded output, if it is in the output. -/
theorem exists_output (hshape : input.shape = [channels, side, side])
    (hlength : input.data.length = input.shape.numel) (hside : 2 ≤ side) :
    ∃ output, input.maxpool2d default.kernelSize default.stride = .ok output ∧
      output.shape = [channels, side / 2, side / 2] ∧ output.data.length = output.shape.numel ∧
      ∀ c y x, output.entryAt c y x =
        if c < channels ∧ y < side / 2 ∧ x < side / 2 then input.kernelValue c y x else 0 := by
  obtain ⟨output, hok, houtputShape, houtputLength, hentry⟩ :=
    Tensor.maxpool2d_eq_ok hshape hlength hside
  refine ⟨output, hok, houtputShape, houtputLength, ?_⟩
  intro c y x
  split
  case isTrue hin => exact hentry c y x hin.1 hin.2.1 hin.2.2
  case isFalse hnot => exact Tensor.entryAt_of_not houtputShape hnot

/-- At every cell some entry of the kernel is the output. -/
theorem exists_entryAt_eq_output (hshape : input.shape = [channels, side, side])
    (hentry : ∀ c y x, output.entryAt c y x =
      if c < channels ∧ y < side / 2 ∧ x < side / 2 then input.kernelValue c y x else 0) (c y x : Nat) :
    ∃ a < 2, ∃ b < 2, input.entryAt c (2 * y + a) (2 * x + b) = output.entryAt c y x := by
  rw [hentry]
  split
  case isTrue => exact (kernelValue_spec input c y x).2
  case isFalse hnot =>
    -- the last row or column of the kernel is outside of the input
    refine ⟨1, by decide, 1, by decide, Tensor.entryAt_of_not hshape ?_⟩
    rintro ⟨hc, hy, hx⟩
    exact hnot ⟨hc, by omega, by omega⟩

/-- The difference at a cell. -/
theorem diffPoly_getElem? (hshape : input.shape = [channels, side, side])
    (hlength : input.data.length = input.shape.numel) (hlog : ceilLog2 side = l + 1)
    (houtputShape : output.shape = [channels, side / 2, side / 2])
    (houtputLength : output.data.length = output.shape.numel)
    (hhalf : nextPowerOfTwo (side / 2) = 2 ^ l) {a b c y x : Nat} (ha : a < 2) (hb : b < 2)
    (hc : c < nextPowerOfTwo channels) (hy : y < 2 ^ l) (hx : x < 2 ^ l) :
    (diffPoly F l (nextPowerOfTwo channels * 2 ^ l * 2 ^ l) (paddedEntry input.shape input.data)
      (paddedEntry output.shape output.data) b a)[(c * 2 ^ l + y) * 2 ^ l + x]? =
        some ((output.entryAt c y x - input.entryAt c (2 * y + a) (2 * x + b) : Int) : F) := by
  have hout := Tensor.paddedEntry_entryAt houtputShape houtputLength hc (hhalf ▸ hy) (hhalf ▸ hx)
  rw [hhalf] at hout
  rw [diffPoly, List.getElem?_cells (Tensor.position_lt_length hc hy hx), hout,
    paddedEntry_kernelPosition hshape hlength hlog ha hb hc hy hx]

/-- A difference of entries of a quantised tensor that is not negative. -/
theorem inRange_sub (hbits : bitLen ≤ shiftCheckTableBitSize) {v w : Int} (hle : w ≤ v)
    (hv : v ≤ 2 ^ (bitLen - 1) - 1) (hw : -2 ^ (bitLen - 1) ≤ w) :
    Table.newShiftCheck.InRange (v - w) := by
  have hpow : (2 : Int) ^ (bitLen - 1) ≤ 2 ^ 15 := by
    have hbits' : bitLen ≤ 16 := hbits
    apply pow_le_pow_right₀ (by decide)
    omega
  have hmin : Table.newShiftCheck.minInputValue = 0 := rfl
  have hmax : Table.newShiftCheck.maxInputValue = 2 ^ 16 - 1 := rfl
  rw [Table.InRange, hmin, hmax]
  constructor <;> omega

/-- An entry that is compared with an output outside of the output is not positive. -/
theorem KernelsFit.entryAt_nonpos (hfit : KernelsFit bitLen input side)
    (hquantised : Quantised bitLen input) (hshape : input.shape = [channels, side, side])
    {a b c y x : Nat} (hnot : ¬ (c < channels ∧ y < side / 2 ∧ x < side / 2)) :
    input.entryAt c (2 * y + a) (2 * x + b) ≤ 0 := by
  by_cases hcut : 2 * (side / 2) ≤ 2 * y + a ∨ 2 * (side / 2) ≤ 2 * x + b
  · exact hfit.2 hquantised c _ _ hcut
  · rw [Tensor.entryAt_of_not hshape]
    rintro ⟨hc, -, -⟩
    exact hnot ⟨hc, by omega, by omega⟩

omit [Field F] in
theorem two_pow_numVars {outputShape : Shape} {point : List F} (hside : 2 ≤ side)
    (hoshape : maxpool2dShape [channels, side, side] = .ok outputShape)
    (hvars : numVarsForOutputs [outputShape] = .ok point.length)
    (hhalf : nextPowerOfTwo (side / 2) = 2 ^ l) :
    2 ^ point.length = nextPowerOfTwo channels * 2 ^ l * 2 ^ l ∧ l ≤ point.length := by
  rw [maxpool2dShape_square channels hside, Except.ok.injEq] at hoshape
  subst hoshape
  have hlog : ceilLog2 (side / 2) = l := Nat.pow_right_injective (Nat.le_refl 2) hhalf
  have hlength : ceilLog2 channels + (l + l) = point.length := by
    simpa [numVarsForOutputs, hlog] using hvars
  constructor
  · rw [← hlength, pow_add, pow_add, nextPowerOfTwo, ceilLog2, Nat.mul_assoc]
  · omega

variable (hshape : input.shape = [channels, side, side])
  (hlength : input.data.length = input.shape.numel) (hside : 2 ≤ side)
  (hbits : bitLen ≤ shiftCheckTableBitSize)

include hshape hlength hside

/-- The polynomials are right for an input that fits. -/
theorem polysCorrect_of_kernelsFit (hbits : bitLen ≤ shiftCheckTableBitSize)
    (hfit : KernelsFit bitLen input side) : PolysCorrect F bitLen default input := by
  obtain ⟨output, houtput, houtputShape, houtputLength, hentry⟩ := exists_output hshape hlength hside
  obtain ⟨l, hlog⟩ := exists_ceilLog2_eq_succ hside
  have hpadded : nextPowerOfTwo side = 2 ^ (l + 1) := by
    rw [nextPowerOfTwo, ← ceilLog2, hlog]
  have hcellSide : nextPowerOfTwo side / 2 = 2 ^ l := by
    rw [hpadded, pow_succ, Nat.mul_div_cancel _ (by decide)]
  have hhalf : nextPowerOfTwo (side / 2) = 2 ^ l := hfit.1.trans hcellSide
  have hpolys := computePolys_square (F := F) hshape hlog houtputShape houtput
  rw [hhalf, Nat.min_self] at hpolys
  have hinputPadded : input.padNextPowerOfTwo.shape =
      [nextPowerOfTwo channels, nextPowerOfTwo side, nextPowerOfTwo side] := by
    rw [Tensor.padNextPowerOfTwo, hshape]
    rfl
  have htwo : 2 ≤ nextPowerOfTwo side := hside.trans (Nat.le_pow_clog Nat.one_lt_two side)
  refine ⟨output, _, nextPowerOfTwo channels, 2 ^ l, houtput, ?_, hpolys, ?_⟩
  · rw [hinputPadded, maxpool2dShape_square _ htwo, hcellSide]
  constructor
  case length => rfl
  case cells =>
    intro poly hpoly
    obtain ⟨e, _, b, _, rfl⟩ := mem_kernelPolys.mp hpoly
    exact List.length_cells
  case difference =>
    intro a ha b hb c hc y hy x hx
    rw [kernelPolys_getD _ _ _ ha hb]
    exact diffPoly_getElem? hshape hlength hlog houtputShape houtputLength hhalf ha hb hc hy hx
  case product =>
    intro cell hlt
    have hpos := Nat.two_pow_pos l
    have hrow : cell / 2 ^ l < nextPowerOfTwo channels * 2 ^ l := by
      rwa [Nat.div_lt_iff_lt_mul hpos]
    have hplane : cell / 2 ^ l / 2 ^ l < nextPowerOfTwo channels := by
      rwa [Nat.div_lt_iff_lt_mul hpos]
    -- the factor of the entry that is the output
    obtain ⟨a, ha, b, hb, hsame⟩ := exists_entryAt_eq_output hshape hentry
      (cell / 2 ^ l / 2 ^ l) (cell / 2 ^ l % 2 ^ l) (cell % 2 ^ l)
    have hzero := diffPoly_getElem? (F := F) hshape hlength hlog houtputShape houtputLength hhalf ha hb
      hplane (Nat.mod_lt (cell / 2 ^ l) hpos) (Nat.mod_lt cell hpos)
    rw [Nat.div_add_mod', Nat.div_add_mod', hsame, sub_self, Int.cast_zero] at hzero
    apply List.prod_eq_zero
    rw [List.mem_map]
    refine ⟨_, mem_kernelPolys.mpr ⟨b, hb, a, ha, rfl⟩, ?_⟩
    rw [List.getD_eq_getElem?_getD, hzero, Option.getD_some]
  case inRange =>
    intro hquantised a ha b hb c hc y hy x hx
    obtain ⟨hlow, hhigh⟩ :=
      hquantised.entryAt_bounds hshape hlength c (2 * y + a) (2 * x + b)
    have hpos : (0 : Int) < 2 ^ (bitLen - 1) := by positivity
    rw [hentry]
    split
    case isTrue hin =>
      obtain ⟨hle, a', _, b', _, hmax⟩ := kernelValue_spec input c y x
      have hmaxHigh := (hquantised.entryAt_bounds hshape hlength c (2 * y + a') (2 * x + b')).2
      rw [hmax] at hmaxHigh
      exact inRange_sub hbits (hle a ha b hb) hmaxHigh hlow
    case isFalse hnot =>
      exact inRange_sub hbits (hfit.entryAt_nonpos hquantised hshape hnot) (by omega) hlow
  case inputClaim =>
    intro outputShape point hoshape hvars r1 r2
    rw [hshape] at hoshape
    obtain ⟨hpoint, hl⟩ := two_pow_numVars hside hoshape hvars hhalf
    have hwidth : input.shape.nextPowerOfTwo[2]? = some (2 ^ (l + 1)) := by
      rw [hshape, ← hpadded]
      rfl
    have hnumel : output.padNextPowerOfTwo.shape.numel = nextPowerOfTwo channels * 2 ^ l * 2 ^ l := by
      rw [Tensor.padNextPowerOfTwo, houtputShape, ← hhalf]
      simp [Shape.nextPowerOfTwo, Shape.numel, Nat.mul_assoc]
    have houtputData : output.padNextPowerOfTwo.data =
        cells (nextPowerOfTwo channels * 2 ^ l * 2 ^ l) (paddedEntry output.shape output.data) := by
      rw [← hnumel]
      rfl
    obtain ⟨claim, hclaim, hclaimPoint, heval⟩ := inputClaim_eq (F := F)
      (paddedEntry input.shape input.data) (paddedEntry output.shape output.data) hwidth hpoint hl r1 r2
    refine ⟨claim, ?_, ?_⟩
    · rw [houtputData]
      exact hclaim
    · have hclaimLength : claim.point.length = point.length + 2 := by
        rw [hclaimPoint]
        simp only [List.length_append, List.length_cons, List.length_nil, List.length_take,
          List.length_drop]
        omega
      have hsize : 2 ^ claim.point.length = input.shape.nextPowerOfTwo.numel := by
        rw [hclaimLength, pow_add, hpoint, hshape]
        simp only [Shape.nextPowerOfTwo, Shape.numel, List.map_cons, List.map_nil, List.prod_cons,
          List.prod_nil, hpadded, pow_succ]
        ring
      rw [heval, mle_padNextPowerOfTwo hsize]

/-- The polynomials are right only for an input that fits. -/
theorem kernelsFit_of_polysCorrect (hcorrect : PolysCorrect F bitLen default input) :
    KernelsFit bitLen input side := by
  obtain ⟨l, hlog⟩ := exists_ceilLog2_eq_succ hside
  have hpadded : nextPowerOfTwo side = 2 ^ (l + 1) := by
    rw [nextPowerOfTwo, ← ceilLog2, hlog]
  have hcellSide : nextPowerOfTwo side / 2 = 2 ^ l := by
    rw [hpadded, pow_succ, Nat.mul_div_cancel _ (by decide)]
  have htwo : 2 ≤ nextPowerOfTwo side := hside.trans (Nat.le_pow_clog Nat.one_lt_two side)
  have hle : side ≤ 2 ^ (l + 1) := hpadded ▸ Nat.le_pow_clog Nat.one_lt_two side
  obtain ⟨output, hok, houtputShape, -, hentry⟩ := exists_output hshape hlength hside
  obtain ⟨output', polys, channels', side', houtput, hoshape, hpolys, hfor⟩ := hcorrect
  obtain rfl : output = output' := Except.ok.inj (hok.symm.trans houtput)
  have hinputPadded : input.padNextPowerOfTwo.shape =
      [nextPowerOfTwo channels, nextPowerOfTwo side, nextPowerOfTwo side] := by
    rw [Tensor.padNextPowerOfTwo, hshape]
    rfl
  rw [hinputPadded, maxpool2dShape_square _ htwo, hcellSide, Except.ok.injEq] at hoshape
  obtain ⟨rfl, rfl⟩ : nextPowerOfTwo channels = channels' ∧ 2 ^ l = side' := by simpa using hoshape
  rw [computePolys_square hshape hlog houtputShape houtput, Except.ok.injEq] at hpolys
  subst hpolys
  have hpow := pow_succ 2 l
  constructor
  · -- the polynomials are as long as the padded output
    have hcells := hfor.cells _ (mem_kernelPolys.mpr ⟨0, by decide, 0, by decide, rfl⟩)
    rw [diffPoly, List.length_cells, min_eq_left_iff, Nat.mul_assoc, Nat.mul_assoc] at hcells
    have hsquare := Nat.le_of_mul_le_mul_left hcells (Nat.two_pow_pos _)
    have hclog : ceilLog2 (side / 2) ≤ l := Nat.clog_le_of_le_pow (by omega)
    have hupper : nextPowerOfTwo (side / 2) ≤ 2 ^ l := Nat.pow_le_pow_right (by decide) hclog
    have hlower : 2 ^ l ≤ nextPowerOfTwo (side / 2) := Nat.mul_self_le_mul_self_iff.mp hsquare
    rw [hcellSide]
    exact Nat.le_antisymm hupper hlower
  · intro hquantised c y x hcut
    by_cases hin : c < channels ∧ y < side ∧ x < side
    · obtain ⟨hc, hy, hx⟩ := hin
      have hchannels : c < nextPowerOfTwo channels :=
        hc.trans_le (Nat.le_pow_clog Nat.one_lt_two channels)
      have hrange := hfor.inRange hquantised (y % 2) (Nat.mod_lt y (by decide)) (x % 2)
        (Nat.mod_lt x (by decide)) c hchannels (y / 2) (by omega) (x / 2) (by omega)
      have hout : ¬ (c < channels ∧ y / 2 < side / 2 ∧ x / 2 < side / 2) := by
        rintro ⟨-, hy', hx'⟩
        omega
      rw [hentry, if_neg hout, Nat.div_add_mod, Nat.div_add_mod] at hrange
      have hmin : Table.newShiftCheck.minInputValue = 0 := rfl
      have hlow := hrange.1
      rw [hmin] at hlow
      omega
    · rw [Tensor.entryAt_of_not hshape hin]

omit hlength in
/-- An even side fits. -/
theorem kernelsFit_of_even (heven : 2 ∣ side) : KernelsFit bitLen input side := by
  obtain ⟨half, rfl⟩ := heven
  have hhalf : 2 * half / 2 = half := Nat.mul_div_cancel_left half (by decide)
  constructor
  · have hclog : Nat.clog 2 (2 * half) = Nat.clog 2 half + 1 := by
      rw [Nat.clog_of_two_le Nat.one_lt_two hside]
      congr 2
      omega
    rw [hhalf, nextPowerOfTwo, nextPowerOfTwo, hclog, pow_succ, Nat.mul_div_cancel _ (by decide)]
  · intro _ c y x hcut
    rw [hhalf] at hcut
    rw [Tensor.entryAt_of_not hshape]
    rintro ⟨-, hy, hx⟩
    omega

end Correct

/-- A square tensor of ones with two channels. -/
def onesOfSide (side : Nat) : Tensor Int :=
  ⟨List.replicate (2 * side * side) 1, [2, side, side], [2, side, side]⟩

end Maxpool2D

end DeepProve
