import DeepProve.Pooling.Polys
import DeepProve.Resize.NextPowerOfTwo

/-!
# The kernels of a pooling layer

The entries of a tensor of rank three by their channel, row and column, and the output of `maxpool2d`
at a cell as the largest entry of its kernel.
-/

namespace Multilinear

variable {F : Type*} [CommRing F]

/-- A coordinate between others is a bit of the position between other bits. -/
theorem eval_append_cons (table : Nat → F) (lo : List F) (r : F) (hi : List F) :
    eval table (lo ++ r :: hi) =
      (1 - r) * eval (fun i => table (i % 2 ^ lo.length + 2 ^ lo.length * (2 * (i / 2 ^ lo.length))))
          (lo ++ hi) +
        r * eval (fun i => table (i % 2 ^ lo.length + 2 ^ lo.length * (1 + 2 * (i / 2 ^ lo.length))))
          (lo ++ hi) := by
  have hpos : 0 < 2 ^ lo.length := Nat.two_pow_pos _
  have hdiv : ∀ j i, i < 2 ^ lo.length → (j * 2 ^ lo.length + i) / 2 ^ lo.length = j := by
    intro j i hi
    rw [Nat.mul_comm, Nat.mul_add_div hpos, Nat.div_eq_of_lt hi, Nat.add_zero]
  have hmod : ∀ j i, i < 2 ^ lo.length → (j * 2 ^ lo.length + i) % 2 ^ lo.length = i := by
    intro j i hi
    rw [Nat.mul_comm, Nat.mul_add_mod, Nat.mod_eq_of_lt hi]
  -- the chunks of the table with the bit clear, and those with the bit set
  have hchunk : ∀ (b j : Nat),
      eval (fun i => table ((2 * j + b) * 2 ^ lo.length + i)) lo =
        eval (fun i => table ((j * 2 ^ lo.length + i) % 2 ^ lo.length +
          2 ^ lo.length * (b + 2 * ((j * 2 ^ lo.length + i) / 2 ^ lo.length)))) lo := by
    intro b j
    apply eval_congr
    intro i hi
    rw [hdiv j i hi, hmod j i hi]
    congr 1
    ring
  have hclear := fun j => hchunk 0 j
  simp only [Nat.add_zero, Nat.zero_add] at hclear
  rw [eval_append, List.length_cons, pow_succ', sum_range_two_mul, eval_append, eval_append,
    Finset.mul_sum, Finset.mul_sum, ← Finset.sum_add_distrib]
  apply Finset.sum_congr rfl
  intro j _
  have heven : eqWeight (r :: hi) (2 * j) = (1 - r) * eqWeight hi j := by
    rw [eqWeight, Nat.mul_mod_right, if_neg (by decide), Nat.mul_div_cancel_left j (by decide)]
  have hodd : eqWeight (r :: hi) (2 * j + 1) = r * eqWeight hi j := by
    have hone : (2 * j + 1) % 2 = 1 := by omega
    have hhalf : (2 * j + 1) / 2 = j := by omega
    rw [eqWeight, hone, if_pos rfl, hhalf]
  rw [heven, hodd, hclear, hchunk]
  ring

end Multilinear

namespace DeepProve

open List (cells)

/-! ## The output -/

namespace Tensor

/-- The largest entry of a kernel. -/
def kernelValue (self : Tensor Int) (c y x : Nat) : Int :=
  max (max (max (self.entryAt c (2 * y) (2 * x)) (self.entryAt c (2 * y) (2 * x + 1)))
    (self.entryAt c (2 * y + 1) (2 * x))) (self.entryAt c (2 * y + 1) (2 * x + 1))

variable {self : Tensor Int} {channels height width : Nat}
variable {c y x : Nat}

theorem entryAt_of_lt (hshape : self.shape = [channels, height, width]) (hc : c < channels)
    (hy : y < height) (hx : x < width) :
    self.entryAt c y x = self.data.getD ((c * height + y) * width + x) 0 := by
  rw [entryAt, hshape]
  exact if_pos ⟨hc, hy, hx⟩

theorem entryAt_of_not (hshape : self.shape = [channels, height, width])
    (hnot : ¬ (c < channels ∧ y < height ∧ x < width)) : self.entryAt c y x = 0 := by
  rw [entryAt, hshape]
  exact if_neg hnot

/-- An entry is in the data. -/
theorem position_lt_length (hc : c < channels) (hy : y < height) (hx : x < width) :
    (c * height + y) * width + x < channels * height * width := by
  have hrow : (c + 1) * height ≤ channels * height := Nat.mul_le_mul_right height hc
  rw [Nat.succ_mul] at hrow
  have hcolumn : (c * height + y + 1) * width ≤ channels * height * width :=
    Nat.mul_le_mul_right width (by omega)
  rw [Nat.succ_mul] at hcolumn
  omega

/-- The entries of the padded tensor. -/
theorem paddedEntry_entryAt (hshape : self.shape = [channels, height, width])
    (hlength : self.data.length = self.shape.numel) (hc : c < nextPowerOfTwo channels)
    (hy : y < nextPowerOfTwo height) (hx : x < nextPowerOfTwo width) :
    paddedEntry self.shape self.data
      ((c * nextPowerOfTwo height + y) * nextPowerOfTwo width + x) = self.entryAt c y x := by
  have hposition : ∀ C H W : Nat, Shape.position [C, H, W] [c, y, x] = (c * H + y) * W + x := by
    intro C H W
    simp [Shape.position, Shape.strides]
    ring
  have hindex : self.shape.nextPowerOfTwo.Contains [c, y, x] := by
    rw [hshape]
    exact .cons hc (.cons hy (.cons hx .nil))
  obtain ⟨hinside, houtside⟩ := paddedEntry_position hindex hlength
  have hpadded : self.shape.nextPowerOfTwo.position [c, y, x] =
      (c * nextPowerOfTwo height + y) * nextPowerOfTwo width + x := by
    rw [hshape]
    exact hposition _ _ _
  rw [hpadded] at hinside houtside
  by_cases hin : c < channels ∧ y < height ∧ x < width
  · rw [hinside, entryAt_of_lt hshape hin.1 hin.2.1 hin.2.2, hshape, hposition]
    rw [hshape]
    exact .cons hin.1 (.cons hin.2.1 (.cons hin.2.2 .nil))
  · rw [houtside, entryAt_of_not hshape hin]
    intro hcontains
    rw [hshape] at hcontains
    apply hin
    simpa [Shape.Contains] using hcontains

theorem get_entryAt (hshape : self.shape = [channels, height, width])
    (hlength : self.data.length = self.shape.numel) (hc : c < channels) (hy : y < height)
    (hx : x < width) :
    Vec.get self.data (c * (height * width) + y * width + x) = .ok (self.entryAt c y x) := by
  have hposition : c * (height * width) + y * width + x = (c * height + y) * width + x := by ring
  have hlt : (c * height + y) * width + x < self.data.length := by
    rw [hlength, hshape, Shape.numel]
    simpa [Nat.mul_assoc] using position_lt_length hc hy hx
  rw [Vec.get, hposition, entryAt_of_lt hshape hc hy hx, List.getD_eq_getElem?_getD,
    List.getElem?_eq_getElem hlt, unwrap_some, Option.getD_some]

/-- The largest entry of a kernel is in the tensor. -/
theorem kernelMax_eq_ok (hshape : self.shape = [channels, height, width])
    (hlength : self.data.length = self.shape.numel) {outH outW : Nat} (hc : c < channels)
    (hy : y < outH) (hx : x < outW) (hheight : 2 * outH ≤ height) (hwidth : 2 * outW ≤ width) :
    self.kernelMax 2 2 height width outH outW ((c * outH + y) * outW + x) =
      .ok (self.kernelValue c y x) := by
  have hWpos : 0 < outW := Nat.zero_lt_of_lt hx
  have hHpos : 0 < outH := Nat.zero_lt_of_lt hy
  have hplane : (c * outH + y) * outW + x < (c + 1) * (outH * outW) := by
    have hrow : (c * outH + y + 1) * outW ≤ ((c + 1) * outH) * outW := by
      apply Nat.mul_le_mul_right
      rw [Nat.succ_mul]
      omega
    rw [Nat.succ_mul, Nat.mul_assoc (c + 1)] at hrow
    omega
  have hn : ((c * outH + y) * outW + x) / (outH * outW) = c := by
    apply Nat.div_eq_of_lt_le
    · have hle : c * (outH * outW) ≤ (c * outH + y) * outW := by
        rw [← Nat.mul_assoc]
        exact Nat.mul_le_mul_right _ (Nat.le_add_right _ _)
      omega
    · exact hplane
  have hrow : ((c * outH + y) * outW + x) / outW = c * outH + y := by
    rw [Nat.mul_comm, Nat.mul_add_div hWpos, Nat.div_eq_of_lt hx, Nat.add_zero]
  have hi : (c * outH + y) % outH = y := by
    rw [Nat.mul_comm, Nat.mul_add_mod, Nat.mod_eq_of_lt hy]
  have hj : ((c * outH + y) * outW + x) % outW = x := by
    rw [Nat.mul_comm, Nat.mul_add_mod, Nat.mod_eq_of_lt hx]
  have hget := fun ki kj (hki : ki < 2) (hkj : kj < 2) =>
    get_entryAt hshape hlength hc (show 2 * y + ki < height by omega) (show 2 * x + kj < width by omega)
  -- the four entries of the kernel
  have hfirst := hget 0 0 (by decide) (by decide)
  have hright := hget 0 1 (by decide) (by decide)
  have hbelow := hget 1 0 (by decide) (by decide)
  have hlast := hget 1 1 (by decide) (by decide)
  have hpairs : List.product (List.range 2) (List.range 2) = [(0, 0), (0, 1), (1, 0), (1, 1)] := rfl
  simp only [Nat.add_zero] at hfirst hright hbelow
  rw [kernelMax]
  dsimp only
  rw [hn, hrow, hi, hj, Nat.mul_comm y 2, Nat.mul_comm x 2, hfirst, Outcome.ok_bind, hpairs]
  simp only [List.foldlM_cons, List.foldlM_nil, Nat.add_zero, hfirst, hright, hbelow, hlast,
    Outcome.ok_bind, max_self]
  rfl

/-- The output of a square tensor. -/
theorem maxpool2d_eq_ok {side : Nat} (hshape : self.shape = [channels, side, side])
    (hlength : self.data.length = self.shape.numel) (hside : 2 ≤ side) :
    ∃ output, self.maxpool2d 2 2 = .ok output ∧ output.shape = [channels, side / 2, side / 2] ∧
      output.data.length = output.shape.numel ∧ ∀ c y x, c < channels → y < side / 2 →
        x < side / 2 → output.entryAt c y x = self.kernelValue c y x := by
  have hhalf : (side - 2) / 2 + 1 = side / 2 := by omega
  have hpos : 0 < side / 2 := by omega
  have hvalue : ∀ i ∈ List.range (channels * (side / 2) * (side / 2)),
      self.kernelMax 2 2 side side (side / 2) (side / 2) i = .ok (self.kernelValue
        (i / (side / 2) / (side / 2)) (i / (side / 2) % (side / 2)) (i % (side / 2))) := by
    intro i hi
    have hrow : i / (side / 2) < channels * (side / 2) := by
      rw [Nat.div_lt_iff_lt_mul hpos]
      exact List.mem_range.mp hi
    have hplane : i / (side / 2) / (side / 2) < channels := by
      rwa [Nat.div_lt_iff_lt_mul hpos]
    have hmax := kernelMax_eq_ok hshape hlength hplane (Nat.mod_lt (i / (side / 2)) hpos)
      (Nat.mod_lt i hpos) (show 2 * (side / 2) ≤ side by omega) (show 2 * (side / 2) ≤ side by omega)
    rwa [Nat.div_add_mod', Nat.div_add_mod'] at hmax
  refine ⟨⟨(List.range (channels * (side / 2) * (side / 2))).map fun i => self.kernelValue
    (i / (side / 2) / (side / 2)) (i / (side / 2) % (side / 2)) (i % (side / 2)),
    [channels, side / 2, side / 2], self.unpaddedShape⟩, ?_, rfl, ?_, ?_⟩
  · rw [maxpool2d, hshape]
    have hsub : usizeSub side 2 = .ok (side - 2) := usizeSub_eq_ok.mpr ⟨hside, rfl⟩
    simp only [beq_self_eq_true, ensure_true, Outcome.ok_bind, Shape.rank, List.length_cons,
      List.length_nil, Nat.reduceAdd, Nat.reduceLeDiff, decide_true, Nat.reduceSub,
      List.getElem?_cons_succ, List.getElem?_cons_zero, unwrap_some, decide_eq_true hside, hsub, hhalf]
    have htake : ([channels, side, side].take 1).prod = channels := by simp
    rw [htake, Outcome.mapM_eq_ok_map hvalue, Outcome.ok_bind]
    rfl
  · simp [Shape.numel, Nat.mul_assoc]
  · intro c y x hc hy hx
    rw [entryAt_of_lt rfl hc hy hx, List.getD_eq_getElem?_getD, List.getElem?_map,
      List.getElem?_range (position_lt_length hc hy hx), Option.map_some, Option.getD_some]
    have hrow : ((c * (side / 2) + y) * (side / 2) + x) / (side / 2) = c * (side / 2) + y := by
      rw [Nat.mul_comm, Nat.mul_add_div hpos, Nat.div_eq_of_lt hx, Nat.add_zero]
    have hcolumn : ((c * (side / 2) + y) * (side / 2) + x) % (side / 2) = x := by
      rw [Nat.mul_comm, Nat.mul_add_mod, Nat.mod_eq_of_lt hx]
    have hplane : (c * (side / 2) + y) / (side / 2) = c := by
      rw [Nat.mul_comm, Nat.mul_add_div hpos, Nat.div_eq_of_lt hy, Nat.add_zero]
    have hline : (c * (side / 2) + y) % (side / 2) = y := by
      rw [Nat.mul_comm, Nat.mul_add_mod, Nat.mod_eq_of_lt hy]
    rw [hrow, hcolumn, hplane, hline]

end Tensor

end DeepProve
