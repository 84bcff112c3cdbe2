import DeepProve.ForStd.Interleave
import DeepProve.Pooling.Binding
import DeepProve.Tensor
import DeepProve.Vec

/-!
# The witness of a pooling layer

`tensor/mod.rs`, `layers/pooling.rs`: `maxpool2d` takes the largest entry of every kernel, and
`compute_polys` lists the differences of the outputs to the four entries of their kernels. The
entries at one place of the kernels are collected by stepping through the padded input and merging
what was collected.
-/

namespace DeepProve

open List (cells)

/-- `MAXPOOL2D_KERNEL_SIZE`. -/
abbrev maxpool2dKernelSize : Nat := 2

namespace Tensor

variable (self : Tensor Int)

/-- The largest entry of a kernel. -/
def kernelMax (kernelSize stride h w outH outW flatIdx : Nat) : Outcome Int := do
  let n := flatIdx / (outH * outW)
  let i := flatIdx / outW % outH
  let j := flatIdx % outW
  let matrixIdx := n * (h * w)
  let first ← Vec.get self.data (matrixIdx + i * stride * w + j * stride)
  (List.product (List.range kernelSize) (List.range kernelSize)).foldlM (fun maxVal (ki, kj) => do
    let value ← Vec.get self.data (matrixIdx + (i * stride + ki) * w + (j * stride + kj))
    .ok (max maxVal value)) first

/-- `maxpool2d`. -/
def maxpool2d (kernelSize stride : Nat) : Outcome (Tensor Int) := do
  ensure (kernelSize == maxpool2dKernelSize)
    s!"Maxpool2D works only for kernel size {maxpool2dKernelSize}"
  ensure (stride == maxpool2dKernelSize)
    s!"Maxpool2D works only for stride size {maxpool2dKernelSize}"
  let dims := self.shape.rank
  ensure (decide (2 ≤ dims)) "Input tensor must have at least 2 dimensions."
  let h ← unwrap self.shape[dims - 2]? "index out of bounds"
  let w ← unwrap self.shape[dims - 1]? "index out of bounds"
  ensure (decide (kernelSize ≤ h))
    s!"Kernel size ({kernelSize}) is larger than input dimensions ({h}, {w})"
  let outH := (h - kernelSize) / stride + 1
  let rest ← usizeSub w kernelSize
  let outW := rest / stride + 1
  let outerDims := (self.shape.take (dims - 2)).prod
  let output ← (List.range (outerDims * outH * outW)).mapM
    (self.kernelMax kernelSize stride h w outH outW)
  .ok ⟨output, (self.shape.set (dims - 2) outH).set (dims - 1) outW, self.unpaddedShape⟩

/-- An entry of a tensor of rank three, zero outside of it. -/
def entryAt (c y x : Nat) : Int :=
  match self.shape with
  | [channels, height, width] =>
    if c < channels ∧ y < height ∧ x < width then self.data.getD ((c * height + y) * width + x) 0
    else 0
  | _ => 0

end Tensor

namespace Maxpool2D

/-- One step of the merging. -/
def mergeStep (merged : List (List Int)) (i : Nat) : Outcome (List (List Int)) := do
  let midPoint := 2 ^ i
  let (low, high) ← splitAtMid merged midPoint
  .ok (List.zipWith List.interleave low high)

/-- The lists of a chunk are merged to one. -/
def mergeChunk (width : Nat) (chunk : List (List Int)) : Outcome (List Int) := do
  let rounds ← usizeSub (ceilLog2 width) 1
  let merged ← (List.range rounds).reverse.foldlM mergeStep chunk
  unwrap merged[0]? "index out of bounds"

variable (F : Type) [Field F]

/-- The differences for a chunk. -/
def chunkDiffs (width : Nat) (output : List Int) (evenChunk oddChunk : List (List Int)) :
    Outcome (List F × List F) := do
  let even ← mergeChunk width evenChunk
  let odd ← mergeChunk width oddChunk
  .ok ((even.zip (odd.zip output)).map (fun (e, _, data) => ((data - e : Int) : F)),
    (even.zip (odd.zip output)).map fun (_, o, data) => ((data - o : Int) : F))

/-- `compute_polys`. -/
def computePolys (self : Maxpool2D) (input : Tensor Int) : Outcome (List (List F)) := do
  let paddedInput := input.padNextPowerOfTwo
  let output ← input.maxpool2d self.kernelSize self.stride
  let paddedOutput := output.padNextPowerOfTwo
  let width ← unwrap paddedInput.shape[2]? "index out of bounds"
  let newFixed := (List.range (width * 2)).map fun i => (paddedInput.data.drop i).stepBy (width * 2)
  let newEven := newFixed.stepBy 2
  let newOdd := (newFixed.drop 1).stepBy 2
  let evenChunks ← chunksOf newEven (width / 2)
  let oddChunks ← chunksOf newOdd (width / 2)
  let diffs ← (evenChunks.zip oddChunks).mapM fun (evenChunk, oddChunk) =>
    chunkDiffs F width paddedOutput.data evenChunk oddChunk
  .ok (diffs.map Prod.fst ++ diffs.map Prod.snd)

/-! ## The entries that are collected -/

section Merge

variable {l q : Nat}

theorem mergeStep_cells (entry : Nat → Nat → Int) (i w n : Nat) :
    mergeStep (cells (2 * 2 ^ i) (List.inTurn entry (2 * 2 ^ i) w n)) i =
      .ok (cells (2 ^ i) (List.inTurn entry (2 ^ i) (2 * w) n)) := by
  have hsplit : splitAtMid (cells (2 * 2 ^ i) (List.inTurn entry (2 * 2 ^ i) w n)) (2 ^ i) =
      .ok ((cells (2 * 2 ^ i) (List.inTurn entry (2 * 2 ^ i) w n)).take (2 ^ i),
        (cells (2 * 2 ^ i) (List.inTurn entry (2 * 2 ^ i) w n)).drop (2 ^ i)) := by
    rw [splitAtMid_eq_ok, List.length_cells]
    exact ⟨by omega, rfl, rfl⟩
  rw [mergeStep]
  dsimp only
  rw [hsplit, Outcome.ok_bind, ← List.zipWith_interleave_inTurn]

/-- The rounds merge all lists to one. -/
theorem mergeRounds_cells (entry : Nat → Nat → Int) (w n : Nat) :
    (List.range l).reverse.foldlM mergeStep (cells (2 ^ l) (List.inTurn entry (2 ^ l) w n)) =
      .ok (cells 1 (List.inTurn entry 1 (2 ^ l * w) n)) := by
  induction l generalizing w with
  | zero =>
    rw [Nat.pow_zero, Nat.one_mul]
    rfl
  | succ l ih =>
    rw [List.range_succ, List.reverse_append, List.reverse_singleton, List.singleton_append,
      List.foldlM_cons, Nat.pow_succ', mergeStep_cells, Outcome.ok_bind, ih, Nat.mul_left_comm,
      Nat.mul_assoc]

/-- The entries of the lists of a chunk in turn. -/
theorem mergeChunk_cells {width : Nat} (hwidth : ceilLog2 width = l + 1) (entry : Nat → Nat → Int) :
    mergeChunk width (cells (2 ^ l) fun j => cells q (entry j)) =
      .ok (cells (2 ^ l * q) fun p => entry (p % 2 ^ l) (p / 2 ^ l)) := by
  have hfirst : (cells (2 ^ l) fun j => cells q (entry j)) =
      cells (2 ^ l) (List.inTurn entry (2 ^ l) 1 q) := by
    apply List.cells_congr
    intro j _
    rw [List.inTurn, Nat.one_mul]
    apply List.cells_congr
    intro p _
    rw [Nat.mod_one, Nat.zero_mul, Nat.add_zero, Nat.div_one]
  have hlast : List.inTurn entry 1 (2 ^ l * 1) q 0 =
      cells (2 ^ l * q) fun p => entry (p % 2 ^ l) (p / 2 ^ l) := by
    rw [List.inTurn, Nat.mul_one]
    apply List.cells_congr
    intro p _
    rw [Nat.mul_one, Nat.zero_add]
  have hrounds : usizeSub (ceilLog2 width) 1 = .ok l := by
    rw [hwidth]
    exact usizeSub_eq_ok.mpr ⟨Nat.le_add_left 1 l, rfl⟩
  rw [mergeChunk, hrounds, Outcome.ok_bind, hfirst, mergeRounds_cells, Outcome.ok_bind,
    List.getElem?_cells Nat.one_pos, hlast, unwrap_some]

end Merge

section Collect

variable {F : Type} [Field F]

/-- The position in the padded input of an entry of a kernel: `i` is the position of the kernel in
    the padded output, `b` the row and `e` the column in the kernel. -/
def kernelPosition (l e b i : Nat) : Nat := e + 2 * (i % 2 ^ l) + 2 ^ (l + 1) * (b + 2 * (i / 2 ^ l))

/-- The differences for a place in the kernel. -/
def diffPoly (F : Type) [Field F] (l n : Nat) (padded output : Nat → Int) (e b : Nat) : List F :=
  cells n fun i => ((output i - padded (kernelPosition l e b i) : Int) : F)

theorem zip_cells {α β : Type} (n m : Nat) (f : Nat → α) (g : Nat → β) :
    (cells n f).zip (cells m g) = cells (min n m) fun i => (f i, g i) := by
  apply List.ext_getElem
  · simp
  · intro i _ _
    simp [cells]

/-- The lists that are merged. -/
theorem chunkDiffs_cells {l q m : Nat} (padded output : Nat → Int) (b : Nat) :
    chunkDiffs F (2 ^ (l + 1)) (cells m output)
        (cells (2 ^ l) fun j => cells q fun t =>
          padded ((2 ^ l * b + j) * 2 + t * (2 ^ (l + 1) * 2)))
        (cells (2 ^ l) fun j => cells q fun t =>
          padded (1 + (2 ^ l * b + j) * 2 + t * (2 ^ (l + 1) * 2))) =
      .ok (diffPoly F l (min (2 ^ l * q) m) padded output 0 b,
        diffPoly F l (min (2 ^ l * q) m) padded output 1 b) := by
  have hlog : ceilLog2 (2 ^ (l + 1)) = l + 1 := PoolingCtx.ceilLog2_two_pow (l + 1)
  rw [chunkDiffs, mergeChunk_cells hlog, Outcome.ok_bind, mergeChunk_cells hlog, Outcome.ok_bind,
    zip_cells, zip_cells, ← Nat.min_assoc, Nat.min_self, List.map_cells, List.map_cells]
  have hposition : ∀ e i, e + (2 ^ l * b + i % 2 ^ l) * 2 + i / 2 ^ l * (2 ^ (l + 1) * 2) =
      kernelPosition l e b i := by
    intro e i
    rw [kernelPosition, pow_succ]
    ring
  have heven := hposition 0
  simp only [Nat.zero_add] at heven
  simp only [heven, hposition 1]
  rfl

/-- The pieces of a list of lists. -/
theorem chunksOf_cells {α : Type} {n size : Nat} (hsize : 0 < size) (f : Nat → α) :
    chunksOf (cells (n * size) f) size =
      .ok (cells n fun b => cells size fun j => f (size * b + j)) := by
  have hlength : (cells (n * size) f).length = n * size := List.length_cells
  rw [chunksOf, if_neg hsize.ne', pieces_of_length hsize hlength]
  congr 1
  apply List.map_congr_left
  intro b hb
  have hle : b * size + size ≤ n * size := by
    rw [← Nat.succ_mul]
    exact Nat.mul_le_mul_right size (List.mem_range.mp hb)
  rw [List.take_drop_cells hle, Nat.mul_comm b]

/-- The differences, by their position in the padded output. -/
theorem computePolys_eq_ok (self : Maxpool2D) {input output : Tensor Int} {l q : Nat}
    (hwidth : input.padNextPowerOfTwo.shape[2]? = some (2 ^ (l + 1)))
    (hlength : input.padNextPowerOfTwo.shape.numel = q * (2 ^ (l + 1) * 2)) (hq : 0 < q)
    (houtput : input.maxpool2d self.kernelSize self.stride = .ok output) :
    let poly := diffPoly F l (min (2 ^ l * q) output.padNextPowerOfTwo.shape.numel)
      (paddedEntry input.shape input.data) (paddedEntry output.shape output.data)
    self.computePolys F input = .ok [poly 0 0, poly 0 1, poly 1 0, poly 1 1] := by
  intro poly
  have hdata : input.padNextPowerOfTwo.data =
      cells (q * (2 ^ (l + 1) * 2)) (paddedEntry input.shape input.data) := by
    rw [← hlength]
    rfl
  have hfixed : (List.range (2 ^ (l + 1) * 2)).map (fun i =>
      (input.padNextPowerOfTwo.data.drop i).stepBy (2 ^ (l + 1) * 2)) =
        cells (2 ^ (l + 1) * 2) fun i => cells q fun t =>
          paddedEntry input.shape input.data (i + t * (2 ^ (l + 1) * 2)) := by
    apply List.map_congr_left
    intro i hi
    rw [hdata, List.stepBy_drop_cells (List.mem_range.mp hi) hq]
  have hpos : 0 < 2 ^ l := Nat.two_pow_pos l
  have hhalf : 2 ^ (l + 1) / 2 = 2 ^ l := by
    rw [pow_succ]
    omega
  -- the two columns of the kernels, and in each of them the two rows
  have hcolumn : ∀ e < 2, ((cells (2 ^ (l + 1) * 2) fun i => cells q fun t =>
      paddedEntry input.shape input.data (i + t * (2 ^ (l + 1) * 2))).drop e).stepBy 2 =
        cells (2 * 2 ^ l) fun j => cells q fun t =>
          paddedEntry input.shape input.data (e + j * 2 + t * (2 ^ (l + 1) * 2)) := by
    intro e he
    rw [List.stepBy_drop_cells he (Nat.two_pow_pos _), pow_succ']
  have heven := hcolumn 0 (by decide)
  rw [List.drop_zero] at heven
  simp only [Nat.zero_add] at heven
  rw [computePolys, houtput, hwidth]
  dsimp only
  rw [Outcome.ok_bind, unwrap_some, Outcome.ok_bind, hfixed, heven, hcolumn 1 (by decide), hhalf,
    chunksOf_cells hpos, Outcome.ok_bind, chunksOf_cells hpos, Outcome.ok_bind, zip_cells, Nat.min_self]
  have hdiffs := fun b => chunkDiffs_cells (F := F) (l := l) (q := q)
    (m := output.padNextPowerOfTwo.shape.numel) (paddedEntry input.shape input.data)
    (paddedEntry output.shape output.data) b
  have houtputData : output.padNextPowerOfTwo.data =
    cells output.padNextPowerOfTwo.shape.numel (paddedEntry output.shape output.data) := rfl
  have htwo : ∀ {α : Type} (f : Nat → α), cells 2 f = [f 0, f 1] := fun _ => rfl
  rw [houtputData, htwo, List.mapM_cons, hdiffs 0, Outcome.ok_bind, List.mapM_cons, hdiffs 1]
  rfl

end Collect

end Maxpool2D

end DeepProve
