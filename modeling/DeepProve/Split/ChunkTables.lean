import DeepProve.Lookup.PaddedTensor
import DeepProve.Split.SplitLayer

/-!
# The chunks of a padded tensor

A split layer fills up the first dimension of a tensor to a power of two, and cuts the rows into
chunks; of the last chunk it keeps what is not padding. The value of the padded tensor is the sum of
those of the padded chunks, weighted by the last coordinates of the point.
-/

namespace DeepProve

open Multilinear (eval eqWeight)

namespace SplitLayer

/-- `evaluate` for one input: its rows are filled up with zeros and cut into chunks, each of which
    has the entries of its shape. -/
def splitRows (shape : Shape) (numChunks : Nat) (data : List Int) : Outcome (List (Shape × List Int)) := do
  let dim ← unwrap shape[0]? "index out of bounds"
  let shapes ← chunkShapes shape numChunks
  let rowSize := shape.tail.prod
  let chunkSize := nextPowerOfTwo dim / nextPowerOfTwo numChunks
  let padded := data ++ List.replicate ((nextPowerOfTwo dim - dim) * rowSize) 0
  .ok (shapes.zipIdx.map fun (shape, i) =>
    (shape, ((padded.drop (i * (chunkSize * rowSize))).take (chunkSize * rowSize)).take shape.prod))

/-- A tensor that is split: the size of its first dimension, its other dimensions, and the rows of a
    chunk. -/
structure Splits (dim : Nat) (dims : Shape) (numChunks chunkSize : Nat) : Prop where
  pos : 0 < numChunks
  chunkSize_eq : chunkSize = nextPowerOfTwo dim / nextPowerOfTwo numChunks
  chunkSize_pos : 0 < chunkSize
  covered : dim ≤ chunkSize * numChunks

/-- The number of rows of a chunk. -/
def rowsOf (dim numChunks chunkSize i : Nat) : Nat :=
  if i + 1 < numChunks then chunkSize
  else if dim % chunkSize = 0 then chunkSize else dim % chunkSize

variable {dim numChunks chunkSize : Nat} {dims : Shape}

theorem chunkShapes_eq (h : Splits dim dims numChunks chunkSize) :
    chunkShapes (dim :: dims) numChunks =
      .ok ((List.range numChunks).map fun i => rowsOf dim numChunks chunkSize i :: dims) := by
  have hnum := h.pos
  have hpos := h.chunkSize_pos
  unfold chunkShapes
  rw [List.getElem?_cons_zero, unwrap_some, Outcome.ok_bind]
  simp only [← h.chunkSize_eq, if_neg hnum.ne', if_neg hpos.ne', List.tail_cons]
  congr 1
  obtain ⟨n, rfl⟩ := Nat.exists_eq_add_of_le' hnum
  rw [List.range_succ, List.map_append, Nat.add_sub_cancel]
  congr 1
  · refine (List.eq_replicate_iff.mpr ⟨?_, fun shape hshape => ?_⟩).symm
    · rw [List.length_map, List.length_range]
    · obtain ⟨i, hi, rfl⟩ := List.mem_map.mp hshape
      rw [rowsOf, if_pos (Nat.succ_lt_succ (List.mem_range.mp hi))]
  · rw [List.map_singleton, rowsOf, if_neg (lt_irrefl _)]

/-- What the check and the shapes of the chunks say of one input. -/
theorem splits_of_chunkShapes {shape : Shape} {shapes : List Shape}
    (hcheck : ∀ d, shape[0]? = some d → d ≤ nextPowerOfTwo d / nextPowerOfTwo numChunks * numChunks)
    (h : chunkShapes shape numChunks = .ok shapes) :
    ∃ dim dims, shape = dim :: dims ∧
      Splits dim dims numChunks (nextPowerOfTwo dim / nextPowerOfTwo numChunks) := by
  obtain ⟨dim, hdim, h⟩ := Outcome.bind_eq_ok.mp h
  have hget := unwrap_eq_ok.mp hdim
  dsimp only at h
  split at h
  · exact nomatch h
  · next hnum =>
    split at h
    · exact nomatch h
    · next hsize =>
      cases shape with
      | nil => exact nomatch hget
      | cons d dims =>
        obtain rfl := Option.some.inj hget
        exact ⟨d, dims, rfl, Nat.pos_of_ne_zero hnum, rfl, Nat.pos_of_ne_zero hsize, hcheck d rfl⟩

/-! ## Rows -/

theorem rowsOf_le (hpos : 0 < chunkSize) (i : Nat) : rowsOf dim numChunks chunkSize i ≤ chunkSize := by
  unfold rowsOf
  split
  · exact le_rfl
  · split
    · exact le_rfl
    · exact (Nat.mod_lt _ hpos).le

/-- A row of the tensor is in the chunk that it belongs to. -/
theorem lt_rowsOf (h : Splits dim dims numChunks chunkSize) {i r : Nat} (hr : r < chunkSize)
    (hrow : i * chunkSize + r < dim) : r < rowsOf dim numChunks chunkSize i := by
  unfold rowsOf
  split
  · exact hr
  · next hlast =>
    split
    · exact hr
    · -- the last chunk has the rows that are left
      have hcovered := h.covered
      have hle : numChunks * chunkSize ≤ (i + 1) * chunkSize := Nat.mul_le_mul_right _ (by omega)
      have hsucc : (i + 1) * chunkSize = i * chunkSize + chunkSize := Nat.succ_mul _ _
      rw [Nat.mul_comm] at hcovered
      have hdiv : dim / chunkSize = i ∨ dim = (i + 1) * chunkSize := by
        by_cases hfull : dim = (i + 1) * chunkSize
        · exact .inr hfull
        · refine .inl (Nat.div_eq_of_lt_le (by omega) ?_)
          omega
      rcases hdiv with hdiv | hfull
      · have hmod := Nat.div_add_mod dim chunkSize
        rw [hdiv, Nat.mul_comm] at hmod
        omega
      · next hmod => exact absurd (by rw [hfull, Nat.mul_mod_left]) hmod

/-! ## Entries -/

/-- The entries of a chunk. -/
def chunkData (dim : Nat) (dims : Shape) (numChunks chunkSize : Nat) (data : List Int) (i : Nat) :
    List Int :=
  (((data ++ List.replicate ((nextPowerOfTwo dim - dim) * dims.prod) 0).drop
    (i * (chunkSize * dims.prod))).take (chunkSize * dims.prod)).take
      (rowsOf dim numChunks chunkSize i * dims.prod)

theorem splitRows_eq (h : Splits dim dims numChunks chunkSize) (data : List Int) :
    splitRows (dim :: dims) numChunks data = .ok ((List.range numChunks).map fun i =>
      (rowsOf dim numChunks chunkSize i :: dims, chunkData dim dims numChunks chunkSize data i)) := by
  unfold splitRows
  rw [List.getElem?_cons_zero, unwrap_some, Outcome.ok_bind, chunkShapes_eq h, Outcome.ok_bind]
  simp only [← h.chunkSize_eq, List.tail_cons]
  congr 1
  apply List.ext_getElem
  · simp
  · intro i hi _
    simp [chunkData]

/-- A row of a chunk is a row of the tensor that is filled up. -/
theorem row_chunkData (hpos : 0 < chunkSize) (data : List Int) {i r : Nat}
    (hr : r < rowsOf dim numChunks chunkSize i) :
    ((chunkData dim dims numChunks chunkSize data i).drop (r * dims.prod)).take dims.prod =
      ((data ++ List.replicate ((nextPowerOfTwo dim - dim) * dims.prod) 0).drop
        ((i * chunkSize + r) * dims.prod)).take dims.prod := by
  have hrows : rowsOf dim numChunks chunkSize i ≤ chunkSize := rowsOf_le hpos i
  have hmul : rowsOf dim numChunks chunkSize i * dims.prod ≤ chunkSize * dims.prod :=
    Nat.mul_le_mul_right _ hrows
  have hfit : (r + 1) * dims.prod ≤ rowsOf dim numChunks chunkSize i * dims.prod :=
    Nat.mul_le_mul_right _ hr
  rw [Nat.succ_mul] at hfit
  have hstart : i * (chunkSize * dims.prod) + r * dims.prod = (i * chunkSize + r) * dims.prod := by
    ring
  rw [chunkData, List.take_take, Nat.min_eq_left hmul, List.drop_take, List.take_take,
    Nat.min_eq_left (by omega), List.drop_drop, hstart]

/-- Where all entries are zero, the padded tensor is zero. -/
theorem paddedEntry_of_zero {dims : Shape} {data : List Int} (h : ∀ x ∈ data, x = 0) (i : Nat) :
    paddedEntry dims data i = 0 := by
  induction dims generalizing data i with
  | nil =>
    cases data with
    | nil => rfl
    | cons x data => exact h x List.mem_cons_self
  | cons d dims ih =>
    rw [paddedEntry]
    split
    · exact ih (fun x hx => h x (List.mem_of_mem_drop (List.mem_of_mem_take hx))) _
    · rfl

/-- The entries of the padded chunks are those of the padded tensor. -/
theorem paddedEntry_chunkData (h : Splits dim dims numChunks chunkSize) {data : List Int}
    (hdata : data.length = dim * dims.prod) {i place : Nat}
    (hplace : place < chunkSize * (Shape.nextPowerOfTwo dims).numel) :
    paddedEntry (dim :: dims) data (i * (chunkSize * (Shape.nextPowerOfTwo dims).numel) + place) =
      paddedEntry (rowsOf dim numChunks chunkSize i :: dims)
        (chunkData dim dims numChunks chunkSize data i) place := by
  have hsize : 0 < (Shape.nextPowerOfTwo dims).numel := by
    rw [Shape.numel_nextPowerOfTwo]
    exact Nat.two_pow_pos _
  rw [paddedEntry, paddedEntry]
  generalize (Shape.nextPowerOfTwo dims).numel = size at hplace hsize ⊢
  have hr : place / size < chunkSize := Nat.div_lt_of_lt_mul (by rwa [Nat.mul_comm])
  have hindex : i * (chunkSize * size) + place = size * (i * chunkSize) + place := by ring
  rw [hindex, Nat.mul_add_div hsize, Nat.mul_add_mod]
  by_cases hrow : i * chunkSize + place / size < dim
  · have hlt := lt_rowsOf h hr hrow
    have hend : (i * chunkSize + place / size + 1) * dims.prod ≤ data.length := by
      rw [hdata]
      exact Nat.mul_le_mul_right _ hrow
    rw [Nat.succ_mul] at hend
    rw [if_pos hrow, if_pos hlt, row_chunkData h.chunkSize_pos data hlt,
      List.drop_append_of_le_length (by omega), List.take_append_of_le_length]
    rw [List.length_drop]
    omega
  · rw [if_neg hrow]
    split
    · next hlt =>
      -- the rows behind those of the tensor are filled up with zeros
      have hstart : data.length ≤ (i * chunkSize + place / size) * dims.prod := by
        rw [hdata]
        exact Nat.mul_le_mul_right _ (not_lt.mp hrow)
      rw [row_chunkData h.chunkSize_pos data hlt, paddedEntry_of_zero]
      intro x hx
      obtain ⟨k, hk⟩ := Nat.exists_eq_add_of_le hstart
      rw [hk, ← List.drop_drop, List.drop_left] at hx
      exact List.eq_of_mem_replicate (List.mem_of_mem_drop (List.mem_of_mem_take hx))
    · rfl

/-! ## Values -/

section Eval

variable {F : Type} [CommRing F]

/-- The polynomial of a padded tensor. -/
def tensorEval (shape : Shape) (data : List Int) (point : List F) : F :=
  eval (fun i => ((paddedEntry shape data i : Int) : F)) point

/-- The sizes are powers of two, those of a chunk and of the number of chunks. -/
theorem Splits.nextPowerOfTwo_eq (h : Splits dim dims numChunks chunkSize) :
    ∃ v, chunkSize = 2 ^ v ∧ ceilLog2 dim = v + ceilLog2 numChunks := by
  have hpos := h.chunkSize_pos
  rw [h.chunkSize_eq] at hpos ⊢
  have hle : ceilLog2 numChunks ≤ ceilLog2 dim := by
    by_contra hlt
    have hzero : nextPowerOfTwo dim / nextPowerOfTwo numChunks = 0 :=
      Nat.div_eq_of_lt (Nat.pow_lt_pow_right (by decide) (not_le.mp hlt))
    omega
  refine ⟨ceilLog2 dim - ceilLog2 numChunks, Nat.pow_div hle (by decide), ?_⟩
  omega

/-- The value of a padded tensor is that of its padded chunks. -/
theorem eval_splitRows (h : Splits dim dims numChunks chunkSize) {data : List Int}
    (hdata : data.length = dim * dims.prod) {lo hi : List F}
    (hlo : 2 ^ lo.length = chunkSize * (Shape.nextPowerOfTwo dims).numel)
    (hhi : hi.length = ceilLog2 numChunks) :
    tensorEval (dim :: dims) data (lo ++ hi) = ∑ i ∈ Finset.range numChunks,
      eqWeight hi i * tensorEval (rowsOf dim numChunks chunkSize i :: dims)
        (chunkData dim dims numChunks chunkSize data i) lo := by
  have hnum : numChunks ≤ 2 ^ hi.length := by
    rw [hhi]
    exact Nat.le_pow_clog (by decide) _
  have hsize : 0 < (Shape.nextPowerOfTwo dims).numel := by
    rw [Shape.numel_nextPowerOfTwo]
    exact Nat.two_pow_pos _
  rw [tensorEval, Multilinear.eval_append_of_lt hnum]
  · apply Finset.sum_congr rfl
    intro i _
    congr 1
    apply Multilinear.eval_congr
    intro place hplace
    rw [hlo] at hplace ⊢
    rw [paddedEntry_chunkData h hdata hplace]
  · intro i hi
    rw [hlo, Nat.mul_comm chunkSize, ← Nat.div_div_eq_div_mul] at hi
    have hrow : dim ≤ i / (Shape.nextPowerOfTwo dims).numel :=
      (h.covered.trans (Nat.mul_le_mul_left _ hi)).trans (Nat.mul_div_le _ _)
    rw [paddedEntry, if_neg (not_lt.mpr hrow), Int.cast_zero]

/-- The last coordinates of a point are compared with the padding of a chunk. -/
theorem tensorEval_take (shape : Shape) (data : List Int) {point : List F}
    (h : shape.dimVars.sum ≤ point.length) (hne : shape ≠ []) :
    tensorEval shape data point = tensorEval shape data (point.take shape.dimVars.sum) *
      ((point.drop shape.dimVars.sum).map fun p => 1 - p).prod := by
  have hlength : (point.take shape.dimVars.sum).length = shape.dimVars.sum := by
    rw [List.length_take, Nat.min_eq_left h]
  conv_lhs => rw [← List.take_append_drop shape.dimVars.sum point]
  rw [tensorEval, tensorEval, ← Multilinear.eval_zeroPad, hlength]
  apply Multilinear.eval_congr
  intro i _
  rw [Multilinear.zeroPad]
  split
  · rfl
  · next hout =>
    obtain ⟨d, dims, rfl⟩ := List.exists_cons_of_ne_nil hne
    have hrow : d ≤ i / (Shape.nextPowerOfTwo dims).numel := by
      rw [Shape.numel_nextPowerOfTwo, Nat.le_div_iff_mul_le (Nat.two_pow_pos _)]
      have hvars : (Shape.dimVars (d :: dims)).sum = ceilLog2 d + (Shape.dimVars dims).sum :=
        List.sum_cons
      rw [hvars, pow_add] at hout
      exact (Nat.mul_le_mul_right _ (Nat.le_pow_clog (by decide) d)).trans (not_lt.mp hout)
    rw [paddedEntry, if_neg (not_lt.mpr hrow), Int.cast_zero]

end Eval

end SplitLayer

end DeepProve
