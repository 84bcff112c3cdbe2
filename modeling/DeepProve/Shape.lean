import DeepProve.PolyCommit.Basic

/-!
# Shapes

`shape.rs`: the dimensions of a tensor, and how the point of a claim about a tensor is
cut at them. The first dimension has the last coordinates. Slices of a list panic when
they are out of range, as in the code.
-/

namespace DeepProve

section Slices

variable {α : Type}

/-- `&xs[..n]`. -/
def sliceTo (xs : List α) (n : Nat) : Outcome (List α) :=
  if n ≤ xs.length then .ok (xs.take n) else .error (.panic "range end index out of range")

/-- `&xs[n..]`. -/
def sliceFrom (xs : List α) (n : Nat) : Outcome (List α) :=
  if n ≤ xs.length then .ok (xs.drop n) else .error (.panic "range start index out of range")

/-- `split_at`. -/
def splitAtMid (xs : List α) (mid : Nat) : Outcome (List α × List α) :=
  if mid ≤ xs.length then .ok (xs.take mid, xs.drop mid) else .error (.panic "mid > len")

/-- Pieces of the given size, the last one may be shorter. -/
def pieces (xs : List α) (size : Nat) : List (List α) :=
  (List.range ((xs.length + size - 1) / size)).map fun i => (xs.drop (i * size)).take size

/-- `chunks`. -/
def chunksOf (xs : List α) (size : Nat) : Outcome (List (List α)) :=
  if size = 0 then .error (.panic "chunk size must be non-zero") else .ok (pieces xs size)

variable {xs ys : List α} {size n : Nat}

theorem sliceTo_eq_ok :
    sliceTo xs n = .ok ys ↔ n ≤ xs.length ∧ ys = xs.take n := by
  unfold sliceTo
  split <;> simp_all [eq_comm]

theorem panics_sliceTo : (sliceTo xs n).Panics ↔ xs.length < n := by
  unfold sliceTo
  split
  · next h => simpa using h
  · next h => simpa using h

theorem sliceFrom_eq_ok :
    sliceFrom xs n = .ok ys ↔ n ≤ xs.length ∧ ys = xs.drop n := by
  unfold sliceFrom
  split <;> simp_all [eq_comm]

theorem splitAtMid_eq_ok {zs : List α} {mid : Nat} :
    splitAtMid xs mid = .ok (ys, zs) ↔ mid ≤ xs.length ∧ ys = xs.take mid ∧ zs = xs.drop mid := by
  unfold splitAtMid
  split <;> simp_all [eq_comm]

theorem chunksOf_eq_ok {yss : List (List α)} :
    chunksOf xs size = .ok yss ↔ size ≠ 0 ∧ yss = pieces xs size := by
  unfold chunksOf
  split <;> simp_all [eq_comm]

variable {β : Type}

@[simp] theorem pieces_nil (size : Nat) : pieces ([] : List α) size = [] := by
  rcases Nat.eq_zero_or_pos size with rfl | hsize
  · simp [pieces]
  · have hdiv : (0 + size - 1) / size = 0 := Nat.div_eq_of_lt (by omega)
    rw [pieces]
    rw [List.length_nil, hdiv]
    rfl

theorem pieces_map (f : α → β) (xs : List α) (size : Nat) :
    pieces (xs.map f) size = (pieces xs size).map (List.map f) := by
  simp [pieces, List.map_drop, List.map_take]

/-- A first piece of full size is cut off. -/
theorem pieces_append {xs ys : List α} {size : Nat} (hsize : 0 < size) (h : xs.length = size) :
    pieces (xs ++ ys) size = xs :: pieces ys size := by
  have hcount : ((xs ++ ys).length + size - 1) / size = (ys.length + size - 1) / size + 1 := by
    rw [List.length_append, h, ← Nat.add_div_right _ hsize]
    congr 1
    omega
  rw [pieces, pieces, hcount, List.range_succ_eq_map, List.map_cons, List.map_map]
  congr 1
  · rw [Nat.zero_mul, List.drop_zero, ← h, List.take_left]
  · apply List.map_congr_left
    intro i _
    rw [Function.comp_apply, Nat.succ_mul, Nat.add_comm, ← List.drop_drop, ← h, List.drop_left]

theorem pieces_flatMap {xs : List β} {f : β → List α} {size : Nat} (hsize : 0 < size)
    (h : ∀ x ∈ xs, (f x).length = size) : pieces (xs.flatMap f) size = xs.map f := by
  induction xs with
  | nil => exact pieces_nil size
  | cons x xs ih =>
    obtain ⟨hx, hxs⟩ := List.forall_mem_cons.mp h
    rw [List.flatMap_cons, pieces_append hsize hx, ih hxs, List.map_cons]

/-- Cut into `n` pieces of full size. -/
theorem pieces_of_length (hsize : 0 < size) (h : xs.length = n * size) :
    pieces xs size = (List.range n).map fun i => (xs.drop (i * size)).take size := by
  have hcount : (xs.length + size - 1) / size = n := by
    rw [h, Nat.add_sub_assoc hsize, Nat.add_comm, Nat.add_mul_div_right _ _ hsize,
      Nat.div_eq_of_lt (by omega), Nat.zero_add]
  rw [pieces, hcount]

theorem length_of_mem_pieces (hsize : 0 < size) (h : xs.length = n * size)
    (hys : ys ∈ pieces xs size) : ys.length = size := by
  rw [pieces_of_length hsize h] at hys
  obtain ⟨i, hi, rfl⟩ := List.mem_map.mp hys
  have hle : (i + 1) * size ≤ n * size := Nat.mul_le_mul_right _ (List.mem_range.mp hi)
  rw [List.length_take, List.length_drop, h]
  rw [Nat.succ_mul] at hle
  omega

theorem flatten_pieces (hsize : 0 < size) (h : xs.length = n * size) :
    (pieces xs size).flatten = xs := by
  have htake : ∀ k, ((List.range k).map fun i => (xs.drop (i * size)).take size).flatten =
      xs.take (k * size) := by
    intro k
    induction k with
    | zero => simp
    | succ k ih =>
      rw [List.range_succ, List.map_append, List.flatten_append, ih, List.map_singleton,
        List.flatten_singleton, Nat.succ_mul, List.take_add]
  rw [pieces_of_length hsize h, htake, ← h, List.take_length]

/-- Chunks that are cut into pieces of full size. -/
theorem pieces_append_of_length (hsize : 0 < size) (h : xs.length = n * size) :
    pieces (xs ++ ys) size = pieces xs size ++ pieces ys size := by
  induction n generalizing xs with
  | zero =>
    rw [Nat.zero_mul] at h
    rw [List.length_eq_zero_iff.mp h, pieces_nil]
    rfl
  | succ n ih =>
    rw [Nat.succ_mul] at h
    have hfirst : (xs.take size).length = size := by
      rw [List.length_take]
      omega
    have hrest : (xs.drop size).length = n * size := by
      rw [List.length_drop]
      omega
    rw [← List.take_append_drop size xs, List.append_assoc, pieces_append hsize hfirst,
      pieces_append hsize hfirst, ih hrest, List.cons_append]

theorem pieces_flatMap_of_length {xs : List β} {f : β → List α} (hsize : 0 < size)
    (h : ∀ x ∈ xs, (f x).length = n * size) :
    pieces (xs.flatMap f) size = xs.flatMap fun x => pieces (f x) size := by
  induction xs with
  | nil => exact pieces_nil size
  | cons x xs ih =>
    obtain ⟨hx, hxs⟩ := List.forall_mem_cons.mp h
    rw [List.flatMap_cons, pieces_append_of_length hsize hx, ih hxs, List.flatMap_cons]

end Slices

/-- `ceil_log2`. -/
def ceilLog2 (n : Nat) : Nat := Nat.clog 2 n

/-- `next_power_of_two`. -/
def nextPowerOfTwo (n : Nat) : Nat := 2 ^ Nat.clog 2 n

theorem le_nextPowerOfTwo (n : Nat) : n ≤ nextPowerOfTwo n := Nat.le_pow_clog (by decide) n

abbrev Shape := List Nat

/-- `eval_zeroifier_mle`. -/
def evalZeroifierMle {F : Type} [CommRing F] (columnPoint rowPoint : List F) : F :=
  (columnPoint.zip rowPoint).foldl
    (fun acc (c, r) => acc * (1 - c - r + 2 * c * r) + (1 - c) * r) 1

/-- The bits of a dimension as field elements. -/
def bitsOf {F : Type} [CommRing F] (num bitLength : Nat) : Outcome (List F) := do
  let bits ← toBitSequenceLe num bitLength
  .ok (bits.map fun (bit : Nat) => (bit : F))

namespace Shape

variable (self : Shape)

def rank : Nat := self.length

/-- `dim(-1)`. -/
def lastDim : Outcome Nat := unwrap self.getLast? "Index -1 out of bounds"

/-- The last two dimensions; a vector is a single row. -/
def lastDims : Outcome (Nat × Nat) :=
  match self.reverse with
  | [] => .error (.panic "index out of bounds")
  | [last] => .ok (1, last)
  | last :: secondLast :: _ => .ok (secondLast, last)

def isPowerOfTwo (n : Nat) : Bool := n == nextPowerOfTwo n

def nextPowerOfTwo : Shape := self.map DeepProve.nextPowerOfTwo

def numel : Nat := self.prod

/-- `num_vars`. -/
def numVars : Outcome (List Nat) :=
  if self.all isPowerOfTwo then
    .ok (self.map Nat.log2)
  else
    .error (.panic "assertion failed: self.is_power_of_two()")

/-- The slices of a point, each cut off at the end. -/
def splitSlices {F : Type} (point : List F) : List Nat → List (List F)
  | [] => []
  | vars :: rest =>
    point.drop (point.length - vars) :: splitSlices (point.take (point.length - vars)) rest

/-- `split_point`. -/
def splitPoint {F : Type} (point : List F) : Outcome (List (List F)) := do
  let vars ← self.numVars
  ensure (point.length == vars.sum)
    s!"Point length {point.length} does not match shape number of variables {vars.sum}"
  .ok (splitSlices point vars)

section Evaluation

variable {F : Type} [CommRing F]

/-- One dimension of `broadcasting_evaluation`. -/
def broadcastDim (eval : F) (entry : Nat × Nat × List F) : Outcome F := do
  let (fullDim, unbroadcastDim, point) := entry
  if unbroadcastDim = 1 then
    let last ← usizeSub fullDim 1
    let dimSizeBits ← bitsOf last point.length
    .ok (eval * evalZeroifierMle point dimSizeBits)
  else
    ensure (fullDim == unbroadcastDim)
      s!"Dimension size {fullDim} does not match unbroadcasted dimension size {unbroadcastDim}"
    .ok eval

/-- `broadcasting_evaluation`. -/
def broadcastingEvaluation (dimPoints : List (List F)) (unbroadcastShapeSlice : List Nat) :
    Outcome F := do
  ensure (unbroadcastShapeSlice.length == self.rank)
    s!"Unbroadcast shape slice length {unbroadcastShapeSlice.length} does not match shape rank {self.rank}"
  ensure (dimPoints.length == self.rank)
    s!"Dimension points length {dimPoints.length} does not match shape rank {self.rank}"
  (self.zip (unbroadcastShapeSlice.zip dimPoints)).foldlM broadcastDim 1

/-- One dimension of `compute_eq_point_and_batching_challenges`; `evals` are the evaluations of
    the `eq` polynomial. -/
def batchDim (evals : List F → List F) (dimsToSkip : Nat) (acc : List F × List F)
    (entry : (List F × Nat) × Nat) : List F × List F :=
  let (eqPoints, batchingChallenges) := acc
  let ((dimPoint, dimSize), i) := entry
  if i < dimsToSkip then
    (eqPoints, batchingChallenges.flatMap fun c => ((evals dimPoint).take dimSize).map (c * ·))
  else
    (dimPoint ++ eqPoints, batchingChallenges)

/-- `compute_eq_point_and_batching_challenges`. -/
def computeEqPointAndBatchingChallenges (evals : List F → List F) (point : List F) :
    Outcome (List F × List F) := do
  let paddedShape := self.nextPowerOfTwo
  let totalVars := ceilLog2 paddedShape.numel
  ensure (point.length == totalVars)
    s!"Point length {point.length} does not match total variables {totalVars}"
  let dimPoints ← paddedShape.splitPoint point
  .ok ((dimPoints.zip self).zipIdx.foldl (batchDim evals (self.rank - 2)) ([], [1]))

end Evaluation

end Shape

end DeepProve
