import DeepProve.ForStd.TensorPoly
import DeepProve.Shape

/-!
# Padded tensors

The dimensions of a tensor are filled up with zeros to powers of two, and its entries are the
values of a multilinear polynomial at the vertices. The coordinates of the first dimensions come
last, so a point splits into one for each dimension.
-/

namespace DeepProve

open Multilinear (Fits eqWeight eval_paddedTable ltWeight paddedSize paddedTable tensorEval)

section Points

variable {F : Type} [CommRing F]

/-- The bits of a number as field elements. -/
def bitList (num bitLength : Nat) : List F :=
  (List.range bitLength).map fun i => ((num / 2 ^ i % 2 : Nat) : F)

theorem bitsOf_eq_ok {num bitLength : Nat} (h : bitLength ≤ 64) :
    (bitsOf num bitLength : Outcome (List F)) = .ok (bitList num bitLength) := by
  unfold bitsOf toBitSequenceLe
  rw [if_pos h, Outcome.ok_bind, List.map_map]
  rfl

theorem bitList_succ (num bitLength : Nat) :
    (bitList num (bitLength + 1) : List F) =
      ((num % 2 : Nat) : F) :: bitList (num / 2) bitLength := by
  rw [bitList, List.range_succ_eq_map, List.map_cons, List.map_map, pow_zero, Nat.div_one, bitList]
  congr 1
  apply List.map_congr_left
  intro i _
  rw [Function.comp_apply, Nat.succ_eq_add_one, pow_succ, Nat.mul_comm, ← Nat.div_div_eq_div_mul]

/-- The polynomial of the comparison is one at the vertices up to a number. -/
theorem evalZeroifierMle_bitList (point : List F) (num : Nat) (h : num < 2 ^ point.length) :
    evalZeroifierMle point (bitList num point.length) = ltWeight point (num + 1) := by
  have hfold : ∀ (acc : F) (point : List F) (num : Nat), num < 2 ^ point.length →
      (point.zip (bitList num point.length)).foldl
          (fun acc e => acc * (1 - e.1 - e.2 + 2 * e.1 * e.2) + (1 - e.1) * e.2) acc =
        ltWeight point num + acc * eqWeight point num := by
    intro acc point
    induction point generalizing acc with
    | nil =>
      intro num h
      have hzero : num = 0 := by simpa using h
      simp [hzero, bitList, eqWeight]
    | cons c point ih =>
      intro num h
      rw [List.length_cons, pow_succ] at h
      rw [List.length_cons, bitList_succ, List.zip_cons_cons, List.foldl_cons, ih _ _ (by omega)]
      dsimp only
      -- the lowest bit is a comparison of its own
      obtain ⟨q, hq | hq⟩ := num.even_or_odd'
      · rw [hq, Nat.mul_mod_right, Nat.mul_div_cancel_left q (by decide),
          Multilinear.ltWeight_cons_two_mul, Multilinear.eqWeight_cons_two_mul]
        push_cast
        ring
      · have hmod : (2 * q + 1) % 2 = 1 := by omega
        have hdiv : (2 * q + 1) / 2 = q := by omega
        rw [hq, hmod, hdiv, Multilinear.ltWeight_succ, Multilinear.ltWeight_cons_two_mul,
          Multilinear.eqWeight_cons_two_mul, Multilinear.eqWeight_cons_two_mul_add_one]
        push_cast
        ring
  refine (hfold 1 point num h).trans ?_
  rw [one_mul, Multilinear.ltWeight_succ]

end Points

/-! ## The slices of a point -/

section Slices

/-- The numbers of variables of the dimensions. -/
def Shape.dimVars (self : Shape) : List Nat := self.map ceilLog2

theorem Shape.numVars_nextPowerOfTwo (self : Shape) :
    self.nextPowerOfTwo.numVars = .ok self.dimVars := by
  have hpow : ∀ d : Nat, Shape.isPowerOfTwo (DeepProve.nextPowerOfTwo d) = true := by
    intro d
    rw [Shape.isPowerOfTwo, beq_iff_eq, DeepProve.nextPowerOfTwo, DeepProve.nextPowerOfTwo,
      Nat.clog_pow _ _ (by decide)]
  unfold Shape.numVars Shape.nextPowerOfTwo
  rw [if_pos (by simp [hpow]), List.map_map]
  congr 1
  apply List.map_congr_left
  intro d _
  exact Nat.log2_two_pow

theorem Shape.numel_nextPowerOfTwo (self : Shape) :
    self.nextPowerOfTwo.numel = 2 ^ self.dimVars.sum := by
  unfold Shape.numel Shape.nextPowerOfTwo Shape.dimVars
  induction self with
  | nil => rfl
  | cons d dims ih =>
    rw [List.map_cons, List.prod_cons, ih, List.map_cons, List.sum_cons, pow_add]
    rfl

variable {F : Type}
variable {point : List F}

theorem Shape.splitPoint_eq_ok (self : Shape) (h : point.length = self.dimVars.sum) :
    self.nextPowerOfTwo.splitPoint point = .ok (splitSlices point self.dimVars) := by
  unfold Shape.splitPoint
  rw [self.numVars_nextPowerOfTwo, Outcome.ok_bind, h, beq_self_eq_true]
  rfl

theorem Shape.splitPoint_eq_ok_iff {self : Shape} {slices : List (List F)} :
    self.nextPowerOfTwo.splitPoint point = .ok slices ↔
      point.length = self.dimVars.sum ∧ slices = splitSlices point self.dimVars := by
  unfold Shape.splitPoint
  rw [Shape.numVars_nextPowerOfTwo, Outcome.ok_bind, Outcome.bind_eq_ok]
  simp only [ensure_eq_ok, beq_iff_eq, Except.ok.injEq, exists_and_left, exists_const]
  exact and_congr_right fun _ => eq_comm

/-- The last coordinates belong to the first dimensions. -/
theorem Shape.splitSlices_append {lo hi : List F} {vars : List Nat} (vars' : List Nat)
    (h : hi.length = vars.sum) :
    splitSlices (lo ++ hi) (vars ++ vars') = splitSlices hi vars ++ splitSlices lo vars' := by
  induction vars generalizing hi with
  | nil =>
    rw [List.length_eq_zero_iff.mp h, List.append_nil]
    rfl
  | cons v vars ih =>
    rw [List.sum_cons] at h
    have hsub : (lo ++ hi).length - v = lo.length + (hi.length - v) := by
      rw [List.length_append]
      omega
    have hrest : (hi.take (hi.length - v)).length = vars.sum := by
      rw [List.length_take]
      omega
    rw [List.cons_append, splitSlices, splitSlices, hsub, List.drop_length_add_append,
      List.take_length_add_append,
      ih hrest]
    rfl

variable {lead tail : Shape} {lo hi : List F}

/-- The slices of a point, those of the leading dimensions first. -/
theorem Shape.splitSlices_dimVars (hhi : hi.length = lead.dimVars.sum) :
    splitSlices (lo ++ hi) (Shape.dimVars (lead ++ tail)) =
      splitSlices hi lead.dimVars ++ splitSlices lo tail.dimVars := by
  rw [Shape.dimVars, List.map_append]
  exact splitSlices_append _ hhi

theorem Shape.length_append_eq (hlo : lo.length = tail.dimVars.sum)
    (hhi : hi.length = lead.dimVars.sum) :
    (lo ++ hi).length = (Shape.dimVars (lead ++ tail)).sum := by
  rw [List.length_append, hlo, hhi, Shape.dimVars, Shape.dimVars, Shape.dimVars, List.map_append,
    List.sum_append, Nat.add_comm]

/-- The slices of a point, put together again. -/
theorem Shape.flatten_reverse_splitSlices {vars : List Nat} (h : point.length = vars.sum) :
    (splitSlices point vars).reverse.flatten = point := by
  induction vars generalizing point with
  | nil =>
    rw [List.length_eq_zero_iff.mp h]
    rfl
  | cons v vars ih =>
    rw [List.sum_cons] at h
    have hrest : (point.take (point.length - v)).length = vars.sum := by
      rw [List.length_take]
      omega
    rw [splitSlices, List.reverse_cons, List.flatten_append, ih hrest, List.flatten_singleton,
      List.take_append_drop]

end Slices

/-! ## The chunks of a tensor -/

section Chunks

theorem zip_flatMap_range {α β : Type} {f : Nat → List α} {g : Nat → List β} {n : Nat}
    (h : ∀ j < n, (f j).length = (g j).length) :
    ((List.range n).flatMap f).zip ((List.range n).flatMap g) =
      (List.range n).flatMap fun j => (f j).zip (g j) := by
  induction n with
  | zero => rfl
  | succ n ih =>
    have hlength : ((List.range n).flatMap f).length = ((List.range n).flatMap g).length := by
      rw [List.length_flatMap, List.length_flatMap]
      congr 1
      apply List.map_congr_left
      intro j hj
      exact h j (Nat.lt_succ_of_lt (List.mem_range.mp hj))
    rw [List.range_succ, List.flatMap_append, List.flatMap_append, List.flatMap_append,
      List.zip_append hlength, ih fun j hj => h j (Nat.lt_succ_of_lt hj)]
    simp only [List.flatMap_singleton]

theorem sum_map_flatMap_range {α F : Type} [AddCommMonoid F] (f : Nat → List α) (g : α → F)
    (n : Nat) : (((List.range n).flatMap f).map g).sum =
      ∑ j ∈ Finset.range n, ((f j).map g).sum := by
  induction n with
  | zero => rfl
  | succ n ih =>
    rw [List.range_succ, List.flatMap_append, List.map_append, List.sum_append, ih,
      Finset.sum_range_succ, List.flatMap_singleton]

theorem length_take_drop {α : Type} {xs : List α} {m size j : Nat} (h : xs.length = m * size)
    (hj : j < m) : ((xs.drop (j * size)).take size).length = size := by
  have hle : (j + 1) * size ≤ m * size := Nat.mul_le_mul_right _ hj
  rw [Nat.succ_mul] at hle
  rw [List.length_take, List.length_drop, h]
  omega

/-- Chunks of chunks. -/
theorem pieces_mul {α : Type} {xs : List α} {m n size : Nat} (hsize : 0 < size)
    (h : xs.length = m * (n * size)) :
    pieces xs size = (List.range m).flatMap fun j =>
      pieces ((xs.drop (j * (n * size))).take (n * size)) size := by
  rcases Nat.eq_zero_or_pos n with rfl | hn
  · rw [Nat.zero_mul, Nat.mul_zero] at h
    simp [List.length_eq_zero_iff.mp h]
  · have hflat := flatten_pieces (Nat.mul_pos hn hsize) h
    rw [pieces_of_length (Nat.mul_pos hn hsize) h, ← List.flatMap_def] at hflat
    conv => lhs; rw [← hflat]
    exact pieces_flatMap_of_length hsize fun j hj => length_take_drop h (List.mem_range.mp hj)

end Chunks

/-! ## The padded tensor -/

section Padded

/-- The entry of a tensor whose dimensions are filled up with zeros to powers of two. -/
def paddedEntry : Shape → List Int → Nat → Int
  | [], data, _ => data.getD 0 0
  | d :: dims, data, i =>
    let size := (Shape.nextPowerOfTwo dims).numel
    if i / size < d then
      paddedEntry dims ((data.drop (i / size * dims.prod)).take dims.prod) (i % size)
    else
      0

theorem paddedEntry_vector {d : Nat} {data : List Int} (i : Nat) :
    paddedEntry [d] data i = if i < d then data.getD i 0 else 0 := by
  have hone : (Shape.nextPowerOfTwo ([] : Shape)).numel = 1 := rfl
  rw [paddedEntry, hone, Nat.div_one]
  split
  · simp [paddedEntry]
  · rfl

variable {F : Type} [CommRing F]

/-- The weights of the sub tensors, for the points and the sizes of the leading dimensions. -/
def leadWeights : List (List F × Nat) → List F
  | [] => [1]
  | (point, d) :: dims =>
    (List.range d).flatMap fun j => (leadWeights dims).map (eqWeight point j * ·)

/-- The points and the sizes of dimensions. -/
def dimEntries (dims : Shape) (point : List F) : List (List F × Nat) :=
  (Shape.splitSlices point dims.dimVars).zip dims

omit [CommRing F] in
theorem dimEntries_cons (d : Nat) (dims : Shape) (point : List F) :
    dimEntries (d :: dims) point = (point.drop (point.length - ceilLog2 d), d) ::
      dimEntries dims (point.take (point.length - ceilLog2 d)) := rfl

theorem length_leadWeights (lead : Shape) (point : List F) :
    (leadWeights (dimEntries lead point)).length = lead.prod := by
  induction lead generalizing point with
  | nil => rfl
  | cons d lead ih =>
    rw [dimEntries_cons, leadWeights, List.length_flatMap]
    simp [ih]

omit [CommRing F] in
/-- The first and the last coordinates of a point. -/
theorem splits_of_length {point : List F} {v n : Nat} (h : point.length = v + n) :
    (point.take (point.length - v)).length = n ∧ (point.drop (point.length - v)).length = v := by
  rw [List.length_take, List.length_drop]
  omega

/-- The entry at an index, in row-major order. -/
def entryAt : Shape → List F → List Nat → F
  | [], data, _ => data.getD 0 0
  | _ :: _, _, [] => 0
  | _ :: dims, data, i :: index => entryAt dims ((data.drop (i * dims.prod)).take dims.prod) index

theorem cast_paddedEntry (shape : Shape) (data : List Int) (i : Nat) :
    ((paddedEntry shape data i : Int) : F) =
      paddedTable shape (entryAt shape (data.map Int.cast)) i := by
  induction shape generalizing data i with
  | nil => cases data <;> simp [paddedEntry, paddedTable, entryAt]
  | cons d dims ih =>
    have hsize : (Shape.nextPowerOfTwo dims).numel = paddedSize dims := rfl
    rw [paddedEntry, paddedTable, hsize]
    split
    · rw [ih, List.map_take, List.map_drop]
      rfl
    · exact Int.cast_zero

omit [CommRing F] in
theorem fits_splitSlices {dims : Shape} {point : List F} (h : point.length = dims.dimVars.sum) :
    Fits dims (Shape.splitSlices point dims.dimVars) := by
  induction dims generalizing point with
  | nil => rfl
  | cons d dims ih =>
    have hvars : Shape.dimVars (d :: dims) = ceilLog2 d :: Shape.dimVars dims := rfl
    rw [hvars, List.sum_cons] at h
    obtain ⟨htake, hdrop⟩ := splits_of_length h
    exact congrArg₂ List.cons hdrop (ih htake)

theorem eval_paddedTable_eq {dims : Shape} {point : List F} (h : point.length = dims.dimVars.sum)
    (tensor : List Nat → F) : Multilinear.eval (paddedTable dims tensor) point =
      tensorEval dims tensor (Shape.splitSlices point dims.dimVars) := by
  rw [← eval_paddedTable (fits_splitSlices h), Shape.flatten_reverse_splitSlices h]

/-- The value of the padded tensor, from those of its padded sub tensors. -/
theorem eval_paddedTable_append {lead tail : Shape} {data : List F} {lo hi : List F}
    (hlo : lo.length = tail.dimVars.sum) (hhi : hi.length = lead.dimVars.sum)
    (htail : 0 < tail.prod) (hdata : data.length = lead.prod * tail.prod) :
    Multilinear.eval (paddedTable (lead ++ tail) (entryAt (lead ++ tail) data)) (lo ++ hi) =
      (((leadWeights (dimEntries lead hi)).zip (pieces data tail.prod)).map fun (weight, chunk) =>
        weight * Multilinear.eval (paddedTable tail (entryAt tail chunk)) lo).sum := by
  rw [eval_paddedTable_eq (Shape.length_append_eq hlo hhi), Shape.splitSlices_dimVars hhi]
  simp only [eval_paddedTable_eq hlo]
  induction lead generalizing data hi with
  | nil =>
    rw [List.prod_nil, Nat.one_mul] at hdata
    have hpiece : pieces data tail.prod = [data] := by
      have happend : pieces (data ++ []) tail.prod = data :: pieces [] tail.prod :=
        pieces_append htail hdata
      rwa [List.append_nil, pieces_nil] at happend
    rw [hpiece]
    simp [dimEntries, Shape.splitSlices, Shape.dimVars, leadWeights]
  | cons d lead ih =>
    have hdims : Shape.dimVars (d :: lead) = ceilLog2 d :: Shape.dimVars lead := rfl
    rw [hdims, List.sum_cons] at hhi
    obtain ⟨htake, -⟩ := splits_of_length hhi
    rw [List.prod_cons, Nat.mul_assoc] at hdata
    rw [dimEntries_cons, leadWeights, pieces_mul htail hdata, zip_flatMap_range,
      sum_map_flatMap_range, hdims, Shape.splitSlices, List.cons_append, List.cons_append,
      tensorEval]
    · apply Finset.sum_congr rfl
      intro j hj
      have hslice := length_take_drop hdata (Finset.mem_range.mp hj)
      simp only [entryAt, List.prod_append, ih htake hslice]
      rw [List.zip_map_left, List.map_map, ← List.sum_map_mul_left]
      congr 1
      apply List.map_congr_left
      intro pair _
      exact (mul_assoc _ _ _).symm
    · intro j hj
      rw [List.length_map, length_leadWeights, pieces_of_length htail (length_take_drop hdata hj), List.length_map,
        List.length_range]

theorem eval_paddedEntry {lead tail : Shape} {data : List Int} {lo hi : List F}
    (hlo : lo.length = tail.dimVars.sum) (hhi : hi.length = lead.dimVars.sum)
    (htail : 0 < tail.prod) (hdata : data.length = lead.prod * tail.prod) :
    Multilinear.eval (fun i => ((paddedEntry (lead ++ tail) data i : Int) : F)) (lo ++ hi) =
      (((leadWeights (dimEntries lead hi)).zip (pieces data tail.prod)).map fun (weight, chunk) =>
        weight * Multilinear.eval (fun i => ((paddedEntry tail chunk i : Int) : F)) lo).sum := by
  simp only [cast_paddedEntry]
  have hmap := eval_paddedTable_append hlo hhi htail
    ((List.length_map (Int.cast : Int → F)).trans hdata)
  rw [hmap, pieces_map, List.zip_map_right, List.map_map]
  rfl

end Padded

end DeepProve
