import DeepProve.ForStd.MixedRadix
import DeepProve.Tensor
import DeepProve.Vec

/-!
# Padding a tensor in place

`tensor/mod.rs`: `pad_to_shape_with_value` first makes the data as long as the target needs, and then
moves the blocks of entries that stay together to their new places, beginning with the last one. A
counter for each of the dimensions before the blocks tells how far the next block is moved.
-/

namespace DeepProve

open List (cells)
open MixedRadix

/-- `strides`. -/
def Shape.strides : Shape → List Nat
  | [] => []
  | _ :: dims => dims.prod :: Shape.strides dims

/-- `checked_sub`. -/
def checkedSub (a b : Nat) : Option Nat := if b ≤ a then some (a - b) else none

/-! ## The loop over the blocks -/

/-- The variables of the loop. -/
structure CopyState (α : Type) where
  data : List α
  counters : List Nat
  dest : Nat
  endPos : Nat

section Copy

variable {α : Type} (shape : Shape) (padding : List Nat)

/-- The counter of a dimension is counted down, and the destination moved by its padding. -/
def countDown (dim : Nat) (counters : List Nat) (dest : Nat) : Outcome (Nat × List Nat × Nat) := do
  let gap ← Vec.get padding dim
  let dest ← usizeSub dest gap
  let counter ← Vec.get counters dim
  let counter ← usizeSub counter 1
  let counters ← Vec.set counters dim counter
  .ok (counter, counters, dest)

/-- `counters[dim] = self.shape[dim]`. -/
def restart (dim : Nat) (counters : List Nat) : Outcome (List Nat) := do
  let size ← Vec.get shape dim
  Vec.set counters dim size

/-- The inner loop: the dimension before is counted down when a counter is at zero. -/
def nextChunk : Nat → List Nat → Nat → Outcome (List Nat × Nat)
  | 0, counters, dest => do
    let (counter, counters, dest) ← countDown padding 0 counters dest
    if counter = 0 then do
      let _ ← restart shape 0 counters
      .error (.panic "attempt to subtract with overflow")
    else
      .ok (counters, dest)
  | dim + 1, counters, dest => do
    let (counter, counters, dest) ← countDown padding (dim + 1) counters dest
    if counter = 0 then do
      let counters ← restart shape (dim + 1) counters
      nextChunk dim counters dest
    else
      .ok (counters, dest)

/-- The body of the loop. -/
def copyChunk (value : α) (chunk : Nat) (s : CopyState α) : Outcome (CopyState α) := do
  let startPos ← usizeSub s.endPos chunk
  let dest ← usizeSub s.dest chunk
  let data ← Vec.copyWithin s.data startPos s.endPos dest
  let data ← Vec.fill data startPos (min s.endPos dest) value
  let dim ← usizeSub s.counters.length 1
  let (counters, dest) ← nextChunk shape padding dim s.counters dest
  .ok ⟨data, counters, dest, startPos⟩

/-- `while copies > 0`. -/
def copyChunks (value : α) (chunk : Nat) : Nat → CopyState α → Outcome (CopyState α)
  | 0, s => .ok s
  | copies + 1, s => do
    let s ← copyChunk shape padding value chunk s
    copyChunks value chunk copies s

end Copy

/-- `pad_to_shape_with_value`. -/
def Tensor.padToShapeWithValue {α : Type} (self : Tensor α) (targetShape : Shape) (value : α) :
    Outcome (Tensor α) := do
  ensure (targetShape.rank == self.shape.rank)
    s!"Target shape must have the same rank as the current tensor. current {self.shape} target {targetShape}"
  if self.shape = targetShape then
    .ok self
  else do
    let distance ← okOr
      ((self.shape.zip targetShape).mapM fun (original, new) => checkedSub new original)
      "All dimensions of target shape must be greater-than-or-equal to the current tensor"
    assertThat (distance.any (· != 0)) "At least one dimensions must grow"
    let data := Vec.resize self.data targetShape.prod value
    let equal := (distance.reverse.takeWhile (· == 0)).length
    let different := distance.length - equal
    assertThat (equal != targetShape.length) "At least one dimensions must grown"
    let strides := targetShape.strides
    assertThat (strides.drop different == self.shape.strides.drop different)
      "The lower strides must be equal"
    let padding := (List.zipWith (· * ·) distance strides).take different
    let padding ← if padding.isEmpty then .error (.panic "removal index should be < len")
      else .ok (padding.drop 1)
    let chunk := (self.shape.reverse.take (equal + 1)).prod
    let outer ← usizeSub different 1
    assertThat (decide (outer < self.shape.length)) "rank must not increase"
    let counters := Vec.resize self.shape outer 0
    let copies ← usizeSub counters.prod 1
    let dest ← usizeSub targetShape.prod (List.zipWith (· * ·) distance strides).sum
    let s ← copyChunks self.shape padding value chunk copies ⟨data, counters, dest, self.shape.prod⟩
    .ok { self with data := s.data, shape := targetShape }

/-! ## Where the blocks go -/

section Blocks

variable (s t : Nat → Nat) (R q : Nat)

/-- The entries that stay together: those of the last dimensions. -/
abbrev chunkSize : Nat := place s R q

/-- Where a block goes. -/
def chunkDest (c : Nat) : Nat := ∑ i ∈ Finset.range q, digit s q c i * place t R (i + 1)

/-- The gap after the blocks of a dimension. -/
def gapAfter (i : Nat) : Nat := (t (i + 1) - s (i + 1)) * place t R (i + 1 + 1)

/-- The target is not smaller than the shape, and from dimension `q + 1` on they are the same. -/
structure Grows : Prop where
  lt : q < R
  pos : ∀ i < R, 0 < s i
  le : ∀ i < R, s i ≤ t i
  eq : ∀ i, q < i → i < R → s i = t i

variable {s t R q}

namespace Grows

variable (h : Grows s t R q)

include h

theorem target_pos : ∀ i < R, 0 < t i := fun i hi => (h.pos i hi).trans_le (h.le i hi)

theorem outer_pos : ∀ i < q, 0 < s i := fun i hi => h.pos i (hi.trans h.lt)

/-- Behind the dimensions that grow the places are the same. -/
theorem place_eq {m : Nat} (hm : q < m) : place s R m = place t R m :=
  place_congr fun j hj hjR => h.eq j (by omega) hjR

theorem chunkSize_eq : chunkSize s R q = s q * place t R (q + 1) := by
  rw [chunkSize, place_eq_mul h.lt, h.place_eq (Nat.lt_succ_self q)]

theorem chunkSize_pos : 0 < chunkSize s R q := place_pos h.pos q

/-- The place of a dimension is its block and the gap after it. -/
theorem place_eq_gapAfter {i : Nat} (hi : i + 1 < R) :
    place t R (i + 1) = s (i + 1) * place t R (i + 1 + 1) + gapAfter s t R i := by
  have hsplit : t (i + 1) = s (i + 1) + (t (i + 1) - s (i + 1)) := by
    have := h.le (i + 1) hi
    omega
  rw [place_eq_mul hi, gapAfter]
  conv_lhs => rw [hsplit]
  ring

/-- The places of the target are not smaller. -/
theorem place_le (m : Nat) : place s R m ≤ place t R m := by
  apply Finset.prod_le_prod'
  intro j hj
  exact h.le j (Finset.mem_Ico.mp hj).2

/-- A position in the shape, as one of the block and one in the block. -/
theorem value_digit {c o : Nat} (ho : o < chunkSize s R q) :
    value t R (digit s R (c * chunkSize s R q + o)) = chunkDest s t R q c + o := by
  have hpos := h.chunkSize_pos
  rw [value, Finset.range_eq_Ico, ← Finset.sum_Ico_consecutive _ (Nat.zero_le q) h.lt.le,
    ← Finset.range_eq_Ico, chunkDest]
  congr 1
  · -- the first coordinates are those of the block
    apply Finset.sum_congr rfl
    intro i hi
    have hi := Finset.mem_range.mp hi
    rw [digit, digit, ← place_mul_place hi h.lt.le, Nat.mul_comm (place s q _),
      ← Nat.div_div_eq_div_mul, Nat.mul_comm c, Nat.mul_add_div hpos, Nat.div_eq_of_lt ho,
      Nat.add_zero]
  · -- the last ones have the same places in the target
    have hplaces : ∀ i ∈ Finset.Ico q R,
        digit s R (c * chunkSize s R q + o) i * place t R (i + 1) =
          digit s R (c * chunkSize s R q + o) i * place s R (i + 1) := by
      intro i hi
      rw [h.place_eq (Nat.lt_succ_of_le (Finset.mem_Ico.mp hi).1)]
    rw [Finset.sum_congr rfl hplaces, sum_digit_Ico _ h.lt.le, Nat.mul_comm c, Nat.mul_add_mod,
      Nat.mod_eq_of_lt ho]

/-- A block is in the target. -/
theorem chunkDest_add_le {c : Nat} :
    chunkDest s t R q c + chunkSize s R q ≤ place t R 0 := by
  have hpos := h.chunkSize_pos
  have hlast := h.value_digit (c := c) (o := chunkSize s R q - 1) (by omega)
  have hlt := value_lt (b := t) (q := R) (x := digit s R (c * chunkSize s R q + (chunkSize s R q - 1)))
    fun i hi => (digit_lt h.pos _ hi).trans_le (h.le i hi)
  omega

/-- No block is moved to the front. -/
theorem le_chunkDest {c : Nat} (hc : c < place s q 0) : c * chunkSize s R q ≤ chunkDest s t R q c := by
  conv_lhs => rw [← sum_digit hc]
  rw [value, Finset.sum_mul, chunkDest]
  apply Finset.sum_le_sum
  intro i hi
  rw [Nat.mul_assoc, place_mul_place (Finset.mem_range.mp hi) h.lt.le]
  exact Nat.mul_le_mul_left _ (h.place_le _)

/-- A block that is not the first one of a dimension goes at least a place of it further. -/
theorem place_le_sum {c m : Nat} (hm : m < q) (hdvd : place s q (m + 1) ∣ c + 1)
    (hc : c + 1 < place s q 0) :
    place t R (m + 1) ≤ ∑ i ∈ Finset.range (m + 1), digit s q (c + 1) i * place t R (i + 1) := by
  -- some coordinate is not zero, as the position is not
  have hne : ∃ i ∈ Finset.range (m + 1), digit s q (c + 1) i ≠ 0 := by
    by_contra hall
    push Not at hall
    have hsum := sum_digit hc
    rw [value, Finset.range_eq_Ico, ← Finset.sum_Ico_consecutive _ (Nat.zero_le (m + 1)) hm,
      sum_digit_Ico _ hm, Nat.mod_eq_zero_of_dvd hdvd, ← Finset.range_eq_Ico] at hsum
    have hzero : ∑ i ∈ Finset.range (m + 1), digit s q (c + 1) i * place s q (i + 1) = 0 := by
      apply Finset.sum_eq_zero
      intro i hi
      rw [hall i hi, Nat.zero_mul]
    omega
  obtain ⟨i, hi, hdigit⟩ := hne
  have hle := Finset.single_le_sum (f := fun i => digit s q (c + 1) i * place t R (i + 1))
    (fun _ _ => Nat.zero_le _) hi
  have hplaces : place t R (m + 1) ≤ place t R (i + 1) :=
    Nat.le_of_dvd (place_pos h.target_pos _) (place_dvd (Finset.mem_range.mp hi))
  calc place t R (m + 1) ≤ place t R (i + 1) := hplaces
    _ ≤ digit s q (c + 1) i * place t R (i + 1) :=
        Nat.le_mul_of_pos_left _ (Nat.pos_of_ne_zero hdigit)
    _ ≤ _ := hle

/-- The gaps of all dimensions and the last block make up the target. -/
theorem sum_gaps_add_chunkDest :
    ∑ i ∈ Finset.range R, (t i - s i) * place t R (i + 1) +
      (chunkDest s t R q (place s q 0 - 1) + chunkSize s R q) = place t R 0 := by
  have hlt := h.lt
  have hcount : place s q 0 - 1 + 1 = place s q 0 := Nat.sub_add_cancel (place_pos h.outer_pos 0)
  have hlast : ∀ i ∈ Finset.range q, digit s q (place s q 0 - 1) i * place t R (i + 1) =
      (s i - 1) * place t R (i + 1) := by
    intro i hi
    have hdvd : place s q 0 ∣ place s q 0 - 1 + 1 := by rw [hcount]
    rw [(digit_succ_of_dvd hdvd h.outer_pos (Nat.zero_le i) (Finset.mem_range.mp hi)).2]
  -- a dimension takes one place of it less than it has
  have hplaces : ∀ m ≤ q, ∑ i ∈ Finset.Ico m q, (t i - 1) * place t R (i + 1) +
      t q * place t R (q + 1) = place t R m := by
    intro m hm
    induction hm using Nat.decreasingInduction with
    | self => rw [Finset.Ico_self, Finset.sum_empty, Nat.zero_add, place_eq_mul hlt]
    | of_succ m hm ih =>
      have hpos := h.target_pos m (by omega)
      obtain ⟨d, hd⟩ := Nat.exists_eq_add_of_le' hpos
      rw [Finset.sum_eq_sum_Ico_succ_bot hm, Nat.add_assoc, ih, place_eq_mul (show m < R by omega), hd,
        Nat.add_sub_cancel, Nat.add_mul, Nat.one_mul]
  have hequal : ∑ i ∈ Finset.Ico (q + 1) R, (t i - s i) * place t R (i + 1) = 0 := by
    apply Finset.sum_eq_zero
    intro i hi
    obtain ⟨hqi, hiR⟩ := Finset.mem_Ico.mp hi
    rw [h.eq i hqi hiR, Nat.sub_self, Nat.zero_mul]
  have hinner : (t q - s q) * place t R (q + 1) + s q * place t R (q + 1) = t q * place t R (q + 1) := by
    rw [← Nat.add_mul, Nat.sub_add_cancel (h.le q hlt)]
  have houter : ∑ i ∈ Finset.range q, (t i - s i) * place t R (i + 1) +
      ∑ i ∈ Finset.range q, (s i - 1) * place t R (i + 1) =
        ∑ i ∈ Finset.range q, (t i - 1) * place t R (i + 1) := by
    rw [← Finset.sum_add_distrib]
    apply Finset.sum_congr rfl
    intro i hi
    have hi := Finset.mem_range.mp hi
    have hpos := h.outer_pos i hi
    have hle := h.le i (by omega)
    rw [← Nat.add_mul]
    congr 1
    omega
  have htotal := hplaces 0 (Nat.zero_le q)
  rw [← Finset.range_eq_Ico] at htotal
  rw [chunkDest, Finset.sum_congr rfl hlast, h.chunkSize_eq, Finset.range_eq_Ico,
    ← Finset.sum_Ico_consecutive _ (Nat.zero_le (q + 1)) hlt, hequal, Nat.add_zero,
    ← Finset.range_eq_Ico, Finset.sum_range_succ]
  omega

end Grows

/-! ## The way to the block before -/

/-- Where the loop over the dimensions stands: those from `m + 1` on are done, and so much is left
    of the way to the block before. -/
structure Pending (s t : Nat → Nat) (R q c m dest : Nat) : Prop where
  lt : m < q
  dvd : place s q (m + 1) ∣ c + 1
  bound : c + 1 < place s q 0
  dest : dest + s (m + 1) * place t R (m + 1 + 1) =
    ∑ i ∈ Finset.range (m + 1), digit s q (c + 1) i * place t R (i + 1) +
      (∑ i ∈ Finset.Ico (m + 1) q, digit s q c i * place t R (i + 1) + chunkSize s R q)

/-- The counters there. -/
def pendingCounters (s : Nat → Nat) (q c m : Nat) : List Nat :=
  cells q fun i => if i ≤ m then digit s q (c + 1) i + 1 else digit s q c i + 1

namespace Pending

variable {c m dest : Nat} (h : Grows s t R q) (p : Pending s t R q c m dest)

include h p

/-- The next gap can be taken off. -/
theorem gap_le : gapAfter s t R m ≤ dest := by
  have hlt := p.lt
  have hR := h.lt
  have hplace := h.place_eq_gapAfter (i := m) (by omega)
  have hsum := h.place_le_sum p.lt p.dvd p.bound
  have hdest := p.dest
  omega

/-- The last coordinate that counts on is reached. -/
theorem dest_eq (hnot : ¬ place s q m ∣ c + 1) :
    dest - gapAfter s t R m = chunkDest s t R q c + chunkSize s R q := by
  have hlt := p.lt
  have hR := h.lt
  have hplace := h.place_eq_gapAfter (i := m) (by omega)
  have hdest := p.dest
  have hbefore : ∑ i ∈ Finset.range m, digit s q (c + 1) i * place t R (i + 1) =
      ∑ i ∈ Finset.range m, digit s q c i * place t R (i + 1) := by
    apply Finset.sum_congr rfl
    intro i hi
    rw [digit_succ_of_lt hnot (Finset.mem_range.mp hi)]
  have hsplit : chunkDest s t R q c = ∑ i ∈ Finset.range m, digit s q c i * place t R (i + 1) +
      digit s q c m * place t R (m + 1) +
      ∑ i ∈ Finset.Ico (m + 1) q, digit s q c i * place t R (i + 1) := by
    rw [chunkDest, Finset.range_eq_Ico, ← Finset.sum_Ico_consecutive _ (Nat.zero_le (m + 1)) hlt,
      ← Finset.range_eq_Ico, Finset.sum_range_succ]
  rw [Finset.sum_range_succ, hbefore, digit_succ p.dvd hnot hlt h.outer_pos, Nat.add_mul,
    Nat.one_mul] at hdest
  omega

/-- Otherwise the coordinate starts again, and the one before is next. -/
theorem carry {k : Nat} (hk : m = k + 1) (hdvd : place s q m ∣ c + 1) :
    Pending s t R q c k (dest - gapAfter s t R m) := by
  have hlt := p.lt
  have hR := h.lt
  have hplace := h.place_eq_gapAfter (i := m) (by omega)
  have hgap := gap_le h p
  have hdest := p.dest
  obtain ⟨hzero, hlast⟩ := digit_succ_of_dvd hdvd h.outer_pos (Nat.le_refl m) hlt
  have hpos := h.outer_pos m hlt
  have hone : s m * place t R (m + 1) = (s m - 1) * place t R (m + 1) + place t R (m + 1) := by
    obtain ⟨d, hd⟩ := Nat.exists_eq_add_of_le' hpos
    rw [hd, Nat.add_sub_cancel, Nat.add_mul, Nat.one_mul]
  refine ⟨by omega, by rwa [← hk], p.bound, ?_⟩
  rw [Finset.sum_range_succ, hzero, Nat.zero_mul, Nat.add_zero] at hdest
  rw [← hk, Finset.sum_eq_sum_Ico_succ_bot hlt, hlast, hone]
  omega

/-- The counter of the dimension is counted down. -/
theorem countDown_eq :
    countDown (cells q (gapAfter s t R)) m (pendingCounters s q c m) dest =
      .ok (digit s q (c + 1) m,
        cells q (Function.update (fun i => if i ≤ m then digit s q (c + 1) i + 1
          else digit s q c i + 1) m (digit s q (c + 1) m)), dest - gapAfter s t R m) := by
  have hdest : usizeSub dest (gapAfter s t R m) = .ok (dest - gapAfter s t R m) :=
    usizeSub_eq_ok.mpr ⟨gap_le h p, rfl⟩
  have hsub : usizeSub (digit s q (c + 1) m + 1) 1 = .ok (digit s q (c + 1) m) :=
    usizeSub_eq_ok.mpr ⟨Nat.succ_pos _, rfl⟩
  rw [countDown, Vec.get_cells p.lt, Outcome.ok_bind, hdest, Outcome.ok_bind, pendingCounters,
    Vec.get_cells p.lt, Outcome.ok_bind, if_pos (Nat.le_refl m), hsub, Outcome.ok_bind,
    Vec.set_cells p.lt, Outcome.ok_bind]

/-- The coordinate counts on. -/
theorem nextChunk_break (hnot : ¬ place s q m ∣ c + 1) :
    nextChunk (cells R s) (cells q (gapAfter s t R)) m (pendingCounters s q c m) dest =
      .ok (cells q fun i => digit s q c i + 1, dest - gapAfter s t R m) := by
  have hcounter : digit s q (c + 1) m ≠ 0 :=
    mt (dvd_iff_digit_eq_zero p.dvd p.lt h.outer_pos).mpr hnot
  have hcounters : cells q (Function.update
      (fun i => if i ≤ m then digit s q (c + 1) i + 1 else digit s q c i + 1) m
        (digit s q (c + 1) m)) = cells q fun i => digit s q c i + 1 := by
    apply List.cells_congr
    intro i _
    by_cases hi : i = m
    · subst hi
      rw [Function.update_self, digit_succ p.dvd hnot p.lt h.outer_pos]
    · rw [Function.update_of_ne hi]
      by_cases hle : i ≤ m
      · rw [if_pos hle, digit_succ_of_lt hnot (by omega)]
      · rw [if_neg hle]
  cases m with
  | zero =>
    rw [nextChunk, countDown_eq h p, Outcome.ok_bind]
    dsimp only
    rw [if_neg hcounter, hcounters]
  | succ m =>
    rw [nextChunk, countDown_eq h p, Outcome.ok_bind]
    dsimp only
    rw [if_neg hcounter, hcounters]

/-- The coordinate starts again. -/
theorem nextChunk_carry {k : Nat} (hk : m = k + 1) (hdvd : place s q m ∣ c + 1) :
    nextChunk (cells R s) (cells q (gapAfter s t R)) m (pendingCounters s q c m) dest =
      nextChunk (cells R s) (cells q (gapAfter s t R)) k (pendingCounters s q c k)
        (dest - gapAfter s t R m) := by
  have hlt := p.lt
  have hR := h.lt
  obtain ⟨hzero, hlast⟩ := digit_succ_of_dvd hdvd h.outer_pos (Nat.le_refl m) hlt
  have hpos := h.outer_pos m hlt
  have hcounters : cells q (Function.update (Function.update
      (fun i => if i ≤ m then digit s q (c + 1) i + 1 else digit s q c i + 1) m 0) m (s m)) =
        pendingCounters s q c k := by
    apply List.cells_congr
    intro i _
    by_cases hi : i = m
    · subst hi
      rw [Function.update_self, if_neg (by omega), hlast]
      omega
    · have hle : i ≤ m ↔ i ≤ k := by omega
      rw [Function.update_of_ne hi, Function.update_of_ne hi]
      simp only [hle]
  have hdown := countDown_eq h p
  subst hk
  rw [nextChunk, hdown, hzero, Outcome.ok_bind]
  dsimp only
  rw [if_pos rfl, restart, Vec.get_cells (by omega), Outcome.ok_bind, Vec.set_cells hlt, hcounters,
    Outcome.ok_bind]

end Pending

/-- The inner loop leads to the block before. -/
theorem nextChunk_cells (h : Grows s t R q) {c m dest : Nat} (p : Pending s t R q c m dest) :
    nextChunk (cells R s) (cells q (gapAfter s t R)) m (pendingCounters s q c m) dest =
        .ok (cells q fun i => digit s q c i + 1, chunkDest s t R q c + chunkSize s R q) ∧
      chunkDest s t R q c + chunkSize s R q ≤ dest := by
  induction m generalizing dest with
  | zero =>
    -- the first coordinate always counts on
    have hnot : ¬ place s q 0 ∣ c + 1 := fun hdvd =>
      absurd (Nat.le_of_dvd (Nat.succ_pos c) hdvd) (not_le.mpr p.bound)
    have hdest := Pending.dest_eq h p hnot
    rw [Pending.nextChunk_break h p hnot, hdest]
    exact ⟨rfl, hdest.symm.le.trans (Nat.sub_le _ _)⟩
  | succ m ih =>
    by_cases hdvd : place s q (m + 1) ∣ c + 1
    · rw [Pending.nextChunk_carry h p rfl hdvd]
      obtain ⟨hnext, hle⟩ := ih (Pending.carry h p rfl hdvd)
      exact ⟨hnext, hle.trans (Nat.sub_le _ _)⟩
    · have hdest := Pending.dest_eq h p hdvd
      rw [Pending.nextChunk_break h p hdvd, hdest]
      exact ⟨rfl, hdest.symm.le.trans (Nat.sub_le _ _)⟩

/-- The loop over the dimensions begins with the last one. -/
theorem pending_last (h : Grows s t R q) {c m : Nat} (hm : q = m + 1) (hc : c + 1 < place s q 0) :
    Pending s t R q c m (chunkDest s t R q (c + 1)) := by
  refine ⟨by omega, ?_, hc, ?_⟩
  · rw [← hm, place_self]
    exact one_dvd _
  · rw [← hm, Finset.Ico_self, Finset.sum_empty, Nat.zero_add, h.chunkSize_eq]
    rfl

theorem exists_eq_succ_of_lt {c : Nat} (hc : c + 1 < place s q 0) : ∃ m, q = m + 1 := by
  apply Nat.exists_eq_succ_of_ne_zero
  rintro rfl
  rw [place_self] at hc
  omega

/-- The blocks do not overlap. -/
theorem Grows.chunkDest_lt (h : Grows s t R q) {c c' : Nat} (hlt : c < c') (hc' : c' < place s q 0) :
    chunkDest s t R q c + chunkSize s R q ≤ chunkDest s t R q c' := by
  have hstep : ∀ c, c + 1 < place s q 0 →
      chunkDest s t R q c + chunkSize s R q ≤ chunkDest s t R q (c + 1) := by
    intro c hc
    obtain ⟨m, hm⟩ := exists_eq_succ_of_lt hc
    exact (nextChunk_cells h (pending_last h hm hc)).2
  induction hlt with
  | refl => exact hstep c hc'
  | @step b hlt ih =>
    show _ ≤ chunkDest s t R q (b + 1)
    have hih := ih (Nat.lt_of_succ_lt hc')
    have hnext := hstep b hc'
    omega

end Blocks

/-! ## The loop over the blocks -/

section Loop

variable {α : Type} {s t : Nat → Nat} {R q : Nat}

/-- The blocks behind block `c` are moved, and the rest behind it is filled. -/
structure Moved (s t : Nat → Nat) (R q : Nat) (orig : Nat → α) (value : α) (c : Nat) (f : Nat → α) :
    Prop where
  front : ∀ p < (c + 1) * chunkSize s R q, f p = orig p
  moved : ∀ b, c < b → b < place s q 0 → ∀ o < chunkSize s R q,
    f (chunkDest s t R q b + o) = orig (b * chunkSize s R q + o)
  filled : ∀ p, (c + 1) * chunkSize s R q ≤ p → p < place t R 0 →
    (∀ b, c < b → b < place s q 0 → ∀ o < chunkSize s R q, p ≠ chunkDest s t R q b + o) → f p = value

/-- The variables of the loop before block `c` is moved. -/
def copyState (s t : Nat → Nat) (R q : Nat) (f : Nat → α) (c : Nat) : CopyState α where
  data := cells (place t R 0) f
  counters := cells q fun i => digit s q c i + 1
  dest := chunkDest s t R q c + chunkSize s R q
  endPos := (c + 1) * chunkSize s R q

/-- What moving a block makes of the entries. -/
def moveBlock (s t : Nat → Nat) (R q : Nat) (value : α) (f : Nat → α) (c : Nat) (p : Nat) : α :=
  if c * chunkSize s R q ≤ p ∧ p < min ((c + 1) * chunkSize s R q) (chunkDest s t R q c) then
    value
  else if chunkDest s t R q c ≤ p ∧ p < chunkDest s t R q c + chunkSize s R q then
    f (c * chunkSize s R q + (p - chunkDest s t R q c))
  else
    f p

/-- One block is moved. -/
theorem copyChunk_eq (h : Grows s t R q) (value : α) (f : Nat → α) {c : Nat}
    (hc : c + 1 < place s q 0) :
    copyChunk (cells R s) (cells q (gapAfter s t R)) value (chunkSize s R q)
        (copyState s t R q f (c + 1)) =
      .ok (copyState s t R q (moveBlock s t R q value f (c + 1)) c) := by
  obtain ⟨m, hm⟩ := exists_eq_succ_of_lt hc
  have hstart : (c + 1 + 1) * chunkSize s R q = (c + 1) * chunkSize s R q + chunkSize s R q :=
    Nat.succ_mul _ _
  have hle := h.le_chunkDest hc
  have hbound := h.chunkDest_add_le (c := c + 1)
  have hpos := h.chunkSize_pos
  have hcounters : cells q (fun i => digit s q (c + 1) i + 1) = pendingCounters s q c m := by
    apply List.cells_congr
    intro i hi
    rw [if_pos (by omega)]
  have hnext := (nextChunk_cells h (pending_last h hm hc)).1
  have hsize : (c + 1) * chunkSize s R q + chunkSize s R q - (c + 1) * chunkSize s R q =
    chunkSize s R q := Nat.add_sub_cancel_left _ _
  have hcopy := Vec.copyWithin_cells (f := f) (n := place t R 0)
    (Nat.le_add_right ((c + 1) * chunkSize s R q) (chunkSize s R q)) (by omega)
    (by rw [hsize]; exact hbound)
  have hlast : usizeSub (cells q fun i => digit s q (c + 1) i + 1).length 1 = .ok m := by
    rw [List.length_cells]
    exact usizeSub_eq_ok.mpr ⟨by omega, by omega⟩
  unfold copyChunk copyState
  dsimp only
  rw [hlast, hcounters, hstart, usizeSub_eq_ok.mpr ⟨Nat.le_add_left _ _, rfl⟩, Outcome.ok_bind,
    usizeSub_eq_ok.mpr ⟨Nat.le_add_left _ _, rfl⟩, Outcome.ok_bind, Nat.add_sub_cancel,
    Nat.add_sub_cancel, hcopy, Outcome.ok_bind, hsize,
    Vec.fill_cells (by omega) (by omega), Outcome.ok_bind, Outcome.ok_bind, hnext, Outcome.ok_bind]
  dsimp only
  congr 2
  apply List.cells_congr
  intro p _
  rw [moveBlock, hstart]

theorem Moved.succ (h : Grows s t R q) {orig f : Nat → α} {value : α} {c : Nat}
    (hc : c + 1 < place s q 0) (hmoved : Moved s t R q orig value (c + 1) f) :
    Moved s t R q orig value c (moveBlock s t R q value f (c + 1)) := by
  have hstart : (c + 1 + 1) * chunkSize s R q = (c + 1) * chunkSize s R q + chunkSize s R q :=
    Nat.succ_mul _ _
  have hle := h.le_chunkDest hc
  constructor
  case front =>
    intro p hp
    rw [moveBlock, if_neg (by omega), if_neg (by omega)]
    exact hmoved.front p (by omega)
  case moved =>
    intro b hb hbN o ho
    by_cases hlast : b = c + 1
    · subst hlast
      rw [moveBlock, if_neg (by omega), if_pos (by omega), Nat.add_sub_cancel_left]
      exact hmoved.front _ (by omega)
    · have hafter := h.chunkDest_lt (show c + 1 < b by omega) hbN
      rw [moveBlock, if_neg (by omega), if_neg (by omega)]
      exact hmoved.moved b (by omega) hbN o ho
  case filled =>
    intro p hp hpt hnot
    -- the position is not in the block that has been moved
    have hnotBlock : ¬ (chunkDest s t R q (c + 1) ≤ p ∧
        p < chunkDest s t R q (c + 1) + chunkSize s R q) := by
      rintro ⟨hlow, hhigh⟩
      exact hnot (c + 1) (Nat.lt_succ_self c) hc (p - chunkDest s t R q (c + 1)) (by omega) (by omega)
    rw [moveBlock]
    by_cases hfill : (c + 1) * chunkSize s R q ≤ p ∧
        p < min ((c + 1 + 1) * chunkSize s R q) (chunkDest s t R q (c + 1))
    · rw [if_pos hfill]
    · rw [if_neg hfill, if_neg hnotBlock]
      apply hmoved.filled p (by omega) hpt
      intro b hb hbN o ho
      exact hnot b (by omega) hbN o ho

/-- All blocks are moved. -/
theorem copyChunks_cells (h : Grows s t R q) {orig f : Nat → α} {value : α} {c : Nat}
    (hc : c < place s q 0) (hmoved : Moved s t R q orig value c f) :
    ∃ g, copyChunks (cells R s) (cells q (gapAfter s t R)) value (chunkSize s R q) c
        (copyState s t R q f c) = .ok (copyState s t R q g 0) ∧ Moved s t R q orig value 0 g := by
  induction c generalizing f with
  | zero => exact ⟨f, rfl, hmoved⟩
  | succ c ih =>
    obtain ⟨g, hg, hmovedG⟩ := ih (by omega) (hmoved.succ h hc)
    refine ⟨g, ?_, hmovedG⟩
    rw [copyChunks, copyChunk_eq h value f hc, Outcome.ok_bind, hg]

end Loop

end DeepProve
