import DeepProve.Resize.PadToShape

/-!
# The entries of a padded tensor

An index is a list of coordinates. The entry of a padded tensor at an index of the original shape is
the original one, and all others have the value.
-/

namespace List

variable {α β : Type} {n : Nat} {f : Nat → α}

theorem sum_cells (f : Nat → Nat) : (cells n f).sum = ∑ i ∈ Finset.range n, f i := by
  induction n with
  | zero => rfl
  | succ n ih =>
    rw [cells, range_succ, map_append, sum_append, Finset.sum_range_succ, ← ih]
    simp [cells]

theorem prod_drop_cells (f : Nat → Nat) {m : Nat} (hm : m ≤ n) :
    ((cells n f).drop m).prod = MixedRadix.place f n m := by
  induction hm using Nat.decreasingInduction with
  | self =>
    rw [drop_of_length_le (by simp), MixedRadix.place_self]
    rfl
  | of_succ m hm ih =>
    rw [drop_eq_getElem_cons (by simpa using hm), prod_cons, ih, MixedRadix.place_eq_mul hm]
    simp [cells]

theorem prod_cells (f : Nat → Nat) : (cells n f).prod = MixedRadix.place f n 0 := by
  rw [← prod_drop_cells f (Nat.zero_le n), drop_zero]

theorem take_cells {m : Nat} (hm : m ≤ n) : (cells n f).take m = cells m f := by
  have h := take_drop_cells (f := f) (show 0 + m ≤ n by omega)
  rw [drop_zero] at h
  rw [h]
  apply cells_congr
  intro i _
  rw [Nat.zero_add]

theorem drop_cells {m : Nat} (hm : m ≤ n) : (cells n f).drop m = cells (n - m) fun i => f (m + i) := by
  rw [← take_drop_cells (show m + (n - m) ≤ n by omega), take_of_length_le (by simp)]

theorem mapM_cells {g : α → Option β} {h : Nat → β} (hg : ∀ i < n, g (f i) = some (h i)) :
    (cells n f).mapM g = some (cells n h) := by
  induction n with
  | zero => rfl
  | succ n ih =>
    rw [cells, range_succ, map_append, mapM_append]
    change (do
      let xs ← (cells n f).mapM g
      let ys ← [f n].mapM g
      pure (xs ++ ys)) = _
    rw [ih fun i hi => hg i (by omega)]
    simp [hg n (Nat.lt_succ_self n), cells, range_succ]

theorem forall₂_cells {γ : Type} {r : α → γ → Prop} {g : Nat → γ} :
    Forall₂ r (cells n f) (cells n g) ↔ ∀ i < n, r (f i) (g i) := by
  rw [forall₂_iff_get]
  simp [cells]

/-- The zeros at the end of a list. -/
theorem trailing_zeros {d : Nat → Nat} (hne : ∃ i < n, d i ≠ 0) :
    ((cells n d).reverse.takeWhile (· == 0)).length < n ∧
      ∀ i, n - ((cells n d).reverse.takeWhile (· == 0)).length ≤ i → i < n → d i = 0 := by
  induction n with
  | zero => simp at hne
  | succ n ih =>
    have hreverse : (cells (n + 1) d).reverse = d n :: (cells n d).reverse := by
      rw [cells, range_succ, map_append, reverse_append]
      rfl
    rw [hreverse, takeWhile_cons]
    by_cases hlast : d n = 0
    · have hrest : ∃ i < n, d i ≠ 0 := by
        obtain ⟨i, hi, hdi⟩ := hne
        refine ⟨i, ?_, hdi⟩
        have hni : i ≠ n := by
          rintro rfl
          exact hdi hlast
        omega
      obtain ⟨hlt, hzero⟩ := ih hrest
      rw [if_pos (by simp [hlast]), length_cons]
      refine ⟨by omega, ?_⟩
      intro i hle hi
      by_cases hin : i = n
      · rw [hin, hlast]
      · exact hzero i (by omega) (by omega)
    · rw [if_neg (by simp [hlast])]
      refine ⟨Nat.succ_pos n, ?_⟩
      intro i hle hi
      rw [length_nil] at hle
      omega

end List

namespace DeepProve

open List (cells)
open MixedRadix

/-! ## Indices -/

namespace Shape

/-- The position of an entry in the data. -/
def position (self : Shape) (index : List Nat) : Nat := (List.zipWith (· * ·) index self.strides).sum

/-- An index of the shape. -/
def Contains (self : Shape) (index : List Nat) : Prop := List.Forall₂ (· < ·) index self

theorem strides_cells (R : Nat) (s : Nat → Nat) :
    strides (cells R s) = cells R fun i => place s R (i + 1) := by
  apply List.ext_getElem?
  intro i
  have hstrides : ∀ (l : Shape) (i : Nat), (strides l)[i]? = if i < l.length then
      some (l.drop (i + 1)).prod else none := by
    intro l
    induction l with
    | nil => intro i; simp [strides]
    | cons d l ih =>
      intro i
      cases i with
      | zero => simp [strides]
      | succ i => simp [strides, ih]
  rw [hstrides, List.length_cells]
  by_cases hi : i < R
  · rw [if_pos hi, List.getElem?_cells hi, List.prod_drop_cells s hi]
  · rw [if_neg hi, List.getElem?_cells_eq_none (not_lt.mp hi)]

theorem position_cells {R : Nat} {s x : Nat → Nat} :
    position (cells R s) (cells R x) = value s R x := by
  rw [position, strides_cells, List.zipWith_cells, List.sum_cells, value]

theorem contains_cells_iff {R : Nat} {s x : Nat → Nat} :
    Contains (cells R s) (cells R x) ↔ ∀ i < R, x i < s i :=
  List.forall₂_cells

end Shape

/-! ## Padding -/

namespace Tensor

variable {α : Type}

/-- A tensor of the target shape with the original entries inside of the original shape and one
    value outside. -/
structure PaddedTo (tensor padded : Tensor α) (targetShape : Shape) (value : α) : Prop where
  shape : padded.shape = targetShape
  unpaddedShape : padded.unpaddedShape = tensor.unpaddedShape
  length : padded.data.length = targetShape.numel
  inside : ∀ index, tensor.shape.Contains index →
    padded.data[targetShape.position index]? = tensor.data[tensor.shape.position index]?
  outside : ∀ index, targetShape.Contains index → ¬ tensor.shape.Contains index →
    padded.data[targetShape.position index]? = some value

/-- The entries after all blocks are moved. -/
theorem paddedTo_of_moved {s t : Nat → Nat} {R q : Nat} (h : Grows s t R q) {orig g : Nat → α}
    {value : α} (hmoved : Moved s t R q orig value 0 g) (unpaddedShape : Shape) :
    PaddedTo ⟨cells (place s R 0) orig, cells R s, unpaddedShape⟩
      ⟨cells (place t R 0) g, cells R t, unpaddedShape⟩ (cells R t) value := by
  have hchunk := h.chunkSize_pos
  have hblocks : place s q 0 * chunkSize s R q = place s R 0 :=
    place_mul_place (Nat.zero_le q) h.lt.le
  have hfirst : chunkDest s t R q 0 = 0 := by
    apply Finset.sum_eq_zero
    intro i _
    rw [digit, Nat.zero_div, Nat.zero_mod, Nat.zero_mul]
  -- where an entry of the shape is in the target, and what is there
  have hentry : ∀ p < place s R 0, g (MixedRadix.value t R (digit s R p)) = orig p := by
    intro p hp
    have hsplit : p / chunkSize s R q * chunkSize s R q + p % chunkSize s R q = p :=
      Nat.div_add_mod' p _
    have ho := Nat.mod_lt p hchunk
    have hb : p / chunkSize s R q < place s q 0 := by
      rw [Nat.div_lt_iff_lt_mul hchunk, hblocks]
      exact hp
    have hvalue := h.value_digit (c := p / chunkSize s R q) ho
    rw [hsplit] at hvalue
    rw [hvalue]
    rcases Nat.eq_zero_or_pos (p / chunkSize s R q) with hzero | hpos
    · rw [hzero, Nat.zero_mul, Nat.zero_add] at hsplit
      rw [hzero, hfirst, Nat.zero_add, hsplit]
      exact hmoved.front p (by omega)
    · rw [hmoved.moved _ hpos hb _ ho, hsplit]
  constructor
  case shape => rfl
  case unpaddedShape => rfl
  case length => rw [List.length_cells, Shape.numel, List.prod_cells]
  case inside =>
    intro index hindex
    have hlength : index.length = R := by
      rw [hindex.length_eq, List.length_cells]
    obtain ⟨x, rfl⟩ := List.exists_cells_of_length hlength
    rw [Shape.contains_cells_iff] at hindex
    have hlt := value_lt hindex
    have hlarge := value_lt fun i hi => (hindex i hi).trans_le (h.le i hi)
    have hdigit := hentry _ hlt
    have hsame : MixedRadix.value t R (digit s R (MixedRadix.value s R x)) =
        MixedRadix.value t R x := by
      apply Finset.sum_congr rfl
      intro i hi
      rw [digit_value hindex (Finset.mem_range.mp hi)]
    rw [hsame] at hdigit
    dsimp only
    rw [Shape.position_cells, Shape.position_cells, List.getElem?_cells hlarge, List.getElem?_cells hlt,
      hdigit]
  case outside =>
    intro index hindex hnot
    have hlength : index.length = R := by
      rw [hindex.length_eq, List.length_cells]
    obtain ⟨x, rfl⟩ := List.exists_cells_of_length hlength
    rw [Shape.contains_cells_iff] at hindex hnot
    have hlarge := value_lt hindex
    -- the position is not one that an entry is moved to
    have hnotBlock : ∀ b < place s q 0, ∀ o < chunkSize s R q,
        MixedRadix.value t R x ≠ chunkDest s t R q b + o := by
      intro b _ o ho heq
      apply hnot
      intro i hi
      have hcoord := digit_lt h.pos (b * chunkSize s R q + o) hi
      rw [← h.value_digit ho] at heq
      have hdigits := congrArg (fun p => digit t R p i) heq
      simp only [digit_value hindex hi, digit_value (fun i hi =>
        (digit_lt h.pos (b * chunkSize s R q + o) hi).trans_le (h.le i hi)) hi] at hdigits
      omega
    rw [Shape.position_cells, List.getElem?_cells hlarge]
    congr 1
    apply hmoved.filled _ ?_ hlarge
    · intro b _ hb o ho
      exact hnotBlock b hb o ho
    · by_contra hsmall
      have hzero := hnotBlock 0 (place_pos h.outer_pos 0) (MixedRadix.value t R x) (by omega)
      rw [hfirst, Nat.zero_add] at hzero
      exact hzero rfl

/-! ## The call -/

section Call

variable {s t : Nat → Nat} {R q : Nat}

/-- Where the dimensions stop to grow. -/
theorem exists_grows (hpos : ∀ i < R, 0 < s i) (hle : ∀ i < R, s i ≤ t i)
    (hne : ∃ i < R, t i - s i ≠ 0) :
    ∃ q, Grows s t R q ∧
      ((cells R fun i => t i - s i).reverse.takeWhile (· == 0)).length = R - (q + 1) := by
  obtain ⟨hlt, hzero⟩ := List.trailing_zeros hne
  refine ⟨R - ((cells R fun i => t i - s i).reverse.takeWhile (· == 0)).length - 1, ?_, by omega⟩
  constructor
  case lt => omega
  case pos => exact hpos
  case le => exact hle
  case eq =>
    intro i hi hiR
    have hdistance := hzero i (by omega) hiR
    have hlei := hle i hiR
    omega

variable (h : Grows s t R q)

include h

/-- Before the first block is moved. -/
theorem moved_initial (orig : Nat → α) (value : α) :
    Moved s t R q orig value (place s q 0 - 1)
      (fun i => if i < place s R 0 then orig i else value) := by
  have hcount : place s q 0 - 1 + 1 = place s q 0 := Nat.sub_add_cancel (place_pos h.outer_pos 0)
  have hblocks : place s q 0 * chunkSize s R q = place s R 0 :=
    place_mul_place (Nat.zero_le q) h.lt.le
  constructor
  case front =>
    intro p hp
    rw [hcount, hblocks] at hp
    rw [if_pos hp]
  case moved =>
    intro b hlow hhigh
    omega
  case filled =>
    intro p hp _ _
    rw [hcount, hblocks] at hp
    rw [if_neg (not_lt.mpr hp)]

theorem lower_strides : (cells R fun i => place t R (i + 1)).drop (q + 1) =
    (cells R fun i => place s R (i + 1)).drop (q + 1) := by
  rw [List.drop_cells h.lt, List.drop_cells h.lt]
  apply List.cells_congr
  intro i _
  rw [h.place_eq (by omega)]

theorem take_gaps : (cells R fun i => (t i - s i) * place t R (i + 1)).take (q + 1) =
    (t 0 - s 0) * place t R 1 :: cells q (gapAfter s t R) := by
  rw [List.take_cells h.lt, cells, List.range_succ_eq_map, List.map_cons, List.map_map]
  rfl

theorem prod_take_reverse : ((cells R s).reverse.take (R - (q + 1) + 1)).prod = chunkSize s R q := by
  have hlt := h.lt
  have hdrop : R - (R - (q + 1) + 1) = q := by omega
  rw [List.take_reverse, List.prod_reverse, List.length_cells, hdrop, List.prod_drop_cells s hlt.le]

theorem resize_shape : Vec.resize (cells R s) q 0 = cells q s := by
  have hlt := h.lt
  rw [Vec.resize, List.length_cells, Nat.sub_eq_zero_of_le hlt.le, List.take_cells hlt.le,
    List.replicate_zero, List.append_nil]

/-- The counters of the last block. -/
theorem cells_digit_last : (cells q fun i => digit s q (place s q 0 - 1) i + 1) = cells q s := by
  have hcount : place s q 0 - 1 + 1 = place s q 0 := Nat.sub_add_cancel (place_pos h.outer_pos 0)
  apply List.cells_congr
  intro i hi
  rw [(digit_succ_of_dvd (by rw [hcount]) h.outer_pos (Nat.zero_le i) hi).2]
  exact Nat.sub_add_cancel (h.outer_pos i hi)

/-- The variables at the beginning of the loop. -/
theorem copyState_last (f : Nat → α) :
    copyState s t R q f (place s q 0 - 1) = ⟨cells (place t R 0) f, cells q s,
      place t R 0 - ∑ i ∈ Finset.range R, (t i - s i) * place t R (i + 1), place s R 0⟩ := by
  have hcount : place s q 0 - 1 + 1 = place s q 0 := Nat.sub_add_cancel (place_pos h.outer_pos 0)
  have hdest := h.sum_gaps_add_chunkDest
  have hdest : chunkDest s t R q (place s q 0 - 1) + chunkSize s R q =
      place t R 0 - ∑ i ∈ Finset.range R, (t i - s i) * place t R (i + 1) := by
    omega
  have hend : place s q 0 * chunkSize s R q = place s R 0 := place_mul_place (Nat.zero_le q) h.lt.le
  rw [copyState, cells_digit_last h, hdest, hcount, hend]

theorem mapM_checkedSub :
    ((cells R s).zip (cells R t)).mapM (fun (original, new) => checkedSub new original) =
      some (cells R fun i => t i - s i) := by
  rw [List.zip, List.zipWith_cells]
  apply List.mapM_cells
  intro i hi
  exact if_pos (h.le i hi)

/-- The call moves all blocks but the first one. -/
theorem padToShapeWithValue_eq_copyChunks (hne : ∃ i < R, t i - s i ≠ 0)
    (hequal : ((cells R fun i => t i - s i).reverse.takeWhile (· == 0)).length = R - (q + 1))
    (orig : Nat → α) (value : α) (unpaddedShape : Shape) :
    padToShapeWithValue ⟨cells (place s R 0) orig, cells R s, unpaddedShape⟩ (cells R t) value =
      (copyChunks (cells R s) (cells q (gapAfter s t R)) value (chunkSize s R q) (place s q 0 - 1)
        (copyState s t R q (fun i => if i < place s R 0 then orig i else value) (place s q 0 - 1)) >>=
        fun last => .ok ⟨last.data, cells R t, unpaddedShape⟩) := by
  have hlt := h.lt
  obtain ⟨j, hj, hgrows⟩ := hne
  have hshape : cells R s ≠ cells R t := by
    intro heq
    have hsame := List.cells_inj.mp heq j hj
    omega
  have hdistance := mapM_checkedSub h
  have hany : (cells R fun i => t i - s i).any (· != 0) = true := by
    rw [List.any_eq_true]
    exact ⟨t j - s j, List.mem_map.mpr ⟨j, List.mem_range.mpr hj, rfl⟩, by simpa using hgrows⟩
  have hdifferent : R - (R - (q + 1)) = q + 1 := by omega
  have hnotEqual : (R - (q + 1) != R) = true := by
    rw [bne_iff_ne]
    omega
  have hsum := h.sum_gaps_add_chunkDest
  have hsmall : ∑ i ∈ Finset.range R, (t i - s i) * place t R (i + 1) ≤ place t R 0 := by omega
  have houter : usizeSub (q + 1) 1 = .ok q := usizeSub_eq_ok.mpr ⟨Nat.le_add_left 1 q, rfl⟩
  have hcopies : usizeSub (place s q 0) 1 = .ok (place s q 0 - 1) :=
    usizeSub_eq_ok.mpr ⟨place_pos h.outer_pos 0, rfl⟩
  rw [padToShapeWithValue, copyState_last h]
  dsimp only
  rw [Shape.rank, Shape.rank, List.length_cells, List.length_cells, beq_self_eq_true, ensure_true,
    Outcome.ok_bind, if_neg hshape, hdistance, okOr_some, Outcome.ok_bind, hany, hequal,
    List.length_cells, hnotEqual, Shape.strides_cells, Shape.strides_cells, hdifferent,
    lower_strides h, beq_self_eq_true, List.zipWith_cells, take_gaps h, prod_take_reverse h, houter]
  simp only [assertThat, if_true, Outcome.ok_bind, List.isEmpty_cons, Bool.false_eq_true, if_false,
    List.drop_succ_cons, List.drop_zero, decide_eq_true hlt, resize_shape h, List.prod_cells,
    List.sum_cells, hcopies, usizeSub_eq_ok.mpr ⟨hsmall, rfl⟩, Vec.resize_cells (h.place_le 0)]

end Call

/-- Padding succeeds and puts every entry to its place. -/
theorem padToShapeWithValue_eq_ok [Inhabited α] {self : Tensor α} (hpos : ∀ d ∈ self.shape, 0 < d)
    (hlength : self.data.length = self.shape.numel) {targetShape : Shape}
    (hle : List.Forall₂ (· ≤ ·) self.shape targetShape) (value : α) :
    ∃ padded, self.padToShapeWithValue targetShape value = .ok padded ∧
      self.PaddedTo padded targetShape value := by
  obtain ⟨data, shape, unpaddedShape⟩ := self
  dsimp only at hpos hlength hle
  by_cases hsame : shape = targetShape
  · subst hsame
    refine ⟨⟨data, shape, unpaddedShape⟩, ?_, rfl, rfl, hlength, fun _ _ => rfl, ?_⟩
    · rw [padToShapeWithValue, beq_self_eq_true, ensure_true, Outcome.ok_bind, if_pos rfl]
    · intro index hindex hnot
      exact absurd hindex hnot
  -- the shapes and the data as functions
  obtain ⟨R, s, rfl⟩ := List.exists_cells shape
  have hrank : targetShape.length = R := by
    rw [← hle.length_eq, List.length_cells]
  obtain ⟨t, rfl⟩ := List.exists_cells_of_length hrank
  rw [Shape.numel, List.prod_cells] at hlength
  obtain ⟨orig, rfl⟩ := List.exists_cells_of_length hlength
  have hposAt : ∀ i < R, 0 < s i := List.forall_mem_cells.mp hpos
  have hleAt : ∀ i < R, s i ≤ t i := List.forall₂_cells.mp hle
  have hne : ∃ i < R, t i - s i ≠ 0 := by
    by_contra hall
    push Not at hall
    apply hsame
    apply List.cells_congr
    intro i hi
    have hdistance := hall i hi
    have hlei := hleAt i hi
    omega
  obtain ⟨q, h, hequal⟩ := exists_grows hposAt hleAt hne
  obtain ⟨g, hg, hmoved⟩ := copyChunks_cells h
    (Nat.sub_lt (place_pos h.outer_pos 0) Nat.one_pos) (moved_initial h orig value)
  refine ⟨_, ?_, paddedTo_of_moved h hmoved unpaddedShape⟩
  rw [padToShapeWithValue_eq_copyChunks h hne hequal, hg]
  rfl

end Tensor

end DeepProve
