import DeepProve.Resize.Padding

/-!
# Reducing a tensor

`tensor/mod.rs`: `reduce_to_shape` copies the entries of a smaller shape one by one. The coordinates
of the entry count on like an odometer, and both positions are the coordinates times the strides.

The new shape may have a lower rank. Its dimensions are compared with the last dimensions of the
tensor, but the coordinates are multiplied by the strides of the first ones.
-/

namespace List

variable {α β γ : Type} {n m : Nat} {f : Nat → α} {g : Nat → β}

theorem zipWith_cells_of_le {h : α → β → γ} (hm : m ≤ n) :
    zipWith h (cells n f) (cells m g) = cells m fun i => h (f i) (g i) := by
  apply ext_getElem
  · simp [hm]
  · intro i _ _
    simp [cells]

theorem reverse_cells : (cells n f).reverse = cells n fun i => f (n - 1 - i) := by
  apply ext_getElem
  · simp
  · intro i _ _
    simp [cells]

end List

namespace DeepProve

open List (cells)
open MixedRadix

namespace Tensor

section Copy

variable {α : Type}

/-- The inner loop: the last coordinate counts on, and begins again at its size. -/
def nextCoord (newShape : Shape) : Nat → List Nat → Outcome (List Nat)
  | 0, coord => .ok coord
  | rank + 1, coord => do
    let pos ← Vec.get coord rank
    let coord ← Vec.set coord rank (pos + 1)
    let size ← Vec.get newShape rank
    if pos + 1 = size then do
      let coord ← Vec.set coord rank 0
      nextCoord newShape rank coord
    else
      .ok coord

/-- The body of the loop. -/
def copyEntry (self : Tensor α) (newShape : Shape) (result : List α) (coord : List Nat) :
    Outcome (List α × List Nat) := do
  let source := (List.zipWith (· * ·) coord self.shape.strides).sum
  let dest := (List.zipWith (· * ·) coord newShape.strides).sum
  let entry ← Vec.get self.data source
  let result ← Vec.set result dest entry
  let coord ← nextCoord newShape coord.length coord
  .ok (result, coord)

/-- `while copies > 0`. -/
def copyEntries (self : Tensor α) (newShape : Shape) : Nat → List α → List Nat → Outcome (List α)
  | 0, result, _ => .ok result
  | copies + 1, result, coord => do
    let (result, coord) ← copyEntry self newShape result coord
    copyEntries self newShape copies result coord

/-- `reduce_to_shape`, which copies the entries one by one. -/
def reduceToShapeByCopy [Inhabited α] (self : Tensor α) (newShape : Shape) : Outcome (Tensor α) := do
  ensure (decide (newShape.rank ≤ self.shape.rank)) "The target shape must be smaller than the current"
  ensure ((self.shape.reverse.zip newShape.reverse).all fun (source, target) => decide (target ≤ source))
    "The target dimensions can not be larger than the current"
  let coord := List.replicate newShape.length 0
  let result := List.replicate newShape.numel default
  let data ← copyEntries self newShape newShape.numel result coord
  .ok ⟨data, newShape, newShape⟩

end Copy

/-! ## The coordinates -/

section Coordinates

variable {u : Nat → Nat} {r : Nat}

/-- The coordinates from `m` on are those of the next position. -/
theorem nextCoord_cells (hu : ∀ i < r, 0 < u i) (c : Nat) {m : Nat} (hm : m ≤ r)
    (hdvd : place u r m ∣ c + 1) :
    nextCoord (cells r u) m (cells r fun i => if i < m then digit u r c i else digit u r (c + 1) i) =
      .ok (cells r (digit u r (c + 1))) := by
  induction m with
  | zero => rfl
  | succ m ih =>
    have hmr : m < r := hm
    have hpos : (if m < m + 1 then digit u r c m else digit u r (c + 1) m) = digit u r c m :=
      if_pos (Nat.lt_succ_self m)
    rw [nextCoord, Vec.get_cells hmr, Outcome.ok_bind, hpos, Vec.set_cells hmr, Outcome.ok_bind,
      Vec.get_cells hmr, Outcome.ok_bind]
    by_cases hcarry : place u r m ∣ c + 1
    · obtain ⟨hzero, hlast⟩ := digit_succ_of_dvd hcarry hu (Nat.le_refl m) hmr
      have hsize : digit u r c m + 1 = u m := by
        rw [hlast]
        exact Nat.sub_add_cancel (hu m hmr)
      rw [if_pos hsize, Vec.set_cells hmr, Outcome.ok_bind, Function.update_idem,
        ← ih hmr.le hcarry]
      congr 1
      apply List.cells_congr
      intro i _
      by_cases him : i = m
      · rw [him, Function.update_self, if_neg (lt_irrefl m), hzero]
      · rw [Function.update_of_ne him]
        have hiff : i < m + 1 ↔ i < m := by omega
        simp only [hiff]
    · have hnext := digit_succ hdvd hcarry hmr hu
      have hlt := digit_lt hu (c + 1) hmr
      rw [if_neg (by omega)]
      congr 1
      apply List.cells_congr
      intro i _
      by_cases him : i = m
      · rw [him, Function.update_self, hnext]
      · rw [Function.update_of_ne him]
        by_cases hlow : i < m
        · rw [if_pos (by omega), digit_succ_of_lt hcarry hlow]
        · rw [if_neg (by omega)]

end Coordinates

/-! ## The entries -/

section Entries

variable {α : Type} {s u : Nat → Nat} {R r : Nat}

/-- The position that is read for the coordinates: they are multiplied by the strides of the first
    dimensions. -/
def sourcePosition (s : Nat → Nat) (R r : Nat) (x : Nat → Nat) : Nat :=
  ∑ i ∈ Finset.range r, x i * place s R (i + 1)

theorem sum_zipWith_strides (hr : r ≤ R) (x : Nat → Nat) :
    (List.zipWith (· * ·) (cells r x) (Shape.strides (cells R s))).sum = sourcePosition s R r x := by
  rw [Shape.strides_cells, List.zipWith_comm, List.zipWith_cells_of_le hr, List.sum_cells,
    sourcePosition]

/-- One entry is copied. -/
theorem copyEntry_cells (hr : r ≤ R) (hu : ∀ i < r, 0 < u i) (data : List α) (unpaddedShape : Shape)
    {c : Nat} (hc : c < place u r 0) (g : Nat → α) :
    copyEntry ⟨data, cells R s, unpaddedShape⟩ (cells r u) (cells (place u r 0) g)
        (cells r (digit u r c)) =
      (Vec.get data (sourcePosition s R r (digit u r c)) >>= fun entry =>
        .ok (cells (place u r 0) (Function.update g c entry), cells r (digit u r (c + 1)))) := by
  have hdest := sum_zipWith_strides (s := u) (Nat.le_refl r) (digit u r c)
  rw [sourcePosition, ← value, sum_digit hc] at hdest
  have hnext := nextCoord_cells hu c (Nat.le_refl r) (by rw [place_self]; exact one_dvd _)
  have hcoord : (cells r fun i => if i < r then digit u r c i else digit u r (c + 1) i) =
      cells r (digit u r c) := by
    apply List.cells_congr
    intro i hi
    rw [if_pos hi]
  rw [hcoord] at hnext
  rw [copyEntry, sum_zipWith_strides hr, hdest, List.length_cells]
  dsimp only
  rcases Vec.get data (sourcePosition s R r (digit u r c)) with _ | entry
  · rfl
  · rw [Outcome.ok_bind, Outcome.ok_bind, Vec.set_cells hc, Outcome.ok_bind, hnext, Outcome.ok_bind]

/-- The loop returns exactly if every position that is read is in the data. -/
theorem copyEntries_eq_ok_iff [Inhabited α] (hr : r ≤ R) (hu : ∀ i < r, 0 < u i) (data : List α)
    (unpaddedShape : Shape) {copies c : Nat} (hc : c + copies = place u r 0) (g : Nat → α)
    (result : List α) :
    copyEntries ⟨data, cells R s, unpaddedShape⟩ (cells r u) copies (cells (place u r 0) g)
        (cells r (digit u r c)) = .ok result ↔
      (∀ p, c ≤ p → p < place u r 0 → sourcePosition s R r (digit u r p) < data.length) ∧
        result = cells (place u r 0) fun p =>
          if c ≤ p then data.getD (sourcePosition s R r (digit u r p)) default else g p := by
  induction copies generalizing c g with
  | zero =>
    rw [copyEntries]
    have hlast : (cells (place u r 0) fun p =>
        if c ≤ p then data.getD (sourcePosition s R r (digit u r p)) default else g p) =
          cells (place u r 0) g := by
      apply List.cells_congr
      intro p hp
      rw [if_neg (by omega)]
    rw [hlast, Except.ok.injEq, eq_comm]
    constructor
    · intro hresult
      exact ⟨fun p _ _ => by omega, hresult⟩
    · exact And.right
  | succ copies ih =>
    have hlt : c < place u r 0 := by omega
    rw [copyEntries, copyEntry_cells hr hu data unpaddedShape hlt g]
    by_cases hrange : sourcePosition s R r (digit u r c) < data.length
    · have hentry : Vec.get data (sourcePosition s R r (digit u r c)) =
          .ok (data.getD (sourcePosition s R r (digit u r c)) default) := by
        rw [Vec.get, List.getD_eq_getElem?_getD, List.getElem?_eq_getElem hrange, unwrap_some,
          Option.getD_some]
      rw [hentry, Outcome.ok_bind, Outcome.ok_bind]
      dsimp only
      rw [ih (by omega)]
      apply and_congr
      · constructor
        · intro hall p hp hpN
          rcases Nat.eq_or_lt_of_le hp with rfl | hp
          · exact hrange
          · exact hall p hp hpN
        · intro hall p hp hpN
          exact hall p (by omega) hpN
      · apply Eq.congr_right
        apply List.cells_congr
        intro p _
        rcases Nat.lt_trichotomy p c with hp | rfl | hp
        · rw [if_neg (by omega), if_neg (by omega), Function.update_of_ne (by omega)]
        · rw [if_neg (by omega), if_pos (Nat.le_refl p), Function.update_self]
        · rw [if_pos (by omega), if_pos (by omega)]
    · have hentry : Vec.get data (sourcePosition s R r (digit u r c)) =
          .error (.panic "index out of bounds") := by
        rw [Vec.get, List.getElem?_eq_none (not_lt.mp hrange), unwrap_none]
      rw [hentry]
      constructor
      · intro hresult
        cases hresult
      · intro hall
        exact absurd (hall.1 c (Nat.le_refl c) hlt) hrange

end Entries

/-! ## The call -/

section Call

variable {α : Type}

/-- The checks of the new shape. -/
def Accepts (shape newShape : Shape) : Prop :=
  newShape.rank ≤ shape.rank ∧
    (shape.reverse.zip newShape.reverse).all (fun (source, target) => decide (target ≤ source)) = true

/-- A tensor of the new shape whose entries are those at the end of the dimensions of the original
    one; the coordinates before are zero. -/
structure ReducedTo (tensor reduced : Tensor α) (newShape : Shape) : Prop where
  shape : reduced.shape = newShape
  length : reduced.data.length = newShape.numel
  entry : ∀ index, newShape.Contains index → reduced.data[newShape.position index]? =
    tensor.data[tensor.shape.position
      (List.replicate (tensor.shape.rank - newShape.rank) 0 ++ index)]?

variable {s u : Nat → Nat} {R r : Nat}

theorem accepts_cells_iff :
    Accepts (cells R s) (cells r u) ↔ r ≤ R ∧ ∀ i < r, u i ≤ s (R - r + i) := by
  rw [Accepts, Shape.rank, Shape.rank, List.length_cells, List.length_cells]
  apply and_congr_right
  intro hr
  rw [List.reverse_cells, List.reverse_cells, List.zip, List.zipWith_cells_of_le hr, List.all_eq_true]
  simp only [cells, List.forall_mem_map, List.mem_range, decide_eq_true_eq]
  constructor
  · intro hall i hi
    have hback := hall (r - 1 - i) (by omega)
    rw [Nat.sub_sub_self (by omega), show R - 1 - (r - 1 - i) = R - r + i by omega] at hback
    exact hback
  · intro hall i hi
    have hfront := hall (r - 1 - i) (by omega)
    rw [show R - r + (r - 1 - i) = R - 1 - i by omega] at hfront
    exact hfront

/-- The position of the entry at the end of the dimensions. -/
theorem position_replicate_append (hr : r ≤ R) (x : Nat → Nat) :
    Shape.position (cells R s) (List.replicate (R - r) 0 ++ cells r x) =
      ∑ i ∈ Finset.range r, x i * place s R (R - r + i + 1) := by
  have hsplit : (cells R fun i => place s R (i + 1)) =
      cells (R - r) (fun i => place s R (i + 1)) ++ cells r fun i => place s R (R - r + i + 1) := by
    have hback := List.drop_cells (f := fun i => place s R (i + 1)) (Nat.sub_le R r)
    rw [Nat.sub_sub_self hr] at hback
    rw [← hback, ← List.take_cells (f := fun i => place s R (i + 1)) (Nat.sub_le R r),
      List.take_append_drop]
  rw [Shape.position, Shape.strides_cells, hsplit, List.replicate_eq_cells,
    List.zipWith_append (by simp), List.zipWith_cells, List.zipWith_cells, List.sum_append,
    List.sum_cells, List.sum_cells]
  simp

/-- The position is in the data. -/
theorem sum_trailing_lt (hpos : ∀ i < R, 0 < s i) (hr : r ≤ R) (hle : ∀ i < r, u i ≤ s (R - r + i))
    {x : Nat → Nat} (hx : ∀ i < r, x i < u i) :
    ∑ i ∈ Finset.range r, x i * place s R (R - r + i + 1) < place s R 0 := by
  have hvalue := value_lt (b := fun i => s (R - r + i)) (q := r) (x := x)
    fun i hi => (hx i hi).trans_le (hle i hi)
  have hplaces : ∀ m, place (fun i => s (R - r + i)) r m = place s R (R - r + m) := by
    intro m
    rw [place_add, Nat.sub_add_cancel hr]
  rw [value, hplaces] at hvalue
  simp only [hplaces] at hvalue
  exact hvalue.trans_le (Nat.le_of_dvd (place_pos hpos 0) (place_dvd (Nat.zero_le _)))

variable [Inhabited α]

theorem reduceToShapeByCopy_eq_ok_iff (haccepts : Accepts (cells R s) (cells r u)) (data : List α)
    (unpaddedShape : Shape) (reduced : Tensor α) :
    reduceToShapeByCopy ⟨data, cells R s, unpaddedShape⟩ (cells r u) = .ok reduced ↔
      (∀ p < place u r 0, sourcePosition s R r (digit u r p) < data.length) ∧
        reduced = ⟨cells (place u r 0) fun p =>
          data.getD (sourcePosition s R r (digit u r p)) default, cells r u, cells r u⟩ := by
  have hr := (accepts_cells_iff.mp haccepts).1
  rw [reduceToShapeByCopy]
  dsimp only
  rw [haccepts.2, decide_eq_true haccepts.1, ensure_true, Outcome.ok_bind, ensure_true,
    Outcome.ok_bind, Shape.numel, List.prod_cells, List.length_cells, List.replicate_eq_cells,
    List.replicate_eq_cells]
  rcases Nat.eq_zero_or_pos (place u r 0) with hzero | hpos
  · -- nothing is copied
    rw [hzero, copyEntries, Outcome.ok_bind, Except.ok.injEq, eq_comm]
    simp [cells]
  have hu : ∀ i < r, 0 < u i := by
    intro i hi
    have hne := Finset.prod_ne_zero_iff.mp hpos.ne' i (Finset.mem_Ico.mpr ⟨Nat.zero_le i, hi⟩)
    exact Nat.pos_of_ne_zero hne
  have hcoord : (cells r fun _ => 0) = cells r (digit u r 0) := by
    apply List.cells_congr
    intro i _
    rw [digit, Nat.zero_div, Nat.zero_mod]
  rw [hcoord, Outcome.bind_eq_ok]
  simp only [copyEntries_eq_ok_iff hr hu data unpaddedShape (Nat.zero_add _), Nat.zero_le,
    forall_const, if_true]
  constructor
  · rintro ⟨result, ⟨hrange, rfl⟩, hreduced⟩
    exact ⟨hrange, (Except.ok.inj hreduced).symm⟩
  · rintro ⟨hrange, rfl⟩
    exact ⟨_, ⟨hrange, rfl⟩, rfl⟩

/-- The entries that are read are those at the end of the dimensions, if the rank is the same or
    only one entry is read. -/
theorem reducedTo_of_rank_or_numel {shape newShape : Shape} (hpos : ∀ d ∈ shape, 0 < d)
    (haccepts : Accepts shape newShape) (hsame : newShape.rank = shape.rank ∨ newShape.numel ≤ 1)
    {data : List α} (hlength : data.length = shape.numel) (unpaddedShape : Shape) :
    ∃ reduced, reduceToShapeByCopy ⟨data, shape, unpaddedShape⟩ newShape = .ok reduced ∧
      ReducedTo ⟨data, shape, unpaddedShape⟩ reduced newShape ∧ reduced.unpaddedShape = newShape := by
  obtain ⟨R, s, rfl⟩ := List.exists_cells shape
  obtain ⟨r, u, rfl⟩ := List.exists_cells newShape
  obtain ⟨hr, hle⟩ := accepts_cells_iff.mp haccepts
  have hposAt : ∀ i < R, 0 < s i := List.forall_mem_cells.mp hpos
  rw [Shape.rank, Shape.rank, List.length_cells, List.length_cells, Shape.numel,
    List.prod_cells] at hsame
  rw [Shape.numel, List.prod_cells] at hlength
  -- both positions are the same, and in the data
  have hposition : ∀ x : Nat → Nat, (∀ i < r, x i < u i) →
      sourcePosition s R r x = ∑ i ∈ Finset.range r, x i * place s R (R - r + i + 1) := by
    intro x hx
    apply Finset.sum_congr rfl
    intro i hi
    have hi := Finset.mem_range.mp hi
    rcases hsame with rfl | hone
    · rw [Nat.sub_self, Nat.zero_add]
    · have hvalue := value_lt hx
      have hdigit := digit_value hx hi
      have hzero : value u r x = 0 := by omega
      rw [hzero, digit, Nat.zero_div, Nat.zero_mod] at hdigit
      rw [← hdigit, Nat.zero_mul, Nat.zero_mul]
  have hread : ∀ x : Nat → Nat, (∀ i < r, x i < u i) →
      data[sourcePosition s R r x]? = some (data.getD (sourcePosition s R r x) default) := by
    intro x hx
    have hlt := sum_trailing_lt hposAt hr hle hx
    rw [← hposition x hx, ← hlength] at hlt
    rw [List.getD_eq_getElem?_getD, List.getElem?_eq_getElem hlt, Option.getD_some]
  refine ⟨_, (reduceToShapeByCopy_eq_ok_iff haccepts data unpaddedShape _).mpr ⟨?_, rfl⟩, ?_, rfl⟩
  · intro p hp
    have hdigits : ∀ i < r, digit u r p i < u i := by
      intro i hi
      have hne := Finset.prod_ne_zero_iff.mp (Nat.zero_lt_of_lt hp).ne' i
        (Finset.mem_Ico.mpr ⟨Nat.zero_le i, hi⟩)
      exact Nat.mod_lt _ (Nat.pos_of_ne_zero hne)
    rw [hlength, hposition _ hdigits]
    exact sum_trailing_lt hposAt hr hle hdigits
  constructor
  case shape => rfl
  case length => rw [List.length_cells, Shape.numel, List.prod_cells]
  case entry =>
    intro index hindex
    have hrank : index.length = r := by
      rw [hindex.length_eq, List.length_cells]
    obtain ⟨x, rfl⟩ := List.exists_cells_of_length hrank
    have hx := Shape.contains_cells_iff.mp hindex
    have hdigits : sourcePosition s R r (digit u r (value u r x)) = sourcePosition s R r x := by
      apply Finset.sum_congr rfl
      intro i hi
      rw [digit_value hx (Finset.mem_range.mp hi)]
    dsimp only
    rw [Shape.position_cells, List.getElem?_cells (value_lt hx), hdigits, Shape.rank, Shape.rank,
      List.length_cells, List.length_cells, position_replicate_append hr, ← hposition x hx, hread x hx]

/-- For fewer dimensions and more than one entry, a position that is read is another one. -/
theorem exists_sourcePosition_ne (hpos : ∀ i < R, 0 < s i) (hle : ∀ i < r, u i ≤ s (R - r + i))
    (hr : r < R) (hnumel : 1 < place u r 0) :
    ∃ x : Nat → Nat, (∀ i < r, x i < u i) ∧
      sourcePosition s R r x ≠ ∑ i ∈ Finset.range r, x i * place s R (R - r + i + 1) := by
  have hu : ∀ i < r, 0 < u i := by
    intro i hi
    have hne := Finset.prod_ne_zero_iff.mp (Nat.zero_lt_of_lt hnumel).ne' i
      (Finset.mem_Ico.mpr ⟨Nat.zero_le i, hi⟩)
    exact Nat.pos_of_ne_zero hne
  obtain ⟨i, hi, hlarge⟩ : ∃ i < r, 1 < u i := by
    by_contra hall
    push Not at hall
    have hone : place u r 0 ≤ 1 := Finset.prod_le_one' fun j hj => hall j (Finset.mem_Ico.mp hj).2
    omega
  refine ⟨fun j => if j = i then 1 else 0, ?_, ?_⟩
  · intro j hj
    dsimp only
    split
    case isTrue heq => rwa [heq]
    case isFalse => exact hu j hj
  have hsingle : ∀ f : Nat → Nat, ∑ j ∈ Finset.range r, (if j = i then 1 else 0) * f j = f i := by
    intro f
    simp [hi]
  -- the stride of the first dimension counts at least two of the last one
  have hfactor : place s R (R - r + i) = s (R - r + i) * place s R (R - r + i + 1) :=
    place_eq_mul (by omega)
  have htwo : 2 ≤ s (R - r + i) := hlarge.trans_le (hle i hi)
  have hmul : 2 * place s R (R - r + i + 1) ≤ place s R (R - r + i) := by
    rw [hfactor]
    exact Nat.mul_le_mul_right _ htwo
  have hmore : place s R (R - r + i) ≤ place s R (i + 1) :=
    Nat.le_of_dvd (place_pos hpos _) (place_dvd (by omega))
  have hsmall := place_pos hpos (R - r + i + 1)
  rw [sourcePosition, hsingle, hsingle fun j => place s R (R - r + j + 1)]
  omega

/-- Otherwise some tensor is reduced to other entries. -/
theorem rank_or_numel_of_reducedTo [Nontrivial α] {shape newShape : Shape}
    (hpos : ∀ d ∈ shape, 0 < d) (haccepts : Accepts shape newShape)
    (hreduces : ∀ data : List α, data.length = shape.numel → ∃ reduced,
      reduceToShapeByCopy ⟨data, shape, shape⟩ newShape = .ok reduced ∧
        ReducedTo ⟨data, shape, shape⟩ reduced newShape) :
    newShape.rank = shape.rank ∨ newShape.numel ≤ 1 := by
  obtain ⟨R, s, rfl⟩ := List.exists_cells shape
  obtain ⟨r, u, rfl⟩ := List.exists_cells newShape
  obtain ⟨hr, hle⟩ := accepts_cells_iff.mp haccepts
  have hposAt : ∀ i < R, 0 < s i := List.forall_mem_cells.mp hpos
  rw [Shape.rank, Shape.rank, List.length_cells, List.length_cells, Shape.numel, List.prod_cells]
  by_contra hnot
  obtain ⟨hrank, hnumel⟩ := not_or.mp hnot
  obtain ⟨x, hx, hne⟩ :=
    exists_sourcePosition_ne hposAt hle (by omega) (not_le.mp hnumel)
  have htrailing := sum_trailing_lt hposAt hr hle hx
  -- the data has another value at the position that should be read
  obtain ⟨a, b, hab⟩ := exists_pair_ne α
  obtain ⟨reduced, hok, hreduced⟩ := hreduces (cells (place s R 0) fun p =>
    if p = ∑ i ∈ Finset.range r, x i * place s R (R - r + i + 1) then a else b)
    (by rw [List.length_cells, Shape.numel, List.prod_cells])
  obtain ⟨hrange, rfl⟩ := (reduceToShapeByCopy_eq_ok_iff haccepts _ _ _).mp hok
  have hdigits : sourcePosition s R r (digit u r (value u r x)) = sourcePosition s R r x := by
    apply Finset.sum_congr rfl
    intro i hi
    rw [digit_value hx (Finset.mem_range.mp hi)]
  have hlt := hrange _ (value_lt hx)
  rw [hdigits, List.length_cells] at hlt
  have hentry := hreduced.entry (cells r x) (Shape.contains_cells_iff.mpr hx)
  dsimp only at hentry
  rw [Shape.position_cells, List.getElem?_cells (value_lt hx), hdigits, Shape.rank, Shape.rank,
    List.length_cells, List.length_cells, position_replicate_append hr,
    List.getElem?_cells htrailing, if_pos rfl, List.getD_eq_getElem?_getD,
    List.getElem?_cells hlt, if_neg hne, Option.getD_some, Option.some.injEq] at hentry
  exact hab hentry.symm

end Call

/-! ## Padding and reducing -/

/-- Tensors of a shape are padded and reduced back to themselves, and they are reduced to the entries
    at the end of their dimensions. -/
structure PadsAndReduces (α : Type) [Inhabited α] (shape newShape : Shape) : Prop where
  pads : ∀ self : Tensor α, self.shape = shape → self.data.length = shape.numel →
    ∀ targetShape, List.Forall₂ (· ≤ ·) shape targetShape → ∀ value, ∃ padded,
      self.padToShapeWithValue targetShape value = .ok padded ∧
        self.PaddedTo padded targetShape value ∧
        padded.reduceToShapeByCopy shape = .ok { self with unpaddedShape := shape }
  reduces : ∀ self : Tensor α, self.shape = shape → self.data.length = shape.numel → ∃ reduced,
    self.reduceToShapeByCopy newShape = .ok reduced ∧ self.ReducedTo reduced newShape

/-- A padded tensor is reduced to the original one. -/
theorem reduceToShapeByCopy_of_paddedTo {α : Type} [Inhabited α] {self padded : Tensor α}
    (hpos : ∀ d ∈ self.shape, 0 < d) (hlength : self.data.length = self.shape.numel)
    {targetShape : Shape} (hle : List.Forall₂ (· ≤ ·) self.shape targetShape) {value : α}
    (hpadded : self.PaddedTo padded targetShape value) :
    padded.reduceToShapeByCopy self.shape = .ok { self with unpaddedShape := self.shape } := by
  obtain ⟨data, shape, unpaddedShape⟩ := self
  obtain ⟨paddedData, paddedShape, paddedUnpadded⟩ := padded
  obtain rfl : paddedShape = targetShape := hpadded.shape
  dsimp only at hpos hlength hle ⊢
  obtain ⟨R, s, rfl⟩ := List.exists_cells shape
  have hrank : paddedShape.length = R := by
    rw [← hle.length_eq, List.length_cells]
  obtain ⟨t, rfl⟩ := List.exists_cells_of_length hrank
  have hleAt : ∀ i < R, s i ≤ t i := List.forall₂_cells.mp hle
  have hposAt : ∀ i < R, 0 < s i := List.forall_mem_cells.mp hpos
  have hposTarget : ∀ d ∈ cells R t, 0 < d := by
    intro d hd
    obtain ⟨i, hi, rfl⟩ := List.mem_map.mp hd
    have hi := List.mem_range.mp hi
    exact (hposAt i hi).trans_le (hleAt i hi)
  have haccepts : Accepts (cells R t) (cells R s) := by
    rw [accepts_cells_iff, Nat.sub_self]
    refine ⟨Nat.le_refl R, ?_⟩
    intro i hi
    rw [Nat.zero_add]
    exact hleAt i hi
  obtain ⟨reduced, hok, hreduced, hunpadded⟩ := reducedTo_of_rank_or_numel hposTarget haccepts
    (.inl (by rw [Shape.rank, Shape.rank, List.length_cells, List.length_cells])) hpadded.length
    paddedUnpadded
  rw [hok]
  obtain ⟨reducedData, reducedShape, reducedUnpadded⟩ := reduced
  obtain rfl : reducedShape = cells R s := hreduced.shape
  obtain rfl : reducedUnpadded = cells R s := hunpadded
  have hdata : reducedData = data := by
    apply List.ext_getElem?
    intro p
    by_cases hp : p < place s R 0
    · have hindex : Shape.Contains (cells R s) (cells R (digit s R p)) :=
        Shape.contains_cells_iff.mpr fun i hi => digit_lt hposAt p hi
      have hentry := hreduced.entry _ hindex
      have hinside := hpadded.inside _ hindex
      dsimp only at hentry hinside
      rw [Shape.rank, Shape.rank, List.length_cells, List.length_cells, Nat.sub_self,
        List.replicate_zero, List.nil_append, hinside, Shape.position_cells, sum_digit hp] at hentry
      exact hentry
    · have hlarge := not_lt.mp hp
      rw [List.getElem?_eq_none, List.getElem?_eq_none]
      · rw [hlength, Shape.numel, List.prod_cells]
        exact hlarge
      · have hlengthReduced := hreduced.length
        dsimp only at hlengthReduced
        rw [hlengthReduced, Shape.numel, List.prod_cells]
        exact hlarge
  rw [hdata]

/-- The result is right exactly for a target of the same rank, or of at most one entry. -/
theorem padsAndReduces_iff {α : Type} [Inhabited α] [Nontrivial α] {shape newShape : Shape}
    (hpos : ∀ d ∈ shape, 0 < d) (haccepts : Accepts shape newShape) :
    PadsAndReduces α shape newShape ↔ newShape.rank = shape.rank ∨ newShape.numel ≤ 1 := by
  constructor
  · intro h
    exact rank_or_numel_of_reducedTo hpos haccepts fun data hlength =>
      h.reduces ⟨data, shape, shape⟩ rfl hlength
  · intro hsame
    constructor
    case pads =>
      rintro self rfl hlength targetShape hle value
      obtain ⟨padded, hok, hpadded⟩ := padToShapeWithValue_eq_ok hpos hlength hle value
      exact ⟨padded, hok, hpadded, reduceToShapeByCopy_of_paddedTo hpos hlength hle hpadded⟩
    case reduces =>
      rintro self rfl hlength
      obtain ⟨reduced, hok, hreduced, -⟩ :=
        reducedTo_of_rank_or_numel hpos haccepts hsame hlength self.unpaddedShape
      exact ⟨reduced, hok, hreduced⟩

/-- A row that is reduced to a part of it. -/
theorem padsAndReduces_row : PadsAndReduces Int [2, 3] [1, 2] :=
  (padsAndReduces_iff (by decide) (by rw [Accepts]; decide)).mpr (.inl rfl)

/-- A matrix that is reduced to a vector: the first column is read in place of the first row. -/
theorem not_padsAndReduces_vector : ¬ PadsAndReduces Int [2, 2] [2] := by
  intro h
  obtain ⟨reduced, hok, hreduced⟩ := h.reduces ⟨[1, 2, 3, 4], [2, 2], [2, 2]⟩ rfl rfl
  have hvalue : reduceToShapeByCopy (⟨[1, 2, 3, 4], [2, 2], [2, 2]⟩ : Tensor Int) [2] =
      .ok ⟨[1, 3], [2], [2]⟩ := rfl
  obtain rfl : ⟨[1, 3], [2], [2]⟩ = reduced := Except.ok.inj (hvalue.symm.trans hok)
  have hentry := hreduced.entry [1] (by rw [Shape.Contains]; decide)
  exact absurd hentry (by decide)

end Tensor

end DeepProve
