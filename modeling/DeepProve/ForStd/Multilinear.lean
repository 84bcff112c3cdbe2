import Mathlib

/-!
# Multilinear polynomials by their values on the hypercube

A multilinear polynomial in `n` variables is given by its table of values, at
the vertices of the hypercube: entry `i` is the value at the bits of `i`, the
lowest bit being the first coordinate. `eqWeight z i` is the weight of vertex `i`
at the point `z`, and `eval t x` the value at an arbitrary point.

The two operations on tables that a commitment scheme uses are to cut a table
into chunks, which fixes the last coordinates, and to pad it with zeros, which
adds coordinates.
-/

namespace Multilinear

variable {F : Type*} [CommRing F]

/-- The weight of vertex `i` at the point `z`. -/
def eqWeight : List F → Nat → F
  | [], _ => 1
  | z :: zs, i => (if i % 2 = 1 then z else 1 - z) * eqWeight zs (i / 2)

/-- The value at `x` of the polynomial with the given table. -/
def eval (table : Nat → F) (x : List F) : F :=
  ∑ i ∈ Finset.range (2 ^ x.length), table i * eqWeight x i

/-- The polynomial that is one at `z` and zero at the vertices other than `z`:
    `∏ (z_i * x_i + (1 - z_i) * (1 - x_i))`. -/
def eqPoly (z x : List F) : F :=
  ((z.zip x).map fun p => p.1 * p.2 + (1 - p.1) * (1 - p.2)).prod

/-- Pad the table of a polynomial in `n` variables with zeros. -/
def zeroPad (n : Nat) (table : Nat → F) (i : Nat) : F := if i < 2 ^ n then table i else 0

theorem eqPoly_comm (z x : List F) : eqPoly z x = eqPoly x z := by
  rw [eqPoly, eqPoly, ← List.zip_swap, List.map_map]
  congr 1
  apply List.map_congr_left
  intro p _
  simp only [Function.comp_apply, Prod.fst_swap, Prod.snd_swap, mul_comm]

@[simp] theorem eval_nil (table : Nat → F) : eval table [] = table 0 := by
  simp [eval, eqWeight]

/-- A sum over the vertices is one over the lowest bit and the other bits. -/
theorem sum_range_two_mul (n : Nat) (f : Nat → F) :
    ∑ i ∈ Finset.range (2 * n), f i = ∑ i ∈ Finset.range n, (f (2 * i) + f (2 * i + 1)) := by
  induction n with
  | zero => simp
  | succ n ih =>
    rw [Nat.mul_succ, Finset.sum_range_succ, Finset.sum_range_succ, ih, Finset.sum_range_succ]
    ring

/-- Fix the first coordinate. -/
theorem eval_cons (table : Nat → F) (x : F) (xs : List F) :
    eval table (x :: xs) =
      (1 - x) * eval (fun i => table (2 * i)) xs + x * eval (fun i => table (2 * i + 1)) xs := by
  have heven : ∀ i, (2 * i) % 2 = 0 ∧ (2 * i) / 2 = i := fun i => ⟨by omega, by omega⟩
  have hodd : ∀ i, (2 * i + 1) % 2 = 1 ∧ (2 * i + 1) / 2 = i := fun i => ⟨by omega, by omega⟩
  rw [eval, List.length_cons, pow_succ, mul_comm, sum_range_two_mul, eval, eval, Finset.mul_sum,
    Finset.mul_sum, ← Finset.sum_add_distrib]
  apply Finset.sum_congr rfl
  intro i _
  simp only [eqWeight, (heven i).1, (heven i).2, (hodd i).1, (hodd i).2]
  simp only [zero_ne_one, if_false, if_true]
  ring

theorem eval_congr {table table' : Nat → F} {x : List F}
    (h : ∀ i < 2 ^ x.length, table i = table' i) : eval table x = eval table' x := by
  apply Finset.sum_congr rfl
  intro i hi
  rw [h i (Finset.mem_range.mp hi)]

/-- Cut the table into chunks: the last coordinates weigh the chunks. -/
theorem eval_append (table : Nat → F) (lo hi : List F) :
    eval table (lo ++ hi) = ∑ j ∈ Finset.range (2 ^ hi.length),
      eqWeight hi j * eval (fun i => table (j * 2 ^ lo.length + i)) lo := by
  induction lo generalizing table with
  | nil =>
    rw [List.nil_append, eval]
    apply Finset.sum_congr rfl
    intro j _
    simp [mul_comm]
  | cons x lo ih =>
    rw [List.cons_append, eval_cons, ih, ih, Finset.mul_sum, Finset.mul_sum,
      ← Finset.sum_add_distrib]
    apply Finset.sum_congr rfl
    intro j _
    have heven : ∀ i, 2 * (j * 2 ^ lo.length + i) = j * 2 ^ (lo.length + 1) + 2 * i := by
      intro i
      rw [pow_succ]
      ring
    rw [eval_cons, List.length_cons]
    simp only [heven, Nat.add_assoc]
    ring

/-- Padding with zeros adds the factor `1 - p` for every new coordinate `p`. -/
theorem eval_zeroPad (table : Nat → F) (lo hi : List F) :
    eval (zeroPad lo.length table) (lo ++ hi) = eval table lo * (hi.map fun p => 1 - p).prod := by
  have hzero : ∀ l : List F, eqWeight l 0 = (l.map fun p => 1 - p).prod := by
    intro l
    induction l with
    | nil => rfl
    | cons p l ih => simp [eqWeight, ih]
  rw [eval_append, Finset.sum_eq_single 0]
  · rw [hzero, mul_comm]
    congr 1
    apply eval_congr
    intro i hi
    show zeroPad lo.length table (0 * 2 ^ lo.length + i) = table i
    rw [zero_mul, zero_add, zeroPad, if_pos hi]
  · intro j _ hj
    have hpad : eval (fun i => zeroPad lo.length table (j * 2 ^ lo.length + i)) lo = 0 := by
      apply Finset.sum_eq_zero
      intro i _
      have hle : 2 ^ lo.length ≤ j * 2 ^ lo.length := Nat.le_mul_of_pos_left _ (by omega)
      have hout : zeroPad lo.length table (j * 2 ^ lo.length + i) = 0 := if_neg (by omega)
      show zeroPad lo.length table (j * 2 ^ lo.length + i) * eqWeight lo i = 0
      rw [hout, zero_mul]
    rw [hpad, mul_zero]
  · intro hnot
    exact absurd (Finset.mem_range.mpr (Nat.two_pow_pos _)) hnot

/-- The table of vertex weights at `z` is that of the polynomial `eqPoly z`. -/
theorem eval_eqWeight (z x : List F) (h : z.length = x.length) :
    eval (eqWeight z) x = eqPoly z x := by
  induction z generalizing x with
  | nil =>
    obtain rfl : x = [] := List.length_eq_zero_iff.mp h.symm
    simp [eqWeight, eqPoly]
  | cons a z ih =>
    cases x with
    | nil => simp at h
    | cons b x =>
      have ih := ih x (by simpa using h)
      have heven : ∀ i, eqWeight (a :: z) (2 * i) = (1 - a) * eqWeight z i := by
        intro i
        rw [eqWeight, if_neg (by omega), Nat.mul_div_cancel_left i (by omega)]
      have hodd : ∀ i, eqWeight (a :: z) (2 * i + 1) = a * eqWeight z i := by
        intro i
        rw [eqWeight, if_pos (by omega)]
        congr 2
        omega
      have hscale : ∀ c : F, eval (fun i => c * eqWeight z i) x = c * eqPoly z x := by
        intro c
        rw [← ih, eval, eval, Finset.mul_sum]
        exact Finset.sum_congr rfl fun i _ => mul_assoc _ _ _
      simp only [eval_cons, heven, hodd, hscale]
      simp only [eqPoly, List.zip_cons_cons, List.map_cons, List.prod_cons]
      ring

/-- The coordinates of vertex `i`. -/
def vertex : Nat → Nat → List F
  | 0, _ => []
  | n + 1, i => ((i % 2 : Nat) : F) :: vertex n (i / 2)

@[simp] theorem vertex_length (n i : Nat) : (vertex n i : List F).length = n := by
  induction n generalizing i with
  | zero => rfl
  | succ n ih => rw [vertex, List.length_cons, ih]

/-- The value at a vertex is the entry of the table. -/
theorem eval_vertex (table : Nat → F) {n i : Nat} (h : i < 2 ^ n) :
    eval table (vertex n i) = table i := by
  induction n generalizing i table with
  | zero =>
    rw [pow_zero] at h
    rw [vertex, eval_nil]
    congr 1
    omega
  | succ n ih =>
    rw [pow_succ] at h
    rw [vertex, eval_cons, ih _ (by omega), ih _ (by omega)]
    -- the lowest bit selects one of the two halves
    obtain hbit | hbit := Nat.mod_two_eq_zero_or_one i
    · rw [hbit, Nat.cast_zero, sub_zero, one_mul, zero_mul, add_zero]
      congr 1
      omega
    · rw [hbit, Nat.cast_one, sub_self, zero_mul, one_mul, zero_add]
      congr 1
      omega

theorem zeroPad_congr {n : Nat} {f g : Nat → F} (h : ∀ i < 2 ^ n, f i = g i) (i : Nat) :
    zeroPad n f i = zeroPad n g i := by
  unfold zeroPad
  split
  · next hi => exact h i hi
  · rfl

/-- Padding leaves the sum of products over the hypercube as it is. -/
theorem sum_zeroPad_mul {n m : Nat} (h : n ≤ m) (f g : Nat → F) :
    ∑ i ∈ Finset.range (2 ^ m), zeroPad n f i * zeroPad n g i =
      ∑ i ∈ Finset.range (2 ^ n), f i * g i := by
  have hsub : Finset.range (2 ^ n) ⊆ Finset.range (2 ^ m) :=
    Finset.range_subset_range.mpr (Nat.pow_le_pow_right (by omega) h)
  rw [← Finset.sum_subset hsub]
  · apply Finset.sum_congr rfl
    intro i hi
    rw [zeroPad, zeroPad, if_pos (Finset.mem_range.mp hi), if_pos (Finset.mem_range.mp hi)]
  · intro i _ hi
    rw [zeroPad, if_neg (by simpa using hi), zero_mul]

end Multilinear

/-!
## Tables that are filled up

A table of a size that is no power of two is filled up to one. `ltWeight z d` is the weight of the
first `d` vertices at the point `z`, which is the value at `z` of the polynomial that is one at
these vertices and zero at the others.
-/

namespace Multilinear

variable {F : Type*} [CommRing F]

/-- The weight of the first `d` vertices. -/
def ltWeight (z : List F) (d : Nat) : F := ∑ i ∈ Finset.range d, eqWeight z i

@[simp] theorem ltWeight_zero (z : List F) : ltWeight z 0 = 0 := by simp [ltWeight]

theorem ltWeight_succ (z : List F) (d : Nat) : ltWeight z (d + 1) = ltWeight z d + eqWeight z d :=
  Finset.sum_range_succ _ _

@[simp] theorem eqWeight_cons_two_mul (z : F) (zs : List F) (i : Nat) :
    eqWeight (z :: zs) (2 * i) = (1 - z) * eqWeight zs i := by
  rw [eqWeight, if_neg (by omega), Nat.mul_div_cancel_left i (by omega)]

@[simp] theorem eqWeight_cons_two_mul_add_one (z : F) (zs : List F) (i : Nat) :
    eqWeight (z :: zs) (2 * i + 1) = z * eqWeight zs i := by
  rw [eqWeight, if_pos (by omega)]
  congr 2
  omega

/-- The two vertices over a vertex have its weight. -/
theorem ltWeight_cons_two_mul (z : F) (zs : List F) (d : Nat) :
    ltWeight (z :: zs) (2 * d) = ltWeight zs d := by
  rw [ltWeight, sum_range_two_mul, ltWeight]
  apply Finset.sum_congr rfl
  intro i _
  rw [eqWeight_cons_two_mul, eqWeight_cons_two_mul_add_one]
  ring

/-- The weights of all vertices add up to one. -/
theorem ltWeight_two_pow (z : List F) : ltWeight z (2 ^ z.length) = 1 := by
  induction z with
  | nil => simp [ltWeight, eqWeight]
  | cons z zs ih => rw [List.length_cons, pow_succ, mul_comm, ltWeight_cons_two_mul, ih]

theorem eval_add (f g : Nat → F) (z : List F) :
    eval (fun i => f i + g i) z = eval f z + eval g z := by
  rw [eval, eval, eval, ← Finset.sum_add_distrib]
  exact Finset.sum_congr rfl fun i _ => add_mul _ _ _

theorem eval_mul_left (a : F) (f : Nat → F) (z : List F) :
    eval (fun i => a * f i) z = a * eval f z := by
  rw [eval, eval, Finset.mul_sum]
  exact Finset.sum_congr rfl fun i _ => mul_assoc _ _ _

@[simp] theorem eval_const (a : F) (z : List F) : eval (fun _ => a) z = a := by
  rw [eval, ← Finset.mul_sum]
  exact (congrArg (a * ·) (ltWeight_two_pow z)).trans (mul_one a)

/-- The sum of many tables. -/
theorem eval_sum {ι : Type*} (s : Finset ι) (f : ι → Nat → F) (z : List F) :
    eval (fun i => ∑ k ∈ s, f k i) z = ∑ k ∈ s, eval (f k) z := by
  simp only [eval, Finset.sum_mul]
  exact Finset.sum_comm

/-- A table that is zero from vertex `d` on. -/
theorem eval_of_lt {table : Nat → F} {z : List F} {d : Nat} (hd : d ≤ 2 ^ z.length)
    (hzero : ∀ i, d ≤ i → table i = 0) :
    eval table z = ∑ i ∈ Finset.range d, table i * eqWeight z i := by
  symm
  apply Finset.sum_subset (Finset.range_subset_range.mpr hd)
  intro i _ hi
  rw [hzero i (by simpa using hi), zero_mul]

/-- The polynomial that is one at the first `d` vertices. -/
theorem eval_lt {z : List F} {d : Nat} (hd : d ≤ 2 ^ z.length) :
    eval (fun i => if i < d then 1 else 0) z = ltWeight z d := by
  rw [eval_of_lt hd fun i hi => if_neg (by omega), ltWeight]
  apply Finset.sum_congr rfl
  intro i hi
  rw [if_pos (Finset.mem_range.mp hi), one_mul]

/-- A table of `d` chunks that is filled up with zero chunks. -/
theorem eval_append_of_lt {table : Nat → F} {lo hi : List F} {d : Nat} (hd : d ≤ 2 ^ hi.length)
    (hzero : ∀ i, d ≤ i / 2 ^ lo.length → table i = 0) :
    eval table (lo ++ hi) = ∑ j ∈ Finset.range d,
      eqWeight hi j * eval (fun i => table (j * 2 ^ lo.length + i)) lo := by
  rw [eval_append]
  symm
  apply Finset.sum_subset (Finset.range_subset_range.mpr hd)
  intro j _ hj
  have hchunk : eval (fun i => table (j * 2 ^ lo.length + i)) lo = eval (fun _ => 0) lo := by
    apply eval_congr
    intro i _
    apply hzero
    rw [Nat.mul_comm, Nat.mul_add_div (Nat.two_pow_pos _)]
    exact (not_lt.mp (by simpa using hj)).trans (Nat.le_add_right _ _)
  rw [hchunk, eval_const, mul_zero]

/-- The polynomial that is one in the first rows and columns of a matrix. -/
theorem eval_lt_lt {lo hi : List F} {rows columns : Nat} (hrows : rows ≤ 2 ^ hi.length)
    (hcolumns : columns ≤ 2 ^ lo.length) :
    eval (fun i => if i / 2 ^ lo.length < rows ∧ i % 2 ^ lo.length < columns then 1 else 0)
      (lo ++ hi) = ltWeight hi rows * ltWeight lo columns := by
  rw [eval_append_of_lt hrows fun i hi => if_neg (by omega), ltWeight, Finset.sum_mul]
  apply Finset.sum_congr rfl
  intro j hj
  rw [← eval_lt hcolumns]
  congr 1
  apply eval_congr
  intro i hi
  have hdiv : (j * 2 ^ lo.length + i) / 2 ^ lo.length = j := by
    rw [Nat.mul_comm, Nat.mul_add_div (Nat.two_pow_pos _), Nat.div_eq_of_lt hi, Nat.add_zero]
  have hmod : (j * 2 ^ lo.length + i) % 2 ^ lo.length = i := by
    rw [Nat.mul_comm, Nat.mul_add_mod, Nat.mod_eq_of_lt hi]
  rw [hdiv, hmod]
  simp [Finset.mem_range.mp hj]

/-- A product of a table of the chunks and of a table of the places in a chunk. -/
theorem eval_append_mul (f g : Nat → F) (lo hi : List F) :
    eval (fun i => f (i / 2 ^ lo.length) * g (i % 2 ^ lo.length)) (lo ++ hi) = eval f hi * eval g lo := by
  rw [eval_append, eval, Finset.sum_mul]
  apply Finset.sum_congr rfl
  intro j _
  have hchunk : eval (fun i => f ((j * 2 ^ lo.length + i) / 2 ^ lo.length) *
      g ((j * 2 ^ lo.length + i) % 2 ^ lo.length)) lo = eval (fun i => f j * g i) lo := by
    apply eval_congr
    intro i hi
    rw [Nat.mul_comm, Nat.mul_add_div (Nat.two_pow_pos _), Nat.div_eq_of_lt hi, Nat.add_zero,
      Nat.mul_add_mod, Nat.mod_eq_of_lt hi]
  rw [hchunk, eval_mul_left]
  ring

end Multilinear

/-!
## Square matrices

The table of a square matrix, row after row, is that of a polynomial in the coordinates of the column
and the row, the column first. `evalPair t x y` is its value at the column `x` and the row `y`.

### Key results

- `evalPair_le`: the polynomial of the matrix that is one where the first index is at most the second
- `evalPair_mul`: the polynomial of a product of matrices
-/

namespace Multilinear

variable {F : Type*} [CommRing F]

/-- The value at `x` and `y` of the polynomial that is `t i j` at the vertices `i` and `j`. -/
def evalPair (t : Nat → Nat → F) (x y : List F) : F :=
  ∑ j ∈ Finset.range (2 ^ y.length), eqWeight y j * eval (fun i => t i j) x

theorem evalPair_congr {t t' : Nat → Nat → F} {x y : List F}
    (h : ∀ i < 2 ^ x.length, ∀ j < 2 ^ y.length, t i j = t' i j) :
    evalPair t x y = evalPair t' x y := by
  apply Finset.sum_congr rfl
  intro j hj
  rw [eval_congr fun i hi => h i hi j (Finset.mem_range.mp hj)]

/-- The table of a matrix, row after row. -/
theorem eval_rows (t : Nat → Nat → F) (x y : List F) :
    eval (fun k => t (k % 2 ^ x.length) (k / 2 ^ x.length)) (x ++ y) = evalPair t x y := by
  rw [eval_append]
  apply Finset.sum_congr rfl
  intro j _
  congr 1
  apply eval_congr
  intro i hi
  rw [Nat.mul_comm, Nat.mul_add_mod, Nat.mod_eq_of_lt hi, Nat.mul_add_div (Nat.two_pow_pos _),
    Nat.div_eq_of_lt hi, Nat.add_zero]

/-- The coordinates of the row and those of the column can be fixed in either order. -/
theorem evalPair_comm (t : Nat → Nat → F) (x y : List F) :
    evalPair t x y = evalPair (fun j i => t i j) y x := by
  unfold evalPair eval
  simp only [Finset.mul_sum]
  rw [Finset.sum_comm]
  apply Finset.sum_congr rfl
  intro i _
  apply Finset.sum_congr rfl
  intro j _
  ring

/-- Fix the first coordinates of the column and of the row. -/
theorem evalPair_cons (t : Nat → Nat → F) (x y : F) (xs ys : List F) :
    evalPair t (x :: xs) (y :: ys) =
      (1 - y) * ((1 - x) * evalPair (fun i j => t (2 * i) (2 * j)) xs ys +
          x * evalPair (fun i j => t (2 * i + 1) (2 * j)) xs ys) +
        y * ((1 - x) * evalPair (fun i j => t (2 * i) (2 * j + 1)) xs ys +
          x * evalPair (fun i j => t (2 * i + 1) (2 * j + 1)) xs ys) := by
  unfold evalPair
  rw [List.length_cons, pow_succ, mul_comm, sum_range_two_mul]
  simp only [eval_cons, eqWeight_cons_two_mul, eqWeight_cons_two_mul_add_one, Finset.mul_sum,
    ← Finset.sum_add_distrib]
  apply Finset.sum_congr rfl
  intro j _
  ring

theorem evalPair_add (s t : Nat → Nat → F) (x y : List F) :
    evalPair (fun i j => s i j + t i j) x y = evalPair s x y + evalPair t x y := by
  unfold evalPair
  simp only [eval_add, mul_add, Finset.sum_add_distrib]

theorem evalPair_mul_left (a : F) (t : Nat → Nat → F) (x y : List F) :
    evalPair (fun i j => a * t i j) x y = a * evalPair t x y := by
  unfold evalPair
  simp only [eval_mul_left, Finset.mul_sum]
  exact Finset.sum_congr rfl fun _ _ => mul_left_comm _ _ _

/-- A matrix whose entries depend on the column only. -/
theorem evalPair_of_left (t : Nat → F) (x y : List F) :
    evalPair (fun i _ => t i) x y = eval t x := by
  unfold evalPair
  rw [← Finset.sum_mul]
  exact (congrArg (· * eval t x) (ltWeight_two_pow y)).trans (one_mul _)

/-- A matrix whose entries depend on the row only. -/
theorem evalPair_of_right (t : Nat → F) (x y : List F) :
    evalPair (fun _ j => t j) x y = eval t y := by
  rw [evalPair_comm, evalPair_of_left]

/-- The product of two matrices. -/
theorem evalPair_mul (s t : Nat → Nat → F) (n : Nat) (x y : List F) :
    evalPair (fun i j => ∑ k ∈ Finset.range n, s i k * t k j) x y =
      ∑ k ∈ Finset.range n, eval (fun i => s i k) x * eval (fun j => t k j) y := by
  unfold evalPair
  have hrow : ∀ j, eval (fun i => ∑ k ∈ Finset.range n, s i k * t k j) x =
      ∑ k ∈ Finset.range n, t k j * eval (fun i => s i k) x := by
    intro j
    rw [eval_sum]
    apply Finset.sum_congr rfl
    intro k _
    rw [← eval_mul_left]
    apply eval_congr
    intro i _
    exact mul_comm _ _
  simp only [hrow, Finset.mul_sum]
  rw [Finset.sum_comm]
  apply Finset.sum_congr rfl
  intro k _
  generalize eval (fun i => s i k) x = column
  rw [eval, Finset.mul_sum]
  apply Finset.sum_congr rfl
  intro j _
  ring

/-- Compare the lowest bits of two numbers after the others; `a` is the value of equal numbers. -/
def leWeight (a : F) (i j : Nat) : F := if i < j then 1 else if i = j then a else 0

/-- The comparison bit by bit, from the lowest. -/
theorem evalPair_leWeight_cons (a x y : F) (xs ys : List F) :
    evalPair (leWeight a) (x :: xs) (y :: ys) =
      evalPair (leWeight (a * (1 - x - y + 2 * x * y) + (1 - x) * y)) xs ys := by
  -- the entry where the numbers are equal up to the lowest bit
  have hsplit : ∀ b : F, ∀ i j, leWeight b i j = leWeight (0 : F) i j + b * if i = j then 1 else 0 := by
    intro b i j
    unfold leWeight
    by_cases hlt : i < j
    · simp [hlt, hlt.ne]
    · by_cases heq : i = j <;> simp [hlt, heq]
  have heven : ∀ b : F, ∀ i j, leWeight b (2 * i) (2 * j) = leWeight b i j := by
    intro b i j
    unfold leWeight
    have h₁ : 2 * i < 2 * j ↔ i < j := by omega
    have h₂ : 2 * i = 2 * j ↔ i = j := by omega
    simp only [h₁, h₂]
  have hodd : ∀ b : F, ∀ i j, leWeight b (2 * i + 1) (2 * j + 1) = leWeight b i j := by
    intro b i j
    unfold leWeight
    have h₁ : 2 * i + 1 < 2 * j + 1 ↔ i < j := by omega
    have h₂ : 2 * i + 1 = 2 * j + 1 ↔ i = j := by omega
    simp only [h₁, h₂]
  have hone : ∀ i j, leWeight a (2 * i) (2 * j + 1) = leWeight (1 : F) i j := by
    intro i j
    unfold leWeight
    have h₁ : 2 * i < 2 * j + 1 ↔ i < j ∨ i = j := by omega
    have h₂ : ¬ 2 * i = 2 * j + 1 := by omega
    by_cases hlt : i < j
    · simp [h₁, hlt]
    · by_cases heq : i = j <;> simp [h₁, h₂, hlt, heq]
  have hzero : ∀ i j, leWeight a (2 * i + 1) (2 * j) = leWeight (0 : F) i j := by
    intro i j
    unfold leWeight
    have h₁ : 2 * i + 1 < 2 * j ↔ i < j := by omega
    have h₂ : ¬ 2 * i + 1 = 2 * j := by omega
    simp [h₁, h₂]
  have hvalue : ∀ b : F, evalPair (leWeight b) xs ys =
      evalPair (leWeight 0) xs ys + b * evalPair (fun i j => if i = j then 1 else 0) xs ys := by
    intro b
    rw [← evalPair_mul_left, ← evalPair_add]
    exact evalPair_congr fun i _ j _ => hsplit b i j
  rw [evalPair_cons]
  simp only [heven, hodd, hone, hzero]
  rw [hvalue a, hvalue 1, hvalue (_ + _)]
  ring

/-- The polynomial of the matrix that is one where the first index is at most the second. -/
theorem evalPair_le {x y : List F} (h : x.length = y.length) :
    evalPair (fun i j => if i ≤ j then 1 else 0) x y =
      (x.zip y).foldl (fun acc (c, r) => acc * (1 - c - r + 2 * c * r) + (1 - c) * r) 1 := by
  have hfold : ∀ (a : F) (x y : List F), x.length = y.length → evalPair (leWeight a) x y =
      (x.zip y).foldl (fun acc (c, r) => acc * (1 - c - r + 2 * c * r) + (1 - c) * r) a := by
    intro a x
    induction x generalizing a with
    | nil =>
      intro y h
      obtain rfl : y = [] := List.length_eq_zero_iff.mp h.symm
      simp [evalPair, leWeight, eqWeight]
    | cons c x ih =>
      intro y h
      cases y with
      | nil => cases h
      | cons r y =>
        rw [evalPair_leWeight_cons, ih _ _ (Nat.succ_injective h)]
        rfl
  rw [← hfold 1 x y h]
  apply evalPair_congr
  intro i _ j _
  unfold leWeight
  by_cases hlt : i < j
  · rw [if_pos hlt.le, if_pos hlt]
  · by_cases heq : i = j
    · rw [if_pos heq.le, if_neg hlt, if_pos heq]
    · rw [if_neg (by omega), if_neg hlt, if_neg heq]

end Multilinear
