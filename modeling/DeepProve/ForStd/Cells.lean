import Mathlib

/-!
# Lists as functions on their indices

A list of a known length is the list of the values of a function. Setting an entry updates the
function, so that loops which change a list in place become loops on functions.
-/

namespace List

variable {α β : Type}

/-- The values of a function on the indices below `n`. -/
def cells (n : Nat) (f : Nat → α) : List α := (range n).map f

variable {n : Nat} {f g : Nat → α}

@[simp] theorem length_cells : (cells n f).length = n := by
  simp [cells]

theorem getElem?_cells {i : Nat} (hi : i < n) : (cells n f)[i]? = some (f i) := by
  simp [cells, hi]

theorem getElem?_cells_eq_none {i : Nat} (hi : n ≤ i) : (cells n f)[i]? = none := by
  simp [cells, hi]

theorem cells_congr (h : ∀ i < n, f i = g i) : cells n f = cells n g :=
  map_congr_left fun i hi => h i (mem_range.mp hi)

theorem cells_inj : cells n f = cells n g ↔ ∀ i < n, f i = g i := by
  constructor
  · intro h i hi
    have hentry := congrArg (·[i]?) h
    simpa only [getElem?_cells hi, Option.some.injEq] using hentry
  · exact cells_congr

/-- Every list is one of cells. -/
theorem eq_cells [Inhabited α] (l : List α) : l = cells l.length fun i => l.getD i default := by
  apply ext_getElem
  · simp
  · intro i hi _
    simp [cells, hi]

theorem exists_cells [Inhabited α] (l : List α) : ∃ n f, l = cells n f := ⟨_, _, eq_cells l⟩

theorem exists_cells_of_length [Inhabited α] {l : List α} (h : l.length = n) : ∃ f, l = cells n f :=
  ⟨_, h ▸ eq_cells l⟩

theorem forall_mem_cells {p : α → Prop} : (∀ a ∈ cells n f, p a) ↔ ∀ i < n, p (f i) := by
  simp [cells]

theorem map_cells (h : α → β) : (cells n f).map h = cells n fun i => h (f i) := by
  simp [cells, Function.comp_def]

theorem zipWith_cells {γ : Type} (h : α → β → γ) (f : Nat → α) (g : Nat → β) :
    zipWith h (cells n f) (cells n g) = cells n fun i => h (f i) (g i) := by
  rw [cells, cells, zipWith_map, zipWith_self]
  rfl

theorem replicate_eq_cells (n : Nat) (a : α) : replicate n a = cells n fun _ => a := by
  rw [cells, map_const', length_range]

/-- Setting an entry updates the function. -/
theorem set_cells {i : Nat} {a : α} :
    (cells n f).set i a = cells n (Function.update f i a) := by
  apply ext_getElem
  · simp
  · intro j hj _
    rw [getElem_set]
    by_cases hij : i = j
    · subst hij
      simp [cells]
    · rw [if_neg hij]
      simp [cells, Function.update_of_ne (Ne.symm hij)]

/-- A piece of the list. -/
theorem take_drop_cells {i k : Nat} (h : i + k ≤ n) :
    ((cells n f).drop i).take k = cells k fun j => f (i + j) := by
  apply ext_getElem
  · simp
    omega
  · intro j _ _
    simp [cells]

/-- Some entries are replaced. -/
theorem splice_cells {a k : Nat} (h : a + k ≤ n) (g : Nat → α) :
    (cells n f).take a ++ cells k g ++ (cells n f).drop (a + k) =
      cells n fun i => if a ≤ i ∧ i < a + k then g (i - a) else f i := by
  apply ext_getElem
  · simp
    omega
  · intro i hi _
    have hmin : min a n = a := by omega
    rw [getElem_append]
    by_cases hlow : i < a
    · have hnot : ¬ a ≤ i := not_le.mpr hlow
      simp [cells, hmin, hlow, hnot, Nat.lt_add_right]
    · by_cases hmid : i < a + k
      · simp [cells, hmin, hmid, not_lt.mp hlow]
      · have hback : a + k + (i - (a + k)) = i := by omega
        simp [cells, hmin, hmid, hback]

/-- Blocks of the same length make up one list. -/
theorem flatten_cells (q k : Nat) (g : Nat → Nat → α) (hk : 0 < k) :
    ((range q).map fun c => cells k (g c)).flatten = cells (q * k) fun p => g (p / k) (p % k) := by
  induction q with
  | zero => simp [cells]
  | succ q ih =>
    have hsplit : cells ((q + 1) * k) (fun p => g (p / k) (p % k)) =
        cells (q * k) (fun p => g (p / k) (p % k)) ++ cells k (g q) := by
      rw [Nat.succ_mul, cells, range_add, map_append, map_map]
      congr 1
      apply map_congr_left
      intro j hj
      have hj := mem_range.mp hj
      have hdiv : (q * k + j) / k = q := by
        rw [Nat.mul_comm, Nat.mul_add_div hk, Nat.div_eq_of_lt hj, Nat.add_zero]
      have hmod : (q * k + j) % k = j := by
        rw [Nat.mul_comm, Nat.mul_add_mod, Nat.mod_eq_of_lt hj]
      simp only [Function.comp_apply, hdiv, hmod]
    rw [range_succ, map_append, flatten_append, ih, hsplit]
    simp

end List
