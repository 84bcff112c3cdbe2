import DeepProve.ForStd.Cells

/-!
# Taking lists apart and interleaving them

`stepBy n` takes every `n`-th entry, and `interleave` the entries of two lists in turn. Many lists
are merged by interleaving the first half of them with the second one, until one is left; the
entries of that one are then those of the lists, one from each in turn.
-/

namespace List

variable {α : Type}

/-- Every `n`-th entry, from the first one on. -/
def stepBy (n : Nat) (l : List α) : List α :=
  (range ((l.length + (n - 1)) / n)).filterMap fun i => l[i * n]?

/-- The entries of `w` lists in turn: those of the lists `j`, `j + h`, `j + 2 * h`, and so on. -/
def inTurn (entry : Nat → Nat → α) (h w n j : Nat) : List α :=
  cells (w * n) fun p => entry (j + p % w * h) (p / w)

variable {f g : Nat → α}

/-- The entries from `i` on, with a given distance. -/
theorem stepBy_drop_cells {n q i : Nat} (hi : i < n) (hq : 0 < q) :
    stepBy n ((cells (q * n) f).drop i) = cells q fun t => f (i + t * n) := by
  have hn : 0 < n := Nat.zero_lt_of_lt hi
  have hle : n ≤ q * n := Nat.le_mul_of_pos_left n hq
  have hcount : (q * n - i + (n - 1)) / n = q := by
    rw [Nat.div_eq_of_lt_le]
    · omega
    · rw [Nat.succ_mul]
      omega
  have hentry : ∀ t ∈ range q, ((cells (q * n) f).drop i)[t * n]? = some (f (i + t * n)) := by
    intro t ht
    have hstep : t * n + n ≤ q * n := by
      rw [← Nat.succ_mul]
      exact Nat.mul_le_mul_right n (mem_range.mp ht)
    rw [getElem?_drop, getElem?_cells (by omega)]
  rw [stepBy, length_drop, length_cells, hcount, filterMap_congr hentry, cells]
  exact congrFun (filterMap_eq_map (f := fun t => f (i + t * n))) _

theorem interleave_cells (n : Nat) :
    interleave (cells n f) (cells n g) =
      cells (2 * n) fun p => if p % 2 = 0 then f (p / 2) else g (p / 2) := by
  induction n generalizing f g with
  | zero => exact nil_interleave _
  | succ n ih =>
    have hcons : ∀ (m : Nat) (h : Nat → α), cells (m + 1) h = h 0 :: cells m fun i => h (i + 1) := by
      intro m h
      rw [cells, range_succ_eq_map, map_cons, map_map]
      rfl
    rw [hcons, hcons n g, cons_interleave, cons_interleave, ih, Nat.mul_succ,
      hcons (2 * n + 1), hcons (2 * n)]
    congr 2
    apply cells_congr
    intro p _
    have hmod : (p + 1 + 1) % 2 = p % 2 := by omega
    have hdiv : (p + 1 + 1) / 2 = p / 2 + 1 := by omega
    rw [hmod, hdiv]

/-- One round of the merging: there are half as many lists, with the entries of twice as many. -/
theorem zipWith_interleave_inTurn (entry : Nat → Nat → α) (h w n : Nat) :
    zipWith interleave ((cells (2 * h) (inTurn entry (2 * h) w n)).take h)
        ((cells (2 * h) (inTurn entry (2 * h) w n)).drop h) =
      cells h (inTurn entry h (2 * w) n) := by
  have hhalf : 2 * h - h = h := by omega
  have hdrop := take_drop_cells (f := inTurn entry (2 * h) w n) (show h + h ≤ 2 * h by omega)
  have htake := take_drop_cells (f := inTurn entry (2 * h) w n) (show 0 + h ≤ 2 * h by omega)
  rw [drop_zero] at htake
  rw [take_of_length_le (by rw [length_drop, length_cells, hhalf])] at hdrop
  rw [hdrop, htake, zipWith_cells]
  apply cells_congr
  intro j _
  rw [Nat.zero_add, inTurn, inTurn, interleave_cells, inTurn, Nat.mul_assoc]
  apply cells_congr
  intro p _
  have hdiv : p / 2 / w = p / (2 * w) := Nat.div_div_eq_div_mul p 2 w
  have hmod : p % (2 * w) = p % 2 + 2 * (p / 2 % w) := Nat.mod_mul
  rw [hdiv, hmod]
  split
  case isTrue heven =>
    rw [heven]
    congr 1
    ring
  case isFalse hodd =>
    have hone : p % 2 = 1 := by omega
    rw [hone]
    congr 1
    ring

end List
