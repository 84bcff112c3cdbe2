import DeepProve.ForStd.Cells
import DeepProve.Outcome

/-!
# Vectors that are changed in place

Indexing, assignment and swapping of a `Vec`, which panic when an index is out of range, and
loops of such changes.
-/

namespace DeepProve.Vec

variable {α β : Type}

/-- `v[i]`. -/
def get (v : List α) (i : Nat) : Outcome α := unwrap v[i]? "index out of bounds"

/-- `v[i] = a`. -/
def set (v : List α) (i : Nat) (a : α) : Outcome (List α) :=
  if i < v.length then .ok (v.set i a) else .error (.panic "index out of bounds")

/-- `swap`. -/
def swap (v : List α) (i j : Nat) : Outcome (List α) := do
  let a ← get v i
  let b ← get v j
  let v ← set v i b
  set v j a

/-- `resize`. -/
def resize (v : List α) (n : Nat) (a : α) : List α := v.take n ++ List.replicate (n - v.length) a

/-- `copy_within(start..end, dest)`. -/
def copyWithin (v : List α) (start stop dest : Nat) : Outcome (List α) :=
  if start ≤ stop ∧ stop ≤ v.length ∧ dest + (stop - start) ≤ v.length then
    .ok (v.take dest ++ (v.drop start).take (stop - start) ++ v.drop (dest + (stop - start)))
  else
    .error (.panic "dest is out of bounds")

/-- `v[start..end].fill(a)`. -/
def fill (v : List α) (start stop : Nat) (a : α) : Outcome (List α) :=
  if start ≤ stop ∧ stop ≤ v.length then
    .ok (v.take start ++ List.replicate (stop - start) a ++ v.drop stop)
  else
    .error (.panic "range end index out of range")

variable {n : Nat} {f : Nat → α}

theorem get_cells {i : Nat} (hi : i < n) : get (List.cells n f) i = .ok (f i) := by
  rw [get, List.getElem?_cells hi, unwrap_some]

theorem set_cells {i : Nat} (hi : i < n) (a : α) :
    set (List.cells n f) i a = .ok (List.cells n (Function.update f i a)) := by
  rw [set, if_pos (by rwa [List.length_cells]), List.set_cells]

theorem swap_cells {i j : Nat} (hi : i < n) (hj : j < n) :
    swap (List.cells n f) i j =
      .ok (List.cells n (Function.update (Function.update f i (f j)) j (f i))) := by
  rw [swap, get_cells hi, Outcome.ok_bind, get_cells hj, Outcome.ok_bind, set_cells hi,
    Outcome.ok_bind, set_cells hj]

/-- Growing a vector keeps its entries. -/
theorem resize_cells {m : Nat} (h : n ≤ m) (a : α) :
    resize (List.cells n f) m a = List.cells m fun i => if i < n then f i else a := by
  apply List.ext_getElem
  · simp [resize]
    omega
  · intro i hi _
    by_cases hin : i < n
    · simp [resize, List.cells, hin, Nat.lt_of_lt_of_le hin h]
    · simp [resize, List.cells, hin, List.getElem_append]

theorem copyWithin_cells {start stop dest : Nat} (hstart : start ≤ stop) (hstop : stop ≤ n)
    (hdest : dest + (stop - start) ≤ n) :
    copyWithin (List.cells n f) start stop dest = .ok (List.cells n fun i =>
      if dest ≤ i ∧ i < dest + (stop - start) then f (start + (i - dest)) else f i) := by
  have hpiece : start + (stop - start) ≤ n := by omega
  rw [copyWithin, if_pos (by simpa using ⟨hstart, hstop, hdest⟩), List.take_drop_cells hpiece,
    List.splice_cells hdest]

theorem fill_cells {start stop : Nat} (hstart : start ≤ stop) (hstop : stop ≤ n) (a : α) :
    fill (List.cells n f) start stop a =
      .ok (List.cells n fun i => if start ≤ i ∧ i < stop then a else f i) := by
  have hpiece : start + (stop - start) = stop := by omega
  have hsplice := List.splice_cells (f := f) (show start + (stop - start) ≤ n by omega) fun _ => a
  rw [hpiece] at hsplice
  rw [fill, if_pos (by simpa using ⟨hstart, hstop⟩), List.replicate_eq_cells, hsplice]

/-- A loop whose steps update the entries. -/
theorem foldlM_cells {step : List α → β → Outcome (List α)} {upd : (Nat → α) → β → Nat → α}
    {l : List β} (h : ∀ b ∈ l, ∀ f, step (List.cells n f) b = .ok (List.cells n (upd f b)))
    (f : Nat → α) :
    l.foldlM step (List.cells n f) = .ok (List.cells n (l.foldl upd f)) := by
  induction l generalizing f with
  | nil => rfl
  | cons b l ih =>
    obtain ⟨hb, hl⟩ := List.forall_mem_cons.mp h
    rw [List.foldlM_cons, hb f, Outcome.ok_bind, ih hl, List.foldl_cons]

end DeepProve.Vec
