import Mathlib

/-!
# Balanced segments of a list

A list is cut into a number of consecutive segments. Each segment takes its share of what is left,
rounded up, so the shares of any two segments differ by at most one.
-/

theorem List.Pairwise.of_getElem? {α : Type} {r : α → α → Prop} {l : List α} (h : l.Pairwise r)
    {i j : Nat} {a b : α} (hlt : i < j) (ha : l[i]? = some a) (hb : l[j]? = some b) : r a b := by
  obtain ⟨hi, rfl⟩ := List.getElem?_eq_some_iff.mp ha
  obtain ⟨hj, rfl⟩ := List.getElem?_eq_some_iff.mp hb
  exact List.pairwise_iff_getElem.mp h i j hi hj hlt

namespace Segments

/-- The share of one of `parts`, rounded up. -/
def quota (total parts : Nat) : Nat :=
  if 0 < total % parts then total / parts + 1 else total / parts

variable {parts : Nat}

theorem quota_eq {total q r : Nat} (htotal : total = q * (parts + 1) + r) (hr : r < parts + 1) :
    quota total (parts + 1) = if 0 < r then q + 1 else q := by
  have hmod : total % (parts + 1) = r := by
    rw [htotal, Nat.mul_add_mod', Nat.mod_eq_of_lt hr]
  have hdiv : total / (parts + 1) = q := by
    rw [htotal, Nat.mul_comm, Nat.mul_add_div (Nat.succ_pos _), Nat.div_eq_of_lt hr, Nat.add_zero]
  rw [quota, hmod, hdiv]

/-- With one element for each part, the share leaves one for each of the others, and none for the
    last part. -/
theorem quota_bounds {total : Nat} (h : parts + 1 ≤ total) :
    0 < quota total (parts + 1) ∧ quota total (parts + 1) ≤ total ∧
      parts ≤ total - quota total (parts + 1) ∧
        (parts = 0 → total - quota total (parts + 1) = 0) := by
  have hlt := Nat.mod_lt total (Nat.succ_pos parts)
  have htotal : total = total / (parts + 1) * (parts + 1) + total % (parts + 1) := by
    rw [Nat.mul_comm]
    exact (Nat.div_add_mod total (parts + 1)).symm
  have hpos : 0 < total / (parts + 1) := Nat.div_pos h (Nat.succ_pos parts)
  rw [quota_eq htotal hlt]
  generalize total / (parts + 1) = q at htotal hpos ⊢
  generalize total % (parts + 1) = r at htotal hlt ⊢
  have hmul : q * (parts + 1) = q * parts + q := by ring
  have hparts : parts ≤ q * parts := Nat.le_mul_of_pos_left _ hpos
  refine ⟨?_, ?_, ?_, ?_⟩
  · split <;> omega
  · split <;> omega
  · split <;> omega
  · rintro rfl
    split <;> omega

variable {α : Type}

/-- Each segment has its share of what is left. -/
def segments : Nat → List α → List (List α)
  | 0, _ => []
  | parts + 1, l =>
    l.take (quota l.length (parts + 1)) :: segments parts (l.drop (quota l.length (parts + 1)))

@[simp] theorem length_segments (parts : Nat) (l : List α) : (segments parts l).length = parts := by
  induction parts generalizing l with
  | zero => rfl
  | succ parts ih => rw [segments, List.length_cons, ih]

/-- With `q` elements or one more for each part, there are as many in each segment, and the segments
    are the list. -/
theorem segments_spec {q r : Nat} {l : List α} (hlength : l.length = q * parts + r)
    (hr : r < parts ∨ parts = 0 ∧ r = 0) :
    (segments parts l).flatten = l ∧
      ∀ s ∈ segments parts l, s.length = q ∨ s.length = q + 1 := by
  induction parts generalizing l r with
  | zero =>
    have hnil : l = [] := List.eq_nil_of_length_eq_zero (by omega)
    rw [hnil]
    exact ⟨rfl, fun s hs => nomatch hs⟩
  | succ parts ih =>
    have hlt : r < parts + 1 := by omega
    have hquota := quota_eq hlength hlt
    have hmul : q * (parts + 1) = q * parts + q := by ring
    -- the rest has one part less, and one more element is used up if there is any
    obtain ⟨r', hr', hrest⟩ : ∃ r', (r' < parts ∨ parts = 0 ∧ r' = 0) ∧
        (l.drop (quota l.length (parts + 1))).length = q * parts + r' := by
      refine ⟨r - 1, by omega, ?_⟩
      rw [List.length_drop, hquota]
      split <;> omega
    obtain ⟨hflatten, hsizes⟩ := ih hrest hr'
    refine ⟨?_, ?_⟩
    · rw [segments, List.flatten_cons, hflatten, List.take_append_drop]
    · intro s hs
      rw [segments, List.mem_cons] at hs
      rcases hs with rfl | hs
      · rw [List.length_take, hquota]
        split <;> omega
      · exact hsizes s hs

theorem flatten_segments {l : List α} (hparts : 0 < parts) :
    (segments parts l).flatten = l :=
  (segments_spec (by rw [Nat.mul_comm]; exact (Nat.div_add_mod l.length parts).symm)
    (.inl (Nat.mod_lt _ hparts))).1

/-- Each segment has the share of one part, or one element more. -/
theorem length_of_mem_segments {l s : List α} (hparts : 0 < parts) (hs : s ∈ segments parts l) :
    s.length = l.length / parts ∨ s.length = l.length / parts + 1 :=
  (segments_spec (by rw [Nat.mul_comm]; exact (Nat.div_add_mod l.length parts).symm)
    (.inl (Nat.mod_lt _ hparts))).2 s hs

end Segments
