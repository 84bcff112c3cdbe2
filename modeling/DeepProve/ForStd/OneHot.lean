import DeepProve.ForStd.Multilinear

/-!
# One-hot matrices

The matrix of a list of numbers has one row for each number, with a one in its column. As a polynomial
it is a sum over the list, and it determines the list.
-/

namespace Multilinear

variable {F : Type*} [CommRing F]

/-- The entry in column `v` and row `j`. -/
def oneHot (tokens : List Nat) (v j : Nat) : F := if tokens[j]? = some v then 1 else 0

/-- The value of the polynomial, from the entries that are one. -/
theorem evalPair_oneHot {tokens : List Nat} {x y : List F} (hlength : tokens.length ≤ 2 ^ y.length)
    (htokens : ∀ t ∈ tokens, t < 2 ^ x.length) :
    evalPair (oneHot tokens) x y =
      ∑ j ∈ Finset.range tokens.length, eqWeight y j * eqWeight x (tokens.getD j 0) := by
  have hrow : ∀ j < tokens.length, eval (fun v => oneHot tokens v j) x = eqWeight x (tokens.getD j 0) := by
    intro j hj
    have hmem : tokens[j] < 2 ^ x.length := htokens _ (List.getElem_mem hj)
    rw [eval, Finset.sum_eq_single tokens[j]]
    · rw [oneHot, if_pos (List.getElem?_eq_getElem hj), one_mul,
        List.getD_eq_getElem?_getD, List.getElem?_eq_getElem hj, Option.getD_some]
    · intro v _ hv
      rw [oneHot, if_neg, zero_mul]
      rw [List.getElem?_eq_getElem hj]
      exact fun heq => hv (Option.some.inj heq).symm
    · intro hnot
      exact absurd (Finset.mem_range.mpr hmem) hnot
  unfold evalPair
  symm
  rw [← Finset.sum_subset (Finset.range_subset_range.mpr hlength)]
  · apply Finset.sum_congr rfl
    intro j hj
    rw [hrow j (Finset.mem_range.mp hj)]
  · intro j _ hj
    have hnone : tokens[j]? = none := List.getElem?_eq_none (by simpa using hj)
    have hzero : eval (fun v => oneHot tokens v j) x = 0 := by
      apply Finset.sum_eq_zero
      intro v _
      simp [oneHot, hnone]
    rw [hzero, mul_zero]

/-- The value at vertices is the entry of the matrix. -/
theorem evalPair_vertex (t : Nat → Nat → F) {m n i j : Nat} (hi : i < 2 ^ m) (hj : j < 2 ^ n) :
    evalPair t (vertex m i) (vertex n j) = t i j := by
  have hrow : evalPair t (vertex m i) (vertex n j) =
      eval (fun j => eval (fun i => t i j) (vertex m i)) (vertex n j) :=
    Finset.sum_congr rfl fun _ _ => mul_comm _ _
  rw [hrow, eval_vertex _ hj, eval_vertex _ hi]

/-- The polynomial determines the list. -/
theorem eq_of_evalPair_oneHot [Nontrivial F] {tokens tokens' : List Nat} {m n : Nat}
    (hlength : tokens.length ≤ 2 ^ n) (hlength' : tokens'.length ≤ 2 ^ n)
    (htokens : ∀ t ∈ tokens, t < 2 ^ m) (htokens' : ∀ t ∈ tokens', t < 2 ^ m)
    (h : ∀ x y : List F, x.length = m → y.length = n →
      evalPair (oneHot tokens) x y = evalPair (oneHot tokens') x y) : tokens = tokens' := by
  have hentry : ∀ v < 2 ^ m, ∀ j < 2 ^ n, tokens[j]? = some v ↔ tokens'[j]? = some v := by
    intro v hv j hj
    have heval := h (vertex m v) (vertex n j) (vertex_length m v) (vertex_length n j)
    rw [evalPair_vertex _ hv hj, evalPair_vertex _ hv hj, oneHot, oneHot] at heval
    by_cases hleft : tokens[j]? = some v <;> by_cases hright : tokens'[j]? = some v <;> simp_all
  apply List.ext_getElem?
  intro j
  rcases Nat.lt_or_ge j (2 ^ n) with hj | hj
  · cases hget : tokens[j]? with
    | some v =>
      have hv := htokens v (List.mem_of_getElem? hget)
      exact ((hentry v hv j hj).mp hget).symm
    | none =>
      cases hget' : tokens'[j]? with
      | some v =>
        have hv := htokens' v (List.mem_of_getElem? hget')
        rw [(hentry v hv j hj).mpr hget'] at hget
        cases hget
      | none => rfl
  · rw [List.getElem?_eq_none (hlength.trans hj), List.getElem?_eq_none (hlength'.trans hj)]

/-- A number is added to one entry of a table, and the table is weighed. -/
theorem sum_set_add {table : List F} {i : Nat} (hi : i < table.length) (b : F) (f : Nat → F) :
    ∑ k ∈ Finset.range table.length, (table.set i (table[i] + b)).getD k 0 * f k =
      ∑ k ∈ Finset.range table.length, table.getD k 0 * f k + b * f i := by
  have hentry : ∀ k, (table.set i (table[i] + b)).getD k 0 = table.getD k 0 + if i = k then b else 0 := by
    intro k
    simp only [List.getD_eq_getElem?_getD, List.getElem?_set]
    by_cases hk : i = k
    · subst hk
      simp [hi]
    · simp [hk]
  simp only [hentry, add_mul, Finset.sum_add_distrib, ite_mul, zero_mul]
  rw [Finset.sum_ite_eq, if_pos (Finset.mem_range.mpr hi)]

end Multilinear
