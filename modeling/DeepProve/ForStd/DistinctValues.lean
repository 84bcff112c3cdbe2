import Mathlib

/-!
# The distinct values of a sequence

The values of a sequence of numbers in the order in which they first occur. A sequence that takes
every value below `k`, and no other, has `k` distinct values after enough steps.
-/

namespace DeepProve

/-- The distinct ones of the first `n` values. -/
def distinctValues (f : Nat → Nat) : Nat → List Nat
  | 0 => []
  | n + 1 => if f n ∈ distinctValues f n then distinctValues f n else distinctValues f n ++ [f n]

variable {f : Nat → Nat}

theorem distinctValues_succ (n : Nat) : distinctValues f (n + 1) =
    if f n ∈ distinctValues f n then distinctValues f n else distinctValues f n ++ [f n] := rfl

theorem mem_distinctValues {n i : Nat} : i ∈ distinctValues f n ↔ ∃ m < n, f m = i := by
  induction n with
  | zero => exact ⟨nofun, fun ⟨_, hm, _⟩ => absurd hm (Nat.not_lt_zero _)⟩
  | succ n ih =>
    have hsplit : (∃ m < n + 1, f m = i) ↔ (∃ m < n, f m = i) ∨ f n = i := by
      constructor
      · rintro ⟨m, hm, hi⟩
        rcases Nat.lt_succ_iff_lt_or_eq.mp hm with hm | rfl
        · exact .inl ⟨m, hm, hi⟩
        · exact .inr hi
      · rintro (⟨m, hm, hi⟩ | hi)
        · exact ⟨m, by omega, hi⟩
        · exact ⟨n, by omega, hi⟩
    rw [hsplit, ← ih, distinctValues_succ]
    split
    · next hmem => exact ⟨.inl, fun h => h.elim id fun heq => heq ▸ hmem⟩
    · rw [List.mem_append, List.mem_singleton]
      exact or_congr_right eq_comm

theorem nodup_distinctValues (n : Nat) : (distinctValues f n).Nodup := by
  induction n with
  | zero => exact List.nodup_nil
  | succ n ih =>
    rw [distinctValues_succ]
    split
    · exact ih
    · next hmem =>
      refine List.nodup_append.mpr ⟨ih, List.nodup_singleton _, fun a ha b hb heq => hmem ?_⟩
      rw [← List.mem_singleton.mp hb, ← heq]
      exact ha

/-- A value more is at most one distinct value more. -/
theorem length_distinctValues_succ_le (n : Nat) :
    (distinctValues f (n + 1)).length ≤ (distinctValues f n).length + 1 := by
  rw [distinctValues_succ]
  split
  · omega
  · simp

theorem head?_distinctValues_succ (n : Nat) : (distinctValues f (n + 1)).head? = some (f 0) := by
  induction n with
  | zero => rfl
  | succ n ih =>
    rw [distinctValues_succ]
    split
    · exact ih
    · rw [List.head?_append, ih]
      rfl

theorem length_distinctValues_le {k : Nat} (hlt : ∀ n, f n < k) (n : Nat) :
    (distinctValues f n).length ≤ k := by
  have hsub : (distinctValues f n).toFinset ⊆ Finset.range k := by
    intro i hi
    obtain ⟨m, _, rfl⟩ := mem_distinctValues.mp (List.mem_toFinset.mp hi)
    exact Finset.mem_range.mpr (hlt m)
  have hcard := Finset.card_le_card hsub
  rwa [List.toFinset_card_of_nodup (nodup_distinctValues n), Finset.card_range] at hcard

/-- All values below `k` have occurred after enough steps. -/
theorem exists_le_length_distinctValues {k : Nat} (hall : ∀ i < k, ∃ n, f n = i) :
    ∃ n, k ≤ (distinctValues f n).length := by
  have hn : ∃ n, ∀ i < k, ∃ m < n, f m = i := by
    induction k with
    | zero => exact ⟨0, fun i hi => absurd hi (Nat.not_lt_zero i)⟩
    | succ k ih =>
      obtain ⟨n, hn⟩ := ih fun i hi => hall i (by omega)
      obtain ⟨m, hm⟩ := hall k (by omega)
      refine ⟨max n (m + 1), fun i hi => ?_⟩
      rcases Nat.lt_succ_iff_lt_or_eq.mp hi with hi | rfl
      · obtain ⟨j, hj, hfj⟩ := hn i hi
        exact ⟨j, by omega, hfj⟩
      · exact ⟨m, by omega, hm⟩
  obtain ⟨n, hn⟩ := hn
  refine ⟨n, ?_⟩
  have hsub : Finset.range k ⊆ (distinctValues f n).toFinset := by
    intro i hi
    exact List.mem_toFinset.mpr (mem_distinctValues.mpr (hn i (Finset.mem_range.mp hi)))
  have hcard := Finset.card_le_card hsub
  rwa [List.toFinset_card_of_nodup (nodup_distinctValues n), Finset.card_range] at hcard

end DeepProve
