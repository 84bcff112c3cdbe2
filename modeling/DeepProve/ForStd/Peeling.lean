import Mathlib

/-!
# Peeling

Each check is the list of the indices that it is the sum of. An index can be peeled if all other
indices of one of its checks can; so the indices that are peeled are the least set that is closed
under this rule. A decoder that gives up on a check unless its first index is the missing one computes
a smaller set.
-/

namespace Peeling

variable {α : Type*}

/-- The indices that can be peeled, given some checks. -/
inductive Peeled (checks : List (List α)) : α → Prop where
  | peel {check : List α} {i : α} (hcheck : check ∈ checks) (hi : i ∈ check)
      (hothers : ∀ j ∈ check, j ≠ i → Peeled checks j) : Peeled checks i

/-- The indices that can be peeled from some known ones, if only the first index of a check is
    ever peeled. -/
inductive FirstPeeled (checks : List (List α)) (known : α → Prop) : α → Prop where
  | known {i : α} (h : known i) : FirstPeeled checks known i
  | first {i : α} {rest : List α} (hcheck : i :: rest ∈ checks)
      (hothers : ∀ j ∈ rest, FirstPeeled checks known j) : FirstPeeled checks known i

variable {checks : List (List α)} {known : α → Prop} {i : α}

/-- A set that is closed under the rule has all indices that can be peeled. -/
theorem Peeled.of_closed {D : α → Prop}
    (hclosed : ∀ check ∈ checks, ∀ i ∈ check, (∀ j ∈ check, j ≠ i → D j) → D i)
    (h : Peeled checks i) : D i := by
  induction h with
  | peel hcheck hi _ ih => exact hclosed _ hcheck _ hi ih

theorem Peeled.mono {checks' : List (List α)} (hsub : ∀ check ∈ checks, check ∈ checks')
    (h : Peeled checks i) : Peeled checks' i := by
  induction h with
  | peel hcheck hi _ ih => exact .peel (hsub _ hcheck) hi ih

theorem Peeled.exists_mem (h : Peeled checks i) : ∃ check ∈ checks, i ∈ check := by
  cases h with
  | peel hcheck hi _ => exact ⟨_, hcheck, hi⟩

/-- What is peeled first is peeled, if what is known is. -/
theorem FirstPeeled.peeled (hknown : ∀ i, known i → Peeled checks i)
    (h : FirstPeeled checks known i) : Peeled checks i := by
  induction h with
  | known h => exact hknown _ h
  | first hcheck _ ih =>
    refine .peel hcheck (List.mem_cons_self ..) fun j hj hne => ?_
    exact ih j ((List.mem_cons.mp hj).resolve_left hne)

theorem FirstPeeled.of_closed {D : α → Prop} (hknown : ∀ i, known i → D i)
    (hclosed : ∀ i rest, i :: rest ∈ checks → (∀ j ∈ rest, D j) → D i)
    (h : FirstPeeled checks known i) : D i := by
  induction h with
  | known h => exact hknown _ h
  | first hcheck _ ih => exact hclosed _ _ hcheck ih

theorem FirstPeeled.mono {checks' : List (List α)} {known' : α → Prop}
    (hsub : ∀ check ∈ checks, check ∈ checks') (hknown : ∀ i, known i → known' i)
    (h : FirstPeeled checks known i) : FirstPeeled checks' known' i := by
  induction h with
  | known h => exact .known (hknown _ h)
  | first hcheck _ ih => exact .first (hsub _ hcheck) ih

end Peeling
