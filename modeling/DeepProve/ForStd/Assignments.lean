import Mathlib

/-!
# Sums over named axes

An axis is a name with a size. An assignment gives each name an index, and the assignments of a list
of axes are listed with the last axis running fastest. The sum over all of them does not depend on
the order of the axes, and splits into a sum over some axes of sums over the others.
-/

namespace Assignments

variable {α : Type*} [DecidableEq α]

/-- All assignments to the axes, the last axis running fastest. Other names get zero. -/
def all : List (α × Nat) → List (α → Nat)
  | [] => [fun _ => 0]
  | (c, n) :: axes =>
    (List.range n).flatMap fun i => (all axes).map fun σ => Function.update σ c i

/-- The assignment `σ` on the given names, and `τ` on the others. -/
def override (names : List α) (σ τ : α → Nat) (c : α) : Nat := if c ∈ names then σ c else τ c

variable {M : Type*}

/-- The sum over all assignments. -/
def sumOver [AddMonoid M] (axes : List (α × Nat)) (f : (α → Nat) → M) : M :=
  ((all axes).map f).sum

theorem length_all (axes : List (α × Nat)) : (all axes).length = (axes.map Prod.snd).prod := by
  induction axes with
  | nil => rfl
  | cons axis axes ih =>
    obtain ⟨c, n⟩ := axis
    simp only [all, List.length_flatMap, List.length_map, ih, List.map_cons, List.prod_cons]
    rw [List.map_const', List.length_range, List.sum_replicate_nat]

section AddCommMonoid

variable [AddCommMonoid M]

theorem sum_flatMap_range (n : Nat) (g : Nat → List M) :
    ((List.range n).flatMap g).sum = ∑ i ∈ Finset.range n, (g i).sum := by
  induction n with
  | zero => rfl
  | succ n ih =>
    rw [List.range_succ, List.flatMap_append, List.sum_append, ih, List.flatMap_singleton,
      Finset.sum_range_succ]

@[simp] theorem sumOver_nil (f : (α → Nat) → M) : sumOver [] f = f fun _ => 0 := by
  simp [sumOver, all]

theorem sumOver_cons (c : α) (n : Nat) (axes : List (α × Nat)) (f : (α → Nat) → M) :
    sumOver ((c, n) :: axes) f =
      ∑ i ∈ Finset.range n, sumOver axes fun σ => f (Function.update σ c i) := by
  unfold sumOver
  rw [all, List.map_flatMap, sum_flatMap_range]
  apply Finset.sum_congr rfl
  intro i _
  rw [List.map_map]
  rfl

theorem sumOver_congr {axes : List (α × Nat)} {f g : (α → Nat) → M}
    (h : ∀ σ ∈ all axes, f σ = g σ) : sumOver axes f = sumOver axes g := by
  unfold sumOver
  rw [List.map_congr_left h]

/-- The order of the axes does not matter. -/
theorem sumOver_perm {axes axes' : List (α × Nat)} (h : axes.Perm axes')
    (hnodup : (axes.map Prod.fst).Nodup) (f : (α → Nat) → M) : sumOver axes f = sumOver axes' f := by
  induction h generalizing f with
  | nil => rfl
  | cons axis _ ih =>
    obtain ⟨c, n⟩ := axis
    rw [List.map_cons, List.nodup_cons] at hnodup
    simp only [sumOver_cons]
    exact Finset.sum_congr rfl fun i _ => ih hnodup.2 _
  | swap axis axis' axes =>
    obtain ⟨c, n⟩ := axis
    obtain ⟨d, m⟩ := axis'
    have hne : c ≠ d := by
      intro heq
      simp [heq] at hnodup
    simp only [sumOver_cons]
    rw [Finset.sum_comm]
    refine Finset.sum_congr rfl fun i _ => Finset.sum_congr rfl fun j _ => ?_
    -- the two indices are set independently
    apply sumOver_congr
    intro σ _
    rw [Function.update_comm hne]
  | trans hperm _ ih ih' =>
    rw [ih hnodup, ih' ((hperm.map _).nodup_iff.mp hnodup)]

/-- A sum over all axes is a sum over the first of sums over the others. -/
theorem sumOver_append (axes axes' : List (α × Nat)) (f : (α → Nat) → M) :
    sumOver (axes ++ axes') f =
      sumOver axes fun σ => sumOver axes' fun τ => f (override (axes.map Prod.fst) σ τ) := by
  induction axes generalizing f with
  | nil =>
    have hnone : ∀ τ : α → Nat, override [] (fun _ => 0) τ = τ := by
      intro τ
      funext c
      exact if_neg List.not_mem_nil
    simp only [List.nil_append, List.map_nil, sumOver_nil, hnone]
  | cons axis axes ih =>
    obtain ⟨c, n⟩ := axis
    rw [List.cons_append, sumOver_cons, sumOver_cons]
    refine Finset.sum_congr rfl fun i _ => ?_
    rw [ih]
    refine sumOver_congr fun σ _ => sumOver_congr fun τ _ => ?_
    congr 1
    funext x
    unfold override
    rw [List.map_cons]
    by_cases hx : x = c
    · simp [hx]
    · have hmem : x ∈ c :: axes.map Prod.fst ↔ x ∈ axes.map Prod.fst := by
        rw [List.mem_cons, or_iff_right hx]
      rw [Function.update_of_ne hx, Function.update_of_ne hx]
      simp only [hmem]

end AddCommMonoid

section Semiring

variable {R : Type*} [CommSemiring R]

theorem mul_sumOver (a : R) (axes : List (α × Nat)) (f : (α → Nat) → R) :
    a * sumOver axes f = sumOver axes fun σ => a * f σ :=
  (List.sum_map_mul_left _ _ _).symm

theorem sumOver_mul (a : R) (axes : List (α × Nat)) (f : (α → Nat) → R) :
    sumOver axes f * a = sumOver axes fun σ => f σ * a :=
  (List.sum_map_mul_right _ _ _).symm

end Semiring

end Assignments
