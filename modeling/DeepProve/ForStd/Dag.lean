import Mathlib

/-!
# Finite acyclic graphs: depth, evaluation, execution

A graph is a relation `r u v` ("`u` is a direct predecessor of `v`") on a type of
vertices together with a finite set of vertices. For acyclic ones:

* `depth` strictly increases along the edges and stays below the number of vertices;
* `iterate` evaluates a quantity defined from the predecessors' one, and reaches
  the fixed point within as many rounds as there are vertices;
* `Step` executes the vertices, each after its predecessors, any number of
  them running at the same time and finishing in any order. Every execution
  can go on until all vertices are done, and is bounded.
-/

namespace Dag

variable {V : Type*}

/-- No vertex leads back to itself. -/
def Acyclic (r : V → V → Prop) : Prop := ∀ v, ¬Relation.TransGen r v v

variable {r : V → V → Prop}

/-- A numbering that increases along the edges rules out cycles. -/
theorem acyclic_of_lt (num : V → Nat) (h : ∀ u v, r u v → num u < num v) :
    Acyclic r := by
  have hlt : ∀ {u v}, Relation.TransGen r u v → num u < num v := by
    intro u v huv
    induction huv with
    | single huv => exact h _ _ huv
    | tail _ hvw ih => exact ih.trans (h _ _ hvw)
  exact fun v hv => Nat.lt_irrefl _ (hlt hv)

/-! ## Depth -/

open Classical in
/-- The number of vertices from which `v` can be reached. -/
noncomputable def depth (r : V → V → Prop) (nodes : Finset V) (v : V) : Nat :=
  (nodes.filter fun u => Relation.TransGen r u v).card

theorem depth_lt_depth {nodes : Finset V} (hr : Acyclic r) {u v : V} (hu : u ∈ nodes)
    (huv : r u v) : depth r nodes u < depth r nodes v := by
  classical
  apply Finset.card_lt_card
  rw [Finset.ssubset_iff_of_subset]
  · refine ⟨u, ?_, ?_⟩
    · exact Finset.mem_filter.mpr ⟨hu, .single huv⟩
    · exact fun h => hr u (Finset.mem_filter.mp h).2
  · intro w hw
    obtain ⟨hw, hwu⟩ := Finset.mem_filter.mp hw
    exact Finset.mem_filter.mpr ⟨hw, hwu.tail huv⟩

theorem depth_lt_card {nodes : Finset V} (hr : Acyclic r) {v : V} (hv : v ∈ nodes) :
    depth r nodes v < nodes.card := by
  classical
  apply Finset.card_lt_card
  rw [Finset.ssubset_iff_of_subset (Finset.filter_subset _ _)]
  exact ⟨v, hv, fun h => hr v (Finset.mem_filter.mp h).2⟩

/-- A nonempty set of vertices has one without predecessors in the set. -/
theorem exists_minimal (hr : Acyclic r) {s : Finset V} (hs : s.Nonempty) :
    ∃ v ∈ s, ∀ u ∈ s, ¬r u v := by
  obtain ⟨v, hv, hmin⟩ := s.exists_min_image (depth r s) hs
  refine ⟨v, hv, fun u hu huv => ?_⟩
  have hlt := depth_lt_depth hr hu huv
  have hle := hmin u hu
  omega

/-! ## Evaluation along the edges -/

section Evaluation

variable {α : Type*} (rule : (V → α) → V → α) (default : α)

/-- Apply a rule `n` times, starting from the constant `default`. -/
def iterate : Nat → V → α
  | 0, _ => default
  | n + 1, v => rule (iterate n) v

/-- A rule that reads the values of the predecessors only. -/
def Local (r : V → V → Prop) : Prop :=
  ∀ f g v, (∀ u, r u v → f u = g u) → rule f v = rule g v

variable {rule default} {r : V → V → Prop} {nodes : Finset V}

/-- Rounds beyond the depth of a vertex do not change its value any more. -/
theorem iterate_eq_of_depth_lt (hr : Acyclic r) (hsub : ∀ u v, r u v → u ∈ nodes)
    (hrule : Local rule r) {m n : Nat} {v : V} (hm : depth r nodes v < m)
    (hn : depth r nodes v < n) : iterate rule default m v = iterate rule default n v := by
  induction m generalizing n v with
  | zero => omega
  | succ m ih =>
    cases n with
    | zero => omega
    | succ n =>
      refine hrule _ _ v fun u huv => ?_
      have hlt := depth_lt_depth hr (hsub u v huv) huv
      exact ih (by omega) (by omega)

/-- After as many rounds as there are vertices the rule holds of the values. -/
theorem iterate_card_eq (default : α) (hr : Acyclic r) (hsub : ∀ u v, r u v → u ∈ nodes)
    (hrule : Local rule r) {v : V} (hv : v ∈ nodes) :
    iterate rule default nodes.card v = rule (iterate rule default nodes.card) v := by
  have hdepth := depth_lt_card hr hv
  calc iterate rule default nodes.card v
      = iterate rule default (nodes.card + 1) v :=
        iterate_eq_of_depth_lt hr hsub hrule hdepth (by omega)
    _ = rule (iterate rule default nodes.card) v := rfl

end Evaluation

/-! ## Execution -/

/-- The vertices being executed and the vertices executed so far. -/
@[ext]
structure Progress (V : Type*) where
  running : Finset V
  done : Finset V

namespace Progress

variable [DecidableEq V]

/-- Nothing has happened yet. -/
def initial : Progress V := ⟨∅, ∅⟩

/-- `v` may be started: it has not been, and all its predecessors are done. -/
def Startable (r : V → V → Prop) (nodes : Finset V) (p : Progress V) (v : V) : Prop :=
  v ∈ nodes ∧ v ∉ p.running ∧ v ∉ p.done ∧ ∀ u, r u v → u ∈ p.done

def start (p : Progress V) (v : V) : Progress V := ⟨insert v p.running, p.done⟩

def finish (p : Progress V) (v : V) : Progress V := ⟨p.running.erase v, insert v p.done⟩

/-- What has been started or finished is closed under predecessors. -/
structure Valid (r : V → V → Prop) (nodes : Finset V) (p : Progress V) : Prop where
  subset : p.running ∪ p.done ⊆ nodes
  disjoint : Disjoint p.running p.done
  closed : ∀ v ∈ p.running ∪ p.done, ∀ u, r u v → u ∈ p.done

variable {r : V → V → Prop} {nodes : Finset V} {p : Progress V} {v : V}

theorem valid_initial : (initial : Progress V).Valid r nodes where
  subset := by simp [initial]
  disjoint := by simp [initial]
  closed := by simp [initial]

theorem Valid.start (hp : p.Valid r nodes) (hv : p.Startable r nodes v) :
    (p.start v).Valid r nodes where
  subset := by
    intro w hw
    simp only [Progress.start, Finset.insert_union, Finset.mem_insert] at hw
    rcases hw with rfl | hw
    · exact hv.1
    · exact hp.subset hw
  disjoint := by
    simp only [Progress.start, Finset.disjoint_insert_left]
    exact ⟨hv.2.2.1, hp.disjoint⟩
  closed := by
    intro w hw u huw
    simp only [Progress.start, Finset.insert_union, Finset.mem_insert] at hw
    rcases hw with rfl | hw
    · exact hv.2.2.2 u huw
    · exact hp.closed w hw u huw

theorem Valid.finish (hp : p.Valid r nodes) (hv : v ∈ p.running) :
    (p.finish v).Valid r nodes where
  subset := by
    intro w hw
    simp only [Progress.finish, Finset.mem_union, Finset.mem_erase, Finset.mem_insert] at hw
    rcases hw with ⟨-, hw⟩ | rfl | hw
    · exact hp.subset (Finset.mem_union_left _ hw)
    · exact hp.subset (Finset.mem_union_left _ hv)
    · exact hp.subset (Finset.mem_union_right _ hw)
  disjoint := by
    simp only [Progress.finish, Finset.disjoint_insert_right, Finset.mem_erase, ne_eq,
      not_true_eq_false, false_and, not_false_eq_true, true_and]
    exact hp.disjoint.mono_left (Finset.erase_subset _ _)
  closed := by
    intro w hw u huw
    simp only [Progress.finish, Finset.mem_union, Finset.mem_erase, Finset.mem_insert] at hw ⊢
    rcases hw with ⟨-, hw⟩ | rfl | hw
    · exact .inr (hp.closed w (Finset.mem_union_left _ hw) u huw)
    · exact .inr (hp.closed w (Finset.mem_union_left _ hv) u huw)
    · exact .inr (hp.closed w (Finset.mem_union_right _ hw) u huw)

/-- As long as nothing runs and something is left, something can be started. -/
theorem Valid.exists_startable (hr : Acyclic r) (hsub : ∀ u v, r u v → u ∈ nodes)
    (hp : p.Valid r nodes) (hrun : p.running = ∅) (hdone : p.done ≠ nodes) :
    ∃ v, p.Startable r nodes v := by
  have hsubset : p.done ⊆ nodes := fun v hv => hp.subset (Finset.mem_union_right _ hv)
  have hleft : (nodes \ p.done).Nonempty := by
    rw [Finset.sdiff_nonempty]
    exact fun h => hdone (Finset.Subset.antisymm hsubset h)
  obtain ⟨v, hv, hmin⟩ := exists_minimal hr hleft
  obtain ⟨hv, hvd⟩ := Finset.mem_sdiff.mp hv
  refine ⟨v, hv, by simp [hrun], hvd, fun u huv => ?_⟩
  by_contra hu
  exact hmin u (Finset.mem_sdiff.mpr ⟨hsub u v huv, hu⟩) huv

theorem Valid.card_le (hp : p.Valid r nodes) : p.running.card + p.done.card ≤ nodes.card := by
  rw [← Finset.card_union_of_disjoint hp.disjoint]
  exact Finset.card_le_card hp.subset

end Progress

end Dag
