import DeepProve.AttentionMask.Agreement
import DeepProve.Lookup.DimWeights

/-!
# The comparison of numbers

`eval_zeroifier_mle` compares the bits of two numbers at any point, and `broadcasting_evaluation`
compares the indices of dimensions with their sizes.
-/

namespace DeepProve

open Multilinear (eqPoly eqWeight eval paddedTable tensorEval)

variable {F : Type} [Field F]

theorem eqPoly_bitList {p : List F} {i : Nat} (hi : i < 2 ^ p.length) :
    eqPoly (bitList i p.length) p = eqWeight p i := by
  rw [Multilinear.eqPoly_comm, bitList_eq_vertex,
    ← Multilinear.eval_eqWeight p _ (Multilinear.vertex_length _ _).symm, Multilinear.eval_vertex _ hi]

/-- The value of an all-ones tensor that is padded with zeros. -/
theorem eval_ones {dims : List (List F × Nat)} (h : ∀ dim ∈ dims, dim.1.length = ceilLog2 dim.2) :
    eval (paddedTable (dims.map Prod.snd) fun _ => 1) (dims.map Prod.fst).reverse.flatten =
      ltProd dims := by
  have hfits : Multilinear.Fits (dims.map Prod.snd) (dims.map Prod.fst) := by
    rw [Multilinear.Fits, List.map_map, List.map_map]
    exact List.map_congr_left h
  rw [Multilinear.eval_paddedTable hfits]
  clear h hfits
  induction dims with
  | nil => simp [tensorEval, ltProd]
  | cons dim dims ih =>
    rw [List.map_cons, List.map_cons, tensorEval, ih, ← Finset.sum_mul]
    rfl

/-- **Zeroifier.** The polynomials that `eval_zeroifier_mle` evaluates: at two points, at a point and
    the bits of a number, and for the dimensions that are broadcast. -/
theorem evalZeroifierMle_correct :
    (∀ (n : Nat) (c r : List F), c.length = n → r.length = n → evalZeroifierMle c r =
      eval (fun i => if i % 2 ^ n ≤ i / 2 ^ n then 1 else 0) (c ++ r)) ∧
    (∀ (n k : Nat) (p : List F), n ≤ 64 → k < 2 ^ n → p.length = n → ∃ bits,
      bitsOf k n = .ok bits ∧
        evalZeroifierMle p bits = ∑ i ∈ Finset.range (k + 1), eqPoly (bitList i n) p) ∧
    ∀ dims : List (Nat × Nat × List F), (∀ dim ∈ dims,
        (0 < dim.1 ∧ dim.2.2.length = ceilLog2 dim.1 ∧ dim.2.2.length ≤ 64) ∧
          (dim.2.1 = 1 ∨ dim.2.1 = dim.1)) →
      Shape.broadcastingEvaluation (dims.map Prod.fst) (dims.map fun dim => dim.2.2)
          (dims.map fun dim => dim.2.1) =
        .ok (eval (paddedTable ((broadcastDims dims).map Prod.snd) fun _ => 1)
          ((broadcastDims dims).map Prod.fst).reverse.flatten) := by
  refine ⟨?_, ?_, fun dims h => ?_⟩
  · rintro _ c r rfl hr
    rw [evalZeroifierMle_eq_evalPair hr.symm, ← Multilinear.eval_rows]
  · rintro _ k p hn hk rfl
    refine ⟨_, bitsOf_eq_ok hn, (evalZeroifierMle_bitList p k hk).trans ?_⟩
    refine Finset.sum_congr rfl fun i hi => (eqPoly_bitList ?_).symm
    exact (Nat.lt_succ_iff.mp (Finset.mem_range.mp hi)).trans_lt hk
  · have hfits : ∀ dim ∈ broadcastDims dims, dim.1.length = ceilLog2 dim.2 := by
      intro dim hdim
      obtain ⟨entry, hentry, rfl⟩ := List.mem_map.mp hdim
      exact (h entry (List.mem_of_mem_filter hentry)).1.2.1
    have hfold := foldlM_broadcastDim h 1
    rw [eval_ones hfits, ← one_mul (ltProd _), ← hfold]
    simp [Shape.broadcastingEvaluation, Shape.rank, List.zip_map']

theorem evalZeroifierMle_correct_two : ∃ bits, (bitsOf 1 2 : Outcome (List ℚ)) = .ok bits ∧
    evalZeroifierMle [3, 5] bits = ∑ i ∈ Finset.range 2, eqPoly (bitList i 2) [3, 5] :=
  evalZeroifierMle_correct.2.1 2 1 [3, 5] (by decide) (by decide) rfl

/-- There are no more bits than `usize` has. -/
theorem not_bitsOf_eq_ok : ¬ ∀ (n k : Nat) (p : List ℚ), k < 2 ^ n → p.length = n → ∃ bits,
    bitsOf k n = .ok bits ∧
      evalZeroifierMle p bits = ∑ i ∈ Finset.range (k + 1), eqPoly (bitList i n) p := by
  intro h
  obtain ⟨bits, hbits, -⟩ := h 65 0 (List.replicate 65 0) (by decide) (by simp)
  simp [bitsOf, toBitSequenceLe] at hbits

end DeepProve
