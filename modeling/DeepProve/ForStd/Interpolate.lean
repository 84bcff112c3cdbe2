import DeepProve.ForStd.Multilinear

/-!
# Nested interpolation

A multilinear polynomial is the interpolation of its two halves along the last coordinate. So its
value at a point is found from the value of its first block, by interpolating with the value of one
block of double size after the other.

The second value of a step can make up for any wrong value before it, unless the coordinate is
zero. If it is fixed before the coordinate is known, it can do so for one coordinate only.
-/

namespace Multilinear

section CommRing

variable {F : Type*} [CommRing F]

/-- One interpolation after the other, each with its second value and its coordinate. -/
def interpolate (value : F) (steps : List (F × F)) : F :=
  steps.foldl (fun value step => value * (1 - step.2) + step.1 * step.2) value

@[simp] theorem interpolate_cons (value : F) (step : F × F) (steps : List (F × F)) :
    interpolate value (step :: steps) =
      interpolate (value * (1 - step.2) + step.1 * step.2) steps := rfl

theorem interpolate_concat (value : F) (steps : List (F × F)) (step : F × F) :
    interpolate value (steps ++ [step]) =
      interpolate value steps * (1 - step.2) + step.1 * step.2 := by
  rw [interpolate, List.foldl_append]
  rfl

/-- At the coordinate zero nothing changes. -/
theorem interpolate_of_zero {steps : List (F × F)} (h : ∀ step ∈ steps, step.2 = 0) (value : F) :
    interpolate value steps = value := by
  induction steps generalizing value with
  | nil => rfl
  | cons step steps ih =>
    have hzero := h step List.mem_cons_self
    rw [interpolate_cons, ih fun step hstep => h step (List.mem_cons_of_mem _ hstep), hzero, sub_zero,
      mul_one, mul_zero, add_zero]

/-- The block of a polynomial that its last coordinate adds to `x`. -/
def upperBlock (table : Nat → F) (x : List F) : F :=
  eval (fun i => table (2 ^ x.length + i)) x

/-- A polynomial is the interpolation of its halves. -/
theorem eval_concat (table : Nat → F) (x : List F) (c : F) :
    eval table (x ++ [c]) = eval table x * (1 - c) + upperBlock table x * c := by
  rw [eval_append, List.length_singleton, pow_one, Finset.sum_range_succ, Finset.sum_range_one]
  have hlow : eqWeight [c] 0 = 1 - c := by simp [eqWeight]
  have hhigh : eqWeight [c] 1 = c := by simp [eqWeight]
  rw [hlow, hhigh, upperBlock]
  simp only [zero_mul, zero_add, one_mul]
  ring

end CommRing

section Field

variable {F : Type*} [Field F]

/-- A coordinate that is not zero can lead to every value. -/
theorem exists_interpolate_eq (value target : F) {coordinates : List F}
    (h : ∃ c ∈ coordinates, c ≠ 0) :
    ∃ evals : List F, evals.length = coordinates.length ∧
      interpolate value (evals.zip coordinates) = target := by
  induction coordinates using List.reverseRecOn generalizing target with
  | nil =>
    obtain ⟨c, hc, _⟩ := h
    cases hc
  | append_singleton coordinates c ih =>
    by_cases hc : c = 0
    · -- the last step changes nothing
      have hbefore : ∃ b ∈ coordinates, b ≠ 0 := by
        obtain ⟨b, hb, hne⟩ := h
        rcases List.mem_append.mp hb with hb | hb
        · exact ⟨b, hb, hne⟩
        · exact absurd ((List.mem_singleton.mp hb).trans hc) hne
      obtain ⟨evals, hlength, hvalue⟩ := ih target hbefore
      refine ⟨evals ++ [0], by simp [hlength], ?_⟩
      rw [List.zip_append hlength, List.zip_cons_cons, List.zip_nil_left, interpolate_concat, hvalue,
        hc]
      ring
    · let zeros := List.replicate coordinates.length (0 : F)
      let before := interpolate value (zeros.zip coordinates)
      have hlength : zeros.length = coordinates.length := List.length_replicate
      refine ⟨zeros ++ [(target - before * (1 - c)) / c], by simp [hlength], ?_⟩
      rw [List.zip_append hlength, List.zip_cons_cons, List.zip_nil_left, interpolate_concat]
      show before * (1 - c) + (target - before * (1 - c)) / c * c = target
      rw [div_mul_cancel₀ _ hc]
      ring

variable [Fintype F] [DecidableEq F]

/-- A value that is not zero becomes zero for one coordinate at most. -/
theorem card_step_zero_le {value : F} (hvalue : value ≠ 0) (gap : F) :
    (Finset.univ.filter fun c : F => value * (1 - c) + gap * c = 0).card ≤ 1 := by
  rw [Finset.card_le_one]
  intro c hc c' hc'
  rw [Finset.mem_filter] at hc hc'
  have hc := hc.2
  have hc' := hc'.2
  -- the difference of the two equations
  have hdiff : (gap - value) * (c - c') = 0 := by linear_combination hc - hc'
  rcases mul_eq_zero.mp hdiff with hgap | heq
  · have hzero : value = 0 := by linear_combination hc - c * hgap
    exact absurd hzero hvalue
  · exact sub_eq_zero.mp heq

/-- A value that changes by steps, each of which is fixed before its coordinate is known, becomes
    zero for few coordinates. -/
theorem card_online_zero_le {value gap : List F → F} (hstart : value [] ≠ 0)
    (hstep : ∀ z c, value (z ++ [c]) = value z * (1 - c) + gap z * c) (d : Nat) :
    (Finset.univ.filter fun z : Fin d → F => value (List.ofFn z) = 0).card * Fintype.card F ≤
      d * Fintype.card F ^ d := by
  induction d with
  | zero =>
    have hnone : (Finset.univ.filter fun z : Fin 0 → F => value (List.ofFn z) = 0) = ∅ := by
      apply Finset.filter_false_of_mem
      intro z _
      rw [List.ofFn_zero]
      exact hstart
    rw [hnone, Finset.card_empty, Nat.zero_mul, Nat.zero_mul]
  | succ d ih =>
    let q := Fintype.card F
    let bad := Finset.univ.filter fun z : Fin d → F => value (List.ofFn z) = 0
    have hfiber : ∀ z : Fin d → F,
        (Finset.univ.filter fun c : F => value (List.ofFn z ++ [c]) = 0).card ≤
          (if value (List.ofFn z) = 0 then q else 0) + 1 := by
      intro z
      split
      · exact (Finset.card_filter_le _ _).trans (Nat.le_succ _)
      · next hvalue =>
        simp only [hstep]
        rw [zero_add]
        exact card_step_zero_le hvalue (gap (List.ofFn z))
    have hcount : (Finset.univ.filter fun z : Fin (d + 1) → F => value (List.ofFn z) = 0).card ≤
        bad.card * q + q ^ d := by
      calc (Finset.univ.filter fun z : Fin (d + 1) → F => value (List.ofFn z) = 0).card
          = ∑ z : Fin (d + 1) → F, if value (List.ofFn z) = 0 then 1 else 0 := Finset.card_filter _ _
        _ = ∑ y : F × (Fin d → F), if value (List.ofFn y.2 ++ [y.1]) = 0 then 1 else 0 := by
            rw [← Equiv.sum_comp (Fin.snocEquiv fun _ => F)]
            apply Finset.sum_congr rfl
            intro y _
            rw [List.ofFn_succ']
            simp [Fin.snocEquiv]
        _ = ∑ z : Fin d → F, ∑ c : F, if value (List.ofFn z ++ [c]) = 0 then 1 else 0 :=
            Fintype.sum_prod_type_right _
        _ = ∑ z : Fin d → F,
              (Finset.univ.filter fun c : F => value (List.ofFn z ++ [c]) = 0).card :=
            Finset.sum_congr rfl fun z _ => (Finset.card_filter _ _).symm
        _ ≤ ∑ z : Fin d → F, ((if value (List.ofFn z) = 0 then q else 0) + 1) :=
            Finset.sum_le_sum fun z _ => hfiber z
        _ = bad.card * q + q ^ d := by
            rw [Finset.sum_add_distrib, Finset.sum_ite, Finset.sum_const, Finset.sum_const_zero,
              Finset.sum_const, Finset.card_univ, Fintype.card_fun, Fintype.card_fin, smul_eq_mul,
              smul_eq_mul]
            ring
    calc (Finset.univ.filter fun z : Fin (d + 1) → F => value (List.ofFn z) = 0).card * q
        ≤ (bad.card * q + q ^ d) * q := Nat.mul_le_mul_right q hcount
      _ ≤ (d * q ^ d + q ^ d) * q := Nat.mul_le_mul_right q (Nat.add_le_add_right ih _)
      _ = (d + 1) * q ^ (d + 1) := by ring

end Field

end Multilinear
