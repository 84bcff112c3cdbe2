import DeepProve.Convolution.PhiGInit
import DeepProve.PolyCommit.Chunks
import DeepProve.SumcheckProver

/-!
# The delegation of a transform

`delegate_matrix_evaluation` of `iop/prover.rs`: the value of the matrix at a point is reduced, in a
chain of sumchecks, to values of the levels that `phi_g_init` has kept, and at last to a constant. The
prover of a sumcheck is not part of the repository; the points of the chain are whatever it returns.
-/

namespace DeepProve

open List (cells)
open Multilinear (eval eqWeight powerEval)

section Model

variable {F : Type} [Field F] [DecidableEq F] (L : PolyLibrary F) {P T : Type}
  (prover : SumcheckProver F P T)

/-- An entry of `phi`, on level `l` of `levels`. -/
def phiFactor (r1 omegas : List F) (levels l : Nat) (last : F) (isFft : Bool) (i : Nat) : Outcome F := do
  let top ← usizeSub levels 1
  let j ← usizeSub top l
  let coordinate ← Vec.get r1 j
  let power ← Vec.get omegas (i * 2 ^ j)
  .ok (if !isFft && l == top then (1 - last) * (1 - coordinate + coordinate * power)
    else 1 - coordinate + (1 - 2 * last) * coordinate * power)

/-- The body of the loop: one sumcheck, whose point is the next `r2`. -/
def delegateLevel (fMiddle : List (List F)) (r1 omegas : List F) (isFft : Bool)
    (state : Delegation F P × List F × T) (l : Nat) : Outcome (Delegation F P × List F × T) := do
  let (delegation, r2, transcript) := state
  let middle ← Vec.get fMiddle l
  let count ← usizeSub r2.length 1
  let front ← sliceTo r2 count
  let last ← Vec.get r2 count
  let beta := L.evals front
  let phi ← (List.range middle.length).mapM (phiFactor r1 omegas fMiddle.length l last isFft)
  let (proof, point, claim, transcript) := prover [beta, phi, middle] transcript
  .ok (⟨delegation.proofs ++ [proof], delegation.claims ++ [claim], delegation.points ++ [point]⟩, point,
    transcript)

/-- `delegate_matrix_evaluation`. -/
def delegateMatrixEvaluation (fMiddle : List (List F)) (r1 r2 : List F) (isFft : Bool)
    (transcript : T) : Outcome (Delegation F P × T) := do
  let omegas ← phiPowInit L (List.replicate (2 ^ r1.length) 0) r1.length isFft
  let levels ← usizeSub r1.length 1
  let (delegation, _, transcript) ← (List.range levels).reverse.foldlM
    (delegateLevel L prover fMiddle r1 omegas isFft) (⟨[], [], []⟩, r2, transcript)
  .ok (delegation, transcript)

end Model

/-! ## One level -/

section Level

variable {F : Type} [Field F] {a scale : F} {rx : List F} {isFft : Bool}

theorem mle_cells {n : Nat} (f : Nat → F) {point : List F} (hpoint : point.length = n) :
    mle (cells (2 ^ n) f) point = eval f point := by
  apply Multilinear.eval_congr
  intro i hi
  rw [hpoint] at hi
  rw [List.getD_eq_getElem?_getD, List.getElem?_cells hi, Option.getD_some]

theorem hypercubeSum_cells {n : Nat} (f g h : Nat → F) :
    hypercubeSum n [cells (2 ^ n) f, cells (2 ^ n) g, cells (2 ^ n) h] =
      ∑ b ∈ Finset.range (2 ^ n), f b * g b * h b := by
  apply Finset.sum_congr rfl
  intro b hb
  have hb := Finset.mem_range.mp hb
  simp [List.getD_eq_getElem?_getD, List.getElem?_cells hb, mul_assoc]

/-- The entries that the claim before sumcheck `j` is about. -/
def levelTable (a scale : F) (rx : List F) (isFft : Bool) (j b : Nat) : F :=
  if !isFft && j == 0 then
    if b < 2 ^ (rx.length - 1) then phiLevel a scale rx rx.length b else 0
  else
    phiLevel a scale rx (rx.length - j) b

/-- The entries of `phi` in sumcheck `j`. -/
def phiTable (a r last : F) (isFft : Bool) (j b : Nat) : F :=
  if !isFft && j == 0 then (1 - last) * (1 - r + r * a ^ (b * 2 ^ j))
  else 1 - r + (1 - 2 * last) * r * a ^ (b * 2 ^ j)

/-- The claim about a level is the sum of the next sumcheck. -/
theorem levelTable_eval (ha : IsPrimitiveRoot a (2 ^ rx.length)) {j : Nat} (hj : j + 1 < rx.length)
    {r : F} (hr : rx[j]? = some r) {lo : List F} (hlo : lo.length + j + 1 = rx.length) (last : F) :
    eval (levelTable a scale rx isFft j) (lo ++ [last]) =
      ∑ b ∈ Finset.range (2 ^ lo.length),
        eqWeight lo b * phiTable a r last isFft j b * phiLevel a scale rx lo.length b := by
  have hsub : rx.length - lo.length = j + 1 := by omega
  have hdrop : rx.drop j = r :: rx.drop (j + 1) := by
    obtain ⟨hlt, rfl⟩ := List.getElem?_eq_some_iff.mp hr
    exact List.drop_eq_getElem_cons hlt
  have hsquare : (a ^ 2 ^ j) ^ 2 = a ^ 2 ^ (j + 1) := by rw [← pow_mul, ← pow_succ]
  have hhalf : (a ^ 2 ^ j) ^ 2 ^ lo.length = -1 := by
    rw [← hlo] at ha
    rw [← pow_mul, ← pow_add, Nat.add_comm]
    exact Dft.pow_half_eq_neg_one ha
  have hpower : ∀ b, (a ^ 2 ^ j) ^ b = a ^ (b * 2 ^ j) := by
    intro b
    rw [← pow_mul, Nat.mul_comm]
  have hnext : ∀ b, phiLevel a scale rx lo.length b =
      scale * powerEval (((a ^ 2 ^ j) ^ 2) ^ b) (rx.drop (j + 1)) := by
    intro b
    rw [phiLevel, hsub, hsquare]
  by_cases hfirst : (!isFft && j == 0) = true
  · -- the upper half of the entries is zero
    obtain rfl : j = 0 := by
      rw [Bool.and_eq_true, beq_iff_eq] at hfirst
      exact hfirst.2
    have htable : levelTable a scale rx isFft 0 = fun b =>
        if b < 2 ^ lo.length then scale * powerEval ((a ^ 2 ^ 0) ^ b) (r :: rx.drop 1) else 0 := by
      funext b
      rw [levelTable, if_pos hfirst, phiLevel, Nat.sub_self, ← hdrop,
        show rx.length - 1 = lo.length by omega]
    rw [htable, Multilinear.eval_powerEval_lower, eval]
    apply Finset.sum_congr rfl
    intro b _
    rw [phiTable, if_pos hfirst, hnext b, hpower b]
    ring
  · have htable : levelTable a scale rx isFft j = fun b =>
        scale * powerEval ((a ^ 2 ^ j) ^ b) (r :: rx.drop (j + 1)) := by
      funext b
      rw [levelTable, if_neg hfirst, phiLevel, show rx.length - (rx.length - j) = j by omega, hdrop]
    rw [htable, Multilinear.eval_powerEval hhalf, eval]
    apply Finset.sum_congr rfl
    intro b _
    rw [phiTable, if_neg hfirst, hnext b, hpower b]
    ring

/-- The polynomial with the entries of `phi`. -/
theorem eval_phiTable (r last : F) (j : Nat) (point : List F) :
    eval (phiTable a r last isFft j) point =
      if !isFft && j == 0 then (1 - last) * (1 - r + r * powerEval (a ^ 2 ^ j) point)
      else 1 - r + (1 - 2 * last) * r * powerEval (a ^ 2 ^ j) point := by
  have hpower : ∀ b, a ^ (b * 2 ^ j) = (a ^ 2 ^ j) ^ b := by
    intro b
    rw [← pow_mul, Nat.mul_comm]
  have hlinear : ∀ c d : F, eval (fun b => c + d * a ^ (b * 2 ^ j)) point =
      c + d * powerEval (a ^ 2 ^ j) point := by
    intro c d
    rw [Multilinear.eval_add, Multilinear.eval_const, Multilinear.eval_mul_left, powerEval]
    simp only [hpower]
  by_cases hfirst : (!isFft && j == 0) = true
  · have htable : phiTable a r last isFft j = fun b =>
        (1 - last) * (1 - r) + (1 - last) * r * a ^ (b * 2 ^ j) := by
      funext b
      rw [phiTable, if_pos hfirst]
      ring
    rw [htable, hlinear, if_pos hfirst]
    ring
  · have htable : phiTable a r last isFft j = fun b =>
        1 - r + (1 - 2 * last) * r * a ^ (b * 2 ^ j) := by
      funext b
      rw [phiTable, if_neg hfirst]
    rw [htable, hlinear, if_neg hfirst]

/-- The last level, at the last point. -/
theorem eval_phiLevel_one (ha : IsPrimitiveRoot a (2 ^ rx.length)) (hn : 0 < rx.length) {r : F}
    (hr : rx[rx.length - 1]? = some r) (p : F) :
    eval (phiLevel a scale rx 1) [p] = scale * (1 - p) + scale * (1 - 2 * r) * p := by
  have hlow : phiLevel a scale rx 1 0 = scale := by
    rw [phiLevel_succ hn hr 0, phiLevel_zero, Nat.zero_mul, pow_zero]
    ring
  have hhigh : phiLevel a scale rx 1 1 = scale * (1 - 2 * r) := by
    have hupper : phiLevel a scale rx (0 + 1) (2 ^ 0 + 0) = _ := phiLevel_succ_add ha hn hr 0
    simp only [pow_zero, Nat.zero_add, Nat.add_zero, Nat.zero_mul, mul_one, phiLevel_zero] at hupper
    rw [hupper]
    ring
  rw [Multilinear.eval_cons, Multilinear.eval_nil, Multilinear.eval_nil, Nat.mul_zero, hlow,
    Nat.zero_add, hhigh]
  ring

/-- What the verifier evaluates is the polynomial with the entries of `phi`. -/
theorem phiEval_eq_ok {m j : Nat} {point : List F} (hpoint : point.length + j = m) (r last : F) :
    phiEval point r last (cells m (a ^ 2 ^ ·)) (!isFft && j == 0) =
      .ok (eval (phiTable a r last isFft j) point) := by
  have hloop : ∀ (s : List F) (k : Nat) (acc : F), k + s.length ≤ point.length →
      (s.zipIdx k).foldlM (fun (acc : F) (p : F × Nat) => do
          let start ← usizeSub (cells m (a ^ 2 ^ ·)).length point.length
          let exponent ← unwrap (cells m (a ^ 2 ^ ·))[start + p.2]? "index out of bounds"
          Except.ok (acc * (1 - p.1 + p.1 * exponent))) acc =
        (.ok (acc * powerEval ((a ^ 2 ^ j) ^ 2 ^ k) s) : Outcome F) := by
    intro s
    induction s with
    | nil =>
      intro k acc _
      rw [Multilinear.powerEval_nil, mul_one]
      rfl
    | cons p s ih =>
      intro k acc hk
      rw [List.length_cons] at hk
      have hstart : usizeSub (cells m (a ^ 2 ^ ·)).length point.length = .ok j := by
        rw [List.length_cells]
        exact usizeSub_eq_ok.mpr ⟨by omega, by omega⟩
      have hexponent : a ^ 2 ^ (j + k) = (a ^ 2 ^ j) ^ 2 ^ k := by rw [← pow_mul, ← pow_add]
      rw [List.zipIdx_cons, List.foldlM_cons, hstart, Outcome.ok_bind,
        List.getElem?_cells (by omega : j + k < m), unwrap_some, Outcome.ok_bind, Outcome.ok_bind,
        ← hstart, ih (k + 1) _ (by omega), Multilinear.powerEval_cons, hexponent, ← pow_mul _ _ 2,
        ← pow_succ, mul_assoc]
  have hall := hloop point 0 1 (by omega)
  rw [one_mul, pow_zero, pow_one] at hall
  rw [phiEval]
  refine (congrArg (· >>= _) hall).trans ?_
  rw [Outcome.ok_bind, eval_phiTable]

end Level

/-! ## The chain -/

/-- A run of the prover: what the sumchecks return gives the points. -/
structure Chain (F P T : Type) [Field F] where
  prover : SumcheckProver F P T
  lawful : prover.Lawful
  a : F
  scale : F
  rx : List F
  isFft : Bool
  root : IsPrimitiveRoot a (2 ^ rx.length)
  r2 : List F
  length_r2 : r2.length = rx.length
  transcript : T

namespace Chain

variable {F : Type} [Field F] {P T : Type} (chain : Chain F P T)

/-- The factors of sumcheck `j`, for the point before it. -/
def factors (j : Nat) (r2 : List F) : List (List F) :=
  let count := 2 ^ (chain.rx.length - (j + 1))
  [cells count (eqWeight r2.dropLast),
    cells count (phiTable chain.a (chain.rx.getD j 0) (r2.getLastD 0) chain.isFft j),
    cells count (phiLevel chain.a chain.scale chain.rx (chain.rx.length - (j + 1)))]

/-- The point and the transcript before sumcheck `j`. -/
def state : Nat → List F × T
  | 0 => (chain.r2, chain.transcript)
  | j + 1 =>
    let result := chain.prover (chain.factors j (state j).1) (state j).2
    (result.2.1, result.2.2.2)

/-- What sumcheck `j` returns. -/
def result (j : Nat) : P × List F × List F × T :=
  chain.prover (chain.factors j (chain.state j).1) (chain.state j).2

/-- What the first `k` sumchecks return. -/
def delegation (k : Nat) : Delegation F P :=
  ⟨cells k fun j => (chain.result j).1, cells k fun j => (chain.result j).2.2.1,
    cells k fun j => (chain.result j).2.1⟩

variable {chain}

theorem factors_length (j : Nat) (r : List F) :
    ∀ f ∈ chain.factors j r, f.length = 2 ^ (chain.rx.length - (j + 1)) := by
  intro f hf
  simp only [factors, List.mem_cons, List.not_mem_nil, or_false] at hf
  rcases hf with rfl | rfl | rfl
  · exact List.length_cells
  · exact List.length_cells
  · exact List.length_cells

theorem state_length (j : Nat) : (chain.state j).1.length = chain.rx.length - j := by
  cases j with
  | zero => exact chain.length_r2
  | succ j => exact chain.lawful.challenges _ _ _ (List.cons_ne_nil _ _) (factors_length j _)

/-- The point before a sumcheck has a last coordinate, and so has the point of the transform. -/
theorem state_eq_concat {j : Nat} (hj : j < chain.rx.length) :
    ∃ lo last r, (chain.state j).1 = lo ++ [last] ∧ lo.length + j + 1 = chain.rx.length ∧
      chain.rx[j]? = some r := by
  have hlength := chain.state_length j
  rcases List.eq_nil_or_concat (chain.state j).1 with hnil | ⟨lo, last, hr⟩
  · rw [hnil, List.length_nil] at hlength
    omega
  · rw [List.concat_eq_append] at hr
    rw [hr, List.length_append, List.length_singleton] at hlength
    exact ⟨lo, last, chain.rx[j], hr, by omega, List.getElem?_eq_getElem hj⟩

theorem factors_concat {j : Nat} {r last : F} {lo : List F} (hr : chain.rx[j]? = some r)
    (hlo : lo.length + j + 1 = chain.rx.length) :
    chain.factors j (lo ++ [last]) =
      [cells (2 ^ lo.length) (eqWeight lo),
        cells (2 ^ lo.length) (phiTable chain.a r last chain.isFft j),
        cells (2 ^ lo.length) (phiLevel chain.a chain.scale chain.rx lo.length)] := by
  have hcount : chain.rx.length - (j + 1) = lo.length := by omega
  have hlast : (lo ++ [last]).getLastD 0 = last := by
    rw [List.getLastD_eq_getLast?, List.getLast?_append_of_ne_nil lo (List.cons_ne_nil last [])]
    rfl
  rw [factors, hcount, List.dropLast_concat, hlast, List.getD_eq_getElem?_getD, hr, Option.getD_some]

theorem delegation_succ (k : Nat) :
    chain.delegation (k + 1) = ⟨(chain.delegation k).proofs ++ [(chain.result k).1],
      (chain.delegation k).claims ++ [(chain.result k).2.2.1],
      (chain.delegation k).points ++ [(chain.result k).2.1]⟩ := by
  simp [delegation, cells, List.range_succ]

/-! ### The prover -/

section Prover

variable [DecidableEq F] {L : PolyLibrary F}

omit [DecidableEq F] in
/-- The entries of `phi`, as the prover computes them. -/
theorem mapM_phiFactor {j : Nat} {r last : F} {lo : List F} (hr : chain.rx[j]? = some r)
    (hj : j + 1 < chain.rx.length) (hlo : lo.length + j + 1 = chain.rx.length) :
    (List.range (2 ^ lo.length)).mapM (phiFactor chain.rx (cells (2 ^ chain.rx.length) (chain.a ^ ·))
        (chain.rx.length - 1) (chain.rx.length - (j + 2)) last chain.isFft) =
      .ok (cells (2 ^ lo.length) (phiTable chain.a r last chain.isFft j)) := by
  have htop : usizeSub (chain.rx.length - 1) 1 = .ok (chain.rx.length - 2) :=
    usizeSub_eq_ok.mpr ⟨by omega, by omega⟩
  have hlevel : usizeSub (chain.rx.length - 2) (chain.rx.length - (j + 2)) = .ok j :=
    usizeSub_eq_ok.mpr ⟨by omega, by omega⟩
  have hfirst : (chain.rx.length - (j + 2) == chain.rx.length - 2) = (j == 0) := by
    rw [Bool.eq_iff_iff, beq_iff_eq, beq_iff_eq]
    omega
  apply Outcome.mapM_eq_ok_map
  intro b hb
  have hpower : b * 2 ^ j < 2 ^ chain.rx.length := by
    calc b * 2 ^ j < 2 ^ lo.length * 2 ^ j :=
          Nat.mul_lt_mul_of_pos_right (List.mem_range.mp hb) (Nat.two_pow_pos j)
      _ ≤ 2 ^ chain.rx.length := by
          rw [← pow_add]
          exact Nat.pow_le_pow_right (by decide) (by omega)
  have hcoordinate : Vec.get chain.rx j = .ok r := by rw [Vec.get, hr, unwrap_some]
  rw [phiFactor, htop, Outcome.ok_bind, hlevel, Outcome.ok_bind, hcoordinate, Outcome.ok_bind,
    Vec.get_cells hpower, Outcome.ok_bind, hfirst]
  rfl

omit [DecidableEq F] in
/-- One sumcheck of the chain. -/
theorem delegateLevel_eq_ok (hevals : ∀ z, L.evals z = cells (2 ^ z.length) (eqWeight z)) {j : Nat}
    (hj : j + 1 < chain.rx.length) :
    delegateLevel L chain.prover (phiMiddles chain.a chain.scale chain.rx) chain.rx
        (cells (2 ^ chain.rx.length) (chain.a ^ ·)) chain.isFft (chain.delegation j, chain.state j)
        (chain.rx.length - (j + 2)) =
      .ok (chain.delegation (j + 1), chain.state (j + 1)) := by
  obtain ⟨lo, last, r, hpoint, hlo, hr⟩ := chain.state_eq_concat (Nat.lt_of_succ_lt hj)
  have hmiddle : Vec.get (phiMiddles chain.a chain.scale chain.rx) (chain.rx.length - (j + 2)) =
      .ok (cells (2 ^ lo.length) (phiLevel chain.a chain.scale chain.rx lo.length)) := by
    rw [phiMiddles, Vec.get_cells (by omega), phiMiddle,
      show chain.rx.length - (j + 2) + 1 = lo.length by omega]
  have hcount : usizeSub (lo ++ [last]).length 1 = .ok lo.length := by
    rw [List.length_append, List.length_singleton]
    exact usizeSub_eq_ok.mpr ⟨by omega, rfl⟩
  have hfront : sliceTo (lo ++ [last]) lo.length = .ok lo := by
    rw [sliceTo, if_pos (by simp), List.take_left]
  have hlast : Vec.get (lo ++ [last]) lo.length = .ok last := by
    rw [Vec.get, List.getElem?_append_right (Nat.le_refl _), Nat.sub_self]
    rfl
  have hlevels : (phiMiddles chain.a chain.scale chain.rx).length = chain.rx.length - 1 :=
    List.length_cells
  have hresult : chain.prover [cells (2 ^ lo.length) (eqWeight lo),
      cells (2 ^ lo.length) (phiTable chain.a r last chain.isFft j),
      cells (2 ^ lo.length) (phiLevel chain.a chain.scale chain.rx lo.length)] (chain.state j).2 =
        chain.result j := by
    rw [result, hpoint, chain.factors_concat hr hlo]
  have hstate : chain.state j = (lo ++ [last], (chain.state j).2) := by rw [← hpoint]
  rw [hstate, delegateLevel]
  dsimp only
  rw [hmiddle, Outcome.ok_bind, hcount, Outcome.ok_bind, hfront, Outcome.ok_bind, hlast,
    Outcome.ok_bind, List.length_cells, hlevels, chain.mapM_phiFactor hr hj hlo, Outcome.ok_bind, hevals,
    delegation_succ]
  exact congrArg (fun result : P × List F × List F × T => (Except.ok
    (⟨(chain.delegation j).proofs ++ [result.1], (chain.delegation j).claims ++ [result.2.2.1],
      (chain.delegation j).points ++ [result.2.1]⟩, result.2.1, result.2.2.2) :
    Outcome (Delegation F P × List F × T))) hresult

/-- `delegate_matrix_evaluation` runs the chain. -/
theorem delegateMatrixEvaluation_eq_ok {w : F}
    (hevals : ∀ z, L.evals z = cells (2 ^ z.length) (eqWeight z))
    (hroot : L.rootOfUnity (2 ^ chain.rx.length) = some w)
    (hw : IsPrimitiveRoot w (2 ^ chain.rx.length)) (ha : chain.a = directedRoot w chain.isFft)
    (hn : 0 < chain.rx.length) :
    delegateMatrixEvaluation L chain.prover (phiMiddles chain.a chain.scale chain.rx) chain.rx chain.r2
        chain.isFft chain.transcript =
      .ok (chain.delegation (chain.rx.length - 1), (chain.state (chain.rx.length - 1)).2) := by
  have hrun : ∀ k ≤ chain.rx.length - 1, (List.range k).foldlM (fun state j =>
      delegateLevel L chain.prover (phiMiddles chain.a chain.scale chain.rx) chain.rx
        (cells (2 ^ chain.rx.length) (chain.a ^ ·)) chain.isFft state (chain.rx.length - (j + 2)))
      (⟨[], [], []⟩, chain.r2, chain.transcript) = .ok (chain.delegation k, chain.state k) := by
    intro k hk
    induction k with
    | zero => rfl
    | succ k ih =>
      rw [List.range_succ, List.foldlM_append, ih (by omega), Outcome.ok_bind, List.foldlM_cons,
        chain.delegateLevel_eq_ok hevals (by omega), Outcome.ok_bind]
      rfl
  have hlevels : (List.range (chain.rx.length - 1)).reverse =
      (List.range (chain.rx.length - 1)).map fun j => chain.rx.length - (j + 2) := by
    rw [List.range_eq_range', List.reverse_range', ← List.range_eq_range']
    apply List.map_congr_left
    intro j _
    omega
  have hcount : usizeSub chain.rx.length 1 = .ok (chain.rx.length - 1) := usizeSub_eq_ok.mpr ⟨hn, rfl⟩
  rw [delegateMatrixEvaluation, List.replicate_eq_cells, phiPowInit_eq_ok hroot hw, Outcome.ok_bind,
    hcount, Outcome.ok_bind, hlevels, List.foldlM_map, ← ha, hrun _ (Nat.le_refl _), Outcome.ok_bind]

end Prover

end Chain

end DeepProve
