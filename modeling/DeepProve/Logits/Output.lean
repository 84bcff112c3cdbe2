import DeepProve.ForStd.OneHot
import DeepProve.Logits.Verify
import DeepProve.PolyCommit.Chunks

/-!
# The evaluation of the output

The evaluation of the one-hot matrix of the public tokens is computed from as many tokens as the output
has rows. Whether the tokens can be read does not depend on the point.
-/

namespace DeepProve

open Multilinear (eqWeight evalPair oneHot)
open Outcome

namespace LogitsCtx

section Read

variable {p : Nat}

/-- One token, as `verify_output_evaluation` reads it. -/
def readToken (unpaddedDimSize columns : Nat) (token : ZMod p) : Outcome Nat := do
  let tokenValue ← tokenOf token
  ensure (decide (tokenValue < unpaddedDimSize))
    s!"Token value {tokenValue} exceeds unpadded dimension size {unpaddedDimSize}"
  if tokenValue < columns then .ok tokenValue else .error (.panic "index out of bounds")

theorem readToken_eq_ok {unpaddedDimSize columns : Nat} {token : ZMod p} {u : Nat} :
    readToken unpaddedDimSize columns token = .ok u ↔
      tokenOf token = .ok u ∧ u < unpaddedDimSize ∧ u < columns := by
  simp only [readToken, bind_eq_ok, ensure_eq_ok, decide_eq_true_eq]
  constructor
  · rintro ⟨u', htoken, _, hlt, hresult⟩
    split at hresult
    · next hcolumns =>
      obtain rfl := Except.ok.inj hresult
      exact ⟨htoken, hlt, hcolumns⟩
    · cases hresult
  · rintro ⟨htoken, hlt, hcolumns⟩
    exact ⟨u, htoken, (), hlt, if_pos hcolumns⟩

variable [Fact p.Prime]

/-- What the tokens add up to. -/
def selectTokens (columnBeta beta : List (ZMod p)) (tokens : List Nat) : ZMod p :=
  ((tokens.zip beta).map fun (u, b1) => b1 * columnBeta.getD u 0).sum

/-- Reading the tokens, and adding them up. -/
theorem foldlM_addToken_eq (columnBeta beta data : List (ZMod p)) (unpaddedDimSize : Nat) (sum : ZMod p) :
    (data.zip beta).foldlM (addToken columnBeta unpaddedDimSize) sum =
      (data.take beta.length).mapM (readToken unpaddedDimSize columnBeta.length) >>= fun tokens =>
        .ok (sum + selectTokens columnBeta beta tokens) := by
  induction data generalizing beta sum with
  | nil => simp [selectTokens]; rfl
  | cons token data ih =>
    cases beta with
    | nil => simp [selectTokens]; rfl
    | cons b1 beta =>
      have hstep : addToken columnBeta unpaddedDimSize sum (token, b1) =
          readToken unpaddedDimSize columnBeta.length token >>= fun u =>
            .ok (sum + b1 * columnBeta.getD u 0) := by
        rw [addToken, readToken]
        rcases tokenOf token with e | u
        · rfl
        · rw [ok_bind, ok_bind]
          by_cases hlt : u < unpaddedDimSize
          · rw [decide_eq_true hlt, ensure_true, ok_bind, ok_bind]
            by_cases hcolumns : u < columnBeta.length
            · rw [if_pos hcolumns, List.getElem?_eq_getElem hcolumns, unwrap_some, ok_bind, ok_bind,
                List.getD_eq_getElem?_getD, List.getElem?_eq_getElem hcolumns, Option.getD_some]
            · rw [if_neg hcolumns, List.getElem?_eq_none (Nat.le_of_not_lt hcolumns)]
              rfl
          · rw [decide_eq_false hlt]
            rfl
      rw [List.zip_cons_cons, List.foldlM_cons, hstep, List.length_cons, List.take_succ_cons,
        List.mapM_cons]
      rcases readToken unpaddedDimSize columnBeta.length token with e | u
      · rfl
      · rw [ok_bind, ok_bind, ok_bind, ih]
        rcases (data.take beta.length).mapM (readToken unpaddedDimSize columnBeta.length) with e | tokens
        · rfl
        · rw [ok_bind, ok_bind]
          change _ = Except.ok _
          rw [selectTokens, selectTokens, List.zip_cons_cons, List.map_cons, List.sum_cons, add_assoc]

variable {evals : List (ZMod p) → List (ZMod p)}

/-- The sum is the value of the one-hot matrix. -/
theorem selectTokens_eq
    (hevals : ∀ point, evals point = (List.range (2 ^ point.length)).map (eqWeight point))
    {columnPoint rowPoint : List (ZMod p)} {tokens : List Nat} (hrows : tokens.length ≤ 2 ^ rowPoint.length)
    (htokens : ∀ t ∈ tokens, t < 2 ^ columnPoint.length) :
    selectTokens (evals columnPoint) (evals rowPoint) tokens =
      evalPair (oneHot tokens) columnPoint rowPoint := by
  have hzip : tokens.zip (evals rowPoint) =
      (List.range tokens.length).map fun j => (tokens.getD j 0, eqWeight rowPoint j) := by
    rw [hevals]
    apply List.ext_getElem
    · simp [hrows]
    · intro j hj _
      have hj : j < tokens.length := by
        rw [List.length_zip] at hj
        omega
      simp [hj]
  rw [selectTokens, hzip, List.map_map, Multilinear.evalPair_oneHot hrows htokens]
  change ∑ j ∈ Finset.range tokens.length, _ = _
  apply Finset.sum_congr rfl
  intro j hj
  have hmem : tokens.getD j 0 < 2 ^ columnPoint.length := by
    have hj := Finset.mem_range.mp hj
    rw [List.getD_eq_getElem?_getD, List.getElem?_eq_getElem hj, Option.getD_some]
    exact htokens _ (List.getElem_mem hj)
  rw [Function.comp_apply, hevals]
  dsimp only
  rw [List.getD_eq_getElem?_getD (l := (List.range _).map _), List.getElem?_map, List.getElem?_range hmem]
  rfl

/-- The evaluation that is compared with the claim. -/
theorem verifyOutputEvaluation_eq
    (hevals : ∀ point, evals point = (List.range (2 ^ point.length)).map (eqWeight point))
    {io : OutputIo (ZMod p)} {claim : Claim (ZMod p)} {unpaddedDimSize chunkNumber : Nat}
    (hlength : io.output.length = 1) {output : Tensor (ZMod p)}
    (houtput : chunkOutput io chunkNumber = .ok output) {rowVars : Nat}
    (hrowVars : outputRowVars output = .ok rowVars) (hle : rowVars ≤ claim.point.length) :
    verifyOutputEvaluation evals io claim unpaddedDimSize chunkNumber =
      (output.data.take (2 ^ rowVars)).mapM
          (readToken unpaddedDimSize (2 ^ (claim.point.length - rowVars))) >>= fun tokens =>
        ensure (selectTokens (evals (claim.point.take (claim.point.length - rowVars)))
          (evals (claim.point.drop (claim.point.length - rowVars))) tokens == claim.eval)
          "Output claim evaluation check failed for Logits layer" := by
  have hcolumns : (evals (claim.point.take (claim.point.length - rowVars))).length =
      2 ^ (claim.point.length - rowVars) := by
    rw [hevals, List.length_map, List.length_range, List.length_take_of_le (Nat.sub_le _ _)]
  have hrows : (evals (claim.point.drop (claim.point.length - rowVars))).length = 2 ^ rowVars := by
    rw [hevals, List.length_map, List.length_range, List.length_drop, Nat.sub_sub_self hle]
  rw [verifyOutputEvaluation, hlength, beq_self_eq_true, ensure_true, ok_bind, houtput, ok_bind, hrowVars,
    ok_bind, Logits.splitClaimPoint, usizeSub, if_pos hle, ok_bind, ok_bind]
  dsimp only
  rw [foldlM_addToken_eq, hcolumns, hrows]
  rcases (output.data.take (2 ^ rowVars)).mapM
    (readToken unpaddedDimSize (2 ^ (claim.point.length - rowVars))) with e | tokens
  · rfl
  · rw [ok_bind, ok_bind, ok_bind, zero_add]

end Read

/-! ## The divisor -/

section Divisor

variable {p : Nat} [Fact p.Prime] {D : DpCrypto (ZMod p)}

/-- The coordinates of the columns are halved, those of the rows are compared. -/
theorem BeforeSumcheck.betaEval_append {run : BeforeSumcheck D} (htwo : (2 : ZMod p) ≠ 0)
    {columnPoint rowPoint : List (ZMod p)} (hcolumns : columnPoint.length = run.numColVars) :
    run.betaEval (columnPoint ++ rowPoint) =
      2⁻¹ ^ run.numColVars * Multilinear.eqPoly run.rowPoint rowPoint := by
  have hhalf : ∀ x : ZMod p, 2⁻¹ * x + (1 - 2⁻¹) * (1 - x) = 2⁻¹ := by
    intro x
    have hone : (1 : ZMod p) - 2⁻¹ = 2⁻¹ := by
      field_simp
      ring
    rw [hone]
    ring
  have hcolumn : ∀ point : List (ZMod p),
      (((List.replicate point.length 2⁻¹).zip point).map fun q => q.1 * q.2 + (1 - q.1) * (1 - q.2)).prod =
        2⁻¹ ^ point.length := by
    intro point
    induction point with
    | nil => simp
    | cons x point ih =>
      rw [List.length_cons, List.replicate_succ, List.zip_cons_cons, List.map_cons, List.prod_cons, ih,
        hhalf, pow_succ, mul_comm]
  rw [betaEval, sumEqPoint, identityEval_eq_eqPoly, Multilinear.eqPoly,
    List.zip_append (by rw [List.length_replicate, hcolumns]), List.map_append, List.prod_append,
    ← hcolumns, hcolumn]
  rfl

/-- A point of the rows that is nowhere compared to zero. -/
theorem exists_eqPoly_ne_zero (r : List (ZMod p)) :
    ∃ x : List (ZMod p), x.length = r.length ∧ Multilinear.eqPoly r x ≠ 0 := by
  induction r with
  | nil => exact ⟨[], rfl, by simp [Multilinear.eqPoly]⟩
  | cons a r ih =>
    obtain ⟨x, hx, hne⟩ := ih
    have hcons : ∀ b, Multilinear.eqPoly (a :: r) (b :: x) =
        (a * b + (1 - a) * (1 - b)) * Multilinear.eqPoly r x := by
      intro b
      rw [Multilinear.eqPoly, List.zip_cons_cons, List.map_cons, List.prod_cons]
      rfl
    by_cases ha : a = 1
    · refine ⟨1 :: x, by simp [hx], ?_⟩
      rw [hcons, ha]
      simpa using hne
    · refine ⟨0 :: x, by simp [hx], ?_⟩
      rw [hcons]
      simpa using ⟨sub_ne_zero.mpr (Ne.symm ha), hne⟩

/-- The comparison can be made zero unless all coordinates are one half. -/
theorem exists_eqPoly_eq_zero_iff (htwo : (2 : ZMod p) ≠ 0) (r : List (ZMod p)) :
    (∃ x : List (ZMod p), x.length = r.length ∧ Multilinear.eqPoly r x = 0) ↔ ∃ a ∈ r, a ≠ 2⁻¹ := by
  have hfactor : ∀ a : ZMod p, (∃ b, a * b + (1 - a) * (1 - b) = 0) ↔ a ≠ 2⁻¹ := by
    intro a
    constructor
    · rintro ⟨b, hb⟩ rfl
      have htwice := congrArg (2 * ·) hb
      have hcancel : (2 : ZMod p) * (2⁻¹ * b + (1 - 2⁻¹) * (1 - b)) = 1 := by
        field_simp
        ring
      rw [hcancel, mul_zero] at htwice
      exact one_ne_zero htwice
    · intro ha
      have hne : 2 * a - 1 ≠ 0 := by
        intro hzero
        apply ha
        field_simp
        linear_combination hzero
      have hcancel : (a - 1) / (2 * a - 1) * (2 * a - 1) = a - 1 := div_mul_cancel₀ _ hne
      exact ⟨(a - 1) / (2 * a - 1), by linear_combination hcancel⟩
  induction r with
  | nil => simp [Multilinear.eqPoly]
  | cons a r ih =>
    constructor
    · rintro ⟨x, hx, hzero⟩
      obtain ⟨b, x, rfl⟩ := List.exists_cons_of_length_eq_add_one hx
      rw [Multilinear.eqPoly, List.zip_cons_cons, List.map_cons, List.prod_cons, mul_eq_zero] at hzero
      rcases hzero with hhead | hrest
      · exact ⟨a, List.mem_cons_self, (hfactor a).mp ⟨b, hhead⟩⟩
      · obtain ⟨c, hc, hne⟩ := ih.mp ⟨x, Nat.succ.inj hx, hrest⟩
        exact ⟨c, List.mem_cons_of_mem _ hc, hne⟩
    · rintro ⟨c, hc, hne⟩
      rcases List.mem_cons.mp hc with rfl | hc
      · obtain ⟨b, hb⟩ := (hfactor c).mpr hne
        refine ⟨b :: List.replicate r.length 0, by simp, ?_⟩
        rw [Multilinear.eqPoly, List.zip_cons_cons, List.map_cons, List.prod_cons]
        dsimp only
        rw [hb, zero_mul]
      · obtain ⟨x, hx, hzero⟩ := ih.mpr ⟨c, hc, hne⟩
        refine ⟨0 :: x, by simp [hx], ?_⟩
        rw [Multilinear.eqPoly, List.zip_cons_cons, List.map_cons, List.prod_cons]
        exact mul_eq_zero_of_right _ hzero

end Divisor

end LogitsCtx

end DeepProve
