import DeepProve.PolyCommit.Basic

/-!
# The value of the batching expression

`buildSumcheckExpression` gives one term for each claim: the power of the
challenge for the claim, the combination of the chunks of its polynomial and the
`eq` polynomial of the claim. Chunks and `eq` polynomials are read from one list
of witness values, at a position cut down to 16 bits.
-/

namespace DeepProve

variable {F : Type} [CommRing F]

/-- The value that `WitIn(position as u16)` stands for. -/
def readWitIn (witness : List F) (position : Nat) : Option F :=
  witness[(UInt16.ofNat position).toNat]?

omit [CommRing F] in
/-- Below 2^16 a position stands for itself. -/
theorem readWitIn_eq {witness : List F} {position : Nat} (h : position < 2 ^ 16) :
    readWitIn witness position = witness[position]? := by
  rw [readWitIn, UInt16.toNat_ofNat_of_lt' h]

/-- The position from which an expression reads the `i`-th of the evaluations that
    come after `offset` others. -/
def eqPosition (offset i : Nat) : Nat := (UInt16.ofNat (i + offset)).toNat

/-- The evaluations after the first `offset` are read from behind the `numEvals`
    evaluations of the proof exactly if there are `offset` of those, up to 2^16. -/
theorem eqFactors_iff {offset numEvals k : Nat} (hk : 0 < k) :
    (∀ i < k, eqPosition offset i = numEvals + i) ↔
      numEvals = offset % 2 ^ 16 ∧ numEvals + k ≤ 2 ^ 16 := by
  have hpos : ∀ i, eqPosition offset i = (i + offset) % 2 ^ 16 := fun i => UInt16.toNat_ofNat'
  simp only [hpos]
  constructor
  · intro h
    have hfirst := h 0 hk
    have hlast := h (k - 1) (by omega)
    omega
  · intro ⟨hn, hle⟩ i hi
    omega

/-- The terms of the expression: the position of the first chunk and the
    coefficients of the chunks. -/
def termsFrom (totalPolys : Nat) : List (ChunkedCommittedPolyInfo F) → List (Nat × List F)
  | [] => []
  | info :: infos =>
    info.batchingCoefficients.map (fun coeffs => (totalPolys, coeffs)) ++
      termsFrom (totalPolys + info.numChunks) infos

/-- `C_1*P_1 + ... + C_M*P_M` on the values of the chunks. -/
def combineChunks (chunkVal : Nat → F) (term : Nat × List F) : F :=
  (term.2.zipIdx.map fun (coeff, j) => coeff * chunkVal (term.1 + j)).sum

theorem combineChunks_range (chunkVal : Nat → F) (offset n : Nat) (coeff : Nat → F) :
    combineChunks chunkVal (offset, (List.range n).map coeff) =
      ∑ j ∈ Finset.range n, coeff j * chunkVal (offset + j) := by
  induction n with
  | zero => rfl
  | succ n ih =>
    rw [Finset.sum_range_succ, ← ih, List.range_succ, List.map_append]
    simp only [combineChunks, List.zipIdx_append, List.map_append, List.sum_append,
      List.length_map, List.length_range, List.map_cons, List.map_nil, List.zipIdx_singleton,
      List.sum_singleton, Nat.zero_add]

/-- What the terms from number `start` on add up to. -/
def foldTerms (c : F) (chunkVal eqVal : Nat → F) (start : Nat) (terms : List (Nat × List F)) : F :=
  ((terms.zipIdx start).map fun (term, i) => c ^ i * combineChunks chunkVal term * eqVal i).sum

omit [CommRing F] in
/-- The list of coefficients of each claim is as long as the polynomial has chunks. -/
def ChunkedCommittedPolyInfo.WellFormed (info : ChunkedCommittedPolyInfo F) : Prop :=
  info.numClaims = info.batchingCoefficients.length ∧
    ∀ coeffs ∈ info.batchingCoefficients, coeffs.length = info.numChunks

theorem foldTerms_nil (c : F) (chunkVal eqVal : Nat → F) (start : Nat) :
    foldTerms c chunkVal eqVal start [] = 0 := rfl

theorem foldTerms_cons (c : F) (chunkVal eqVal : Nat → F) (start : Nat) (term : Nat × List F)
    (terms : List (Nat × List F)) :
    foldTerms c chunkVal eqVal start (term :: terms) =
      c ^ start * combineChunks chunkVal term * eqVal start +
        foldTerms c chunkVal eqVal (start + 1) terms := by
  simp [foldTerms]

theorem foldTerms_append (c : F) (chunkVal eqVal : Nat → F) (start : Nat)
    (terms terms' : List (Nat × List F)) :
    foldTerms c chunkVal eqVal start (terms ++ terms') =
      foldTerms c chunkVal eqVal start terms +
        foldTerms c chunkVal eqVal (start + terms.length) terms' := by
  simp only [foldTerms, List.zipIdx_append, List.map_append, List.sum_append]

section Evaluation

variable {D : DpCrypto F} {witness : List F} {c : F} {chunkVal eqVal : Nat → F}

/-- The value of `C_1*P_1 + ... + C_M*P_M`. -/
theorem eval_chunkPolyExpr (hD : D.Lawful) {totalPolys : Nat} {coeffs : List F}
    (h : ∀ j < coeffs.length,
      readWitIn witness (totalPolys + j) = some (chunkVal (totalPolys + j))) :
    D.eval witness [c] (chunkPolyExpr D totalPolys coeffs) =
      .ok (combineChunks chunkVal (totalPolys, coeffs)) := by
  -- Induction from the left: the fold adds to what the earlier chunks gave
  suffices hgen : ∀ (l : List (F × Nat)) (e : D.Expression) (x : F),
      D.eval witness [c] e = .ok x →
      (∀ p ∈ l, readWitIn witness (totalPolys + p.2) = some (chunkVal (totalPolys + p.2))) →
      D.eval witness [c] (l.foldl (fun inner (coeff, chunkIndex) =>
        D.add inner (D.mul (D.constant coeff) (D.witIn (UInt16.ofNat (totalPolys + chunkIndex))))) e)
      = .ok (x + (l.map fun (coeff, j) => coeff * chunkVal (totalPolys + j)).sum) by
    have hsum := hgen coeffs.zipIdx (D.constant 0) 0 (hD.constant _ _ _) (by
      intro p hp
      have hlt := (List.mem_zipIdx hp).2.1
      exact h p.2 (by omega))
    rw [zero_add] at hsum
    exact hsum
  intro l
  induction l with
  | nil =>
    intro e x he _
    simpa using he
  | cons p l ih =>
    intro e x he hread
    have hterm := hD.mul _ _ _ _ _ _ (hD.constant witness [c] p.1)
      (hD.witIn _ [c] _ _ (hread p List.mem_cons_self))
    have hrest := ih _ _ (hD.add _ _ _ _ _ _ he hterm)
      (fun q hq => hread q (List.mem_cons_of_mem _ hq))
    rw [List.foldl_cons, hrest, List.map_cons, List.sum_cons, add_assoc]

/-- One claim adds its term to the value of the expression. -/
theorem eval_addClaimTerm (hD : D.Lawful) {eqOffset totalNumTerms totalPolys numChunks i : Nat}
    {coeffs : List F} {inner : D.Expression} {x : F}
    (hinner : D.eval witness [c] inner = .ok x) (hlen : coeffs.length = numChunks)
    (hchunks : ∀ j < coeffs.length,
      readWitIn witness (totalPolys + j) = some (chunkVal (totalPolys + j)))
    (heq : readWitIn witness (totalNumTerms + i + eqOffset) = some (eqVal (totalNumTerms + i))) :
    ∃ e, addClaimTerm D eqOffset totalNumTerms totalPolys numChunks inner (coeffs, i) = .ok e ∧
      D.eval witness [c] e = .ok (x + c ^ (totalNumTerms + i) *
        combineChunks chunkVal (totalPolys, coeffs) * eqVal (totalNumTerms + i)) := by
  have hchallenge := hD.challenge witness [c] 0 (totalNumTerms + i) 1 0 c rfl
  rw [mul_one, add_zero] at hchallenge
  have hterm := hD.mul _ _ _ _ _ _
    (hD.mul _ _ _ _ _ _ hchallenge (eval_chunkPolyExpr (c := c) hD hchunks))
    (hD.witIn _ [c] _ _ heq)
  refine ⟨_, ?_, hD.add _ _ _ _ _ _ hinner hterm⟩
  simp only [addClaimTerm, hlen, beq_self_eq_true, ensure_true, Outcome.ok_bind]

/-- The claims about one polynomial add their terms. -/
private theorem eval_foldlM_addClaimTerm (hD : D.Lawful) (chunkVal eqVal : Nat → F)
    (eqOffset totalNumTerms totalPolys : Nat) {numChunks : Nat} (coeffs : List (List F)) (k : Nat)
    {inner : D.Expression} {x : F} (hinner : D.eval witness [c] inner = .ok x)
    (hlen : ∀ l ∈ coeffs, l.length = numChunks)
    (hchunks : coeffs ≠ [] → ∀ j < numChunks,
      readWitIn witness (totalPolys + j) = some (chunkVal (totalPolys + j)))
    (heqs : ∀ i < coeffs.length, readWitIn witness (totalNumTerms + (k + i) + eqOffset) =
      some (eqVal (totalNumTerms + (k + i)))) :
    ∃ e, (coeffs.zipIdx k).foldlM (addClaimTerm D eqOffset totalNumTerms totalPolys numChunks) inner
        = .ok e ∧
      D.eval witness [c] e = .ok (x + foldTerms c chunkVal eqVal (totalNumTerms + k)
        (coeffs.map fun l => (totalPolys, l))) := by
  induction coeffs generalizing k inner x with
  | nil =>
    refine ⟨inner, rfl, ?_⟩
    rw [List.map_nil, foldTerms_nil, add_zero]
    exact hinner
  | cons l coeffs ih =>
    have hl := hlen l List.mem_cons_self
    obtain ⟨e₁, he₁, hval₁⟩ := eval_addClaimTerm (i := k) hD hinner hl
      (fun j hj => hchunks (List.cons_ne_nil _ _) j (by omega))
      (by simpa using heqs 0 (by simp))
    have hlen' : ∀ l ∈ coeffs, l.length = numChunks :=
      fun l' hl' => hlen l' (List.mem_cons_of_mem _ hl')
    obtain ⟨e, he, hval⟩ := ih (k + 1) hval₁ hlen' (fun _ => hchunks (List.cons_ne_nil _ _)) (by
      intro i hi
      have hnext := heqs (i + 1) (by rw [List.length_cons]; omega)
      rwa [show k + (i + 1) = k + 1 + i by omega] at hnext)
    refine ⟨e, ?_, ?_⟩
    · rw [List.zipIdx_cons, List.foldlM_cons, he₁]
      exact he
    · rw [hval, List.map_cons, foldTerms_cons, add_assoc, Nat.add_assoc]

/-- The polynomials from `totalPolys` on add their terms. -/
private theorem eval_foldlM_addPolyTerms (hD : D.Lawful) {eqOffset : Nat}
    (infos : List (ChunkedCommittedPolyInfo F)) (totalNumTerms totalPolys : Nat)
    {expr : D.Expression} {x : F} (hexpr : D.eval witness [c] expr = .ok x)
    (hwf : ∀ info ∈ infos, info.WellFormed)
    (hchunks : ∀ term ∈ termsFrom totalPolys infos, ∀ j < term.2.length,
      readWitIn witness (term.1 + j) = some (chunkVal (term.1 + j)))
    (heqs : ∀ i < (termsFrom totalPolys infos).length,
      readWitIn witness (totalNumTerms + i + eqOffset) = some (eqVal (totalNumTerms + i))) :
    ∃ acc, infos.foldlM (addPolyTerms D eqOffset) (expr, totalNumTerms, totalPolys) = .ok acc ∧
      D.eval witness [c] acc.1 =
        .ok (x + foldTerms c chunkVal eqVal totalNumTerms (termsFrom totalPolys infos)) := by
  induction infos generalizing totalNumTerms totalPolys expr x with
  | nil =>
    refine ⟨_, rfl, ?_⟩
    rw [termsFrom, foldTerms_nil, add_zero]
    exact hexpr
  | cons info infos ih =>
    obtain ⟨hnum, hlen⟩ := hwf info List.mem_cons_self
    simp only [termsFrom, List.mem_append, List.mem_map, List.length_append,
      List.length_map] at hchunks heqs
    obtain ⟨e₁, he₁, hval₁⟩ := eval_foldlM_addClaimTerm hD chunkVal eqVal eqOffset
      totalNumTerms totalPolys info.batchingCoefficients 0 hexpr hlen
      (by
        intro hne j hj
        obtain ⟨l, hl⟩ := List.exists_mem_of_ne_nil _ hne
        exact hchunks (totalPolys, l) (Or.inl ⟨l, hl, rfl⟩) j (by rw [hlen l hl]; exact hj))
      (by
        intro i hi
        rw [Nat.zero_add]
        exact heqs i (by omega))
    obtain ⟨acc, hacc, hval⟩ := ih (totalNumTerms + info.numClaims) (totalPolys + info.numChunks)
      hval₁ (fun info' h => hwf info' (List.mem_cons_of_mem _ h))
      (fun term hterm => hchunks term (Or.inr hterm))
      (by
        intro i hi
        have hnext := heqs (info.numClaims + i) (by omega)
        rwa [← Nat.add_assoc] at hnext)
    refine ⟨acc, ?_, ?_⟩
    · rw [List.foldlM_cons, addPolyTerms, he₁]
      exact hacc
    · rw [hval, termsFrom, foldTerms_append, List.length_map, hnum, add_assoc, Nat.add_zero]

/-- The value of the whole expression: the sum of the terms of all claims. The
    `eq` polynomials come after all chunks. -/
theorem eval_buildSumcheckExpression (hD : D.Lawful) (chunkVal eqVal : Nat → F)
    {infos : List (ChunkedCommittedPolyInfo F)}
    (hwf : ∀ info ∈ infos, info.WellFormed)
    (hchunks : ∀ term ∈ termsFrom 0 infos, ∀ j < term.2.length,
      readWitIn witness (term.1 + j) = some (chunkVal (term.1 + j)))
    (heqs : ∀ i < (termsFrom 0 infos).length,
      readWitIn witness (i + (infos.map ChunkedCommittedPolyInfo.numChunks).sum) =
        some (eqVal i)) :
    ∃ e, buildSumcheckExpression D infos = .ok e ∧
      D.eval witness [c] e = .ok (foldTerms c chunkVal eqVal 0 (termsFrom 0 infos)) := by
  obtain ⟨acc, hacc, hval⟩ := eval_foldlM_addPolyTerms (c := c) hD infos 0 0
    (hD.constant _ _ 0) hwf hchunks (fun i hi => by simpa using heqs i hi)
  refine ⟨acc.1, ?_, ?_⟩
  · simp only [buildSumcheckExpression, hacc, Outcome.ok_bind]
  · rw [hval, zero_add]

end Evaluation

end DeepProve
