import DeepProve.ForStd.Fractions
import DeepProve.LogUp.Structs

/-!
# The LogUp circuit

`LogUpCircuit` of `lookup/logup_gkr/circuit.rs`: layer by layer, the fractions of the second half are
added to those of the first, until two are left.
-/

namespace DeepProve

variable {F : Type}

/-- `LogUpLayer`. -/
inductive LogUpLayer (F : Type) where
  | generic (numerator denominator : List F)
  | initialTable (numerator : List F) (constantChallenge columnSeparationChallenge : F)
      (denominatorColumns : List (List F))
  | initialLookup (constantChallenge columnSeparationChallenge : F) (denominatorColumns : List (List F))
  deriving DecidableEq, Repr

namespace LogUpLayer

/-- The number of variables of the first column. -/
def columnVars (denominatorColumns : List (List F)) : Outcome Nat := do
  let column ← unwrap denominatorColumns[0]? "index out of bounds"
  .ok (ceilLog2 (column.length / 2))

/-- `num_vars`. -/
def numVars : LogUpLayer F → Outcome Nat
  | generic _ denominator => .ok (ceilLog2 (denominator.length / 2))
  | initialTable _ _ _ denominatorColumns => columnVars denominatorColumns
  | initialLookup _ _ denominatorColumns => columnVars denominatorColumns

/-- `is_final_layer`. -/
def isFinalLayer (self : LogUpLayer F) : Outcome Bool := do
  let numVars ← self.numVars
  .ok (numVars == 0)

/-- `flat_evals`. -/
def flatEvals : LogUpLayer F → List F
  | generic numerator denominator => numerator ++ denominator
  | initialLookup _ _ denominatorColumns => denominatorColumns.flatten
  | initialTable numerator _ _ denominatorColumns => numerator ++ denominatorColumns.flatten

section Ring

variable [CommRing F]

/-- The denominators of a row of the first half and of the row of the second half. -/
def denominatorPair (constantChallenge columnSeparationChallenge : F)
    (denominatorColumns : List (List F)) (halfLayerSize i : Nat) : Outcome (F × F) := do
  let vals ← denominatorColumns.mapM fun col => do
    let low ← unwrap col[i]? "index out of bounds"
    let high ← unwrap col[i + halfLayerSize]? "index out of bounds"
    .ok (low, high)
  let (denom1, denom2, _) := vals.foldl (fun (acc1, acc2, chalAcc) (val1, val2) =>
    (acc1 + chalAcc * val1, acc2 + chalAcc * val2, chalAcc * columnSeparationChallenge))
    (constantChallenge, constantChallenge, (1 : F))
  .ok (denom1, denom2)

/-- The layer of the fractions. -/
def ofFractions (fractions : List (Fraction F)) : LogUpLayer F :=
  generic (fractions.map Fraction.numerator) (fractions.map Fraction.denominator)

/-- The layer that follows, where the layer is not the last. -/
def addHalves (halfLayerSize : Nat) : LogUpLayer F → Outcome (LogUpLayer F)
  | generic numerator denominator => do
    let (num1, num2) ← splitAtMid numerator halfLayerSize
    let (denom1, denom2) ← splitAtMid denominator halfLayerSize
    .ok (ofFractions ((num1.zip denom1).zip (num2.zip denom2) |>.map fun ((n1, d1), (n2, d2)) =>
      Fraction.mk n1 d1 + Fraction.mk n2 d2))
  | initialTable numerator constantChallenge columnSeparationChallenge denominatorColumns => do
    let (num1, num2) ← splitAtMid numerator halfLayerSize
    let fractions ← (num1.zip num2).zipIdx.mapM fun ((n1, n2), i) => do
      let (denom1, denom2) ← denominatorPair constantChallenge columnSeparationChallenge
        denominatorColumns halfLayerSize i
      .ok (Fraction.mk n1 denom1 + Fraction.mk n2 denom2)
    .ok (ofFractions fractions)
  | initialLookup constantChallenge columnSeparationChallenge denominatorColumns => do
    let fractions ← (List.range halfLayerSize).mapM fun i => do
      let (d1, d2) ← denominatorPair constantChallenge columnSeparationChallenge
        denominatorColumns halfLayerSize i
      .ok (Fraction.mk (-1) d1 + Fraction.mk (-1) d2)
    .ok (ofFractions fractions)

/-- `next_layer`. -/
def nextLayer (self : LogUpLayer F) : Outcome (Option (LogUpLayer F)) := do
  if ← self.isFinalLayer then
    .ok none
  else do
    let halfLayerSize := 2 ^ (← self.numVars)
    let next ← self.addHalves halfLayerSize
    .ok (some next)

/-! ## Termination -/

omit [CommRing F] in
theorem numVars_ofFractions (fractions : List (Fraction F)) :
    (ofFractions fractions).numVars = .ok (ceilLog2 (fractions.length / 2)) := by
  rw [ofFractions, numVars, List.length_map]

/-- A layer has as many fractions as half of the layer before it, at most. -/
theorem exists_fractions_of_addHalves {self next : LogUpLayer F} {half : Nat}
    (h : self.addHalves half = .ok next) :
    ∃ fractions : List (Fraction F), next = ofFractions fractions ∧ fractions.length ≤ half := by
  cases self with
  | generic numerator denominator =>
    obtain ⟨⟨num1, num2⟩, hnum, h⟩ := Outcome.bind_eq_ok.mp h
    obtain ⟨⟨denom1, denom2⟩, -, h⟩ := Outcome.bind_eq_ok.mp h
    obtain ⟨-, rfl, -⟩ := splitAtMid_eq_ok.mp hnum
    refine ⟨_, (Except.ok.inj h).symm, ?_⟩
    simp only [List.length_map, List.length_zip, List.length_take]
    omega
  | initialTable numerator c s columns =>
    obtain ⟨⟨num1, num2⟩, hnum, h⟩ := Outcome.bind_eq_ok.mp h
    obtain ⟨-, rfl, -⟩ := splitAtMid_eq_ok.mp hnum
    obtain ⟨fractions, hfractions, h⟩ := Outcome.bind_eq_ok.mp h
    refine ⟨fractions, (Except.ok.inj h).symm, ?_⟩
    rw [← (Outcome.forall₂_of_mapM_eq_ok hfractions).length_eq]
    simp only [List.length_zipIdx, List.length_zip, List.length_take]
    omega
  | initialLookup c s columns =>
    obtain ⟨fractions, hfractions, h⟩ := Outcome.bind_eq_ok.mp h
    refine ⟨fractions, (Except.ok.inj h).symm, ?_⟩
    rw [← (Outcome.forall₂_of_mapM_eq_ok hfractions).length_eq, List.length_range]

/-- The variables that are left. -/
def varsLeft (self : LogUpLayer F) : Nat := self.numVars.toOption.getD 0

theorem varsLeft_lt {self next : LogUpLayer F} (h : self.nextLayer = .ok (some next)) :
    next.varsLeft < self.varsLeft := by
  obtain ⟨final, hfinal, h⟩ := Outcome.bind_eq_ok.mp h
  obtain ⟨vars, hvars, hfinal⟩ := Outcome.bind_eq_ok.mp hfinal
  obtain rfl := Except.ok.inj hfinal
  split at h
  · exact nomatch h
  · next hpos =>
    obtain ⟨vars', hvars', h⟩ := Outcome.bind_eq_ok.mp h
    obtain rfl := Except.ok.inj (hvars.symm.trans hvars')
    obtain ⟨next', hnext, h⟩ := Outcome.bind_eq_ok.mp h
    obtain rfl := Option.some.inj (Except.ok.inj h)
    obtain ⟨fractions, rfl, hlength⟩ := exists_fractions_of_addHalves hnext
    have hvars_pos : vars ≠ 0 := fun hzero => hpos (by rw [hzero]; rfl)
    obtain ⟨v, rfl⟩ := Nat.exists_eq_succ_of_ne_zero hvars_pos
    rw [varsLeft, varsLeft, numVars_ofFractions, hvars]
    show ceilLog2 (fractions.length / 2) < v + 1
    rw [Nat.lt_succ_iff, ceilLog2, Nat.clog_le_iff_le_pow (by decide)]
    rw [Nat.pow_succ] at hlength
    omega

end Ring

end LogUpLayer

/-! ## Circuits -/

/-- `LogUpCircuit`. -/
structure LogUpCircuit (F : Type) where
  layers : List (LogUpLayer F)

namespace LogUpCircuit

section New

variable [CommRing F]

/-- `successors(Some(initial_layer), |layer| layer.next_layer())`. -/
def successors (layer : LogUpLayer F) : Outcome (List (LogUpLayer F)) :=
  match _h : layer.nextLayer with
  | .error fault => .error fault
  | .ok none => .ok [layer]
  | .ok (some next) => do
    let layers ← successors next
    .ok (layer :: layers)
termination_by layer.varsLeft
decreasing_by exact LogUpLayer.varsLeft_lt _h

/-- `new`. -/
def new (initialLayer : LogUpLayer F) : Outcome (LogUpCircuit F) := do
  let layers ← successors initialLayer
  .ok ⟨layers⟩

end New

/-- `outputs`. -/
def outputs (self : LogUpCircuit F) : Outcome (List F) :=
  unwrap (self.layers.getLast?.map LogUpLayer.flatEvals) "called Option::unwrap() on a None value"

end LogUpCircuit

/-! ## Layers of fractions -/

section Sums

variable [CommRing F]

namespace LogUpLayer

theorem nextLayer_of_numVars_zero {self : LogUpLayer F} (h : self.numVars = .ok 0) :
    self.nextLayer = .ok none := by
  rw [nextLayer, isFinalLayer, h]
  rfl

theorem nextLayer_of_numVars_succ {self next : LogUpLayer F} {vars : Nat}
    (h : self.numVars = .ok (vars + 1)) (hnext : self.addHalves (2 ^ (vars + 1)) = .ok next) :
    self.nextLayer = .ok (some next) := by
  rw [nextLayer, isFinalLayer, h]
  show (do
    let next ← self.addHalves (2 ^ (vars + 1))
    Except.ok (some next)) = _
  rw [hnext]
  rfl

omit [CommRing F] in
theorem ceilLog2_half {len vars : Nat} (h : len = 2 ^ (vars + 1)) : ceilLog2 (len / 2) = vars := by
  rw [h, Nat.pow_succ, Nat.mul_div_cancel _ (by decide), ceilLog2, Nat.clog_pow _ _ (by decide)]

/-- The layer that follows a layer of fractions has the same sum. -/
theorem addHalves_ofFractions {fractions : List (Fraction F)} {half : Nat}
    (h : fractions.length = half + half) :
    ∃ next : List (Fraction F), (ofFractions fractions).addHalves half = .ok (ofFractions next) ∧
      next.length = half ∧ next.sum = fractions.sum := by
  have hle : half ≤ fractions.length := by omega
  have hzip : ∀ l l' : List (Fraction F),
      (((l.map Fraction.numerator).zip (l.map Fraction.denominator)).zip
        ((l'.map Fraction.numerator).zip (l'.map Fraction.denominator))).map
          (fun ((n1, d1), (n2, d2)) => Fraction.mk n1 d1 + Fraction.mk n2 d2) =
        List.zipWith (· + ·) l l' := by
    intro l
    induction l with
    | nil => exact fun _ => rfl
    | cons a l ih =>
      intro l'
      cases l' with
      | nil => rfl
      | cons b l' => exact congrArg _ (ih l')
  refine ⟨List.zipWith (· + ·) (fractions.take half) (fractions.drop half), ?_, ?_, ?_⟩
  · rw [← hzip, ofFractions, addHalves, splitAtMid_eq_ok.mpr ⟨by rwa [List.length_map], rfl, rfl⟩,
      splitAtMid_eq_ok.mpr ⟨by rwa [List.length_map], rfl, rfl⟩]
    simp only [Outcome.ok_bind, List.map_take, List.map_drop]
  · rw [List.length_zipWith, List.length_take, List.length_drop]
    omega
  · have hlength : (fractions.take half).length = (fractions.drop half).length := by
      rw [List.length_take, List.length_drop]
      omega
    rw [← List.sum_add_sum_eq_sum_zipWith_of_length_eq _ _ hlength, List.sum_take_add_sum_drop]

end LogUpLayer

namespace LogUpCircuit

open LogUpLayer

theorem successors_of_none {layer : LogUpLayer F} (h : layer.nextLayer = .ok none) :
    successors layer = .ok [layer] := by
  rw [successors]
  split
  · next hfault => exact nomatch h.symm.trans hfault
  · rfl
  · next hsome => exact nomatch h.symm.trans hsome

theorem successors_of_some {layer next : LogUpLayer F} {layers : List (LogUpLayer F)}
    (h : layer.nextLayer = .ok (some next)) (hlayers : successors next = .ok layers) :
    successors layer = .ok (layer :: layers) := by
  rw [successors]
  split
  · next hfault => exact nomatch h.symm.trans hfault
  · next hnone => exact nomatch h.symm.trans hnone
  · next next' hsome =>
    obtain rfl := Option.some.inj (Except.ok.inj (h.symm.trans hsome))
    rw [hlayers]
    rfl

/-- From a layer of fractions on, each layer has half of the fractions, and the same sum. -/
theorem successors_ofFractions {vars : Nat} {fractions : List (Fraction F)}
    (h : fractions.length = 2 ^ (vars + 1)) :
    ∃ (layers : List (LogUpLayer F)) (a b : Fraction F),
      successors (ofFractions fractions) = .ok layers ∧ layers.length = vars + 1 ∧
      layers.getLast? = some (ofFractions [a, b]) ∧ a + b = fractions.sum := by
  induction vars generalizing fractions with
  | zero =>
    obtain ⟨a, b, rfl⟩ := List.length_eq_two.mp h
    refine ⟨_, a, b, successors_of_none (nextLayer_of_numVars_zero ?_), rfl, rfl, by simp⟩
    rw [numVars_ofFractions, ceilLog2_half h]
  | succ vars ih =>
    have hhalves : fractions.length = 2 ^ (vars + 1) + 2 ^ (vars + 1) := by
      rw [h, Nat.pow_succ, Nat.mul_two]
    obtain ⟨next, hnext, hlength, hsum⟩ := addHalves_ofFractions hhalves
    obtain ⟨layers, a, b, hlayers, hcount, hlast, hab⟩ := ih hlength
    have hvars : (ofFractions fractions).numVars = .ok (vars + 1) := by
      rw [numVars_ofFractions, ceilLog2_half h]
    refine ⟨_, a, b, successors_of_some (nextLayer_of_numVars_succ hvars hnext) hlayers, ?_, ?_, ?_⟩
    · rw [List.length_cons, hcount]
    · rw [List.getLast?_cons, hlast]
      rfl
    · rw [hab, hsum]

end LogUpCircuit

/-! ## The first layer -/

namespace LogUpLayer

section Initial

variable (c s : F) (columns : List (List F))

/-- The two denominators are those of the two rows. -/
theorem denominatorPair_eq {half i : Nat} (h : ∀ col ∈ columns, i + half < col.length) :
    denominatorPair c s columns half i =
      .ok (denominatorAt c s columns i, denominatorAt c s columns (i + half)) := by
  have hfold : ∀ (columns : List (List F)) (c1 c2 chal : F),
      (columns.map fun col => (col.getD i 0, col.getD (i + half) 0)).foldl
        (fun (x : F × F × F) (v : F × F) =>
          (x.1 + x.2.2 * v.1, x.2.1 + x.2.2 * v.2, x.2.2 * s)) (c1, c2, chal) =
      (((columns.map fun col => col.getD i 0).foldl (fun (x : F × F) v =>
          (x.1 + x.2 * v, x.2 * s)) (c1, chal)).1,
        ((columns.map fun col => col.getD (i + half) 0).foldl (fun (x : F × F) v =>
          (x.1 + x.2 * v, x.2 * s)) (c2, chal)).1,
        ((columns.map fun col => col.getD i 0).foldl (fun (x : F × F) v =>
          (x.1 + x.2 * v, x.2 * s)) (c1, chal)).2) := by
    intro columns
    induction columns with
    | nil => exact fun _ _ _ => rfl
    | cons col columns ih => exact fun c1 c2 chal => ih _ _ _
  have hvals : (columns.mapM fun col => do
      let low ← unwrap col[i]? "index out of bounds"
      let high ← unwrap col[i + half]? "index out of bounds"
      Except.ok (low, high)) = .ok (columns.map fun col => (col.getD i 0, col.getD (i + half) 0)) := by
    refine Outcome.mapM_eq_ok_map fun col hcol => ?_
    have hhigh := h col hcol
    have hlow : i < col.length := by omega
    rw [List.getElem?_eq_getElem hlow, List.getElem?_eq_getElem hhigh]
    simp [List.getD_eq_getElem?_getD, List.getElem?_eq_getElem hlow, List.getElem?_eq_getElem hhigh]
  unfold denominatorPair
  rw [hvals, Outcome.ok_bind]
  exact congrArg (fun x : F × F × F => (Except.ok (x.1, x.2.1) : Outcome (F × F)))
    (hfold columns c c 1)

/-- The first layer of a circuit for `rows` rows: the numerators are those of the lookups or of a
    table. -/
inductive IsInitial (rows : Nat) : (Nat → F) → LogUpLayer F → Prop where
  | lookup : IsInitial rows (fun _ => -1) (.initialLookup c s columns)
  | table {multiplicities : List F} (h : multiplicities.length = rows) :
    IsInitial rows (fun i => multiplicities.getD i 0) (.initialTable multiplicities c s columns)

variable {c s columns}

/-- The first layer adds the fractions of the rows of the two halves. -/
theorem IsInitial.addHalves_eq {half : Nat} {N : Nat → F} {initial : LogUpLayer F}
    (h : IsInitial c s columns (half + half) N initial)
    (hcolumns : ∀ col ∈ columns, col.length = half + half) :
    initial.addHalves half = .ok (ofFractions ((List.range half).map fun i =>
      Fraction.mk (N i) (denominatorAt c s columns i) +
        Fraction.mk (N (i + half)) (denominatorAt c s columns (i + half)))) := by
  have hpair : ∀ i < half, denominatorPair c s columns half i =
      .ok (denominatorAt c s columns i, denominatorAt c s columns (i + half)) := fun i hi =>
    denominatorPair_eq c s columns fun col hcol => by rw [hcolumns col hcol]; omega
  cases h with
  | lookup =>
    rw [addHalves, Outcome.mapM_eq_ok_map (g := fun i => Fraction.mk (-1) (denominatorAt c s columns i) +
      Fraction.mk (-1) (denominatorAt c s columns (i + half)))]
    · rfl
    · intro i hi
      rw [hpair i (List.mem_range.mp hi)]
      rfl
  | @table multiplicities hlength =>
    have hlow : half ≤ multiplicities.length := by omega
    have hzip : ((multiplicities.take half).zip (multiplicities.drop half)).zipIdx =
        (List.range half).map fun i =>
          ((multiplicities.getD i 0, multiplicities.getD (i + half) 0), i) := by
      apply List.ext_getElem
      · simp only [List.length_zipIdx, List.length_zip, List.length_take, List.length_drop,
          List.length_map, List.length_range]
        omega
      · intro i hi _
        simp only [List.length_zipIdx, List.length_zip, List.length_take, List.length_drop] at hi
        have hi1 : i < multiplicities.length := by omega
        have hi2 : i + half < multiplicities.length := by omega
        simp [List.getD_eq_getElem?_getD, List.getElem?_eq_getElem hi1,
          List.getElem?_eq_getElem hi2, Nat.add_comm half]
    have hfractions : (((multiplicities.take half).zip (multiplicities.drop half)).zipIdx.mapM
        fun ((n1, n2), i) => do
          let (denom1, denom2) ← denominatorPair c s columns half i
          .ok (Fraction.mk n1 denom1 + Fraction.mk n2 denom2)) =
        .ok ((List.range half).map fun i =>
          Fraction.mk (multiplicities.getD i 0) (denominatorAt c s columns i) +
            Fraction.mk (multiplicities.getD (i + half) 0) (denominatorAt c s columns (i + half))) := by
      rw [hzip, List.mapM_map]
      refine Outcome.mapM_eq_ok_map fun i hi => ?_
      simp only [Function.comp, hpair i (List.mem_range.mp hi), Outcome.ok_bind]
    rw [addHalves, splitAtMid_eq_ok.mpr ⟨hlow, rfl, rfl⟩, Outcome.ok_bind]
    dsimp only
    rw [hfractions]
    rfl

theorem IsInitial.numVars_eq {vars : Nat} {N : Nat → F} {initial : LogUpLayer F}
    (h : IsInitial c s columns (2 ^ (vars + 1)) N initial) (hne : columns ≠ [])
    (hcolumns : ∀ col ∈ columns, col.length = 2 ^ (vars + 1)) : initial.numVars = .ok vars := by
  obtain ⟨col, columns, rfl⟩ := List.exists_cons_of_ne_nil hne
  have hvars : columnVars (col :: columns) = .ok vars :=
    congrArg Except.ok (ceilLog2_half (hcolumns col List.mem_cons_self))
  cases h with
  | lookup => exact hvars
  | table _ => exact hvars

end Initial

end LogUpLayer

/-- The denominator of a row: the columns are separated by the powers of a challenge. -/
def rowDenominator (c s : F) (columns : List (List F)) (i : Nat) : F :=
  c + ∑ k ∈ Finset.range columns.length, s ^ k * (columns.getD k []).getD i 0

theorem denominatorAt_eq (c s : F) (columns : List (List F)) (i : Nat) :
    denominatorAt c s columns i = rowDenominator c s columns i := by
  have hfold : ∀ (columns : List (List F)) (acc chal : F),
      ((columns.map fun col => col.getD i 0).foldl (fun (x : F × F) v =>
          (x.1 + x.2 * v, x.2 * s)) (acc, chal)).1 =
        acc + ∑ k ∈ Finset.range columns.length, chal * s ^ k * (columns.getD k []).getD i 0 := by
    intro columns
    induction columns with
    | nil => simp
    | cons col columns ih =>
      intro acc chal
      rw [List.map_cons, List.foldl_cons, ih, List.length_cons, Finset.sum_range_succ']
      simp only [List.getD_cons_succ, List.getD_cons_zero, pow_succ, pow_zero]
      have hterm : ∀ k, chal * s * s ^ k * (columns.getD k []).getD i 0 =
          chal * (s ^ k * s) * (columns.getD k []).getD i 0 := fun k => by ring
      simp only [hterm]
      ring
  have h := hfold columns c 1
  simp only [one_mul] at h
  exact h

namespace LogUpCircuit

/-- The layers of a circuit, and the two fractions that are left. -/
theorem new_eq_ok {c s : F} {columns : List (List F)} {vars : Nat} {N : Nat → F}
    {initial : LogUpLayer F}
    (h : LogUpLayer.IsInitial c s columns (2 ^ (vars + 2)) N initial) (hne : columns ≠ [])
    (hcolumns : ∀ col ∈ columns, col.length = 2 ^ (vars + 2)) :
    ∃ (circuit : LogUpCircuit F) (a b : Fraction F), new initial = .ok circuit ∧
      circuit.layers.length = vars + 2 ∧
      circuit.outputs = .ok [a.numerator, b.numerator, a.denominator, b.denominator] ∧
      a + b = ∑ i ∈ Finset.range (2 ^ (vars + 2)), Fraction.mk (N i) (rowDenominator c s columns i) := by
  have hhalves : 2 ^ (vars + 2) = 2 ^ (vars + 1) + 2 ^ (vars + 1) := by
    rw [Nat.pow_succ, Nat.mul_two]
  have hnext := (hhalves ▸ h).addHalves_eq (fun col hcol => (hcolumns col hcol).trans hhalves)
  have hlength : ((List.range (2 ^ (vars + 1))).map fun i =>
      Fraction.mk (N i) (denominatorAt c s columns i) +
        Fraction.mk (N (i + 2 ^ (vars + 1)))
          (denominatorAt c s columns (i + 2 ^ (vars + 1)))).length = 2 ^ (vars + 1) := by
    rw [List.length_map, List.length_range]
  obtain ⟨layers, a, b, hlayers, hcount, hlast, hab⟩ := successors_ofFractions hlength
  have hsuccessors := successors_of_some
    (LogUpLayer.nextLayer_of_numVars_succ (h.numVars_eq hne hcolumns) hnext) hlayers
  refine ⟨⟨initial :: layers⟩, a, b, ?_, ?_, ?_, ?_⟩
  · rw [new, hsuccessors]
    rfl
  · rw [List.length_cons, hcount]
  · rw [outputs, List.getLast?_cons, hlast]
    rfl
  · rw [hab, hhalves, ← Nat.two_mul, ← Fraction.sum_range_halves]
    simp only [denominatorAt_eq]
    rfl

/-- Without columns there is no circuit. -/
theorem new_noColumns :
    new (.initialLookup (0 : ℚ) 1 []) = .error (.panic "index out of bounds") := by
  have hpanic : (LogUpLayer.initialLookup (0 : ℚ) 1 []).nextLayer =
      .error (.panic "index out of bounds") := rfl
  rw [new, successors]
  split
  · next hfault =>
    obtain rfl := Except.error.inj (hpanic.symm.trans hfault)
    rfl
  · next hnone => exact nomatch hnone
  · next hsome => exact nomatch hsome

end LogUpCircuit

end Sums

/-- The outputs of a circuit are the sum of the fractions of its rows. -/
theorem LogUpCircuit.new_fractionalSum [Field F] {n : Nat} (hn : 1 ≤ n) {c s : F}
    {columns : List (List F)} (hne : columns ≠ []) (hcolumns : ∀ col ∈ columns, col.length = 2 ^ (n + 1))
    {N : Nat → F} {initial : LogUpLayer F}
    (h : LogUpLayer.IsInitial c s columns (2 ^ (n + 1)) N initial) :
    ∃ (circuit : LogUpCircuit F) (n0 n1 d0 d1 : F), new initial = .ok circuit ∧
      circuit.layers.length = n + 1 ∧ circuit.outputs = .ok [n0, n1, d0, d1] ∧
      d0 * d1 = ∏ i ∈ Finset.range (2 ^ (n + 1)), rowDenominator c s columns i ∧
      n0 * d1 + n1 * d0 = ∑ i ∈ Finset.range (2 ^ (n + 1)),
        N i * ∏ j ∈ (Finset.range (2 ^ (n + 1))).erase i, rowDenominator c s columns j ∧
      ((∀ i < 2 ^ (n + 1), rowDenominator c s columns i ≠ 0) →
        ∃ num den, LogUpBatchProof.fractionalOutput [n0, n1, d0, d1] = .ok (num, den) ∧ den ≠ 0 ∧
          num / den = ∑ i ∈ Finset.range (2 ^ (n + 1)), N i / rowDenominator c s columns i) := by
  obtain ⟨vars, rfl⟩ := Nat.exists_eq_add_of_le' hn
  obtain ⟨circuit, a, b, hnew, hlayers, houtputs, hsum⟩ := new_eq_ok h hne hcolumns
  have hden : a.denominator * b.denominator =
      ∏ i ∈ Finset.range (2 ^ (vars + 2)), rowDenominator c s columns i := by
    rw [← Fraction.add_denominator, hsum, Fraction.denominator_sum]
  have hnum : a.numerator * b.denominator + b.numerator * a.denominator =
      (∑ i ∈ Finset.range (2 ^ (vars + 2)),
        Fraction.mk (N i) (rowDenominator c s columns i)).numerator := by
    rw [← hsum, Fraction.add_numerator, mul_comm b.numerator]
  refine ⟨circuit, a.numerator, b.numerator, a.denominator, b.denominator, hnew, hlayers, houtputs,
    hden, ?_, fun hne => ?_⟩
  · rw [hnum, Fraction.numerator_sum]
  · have hall : ∀ i ∈ Finset.range (2 ^ (vars + 2)), rowDenominator c s columns i ≠ 0 :=
      fun i hi => hne i (Finset.mem_range.mp hi)
    refine ⟨_, _, rfl, ?_, ?_⟩
    · rw [hden]
      exact Finset.prod_ne_zero_iff.mpr hall
    · rw [hnum, ← Fraction.add_denominator, hsum]
      exact Fraction.sum_div _ _ hall

theorem LogUpCircuit.new_fractionalSum_rational :
    ∃ (circuit : LogUpCircuit ℚ) (n0 n1 d0 d1 : ℚ), new (.initialLookup 0 1 [[1, 2, 3, 4]]) = .ok circuit ∧
      circuit.layers.length = 2 ∧ circuit.outputs = .ok [n0, n1, d0, d1] := by
  have hcolumns : ∀ col ∈ [[(1 : ℚ), 2, 3, 4]], col.length = 2 ^ (1 + 1) := by simp
  have hinitial : LogUpLayer.IsInitial (0 : ℚ) 1 [[1, 2, 3, 4]] (2 ^ 2) (fun _ => -1)
      (.initialLookup 0 1 [[1, 2, 3, 4]]) := .lookup
  obtain ⟨circuit, n0, n1, d0, d1, hnew, hlayers, houtputs, -⟩ :=
    new_fractionalSum (le_refl 1) (List.cons_ne_nil _ _) hcolumns hinitial
  exact ⟨circuit, n0, n1, d0, d1, hnew, hlayers, houtputs⟩

end DeepProve
