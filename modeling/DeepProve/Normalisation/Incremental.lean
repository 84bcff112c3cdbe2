import DeepProve.Normalisation.Evaluate

/-!
# Normalising a sequence in segments

The rows of a sequence may be evaluated all at once, or in segments one after the other. A row is
shifted by fewer bits in a segment than with all rows.

The products with the mantissas do not depend on the number of bits. The mean of LayerNorm is rounded
after it is shifted, though: a value that is half way between two integers goes up if the mean is
rounded down, and down if with more bits the mean is rounded to a larger one.
-/

namespace DeepProve

open RunningMax (largest)

/-- Segments that are evaluated one after the other. -/
def evaluateSegments (evaluate : NormalisationCache → List (List Int) →
    Outcome (NormalisationCache × List (List Int))) (cache : NormalisationCache) :
    List (List (List Int)) → Outcome (List (List Int))
  | [] => .ok []
  | segment :: segments => do
    let (cache, outputs) ← evaluate cache segment
    let rest ← evaluateSegments evaluate cache segments
    .ok (outputs ++ rest)

/-- The outputs of the segments are those of all rows, from a reset cache. -/
def Agrees (evaluate : NormalisationCache → List (List Int) →
    Outcome (NormalisationCache × List (List Int))) (segments : List (List (List Int))) : Prop :=
  evaluateSegments evaluate .new segments = (evaluate .new segments.flatten).map Prod.snd

section Runs

variable {part : List Int → Outcome (Int × Nat)} {finish : Nat → Int × Nat → List Int → List Int}
  {segments : List (List (List Int))}

theorem evaluateSegments_follows (hpos : ∀ row rowPart, part row = .ok rowPart → 0 < rowPart.2)
    (hsegments : ∀ segment ∈ segments, segment ≠ []) (cache : NormalisationCache) :
    evaluateSegments (normalise part finish) cache segments =
      RunningMax.evaluateSegments (rowShift part) (finishRow part finish) cache.maxShift segments := by
  induction segments generalizing cache with
  | nil => rfl
  | cons segment segments ih =>
    obtain ⟨hsegment, hrest⟩ := List.forall_mem_cons.mp hsegments
    have hcall := @normalise_follows part finish hpos segment hsegment cache
    rw [evaluateSegments, RunningMax.evaluateSegments, ← hcall]
    rcases normalise part finish cache segment with e | ⟨cache', outputs⟩
    · rfl
    · rw [Outcome.ok_bind]
      dsimp only
      rw [ih hrest cache']
      rfl

/-- When the segments give the rows of one call. -/
theorem agrees_iff (hpos : ∀ row rowPart, part row = .ok rowPart → 0 < rowPart.2)
    (hsegments : ∀ segment ∈ segments, segment ≠ []) (hne : segments ≠ []) :
    Agrees (normalise part finish) segments ↔
      (∃ row ∈ segments.flatten, ∀ n, rowShift part row ≠ .ok n) ∨
        ∀ before segment after, segments = before ++ segment :: after → ∀ row ∈ segment,
          finishRow part finish (largest (rowShift part) (before.flatten ++ segment)) row =
            finishRow part finish (largest (rowShift part) segments.flatten) row := by
  have hflatten : segments.flatten ≠ [] := by
    obtain ⟨segment, rest, rfl⟩ := List.exists_cons_of_ne_nil hne
    rw [List.flatten_cons]
    exact List.append_ne_nil_of_left_ne_nil (hsegments segment List.mem_cons_self) _
  have hcall := @normalise_follows part finish hpos segments.flatten hflatten .new
  have houtputs : (normalise part finish .new segments.flatten).map Prod.snd =
      (RunningMax.evaluate (rowShift part) (finishRow part finish) 0 segments.flatten).map Prod.snd := by
    rw [show (0 : Nat) = NormalisationCache.new.maxShift from rfl, ← hcall]
    rcases normalise part finish .new segments.flatten with e | r
    · rfl
    · rfl
  rw [Agrees, evaluateSegments_follows hpos hsegments, houtputs]
  exact RunningMax.evaluateSegments_eq_iff

end Runs

/-! ## The value of an entry -/

section Value

/-- A quotient by a power of two does not change with the number of bits, unless a multiple of the
    divisor gets smaller. -/
theorem scaled_sub_ediv {a e : Int} {k n : Nat} (he : |e| < 2 ^ k) :
    (2 ^ k * a - e) / 2 ^ (k + n) = if 2 ^ n ∣ a ∧ 0 < e then a / 2 ^ n - 1 else a / 2 ^ n := by
  have hk : (0 : Int) < 2 ^ k := by positivity
  have hn : (0 : Int) < 2 ^ n := by positivity
  have hpow : (2 : Int) ^ (k + n) = 2 ^ k * 2 ^ n := pow_add 2 k n
  have hdiv := Int.emod_add_mul_ediv a (2 ^ n)
  have hmod := Int.emod_nonneg a hn.ne'
  have hlt := Int.emod_lt_of_pos a hn
  obtain ⟨helow, hehigh⟩ := abs_lt.mp he
  have hle : (2 : Int) ^ k ≤ 2 ^ k * 2 ^ n := le_mul_of_one_le_right hk.le (by omega)
  have hvalue : 2 ^ k * a - e =
      2 ^ k * (a % 2 ^ n) - e + 2 ^ (k + n) * (a / 2 ^ n) := by
    rw [hpow]
    conv_lhs => rw [← hdiv]
    ring
  split
  case isTrue h =>
    have hzero : a % 2 ^ n = 0 := Int.emod_eq_zero_of_dvd h.1
    have hunique := (Int.ediv_emod_unique (a := 2 ^ k * a - e) (q := a / 2 ^ n - 1)
      (r := 2 ^ (k + n) - e) (by positivity : (0 : Int) < 2 ^ (k + n))).mpr
      ⟨by rw [hvalue, hzero]; ring, by rw [hpow]; omega, by omega⟩
    exact hunique.1
  case isFalse h =>
    have hlow : 0 ≤ 2 ^ k * (a % 2 ^ n) - e := by
      rcases hmod.eq_or_lt with hzero | hpos
      · have hnonpos : ¬ 0 < e := fun hpos => h ⟨Int.dvd_of_emod_eq_zero hzero.symm, hpos⟩
        rw [← hzero, mul_zero]
        omega
      · have hone : (2 : Int) ^ k * 1 ≤ 2 ^ k * (a % 2 ^ n) := mul_le_mul_of_nonneg_left hpos hk.le
        omega
    have hhigh : 2 ^ k * (a % 2 ^ n) - e < 2 ^ (k + n) := by
      have hmost : (2 : Int) ^ k * (a % 2 ^ n) ≤ 2 ^ k * (2 ^ n - 1) :=
        mul_le_mul_of_nonneg_left (by omega) hk.le
      rw [mul_sub, mul_one] at hmost
      rw [hpow]
      omega
    exact ((Int.ediv_emod_unique (a := 2 ^ k * a - e) (q := a / 2 ^ n)
      (r := 2 ^ k * (a % 2 ^ n) - e) (by positivity : (0 : Int) < 2 ^ (k + n))).mpr
      ⟨hvalue.symm, hlow, hhigh⟩).1

/-- The value of an entry before it is shifted. -/
def unshifted (m : Int) (d : Nat) (mean : Nat → Int) (x : Int) (maxShift : Nat) : Int :=
  x * (m <<< (maxShift - d)) - mean maxShift + 2 ^ (maxShift - 1)

/-- A mean that is rounded after it is shifted. -/
def RoundedMean (mean : Nat → Int) : Prop :=
  ∀ n k, 0 < k → |mean (k + n) - 2 ^ k * mean n| < 2 ^ k

/-- The value is half way between two integers, and the mean is larger with more bits. -/
structure LostTie (m : Int) (d : Nat) (mean : Nat → Int) (x : Int) (less more : Nat) : Prop where
  tie : 2 ^ less ∣ unshifted m d mean x less
  larger : 2 ^ (more - less) * mean less < mean more

/-- More bits make the value smaller by one exactly at a lost tie. -/
theorem unshifted_shiftRight {m : Int} {d : Nat} {mean : Nat → Int} (hmean : RoundedMean mean)
    (x : Int) {less more : Nat} (hpos : 0 < less) (hd : d ≤ less) (hle : less ≤ more) :
    (¬ LostTie m d mean x less more →
      unshifted m d mean x more >>> more = unshifted m d mean x less >>> less) ∧
    (LostTie m d mean x less more →
      unshifted m d mean x more >>> more = unshifted m d mean x less >>> less - 1) := by
  obtain ⟨k, rfl⟩ := Nat.exists_eq_add_of_le' hle
  have hsub : k + less - less = k := Nat.add_sub_cancel k less
  rw [Int.shiftRight_eq_div_pow, Int.shiftRight_eq_div_pow]
  rcases Nat.eq_zero_or_pos k with rfl | hk
  · have hnot : ¬ LostTie m d mean x less (0 + less) := by
      intro h
      have hlarger := h.larger
      rw [Nat.zero_add, Nat.sub_self, pow_zero, one_mul] at hlarger
      exact lt_irrefl _ hlarger
    rw [Nat.zero_add] at hnot ⊢
    exact ⟨fun _ => rfl, fun h => absurd h hnot⟩
  · -- the mantissa and the half are scaled, the mean is rounded once more
    have hvalue : unshifted m d mean x (k + less) =
        2 ^ k * unshifted m d mean x less - (mean (k + less) - 2 ^ k * mean less) := by
      have hshift : k + less - d = k + (less - d) := by omega
      have hhalf : k + less - 1 = k + (less - 1) := by omega
      rw [unshifted, unshifted, hshift, hhalf, Int.shiftLeft_eq, Int.shiftLeft_eq, pow_add, pow_add]
      ring
    have hiff : LostTie m d mean x less (k + less) ↔
        2 ^ less ∣ unshifted m d mean x less ∧ 0 < mean (k + less) - 2 ^ k * mean less := by
      constructor
      · intro h
        have hlarger := h.larger
        rw [hsub] at hlarger
        exact ⟨h.tie, by omega⟩
      · rintro ⟨htie, hlarger⟩
        exact ⟨htie, by rw [hsub]; omega⟩
    have hdiv := scaled_sub_ediv (a := unshifted m d mean x less) (n := less) (hmean less k hk)
    rw [hiff, hvalue]
    push_cast
    rw [hdiv]
    constructor
    · intro h
      rw [if_neg h]
    · intro h
      rw [if_pos h]

end Value

/-! ## RMSNorm -/

variable {part : List Int → Outcome (Int × Nat)}

/-- A row that is in a segment is shifted by at most the bits of the segment. -/
theorem shift_le_largest {row : List Int} {rowPart : Int × Nat} (hrow : part row = .ok rowPart)
    {rows : List (List Int)} (hmem : row ∈ rows) :
    rowPart.2 ≤ largest (rowShift part) rows := by
  have hle : RunningMax.size (rowShift part) row ≤ largest (rowShift part) rows :=
    RunningMax.le_largest hmem
  have hsize : RunningMax.size (rowShift part) row = rowPart.2 := by
    rw [RunningMax.size, rowShift, hrow]
    rfl
  rwa [hsize] at hle

theorem largest_le_flatten {segments before : List (List (List Int))} {segment : List (List Int)}
    {after : List (List (List Int))} (hsplit : segments = before ++ segment :: after) :
    largest (rowShift part) (before.flatten ++ segment) ≤ largest (rowShift part) segments.flatten := by
  rw [hsplit, List.flatten_append, List.flatten_cons, ← List.append_assoc,
    RunningMax.largest_append (before.flatten ++ segment)]
  exact Nat.le_max_left _ _

theorem roundedMean_zero : RoundedMean fun _ => 0 := by
  intro n k _
  rw [mul_zero, sub_zero, abs_zero]
  positivity

/-- The products of a row do not depend on the number of bits. -/
theorem RMSNorm.finish_eq (self : RMSNorm) {rowPart : Int × Nat} (hpos : 0 < rowPart.2)
    (row : List Int) {less more : Nat} (hd : rowPart.2 ≤ less) (hle : less ≤ more) :
    self.finish less rowPart row = self.finish more rowPart row := by
  have hentry : ∀ x, unshifted rowPart.1 rowPart.2 (fun _ => 0) x more >>> more =
      unshifted rowPart.1 rowPart.2 (fun _ => 0) x less >>> less := by
    intro x
    refine (unshifted_shiftRight roundedMean_zero x (hpos.trans_le hd) hd hle).1 ?_
    intro htie
    have hlarger := htie.larger
    rw [mul_zero] at hlarger
    exact lt_irrefl _ hlarger
  rw [finish, finish, apply, apply]
  congr 1
  apply List.map_congr_left
  intro x _
  have hx := hentry x
  rw [unshifted, unshifted, sub_zero, sub_zero] at hx
  rw [hx]

/-- RMSNorm gives the same rows in segments. -/
theorem RMSNorm.agrees (self : RMSNorm) {segments : List (List (List Int))}
    (hsegments : ∀ segment ∈ segments, segment ≠ []) (hne : segments ≠ []) :
    Agrees self.evaluateQuantisedInternal segments := by
  have hcall : self.evaluateQuantisedInternal = normalise self.part self.finish := by
    funext cache input
    exact self.evaluateQuantisedInternal_eq cache input
  rw [hcall, agrees_iff (fun _ _ h => self.part_pos h) hsegments hne]
  apply Or.inr
  intro before segment after hsplit row hrow
  rw [finishRow, finishRow]
  rcases hpart : self.part row with e | rowPart
  · rfl
  · exact self.finish_eq (self.part_pos hpart) row
      (shift_le_largest hpart (List.mem_append_right _ hrow)) (largest_le_flatten hsplit)

/-! ## LayerNorm -/

namespace LayerNorm

variable (round : ℚ → Int) (self : LayerNorm)

/-- The mean that is taken off a row, by the number of bits. -/
def mean (row : List Int) (maxShift : Nat) : Int := round (self.rescaledMean row * 2 ^ maxShift)

/-- The smallest and the largest value of the table. -/
def tableMin : Int := (Table.newNormalisation (self.intermediateBitSize + 1)).minInputValue

def tableMax : Int := (Table.newNormalisation (self.intermediateBitSize + 1)).maxInputValue

/-- An entry that is rounded to another value with more bits: the table and the weight let the
    difference pass. -/
structure Loses (row : List Int) (less more j : Nat) : Prop where
  entry : ∃ rowPart x g b, self.part row = .ok rowPart ∧ row[j]? = some x ∧ self.gamma[j]? = some g ∧
    self.beta[j]? = some b ∧ LostTie rowPart.1 rowPart.2 (self.mean round row) x less more ∧ g ≠ 0 ∧
    self.tableMin < unshifted rowPart.1 rowPart.2 (self.mean round row) x less >>> less ∧
    unshifted rowPart.1 rowPart.2 (self.mean round row) x less >>> less ≤ self.tableMax

/-- No entry is rounded to another value: a row is refused, or with the bits of its segment no entry is
    lost against the bits of all rows. -/
def KeepsTies (segments : List (List (List Int))) : Prop :=
  (∃ row ∈ segments.flatten, ∀ rowPart, self.part row ≠ .ok rowPart) ∨
    ∀ before segment after, segments = before ++ segment :: after → ∀ row ∈ segment, ∀ j,
      ¬ self.Loses round row (largest (rowShift self.part) (before.flatten ++ segment))
        (largest (rowShift self.part) segments.flatten) j

variable {round self}

theorem tableMin_le_tableMax : self.tableMin ≤ self.tableMax := by
  have hmin : self.tableMin = -2 ^ self.intermediateBitSize := rfl
  have hmax : self.tableMax = 2 ^ self.intermediateBitSize - 1 := rfl
  have hpos : (0 : Int) < 2 ^ self.intermediateBitSize := by positivity
  omega

/-- The table lets a difference of one pass between its ends. -/
theorem normalisationLookup_sub_one_iff (v : Int) :
    normalisationLookup self.intermediateBitSize v =
        normalisationLookup self.intermediateBitSize (v - 1) ↔
      ¬ (self.tableMin < v ∧ v ≤ self.tableMax) := by
  have hle := self.tableMin_le_tableMax
  show clamp v self.tableMin self.tableMax = clamp (v - 1) self.tableMin self.tableMax ↔ _
  unfold clamp
  split_ifs <;> omega

theorem weigh_eq_iff {f f' : Int → Int} (row : List Int) :
    self.weigh (row.map f) = self.weigh (row.map f') ↔
      ∀ (j : Nat) (x g b : Int), row[j]? = some x → self.gamma[j]? = some g → self.beta[j]? = some b →
        f x * g + b = f' x * g + b := by
  rw [weigh, weigh, List.ext_getElem?_iff]
  apply forall_congr'
  intro j
  rw [List.getElem?_zipWith, List.getElem?_zipWith, List.getElem?_zipWith, List.getElem?_zipWith,
    List.getElem?_map, List.getElem?_map]
  rcases row[j]? with _ | x <;> rcases self.gamma[j]? with _ | g <;>
    rcases self.beta[j]? with _ | b <;> simp

theorem mean_roundedMean (hround : ∀ q, |(round q : ℚ) - q| ≤ 1 / 2) (row : List Int) :
    RoundedMean (self.mean round row) := by
  intro n k hk
  have hmore := abs_le.mp (hround (self.rescaledMean row * 2 ^ (k + n)))
  have hless := abs_le.mp (hround (self.rescaledMean row * 2 ^ n))
  have hpow : (2 : ℚ) ≤ 2 ^ k := by
    calc (2 : ℚ) = 2 ^ 1 := (pow_one 2).symm
      _ ≤ 2 ^ k := pow_le_pow_right₀ (by norm_num) hk
  have hscaled : self.rescaledMean row * 2 ^ (k + n) = 2 ^ k * (self.rescaledMean row * 2 ^ n) := by
    rw [pow_add]
    ring
  rw [hscaled] at hmore
  -- one rounding is off by a half, and the other one by a half that is scaled
  have hlow : (2 : ℚ) ^ k * (-(1 / 2)) ≤ 2 ^ k * (round (self.rescaledMean row * 2 ^ n) -
      self.rescaledMean row * 2 ^ n) := mul_le_mul_of_nonneg_left hless.1 (by positivity)
  have hhigh : (2 : ℚ) ^ k * (round (self.rescaledMean row * 2 ^ n) -
      self.rescaledMean row * 2 ^ n) ≤ 2 ^ k * (1 / 2) :=
    mul_le_mul_of_nonneg_left hless.2 (by positivity)
  rw [mul_sub] at hlow hhigh
  rw [mean, mean, hscaled, abs_lt]
  constructor
  · have hgoal : (-2 ^ k : ℚ) < round (2 ^ k * (self.rescaledMean row * 2 ^ n)) -
        2 ^ k * round (self.rescaledMean row * 2 ^ n) := by linarith
    exact_mod_cast hgoal
  · have hgoal : (round (2 ^ k * (self.rescaledMean row * 2 ^ n)) : ℚ) -
        2 ^ k * round (self.rescaledMean row * 2 ^ n) < 2 ^ k := by linarith
    exact_mod_cast hgoal

/-- A row is the same with more bits exactly if no entry is lost. -/
theorem finish_eq_iff (hround : ∀ q, |(round q : ℚ) - q| ≤ 1 / 2) {row : List Int}
    {rowPart : Int × Nat} (hrow : self.part row = .ok rowPart) {less more : Nat}
    (hd : rowPart.2 ≤ less) (hle : less ≤ more) :
    self.finish round less rowPart row = self.finish round more rowPart row ↔
      ∀ j, ¬ self.Loses round row less more j := by
  have hpos : 0 < less := (shiftedFactor_pos hrow).trans_le hd
  have hmean := self.mean_roundedMean hround row
  rw [finish, finish, apply, apply, weigh_eq_iff]
  change (∀ (j : Nat) (x g b : Int), row[j]? = some x → self.gamma[j]? = some g →
    self.beta[j]? = some b →
      normalisationLookup self.intermediateBitSize
          (unshifted rowPart.1 rowPart.2 (self.mean round row) x less >>> less) * g + b =
        normalisationLookup self.intermediateBitSize
          (unshifted rowPart.1 rowPart.2 (self.mean round row) x more >>> more) * g + b) ↔ _
  apply forall_congr'
  intro j
  constructor
  · rintro hsame ⟨rowPart', x, g, b, hrow', hx, hg, hb, htie, hweight, hmin, hmax⟩
    obtain rfl : rowPart = rowPart' := Except.ok.inj (hrow.symm.trans hrow')
    have hvalue := hsame x g b hx hg hb
    rw [(unshifted_shiftRight hmean x hpos hd hle).2 htie] at hvalue
    have hlookup := mul_right_cancel₀ hweight (add_right_cancel hvalue)
    exact self.normalisationLookup_sub_one_iff _ |>.mp hlookup ⟨hmin, hmax⟩
  · intro hkept x g b hx hg hb
    by_cases htie : LostTie rowPart.1 rowPart.2 (self.mean round row) x less more
    · rw [(unshifted_shiftRight hmean x hpos hd hle).2 htie]
      by_cases hweight : g = 0
      · rw [hweight, mul_zero, mul_zero]
      · rw [(self.normalisationLookup_sub_one_iff _).mpr]
        rintro ⟨hmin, hmax⟩
        exact hkept ⟨rowPart, x, g, b, hrow, hx, hg, hb, htie, hweight, hmin, hmax⟩
    · rw [(unshifted_shiftRight hmean x hpos hd hle).1 htie]

/-- When LayerNorm gives the same rows in segments. -/
theorem agrees_iff_keepsTies (hround : ∀ q, |(round q : ℚ) - q| ≤ 1 / 2)
    {segments : List (List (List Int))} (hsegments : ∀ segment ∈ segments, segment ≠ [])
    (hne : segments ≠ []) :
    Agrees (self.evaluateQuantisedInternal round) segments ↔ self.KeepsTies round segments := by
  have hcall : self.evaluateQuantisedInternal round = normalise self.part (self.finish round) := by
    funext cache input
    exact self.evaluateQuantisedInternal_eq round cache input
  have hrefused : ∀ row, (∀ n, rowShift self.part row ≠ .ok n) ↔
      ∀ rowPart, self.part row ≠ .ok rowPart := by
    intro row
    rw [rowShift]
    rcases self.part row with e | rowPart
    · constructor
      · rintro _ _ ⟨⟩
      · rintro _ _ ⟨⟩
    · constructor
      · exact fun h => absurd rfl (h rowPart.2)
      · exact fun h => absurd rfl (h rowPart)
  have hpos : ∀ row rowPart, self.part row = .ok rowPart → 0 < rowPart.2 :=
    fun _ _ h => shiftedFactor_pos h
  rw [hcall, agrees_iff hpos hsegments hne, KeepsTies]
  simp only [hrefused]
  by_cases hsome : ∃ row ∈ segments.flatten, ∀ rowPart, self.part row ≠ .ok rowPart
  · exact iff_of_true (Or.inl hsome) (Or.inl hsome)
  rw [or_iff_right hsome, or_iff_right hsome]
  apply forall_congr'
  intro before
  apply forall_congr'
  intro segment
  apply forall_congr'
  intro after
  apply forall_congr'
  intro hsplit
  apply forall_congr'
  intro row
  apply forall_congr'
  intro hrow
  obtain ⟨rowPart, hpart⟩ : ∃ rowPart, self.part row = .ok rowPart := by
    by_contra hnone
    push Not at hnone
    apply hsome
    refine ⟨row, ?_, hnone⟩
    rw [hsplit, List.flatten_append, List.flatten_cons]
    exact List.mem_append_right _ (List.mem_append_left _ hrow)
  rw [finishRow, finishRow, hpart]
  exact finish_eq_iff hround hpart (shift_le_largest hpart (List.mem_append_right _ hrow))
    (largest_le_flatten hsplit)

end LayerNorm

/-- A layer for rows of two entries: the factor of the first row is just above a half. -/
def halfwayRow : LayerNorm where
  normWithScale row := if row = [0, 2] then ⟨1 / 2 + 1 / 2 ^ 18, by norm_num⟩
    else ⟨1 / 8, by norm_num⟩
  rescaledMean row := if row = [0, 2] then 1 / 2 + 1 / 2 ^ 18 else 1 / 2
  intermediateBitSize := 8
  gamma := [1, 1]
  beta := [0, 0]

/-- A layer with the same factors. -/
def halfwaySquares : RMSNorm where
  nws row := halfwayRow.normWithScale row
  normalisationBitSize := 8
  alpha := none

end DeepProve
