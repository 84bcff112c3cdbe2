import DeepProve.ForStd.Interpolate
import DeepProve.PlainCrypto

/-!
# The claim about a positional matrix

`layers/transformer/positional/mod.rs`: only the first rows of the positional matrix are added to
an input that is shorter than the context. The claim about these rows is extended to one about
the committed matrix: the prover sends the value of one block of rows after the other, each as large
as all rows before it, and the verifier interpolates.

The coordinates of the extension are drawn from the transcript, into which the values that the
prover sends do not go.
-/

namespace DeepProve

open Multilinear

variable {F : Type} [Field F] (D : DpCrypto F)
  (readChallenges : D.Transcript → Nat → List F × D.Transcript)

/-- `Positional::sample_random_coordinates`. -/
def sampleRandomCoordinates (numCoordinates : Nat) (t : D.Transcript)
    (outputClaim subMatrixClaim : Claim F) : List F × D.Transcript :=
  let t := D.appendScalars t outputClaim.point
  let t := D.appendScalars t [outputClaim.eval]
  let t := D.appendScalars t subMatrixClaim.point
  let t := D.appendScalars t [subMatrixClaim.eval]
  readChallenges t numCoordinates

/-- `Positional::compute_positional_matrix_claim`. -/
def computePositionalMatrixClaim (evaluationPoint : List F) (subPosEval : F)
    (subMatrixEvals : List F) : Outcome (Claim F) := do
  let diffVars := subMatrixEvals.length
  let startExtraCoordinates ← usizeSub evaluationPoint.length diffVars
  let evalPoint := evaluationPoint.drop startExtraCoordinates
  let positionalMatrixEval := (subMatrixEvals.zip evalPoint).foldl
    (fun eval (subEval, coordinate) => eval * (1 - coordinate) + subEval * coordinate) subPosEval
  .ok ⟨evaluationPoint, positionalMatrixEval⟩

/-- `PositionalCtx::build_positional_matrix_claim`. -/
def buildPositionalMatrixClaim (subClaim outputClaim : Claim F) (numVarsFullMatrix : Nat)
    (transcript : D.Transcript) (subMatrixEvals : List F) :
    Outcome (Claim F × D.Transcript) := do
  let subPosVars := subClaim.point.length
  let diffVars ← usizeSub numVarsFullMatrix subPosVars
  ensure (decide (diffVars ≥ 0)) "Condition failed: `diff_vars >= 0`"
  let (extraCoordinates, transcript) :=
    sampleRandomCoordinates D readChallenges diffVars transcript outputClaim subClaim
  let subPosEval := subClaim.eval
  let evaluationPoint := subClaim.point ++ extraCoordinates
  let positionalMatrixClaim ←
    computePositionalMatrixClaim evaluationPoint subPosEval subMatrixEvals
  .ok (positionalMatrixClaim, transcript)

/-! ## The claim that is built -/

variable {D readChallenges}

theorem computePositionalMatrixClaim_eq {point : List F} {eval : F} {evals : List F} :
    computePositionalMatrixClaim point eval evals =
      if evals.length ≤ point.length then
        .ok ⟨point, interpolate eval (evals.zip (point.drop (point.length - evals.length)))⟩
      else
        .error (.panic "attempt to subtract with overflow") := by
  unfold computePositionalMatrixClaim usizeSub
  dsimp only
  split
  · rfl
  · rfl

/-- The challenges are `d` coordinates. -/
def Draws (readChallenges : D.Transcript → Nat → List F × D.Transcript) (z : List F) : Prop :=
  ∀ t, (readChallenges t z.length).1 = z

variable {sub output : Claim F} {t : D.Transcript} {z evals : List F}

/-- Values of any number are accepted, as long as there are coordinates for them. -/
theorem buildPositionalMatrixClaim_eq (hdraws : Draws readChallenges z) (sub output : Claim F)
    (t : D.Transcript) (evals : List F) :
    ∃ t', buildPositionalMatrixClaim D readChallenges sub output (sub.point.length + z.length) t
        evals =
      if evals.length ≤ (sub.point ++ z).length then
        .ok (⟨sub.point ++ z, interpolate sub.eval
          (evals.zip ((sub.point ++ z).drop ((sub.point ++ z).length - evals.length)))⟩, t')
      else
        .error (.panic "attempt to subtract with overflow") := by
  have hdiff : usizeSub (sub.point.length + z.length) sub.point.length = .ok z.length :=
    usizeSub_eq_ok.mpr ⟨Nat.le_add_right _ _, by omega⟩
  refine ⟨(sampleRandomCoordinates D readChallenges z.length t output sub).2, ?_⟩
  have hcoordinates : (sampleRandomCoordinates D readChallenges z.length t output sub).1 = z :=
    hdraws _
  unfold buildPositionalMatrixClaim
  simp only [hdiff, Outcome.ok_bind, ge_iff_le, Nat.zero_le, decide_true, ensure_true, hcoordinates,
    computePositionalMatrixClaim_eq]
  split
  · rfl
  · rfl

/-- The claim that is returned is one about the polynomial with the given table, and it is true. -/
def ReturnsTrue (table : Nat → F) (result : Outcome (Claim F × D.Transcript)) : Prop :=
  ∃ claim t', result = .ok (claim, t') ∧ claim.eval = Multilinear.eval table claim.point

variable {table : Nat → F}

theorem returnsTrue_iff (hdraws : Draws readChallenges z) :
    ReturnsTrue table (buildPositionalMatrixClaim D readChallenges sub output
        (sub.point.length + z.length) t evals) ↔
      evals.length ≤ (sub.point ++ z).length ∧
        interpolate sub.eval
            (evals.zip ((sub.point ++ z).drop ((sub.point ++ z).length - evals.length))) =
          Multilinear.eval table (sub.point ++ z) := by
  obtain ⟨t', hbuild⟩ := buildPositionalMatrixClaim_eq hdraws sub output t evals
  rw [hbuild]
  constructor
  · intro ⟨claim, t'', hclaim, htrue⟩
    split at hclaim
    · next hle =>
      obtain ⟨rfl, _⟩ := Prod.mk.inj (Except.ok.inj hclaim)
      exact ⟨hle, htrue⟩
    · cases hclaim
  · intro ⟨hle, htrue⟩
    rw [if_pos hle]
    exact ⟨_, t', rfl, htrue⟩

/-- One value for each coordinate. -/
theorem returnsTrue_iff_of_length (hdraws : Draws readChallenges z)
    (hlength : evals.length = z.length) :
    ReturnsTrue table (buildPositionalMatrixClaim D readChallenges sub output
        (sub.point.length + z.length) t evals) ↔
      interpolate sub.eval (evals.zip z) = Multilinear.eval table (sub.point ++ z) := by
  rw [returnsTrue_iff hdraws, hlength, List.length_append, Nat.add_sub_cancel,
    List.drop_left, and_iff_right (Nat.le_add_left _ _)]

/-! ## Wrong claims that become true -/

/-- At coordinates that are zero a polynomial has the value of its first block. -/
theorem eval_append_of_zero (table : Nat → F) (x : List F) (h : ∀ c ∈ z, c = 0) :
    Multilinear.eval table (x ++ z) = Multilinear.eval table x := by
  induction z using List.reverseRecOn with
  | nil => rw [List.append_nil]
  | append_singleton z c ih =>
    have hc := h c (List.mem_append_right _ (List.mem_singleton_self c))
    rw [← List.append_assoc, eval_concat, ih fun b hb => h b (List.mem_append_left _ hb), hc,
      sub_zero, mul_one, mul_zero, add_zero]

/-- A wrong claim can be made a true one unless all coordinates are zero. -/
theorem exists_true_claim_iff (hdraws : Draws readChallenges z)
    (hwrong : sub.eval ≠ Multilinear.eval table sub.point) :
    (∃ evals, ReturnsTrue table (buildPositionalMatrixClaim D readChallenges sub output
        (sub.point.length + z.length) t evals)) ↔ ∃ c ∈ sub.point ++ z, c ≠ 0 := by
  simp only [returnsTrue_iff hdraws]
  constructor
  · intro ⟨evals, _, htrue⟩
    by_contra hnone
    have hzero : ∀ c ∈ sub.point ++ z, c = 0 := by
      intro c hc
      by_contra hne
      exact hnone ⟨c, hc, hne⟩
    rw [eval_append_of_zero table sub.point fun c hc => hzero c (List.mem_append_right _ hc)] at htrue
    apply hwrong
    rw [← htrue]
    refine (interpolate_of_zero (fun step hstep => ?_) _).symm
    exact hzero _ (List.mem_of_mem_drop (List.of_mem_zip hstep).2)
  · intro hcoordinate
    obtain ⟨evals, hlength, hvalue⟩ :=
      exists_interpolate_eq sub.eval (Multilinear.eval table (sub.point ++ z)) hcoordinate
    refine ⟨evals, hlength.le, ?_⟩
    rw [hlength, Nat.sub_self, List.drop_zero, hvalue]

/-! ## Values that are fixed before their coordinate -/

/-- The values of a prover who knows the coordinates before, but not the one of the value. -/
def onlineEvals (prover : List F → F) (z : List F) : List F :=
  (List.range z.length).map fun i => prover (z.take i)

omit [Field F] in
theorem length_onlineEvals (prover : List F → F) (z : List F) :
    (onlineEvals prover z).length = z.length := by
  rw [onlineEvals, List.length_map, List.length_range]

omit [Field F] in
theorem onlineEvals_concat (prover : List F → F) (z : List F) (c : F) :
    onlineEvals prover (z ++ [c]) = onlineEvals prover z ++ [prover z] := by
  unfold onlineEvals
  rw [List.length_append, List.length_singleton, List.range_succ, List.map_append]
  congr 1
  · apply List.map_congr_left
    intro i hi
    rw [List.take_append_of_le_length (List.mem_range.mp hi).le]
  · rw [List.map_singleton, List.take_left]

/-- How far the claim is from a true one changes by interpolation. -/
theorem interpolate_sub_eval_concat (table : Nat → F) (sub : Claim F) (prover : List F → F)
    (z : List F) (c : F) :
    interpolate sub.eval ((onlineEvals prover (z ++ [c])).zip (z ++ [c])) -
        Multilinear.eval table (sub.point ++ (z ++ [c])) =
      (interpolate sub.eval ((onlineEvals prover z).zip z) -
          Multilinear.eval table (sub.point ++ z)) * (1 - c) +
        (prover z - upperBlock table (sub.point ++ z)) * c := by
  rw [onlineEvals_concat, List.zip_append (length_onlineEvals prover z), List.zip_cons_cons,
    List.zip_nil_left, interpolate_concat, ← List.append_assoc, eval_concat]
  ring

/-! ## How many coordinates make a wrong claim true -/

section Count

variable [Fintype F] {d : Nat}

open Classical in
/-- The coordinates for which the values of a prover lead to a true claim. -/
noncomputable def trueClaims (D : DpCrypto F)
    (readChallenges : (Fin d → F) → D.Transcript → Nat → List F × D.Transcript)
    (table : Nat → F) (sub output : Claim F) (t : D.Transcript)
    (evals : (Fin d → F) → List F) : Finset (Fin d → F) :=
  Finset.univ.filter fun z => ReturnsTrue table
    (buildPositionalMatrixClaim D (readChallenges z) sub output (sub.point.length + d) t (evals z))

variable {readChallenges : (Fin d → F) → D.Transcript → Nat → List F × D.Transcript}
  {table : Nat → F}

theorem mem_trueClaims {evals : (Fin d → F) → List F} {z : Fin d → F} :
    z ∈ trueClaims D readChallenges table sub output t evals ↔
      ReturnsTrue table (buildPositionalMatrixClaim D (readChallenges z) sub output
        (sub.point.length + (List.ofFn z).length) t (evals z)) := by
  classical
  rw [trueClaims, Finset.mem_filter, and_iff_right (Finset.mem_univ z), List.length_ofFn]

/-- If each value is fixed before its coordinate, few coordinates make a wrong claim true. -/
theorem card_trueClaims_online_le (hdraws : ∀ z, Draws (readChallenges z) (List.ofFn z))
    (hwrong : sub.eval ≠ Multilinear.eval table sub.point) (prover : List F → F) :
    (trueClaims D readChallenges table sub output t
        fun z => onlineEvals prover (List.ofFn z)).card * Fintype.card F ≤
      d * Fintype.card F ^ d := by
  classical
  let distance := fun z => interpolate sub.eval ((onlineEvals prover z).zip z) -
    Multilinear.eval table (sub.point ++ z)
  have hstart : distance [] ≠ 0 := by
    show sub.eval - Multilinear.eval table (sub.point ++ []) ≠ 0
    rw [List.append_nil]
    exact sub_ne_zero.mpr hwrong
  have hcount := card_online_zero_le hstart (interpolate_sub_eval_concat table sub prover) d
  have hset : (trueClaims D readChallenges table sub output t
      fun z => onlineEvals prover (List.ofFn z)) =
        Finset.univ.filter fun z => distance (List.ofFn z) = 0 := by
    ext z
    rw [mem_trueClaims, returnsTrue_iff_of_length (hdraws z) (length_onlineEvals _ _),
      Finset.mem_filter, and_iff_right (Finset.mem_univ z)]
    exact sub_eq_zero.symm
  rw [hset]
  exact hcount

/-- The coordinates for which a prover who knows them all can make a wrong claim true. -/
theorem exists_trueClaims_eq (output : Claim F) (t : D.Transcript)
    (hdraws : ∀ z, Draws (readChallenges z) (List.ofFn z))
    (hwrong : sub.eval ≠ Multilinear.eval table sub.point) :
    ∃ best : (Fin d → F) → List F,
      (∀ z, z ∈ trueClaims D readChallenges table sub output t best ↔
        (∃ c ∈ sub.point, c ≠ 0) ∨ z ≠ 0) ∧
      ∀ evals, trueClaims D readChallenges table sub output t evals ⊆
        trueClaims D readChallenges table sub output t best := by
  have hcoordinates : ∀ z : Fin d → F,
      (∃ c ∈ sub.point ++ List.ofFn z, c ≠ 0) ↔ (∃ c ∈ sub.point, c ≠ 0) ∨ z ≠ 0 := by
    intro z
    simp only [List.mem_append, List.mem_ofFn, or_and_right, exists_or, ne_eq, funext_iff,
      Pi.zero_apply, not_forall]
    simp
  have hexists : ∀ z : Fin d → F, ∃ evals : List F,
      (∃ c ∈ sub.point, c ≠ 0) ∨ z ≠ 0 → ReturnsTrue table
        (buildPositionalMatrixClaim D (readChallenges z) sub output
          (sub.point.length + (List.ofFn z).length) t evals) := by
    intro z
    by_cases hz : (∃ c ∈ sub.point, c ≠ 0) ∨ z ≠ 0
    · obtain ⟨evals, htrue⟩ := (exists_true_claim_iff (hdraws z) hwrong).mpr ((hcoordinates z).mpr hz)
      exact ⟨evals, fun _ => htrue⟩
    · exact ⟨[], fun h => absurd h hz⟩
  choose best hbest using hexists
  have hmem : ∀ evals (z : Fin d → F), z ∈ trueClaims D readChallenges table sub output t evals →
      (∃ c ∈ sub.point, c ≠ 0) ∨ z ≠ 0 := by
    intro evals z hz
    exact (hcoordinates z).mp ((exists_true_claim_iff (hdraws z) hwrong).mp
      ⟨_, mem_trueClaims.mp hz⟩)
  refine ⟨best, fun z => ⟨hmem best z, fun hz => mem_trueClaims.mpr (hbest z hz)⟩, ?_⟩
  intro evals z hz
  exact mem_trueClaims.mpr (hbest z (hmem evals z hz))

/-- The field is so small that a wrong claim becomes true for a fraction `d / |F|` of the
    coordinates at most, whatever the values. -/
def SmallField (F : Type) [Zero F] [Fintype F] (d : Nat) (point : List F) : Prop :=
  (∃ c ∈ point, c ≠ 0) ∧ Fintype.card F ≤ d ∨
    (∀ c ∈ point, c = 0) ∧ (Fintype.card F ^ d - 1) * Fintype.card F ≤ d * Fintype.card F ^ d

theorem card_trueClaims_le_iff (hdraws : ∀ z, Draws (readChallenges z) (List.ofFn z))
    (hwrong : sub.eval ≠ Multilinear.eval table sub.point) :
    (∀ evals, (trueClaims D readChallenges table sub output t evals).card * Fintype.card F ≤
        d * Fintype.card F ^ d) ↔ SmallField F d sub.point := by
  classical
  obtain ⟨best, hmem, hbest⟩ := exists_trueClaims_eq output t hdraws hwrong
  have hall : (∀ evals, (trueClaims D readChallenges table sub output t evals).card *
        Fintype.card F ≤ d * Fintype.card F ^ d) ↔
      (trueClaims D readChallenges table sub output t best).card * Fintype.card F ≤
        d * Fintype.card F ^ d := by
    constructor
    · intro h
      exact h best
    · intro h evals
      exact (Nat.mul_le_mul_right _ (Finset.card_le_card (hbest evals))).trans h
  have hpoints : Fintype.card (Fin d → F) = Fintype.card F ^ d := by
    rw [Fintype.card_fun, Fintype.card_fin]
  have hpos : 0 < Fintype.card F ^ d := Nat.pow_pos Fintype.card_pos
  rw [hall]
  by_cases hpoint : ∃ c ∈ sub.point, c ≠ 0
  · -- all coordinates make the claim true
    have hset : trueClaims D readChallenges table sub output t best = Finset.univ := by
      ext z
      rw [hmem, iff_true_right (Finset.mem_univ z)]
      exact .inl hpoint
    rw [hset, Finset.card_univ, hpoints, mul_comm, Nat.mul_le_mul_right_iff hpos]
    constructor
    · intro h
      exact .inl ⟨hpoint, h⟩
    · rintro (⟨_, h⟩ | ⟨hzero, _⟩)
      · exact h
      · obtain ⟨c, hc, hne⟩ := hpoint
        exact absurd (hzero c hc) hne
  · have hset : trueClaims D readChallenges table sub output t best = Finset.univ.erase 0 := by
      ext z
      rw [hmem, or_iff_right hpoint, Finset.mem_erase, and_iff_left (Finset.mem_univ z)]
    rw [hset, Finset.card_erase_of_mem (Finset.mem_univ _), Finset.card_univ, hpoints]
    constructor
    · intro h
      refine .inr ⟨fun c hc => ?_, h⟩
      by_contra hne
      exact hpoint ⟨c, hc, hne⟩
    · rintro (⟨hcoordinate, _⟩ | ⟨_, h⟩)
      · exact absurd hcoordinate hpoint
      · exact h

omit [Fintype F] in
/-- Whether a claim is built depends on the number of values only. -/
theorem builds_iff {read : D.Transcript → Nat → List F × D.Transcript} {z : Fin d → F}
    (hdraws : Draws read (List.ofFn z)) (sub output : Claim F) (t : D.Transcript)
    (evals : List F) :
    ((∃ result, buildPositionalMatrixClaim D read sub output (sub.point.length + d) t evals =
        .ok result) ↔ evals.length ≤ sub.point.length + d) ∧
      ((buildPositionalMatrixClaim D read sub output (sub.point.length + d) t evals).Panics ↔
        sub.point.length + d < evals.length) := by
  obtain ⟨t', hbuild⟩ := buildPositionalMatrixClaim_eq hdraws sub output t evals
  rw [List.length_ofFn, List.length_append, List.length_ofFn] at hbuild
  rw [hbuild]
  by_cases hle : evals.length ≤ sub.point.length + d
  · rw [if_pos hle]
    constructor
    · exact ⟨fun _ => hle, fun _ => ⟨_, rfl⟩⟩
    · rw [iff_false_left (Outcome.not_panics_ok _)]
      exact Nat.not_lt.mpr hle
  · rw [if_neg hle]
    constructor
    · rw [iff_false_right hle]
      rintro ⟨_, h⟩
      cases h
    · exact ⟨fun _ => Nat.lt_of_not_le hle, fun _ => ⟨_, rfl⟩⟩

/-- Whether a wrong claim is a true one for few coordinates only, whatever a prover sends, and every
    other number of values than one for each coordinate is rejected. -/
def Binds (D : DpCrypto F)
    (readChallenges : (Fin d → F) → D.Transcript → Nat → List F × D.Transcript)
    (table : Nat → F) (sub output : Claim F) (t : D.Transcript) : Prop :=
  (∀ evals, (trueClaims D readChallenges table sub output t evals).card * Fintype.card F ≤
    d * Fintype.card F ^ d) ∧
  ∀ z evals, evals.length ≠ d → ∃ msg, buildPositionalMatrixClaim D (readChallenges z) sub output
    (sub.point.length + d) t evals = .error (.err msg)

/-- The verifier rejects nothing, and panics if there are more values than coordinates. A prover who
    sends each value before its coordinate is known is bound to the committed matrix; one who knows
    them all is not, unless the field is very small. -/
theorem positional_binding (table : Nat → F) (sub output : Claim F) (t : D.Transcript) {d : Nat}
    (hd : 1 ≤ d) (readChallenges : (Fin d → F) → D.Transcript → Nat → List F × D.Transcript)
    (hdraws : ∀ z, Draws (readChallenges z) (List.ofFn z))
    (hwrong : sub.eval ≠ Multilinear.eval table sub.point) :
    ¬ Binds D readChallenges table sub output t ∧
    (∀ z (evals : List F),
      ((∃ result, buildPositionalMatrixClaim D (readChallenges z) sub output
          (sub.point.length + d) t evals = .ok result) ↔ evals.length ≤ sub.point.length + d) ∧
      ((buildPositionalMatrixClaim D (readChallenges z) sub output
          (sub.point.length + d) t evals).Panics ↔ sub.point.length + d < evals.length)) ∧
    ((∀ evals, (trueClaims D readChallenges table sub output t evals).card * Fintype.card F ≤
        d * Fintype.card F ^ d) ↔ SmallField F d sub.point) ∧
    ∀ prover : List F → F, (trueClaims D readChallenges table sub output t
        fun z => onlineEvals prover (List.ofFn z)).card * Fintype.card F ≤
      d * Fintype.card F ^ d := by
  refine ⟨fun ⟨_, hrejects⟩ => ?_, fun z evals => builds_iff (hdraws z) sub output t evals,
    card_trueClaims_le_iff hdraws hwrong, card_trueClaims_online_le hdraws hwrong⟩
  obtain ⟨msg, herr⟩ := hrejects (fun _ => 0) [] (Nat.ne_of_lt hd)
  obtain ⟨result, hok⟩ := (builds_iff (hdraws fun _ => 0) sub output t []).1.mpr (Nat.zero_le _)
  rw [hok] at herr
  cases herr

end Count

/-! ## A matrix of two rows -/

section TwoRows

/-- The library over a field of five elements. -/
abbrev plainFive : DpCrypto (ZMod 5) := plainCrypto fun _ => 0

/-- The challenges are the given coordinates. -/
def given {d : Nat} (z : Fin d → ZMod 5) (t : List (ZMod 5)) (_ : Nat) :
    List (ZMod 5) × List (ZMod 5) :=
  (List.ofFn z, t)

theorem draws_given {d : Nat} (z : Fin d → ZMod 5) :
    Draws (D := plainFive) (given z) (List.ofFn z) :=
  fun _ => rfl

/-- The matrix with the rows 0 and 1. -/
def twoRows (i : Nat) : ZMod 5 := i

/-- The first row is claimed to be 1. -/
def wrongRow : Claim (ZMod 5) := ⟨[], 1⟩

theorem wrongRow_wrong : wrongRow.eval ≠ Multilinear.eval twoRows wrongRow.point := by decide

/-- The value `2 - z⁻¹` makes the claim true for each of the four coordinates `z` other than zero,
    and a claim is returned for no values at all. -/
theorem two_rows_unbound :
    ¬ ((trueClaims plainFive given twoRows wrongRow ⟨[], 0⟩ []
          fun z : Fin 1 → ZMod 5 => [2 - z 0 ^ 3]).card * Fintype.card (ZMod 5) ≤
        1 * Fintype.card (ZMod 5) ^ 1) ∧
      ∀ z : Fin 1 → ZMod 5, buildPositionalMatrixClaim plainFive (given z) wrongRow ⟨[], 0⟩ 1 [] [] =
        .ok (⟨[z 0], 1⟩, [0, 1]) := by
  constructor
  · have hfour : (Finset.univ.erase 0 : Finset (Fin 1 → ZMod 5)) ⊆
        trueClaims plainFive given twoRows wrongRow ⟨[], 0⟩ [] fun z => [2 - z 0 ^ 3] := by
      intro z hz
      have hne : z 0 ≠ 0 := by
        intro h
        apply Finset.ne_of_mem_erase hz
        funext i
        rw [Fin.fin_one_eq_zero i, h]
        rfl
      have hall : ∀ c : ZMod 5, c ≠ 0 →
          interpolate (1 : ZMod 5) [(2 - c ^ 3, c)] = Multilinear.eval twoRows [c] := by decide
      have hlength : [2 - z 0 ^ 3].length = (List.ofFn z).length := rfl
      rw [mem_trueClaims]
      exact (returnsTrue_iff_of_length (draws_given z) hlength).mpr (hall (z 0) hne)
    have hcard := Finset.card_le_card hfour
    have hcount : (Finset.univ.erase 0 : Finset (Fin 1 → ZMod 5)).card = 4 := by decide
    have hfield : Fintype.card (ZMod 5) = 5 := ZMod.card 5
    rw [hcount] at hcard
    rw [hfield]
    omega
  · intro z
    rfl

/-- A prover who does not know the coordinate is bound, also if it answers with 2. -/
theorem two_rows_binding :
    (trueClaims plainFive given twoRows wrongRow ⟨[], 0⟩ []
        fun z : Fin 1 → ZMod 5 => onlineEvals (fun _ => 2) (List.ofFn z)).card *
          Fintype.card (ZMod 5) ≤
      1 * Fintype.card (ZMod 5) ^ 1 := by
  have h := positional_binding (D := plainFive) twoRows wrongRow ⟨[], 0⟩ [] le_rfl given
    draws_given wrongRow_wrong
  exact h.2.2.2 fun _ => 2

end TwoRows

end DeepProve
