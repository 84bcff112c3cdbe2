import DeepProve.PolyCommit.Prover

/-!
# A plain instance of the proof library

The least the proof library has to do: expressions are syntax trees, a transcript
is the list of what went into it, and a sumcheck proof gives the polynomial of
each round as a function. It is lawful, so the assumptions about the library can
be met, and it can be run.
-/

namespace DeepProve

inductive PlainExpression (F : Type) where
  | constant (c : F)
  | challenge (id : UInt16) (power : Nat) (scalar offset : F)
  | witIn (id : UInt16)
  | add (a b : PlainExpression F)
  | sub (a b : PlainExpression F)
  | mul (a b : PlainExpression F)
  | neg (a : PlainExpression F)

variable {F : Type} [CommRing F]

def PlainExpression.eval (witness challenges : List F) : PlainExpression F → Outcome F
  | constant c => .ok c
  | challenge id power scalar offset => do
    let c ← unwrap challenges[id.toNat]? "index out of bounds"
    .ok (c ^ power * scalar + offset)
  | witIn id => unwrap witness[id.toNat]? "index out of bounds"
  | add a b => do
    let x ← a.eval witness challenges
    let y ← b.eval witness challenges
    .ok (x + y)
  | sub a b => do
    let x ← a.eval witness challenges
    let y ← b.eval witness challenges
    .ok (x - y)
  | mul a b => do
    let x ← a.eval witness challenges
    let y ← b.eval witness challenges
    .ok (x * y)
  | neg a => do
    let x ← a.eval witness challenges
    .ok (-x)

/-- Every round gives a polynomial whose values at zero and one add up to the
    claim; the next claim is its value at the challenge. -/
def plainSumcheck [DecidableEq F] (hash : List F → F) (claim : F) (point transcript : List F) :
    List (F → F) → Outcome (SumcheckSubclaim F × List F)
  | [] => .ok (⟨point, claim⟩, transcript)
  | p :: rounds =>
    if p 0 + p 1 = claim then
      let transcript := transcript ++ [p 0, p 1]
      let r := hash transcript
      plainSumcheck hash (p r) (point ++ [r]) transcript rounds
    else
      .error (.panic "sumcheck round failed")

/-- The library over `F`, with the given hash function. -/
@[reducible]
def plainCrypto [DecidableEq F] (hash : List F → F) : DpCrypto F where
  Transcript := List F
  appendScalars t scalars := t ++ scalars
  appendAndSample t _ := (hash t, t ++ [hash t])
  challengeScalar t := (hash t, t ++ [hash t])
  Expression := PlainExpression F
  constant := .constant
  challenge := .challenge
  witIn := .witIn
  add := .add
  sub := .sub
  mul := .mul
  neg := .neg
  evalByExprWithInstance _ witness _ _ challenges e := e.eval witness challenges
  IOPProof := List (F → F)
  verifySumcheck claim rounds aux t :=
    if rounds.length = aux.maxNumVariables then
      plainSumcheck hash claim [] t rounds
    else
      .error (.panic "wrong number of rounds")
  log2Strict n :=
    if n = 2 ^ Nat.log2 n then .ok (Nat.log2 n) else .error (.panic "not a power of two")

/-- A scheme for constant polynomials: the commitment is the constant. -/
@[reducible]
def plainScheme (F : Type) [CommRing F] [DecidableEq F] : CommitmentScheme F (List F) where
  Commitment := F
  Proof := Unit
  VerifierSetup := Unit
  combineCommitments commitments challenges :=
    .ok ((commitments.zip challenges).map fun (c, r) => c * r).sum
  verify _ _ transcript _ eval commitment :=
    if eval = commitment then .ok transcript else .error (.err "opening failed")

/-- A polynomial is its number of variables and its table. -/
@[reducible]
def plainPolys (F : Type) [CommRing F] : DensePolys F where
  Poly := Nat × (Nat → F)
  numVars p := p.1
  index p := p.2
  evaluate p r :=
    if r.length = p.1 then .ok (Multilinear.eval p.2 r) else .error (.err "wrong number of variables")
  asViewChunks p numChunks :=
    let numVars := p.1 - Nat.log2 numChunks
    (List.range numChunks).map fun j => (numVars, fun i => p.2 (j * 2 ^ numVars + i))
  zeroPadNumVars p n :=
    if p.1 ≤ n then .ok (n, Multilinear.zeroPad p.1 p.2) else .error (.err "too many variables")
  eqEvals z := (z.length, Multilinear.eqWeight z)

theorem plainPolys_lawful : (plainPolys F).Lawful where
  evaluate _ _ h := if_pos h
  asViewChunks_length p b _ := by simp
  asViewChunks p b j q _ hq := by
    rw [List.getElem?_map, Option.map_eq_some_iff] at hq
    obtain ⟨j', hj', rfl⟩ := hq
    obtain ⟨_, rfl⟩ := List.getElem?_eq_some_iff.mp hj'
    rw [List.getElem_range, Nat.log2_two_pow]
    exact ⟨rfl, fun _ _ => rfl⟩
  zeroPadNumVars p n h := ⟨(n, Multilinear.zeroPad p.1 p.2), if_pos h, rfl, fun _ _ => rfl⟩
  eqEvals _ := ⟨rfl, fun _ _ => rfl⟩

theorem plainCrypto_lawful [DecidableEq F] (hash : List F → F) : (plainCrypto hash).Lawful where
  constant _ _ _ := rfl
  challenge w ch id power scalar offset c h := by
    simp only [DpCrypto.eval, PlainExpression.eval, h, unwrap_some, Outcome.ok_bind]
  witIn w ch id v h := by
    simp only [DpCrypto.eval, PlainExpression.eval, h, unwrap_some]
  add w ch a b x y ha hb := by
    simp only [DpCrypto.eval, PlainExpression.eval] at ha hb ⊢
    simp only [ha, hb, Outcome.ok_bind]
  sub w ch a b x y ha hb := by
    simp only [DpCrypto.eval, PlainExpression.eval] at ha hb ⊢
    simp only [ha, hb, Outcome.ok_bind]
  mul w ch a b x y ha hb := by
    simp only [DpCrypto.eval, PlainExpression.eval] at ha hb ⊢
    simp only [ha, hb, Outcome.ok_bind]
  neg w ch a x ha := by
    simp only [DpCrypto.eval, PlainExpression.eval] at ha ⊢
    simp only [ha, Outcome.ok_bind]
  log2Strict n k := by
    show (if n = 2 ^ Nat.log2 n then _ else _) = _ ↔ _
    split
    · next h =>
      rw [Except.ok.injEq]
      constructor
      · rintro rfl
        exact h
      · intro hk
        exact Nat.pow_right_injective (le_refl 2) (h.symm.trans hk)
    · next h =>
      simp only [reduceCtorEq, false_iff]
      rintro rfl
      exact h (by rw [Nat.log2_two_pow])

end DeepProve
