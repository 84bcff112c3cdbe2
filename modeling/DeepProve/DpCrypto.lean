import DeepProve.Outcome

/-!
# The proof library

What the code calls in the crate `dp_crypto`, which is not part of the
repository: transcripts, sumcheck expressions, the sumcheck verifier and the
commitment scheme. They are parameters; `DpCrypto.Lawful` states what the code
relies on when it builds and evaluates expressions. Nothing is assumed about the
sumcheck verifier, the transcript or the commitment scheme.
-/

namespace DeepProve

/-- `VPAuxInfo`: the shape of the polynomial a sumcheck is about. -/
structure VPAuxInfo where
  maxDegree : Nat
  maxNumVariables : Nat

/-- What the sumcheck verifier leaves to be checked. -/
structure SumcheckSubclaim (F : Type) where
  point : List F
  expectedEvaluation : F

/-- The parts of the proof library the code uses, over a field `F`. -/
structure DpCrypto (F : Type) where
  Transcript : Type
  appendScalars : Transcript → List F → Transcript
  appendAndSample : Transcript → String → F × Transcript
  challengeScalar : Transcript → F × Transcript
  Expression : Type
  constant : F → Expression
  /-- `Expression::Challenge(id, power, scalar, offset)`. -/
  challenge : UInt16 → Nat → F → F → Expression
  witIn : UInt16 → Expression
  add : Expression → Expression → Expression
  sub : Expression → Expression → Expression
  mul : Expression → Expression → Expression
  neg : Expression → Expression
  /-- `eval_by_expr_with_instance(fixed, witness, structural, instance, challenges, expr)`. -/
  evalByExprWithInstance : List F → List F → List F → List F → List F → Expression → Outcome F
  IOPProof : Type
  /-- `IOPVerifierState::verify`. -/
  verifySumcheck : F → IOPProof → VPAuxInfo → Transcript → Outcome (SumcheckSubclaim F × Transcript)
  /-- The logarithm of a power of two; panics on other numbers. -/
  log2Strict : Nat → Outcome Nat

/-- The commitment scheme, `dp_crypto::arkyper::CommitmentScheme`. -/
structure CommitmentScheme (F Transcript : Type) where
  Commitment : Type
  Proof : Type
  VerifierSetup : Type
  combineCommitments : List Commitment → List F → Outcome Commitment
  /-- `verify(setup, proof, transcript, point, eval, commitment)`. -/
  verify : VerifierSetup → Proof → Transcript → List F → F → Commitment → Outcome Transcript

namespace DpCrypto

variable {F : Type}

/-- The value of an expression on witness evaluations and challenges. -/
def eval (D : DpCrypto F) (witness challenges : List F) (e : D.Expression) : Outcome F :=
  D.evalByExprWithInstance [] witness [] [] challenges e

/-- Expressions denote what they are called. -/
structure Lawful [CommRing F] (D : DpCrypto F) : Prop where
  constant : ∀ w ch c, D.eval w ch (D.constant c) = .ok c
  challenge : ∀ w ch (id : UInt16) power scalar offset c, ch[id.toNat]? = some c →
    D.eval w ch (D.challenge id power scalar offset) = .ok (c ^ power * scalar + offset)
  witIn : ∀ w ch (id : UInt16) v, w[id.toNat]? = some v → D.eval w ch (D.witIn id) = .ok v
  add : ∀ w ch a b x y, D.eval w ch a = .ok x → D.eval w ch b = .ok y →
    D.eval w ch (D.add a b) = .ok (x + y)
  sub : ∀ w ch a b x y, D.eval w ch a = .ok x → D.eval w ch b = .ok y →
    D.eval w ch (D.sub a b) = .ok (x - y)
  mul : ∀ w ch a b x y, D.eval w ch a = .ok x → D.eval w ch b = .ok y →
    D.eval w ch (D.mul a b) = .ok (x * y)
  neg : ∀ w ch a x, D.eval w ch a = .ok x → D.eval w ch (D.neg a) = .ok (-x)
  log2Strict : ∀ n k, D.log2Strict n = .ok k ↔ n = 2 ^ k

end DpCrypto

end DeepProve
