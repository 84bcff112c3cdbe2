import DeepProve.LogUp.Verifier
import DeepProve.SumcheckVerifier
import DeepProve.Tensor

/-!
# The prover of a sumcheck

It is not part of the repository either. It multiplies polynomials that are given by their evaluations,
and returns the challenges and the values of the polynomials at them; the verifier accepts what it sends
if the claim is the sum of the products.
-/

namespace DeepProve

/-- `IOPProverState::prove` for the product of some polynomials: the proof, the challenges, and the
    evaluations of the polynomials at them. -/
abbrev SumcheckProver (F P T : Type) := List (List F) → T → P × List F × List F × T

section Laws

variable {F : Type} [Field F] {P T : Type}

structure SumcheckProver.Lawful (proveSumcheck : SumcheckProver F P T) : Prop where
  challenges : ∀ tables n t, tables ≠ [] → (∀ table ∈ tables, table.length = 2 ^ n) →
    (proveSumcheck tables t).2.1.length = n
  finalEvaluations : ∀ tables n t, tables ≠ [] → (∀ table ∈ tables, table.length = 2 ^ n) →
    (proveSumcheck tables t).2.2.1 = tables.map (mle · (proveSumcheck tables t).2.1)

/-- The sum over the hypercube of a product. -/
def hypercubeSum (n : Nat) (tables : List (List F)) : F :=
  ∑ b ∈ Finset.range (2 ^ n), (tables.map fun table => table.getD b 0).prod

/-- The verifier accepts the proof for the sum, and ends with the transcript of the prover. -/
def SumcheckVerifier.Accepts (v : SumcheckVerifier F P T) (proveSumcheck : SumcheckProver F P T) :
    Prop :=
  ∀ tables n t, tables ≠ [] → (∀ table ∈ tables, table.length = 2 ^ n) →
    ∃ subclaim, v (hypercubeSum n tables) (proveSumcheck tables t).1
      (fromMleListDimensions [tables.map fun _ => n]) t =
        .ok (subclaim, (proveSumcheck tables t).2.2.2)

end Laws

end DeepProve
