import DeepProve.DpCrypto

/-!
# The verifier of a sumcheck

It is not part of the repository, and nothing is assumed about it but that it returns: what a layer
enforces is stated for every function in its place. That a condition is needed is shown with the
verifier that accepts everything.
-/

namespace DeepProve

open Outcome

/-- `IOPVerifierState::verify`, which is not part of the repository: any function from the claimed sum,
    the proof, what is known of the polynomial, and the transcript. -/
abbrev SumcheckVerifier (F P T : Type) :=
  F → P → VPAuxInfo → T → Outcome (SumcheckSubclaim F × T)

/-- It does not panic, and the point has a coordinate for every variable. -/
structure SumcheckVerifier.Proper {F P T : Type} (v : SumcheckVerifier F P T) : Prop where
  noPanic : ∀ claimed proof aux t, ¬ (v claimed proof aux t).Panics
  length : ∀ claimed proof aux t subclaim t', v claimed proof aux t = .ok (subclaim, t') →
    subclaim.point.length = aux.maxNumVariables

section Accepting

variable {F : Type} [Field F] {P T : Type}

/-- A sumcheck verifier that accepts everything, at the origin. -/
def acceptingSumcheck (first second : F) : SumcheckVerifier F P T := fun _ _ auxInfo t =>
  .ok (⟨List.replicate auxInfo.maxNumVariables 0, if auxInfo.maxDegree = 2 then second else first⟩, t)

theorem acceptingSumcheck_proper (first second : F) :
    (acceptingSumcheck first second : SumcheckVerifier F P T).Proper where
  noPanic := fun _ _ _ _ => not_panics_ok _
  length := by
    intro _ _ auxInfo t subclaim t' h
    rw [← (Prod.mk.inj (Except.ok.inj h)).1]
    exact List.length_replicate

/-- The first sumcheck. -/
theorem acceptingSumcheck_of_ne {maxDegree : Nat} (h : maxDegree ≠ 2) (first second claimed : F) (p : P)
    (numVars : Nat) (t : T) :
    acceptingSumcheck first second claimed p ⟨maxDegree, numVars⟩ t =
      .ok (⟨List.replicate numVars 0, first⟩, t) := by
  simp [acceptingSumcheck, h]

/-- A sumcheck verifier that accepts everything, at the given point if that has as many coordinates as
    there are variables. -/
def fixedSumcheck (point : List F) (value : F) : SumcheckVerifier F P T := fun _ _ auxInfo t =>
  .ok (if point.length = auxInfo.maxNumVariables then ⟨point, value⟩
    else ⟨List.replicate auxInfo.maxNumVariables 0, value⟩, t)

theorem fixedSumcheck_proper (point : List F) (value : F) :
    (fixedSumcheck point value : SumcheckVerifier F P T).Proper where
  noPanic := fun _ _ _ _ => not_panics_ok _
  length := by
    intro _ _ auxInfo t subclaim t' h
    obtain ⟨rfl, -⟩ := Prod.mk.inj (Except.ok.inj h)
    split
    · assumption
    · exact List.length_replicate

end Accepting

/-! ## The calls of a verifier -/

/-- The claimed sum, the proof and the polynomial of one sumcheck. -/
structure SumcheckCall (F P : Type) where
  claimed : F
  proof : P
  auxInfo : VPAuxInfo

section Calls

variable {F P T : Type} (v : SumcheckVerifier F P T)

/-- One sumcheck after the other. -/
def runCalls : List (SumcheckCall F P) → T → Outcome (List (SumcheckSubclaim F) × T)
  | [], t => .ok ([], t)
  | call :: calls, t => do
    let (subclaim, t) ← v call.claimed call.proof call.auxInfo t
    let (subclaims, t) ← runCalls calls t
    .ok (subclaim :: subclaims, t)

/-- A sumcheck verifier that accepts everything and writes down what it is called with. -/
def recordingSumcheck (value : F) : SumcheckVerifier F P (List (SumcheckCall F P)) :=
  fun claimed proof auxInfo log => .ok (⟨[], value⟩, log ++ [⟨claimed, proof, auxInfo⟩])

/-- Wherever the first verifier accepts, the second accepts as well, and the transcripts stay
    related. -/
def SumcheckVerifier.Follows {T₁ T₂ : Type} (v₁ : SumcheckVerifier F P T₁)
    (v₂ : SumcheckVerifier F P T₂) (R : T₁ → T₂ → Prop) : Prop :=
  ∀ ⦃claimed proof auxInfo t₁ t₂ subclaim t₁'⦄, R t₁ t₂ →
    v₁ claimed proof auxInfo t₁ = .ok (subclaim, t₁') →
    ∃ subclaim' t₂', v₂ claimed proof auxInfo t₂ = .ok (subclaim', t₂') ∧ R t₁' t₂'

theorem runCalls_acceptingSumcheck {F : Type} [Field F] (first second : F)
    (calls : List (SumcheckCall F P)) (t : T) :
    runCalls (acceptingSumcheck first second) calls t = .ok (calls.map fun call =>
      ⟨List.replicate call.auxInfo.maxNumVariables 0,
        if call.auxInfo.maxDegree = 2 then second else first⟩, t) := by
  induction calls with
  | nil => rfl
  | cons call calls ih =>
    rw [runCalls, acceptingSumcheck, ok_bind]
    dsimp only
    rw [ih]
    rfl

theorem follows_acceptingSumcheck {F : Type} [Field F] {T' : Type} (v : SumcheckVerifier F P T)
    (first second : F) :
    v.Follows (acceptingSumcheck first second : SumcheckVerifier F P T') fun _ _ => True := by
  intro _ _ _ _ _ _ _ _ _
  exact ⟨_, _, rfl, trivial⟩

/-- The calls that were written down stay. -/
theorem recordingSumcheck_follows (value : F) (start : List (SumcheckCall F P)) :
    (recordingSumcheck value).Follows (recordingSumcheck value : SumcheckVerifier F P _)
      fun log log' => log = log' ∧ start <+: log := by
  rintro claimed proof auxInfo log _ subclaim log' ⟨rfl, hstart⟩ hcall
  obtain ⟨_, rfl⟩ := Prod.mk.inj (Except.ok.inj hcall)
  exact ⟨_, _, rfl, rfl, hstart.trans (List.prefix_append _ _)⟩

end Calls

end DeepProve
