import DeepProve.EinSum.Verify
import DeepProve.Iop.SamePoly
import DeepProve.Llm.Verify

/-!
# The layers, as the verifier of a chunk uses them

`VerifiableCtx` of `layers/provable/mod.rs`: a layer takes the claims about its outputs to claims
about its inputs. `Add` (`layers/add.rs`) and the layers without a proof are spelled out; the other
layers are a parameter.
-/

namespace DeepProve

variable {F C : Type} [Field F] [DecidableEq F] {D : DpCrypto F} {A : Appender D C}

/-! ## Addition -/

/-- `AddQuantInfo`, with what the verifier reads of it. -/
structure AddQuantInfo where
  leftMultiplier : Int64
  rightMultiplier : Int64

namespace AddQuantInfo

def leftScale (self : AddQuantInfo) : Int64 := self.leftMultiplier

def rightScale (self : AddQuantInfo) : Int64 := self.rightMultiplier

end AddQuantInfo

/-- `to_field` of an `Element`. -/
def elementToField (x : Int64) : F := (x.toInt : F)

structure AddCtx where
  quantInfo : AddQuantInfo
  /-- Given if the right operand is a constant of the model. -/
  operandKey : Option CommitmentId

structure AddProof (F : Type) where
  leftEval : F
  rightEval : F

/-- `AddCtx::verify`. -/
def AddCtx.verify (self : AddCtx) (nodeId : NodeId) (proof : AddProof F)
    (lastClaims : List (Claim F)) (verifier : Verifier D C) :
    Outcome (List (Claim F) × Verifier D C) := do
  ensure (lastClaims.length == 1) "Add layer expects 1 claim"
  let lastClaim ← unwrap lastClaims[0]? "index out of bounds"
  let leftScale := self.quantInfo.leftScale
  let rightScale := self.quantInfo.rightScale
  ensure (leftScale.toUInt64.toInt64 == leftScale)
    "Condition failed: `(self.quant_info.left_scale() as u64) as Element == self.quant_info.left_scale()`"
  ensure (rightScale.toUInt64.toInt64 == rightScale)
    "Condition failed: `(self.quant_info.right_scale() as u64) as Element == self.quant_info.right_scale()`"
  let scaledLeft := proof.leftEval * elementToField leftScale
  let leftClaim : Claim F := ⟨lastClaim.point, proof.leftEval⟩
  let scaledRight := proof.rightEval * elementToField rightScale
  let rightClaim : Claim F := ⟨lastClaim.point, proof.rightEval⟩
  ensure (scaledLeft + scaledRight == lastClaim.eval) "Add layer verification failed"
  match self.operandKey with
  | some key =>
    let commitVerifier ← verifier.commitVerifier.addCommonClaims [(key, [(nodeId, rightClaim)])]
    .ok ([leftClaim], { verifier with commitVerifier })
  | none => .ok ([leftClaim, rightClaim], verifier)

/-! ## All layers -/

/-- The layers besides `Add`, `Flatten` and `Reshape`. -/
structure OtherLayers (D : DpCrypto F) (C : Type) where
  Ctx : Type
  Proof : Type
  isProvable : Ctx → Bool
  /-- The commitments of a proof, or an error if it is the proof of another layer. -/
  commitments : Ctx → Proof → Outcome (List C)
  /-- `verify`, and `verify_chunk` if the number of a chunk is given. -/
  verify : Ctx → ShapeStep → NodeId → Option Nat → Proof → List (Claim F) → Verifier D C →
    Outcome (List (Claim F) × Verifier D C)
  verifyInputClaim : Ctx → List (IoTensor F) → List (Claim F) → Outcome Unit

/-- The context of a layer. -/
inductive LayerCtx (O : OtherLayers D C) where
  | add (ctx : AddCtx)
  | flatten
  | reshape
  | other (ctx : O.Ctx)

/-- The proof of a layer. -/
inductive LayerProof (O : OtherLayers D C) where
  | dummy
  | add (proof : AddProof F)
  | other (proof : O.Proof)

namespace LayerCtx

variable {O : OtherLayers D C}

def hasProof : LayerCtx O → Bool
  | flatten => false
  | _ => true

def isProvable : LayerCtx O → Bool
  | add _ => true
  | flatten => false
  | reshape => false
  | other ctx => O.isProvable ctx

/-- `write_proof_to_transcript`: the commitments of a proof are appended, nothing else. -/
def writeProofToTranscript (A : Appender D C) (self : LayerCtx O) (proof : LayerProof O)
    (t : D.Transcript) : Outcome D.Transcript :=
  match self, proof with
  | add _, .add _ => .ok t
  | flatten, _ => .ok t
  | reshape, _ => .ok t
  | other ctx, .other proof => do
    let commitments ← O.commitments ctx proof
    .ok (commitments.foldl A.appendCommitment t)
  | _, _ => .error (.err "Could not append LayerProof to transcript, Incompatible layer and proof found")

/-- `verify` and `verify_chunk`. -/
def verify (self : LayerCtx O) (shapeStep : ShapeStep) (nodeId : NodeId) (chunkNumber : Option Nat)
    (proof : LayerProof O) (lastClaims : List (Claim F)) (verifier : Verifier D C) :
    Outcome (List (Claim F) × Verifier D C) :=
  match self, proof with
  | add ctx, .add proof => ctx.verify nodeId proof lastClaims verifier
  | flatten, _ => .error (.panic "Trying to verify a non-provable layer")
  | reshape, _ => .error (.panic "Trying to verify a non-provable layer")
  | other ctx, .other proof =>
    O.verify ctx shapeStep nodeId chunkNumber proof lastClaims verifier
  | _, _ => .error (.err "Incompatible layer and proof found")

/-- The claims about the inputs of a node; a layer that is not proved hands on the claims. -/
def inputClaims (self : LayerCtx O) (shapeStep : ShapeStep) (nodeId : NodeId)
    (chunkNumber : Option Nat) (proof : LayerProof O) (lastClaims : List (Claim F))
    (verifier : Verifier D C) : Outcome (List (Claim F) × Verifier D C) :=
  if self.isProvable then
    self.verify shapeStep nodeId chunkNumber proof lastClaims verifier
  else
    .ok (lastClaims, verifier)

end LayerCtx

/-! ## What two runs of one layer have in common -/

/-- A layer that is given its proof, the claims about its outputs and the verifier. -/
abbrev LayerRun (D : DpCrypto F) (C P : Type) :=
  P → List (Claim F) → Verifier D C → Outcome (List (Claim F) × Verifier D C)

/-- The verifiers have read the same so far. -/
def Verifier.SameTranscript (v₁ v₂ : Verifier D C) : Prop :=
  v₁.transcript = v₂.transcript ∧ v₁.challengeStorage = v₂.challengeStorage

namespace LayerRun

variable {P : Type} (T : TranscriptLog D A) (run : LayerRun D C P)

/-- The layer takes nothing off the transcript. -/
def Appends : Prop :=
  ∀ proof claims v out, run proof claims v = .ok out →
    T.Extends v.transcript out.2.transcript ∧ out.2.challengeStorage = v.challengeStorage

/-- Two runs on claims of the same shape that do not part on the transcript read equally much, and
    leave claims of the same shape. -/
def Delimited : Prop :=
  ∀ proof₁ proof₂ claims₁ claims₂ v₁ v₂ out₁ out₂ whole, Verifier.SameTranscript v₁ v₂ →
    SameShape claims₁ claims₂ → run proof₁ claims₁ v₁ = .ok out₁ → run proof₂ claims₂ v₂ = .ok out₂ →
    T.log out₁.2.transcript <+: whole → T.log out₂.2.transcript <+: whole →
      out₁.2.transcript = out₂.2.transcript ∧ SameShape out₁.1 out₂.1

/-- Two runs on the same claims that do not part on the transcript leave the same claims. -/
def Binds : Prop :=
  ∀ proof₁ proof₂ claims v₁ v₂ out₁ out₂ whole, Verifier.SameTranscript v₁ v₂ →
    run proof₁ claims v₁ = .ok out₁ → run proof₂ claims v₂ = .ok out₂ →
    T.log out₁.2.transcript <+: whole → T.log out₂.2.transcript <+: whole → out₁.1 = out₂.1

end LayerRun

namespace LayerCtx

variable {O : OtherLayers D C} {self : LayerCtx O} (T : TranscriptLog D A)
  (hself : self.isProvable = false) (shapeStep : ShapeStep) (nodeId : NodeId)
  (chunkNumber : Option Nat)

include hself

/-- A layer without a proof hands on the claims. -/
theorem inputClaims_eq_ok {proof : LayerProof O} {claims : List (Claim F)} {v : Verifier D C}
    {out : List (Claim F) × Verifier D C}
    (h : self.inputClaims shapeStep nodeId chunkNumber proof claims v = .ok out) :
    out = (claims, v) := by
  rw [inputClaims, hself] at h
  exact (Except.ok.inj h).symm

theorem appends_of_not_provable :
    LayerRun.Appends T (self.inputClaims shapeStep nodeId chunkNumber) := by
  intro proof claims v out h
  rw [inputClaims_eq_ok hself shapeStep nodeId chunkNumber h]
  exact ⟨TranscriptLog.Extends.refl _, rfl⟩

theorem delimited_of_not_provable :
    LayerRun.Delimited T (self.inputClaims shapeStep nodeId chunkNumber) := by
  intro proof₁ proof₂ claims₁ claims₂ v₁ v₂ out₁ out₂ whole hsame hshape h₁ h₂ _ _
  rw [inputClaims_eq_ok hself shapeStep nodeId chunkNumber h₁,
    inputClaims_eq_ok hself shapeStep nodeId chunkNumber h₂]
  exact ⟨hsame.1, hshape⟩

theorem binds_of_not_provable :
    LayerRun.Binds T (self.inputClaims shapeStep nodeId chunkNumber) := by
  intro proof₁ proof₂ claims v₁ v₂ out₁ out₂ whole _ h₁ h₂ _ _
  rw [inputClaims_eq_ok hself shapeStep nodeId chunkNumber h₁,
    inputClaims_eq_ok hself shapeStep nodeId chunkNumber h₂]

end LayerCtx

namespace AddCtx

variable {self : AddCtx} {nodeId : NodeId}

/-- When an addition is accepted, and what it leaves: the equation is one for two values. -/
theorem verify_eq_ok {proof : AddProof F} {claims : List (Claim F)} {v : Verifier D C}
    {out : List (Claim F) × Verifier D C} :
    self.verify nodeId proof claims v = .ok out ↔ ∃ lastClaim, claims = [lastClaim] ∧
      proof.leftEval * elementToField self.quantInfo.leftScale +
        proof.rightEval * elementToField self.quantInfo.rightScale = lastClaim.eval ∧
      match self.operandKey with
      | some key => ∃ commitVerifier, v.commitVerifier.addCommonClaims
          [(key, [(nodeId, ⟨lastClaim.point, proof.rightEval⟩)])] = .ok commitVerifier ∧
          out = ([⟨lastClaim.point, proof.leftEval⟩], { v with commitVerifier })
      | none => out = ([⟨lastClaim.point, proof.leftEval⟩, ⟨lastClaim.point, proof.rightEval⟩], v) := by
  rw [verify, Outcome.bind_eq_ok]
  simp only [ensure_eq_ok, beq_iff_eq]
  constructor
  · intro ⟨_, hlen, h⟩
    obtain ⟨lastClaim, rfl⟩ := List.length_eq_one_iff.mp hlen
    simp only [List.getElem?_cons_zero, unwrap_some, Outcome.ok_bind, Outcome.bind_eq_ok,
      ensure_eq_ok, beq_iff_eq] at h
    obtain ⟨-, -, -, -, -, hsum, h⟩ := h
    refine ⟨lastClaim, rfl, hsum, ?_⟩
    cases hkey : self.operandKey with
    | some key =>
      rw [hkey] at h
      obtain ⟨commitVerifier, hadd, hout⟩ := Outcome.bind_eq_ok.mp h
      exact ⟨commitVerifier, hadd, (Except.ok.inj hout).symm⟩
    | none =>
      rw [hkey] at h
      exact (Except.ok.inj h).symm
  · intro ⟨lastClaim, hclaims, hsum, h⟩
    subst hclaims
    refine ⟨(), rfl, ?_⟩
    simp only [List.getElem?_cons_zero, unwrap_some, Outcome.ok_bind, Int64.toInt64_toUInt64, beq_self_eq_true,
      ensure_true, hsum]
    cases hkey : self.operandKey with
    | some key =>
      rw [hkey] at h
      obtain ⟨commitVerifier, hadd, rfl⟩ := h
      show (v.commitVerifier.addCommonClaims _ >>= _) = _
      rw [hadd, Outcome.ok_bind]
    | none =>
      rw [hkey] at h
      rw [h]

end AddCtx

end DeepProve
