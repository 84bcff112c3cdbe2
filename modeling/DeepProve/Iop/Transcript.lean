import DeepProve.Lookup.LookupVerifier

/-!
# The transcript as a list

The transcript of a chunk is taken to be the list of everything that was appended to it; drawing a
challenge leaves a mark. The verifier of a sumcheck stays opaque: it appends what it reads of the
proof, and of two sumchecks that append the same nothing else differs.
-/

namespace DeepProve

/-- What one call appends to the transcript. -/
inductive Entry (F C : Type) where
  | bytes (payload : List Nat)
  | label (name : String)
  | scalars (xs : List F)
  | commitment (c : C)
  | challenge
  deriving DecidableEq, Repr

variable {F C : Type}

/-- What else is appended to a transcript. -/
structure Appender (D : DpCrypto F) (C : Type) where
  appendBytes : D.Transcript → List Nat → D.Transcript
  appendCommitment : D.Transcript → C → D.Transcript

/-- A transcript is the list of what was appended to it. -/
structure TranscriptLog (D : DpCrypto F) (A : Appender D C) where
  log : D.Transcript → List (Entry F C)
  injective : Function.Injective log
  appendScalars : ∀ t xs, log (D.appendScalars t xs) = log t ++ [.scalars xs]
  appendAndSample : ∀ t name, log (D.appendAndSample t name).2 = log t ++ [.label name, .challenge]
  challengeScalar : ∀ t, log (D.challengeScalar t).2 = log t ++ [.challenge]
  appendBytes : ∀ t payload, log (A.appendBytes t payload) = log t ++ [.bytes payload]
  appendCommitment : ∀ t c, log (A.appendCommitment t c) = log t ++ [.commitment c]
  sumcheckAppends : ∀ sum proof aux t subclaim t',
    D.verifySumcheck sum proof aux t = .ok (subclaim, t') →
      log t <+: log t' ∧ subclaim.point.length = aux.maxNumVariables
  /-- Two sumchecks of one shape that start from one transcript and do not part on it have read
      the same messages; what is left to check may depend on the claimed sum. -/
  sumcheckDelimited : ∀ sum₁ proof₁ sum₂ proof₂ aux t subclaim₁ t₁ subclaim₂ t₂ whole,
    D.verifySumcheck sum₁ proof₁ aux t = .ok (subclaim₁, t₁) →
    D.verifySumcheck sum₂ proof₂ aux t = .ok (subclaim₂, t₂) →
    log t₁ <+: whole → log t₂ <+: whole →
      t₁ = t₂ ∧ subclaim₁.point = subclaim₂.point ∧
        (sum₁ = sum₂ → subclaim₁.expectedEvaluation = subclaim₂.expectedEvaluation)

/-- `read_challenges`. -/
def readChallenges (D : DpCrypto F) (t : D.Transcript) : Nat → List F × D.Transcript
  | 0 => ([], t)
  | n + 1 =>
    let (c, t) := D.challengeScalar t
    let (cs, t) := readChallenges D t n
    (c :: cs, t)

/-- The label of the challenge of a table. -/
def TableType.challengeLabel : TableType → String
  | .geLU => "GeLU"
  | .siLU => "SiLU"
  | .reLU => "ReLU"
  | .requantise => "Requantise"
  | .exp => "Exp"
  | .zeroCheck => "Zero"
  | .signedZeroCheck => "SignedZero"
  | .shiftCheck => "ShiftCheck"

namespace ChallengeStorage

variable (D : DpCrypto F) (fl : Float32Ops)

/-- `ChallengeStorage::default`. -/
def default [Zero F] : ChallengeStorage F := ⟨0, ∅⟩

/-- The challenge of one table, `generate_challenge`. -/
def addTable (acc : HashMap String F × D.Transcript) (table : Table) :
    HashMap String F × D.Transcript :=
  let (challenge, t) := D.appendAndSample acc.2 table.operation.challengeLabel
  (acc.1.insert (table.name fl) challenge, t)

/-- `ChallengeStorage::initialise`. -/
def initialise (ctx : LookupContext) (t : D.Transcript) : ChallengeStorage F × D.Transcript :=
  let (constantChallenge, t) := D.appendAndSample t "table_constant"
  let (challengeMap, t) := ctx.iter.foldl (addTable D fl) (∅, t)
  (⟨constantChallenge, challengeMap⟩, t)

end ChallengeStorage

namespace TranscriptLog

variable {D : DpCrypto F} {A : Appender D C} (T : TranscriptLog D A)

/-- `t'` is `t` with more appended to it. -/
def Extends (t t' : D.Transcript) : Prop := T.log t <+: T.log t'

variable {T}

theorem Extends.refl (t : D.Transcript) : T.Extends t t := List.prefix_refl _

theorem Extends.trans {t₁ t₂ t₃ : D.Transcript} (h : T.Extends t₁ t₂) (h' : T.Extends t₂ t₃) :
    T.Extends t₁ t₃ := List.IsPrefix.trans h h'

theorem Extends.isPrefix {t t' : D.Transcript} {whole : List (Entry F C)} (h : T.Extends t t')
    (hw : T.log t' <+: whole) : T.log t <+: whole := List.IsPrefix.trans h hw

theorem extends_of_append {t t' : D.Transcript} {entries : List (Entry F C)}
    (h : T.log t' = T.log t ++ entries) : T.Extends t t' := by
  rw [Extends, h]
  exact List.prefix_append _ _

theorem length_readChallenges (t : D.Transcript) (n : Nat) :
    (readChallenges D t n).1.length = n := by
  induction n generalizing t with
  | zero => rfl
  | succ n ih =>
    rw [readChallenges, List.length_cons]
    exact congrArg (· + 1) (ih _)

theorem log_readChallenges (t : D.Transcript) (n : Nat) :
    T.log (readChallenges D t n).2 = T.log t ++ List.replicate n .challenge := by
  induction n generalizing t with
  | zero => exact (List.append_nil _).symm
  | succ n ih =>
    have hrest := ih (D.challengeScalar t).2
    rw [T.challengeScalar, List.append_assoc] at hrest
    exact hrest

theorem readChallenges_extends (t : D.Transcript) (n : Nat) :
    T.Extends t (readChallenges D t n).2 := extends_of_append (log_readChallenges t n)

theorem foldl_addTable_extends (fl : Float32Ops) (tables : List Table)
    (acc : HashMap String F × D.Transcript) :
    T.Extends acc.2 (tables.foldl (ChallengeStorage.addTable D fl) acc).2 := by
  induction tables generalizing acc with
  | nil => exact Extends.refl _
  | cons table tables ih =>
    have htable : T.Extends acc.2 (ChallengeStorage.addTable D fl acc table).2 :=
      extends_of_append (T.appendAndSample _ _)
    exact htable.trans (ih _)

theorem initialise_extends (fl : Float32Ops) (ctx : LookupContext) (t : D.Transcript) :
    T.Extends t (ChallengeStorage.initialise D fl ctx t).2 := by
  have hconstant : T.Extends t (D.appendAndSample t "table_constant").2 :=
    extends_of_append (T.appendAndSample _ _)
  exact hconstant.trans (foldl_addTable_extends fl ctx.iter
    (∅, (D.appendAndSample t "table_constant").2))

end TranscriptLog

end DeepProve
