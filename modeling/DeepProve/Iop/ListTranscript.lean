import DeepProve.Iop.Transcript

/-!
# A transcript that is a list

The transcript of the model, built: a list of entries, with any function of the list for the
challenges. In each round of a sumcheck the values of a polynomial are appended and a challenge is
drawn. Over an infinite field the challenge may be an injective function of the list.
-/

namespace DeepProve

variable {F C : Type} [Field F] [DecidableEq F]

/-- The rounds of a sumcheck. A message gives the values of the polynomial of the round, of which
    `roundValue` computes the value at the challenge. -/
def listSumcheck (challenge : List (Entry F C) → F) (roundValue : List F → F → F)
    (claim : F) (point : List F) (t : List (Entry F C)) :
    List (List F) → Outcome (SumcheckSubclaim F × List (Entry F C))
  | [] => .ok (⟨point, claim⟩, t)
  | message :: rounds =>
    if message.getD 0 0 + message.getD 1 0 = claim then
      let r := challenge (t ++ [.scalars message])
      listSumcheck challenge roundValue (roundValue message r) (point ++ [r])
        (t ++ [.scalars message, .challenge]) rounds
    else
      .error (.panic "sumcheck round failed")

/-- The library over transcripts that are lists. -/
@[reducible]
def listCrypto (C : Type) (challenge : List (Entry F C) → F) (roundValue : List F → F → F) :
    DpCrypto F where
  Transcript := List (Entry F C)
  appendScalars t xs := t ++ [.scalars xs]
  appendAndSample t name := (challenge (t ++ [.label name]), t ++ [.label name, .challenge])
  challengeScalar t := (challenge t, t ++ [.challenge])
  Expression := PlainExpression F
  constant := .constant
  challenge := .challenge
  witIn := .witIn
  add := .add
  sub := .sub
  mul := .mul
  neg := .neg
  evalByExprWithInstance _ witness _ _ challenges e := e.eval witness challenges
  IOPProof := List (List F)
  verifySumcheck claim rounds aux t :=
    if rounds.length = aux.maxNumVariables then
      listSumcheck challenge roundValue claim [] t rounds
    else
      .error (.panic "wrong number of rounds")
  log2Strict n :=
    if n = 2 ^ Nat.log2 n then .ok (Nat.log2 n) else .error (.panic "not a power of two")

/-- Each call appends one entry. -/
@[reducible]
def listAppender (challenge : List (Entry F C) → F) (roundValue : List F → F → F) :
    Appender (listCrypto C challenge roundValue) C where
  appendBytes t payload := t ++ [.bytes payload]
  appendCommitment t c := t ++ [.commitment c]

variable {challenge : List (Entry F C) → F} {roundValue : List F → F → F}

/-- A sumcheck appends its messages; its point depends on nothing else. -/
theorem listSumcheck_eq_ok {claim : F} {point : List F} {t t' : List (Entry F C)}
    {rounds : List (List F)} {subclaim : SumcheckSubclaim F}
    (h : listSumcheck challenge roundValue claim point t rounds = .ok (subclaim, t')) :
    t' = t ++ rounds.flatMap (fun message => [.scalars message, .challenge]) ∧
      subclaim.point.length = point.length + rounds.length := by
  induction rounds generalizing claim point t with
  | nil =>
    obtain ⟨rfl, rfl⟩ := Prod.mk.inj (Except.ok.inj h)
    simp
  | cons message rounds ih =>
    unfold listSumcheck at h
    split at h
    · obtain ⟨ht', hlength⟩ := ih h
      rw [ht', hlength, List.flatMap_cons, List.append_assoc, List.length_append,
        List.length_singleton, List.length_cons]
      exact ⟨rfl, by omega⟩
    · cases h

/-- Two sumchecks with the same messages end at the same point. -/
theorem listSumcheck_point {claim₁ claim₂ : F} {point : List F} {t t₁ t₂ : List (Entry F C)}
    {rounds : List (List F)} {subclaim₁ subclaim₂ : SumcheckSubclaim F}
    (h₁ : listSumcheck challenge roundValue claim₁ point t rounds = .ok (subclaim₁, t₁))
    (h₂ : listSumcheck challenge roundValue claim₂ point t rounds = .ok (subclaim₂, t₂)) :
    subclaim₁.point = subclaim₂.point := by
  cases rounds with
  | nil =>
    obtain ⟨rfl, -⟩ := Prod.mk.inj (Except.ok.inj h₁)
    obtain ⟨rfl, -⟩ := Prod.mk.inj (Except.ok.inj h₂)
    rfl
  | cons message rounds =>
    -- after the first round the claim is the value of the same message
    unfold listSumcheck at h₁ h₂
    split at h₁
    · split at h₂
      · rw [(Prod.mk.inj (Except.ok.inj (h₁.symm.trans h₂))).1]
      · cases h₂
    · cases h₁

omit [Field F] [DecidableEq F] in
theorem flatMap_messages_injective {ms₁ ms₂ : List (List F)}
    (h : ms₁.flatMap (fun message => [(.scalars message : Entry F C), .challenge]) =
      ms₂.flatMap fun message => [.scalars message, .challenge]) : ms₁ = ms₂ := by
  induction ms₁ generalizing ms₂ with
  | nil =>
    cases ms₂ with
    | nil => rfl
    | cons m ms => simp at h
  | cons m ms ih =>
    cases ms₂ with
    | nil => simp at h
    | cons m' ms' =>
      simp only [List.flatMap_cons, List.cons_append, List.nil_append, List.cons.injEq,
        Entry.scalars.injEq, true_and] at h
      rw [h.1, ih h.2]

/-- The transcript is its own list. -/
def listTranscript (challenge : List (Entry F C) → F) (roundValue : List F → F → F) :
    TranscriptLog (listCrypto C challenge roundValue) (listAppender challenge roundValue) where
  log t := t
  injective := Function.injective_id
  appendScalars _ _ := rfl
  appendAndSample _ _ := rfl
  challengeScalar _ := rfl
  appendBytes _ _ := rfl
  appendCommitment _ _ := rfl
  sumcheckAppends := by
    intro sum rounds aux t subclaim t' h
    dsimp only at h
    split at h
    · rename_i hrounds
      obtain ⟨ht', hlength⟩ := listSumcheck_eq_ok h
      rw [ht', hlength, ← hrounds]
      exact ⟨List.prefix_append _ _, by simp⟩
    · cases h
  sumcheckDelimited := by
    intro sum₁ rounds₁ sum₂ rounds₂ aux t subclaim₁ t₁ subclaim₂ t₂ whole h₁ h₂ hw₁ hw₂
    dsimp only at h₁ h₂
    split at h₁
    · rename_i hrounds₁
      split at h₂
      · rename_i hrounds₂
        obtain ⟨ht₁, -⟩ := listSumcheck_eq_ok h₁
        obtain ⟨ht₂, -⟩ := listSumcheck_eq_ok h₂
        have hlength : t₁.length = t₂.length := by
          rw [ht₁, ht₂]
          simp [hrounds₁, hrounds₂]
        have heq : t₁ = t₂ := by
          rw [List.prefix_iff_eq_take.mp hw₁, List.prefix_iff_eq_take.mp hw₂, hlength]
        have hmessages := ht₁.symm.trans (heq.trans ht₂)
        obtain rfl := flatMap_messages_injective (List.append_cancel_left hmessages)
        refine ⟨heq, listSumcheck_point h₁ h₂, fun hsum => ?_⟩
        rw [hsum] at h₁
        rw [(Prod.mk.inj (Except.ok.inj (h₁.symm.trans h₂))).1]
      · cases h₂
    · cases h₁

/-- An entry as a list of numbers, after a tag. -/
private def entryCode : Entry ℚ Unit → Nat × List Nat × List ℚ
  | .bytes payload => (0, payload, [])
  | .label name => (1, name.toList.map Char.toNat, [])
  | .scalars xs => (2, [], xs)
  | .commitment _ => (3, [], [])
  | .challenge => (4, [], [])

private def entryOfCode : Nat × List Nat × List ℚ → Entry ℚ Unit
  | (0, payload, _) => .bytes payload
  | (1, name, _) => .label (String.ofList (name.map Char.ofNat))
  | (2, _, xs) => .scalars xs
  | (3, _, _) => .commitment ()
  | _ => .challenge

private theorem entryOfCode_entryCode : Function.LeftInverse entryOfCode entryCode := by
  intro e
  cases e with
  | label name =>
    have hchars : (name.toList.map Char.toNat).map Char.ofNat = name.toList := by
      rw [List.map_map]
      exact (List.map_congr_left fun c _ => Char.ofNat_toNat c).trans (List.map_id _)
    show Entry.label (String.ofList ((name.toList.map Char.toNat).map Char.ofNat)) = .label name
    rw [hchars, String.ofList_toList]
  | bytes payload => rfl
  | scalars xs => rfl
  | commitment c => rfl
  | challenge => rfl

/-- Over the rational numbers a challenge may determine the list it is drawn from. -/
theorem exists_injective_challenge :
    ∃ challenge : List (Entry ℚ Unit) → ℚ, Function.Injective challenge := by
  have : Countable (Entry ℚ Unit) := entryOfCode_entryCode.injective.countable
  obtain ⟨code, hcode⟩ := exists_injective_nat (List (Entry ℚ Unit))
  exact ⟨fun t => (code t : ℚ), Nat.cast_injective.comp hcode⟩

end DeepProve
