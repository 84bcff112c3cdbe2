import DeepProve.Llm.Verify

/-!
# The generation of a text

`Driver::run_elements` of `model/llm.rs`, as it runs when the results are collected in order. The
model is a function from the tokens so far to the next token, the same for a cached run as for a
run on the whole text.
-/

namespace DeepProve

open LLMVerifierContext

/-- `from_usize` of an `i64`. -/
def fromUsize (u : Nat) : Int := if u < 2 ^ 63 then u else u - 2 ^ 64

/-- The tokens that the loop generates, one after the other. -/
def generate (next : List Int → Int) (prompt : List Int) : Nat → List Int
  | 0 => []
  | k + 1 => generate next prompt k ++ [next (prompt ++ generate next prompt k)]

/-- The results thread: the tokens up to the one that ends the text. Without such a token the last
    one is removed. -/
def resultsThread (eosToken : Int) (generatedTokens : List Int) : List Int → List Int
  | [] => generatedTokens.dropLast
  | token :: rest =>
    if token = eosToken then
      generatedTokens
    else
      resultsThread eosToken (generatedTokens ++ [token]) rest

/-- The input and the output of an inference. -/
structure LlmTrace where
  input : List Int
  output : List Int

structure Driver where
  next : List Int → Int
  contextLength : Nat
  vocabSize : Nat
  eosToken : Nat
  maxContext : Option Nat

namespace Driver

variable (self : Driver)

def maxWindow : Nat := self.maxContext.getD self.contextLength

/-- What the verifier knows of the driver. -/
def verifierContext : LLMVerifierContext := ⟨self.contextLength, self.eosToken, self.maxContext⟩

/-- The text on which the final inference is run. -/
def sentence (prompt : List Int) : List Int :=
  prompt ++ resultsThread (fromUsize self.eosToken) []
    (generate self.next prompt (self.maxWindow + 1 - prompt.length))

/-- The final inference, on the whole text. -/
def runFull (sentence : List Int) : LlmTrace :=
  ⟨sentence, (List.range sentence.length).map fun i => self.next (sentence.take (i + 1))⟩

/-- The final inference puts out the tokens that have been generated. -/
def checkShifted (trace : LlmTrace) (i : Nat) : Outcome Unit := do
  let output ← unwrap trace.output[i - 1]? "index out of bounds"
  let input ← unwrap trace.input[i]? "index out of bounds"
  if output = input then .ok () else .error (.panic s!"Failed for {i}")

/-- `run_elements`. -/
def runElements (inputTensor : List Int) : Outcome LlmTrace := do
  let numInputTokens := inputTensor.length
  let limit ← usizeSub self.contextLength 1
  ensure (decide (numInputTokens < limit))
    "Input sequence length must be at least one fewer than the context length"
  ensure (decide (numInputTokens ≤ self.maxWindow))
    s!"max window {self.maxWindow} is smaller than prompt token count {numInputTokens}"
  ensure (inputTensor.all fun token => decide (toUsize token < self.vocabSize))
    "Input tokens must be less than the vocabulary size"
  -- the position of the last token in the first output
  let _ ← usizeSub numInputTokens 1
  let fullSentence := self.sentence inputTensor
  let trace := self.runFull fullSentence
  (List.range' numInputTokens (fullSentence.length - numInputTokens)).forM (checkShifted trace)
  .ok trace

end Driver

/-- `pad_next_power_of_two`, and `to_field`. -/
def paddedTensor (p : Nat) (data : List Int) : IoTensor (ZMod p) where
  data := (data ++ List.replicate (nextPowerOfTwo data.length - data.length) 0).map
    fun element : Int => (element : ZMod p)
  shape := [nextPowerOfTwo data.length]

/-- `to_verifier_io`. -/
def LlmTrace.toVerifierIo (p : Nat) (self : LlmTrace) : InferenceIo (ZMod p) where
  input := [paddedTensor p self.input]
  output := [paddedTensor p self.output]

/-! ## The tokens that are generated -/

section Generate

variable {next : List Int → Int} {prompt : List Int}

@[simp] theorem length_generate (k : Nat) : (generate next prompt k).length = k := by
  induction k with
  | zero => rfl
  | succ k ih => rw [generate, List.length_append, ih, List.length_singleton]

theorem take_generate {k m : Nat} (h : k ≤ m) :
    (generate next prompt m).take k = generate next prompt k := by
  induction m with
  | zero =>
    obtain rfl := Nat.le_zero.mp h
    rfl
  | succ m ih =>
    rcases Nat.lt_or_ge m k with hlt | hge
    · obtain rfl : k = m + 1 := by omega
      rw [List.take_of_length_le (length_generate (m + 1)).le]
    · rw [generate, List.take_append_of_le_length (by rw [length_generate]; exact hge), ih hge]

theorem getElem?_generate {k m : Nat} (h : k < m) :
    (generate next prompt m)[k]? = some (next (prompt ++ generate next prompt k)) := by
  rw [← List.getElem?_take_of_lt (Nat.lt_succ_self k), take_generate h, generate,
    List.getElem?_append_right (length_generate k).le, length_generate, Nat.sub_self]
  rfl

/-- The tokens that are collected in order. -/
theorem resultsThread_eq_takeWhile (eosToken : Int) (generatedTokens tokens : List Int) :
    resultsThread eosToken generatedTokens tokens =
      if eosToken ∈ tokens then generatedTokens ++ tokens.takeWhile (· ≠ eosToken)
      else (generatedTokens ++ tokens).dropLast := by
  induction tokens generalizing generatedTokens with
  | nil => simp [resultsThread]
  | cons token rest ih =>
    rw [resultsThread]
    by_cases heos : token = eosToken
    · simp [heos]
    · simp [heos, ih, Ne.symm heos]

/-- Where the results thread stops. -/
theorem resultsThread_eq (eosToken : Int) {tokens : List Int} (h : tokens ≠ [])
    (generatedTokens : List Int) :
    ∃ k < tokens.length, resultsThread eosToken generatedTokens tokens =
        generatedTokens ++ tokens.take k ∧
      (∀ (j : Nat), j < k → tokens[j]? ≠ some eosToken) ∧
      (tokens[k]? = some eosToken ∨ k + 1 = tokens.length) := by
  rw [resultsThread_eq_takeWhile]
  by_cases heos : eosToken ∈ tokens
  · have hlt := List.idxOf_lt_length_of_mem heos
    refine ⟨tokens.idxOf eosToken, hlt, ?_, fun j hj heq => ?_, .inl ?_⟩
    · rw [if_pos heos, List.takeWhile_eq_take_findIdx_not, List.idxOf]
      congr 3
      funext token
      simp [beq_eq_decide]
    · obtain ⟨hj', heq⟩ := List.getElem?_eq_some_iff.mp heq
      exact beq_eq_false_iff_ne.mp (List.not_of_lt_findIdx hj) heq
    · rw [List.getElem?_eq_getElem hlt, List.getElem_idxOf]
  · have hpos := List.length_pos_of_ne_nil h
    refine ⟨tokens.length - 1, by omega, ?_, fun j _ heq => heos (List.mem_of_getElem? heq),
      .inr (by omega)⟩
    rw [if_neg heos, List.dropLast_append_of_ne_nil h, List.dropLast_eq_take]

end Generate

namespace Driver

variable {self : Driver} {prompt : List Int}

/-- The token that is generated after `k` others. -/
def token (self : Driver) (prompt : List Int) (k : Nat) : Int :=
  self.next (prompt ++ generate self.next prompt k)

/-- The text ends before the first token that ends it, or before the last token. -/
theorem sentence_eq (hwindow : prompt.length ≤ self.maxWindow) :
    ∃ k, prompt.length + k ≤ self.maxWindow ∧
      self.sentence prompt = prompt ++ generate self.next prompt k ∧
      (∀ j < k, self.token prompt j ≠ fromUsize self.eosToken) ∧
      (self.token prompt k = fromUsize self.eosToken ∨ prompt.length + k = self.maxWindow) := by
  have hpos : generate self.next prompt (self.maxWindow + 1 - prompt.length) ≠ [] := by
    rw [ne_eq, ← List.length_eq_zero_iff, length_generate]
    omega
  obtain ⟨k, hk, hresult, hbefore, hend⟩ := resultsThread_eq (fromUsize self.eosToken) hpos []
  rw [length_generate] at hk hend
  refine ⟨k, by omega, ?_, fun j hj heq => ?_, ?_⟩
  · rw [sentence, hresult, List.nil_append, take_generate hk.le]
  · apply hbefore j hj
    rw [getElem?_generate (by omega)]
    exact congrArg some heq
  · rcases hend with heos | hlast
    · rw [getElem?_generate hk] at heos
      exact .inl (Option.some.inj heos)
    · right
      omega

variable {k : Nat}

/-- The outputs of the final inference at the end of the text are the generated tokens. -/
theorem getElem?_output (hprompt : prompt ≠ []) {j : Nat} (hj : j ≤ k) :
    (self.runFull (prompt ++ generate self.next prompt k)).output[prompt.length - 1 + j]? =
      some (self.token prompt j) := by
  have hpos : 0 < prompt.length := List.length_pos_iff.mpr hprompt
  have hlt : prompt.length - 1 + j < (prompt ++ generate self.next prompt k).length := by
    rw [List.length_append, length_generate]
    omega
  have htake : (prompt ++ generate self.next prompt k).take (prompt.length - 1 + j + 1) =
      prompt ++ generate self.next prompt j := by
    have hidx : prompt.length - 1 + j + 1 = prompt.length + j := by omega
    rw [hidx, List.take_length_add_append, take_generate hj]
  rw [runFull, List.getElem?_map, List.getElem?_range hlt, Option.map_some, htake]
  rfl

/-- The text goes on with these outputs. -/
theorem getElem?_input {j : Nat} (hj : j < k) :
    (prompt ++ generate self.next prompt k)[prompt.length + j]? = some (self.token prompt j) := by
  rw [List.getElem?_append_right (Nat.le_add_right _ _), Nat.add_sub_cancel_left,
    getElem?_generate hj]
  rfl

/-- What `run_elements` returns; its own checks of the final inference pass. -/
theorem runElements_eq_ok {trace : LlmTrace} :
    self.runElements prompt = .ok trace ↔
      prompt.length < self.contextLength - 1 ∧ prompt.length ≤ self.maxWindow ∧
        (∀ token ∈ prompt, toUsize token < self.vocabSize) ∧ prompt ≠ [] ∧
        trace = self.runFull (self.sentence prompt) := by
  unfold runElements
  simp only [Outcome.bind_eq_ok, usizeSub_eq_ok, ensure_eq_ok, decide_eq_true_eq, List.all_eq_true,
    Except.ok.injEq]
  constructor
  · intro ⟨limit, ⟨_, hlimit⟩, _, hlength, _, hwindow, _, hvocab, _, ⟨hpos, _⟩, _, _, htrace⟩
    exact ⟨hlimit ▸ hlength, hwindow, hvocab, List.length_pos_iff.mp hpos, htrace.symm⟩
  · intro ⟨hlength, hwindow, hvocab, hprompt, htrace⟩
    have hpos : 1 ≤ prompt.length := List.length_pos_iff.mpr hprompt
    refine ⟨_, ⟨by omega, rfl⟩, (), hlength, (), hwindow, (), hvocab, _, ⟨hpos, rfl⟩, (), ?_,
      htrace.symm⟩
    obtain ⟨k, _, hsentence, _⟩ := sentence_eq hwindow
    rw [hsentence, List.forM_eq_forM, Outcome.forM_eq_ok]
    intro i hi
    rw [List.mem_range'_1, List.length_append, length_generate] at hi
    have hout := @getElem?_output self prompt k hprompt (i - prompt.length) (by omega)
    have hin := @getElem?_input self prompt k (i - prompt.length) (by omega)
    have hprev : prompt.length - 1 + (i - prompt.length) = i - 1 := by omega
    have hidx : prompt.length + (i - prompt.length) = i := by omega
    rw [hprev] at hout
    rw [hidx] at hin
    unfold checkShifted
    have hin' : (self.runFull (prompt ++ generate self.next prompt k)).input[i]? = some _ := hin
    rw [hout, hin', unwrap_some, Outcome.ok_bind, Outcome.ok_bind, if_pos rfl]

end Driver

/-! ## Tokens as field elements -/

section Tokens

variable {p : Nat}

/-- An element is read back from the field. -/
theorem toElement_intCast (hp : 2 ^ 64 < p) {x : Int} (hlow : -2 ^ 63 < x) (hhigh : x < 2 ^ 63) :
    toElement (x : ZMod p) = .ok x := by
  have : NeZero p := ⟨by omega⟩
  have hval : ((x : ZMod p).val : Int) = x % p := ZMod.val_intCast x
  unfold toElement
  rcases Int.lt_or_le x 0 with hneg | hpos
  · have hmod : x % (p : Int) = x + p := by
      rw [← Int.add_mul_emod_self_left x p 1, mul_one, Int.emod_eq_of_lt (by omega) (by omega)]
    rw [hmod] at hval
    have hnegative : (p - 1) / 2 < (x : ZMod p).val := by omega
    simp only [hnegative, if_true]
    rw [if_pos (by omega)]
    congr 1
    omega
  · rw [Int.emod_eq_of_lt hpos (by omega)] at hval
    have hnot : ¬ (p - 1) / 2 < (x : ZMod p).val := by omega
    simp only [hnot, if_false]
    rw [if_pos (by omega), hval]

theorem tokenOf_intCast (hp : 2 ^ 64 < p) {x : Int} (hlow : -2 ^ 63 < x) (hhigh : x < 2 ^ 63) :
    tokenOf (x : ZMod p) = .ok (toUsize x) := by
  unfold tokenOf
  rw [toElement_intCast hp hlow hhigh]
  rfl

/-- The least `i64` is not read back. -/
theorem tokenOf_min (hp : 2 ^ 64 < p) : tokenOf ((-2 ^ 63 : Int) : ZMod p) =
    .error (.panic "Trying to convert to Element a field element grater than Element::MAX") := by
  have : NeZero p := ⟨by omega⟩
  have hval : (((-2 ^ 63 : Int) : ZMod p).val : Int) = (-2 ^ 63) % p := ZMod.val_intCast _
  have hmod : (-2 ^ 63 : Int) % (p : Int) = -2 ^ 63 + p := by
    rw [← Int.add_mul_emod_self_left _ (p : Int) 1, mul_one, Int.emod_eq_of_lt (by omega) (by omega)]
  rw [hmod] at hval
  have hnegative : (p - 1) / 2 < ((-2 ^ 63 : Int) : ZMod p).val := by omega
  unfold tokenOf toElement
  simp only [hnegative, if_true]
  rw [if_neg (by omega)]
  rfl

theorem toUsize_fromUsize {u : Nat} (hu : u < 2 ^ 64) : toUsize (fromUsize u) = u := by
  unfold toUsize fromUsize
  split <;> omega

theorem fromUsize_toUsize {x : Int} (hlow : -2 ^ 63 < x) (hhigh : x < 2 ^ 63) :
    fromUsize (toUsize x) = x := by
  unfold toUsize fromUsize
  split <;> omega

/-- The data of a padded tensor. -/
theorem getElem?_paddedTensor {data : List Int} {i : Nat} {x : Int} (h : data[i]? = some x) :
    (paddedTensor p data).data[i]? = some (x : ZMod p) := by
  obtain ⟨hi, _⟩ := List.getElem?_eq_some_iff.mp h
  rw [paddedTensor, List.getElem?_map, List.getElem?_append_left hi, h]
  rfl

end Tokens

namespace Driver

variable {self : Driver} {p : Nat} {userInput : List Nat}

/-- The tensor of the text starts with the tokens of the user, if they can be read back. -/
theorem startsWith_user_iff (hp : 2 ^ 64 < p) (huser : ∀ token ∈ userInput, token < 2 ^ 64)
    (generated : List Int) :
    StartsWith (paddedTensor p (userInput.map fromUsize ++ generated)).data userInput ↔
      2 ^ 63 ∉ userInput := by
  have hget : ∀ (i : Nat) (token : Nat), userInput[i]? = some token →
      (paddedTensor p (userInput.map fromUsize ++ generated)).data[i]? =
        some ((fromUsize token : Int) : ZMod p) := by
    intro i token htoken
    obtain ⟨hi, _⟩ := List.getElem?_eq_some_iff.mp htoken
    apply getElem?_paddedTensor
    rw [List.getElem?_append_left (by rw [List.length_map]; exact hi), List.getElem?_map, htoken]
    rfl
  constructor
  · intro hstarts hmem
    obtain ⟨i, hi⟩ := List.getElem?_of_mem hmem
    have htoken := hstarts.2 i _ _ (hget i _ hi) hi
    have hmin : fromUsize (2 ^ 63) = -2 ^ 63 := by decide
    rw [hmin, tokenOf_min hp] at htoken
    cases htoken
  · intro hmin
    constructor
    · rw [paddedTensor, List.length_map, List.length_append, List.length_append, List.length_map]
      omega
    · intro i x token hx htoken
      have hmem := List.mem_of_getElem? htoken
      have hne : token ≠ 2 ^ 63 := fun h => hmin (h ▸ hmem)
      have hlt := huser token hmem
      have hrange : -2 ^ 63 < fromUsize token ∧ fromUsize token < 2 ^ 63 := by
        unfold fromUsize
        split <;> omega
      rw [hget i token htoken] at hx
      rw [← Option.some.inj hx, tokenOf_intCast hp hrange.1 hrange.2, toUsize_fromUsize hlt]

/-- Whether a generated token ends the text, for the verifier. -/
theorem isEos_token (hp : 2 ^ 64 < p) {x : Int} (hlow : -2 ^ 63 < x) (hhigh : x < 2 ^ 63)
    (heos : self.eosToken < 2 ^ 64) :
    self.verifierContext.isEos (x : ZMod p) = .ok (decide (x = fromUsize self.eosToken)) := by
  unfold LLMVerifierContext.isEos
  rw [tokenOf_intCast hp hlow hhigh, Outcome.ok_bind]
  congr 1
  rw [Bool.eq_iff_iff, beq_iff_eq, decide_eq_true_eq]
  constructor
  · intro h
    have h : toUsize x = self.eosToken := h
    rw [← h, fromUsize_toUsize hlow hhigh]
  · intro h
    rw [h, toUsize_fromUsize heos]
    rfl

/-- Where the verifier finds the end of a generated text. -/
theorem unpaddedOutputLen_token (hp : 2 ^ 64 < p) (heos : self.eosToken < 2 ^ 64)
    (hnext : ∀ tokens, -2 ^ 63 < self.next tokens ∧ self.next tokens < 2 ^ 63)
    (huser : userInput ≠ []) {k : Nat} (hk : userInput.length + k ≤ self.maxWindow)
    (hbefore : ∀ j < k, self.token (userInput.map fromUsize) j ≠ fromUsize self.eosToken)
    (hend : self.token (userInput.map fromUsize) k = fromUsize self.eosToken ∨
      userInput.length + k = self.maxWindow) :
    self.verifierContext.unpaddedOutputLen userInput (paddedTensor p (self.runFull
        (userInput.map fromUsize ++ generate self.next (userInput.map fromUsize) k)).output) =
      .ok (if self.token (userInput.map fromUsize) k = fromUsize self.eosToken then k
        else self.maxWindow) := by
  have hpos : 1 ≤ userInput.length := List.length_pos_iff.mpr huser
  have hprompt : userInput.map fromUsize ≠ [] := fun h => huser (List.map_eq_nil_iff.mp h)
  -- the tokens that are looked at
  have hdata : ∀ j ≤ k, (((paddedTensor p (self.runFull (userInput.map fromUsize ++
      generate self.next (userInput.map fromUsize) k)).output).data.take self.maxWindow).drop
        (userInput.length - 1))[j]? =
          some ((self.token (userInput.map fromUsize) j : Int) : ZMod p) := by
    intro j hj
    have hout := @getElem?_output self _ _ hprompt _ hj
    rw [List.length_map] at hout
    exact getElem?_drop_take.mpr ⟨by omega, getElem?_paddedTensor hout⟩
  have htoken : ∀ j, self.verifierContext.isEos
      ((self.token (userInput.map fromUsize) j : Int) : ZMod p) =
        .ok (decide (self.token (userInput.map fromUsize) j = fromUsize self.eosToken)) :=
    fun j => isEos_token hp (hnext _).1 (hnext _).2 heos
  have hskip : usizeSub userInput.length 1 = .ok (userInput.length - 1) :=
    usizeSub_eq_ok.mpr ⟨hpos, rfl⟩
  unfold unpaddedOutputLen
  rw [hskip, Outcome.ok_bind]
  by_cases hlast : self.token (userInput.map fromUsize) k = fromUsize self.eosToken
  · have hfound : findPosition self.verifierContext.isEos (((paddedTensor p (self.runFull
        (userInput.map fromUsize ++ generate self.next (userInput.map fromUsize) k)).output).data.take
          self.maxWindow).drop (userInput.length - 1)) = .ok (some k) := by
      refine findPosition_eq_some.mpr ⟨⟨_, hdata k le_rfl, ?_⟩, fun j hj => ⟨_, hdata j hj.le, ?_⟩⟩
      · rw [htoken, decide_eq_true hlast]
      · rw [htoken, decide_eq_false (hbefore j hj)]
    rw [if_pos hlast]
    exact (congrArg (· >>= _) hfound).trans rfl
  · have hwindow := hend.resolve_left hlast
    have hnone : findPosition self.verifierContext.isEos (((paddedTensor p (self.runFull
        (userInput.map fromUsize ++ generate self.next (userInput.map fromUsize) k)).output).data.take
          self.maxWindow).drop (userInput.length - 1)) = .ok none := by
      rw [findPosition_eq_none]
      intro x hx
      obtain ⟨j, hj⟩ := List.getElem?_of_mem hx
      have hjk : j ≤ k := by
        have hlt := (getElem?_drop_take.mp hj).1
        omega
      rw [hdata j hjk] at hj
      rw [← Option.some.inj hj, htoken, decide_eq_false]
      rcases Nat.lt_or_eq_of_le hjk with hlt | rfl
      · exact hbefore j hlt
      · exact hlast
    rw [if_neg hlast]
    exact (congrArg (· >>= _) hnone).trans rfl

/-- A generated text is accepted exactly if its first token does not end it, and the tokens of the
    user can be read back. -/
theorem verify_toVerifierIo_iff {inner : InferenceIo (ZMod p) → Outcome Unit} {trace : LlmTrace}
    (hp : 2 ^ 64 < p) (heos : self.eosToken < 2 ^ 64)
    (hnext : ∀ tokens, -2 ^ 63 < self.next tokens ∧ self.next tokens < 2 ^ 63)
    (huser : ∀ token ∈ userInput, token < 2 ^ 64)
    (hrun : self.runElements (userInput.map fromUsize) = .ok trace)
    (hinner : inner (trace.toVerifierIo p) = .ok ()) :
    self.verifierContext.verify inner userInput (trace.toVerifierIo p) = .ok () ↔
      self.next (userInput.map fromUsize) ≠ fromUsize self.eosToken ∧ 2 ^ 63 ∉ userInput := by
  obtain ⟨_, hwindow, _, hprompt, rfl⟩ := runElements_eq_ok.mp hrun
  obtain ⟨k, hk, hsentence, hbefore, hend⟩ := sentence_eq hwindow
  rw [hsentence] at hinner ⊢
  have hlength : (userInput.map fromUsize).length = userInput.length := List.length_map _
  have hne : userInput ≠ [] := fun h => hprompt (by rw [h]; rfl)
  have hpos : 1 ≤ userInput.length := List.length_pos_iff.mpr hne
  rw [hlength] at hk hend
  have hfirst : self.next (userInput.map fromUsize) = self.token (userInput.map fromUsize) 0 := by
    rw [token, generate, List.append_nil]
  have hlen := unpaddedOutputLen_token (p := p) hp heos hnext hne hk hbefore hend
  -- the size of the output
  have hsize : (self.runFull (userInput.map fromUsize ++
      generate self.next (userInput.map fromUsize) k)).output.length = userInput.length + k := by
    rw [runFull, List.length_map, List.length_range, List.length_append, length_generate, hlength]
  have hfits : nextPowerOfTwo (userInput.length + k) ≤
      nextPowerOfTwo self.verifierContext.maxWindow :=
    Nat.pow_le_pow_right (by decide) (Nat.clog_mono_right 2 hk)
  have hcontinues : ∀ i, userInput.length - 1 ≤ i → i < userInput.length - 1 + k →
      Continues (paddedTensor p (userInput.map fromUsize ++
          generate self.next (userInput.map fromUsize) k)).data
        (paddedTensor p (self.runFull (userInput.map fromUsize ++
          generate self.next (userInput.map fromUsize) k)).output).data i := by
    intro i hlow hhigh
    have hout := @getElem?_output self _ k hprompt (i - (userInput.length - 1))
      (by omega)
    have hin := @getElem?_input self (userInput.map fromUsize) k
      (i - (userInput.length - 1)) (by omega)
    rw [hlength, Nat.add_sub_cancel' hlow] at hout
    have hidx : (userInput.map fromUsize).length + (i - (userInput.length - 1)) = i + 1 := by omega
    rw [hidx] at hin
    exact ⟨_, getElem?_paddedTensor hin, getElem?_paddedTensor hout⟩
  rw [hfirst]
  by_cases hlast : self.token (userInput.map fromUsize) k = fromUsize self.eosToken
  · rw [if_pos hlast] at hlen
    constructor
    · intro haccepted
      obtain ⟨_, _, len, proverInput, hlen', hinput, _, hstarts, hone, _⟩ :=
        (verify_eq_ok _).mp haccepted
      obtain rfl := Except.ok.inj (hlen.symm.trans hlen')
      obtain rfl := Option.some.inj hinput
      exact ⟨hbefore 0 hone, (startsWith_user_iff hp huser _).mp hstarts⟩
    · intro ⟨hgoes, hmin⟩
      have hone : 1 ≤ k := by
        rcases Nat.eq_zero_or_pos k with rfl | hk
        · exact absurd hlast hgoes
        · exact hk
      refine (verify_eq_ok _).mpr ⟨List.cons_ne_nil _ _, ?_, k, _, hlen, rfl, hinner,
        (startsWith_user_iff hp huser _).mpr hmin, hone, fun i hlow hhigh => ?_⟩
      · simpa [paddedTensor, Shape.numel, hsize] using hfits
      · exact hcontinues i hlow (by omega)
  · rw [if_neg hlast] at hlen
    have hwindow := hend.resolve_left hlast
    have hgoes : self.token (userInput.map fromUsize) 0 ≠ fromUsize self.eosToken := by
      rcases Nat.eq_zero_or_pos k with rfl | hk
      · exact hlast
      · exact hbefore 0 hk
    constructor
    · intro haccepted
      obtain ⟨_, _, _, proverInput, _, hinput, _, hstarts, _⟩ := (verify_eq_ok _).mp haccepted
      obtain rfl := Option.some.inj hinput
      exact ⟨hgoes, (startsWith_user_iff hp huser _).mp hstarts⟩
    · intro ⟨_, hmin⟩
      refine (verify_eq_ok _).mpr ⟨List.cons_ne_nil _ _, ?_, self.maxWindow, _, hlen, rfl, hinner,
        (startsWith_user_iff hp huser _).mpr hmin, by omega, fun i hlow hhigh => ?_⟩
      · simpa [paddedTensor, Shape.numel, hsize] using hfits
      · exact hcontinues i hlow (by omega)

end Driver

end DeepProve
