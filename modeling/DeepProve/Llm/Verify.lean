import DeepProve.Shape

/-!
# The verifier of a generated text

`LLMVerifierContext::verify` of `model/llm.rs`: the proof shows that the model takes the proven
input to the proven output, and the verifier checks that the input starts with the tokens of the
user and goes on with the tokens that the model has put out. The inner verifier is a parameter.

The end of the text is the first token that ends it, at or after the position of the last token of
the user. The code uses the number of tokens skipped up to it as if it were its position.
-/

namespace DeepProve

/-! ## Tokens -/

section Tokens

variable {p : Nat}

/-- `to_element`: the representative of least absolute value. -/
def toElement (x : ZMod p) : Outcome Int :=
  let isNegative := (p - 1) / 2 < x.val
  let abs := if isNegative then p - x.val else x.val
  if abs < 2 ^ 63 then
    .ok (if isNegative then -(abs : Int) else abs)
  else
    .error (.panic "Trying to convert to Element a field element grater than Element::MAX")

/-- `to_usize` of an `i64`. -/
def toUsize (element : Int) : Nat := (element % 2 ^ 64).toNat

/-- The token that a field element stands for. -/
def tokenOf (x : ZMod p) : Outcome Nat := do
  let element ← toElement x
  .ok (toUsize element)

end Tokens

/-- A tensor as it is given to the verifier. -/
structure IoTensor (F : Type) where
  data : List F
  shape : Shape

/-- What the verifier must have besides the proof. -/
structure InferenceIo (F : Type) where
  input : List (IoTensor F)
  output : List (IoTensor F)

/-- `find_position`. -/
def findPosition {α : Type} (f : α → Outcome Bool) : List α → Outcome (Option Nat)
  | [] => .ok none
  | x :: xs => do
    if ← f x then
      .ok (some 0)
    else
      let pos ← findPosition f xs
      .ok (pos.map (· + 1))

/-- `all`. -/
def allOf {α : Type} (f : α → Outcome Bool) : List α → Outcome Bool
  | [] => .ok true
  | x :: xs => do
    if ← f x then
      allOf f xs
    else
      .ok false

section Search

variable {α : Type} {f : α → Outcome Bool} {xs : List α}

theorem findPosition_eq_none : findPosition f xs = .ok none ↔ ∀ x ∈ xs, f x = .ok false := by
  induction xs with
  | nil => simp [findPosition]
  | cons x xs ih =>
    rw [findPosition, Outcome.bind_eq_ok, List.forall_mem_cons, ← ih]
    constructor
    · intro ⟨found, hx, h⟩
      cases found with
      | true => cases h
      | false =>
        obtain ⟨pos, hpos, hok⟩ := Outcome.bind_eq_ok.mp h
        rw [Option.map_eq_none_iff.mp (Except.ok.inj hok)] at hpos
        exact ⟨hx, hpos⟩
    · intro ⟨hx, hxs⟩
      refine ⟨false, hx, ?_⟩
      rw [if_neg (by decide), hxs]
      rfl

theorem findPosition_eq_some {k : Nat} : findPosition f xs = .ok (some k) ↔
    (∃ x, xs[k]? = some x ∧ f x = .ok true) ∧
      ∀ i < k, ∃ x, xs[i]? = some x ∧ f x = .ok false := by
  induction xs generalizing k with
  | nil => simp [findPosition]
  | cons x xs ih =>
    rw [findPosition, Outcome.bind_eq_ok]
    constructor
    · intro ⟨found, hx, h⟩
      cases found with
      | true =>
        obtain rfl := Option.some.inj (Except.ok.inj h)
        exact ⟨⟨x, rfl, hx⟩, fun i hi => absurd hi (Nat.not_lt_zero i)⟩
      | false =>
        obtain ⟨pos, hpos, hok⟩ := Outcome.bind_eq_ok.mp h
        obtain ⟨k, rfl, rfl⟩ := Option.map_eq_some_iff.mp (Except.ok.inj hok)
        obtain ⟨hfound, hbefore⟩ := ih.mp hpos
        refine ⟨hfound, fun i hi => ?_⟩
        cases i with
        | zero => exact ⟨x, rfl, hx⟩
        | succ i => exact hbefore i (Nat.lt_of_succ_lt_succ hi)
    · intro ⟨⟨y, hy, hfound⟩, hbefore⟩
      cases k with
      | zero =>
        obtain rfl := Option.some.inj hy
        exact ⟨true, hfound, rfl⟩
      | succ k =>
        obtain ⟨z, hz, hx⟩ := hbefore 0 (Nat.succ_pos k)
        obtain rfl := Option.some.inj hz
        have hrest := ih.mpr ⟨⟨y, hy, hfound⟩, fun i hi => hbefore (i + 1) (Nat.succ_lt_succ hi)⟩
        refine ⟨false, hx, ?_⟩
        rw [if_neg (by decide), hrest]
        rfl

theorem allOf_eq_true : allOf f xs = .ok true ↔ ∀ x ∈ xs, f x = .ok true := by
  induction xs with
  | nil => simp [allOf]
  | cons x xs ih =>
    rw [allOf, Outcome.bind_eq_ok, List.forall_mem_cons, ← ih]
    constructor
    · intro ⟨found, hx, h⟩
      cases found with
      | true => exact ⟨hx, h⟩
      | false => cases h
    · intro ⟨hx, hxs⟩
      exact ⟨true, hx, hxs⟩

end Search

structure LLMVerifierContext where
  contextLength : Nat
  eosToken : Nat
  maxContext : Option Nat

namespace LLMVerifierContext

variable {p : Nat} (self : LLMVerifierContext)

def maxWindow : Nat := self.maxContext.getD self.contextLength

/-- The token ends the text. -/
def isEos (x : ZMod p) : Outcome Bool := do
  let token ← tokenOf x
  .ok (token == self.eosToken)

/-- `output length`: the end of what is looked at in the output. -/
def unpaddedOutputLen (userInput : List Nat) (output : IoTensor (ZMod p)) : Outcome Nat := do
  let skipped ← usizeSub userInput.length 1
  let eosTokenFound ← findPosition self.isEos ((output.data.take self.maxWindow).drop skipped)
  .ok (eosTokenFound.getD self.maxWindow)

/-- The input goes on with what has been put out. -/
def checkSequentiality (proverInput proverOutput : List (ZMod p)) (i : Nat) : Outcome Unit := do
  let next ← unwrap proverInput[i + 1]? "index out of bounds"
  let generated ← unwrap proverOutput[i]? "index out of bounds"
  ensure (next == generated)
    s!"next input token is not the one generated by this row pos {i}"

/-- `verify`, for a given inner verifier. -/
def verify (inner : InferenceIo (ZMod p) → Outcome Unit) (userInput : List Nat)
    (inferenceOutput : InferenceIo (ZMod p)) : Outcome Unit := do
  ensure (inferenceOutput.output.length == 1)
    s!"Expected 1 output tensor, found {inferenceOutput.output.length}"
  let output ← unwrap inferenceOutput.output[0]? "index out of bounds"
  if output.shape = [] then
    .error (.panic "Empty tensor")
  else
    ensure (decide (output.shape.numel ≤ nextPowerOfTwo self.maxWindow))
      "output length is greater than the padded maximum context length"
    let unpaddedOutputLen ← self.unpaddedOutputLen userInput output
    let proverInput ← unwrap inferenceOutput.input[0]? "index out of bounds"
    inner inferenceOutput
    let seqLen := userInput.length
    let given ← sliceTo proverInput.data seqLen
    let same ← allOf (fun (a, b) => do .ok ((← tokenOf a) == b)) (given.zip userInput)
    ensure same "user input not the same"
    let first ← usizeSub seqLen 1
    let last ← usizeSub unpaddedOutputLen 1
    (List.range' first (last - first)).forM (checkSequentiality proverInput.data output.data)

/-! ## When the verifier accepts -/

/-- The proven input starts with the tokens of the user. -/
def StartsWith (proverInput : List (ZMod p)) (userInput : List Nat) : Prop :=
  userInput.length ≤ proverInput.length ∧
    ∀ (i : Nat) (x : ZMod p) (token : Nat), proverInput[i]? = some x → userInput[i]? = some token → tokenOf x = .ok token

/-- A position at which the input goes on with what has been put out. -/
def Continues (proverInput proverOutput : List (ZMod p)) (i : Nat) : Prop :=
  ∃ x, proverInput[i + 1]? = some x ∧ proverOutput[i]? = some x

theorem checkSequentiality_eq_ok {proverInput proverOutput : List (ZMod p)} {i : Nat} :
    checkSequentiality proverInput proverOutput i = .ok () ↔
      Continues proverInput proverOutput i := by
  unfold checkSequentiality Continues
  simp only [Outcome.bind_eq_ok, unwrap_eq_ok, ensure_eq_ok, beq_iff_eq]
  constructor
  · intro ⟨next, hnext, generated, hgenerated, heq⟩
    exact ⟨next, hnext, heq ▸ hgenerated⟩
  · intro ⟨x, hnext, hgenerated⟩
    exact ⟨x, hnext, x, hgenerated, rfl⟩

variable {userInput : List Nat}

theorem sameTokens_eq_ok {proverInput : List (ZMod p)}
    (hlength : userInput.length ≤ proverInput.length) :
    allOf (fun (a, b) => do .ok ((← tokenOf a) == b))
        ((proverInput.take userInput.length).zip userInput) = .ok true ↔
      StartsWith proverInput userInput := by
  have hpair : ∀ (a : ZMod p) (b : Nat), (do .ok ((← tokenOf a) == b) : Outcome Bool) = .ok true ↔
      tokenOf a = .ok b := by
    intro a b
    rw [Outcome.bind_eq_ok]
    simp
  rw [allOf_eq_true]
  constructor
  · intro h
    refine ⟨hlength, fun i x token hx htoken => ?_⟩
    obtain ⟨hi, _⟩ := List.getElem?_eq_some_iff.mp htoken
    apply (hpair x token).mp
    apply h (x, token)
    apply List.mem_of_getElem? (i := i)
    rw [List.getElem?_zip_eq_some, List.getElem?_take_of_lt hi]
    exact ⟨hx, htoken⟩
  · intro h ⟨x, token⟩ hmem
    obtain ⟨i, hi⟩ := List.getElem?_of_mem hmem
    obtain ⟨hx, htoken⟩ := List.getElem?_zip_eq_some.mp hi
    obtain ⟨hlt, _⟩ := List.getElem?_eq_some_iff.mp htoken
    rw [List.getElem?_take_of_lt hlt] at hx
    exact (hpair x token).mpr (h.2 i x token hx htoken)

/-- What the verifier has checked when it accepts. -/
theorem verify_eq_ok {inner : InferenceIo (ZMod p) → Outcome Unit}
    {input : List (IoTensor (ZMod p))} {output : IoTensor (ZMod p)} :
    self.verify inner userInput ⟨input, [output]⟩ = .ok () ↔
      output.shape ≠ [] ∧ output.shape.numel ≤ nextPowerOfTwo self.maxWindow ∧
      ∃ len proverInput, self.unpaddedOutputLen userInput output = .ok len ∧
        input[0]? = some proverInput ∧ inner ⟨input, [output]⟩ = .ok () ∧
        StartsWith proverInput.data userInput ∧ 1 ≤ len ∧
        ∀ i, userInput.length - 1 ≤ i → i < len - 1 →
          Continues proverInput.data output.data i := by
  have houtput : [output][0]? = some output := rfl
  unfold verify
  simp only [List.length_singleton, beq_self_eq_true, ensure_true, Outcome.ok_bind, houtput,
    unwrap_some]
  by_cases hshape : output.shape = []
  · simp [hshape]
  · rw [if_neg hshape]
    simp only [Outcome.bind_eq_ok, ensure_eq_ok, decide_eq_true_eq, unwrap_eq_ok, sliceTo_eq_ok,
      usizeSub_eq_ok, List.forM_eq_forM, Outcome.forM_eq_ok, checkSequentiality_eq_ok, List.mem_range'_1]
    constructor
    · intro ⟨_, hsize, len, hlen, proverInput, hinput, _, hinner, given, ⟨hgiven, htake⟩, same, hsame,
        _, htrue, first, ⟨_, hfirst⟩, last, ⟨hpos, hlast⟩, hall⟩
      subst htake htrue hfirst hlast
      refine ⟨hshape, hsize, len, proverInput, hlen, hinput, hinner,
        (sameTokens_eq_ok hgiven).mp hsame, hpos, fun i hlow hhigh => hall i ⟨hlow, by omega⟩⟩
    · intro ⟨_, hsize, len, proverInput, hlen, hinput, hinner, hstarts, hpos, hall⟩
      obtain ⟨skipped, hskipped, _⟩ := Outcome.bind_eq_ok.mp hlen
      refine ⟨(), hsize, len, hlen, proverInput, hinput, (), hinner, _, ⟨hstarts.1, rfl⟩, true,
        (sameTokens_eq_ok hstarts.1).mpr hstarts, (), rfl, _,
        ⟨(usizeSub_eq_ok.mp hskipped).1, rfl⟩, _, ⟨hpos, rfl⟩, fun i hi => hall i hi.1 (by omega)⟩

/-! ## The end of the text -/

/-- The token ends the text. -/
def IsEos (x : ZMod p) : Prop := tokenOf x = .ok self.eosToken

theorem isEos_eq_true {x : ZMod p} : self.isEos x = .ok true ↔ self.IsEos x := by
  unfold isEos IsEos
  rw [Outcome.bind_eq_ok]
  simp

theorem isEos_eq_false {x : ZMod p} (h : self.isEos x = .ok false) : ¬ self.IsEos x := by
  intro heos
  rw [self.isEos_eq_true.mpr heos] at h
  cases h

/-- No token ends the text before the window, from the last token of the user on. -/
def NoEos (userInput : List Nat) (output : List (ZMod p)) : Prop :=
  ∀ (i : Nat) (x : ZMod p), userInput.length - 1 ≤ i → i < self.maxWindow → output[i]? = some x →
    ¬ self.IsEos x

/-- The first token that ends the text is at position `e`, from the last token of the user on. -/
def FirstEos (userInput : List Nat) (output : List (ZMod p)) (e : Nat) : Prop :=
  userInput.length - 1 ≤ e ∧ e < self.maxWindow ∧
    (∃ x, output[e]? = some x ∧ self.IsEos x) ∧
    ∀ (i : Nat) (x : ZMod p), userInput.length - 1 ≤ i → i < e → output[i]? = some x →
      ¬ self.IsEos x

/-- The text ends at its first such token, or at the end of the window. -/
def EndsAt (userInput : List Nat) (output : List (ZMod p)) (e : Nat) : Prop :=
  self.FirstEos userInput output e ∨ self.NoEos userInput output ∧ e = self.maxWindow - 1

/-- Every token of the text after those of the user was put out by the model. -/
structure Enforces (config : LLMVerifierContext) (userInput : List Nat)
    (proverInput output : List (ZMod p)) : Prop where
  starts : StartsWith proverInput userInput
  continues : ∀ e, config.EndsAt userInput output e → ∀ i, userInput.length - 1 ≤ i → i < e →
    Continues proverInput output i

theorem getElem?_drop_take {xs : List (ZMod p)} {m n i : Nat} {x : ZMod p} :
    ((xs.take n).drop m)[i]? = some x ↔ m + i < n ∧ xs[m + i]? = some x := by
  rw [List.getElem?_drop, List.getElem?_take]
  split
  · next h => simp [h]
  · next h => simp [h]

/-- What the code takes for the length of the text: the window, or how far the first token that
    ends the text is from the last token of the user. -/
theorem unpaddedOutputLen_eq_ok {output : IoTensor (ZMod p)} {len : Nat}
    (h : self.unpaddedOutputLen userInput output = .ok len) :
    1 ≤ userInput.length ∧ (self.NoEos userInput output.data ∧ len = self.maxWindow ∨
      self.FirstEos userInput output.data (userInput.length - 1 + len)) := by
  unfold unpaddedOutputLen at h
  simp only [Outcome.bind_eq_ok, usizeSub_eq_ok] at h
  obtain ⟨skipped, ⟨hpos, rfl⟩, found, hfound, hlen⟩ := h
  refine ⟨hpos, ?_⟩
  obtain rfl := Except.ok.inj hlen
  cases found with
  | none =>
    left
    refine ⟨fun i x hlow hhigh hx => ?_, rfl⟩
    apply self.isEos_eq_false
    apply findPosition_eq_none.mp hfound
    apply List.mem_of_getElem? (i := i - (userInput.length - 1))
    rw [getElem?_drop_take, Nat.add_sub_cancel' hlow]
    exact ⟨hhigh, hx⟩
  | some k =>
    right
    rw [Option.getD_some]
    obtain ⟨⟨x, hx, heos⟩, hbefore⟩ := findPosition_eq_some.mp hfound
    obtain ⟨hhigh, hx⟩ := getElem?_drop_take.mp hx
    refine ⟨Nat.le_add_right _ _, hhigh, ⟨x, hx, self.isEos_eq_true.mp heos⟩, ?_⟩
    intro i y hlow hlt hy
    obtain ⟨z, hz, hfalse⟩ := hbefore (i - (userInput.length - 1)) (by omega)
    obtain ⟨_, hz⟩ := getElem?_drop_take.mp hz
    rw [Nat.add_sub_cancel' hlow, hy] at hz
    obtain rfl := Option.some.inj hz
    exact self.isEos_eq_false hfalse

/-- The whole text is checked exactly if no token ends it before the window: for an output with
    which some input is accepted. -/
theorem verify_enforces_iff [Fact p.Prime] {userInput : List Nat} {output : IoTensor (ZMod p)}
    (h : ∃ inner input, self.verify inner userInput ⟨input, [output]⟩ = .ok ()) :
    (∀ inner input, self.verify inner userInput ⟨input, [output]⟩ = .ok () →
      ∃ proverInput, input[0]? = some proverInput ∧
        self.Enforces userInput proverInput.data output.data) ↔
      self.NoEos userInput output.data := by
  constructor
  · intro hall
    obtain ⟨inner, input, haccepted⟩ := h
    obtain ⟨hshape, hsize, len, proverInput, hlen, hinput, _, hstarts, hpos, hchecked⟩ :=
      self.verify_eq_ok.mp haccepted
    obtain ⟨huser, hend⟩ := self.unpaddedOutputLen_eq_ok hlen
    rcases hend with ⟨hnone, _⟩ | hfirst
    · exact hnone
    · exfalso
      obtain ⟨proverInput', hinput', henforces⟩ := hall inner input haccepted
      obtain rfl := Option.some.inj (hinput.symm.trans hinput')
      -- the token before the end is not checked, so it can be replaced
      obtain ⟨y, hy, hyout⟩ := henforces.continues _ (.inl hfirst)
        (userInput.length - 1 + len - 1) (by omega) (by omega)
      have hsucc : userInput.length - 1 + len - 1 + 1 = userInput.length - 1 + len := by omega
      rw [hsucc] at hy
      have hset : ∀ j, j ≠ userInput.length - 1 + len →
          (proverInput.data.set (userInput.length - 1 + len) (y + 1))[j]? = proverInput.data[j]? :=
        fun j hj => List.getElem?_set_ne (Ne.symm hj)
      have haccepted' : self.verify (fun _ => .ok ()) userInput
          ⟨[⟨proverInput.data.set (userInput.length - 1 + len) (y + 1), proverInput.shape⟩],
            [output]⟩ = .ok () := by
        refine self.verify_eq_ok.mpr ⟨hshape, hsize, len, _, hlen, rfl, rfl, ⟨?_, ?_⟩, hpos, ?_⟩
        · rw [List.length_set]
          exact hstarts.1
        · intro i x token hx htoken
          obtain ⟨hi, _⟩ := List.getElem?_eq_some_iff.mp htoken
          rw [hset i (by omega)] at hx
          exact hstarts.2 i x token hx htoken
        · intro i hlow hhigh
          obtain ⟨x, hx, hxout⟩ := hchecked i hlow hhigh
          exact ⟨x, (hset (i + 1) (by omega)).trans hx, hxout⟩
      obtain ⟨replaced, hreplaced, henforces'⟩ := hall _ _ haccepted'
      obtain rfl := Option.some.inj hreplaced
      obtain ⟨z, hz, hzout⟩ := henforces'.continues _ (.inl hfirst)
        (userInput.length - 1 + len - 1) (by omega) (by omega)
      obtain ⟨hlt, _⟩ := List.getElem?_eq_some_iff.mp hy
      rw [hsucc, List.getElem?_set_self hlt] at hz
      have heq : y + 1 = y := (Option.some.inj hz).trans (Option.some.inj (hzout.symm.trans hyout))
      exact one_ne_zero (add_eq_left.mp heq)
  · intro hnone inner input haccepted
    obtain ⟨_, _, len, proverInput, hlen, hinput, _, hstarts, _, hchecked⟩ :=
      self.verify_eq_ok.mp haccepted
    refine ⟨proverInput, hinput, hstarts, fun e hend i hlow hhigh => ?_⟩
    obtain ⟨_, hlast⟩ := self.unpaddedOutputLen_eq_ok hlen
    rcases hlast with ⟨_, rfl⟩ | ⟨hlow', hhigh', ⟨x, hx, heos⟩, _⟩
    · rcases hend with ⟨hlow', hhigh', ⟨x, hx, heos⟩, _⟩ | ⟨_, rfl⟩
      · exact absurd heos (hnone e x hlow' hhigh' hx)
      · exact hchecked i hlow hhigh
    · exact absurd heos (hnone _ x hlow' hhigh' hx)

/-! ## A model that counts -/

section Counting

instance fact_prime_thirtyOne : Fact (Nat.Prime 31) := ⟨by decide⟩

/-- The text ends with 8, and there are at most four tokens. -/
def untilEight : LLMVerifierContext := ⟨1024, 8, some 4⟩

/-- Accepts the inferences of a model that puts out the successor of each token. -/
def successors (io : InferenceIo (ZMod 31)) : Outcome Unit :=
  ensure (decide (io.output.map IoTensor.data =
    io.input.map fun tensor => tensor.data.map (· + 1))) "wrong inference"

/-- After 1 comes 2, but 7 is accepted. -/
theorem successors_forged :
    untilEight.verify successors [1] ⟨[⟨[1, 7], [2]⟩], [⟨[2, 8], [2]⟩]⟩ = .ok () ∧
      ¬ untilEight.Enforces [1] ([1, 7] : List (ZMod 31)) [2, 8] := by
  refine ⟨rfl, fun h => ?_⟩
  have hend : untilEight.EndsAt [1] ([2, 8] : List (ZMod 31)) 1 := by
    refine .inl ⟨by decide, by decide, ⟨8, rfl, rfl⟩, fun i x _ hi hx => ?_⟩
    obtain rfl := Nat.lt_one_iff.mp hi
    obtain rfl := Option.some.inj hx
    have hne : tokenOf (2 : ZMod 31) ≠ .ok untilEight.eosToken := by decide
    exact hne
  obtain ⟨x, hx, hout⟩ := Enforces.continues h 1 hend 0 (by decide) (by decide)
  have heq : some (7 : ZMod 31) = some 2 := hx.trans hout.symm
  revert heq
  decide

/-- An output that does not reach the end is checked. -/
theorem successors_enforced :
    (∀ inner input, untilEight.verify inner [1] ⟨input, [⟨[2, 3, 4, 5], [4]⟩]⟩ = .ok () →
      ∃ proverInput : IoTensor (ZMod 31), input[0]? = some proverInput ∧
        untilEight.Enforces [1] proverInput.data [2, 3, 4, 5]) ↔
      untilEight.NoEos [1] ([2, 3, 4, 5] : List (ZMod 31)) :=
  untilEight.verify_enforces_iff ⟨successors, [⟨[1, 2, 3, 4], [4]⟩], rfl⟩

end Counting

end LLMVerifierContext

end DeepProve
