import DeepProve.Llm.Generate

/-!
# Panics of the verifier of a text

The verifier indexes tensors of any length with positions that come from the tokens of the user
and from the window, subtracts from lengths that may be zero, and reads field elements that may be
no tokens.
-/

namespace DeepProve

open Outcome

/-! ## Searches and loops -/

section Search

variable {α : Type} {f : α → Outcome Bool} {xs : List α}

/-- A loop that goes on after an entry with the given answer panics at the first entry that does. -/
theorem panics_iff_of_cons {β : Type} {loop : List α → Outcome β} {goesOn : Bool} (hnil : ¬ (loop []).Panics)
    (hcons : ∀ x xs, (loop (x :: xs)).Panics ↔ (f x).Panics ∨ f x = .ok goesOn ∧ (loop xs).Panics) :
    (loop xs).Panics ↔ ∃ (k : Nat) (x : α), xs[k]? = some x ∧ (f x).Panics ∧
      ∀ i < k, ∃ y, xs[i]? = some y ∧ f y = .ok goesOn := by
  induction xs with
  | nil => simp [hnil]
  | cons x xs ih =>
    rw [hcons, ih]
    constructor
    · rintro (h | ⟨hx, k, y, hy, hpanics, hbefore⟩)
      · exact ⟨0, x, rfl, h, fun i hi => absurd hi (Nat.not_lt_zero i)⟩
      · refine ⟨k + 1, y, hy, hpanics, fun i hi => ?_⟩
        cases i with
        | zero => exact ⟨x, rfl, hx⟩
        | succ i => exact hbefore i (Nat.lt_of_succ_lt_succ hi)
    · intro ⟨k, y, hy, hpanics, hbefore⟩
      cases k with
      | zero =>
        obtain rfl := Option.some.inj hy
        exact .inl hpanics
      | succ k =>
        obtain ⟨z, hz, hx⟩ := hbefore 0 (Nat.succ_pos k)
        obtain rfl := Option.some.inj hz
        exact .inr ⟨hx, k, y, hy, hpanics, fun i hi => hbefore (i + 1) (Nat.succ_lt_succ hi)⟩

/-- A search panics at an entry if it has passed all entries before. -/
theorem panics_findPosition : (findPosition f xs).Panics ↔
    ∃ (k : Nat) (x : α), xs[k]? = some x ∧ (f x).Panics ∧ ∀ i < k, ∃ y, xs[i]? = some y ∧ f y = .ok false :=
  panics_iff_of_cons (by simp [findPosition]) fun x xs => by
    rw [findPosition, panics_bind]
    apply or_congr_right
    constructor
    · rintro ⟨found, hx, h⟩
      cases found with
      | true => exact absurd h (not_panics_ok _)
      | false =>
        refine ⟨hx, (panics_bind.mp h).resolve_right ?_⟩
        rintro ⟨_, _, h⟩
        exact not_panics_ok _ h
    · rintro ⟨hx, h⟩
      exact ⟨false, hx, panics_bind.mpr (.inl h)⟩

theorem findPosition_ok_or_panics (h : ∀ x, (∃ found, f x = .ok found) ∨ (f x).Panics)
    (xs : List α) : (∃ pos, findPosition f xs = .ok pos) ∨ (findPosition f xs).Panics := by
  induction xs with
  | nil => exact .inl ⟨none, rfl⟩
  | cons x xs ih =>
    rw [findPosition]
    rcases h x with ⟨found, hx⟩ | hx
    · rw [hx, Outcome.ok_bind]
      cases found with
      | true => exact .inl ⟨some 0, rfl⟩
      | false =>
        rw [if_neg (by decide)]
        rcases ih with ⟨pos, hpos⟩ | hpanics
        · rw [hpos]
          exact .inl ⟨_, rfl⟩
        · right
          rw [panics_bind]
          exact .inl hpanics
    · right
      rw [panics_bind]
      exact .inl hx

/-- `all` panics at an entry if it holds of all entries before. -/
theorem panics_allOf : (allOf f xs).Panics ↔
    ∃ (k : Nat) (x : α), xs[k]? = some x ∧ (f x).Panics ∧ ∀ i < k, ∃ y, xs[i]? = some y ∧ f y = .ok true :=
  panics_iff_of_cons (by simp [allOf]) fun x xs => by
    rw [allOf, panics_bind]
    apply or_congr_right
    constructor
    · rintro ⟨found, hx, h⟩
      cases found with
      | true => exact ⟨hx, h⟩
      | false => exact absurd h (not_panics_ok _)
    · rintro ⟨hx, h⟩
      exact ⟨true, hx, h⟩

/-- A loop panics in a round if all rounds before pass. -/
theorem panics_forM_range' {g : Nat → Outcome Unit} {first count : Nat} :
    ((List.range' first count).forM g).Panics ↔
      ∃ i, first ≤ i ∧ i < first + count ∧ (g i).Panics ∧
        ∀ j, first ≤ j → j < i → g j = .ok () := by
  induction count generalizing first with
  | zero =>
    rw [List.range'_zero]
    constructor
    · exact fun h => absurd h (not_panics_ok ())
    · intro ⟨i, _, _, _⟩
      omega
  | succ count ih =>
    rw [List.range'_succ, List.forM_eq_forM, List.forM_cons, panics_bind]
    constructor
    · rintro (h | ⟨_, hfirst, h⟩)
      · exact ⟨first, le_rfl, by omega, h, fun j _ _ => by omega⟩
      · obtain ⟨i, hlow, hhigh, hpanics, hbefore⟩ := ih.mp h
        refine ⟨i, by omega, by omega, hpanics, fun j hj hji => ?_⟩
        rcases Nat.eq_or_lt_of_le hj with rfl | hj
        · exact hfirst
        · exact hbefore j hj hji
    · intro ⟨i, hlow, hhigh, hpanics, hbefore⟩
      rcases Nat.eq_or_lt_of_le hlow with rfl | hlow
      · exact .inl hpanics
      · refine .inr ⟨(), hbefore first le_rfl hlow, ih.mpr ⟨i, hlow, by omega, hpanics, ?_⟩⟩
        exact fun j hj hji => hbefore j (by omega) hji

end Search

namespace LLMVerifierContext

variable {p : Nat} (self : LLMVerifierContext)

/-! ## Where the verifier panics -/

/-- The field element is a token. -/
def IsToken (x : ZMod p) : Prop := ∃ token, tokenOf x = .ok token

theorem panics_tokenOf {x : ZMod p} : (tokenOf x).Panics ↔ ¬ IsToken x := by
  have hcases : (∃ element, toElement x = .ok element) ∨ (toElement x).Panics := by
    unfold toElement
    dsimp only
    generalize (if (p - 1) / 2 < x.val then p - x.val else x.val) = abs
    by_cases hfits : abs < 2 ^ 63
    · rw [if_pos hfits]
      exact .inl ⟨_, rfl⟩
    · rw [if_neg hfits]
      exact .inr ⟨_, rfl⟩
  unfold IsToken tokenOf
  rw [panics_bind]
  rcases hcases with ⟨element, h⟩ | ⟨msg, h⟩
  · simp [h]
  · simp [h]

/-- A token that is looked at in the output is none. -/
def NoToken (userInput : List Nat) (output : List (ZMod p)) : Prop :=
  ∃ (i : Nat) (x : ZMod p), userInput.length - 1 ≤ i ∧ i < self.maxWindow ∧ output[i]? = some x ∧
    ¬ IsToken x ∧ ∀ (j : Nat) (y : ZMod p), userInput.length - 1 ≤ j → j < i →
      output[j]? = some y → IsToken y ∧ ¬ self.IsEos y

/-- An entry of the input is no token, after the first tokens of the user. -/
def NoUserToken (userInput : List Nat) (proverInput : List (ZMod p)) : Prop :=
  ∃ (i : Nat) (x : ZMod p), i < userInput.length ∧ proverInput[i]? = some x ∧ ¬ IsToken x ∧
    ∀ (j : Nat) (y : ZMod p) (token : Nat), j < i → proverInput[j]? = some y →
      userInput[j]? = some token → tokenOf y = .ok token

/-- The loop leaves the input or the output before it finds a difference. -/
def RunsOff (first last : Nat) (proverInput output : List (ZMod p)) : Prop :=
  ∃ i, first ≤ i ∧ i < last ∧ (proverInput.length ≤ i + 1 ∨ output.length ≤ i) ∧
    ∀ j, first ≤ j → j < i → Continues proverInput output j

/-- What the verifier takes for the length of the text: the window, or how far the first token that
    ends the text is from the last token of the user. -/
def TextLen (userInput : List Nat) (output : List (ZMod p)) (len : Nat) : Prop :=
  self.NoEos userInput output ∧ len = self.maxWindow ∨
    self.FirstEos userInput output (userInput.length - 1 + len)

/-- The inputs on which the verifier panics. -/
inductive PanicsOn (config : LLMVerifierContext) (accepts : Prop) (userInput : List Nat)
    (input : List (IoTensor (ZMod p))) (output : IoTensor (ZMod p)) : Prop
  | emptyShape (h : output.shape = [])
  | noUserInput (hsize : output.shape.numel ≤ nextPowerOfTwo config.maxWindow)
      (h : userInput = [])
  | noToken (hsize : output.shape.numel ≤ nextPowerOfTwo config.maxWindow)
      (h : config.NoToken userInput output.data)
  | later (hsize : output.shape.numel ≤ nextPowerOfTwo config.maxWindow) (huser : userInput ≠ [])
      (htoken : ¬ config.NoToken userInput output.data) {len : Nat}
      (hlen : config.TextLen userInput output.data len)
      (h : input = [] ∨ accepts ∧ ∃ proverInput : IoTensor (ZMod p), input[0]? = some proverInput ∧
        (proverInput.data.length < userInput.length ∨
          userInput.length ≤ proverInput.data.length ∧ NoUserToken userInput proverInput.data ∨
          StartsWith proverInput.data userInput ∧ (len = 0 ∨
            RunsOff (userInput.length - 1) (len - 1) proverInput.data output.data)))

/-! ## The panics of its steps -/

theorem isEos_eq_false_iff {x : ZMod p} :
    self.isEos x = .ok false ↔ IsToken x ∧ ¬ self.IsEos x := by
  unfold isEos IsEos IsToken
  rw [Outcome.bind_eq_ok]
  constructor
  · intro ⟨token, htoken, h⟩
    have hne : token ≠ self.eosToken := by simpa using h
    refine ⟨⟨token, htoken⟩, fun heos => ?_⟩
    exact hne (Except.ok.inj (htoken.symm.trans heos))
  · intro ⟨⟨token, htoken⟩, heos⟩
    refine ⟨token, htoken, ?_⟩
    have hne : token ≠ self.eosToken := fun h => heos (h ▸ htoken)
    simpa using hne

theorem panics_isEos {x : ZMod p} : (self.isEos x).Panics ↔ ¬ IsToken x := by
  unfold isEos
  rw [panics_bind, panics_tokenOf, or_iff_left]
  exact fun ⟨_, _, h⟩ => not_panics_ok _ h

theorem isEos_ok_or_panics (x : ZMod p) :
    (∃ found, self.isEos x = .ok found) ∨ (self.isEos x).Panics := by
  by_cases hx : IsToken x
  · obtain ⟨token, htoken⟩ := hx
    left
    unfold isEos
    rw [htoken]
    exact ⟨_, rfl⟩
  · exact .inr (self.panics_isEos.mpr hx)

theorem unpaddedOutputLen_ok_or_panics (userInput : List Nat) (output : IoTensor (ZMod p)) :
    (∃ len, self.unpaddedOutputLen userInput output = .ok len) ∨
      (self.unpaddedOutputLen userInput output).Panics := by
  unfold unpaddedOutputLen
  rcases Nat.lt_or_ge userInput.length 1 with hlt | hge
  · right
    rw [panics_bind]
    exact .inl (panics_usizeSub.mpr hlt)
  · rw [usizeSub_eq_ok.mpr ⟨hge, rfl⟩, Outcome.ok_bind]
    rcases findPosition_ok_or_panics self.isEos_ok_or_panics
      ((output.data.take self.maxWindow).drop (userInput.length - 1)) with ⟨found, h⟩ | h
    · rw [h]
      exact .inl ⟨_, rfl⟩
    · right
      rw [panics_bind]
      exact .inl h

variable {userInput : List Nat} {output : List (ZMod p)}

theorem panics_unpaddedOutputLen {output : IoTensor (ZMod p)} :
    (self.unpaddedOutputLen userInput output).Panics ↔
      userInput = [] ∨ userInput ≠ [] ∧ self.NoToken userInput output.data := by
  unfold unpaddedOutputLen
  rw [panics_bind, panics_usizeSub, Nat.lt_one_iff, List.length_eq_zero_iff]
  apply or_congr_right
  have hrest : ∀ found : Outcome (Option Nat),
      (found >>= fun eosTokenFound => .ok (eosTokenFound.getD self.maxWindow)).Panics ↔
        found.Panics := by
    intro found
    rw [panics_bind, or_iff_left]
    exact fun ⟨_, _, h⟩ => not_panics_ok _ h
  simp only [usizeSub_eq_ok, hrest, panics_findPosition, panics_isEos, isEos_eq_false_iff,
    getElem?_drop_take]
  constructor
  · intro ⟨skipped, ⟨hpos, hskipped⟩, k, x, ⟨hlt, hx⟩, hnone, hbefore⟩
    subst hskipped
    refine ⟨List.length_pos_iff.mp hpos, _, x, Nat.le_add_right _ k, hlt, hx, hnone, ?_⟩
    intro j y hlow hhigh hy
    obtain ⟨z, ⟨_, hz⟩, hpass⟩ := hbefore (j - (userInput.length - 1)) (by omega)
    rw [Nat.add_sub_cancel' hlow, hy] at hz
    exact Option.some.inj hz ▸ hpass
  · intro ⟨huser, i, x, hlow, hhigh, hx, hnone, hbefore⟩
    refine ⟨_, ⟨List.length_pos_iff.mpr huser, rfl⟩, i - (userInput.length - 1), x, ?_, hnone, ?_⟩
    · rw [Nat.add_sub_cancel' hlow]
      exact ⟨hhigh, hx⟩
    · intro j hj
      obtain ⟨hi, _⟩ := List.getElem?_eq_some_iff.mp hx
      have hlt : userInput.length - 1 + j < output.data.length := by omega
      have hy := List.getElem?_eq_getElem hlt
      exact ⟨_, ⟨by omega, hy⟩, hbefore _ _ (Nat.le_add_right _ _) (by omega) hy⟩

variable {self} in
/-- No two positions are the first that ends the text. -/
theorem FirstEos.unique {e e' : Nat} (h : self.FirstEos userInput output e)
    (h' : self.FirstEos userInput output e') : e = e' := by
  obtain ⟨hlow, _, ⟨x, hx, heos⟩, hbefore⟩ := h
  obtain ⟨hlow', _, ⟨x', hx', heos'⟩, hbefore'⟩ := h'
  rcases Nat.lt_trichotomy e e' with hlt | heq | hgt
  · exact absurd heos (hbefore' e x hlow hlt hx)
  · exact heq
  · exact absurd heos' (hbefore e' x' hlow' hgt hx')

variable {self} in
theorem TextLen.unique {len len' : Nat} (h : self.TextLen userInput output len)
    (h' : self.TextLen userInput output len') :
    len = len' := by
  rcases h with ⟨hnone, rfl⟩ | hfirst
  · rcases h' with ⟨_, rfl⟩ | ⟨hlow, hhigh, ⟨x, hx, heos⟩, _⟩
    · rfl
    · exact absurd heos (hnone _ x hlow hhigh hx)
  · rcases h' with ⟨hnone, rfl⟩ | hfirst'
    · obtain ⟨hlow, hhigh, ⟨x, hx, heos⟩, _⟩ := hfirst
      exact absurd heos (hnone _ x hlow hhigh hx)
    · exact Nat.add_left_cancel (hfirst.unique hfirst')

/-- The length of the text is computed if the tokens that are looked at can be read. -/
theorem unpaddedOutputLen_eq_ok_iff {output : IoTensor (ZMod p)} {len : Nat} :
    self.unpaddedOutputLen userInput output = .ok len ↔
      userInput ≠ [] ∧ ¬ self.NoToken userInput output.data ∧
        self.TextLen userInput output.data len := by
  constructor
  · intro h
    obtain ⟨hpos, hlen⟩ := self.unpaddedOutputLen_eq_ok h
    refine ⟨List.length_pos_iff.mp hpos, fun htoken => ?_, hlen⟩
    have hpanics := self.panics_unpaddedOutputLen.mpr (.inr ⟨List.length_pos_iff.mp hpos, htoken⟩)
    rw [h] at hpanics
    exact not_panics_ok _ hpanics
  · intro ⟨huser, htoken, hlen⟩
    have hreads := mt self.panics_unpaddedOutputLen.mp fun h => h.elim huser fun h => htoken h.2
    obtain ⟨len', hok⟩ := (self.unpaddedOutputLen_ok_or_panics userInput output).resolve_right hreads
    rw [hok, hlen.unique (self.unpaddedOutputLen_eq_ok hok).2]

theorem panics_sameTokens {proverInput : List (ZMod p)}
    (hlength : userInput.length ≤ proverInput.length) :
    (allOf (fun (a, b) => do .ok ((← tokenOf a) == b))
        ((proverInput.take userInput.length).zip userInput)).Panics ↔
      NoUserToken userInput proverInput := by
  have hpair : ∀ (a : ZMod p) (b : Nat), (do .ok ((← tokenOf a) == b) : Outcome Bool) = .ok true ↔
      tokenOf a = .ok b := by
    intro a b
    rw [Outcome.bind_eq_ok]
    simp
  have hpanics : ∀ (a : ZMod p) (b : Nat),
      (do .ok ((← tokenOf a) == b) : Outcome Bool).Panics ↔ ¬ IsToken a := by
    intro a b
    rw [panics_bind, panics_tokenOf, or_iff_left]
    exact fun ⟨_, _, h⟩ => not_panics_ok _ h
  rw [panics_allOf]
  constructor
  · intro ⟨k, ⟨x, token⟩, hk, hnone, hbefore⟩
    obtain ⟨hx, htoken⟩ := List.getElem?_zip_eq_some.mp hk
    obtain ⟨hlt, _⟩ := List.getElem?_eq_some_iff.mp htoken
    rw [List.getElem?_take_of_lt hlt] at hx
    refine ⟨k, x, hlt, hx, (hpanics x token).mp hnone, ?_⟩
    intro j y token' hj hy htoken'
    obtain ⟨⟨y', token''⟩, hpairs, hsame⟩ := hbefore j hj
    obtain ⟨hy', htoken''⟩ := List.getElem?_zip_eq_some.mp hpairs
    rw [List.getElem?_take_of_lt (hj.trans hlt), hy] at hy'
    rw [htoken'] at htoken''
    obtain rfl := Option.some.inj hy'
    obtain rfl := Option.some.inj htoken''
    exact (hpair _ _).mp hsame
  · intro ⟨i, x, hlt, hx, hnone, hbefore⟩
    have hget : ∀ (j : Nat) (y : ZMod p) (hj : j < userInput.length), proverInput[j]? = some y →
        ((proverInput.take userInput.length).zip userInput)[j]? = some (y, userInput[j]) := by
      intro j y hj hy
      rw [List.getElem?_zip_eq_some, List.getElem?_take_of_lt hj]
      exact ⟨hy, List.getElem?_eq_getElem hj⟩
    refine ⟨i, _, hget i x hlt hx, (hpanics _ _).mpr hnone, fun j hj => ?_⟩
    have hy : proverInput[j]? = some proverInput[j] := List.getElem?_eq_getElem (by omega)
    refine ⟨_, hget j _ (hj.trans hlt) hy, (hpair _ _).mpr ?_⟩
    exact hbefore j _ _ hj hy (List.getElem?_eq_getElem (hj.trans hlt))

theorem panics_checkSequentiality {proverInput : List (ZMod p)} {i : Nat} :
    (checkSequentiality proverInput output i).Panics ↔
      proverInput.length ≤ i + 1 ∨ output.length ≤ i := by
  unfold checkSequentiality
  simp only [panics_bind, panics_unwrap, unwrap_eq_ok, not_panics_ensure, and_false, exists_false,
    or_false, List.getElem?_eq_none_iff]
  constructor
  · rintro (h | ⟨_, _, h⟩)
    · exact .inl h
    · exact .inr h
  · intro h
    by_cases hinput : proverInput.length ≤ i + 1
    · exact .inl hinput
    · exact .inr ⟨_, List.getElem?_eq_getElem (Nat.lt_of_not_le hinput), h.resolve_left hinput⟩

/-! ## The panics of the verifier -/

/-- The inputs on which the verifier panics, when the inner verifier does not. -/
theorem verify_panics_iff {inner : InferenceIo (ZMod p) → Outcome Unit} {io : InferenceIo (ZMod p)}
    (hinner : ¬ (inner io).Panics) :
    (self.verify inner userInput io).Panics ↔
      ∃ output, io.output = [output] ∧
        PanicsOn self (inner io = .ok ()) userInput io.input output := by
  obtain ⟨input, outputs⟩ := io
  match outputs with
  | [] => simp [verify, ensure]
  | _ :: _ :: _ => simp [verify, ensure]
  | [output] =>
    have houtput : [output][0]? = some output := rfl
    simp only [List.cons.injEq, and_true, exists_eq_left']
    unfold verify
    simp only [List.length_singleton, beq_self_eq_true, ensure_true, Outcome.ok_bind, houtput,
      unwrap_some]
    by_cases hshape : output.shape = []
    · rw [if_pos hshape]
      exact ⟨fun _ => .emptyShape hshape, fun _ => panics_panic _⟩
    · rw [if_neg hshape]
      simp only [panics_bind, not_panics_ensure, false_or, ensure_eq_ok, decide_eq_true_eq,
        panics_unpaddedOutputLen, panics_unwrap, unwrap_eq_ok, hinner, panics_sliceTo,
        sliceTo_eq_ok, panics_usizeSub, usizeSub_eq_ok, panics_forM_range',
        panics_checkSequentiality, checkSequentiality_eq_ok]
      constructor
      · rintro ⟨_, hsize, hlen | ⟨len, hlen, hrest⟩⟩
        · rcases hlen with huser | ⟨_, htoken⟩
          · exact .noUserInput hsize huser
          · exact .noToken hsize htoken
        · obtain ⟨huser, htoken, hlen⟩ := self.unpaddedOutputLen_eq_ok_iff.mp hlen
          apply PanicsOn.later hsize huser htoken hlen
          rcases hrest with hnone | ⟨proverInput, hinput, _, hok, hrest⟩
          · exact .inl (List.length_eq_zero_iff.mp (Nat.le_zero.mp (List.getElem?_eq_none_iff.mp hnone)))
          · refine .inr ⟨hok, proverInput, hinput, ?_⟩
            rcases hrest with hshort | ⟨given, ⟨hgiven, rfl⟩, hsame | ⟨same, hsame, _, htrue, hrest⟩⟩
            · exact .inl hshort
            · exact .inr (.inl ⟨hgiven, (panics_sameTokens hgiven).mp hsame⟩)
            · subst htrue
              refine .inr (.inr ⟨(sameTokens_eq_ok hgiven).mp hsame, ?_⟩)
              rcases hrest with hempty |
                ⟨first, ⟨_, rfl⟩, hlast | ⟨last, ⟨_, rfl⟩, i, hlow, hhigh, hrest⟩⟩
              · exact absurd (List.length_eq_zero_iff.mp (Nat.lt_one_iff.mp hempty)) huser
              · exact .inl (Nat.lt_one_iff.mp hlast)
              · exact .inr ⟨i, hlow, by omega, hrest⟩
      · intro h
        cases h with
        | emptyShape h => exact absurd h hshape
        | noUserInput hsize h => exact ⟨(), hsize, .inl (.inl h)⟩
        | noToken hsize h =>
          refine ⟨(), hsize, .inl ?_⟩
          by_cases huser : userInput = []
          · exact .inl huser
          · exact .inr ⟨huser, h⟩
        | later hsize huser htoken hlen h =>
          have hpos : 1 ≤ userInput.length := List.length_pos_iff.mpr huser
          have hlen := self.unpaddedOutputLen_eq_ok_iff.mpr ⟨huser, htoken, hlen⟩
          refine ⟨(), hsize, .inr ⟨_, hlen, ?_⟩⟩
          rcases h with rfl | ⟨hok, proverInput, hinput, h⟩
          · exact .inl rfl
          · refine .inr ⟨proverInput, hinput, (), hok, ?_⟩
            rcases h with hshort | ⟨hgiven, htoken⟩ | ⟨hstarts, h⟩
            · exact .inl hshort
            · exact .inr ⟨_, ⟨hgiven, rfl⟩, .inl ((panics_sameTokens hgiven).mpr htoken)⟩
            · refine .inr ⟨_, ⟨hstarts.1, rfl⟩,
                .inr ⟨true, (sameTokens_eq_ok hstarts.1).mpr hstarts, (), rfl, ?_⟩⟩
              refine .inr ⟨_, ⟨hpos, rfl⟩, ?_⟩
              rcases h with rfl | ⟨i, hlow, hhigh, hoff, hbefore⟩
              · exact .inl Nat.zero_lt_one
              · exact .inr ⟨_, ⟨by omega, rfl⟩, i, hlow, by omega, hoff, hbefore⟩

end LLMVerifierContext

/-! ## Generation and verification -/

namespace Driver

variable {p : Nat}

section Counting

/-- Puts out the successor of the last token up to 100, with four tokens at most. -/
def counting (eosToken : Nat) : Driver where
  next tokens :=
    if 0 ≤ tokens.getLastD 0 ∧ tokens.getLastD 0 < 100 then tokens.getLastD 0 + 1 else 0
  contextLength := 1024
  vocabSize := 101
  eosToken := eosToken
  maxContext := some 4

theorem counting_next (eosToken : Nat) (tokens : List Int) :
    -2 ^ 63 < (counting eosToken).next tokens ∧ (counting eosToken).next tokens < 2 ^ 63 := by
  unfold counting
  dsimp only
  split <;> omega

/-- Accepts the inferences of the model, on texts of small tokens. -/
def countingProof {p : Nat} (io : InferenceIo (ZMod p)) : Outcome Unit :=
  ensure (decide (io.output.map IoTensor.data =
    io.input.map fun tensor => tensor.data.map (· + 1))) "wrong inference"

end Counting

end Driver

end DeepProve
