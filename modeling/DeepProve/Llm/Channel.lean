import DeepProve.Llm.Generate

/-!
# The threads of a generation

`run_elements_with_runner` of `model/llm.rs` runs the model in a loop and sends each token to the
results thread, over a channel that holds ten tokens. The results thread sets a flag and leaves
when it receives the token that ends the text, and drops its end of the channel when it leaves.

Each of the two threads is a function on the state of both, and any of the two may take the next
step.
-/

namespace DeepProve

/-- Where the generation loop is. -/
inductive LoopState where
  /-- At the head of the loop. -/
  | head
  /-- The flag was not set; the model is to be run. -/
  | run
  /-- The token is to be sent. -/
  | send (token : Int)
  /-- The loop has been left, and its end of the channel dropped. -/
  | finished
  /-- `Results thread is gone`. -/
  | failed
  deriving DecidableEq

/-- Where the results thread is. -/
inductive ResultsState where
  /-- Waits for a token. -/
  | recv
  /-- Has received the token that ends the text. -/
  | eos
  /-- Has set the flag. -/
  | leaving
  /-- Has returned, and dropped its end of the channel. -/
  | returned
  deriving DecidableEq

/-- The two threads, the flag and the channel. -/
structure Threads where
  loop : LoopState
  /-- The tokens that have been sent. -/
  sent : List Int
  stop : Bool
  channel : List Int
  results : ResultsState
  generatedTokens : List Int
  deriving DecidableEq

/-- The bound of the `sync_channel`. -/
def channelBound : Nat := 10

namespace Threads

def init : Threads := ⟨.head, [], false, [], .recv, []⟩

/-- The loop has dropped its end of the channel. -/
def disconnected (s : Threads) : Bool := s.loop == .finished || s.loop == .failed

end Threads

inductive Thread where
  | loop
  | results

namespace Driver

variable (self : Driver) (prompt : List Int)

/-- One step of the generation loop. -/
def loopStep (s : Threads) : Option Threads :=
  match s.loop with
  | .head =>
    if prompt.length + s.sent.length ≤ self.maxWindow then
      if s.stop then
        some { s with loop := .finished }
      else
        some { s with loop := .run }
    else
      some { s with loop := .finished }
  | .run => some { s with loop := .send (self.next (prompt ++ s.sent)) }
  | .send token =>
    if s.results = .returned then
      some { s with loop := .failed }
    else if s.channel.length < channelBound then
      some { s with loop := .head, sent := s.sent ++ [token], channel := s.channel ++ [token] }
    else
      none
  | .finished => none
  | .failed => none

/-- One step of the results thread. -/
def resultsStep (s : Threads) : Option Threads :=
  match s.results with
  | .recv =>
    match s.channel with
    | token :: rest =>
      if token = fromUsize self.eosToken then
        some { s with results := .eos, channel := rest }
      else
        some { s with generatedTokens := s.generatedTokens ++ [token], channel := rest }
    | [] =>
      if s.disconnected then
        some { s with results := .returned, generatedTokens := s.generatedTokens.dropLast }
      else
        none
  | .eos => some { s with results := .leaving, stop := true }
  | .leaving => some { s with results := .returned }
  | .returned => none

def step (s : Threads) : Thread → Option Threads
  | .loop => self.loopStep prompt s
  | .results => self.resultsStep s

/-- A run of the two threads, in the given order. -/
def schedule (s : Threads) : List Thread → Option Threads
  | [] => some s
  | t :: ts => do
    let s' ← self.step prompt s t
    schedule s' ts

/-- The states after any number of steps, in any order. -/
def Reached (s : Threads) : Prop :=
  Relation.ReflTransGen (fun s s' => ∃ t, self.step prompt s t = some s') Threads.init s

/-- The text that is to be generated: the tokens before the first that ends it, or all but the
    last. -/
def generatedText : List Int :=
  let tokens := generate self.next prompt (self.maxWindow + 1 - prompt.length)
  if fromUsize self.eosToken ∈ tokens then
    tokens.takeWhile (· ≠ fromUsize self.eosToken)
  else
    tokens.dropLast

/-! ## The invariant -/

/-- The tokens before the first that ends the text have been received. -/
def BeforeEos (s : Threads) : Prop :=
  fromUsize self.eosToken ∉ s.generatedTokens ∧
    s.generatedTokens ++ [fromUsize self.eosToken] <+: s.sent

/-- All tokens have been received, and the last one removed. -/
def Drained (s : Threads) : Prop :=
  s.loop = .finished ∧ s.stop = false ∧ fromUsize self.eosToken ∉ s.sent ∧
    s.generatedTokens = s.sent.dropLast

/-- What the results thread has done with the tokens that were sent. -/
def Received (s : Threads) : Prop :=
  match s.results with
  | .recv => s.stop = false ∧ fromUsize self.eosToken ∉ s.generatedTokens ∧
      s.generatedTokens ++ s.channel = s.sent
  | .eos => s.stop = false ∧ self.BeforeEos s
  | .leaving => self.BeforeEos s
  | .returned => self.BeforeEos s ∨ self.Drained s

/-- What holds of the loop where it is. -/
def Looping (s : Threads) : Prop :=
  match s.loop with
  | .head => True
  | .run => prompt.length + s.sent.length ≤ self.maxWindow
  | .send token => prompt.length + s.sent.length ≤ self.maxWindow ∧
      token = self.token prompt s.sent.length
  | .finished => s.stop = true ∨ prompt.length + s.sent.length = self.maxWindow + 1
  | .failed => prompt.length + s.sent.length ≤ self.maxWindow ∧ s.results = .returned

structure Inv (config : Driver) (prompt : List Int) (s : Threads) : Prop where
  /-- The tokens that were sent are those of the model. -/
  sent : s.sent = generate config.next prompt s.sent.length
  bound : prompt.length + s.sent.length ≤ config.maxWindow + 1
  looping : config.Looping prompt s
  received : config.Received s

variable {self prompt}

theorem inv_init (hwindow : prompt.length ≤ self.maxWindow) : self.Inv prompt Threads.init where
  sent := rfl
  bound := Nat.le_succ_of_le hwindow
  looping := trivial
  received := ⟨rfl, List.not_mem_nil, rfl⟩

variable {s s' : Threads}

theorem BeforeEos.send (h : self.BeforeEos s) (token : Int) :
    self.BeforeEos
      { s with loop := .head, sent := s.sent ++ [token], channel := s.channel ++ [token] } :=
  ⟨h.1, h.2.trans (List.prefix_append _ _)⟩

/-- The results thread is not concerned with where the loop is, as long as it goes on. -/
theorem Received.setLoop (h : self.Received s) (hloop : s.loop ≠ .finished) (loop : LoopState) :
    self.Received { s with loop := loop } := by
  unfold Received at h ⊢
  cases hresults : s.results with
  | recv =>
    rw [hresults] at h
    exact h
  | eos =>
    rw [hresults] at h
    exact h
  | leaving =>
    rw [hresults] at h
    exact h
  | returned =>
    rw [hresults] at h
    exact .inl (h.resolve_right fun hdrained => hloop hdrained.1)

theorem Received.send (h : self.Received s) (hresults : s.results ≠ .returned) (token : Int) :
    self.Received
      { s with loop := .head, sent := s.sent ++ [token], channel := s.channel ++ [token] } := by
  unfold Received at h ⊢
  cases hstate : s.results with
  | recv =>
    rw [hstate] at h
    obtain ⟨hstop, hnone, hsent⟩ := h
    refine ⟨hstop, hnone, ?_⟩
    show s.generatedTokens ++ (s.channel ++ [token]) = s.sent ++ [token]
    rw [← List.append_assoc, hsent]
  | eos =>
    rw [hstate] at h
    exact ⟨h.1, h.2.send token⟩
  | leaving =>
    rw [hstate] at h
    exact h.send token
  | returned => exact absurd hstate hresults

/-- A step of the loop. -/
theorem Inv.loopStep (h : self.Inv prompt s) (hstep : self.loopStep prompt s = some s') :
    self.Inv prompt s' := by
  obtain ⟨hsent, hbound, hlooping, hreceived⟩ := h
  unfold Driver.loopStep at hstep
  unfold Looping at hlooping
  cases hloop : s.loop with
  | head =>
    have hreceived' := hreceived.setLoop (by simp [hloop])
    simp only [hloop] at hstep
    split at hstep
    · next hle =>
      split at hstep
      · next hstop =>
        obtain rfl := Option.some.inj hstep
        exact ⟨hsent, hbound, .inl hstop, hreceived' _⟩
      · obtain rfl := Option.some.inj hstep
        exact ⟨hsent, hbound, hle, hreceived' _⟩
    · next hgt =>
      obtain rfl := Option.some.inj hstep
      have hall : prompt.length + s.sent.length = self.maxWindow + 1 := by omega
      exact ⟨hsent, hbound, .inr hall, hreceived' _⟩
  | run =>
    simp only [hloop] at hstep hlooping
    obtain rfl := Option.some.inj hstep
    refine ⟨hsent, hbound, ⟨hlooping, ?_⟩, hreceived.setLoop (by simp [hloop]) _⟩
    show self.next (prompt ++ s.sent) = self.next (prompt ++ generate self.next prompt s.sent.length)
    rw [← hsent]
  | send token =>
    simp only [hloop] at hstep hlooping
    obtain ⟨hle, htoken⟩ := hlooping
    split at hstep
    · next hreturned =>
      obtain rfl := Option.some.inj hstep
      exact ⟨hsent, hbound, ⟨hle, hreturned⟩, hreceived.setLoop (by simp [hloop]) _⟩
    · next hreturned =>
      split at hstep
      · obtain rfl := Option.some.inj hstep
        refine ⟨?_, ?_, trivial, hreceived.send hreturned token⟩
        · show s.sent ++ [token] = generate self.next prompt (s.sent ++ [token]).length
          rw [List.length_append, List.length_singleton, generate, ← hsent, htoken, Driver.token,
            ← hsent]
        · show prompt.length + (s.sent ++ [token]).length ≤ self.maxWindow + 1
          rw [List.length_append, List.length_singleton]
          omega
      · cases hstep
  | finished =>
    simp only [hloop] at hstep
    cases hstep
  | failed =>
    simp only [hloop] at hstep
    cases hstep

/-- A step of the results thread. -/
theorem Inv.resultsStep (h : self.Inv prompt s) (hstep : self.resultsStep s = some s') :
    self.Inv prompt s' := by
  obtain ⟨hsent, hbound, hlooping, hreceived⟩ := h
  unfold Driver.resultsStep at hstep
  unfold Received at hreceived
  -- the loop stays where it is, and has not failed
  have hloops : ∀ t : Threads, t.loop = s.loop → t.sent = s.sent → s.results ≠ .returned →
      (s.stop = true → t.stop = true) → self.Looping prompt t := by
    intro t hloop hsame hresults hstop
    unfold Looping at hlooping ⊢
    rw [hloop, hsame]
    cases hstate : s.loop with
    | head => trivial
    | run =>
      rw [hstate] at hlooping
      exact hlooping
    | send token =>
      rw [hstate] at hlooping
      exact hlooping
    | finished =>
      rw [hstate] at hlooping
      exact hlooping.imp hstop id
    | failed =>
      rw [hstate] at hlooping
      exact absurd hlooping.2 hresults
  cases hresults : s.results with
  | recv =>
    have hactive : s.results ≠ .returned := by rw [hresults]; decide
    simp only [hresults] at hstep hreceived
    obtain ⟨hstop, hnone, htokens⟩ := hreceived
    cases hchannel : s.channel with
    | nil =>
      simp only [hchannel] at hstep
      split at hstep
      · next hdisconnected =>
        obtain rfl := Option.some.inj hstep
        rw [hchannel, List.append_nil] at htokens
        have hfinished : s.loop = .finished := by
          have hends : s.loop = .finished ∨ s.loop = .failed := by
            simpa [Threads.disconnected] using hdisconnected
          rcases hends with hfinished | hfailed
          · exact hfinished
          · unfold Looping at hlooping
            rw [hfailed] at hlooping
            exact absurd hlooping.2 hactive
        refine ⟨hsent, hbound, hloops _ rfl rfl hactive id, .inr ?_⟩
        exact ⟨hfinished, hstop, htokens ▸ hnone, congrArg _ htokens⟩
      · cases hstep
    | cons token rest =>
      simp only [hchannel] at hstep
      rw [hchannel] at htokens
      split at hstep
      · next heos =>
        obtain rfl := Option.some.inj hstep
        refine ⟨hsent, hbound, hloops _ rfl rfl hactive id, hstop, hnone, ?_⟩
        show s.generatedTokens ++ [fromUsize self.eosToken] <+: s.sent
        rw [← htokens, heos]
        exact ⟨rest, by rw [List.append_assoc, List.singleton_append]⟩
      · next hne =>
        obtain rfl := Option.some.inj hstep
        refine ⟨hsent, hbound, hloops _ rfl rfl hactive id, ?_⟩
        simp only [Received]
        refine ⟨hstop, ?_, ?_⟩
        · rw [List.mem_append, List.mem_singleton]
          rintro (hmem | heq)
          · exact hnone hmem
          · exact hne heq.symm
        · rw [List.append_assoc, List.singleton_append, htokens]
  | eos =>
    have hactive : s.results ≠ .returned := by rw [hresults]; decide
    simp only [hresults] at hstep hreceived
    obtain rfl := Option.some.inj hstep
    exact ⟨hsent, hbound, hloops _ rfl rfl hactive (fun _ => rfl), hreceived.2⟩
  | leaving =>
    have hactive : s.results ≠ .returned := by rw [hresults]; decide
    simp only [hresults] at hstep hreceived
    obtain rfl := Option.some.inj hstep
    exact ⟨hsent, hbound, hloops _ rfl rfl hactive id, .inl hreceived⟩
  | returned =>
    simp only [hresults] at hstep
    cases hstep

/-- What holds after any number of steps of the two threads. -/
theorem Reached.inv (hwindow : prompt.length ≤ self.maxWindow) (h : self.Reached prompt s) :
    self.Inv prompt s := by
  induction h with
  | refl => exact inv_init hwindow
  | tail _ hstep ih =>
    obtain ⟨t, hstep⟩ := hstep
    cases t with
    | loop => exact ih.loopStep hstep
    | results => exact ih.resultsStep hstep

/-! ## The text -/

theorem mem_and_takeWhile_of_prefix {eos : Int} {xs tokens : List Int} (hnone : eos ∉ xs)
    (h : xs ++ [eos] <+: tokens) : eos ∈ tokens ∧ tokens.takeWhile (· ≠ eos) = xs := by
  obtain ⟨rest, rfl⟩ := h
  constructor
  · simp
  · have hall : ∀ x ∈ xs, decide (x ≠ eos) = true := by
      intro x hx
      rw [decide_eq_true_eq]
      exact fun heq => hnone (heq ▸ hx)
    rw [List.append_assoc, List.takeWhile_append_of_pos hall]
    simp

theorem generate_take {next : List Int → Int} {k m : Nat} (h : k ≤ m) :
    generate next prompt k <+: generate next prompt m := by
  rw [← take_generate h]
  exact List.take_prefix k _

/-- A loop that finishes gets the same text for any interleaving. -/
theorem Reached.generatedTokens_eq (hwindow : prompt.length ≤ self.maxWindow)
    (h : self.Reached prompt s) (hloop : s.loop = .finished) (hresults : s.results = .returned) :
    s.generatedTokens = self.generatedText prompt := by
  obtain ⟨hsent, hbound, hlooping, hreceived⟩ := h.inv hwindow
  unfold Received at hreceived
  rw [hresults] at hreceived
  unfold generatedText
  dsimp only
  rcases hreceived with ⟨hnone, hinit⟩ | ⟨_, hstop, hnone, htokens⟩
  · -- the tokens that were sent are the first of those of the window
    rw [hsent] at hinit
    have hinit := hinit.trans
      (@generate_take _ _ _ (self.maxWindow + 1 - prompt.length) (by omega))
    obtain ⟨hmem, htake⟩ := mem_and_takeWhile_of_prefix hnone hinit
    rw [if_pos hmem, htake]
  · -- without the flag, all tokens of the window were sent
    unfold Looping at hlooping
    rw [hloop] at hlooping
    have hall : prompt.length + s.sent.length = self.maxWindow + 1 :=
      hlooping.resolve_left (by simp [hstop])
    have hcount : s.sent.length = self.maxWindow + 1 - prompt.length := by omega
    rw [hcount] at hsent
    rw [← hsent, if_neg hnone, htokens]

/-- The text on which the final inference is run is that of the threads. -/
theorem sentence_eq_generatedText (self : Driver) (prompt : List Int) :
    self.sentence prompt = prompt ++ self.generatedText prompt := by
  rw [sentence, resultsThread_eq_takeWhile]
  rfl

/-- The loop fails only after the token that ends the text, with room for another one. -/
theorem Reached.eos_of_failed (hwindow : prompt.length ≤ self.maxWindow) (h : self.Reached prompt s)
    (hloop : s.loop = .failed) :
    ∃ k, prompt.length + k < self.maxWindow ∧
      self.token prompt k = fromUsize self.eosToken := by
  obtain ⟨hsent, _, hlooping, hreceived⟩ := h.inv hwindow
  unfold Looping at hlooping
  rw [hloop] at hlooping
  obtain ⟨hle, hreturned⟩ := hlooping
  unfold Received at hreceived
  rw [hreturned] at hreceived
  rcases hreceived with ⟨_, hinit⟩ | ⟨hfinished, _⟩
  · have hlength := hinit.length_le
    rw [List.length_append, List.length_singleton] at hlength
    have hget := List.prefix_iff_getElem?.mp hinit s.generatedTokens.length (by simp)
    rw [hsent, getElem?_generate hlength] at hget
    simp only [List.getElem_append_right le_rfl, Nat.sub_self, List.getElem_singleton] at hget
    exact ⟨s.generatedTokens.length, by omega, Option.some.inj hget⟩
  · rw [hloop] at hfinished
    cases hfinished

/-! ## The run that fails -/

theorem Reached.schedule (h : self.Reached prompt s) {ts : List Thread}
    (hrun : self.schedule prompt s ts = some s') : self.Reached prompt s' := by
  induction ts generalizing s with
  | nil =>
    obtain rfl := Option.some.inj hrun
    exact h
  | cons t ts ih =>
    rw [Driver.schedule, Option.bind_eq_bind, Option.bind_eq_some_iff] at hrun
    obtain ⟨next, hstep, hrun⟩ := hrun
    exact ih (Relation.ReflTransGen.tail h ⟨t, hstep⟩) hrun

/-- A token is generated and sent. -/
theorem schedule_send {k : Nat} (hk : prompt.length + k ≤ self.maxWindow) :
    self.schedule prompt
        ⟨.head, generate self.next prompt k, false, [], .recv, generate self.next prompt k⟩
        [.loop, .loop, .loop] =
      some ⟨.head, generate self.next prompt (k + 1), false, [self.token prompt k], .recv,
        generate self.next prompt k⟩ := by
  simp [Driver.schedule, Driver.step, loopStep, hk, channelBound, generate, token]

/-- A token that does not end the text is received. -/
theorem schedule_receive {k : Nat} (hne : self.token prompt k ≠ fromUsize self.eosToken) :
    self.schedule prompt
        ⟨.head, generate self.next prompt (k + 1), false, [self.token prompt k], .recv,
          generate self.next prompt k⟩ [.results] =
      some ⟨.head, generate self.next prompt (k + 1), false, [], .recv,
        generate self.next prompt (k + 1)⟩ := by
  simp [Driver.schedule, Driver.step, resultsStep, hne]
  rfl

/-- Each token is received before the next one is generated. -/
theorem reached_head {k : Nat} (hk : prompt.length + k ≤ self.maxWindow + 1)
    (hbefore : ∀ j < k, self.token prompt j ≠ fromUsize self.eosToken) :
    self.Reached prompt
      ⟨.head, generate self.next prompt k, false, [], .recv, generate self.next prompt k⟩ := by
  induction k with
  | zero => exact .refl
  | succ k ih =>
    have hhead := ih (by omega) fun j hj => hbefore j (Nat.lt_succ_of_lt hj)
    have hsent := hhead.schedule (schedule_send (by omega))
    exact hsent.schedule (schedule_receive (hbefore k (Nat.lt_succ_self k)))

/-- The loop passes its check before the flag is set, and the results thread leaves before the
    next token is sent. -/
theorem reached_failed {k : Nat} (hk : prompt.length + k < self.maxWindow)
    (heos : self.token prompt k = fromUsize self.eosToken)
    (hbefore : ∀ j < k, self.token prompt j ≠ fromUsize self.eosToken) :
    ∃ s, self.Reached prompt s ∧ s.loop = .failed := by
  have hsent := (reached_head (by omega) hbefore).schedule (schedule_send hk.le)
  have hnext : prompt.length + (k + 1) ≤ self.maxWindow := hk
  have hfailed : self.schedule prompt
      ⟨.head, generate self.next prompt (k + 1), false, [self.token prompt k], .recv,
        generate self.next prompt k⟩ [.loop, .loop, .results, .results, .results, .loop] =
      some ⟨.failed, generate self.next prompt (k + 1), true, [], .returned,
        generate self.next prompt k⟩ := by
    simp [Driver.schedule, Driver.step, loopStep, resultsStep, hnext, heos]
  exact ⟨_, hsent.schedule hfailed, rfl⟩

/-! ## The threads come to an end -/

/-- The threads have come to an end. -/
def Ended (s : Threads) : Prop :=
  (s.loop = .finished ∨ s.loop = .failed) ∧ s.results = .returned

/-- The loop goes on unless it waits for room in the channel. -/
theorem loopStep_isSome (hends : s.disconnected = false)
    (hroom : s.results = .returned ∨ s.channel.length < channelBound) :
    (self.loopStep prompt s).isSome := by
  unfold loopStep
  cases hloop : s.loop with
  | head =>
    dsimp only
    split
    · split <;> rfl
    · rfl
  | run => rfl
  | send token =>
    dsimp only
    by_cases hreturned : s.results = .returned
    · rw [if_pos hreturned]
      rfl
    · rw [if_neg hreturned, if_pos (hroom.resolve_left hreturned)]
      rfl
  | finished => simp [Threads.disconnected, hloop] at hends
  | failed => simp [Threads.disconnected, hloop] at hends

/-- The results thread goes on unless it waits for a token. -/
theorem resultsStep_isSome (hactive : s.results ≠ .returned)
    (htoken : s.channel ≠ [] ∨ s.disconnected = true) : (self.resultsStep s).isSome := by
  unfold resultsStep
  cases hresults : s.results with
  | recv =>
    cases hchannel : s.channel with
    | nil =>
      dsimp only
      rw [if_pos (htoken.resolve_left fun h => h hchannel)]
      rfl
    | cons token rest =>
      dsimp only
      split <;> rfl
  | eos => rfl
  | leaving => rfl
  | returned => exact absurd hresults hactive

variable (self prompt) in
/-- The two threads never wait for each other. -/
theorem progress (s : Threads) (h : ¬ Ended s) : ∃ t, (self.step prompt s t).isSome := by
  by_cases hreturned : s.results = .returned
  · refine ⟨.loop, loopStep_isSome ?_ (.inl hreturned)⟩
    have hends : ¬ (s.loop = .finished ∨ s.loop = .failed) := fun hends => h ⟨hends, hreturned⟩
    simpa [Threads.disconnected] using hends
  · by_cases htoken : s.channel ≠ [] ∨ s.disconnected = true
    · exact ⟨.results, resultsStep_isSome hreturned htoken⟩
    · -- the channel is empty, so there is room in it
      obtain ⟨hempty, hends⟩ := not_or.mp htoken
      refine ⟨.loop, loopStep_isSome (Bool.eq_false_iff.mpr hends) (.inr ?_)⟩
      rw [not_not.mp hempty]
      decide

/-- The steps that are left: each round of the loop takes three, and one to receive the token. -/
def stepsLeft (self : Driver) (prompt : List Int) (s : Threads) : Nat :=
  let rounds := self.maxWindow + 1 - (prompt.length + s.sent.length)
  let loop := match s.loop with
    | .head => 4 * rounds + 1
    | .run => 4 * rounds
    | .send _ => 4 * rounds - 1
    | .finished => 0
    | .failed => 0
  let results := match s.results with
    | .recv => 3
    | .eos => 2
    | .leaving => 1
    | .returned => 0
  loop + s.channel.length + results

theorem loopStep_lt (h : self.Inv prompt s) (hstep : self.loopStep prompt s = some s') :
    self.stepsLeft prompt s' < self.stepsLeft prompt s := by
  obtain ⟨_, hbound, hlooping, _⟩ := h
  unfold Driver.loopStep at hstep
  unfold Looping at hlooping
  unfold stepsLeft
  cases hloop : s.loop with
  | head =>
    simp only [hloop] at hstep
    split at hstep
    · next hle =>
      split at hstep
      all_goals
        obtain rfl := Option.some.inj hstep
        dsimp only
        omega
    · obtain rfl := Option.some.inj hstep
      dsimp only
      omega
  | run =>
    simp only [hloop] at hstep hlooping
    obtain rfl := Option.some.inj hstep
    dsimp only
    omega
  | send token =>
    simp only [hloop] at hstep hlooping
    split at hstep
    · obtain rfl := Option.some.inj hstep
      dsimp only
      omega
    · split at hstep
      · obtain rfl := Option.some.inj hstep
        simp only [List.length_append, List.length_singleton]
        omega
      · cases hstep
  | finished =>
    simp only [hloop] at hstep
    cases hstep
  | failed =>
    simp only [hloop] at hstep
    cases hstep

theorem resultsStep_lt (hstep : self.resultsStep s = some s') :
    self.stepsLeft prompt s' < self.stepsLeft prompt s := by
  unfold Driver.resultsStep at hstep
  unfold stepsLeft
  cases hresults : s.results with
  | recv =>
    cases hchannel : s.channel with
    | nil =>
      simp only [hresults, hchannel] at hstep
      split at hstep
      · obtain rfl := Option.some.inj hstep
        dsimp only
        omega
      · cases hstep
    | cons token rest =>
      simp only [hresults, hchannel] at hstep
      split at hstep
      all_goals
        obtain rfl := Option.some.inj hstep
        simp only [List.length_cons]
        omega
  | eos =>
    simp only [hresults] at hstep
    obtain rfl := Option.some.inj hstep
    dsimp only
    omega
  | leaving =>
    simp only [hresults] at hstep
    obtain rfl := Option.some.inj hstep
    dsimp only
    omega
  | returned =>
    simp only [hresults] at hstep
    cases hstep

/-- Every step leaves fewer steps. -/
theorem Reached.step_lt (hwindow : prompt.length ≤ self.maxWindow) (h : self.Reached prompt s)
    {t : Thread} (hstep : self.step prompt s t = some s') :
    self.stepsLeft prompt s' < self.stepsLeft prompt s := by
  cases t with
  | loop => exact loopStep_lt (h.inv hwindow) hstep
  | results => exact resultsStep_lt hstep

/-- A run uses up the steps that are left. -/
theorem Reached.schedule_le (hwindow : prompt.length ≤ self.maxWindow) (h : self.Reached prompt s)
    {ts : List Thread} (hrun : self.schedule prompt s ts = some s') :
    ts.length + self.stepsLeft prompt s' ≤ self.stepsLeft prompt s := by
  induction ts generalizing s with
  | nil =>
    obtain rfl := Option.some.inj hrun
    simp
  | cons t ts ih =>
    rw [Driver.schedule, Option.bind_eq_bind, Option.bind_eq_some_iff] at hrun
    obtain ⟨next, hstep, hrun⟩ := hrun
    have hlt := h.step_lt hwindow hstep
    have hle := ih (h.tail ⟨t, hstep⟩) hrun
    rw [List.length_cons]
    omega

/-- No run is longer than the window allows. One that cannot go on has joined the results thread: the
    final inference runs on what was collected, unless the loop failed after the end of the text. -/
theorem schedule_ends (self : Driver) (prompt : List Int) (hwindow : prompt.length ≤ self.maxWindow)
    {ts : List Thread} {s : Threads} (hrun : self.schedule prompt Threads.init ts = some s) :
    ts.length ≤ 4 * (self.maxWindow + 1 - prompt.length) + 4 ∧
      ((∀ t, self.step prompt s t = none) → s.results = .returned ∧
        (s.loop = .finished ∧ prompt ++ s.generatedTokens = self.sentence prompt ∨
          s.loop = .failed ∧ ∃ k, prompt.length + k < self.maxWindow ∧
            self.token prompt k = fromUsize self.eosToken)) := by
  constructor
  · have hle := Reached.schedule_le hwindow .refl hrun
    have hinit : self.stepsLeft prompt Threads.init =
        4 * (self.maxWindow + 1 - prompt.length) + 1 + 0 + 3 := rfl
    omega
  · intro hstuck
    have hreached := Reached.schedule .refl hrun
    have hended : Ended s := by
      by_contra hgoes
      obtain ⟨t, hsome⟩ := progress self prompt s hgoes
      simp [hstuck t] at hsome
    obtain ⟨hloop, hresults⟩ := hended
    refine ⟨hresults, hloop.imp (fun hfinished => ⟨hfinished, ?_⟩) fun hfailed => ⟨hfailed, ?_⟩⟩
    · rw [hreached.generatedTokens_eq hwindow hfinished hresults, sentence_eq_generatedText]
    · exact hreached.eos_of_failed hwindow hfailed

/-! ## Generation and its timing -/

/-- Generation depends on the timing exactly if a token ends the text before the last one that
    the window has room for. -/
theorem generation_timing (self : Driver) (prompt : List Int)
    (hwindow : prompt.length ≤ self.maxWindow) :
    (∀ s, self.Reached prompt s → s.loop ≠ .failed ∧
        (s.loop = .finished → s.results = .returned →
          s.generatedTokens = self.generatedText prompt)) ↔
      ∀ k, prompt.length + k < self.maxWindow → self.token prompt k ≠ fromUsize self.eosToken := by
  constructor
  · intro hall k hk heos
    -- the first token that ends the text
    have hex : ∃ k, self.token prompt k = fromUsize self.eosToken := ⟨k, heos⟩
    have hfirst : Nat.find hex ≤ k := Nat.find_min' hex heos
    obtain ⟨s, hreached, hfailed⟩ := reached_failed (by omega) (Nat.find_spec hex)
      fun j hj => Nat.find_min hex hj
    exact (hall s hreached).1 hfailed
  · intro hnone s hreached
    refine ⟨fun hfailed => ?_, hreached.generatedTokens_eq hwindow⟩
    obtain ⟨k, hk, heos⟩ := hreached.eos_of_failed hwindow hfailed
    exact hnone k hk heos

/-! ## A model that counts -/

section Counting

/-- Puts out the successor of the last token, with four tokens at most. -/
def successor (eosToken : Nat) : Driver where
  next tokens := tokens.getLastD 0 + 1
  contextLength := 1024
  vocabSize := 101
  eosToken := eosToken
  maxContext := some 4

/-- The text ends with 3, after which there is room for 4: the loop can fail. -/
theorem successor_three :
    ¬ ∀ s, (successor 3).Reached [1] s → s.loop ≠ .failed ∧
        (s.loop = .finished → s.results = .returned →
          s.generatedTokens = (successor 3).generatedText [1]) := by
  intro h
  have hrun : (successor 3).schedule [1] Threads.init
      [.loop, .loop, .loop, .loop, .loop, .loop, .results, .loop, .loop, .results, .results,
        .results, .loop] =
      some ⟨.failed, [2, 3], true, [], .returned, [2]⟩ := by decide
  exact (h _ (Reached.schedule .refl hrun)).1 rfl

/-- The text ends with 5, which is the last token: a run that ends has put out all of it. -/
theorem successor_five :
    ∃ s, (successor 5).Reached [1] s ∧ s.loop = .finished ∧ s.results = .returned ∧
      s.generatedTokens = (successor 5).generatedText [1] := by
  have hall : ∀ k, [(1 : Int)].length + k < (successor 5).maxWindow →
      (successor 5).token [1] k ≠ fromUsize (successor 5).eosToken := by
    intro k hk
    have hlt : k < 3 := by
      have hmax : (successor 5).maxWindow = 4 := rfl
      rw [hmax] at hk
      exact Nat.lt_of_add_lt_add_left hk
    match k, hlt with
    | 0, _ => decide
    | 1, _ => decide
    | 2, _ => decide
  have hrun : (successor 5).schedule [1] Threads.init
      [.loop, .loop, .loop, .results, .loop, .loop, .loop, .results, .loop, .loop, .loop, .results,
        .loop, .loop, .loop, .results, .results, .results, .loop] =
      some ⟨.finished, [2, 3, 4, 5], true, [], .returned, [2, 3, 4]⟩ := by decide
  have hreached := Reached.schedule .refl hrun
  have htext := (generation_timing (successor 5) [1] (by decide)).mpr hall _ hreached
  exact ⟨_, hreached, rfl, rfl, htext.2 rfl rfl⟩

/-- Unless it is late, the loop sees the flag and leaves. -/
theorem successor_ends : ∃ s, (successor 3).schedule [1] Threads.init
      [.loop, .loop, .loop, .results, .loop, .loop, .loop, .results, .results, .results, .loop] =
        some s ∧ s.results = .returned ∧ [1] ++ s.generatedTokens = (successor 3).sentence [1] := by
  have hrun : (successor 3).schedule [1] Threads.init
      [.loop, .loop, .loop, .results, .loop, .loop, .loop, .results, .results, .results, .loop] =
        some ⟨.finished, [2, 3], true, [], .returned, [2]⟩ := by decide
  have hends := schedule_ends (successor 3) [1] (by decide) hrun
  have htext := hends.2 fun t => by cases t <;> rfl
  exact ⟨_, hrun, htext.1, (htext.2.resolve_right fun hfailed => nomatch hfailed.1).2⟩

end Counting

end Driver

end DeepProve
