import DeepProve.Softmax.ShiftCache

/-!
# When the cached shifts are those of the rows

The cache holds the shifts of the inputs that were evaluated since it was reset, one after the other.
A square input of the same length is taken to consist of these rows, whatever its contents are; and a
concatenation that fails loses the tensor that was taken out of the cache.
-/

namespace DeepProve

/-- The state that a call leaves. -/
def Call.stateAfter {σ α : Type} (x : Call σ α) (s : σ) : σ :=
  match x.run s with
  | .ok _ s => s
  | .error _ s => s

namespace Softmax

variable {T : Type} (ops : ShiftOps T)

/-- The state after an event. -/
def after (m : Mutex (ConcatenationCache T)) : Event T → Mutex (ConcatenationCache T)
  | .evaluate input => (calculateShiftData ops input).stateAfter m
  | .reset => Call.stateAfter resetCache m

/-- An evaluation gets as far as to concatenate the shifts of its rows. -/
def Concatenates (m : Mutex (ConcatenationCache T)) (input shift : T) : Prop :=
  (lookUp ops input).run m = .ok none m ∧ ops.rowShift input = .ok shift

/-- The shifts that an evaluation returns are those of its rows, and a concatenation that returns an
    error leaves the cache as it is. -/
structure NeverChanges (m : Mutex (ConcatenationCache T)) (input : T) : Prop where
  shifts : ∀ shift m', (calculateShiftData ops input).run m = .ok shift m' →
    ops.rowShift input = .ok shift
  kept : ∀ shift msg cache, Concatenates ops m input shift →
    (ConcatenationCache.concatenate ops shift).run m.value = .error (.err msg) cache →
      cache.cachedTensor = m.value.cachedTensor ∧
        cache.currentSequenceLength ops = m.value.currentSequenceLength ops

def Transparent (m : Mutex (ConcatenationCache T)) : Event T → Prop
  | .evaluate input => NeverChanges ops m input
  | .reset => True

/-! ## The inputs whose shifts are in the cache -/

/-- The shifts of some inputs, one after the other. -/
def catShifts (info : CachingInfo) (first : T) (rest : List T) : Outcome T := do
  let shifts ← ops.rowShift first
  rest.foldlM (fun shifts input => do
    let shift ← ops.rowShift input
    let concatenationDim ← info.getConcatenationDim (ops.shape shift).length
    ops.cat shifts shift concatenationDim) shifts

/-- The cache holds the shifts of the given inputs. -/
def Held (cache : ConcatenationCache T) : List T → Prop
  | [] => cache.cachedTensor = none
  | first :: rest => ∃ shifts, cache.cachedTensor = some shifts ∧
      catShifts ops cache.cachingInfo first rest = .ok shifts

/-- The inputs whose shifts are in the cache after an evaluation. -/
def heldAfter (m : Mutex (ConcatenationCache T)) (inputs : List T) : Event T → List T
  | .reset => if m.poisoned then inputs else []
  | .evaluate input =>
    match (lookUp ops input).run m, ops.rowShift input with
    | .ok none _, .ok shift =>
      match (ConcatenationCache.concatenate ops shift).run m.value with
      | .ok _ _ => inputs ++ [input]
      | .error _ cache => if cache.isInitialized then inputs else []
    | _, _ => inputs

/-- The cache, and the inputs whose shifts it holds. -/
abbrev CacheState (T : Type) := Mutex (ConcatenationCache T) × List T

def step (s : CacheState T) (e : Event T) : CacheState T :=
  (after ops s.1 e, heldAfter ops s.1 s.2 e)

/-- The input is square, and as long as the cache. -/
def Hits (m : Mutex (ConcatenationCache T)) (input : T) : Prop :=
  m.poisoned = false ∧ m.value.isInitialized = true ∧
    ∃ n, m.value.currentSequenceLength ops = .ok n ∧ ops.dim input (-2) = .ok n ∧
      ops.dim input (-1) = .ok n

/-- A square input that is as long as the cache has rows with the shifts of the rows that were
    evaluated, and what is in the cache can be concatenated. -/
structure InputFits (s : CacheState T) (input : T) : Prop where
  sameShifts : ∀ first rest, s.2 = first :: rest → Hits ops s.1 input →
    catShifts ops s.1.value.cachingInfo first rest = ops.rowShift input
  concatenated : ∀ cached shift concatenationDim msg, Concatenates ops s.1 input shift →
    s.1.value.cachedTensor = some cached →
    s.1.value.cachingInfo.getConcatenationDim (ops.shape shift).length = .ok concatenationDim →
    ops.cat cached shift concatenationDim ≠ .error (.err msg)

def Fits (s : CacheState T) : Event T → Prop
  | .evaluate input => InputFits ops s input
  | .reset => True

end Softmax

/-! ## Calls -/

section Calls

variable {σ α β : Type}

theorem Call.lift_bind_run (x : Outcome α) (f : α → Call σ β) (s : σ) :
    (Call.lift x >>= f).run s =
      match x with
      | .ok a => (f a).run s
      | .error e => .error e s := by
  cases x <;> rfl

theorem Mutex.lock_run {x : Call σ α} {m : Mutex σ} (h : m.poisoned = false) :
    Mutex.lock x m = match x m.value with
      | .ok a value => .ok a ⟨value, false⟩
      | .error (.err msg) value => .error (.err msg) ⟨value, false⟩
      | .error e value => .error e ⟨value, true⟩ := by
  unfold Mutex.lock
  rw [h]
  rfl

end Calls

namespace Softmax

variable {T : Type} (ops : ShiftOps T)

/-- What `concatenate` returns, and the cache that it leaves. -/
theorem concatenate_run (cache : ConcatenationCache T) (shift : T) :
    (ConcatenationCache.concatenate ops shift).run cache =
      match cache.cachingInfo.getConcatenationDim (ops.shape shift).length with
      | .error e => .error e cache
      | .ok concatenationDim =>
        match cache.cachedTensor with
        | none => .ok shift { cache with cachedTensor := some shift }
        | some cached =>
          match ops.cat cached shift concatenationDim with
          | .error e => .error e { cache with cachedTensor := none }
          | .ok catted => .ok catted { cache with cachedTensor := some catted } := by
  obtain ⟨cachedTensor, info⟩ := cache
  simp only [ConcatenationCache.concatenate, Call.get_bind_run, Call.lift_bind_run]
  cases info.getConcatenationDim (ops.shape shift).length with
  | error e => rfl
  | ok concatenationDim =>
    cases cachedTensor with
    | none => rfl
    | some cached =>
      simp only [Call.modify_bind_run, Call.lift_bind_run]
      cases ops.cat cached shift concatenationDim with
      | error e => rfl
      | ok catted => rfl

/-- A concatenation that fails leaves the cache as it is, or empty. -/
theorem concatenate_run_eq_err {cache cache' : ConcatenationCache T} {shift : T} {msg : String} :
    (ConcatenationCache.concatenate ops shift).run cache = .error (.err msg) cache' ↔
      cache.cachingInfo.getConcatenationDim (ops.shape shift).length = .error (.err msg) ∧
        cache' = cache ∨
      ∃ concatenationDim cached,
        cache.cachingInfo.getConcatenationDim (ops.shape shift).length = .ok concatenationDim ∧
        cache.cachedTensor = some cached ∧
        ops.cat cached shift concatenationDim = .error (.err msg) ∧
        cache' = { cache with cachedTensor := none } := by
  rw [concatenate_run]
  cases cache.cachingInfo.getConcatenationDim (ops.shape shift).length with
  | error e => simp [eq_comm]
  | ok concatenationDim =>
    cases cache.cachedTensor with
    | none => simp
    | some cached =>
      cases hcat : ops.cat cached shift concatenationDim with
      | error e => simp [hcat, eq_comm]
      | ok catted => simp [hcat]

section LookUp

variable {ops} {m m' : Mutex (ConcatenationCache T)} {input : T}

theorem cachedShift_eq_ok {cache : ConcatenationCache T} {result : Option T} :
    cachedShift ops input cache = .ok result ↔
      ∃ currentSequenceLength secondLastDim lastDim,
        cache.currentSequenceLength ops = .ok currentSequenceLength ∧
        ops.dim input (-2) = .ok secondLastDim ∧ ops.dim input (-1) = .ok lastDim ∧
        (if secondLastDim = lastDim ∧ currentSequenceLength = lastDim then
          some <$> cache.getCached else .ok none) = .ok result := by
  simp only [cachedShift, Outcome.bind_eq_ok, exists_and_left]

/-- What the look-up returns, and the cache that it leaves. -/
theorem lookUp_run (m : Mutex (ConcatenationCache T)) : (lookUp ops input).run m =
    if m.poisoned then
      .error (.panic "called `Result::unwrap()` on an `Err` value: PoisonError \x7b .. \x7d") m
    else if m.value.isInitialized then
      match cachedShift ops input m.value with
      | .ok result => .ok result m
      | .error (.err msg) => .error (.err msg) m
      | .error e => .error e ⟨m.value, true⟩
    else
      .ok none m := by
  obtain ⟨cache, poisoned⟩ := m
  cases poisoned with
  | true => rfl
  | false =>
    show (if cache.isInitialized then Mutex.lock do Call.lift (cachedShift ops input (← get))
      else pure none : Call (Mutex (ConcatenationCache T)) (Option T)).run ⟨cache, false⟩ = _
    cases cache.isInitialized with
    | false => rfl
    | true =>
      show Mutex.lock (do Call.lift (cachedShift ops input (← get))) ⟨cache, false⟩ =
        match cachedShift ops input cache with
        | .ok result => .ok result ⟨cache, false⟩
        | .error (.err msg) => .error (.err msg) ⟨cache, false⟩
        | .error e => .error e ⟨cache, true⟩
      have hget : (do Call.lift (cachedShift ops input (← get)) :
          Call (ConcatenationCache T) (Option T)) cache =
            (Call.lift (cachedShift ops input cache) : Call (ConcatenationCache T) _) cache := rfl
      rw [Mutex.lock_run rfl, hget]
      rcases cachedShift ops input cache with e | result
      · cases e <;> rfl
      · rfl

theorem lookUp_run_eq_ok {result : Option T} :
    (lookUp ops input).run m = .ok result m' ↔ m' = m ∧ m.poisoned = false ∧
      if m.value.isInitialized then
        cachedShift ops input m.value = .ok result
      else
        result = none := by
  rw [lookUp_run]
  cases m.poisoned with
  | true => simp
  | false =>
    cases m.value.isInitialized with
    | false => simp [eq_comm, and_comm]
    | true =>
      rcases cachedShift ops input m.value with e | r
      · cases e <;> simp
      · simp [eq_comm, and_comm]

/-- The cached tensor is returned for a square input of the length of the cache. -/
theorem lookUp_run_eq_some {shift : T} :
    (lookUp ops input).run m = .ok (some shift) m' ↔
      m' = m ∧ Hits ops m input ∧ m.value.cachedTensor = some shift := by
  rw [lookUp_run_eq_ok]
  refine and_congr_right fun _ => ?_
  unfold Hits
  cases hinit : m.value.isInitialized with
  | false => simp
  | true =>
    simp only [if_true, cachedShift_eq_ok, true_and, and_assoc]
    refine and_congr_right fun _ => ?_
    constructor
    · rintro ⟨n, a, b, hn, ha, hb, h⟩
      split at h
      · next heq =>
        obtain ⟨rfl, rfl⟩ := heq
        rw [ConcatenationCache.getCached] at h
        cases hcached : m.value.cachedTensor with
        | none => rw [hcached] at h; cases h
        | some c =>
          rw [hcached] at h
          cases h
          exact ⟨⟨_, hn, ha, hb⟩, rfl⟩
      · cases h
    · rintro ⟨⟨n, hn, ha, hb⟩, hcached⟩
      refine ⟨n, n, n, hn, ha, hb, ?_⟩
      rw [if_pos ⟨rfl, rfl⟩, ConcatenationCache.getCached, hcached]
      rfl

end LookUp

section Evaluate

variable {ops} {m m' : Mutex (ConcatenationCache T)} {input shift : T}

/-- An evaluation that returns has found its shifts in the cache, or has computed them. -/
theorem calculateShiftData_run_eq_ok (h : (calculateShiftData ops input).run m = .ok shift m') :
    Hits ops m input ∧ m.value.cachedTensor = some shift ∨ Concatenates ops m input shift := by
  unfold calculateShiftData at h
  obtain ⟨result, m₁, hlookUp, h⟩ := Call.bind_run_eq_ok.mp h
  cases result with
  | some cached =>
    obtain ⟨-, hhits, hcached⟩ := lookUp_run_eq_some.mp hlookUp
    cases h
    exact .inl ⟨hhits, hcached⟩
  | none =>
    obtain ⟨computed, hshift, h⟩ := Call.lift_bind_run_eq_ok.mp h
    obtain ⟨_, _, _, h⟩ := Call.bind_run_eq_ok.mp h
    cases h
    obtain ⟨rfl, -⟩ := lookUp_run_eq_ok.mp hlookUp
    exact .inr ⟨hlookUp, hshift⟩

/-- The cached shifts are returned as they are. -/
theorem calculateShiftData_run_of_hits (hhits : Hits ops m input)
    (hcached : m.value.cachedTensor = some shift) :
    (calculateShiftData ops input).run m = .ok shift m := by
  unfold calculateShiftData
  rw [EStateM.run_bind, lookUp_run_eq_some.mpr ⟨rfl, hhits, hcached⟩]
  rfl

/-- The cache after an evaluation is the one that the concatenation leaves. -/
theorem value_after_evaluate : (after ops m (.evaluate input)).value =
    match (lookUp ops input).run m, ops.rowShift input with
    | .ok none _, .ok shift => (ConcatenationCache.concatenate ops shift).stateAfter m.value
    | _, _ => m.value := by
  show ((calculateShiftData ops input).stateAfter m).value = _
  unfold Call.stateAfter calculateShiftData
  rw [EStateM.run_bind]
  cases hlookUp : (lookUp ops input).run m with
  | error e m₁ =>
    rw [lookUp_run] at hlookUp
    dsimp only
    split at hlookUp
    · cases hlookUp
      rfl
    · split at hlookUp
      · rcases hcached : cachedShift ops input m.value with e' | r
        · rw [hcached] at hlookUp
          cases e' <;> (cases hlookUp; rfl)
        · rw [hcached] at hlookUp
          cases hlookUp
      · cases hlookUp
  | ok result m₁ =>
    obtain ⟨rfl, hpoisoned, -⟩ := lookUp_run_eq_ok.mp hlookUp
    cases result with
    | some cached => rfl
    | none =>
      dsimp only
      rw [Call.lift_bind_run]
      cases ops.rowShift input with
      | error e => rfl
      | ok shift =>
        dsimp only
        rw [EStateM.run_bind]
        simp only [EStateM.run, Mutex.lock_run hpoisoned, Call.discard]
        cases ConcatenationCache.concatenate ops shift m₁.value with
        | ok _ cache => rfl
        | error e cache => cases e <;> rfl

end Evaluate

/-! ## What the cache holds -/

section Held

variable {ops} {cache : ConcatenationCache T} {inputs : List T}

/-- A cache that holds something holds the shifts of the inputs. -/
theorem Held.exists_cons (h : Held ops cache inputs) {shifts : T}
    (hcached : cache.cachedTensor = some shifts) : ∃ first rest, inputs = first :: rest ∧
      catShifts ops cache.cachingInfo first rest = .ok shifts := by
  cases inputs with
  | nil => cases h.symm.trans hcached
  | cons first rest =>
    obtain ⟨shifts', hshifts, hcat⟩ := h
    obtain rfl := Option.some.inj (hcached.symm.trans hshifts)
    exact ⟨first, rest, rfl, hcat⟩

theorem Held.eq_nil (h : Held ops cache inputs) (hcached : cache.cachedTensor = none) :
    inputs = [] := by
  cases inputs with
  | nil => rfl
  | cons first rest =>
    obtain ⟨_, hshifts, _⟩ := h
    cases hcached.symm.trans hshifts

/-- One more input is added to the cache. -/
theorem catShifts_concat {info : CachingInfo} {first input shifts shift catted : T} {rest : List T}
    {concatenationDim : Nat} (hrest : catShifts ops info first rest = .ok shifts)
    (hshift : ops.rowShift input = .ok shift)
    (hdim : info.getConcatenationDim (ops.shape shift).length = .ok concatenationDim)
    (hcat : ops.cat shifts shift concatenationDim = .ok catted) :
    catShifts ops info first (rest ++ [input]) = .ok catted := by
  obtain ⟨start, hstart, hfold⟩ := Outcome.bind_eq_ok.mp hrest
  unfold catShifts
  rw [hstart, Outcome.ok_bind, List.foldlM_append, hfold, Outcome.ok_bind, List.foldlM_cons, hshift,
    Outcome.ok_bind, hdim, Outcome.ok_bind, hcat]
  rfl

/-- The cache holds the shifts of the inputs that were added to it. -/
theorem Held.step {s : CacheState T} (h : Held ops s.1.value s.2) (e : Event T) :
    Held ops (step ops s e).1.value (step ops s e).2 := by
  obtain ⟨m, inputs⟩ := s
  cases e with
  | reset =>
    obtain ⟨cache, poisoned⟩ := m
    cases poisoned with
    | true => exact h
    | false => rfl
  | evaluate input =>
    show Held ops (after ops m (.evaluate input)).value (heldAfter ops m inputs (.evaluate input))
    rw [value_after_evaluate]
    unfold heldAfter
    dsimp only
    split
    · next m₁ shift hlookUp hshift =>
      rw [Call.stateAfter, concatenate_run]
      cases hdim : m.value.cachingInfo.getConcatenationDim (ops.shape shift).length with
      | error e =>
        dsimp only
        cases hcached : m.value.cachedTensor with
        | none =>
          rw [ConcatenationCache.isInitialized, hcached]
          exact hcached
        | some shifts =>
          rw [ConcatenationCache.isInitialized, hcached]
          exact h
      | ok concatenationDim =>
        cases hcached : m.value.cachedTensor with
        | none =>
          obtain rfl := h.eq_nil hcached
          refine ⟨shift, rfl, ?_⟩
          show (do let shifts ← ops.rowShift input; [].foldlM _ shifts) = _
          rw [hshift]
          rfl
        | some shifts =>
          dsimp only
          cases hcat : ops.cat shifts shift concatenationDim with
          | error e => rfl
          | ok catted =>
            obtain ⟨first, rest, rfl, hrest⟩ := h.exists_cons hcached
            exact ⟨catted, rfl, catShifts_concat hrest hshift hdim hcat⟩
    · exact h

/-- No result is changed in one step exactly if the input fits. -/
theorem transparent_iff {s : CacheState T} (h : Held ops s.1.value s.2) (e : Event T) :
    Transparent ops s.1 e ↔ Fits ops s e := by
  obtain ⟨m, inputs⟩ := s
  cases e with
  | reset => exact Iff.rfl
  | evaluate input =>
    constructor
    · rintro ⟨hshifts, hkept⟩
      refine ⟨fun first rest hinputs hhits => ?_, fun cached shift dim msg hconcat hcached hdim hcat => ?_⟩
      · obtain ⟨shifts, hcached⟩ := Option.isSome_iff_exists.mp hhits.2.1
        obtain ⟨first', rest', hinputs', hcat⟩ := h.exists_cons hcached
        obtain ⟨rfl, rfl⟩ := List.cons.inj (hinputs.symm.trans hinputs')
        exact hcat.trans (hshifts shifts m (calculateShiftData_run_of_hits hhits hcached)).symm
      · -- the tensor that was taken out of the cache is lost
        have hrun := (concatenate_run_eq_err ops).mpr (.inr ⟨dim, cached, hdim, hcached, hcat, rfl⟩)
        cases (hkept shift msg _ hconcat hrun).1.trans hcached
    · rintro ⟨hsame, hreturns⟩
      refine ⟨fun shift m' hrun => ?_, fun shift msg cache hconcat hrun => ?_⟩
      · rcases calculateShiftData_run_eq_ok hrun with ⟨hhits, hcached⟩ | hconcat
        · obtain ⟨first, rest, hinputs, hcat⟩ := h.exists_cons hcached
          exact (hsame first rest hinputs hhits).symm.trans hcat
        · exact hconcat.2
      · rcases (concatenate_run_eq_err ops).mp hrun with ⟨-, rfl⟩ | ⟨dim, cached, hdim, hcached, hcat, -⟩
        · exact ⟨rfl, rfl⟩
        · exact absurd hcat (hreturns cached shift dim msg hconcat hcached hdim)

end Held

/-- The steps of a softmax. -/
def Leads (s : CacheState T) (e : Event T) (s' : CacheState T) : Prop := s' = step ops s e

/-- No result is changed along a run exactly if every square input of the length of the cache
    consists of rows with the shifts of those that were evaluated, and no concatenation fails. -/
theorem shiftCache_transparent_iff (info : CachingInfo) (events : List (Event T)) :
    EveryStep (Leads ops) (fun s e => Transparent ops s.1 e) (⟨⟨none, info⟩, false⟩, []) events ↔
      EveryStep (Leads ops) (Fits ops) (⟨⟨none, info⟩, false⟩, []) events :=
  everyStep_congr (fun s : CacheState T => Held ops s.1.value s.2)
    (fun s e s' h _ hlead => by
      obtain rfl : s' = step ops s e := hlead
      exact h.step e)
    (fun _ e h => transparent_iff h e) rfl

/-- Matrices, with the largest entry of a row as its shift. -/
def rowMaxima : ShiftOps (List (List Nat)) where
  shape rows := [rows.length, (rows.headD []).length]
  cat rows rows' _ := .ok (rows ++ rows')
  rowShift rows := .ok (rows.map fun row => [row.foldl max 0])

/-- A matrix with other rows is given the shifts of the first one. -/
theorem shiftCache_not_transparent :
    ¬ EveryStep (Leads rowMaxima) (fun s e => Transparent rowMaxima s.1 e) (newCache, [])
      [.evaluate [[0, 0], [0, 0]], .evaluate [[1, 1], [1, 1]]] := by
  rintro ⟨-, hrest⟩
  have hsecond : NeverChanges rowMaxima ⟨⟨some [[0], [0]], .dynamic (-2)⟩, false⟩ [[1, 1], [1, 1]] :=
    (hrest _ rfl).1
  have hhits : Hits rowMaxima ⟨⟨some [[0], [0]], .dynamic (-2)⟩, false⟩ [[1, 1], [1, 1]] :=
    ⟨rfl, rfl, 2, rfl, rfl, rfl⟩
  cases hsecond.shifts _ _ (calculateShiftData_run_of_hits hhits rfl)

end Softmax

end DeepProve
