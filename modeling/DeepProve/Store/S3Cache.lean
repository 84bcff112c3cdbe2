import DeepProve.Store.S3Store

/-!
# Is the cache transparent?

The directory that is made before a copy is written is that of the entry itself, so no copy is ever
written, and the call that tries to write one fails.
-/

namespace DeepProve

variable {Params ScaledModel Bytes : Type} {env : S3Env Params ScaledModel Bytes}

/-! ## Calls that have nothing to copy -/

/-- There is no value that could be copied: S3 has none, and none is made. -/
def NothingToCopy (env : S3Env Params ScaledModel Bytes) (self : S3Store Bytes) :
    S3Call Params ScaledModel → Prop
  | .getParams key => (self.store (paramsKey env.part key)).bind env.params.decode = none
  | .insertParams _ _ => False
  | .getOrInitModelWith key init =>
    (self.store (modelKey env.part key)).bind env.models.decode = none ∧
      (self.store (modelKey env.part key) = none → ∀ value, init ≠ .ok value)

/-- Parameters are inserted once. -/
def InsertsFresh (env : S3Env Params ScaledModel Bytes) (self : S3Store Bytes) :
    S3Call Params ScaledModel → Prop
  | .insertParams key _ => self.store (paramsKey env.part key) = none
  | _ => True

/-- A store with a cache in which nothing is yet. -/
def S3Store.cached (store : StorePath → Option Bytes) : S3Store Bytes := ⟨store, some .empty⟩

def S3Store.uncached (store : StorePath → Option Bytes) : S3Store Bytes := ⟨store, none⟩

variable {store : StorePath → Option Bytes}

@[simp] theorem store_cached : (S3Store.cached store).store = store := rfl

@[simp] theorem store_uncached : (S3Store.uncached store).store = store := rfl

@[simp] theorem readCache_uncached (path : StorePath) :
    (S3Store.uncached store).readCache path = .ok none := rfl

@[simp] theorem writeCache_uncached (path : StorePath) (bytes : Bytes) :
    (S3Store.uncached store).writeCache path bytes = (.ok (), S3Store.uncached store) := rfl

theorem paramsKey_ne_nil (env : S3Env Params ScaledModel Bytes) (key : ParamsKey) :
    paramsKey env.part key ≠ [] := by
  have hne := env.part_ne_empty "Params" (by decide)
  simp [paramsKey, StorePath.fromIter, hne]

theorem modelKey_ne_nil (env : S3Env Params ScaledModel Bytes) (key : ModelKey) :
    modelKey env.part key ≠ [] := by
  have hne := env.part_ne_empty "Model" (by decide)
  unfold modelKey
  split <;> simp [StorePath.fromIter, hne]

theorem tryExists_empty {path : StorePath} (h : path ≠ []) :
    (FileTree.empty : FileTree String Bytes).tryExists path = some false := by
  have hnode : ∀ path', (FileTree.empty : FileTree String Bytes).isFile path' = false := by
    intro path'
    cases path' <;> rfl
  obtain ⟨name, path', rfl⟩ := List.exists_cons_of_ne_nil h
  rw [FileTree.tryExists, if_neg]
  · rfl
  · simp [hnode]

theorem readCache_cached {path : StorePath} (h : path ≠ []) :
    (S3Store.cached store).readCache path = .ok none := by
  simp only [S3Store.readCache, S3Store.cached, tryExists_empty h, okOr_some, Outcome.ok_bind]
  rfl

/-- No copy is written. -/
theorem writeCache_cached (store : StorePath → Option Bytes) (path : StorePath) (bytes : Bytes) :
    ∃ e self, (S3Store.cached store).writeCache path bytes = (.error e, self) := by
  unfold S3Store.writeCache S3Store.cached
  dsimp only
  split
  · exact ⟨_, _, rfl⟩
  · next cache hdir =>
    rw [FileTree.write_createDirAll hdir]
    exact ⟨_, _, rfl⟩

/-! ## One call -/

theorem bind_decode_eq_none {Value : Type} {codec : Codec Value Bytes} {o : Option Bytes}
    (h : o.bind codec.decode = none) {bytes : Bytes} (hbytes : o = some bytes) :
    codec.decode bytes = none := by
  rw [hbytes] at h
  exact h

/-- A call that has nothing to copy leaves everything as it is. -/
theorem step_of_nothingToCopy {call : S3Call Params ScaledModel}
    (h : NothingToCopy env (S3Store.uncached store) call) :
    ∃ answer, S3Store.step env (S3Store.cached store) call = (answer, S3Store.cached store) ∧
      S3Store.step env (S3Store.uncached store) call = (answer, S3Store.uncached store) := by
  cases call with
  | getParams key =>
    simp only [S3Store.step, S3Store.getParams, readCache_cached (paramsKey_ne_nil env key),
      readCache_uncached, store_cached, store_uncached]
    cases hbytes : store (paramsKey env.part key) with
    | none => exact ⟨_, rfl, rfl⟩
    | some bytes =>
      simp only [bind_decode_eq_none h hbytes]
      exact ⟨_, rfl, rfl⟩
  | insertParams key params => exact h.elim
  | getOrInitModelWith key init =>
    obtain ⟨hdecode, hinit⟩ := h
    simp only [S3Store.step, S3Store.getOrInitModelWith,
      readCache_cached (modelKey_ne_nil env key), readCache_uncached, store_cached, store_uncached]
    cases hbytes : store (modelKey env.part key) with
    | none =>
      cases init with
      | error e => exact ⟨_, rfl, rfl⟩
      | ok value => exact absurd rfl (hinit hbytes value)
    | some bytes =>
      simp only [bind_decode_eq_none hdecode hbytes]
      exact ⟨_, rfl, rfl⟩

/-- Any other call that succeeds without a cache fails with one. -/
theorem step_of_not_nothingToCopy {call : S3Call Params ScaledModel}
    (h : ¬ NothingToCopy env (S3Store.uncached store) call)
    (hfresh : InsertsFresh env (S3Store.uncached store) call) :
    (S3Store.step env (S3Store.cached store) call).1 = none ∧
      (S3Store.step env (S3Store.uncached store) call).1 ≠ none := by
  cases call with
  | getParams key =>
    obtain ⟨value, hvalue⟩ := Option.ne_none_iff_exists'.mp h
    obtain ⟨bytes, hbytes, hdecode⟩ := Option.bind_eq_some_iff.mp hvalue
    rw [store_uncached] at hbytes
    obtain ⟨e, self, hwrite⟩ := writeCache_cached store (paramsKey env.part key) bytes
    simp only [S3Store.step, S3Store.getParams, readCache_cached (paramsKey_ne_nil env key),
      readCache_uncached, store_cached, store_uncached, hbytes, hdecode, hwrite, writeCache_uncached]
    exact ⟨rfl, nofun⟩
  | insertParams key params =>
    have hnone : store (paramsKey env.part key) = none := hfresh
    obtain ⟨e, self, hwrite⟩ := writeCache_cached store (paramsKey env.part key)
      (env.params.encode params)
    have hinsert : (S3Store.cached store).insertCache (paramsKey env.part key)
        (env.params.encode params) = (.error e, self) := by
      rw [← hwrite]
      simp only [S3Store.insertCache, S3Store.cached, tryExists_empty (paramsKey_ne_nil env key)]
    have huncached : (S3Store.uncached store).insertCache (paramsKey env.part key)
        (env.params.encode params) = (.ok (), S3Store.uncached store) := rfl
    simp only [S3Store.step, S3Store.insertParams, hinsert, huncached, store_uncached, hnone]
    exact ⟨rfl, nofun⟩
  | getOrInitModelWith key init =>
    cases hbytes : store (modelKey env.part key) with
    | none =>
      cases init with
      | error e => exact absurd ⟨by rw [store_uncached, hbytes]; rfl, nofun⟩ h
      | ok value =>
        obtain ⟨e, self, hwrite⟩ := writeCache_cached store (modelKey env.part key)
          (env.models.encode value)
        simp only [S3Store.step, S3Store.getOrInitModelWith,
          readCache_cached (modelKey_ne_nil env key), readCache_uncached, store_cached,
          store_uncached, hbytes, hwrite, writeCache_uncached]
        exact ⟨rfl, nofun⟩
    | some bytes =>
      cases hdecode : env.models.decode bytes with
      | none =>
        exact absurd ⟨by rw [store_uncached, hbytes]; exact hdecode,
          fun hnone => nomatch hbytes.symm.trans hnone⟩ h
      | some value =>
        obtain ⟨e, self, hwrite⟩ := writeCache_cached store (modelKey env.part key) bytes
        simp only [S3Store.step, S3Store.getOrInitModelWith,
          readCache_cached (modelKey_ne_nil env key), readCache_uncached, store_cached,
          store_uncached, hbytes, hdecode, hwrite, writeCache_uncached]
        exact ⟨rfl, nofun⟩

/-! ## All calls -/

/-- The store with a cache answers as the one without, and a call that fails leaves the answers to
    the calls after it as they were. -/
structure CacheTransparent (env : S3Env Params ScaledModel Bytes) (store : StorePath → Option Bytes)
    (calls : List (S3Call Params ScaledModel)) : Prop where
  answers_eq : answers (S3Store.step env) (S3Store.cached store) calls =
    answers (S3Store.step env) (S3Store.uncached store) calls
  failed : ∀ before call later, calls = before ++ call :: later →
    (S3Store.step env (after (S3Store.step env) (S3Store.cached store) before) call).1 = none →
      answers (S3Store.step env) (after (S3Store.step env) (S3Store.cached store)
        (before ++ [call])) later =
      answers (S3Store.step env) (after (S3Store.step env) (S3Store.cached store) before) later

/-- Nothing changes in a run in which there is nothing to copy. -/
theorem run_of_nothingToCopy {calls : List (S3Call Params ScaledModel)}
    (h : MeetsAll (S3Store.step env) (NothingToCopy env) (S3Store.uncached store) calls) :
    answers (S3Store.step env) (S3Store.cached store) calls =
      answers (S3Store.step env) (S3Store.uncached store) calls ∧
    after (S3Store.step env) (S3Store.cached store) calls = S3Store.cached store ∧
    after (S3Store.step env) (S3Store.uncached store) calls = S3Store.uncached store := by
  have hstep : ∀ (s u : S3Store Bytes) (call : S3Call Params ScaledModel),
      (s = S3Store.cached store ∧ u = S3Store.uncached store) → NothingToCopy env u call →
      (s.step env call).1 = (u.step env call).1 ∧
        (s.step env call).2 = S3Store.cached store ∧ (u.step env call).2 = S3Store.uncached store := by
    intro s u call ⟨hs, hu⟩ hquiet
    subst hs hu
    obtain ⟨answer, hcached, huncached⟩ := step_of_nothingToCopy hquiet
    rw [hcached, huncached]
    exact ⟨rfl, rfl, rfl⟩
  exact simulation hstep h ⟨rfl, rfl⟩

/-- The cache is transparent if there is never anything to copy. Where no key is inserted twice, it
    is transparent only then. -/
theorem cacheTransparent (env : S3Env Params ScaledModel Bytes) (store : StorePath → Option Bytes)
    (calls : List (S3Call Params ScaledModel)) :
    (MeetsAll (S3Store.step env) (NothingToCopy env) (S3Store.uncached store) calls →
      CacheTransparent env store calls) ∧
    (MeetsAll (S3Store.step env) (InsertsFresh env) (S3Store.uncached store) calls →
      CacheTransparent env store calls →
      MeetsAll (S3Store.step env) (NothingToCopy env) (S3Store.uncached store) calls) := by
  constructor
  · intro hquiet
    refine ⟨(run_of_nothingToCopy hquiet).1, fun before call later hcalls _ => ?_⟩
    obtain ⟨hbefore, hrest⟩ := meetsAll_append.mp (hcalls ▸ hquiet)
    have hcall : MeetsAll (S3Store.step env) (NothingToCopy env) (S3Store.uncached store)
        (before ++ [call]) := meetsAll_append.mpr ⟨hbefore, hrest.1, trivial⟩
    rw [(run_of_nothingToCopy hcall).2.1, (run_of_nothingToCopy hbefore).2.1]
  · intro hfresh htransparent
    by_contra hnot
    obtain ⟨before, call, later, rfl, hbefore, hcall⟩ := exists_first_of_not_meetsAll hnot
    obtain ⟨-, hcached, huncached⟩ := run_of_nothingToCopy hbefore
    have heq := htransparent.answers_eq
    obtain ⟨-, hrest⟩ := meetsAll_append.mp hfresh
    rw [huncached] at hcall hrest
    obtain ⟨hnone, hsome⟩ := step_of_not_nothingToCopy hcall hrest.1
    rw [answers_append, answers_append, hcached, huncached, (run_of_nothingToCopy hbefore).1] at heq
    obtain ⟨hanswer, -⟩ := List.cons.inj (List.append_cancel_left heq)
    exact hsome (hanswer.symm.trans hnone)

/-! ## Parameters that are inserted -/

/-- Numbers for values, and no encoding. -/
def plainEnv : S3Env Nat Nat Nat where
  part := id
  part_ne_empty _ h := h
  params := ⟨id, some, fun _ => rfl⟩
  models := ⟨id, some, fun _ => rfl⟩

def insertAndGet : List (S3Call Nat Nat) :=
  [.insertParams ⟨"hash"⟩ 7, .getParams ⟨"hash"⟩, .insertParams ⟨"hash"⟩ 7]

/-- With a cache the first call fails, and leaves a directory at the path of the entry: the second
    call fails as well, and the third succeeds. -/
theorem not_cacheTransparent_insert :
    answers (S3Store.step plainEnv) (S3Store.cached fun _ => none) insertAndGet =
      [none, none, some .inserted] ∧
    answers (S3Store.step plainEnv) (S3Store.uncached fun _ => none) insertAndGet =
      [some .inserted, some (.params (some 7)), none] ∧
    ¬ CacheTransparent plainEnv (fun _ => none) insertAndGet := by
  have hcached : answers (S3Store.step plainEnv) (S3Store.cached fun _ => none) insertAndGet =
      [none, none, some .inserted] := by decide +kernel
  have huncached : answers (S3Store.step plainEnv) (S3Store.uncached fun _ => none) insertAndGet =
      [some .inserted, some (.params (some 7)), none] := by decide +kernel
  refine ⟨hcached, huncached, fun htransparent => ?_⟩
  have heq := htransparent.answers_eq
  rw [hcached, huncached] at heq
  exact absurd heq (by decide)

end DeepProve
