import DeepProve.Store.RemoteClient

/-!
# Does the remote client answer as a map?

A put does not touch the local copy of a prefetch, a prefetch is not called off by a put or a
clean-up, and a clean-up takes effect on the server at some later point. Where calls keep out of the
way of the requests that are under way, each get is answered once, as a map would answer it.
-/

namespace DeepProve

/-- The key of the `get` that waits. -/
def Waiting.key : Waiting → InternalKey
  | .server key | .prefetch key => key

/-- The client makes a call. -/
def ClientAction.isCall : ClientAction → Bool
  | .put .. | .prefetch _ | .get _ | .cleanUp _ => true
  | .serveGet | .servePrefetch _ | .deliver _ | .cleaned _ => false

namespace ObservedClient

variable {o o' : ObservedClient} {key key' : InternalKey}

/-- A prefetch of the key is under way. -/
def Prefetches (o : ObservedClient) (key : InternalKey) : Prop :=
  key ∈ o.worker.tasks.map PrefetchTask.key

/-- A call keeps out of the way of what is under way: a key is not put while it has another local
    copy or is prefetched, a run is not cleaned up while data of it is prefetched, and it is not used
    again before it has been cleaned up on the server. -/
def Careful (o : ObservedClient) : ClientAction → Prop
  | .put key data => key.runId ∉ o.worker.cleanUps ∧
      (o.calls key = some data ∨ o.worker.localStore key = none ∧ ¬ o.Prefetches key)
  | .get key | .prefetch key => key.runId ∈ o.worker.cleanUps → o.worker.server key = none
  | .cleanUp runId => ∀ task ∈ o.worker.tasks, task.key.runId = runId → o.calls task.key = none
  | _ => True

instance : DecidablePred o.Careful
  | .put key data => inferInstanceAs (Decidable (key.runId ∉ o.worker.cleanUps ∧
      (o.calls key = some data ∨
        o.worker.localStore key = none ∧ key ∉ o.worker.tasks.map PrefetchTask.key)))
  | .get key | .prefetch key =>
    inferInstanceAs (Decidable (key.runId ∈ o.worker.cleanUps → o.worker.server key = none))
  | .cleanUp runId => inferInstanceAs
      (Decidable (∀ task ∈ o.worker.tasks, task.key.runId = runId → o.calls task.key = none))
  | .serveGet | .servePrefetch _ | .deliver _ | .cleaned _ => .isTrue trivial

theorem careful_of_isCall_eq_false {action : ClientAction} (h : action.isCall = false) :
    o.Careful action := by
  cases action with
  | put _ _ | prefetch _ | get _ | cleanUp _ => exact nomatch h
  | serveGet | servePrefetch _ | deliver _ | cleaned _ => exact trivial

/-- The answers are those of the map; that to the `get` that waits is still to come. -/
def Answered (o : ObservedClient) : Prop :=
  match o.worker.waiting with
  | none => o.worker.answered = o.expected
  | some waiting =>
    o.expected = (waiting.key, .ofOption (o.calls waiting.key)) :: o.worker.answered

structure ClientInv (o : ObservedClient) : Prop where
  localStore : ∀ key data, o.worker.localStore key = some data → o.calls key = some data
  server : ∀ key, key.runId ∉ o.worker.cleanUps → o.worker.server key = o.calls key
  cleanUps : ∀ key, key.runId ∈ o.worker.cleanUps → o.calls key = none
  served : ∀ key result, ⟨key, some result⟩ ∈ o.worker.tasks → result = o.calls key
  unserved : ∀ key, ⟨key, none⟩ ∈ o.worker.tasks → o.worker.server key = o.calls key
  nodup : (o.worker.tasks.map PrefetchTask.key).Nodup
  prefetching : ∀ key, (o.worker.prefetching key).isSome ↔ o.Prefetches key
  waitingServer : ∀ key, o.worker.waiting = some (.server key) → o.worker.server key = o.calls key
  waitingPrefetch : ∀ key,
    o.worker.waiting = some (.prefetch key) ↔ o.worker.prefetching key = some true
  answered : o.Answered
  panicked : o.worker.panicked = false

theorem answered_of_waiting_eq_none (h : o.worker.waiting = none) :
    o.Answered ↔ o.worker.answered = o.expected := by
  unfold Answered
  rw [h]

theorem answered_of_waiting_eq_some {waiting : Waiting} (h : o.worker.waiting = some waiting) :
    o.Answered ↔
      o.expected = (waiting.key, .ofOption (o.calls waiting.key)) :: o.worker.answered := by
  unfold Answered
  rw [h]

/-- What is answered does not depend on the map while nothing waits. -/
theorem Answered.congr (h : o.Answered) (hwaiting : o.worker.waiting = none)
    (hworker : o'.worker.waiting = none) (hanswered : o'.worker.answered = o.worker.answered)
    (hexpected : o'.expected = o.expected) : o'.Answered := by
  rw [answered_of_waiting_eq_none hworker, hanswered, hexpected]
  exact (answered_of_waiting_eq_none hwaiting).mp h

/-! ## Calls -/

/-- The server answers as the map does, if the key is not being cleaned up with data. -/
theorem ClientInv.server_eq (h : ClientInv o)
    (hcareful : key.runId ∈ o.worker.cleanUps → o.worker.server key = none) :
    o.worker.server key = o.calls key := by
  by_cases hpending : key.runId ∈ o.worker.cleanUps
  · rw [hcareful hpending, h.cleanUps key hpending]
  · exact h.server key hpending

theorem ClientInv.put {data : Bytes} (h : ClientInv o) (hwaiting : o.worker.waiting = none)
    (hcareful : o.Careful (.put key data)) :
    ClientInv { o with
      worker := o.worker.put key data
      calls := Function.update o.calls key (some data) } := by
  obtain ⟨hpending, hsame | ⟨hlocal, hprefetches⟩⟩ := hcareful
  · -- nothing changes
    have hcalls : Function.update o.calls key (some data) = o.calls := by
      rw [← hsame, Function.update_eq_self]
    have hserver : Function.update o.worker.server key (some data) = o.worker.server := by
      rw [← hsame, ← h.server key hpending, Function.update_eq_self]
    rw [ClientWorker.put, hcalls, hserver]
    exact h
  have htask : ∀ {key' result}, ⟨key', result⟩ ∈ o.worker.tasks → key' ≠ key := by
    intro key' result hmem heq
    exact hprefetches (List.mem_map.mpr ⟨_, hmem, heq⟩)
  refine
    { localStore := fun key' data' hkey' => ?_
      server := fun key' hkey' => ?_
      cleanUps := fun key' hkey' => ?_
      served := fun key' result hmem => ?_
      unserved := fun key' hmem => ?_
      nodup := h.nodup
      prefetching := h.prefetching
      waitingServer := fun key' hkey' => nomatch hwaiting.symm.trans hkey'
      waitingPrefetch := h.waitingPrefetch
      answered := ?_
      panicked := h.panicked }
  · have hne : key' ≠ key := by
      intro heq
      have hsome : o.worker.localStore key = some data' := heq ▸ hkey'
      exact nomatch hlocal.symm.trans hsome
    exact (Function.update_of_ne hne ..).trans (h.localStore key' data' hkey')
  · show Function.update o.worker.server key _ key' = Function.update o.calls key _ key'
    by_cases heq : key' = key
    · rw [heq, Function.update_self, Function.update_self]
    · rw [Function.update_of_ne heq, Function.update_of_ne heq]
      exact h.server key' hkey'
  · have hne : key' ≠ key := fun heq => hpending (heq ▸ hkey')
    exact (Function.update_of_ne hne ..).trans (h.cleanUps key' hkey')
  · exact (h.served key' result hmem).trans (Function.update_of_ne (htask hmem) ..).symm
  · show Function.update o.worker.server key _ key' = Function.update o.calls key _ key'
    rw [Function.update_of_ne (htask hmem), Function.update_of_ne (htask hmem)]
    exact h.unserved key' hmem
  · exact h.answered.congr hwaiting hwaiting rfl rfl

theorem ClientInv.prefetch (h : ClientInv o) (hwaiting : o.worker.waiting = none)
    (hcareful : o.Careful (.prefetch key)) :
    ClientInv { o with worker := o.worker.prefetch key } := by
  unfold ClientWorker.prefetch
  split
  · exact h
  · next hnew =>
    have hnone : (o.worker.prefetching key).isSome = false := by
      rw [Bool.or_eq_true, not_or] at hnew
      exact Bool.eq_false_iff.mpr hnew.2
    have hnotin : ¬ o.Prefetches key := by
      rw [← h.prefetching, hnone]
      exact Bool.false_ne_true
    refine
      { localStore := h.localStore
        server := h.server
        cleanUps := h.cleanUps
        served := fun key' result hmem => ?_
        unserved := fun key' hmem => ?_
        nodup := ?_
        prefetching := fun key' => ?_
        waitingServer := h.waitingServer
        waitingPrefetch := fun key' => ?_
        answered := h.answered
        panicked := h.panicked }
    · rcases List.mem_append.mp hmem with hold | hnew
      · exact h.served key' result hold
      · exact nomatch congrArg PrefetchTask.served (List.mem_singleton.mp hnew)
    · rcases List.mem_append.mp hmem with hold | hnew
      · exact h.unserved key' hold
      · obtain rfl : key' = key := congrArg PrefetchTask.key (List.mem_singleton.mp hnew)
        exact h.server_eq hcareful
    · rw [List.map_append, List.map_singleton]
      refine List.nodup_append.mpr ⟨h.nodup, List.nodup_singleton _, fun a ha b hb heq => ?_⟩
      subst heq
      obtain rfl := List.mem_singleton.mp hb
      exact hnotin ha
    · show (Function.update o.worker.prefetching key (some false) key').isSome ↔ key' ∈ _
      rw [List.map_append, List.mem_append, List.map_singleton, List.mem_singleton]
      by_cases heq : key' = key
      · simp [heq]
      · rw [Function.update_of_ne heq, h.prefetching, or_iff_left heq]
        rfl
    · show o.worker.waiting = _ ↔ Function.update o.worker.prefetching key (some false) key' = _
      by_cases heq : key' = key
      · rw [heq, Function.update_self, hwaiting]
        exact iff_of_false nofun nofun
      · rw [Function.update_of_ne heq]
        exact h.waitingPrefetch key'

theorem ClientInv.get (h : ClientInv o) (hwaiting : o.worker.waiting = none)
    (hcareful : o.Careful (.get key)) :
    ClientInv { o with
      worker := o.worker.get key
      expected := (key, .ofOption (o.calls key)) :: o.expected } := by
  have hanswered : o.worker.answered = o.expected :=
    (answered_of_waiting_eq_none hwaiting).mp h.answered
  have hsubscribed : ∀ key', o.worker.prefetching key' ≠ some true := by
    intro key' htrue
    exact nomatch hwaiting.symm.trans ((h.waitingPrefetch key').mpr htrue)
  unfold ClientWorker.get
  split
  · next data hdata =>
    -- the local copy is the one that was put last
    refine { h with
      waitingServer := fun key' hkey' => nomatch hkey'
      waitingPrefetch := fun key' => iff_of_false nofun (hsubscribed key')
      answered := ?_ }
    show (key, GetAnswer.bytes data) :: o.worker.answered = (key, .ofOption (o.calls key)) :: o.expected
    rw [h.localStore key data hdata, hanswered]
    rfl
  · split
    · next htrue => exact absurd htrue (hsubscribed key)
    · next hfalse =>
      refine { h with
        prefetching := fun key' => ?_
        waitingServer := fun key' hkey' => nomatch hkey'
        waitingPrefetch := fun key' => ?_
        answered := ?_ }
      · show (Function.update o.worker.prefetching key (some true) key').isSome ↔ o.Prefetches key'
        rw [← h.prefetching]
        by_cases heq : key' = key
        · rw [heq, Function.update_self, hfalse]
          rfl
        · rw [Function.update_of_ne heq]
      · show some (Waiting.prefetch key) = some (.prefetch key') ↔
          Function.update o.worker.prefetching key (some true) key' = some true
        by_cases heq : key' = key
        · rw [heq, Function.update_self]
          exact iff_of_true rfl rfl
        · rw [Function.update_of_ne heq]
          refine iff_of_false (fun hsome => heq ?_) (hsubscribed key')
          exact (Waiting.prefetch.inj (Option.some.inj hsome)).symm
      · show (key, GetAnswer.ofOption (o.calls key)) :: o.expected = _ :: o.worker.answered
        rw [hanswered]
        rfl
    · refine { h with
        waitingServer := fun key' hkey' => ?_
        waitingPrefetch := fun key' => iff_of_false nofun (hsubscribed key')
        answered := ?_ }
      · obtain rfl : key = key' := Waiting.server.inj (Option.some.inj hkey')
        exact h.server_eq hcareful
      · show (key, GetAnswer.ofOption (o.calls key)) :: o.expected = _ :: o.worker.answered
        rw [hanswered]
        rfl

theorem withoutRun_of_eq_none {m : InternalKey → Option Bytes} {runId : Nat}
    (h : key.runId = runId → m key = none) : ClientWorker.withoutRun m runId key = m key := by
  unfold ClientWorker.withoutRun
  split
  · next hrun => exact (h hrun).symm
  · rfl

theorem ClientInv.cleanUp {runId : Nat} (h : ClientInv o) (hwaiting : o.worker.waiting = none)
    (hcareful : o.Careful (.cleanUp runId)) :
    ClientInv { o with
      worker := o.worker.cleanUp runId
      calls := ClientWorker.withoutRun o.calls runId } := by
  refine { h with
    localStore := fun key data hkey => ?_
    server := fun key hkey => ?_
    cleanUps := fun key hkey => ?_
    served := fun key result hmem => ?_
    unserved := fun key hmem => ?_
    waitingServer := fun key hkey => nomatch hwaiting.symm.trans hkey
    answered := ?_ }
  · replace hkey : ClientWorker.withoutRun o.worker.localStore runId key = some data := hkey
    show ClientWorker.withoutRun o.calls runId key = some data
    unfold ClientWorker.withoutRun at hkey ⊢
    split at hkey
    · exact nomatch hkey
    · next hrun =>
      rw [if_neg hrun]
      exact h.localStore key data hkey
  · obtain ⟨hpending, hrun⟩ := not_or.mp (mt List.mem_append.mpr hkey)
    have hne : key.runId ≠ runId := fun heq => hrun (List.mem_singleton.mpr heq)
    exact (h.server key hpending).trans (withoutRun_of_eq_none fun heq => absurd heq hne).symm
  · show ClientWorker.withoutRun o.calls runId key = none
    unfold ClientWorker.withoutRun
    split
    · rfl
    · next hrun =>
      rcases List.mem_append.mp hkey with hold | hnew
      · exact h.cleanUps key hold
      · exact absurd (List.mem_singleton.mp hnew) hrun
  · exact (h.served key result hmem).trans (withoutRun_of_eq_none (hcareful _ hmem)).symm
  · exact (h.unserved key hmem).trans (withoutRun_of_eq_none (hcareful _ hmem)).symm
  · exact h.answered.congr hwaiting hwaiting rfl rfl

/-! ## What is under way -/

theorem ClientInv.serveGet (h : ClientInv o) (hwaiting : o.worker.waiting = some (.server key)) :
    ClientInv { o with worker := o.worker.answer key (.ofOption (o.worker.server key)) } := by
  have hsubscribed : ∀ key', o.worker.prefetching key' ≠ some true := by
    intro key' htrue
    exact nomatch hwaiting.symm.trans ((h.waitingPrefetch key').mpr htrue)
  refine { h with
    waitingServer := fun key' hkey' => nomatch hkey'
    waitingPrefetch := fun key' => iff_of_false nofun (hsubscribed key')
    answered := ?_ }
  show (key, GetAnswer.ofOption (o.worker.server key)) :: o.worker.answered = o.expected
  rw [h.waitingServer key hwaiting]
  exact ((answered_of_waiting_eq_some hwaiting).mp h.answered).symm

theorem ClientInv.servePrefetch {i : Nat} (h : ClientInv o)
    (htask : o.worker.tasks[i]? = some ⟨key, none⟩) :
    ClientInv { o with
      worker := { o.worker with
        tasks := o.worker.tasks.set i ⟨key, some (o.worker.server key)⟩ } } := by
  have hkeys : (o.worker.tasks.set i ⟨key, some (o.worker.server key)⟩).map PrefetchTask.key =
      o.worker.tasks.map PrefetchTask.key := by
    obtain ⟨hi, htask⟩ := List.getElem?_eq_some_iff.mp htask
    have hlength : i < (o.worker.tasks.map PrefetchTask.key).length := by
      rw [List.length_map]
      exact hi
    have hkey : (o.worker.tasks.map PrefetchTask.key)[i] = key := by
      rw [List.getElem_map, htask]
    rw [List.map_set]
    show (o.worker.tasks.map PrefetchTask.key).set i key = _
    rw [← hkey, List.set_getElem_self]
  refine { h with
    served := fun key' result hmem => ?_
    unserved := fun key' hmem => ?_
    nodup := hkeys ▸ h.nodup
    prefetching := fun key' => ?_ }
  · rcases List.mem_or_eq_of_mem_set hmem with hold | hnew
    · exact h.served key' result hold
    · obtain ⟨rfl, hresult⟩ := PrefetchTask.mk.inj hnew
      exact (Option.some.inj hresult).trans (h.unserved key' (List.mem_of_getElem? htask))
  · rcases List.mem_or_eq_of_mem_set hmem with hold | hnew
    · exact h.unserved key' hold
    · exact nomatch congrArg PrefetchTask.served hnew
  · show _ ↔ key' ∈ (o.worker.tasks.set i _).map PrefetchTask.key
    rw [hkeys]
    exact h.prefetching key'

theorem ClientInv.cleaned {i runId : Nat} (h : ClientInv o)
    (hrun : o.worker.cleanUps[i]? = some runId) :
    ClientInv { o with
      worker := { o.worker with
        server := ClientWorker.withoutRun o.worker.server runId
        cleanUps := o.worker.cleanUps.eraseIdx i } } := by
  -- the data that goes was not described by the calls any more
  have hserver : ∀ key, o.worker.server key = o.calls key →
      ClientWorker.withoutRun o.worker.server runId key = o.calls key := by
    intro key hkey
    refine (withoutRun_of_eq_none fun heq => ?_).trans hkey
    rw [hkey]
    exact h.cleanUps key (heq ▸ List.mem_of_getElem? hrun)
  refine { h with
    server := fun key hkey => ?_
    cleanUps := fun key hkey => h.cleanUps key (List.mem_of_mem_eraseIdx hkey)
    unserved := fun key hmem => hserver key (h.unserved key hmem)
    waitingServer := fun key hkey => hserver key (h.waitingServer key hkey) }
  by_cases hpending : key.runId ∈ o.worker.cleanUps
  · have hnone : o.calls key = none := h.cleanUps key hpending
    show ClientWorker.withoutRun o.worker.server runId key = o.calls key
    rcases List.mem_cons.mp ((List.perm_cons_eraseIdx hrun).mem_iff.mp hpending) with heq | hmem
    · rw [ClientWorker.withoutRun, if_pos heq, hnone]
    · exact absurd hmem hkey
  · exact hserver key (h.server key hpending)

/-- The prefetch that is handled was the only one of its key. -/
theorem ClientInv.deliver {i : Nat} {result : Option Bytes} (h : ClientInv o)
    (htask : o.worker.tasks[i]? = some ⟨key, some result⟩) :
    ClientInv { o with
      worker := { o.worker with tasks := o.worker.tasks.eraseIdx i }.deliver key result } := by
  have hperm := List.perm_cons_eraseIdx htask
  have hresult : result = o.calls key := h.served key result (List.mem_of_getElem? htask)
  have hnodup := (hperm.map PrefetchTask.key).nodup_iff.mp h.nodup
  obtain ⟨hnotin, hnodup⟩ := List.nodup_cons.mp hnodup
  have hprefetches : ∀ key', o.Prefetches key' ↔
      key' = key ∨ key' ∈ (o.worker.tasks.eraseIdx i).map PrefetchTask.key := by
    intro key'
    exact (hperm.map PrefetchTask.key).mem_iff.trans List.mem_cons
  have hprefetching : ∀ key', (Function.update o.worker.prefetching key none key').isSome ↔
      key' ∈ (o.worker.tasks.eraseIdx i).map PrefetchTask.key := by
    intro key'
    by_cases heq : key' = key
    · rw [heq, Function.update_self]
      exact iff_of_false Bool.false_ne_true hnotin
    · rw [Function.update_of_ne heq, h.prefetching, hprefetches, or_iff_right heq]
  obtain ⟨subscribed, hsubscribed⟩ := Option.isSome_iff_exists.mp
    ((h.prefetching key).mpr ((hprefetches key).mpr (.inl rfl)))
  unfold ClientWorker.deliver
  rw [hsubscribed]
  cases subscribed with
  | true =>
    have hwaiting := (h.waitingPrefetch key).mpr hsubscribed
    refine { h with
      served := fun key' result' hmem => h.served key' result' (List.mem_of_mem_eraseIdx hmem)
      unserved := fun key' hmem => h.unserved key' (List.mem_of_mem_eraseIdx hmem)
      nodup := hnodup
      prefetching := hprefetching
      waitingServer := fun key' hkey' => nomatch hkey'
      waitingPrefetch := fun key' => iff_of_false nofun fun htrue => ?_
      answered := ?_ }
    · replace htrue : Function.update o.worker.prefetching key none key' = some true := htrue
      by_cases heq : key' = key
      · rw [heq, Function.update_self] at htrue
        exact nomatch htrue
      · rw [Function.update_of_ne heq] at htrue
        have hkey' := hwaiting.symm.trans ((h.waitingPrefetch key').mpr htrue)
        exact heq (Waiting.prefetch.inj (Option.some.inj hkey')).symm
    · show (key, GetAnswer.ofOption result) :: o.worker.answered = o.expected
      rw [hresult]
      exact ((answered_of_waiting_eq_some hwaiting).mp h.answered).symm
  | false =>
    have hwaitingPrefetch : ∀ key', o.worker.waiting = some (.prefetch key') ↔
        Function.update o.worker.prefetching key none key' = some true := by
      intro key'
      rw [h.waitingPrefetch]
      by_cases heq : key' = key
      · rw [heq, Function.update_self, hsubscribed]
        exact iff_of_false nofun nofun
      · rw [Function.update_of_ne heq]
    have hinv : ClientInv { o with
        worker := { o.worker with
          tasks := o.worker.tasks.eraseIdx i
          prefetching := Function.update o.worker.prefetching key none } } :=
      { h with
        served := fun key' result' hmem => h.served key' result' (List.mem_of_mem_eraseIdx hmem)
        unserved := fun key' hmem => h.unserved key' (List.mem_of_mem_eraseIdx hmem)
        nodup := hnodup
        prefetching := hprefetching
        waitingPrefetch := hwaitingPrefetch }
    cases result with
    | none => exact hinv
    | some data =>
      refine { hinv with localStore := fun key' data' hkey' => ?_ }
      replace hkey' : Function.update o.worker.localStore key (some data) key' = some data' := hkey'
      by_cases heq : key' = key
      · subst heq
        rw [Function.update_self] at hkey'
        exact hresult.symm.trans hkey'
      · rw [Function.update_of_ne heq] at hkey'
        exact h.localStore key' data' hkey'

/-! ## Runs -/

theorem ClientInv.start : ClientInv start where
  localStore _ _ h := nomatch h
  server _ _ := rfl
  cleanUps _ h := nomatch h
  served _ _ h := nomatch h
  unserved _ h := nomatch h
  nodup := List.nodup_nil
  prefetching _ := iff_of_false Bool.false_ne_true (nomatch ·)
  waitingServer _ h := nomatch h
  waitingPrefetch _ := iff_of_false nofun nofun
  answered := rfl
  panicked := rfl

/-- A careful step keeps the invariant. -/
theorem ClientInv.step (h : ClientInv o) {action : ClientAction} (hcareful : o.Careful action)
    (hstep : o.step action = some o') : ClientInv o' := by
  obtain ⟨worker, hworker, rfl⟩ := Option.map_eq_some_iff.mp hstep
  have hcall : ∀ {called : ClientWorker},
      (if o.worker.waiting.isNone then some called else none) = some worker →
        o.worker.waiting = none ∧ worker = called := by
    intro called hsome
    obtain ⟨hnone, heq⟩ := Option.ite_none_right_eq_some.mp hsome
    exact ⟨Option.isNone_iff_eq_none.mp hnone, (Option.some.inj heq).symm⟩
  cases action with
  | put key data =>
    obtain ⟨hwaiting, rfl⟩ := hcall hworker
    exact h.put hwaiting hcareful
  | prefetch key =>
    obtain ⟨hwaiting, rfl⟩ := hcall hworker
    exact h.prefetch hwaiting hcareful
  | get key =>
    obtain ⟨hwaiting, rfl⟩ := hcall hworker
    exact h.get hwaiting hcareful
  | cleanUp runId =>
    obtain ⟨hwaiting, rfl⟩ := hcall hworker
    exact h.cleanUp hwaiting hcareful
  | serveGet =>
    simp only [ClientWorker.step] at hworker
    split at hworker
    · next key hwaiting =>
      obtain rfl := Option.some.inj hworker
      exact h.serveGet hwaiting
    · exact nomatch hworker
  | servePrefetch i =>
    simp only [ClientWorker.step] at hworker
    split at hworker
    · next key htask =>
      obtain rfl := Option.some.inj hworker
      exact h.servePrefetch htask
    · exact nomatch hworker
  | deliver i =>
    simp only [ClientWorker.step] at hworker
    split at hworker
    · next key result htask =>
      obtain rfl := Option.some.inj hworker
      exact h.deliver htask
    · exact nomatch hworker
  | cleaned i =>
    simp only [ClientWorker.step] at hworker
    split at hworker
    · next runId hrun =>
      obtain rfl := Option.some.inj hworker
      exact h.cleaned hrun
    · exact nomatch hworker

/-! ## Answers -/

/-- A prefetch that has been served answers the `get` that subscribed to it. -/
theorem step_deliver_subscribed {i : Nat} {result : Option Bytes}
    (htask : o.worker.tasks[i]? = some ⟨key, some result⟩)
    (hsubscribed : o.worker.prefetching key = some true) :
    ∃ o', o.step (.deliver i) = some o' ∧ o'.worker.waiting = none ∧ o'.expected = o.expected := by
  refine ⟨{ o with
    worker := { o.worker with tasks := o.worker.tasks.eraseIdx i }.deliver key result }, ?_, ?_, rfl⟩
  · simp only [ObservedClient.step, ClientWorker.step, htask, Option.map_some]
  · simp only [ClientWorker.deliver, hsubscribed, if_true, ClientWorker.answer]

/-- What is under way answers the `get` that waits. -/
theorem ClientInv.exists_answer (h : ClientInv o) : ∃ actions o', (∀ a ∈ actions, a.isCall = false) ∧
    runActions ObservedClient.step o actions = some o' ∧ o'.worker.waiting = none ∧
      o'.expected = o.expected := by
  cases hwaiting : o.worker.waiting with
  | none => exact ⟨[], o, List.forall_mem_nil _, rfl, hwaiting, rfl⟩
  | some waiting =>
    cases waiting with
    | server key =>
      have hstep : o.step .serveGet = some { o with
          worker := o.worker.answer key (.ofOption (o.worker.server key)) } := by
        simp only [ObservedClient.step, ClientWorker.step, hwaiting, Option.map_some]
      exact ⟨[.serveGet], _, List.forall_mem_singleton.mpr rfl,
        runActions_cons_eq_some.mpr ⟨_, hstep, rfl⟩, rfl, rfl⟩
    | prefetch key =>
      have hsubscribed := (h.waitingPrefetch key).mp hwaiting
      have hprefetches := (h.prefetching key).mp (hsubscribed ▸ rfl)
      obtain ⟨⟨key', served⟩, hmem, hkey⟩ := List.mem_map.mp hprefetches
      obtain rfl : key' = key := hkey
      obtain ⟨i, htask⟩ := List.getElem?_of_mem hmem
      cases served with
      | some result =>
        obtain ⟨o', hstep, hnone, hexpected⟩ := step_deliver_subscribed htask hsubscribed
        exact ⟨[.deliver i], o', List.forall_mem_singleton.mpr rfl,
          runActions_cons_eq_some.mpr ⟨o', hstep, rfl⟩, hnone, hexpected⟩
      | none =>
        -- the request takes effect first
        let o₁ : ObservedClient := { o with
          worker := { o.worker with
            tasks := o.worker.tasks.set i ⟨key', some (o.worker.server key')⟩ } }
        have hserve : o.step (.servePrefetch i) = some o₁ := by
          simp only [ObservedClient.step, ClientWorker.step, htask, Option.map_some, o₁]
        have hserved : o₁.worker.tasks[i]? = some ⟨key', some (o.worker.server key')⟩ := by
          obtain ⟨hi, -⟩ := List.getElem?_eq_some_iff.mp htask
          exact List.getElem?_set_self hi
        obtain ⟨o', hstep, hnone, hexpected⟩ :=
          step_deliver_subscribed (o := o₁) hserved hsubscribed
        refine ⟨[.servePrefetch i, .deliver i], o', ?_, ?_, hnone, hexpected⟩
        · exact List.forall_mem_cons.mpr ⟨rfl, List.forall_mem_singleton.mpr rfl⟩
        · exact runActions_cons_eq_some.mpr ⟨_, hserve, runActions_cons_eq_some.mpr ⟨o', hstep, rfl⟩⟩

/-- The client is a map, as far as its calls can tell. -/
structure AnswersAsMap (o : ObservedClient) : Prop where
  /-- Each `get` has been answered once, as the map would have. -/
  answered : o.worker.waiting = none → o.worker.answered = o.expected
  /-- All but the one that waits have been, and that one will be. -/
  waiting : o.worker.waiting ≠ none → o.worker.answered = o.expected.tail
  answers : ∃ actions o', (∀ a ∈ actions, a.isCall = false) ∧
    runActions ObservedClient.step o actions = some o' ∧ o'.worker.waiting = none ∧
      o'.worker.answered = o.expected
  panicked : o.worker.panicked = false
  /-- Nothing is left of the runs that were cleaned up. -/
  cleanedUp : ∀ key, o.calls key = none → o.worker.localStore key = none

theorem ClientInv.answersAsMap (h : ClientInv o) : o.AnswersAsMap := by
  refine
    { answered := fun hnone => (answered_of_waiting_eq_none hnone).mp h.answered
      waiting := fun hsome => ?_
      answers := ?_
      panicked := h.panicked
      cleanedUp := fun key hnone => ?_ }
  · obtain ⟨waiting, hwaiting⟩ := Option.ne_none_iff_exists'.mp hsome
    rw [(answered_of_waiting_eq_some hwaiting).mp h.answered, List.tail_cons]
  · obtain ⟨actions, o', hactions, hrun, hnone, hexpected⟩ := h.exists_answer
    have hcareful : AllSteps ObservedClient.step Careful o actions :=
      allSteps_of_forall_mem fun a ha s => careful_of_isCall_eq_false (hactions a ha)
    have hinv : ClientInv o' := runActions_induction_of_allSteps
      (fun _ _ _ hs hcareful hstep => hs.step hcareful hstep) hcareful hrun h
    exact ⟨actions, o', hactions, hrun, hnone,
      ((answered_of_waiting_eq_none hnone).mp hinv.answered).trans hexpected⟩
  · cases hlocal : o.worker.localStore key with
    | none => rfl
    | some data => exact nomatch hnone.symm.trans (h.localStore key data hlocal)

/-- The client answers as a map in every state that careful steps reach, in whatever order the
    requests take effect and are handled. -/
theorem remoteClient_answers (actions : List ClientAction)
    (hcareful : AllSteps ObservedClient.step Careful start actions)
    (hrun : runActions ObservedClient.step start actions = some o) : o.AnswersAsMap :=
  (runActions_induction_of_allSteps (fun _ _ _ hs hcareful hstep => hs.step hcareful hstep)
    hcareful hrun ClientInv.start).answersAsMap

/-- A get that subscribes to a prefetch, a put of a run that has been cleaned up. -/
theorem remoteClient_answers_cleanedUp :
    ∃ o, runActions ObservedClient.step start
        [.put ⟨7, "a", "Vec"⟩ [1], .prefetch ⟨7, "a", "Vec"⟩, .servePrefetch 0, .get ⟨7, "a", "Vec"⟩,
          .deliver 0, .cleanUp 7, .cleaned 0, .get ⟨7, "a", "Vec"⟩, .serveGet,
          .put ⟨7, "a", "Vec"⟩ [2], .get ⟨7, "a", "Vec"⟩, .serveGet] = some o ∧
      o.worker.answered.map Prod.snd = [.bytes [2], .keyUnknown, .bytes [1]] ∧ o.AnswersAsMap :=
  ⟨_, rfl, by decide +kernel, remoteClient_answers
    [.put ⟨7, "a", "Vec"⟩ [1], .prefetch ⟨7, "a", "Vec"⟩, .servePrefetch 0, .get ⟨7, "a", "Vec"⟩,
      .deliver 0, .cleanUp 7, .cleaned 0, .get ⟨7, "a", "Vec"⟩, .serveGet,
      .put ⟨7, "a", "Vec"⟩ [2], .get ⟨7, "a", "Vec"⟩, .serveGet] (by decide +kernel) rfl⟩

/-- A prefetch brings a copy of what is stored; what is put afterwards is not seen. -/
theorem not_remoteClient_answers_prefetched :
    ¬ ∀ (actions : List ClientAction) (o : ObservedClient),
      runActions ObservedClient.step start actions = some o → o.AnswersAsMap := by
  intro h
  have hanswers := h [.put ⟨7, "a", "Vec"⟩ [1], .prefetch ⟨7, "a", "Vec"⟩, .servePrefetch 0,
    .deliver 0, .put ⟨7, "a", "Vec"⟩ [2], .get ⟨7, "a", "Vec"⟩] _ rfl
  have hsecond : [(⟨7, "a", "Vec"⟩, GetAnswer.bytes [1])] =
      [((⟨7, "a", "Vec"⟩ : InternalKey), GetAnswer.bytes [2])] := hanswers.answered rfl
  exact absurd hsecond (by decide)

end ObservedClient

end DeepProve
