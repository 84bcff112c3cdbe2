import DeepProve.Store.DiskStore

/-!
# The client of the remote store

`ClientWorker` of `remote/client.rs`: a thread that takes the calls of the client one after the
other, and the requests to the server that it has under way. A request takes effect on the server at
some point before it is answered. A client that gets or puts waits for the answer; a prefetch and a
clean-up only set off a request.
-/

namespace DeepProve

/-- A request of a prefetch, and how the server has answered it. -/
structure PrefetchTask where
  key : InternalKey
  served : Option (Option Bytes)

/-- What a `get` waits for. -/
inductive Waiting where
  /-- Its own request to the server. -/
  | server (key : InternalKey)
  /-- The prefetch of the key, to which it has subscribed. -/
  | prefetch (key : InternalKey)

/-- What a `get` is answered with. -/
inductive GetAnswer where
  | bytes (data : Bytes)
  /-- `RemoteKeyNotFound`, which `RemoteStore::fetch` reports as `KeyUnknown`. -/
  | keyUnknown
  /-- `The storage_key {key} is already being received from another call`. -/
  | alreadyReceived
  deriving DecidableEq

def GetAnswer.ofOption : Option Bytes → GetAnswer
  | some data => .bytes data
  | none => .keyUnknown

/-- The worker, the server and what is between them. -/
structure ClientWorker where
  localStore : InternalKey → Option Bytes
  /-- The keys that are prefetched, and whether a `get` has subscribed. -/
  prefetching : InternalKey → Option Bool
  tasks : List PrefetchTask
  /-- The runs whose clean-up has not taken effect on the server. -/
  cleanUps : List Nat
  server : InternalKey → Option Bytes
  waiting : Option Waiting
  answered : List (InternalKey × GetAnswer)
  panicked : Bool

inductive ClientAction where
  | put (key : InternalKey) (data : Bytes)
  | prefetch (key : InternalKey)
  | get (key : InternalKey)
  | cleanUp (runId : Nat)
  /-- The request of a `get` takes effect. -/
  | serveGet
  /-- The request of a prefetch takes effect. -/
  | servePrefetch (i : Nat)
  /-- The worker handles what a prefetch was answered with. -/
  | deliver (i : Nat)
  /-- The request of a clean-up takes effect. -/
  | cleaned (i : Nat)

namespace ClientWorker

variable (self : ClientWorker)

/-- The map without the entries of a run. -/
def withoutRun (m : InternalKey → Option Bytes) (runId : Nat) : InternalKey → Option Bytes :=
  fun key => if key.runId = runId then none else m key

/-- The `get` that waits is answered. -/
def answer (key : InternalKey) (answer : GetAnswer) : ClientWorker :=
  { self with waiting := none, answered := (key, answer) :: self.answered }

/-- `put`: the local copy is left as it is. -/
def put (key : InternalKey) (data : Bytes) : ClientWorker :=
  { self with server := Function.update self.server key (some data) }

/-- `prefetch`. -/
def prefetch (key : InternalKey) : ClientWorker :=
  if (self.localStore key).isSome || (self.prefetching key).isSome then self
  else
    { self with
      prefetching := Function.update self.prefetching key (some false)
      tasks := self.tasks ++ [⟨key, none⟩] }

/-- `get`. -/
def get (key : InternalKey) : ClientWorker :=
  match self.localStore key with
  | some data => self.answer key (.bytes data)
  | none =>
    match self.prefetching key with
    | some true => self.answer key .alreadyReceived
    | some false =>
      { self with
        prefetching := Function.update self.prefetching key (some true)
        waiting := some (.prefetch key) }
    | none => { self with waiting := some (.server key) }

/-- `clean_up`: the prefetches that are under way are left alone. -/
def cleanUp (runId : Nat) : ClientWorker :=
  { self with
    localStore := withoutRun self.localStore runId
    cleanUps := self.cleanUps ++ [runId] }

/-- The result of a prefetch goes to the subscriber, or to the local store. -/
def deliver (key : InternalKey) (result : Option Bytes) : ClientWorker :=
  match self.prefetching key with
  | none => { self with panicked := true }
  | some subscribed =>
    let self := { self with prefetching := Function.update self.prefetching key none }
    if subscribed then self.answer key (.ofOption result)
    else
      match result with
      | some data => { self with localStore := Function.update self.localStore key (some data) }
      | none => self

/-- One step; the client makes no call while it waits. -/
def step : ClientAction → Option ClientWorker
  | .put key data => if self.waiting.isNone then some (self.put key data) else none
  | .prefetch key => if self.waiting.isNone then some (self.prefetch key) else none
  | .get key => if self.waiting.isNone then some (self.get key) else none
  | .cleanUp runId => if self.waiting.isNone then some (self.cleanUp runId) else none
  | .serveGet =>
    match self.waiting with
    | some (.server key) => some (self.answer key (.ofOption (self.server key)))
    | _ => none
  | .servePrefetch i =>
    match self.tasks[i]? with
    | some ⟨key, none⟩ => some { self with tasks := self.tasks.set i ⟨key, some (self.server key)⟩ }
    | _ => none
  | .deliver i =>
    match self.tasks[i]? with
    | some ⟨key, some result⟩ =>
      some ({ self with tasks := self.tasks.eraseIdx i }.deliver key result)
    | _ => none
  | .cleaned i =>
    match self.cleanUps[i]? with
    | some runId =>
      some { self with
        server := withoutRun self.server runId
        cleanUps := self.cleanUps.eraseIdx i }
    | none => none

end ClientWorker

/-! ## What the calls describe -/

/-- The worker, with the map that the calls so far describe and the answers that it would have
    given. -/
structure ObservedClient where
  worker : ClientWorker
  calls : InternalKey → Option Bytes
  expected : List (InternalKey × GetAnswer)

namespace ObservedClient

/-- Nothing has been stored. -/
def start : ObservedClient where
  worker := ⟨fun _ => none, fun _ => none, [], [], fun _ => none, none, [], false⟩
  calls _ := none
  expected := []

variable (o : ObservedClient)

/-- One step, with the call if it is one. -/
def step (action : ClientAction) : Option ObservedClient :=
  (o.worker.step action).map fun worker =>
    match action with
    | .put key data => { o with worker, calls := Function.update o.calls key (some data) }
    | .cleanUp runId => { o with worker, calls := ClientWorker.withoutRun o.calls runId }
    | .get key => { o with worker, expected := (key, .ofOption (o.calls key)) :: o.expected }
    | _ => { o with worker }

end ObservedClient

end DeepProve
