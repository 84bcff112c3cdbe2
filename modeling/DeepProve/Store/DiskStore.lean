import DeepProve.ForStd.Runs
import DeepProve.Outcome

/-!
# The disk store

`DiskStore` of `local.rs`, with `cast_and_fetch` of `genstore.rs`: an index of what has been stored,
one file for each entry, and a cache of the files' bytes. The name of the file is a hash of the kind
and the identifier of an entry.
-/

namespace DeepProve

abbrev Bytes := List UInt8

inductive StoreError where
  | keyUnknown
  | ioError
  | emptyStore
  | serializationError
  | deserializationError
  deriving DecidableEq

inductive StoreFault where
  | error (e : StoreError)
  | panic (msg : String)
  deriving DecidableEq

/-- The result of a method of the store, and the store afterwards. -/
abbrev StoreM (σ α : Type) := σ → Except StoreFault α × σ

structure InternalKey where
  runId : Nat
  id : String
  /-- The name of the type of the data. -/
  kind : String
  deriving DecidableEq

namespace InternalKey

instance : Ord InternalKey :=
  ⟨compareLex (compareLex (compareOn runId) (compareOn id)) (compareOn kind)⟩

instance : Std.TransCmp (compare : InternalKey → InternalKey → Ordering) :=
  inferInstanceAs
    (Std.TransCmp (compareLex (compareLex (compareOn runId) (compareOn id)) (compareOn kind)))

instance : Std.LawfulEqCmp (compare : InternalKey → InternalKey → Ordering) where
  eq_of_compare {a b} h := by
    have h : compareLex (compareLex (compareOn runId) (compareOn id)) (compareOn kind) a b = .eq := h
    rw [compareLex_eq_eq, compareLex_eq_eq] at h
    obtain ⟨⟨hrun, hid⟩, hkind⟩ := h
    cases a; cases b
    simp only [compareOn] at hrun hid hkind
    simp only [Std.LawfulEqCmp.eq_of_compare hrun, Std.LawfulEqCmp.eq_of_compare hid,
      Std.LawfulEqCmp.eq_of_compare hkind]

/-- The entry of another run. -/
def inRun (self : InternalKey) (runId : Nat) : InternalKey := { self with runId }

end InternalKey

/-- What the store rests on. -/
structure StoreEnv (Path : Type) where
  /-- The root, and the hash of the kind and the identifier. -/
  fileName : String → String → Path
  fileName_inj : ∀ kind id kind' id', fileName kind id = fileName kind' id' →
    kind = kind' ∧ id = id'
  /-- `HashMap::values`, in whatever order. -/
  values : List Path → List Path
  values_perm : ∀ files, (values files).Perm files

/-- `rooted_at`: the run is not part of the name. -/
def InternalKey.rootedAt {Path : Type} (self : InternalKey) (env : StoreEnv Path) : Path :=
  env.fileName self.kind self.id

structure DiskStore (Path : Type) where
  /-- The file of each entry, by run. -/
  storage : HashMap Nat (HashMap InternalKey Path)
  /-- What the LRU cache holds. -/
  cache : InternalKey → Option Bytes
  files : Path → Option Bytes

/-! ## The methods -/

namespace DiskStore

variable {Path : Type} [DecidableEq Path] (env : StoreEnv Path)

/-- The file of an entry. -/
def backing (self : DiskStore Path) (key : InternalKey) : Option Path :=
  self.storage[key.runId]?.bind fun ks => ks[key]?

/-- `contains_internal`. -/
def contains (key : InternalKey) : StoreM (DiskStore Path) Bool := fun self =>
  match self.backing key with
  | some file => (.ok ((self.cache key).isSome || (self.files file).isSome), self)
  | none => (.ok false, self)

/-- `fetch_bytes_internal`. -/
def fetch (key : InternalKey) : StoreM (DiskStore Path) Bytes := fun self =>
  match self.backing key with
  | none => (.error (.error .keyUnknown), self)
  | some file =>
    match self.cache key with
    | some data => (.ok data, self)
    | none =>
      match self.files file with
      -- `file_size` looks for the file before it is opened
      | none => (.error (.panic "called Result::unwrap() on an Err value"), self)
      | some [] => (.error (.error .emptyStore), self)
      | some buffer => (.ok buffer, { self with cache := Function.update self.cache key (some buffer) })

/-- The entry that `store_bytes_internal` writes to is made first. -/
def withEntry (self : DiskStore Path) (key : InternalKey) : DiskStore Path :=
  let ks := (self.storage[key.runId]?).getD ∅
  let file := (ks[key]?).getD (key.rootedAt env)
  { self with storage := self.storage.insert key.runId (ks.insert key file) }

/-- `store_bytes_internal`. -/
def store (key : InternalKey) (data : Bytes) : StoreM (DiskStore Path) Unit := fun self =>
  let self := self.withEntry env key
  let file := (self.backing key).getD (key.rootedAt env)
  if data = [] then (.error (.error .emptyStore), self)
  else
    (.ok (), { self with
      files := Function.update self.files file (some data)
      cache := Function.update self.cache key (some data) })

/-- The files are removed until one is missing. -/
def removeFiles (files : Path → Option Bytes) : List Path → Except StoreFault Unit × (Path → Option Bytes)
  | [] => (.ok (), files)
  | file :: rest =>
    match files file with
    | none => (.error (.error .ioError), files)
    | some _ => removeFiles (Function.update files file none) rest

/-- `clean_up`: the cache is left as it is. -/
def cleanUp (runId : Nat) : StoreM (DiskStore Path) Unit := fun self =>
  match self.storage[runId]? with
  | none => (.ok (), self)
  | some ks =>
    let (result, files) := removeFiles self.files (env.values ks.values)
    (result, { self with storage := self.storage.erase runId, files })

/-- The cache drops what it likes. -/
def evict (keeps : InternalKey → Bool) : StoreM (DiskStore Path) Unit := fun self =>
  (.ok (), { self with cache := fun key => if keeps key then self.cache key else none })

end DiskStore

/-! ## Casts -/

/-- The functions of a cast from `T` to `U`. -/
structure Cast where
  /-- The name of `U`. -/
  kind : String
  /-- Whether the bytes are those of a `U`. -/
  decodes : Bytes → Bool
  /-- A `T` is decoded, the function applied and the result encoded. -/
  convert : Bytes → Except StoreError Bytes

/-- The result of a method, as something else. -/
def mapResult {σ α β : Type} (f : α → β) (result : Except StoreFault α × σ) :
    Except StoreFault β × σ :=
  (result.1.map f, result.2)

/-- `cast_and_fetch`, over any store. -/
def castAndFetch {σ : Type} (fetch : InternalKey → StoreM σ Bytes)
    (store : InternalKey → Bytes → StoreM σ Unit) (key : InternalKey) (cast : Cast) :
    StoreM σ Bytes := fun s =>
  let newKey := { key with kind := cast.kind }
  match fetch newKey s with
  | (.ok data, s) =>
    if cast.decodes data then (.ok data, s) else (.error (.error .deserializationError), s)
  | (.error (.error .keyUnknown), s) =>
    match fetch key s with
    | (.error e, s) => (.error e, s)
    | (.ok oldPage, s) =>
      match cast.convert oldPage with
      | .error e => (.error (.error e), s)
      | .ok newPage =>
        mapResult (fun _ => newPage) (store newKey newPage s)
  | (.error e, s) => (.error e, s)

/-! ## Calls -/

inductive StoreCall where
  | store (key : InternalKey) (data : Bytes)
  | fetch (key : InternalKey)
  | contains (key : InternalKey)
  | castAndFetch (key : InternalKey) (cast : Cast)
  | cleanUp (runId : Nat)
  /-- Not a call: what the cache does between two of them. -/
  | evict (keeps : InternalKey → Bool)

inductive StoreReply where
  | unit
  | bool (b : Bool)
  | bytes (data : Bytes)
  deriving DecidableEq

/-- One call of the disk store. -/
def DiskStore.step {Path : Type} [DecidableEq Path] (env : StoreEnv Path) (self : DiskStore Path) :
    StoreCall → Except StoreFault StoreReply × DiskStore Path
  | .store key data => mapResult (fun _ => .unit) (store env key data self)
  | .fetch key => mapResult .bytes (fetch key self)
  | .contains key => mapResult .bool (contains key self)
  | .castAndFetch key cast => mapResult .bytes (castAndFetch fetch (store env) key cast self)
  | .cleanUp runId => mapResult (fun _ => .unit) (cleanUp env runId self)
  | .evict keeps => mapResult (fun _ => .unit) (evict keeps self)

/-! ## The map -/

/-- What has been stored under a run, an identifier and a type. -/
abbrev StoreMap := InternalKey → Option Bytes

namespace StoreMap

def fetch (key : InternalKey) : StoreM StoreMap Bytes := fun m =>
  match m key with
  | some data => (.ok data, m)
  | none => (.error (.error .keyUnknown), m)

/-- An empty page is refused. -/
def store (key : InternalKey) (data : Bytes) : StoreM StoreMap Unit := fun m =>
  if data = [] then (.error (.error .emptyStore), m)
  else (.ok (), Function.update m key (some data))

def cleanUp (runId : Nat) : StoreM StoreMap Unit := fun m =>
  (.ok (), fun key => if key.runId = runId then none else m key)

end StoreMap

/-- One call of the map. -/
def stepMap (m : StoreMap) : StoreCall → Except StoreFault StoreReply × StoreMap
  | .store key data => mapResult (fun _ => .unit) (StoreMap.store key data m)
  | .fetch key => mapResult .bytes (StoreMap.fetch key m)
  | .contains key => (.ok (.bool (m key).isSome), m)
  | .castAndFetch key cast => mapResult .bytes (castAndFetch StoreMap.fetch StoreMap.store key cast m)
  | .cleanUp runId => mapResult (fun _ => .unit) (StoreMap.cleanUp runId m)
  | .evict _ => (.ok .unit, m)

end DeepProve
