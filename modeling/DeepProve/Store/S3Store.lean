import DeepProve.ForStd.Files
import DeepProve.ForStd.Runs
import DeepProve.Outcome

/-!
# The store of parameters and models

`S3Store` of `store.rs`: values are kept in S3 under hierarchical keys, and copies of them may be
kept in a temporary directory, under the same paths.
-/

namespace DeepProve

/-- How values are turned to bytes. -/
structure Codec (Value Bytes : Type) where
  encode : Value → Bytes
  decode : Bytes → Option Value
  decode_encode : ∀ value, decode (encode value) = some value

/-! ## Keys -/

structure ParamsKey where
  modelFileHash : String

inductive ScalingStrategyKind where
  | inferenceObserver
  | absoluteMax

def ScalingStrategyKind.display : ScalingStrategyKind → String
  | .inferenceObserver => "InferenceObserver"
  | .absoluteMax => "AbsoluteMax"

structure ModelKey where
  modelFileHash : String
  scalingStrategy : ScalingStrategyKind
  scalingInputHash : Option String

/-- The parts of a path. -/
abbrev StorePath := List String

/-- `Path::from_iter`: the parts are encoded by `part`, and empty ones are dropped. -/
def StorePath.fromIter (part : String → String) (parts : List String) : StorePath :=
  (parts.map part).filter fun raw => raw ≠ ""

/-- `params_key`. -/
def paramsKey (part : String → String) (key : ParamsKey) : StorePath :=
  let pkgMajorVersion := "2"
  .fromIter part ["Params", pkgMajorVersion, key.modelFileHash]

/-- `model_key`. -/
def modelKey (part : String → String) (key : ModelKey) : StorePath :=
  let scalingStrategy := key.scalingStrategy.display
  match key.scalingInputHash with
  | some scalingInputHash =>
    .fromIter part ["Model", key.modelFileHash, scalingStrategy, scalingInputHash]
  | none => .fromIter part ["Model", key.modelFileHash, scalingStrategy]

/-- What the store rests on. -/
structure S3Env (Params ScaledModel Bytes : Type) where
  /-- The percent-encoding of a part of a path. -/
  part : String → String
  part_ne_empty : ∀ s, s ≠ "" → part s ≠ ""
  params : Codec Params Bytes
  models : Codec ScaledModel Bytes

/-! ## The store -/

/-- What is in S3, and the cache if there is one. -/
structure S3Store (Bytes : Type) where
  store : StorePath → Option Bytes
  fsCache : Option (FileTree String Bytes)

namespace S3Store

variable {Params ScaledModel Bytes : Type}

/-- What is in the cache under a path. -/
def readCache (self : S3Store Bytes) (path : StorePath) : Outcome (Option Bytes) :=
  match self.fsCache with
  | none => .ok none
  | some cache => do
    if ← okOr (cache.tryExists path) "access FS cache" then
      .ok (some (← okOr (cache.read path) "Is a directory (os error 21)"))
    else .ok none

/-- A copy is put in the cache. -/
def writeCache (self : S3Store Bytes) (path : StorePath) (bytes : Bytes) :
    Outcome Unit × S3Store Bytes :=
  match self.fsCache with
  | none => (.ok (), self)
  | some cache =>
    -- the directory that is made is that of the entry, not the one above it
    match cache.createDirAll path with
    | none => (.error (.err "create FS cache dirs"), self)
    | some cache =>
      let self := { self with fsCache := some cache }
      match cache.write path bytes with
      | none => (.error (.err "write params to FS cache"), self)
      | some cache => (.ok (), { self with fsCache := some cache })

/-- `store.put`. -/
def put (self : S3Store Bytes) (path : StorePath) (bytes : Bytes) : S3Store Bytes :=
  { self with store := Function.update self.store path (some bytes) }

variable (env : S3Env Params ScaledModel Bytes) (self : S3Store Bytes)

/-- `get_params`. -/
def getParams (key : ParamsKey) : Outcome (Option Params) × S3Store Bytes :=
  let path := paramsKey env.part key
  match self.readCache path with
  | .error e => (.error e, self)
  | .ok (some bytes) =>
    (some <$> okOr (env.params.decode bytes) "decoding params value from FS cache", self)
  | .ok none =>
    match self.store path with
    | none => (.ok none, self)
    | some bytes =>
      match env.params.decode bytes with
      | none => (.error (.err "decoding params value from S3"), self)
      | some value =>
        match self.writeCache path bytes with
        | (.error e, self) => (.error e, self)
        | (.ok (), self) => (.ok (some value), self)

/-- The copy that `insert_params` makes before it looks whether the key is there. -/
def insertCache (path : StorePath) (bytes : Bytes) : Outcome Unit × S3Store Bytes :=
  match self.fsCache with
  | none => (.ok (), self)
  | some cache =>
    match cache.tryExists path with
    | none => (.error (.err "access FS cache"), self)
    | some true => (.ok (), self)
    | some false => self.writeCache path bytes

/-- `insert_params`. -/
def insertParams (key : ParamsKey) (params : Params) : Outcome Unit × S3Store Bytes :=
  let valueBytes := env.params.encode params
  let path := paramsKey env.part key
  match self.insertCache path valueBytes with
  | (.error e, self) => (.error e, self)
  | (.ok (), self) =>
    if (self.store path).isSome then
      let key := "/".intercalate path
      (.error (.err s!"trying to insert params with {key} that is already present"), self)
    else (.ok (), self.put path valueBytes)

/-- `get_or_init_model_with`. -/
def getOrInitModelWith (key : ModelKey) (init : Outcome ScaledModel) :
    Outcome ScaledModel × S3Store Bytes :=
  let path := modelKey env.part key
  match self.readCache path with
  | .error e => (.error e, self)
  | .ok (some bytes) =>
    (okOr (env.models.decode bytes) "decoding scaled model value from FS cache", self)
  | .ok none =>
    match self.store path with
    | some bytes =>
      match env.models.decode bytes with
      | none => (.error (.err "decoding scaled model value from S3"), self)
      | some value =>
        match self.writeCache path bytes with
        | (.error e, self) => (.error e, self)
        | (.ok (), self) => (.ok value, self)
    | none =>
      match init with
      | .error e => (.error e, self)
      | .ok value =>
        let valueBytes := env.models.encode value
        match self.writeCache path valueBytes with
        | (.error e, self) => (.error e, self)
        | (.ok (), self) => (.ok value, self.put path valueBytes)

end S3Store

/-! ## Calls -/

inductive S3Call (Params ScaledModel : Type) where
  | getParams (key : ParamsKey)
  | insertParams (key : ParamsKey) (params : Params)
  | getOrInitModelWith (key : ModelKey) (init : Outcome ScaledModel)

inductive S3Reply (Params ScaledModel : Type) where
  | params (value : Option Params)
  | inserted
  | model (value : ScaledModel)
  deriving DecidableEq

/-- One call; an error is an error, whatever its text. -/
def S3Store.step {Params ScaledModel Bytes : Type} (env : S3Env Params ScaledModel Bytes)
    (self : S3Store Bytes) :
    S3Call Params ScaledModel → Option (S3Reply Params ScaledModel) × S3Store Bytes
  | .getParams key =>
    let (result, self) := self.getParams env key
    (result.toOption.map .params, self)
  | .insertParams key params =>
    let (result, self) := self.insertParams env key params
    (result.toOption.map fun _ => .inserted, self)
  | .getOrInitModelWith key init =>
    let (result, self) := self.getOrInitModelWith env key init
    (result.toOption.map .model, self)

end DeepProve
