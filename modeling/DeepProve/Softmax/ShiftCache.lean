import DeepProve.ForStd.Runs
import DeepProve.Outcome

/-!
# The cache of the row shifts

`ConcatenationCache` of `layers/transformer/mod.rs`, and the way `calculate_shift_data` of
`layers/transformer/softmax/evaluate.rs` uses it: a square input that is as long as the cache takes
its shifts from there, and every other input adds the shifts of its rows. The cache is behind a
mutex, which a panic poisons.

What computes the shifts of the rows and what concatenates two tensors are parameters.
-/

namespace DeepProve

/-- A mutex, and whether a thread panicked while it held the lock. -/
structure Mutex (α : Type) where
  value : α
  poisoned : Bool

/-- `lock().unwrap()`, for the time of a call. -/
def Mutex.lock {α β : Type} (x : Call α β) : Call (Mutex α) β := fun m =>
  if m.poisoned then
    .error (.panic "called `Result::unwrap()` on an `Err` value: PoisonError \x7b .. \x7d") m
  else
    match x m.value with
    | .ok b value => .ok b ⟨value, false⟩
    | .error (.err msg) value => .error (.err msg) ⟨value, false⟩
    | .error e value => .error e ⟨value, true⟩

/-- `let _ = ..`: an error is dropped. -/
def Call.discard {σ α : Type} (x : Call σ α) : Call σ Unit := fun s =>
  match x s with
  | .ok _ s => .ok () s
  | .error (.err _) s => .ok () s
  | .error e s => .error e s

/-- What is not looked into: the shape of a tensor, the concatenation of two tensors along a
    dimension, and the shifts of the rows of an input. -/
structure ShiftOps (T : Type) where
  shape : T → List Nat
  cat : T → T → Nat → Outcome T
  rowShift : T → Outcome T

/-- Where a cache concatenates. -/
inductive CachingInfo where
  | static (rank concatenationDim : Nat)
  | dynamic (concatenationDim : Int)

/-- `get_concatenation_dim`. -/
def CachingInfo.getConcatenationDim (self : CachingInfo) (tensorRank : Nat) : Outcome Nat :=
  match self with
  | static _ concatenationDim => .ok concatenationDim
  | dynamic concatenationDim =>
    let msg := s!"Could not acquire concatenation dimension in ConcatenationCache, provided tensor had rank to small, rank: {tensorRank}, concatenation_dim: {concatenationDim}"
    if concatenationDim < 0 then do
      let dim := (tensorRank : Int) + concatenationDim
      ensure (decide (0 ≤ dim)) msg
      .ok dim.toNat
    else do
      let dim := concatenationDim.toNat
      ensure (decide (dim < tensorRank)) msg
      .ok dim

structure ConcatenationCache (T : Type) where
  cachedTensor : Option T
  cachingInfo : CachingInfo

namespace ShiftOps

variable {T : Type} (ops : ShiftOps T)

/-- `dim`. -/
def dim (tensor : T) (dim : Int) : Outcome Nat :=
  let index := if dim < 0 then ((ops.shape tensor).length : Int) + dim else dim
  if index < 0 then
    .error (.err "Dimension out of bounds")
  else
    okOr (ops.shape tensor)[index.toNat]? "Dimension out of bounds"

end ShiftOps

namespace ConcatenationCache

variable {T : Type} (ops : ShiftOps T)

def newDynamic (concatenationDim : Int) : ConcatenationCache T := ⟨none, .dynamic concatenationDim⟩

def reset (self : ConcatenationCache T) : ConcatenationCache T := { self with cachedTensor := none }

def isInitialized (self : ConcatenationCache T) : Bool := self.cachedTensor.isSome

/-- `concatenate`: the cached tensor is taken out before it is concatenated. -/
def concatenate (newTensor : T) : Call (ConcatenationCache T) T := do
  let self ← get
  let concatenationDim ← Call.lift
    (self.cachingInfo.getConcatenationDim (ops.shape newTensor).length)
  match self.cachedTensor with
  | some cachedTensor =>
    modify reset
    let catted ← Call.lift (ops.cat cachedTensor newTensor concatenationDim)
    modify fun self => { self with cachedTensor := some catted }
    return catted
  | none =>
    modify fun self => { self with cachedTensor := some newTensor }
    return newTensor

/-- `get_cached`. -/
def getCached (self : ConcatenationCache T) : Outcome T :=
  okOr self.cachedTensor "ConcatenationCache is not initialized"

/-- `current_sequence_length`. -/
def currentSequenceLength (self : ConcatenationCache T) : Outcome Nat :=
  match self.cachedTensor with
  | none => .ok 0
  | some tensor => do
    let concatenationDim ← Outcome.unwrapped
      (self.cachingInfo.getConcatenationDim (ops.shape tensor).length)
    Outcome.unwrapped (ops.dim tensor concatenationDim)

end ConcatenationCache

namespace Softmax

variable {T : Type} (ops : ShiftOps T)

/-- The cached shifts, if the input is square and as long as the cache. -/
def cachedShift (input : T) (shiftCache : ConcatenationCache T) : Outcome (Option T) := do
  let currentSequenceLength ← shiftCache.currentSequenceLength ops
  let secondLastDim ← ops.dim input (-2)
  let lastDim ← ops.dim input (-1)
  if secondLastDim = lastDim ∧ currentSequenceLength = lastDim then
    some <$> shiftCache.getCached
  else
    .ok none

/-- The part of `calculate_shift_data` that may return early. -/
def lookUp (input : T) : Call (Mutex (ConcatenationCache T)) (Option T) := do
  let shiftCacheInitialised ← Mutex.lock do return (← get).isInitialized
  if shiftCacheInitialised then
    Mutex.lock do Call.lift (cachedShift ops input (← get))
  else
    return none

/-- `calculate_shift_data`. -/
def calculateShiftData (input : T) : Call (Mutex (ConcatenationCache T)) T := do
  match ← lookUp ops input with
  | some shiftTensor => return shiftTensor
  | none =>
    let shiftTensor ← Call.lift (ops.rowShift input)
    Mutex.lock (Call.discard (ConcatenationCache.concatenate ops shiftTensor))
    return shiftTensor

/-- `reset_cache`. -/
def resetCache : Call (Mutex (ConcatenationCache T)) Unit :=
  Mutex.lock (modify ConcatenationCache.reset)

/-- The cache of `Softmax::new`. -/
def newCache : Mutex (ConcatenationCache T) := ⟨.newDynamic (-2), false⟩

/-- What happens to a softmax. -/
inductive Event (T : Type) where
  | evaluate (input : T)
  | reset

end Softmax

end DeepProve
