import DeepProve.Fountain.Frame
import DeepProve.PolyCommit.Basic

/-!
# The fountain decoder

`arkhe-soc-tlm/src/fountain_decoder.rs` (`FountainDecoder`): frames of which all but one block are
known give that block, the others wait. A frame that waits keeps the number of the blocks it lacks
as its degree; which ones they are is kept in a map from blocks to frames.
-/

namespace DeepProve

namespace Fountain

structure FountainDecoder where
  decodedBlocks : HashMap Nat (List UInt8)
  pendingFrames : List FountainFrame
  blockToFrames : HashMap Nat (List Nat)
  currentSession : Option Nat
  expectedK : Nat
  blockSize : Nat

namespace FountainDecoder

variable (env : Env)

def new : FountainDecoder where
  decodedBlocks := ∅
  pendingFrames := []
  blockToFrames := ∅
  currentSession := none
  expectedK := 0
  blockSize := 0

variable (self : FountainDecoder)

/-- `is_complete`. -/
def isComplete : Bool :=
  if self.expectedK = 0 then
    false
  else
    decide (self.expectedK ≤ self.decodedBlocks.size)

/-- The first frame of a session; a frame of another session drops what is there. -/
def startSession (frame : FountainFrame) : FountainDecoder :=
  match self.currentSession with
  | none =>
    { self with
      currentSession := some frame.sessionId
      expectedK := frame.k
      blockSize := frame.blockSize }
  | some sid =>
    if sid = frame.sessionId then
      self
    else
      { decodedBlocks := ∅
        pendingFrames := []
        blockToFrames := ∅
        currentSession := some frame.sessionId
        expectedK := frame.k
        blockSize := frame.blockSize }

/-- One index of a frame: its block is added up, or the index is left unresolved. -/
def sortIndex (acc : List Nat × List UInt8) (idx : Nat) : Outcome (List Nat × List UInt8) :=
  match self.decodedBlocks[idx]? with
  | some block =>
    if block.length ≤ acc.2.length then
      .ok (acc.1, xorPrefix acc.2 block)
    else
      .error (.panic "index out of bounds")
  | none => .ok (acc.1 ++ [idx], acc.2)

/-- A frame that waits for a block gets it. -/
def resolveFrame (resolvedData : List UInt8) (pending : List FountainFrame) (frameIdx : Nat) :
    Outcome (List FountainFrame) :=
  match pending[frameIdx]? with
  | none => .ok pending
  | some frame => do
    let degree ← usizeSub frame.degree 1
    .ok (pending.set frameIdx
      { frame with payload := xorPrefix frame.payload resolvedData, degree := degree })

/-- `propagate_resolution`. -/
def propagateResolution (resolvedIdx : Nat) (resolvedData : List UInt8) :
    Outcome FountainDecoder :=
  match self.blockToFrames[resolvedIdx]? with
  | none => .ok self
  | some frameIndices => do
    let pending ← frameIndices.foldlM (resolveFrame resolvedData) self.pendingFrames
    .ok { self with
      pendingFrames := pending
      blockToFrames := self.blockToFrames.erase resolvedIdx }

/-- `find_remaining_block`: the indices are selected anew, with the degree that is left. -/
def findRemainingBlock (fuel : Nat) (order : HashOrder) (frameIdx : Nat) :
    Outcome (Option Nat) := do
  let frame ← unwrap self.pendingFrames[frameIdx]? "index out of bounds"
  let indices ← frame.sourceIndices env fuel order
  .ok (indices.find? fun idx => !self.decodedBlocks.contains idx)

/-- Add the frames of degree one to the queue. -/
def enqueue (queue : List Nat) : List Nat :=
  self.pendingFrames.zipIdx.foldl (fun queue (frame, idx) =>
    if frame.degree = 1 ∧ idx ∉ queue then queue ++ [idx] else queue) queue

/-- A block is known. -/
def learn (idx : Nat) (data : List UInt8) : Outcome FountainDecoder :=
  { self with decodedBlocks := self.decodedBlocks.insert idx data }.propagateResolution idx data

/-- `while let Some(frame_idx) = queue.pop_front()`. -/
def cascadeLoop (order : HashOrder) (selectFuel : Nat) :
    Nat → List Nat → FountainDecoder → Outcome FountainDecoder
  | _, [], self => .ok self
  | 0, _ :: _, _ => .error .outOfFuel
  | fuel + 1, frameIdx :: queue, self =>
    match self.pendingFrames[frameIdx]? with
    | none => cascadeLoop order selectFuel fuel queue self
    | some frame =>
      if frame.degree = 1 then do
        match ← self.findRemainingBlock env selectFuel order frameIdx with
        | none => cascadeLoop order selectFuel fuel queue self
        | some idx =>
          if self.decodedBlocks.contains idx then
            cascadeLoop order selectFuel fuel queue self
          else do
            let self ← self.learn idx frame.payload
            cascadeLoop order selectFuel fuel (self.enqueue queue) self
      else
        cascadeLoop order selectFuel fuel queue self

/-- `peel_cascade`. -/
def peelCascade (fuel : Nat) (order : HashOrder) : Outcome FountainDecoder :=
  cascadeLoop env order fuel fuel (self.enqueue []) self

/-- A frame that waits for several blocks. -/
def addPending (frame : FountainFrame) (unresolved : List Nat) (payload : List UInt8) :
    FountainDecoder :=
  let frameIdx := self.pendingFrames.length
  { self with
    pendingFrames :=
      self.pendingFrames ++ [{ frame with degree := unresolved.length, payload := payload }]
    blockToFrames := unresolved.foldl
      (fun frames idx => frames.insert idx (frames.getD idx [] ++ [frameIdx])) self.blockToFrames }

/-- What `receive_frame` does with a frame of the session that is not complete yet. -/
def absorb (fuel : Nat) (order : HashOrder) (frame : FountainFrame) : Outcome FountainDecoder := do
  let indices ← frame.sourceIndices env fuel order
  let (unresolved, resolvedXor) ← indices.foldlM self.sortIndex
    ([], List.replicate frame.payload.length 0)
  let payload := xorPrefix frame.payload resolvedXor
  match unresolved with
  | [] => .ok self
  | [resolvedIdx] => do
    let self ← self.learn resolvedIdx payload
    self.peelCascade env fuel order
  | unresolved => .ok (self.addPending frame unresolved payload)

/-- `receive_frame`. -/
def receiveFrame (fuel : Nat) (order : HashOrder) (rawData : List UInt8) :
    Call FountainDecoder Bool := do
  match ← Call.lift (FountainFrame.parse env rawData) with
  | none => throw (.err "Invalid frame or Hash mismatch")
  | some frame => do
    modify (·.startSession frame)
    let self ← get
    if self.isComplete then
      return true
    else
      let self ← Call.lift (self.absorb env fuel order frame)
      set self
      return self.isComplete

/-- The blocks of the first indices, one after the other. -/
def reconstruct : Option (List UInt8) :=
  if self.isComplete then do
    let blocks ← (List.range self.expectedK).mapM fun i => self.decodedBlocks[i]?
    some blocks.flatten
  else
    none

end FountainDecoder

end Fountain

end DeepProve
