import DeepProve.Fountain.Frame
import DeepProve.Shape

/-!
# The fountain encoder

`arkhe-soc-tlm/src/fountain_encoder.rs` (`RobustSoliton::sample`, `FountainEncoder`): data is cut into
blocks of one size, and each frame carries the sum of some of them.

The random number that `sample` compares with the cumulative distribution is a parameter of each
frame: it says at which degrees the distribution is below it.
-/

namespace DeepProve

namespace Fountain

open Outcome

/-- `while lo < hi`, `below mid` being `cdf[mid] < u`. -/
def sampleLoop (below : Nat → Bool) (lo hi : Nat) : Nat :=
  if lo < hi then
    let mid := (lo + hi) / 2
    if below mid then sampleLoop below (mid + 1) hi else sampleLoop below lo mid
  else
    lo
termination_by hi - lo

/-- `sample`. -/
def sample (k : Nat) (below : Nat → Bool) : Nat :=
  if k ≤ 1 then k else sampleLoop below 1 k

structure FountainEncoder where
  blocks : List (List UInt8)
  k : Nat
  blockSize : Nat
  sessionId : Nat
  seqNum : Nat

/-- Block `i` of the data, with zeros where the data ends. -/
def blockAt (data : List UInt8) (blockSize i : Nat) : List UInt8 :=
  let start := i * blockSize
  let stop := min (start + blockSize) data.length
  let block := (data.drop start).take (stop - start)
  block ++ List.replicate (blockSize - block.length) 0

namespace FountainEncoder

/-- `new`; the session id is random. -/
def new (data : List UInt8) (blockSize sessionId : Nat) : Outcome FountainEncoder :=
  if blockSize = 0 then
    .error (.panic "attempt to divide by zero")
  else
    let k := (data.length + blockSize - 1) / blockSize
    .ok {
      blocks := (List.range k).map (blockAt data blockSize)
      k := k
      blockSize := blockSize
      sessionId := sessionId
      seqNum := 0 }

variable (env : Env) (self : FountainEncoder)

/-- Add a block to the payload. -/
def addBlock (payload : List UInt8) (idx : Nat) : Outcome (List UInt8) := do
  let block ← unwrap self.blocks[idx]? "index out of bounds"
  if block.length ≤ payload.length then
    .ok (xorPrefix payload block)
  else
    .error (.panic "index out of bounds")

/-- The frame without the hash. -/
def frameBytes (degree seed : Nat) (payload : List UInt8) : List UInt8 :=
  toLeBytes 4 magic ++ (toLeBytes 4 self.sessionId ++ (toLeBytes 4 self.seqNum ++
    (toLeBytes 2 self.k ++ (toLeBytes 2 self.blockSize ++ (toLeBytes 4 payload.length ++
      (toLeBytes 2 degree ++ (toLeBytes 4 seed ++ payload)))))))

/-- The seed of the next frame. -/
def seed : Nat := self.seqNum * 0x9E3779B9 % 2 ^ 32

/-- `next_frame`. -/
def nextFrame (fuel : Nat) (below : Nat → Bool) : Outcome (List UInt8 × FountainEncoder) := do
  let d := sample self.k below
  let selected ← selectIndices env fuel self.seed self.k d
  let payload ← selected.foldlM self.addBlock (List.replicate self.blockSize 0)
  let frame := self.frameBytes d self.seed payload
  .ok (frame ++ env.hash frame, { self with seqNum := (self.seqNum + 1) % 2 ^ 32 })

/-- The encoder after some frames. -/
inductive After (enc : FountainEncoder) : FountainEncoder → Prop where
  | start : After enc enc
  | next {enc' next : FountainEncoder} {fuel : Nat} {below : Nat → Bool} {raw : List UInt8}
      (hafter : After enc enc') (hnext : enc'.nextFrame env fuel below = .ok (raw, next)) :
      After enc next

/-- A frame that the encoder sends at some time. -/
def Sent (enc : FountainEncoder) (raw : List UInt8) : Prop :=
  ∃ enc' fuel below next, After env enc enc' ∧ enc'.nextFrame env fuel below = .ok (raw, next)

end FountainEncoder

/-! ## Degrees -/

theorem sampleLoop_bounds (below : Nat → Bool) {lo hi : Nat} (h : lo ≤ hi) :
    lo ≤ sampleLoop below lo hi ∧ sampleLoop below lo hi ≤ hi := by
  induction lo, hi using sampleLoop.induct below with
  | case1 lo hi hlt mid hbelow ih =>
    have hmid : mid = (lo + hi) / 2 := rfl
    have hloop : sampleLoop below lo hi = sampleLoop below (mid + 1) hi := by
      rw [sampleLoop, if_pos hlt]
      exact if_pos hbelow
    have hbounds := ih (by omega)
    omega
  | case2 lo hi hlt mid hbelow ih =>
    have hmid : mid = (lo + hi) / 2 := rfl
    have hloop : sampleLoop below lo hi = sampleLoop below lo mid := by
      rw [sampleLoop, if_pos hlt]
      exact if_neg hbelow
    have hbounds := ih (by omega)
    omega
  | case3 lo hi hge =>
    rw [sampleLoop, if_neg hge]
    omega

/-- The degree is at least one, and at most the number of the blocks. -/
theorem sample_bounds {k : Nat} (below : Nat → Bool) (hk : 0 < k) :
    1 ≤ sample k below ∧ sample k below ≤ k := by
  unfold sample
  split
  · omega
  · exact sampleLoop_bounds below hk

theorem sample_zero (below : Nat → Bool) : sample 0 below = 0 := rfl

/-! ## Blocks -/

@[simp] theorem length_blockAt (data : List UInt8) (blockSize i : Nat) :
    (blockAt data blockSize i).length = blockSize := by
  unfold blockAt
  simp only [List.length_append, List.length_take, List.length_drop, List.length_replicate]
  omega

/-- A block is cut out of the data that are filled up with zeros. -/
theorem blockAt_eq {data : List UInt8} {blockSize k i : Nat} (hi : i < k) :
    blockAt data blockSize i = ((data ++ List.replicate (k * blockSize - data.length) 0).drop
      (i * blockSize)).take blockSize := by
  have hmul : (i + 1) * blockSize ≤ k * blockSize := Nat.mul_le_mul_right _ hi
  rw [Nat.succ_mul] at hmul
  unfold blockAt
  apply List.ext_getElem?
  intro j
  simp only [List.getElem?_append, List.getElem?_take, List.getElem?_drop, List.getElem?_replicate,
    List.length_take, List.length_drop]
  -- the index lies in the data, in the zeros after it, or outside the block
  rcases Nat.lt_or_ge (i * blockSize + j) data.length with hdata | hdata
  · rcases Nat.lt_or_ge j blockSize with hj | hj
    · grind
    · grind
  · have hnone : data[i * blockSize + j]? = none := List.getElem?_eq_none hdata
    rcases Nat.lt_or_ge j blockSize with hj | hj
    · grind
    · grind

namespace FountainEncoder

variable {env : Env} {enc : FountainEncoder} {data : List UInt8} {blockSize sessionId : Nat}

/-- What the encoder of some data is. -/
structure Encodes (enc : FountainEncoder) (data : List UInt8) (blockSize sessionId : Nat) : Prop where
  blockSize_pos : 0 < blockSize
  k_eq : enc.k = (data.length + blockSize - 1) / blockSize
  blocks_eq : enc.blocks = (List.range enc.k).map (blockAt data blockSize)
  blockSize_eq : enc.blockSize = blockSize
  sessionId_eq : enc.sessionId = sessionId

theorem encodes_of_new (h : new data blockSize sessionId = .ok enc) :
    Encodes enc data blockSize sessionId ∧ enc.seqNum = 0 := by
  unfold new at h
  split at h
  · cases h
  · next hne =>
    obtain rfl := Except.ok.inj h
    exact ⟨⟨Nat.pos_of_ne_zero hne, rfl, rfl, rfl, rfl⟩, rfl⟩

namespace Encodes

variable (h : Encodes enc data blockSize sessionId)

include h

theorem length_data_le : data.length ≤ enc.k * blockSize := by
  have hpos := h.blockSize_pos
  have hdiv := Nat.div_add_mod (data.length + blockSize - 1) blockSize
  have hmod := Nat.mod_lt (data.length + blockSize - 1) hpos
  rw [h.k_eq, Nat.mul_comm]
  omega

theorem getElem?_blocks {i : Nat} (hi : i < enc.k) :
    enc.blocks[i]? = some (blockAt data blockSize i) := by
  rw [h.blocks_eq, List.getElem?_map, List.getElem?_range hi]
  rfl

/-- The blocks are the data, filled up with zeros. -/
theorem flatten_blocks :
    enc.blocks.flatten = data ++ List.replicate (enc.k * blockSize - data.length) 0 := by
  have hlength : (data ++ List.replicate (enc.k * blockSize - data.length) 0).length =
      enc.k * blockSize := by
    rw [List.length_append, List.length_replicate]
    have := h.length_data_le
    omega
  rw [← flatten_pieces h.blockSize_pos hlength, pieces_of_length h.blockSize_pos hlength, h.blocks_eq]
  congr 1
  apply List.map_congr_left
  intro i hi
  exact blockAt_eq (List.mem_range.mp hi)

/-- The payload is the sum of the selected blocks. -/
theorem foldlM_addBlock {selected : List Nat} (hselected : ∀ i ∈ selected, i < enc.k) :
    selected.foldlM enc.addBlock (List.replicate enc.blockSize 0) =
      .ok (xorAll blockSize (selected.map fun i => enc.blocks.getD i [])) := by
  have hfold : ∀ payload : List UInt8, payload.length = blockSize →
      selected.foldlM enc.addBlock payload =
        .ok ((selected.map fun i => enc.blocks.getD i []).foldl xorPrefix payload) := by
    induction selected with
    | nil => exact fun _ _ => rfl
    | cons i selected ih =>
      intro payload hpayload
      obtain ⟨hi, hrest⟩ := List.forall_mem_cons.mp hselected
      have hblock := h.getElem?_blocks hi
      have hadd : enc.addBlock payload i = .ok (xorPrefix payload (enc.blocks.getD i [])) := by
        rw [addBlock, hblock, unwrap_some, Outcome.ok_bind, if_pos (by simp [hpayload]),
          List.getD_eq_getElem?_getD, hblock]
        rfl
      rw [List.foldlM_cons, hadd, Outcome.ok_bind, ih hrest _ (by rw [length_xorPrefix, hpayload])]
      rfl
  rw [h.blockSize_eq]
  exact hfold _ List.length_replicate

end Encodes

/-! ## The bytes of a frame -/

/-- A number that is written at some place is read there. -/
theorem field_eq {data pre post : List UInt8} {width n start stop : Nat}
    (hdata : data = pre ++ (toLeBytes width n ++ post)) (hstart : pre.length = start)
    (hstop : start + width = stop) (hn : n < 256 ^ width) : field data start stop = n := by
  have hdrop : data.drop start = toLeBytes width n ++ post := by rw [hdata, ← hstart, List.drop_left]
  have htake : (toLeBytes width n ++ post).take width = toLeBytes width n := by
    rw [List.take_left' (length_toLeBytes width n)]
  rw [field, hdrop, ← hstop, Nat.add_sub_cancel_left, htake, fromLeBytes_toLeBytes hn]

theorem seed_lt (enc : FountainEncoder) : enc.seed < 2 ^ 32 := Nat.mod_lt _ (by decide)

/-- The numbers in the header have the widths of their fields. -/
structure HeaderFits (enc : FountainEncoder) : Prop where
  sessionId_lt : enc.sessionId < 2 ^ 32
  seqNum_lt : enc.seqNum < 2 ^ 32
  k_lt : enc.k < 2 ^ 16
  blockSize_lt : enc.blockSize < 2 ^ 16

end FountainEncoder

/-- A frame of an encoder, and the indices of its blocks. -/
structure IsFrame (env : Env) (enc : FountainEncoder) (raw : List UInt8) (source : List Nat) :
    Prop where
  accepts_eq : accepts env raw = true
  fits : 26 + payloadLen raw ≤ raw.length
  sessionId_eq : (frameOf raw).sessionId = enc.sessionId
  k_eq : (frameOf raw).k = enc.k
  selected : ∃ fuel, selectIndices env fuel (frameOf raw).seed (frameOf raw).k (frameOf raw).degree =
    .ok source
  degree_le : (frameOf raw).degree ≤ enc.k
  degree_pos : 0 < enc.k → 0 < (frameOf raw).degree
  payload_eq : (frameOf raw).payload =
    xorAll enc.blockSize (source.map fun i => enc.blocks.getD i [])

namespace FountainEncoder

variable {env : Env} {enc : FountainEncoder} {data : List UInt8} {blockSize sessionId : Nat}

/-- What the decoder reads from a frame. -/
theorem isFrame_of_nextFrame (h : Encodes enc data blockSize sessionId) (hlawful : env.Lawful)
    (hfits : HeaderFits enc) {fuel : Nat} {below : Nat → Bool} {raw : List UInt8}
    {next : FountainEncoder} (hnext : enc.nextFrame env fuel below = .ok (raw, next)) :
    ∃ source, selectIndices env fuel enc.seed enc.k (sample enc.k below) = .ok source ∧
      IsFrame env enc raw source := by
  obtain ⟨selected, hselected, hnext⟩ := bind_eq_ok.mp hnext
  obtain ⟨payload, hpayload, hnext⟩ := bind_eq_ok.mp hnext
  obtain ⟨rfl, -⟩ := Prod.mk.inj (Except.ok.inj hnext)
  rw [h.foldlM_addBlock fun i hi => lt_of_mem_selectIndices hlawful hselected hi,
    Except.ok.injEq] at hpayload
  have hsize : payload.length = blockSize := by rw [← hpayload, length_xorAll]
  have hdegree : sample enc.k below ≤ enc.k ∧ (0 < enc.k → 0 < sample enc.k below) := by
    rcases Nat.eq_zero_or_pos enc.k with hk | hk
    · rw [hk, sample_zero]
      exact ⟨le_rfl, id⟩
    · exact ⟨(sample_bounds below hk).2, fun _ => (sample_bounds below hk).1⟩
  generalize hd : sample enc.k below = d at hselected hdegree
  generalize hframe : enc.frameBytes d enc.seed payload = frame
  generalize hraw : frame ++ env.hash frame = raw
  -- the header, number by number
  have hbytes : raw = toLeBytes 4 magic ++ (toLeBytes 4 enc.sessionId ++ (toLeBytes 4 enc.seqNum ++
      (toLeBytes 2 enc.k ++ (toLeBytes 2 enc.blockSize ++ (toLeBytes 4 payload.length ++
        (toLeBytes 2 d ++ (toLeBytes 4 enc.seed ++ (payload ++ env.hash frame)))))))) := by
    rw [← hraw, ← hframe, frameBytes]
    simp only [List.append_assoc]
  have hblockSize := h.blockSize_eq ▸ hfits.blockSize_lt
  have hklt := hfits.k_lt
  have hshift : ∀ {a b c : List UInt8}, raw = a ++ (b ++ c) → raw = (a ++ b) ++ c :=
    fun heq => heq.trans (List.append_assoc ..).symm
  have hat0 := hbytes.trans (List.nil_append _).symm
  have hat4 := hbytes
  have hat8 := hshift hat4
  have hat12 := hshift hat8
  have hat14 := hshift hat12
  have hat16 := hshift hat14
  have hat20 := hshift hat16
  have hat22 := hshift hat20
  have hat26 := hshift hat22
  have hseedLt := enc.seed_lt
  have hsessionLt := hfits.sessionId_lt
  have hmagicLt : magic < 256 ^ 4 := by unfold magic; omega
  have hmagic : field raw 0 4 = magic := field_eq hat0 rfl rfl hmagicLt
  have hsession : field raw 4 8 = enc.sessionId := field_eq hat4 (by simp) rfl (by omega)
  have hk : field raw 12 14 = enc.k := field_eq hat12 (by simp) rfl (by omega)
  have hlen : field raw 16 20 = payload.length := field_eq hat16 (by simp) rfl (by omega)
  have hdeg : field raw 20 22 = d := field_eq hat20 (by simp) rfl (by omega)
  have hseed : field raw 22 26 = enc.seed := field_eq hat22 (by simp) rfl (by omega)
  have hcut : raw.drop 26 = payload ++ env.hash frame := by
    rw [hat26]
    exact List.drop_left' (by simp)
  have hframeLength : frame.length = 26 + blockSize := by
    rw [← hframe, frameBytes]
    simp only [List.length_append, length_toLeBytes, hsize]
    omega
  have hlength : raw.length = 26 + blockSize + trailerSize := by
    rw [← hraw, List.length_append, hframeLength, hlawful.length_hash]
  have hend : raw.length - trailerSize = frame.length := by
    rw [hlength, hframeLength]
    omega
  refine ⟨selected, hd ▸ hselected, ?_, ?_, hsession, hk, ⟨fuel, ?_⟩, ?_, ?_, ?_⟩
  · unfold accepts
    dsimp only
    rw [hend, ← hraw, List.take_left, List.drop_left, beq_self_eq_true, Bool.and_true, hraw, hmagic,
      beq_self_eq_true, Bool.and_true, hlength, decide_eq_true_iff, headerSize, trailerSize]
    have := h.blockSize_pos
    omega
  · rw [payloadLen, hlen, hlength, hsize]
    omega
  · show selectIndices env fuel (field raw 22 26) (field raw 12 14) (field raw 20 22) = _
    rw [hseed, hk, hdeg, hselected]
  · show field raw 20 22 ≤ enc.k
    rw [hdeg]
    exact hdegree.1
  · show 0 < enc.k → 0 < field raw 20 22
    rw [hdeg]
    exact hdegree.2
  · show (raw.drop 26).take (payloadLen raw) = _
    rw [hcut, payloadLen, hlen, List.take_left, ← hpayload, h.blockSize_eq]

/-- A frame is made once its indices are selected. -/
theorem exists_nextFrame (h : Encodes enc data blockSize sessionId) (hlawful : env.Lawful)
    {fuel : Nat} {below : Nat → Bool} {source : List Nat}
    (hsource : selectIndices env fuel enc.seed enc.k (sample enc.k below) = .ok source) :
    ∃ raw next, enc.nextFrame env fuel below = .ok (raw, next) := by
  have hpayload := h.foldlM_addBlock fun i hi => lt_of_mem_selectIndices hlawful hsource hi
  exact ⟨_, _, bind_eq_ok.mpr ⟨source, hsource, bind_eq_ok.mpr ⟨_, hpayload, rfl⟩⟩⟩

/-- The frames before leave the blocks as they are. -/
theorem After.same (h : Encodes enc data blockSize sessionId) (hfits : HeaderFits enc)
    {enc' : FountainEncoder} (hafter : After env enc enc') :
    Encodes enc' data blockSize sessionId ∧ HeaderFits enc' ∧ enc'.blocks = enc.blocks ∧
      enc'.k = enc.k := by
  induction hafter with
  | start => exact ⟨h, hfits, rfl, rfl⟩
  | next _ hnext ih =>
    obtain ⟨henc, hheader, hblocks, hk⟩ := ih
    obtain ⟨_, _, hnext⟩ := bind_eq_ok.mp hnext
    obtain ⟨_, _, hnext⟩ := bind_eq_ok.mp hnext
    obtain ⟨-, rfl⟩ := Prod.mk.inj (Except.ok.inj hnext)
    exact ⟨⟨henc.1, henc.2, henc.3, henc.4, henc.5⟩,
      ⟨hheader.1, Nat.mod_lt _ (by decide), hheader.3, hheader.4⟩, hblocks, hk⟩

/-- Every frame that is sent is one of the encoder, with the indices that its seed selects. -/
theorem Sent.isFrame (h : Encodes enc data blockSize sessionId) (hlawful : env.Lawful)
    (hfits : HeaderFits enc) {raw : List UInt8} (hsent : Sent env enc raw) {fuel : Nat}
    {source : List Nat} (hsource : selectIndices env fuel (frameOf raw).seed (frameOf raw).k
      (frameOf raw).degree = .ok source) : IsFrame env enc raw source := by
  obtain ⟨enc', fuel', below, next, hafter, hnext⟩ := hsent
  obtain ⟨henc, hheader, hblocks, hk⟩ := After.same h hfits hafter
  obtain ⟨source', -, hframe⟩ := isFrame_of_nextFrame henc hlawful hheader hnext
  obtain ⟨fuel'', hselected⟩ := hframe.selected
  obtain rfl := selectIndices_unique hselected hsource
  have hsession : enc'.sessionId = enc.sessionId := henc.sessionId_eq.trans h.sessionId_eq.symm
  have hsize : enc'.blockSize = enc.blockSize := henc.blockSize_eq.trans h.blockSize_eq.symm
  exact ⟨hframe.accepts_eq, hframe.fits, hframe.sessionId_eq.trans hsession, hframe.k_eq.trans hk,
    hframe.selected, hk ▸ hframe.degree_le, hk ▸ hframe.degree_pos,
    hblocks ▸ hsize ▸ hframe.payload_eq⟩

end FountainEncoder

end Fountain

end DeepProve
