import DeepProve.Fountain.Links
import DeepProve.ForStd.Runs

/-!
# When the fountain decoder returns

A frame whose hash is right may still have any header: a payload that is longer than the frame, more
indices than blocks, a payload that is shorter than a block it is added to. Each of these makes
`receive_frame` panic or run forever, and nothing else does.
-/

namespace DeepProve

namespace Fountain

open Outcome

namespace FountainDecoder

variable {env : Env} {self : FountainDecoder}

/-! ## The fuel does not matter -/

variable {sources : List (List Nat)} {order : HashOrder}
variable {frame : FountainFrame} {dec : FountainDecoder} {fuel : Nat}

theorem findRemainingBlock_mono {fuel' frameIdx : Nat} {r : Option Nat} (hle : fuel ≤ fuel')
    (h : self.findRemainingBlock env fuel order frameIdx = .ok r) :
    self.findRemainingBlock env fuel' order frameIdx = .ok r := by
  unfold findRemainingBlock FountainFrame.sourceIndices at h ⊢
  simp only [bind_eq_ok] at h ⊢
  obtain ⟨frame, hframe, indices, ⟨selected, hselected, horder⟩, hr⟩ := h
  exact ⟨frame, hframe, indices, ⟨selected, selectIndices_mono hle hselected, horder⟩, hr⟩

/-- More fuel leads to the same end. -/
theorem cascadeLoop_mono {selectFuel selectFuel' fuel' : Nat} {queue : List Nat}
    (hselect : selectFuel ≤ selectFuel') (hle : fuel ≤ fuel')
    (h : cascadeLoop env order selectFuel fuel queue self = .ok dec) :
    cascadeLoop env order selectFuel' fuel' queue self = .ok dec := by
  induction fuel generalizing self queue fuel' with
  | zero =>
    cases queue with
    | nil =>
      rw [cascadeLoop] at h
      rw [cascadeLoop, h]
    | cons frameIdx queue =>
      rw [cascadeLoop] at h
      cases h
  | succ fuel ih =>
    cases queue with
    | nil =>
      rw [cascadeLoop] at h
      rw [cascadeLoop, h]
    | cons frameIdx queue =>
      obtain ⟨rest, rfl⟩ := Nat.exists_eq_add_of_le' (Nat.le_of_lt (Nat.lt_of_succ_le hle))
      cases rest with
      | zero => omega
      | succ rest =>
        have hfuel : fuel ≤ rest + fuel := by omega
        have hsucc : rest + 1 + fuel = rest + fuel + 1 := by omega
        rw [hsucc]
        rw [cascadeLoop] at h ⊢
        cases hframe : self.pendingFrames[frameIdx]? with
        | none =>
          rw [hframe] at h
          exact ih hfuel h
        | some frame =>
          rw [hframe] at h
          dsimp only at h ⊢
          by_cases hdegree : frame.degree = 1
          · rw [if_pos hdegree, bind_eq_ok] at h
            obtain ⟨r, hr, h⟩ := h
            rw [if_pos hdegree, findRemainingBlock_mono hselect hr, Outcome.ok_bind]
            cases r with
            | none => exact ih hfuel h
            | some idx =>
              dsimp only at h ⊢
              split at h
              · next hcontains =>
                rw [if_pos hcontains]
                exact ih hfuel h
              · next hcontains =>
                rw [if_neg hcontains]
                obtain ⟨next, hlearn, h⟩ := bind_eq_ok.mp h
                exact bind_eq_ok.mpr ⟨next, hlearn, ih hfuel h⟩
          · rw [if_neg hdegree] at h ⊢
            exact ih hfuel h

/-- The cascade ends, with the same decoder for every fuel that is enough. -/
theorem Links.peelCascade (h : Links env sources self) {motive : FountainDecoder → Prop}
    (hstep : Links.KeptByLearning env sources motive) (order : HashOrder) (hmotive : motive self) :
    ∃ dec N, (∀ fuel ≥ N, self.peelCascade env fuel order = .ok dec) ∧ Links env sources dec ∧
      motive dec ∧ Links.FirstsDecoded env dec := by
  let N := (self.enqueue []).length + Links.firstOpen env self * self.pendingFrames.length + 1
  have hqueue : ∀ (j : Nat) frame, self.pendingFrames[j]? = some frame → frame.degree = 1 →
      firstDraw env frame ∉ self.decodedBlocks → j ∈ self.enqueue [] :=
    fun j frame hframe hdegree _ => mem_enqueue.mpr (.inr ⟨frame, hframe, hdegree⟩)
  have hfuel : (self.enqueue []).length + Links.firstOpen env self * self.pendingFrames.length ≤ N :=
    Nat.le_succ _
  obtain ⟨dec, hloop, hlinks, hmot, hfirsts⟩ := h.cascadeLoop hstep order (N - 1) hqueue hfuel hmotive
  refine ⟨dec, N, fun fuel hfuel => ?_, hlinks, hmot, hfirsts⟩
  exact cascadeLoop_mono hfuel hfuel hloop

/-! ## A frame of the session -/

/-- A frame that is added to the decoded blocks it has. -/
def effectivePayload (self : FountainDecoder) (frame : FountainFrame) (source : List Nat) :
    List UInt8 :=
  xorPrefix frame.payload
    ((self.blocksOf source).foldl xorPrefix (List.replicate frame.payload.length 0))

/-- The decoded blocks of a frame are not longer than its payload. -/
def BlocksFit (self : FountainDecoder) (frame : FountainFrame) (source : List Nat) : Prop :=
  ∀ idx ∈ source, ∀ block, self.decodedBlocks[idx]? = some block →
    block.length ≤ frame.payload.length

/-- What happens to a frame whose indices are selected. -/
theorem absorb_eq {source : List Nat}
    (hselect : selectIndices env fuel frame.seed frame.k frame.degree = .ok source)
    (hfits : self.BlocksFit frame source) :
    self.absorb env fuel order frame = match self.missingOf (order.order source) with
      | [] => .ok self
      | [idx] => do
        let self ← self.learn idx (self.effectivePayload frame (order.order source))
        self.peelCascade env fuel order
      | unresolved =>
        .ok (self.addPending frame unresolved
          (self.effectivePayload frame (order.order source))) := by
  have hsort : (order.order source).foldlM self.sortIndex
      ([], List.replicate frame.payload.length 0) =
        .ok (self.missingOf (order.order source), (self.blocksOf (order.order source)).foldl xorPrefix
          (List.replicate frame.payload.length 0)) := by
    refine foldlM_sortIndex_eq_ok_iff.mpr ⟨fun idx hidx block hblock => ?_, rfl⟩
    rw [List.length_replicate]
    exact hfits idx ((order.perm source).mem_iff.mp hidx) block hblock
  unfold absorb FountainFrame.sourceIndices
  rw [hselect, Outcome.ok_bind, Outcome.ok_bind, hsort, Outcome.ok_bind]
  rfl

/-- A frame is not absorbed unless its indices are selected and its payload is long enough. -/
theorem exists_of_absorb (h : Settles (self.absorb env fuel order frame)) :
    ∃ source, selectIndices env fuel frame.seed frame.k frame.degree = .ok source ∧
      self.BlocksFit frame source := by
  unfold absorb FountainFrame.sourceIndices at h
  rw [settles_bind, settles_bind] at h
  obtain ⟨⟨hselect, _⟩, hrest⟩ := h
  rcases hselect with ⟨source, hsource⟩ | ⟨msg, herr⟩
  · refine ⟨source, hsource, fun idx hidx block hblock => ?_⟩
    have hrest := hrest (order.order source) (bind_eq_ok.mpr ⟨source, hsource, rfl⟩)
    obtain ⟨hsort, _⟩ := settles_bind.mp hrest
    rcases hsort with ⟨acc, hacc⟩ | ⟨msg, herr⟩
    · have hle := (foldlM_sortIndex_eq_ok_iff.mp hacc).1 idx ((order.perm source).mem_iff.mpr hidx)
      rw [List.length_replicate] at hle
      exact hle block hblock
    · exact absurd herr (foldlM_sortIndex_ne_err _ _ msg)
  · exact absurd herr (selectIndices_ne_err fuel msg)

/-- The frames that wait, and their blocks, after a frame is absorbed. -/
theorem Links.absorb (h : Links env sources self) (hlawful : env.Lawful)
    (hdegree : frame.degree ≤ frame.k)
    (hfits : ∀ fuel source, selectIndices env fuel frame.seed frame.k frame.degree = .ok source →
      self.BlocksFit frame source) (order : HashOrder) :
    ∃ dec N, (∀ fuel ≥ N, self.absorb env fuel order frame = .ok dec) ∧
      ∃ sources, Links env sources dec := by
  obtain ⟨N, source, hselect⟩ := (exists_selectIndices_iff hlawful).mpr hdegree
  have habsorb : ∀ fuel ≥ N, self.absorb env fuel order frame = _ := fun fuel hfuel =>
    absorb_eq (selectIndices_mono hfuel hselect) (hfits N source hselect)
  have hsource := selects_of_eq_ok hselect
  have hperm : (self.missingOf (order.order source)).Perm (self.missingOf source) :=
    missingOf_perm (order.perm source)
  cases hmissing : self.missingOf (order.order source) with
  | nil =>
    rw [hmissing] at habsorb
    exact ⟨self, N, habsorb, sources, h⟩
  | cons idx rest =>
    cases rest with
    | nil =>
      rw [hmissing] at habsorb hperm
      have hopen : idx ∉ self.decodedBlocks :=
        (mem_missingOf.mp (hperm.mem_iff.mp (List.mem_singleton_self idx))).2
      obtain ⟨next, hlearn, _, hlinks⟩ :=
        h.learn hopen (self.effectivePayload frame (order.order source))
      obtain ⟨dec, N', hcascade, hdec, -, -⟩ := hlinks.peelCascade (motive := fun _ => True)
        (fun _ _ _ _ _ _ _ _ _ _ _ _ => trivial) order trivial
      refine ⟨dec, max N N', fun fuel hfuel => ?_, sources, hdec⟩
      rw [habsorb fuel (le_of_max_le_left hfuel)]
      dsimp only
      rw [hlearn, Outcome.ok_bind, hcascade fuel (le_of_max_le_right hfuel)]
    | cons idx' rest =>
      rw [hmissing] at habsorb hperm
      exact ⟨_, N, habsorb, _, h.addPending hsource hperm (List.cons_ne_nil _ _) _⟩

/-! ## The calls -/

/-- What a call leaves. -/
theorem receiveFrame_run (fuel : Nat) (order : HashOrder) (raw : List UInt8) :
    (receiveFrame env fuel order raw).run self =
      if accepts env raw then
        if 26 + payloadLen raw ≤ raw.length then
          if (self.startSession (frameOf raw)).isComplete then
            .ok true (self.startSession (frameOf raw))
          else
            match (self.startSession (frameOf raw)).absorb env fuel order (frameOf raw) with
            | .ok dec => .ok dec.isComplete dec
            | .error e => .error e (self.startSession (frameOf raw))
        else
          .error (.panic "range end index out of range for slice") self
      else
        .error (.err "Invalid frame or Hash mismatch") self := by
  unfold receiveFrame FountainFrame.parse
  split
  · split
    · rw [Call.lift_ok, pure_bind]
      dsimp only
      rw [Call.modify_bind_run, Call.get_bind_run]
      split
      · rfl
      · cases (self.startSession (frameOf raw)).absorb env fuel order (frameOf raw) <;> rfl
    · rfl
  · rfl

/-- A frame that arrives, and the order in which its hash sets are walked over. -/
structure Arrival where
  raw : List UInt8
  order : HashOrder

/-- The call ends with this result and this decoder, for every fuel that is enough. -/
def Returns (env : Env) (dec : FountainDecoder) (arrival : Arrival) (result : Except String Bool)
    (dec' : FountainDecoder) : Prop :=
  ∃ N, ∀ fuel ≥ N, (receiveFrame env fuel arrival.order arrival.raw).run dec =
    match result with
    | .ok complete => .ok complete dec'
    | .error msg => .error (.err msg) dec'

/-- The call returns, and leaves the decoder as it was if it returns an error. -/
def ReturnsClean (env : Env) (dec : FountainDecoder) (arrival : Arrival) : Prop :=
  ∃ result dec', Returns env dec arrival result dec' ∧ ∀ msg, result = .error msg → dec' = dec

/-- A frame that is rejected; or else its payload is in it, and unless all blocks are decoded, there
    are as many blocks as indices and none that is decoded is longer than the payload. -/
def Harmless (env : Env) (dec : FountainDecoder) (arrival : Arrival) : Prop :=
  accepts env arrival.raw = true → 26 + payloadLen arrival.raw ≤ arrival.raw.length ∧
    let frame := frameOf arrival.raw
    let dec := dec.startSession frame
    dec.isComplete = false → frame.degree ≤ frame.k ∧
      ∀ fuel source, selectIndices env fuel frame.seed frame.k frame.degree = .ok source →
        dec.BlocksFit frame source

/-- A call that returns has absorbed the frame. -/
theorem settles_absorb {x : Outcome FountainDecoder} {result : Except String Bool}
    (h : (match x with
      | .ok dec => .ok dec.isComplete dec
      | .error e => .error e self : EStateM.Result Fault FountainDecoder Bool) =
        match result with
        | .ok complete => .ok complete dec
        | .error msg => .error (.err msg) dec) : Settles x := by
  cases x with
  | ok dec' => exact settles_ok dec'
  | error e =>
    cases result with
    | ok complete => cases h
    | error msg =>
      cases h
      exact settles_err msg

/-- Where the frames that wait are linked to their blocks, a call returns exactly for a harmless
    frame, and the links are kept. -/
theorem Links.returnsClean_iff (h : Links env sources self) (hlawful : env.Lawful)
    (arrival : Arrival) :
    ReturnsClean env self arrival ↔ Harmless env self arrival := by
  obtain ⟨raw, order⟩ := arrival
  unfold ReturnsClean Returns Harmless
  simp only [receiveFrame_run]
  by_cases haccepts : accepts env raw = true
  swap
  · -- the frame is rejected, and nothing is done
    simp only [haccepts, Bool.false_eq_true, if_false, false_imp_iff, iff_true]
    exact ⟨.error _, self, ⟨0, fun _ _ => rfl⟩, fun _ _ => rfl⟩
  by_cases hfits : 26 + payloadLen raw ≤ raw.length
  swap
  · simp only [haccepts, hfits, if_true, if_false, true_imp_iff, false_and, iff_false]
    rintro ⟨result, dec, ⟨N, hrun⟩, -⟩
    have hrun := hrun N le_rfl
    cases result <;> cases hrun
  simp only [haccepts, hfits, if_true, true_imp_iff, true_and]
  by_cases hcomplete : (self.startSession (frameOf raw)).isComplete = true
  · simp only [hcomplete, if_true, Bool.true_eq_false, false_imp_iff, iff_true]
    exact ⟨.ok true, _, ⟨0, fun _ _ => rfl⟩, fun _ h => nomatch h⟩
  simp only [hcomplete, Bool.false_eq_true, if_false, true_imp_iff]
  constructor
  · rintro ⟨result, dec, ⟨N, hrun⟩, -⟩
    have hsettles := settles_absorb (hrun N le_rfl)
    obtain ⟨source, hselect, hblocks⟩ := exists_of_absorb hsettles
    refine ⟨(exists_selectIndices_iff hlawful).mp ⟨N, source, hselect⟩, fun fuel source' h' => ?_⟩
    exact selectIndices_unique hselect h' ▸ hblocks
  · rintro ⟨hdegree, hblocks⟩
    obtain ⟨sources', hlinks⟩ := h.startSession (frameOf raw)
    obtain ⟨dec, N, habsorb, -⟩ := hlinks.absorb hlawful hdegree hblocks order
    refine ⟨.ok dec.isComplete, dec, ⟨N, fun fuel hfuel => ?_⟩, fun _ h => nomatch h⟩
    rw [habsorb fuel hfuel]

/-- The links are kept. -/
theorem Links.returns (h : Links env sources self) (hlawful : env.Lawful) {arrival : Arrival}
    {result : Except String Bool} (hreturns : Returns env self arrival result dec) :
    ∃ sources, Links env sources dec := by
  obtain ⟨raw, order⟩ := arrival
  obtain ⟨N, hrun⟩ := hreturns
  simp only [receiveFrame_run] at hrun
  by_cases haccepts : accepts env raw = true
  swap
  · have hrun := hrun N le_rfl
    rw [if_neg haccepts] at hrun
    cases result with
    | ok complete => cases hrun
    | error msg =>
      cases hrun
      exact ⟨sources, h⟩
  by_cases hfits : 26 + payloadLen raw ≤ raw.length
  swap
  · have hrun := hrun N le_rfl
    rw [if_pos haccepts, if_neg hfits] at hrun
    cases result <;> cases hrun
  simp only [haccepts, hfits, if_true] at hrun
  obtain ⟨sources', hlinks⟩ := h.startSession (frameOf raw)
  by_cases hcomplete : (self.startSession (frameOf raw)).isComplete = true
  · have hrun := hrun N le_rfl
    rw [if_pos hcomplete] at hrun
    cases result with
    | ok complete =>
      cases hrun
      exact ⟨sources', hlinks⟩
    | error msg => cases hrun
  simp only [hcomplete, Bool.false_eq_true, if_false] at hrun
  have hsettles := settles_absorb (hrun N le_rfl)
  obtain ⟨source, hselect, hblocks⟩ := exists_of_absorb hsettles
  obtain ⟨dec', N', habsorb, hdec⟩ := hlinks.absorb hlawful
    ((exists_selectIndices_iff hlawful).mp ⟨N, source, hselect⟩)
    (fun fuel source' h' => selectIndices_unique hselect h' ▸ hblocks) order
  -- at enough fuel for both, the two decoders are the same
  have hrun := hrun (max N N') (le_max_left N N')
  rw [habsorb _ (le_max_right N N')] at hrun
  cases result with
  | ok complete =>
    cases hrun
    exact hdec
  | error msg => cases hrun

/-- A call that returns leads to the decoder it leaves. -/
def Leads (env : Env) (dec : FountainDecoder) (arrival : Arrival) (dec' : FountainDecoder) : Prop :=
  ∃ result, Returns env dec arrival result dec'

/-- The calls return in exactly the runs whose frames are harmless where they arrive. -/
theorem everyCall_returns_iff (hlawful : env.Lawful) (arrivals : List Arrival) :
    EveryStep (Leads env) (ReturnsClean env) new arrivals ↔
      EveryStep (Leads env) (Harmless env) new arrivals := by
  refine everyStep_congr (fun dec => ∃ sources, Links env sources dec) ?_ ?_ ⟨[], links_new⟩
  · rintro dec arrival dec' ⟨sources, h⟩ - ⟨result, hreturns⟩
    exact h.returns hlawful hreturns
  · rintro dec arrival ⟨sources, h⟩
    exact h.returnsClean_iff hlawful arrival

/-! ## A payload that is longer than its frame -/

/-- Draws that run through the indices in turn, and a hash of zeros. -/
def inTurn : Env := ⟨fun _ => List.replicate 32 0, fun _ k n => n % k⟩

theorem lawful_inTurn : inTurn.Lawful where
  length_hash _ := List.length_replicate
  draw_lt hk _ n := Nat.mod_lt n hk
  exists_draw {_ i} hi _ := ⟨i, Nat.mod_eq_of_lt hi⟩

/-- A frame of 58 bytes whose header has a payload of 33. -/
def longPayload : List UInt8 :=
  toLeBytes 4 magic ++ List.replicate 8 0 ++ toLeBytes 2 1 ++ toLeBytes 2 33 ++ toLeBytes 4 33 ++
    toLeBytes 2 1 ++ toLeBytes 4 0 ++ List.replicate 32 0

/-- The frame panics. -/
theorem not_returnsClean_longPayload :
    ¬ ∀ (env : Env), env.Lawful → ∀ arrivals : List Arrival,
      EveryStep (Leads env) (ReturnsClean env) new arrivals := by
  intro hall
  obtain ⟨⟨result, dec, ⟨N, hrun⟩, -⟩, -⟩ :=
    hall inTurn lawful_inTurn [⟨longPayload, .inserted⟩]
  have hpanic : (receiveFrame inTurn N .inserted longPayload).run new =
      .error (.panic "range end index out of range for slice") new := by
    rw [receiveFrame_run, if_pos (by decide), if_neg (by decide)]
  have hrun := hpanic.symm.trans (hrun N le_rfl)
  cases result <;> cases hrun

/-- A string that is too short for a frame is rejected. -/
theorem everyCall_returns_iff_inTurn :
    EveryStep (Leads inTurn) (ReturnsClean inTurn) new [⟨[0], .inserted⟩] := by
  have hshort : accepts inTurn [0] ≠ true := by decide
  exact (everyCall_returns_iff lawful_inTurn [⟨[0], .inserted⟩]).mpr
    ⟨fun haccepts => absurd haccepts hshort, fun _ _ => trivial⟩

end FountainDecoder

end Fountain

end DeepProve
