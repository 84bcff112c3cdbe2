import DeepProve.Fountain.Steps

/-!
# The frames that wait, and the blocks they lack

The degree of a frame that waits is the number of its blocks that are not decoded, and the map from
blocks to frames has exactly these. Every operation of the decoder keeps this; so no degree falls
below zero, and the queue runs empty.
-/

namespace DeepProve

namespace Fountain

namespace FountainDecoder

variable {env : Env} {self : FountainDecoder}

/-- A frame that waits, and the indices of all its blocks. -/
structure Waits (env : Env) (dec : FountainDecoder) (source : List Nat) (frame : FountainFrame) :
    Prop where
  pos : 0 < frame.k
  nodup : source.Nodup
  head? : source.head? = some (firstDraw env frame)
  degree_eq : frame.degree = (dec.missingOf source).length

/-- The indices of the frames that wait. -/
structure Links (env : Env) (sources : List (List Nat)) (dec : FountainDecoder) : Prop where
  length_eq : sources.length = dec.pendingFrames.length
  waits {j : Nat} {frame : FountainFrame} {source : List Nat}
    (hframe : dec.pendingFrames[j]? = some frame) (hsource : sources[j]? = some source) :
    Waits env dec source frame
  mem_iff (idx j : Nat) : j ∈ dec.blockToFrames.getD idx [] ↔
    idx ∉ dec.decodedBlocks ∧ ∃ source, sources[j]? = some source ∧ idx ∈ source
  nodup (idx : Nat) : (dec.blockToFrames.getD idx []).Nodup

theorem links_new : Links env [] new where
  length_eq := rfl
  waits hframe _ := nomatch hframe
  mem_iff idx j := by simp [new]
  nodup idx := by simp [new]

/-- A new session starts with nothing. -/
theorem Links.startSession {sources : List (List Nat)} (h : Links env sources self)
    (frame : FountainFrame) : ∃ sources, Links env sources (self.startSession frame) := by
  unfold FountainDecoder.startSession
  split
  · exact ⟨sources, h.1, fun hframe hsource => ⟨(h.2 hframe hsource).1, (h.2 hframe hsource).2,
      (h.2 hframe hsource).3, (h.2 hframe hsource).4⟩, h.3, h.4⟩
  · split
    · exact ⟨sources, h⟩
    · exact ⟨[], rfl, fun hframe _ => (nomatch hframe), fun idx j => by simp, fun idx => by simp⟩

namespace Links

variable {sources : List (List Nat)} (h : Links env sources self)

include h

variable {frame : FountainFrame} {idx : Nat}

/-- The indices of a frame that waits. -/
theorem exists_source {j : Nat} (hframe : self.pendingFrames[j]? = some frame) :
    ∃ source, sources[j]? = some source ∧ Waits env self source frame := by
  have hj : j < sources.length := by
    rw [h.length_eq]
    exact (List.getElem?_eq_some_iff.mp hframe).1
  exact ⟨_, List.getElem?_eq_getElem hj, h.waits hframe (List.getElem?_eq_getElem hj)⟩

/-! ## A block is learnt -/

/-- What is left when a block is learnt. -/
structure Learnt (sources : List (List Nat)) (dec : FountainDecoder) (idx : Nat)
    (data : List UInt8) (next : FountainDecoder) : Prop where
  decoded : next.decodedBlocks = dec.decodedBlocks.insert idx data
  session : next.currentSession = dec.currentSession
  expectedK : next.expectedK = dec.expectedK
  pending (j : Nat) : next.pendingFrames[j]? = dec.pendingFrames[j]?.map fun frame =>
    if idx ∈ sources.getD j [] then lessBlock data frame else frame

variable {next : FountainDecoder} {data : List UInt8}

omit h in
theorem Learnt.length_pending (hlearnt : Learnt sources self idx data next) :
    next.pendingFrames.length = self.pendingFrames.length := by
  have hnone : ∀ n : Nat, next.pendingFrames[n]? = none ↔ self.pendingFrames[n]? = none := by
    intro n
    rw [hlearnt.pending, Option.map_eq_none_iff]
  have hle : next.pendingFrames.length ≤ self.pendingFrames.length :=
    List.getElem?_eq_none_iff.mp ((hnone _).mpr (List.getElem?_eq_none le_rfl))
  have hge : self.pendingFrames.length ≤ next.pendingFrames.length :=
    List.getElem?_eq_none_iff.mp ((hnone _).mp (List.getElem?_eq_none le_rfl))
  exact hle.antisymm hge

omit h in
theorem Learnt.missingOf (hlearnt : Learnt sources self idx data next) (source : List Nat) :
    next.missingOf source = (self.missingOf source).filter (· ≠ idx) := by
  rw [FountainDecoder.missingOf, FountainDecoder.missingOf, List.filter_filter]
  apply List.filter_congr
  intro i _
  rw [← Bool.decide_and, decide_eq_decide, hlearnt.decoded, Std.ExtTreeMap.mem_insert,
    Std.LawfulEqCmp.compare_eq_iff_eq, not_or]
  exact and_congr_left' (not_congr eq_comm)

omit h in
/-- A list without repetitions has one element less. -/
theorem length_filter_ne {l : List Nat} (hnodup : l.Nodup) (idx : Nat) :
    (l.filter (· ≠ idx)).length = if idx ∈ l then l.length - 1 else l.length := by
  have herase : l.filter (· ≠ idx) = l.erase idx := by
    rw [hnodup.erase_eq_filter]
    apply List.filter_congr
    intro i _
    by_cases hi : i = idx <;> simp [hi]
  rw [herase, List.length_erase]

/-- The frames that wait for a new block get it. -/
theorem learn (hidx : idx ∉ self.decodedBlocks) (data : List UInt8) :
    ∃ next, self.learn idx data = .ok next ∧ Learnt sources self idx data next ∧
      Links env sources next := by
  have hmem : ∀ j, j ∈ self.blockToFrames.getD idx [] ↔ idx ∈ sources.getD j [] := by
    intro j
    rw [h.mem_iff, and_iff_right hidx, List.getD_eq_getElem?_getD]
    cases sources[j]? <;> simp
  -- every frame that waits for the block lacks it
  have hdegree : ∀ j ∈ self.blockToFrames.getD idx [], ∀ frame,
      self.pendingFrames[j]? = some frame → 1 ≤ frame.degree := by
    intro j hj frame hframe
    obtain ⟨_, source, hsource, hin⟩ := (h.mem_iff idx j).mp hj
    rw [(h.waits hframe hsource).degree_eq]
    exact List.length_pos_of_mem (mem_missingOf.mpr ⟨hin, hidx⟩)
  have hfoldAll : ∃ pending, (self.blockToFrames.getD idx []).foldlM (resolveFrame data)
      self.pendingFrames = .ok pending ∧ _ := foldlM_resolveFrame (h.nodup idx) hdegree
  obtain ⟨pending, hfold, hget⟩ := hfoldAll
  let next : FountainDecoder := { self with
    decodedBlocks := self.decodedBlocks.insert idx data
    pendingFrames := pending
    blockToFrames := self.blockToFrames.erase idx }
  have hlearn : self.learn idx data = .ok next := by
    rw [FountainDecoder.learn, propagateResolution]
    dsimp only
    rw [Std.ExtTreeMap.getD_eq_getD_getElem?] at hfold
    cases hframes : self.blockToFrames[idx]? with
    | none =>
      rw [hframes, Option.getD_none, List.foldlM_nil] at hfold
      have hpending : self.pendingFrames = pending := Except.ok.inj hfold
      have herase : self.blockToFrames.erase idx = self.blockToFrames :=
        Std.ExtTreeMap.erase_of_getElem?_eq_none _ hframes
      simp only [next]
      rw [herase, hpending]
    | some frames =>
      rw [hframes, Option.getD_some] at hfold
      dsimp only
      rw [hfold]
      rfl
  have hlearnt : Learnt sources self idx data next := by
    refine ⟨rfl, rfl, rfl, fun j => ?_⟩
    rw [show next.pendingFrames = pending from rfl, hget]
    simp only [hmem]
  refine ⟨next, hlearn, hlearnt, ?_⟩
  constructor
  case length_eq => rw [hlearnt.length_pending, h.length_eq]
  case waits =>
    intro j frame source hframe hsource
    rw [hlearnt.pending, Option.map_eq_some_iff] at hframe
    obtain ⟨old, hold, rfl⟩ := hframe
    have hwaits := h.waits hold hsource
    have hgetD : sources.getD j [] = source := by
      rw [List.getD_eq_getElem?_getD, hsource]
      rfl
    have hlength : (next.missingOf source).length =
        if idx ∈ source then old.degree - 1 else old.degree := by
      have hmissing : (self.missingOf source).Nodup := hwaits.nodup.filter _
      rw [hlearnt.missingOf, length_filter_ne hmissing, hwaits.degree_eq]
      simp only [mem_missingOf, hidx, not_false_eq_true, and_true]
    rw [hgetD]
    split
    · next hin => exact ⟨hwaits.pos, hwaits.nodup, hwaits.head?, by rw [hlength, if_pos hin]; rfl⟩
    · next hin => exact ⟨hwaits.pos, hwaits.nodup, hwaits.head?, by rw [hlength, if_neg hin]⟩
  case mem_iff =>
    intro i j
    show j ∈ (self.blockToFrames.erase idx).getD i [] ↔
      i ∉ self.decodedBlocks.insert idx data ∧ _
    rw [Std.ExtTreeMap.getD_erase, Std.ExtTreeMap.mem_insert]
    simp only [Std.LawfulEqCmp.compare_eq_iff_eq]
    by_cases hi : idx = i
    · rw [if_pos hi]
      simp [hi]
    · rw [if_neg hi, h.mem_iff]
      simp [hi]
  case nodup =>
    intro i
    show ((self.blockToFrames.erase idx).getD i []).Nodup
    rw [Std.ExtTreeMap.getD_erase]
    split
    · exact List.nodup_nil
    · exact h.nodup i

/-! ## The queue runs empty -/

/-- The frames whose first block is not decoded. -/
def firstOpen (env : Env) (dec : FountainDecoder) : Nat :=
  (dec.pendingFrames.filter fun frame => firstDraw env frame ∉ dec.decodedBlocks).length

omit h in
/-- A frame stays with its first index. -/
theorem Learnt.map_pending (hlearnt : Learnt sources self idx data next) :
    next.pendingFrames.map (firstDraw env) = self.pendingFrames.map (firstDraw env) := by
  apply List.ext_getElem?
  intro j
  rw [List.getElem?_map, List.getElem?_map, hlearnt.pending, Option.map_map]
  congr 1
  funext frame
  show firstDraw env (if idx ∈ sources.getD j [] then lessBlock data frame else frame) = _
  split <;> rfl

omit h in
/-- One frame less has its first block not decoded. -/
theorem Learnt.firstOpen_lt (hlearnt : Learnt sources self (firstDraw env frame) data next)
    (hframe : frame ∈ self.pendingFrames) (hopen : firstDraw env frame ∉ self.decodedBlocks) :
    firstOpen env next < firstOpen env self := by
  have hcount : ∀ dec : FountainDecoder, firstOpen env dec =
      ((dec.pendingFrames.map (firstDraw env)).filter (· ∉ dec.decodedBlocks)).length := by
    intro dec
    rw [List.filter_map, List.length_map]
    rfl
  have hfilter : (self.pendingFrames.map (firstDraw env)).filter (· ∉ next.decodedBlocks) =
      ((self.pendingFrames.map (firstDraw env)).filter (· ∉ self.decodedBlocks)).filter
        (· ≠ firstDraw env frame) := hlearnt.missingOf (self.pendingFrames.map (firstDraw env))
  rw [hcount, hcount, hlearnt.map_pending, hfilter]
  apply List.length_filter_lt_length_iff_exists.mpr
  refine ⟨firstDraw env frame, ?_, by simp⟩
  exact List.mem_filter.mpr ⟨List.mem_map_of_mem hframe, decide_eq_true hopen⟩

/-- No frame of degree one has its first block left. -/
def FirstsDecoded (env : Env) (dec : FountainDecoder) : Prop :=
  ∀ frame ∈ dec.pendingFrames, frame.degree = 1 → firstDraw env frame ∈ dec.decodedBlocks

/-- The condition is kept when the first block of a frame of degree one is learnt. -/
def KeptByLearning (env : Env) (sources : List (List Nat)) (motive : FountainDecoder → Prop) : Prop :=
  ∀ dec next frame source (j : Nat), motive dec → Links env sources dec →
    dec.pendingFrames[j]? = some frame → sources[j]? = some source →
    dec.missingOf source = [firstDraw env frame] →
    Learnt sources dec (firstDraw env frame) frame.payload next → Links env sources next → motive next

/-- The queue runs empty. What is kept then holds in the end. -/
theorem cascadeLoop {motive : FountainDecoder → Prop} (hstep : KeptByLearning env sources motive)
    (order : HashOrder) (selectFuel : Nat) {fuel : Nat} {queue : List Nat}
    (hqueue : ∀ (j : Nat) frame, self.pendingFrames[j]? = some frame → frame.degree = 1 →
      firstDraw env frame ∉ self.decodedBlocks → j ∈ queue)
    (hfuel : queue.length + firstOpen env self * self.pendingFrames.length ≤ fuel)
    (hmotive : motive self) :
    ∃ dec, FountainDecoder.cascadeLoop env order (selectFuel + 1) fuel queue self = .ok dec ∧
      Links env sources dec ∧ motive dec ∧ FirstsDecoded env dec := by
  induction fuel generalizing self queue with
  | zero =>
    obtain rfl : queue = [] := List.length_eq_zero_iff.mp (by omega)
    refine ⟨self, rfl, h, hmotive, fun frame hframe hdegree => by_contra fun hopen => ?_⟩
    obtain ⟨j, hj⟩ := List.mem_iff_getElem?.mp hframe
    cases hqueue j frame hj hdegree hopen
  | succ fuel ih =>
    cases queue with
    | nil =>
      refine ⟨self, rfl, h, hmotive, fun frame hframe hdegree => by_contra fun hopen => ?_⟩
      obtain ⟨j, hj⟩ := List.mem_iff_getElem?.mp hframe
      cases hqueue j frame hj hdegree hopen
    | cons frameIdx queue =>
      rw [List.length_cons] at hfuel
      -- a frame that is taken off the queue and changes nothing
      have hskip : (∀ frame, self.pendingFrames[frameIdx]? = some frame → frame.degree = 1 →
          firstDraw env frame ∈ self.decodedBlocks) →
          ∃ dec, FountainDecoder.cascadeLoop env order (selectFuel + 1) fuel queue self = .ok dec ∧
            Links env sources dec ∧ motive dec ∧ FirstsDecoded env dec := by
        intro hdone
        refine ih h (fun j frame hj hdegree hopen => ?_) (by omega) hmotive
        rcases List.mem_cons.mp (hqueue j frame hj hdegree hopen) with rfl | hmem
        · exact absurd (hdone frame hj hdegree) hopen
        · exact hmem
      rw [FountainDecoder.cascadeLoop]
      cases hframe : self.pendingFrames[frameIdx]? with
      | none =>
        exact hskip fun frame hframe' => by
          rw [hframe] at hframe'
          cases hframe'
      | some frame =>
        dsimp only
        by_cases hdegree : frame.degree = 1
        · obtain ⟨source, hsource, hwaits⟩ := h.exists_source hframe
          rw [if_pos hdegree, findRemainingBlock_eq hframe hdegree hwaits.pos, Outcome.ok_bind]
          by_cases hopen : firstDraw env frame ∈ self.decodedBlocks
          · rw [if_pos hopen]
            exact hskip fun frame' hframe' _ => by
              rw [hframe, Option.some.injEq] at hframe'
              exact hframe' ▸ hopen
          · have hcontains : self.decodedBlocks.contains (firstDraw env frame) = false :=
              Bool.eq_false_iff.mpr fun h => hopen (Std.ExtTreeMap.contains_iff_mem.mp h)
            obtain ⟨next, hlearn, hlearnt, hlinks⟩ := h.learn hopen frame.payload
            rw [if_neg hopen]
            show ∃ dec, (if self.decodedBlocks.contains (firstDraw env frame) = true then _ else _) =
              _ ∧ _
            rw [hcontains, if_neg Bool.false_ne_true, hlearn, Outcome.ok_bind]
            -- the frame lacks its first block only
            have hmissing : self.missingOf source = [firstDraw env frame] := by
              obtain ⟨i, hi⟩ := List.length_eq_one_iff.mp (hwaits.degree_eq.symm.trans hdegree)
              have hmem : firstDraw env frame ∈ self.missingOf source :=
                mem_missingOf.mpr ⟨List.mem_of_head? hwaits.head?, hopen⟩
              rw [hi] at hmem
              rw [hi, List.mem_singleton.mp hmem]
            have hlt := hlearnt.firstOpen_lt (List.mem_of_getElem? hframe) hopen
            have hlength : (next.enqueue queue).length ≤ _ := length_enqueue_le queue
            have hmul : firstOpen env next * next.pendingFrames.length +
                self.pendingFrames.length ≤ firstOpen env self * self.pendingFrames.length := by
              rw [hlearnt.length_pending, ← Nat.succ_mul]
              exact Nat.mul_le_mul_right _ hlt
            rw [hlearnt.length_pending] at hlength
            refine ih hlinks ?_ (by omega)
              (hstep self next frame source frameIdx hmotive h hframe hsource hmissing hlearnt hlinks)
            intro j f hf hdegree' _
            exact mem_enqueue.mpr (.inr ⟨f, hf, hdegree'⟩)
        · rw [if_neg hdegree]
          exact hskip fun frame' hframe' hdegree' => by
            rw [hframe, Option.some.injEq] at hframe'
            exact absurd (hframe' ▸ hdegree') hdegree

/-! ## One more frame waits -/

theorem addPending {source : List Nat}
    (hsource : Selects env frame.seed frame.k frame.degree source) {unresolved : List Nat}
    (hunresolved : unresolved.Perm (self.missingOf source)) (hne : unresolved ≠ [])
    (payload : List UInt8) :
    Links env (sources ++ [source]) (self.addPending frame unresolved payload) := by
  have hnodup : unresolved.Nodup := hunresolved.nodup_iff.mpr (hsource.nodup.filter _)
  have hdegree : 0 < frame.degree := by
    obtain ⟨i, hi⟩ := List.exists_mem_of_ne_nil _ hne
    rw [← hsource.length_eq]
    exact List.length_pos_of_mem (mem_missingOf.mp (hunresolved.mem_iff.mp hi)).1
  have hpending : ∀ j : Nat, (self.addPending frame unresolved payload).pendingFrames[j]? =
      (self.pendingFrames ++
        [{ frame with degree := unresolved.length, payload := payload }])[j]? := fun _ => rfl
  have hgetD : ∀ idx, (self.addPending frame unresolved payload).blockToFrames.getD idx [] =
      if idx ∈ unresolved then self.blockToFrames.getD idx [] ++ [self.pendingFrames.length]
      else self.blockToFrames.getD idx [] :=
    fun idx => getD_addPending hnodup self.pendingFrames.length idx
  -- no frame has the number of the new one
  have hfresh : ∀ idx, self.pendingFrames.length ∉ self.blockToFrames.getD idx [] := by
    intro idx hmem
    obtain ⟨_, _, hget, _⟩ := (h.mem_iff idx _).mp hmem
    rw [List.getElem?_eq_none h.length_eq.le] at hget
    cases hget
  constructor
  case length_eq =>
    show (sources ++ [source]).length = (self.pendingFrames ++ [_]).length
    rw [List.length_append, List.length_append, h.length_eq]
    rfl
  case waits =>
    intro j f s hf hs
    rw [hpending] at hf
    rcases Nat.lt_trichotomy j self.pendingFrames.length with hlt | rfl | hgt
    · rw [List.getElem?_append_left hlt] at hf
      rw [List.getElem?_append_left (h.length_eq ▸ hlt)] at hs
      exact ⟨(h.waits hf hs).1, (h.waits hf hs).2, (h.waits hf hs).3, (h.waits hf hs).4⟩
    · rw [List.getElem?_append_right le_rfl, Nat.sub_self] at hf
      rw [← h.length_eq, List.getElem?_append_right le_rfl, Nat.sub_self] at hs
      obtain rfl := Option.some.inj hf
      obtain rfl := Option.some.inj hs
      exact ⟨hsource.pos hdegree, hsource.nodup, hsource.head? hdegree, hunresolved.length_eq⟩
    · rw [List.getElem?_eq_none (by simpa using Nat.succ_le_of_lt hgt)] at hf
      cases hf
  case mem_iff =>
    intro idx j
    show _ ↔ idx ∉ self.decodedBlocks ∧ _
    have hlast : (∃ s, (sources ++ [source])[j]? = some s ∧ idx ∈ s) ↔
        (∃ s, sources[j]? = some s ∧ idx ∈ s) ∨ j = self.pendingFrames.length ∧ idx ∈ source := by
      rw [← h.length_eq]
      rcases Nat.lt_trichotomy j sources.length with hlt | rfl | hgt
      · rw [List.getElem?_append_left hlt]
        simp [hlt.ne]
      · rw [List.getElem?_append_right le_rfl, Nat.sub_self, List.getElem?_eq_none le_rfl]
        simp
      · rw [List.getElem?_eq_none (by simpa using Nat.succ_le_of_lt hgt), List.getElem?_eq_none hgt.le]
        simp [hgt.ne']
    rw [hgetD, hlast]
    by_cases hidx : idx ∈ unresolved
    · obtain ⟨hin, hopen⟩ := mem_missingOf.mp (hunresolved.mem_iff.mp hidx)
      rw [if_pos hidx, List.mem_append, List.mem_singleton, h.mem_iff]
      simp [hin, hopen]
    · rw [if_neg hidx, h.mem_iff]
      have hnot : idx ∉ self.decodedBlocks → idx ∉ source := fun hopen hin =>
        hidx (hunresolved.mem_iff.mpr (mem_missingOf.mpr ⟨hin, hopen⟩))
      constructor
      · exact fun ⟨hopen, hold⟩ => ⟨hopen, .inl hold⟩
      · rintro ⟨hopen, hold | ⟨_, hin⟩⟩
        · exact ⟨hopen, hold⟩
        · exact absurd hin (hnot hopen)
  case nodup =>
    intro idx
    rw [hgetD]
    split
    · refine List.nodup_append.mpr ⟨h.nodup idx, List.nodup_singleton _, fun a ha b hb heq => ?_⟩
      rw [List.mem_singleton.mp hb] at heq
      exact hfresh idx (heq ▸ ha)
    · exact h.nodup idx

end Links

end FountainDecoder

end Fountain

end DeepProve
