import DeepProve.Fountain.Decoder

/-!
# What the parts of the fountain decoder do

One lemma for each part of `receive_frame`: what it leaves, and when it fails.
-/

namespace DeepProve

namespace Fountain

open Outcome

namespace FountainDecoder

variable {env : Env} {self : FountainDecoder}

/-! ## The indices of a frame -/

/-- The decoded blocks of some indices. -/
def blocksOf (self : FountainDecoder) (indices : List Nat) : List (List UInt8) :=
  indices.filterMap fun idx => self.decodedBlocks[idx]?

/-- The indices that are not decoded. -/
def missingOf (self : FountainDecoder) (indices : List Nat) : List Nat :=
  indices.filter fun idx => idx ∉ self.decodedBlocks

theorem blocksOf_cons (self : FountainDecoder) (idx : Nat) (indices : List Nat) :
    self.blocksOf (idx :: indices) = self.decodedBlocks[idx]?.toList ++ self.blocksOf indices := by
  rw [blocksOf, List.filterMap_cons]
  cases self.decodedBlocks[idx]? <;> rfl

theorem missingOf_cons_of_mem {idx : Nat} (h : idx ∈ self.decodedBlocks) (indices : List Nat) :
    self.missingOf (idx :: indices) = self.missingOf indices :=
  List.filter_cons_of_neg (by simpa using h)

theorem missingOf_cons_of_not_mem {idx : Nat} (h : idx ∉ self.decodedBlocks) (indices : List Nat) :
    self.missingOf (idx :: indices) = idx :: self.missingOf indices :=
  List.filter_cons_of_pos (by simpa using h)

variable {indices : List Nat}

theorem mem_missingOf {idx : Nat} :
    idx ∈ self.missingOf indices ↔ idx ∈ indices ∧ idx ∉ self.decodedBlocks := by
  rw [missingOf, List.mem_filter, decide_eq_true_iff]

theorem missingOf_perm {indices' : List Nat} (h : indices.Perm indices') :
    (self.missingOf indices).Perm (self.missingOf indices') := h.filter _

/-- The decoded blocks have to fit into the payload. -/
theorem foldlM_sortIndex_eq_ok_iff {unresolved : List Nat} {sum : List UInt8}
    {acc : List Nat × List UInt8} :
    indices.foldlM self.sortIndex (unresolved, sum) = .ok acc ↔
      (∀ idx ∈ indices, ∀ block, self.decodedBlocks[idx]? = some block → block.length ≤ sum.length) ∧
        acc = (unresolved ++ self.missingOf indices, (self.blocksOf indices).foldl xorPrefix sum) := by
  induction indices generalizing unresolved sum with
  | nil =>
    simp [missingOf, blocksOf, pure, Except.pure, eq_comm]
  | cons idx indices ih =>
    rw [List.foldlM_cons, sortIndex, blocksOf_cons, List.forall_mem_cons]
    cases hblock : self.decodedBlocks[idx]? with
    | none =>
      have hmissing : idx ∉ self.decodedBlocks := by
        rw [Std.ExtTreeMap.mem_iff_isSome_getElem?, hblock]
        exact Bool.false_ne_true
      rw [Outcome.ok_bind, ih, missingOf_cons_of_not_mem hmissing]
      simp
    | some block =>
      have hmem : idx ∈ self.decodedBlocks := by
        rw [Std.ExtTreeMap.mem_iff_isSome_getElem?, hblock]
        rfl
      rw [missingOf_cons_of_mem hmem]
      dsimp only
      split
      · next hle =>
        rw [Outcome.ok_bind, ih, length_xorPrefix]
        simp [hle]
      · next hgt =>
        refine ⟨(fun h => nomatch h), fun ⟨⟨hle, _⟩, _⟩ => ?_⟩
        exact absurd (hle block rfl) hgt

/-- The loop over the indices panics, or it ends. -/
theorem foldlM_sortIndex_ne_err (indices : List Nat) (acc : List Nat × List UInt8) (msg : String) :
    indices.foldlM self.sortIndex acc ≠ .error (.err msg) := by
  induction indices generalizing acc with
  | nil => exact fun h => nomatch h
  | cons idx indices ih =>
    intro h
    rw [List.foldlM_cons, sortIndex] at h
    cases hblock : self.decodedBlocks[idx]? with
    | none =>
      rw [hblock] at h
      exact ih _ h
    | some block =>
      rw [hblock] at h
      dsimp only at h
      split at h
      · exact ih _ h
      · cases h

/-! ## Frames that wait -/

/-- What a frame that waits for a block is when it has it. -/
def lessBlock (data : List UInt8) (frame : FountainFrame) : FountainFrame :=
  { frame with payload := xorPrefix frame.payload data, degree := frame.degree - 1 }

/-- All frames that wait for the block get it. -/
theorem foldlM_resolveFrame {data : List UInt8} {pending : List FountainFrame}
    (hnodup : indices.Nodup)
    (hdegree : ∀ j ∈ indices, ∀ frame, pending[j]? = some frame → 1 ≤ frame.degree) :
    ∃ pending', indices.foldlM (resolveFrame data) pending = .ok pending' ∧
      ∀ j : Nat, pending'[j]? = pending[j]?.map fun frame =>
        if j ∈ indices then lessBlock data frame else frame := by
  induction indices generalizing pending with
  | nil => exact ⟨pending, rfl, fun j => by simp⟩
  | cons i indices ih =>
    rw [List.nodup_cons] at hnodup
    have hrest : ∀ j ∈ indices, ∀ frame, pending[j]? = some frame → 1 ≤ frame.degree :=
      fun j hj => hdegree j (List.mem_cons_of_mem _ hj)
    rw [List.foldlM_cons, resolveFrame]
    cases hi : pending[i]? with
    | none =>
      obtain ⟨pending', hfold, hget⟩ := ih hnodup.2 hrest
      refine ⟨pending', hfold, fun j => ?_⟩
      rw [hget]
      by_cases hj : j = i
      · rw [hj, hi]
        rfl
      · simp [hj]
    | some frame =>
      have hsub : usizeSub frame.degree 1 = .ok (frame.degree - 1) :=
        usizeSub_eq_ok.mpr ⟨hdegree i (List.mem_cons_self ..) frame hi, rfl⟩
      have hset : ∀ j : Nat, (pending.set i (lessBlock data frame))[j]? =
          if j = i then some (lessBlock data frame) else pending[j]? := by
        intro j
        by_cases hj : j = i
        · rw [hj, List.getElem?_set_self (List.getElem?_eq_some_iff.mp hi).1, if_pos rfl]
        · rw [List.getElem?_set_ne (Ne.symm hj), if_neg hj]
      have hother : ∀ j ∈ indices, ∀ f, (pending.set i (lessBlock data frame))[j]? = some f →
          1 ≤ f.degree := by
        intro j hj f hf
        have hne : j ≠ i := fun heq => hnodup.1 (heq ▸ hj)
        rw [hset, if_neg hne] at hf
        exact hrest j hj f hf
      obtain ⟨pending', hfold, hget⟩ := ih hnodup.2 hother
      refine ⟨pending', ?_, fun j => ?_⟩
      · dsimp only
        rw [hsub]
        exact hfold
      · rw [hget, hset]
        by_cases hj : j = i
        · rw [hj, if_pos rfl, hi, Option.map_some, Option.map_some, if_neg hnodup.1,
            if_pos (List.mem_cons_self ..)]
        · rw [if_neg hj]
          simp [hj]

/-- The frames that wait for a block, with the new one. -/
theorem getD_addPending {frames : HashMap Nat (List Nat)} {unresolved : List Nat}
    (hnodup : unresolved.Nodup) (frameIdx idx : Nat) :
    (unresolved.foldl (fun frames idx => frames.insert idx (frames.getD idx [] ++ [frameIdx]))
        frames).getD idx [] =
      if idx ∈ unresolved then frames.getD idx [] ++ [frameIdx] else frames.getD idx [] := by
  induction unresolved generalizing frames with
  | nil => rfl
  | cons i unresolved ih =>
    rw [List.nodup_cons] at hnodup
    rw [List.foldl_cons, ih hnodup.2, Std.ExtTreeMap.getD_insert]
    simp only [Std.LawfulEqCmp.compare_eq_iff_eq]
    by_cases hi : i = idx
    · subst hi
      rw [if_neg hnodup.1, if_pos rfl, if_pos (List.mem_cons_self ..)]
    · rw [if_neg hi]
      simp [Ne.symm hi]

/-! ## The queue -/

theorem mem_enqueue {queue : List Nat} {i : Nat} : i ∈ self.enqueue queue ↔
    i ∈ queue ∨ ∃ frame, self.pendingFrames[i]? = some frame ∧ frame.degree = 1 := by
  have hfold : ∀ (frames : List (FountainFrame × Nat)) (queue : List Nat),
      i ∈ frames.foldl (fun queue entry =>
        if entry.1.degree = 1 ∧ entry.2 ∉ queue then queue ++ [entry.2] else queue) queue ↔
      i ∈ queue ∨ ∃ frame, (frame, i) ∈ frames ∧ frame.degree = 1 := by
    intro frames
    induction frames with
    | nil => simp
    | cons entry frames ih =>
      intro queue
      obtain ⟨frame, idx⟩ := entry
      rw [List.foldl_cons, ih]
      dsimp only
      by_cases hdegree : frame.degree = 1 ∧ idx ∉ queue
      · rw [if_pos hdegree, List.mem_append, List.mem_singleton, or_assoc]
        refine or_congr_right ?_
        constructor
        · rintro (rfl | ⟨f, hf, hone⟩)
          · exact ⟨frame, List.mem_cons_self .., hdegree.1⟩
          · exact ⟨f, List.mem_cons_of_mem _ hf, hone⟩
        · rintro ⟨f, hf, hone⟩
          rcases List.mem_cons.mp hf with heq | hf
          · exact .inl (Prod.mk.inj heq).2
          · exact .inr ⟨f, hf, hone⟩
      · rw [if_neg hdegree]
        constructor
        · rintro (hq | ⟨f, hf, hone⟩)
          · exact .inl hq
          · exact .inr ⟨f, List.mem_cons_of_mem _ hf, hone⟩
        · rintro (hq | ⟨f, hf, hone⟩)
          · exact .inl hq
          · rcases List.mem_cons.mp hf with heq | hf
            · -- the frame is in the queue already
              obtain ⟨rfl, rfl⟩ := Prod.mk.inj heq
              exact .inl (by_contra fun hq => hdegree ⟨hone, hq⟩)
            · exact .inr ⟨f, hf, hone⟩
  refine (hfold self.pendingFrames.zipIdx queue).trans ?_
  simp [List.mem_zipIdx_iff_getElem?]

theorem length_enqueue_le (queue : List Nat) :
    (self.enqueue queue).length ≤ queue.length + self.pendingFrames.length := by
  have hfold : ∀ (frames : List (FountainFrame × Nat)) (queue : List Nat),
      (frames.foldl (fun queue entry =>
        if entry.1.degree = 1 ∧ entry.2 ∉ queue then queue ++ [entry.2] else queue) queue).length ≤
      queue.length + frames.length := by
    intro frames
    induction frames with
    | nil => simp
    | cons entry frames ih =>
      intro queue
      rw [List.foldl_cons, List.length_cons]
      refine (ih _).trans ?_
      split
      · rw [List.length_append, List.length_singleton]
        omega
      · omega
  have hlength := hfold self.pendingFrames.zipIdx queue
  rwa [List.length_zipIdx] at hlength

/-! ## The block that is left -/

/-- With one index to select, the first one drawn is selected. -/
theorem selectIndices_one {fuel seed k : Nat} (hk : 0 < k) :
    selectIndices env (fuel + 1) seed k 1 = .ok [env.draw seed k 0] := by
  rw [selectIndices_eq_ok_iff]
  refine .inr ⟨Nat.zero_lt_one, hk, 1, by omega, rfl, le_rfl, fun j hj => ?_⟩
  obtain rfl : j = 0 := by omega
  exact Nat.zero_lt_one

/-- The first index that the generator draws for a frame. -/
def firstDraw (env : Env) (frame : FountainFrame) : Nat := env.draw frame.seed frame.k 0

/-- The block that a frame of degree one is taken for. -/
theorem findRemainingBlock_eq {fuel : Nat} {order : HashOrder} {frameIdx : Nat}
    {frame : FountainFrame} (hframe : self.pendingFrames[frameIdx]? = some frame)
    (hdegree : frame.degree = 1) (hk : 0 < frame.k) :
    self.findRemainingBlock env (fuel + 1) order frameIdx =
      .ok (if firstDraw env frame ∈ self.decodedBlocks then none else some (firstDraw env frame)) := by
  have horder : order.order [firstDraw env frame] = [firstDraw env frame] :=
    List.perm_singleton.mp (order.perm _)
  have hselect : selectIndices env (fuel + 1) frame.seed frame.k 1 = .ok [firstDraw env frame] :=
    selectIndices_one hk
  rw [findRemainingBlock, hframe, unwrap_some, Outcome.ok_bind, FountainFrame.sourceIndices, hdegree,
    hselect, Outcome.ok_bind, Outcome.ok_bind, horder, List.find?_cons]
  by_cases hmem : firstDraw env frame ∈ self.decodedBlocks
  · rw [if_pos hmem, Std.ExtTreeMap.contains_iff_mem.mpr hmem]
    rfl
  · rw [if_neg hmem, Bool.eq_false_iff.mpr fun h => hmem (Std.ExtTreeMap.contains_iff_mem.mp h)]
    rfl

end FountainDecoder

end Fountain

end DeepProve
