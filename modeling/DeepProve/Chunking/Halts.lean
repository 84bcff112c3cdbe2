import DeepProve.Chunking.Visit

/-!
# When the visit of the chunks ends

The chunks of a proof are those of the prover: identifiers may be repeated, and an edge may lead to
a chunk that is not there or back to its own chunk. The loop of `visit_chunks` ends as soon as half
of the chunks have been found, and a round that finds nothing is repeated forever.
-/

namespace DeepProve

namespace ModelChunk

variable {forward : Bool} {chunks : List ModelChunk}

/-- The chunk with this identifier can be visited: every chain of dependencies from it ends. -/
def Visitable (forward : Bool) (chunks : List ModelChunk) (id : ChunkId) : Prop :=
  RoundVisit.Founded (dependenciesOf forward chunks) (byId chunks).keys id

open Classical in
/-- The identifiers of the chunks that can be visited. -/
noncomputable def visitable (forward : Bool) (chunks : List ModelChunk) : Finset ChunkId :=
  (byId chunks).keys.toFinset.filter fun id => Visitable forward chunks id

/-- The visit ends, after some number of rounds. -/
def Halts (forward : Bool) (chunks : List ModelChunk) : Prop :=
  ∃ fuel, visitChunks forward fuel chunks ≠ .error .outOfFuel

theorem mem_visitable {id : ChunkId} :
    id ∈ visitable forward chunks ↔ Visitable forward chunks id := by
  classical
  rw [visitable, Finset.mem_filter, List.mem_toFinset]
  exact ⟨fun h => h.2, fun h => ⟨h.mem, h⟩⟩

/-- A chunk that is found under an identifier has this identifier. -/
theorem of_getElem?_byId {id : ChunkId} {chunk : ModelChunk}
    (h : (byId chunks)[id]? = some chunk) : chunk ∈ chunks ∧ chunk.chunkId = id := by
  obtain ⟨chunk', hmem, heq⟩ := List.mem_map.mp (Std.ExtTreeMap.mem_of_getElem?_insertMany h)
  obtain ⟨rfl, rfl⟩ := Prod.mk.inj heq
  exact ⟨hmem, rfl⟩

/-- The state of the loop between two rounds. -/
structure Between (forward : Bool) (chunks : List ModelChunk) (visited : Finset ChunkId)
    (result : List ModelChunk) (left : BTreeMap ChunkId ModelChunk) : Prop where
  seen : visited = (result.map chunkId).toFinset
  nodup : (result.map chunkId).Nodup
  visitable : ∀ id ∈ visited, Visitable forward chunks id
  left : ∀ id, left[id]? = if id ∈ visited then none else (byId chunks)[id]?

namespace Between

variable {visited : Finset ChunkId} {result : List ModelChunk} {left : BTreeMap ChunkId ModelChunk}

theorem start : Between forward chunks ∅ [] (byId chunks) where
  seen := rfl
  nodup := List.nodup_nil
  visitable := by simp
  left := by simp

theorem card_visited (h : Between forward chunks visited result left) :
    visited.card = result.length := by
  rw [h.seen, List.toFinset_card_of_nodup h.nodup, List.length_map]

/-- The chunks found and those left are all chunks. -/
theorem size_left (h : Between forward chunks visited result left) :
    left.size + result.length = (byId chunks).size := by
  have hkeys : left.keys.toFinset = (byId chunks).keys.toFinset \ visited := by
    ext id
    rw [Finset.mem_sdiff, List.mem_toFinset, List.mem_toFinset, Std.ExtTreeMap.mem_keys,
      Std.ExtTreeMap.mem_keys, ← Std.ExtTreeMap.isSome_getElem?_iff_mem,
      ← Std.ExtTreeMap.isSome_getElem?_iff_mem, h.left]
    by_cases hid : id ∈ visited <;> simp [hid]
  have hsub : visited ⊆ (byId chunks).keys.toFinset := by
    intro id hid
    exact List.mem_toFinset.mpr (h.visitable id hid).mem
  have hcard := congrArg Finset.card hkeys
  rw [Finset.card_sdiff_of_subset hsub, List.toFinset_card_of_nodup left.nodup_keys,
    List.toFinset_card_of_nodup (byId chunks).nodup_keys, Std.ExtTreeMap.length_keys,
    Std.ExtTreeMap.length_keys, h.card_visited] at hcard
  have hle := Finset.card_le_card hsub
  rw [h.card_visited, List.toFinset_card_of_nodup (byId chunks).nodup_keys,
    Std.ExtTreeMap.length_keys] at hle
  omega

/-- No more chunks are found than can be visited. -/
theorem length_le (h : Between forward chunks visited result left) :
    result.length ≤ (ModelChunk.visitable forward chunks).card := by
  rw [← h.card_visited]
  exact Finset.card_le_card fun id hid => mem_visitable.mpr (h.visitable id hid)

/-- One round of the loop: it finds something if anything that can be visited is left. -/
theorem step (h : Between forward chunks visited result left) :
    ∃ result' left', (scanChunks forward visited (scanOrder forward left)).1.foldlM takeChunk
        (result, left) = .ok (result', left') ∧
      Between forward chunks (scanChunks forward visited (scanOrder forward left)).2 result' left' ∧
      (result.length < (ModelChunk.visitable forward chunks).card →
        result.length < result'.length) := by
  have hentries : ∀ entry ∈ scanOrder forward left, (byId chunks)[entry.1]? = some entry.2 ∧
      entry.1 ∉ visited := by
    intro entry hentry
    have hget := mem_scanOrder.mp hentry
    rw [h.left] at hget
    split at hget
    · exact nomatch hget
    · exact ⟨hget, by assumption⟩
  have hscan := scanChunks_eq (dependenciesOf forward chunks) (scanOrder forward left)
    (fun entry hentry => by rw [dependenciesOf, (hentries entry hentry).1]) visited
  set ids := (scanOrder forward left).map Prod.fst with hids
  have hmemIds : ∀ id ∈ ids, id ∈ (byId chunks).keys ∧ id ∉ visited := by
    intro id hid
    obtain ⟨entry, hentry, rfl⟩ := List.mem_map.mp hid
    obtain ⟨hget, hnot⟩ := hentries entry hentry
    refine ⟨?_, hnot⟩
    rw [Std.ExtTreeMap.mem_keys, ← Std.ExtTreeMap.isSome_getElem?_iff_mem, hget]
    rfl
  set new := RoundVisit.scan (dependenciesOf forward chunks) visited ids with hnew
  have hsub := RoundVisit.scan_sublist (dependenciesOf forward chunks) visited ids
  have hnodupIds : ids.Nodup := nodup_of_pairwise (scanOrder_pairwise forward left)
  have hnodup : new.Nodup := hnodupIds.sublist hsub
  have hfounded : ∀ id ∈ new, Visitable forward chunks id := fun id hid =>
    RoundVisit.founded_of_mem_scan h.visitable (fun id hid => (hmemIds id hid).1) hid
  obtain ⟨taken, left', hrun, htaken, hmem, hget⟩ := foldlM_takeChunk chunks new hnodup result left
    (fun id hid => by
      obtain ⟨entry, hentry, rfl⟩ := List.mem_map.mp (hsub.subset hid)
      have hget := mem_scanOrder.mp hentry
      exact ⟨entry.2, hget, of_getElem?_byId (hentries entry hentry).1⟩)
  have hlength : (result ++ taken).length = result.length + new.length := by
    rw [List.length_append, ← htaken, List.length_map]
  refine ⟨result ++ taken, left', by rw [hscan]; exact hrun, ?_, fun hlt => ?_⟩
  · rw [hscan]
    exact {
      seen := by rw [List.map_append, List.toFinset_append, htaken, h.seen]
      nodup := by
        rw [List.map_append, htaken]
        refine List.nodup_append.mpr ⟨h.nodup, hnodup, fun a ha b hb hab => ?_⟩
        subst hab
        have hnot := (hmemIds a (hsub.subset hb)).2
        rw [h.seen, List.mem_toFinset] at hnot
        exact hnot ha
      visitable := by
        intro id hid
        rcases Finset.mem_union.mp hid with hid | hid
        · exact h.visitable id hid
        · exact hfounded id (List.mem_toFinset.mp hid)
      left := by
        intro id
        rw [hget, h.left]
        by_cases hid : id ∈ new <;> by_cases hid' : id ∈ visited <;> simp [hid, hid'] }
  · -- something that can be visited is not yet found, so something is ready
    have hmissing : ∃ id, Visitable forward chunks id ∧ id ∉ visited := by
      by_contra hall
      have hsubset : ModelChunk.visitable forward chunks ⊆ visited := fun id hid =>
        by_contra fun hnot => hall ⟨id, mem_visitable.mp hid, hnot⟩
      have hle := Finset.card_le_card hsubset
      rw [h.card_visited] at hle
      omega
    obtain ⟨id, hvisitable, hnot⟩ := hmissing
    obtain ⟨ready, hkey, hnotReady, hready⟩ := hvisitable.exists_ready hnot
    have hreadyIds : ready ∈ ids := by
      rw [Std.ExtTreeMap.mem_keys, ← Std.ExtTreeMap.isSome_getElem?_iff_mem] at hkey
      obtain ⟨chunk, hchunk⟩ := Option.isSome_iff_exists.mp hkey
      refine List.mem_map.mpr ⟨(ready, chunk), mem_scanOrder.mpr ?_, rfl⟩
      rw [h.left, if_neg hnotReady, hchunk]
    have hmemNew : ready ∈ new := RoundVisit.mem_scan_of_ready hreadyIds hready
    have hpos := List.length_pos_of_mem hmemNew
    omega

end Between

/-- The loop ends with a result, or not at all. -/
theorem visitLoop_cases {fuel : Nat} {visited : Finset ChunkId} {result : List ModelChunk}
    {left : BTreeMap ChunkId ModelChunk} (h : Between forward chunks visited result left) :
    visitLoop forward fuel visited result left = .error .outOfFuel ∨
      ∃ visited' result' left', visitLoop forward fuel visited result left = .ok result' ∧
        Between forward chunks visited' result' left' ∧
        (byId chunks).size ≤ 2 * result'.length := by
  induction fuel generalizing visited result left with
  | zero =>
    unfold visitLoop
    split
    · exact .inl rfl
    · have hsize := h.size_left
      exact .inr ⟨visited, result, left, rfl, h, by omega⟩
  | succ fuel ih =>
    unfold visitLoop
    split
    · obtain ⟨result', left', hrun, h', -⟩ := h.step
      have hnext := ih h'
      dsimp only
      rw [hrun, Outcome.ok_bind]
      exact hnext
    · have hsize := h.size_left
      exact .inr ⟨visited, result, left, rfl, h, by omega⟩

/-- With enough rounds the loop ends, if half of the chunks can be visited. -/
theorem exists_visitLoop_eq_ok (hhalf : (byId chunks).size ≤ 2 * (visitable forward chunks).card)
    {fuel : Nat} {visited : Finset ChunkId} {result : List ModelChunk}
    {left : BTreeMap ChunkId ModelChunk} (h : Between forward chunks visited result left)
    (hfuel : (visitable forward chunks).card ≤ fuel + result.length) :
    ∃ result', visitLoop forward fuel visited result left = .ok result' := by
  induction fuel generalizing visited result left with
  | zero =>
    have hsize := h.size_left
    have hle := h.length_le
    refine ⟨result, ?_⟩
    rw [visitLoop, if_neg (by omega)]
  | succ fuel ih =>
    have hsize := h.size_left
    unfold visitLoop
    split
    · rename_i hmore
      obtain ⟨result', left', hrun, h', hgrows⟩ := h.step
      have hlonger := hgrows (by omega)
      have hfuel' : (visitable forward chunks).card ≤ fuel + result'.length := by omega
      dsimp only
      rw [hrun, Outcome.ok_bind]
      exact ih h' hfuel'
    · exact ⟨result, rfl⟩

/-- The visit ends exactly if at least half of the chunks can be visited. -/
theorem halts_iff (forward : Bool) (chunks : List ModelChunk) :
    Halts forward chunks ↔ (byId chunks).size ≤ 2 * (visitable forward chunks).card := by
  constructor
  · intro ⟨fuel, hends⟩
    have hstart : Between forward chunks ∅ [] (byId chunks) := Between.start
    rcases @visitLoop_cases _ _ fuel _ _ _ hstart with hfuel | ⟨_, result, _, -, hresult, hsize⟩
    · exact absurd hfuel hends
    · have hle := hresult.length_le
      omega
  · intro hhalf
    have hstart : Between forward chunks ∅ [] (byId chunks) := Between.start
    obtain ⟨result, hrun⟩ := exists_visitLoop_eq_ok hhalf hstart
      (Nat.le_add_right (visitable forward chunks).card 0)
    exact ⟨_, by rw [visitChunks, hrun]; exact nofun⟩

/-- Where every chunk waits for another, none can be visited. -/
theorem visitable_eq_empty (hwaits : ∀ id ∈ (byId chunks).keys, dependenciesOf forward chunks id ≠ []) :
    visitable forward chunks = ∅ := by
  refine Finset.eq_empty_of_forall_notMem fun id hid => ?_
  induction mem_visitable.mp hid with
  | intro id hmem hdeps ih =>
    obtain ⟨d, hd⟩ := List.exists_mem_of_ne_nil _ (hwaits id hmem)
    exact ih d hd (mem_visitable.mpr (hdeps d hd))

/-- A longer run of a loop that has ended returns the same. -/
theorem visitLoop_mono {fuel : Nat} {visited : Finset ChunkId} {result result' : List ModelChunk}
    {left : BTreeMap ChunkId ModelChunk} (h : Between forward chunks visited result left)
    (hrun : visitLoop forward fuel visited result left = .ok result') (more : Nat) :
    visitLoop forward (fuel + more) visited result left = .ok result' := by
  induction fuel generalizing visited result left with
  | zero =>
    unfold visitLoop at hrun ⊢
    split at hrun
    · cases hrun
    · rename_i hdone
      rw [if_neg hdone]
      exact hrun
  | succ fuel ih =>
    rw [Nat.succ_add]
    unfold visitLoop at hrun ⊢
    split at hrun
    · rename_i hmore
      obtain ⟨next, left', hround, h', -⟩ := h.step
      rw [if_pos hmore]
      dsimp only at hrun ⊢
      rw [hround, Outcome.ok_bind] at hrun ⊢
      exact ih h' hrun
    · rename_i hdone
      rw [if_neg hdone]
      exact hrun

/-- What the visit returns does not depend on how long it is given. -/
theorem visitChunks_unique {fuel fuel' : Nat} {visited visited' : List ModelChunk}
    (h : visitChunks forward fuel chunks = .ok visited)
    (h' : visitChunks forward fuel' chunks = .ok visited') : visited = visited' := by
  have hlong := visitLoop_mono Between.start h fuel'
  have hlong' := visitLoop_mono Between.start h' fuel
  rw [Nat.add_comm] at hlong
  exact Except.ok.inj (hlong.symm.trans hlong')

end ModelChunk

end DeepProve
