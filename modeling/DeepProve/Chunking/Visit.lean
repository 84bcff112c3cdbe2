import DeepProve.Graph.Basic
import DeepProve.ForStd.RoundVisit

/-!
# The order in which the chunks of a model are visited

`ModelChunk` of `iop/chunking.rs`, with the edges that connect a chunk to the
others. `visit_chunks` orders the chunks by their dependencies: it scans the
chunks that are left round by round, and stops when it has found at least as
many chunks as are left. So it returns all chunks exactly if none of its rounds
ends with the better part, but not all, of them found.
-/

namespace DeepProve

abbrev ChunkId := Nat

/-- The edges of a chunk from or to other chunks, with the other chunk. -/
abbrev BoundaryEdges := BTreeMap EdgeId ChunkId

/-- A chunk of the model, seen from the other chunks. -/
structure ModelChunk where
  chunkId : ChunkId
  incomingEdges : BoundaryEdges
  outgoingEdges : BoundaryEdges

namespace ModelChunk

/-- The check of one incoming edge. -/
def checkIncoming (chunks : BTreeMap ChunkId ModelChunk) (chunkId : ChunkId)
    (entry : EdgeId × ChunkId) : Outcome Unit := do
  let (edgeId, sourceChunkId) := entry
  let sourceChunk ← okOr chunks[sourceChunkId]? s!"Source chunk Chunk({sourceChunkId}) not found"
  let corresponding ← okOr sourceChunk.outgoingEdges[edgeId]?
    s!"Input boundary edge {edgeId} for chunk Chunk({chunkId}) not found among outgoing boundary edges of chunk Chunk({sourceChunkId})"
  ensure (corresponding == chunkId)
    s!"Input boundary edge {edgeId} for chunk Chunk({chunkId}) is linked to chunk Chunk({sourceChunkId}), but the corresponding outgoing boundary edge in chunk Chunk({sourceChunkId}) is linked to chunk Chunk({corresponding})"

/-- The check of one outgoing edge. -/
def checkOutgoing (chunks : BTreeMap ChunkId ModelChunk) (chunkId : ChunkId)
    (entry : EdgeId × ChunkId) : Outcome Unit := do
  let (edgeId, targetChunkId) := entry
  let targetChunk ← okOr chunks[targetChunkId]? s!"Target chunk Chunk({targetChunkId}) not found"
  let corresponding ← okOr targetChunk.incomingEdges[edgeId]?
    s!"Output boundary edge {edgeId} for chunk Chunk({chunkId}) not found among incoming boundary edges of chunk Chunk({targetChunkId})"
  ensure (corresponding == chunkId)
    s!"Output boundary edge {edgeId} for chunk Chunk({chunkId}) is linked to chunk Chunk({targetChunkId}), but the corresponding incoming boundary edge in chunk Chunk({targetChunkId}) is linked to chunk Chunk({corresponding})"

/-- `check_boundary_edges_consistency`. -/
def checkBoundaryEdgesConsistency (chunks : BTreeMap ChunkId ModelChunk) : Outcome Unit :=
  forM chunks.values fun chunk => do
    forM chunk.incomingEdges.toList (checkIncoming chunks chunk.chunkId)
    forM chunk.outgoingEdges.toList (checkOutgoing chunks chunk.chunkId)

/-- The edges to the chunks that have to be visited before this one. -/
def dependencies (forward : Bool) (chunk : ModelChunk) : BoundaryEdges :=
  if forward then chunk.incomingEdges else chunk.outgoingEdges

/-- The `filter_map` over the chunks that are left: the chunks found in one
    scan, and the chunks visited after it. -/
def scanChunks (forward : Bool) : Finset ChunkId → List (ChunkId × ModelChunk) →
    List ChunkId × Finset ChunkId
  | visitedChunks, [] => ([], visitedChunks)
  | visitedChunks, (chunkId, chunk) :: chunks =>
    if (chunk.dependencies forward).values.all (· ∈ visitedChunks) then
      let (newVisitedChunks, visitedChunks) :=
        scanChunks forward (insert chunkId visitedChunks) chunks
      (chunkId :: newVisitedChunks, visitedChunks)
    else
      scanChunks forward visitedChunks chunks

/-- Move one chunk from those that are left to the result. -/
def takeChunk (state : List ModelChunk × BTreeMap ChunkId ModelChunk) (chunkId : ChunkId) :
    Outcome (List ModelChunk × BTreeMap ChunkId ModelChunk) := do
  let chunk ← okOr state.2[chunkId]? s!"Chunk Chunk({chunkId}) visited twice"
  .ok (state.1 ++ [chunk], state.2.erase chunkId)

/-- The order of the scan: chunks with higher identifiers come first in the
    forward visit. -/
def scanOrder (forward : Bool) (chunks : BTreeMap ChunkId ModelChunk) :
    List (ChunkId × ModelChunk) :=
  if forward then chunks.toList.reverse else chunks.toList

/-- The `while` loop of `visit_chunks`, for at most `fuel` rounds. -/
def visitLoop (forward : Bool) (fuel : Nat) (visitedChunks : Finset ChunkId)
    (result : List ModelChunk) (chunks : BTreeMap ChunkId ModelChunk) :
    Outcome (List ModelChunk) :=
  if result.length < chunks.size then
    match fuel with
    | 0 => .error .outOfFuel
    | fuel + 1 => do
      let (newVisitedChunks, visitedChunks) :=
        scanChunks forward visitedChunks (scanOrder forward chunks)
      let (result, chunks) ← newVisitedChunks.foldlM takeChunk (result, chunks)
      visitLoop forward fuel visitedChunks result chunks
  else
    .ok result

/-- The chunks by identifier. -/
def byId (chunks : List ModelChunk) : BTreeMap ChunkId ModelChunk :=
  (∅ : BTreeMap ChunkId ModelChunk).insertMany (chunks.map fun chunk => (chunk.chunkId, chunk))

/-- `visit_chunks`. -/
def visitChunks (forward : Bool) (fuel : Nat) (chunks : List ModelChunk) :
    Outcome (List ModelChunk) :=
  visitLoop forward fuel ∅ [] (byId chunks)

/-- `visit_chunks_forward`. -/
def visitChunksForward (fuel : Nat) (chunks : List ModelChunk) : Outcome (List ModelChunk) :=
  visitChunks true fuel chunks

/-! ## Which visits are complete -/

/-- The chunk with identifier `d` feeds the one with identifier `c`. -/
def Feeds (chunks : List ModelChunk) (d c : ChunkId) : Prop :=
  ∃ chunk ∈ chunks, chunk.chunkId = c ∧ d ∈ chunk.incomingEdges.values

/-- The identifiers of the chunks that have to be visited before the given one. -/
def dependenciesOf (forward : Bool) (chunks : List ModelChunk) (id : ChunkId) : List ChunkId :=
  match (byId chunks)[id]? with
  | some chunk => (chunk.dependencies forward).values
  | none => []

/-- The chunk `a` is reached before the chunk `b` in a scan. -/
def ScannedBefore (forward : Bool) (a b : ChunkId) : Prop :=
  if forward then b < a else a < b

open Classical in
/-- How many chunks end a path of dependencies that makes `k` steps against the
    order of the scan. -/
noncomputable def lateCount (forward : Bool) (chunks : List ModelChunk) (k : Nat) : Nat :=
  (chunks.filter fun chunk => RoundVisit.Late (dependenciesOf forward chunks)
    (ScannedBefore forward) k chunk.chunkId).length

instance (forward : Bool) : IsStrictTotalOrder ChunkId (ScannedBefore forward) := by
  cases forward with
  | true => exact inferInstanceAs (IsStrictTotalOrder Nat (· > ·))
  | false => exact inferInstanceAs (IsStrictTotalOrder Nat (· < ·))

variable {forward : Bool} {chunks : List ModelChunk}
variable {chunk : ModelChunk}

theorem getElem?_byId (hdistinct : (chunks.map chunkId).Nodup) {id : ChunkId} :
    (byId chunks)[id]? = some chunk ↔ chunk ∈ chunks ∧ chunk.chunkId = id := by
  have hmem : ∀ id chunk, (id, chunk) ∈ chunks.map (fun chunk => (chunk.chunkId, chunk)) ↔
      (chunks.find? fun chunk => chunk.chunkId == id) = some chunk := by
    intro id chunk
    constructor
    · intro h
      obtain ⟨chunk', hchunk, heq⟩ := List.mem_map.mp h
      obtain ⟨rfl, rfl⟩ := Prod.mk.inj heq
      cases hfind : chunks.find? fun c => c.chunkId == chunk'.chunkId with
      | none =>
        have hnone := List.find?_eq_none.mp hfind chunk' hchunk
        simp at hnone
      | some found =>
        have hid : found.chunkId = chunk'.chunkId := by simpa using List.find?_some hfind
        have hfound := List.mem_of_find?_eq_some hfind
        rw [List.inj_on_of_nodup_map hdistinct hfound hchunk hid]
    · intro h
      have hid : chunk.chunkId = id := by simpa using List.find?_some h
      exact List.mem_map.mpr ⟨chunk, List.mem_of_find?_eq_some h, by rw [hid]⟩
  rw [byId, Std.ExtTreeMap.getElem?_insertMany_of_mem_iff _ hmem, Std.ExtTreeMap.getElem?_empty,
    Option.or_none, ← hmem]
  constructor
  · intro h
    obtain ⟨chunk', hchunk, heq⟩ := List.mem_map.mp h
    obtain ⟨rfl, rfl⟩ := Prod.mk.inj heq
    exact ⟨hchunk, rfl⟩
  · intro ⟨hchunk, hid⟩
    exact List.mem_map.mpr ⟨chunk, hchunk, by rw [hid]⟩

theorem dependenciesOf_chunkId (hdistinct : (chunks.map chunkId).Nodup) (hchunk : chunk ∈ chunks) :
    dependenciesOf forward chunks chunk.chunkId = (chunk.dependencies forward).values := by
  rw [dependenciesOf, (getElem?_byId hdistinct).mpr ⟨hchunk, rfl⟩]

/-- The check passes if every boundary edge is found again in the other chunk. -/
theorem checkBoundaryEdgesConsistency_eq_ok (hdistinct : (chunks.map chunkId).Nodup)
    (hconsistent : checkBoundaryEdgesConsistency (byId chunks) = .ok ()) (hchunk : chunk ∈ chunks) :
    (∀ (e : EdgeId) (d : ChunkId), chunk.incomingEdges[e]? = some d →
      ∃ source ∈ chunks, source.chunkId = d ∧ source.outgoingEdges[e]? = some chunk.chunkId) ∧
    (∀ (e : EdgeId) (d : ChunkId), chunk.outgoingEdges[e]? = some d →
      ∃ target ∈ chunks, target.chunkId = d ∧ target.incomingEdges[e]? = some chunk.chunkId) := by
  have hvalue : chunk ∈ (byId chunks).values :=
    (Std.ExtTreeMap.mem_values _).mpr ⟨_, (getElem?_byId hdistinct).mpr ⟨hchunk, rfl⟩⟩
  have hboth := Outcome.forM_eq_ok.mp hconsistent chunk hvalue
  obtain ⟨_, hin, hout⟩ := Outcome.bind_eq_ok.mp hboth
  constructor
  · intro e d he
    have hcheck := Outcome.forM_eq_ok.mp hin (e, d) (Std.ExtTreeMap.mem_toList_iff_getElem?_eq_some.mpr he)
    simp only [checkIncoming, Outcome.bind_eq_ok, okOr_eq_ok, ensure_eq_ok] at hcheck
    obtain ⟨source, hsource, c, hc, heq⟩ := hcheck
    obtain ⟨hmem, hid⟩ := (getElem?_byId hdistinct).mp hsource
    exact ⟨source, hmem, hid, by rw [hc, eq_of_beq heq]⟩
  · intro e d he
    have hcheck := Outcome.forM_eq_ok.mp hout (e, d) (Std.ExtTreeMap.mem_toList_iff_getElem?_eq_some.mpr he)
    simp only [checkOutgoing, Outcome.bind_eq_ok, okOr_eq_ok, ensure_eq_ok] at hcheck
    obtain ⟨target, htarget, c, hc, heq⟩ := hcheck
    obtain ⟨hmem, hid⟩ := (getElem?_byId hdistinct).mp htarget
    exact ⟨target, hmem, hid, by rw [hc, eq_of_beq heq]⟩

/-- A dependency is a chunk that feeds, or in the backward visit is fed by, the
    one that depends on it. -/
theorem feeds_of_mem_dependencies (hdistinct : (chunks.map chunkId).Nodup)
    (hconsistent : checkBoundaryEdgesConsistency (byId chunks) = .ok ()) (hchunk : chunk ∈ chunks)
    {d : ChunkId} (hd : d ∈ (chunk.dependencies forward).values) :
    d ∈ chunks.map chunkId ∧
      if forward then Feeds chunks d chunk.chunkId else Feeds chunks chunk.chunkId d := by
  obtain ⟨hin, hout⟩ := checkBoundaryEdgesConsistency_eq_ok hdistinct hconsistent hchunk
  cases forward with
  | true =>
    obtain ⟨e, he⟩ := (Std.ExtTreeMap.mem_values _).mp hd
    obtain ⟨source, hsource, hid, -⟩ := hin e d he
    exact ⟨List.mem_map.mpr ⟨source, hsource, hid⟩, chunk, hchunk, rfl, hd⟩
  | false =>
    obtain ⟨e, he⟩ := (Std.ExtTreeMap.mem_values _).mp hd
    obtain ⟨target, htarget, hid, hback⟩ := hout e d he
    exact ⟨List.mem_map.mpr ⟨target, htarget, hid⟩, target, htarget, hid,
      (Std.ExtTreeMap.mem_values _).mpr ⟨e, hback⟩⟩

/-- The dependencies of a visit are acyclic if the chunks are. -/
theorem acyclic_dependenciesOf (forward : Bool) (hdistinct : (chunks.map chunkId).Nodup)
    (hconsistent : checkBoundaryEdgesConsistency (byId chunks) = .ok ())
    (hacyclic : Dag.Acyclic (Feeds chunks)) :
    Dag.Acyclic fun d c => d ∈ dependenciesOf forward chunks c := by
  have hfeeds : ∀ d c, d ∈ dependenciesOf forward chunks c →
      if forward then Feeds chunks d c else Feeds chunks c d := by
    intro d c hd
    unfold dependenciesOf at hd
    split at hd
    · rename_i chunk hget
      obtain ⟨hchunk, rfl⟩ := (getElem?_byId hdistinct).mp hget
      exact (feeds_of_mem_dependencies hdistinct hconsistent hchunk hd).2
    · exact absurd hd List.not_mem_nil
  cases forward with
  | true => exact fun c hc => hacyclic c (Relation.TransGen.mono hfeeds _ _ hc)
  | false =>
    intro c hc
    have hswap : Relation.TransGen (Function.swap (Feeds chunks)) c c :=
      Relation.TransGen.mono hfeeds _ _ hc
    exact hacyclic c (Relation.transGen_swap.mp hswap)

/-! ### The loop follows the rounds -/

/-- The identifiers of the chunks in the order of the first scan. -/
def visitOrder (forward : Bool) (chunks : List ModelChunk) : List ChunkId :=
  (scanOrder forward (byId chunks)).map Prod.fst

theorem scanOrder_pairwise (forward : Bool) (left : BTreeMap ChunkId ModelChunk) :
    ((scanOrder forward left).map Prod.fst).Pairwise (ScannedBefore forward) := by
  have hkeys : left.keys.Pairwise (· < ·) := by
    exact left.ordered_keys.imp fun hab => Nat.compare_eq_lt.mp hab
  rw [← Std.ExtTreeMap.map_fst_toList_eq_keys] at hkeys
  cases forward with
  | true =>
    rw [scanOrder, if_pos rfl, List.map_reverse, List.pairwise_reverse]
    exact hkeys
  | false => exact hkeys

theorem mem_scanOrder {left : BTreeMap ChunkId ModelChunk} {entry : ChunkId × ModelChunk} :
    entry ∈ scanOrder forward left ↔ left[entry.1]? = some entry.2 := by
  rw [← Std.ExtTreeMap.mem_toList_iff_getElem?_eq_some, scanOrder]
  split
  · exact List.mem_reverse
  · rfl

theorem mem_visitOrder (hdistinct : (chunks.map chunkId).Nodup) {id : ChunkId} :
    id ∈ visitOrder forward chunks ↔ id ∈ chunks.map chunkId := by
  simp only [visitOrder, List.mem_map, Prod.exists, exists_and_right, exists_eq_right,
    mem_scanOrder, getElem?_byId hdistinct]

theorem visitOrder_pairwise (forward : Bool) (chunks : List ModelChunk) :
    (visitOrder forward chunks).Pairwise (ScannedBefore forward) :=
  scanOrder_pairwise forward (byId chunks)

theorem nodup_of_pairwise {l : List ChunkId} (hl : l.Pairwise (ScannedBefore forward)) :
    l.Nodup := by
  refine List.nodup_iff_pairwise_ne.mpr (hl.imp ?_)
  exact fun {a b} hab heq => irrefl_of (ScannedBefore forward) a (heq ▸ hab)

theorem visitOrder_perm (hdistinct : (chunks.map chunkId).Nodup) :
    (visitOrder forward chunks).Perm (chunks.map chunkId) := by
  have hnodup := nodup_of_pairwise (visitOrder_pairwise forward chunks)
  exact (List.perm_ext_iff_of_nodup hnodup hdistinct).mpr fun id => mem_visitOrder hdistinct

/-- The scan of the code is the general one, on the identifiers. -/
theorem scanChunks_eq (deps : ChunkId → List ChunkId) (l : List (ChunkId × ModelChunk))
    (hl : ∀ entry ∈ l, deps entry.1 = (entry.2.dependencies forward).values)
    (visited : Finset ChunkId) :
    scanChunks forward visited l = (RoundVisit.scan deps visited (l.map Prod.fst),
      visited ∪ (RoundVisit.scan deps visited (l.map Prod.fst)).toFinset) := by
  induction l generalizing visited with
  | nil => simp [scanChunks, RoundVisit.scan]
  | cons entry l ih =>
    obtain ⟨id, chunk⟩ := entry
    have hdeps : deps id = (chunk.dependencies forward).values := hl _ (List.mem_cons_self ..)
    have ih := ih fun entry hentry => hl entry (List.mem_cons_of_mem _ hentry)
    have hready : (chunk.dependencies forward).values.all (· ∈ visited) = true ↔
        ∀ d ∈ deps id, d ∈ visited := by
      simp [hdeps]
    rw [scanChunks, List.map_cons, RoundVisit.scan]
    by_cases hall : ∀ d ∈ deps id, d ∈ visited
    · rw [if_pos (hready.mpr hall), if_pos hall, ih, List.toFinset_cons, Finset.union_insert,
        ← Finset.insert_union]
    · rw [if_neg (fun h => hall (hready.mp h)), if_neg hall, ih]

/-- Moving chunks to the result. -/
theorem foldlM_takeChunk (chunks : List ModelChunk) (new : List ChunkId) (hnew : new.Nodup) (result : List ModelChunk)
    (left : BTreeMap ChunkId ModelChunk)
    (hleft : ∀ id ∈ new, ∃ chunk, left[id]? = some chunk ∧ chunk ∈ chunks ∧ chunk.chunkId = id) :
    ∃ taken left', new.foldlM takeChunk (result, left) = .ok (result ++ taken, left') ∧
      taken.map chunkId = new ∧ (∀ chunk ∈ taken, chunk ∈ chunks) ∧
      ∀ id, left'[id]? = if id ∈ new then none else left[id]? := by
  induction new generalizing result left with
  | nil => exact ⟨[], left, by rw [List.append_nil]; rfl, rfl, by simp, by simp⟩
  | cons id new ih =>
    obtain ⟨hnotmem, hnew⟩ := List.nodup_cons.mp hnew
    obtain ⟨chunk, hget, hchunk, hid⟩ := hleft id (List.mem_cons_self ..)
    obtain ⟨taken, left', hrun, hids, hmem, hget'⟩ := ih hnew (result ++ [chunk]) (left.erase id)
      (by
        intro id' hid'
        obtain ⟨chunk', h⟩ := hleft id' (List.mem_cons_of_mem _ hid')
        have hne : id ≠ id' := fun heq => hnotmem (heq ▸ hid')
        exact ⟨chunk', by simpa [Std.ExtTreeMap.getElem?_erase, hne] using h⟩)
    refine ⟨chunk :: taken, left', ?_, ?_, ?_, fun id' => ?_⟩
    · rw [List.foldlM_cons, takeChunk]
      simp only [hget, okOr_some, Outcome.ok_bind, hrun, List.append_assoc, List.singleton_append]
    · rw [List.map_cons, hids, hid]
    · exact List.forall_mem_cons.mpr ⟨hchunk, hmem⟩
    · rw [hget', Std.ExtTreeMap.getElem?_erase]
      by_cases hne : id' = id
      · simp [hne]
      · simp [hne, Ne.symm hne]

/-- The state of the loop after `k` rounds. -/
structure AtRound (forward : Bool) (chunks : List ModelChunk) (k : Nat)
    (visited : Finset ChunkId) (result : List ModelChunk) (left : BTreeMap ChunkId ModelChunk) :
    Prop where
  seen : visited = (RoundVisit.rounds (dependenciesOf forward chunks)
    (visitOrder forward chunks) k).1.toFinset
  ids : result.map chunkId = (RoundVisit.rounds (dependenciesOf forward chunks)
    (visitOrder forward chunks) k).1
  subset : ∀ chunk ∈ result, chunk ∈ chunks
  rest : ∀ id, left[id]? =
    if id ∈ (RoundVisit.rounds (dependenciesOf forward chunks) (visitOrder forward chunks) k).2 then
      (byId chunks)[id]?
    else none

/-- The result is determined by the identifiers in it. -/
theorem AtRound.eq_filterMap (hdistinct : (chunks.map chunkId).Nodup) {k : Nat}
    {visited : Finset ChunkId} {result : List ModelChunk} {left : BTreeMap ChunkId ModelChunk}
    (hk : AtRound forward chunks k visited result left) :
    result = (RoundVisit.rounds (dependenciesOf forward chunks)
      (visitOrder forward chunks) k).1.filterMap fun id => (byId chunks)[id]? := by
  rw [← hk.ids, List.filterMap_map]
  have hsubset := hk.subset
  clear hk
  induction result with
  | nil => rfl
  | cons chunk result ih =>
    obtain ⟨hchunk, hsubset⟩ := List.forall_mem_cons.mp hsubset
    have hget : (byId chunks)[chunk.chunkId]? = some chunk :=
      (getElem?_byId hdistinct).mpr ⟨hchunk, rfl⟩
    rw [List.filterMap_cons, Function.comp_apply, hget, ← ih hsubset]

section Loop

variable (hdistinct : (chunks.map chunkId).Nodup)
  (hconsistent : checkBoundaryEdgesConsistency (byId chunks) = .ok ())
  (hacyclic : Dag.Acyclic (Feeds chunks))
include hdistinct hconsistent hacyclic

theorem afterRounds (forward : Bool) (k : Nat) :
    RoundVisit.AfterRounds (dependenciesOf forward chunks) (ScannedBefore forward)
      (visitOrder forward chunks) k := by
  refine RoundVisit.afterRounds (fun id hid => ?_) (fun id hid d hd => ?_)
    (visitOrder_pairwise forward chunks) k
  · exact acyclic_dependenciesOf forward hdistinct hconsistent hacyclic id (.single hid)
  · obtain ⟨chunk, hchunk, rfl⟩ := List.mem_map.mp ((mem_visitOrder hdistinct).mp hid)
    rw [dependenciesOf_chunkId hdistinct hchunk] at hd
    rw [mem_visitOrder hdistinct]
    exact (feeds_of_mem_dependencies hdistinct hconsistent hchunk hd).1

variable {left : BTreeMap ChunkId ModelChunk} {forward : Bool} {visited : Finset ChunkId}
variable {result : List ModelChunk}

/-- The chunks left are scanned in the order of the rounds. -/
theorem AtRound.scanOrder_left {k : Nat} (hk : AtRound forward chunks k visited result left) :
    (scanOrder forward left).map Prod.fst = (RoundVisit.rounds (dependenciesOf forward chunks)
      (visitOrder forward chunks) k).2 := by
  have hafter := afterRounds hdistinct hconsistent hacyclic forward k
  have hpair := scanOrder_pairwise forward left
  have hpair' := (visitOrder_pairwise forward chunks).sublist hafter.sublist
  have hperm : ((scanOrder forward left).map Prod.fst).Perm
      (RoundVisit.rounds (dependenciesOf forward chunks) (visitOrder forward chunks) k).2 := by
    refine (List.perm_ext_iff_of_nodup (nodup_of_pairwise hpair)
      (nodup_of_pairwise hpair')).mpr fun id => ?_
    simp only [List.mem_map, Prod.exists, exists_and_right, exists_eq_right, mem_scanOrder, hk.rest]
    split
    · rename_i hmem
      have horder := hafter.sublist.subset hmem
      obtain ⟨chunk, hchunk, hid⟩ := List.mem_map.mp ((mem_visitOrder hdistinct).mp horder)
      simp only [hmem, iff_true]
      exact ⟨chunk, (getElem?_byId hdistinct).mpr ⟨hchunk, hid⟩⟩
    · rename_i hmem
      simp [hmem]
  exact hperm.eq_of_pairwise (fun a b _ _ hab hba => absurd hba (asymm_of _ hab)) hpair hpair'

/-- One round of the loop. -/
theorem AtRound.step {k : Nat} {visited : Finset ChunkId} {result : List ModelChunk}
    {left : BTreeMap ChunkId ModelChunk} (hk : AtRound forward chunks k visited result left) :
    ∃ result' left', (scanChunks forward visited (scanOrder forward left)).1.foldlM takeChunk
        (result, left) = .ok (result', left') ∧
      AtRound forward chunks (k + 1) (scanChunks forward visited (scanOrder forward left)).2
        result' left' := by
  have hafter := afterRounds hdistinct hconsistent hacyclic forward k
  have hscan := scanChunks_eq (dependenciesOf forward chunks) (scanOrder forward left)
    (fun entry hentry => by
      have hget := mem_scanOrder.mp hentry
      rw [hk.rest] at hget
      split at hget
      · obtain ⟨hchunk, hid⟩ := (getElem?_byId hdistinct).mp hget
        rw [← hid, dependenciesOf_chunkId hdistinct hchunk]
      · exact nomatch hget) visited
  rw [hk.scanOrder_left hdistinct hconsistent hacyclic] at hscan
  have hsub := RoundVisit.scan_sublist (dependenciesOf forward chunks) visited
    (RoundVisit.rounds (dependenciesOf forward chunks) (visitOrder forward chunks) k).2
  set new := RoundVisit.scan (dependenciesOf forward chunks) visited
    (RoundVisit.rounds (dependenciesOf forward chunks) (visitOrder forward chunks) k).2 with hnew
  have hnodup : new.Nodup :=
    nodup_of_pairwise (((visitOrder_pairwise forward chunks).sublist hafter.sublist).sublist hsub)
  obtain ⟨taken, left', hrun, hids, hmem, hget⟩ := foldlM_takeChunk chunks new hnodup
    result left (fun id hid => by
      have hleft := hsub.subset hid
      obtain ⟨chunk, hchunk, hid'⟩ := List.mem_map.mp
        ((mem_visitOrder hdistinct).mp (hafter.sublist.subset hleft))
      refine ⟨chunk, ?_, hchunk, hid'⟩
      rw [hk.rest, if_pos hleft]
      exact (getElem?_byId hdistinct).mpr ⟨hchunk, hid'⟩)
  have hrounds : RoundVisit.rounds (dependenciesOf forward chunks) (visitOrder forward chunks)
      (k + 1) = ((RoundVisit.rounds (dependenciesOf forward chunks) (visitOrder forward chunks) k).1
        ++ new, (RoundVisit.rounds (dependenciesOf forward chunks)
          (visitOrder forward chunks) k).2.filter (· ∉ new)) := by
    rw [RoundVisit.rounds, hnew, hk.seen]
  refine ⟨result ++ taken, left', by rw [hscan]; exact hrun, ?_⟩
  exact {
    seen := by rw [hscan, hrounds, List.toFinset_append, hk.seen]
    ids := by rw [hrounds, List.map_append, hids, hk.ids]
    subset := fun chunk hchunk => (List.mem_append.mp hchunk).elim (hk.subset chunk) (hmem chunk)
    rest := by
      intro id
      rw [hget, hrounds, hk.rest]
      simp only [List.mem_filter, decide_eq_true_eq]
      by_cases hid : id ∈ new
      · simp [hid]
      · simp [hid] }

theorem length_left (k : Nat) :
    (RoundVisit.rounds (dependenciesOf forward chunks) (visitOrder forward chunks) k).2.length =
      lateCount forward chunks k := by
  classical
  have hafter := afterRounds hdistinct hconsistent hacyclic forward k
  have hnodup := nodup_of_pairwise ((visitOrder_pairwise forward chunks).sublist hafter.sublist)
  have hfilter := hdistinct.sublist ((List.filter_sublist (p := fun chunk : ModelChunk =>
    decide (RoundVisit.Late (dependenciesOf forward chunks) (ScannedBefore forward) k
      chunk.chunkId))).map chunkId)
  rw [lateCount, ← List.length_map (f := chunkId)]
  refine ((List.perm_ext_iff_of_nodup hnodup hfilter).mpr fun id => ?_).length_eq
  rw [hafter.left, mem_visitOrder hdistinct]
  simp only [List.mem_map, List.mem_filter, decide_eq_true_eq]
  constructor
  · intro ⟨⟨chunk, hchunk, hid⟩, hlate⟩
    exact ⟨chunk, ⟨hchunk, hid ▸ hlate⟩, hid⟩
  · intro ⟨chunk, ⟨hchunk, hlate⟩, hid⟩
    exact ⟨⟨chunk, hchunk, hid⟩, hid ▸ hlate⟩

theorem length_visited (forward : Bool) (k : Nat) :
    (RoundVisit.rounds (dependenciesOf forward chunks) (visitOrder forward chunks) k).1.length +
      lateCount forward chunks k = chunks.length := by
  have hperm := (afterRounds hdistinct hconsistent hacyclic forward k).perm.trans
    (visitOrder_perm hdistinct)
  rw [← length_left hdistinct hconsistent hacyclic, ← List.length_append, hperm.length_eq,
    List.length_map]

/-- After as many rounds as there are chunks nothing is left. -/
theorem lateCount_eq_zero {k : Nat} (hk : chunks.length ≤ k) :
    lateCount forward chunks k = 0 := by
  have hacyclic' := acyclic_dependenciesOf forward hdistinct hconsistent hacyclic
  rw [← length_left hdistinct hconsistent hacyclic, List.length_eq_zero_iff,
    List.eq_nil_iff_forall_not_mem]
  intro id hid
  obtain ⟨horder, hlate⟩ := (afterRounds hdistinct hconsistent hacyclic forward k).left id |>.mp hid
  have hle := hlate.le_depth hacyclic' (fun c hc d hd => by
    obtain ⟨chunk, hchunk, rfl⟩ := List.mem_map.mp ((mem_visitOrder hdistinct).mp hc)
    rw [dependenciesOf_chunkId hdistinct hchunk] at hd
    rw [mem_visitOrder hdistinct]
    exact (feeds_of_mem_dependencies hdistinct hconsistent hchunk hd).1) horder
  have hlt := Dag.depth_lt_card hacyclic' (List.mem_toFinset.mpr horder)
  have hcard : (visitOrder forward chunks).toFinset.card ≤ chunks.length := by
    refine (List.toFinset_card_le _).trans ?_
    rw [(visitOrder_perm hdistinct).length_eq, List.length_map]
  omega

/-- The condition of the loop. -/
theorem AtRound.continue_iff {k : Nat} (hk : AtRound forward chunks k visited result left) :
    result.length < left.size ↔ chunks.length < 2 * lateCount forward chunks k := by
  have hresult : result.length = (RoundVisit.rounds (dependenciesOf forward chunks)
      (visitOrder forward chunks) k).1.length := by
    rw [← hk.ids, List.length_map]
  have hsize : left.size = lateCount forward chunks k := by
    rw [← length_left hdistinct hconsistent hacyclic,
      ← hk.scanOrder_left hdistinct hconsistent hacyclic, List.length_map, scanOrder,
      ← Std.ExtTreeMap.length_toList]
    split
    · rw [List.length_reverse]
    · rfl
  have hsum := length_visited hdistinct hconsistent hacyclic forward k
  rw [hresult, hsize]
  omega

/-- The loop ends with the first round after which no more chunks are left than
    have been found. -/
theorem visitLoop_eq {last : Nat}
    (hbefore : ∀ k < last, chunks.length < 2 * lateCount forward chunks k)
    (hlast : ¬chunks.length < 2 * lateCount forward chunks last) {fuel k : Nat} (hle : k ≤ last)
    (hfuel : last ≤ k + fuel) (hk : AtRound forward chunks k visited result left) :
    visitLoop forward fuel visited result left = .ok
      ((RoundVisit.rounds (dependenciesOf forward chunks)
        (visitOrder forward chunks) last).1.filterMap fun id => (byId chunks)[id]?) := by
  induction fuel generalizing k visited result left with
  | zero =>
    obtain rfl : k = last := by omega
    have hend := (hk.continue_iff hdistinct hconsistent hacyclic).not.mpr hlast
    rw [visitLoop, if_neg hend, hk.eq_filterMap hdistinct]
  | succ fuel ih =>
    by_cases hend : k = last
    · subst hend
      have hend := (hk.continue_iff hdistinct hconsistent hacyclic).not.mpr hlast
      rw [visitLoop, if_neg hend, hk.eq_filterMap hdistinct]
    · have hlt : k < last := by omega
      have hmore := (hk.continue_iff hdistinct hconsistent hacyclic).mpr (hbefore k hlt)
      obtain ⟨result', left', hrun, hk'⟩ := hk.step hdistinct hconsistent hacyclic
      rw [visitLoop, if_pos hmore]
      show ((scanChunks forward visited (scanOrder forward left)).1.foldlM takeChunk (result, left)
        >>= fun state => visitLoop forward fuel
          (scanChunks forward visited (scanOrder forward left)).2 state.1 state.2) = _
      rw [hrun, Outcome.ok_bind]
      exact ih (by omega) (by omega) hk'

omit hconsistent hacyclic in
theorem atRound_zero : AtRound forward chunks 0 ∅ [] (byId chunks) where
  seen := rfl
  ids := rfl
  subset := by simp
  rest := by
    intro id
    show (byId chunks)[id]? = if id ∈ visitOrder forward chunks then (byId chunks)[id]? else none
    split
    · rfl
    · rename_i hid
      cases hget : (byId chunks)[id]? with
      | none => rfl
      | some chunk =>
        obtain ⟨hchunk, rfl⟩ := (getElem?_byId hdistinct).mp hget
        exact absurd ((mem_visitOrder hdistinct).mpr (List.mem_map_of_mem hchunk)) hid

theorem exists_atRound (forward : Bool) (k : Nat) :
    ∃ visited result left, AtRound forward chunks k visited result left := by
  induction k with
  | zero => exact ⟨_, _, _, atRound_zero hdistinct⟩
  | succ k ih =>
    obtain ⟨visited, result, left, hk⟩ := ih
    obtain ⟨result', left', -, hk'⟩ := hk.step hdistinct hconsistent hacyclic
    exact ⟨_, _, _, hk'⟩

/-- The visit returns the chunks of the first round after which no more chunks
    are left than have been found, each after its dependencies. -/
theorem visitChunks_eq (forward : Bool) :
    ∃ visited last, (∀ fuel, chunks.length ≤ fuel → visitChunks forward fuel chunks = .ok visited) ∧
      (∀ k < last, chunks.length < 2 * lateCount forward chunks k) ∧
      ¬chunks.length < 2 * lateCount forward chunks last ∧
      (∀ chunk ∈ visited, chunk ∈ chunks) ∧
      visited.map chunkId = (RoundVisit.rounds (dependenciesOf forward chunks)
        (visitOrder forward chunks) last).1 := by
  have hexists : ∃ k, ¬chunks.length < 2 * lateCount forward chunks k := by
    refine ⟨chunks.length, ?_⟩
    rw [lateCount_eq_zero hdistinct hconsistent hacyclic (Nat.le_refl _)]
    omega
  classical
  have hlast := Nat.find_spec hexists
  have hbefore : ∀ k < Nat.find hexists, chunks.length < 2 * lateCount forward chunks k := by
    intro k hk
    have hmin := Nat.find_min hexists hk
    omega
  have hle : Nat.find hexists ≤ chunks.length := by
    refine Nat.find_min' hexists ?_
    rw [lateCount_eq_zero hdistinct hconsistent hacyclic (Nat.le_refl _)]
    omega
  obtain ⟨_, visited, left, hround⟩ :=
    exists_atRound hdistinct hconsistent hacyclic forward (Nat.find hexists)
  refine ⟨visited, Nat.find hexists, fun fuel hfuel => ?_, hbefore, hlast, hround.subset, hround.ids⟩
  rw [hround.eq_filterMap hdistinct]
  exact visitLoop_eq hdistinct hconsistent hacyclic hbefore hlast (Nat.zero_le _) (by omega)
    (atRound_zero hdistinct)

end Loop

/-- The chunks late `k + 1` times are late `k` times. -/
theorem lateCount_antitone (forward : Bool) (chunks : List ModelChunk) :
    Antitone (lateCount forward chunks) := by
  refine antitone_nat_of_succ_le fun k => ?_
  classical
  refine List.Sublist.length_le (List.monotone_filter_right chunks fun chunk hlate => ?_)
  simp only [decide_eq_true_eq] at hlate ⊢
  exact hlate.of_succ

/-- `visit_chunks` visits all chunks, each once and after its dependencies. -/
def Complete (forward : Bool) (chunks visited : List ModelChunk) : Prop :=
  (∀ fuel, chunks.length ≤ fuel → visitChunks forward fuel chunks = .ok visited) ∧
    visited.Perm chunks ∧
    ∀ before chunk after, visited = before ++ chunk :: after →
      ∀ d ∈ (chunk.dependencies forward).values, d ∈ before.map chunkId

/-- The visit of consistent and acyclic chunks is complete exactly if, for every
    `k`, the chunks at the end of a path of dependencies with `k` steps against
    the order of the scan are none or more than half of the chunks. -/
theorem visitChunks_complete_iff (forward : Bool) (chunks : List ModelChunk)
    (hdistinct : (chunks.map chunkId).Nodup)
    (hconsistent : checkBoundaryEdgesConsistency (byId chunks) = .ok ())
    (hacyclic : Dag.Acyclic (Feeds chunks)) :
    (∃ visited, Complete forward chunks visited) ↔
      ∀ k, lateCount forward chunks k = 0 ∨ chunks.length < 2 * lateCount forward chunks k := by
  obtain ⟨visited, last, hrun, hbefore, hlast, hsubset, hids⟩ :=
    visitChunks_eq hdistinct hconsistent hacyclic forward
  have hafter := afterRounds hdistinct hconsistent hacyclic forward last
  have hsum := length_visited hdistinct hconsistent hacyclic forward last
  constructor
  · intro ⟨visited', hrun', hperm, _⟩
    obtain rfl := Except.ok.inj ((hrun _ (Nat.le_refl _)).symm.trans (hrun' _ (Nat.le_refl _)))
    have hlength := hperm.length_eq
    rw [← List.length_map (f := chunkId), hids] at hlength
    intro k
    by_cases hk : k < last
    · exact .inr (hbefore k hk)
    · have hanti := lateCount_antitone forward chunks (Nat.le_of_not_lt hk)
      omega
  · intro hall
    have hzero : lateCount forward chunks last = 0 := (hall last).resolve_right hlast
    refine ⟨visited, hrun, ?_, fun before chunk after heq d hd => ?_⟩
    · have hnil : (RoundVisit.rounds (dependenciesOf forward chunks)
          (visitOrder forward chunks) last).2 = [] := by
        rw [← List.length_eq_zero_iff, length_left hdistinct hconsistent hacyclic, hzero]
      have hperm := hafter.perm.trans (visitOrder_perm hdistinct)
      rw [hnil, List.append_nil, ← hids] at hperm
      have hnodup := hperm.nodup_iff.mpr hdistinct
      refine (List.perm_ext_iff_of_nodup hnodup.of_map hdistinct.of_map).mpr fun chunk => ?_
      refine ⟨hsubset chunk, fun hchunk => ?_⟩
      obtain ⟨chunk', hchunk', hid⟩ :=
        List.mem_map.mp (hperm.mem_iff.mpr (List.mem_map_of_mem hchunk))
      rwa [← List.inj_on_of_nodup_map hdistinct (hsubset _ hchunk') hchunk hid]
    · have hordered := hafter.ordered
      rw [← hids, heq, List.map_append, List.map_cons] at hordered
      have hchunk : chunk ∈ chunks := hsubset chunk (by rw [heq]; simp)
      rw [← dependenciesOf_chunkId hdistinct hchunk] at hd
      exact (hordered.mem_of_append hd).resolve_left (Finset.notMem_empty d)

/-- Chunk `0` feeds chunk `1`. -/
def ascendingChunks : List ModelChunk :=
  [⟨0, ∅, (∅ : BoundaryEdges).insert 0 1⟩, ⟨1, (∅ : BoundaryEdges).insert 0 0, ∅⟩]

private theorem acyclic_ascendingChunks : Dag.Acyclic (Feeds ascendingChunks) := by
  refine Dag.acyclic_of_lt id fun d c ⟨chunk, hchunk, hid, hd⟩ => ?_
  simp only [ascendingChunks, List.mem_cons, List.not_mem_nil, or_false] at hchunk
  rcases hchunk with rfl | rfl
  · have hvalues : (∅ : BoundaryEdges).values = [] := by decide
    simp only [hvalues, List.not_mem_nil] at hd
  · have hvalues : ((∅ : BoundaryEdges).insert 0 0).values = [0] := by decide
    simp only [hvalues, List.mem_singleton] at hd
    simp only at hid
    subst hd hid
    decide

theorem visitChunks_complete_iff_ascending :
    (∃ visited, Complete false ascendingChunks visited) ↔
      ∀ k, lateCount false ascendingChunks k = 0 ∨
        ascendingChunks.length < 2 * lateCount false ascendingChunks k :=
  visitChunks_complete_iff false ascendingChunks (by decide) rfl acyclic_ascendingChunks

/-- The forward visit of these two chunks stops after chunk `0`. -/
theorem visitChunks_loses_chunk :
    ¬∀ (forward : Bool) (chunks : List ModelChunk), (chunks.map chunkId).Nodup →
      checkBoundaryEdgesConsistency (byId chunks) = .ok () → Dag.Acyclic (Feeds chunks) →
      ∃ visited, Complete forward chunks visited := by
  intro h
  obtain ⟨visited, hrun, hperm, -⟩ := h true ascendingChunks (by decide) rfl acyclic_ascendingChunks
  have hfirst : visitChunks true 2 ascendingChunks =
      .ok [⟨0, ∅, (∅ : BoundaryEdges).insert 0 1⟩] := rfl
  obtain rfl := Except.ok.inj ((hrun 2 (by decide)).symm.trans hfirst)
  exact absurd hperm.length_eq (by decide)

end ModelChunk

end DeepProve
