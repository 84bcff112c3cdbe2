import DeepProve.Chunking.Visit
import DeepProve.Graph.Scheduler
import DeepProve.Iop.Layers

/-!
# The nodes of a chunk

`ModelChunk` of `iop/chunking.rs` with its nodes, in the order in which the verifier visits them
(`dag_order` of `graph/graph.rs`), and the claims that a node receives from the nodes it feeds.
-/

namespace DeepProve

/-- An input or output of the model, or a piece of one. -/
structure ChunkedIo where
  ioId : Nat
  chunkId : Nat
  deriving DecidableEq, Repr

namespace ChunkedIo

instance : Ord ChunkedIo := ⟨compareLex (compareOn ioId) (compareOn chunkId)⟩

instance : Std.TransCmp (compare : ChunkedIo → ChunkedIo → Ordering) :=
  inferInstanceAs (Std.TransCmp (compareLex (compareOn ioId) (compareOn chunkId)))

end ChunkedIo

inductive ChunkedIoNode where
  | originalNode (ioId : Nat)
  | chunked (io : ChunkedIo)

/-- An input or output that is not split is its only piece. -/
def ChunkedIoNode.toChunkedIo : ChunkedIoNode → ChunkedIo
  | originalNode ioId => ⟨ioId, 0⟩
  | chunked io => io

variable {F C : Type} [Field F] {D : DpCrypto F}

inductive ChunkedNode (O : OtherLayers D C) where
  | originalNode
  | chunkedLayer (originalNodeId : NodeId) (chunkNumber : Nat)
  | splitLayer (ctx : O.Ctx)
  | recombinationLayer (ctx : O.Ctx)

abbrev ChunkNode (O : OtherLayers D C) := Node (ChunkedNode O) ChunkedIoNode ChunkedIoNode

abbrev ChunkedGraph (O : OtherLayers D C) :=
  Graph (ChunkedNode O) ChunkedIoNode ChunkedIoNode Unit

/-- A link from a port of a node to a port of another. -/
structure Feed where
  source : NodeOutput
  target : NodeInput

namespace Graph

variable {N I O W : Type} (g : Graph N I O W)

/-- `outgoing_feeds`. -/
def outgoingFeeds (n : NodeId) : List Feed :=
  ((g.outgoings n).flatMap fun (_, edge) => edge.ports.map fun link =>
    (⟨⟨n, link.sourcePort⟩, ⟨edge.target, link.targetPort⟩⟩ : Feed)).insertionSort
      fun a b => a.source.port ≤ b.source.port

/-- No node that has to be visited before `n` is unvisited. -/
def isNodeNext (forward : Bool) (unvisited : List NodeId) (n : NodeId) : Bool :=
  if forward then
    (g.incomings n).all fun (_, edge) => !unvisited.contains edge.source
  else
    (g.outgoings n).all fun (_, edge) => !unvisited.contains edge.target

/-- The rounds of `dag_order`. -/
def dagRounds (forward : Bool) : Nat → List NodeId → List NodeId
  | 0, _ => []
  | rounds + 1, unvisited =>
    let candidates := if forward then unvisited else unvisited.reverse
    match candidates.find? (g.isNodeNext forward unvisited) with
    | some n => n :: dagRounds forward rounds (unvisited.erase n)
    | none => []

/-- `dag_order`. -/
def dagOrder (forward : Bool) : List NodeId := g.dagRounds forward g.nodeCount g.nodes.keys

/-- The nodes in the order of `dag_order`. -/
def iterNodes (forward : Bool) : List (NodeId × Node N I O) :=
  (g.dagOrder forward).filterMap fun n => (g.nodes[n]?).map fun node => (n, node)

/-- `forward_inners`. -/
def forwardInners : List (NodeId × N) :=
  (g.iterNodes true).filterMap fun (n, node) => node.asInner.map fun layer => (n, layer)

/-- `backward_iter`. -/
def backwardIter : List (NodeId × Node N I O) := g.iterNodes false

/-- The candidates of a round are the nodes left to visit. -/
theorem mem_of_find_candidates {forward : Bool} {unvisited : List NodeId} {p : NodeId → Bool}
    {n : NodeId} (h : (if forward then unvisited else unvisited.reverse).find? p = some n) :
    n ∈ unvisited := by
  have hmem := List.mem_of_find?_eq_some h
  split at hmem
  · exact hmem
  · exact List.mem_reverse.mp hmem

theorem nodup_dagRounds (forward : Bool) (rounds : Nat) {unvisited : List NodeId}
    (h : unvisited.Nodup) :
    (g.dagRounds forward rounds unvisited).Nodup ∧
      ∀ n ∈ g.dagRounds forward rounds unvisited, n ∈ unvisited := by
  induction rounds generalizing unvisited with
  | zero => exact ⟨List.nodup_nil, fun _ h => nomatch h⟩
  | succ rounds ih =>
    unfold dagRounds
    dsimp only
    split
    · rename_i n hfind
      obtain ⟨hnodup, hsub⟩ := ih (h.erase n)
      refine ⟨List.nodup_cons.mpr ⟨fun hmem => ?_, hnodup⟩, fun n' hn' => ?_⟩
      · exact ((h.mem_erase_iff).mp (hsub n hmem)).1 rfl
      · rcases List.mem_cons.mp hn' with rfl | hrest
        · exact mem_of_find_candidates hfind
        · exact List.mem_of_mem_erase (hsub n' hrest)
    · exact ⟨List.nodup_nil, fun _ h => nomatch h⟩

/-- No node that is visited is skipped. -/
theorem map_fst_iterNodes (forward : Bool) :
    (g.iterNodes forward).map Prod.fst = g.dagOrder forward := by
  have hkeys := (g.nodup_dagRounds forward g.nodeCount g.nodes.nodup_keys).2
  rw [iterNodes]
  revert hkeys
  rw [← dagOrder]
  induction g.dagOrder forward with
  | nil => exact fun _ => rfl
  | cons n ns ih =>
    intro hkeys
    have hn := Std.ExtTreeMap.mem_keys.mp (hkeys n List.mem_cons_self)
    rw [List.filterMap_cons, Std.ExtTreeMap.getElem?_eq_some_getElem hn, Option.map_some,
      List.map_cons, ih fun n' hn' => hkeys n' (List.mem_cons_of_mem _ hn')]

/-- No node is visited twice. -/
theorem nodup_iterNodes (forward : Bool) : ((g.iterNodes forward).map Prod.fst).Nodup := by
  rw [map_fst_iterNodes]
  exact (g.nodup_dagRounds forward _ g.nodes.nodup_keys).1

/-- A node determines what is visited before it. -/
theorem before_eq_of_iterNodes {forward : Bool} {n : NodeId} {node node' : Node N I O}
    {before before' after after' : List (NodeId × Node N I O)}
    (h : g.iterNodes forward = before ++ (n, node) :: after)
    (h' : g.iterNodes forward = before' ++ (n, node') :: after') : before = before' := by
  have hnodup := g.nodup_iterNodes forward
  rw [h, List.map_append, List.map_cons] at hnodup
  obtain ⟨-, hafter, hdistinct⟩ := List.nodup_append.mp hnodup
  have hnotBefore : (n, node') ∉ before := fun hmem =>
    hdistinct n (List.mem_map_of_mem hmem) n List.mem_cons_self rfl
  have hnotAfter : (n, node') ∉ after := fun hmem =>
    (List.nodup_cons.mp hafter).1 (List.mem_map_of_mem hmem : (n, node').1 ∈ after.map Prod.fst)
  exact ((List.append_cons_inj_of_notMem hnotBefore hnotAfter).mp (h.symm.trans h')).1

/-- The order depends on the identifiers of the nodes and on the edges. -/
theorem dagOrder_congr {N' I' O' : Type} {g' : Graph N' I' O' W} (forward : Bool)
    (hkeys : g.nodes.keys = g'.nodes.keys) (hedges : g.edges = g'.edges) :
    g.dagOrder forward = g'.dagOrder forward := by
  have hnext : g.isNodeNext forward = g'.isNodeNext forward := by
    funext unvisited n
    simp only [isNodeNext, incomings, outgoings, neighbors, hedges]
  have hrounds : ∀ rounds unvisited,
      g.dagRounds forward rounds unvisited = g'.dagRounds forward rounds unvisited := by
    intro rounds
    induction rounds with
    | zero => exact fun _ => rfl
    | succ rounds ih =>
      intro unvisited
      simp only [dagRounds, hnext, ih]
  have hcount : g.nodeCount = g'.nodeCount := by
    rw [nodeCount, nodeCount, ← Std.ExtTreeMap.length_keys, ← Std.ExtTreeMap.length_keys, hkeys]
  rw [dagOrder, dagOrder, hrounds, hcount, hkeys]

/-- `n'` reads what `n` puts out, directly or through other nodes. -/
inductive Downstream (n : NodeId) : NodeId → Prop where
  | direct {feed : Feed} (h : feed ∈ g.outgoingFeeds n) : Downstream n feed.target.nodeId
  | further {n' : NodeId} {feed : Feed} (h : Downstream n n') (hfeed : feed ∈ g.outgoingFeeds n') :
    Downstream n feed.target.nodeId

end Graph

/-- A chunk of the model with its nodes. -/
structure GraphChunk (O : OtherLayers D C) extends ModelChunk where
  subgraph : ChunkedGraph O
  replacedNodes : HashMap NodeId (List NodeId)

namespace GraphChunk

variable {O : OtherLayers D C} (chunk : GraphChunk O)

/-- `model_outputs_in_chunk`, with the edges. -/
def modelOutputsInChunk : List (EdgeId × Edge Unit) :=
  chunk.subgraph.edges.toList.filter fun (_, edge) =>
    match chunk.subgraph.nodes[edge.target]? with
    | some (.output _) => true
    | _ => false

/-- `model_inputs_in_chunk`, with the edges. -/
def modelInputsInChunk : List (EdgeId × Edge Unit) :=
  chunk.subgraph.edges.toList.filter fun (_, edge) =>
    match chunk.subgraph.nodes[edge.source]? with
    | some (.input _) => true
    | _ => false

/-- The little-endian bytes of a `usize`. -/
def leBytes (n : Nat) : List Nat := (List.range 8).map fun i => n / 256 ^ i % 256

/-- `append_boundary_edges`. -/
def appendBoundaryEdges (A : Appender D C) (edges : BoundaryEdges) (t : D.Transcript) :
    D.Transcript :=
  A.appendBytes t (leBytes edges.size ++
    edges.toList.flatMap fun (edgeId, chunkId) => leBytes edgeId ++ leBytes chunkId)

/-- `as_bytes`. -/
def asBytes (s : String) : List Nat := s.toUTF8.toList.map UInt8.toNat

/-- `add_chunk_data_to_transcript`. -/
def addChunkDataToTranscript (A : Appender D C) (t : D.Transcript) : D.Transcript :=
  let t := A.appendBytes t (leBytes chunk.chunkId)
  let t := appendBoundaryEdges A chunk.incomingEdges (A.appendBytes t (asBytes "incoming"))
  let t := A.appendBytes t (asBytes "inputs")
  let t := chunk.modelInputsInChunk.foldl (fun t e => A.appendBytes t (leBytes e.1)) t
  let t := appendBoundaryEdges A chunk.outgoingEdges (A.appendBytes t (asBytes "incoming"))
  let t := A.appendBytes t (asBytes "outputs")
  chunk.modelOutputsInChunk.foldl (fun t e => A.appendBytes t (leBytes e.1)) t

/-- The nodes of the chunk that stand for the given nodes of the model. -/
def chunkNodeIds (nodeIds : List NodeId) : List NodeId :=
  (nodeIds.filterMap fun n =>
    if chunk.subgraph.nodes.contains n then some [n] else chunk.replacedNodes[n]?).flatten

/-- `chunk_lookup_ctx`. -/
def chunkLookupCtx (lookupCtx : LookupContext) : LookupContext :=
  ⟨lookupCtx.tables.filterMap fun _ nodeIds =>
    match chunk.chunkNodeIds nodeIds with
    | [] => none
    | chunkNodeIds => some chunkNodeIds⟩

/-- What `claims_for_node` accumulates: the claims of each output port, and the ports for which
    the claim of the chunk is among them. -/
abbrev PortClaims (F : Type) := BTreeMap PortId (List (Claim F)) × List PortId

/-- `out_map.entry(port).or_insert(Vec::new()).push(claim)`. -/
def pushClaim (outMap : BTreeMap PortId (List (Claim F))) (port : PortId) (claim : Claim F) :
    BTreeMap PortId (List (Claim F)) :=
  outMap.insert port ((outMap[port]?).getD [] ++ [claim])

/-- The claim of one feed: that of the port that is fed, if its node is in the chunk, else that of
    the chunk, which is taken once. -/
def feedClaim (nodeId : NodeId) (claimsByLayers : HashMap NodeInput (Claim F))
    (chunkOutputClaims : HashMap NodeOutput (Claim F)) (acc : PortClaims F) (feed : Feed) :
    Outcome (PortClaims F) :=
  match claimsByLayers[feed.target]? with
  | some claim => .ok (pushClaim acc.1 feed.source.port claim, acc.2)
  | none => do
    let claim ← okOr chunkOutputClaims[(⟨nodeId, feed.source.port⟩ : NodeOutput)]?
      "No claim found for source port"
    if feed.source.port ∈ acc.2 then
      .ok acc
    else
      .ok (pushClaim acc.1 feed.source.port claim, feed.source.port :: acc.2)

/-- `claims_for_node`. -/
def claimsForNode (nodeId : NodeId) (claimsByLayers : HashMap NodeInput (Claim F))
    (chunkOutputClaims : HashMap NodeOutput (Claim F)) :
    Outcome (BTreeMap PortId (List (Claim F))) := do
  let (outMap, _) ← (chunk.subgraph.outgoingFeeds nodeId).foldlM
    (feedClaim nodeId claimsByLayers chunkOutputClaims) (∅, [])
  .ok outMap

end GraphChunk

end DeepProve
