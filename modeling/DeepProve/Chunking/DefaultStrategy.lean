import DeepProve.ForStd.Balanced
import DeepProve.Iop.MergeBinding
import DeepProve.Model.Executes
import DeepProve.Quantization.QuantizeModel

/-!
# Splitting a model into chunks

`DefaultChunkingStrategy::split` of `iop/chunking.rs`. The inner nodes of the model are visited from
the outputs to the inputs and put into the current chunk, until it has its share of the nodes that
are left. The edges are put into the chunks of both of their ends.

Where a model has layers that are worth splitting and there are chunks left for them, such layers
are replaced by pieces of their own; this part is a parameter.
-/

namespace DeepProve

namespace Graph

variable {N I O W : Type} (g : Graph N I O W)

/-- The inner nodes, by identifier. -/
def innerNodes : List NodeId := (g.nodes.toList.filter fun (_, node) => node.isInner).map Prod.fst

/-- `inner_nodes_count`. -/
def innerNodesCount : Nat := (g.nodes.toList.filter fun (_, node) => node.isInner).length

/-- The inner nodes in the order of `backward_iter`. -/
def backwardInners : List NodeId :=
  (g.backwardIter.filter fun (_, node) => node.isInner).map Prod.fst

end Graph

/-- What `split` asks of the layers of a model. -/
structure LayerSizes (L : Type) where
  /-- `output_shapes`, without padding. -/
  outputShapes : L → List Shape → Outcome (List Shape)
  idealNumChunks : L → List Shape → Option Nat

structure DefaultChunkingStrategy where
  unpaddedInputShapes : List Shape

variable {F C : Type} {D : DpCrypto F} {O : OtherLayers D C} {L : Type}

/-- `max_num_vertical_chunks`: at most three nodes for each chunk. -/
def maxNumVerticalChunks (model : ModelGraph L) : Nat := (model.innerNodesCount + 2) / 3

/-- `get_input_shapes_for_node`. -/
def getInputShapesForNode (model : ModelGraph L) (nodeId : NodeId)
    (inputShapes : BTreeMap NodeOutput Shape) : Outcome (List Shape) := do
  let inputs ← (model.incomingFeeds nodeId).mapM fun feed => do
    let shape ← unwrap inputShapes[feed.source]? "no entry found for key"
    .ok ((⟨nodeId, feed.target.port⟩ : NodeInput), shape)
  .ok (orderByInPort inputs)

namespace DefaultChunkingStrategy

variable (self : DefaultChunkingStrategy) (P : LayerSizes L) (model : ModelGraph L)

/-- The layers that are worth two chunks at least. -/
def splittableLayers : Outcome (List (NodeId × Nat)) := do
  let inputNodes ← model.inputNodeIds
  let shapes : BTreeMap NodeOutput Shape :=
    .ofList ((inputNodes.zip self.unpaddedInputShapes).map fun (n, shape) => (⟨n, 0⟩, shape)) compare
  let (_, layers) ← model.forwardInners.foldlM (fun (shapes, layers) (nodeId, node) => do
    let unpaddedInputShapes ← getInputShapesForNode model nodeId shapes
    let outputShapes ← match P.outputShapes node unpaddedInputShapes with
      | .ok outputShapes => .ok outputShapes
      | .error _ => .error (.panic
        "Shouldn't fail since we successfuly generated the context for this model")
    let shapes := shapes.insertMany
      (outputShapes.zipIdx.map fun (shape, i) => ((⟨nodeId, i⟩ : NodeOutput), shape))
    match P.idealNumChunks node unpaddedInputShapes with
    | some numChunks =>
      if 1 < numChunks then
        .ok (shapes, layers ++ [(nodeId, numChunks)])
      else
        .ok (shapes, layers)
    | none => .ok (shapes, layers)) (shapes, [])
  .ok layers

end DefaultChunkingStrategy

/-! ## The nodes -/

/-- What the loop over the nodes has built so far. -/
structure SplitState (O : OtherLayers D C) where
  numVerticalChunks : Nat
  numUnsplitNodes : Nat
  currentChunk : Nat
  nodesInCurrentChunk : Nat
  subgraphs : List (ChunkedGraph O)
  nodesMap : HashMap NodeId Nat

/-- A call on `subgraphs[chunk]`. -/
def onChunk (subgraphs : List (ChunkedGraph O)) (chunk : Nat) (call : Call (ChunkedGraph O) Unit) :
    Outcome (List (ChunkedGraph O)) := do
  let graph ← unwrap subgraphs[chunk]? "index out of bounds"
  match call.run graph with
  | .ok _ graph => .ok (subgraphs.set chunk graph)
  | .error fault _ => .error fault

/-- `a % b`. -/
def usizeRem (a b : Nat) : Outcome Nat :=
  if b = 0 then
    .error (.panic "attempt to calculate the remainder with a divisor of zero")
  else
    .ok (a % b)

/-- The loop over the inner nodes, for a node that is not split. -/
def placeNode (state : SplitState O) (nodeId : NodeId) : Outcome (SplitState O) := do
  let subgraphs ← onChunk state.subgraphs state.currentChunk
    (Graph.addNodeWithId nodeId (.inner .originalNode))
  let nodesMap := state.nodesMap.insert nodeId state.currentChunk
  let nodesInCurrentChunk := state.nodesInCurrentChunk + 1
  let numChunksWithExtraNode ← usizeRem state.numUnsplitNodes state.numVerticalChunks
  let maxNodesInCurrentChunk :=
    if 0 < numChunksWithExtraNode then
      state.numUnsplitNodes / state.numVerticalChunks + 1
    else
      state.numUnsplitNodes / state.numVerticalChunks
  if maxNodesInCurrentChunk ≤ nodesInCurrentChunk then do
    let numVerticalChunks ← usizeSub state.numVerticalChunks 1
    let numUnsplitNodes ← usizeSub state.numUnsplitNodes nodesInCurrentChunk
    .ok ⟨numVerticalChunks, numUnsplitNodes, state.currentChunk + 1, 0, subgraphs, nodesMap⟩
  else
    .ok { state with nodesInCurrentChunk, subgraphs, nodesMap }

/-! ## The edges -/

/-- The part of `add_edges_to_chunk_subgraphs` that puts an edge into the chunk of its source, and
    the output of the model that it leads to; true if it leads to one. -/
def addSourceEdge (nodesMap : HashMap NodeId Nat) (edgeId : EdgeId) (edge : Edge Unit)
    (targetNode : Node L Nat Nat) (subgraphs : List (ChunkedGraph O)) :
    Outcome (List (ChunkedGraph O) × Bool) := do
  let chunk ← okOr nodesMap[edge.source]? s!"Node N{edge.source} not assigned to any chunk"
  let subgraphs ← onChunk subgraphs chunk (Graph.addEdgeRawWithId edgeId edge)
  match targetNode.asOutput with
  | some o => do
    let subgraphs ← onChunk subgraphs chunk
      (Graph.addNodeWithId edge.target (.output (.originalNode o)))
    .ok (subgraphs, true)
  | none => .ok (subgraphs, false)

/-- An edge is added to a chunk that does not have it. -/
def addEdgeOnce (edgeId : EdgeId) (edge : Edge Unit) (chunk : Nat) (graph : ChunkedGraph O)
    (subgraphs : List (ChunkedGraph O)) : Outcome (List (ChunkedGraph O)) :=
  if graph.edges[edgeId]?.isNone then
    onChunk subgraphs chunk (Graph.addEdgeRawWithId edgeId edge)
  else
    .ok subgraphs

/-- The part that puts an edge into the chunk of its target, and the input of the model that it
    comes from. -/
def addTargetEdge (nodesMap : HashMap NodeId Nat) (edgeId : EdgeId) (edge : Edge Unit)
    (sourceNode : Node L Nat Nat) (subgraphs : List (ChunkedGraph O)) :
    Outcome (List (ChunkedGraph O)) := do
  let chunk ← okOr nodesMap[edge.target]? s!"Node N{edge.target} not assigned to any chunk"
  let graph ← unwrap subgraphs[chunk]? "index out of bounds"
  let subgraphs ← addEdgeOnce edgeId edge chunk graph subgraphs
  match sourceNode.asInput with
  | some i =>
    if graph.nodes[edge.source]?.isNone then
      onChunk subgraphs chunk (Graph.addNodeWithId edge.source (.input (.originalNode i)))
    else
      .ok subgraphs
  | none => .ok subgraphs

/-- `add_edges_to_chunk_subgraphs`, for one edge. No node of the model is replaced by pieces. -/
def addEdgeToChunkSubgraphs (model : ModelGraph L) (nodesMap : HashMap NodeId Nat)
    (subgraphs : List (ChunkedGraph O)) (entry : EdgeId × Edge Unit) :
    Outcome (List (ChunkedGraph O)) := do
  let (edgeId, edge) := entry
  let sourceNode ← okOr model.nodes[edge.source]?
    s!"Source node N{edge.source} of edge EdgeId({edgeId}) not found in model"
  let targetNode ← okOr model.nodes[edge.target]?
    s!"Target node N{edge.target} of edge EdgeId({edgeId}) not found in model"
  if sourceNode.asInput.isNone then do
    let (subgraphs, atOutput) ← addSourceEdge nodesMap edgeId edge targetNode subgraphs
    if atOutput then
      .ok subgraphs
    else
      addTargetEdge nodesMap edgeId edge sourceNode subgraphs
  else
    addTargetEdge nodesMap edgeId edge sourceNode subgraphs

/-! ## The chunks -/

/-- `split`, where no layer is split. -/
def splitVertically (model : ModelGraph L) (numChunks : Nat) :
    Outcome (List (ChunkedGraph O)) := do
  let numNodes := model.innerNodesCount
  -- with fewer nodes than chunks there is a chunk for each node
  let numVerticalChunks := if numNodes < numChunks then numNodes else numChunks
  ensure (decide (numVerticalChunks ≤ numNodes))
    s!"Number of vertical chunks ({numVerticalChunks}) cannot be greater than number of unsplit nodes ({numNodes})"
  let _ ← unwrap model.edges.keys.max? "called `Option::unwrap()` on a `None` value"
  let state ← model.backwardInners.foldlM placeNode
    ⟨numVerticalChunks, numNodes, 0, 0, List.replicate numVerticalChunks Graph.new, ∅⟩
  ensure (state.subgraphs.all fun chunk => decide (0 < chunk.innerNodesCount))
    "There should be no empty chunks"
  model.edges.toList.foldlM (addEdgeToChunkSubgraphs model state.nodesMap) state.subgraphs

/-- `split`; `splitHorizontally` is what it does once it has found layers that are worth
    splitting. -/
def DefaultChunkingStrategy.split (self : DefaultChunkingStrategy) (P : LayerSizes L)
    (splitHorizontally : List (NodeId × Nat) → Outcome (List (ChunkedGraph O)))
    (model : ModelGraph L) (numChunks : Nat) : Outcome (List (ChunkedGraph O)) := do
  let layers ← if maxNumVerticalChunks model < numChunks then
      self.splittableLayers P model
    else
      .ok []
  if layers.isEmpty then
    splitVertically model numChunks
  else
    splitHorizontally layers

/-! ## The chunks are balanced -/

theorem onChunk_eq {subgraphs : List (ChunkedGraph O)} {chunk : Nat} {graph graph' : ChunkedGraph O}
    {call : Call (ChunkedGraph O) Unit} (hgraph : subgraphs[chunk]? = some graph)
    (hcall : call.run graph = .ok () graph') :
    onChunk subgraphs chunk call = .ok (subgraphs.set chunk graph') := by
  rw [onChunk, hgraph, unwrap_some, Outcome.ok_bind, hcall]

namespace Graph

variable {N I O W : Type} {g : Graph N I O W}

theorem addNodeWithId_run {id : NodeId} {node : Node N I O} (h : g.nodes[id]? = none) :
    (addNodeWithId id node).run g = .ok () { g with nodes := g.nodes.insert id node } := by
  simp only [addNodeWithId, Call.get_bind_run, Call.modify_bind_run, h]
  rfl

theorem addEdgeRawWithId_run {id : EdgeId} {edge : Edge W} (h : g.edges[id]? = none) :
    (addEdgeRawWithId id edge).run g = .ok () { g with edges := g.edges.insert id edge } := by
  simp only [addEdgeRawWithId, Call.get_bind_run, Call.modify_bind_run, h]
  rfl

end Graph

/-- A chunk with some nodes and no edges. -/
def chunkOf (nodes : List NodeId) : ChunkedGraph O where
  nodes := nodes.foldl (fun m n => m.insert n (.inner .originalNode)) ∅
  edges := ∅

theorem chunkOf_concat (nodes : List NodeId) (n : NodeId) :
    (chunkOf (nodes ++ [n]) : ChunkedGraph O) = {
      nodes := (chunkOf nodes : ChunkedGraph O).nodes.insert n (.inner .originalNode)
      edges := (chunkOf nodes : ChunkedGraph O).edges } := by
  rw [chunkOf, List.foldl_concat]
  rfl

theorem getElem?_chunkOf (nodes : List NodeId) (n : NodeId) :
    (chunkOf nodes : ChunkedGraph O).nodes[n]? =
      if n ∈ nodes then some (.inner .originalNode) else none := by
  induction nodes using List.reverseRecOn with
  | nil => rfl
  | append_singleton nodes m ih =>
    rw [chunkOf_concat, Std.ExtTreeMap.getElem?_insert, ih]
    by_cases hm : n = m
    · simp [hm]
    · simp [hm, Ne.symm hm]

open Segments

/-- The nodes of a chunk are placed one after the other, and the last one closes it. -/
theorem foldlM_placeNode_chunk {v u cur : Nat} {placed rest : List NodeId}
    {subgraphs : List (ChunkedGraph O)} {nodesMap : HashMap NodeId Nat}
    (hcur : subgraphs[cur]? = some (chunkOf placed)) (hrest : rest ≠ [])
    (hquota : placed.length + rest.length = quota u (v + 1)) (hu : quota u (v + 1) ≤ u)
    (hnodup : (placed ++ rest).Nodup) :
    ∃ nodesMap', rest.foldlM placeNode ⟨v + 1, u, cur, placed.length, subgraphs, nodesMap⟩ =
        .ok ⟨v, u - quota u (v + 1), cur + 1, 0, subgraphs.set cur (chunkOf (placed ++ rest)),
          nodesMap'⟩ ∧
      ∀ n, nodesMap'[n]? = if n ∈ rest then some cur else nodesMap[n]? := by
  induction rest generalizing placed subgraphs nodesMap with
  | nil => exact absurd rfl hrest
  | cons n rest ih =>
    have hnew : (chunkOf placed : ChunkedGraph O).nodes[n]? = none := by
      rw [getElem?_chunkOf, if_neg]
      exact fun hmem => (List.nodup_append.mp hnodup).2.2 n hmem n List.mem_cons_self rfl
    have hrun : (Graph.addNodeWithId n (.inner .originalNode)).run (chunkOf placed : ChunkedGraph O) =
        _ := Graph.addNodeWithId_run hnew
    have hplace := onChunk_eq hcur hrun
    rw [← chunkOf_concat] at hplace
    have hmax : (if 0 < u % (v + 1) then u / (v + 1) + 1 else u / (v + 1)) = quota u (v + 1) := rfl
    rw [List.foldlM_cons, placeNode, hplace, Outcome.ok_bind, usizeRem, if_neg (Nat.succ_ne_zero v),
      Outcome.ok_bind, hmax, usizeSub, if_pos (Nat.succ_le_succ (Nat.zero_le v)), Outcome.ok_bind]
    rw [List.length_cons] at hquota
    dsimp only
    cases rest with
    | nil =>
      rw [List.length_nil] at hquota
      rw [if_pos (by omega), usizeSub, if_pos (by omega)]
      refine ⟨nodesMap.insert n cur, ?_, fun m => ?_⟩
      · rw [show placed.length + 1 = quota u (v + 1) by omega]
        rfl
      · rw [Std.ExtTreeMap.getElem?_insert]
        by_cases hm : m = n
        · simp [hm]
        · simp [hm, Ne.symm hm]
    | cons m rest =>
      rw [List.length_cons] at hquota
      rw [if_neg (by omega), Outcome.ok_bind]
      have hset : (subgraphs.set cur (chunkOf (placed ++ [n])))[cur]? =
          some (chunkOf (placed ++ [n])) := by
        rw [List.getElem?_set_self (List.getElem?_eq_some_iff.mp hcur).1]
      obtain ⟨nodesMap', hfold, hmap⟩ := @ih (placed ++ [n]) _
        (nodesMap.insert n cur) hset (by simp) (by simp; omega) (by rw [List.append_assoc]; exact hnodup)
      rw [List.length_append, List.length_singleton, List.set_set, List.append_assoc] at hfold
      refine ⟨nodesMap', hfold, fun k => ?_⟩
      rw [hmap, Std.ExtTreeMap.getElem?_insert]
      by_cases hk : k = n
      · simp [hk]
      · simp [hk, Ne.symm hk]

/-- Each node is in the chunk that the map has for it. -/
def Assigns (nodesMap : HashMap NodeId Nat) (chunks : List (List NodeId)) : Prop :=
  ∀ (n : NodeId) (i : Nat), nodesMap[n]? = some i ↔ ∃ chunk, chunks[i]? = some chunk ∧ n ∈ chunk

theorem Assigns.concat {nodesMap nodesMap' : HashMap NodeId Nat} {chunks : List (List NodeId)}
    {chunk : List NodeId} (h : Assigns nodesMap chunks)
    (hmap : ∀ n, nodesMap'[n]? = if n ∈ chunk then some chunks.length else nodesMap[n]?)
    (hnew : ∀ n ∈ chunk, n ∉ chunks.flatten) : Assigns nodesMap' (chunks ++ [chunk]) := by
  intro n i
  rw [hmap]
  split
  case isTrue hn =>
    constructor
    · intro hi
      obtain rfl := Option.some.inj hi
      exact ⟨chunk, by simp, hn⟩
    · rintro ⟨chunk', hchunk', hn'⟩
      rcases Nat.lt_trichotomy i chunks.length with hlt | heq | hgt
      · rw [List.getElem?_append_left hlt] at hchunk'
        exact absurd (List.mem_flatten.mpr ⟨_, List.mem_of_getElem? hchunk', hn'⟩) (hnew n hn)
      · rw [heq]
      · rw [List.getElem?_eq_none (by simp; omega)] at hchunk'
        cases hchunk'
  case isFalse hn =>
    rw [h n i]
    constructor
    · rintro ⟨chunk', hchunk', hn'⟩
      exact ⟨chunk', by rw [List.getElem?_append_left (List.getElem?_eq_some_iff.mp hchunk').1, hchunk'],
        hn'⟩
    · rintro ⟨chunk', hchunk', hn'⟩
      rcases Nat.lt_or_ge i chunks.length with hlt | hge
      · rw [List.getElem?_append_left hlt] at hchunk'
        exact ⟨chunk', hchunk', hn'⟩
      · rw [List.getElem?_append_right hge, List.getElem?_singleton] at hchunk'
        split at hchunk'
        · exact absurd (Option.some.inj hchunk' ▸ hn') hn
        · cases hchunk'

/-- **The chunks are the balanced segments of the nodes.** The counters of the remaining nodes and
    chunks agree with the nodes and chunks that are left whenever a chunk is closed. -/
theorem foldlM_placeNode {v : Nat} {nodes : List NodeId} {closed : List (List NodeId)}
    {nodesMap : HashMap NodeId Nat} (hv : v ≤ nodes.length) (hzero : v = 0 → nodes = [])
    (hnodup : (closed.flatten ++ nodes).Nodup) (hassigns : Assigns nodesMap closed) :
    ∃ nodesMap', nodes.foldlM placeNode ⟨v, nodes.length, closed.length, 0,
          closed.map chunkOf ++ List.replicate v (Graph.new : ChunkedGraph O), nodesMap⟩ =
        .ok ⟨0, 0, closed.length + v, 0, (closed ++ segments v nodes).map chunkOf, nodesMap'⟩ ∧
      Assigns nodesMap' (closed ++ segments v nodes) := by
  induction v generalizing nodes closed nodesMap with
  | zero =>
    obtain rfl := hzero rfl
    refine ⟨nodesMap, ?_, ?_⟩
    · simp [segments, pure, Except.pure]
    · simpa [segments] using hassigns
  | succ v ih =>
    obtain ⟨hpos, hle, hrest⟩ := quota_bounds hv
    obtain ⟨q, hq⟩ : ∃ q, q = quota nodes.length (v + 1) := ⟨_, rfl⟩
    rw [← hq] at hpos hle hrest
    have hlength : (nodes.take q).length = q := by rw [List.length_take]; omega
    have hsplit : closed.flatten ++ nodes = (closed ++ [nodes.take q]).flatten ++ nodes.drop q := by
      rw [List.flatten_append, List.flatten_singleton, List.append_assoc, List.take_append_drop]
    have hcur : (closed.map chunkOf ++ List.replicate (v + 1) (Graph.new : ChunkedGraph O))[
        closed.length]? = some (chunkOf []) := by
      rw [List.getElem?_append_right (by simp), List.length_map, Nat.sub_self]
      rfl
    have hset : (closed.map chunkOf ++ List.replicate (v + 1) (Graph.new : ChunkedGraph O)).set
        closed.length (chunkOf (nodes.take q)) =
        (closed ++ [nodes.take q]).map chunkOf ++ List.replicate v Graph.new := by
      rw [List.set_append_right _ _ (by simp), List.length_map, Nat.sub_self, List.replicate_succ]
      simp
    have happend : ∀ s : SplitState O, nodes.foldlM placeNode s =
        (nodes.take q).foldlM placeNode s >>= fun s' => (nodes.drop q).foldlM placeNode s' := by
      intro s
      rw [← List.foldlM_append, List.take_append_drop]
    obtain ⟨nodesMap₁, hfold₁, hmap₁⟩ := @foldlM_placeNode_chunk _ _ _ O v nodes.length
      closed.length [] (nodes.take q) _ nodesMap hcur (by rw [← List.length_pos_iff]; omega)
      (by rw [hlength, hq]; simp) (hq ▸ hle)
      (hnodup.sublist ((List.take_sublist q nodes).trans (List.sublist_append_right _ _)))
    rw [List.nil_append, hset, ← hq] at hfold₁
    have hassigns₁ := hassigns.concat hmap₁ fun n hn hmem =>
      (List.nodup_append.mp hnodup).2.2 n hmem n (List.mem_of_mem_take hn) rfl
    have hdrop : (nodes.drop q).length = nodes.length - q := List.length_drop ..
    obtain ⟨nodesMap₂, hfold₂, hassigns₂⟩ := @ih (nodes.drop q) _ nodesMap₁ (by rw [hdrop]; omega)
      (fun h0 => by rw [← List.length_eq_zero_iff, hdrop]; exact hrest.2 h0)
      (hsplit ▸ hnodup) hassigns₁
    have hsegments : closed ++ segments (v + 1) nodes =
        (closed ++ [nodes.take q]) ++ segments v (nodes.drop q) := by
      rw [segments, ← hq, List.append_assoc, List.singleton_append]
    rw [List.length_append, List.length_singleton, hdrop, ← hsegments] at hfold₂
    refine ⟨nodesMap₂, ?_, hsegments ▸ hassigns₂⟩
    rw [happend]
    refine (congrArg (· >>= _) hfold₁).trans ?_
    rw [Outcome.ok_bind, hfold₂, Nat.add_assoc, Nat.add_comm 1 v]

/-! ## The edges are added -/

/-- A graph of a model: the edges lead from inputs and inner nodes to inner nodes and outputs, and
    an output is fed by one node. -/
structure Graph.IsRouted (model : ModelGraph L) : Prop where
  acyclic : Dag.Acyclic model.Pred
  endpoints : ∀ (id : EdgeId) (e : Edge Unit), model.edges[id]? = some e →
    e.source ∈ model.nodes ∧ e.target ∈ model.nodes
  inputs : ∀ (id : EdgeId) (e : Edge Unit) (i : Nat), model.edges[id]? = some e →
    model.nodes[e.target]? ≠ some (.input i)
  outputs : ∀ (id : EdgeId) (e : Edge Unit) (o : Nat), model.edges[id]? = some e →
    model.nodes[e.source]? ≠ some (.output o)
  fed : ∀ (id id' : EdgeId) (e e' : Edge Unit) (o : Nat), model.edges[id]? = some e →
    model.edges[id']? = some e' → model.nodes[e.target]? = some (.output o) →
      e'.target = e.target → id = id'

/-- A chunk with its inner nodes; what else it has comes from the edges that were added. -/
structure IsPart (model : ModelGraph L) (added : List (EdgeId × Edge Unit)) (nodes : List NodeId)
    (chunk : ChunkedGraph O) : Prop where
  inner : ∀ n : NodeId, (∃ x, chunk.nodes[n]? = some (.inner x)) ↔ n ∈ nodes
  input : ∀ (n : NodeId) x, chunk.nodes[n]? = some (.input x) →
    ∃ i, model.nodes[n]? = some (.input i)
  output : ∀ (n : NodeId) x, chunk.nodes[n]? = some (.output x) → ∃ entry ∈ added, entry.2.target = n
  edge : ∀ (id : EdgeId) e, chunk.edges[id]? = some e → ∃ entry ∈ added, entry.1 = id

namespace IsPart

variable {model : ModelGraph L} {added : List (EdgeId × Edge Unit)} {nodes : List NodeId}
  {chunk : ChunkedGraph O}

theorem mono (h : IsPart model added nodes chunk) (entry : EdgeId × Edge Unit) :
    IsPart model (added ++ [entry]) nodes chunk where
  inner := h.inner
  input := h.input
  output n x hn := by
    obtain ⟨entry, hmem, htarget⟩ := h.output n x hn
    exact ⟨entry, List.mem_append_left _ hmem, htarget⟩
  edge id e he := by
    obtain ⟨entry, hmem, hid⟩ := h.edge id e he
    exact ⟨entry, List.mem_append_left _ hmem, hid⟩

theorem insertEdge (h : IsPart model added nodes chunk) {id : EdgeId} {edge : Edge Unit}
    (hmem : (id, edge) ∈ added) :
    IsPart model added nodes { chunk with edges := chunk.edges.insert id edge } where
  inner := h.inner
  input := h.input
  output := h.output
  edge id' e he := by
    rw [Std.ExtTreeMap.getElem?_insert] at he
    split at he
    · rename_i heq
      exact ⟨_, hmem, compare_eq_iff_eq.mp heq⟩
    · exact h.edge id' e he

theorem insertNode (h : IsPart model added nodes chunk) {n : NodeId} {node : ChunkNode O}
    (hnew : chunk.nodes[n]? = none) (hinner : ∀ x, node ≠ .inner x)
    (hinput : ∀ x, node = .input x → ∃ i, model.nodes[n]? = some (.input i))
    (houtput : ∀ x, node = .output x → ∃ entry ∈ added, entry.2.target = n) :
    IsPart model added nodes { chunk with nodes := chunk.nodes.insert n node } := by
  have hget (m : NodeId) : (chunk.nodes.insert n node)[m]? =
      if m = n then some node else chunk.nodes[m]? := by
    rw [Std.ExtTreeMap.getElem?_insert]
    by_cases hm : m = n
    · simp [hm]
    · simp [hm, Ne.symm hm]
  refine ⟨fun m => ?_, fun m x hm => ?_, fun m x hm => ?_, h.edge⟩
  · rw [← h.inner m]
    dsimp only
    rw [hget]
    split
    · rename_i hm
      subst hm
      simp [hnew, hinner]
    · rfl
  · dsimp only at hm
    rw [hget] at hm
    split at hm
    · rename_i hmn
      exact hmn ▸ hinput x (Option.some.inj hm)
    · exact h.input m x hm
  · dsimp only at hm
    rw [hget] at hm
    split at hm
    · rename_i hmn
      exact hmn ▸ houtput x (Option.some.inj hm)
    · exact h.output m x hm

theorem insertInput (h : IsPart model added nodes chunk) {n : NodeId} {x : ChunkedIoNode} {i : Nat}
    (hnew : chunk.nodes[n]? = none) (hn : model.nodes[n]? = some (.input i)) :
    IsPart model added nodes { chunk with nodes := chunk.nodes.insert n (.input x) } :=
  h.insertNode hnew (by simp) (fun _ _ => ⟨i, hn⟩) (by simp)

theorem insertOutput (h : IsPart model added nodes chunk) {n : NodeId} {x : ChunkedIoNode}
    {entry : EdgeId × Edge Unit} (hnew : chunk.nodes[n]? = none) (hentry : entry ∈ added)
    (htarget : entry.2.target = n) :
    IsPart model added nodes { chunk with nodes := chunk.nodes.insert n (.output x) } :=
  h.insertNode hnew (by simp) (by simp) fun _ _ => ⟨entry, hentry, htarget⟩

end IsPart

/-- The chunks, each with its inner nodes. -/
def AreParts (model : ModelGraph L) (added : List (EdgeId × Edge Unit))
    (chunks : List (List NodeId)) (subgraphs : List (ChunkedGraph O)) : Prop :=
  List.Forall₂ (IsPart model added) chunks subgraphs

namespace AreParts

variable {model : ModelGraph L} {added : List (EdgeId × Edge Unit)}
  {chunks : List (List NodeId)} {subgraphs : List (ChunkedGraph O)} {i : Nat} {nodes : List NodeId}

theorem get (h : AreParts model added chunks subgraphs) (hi : chunks[i]? = some nodes) :
    ∃ chunk, subgraphs[i]? = some chunk ∧ IsPart model added nodes chunk := by
  obtain ⟨hlt, rfl⟩ := List.getElem?_eq_some_iff.mp hi
  have hlt' := (List.Forall₂.length_eq h) ▸ hlt
  exact ⟨subgraphs[i], List.getElem?_eq_getElem hlt', List.Forall₂.get h hlt hlt'⟩

theorem set (h : AreParts model added chunks subgraphs) (hi : chunks[i]? = some nodes)
    {chunk : ChunkedGraph O} (hchunk : IsPart model added nodes chunk) :
    AreParts model added chunks (subgraphs.set i chunk) := by
  induction h generalizing i with
  | nil => simp at hi
  | cons hpart hparts ih =>
    cases i with
    | zero =>
      obtain rfl := Option.some.inj hi
      exact List.Forall₂.cons hchunk hparts
    | succ i => exact List.Forall₂.cons hpart (ih hi)

theorem mono (h : AreParts model added chunks subgraphs) (entry : EdgeId × Edge Unit) :
    AreParts model (added ++ [entry]) chunks subgraphs :=
  List.Forall₂.imp (fun _ _ hpart => hpart.mono entry) h

end AreParts

section AddEdges

variable {model : ModelGraph L} {added : List (EdgeId × Edge Unit)} {nodesMap : HashMap NodeId Nat}
  {chunks : List (List NodeId)} {subgraphs : List (ChunkedGraph O)} {id : EdgeId} {e : Edge Unit}
  {i : Nat} {nodes : List NodeId}

theorem onChunk_areParts (h : AreParts model added chunks subgraphs) (hi : chunks[i]? = some nodes)
    {chunk chunk' : ChunkedGraph O} {call : Call (ChunkedGraph O) Unit}
    (hget : subgraphs[i]? = some chunk) (hcall : call.run chunk = .ok () chunk')
    (hchunk' : IsPart model added nodes chunk') :
    onChunk subgraphs i call = .ok (subgraphs.set i chunk') ∧
      AreParts model added chunks (subgraphs.set i chunk') ∧
        (subgraphs.set i chunk')[i]? = some chunk' :=
  ⟨onChunk_eq hget hcall, h.set hi hchunk',
    List.getElem?_set_self (List.getElem?_eq_some_iff.mp hget).1⟩

/-- An edge of the model is put into the chunk of its target, unless it is there. -/
theorem addTargetEdge_ok (h : AreParts model added chunks subgraphs)
    (hi : nodesMap[e.target]? = some i) (hnodes : chunks[i]? = some nodes)
    (hmem : (id, e) ∈ added) {sourceNode : Node L Nat Nat}
    (hsource : model.nodes[e.source]? = some sourceNode) :
    ∃ subgraphs', addTargetEdge nodesMap id e sourceNode subgraphs = .ok subgraphs' ∧
      AreParts model added chunks subgraphs' := by
  obtain ⟨chunk, hget, hpart⟩ := h.get hnodes
  obtain ⟨subgraphs₁, chunk₁, hedge, hparts₁, hget₁, hpart₁, hsame⟩ :
      ∃ subgraphs₁ chunk₁, addEdgeOnce id e i chunk subgraphs = .ok subgraphs₁ ∧
        AreParts model added chunks subgraphs₁ ∧ subgraphs₁[i]? = some chunk₁ ∧
          IsPart model added nodes chunk₁ ∧ chunk₁.nodes = chunk.nodes := by
    unfold addEdgeOnce
    split
    · rename_i hnone
      have hpart₁ := hpart.insertEdge hmem
      obtain ⟨hok, hparts₁, hget₁⟩ := onChunk_areParts h hnodes hget
        (Graph.addEdgeRawWithId_run (Option.isNone_iff_eq_none.mp hnone)) hpart₁
      exact ⟨_, _, hok, hparts₁, hget₁, hpart₁, rfl⟩
    · exact ⟨_, _, rfl, h, hget, hpart, rfl⟩
  rw [addTargetEdge, hi, okOr_some, Outcome.ok_bind, hget, unwrap_some, Outcome.ok_bind, hedge,
    Outcome.ok_bind]
  cases sourceNode with
  | inner layer => exact ⟨_, rfl, hparts₁⟩
  | output o => exact ⟨_, rfl, hparts₁⟩
  | input x =>
    show ∃ subgraphs', (if chunk.nodes[e.source]?.isNone then _ else _) = _ ∧ _
    split
    · rename_i hnone
      have hnew : chunk₁.nodes[e.source]? = none := hsame ▸ Option.isNone_iff_eq_none.mp hnone
      obtain ⟨hok, hparts₂, _⟩ := onChunk_areParts hparts₁ hnodes hget₁
        (Graph.addNodeWithId_run hnew) (hpart₁.insertInput hnew hsource)
      exact ⟨_, hok, hparts₂⟩
    · exact ⟨_, rfl, hparts₁⟩

/-- An edge of the model is put into the chunk of its source, with the output that it leads to. -/
theorem addSourceEdge_ok (hmodel : model.IsRouted) (h : AreParts model added chunks subgraphs)
    (hi : nodesMap[e.source]? = some i) (hnodes : chunks[i]? = some nodes)
    (hinner : ∀ n ∈ nodes, ∃ layer, model.nodes[n]? = some (.inner layer))
    (hadded : ∀ entry ∈ added, model.edges[entry.1]? = some entry.2)
    (hedge : model.edges[id]? = some e) (hnew : ∀ entry ∈ added, entry.1 ≠ id)
    {targetNode : Node L Nat Nat} (htarget : model.nodes[e.target]? = some targetNode) :
    ∃ subgraphs', addSourceEdge nodesMap id e targetNode subgraphs =
        .ok (subgraphs', targetNode.asOutput.isSome) ∧
      AreParts model (added ++ [(id, e)]) chunks subgraphs' := by
  obtain ⟨chunk, hget, hpart⟩ := h.get hnodes
  have hmem : (id, e) ∈ added ++ [(id, e)] := by simp
  have habsent : chunk.edges[id]? = none := by
    cases he : chunk.edges[id]? with
    | none => rfl
    | some _ =>
      obtain ⟨entry, hentry, hid⟩ := hpart.edge id _ he
      exact absurd hid (hnew entry hentry)
  have hpart₁ := (hpart.mono (id, e)).insertEdge hmem
  obtain ⟨hok, hparts₁, hget₁⟩ := onChunk_areParts (h.mono (id, e)) hnodes hget
    (Graph.addEdgeRawWithId_run habsent) hpart₁
  rw [addSourceEdge, hi, okOr_some, Outcome.ok_bind, hok, Outcome.ok_bind]
  cases targetNode with
  | input x => exact ⟨_, rfl, hparts₁⟩
  | inner layer => exact ⟨_, rfl, hparts₁⟩
  | output o =>
    -- the output is in no chunk yet: this is the only edge that leads to it
    have hnone : chunk.nodes[e.target]? = none := by
      cases hnode : chunk.nodes[e.target]? with
      | none => rfl
      | some node =>
        cases node with
        | input x =>
          obtain ⟨_, hinput⟩ := hpart.input _ x hnode
          rw [htarget] at hinput
          cases hinput
        | inner x =>
          obtain ⟨_, hinner⟩ := hinner _ ((hpart.inner _).mp ⟨x, hnode⟩)
          rw [htarget] at hinner
          cases hinner
        | output x =>
          obtain ⟨entry, hentry, hsame⟩ := hpart.output _ x hnode
          exact absurd (hmodel.fed id entry.1 e entry.2 o hedge (hadded entry hentry) htarget
            hsame).symm (hnew entry hentry)
    obtain ⟨hok₂, hparts₂, _⟩ := onChunk_areParts hparts₁ hnodes hget₁
      (Graph.addNodeWithId_run hnone) (hpart₁.insertOutput hnone hmem rfl)
    refine ⟨_, ?_, hparts₂⟩
    show (onChunk _ i _ >>= _) = _
    rw [hok₂]
    rfl

/-- One edge is added to the chunks. -/
theorem addEdgeToChunkSubgraphs_ok (hmodel : model.IsRouted) (hassigns : Assigns nodesMap chunks)
    (hchunks : ∀ n, n ∈ chunks.flatten ↔ ∃ layer, model.nodes[n]? = some (.inner layer))
    (h : AreParts model added chunks subgraphs)
    (hadded : ∀ entry ∈ added, model.edges[entry.1]? = some entry.2)
    (hedge : model.edges[id]? = some e) (hnew : ∀ entry ∈ added, entry.1 ≠ id)
    (hpass : ∀ i o, model.nodes[e.source]? = some (.input i) →
      model.nodes[e.target]? ≠ some (.output o)) :
    ∃ subgraphs', addEdgeToChunkSubgraphs model nodesMap subgraphs (id, e) = .ok subgraphs' ∧
      AreParts model (added ++ [(id, e)]) chunks subgraphs' := by
  have hassigned (n : NodeId) (hn : ∃ layer, model.nodes[n]? = some (.inner layer)) :
      ∃ i nodes, nodesMap[n]? = some i ∧ chunks[i]? = some nodes := by
    obtain ⟨nodes, hmem, hn⟩ := List.mem_flatten.mp ((hchunks n).mpr hn)
    obtain ⟨i, hi⟩ := List.getElem?_of_mem hmem
    exact ⟨i, nodes, (hassigns n i).mpr ⟨nodes, hi, hn⟩, hi⟩
  have hmem : (id, e) ∈ added ++ [(id, e)] := by simp
  obtain ⟨hs, ht⟩ := hmodel.endpoints id e hedge
  obtain ⟨sourceNode, hsource⟩ := Option.isSome_iff_exists.mp
    (Std.ExtTreeMap.mem_iff_isSome_getElem?.mp hs)
  obtain ⟨targetNode, htarget⟩ := Option.isSome_iff_exists.mp
    (Std.ExtTreeMap.mem_iff_isSome_getElem?.mp ht)
  simp only [addEdgeToChunkSubgraphs, hsource, htarget, okOr_some, Outcome.ok_bind]
  cases sourceNode with
  | output o => exact absurd hsource (hmodel.outputs id e o hedge)
  | input x =>
    cases targetNode with
    | input y => exact absurd htarget (hmodel.inputs id e y hedge)
    | output o => exact absurd htarget (hpass x o hsource)
    | inner layer =>
      obtain ⟨j, nodes, hj, hnodes⟩ := hassigned e.target ⟨layer, htarget⟩
      exact addTargetEdge_ok (h.mono (id, e)) hj hnodes hmem hsource
  | inner layer =>
    obtain ⟨i, nodes, hi, hnodes⟩ := hassigned e.source ⟨layer, hsource⟩
    obtain ⟨subgraphs₁, hok, hparts⟩ := addSourceEdge_ok hmodel h hi hnodes
      (fun n hn => (hchunks n).mp (List.mem_flatten.mpr ⟨nodes, List.mem_of_getElem? hnodes, hn⟩))
      hadded hedge hnew htarget
    show ∃ subgraphs', (addSourceEdge nodesMap id e targetNode subgraphs >>= _) = _ ∧ _
    rw [hok, Outcome.ok_bind]
    cases targetNode with
    | input y => exact absurd htarget (hmodel.inputs id e y hedge)
    | output o => exact ⟨_, rfl, hparts⟩
    | inner layer' =>
      obtain ⟨j, nodes', hj, hnodes'⟩ := hassigned e.target ⟨layer', htarget⟩
      exact addTargetEdge_ok hparts hj hnodes' hmem hsource

end AddEdges

/-! ## When a model is split -/

namespace Graph

variable {N I O W : Type} {g : Graph N I O W}

theorem mem_innerNodes {n : NodeId} :
    n ∈ g.innerNodes ↔ ∃ layer, g.nodes[n]? = some (.inner layer) := by
  rw [innerNodes, List.mem_map]
  constructor
  · rintro ⟨⟨m, node⟩, hmem, rfl⟩
    obtain ⟨hnode, hinner⟩ := List.mem_filter.mp hmem
    rw [Std.ExtTreeMap.mem_toList_iff_getElem?_eq_some] at hnode
    cases node with
    | inner layer => exact ⟨layer, hnode⟩
    | input i => cases hinner
    | output o => cases hinner
  · rintro ⟨layer, hn⟩
    exact ⟨(n, .inner layer), List.mem_filter.mpr
      ⟨Std.ExtTreeMap.mem_toList_iff_getElem?_eq_some.mpr hn, rfl⟩, rfl⟩

theorem nodup_innerNodes : g.innerNodes.Nodup := by
  have hsub := (List.filter_sublist (p := fun (_, node) => node.isInner)
    (l := g.nodes.toList)).map Prod.fst
  rw [Std.ExtTreeMap.map_fst_toList_eq_keys] at hsub
  exact g.nodes.nodup_keys.sublist hsub

theorem length_innerNodes : g.innerNodes.length = g.innerNodesCount := List.length_map ..

theorem backwardInners_eq : g.backwardInners =
    (g.dagOrder false).filter fun n => (g.nodes[n]?).any Node.isInner := by
  rw [backwardInners, backwardIter, iterNodes]
  induction g.dagOrder false with
  | nil => rfl
  | cons n ns ih =>
    rw [List.filterMap_cons, List.filter_cons]
    cases hn : g.nodes[n]? with
    | none => exact ih
    | some node =>
      cases hinner : node.isInner with
      | true => simp [hinner, ih]
      | false => simp [hinner, ih]

theorem nodup_backwardInners : g.backwardInners.Nodup := by
  rw [backwardInners_eq]
  exact (g.nodup_dagRounds false _ g.nodes.nodup_keys).1.filter _

theorem mem_backwardInners (hacyclic : Dag.Acyclic g.Pred) {n : NodeId} :
    n ∈ g.backwardInners ↔ ∃ layer, g.nodes[n]? = some (.inner layer) := by
  rw [backwardInners_eq, List.mem_filter, (perm_dagOrder hacyclic).mem_iff,
    Std.ExtTreeMap.mem_keys, Std.ExtTreeMap.mem_iff_isSome_getElem?]
  cases hn : g.nodes[n]? with
  | none => simp
  | some node => cases node <;> simp [Node.isInner]

theorem length_backwardInners (hacyclic : Dag.Acyclic g.Pred) :
    g.backwardInners.length = g.innerNodesCount := by
  rw [← length_innerNodes]
  refine ((List.perm_ext_iff_of_nodup nodup_backwardInners nodup_innerNodes).mpr
    fun n => ?_).length_eq
  rw [mem_backwardInners hacyclic, mem_innerNodes]

/-- A node is visited after the nodes that it feeds. -/
theorem pairwise_backwardInners : g.backwardInners.Pairwise fun a b => ¬ g.Pred a b := by
  have hordered : (g.dagOrder false).Pairwise fun a b => ¬ g.Precedes false b a :=
    pairwise_dagRounds _ g.nodes.nodup_keys
  rw [backwardInners_eq]
  exact hordered.filter _

end Graph

/-- The chunks are segments of the nodes in the order of the visit, of the same length up to one
    node, and edges between chunks lead to an earlier one. -/
structure IsBalanced (model : ModelGraph L) (numChunks : Nat) (subgraphs : List (ChunkedGraph O)) :
    Prop where
  length : subgraphs.length = min numChunks model.innerNodesCount
  inner : ∀ n, n ∈ model.innerNodes ↔ ∃ chunk ∈ subgraphs, n ∈ chunk.innerNodes
  unique : ∀ (n : NodeId) (i j : Nat) (chunk chunk' : ChunkedGraph O), subgraphs[i]? = some chunk →
    subgraphs[j]? = some chunk' → n ∈ chunk.innerNodes → n ∈ chunk'.innerNodes → i = j
  balanced : ∀ chunk ∈ subgraphs, ∀ chunk' ∈ subgraphs,
    chunk.innerNodesCount ≤ chunk'.innerNodesCount + 1
  consecutive : ∃ parts : List (List NodeId), parts.flatten = model.backwardInners ∧
    List.Forall₂ (fun part chunk => part.Perm chunk.innerNodes) parts subgraphs
  crossing : ∀ (id : EdgeId) (e : Edge Unit) (i j : Nat) (chunk chunk' : ChunkedGraph O),
    model.edges[id]? = some e → subgraphs[i]? = some chunk → subgraphs[j]? = some chunk' →
      e.source ∈ chunk.innerNodes → e.target ∈ chunk'.innerNodes → j ≤ i

section Split

variable {model : ModelGraph L} {numChunks : Nat} {chunks : List (List NodeId)}
  {subgraphs : List (ChunkedGraph O)} {added : List (EdgeId × Edge Unit)}

theorem IsPart.perm {nodes : List NodeId} {chunk : ChunkedGraph O}
    (h : IsPart model added nodes chunk) (hnodup : nodes.Nodup) : nodes.Perm chunk.innerNodes :=
  (List.perm_ext_iff_of_nodup hnodup Graph.nodup_innerNodes).mpr fun n => by
    rw [← h.inner n, Graph.mem_innerNodes]

/-- The segments of the nodes make balanced chunks. -/
theorem isBalanced_of_segments (hmodel : model.IsRouted) (hm : 0 < numChunks)
    (hn : 0 < model.innerNodesCount)
    (hchunks : chunks = segments (min numChunks model.innerNodesCount) model.backwardInners)
    (hparts : AreParts model added chunks subgraphs) : IsBalanced model numChunks subgraphs := by
  have hcount : 0 < min numChunks model.innerNodesCount := by omega
  have hflatten : chunks.flatten = model.backwardInners := by
    rw [hchunks]
    exact flatten_segments hcount
  have hnodup := Graph.nodup_backwardInners (g := model)
  have hordered := Graph.pairwise_backwardInners (g := model)
  rw [← hflatten] at hnodup hordered
  obtain ⟨hnodups, hdisjoint⟩ := List.nodup_flatten.mp hnodup
  have hpairs := (List.pairwise_flatten.mp hordered).2
  have hperm : List.Forall₂ (fun part chunk => part.Perm chunk.innerNodes) chunks subgraphs := by
    refine List.forall₂_iff_get.mpr ⟨hparts.length_eq, fun i hi hi' => ?_⟩
    exact (List.Forall₂.get hparts hi hi').perm (hnodups _ (List.getElem_mem hi))
  have hget (i : Nat) (chunk : ChunkedGraph O) (hi : subgraphs[i]? = some chunk) :
      ∃ part, chunks[i]? = some part ∧ part.Perm chunk.innerNodes := by
    obtain ⟨hlt, rfl⟩ := List.getElem?_eq_some_iff.mp hi
    have hlt' : i < chunks.length := hperm.length_eq ▸ hlt
    exact ⟨chunks[i], List.getElem?_eq_getElem hlt', List.Forall₂.get hperm hlt' hlt⟩
  have hcounts : ∀ chunk ∈ subgraphs, ∃ part ∈ chunks, part.length = chunk.innerNodesCount := by
    intro chunk hchunk
    obtain ⟨i, hi⟩ := List.getElem?_of_mem hchunk
    obtain ⟨part, hpart, hsame⟩ := hget i chunk hi
    exact ⟨part, List.mem_of_getElem? hpart, hsame.length_eq.trans Graph.length_innerNodes⟩
  refine ⟨?_, fun n => ?_, ?_, ?_, ⟨chunks, hflatten, hperm⟩, ?_⟩
  · rw [← hperm.length_eq, hchunks, length_segments]
  · rw [Graph.mem_innerNodes, ← Graph.mem_backwardInners hmodel.acyclic, ← hflatten,
      List.mem_flatten]
    constructor
    · rintro ⟨part, hpart, hmem⟩
      obtain ⟨i, hi, rfl⟩ := List.mem_iff_getElem.mp hpart
      have hi' : i < subgraphs.length := hperm.length_eq ▸ hi
      exact ⟨subgraphs[i], List.getElem_mem hi', (List.Forall₂.get hperm hi hi').mem_iff.mp hmem⟩
    · rintro ⟨chunk, hchunk, hmem⟩
      obtain ⟨i, hi⟩ := List.getElem?_of_mem hchunk
      obtain ⟨part, hpart, hsame⟩ := hget i chunk hi
      exact ⟨part, List.mem_of_getElem? hpart, hsame.mem_iff.mpr hmem⟩
  · intro n i j chunk chunk' hi hj hmem hmem'
    obtain ⟨part, hpart, hsame⟩ := hget i chunk hi
    obtain ⟨part', hpart', hsame'⟩ := hget j chunk' hj
    -- two different segments have no node in common
    by_contra hne
    rcases Nat.lt_or_gt_of_ne hne with hlt | hlt
    · exact hdisjoint.of_getElem? hlt hpart hpart'
        (hsame.mem_iff.mpr hmem) (hsame'.mem_iff.mpr hmem')
    · exact hdisjoint.of_getElem? hlt hpart' hpart
        (hsame'.mem_iff.mpr hmem') (hsame.mem_iff.mpr hmem)
  · intro chunk hchunk chunk' hchunk'
    obtain ⟨part, hpart, hlength⟩ := hcounts chunk hchunk
    obtain ⟨part', hpart', hlength'⟩ := hcounts chunk' hchunk'
    have hsize := length_of_mem_segments hcount (hchunks ▸ hpart)
    have hsize' := length_of_mem_segments hcount (hchunks ▸ hpart')
    omega
  · intro id e i j chunk chunk' hedge hi hj hsource htarget
    obtain ⟨part, hpart, hsame⟩ := hget i chunk hi
    obtain ⟨part', hpart', hsame'⟩ := hget j chunk' hj
    by_contra hlt
    exact hpairs.of_getElem? (not_le.mp hlt) hpart hpart' _
      (hsame.mem_iff.mpr hsource) _ (hsame'.mem_iff.mpr htarget) ⟨id, e, hedge, rfl, rfl⟩

theorem areParts_chunkOf (model : ModelGraph L) (chunks : List (List NodeId)) :
    AreParts model [] chunks (chunks.map (chunkOf : List NodeId → ChunkedGraph O)) := by
  refine List.forall₂_map_right_iff.mpr (List.forall₂_same.mpr fun nodes _ => ?_)
  refine ⟨fun n => ?_, fun n x hn => ?_, fun n x hn => ?_, fun id e he => ?_⟩
  · rw [getElem?_chunkOf]
    split <;> simp_all
  · rw [getElem?_chunkOf] at hn
    split at hn <;> cases hn
  · rw [getElem?_chunkOf] at hn
    split at hn <;> cases hn
  · simp [chunkOf] at he

theorem nonempty_chunks {c : Nat} {nodes : List NodeId} (hc : 0 < c) (hle : c ≤ nodes.length) :
    ((segments c nodes).map (chunkOf : List NodeId → ChunkedGraph O)).all
      (fun chunk => decide (0 < chunk.innerNodesCount)) = true := by
  rw [List.all_eq_true]
  intro chunk hchunk
  obtain ⟨part, hpart, rfl⟩ := List.mem_map.mp hchunk
  have hpos : 0 < nodes.length / c := Nat.div_pos hle hc
  obtain ⟨n, hn⟩ : ∃ n, n ∈ part := by
    refine List.exists_mem_of_length_pos ?_
    have := length_of_mem_segments hc hpart
    omega
  rw [decide_eq_true_iff, ← Graph.length_innerNodes]
  have hinner : (chunkOf part : ChunkedGraph O).nodes[n]? = some (.inner .originalNode) := by
    rw [getElem?_chunkOf, if_pos hn]
  exact List.length_pos_of_mem (Graph.mem_innerNodes.mpr ⟨_, hinner⟩)

/-- All edges are added, unless one of them leads from an input to an output. -/
theorem foldlM_addEdgeToChunkSubgraphs (hmodel : model.IsRouted) {nodesMap : HashMap NodeId Nat}
    (hassigns : Assigns nodesMap chunks)
    (hchunks : ∀ n, n ∈ chunks.flatten ↔ ∃ layer, model.nodes[n]? = some (.inner layer))
    (hpass : ∀ (id : EdgeId) (e : Edge Unit) (i o : Nat), model.edges[id]? = some e →
      model.nodes[e.source]? = some (.input i) → model.nodes[e.target]? ≠ some (.output o))
    {rest : List (EdgeId × Edge Unit)} (hrest : added ++ rest = model.edges.toList)
    (hparts : AreParts model added chunks subgraphs) :
    ∃ subgraphs', rest.foldlM (addEdgeToChunkSubgraphs model nodesMap) subgraphs = .ok subgraphs' ∧
      AreParts model model.edges.toList chunks subgraphs' := by
  induction rest generalizing added subgraphs with
  | nil =>
    rw [List.append_nil] at hrest
    exact ⟨subgraphs, rfl, hrest ▸ hparts⟩
  | cons entry rest ih =>
    obtain ⟨id, e⟩ := entry
    have hentries (entry : EdgeId × Edge Unit) (hmem : entry ∈ added ++ (id, e) :: rest) :
        model.edges[entry.1]? = some entry.2 :=
      Std.ExtTreeMap.mem_toList_iff_getElem?_eq_some.mp (hrest ▸ hmem)
    have hkeys : ((added ++ (id, e) :: rest).map Prod.fst).Nodup := by
      rw [hrest, Std.ExtTreeMap.map_fst_toList_eq_keys]
      exact model.edges.nodup_keys
    have hnew : ∀ entry ∈ added, entry.1 ≠ id := by
      intro entry hentry hid
      rw [List.map_append, List.nodup_append] at hkeys
      exact hkeys.2.2 _ (List.mem_map_of_mem hentry) id (by simp) hid
    obtain ⟨subgraphs₁, hok, hparts₁⟩ := addEdgeToChunkSubgraphs_ok hmodel hassigns hchunks hparts
      (fun entry hentry => hentries entry (List.mem_append_left _ hentry))
      (hentries (id, e) (by simp)) hnew fun i o => hpass id e i o (hentries (id, e) (by simp))
    rw [List.foldlM_cons, hok, Outcome.ok_bind]
    exact ih (by rw [← hrest, List.append_assoc]; rfl) hparts₁

/-- Nodes are put into chunks only if they are inner nodes, so an output has no chunk. -/
theorem not_ok_of_pass {nodesMap : HashMap NodeId Nat} {id : EdgeId} {e : Edge Unit} {i o : Nat}
    (hassigns : Assigns nodesMap chunks)
    (hchunks : ∀ n, n ∈ chunks.flatten ↔ ∃ layer, model.nodes[n]? = some (.inner layer))
    (hsource : model.nodes[e.source]? = some (.input i))
    (htarget : model.nodes[e.target]? = some (.output o)) (subgraphs' : List (ChunkedGraph O)) :
    addEdgeToChunkSubgraphs model nodesMap subgraphs (id, e) ≠ .ok subgraphs' := by
  have hnone : nodesMap[e.target]? = none := by
    cases hmap : nodesMap[e.target]? with
    | none => rfl
    | some j =>
      obtain ⟨chunk, hchunk, hmem⟩ := (hassigns e.target j).mp hmap
      obtain ⟨layer, hinner⟩ := (hchunks e.target).mp
        (List.mem_flatten.mpr ⟨chunk, List.mem_of_getElem? hchunk, hmem⟩)
      rw [htarget] at hinner
      cases hinner
  simp only [addEdgeToChunkSubgraphs, hsource, htarget, okOr_some, Outcome.ok_bind]
  show addTargetEdge nodesMap id e (Node.input i : Node L Nat Nat) subgraphs ≠ .ok subgraphs'
  rw [addTargetEdge, hnone]
  exact fun h => nomatch h

/-- **When a model is split.** A model none of whose layers is worth splitting is split into balanced
    chunks if it has an edge, and none that leads from an input to an output. -/
theorem splits_iff {strategy : DefaultChunkingStrategy} {P : LayerSizes L}
    {splitHorizontally : List (NodeId × Nat) → Outcome (List (ChunkedGraph O))}
    (hmodel : model.IsRouted) (hn : 0 < model.innerNodesCount) (hm : 0 < numChunks)
    (hlayers : strategy.splittableLayers P model = .ok []) :
    (∃ subgraphs, strategy.split P splitHorizontally model numChunks = .ok subgraphs ∧
      IsBalanced model numChunks subgraphs) ↔
      (∃ id : EdgeId, id ∈ model.edges) ∧
        ∀ (id : EdgeId) (e : Edge Unit) (i o : Nat), model.edges[id]? = some e →
          model.nodes[e.source]? = some (.input i) → model.nodes[e.target]? ≠ some (.output o) := by
  have hsplit : strategy.split P splitHorizontally model numChunks =
      splitVertically model numChunks := by
    unfold DefaultChunkingStrategy.split
    split
    · rw [hlayers]
      rfl
    · rfl
  obtain ⟨c, hc⟩ : ∃ c, c = min numChunks model.innerNodesCount := ⟨_, rfl⟩
  have hlength := Graph.length_backwardInners hmodel.acyclic
  have hnum : (if model.innerNodesCount < numChunks then model.innerNodesCount else numChunks) = c := by
    rw [hc]
    split <;> omega
  obtain ⟨nodesMap, hfold, hassigns⟩ := @foldlM_placeNode _ _ _ O c model.backwardInners [] ∅
    (by omega) (fun h0 => by omega) (by simpa using Graph.nodup_backwardInners)
    (fun n i => by simp)
  rw [List.nil_append] at hfold hassigns
  have hchunks (n : NodeId) : n ∈ (segments c model.backwardInners).flatten ↔
      ∃ layer, model.nodes[n]? = some (.inner layer) := by
    rw [flatten_segments (by omega), Graph.mem_backwardInners hmodel.acyclic]
  have hparts := areParts_chunkOf (O := O) model (segments c model.backwardInners)
  have hvertical (hedge : ∃ id : EdgeId, id ∈ model.edges) :
      splitVertically (O := O) model numChunks =
        model.edges.toList.foldlM (addEdgeToChunkSubgraphs model nodesMap)
          ((segments c model.backwardInners).map chunkOf) := by
    obtain ⟨id, hid⟩ := hedge
    obtain ⟨last, hmax⟩ : ∃ last, model.edges.keys.max? = some last := by
      cases hmax : model.edges.keys.max? with
      | none =>
        have hmem := Std.ExtTreeMap.mem_keys.mpr hid
        rw [List.max?_eq_none_iff.mp hmax] at hmem
        cases hmem
      | some last => exact ⟨last, rfl⟩
    have hcn : decide (c ≤ model.innerNodesCount) = true := decide_eq_true (by omega)
    unfold splitVertically
    dsimp only
    rw [hnum, hcn, ensure_true, Outcome.ok_bind, hmax, unwrap_some, Outcome.ok_bind]
    rw [hlength] at hfold
    refine (congrArg (· >>= _) hfold).trans ?_
    rw [Outcome.ok_bind, nonempty_chunks (by omega) (hlength ▸ hc ▸ Nat.min_le_right _ _),
      ensure_true, Outcome.ok_bind]
  rw [hsplit]
  constructor
  · rintro ⟨subgraphs', hok, -⟩
    have hedge : ∃ id : EdgeId, id ∈ model.edges := by
      by_contra hnone
      have hkeys : model.edges.keys = [] := List.eq_nil_iff_forall_not_mem.mpr fun id hid =>
        hnone ⟨id, Std.ExtTreeMap.mem_keys.mp hid⟩
      obtain ⟨_, _, hok⟩ := Outcome.bind_eq_ok.mp hok
      rw [hkeys] at hok
      cases hok
    refine ⟨hedge, fun id e i o he hsource htarget => ?_⟩
    rw [hvertical hedge] at hok
    -- the step for this edge would have returned as well
    have hsteps : ∀ entry ∈ model.edges.toList,
        ∃ s s', addEdgeToChunkSubgraphs (O := O) model nodesMap s entry = .ok s' := by
      refine Outcome.foldlM_induction (motive := fun pre _ => ∀ entry ∈ pre,
        ∃ s s', addEdgeToChunkSubgraphs (O := O) model nodesMap s entry = .ok s') hok (by simp) ?_
      intro pre a post s₁ s₂ _ hpre hstep entry hentry
      rcases List.mem_append.mp hentry with hmem | hmem
      · exact hpre entry hmem
      · rw [List.mem_singleton.mp hmem]
        exact ⟨s₁, s₂, hstep⟩
    obtain ⟨s, s', hstep⟩ := hsteps (id, e) (Std.ExtTreeMap.mem_toList_iff_getElem?_eq_some.mpr he)
    exact not_ok_of_pass hassigns hchunks hsource htarget s' hstep
  · rintro ⟨hedge, hpass⟩
    obtain ⟨subgraphs', hok, hparts'⟩ := foldlM_addEdgeToChunkSubgraphs hmodel hassigns hchunks
      hpass (List.nil_append _) hparts
    exact ⟨subgraphs', (hvertical hedge).trans hok,
      isBalanced_of_segments hmodel hm hn (by rw [hc]) hparts'⟩

end Split

/-! ## Two models -/

/-- An edge from an input or inner node to an inner node or output. -/
def Graph.routes (model : ModelGraph L) (e : Edge Unit) : Bool :=
  match model.nodes[e.source]?, model.nodes[e.target]? with
  | some source, some target => source.asOutput.isNone && target.asInput.isNone
  | _, _ => false

theorem Graph.isRouted_of_edges {model : ModelGraph L} (hacyclic : Dag.Acyclic model.Pred)
    (hroutes : ∀ entry ∈ model.edges.toList, model.routes entry.2 = true)
    (hfed : ∀ entry ∈ model.edges.toList, ∀ entry' ∈ model.edges.toList,
      entry'.2.target = entry.2.target → (model.nodes[entry.2.target]?.bind Node.asOutput).isSome →
        entry.1 = entry'.1) : model.IsRouted := by
  have hedge (id : EdgeId) (e : Edge Unit) (he : model.edges[id]? = some e) :
      (id, e) ∈ model.edges.toList := Std.ExtTreeMap.mem_toList_iff_getElem?_eq_some.mpr he
  refine ⟨hacyclic, fun id e he => ?_, fun id e i he hi => ?_, fun id e o he ho => ?_,
    fun id id' e e' o he he' ho hsame => ?_⟩
  · have hroute := hroutes _ (hedge id e he)
    unfold routes at hroute
    rw [Std.ExtTreeMap.mem_iff_isSome_getElem?, Std.ExtTreeMap.mem_iff_isSome_getElem?]
    split at hroute
    · rename_i hs ht
      rw [hs, ht]
      exact ⟨rfl, rfl⟩
    · cases hroute
  · have hroute := hroutes _ (hedge id e he)
    unfold routes at hroute
    rw [hi] at hroute
    split at hroute
    · rename_i ht
      obtain rfl := Option.some.inj ht
      simp [Node.asInput] at hroute
    · cases hroute
  · have hroute := hroutes _ (hedge id e he)
    unfold routes at hroute
    rw [ho] at hroute
    split at hroute
    · rename_i hs _
      obtain rfl := Option.some.inj hs
      simp [Node.asOutput] at hroute
    · cases hroute
  · exact hfed _ (hedge id e he) _ (hedge id' e' he') hsame (by rw [ho]; rfl)

/-- Layers that keep shapes and are never split. -/
def plainSizes : LayerSizes Nat := ⟨fun _ shapes => .ok shapes, fun _ _ => none⟩

/-- Three layers behind one another. -/
def threeLayers : ModelGraph Nat where
  nodes := .ofList [(0, .input 0), (1, .inner 1), (2, .inner 2), (3, .inner 3), (4, .output 0)]
    compare
  edges := .ofList [(0, ⟨0, 1, [⟨0, 0⟩], none⟩), (1, ⟨1, 2, [⟨0, 0⟩], none⟩),
    (2, ⟨2, 3, [⟨0, 0⟩], none⟩), (3, ⟨3, 4, [⟨0, 0⟩], none⟩)] compare

theorem isRouted_threeLayers : threeLayers.IsRouted :=
  Graph.isRouted_of_edges (Graph.acyclic_of_edges (by decide)) (by decide) (by decide)

theorem splits_threeLayers : ∃ subgraphs, (⟨[[4]]⟩ : DefaultChunkingStrategy).split plainSizes
      (fun _ => .ok []) threeLayers 2 = .ok subgraphs ∧
    IsBalanced (O := ChunkVerifier.additions fun _ => 0) threeLayers 2 subgraphs := by
  refine (splits_iff isRouted_threeLayers (by decide) (by decide) rfl).mpr
    ⟨⟨0, by decide⟩, fun id e i o he hsource => ?_⟩
  have hall : ∀ entry ∈ threeLayers.edges.toList,
      (threeLayers.nodes[entry.2.source]?.bind Node.asInput).isSome →
        (threeLayers.nodes[entry.2.target]?.bind Node.asOutput).isNone := by decide
  have hnone := hall (id, e) (Std.ExtTreeMap.mem_toList_iff_getElem?_eq_some.mpr he)
    (by rw [hsource]; rfl)
  intro htarget
  rw [htarget] at hnone
  cases hnone

/-- One layer, and an output that is an input. -/
def passThrough : ModelGraph Nat where
  nodes := .ofList [(0, .input 0), (1, .inner 1), (2, .output 0), (3, .output 1)] compare
  edges := .ofList [(0, ⟨0, 1, [⟨0, 0⟩], none⟩), (1, ⟨1, 2, [⟨0, 0⟩], none⟩),
    (2, ⟨0, 3, [⟨0, 0⟩], none⟩)] compare

/-- An output has no chunk of its own, so an edge from an input to it cannot be placed. -/
theorem not_splits_passThrough : passThrough.IsRouted ∧ 0 < passThrough.innerNodesCount ∧
    (⟨[[4]]⟩ : DefaultChunkingStrategy).splittableLayers plainSizes passThrough = .ok [] ∧
    ¬ ∃ subgraphs, (⟨[[4]]⟩ : DefaultChunkingStrategy).split plainSizes (fun _ => .ok [])
        passThrough 1 = .ok subgraphs ∧
      IsBalanced (O := ChunkVerifier.additions fun _ => 0) passThrough 1 subgraphs := by
  refine ⟨Graph.isRouted_of_edges (Graph.acyclic_of_edges (by decide)) (by decide) (by decide),
    by decide, rfl, ?_⟩
  rintro ⟨subgraphs, hok, -⟩
  have hnone : ((⟨[[4]]⟩ : DefaultChunkingStrategy).split (O := ChunkVerifier.additions fun _ => 0)
      plainSizes (fun _ => .ok []) passThrough 1).toOption.isNone := rfl
  rw [hok] at hnone
  cases hnone

end DeepProve
