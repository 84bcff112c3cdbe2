import DeepProve.Iop.CheckChunking
import DeepProve.Iop.MergeBinding

/-!
# When the check of the chunks returns

The verifier computes the shapes of the chunks it is sent, and then checks that they are the chunks
of the model. Not all of what these computations rely on has been checked before: the visit of the
chunks may never end, and the nodes, the edges and the layers between pieces are those of the prover.
-/

namespace DeepProve

variable {F C : Type} {D : DpCrypto F} {O : OtherLayers D C}

/-! ## Layers between pieces -/

theorem ShapeLayers.settles_numPieces {L : ShapeLayers O} {kind : PieceLayer} {ctx : O.Ctx} :
    (L.numPieces kind ctx).Settles ↔ L.numChunks ctx ≠ [] := by
  rw [numPieces, Outcome.settles_bind]
  cases hchunks : L.numChunks ctx with
  | nil => simp [allEqual]
  | cons x xs => simp

theorem settles_blockPorts {numPieces : Nat} {ports : List (PortId × PortId)} :
    (blockPorts numPieces ports).Settles ↔ (numPieces = 0 → ports = []) := by
  rw [blockPorts, Outcome.settles_foldlM]
  constructor
  · intro hall hzero
    cases ports with
    | nil => rfl
    | cons port ports =>
      have hfirst := hall [] port ports ∅ rfl rfl
      dsimp only at hfirst
      rw [if_pos hzero] at hfirst
      exact absurd hfirst (Outcome.not_settles_panic _)
  · intro hports before port after blocks hsplit _
    have hpos : numPieces ≠ 0 := by
      intro hzero
      rw [hports hzero] at hsplit
      simp at hsplit
    dsimp only
    rw [if_neg hpos]
    exact Outcome.settles_ok _

namespace ChunkIndex

variable (K : ChunkIndex O)

/-- The nodes of the index are found in the chunks they are said to be in. -/
def Covers : Prop :=
  ∀ (node : NodeId) (chunkId : ChunkId), K.chunkForNode[node]? = some chunkId →
    ∃ (chunk : GraphChunk O) (n : ChunkNode O), K.chunks[chunkId]? = some chunk ∧
      chunk.subgraph.nodes[node]? = some n

/-- The chunk and the node that are looked up for an identifier. -/
def NodeAt (node : NodeId) (chunk : GraphChunk O) (n : ChunkNode O) : Prop :=
  ∃ chunkId, K.chunkForNode[node]? = some chunkId ∧ K.chunks[chunkId]? = some chunk ∧
    chunk.subgraph.nodes[node]? = some n

/-- What is found under an identifier is an inner node. -/
def InnerAt (node : NodeId) : Prop :=
  ∀ chunk n, K.NodeAt node chunk n → n.isInner = true

variable {K}

theorem settles_pieceLayer (hK : K.Covers) {kind : PieceLayer} {node : NodeId}
    {reported : ChunkId → ChunkId} :
    (K.pieceLayer kind node reported).Settles ↔ K.InnerAt node := by
  unfold pieceLayer
  cases hchunkId : K.chunkForNode[node]? with
  | none =>
    refine iff_of_true (Outcome.settles_err _) ?_
    rintro chunk n ⟨_, hget, _⟩
    rw [hchunkId] at hget
    cases hget
  | some chunkId =>
    obtain ⟨chunk, n, hchunk, hn⟩ := hK node chunkId hchunkId
    simp only [okOr_some, Outcome.ok_bind, hchunk, unwrap_some, hn, Outcome.settles_bind,
      Outcome.settles_unwrap, Outcome.settles_okOr, Outcome.settles_ok, implies_true, and_true]
    have hinner : (∃ inner, n.asInner = some inner) ↔ n.isInner = true := by
      cases n <;> simp [Node.asInner, Node.isInner]
    rw [hinner]
    constructor
    · rintro h chunk' n' ⟨chunkId', hchunkId', hchunk', hn'⟩
      obtain rfl := Option.some.inj (hchunkId.symm.trans hchunkId')
      obtain rfl := Option.some.inj (hchunk.symm.trans hchunk')
      obtain rfl := Option.some.inj (hn.symm.trans hn')
      exact h
    · exact fun h => h chunk n ⟨chunkId, hchunkId, hchunk, hn⟩

theorem pieceLayer_eq_ok {kind : PieceLayer} {node : NodeId} {reported : ChunkId → ChunkId}
    {chunk : GraphChunk O} {ctx : O.Ctx} :
    K.pieceLayer kind node reported = .ok (chunk, ctx) ↔
      ∃ n inner, K.NodeAt node chunk n ∧ n.asInner = some inner ∧ kind.ctxOf inner = some ctx := by
  simp only [pieceLayer, Outcome.bind_eq_ok, okOr_eq_ok, unwrap_eq_ok, Except.ok.injEq,
    Prod.mk.injEq]
  constructor
  · rintro ⟨chunkId, hchunkId, _, hchunk, n, hn, inner, hinner, _, hctx, rfl, rfl⟩
    exact ⟨n, inner, ⟨chunkId, hchunkId, hchunk, hn⟩, hinner, hctx⟩
  · rintro ⟨n, inner, ⟨chunkId, hchunkId, hchunk, hn⟩, hinner, hctx⟩
    exact ⟨chunkId, hchunkId, chunk, hchunk, n, hn, inner, hinner, ctx, hctx, rfl, rfl⟩

theorem settles_endNode (hK : K.Covers) (nodeId : NodeId) (node : ChunkNode O) (n : NodeId) :
    (K.endNode nodeId node n).Settles := by
  unfold endNode
  split
  · exact Outcome.settles_ok _
  · rw [Outcome.settles_bind]
    refine ⟨Outcome.settles_okOr _ _, fun chunkId hchunkId => ?_⟩
    obtain ⟨chunk, n, hchunk, -⟩ := hK _ chunkId (okOr_eq_ok.mp hchunkId)
    rw [hchunk, unwrap_some, Outcome.ok_bind]
    exact Outcome.settles_okOr _ _

theorem settles_pieceOrigin (kind : PieceLayer) (node : NodeId) (chunkId : ChunkId)
    (feeds : List (PortId × NodeId)) (selected : PortId → Bool) :
    (K.pieceOrigin kind node chunkId feeds selected).Settles := by
  rw [pieceOrigin, Outcome.settles_bind]
  refine ⟨Outcome.settles_foldlM.mpr fun _ entry _ original _ _ => ?_,
    fun _ _ => Outcome.settles_okOr _ _⟩
  obtain ⟨port, chunkedNode⟩ := entry
  dsimp only
  split
  · simp only [Outcome.settles_bind, Outcome.settles_okOr, Outcome.settles_ensure,
      Outcome.settles_ok, implies_true, and_self]
  · exact Outcome.settles_ok _

end ChunkIndex

/-! ## One edge -/

namespace ModelCtx

variable (M : ModelCtx O) (L : ShapeLayers O) (H : HashOrder) (K : ChunkIndex O)

/-- The layer of the given kind that the index finds under an identifier. -/
def LayerAt (kind : PieceLayer) (node : NodeId) (ctx : O.Ctx) : Prop :=
  ∃ chunk n inner, K.NodeAt node chunk n ∧ n.asInner = some inner ∧ kind.ctxOf inner = some ctx

/-- The layer between pieces can be asked for the number of pieces. -/
def HasPieces (kind : PieceLayer) (node : NodeId) : Prop :=
  K.InnerAt node ∧ ∀ ctx, LayerAt K kind node ctx → L.numChunks ctx ≠ []

/-- The links of an edge can be divided among the pieces. -/
def Divides (kind : PieceLayer) (node : NodeId) (ports : Ports) : Prop :=
  HasPieces L K kind node ∧ ∀ ctx, LayerAt K kind node ctx → L.numPieces kind ctx = .ok 0 →
    ports = []

/-- The node of an output can be looked up. -/
def HasOutput (outId : Nat) : Prop :=
  ∃ outputNodeIds, (M.nodes.outputNodeIds = .ok outputNodeIds) ∧ outId < outputNodeIds.length

/-- What an edge of a node needs so that it can be traced back. -/
def Traceable (nodeId : NodeId) (node : ChunkNode O) (edge : Edge Unit) : Prop :=
  if M.nodes.nodes.contains edge.source && M.nodes.nodes.contains edge.target then
    True
  else if M.nodes.nodes.contains edge.source then
    edge.target ∈ K.splitLayers → HasPieces L K .split edge.target
  else if M.nodes.nodes.contains edge.target then
    edge.source ∈ K.recombinationLayers → HasPieces L K .recombination edge.source
  else
    ∀ sourceNode targetNode, K.endNode nodeId node edge.source = .ok sourceNode →
      K.endNode nodeId node edge.target = .ok targetNode →
      match pieceOf sourceNode, pieceOf targetNode with
      | some _, some _ => True
      | some _, none =>
        if edge.target ∈ K.recombinationLayers then Divides L K .recombination edge.target edge.ports
        else ∀ io, targetNode.asOutput = some (.chunked io) → M.HasOutput io.ioId
      | none, some _ =>
        edge.source ∈ K.splitLayers → Divides L K .split edge.source edge.ports
      | none, none => True

variable {M L H K} (hK : K.Covers)

theorem settles_findEdge (newEdge : Edge Unit) (what : String) :
    (M.findEdge newEdge what).Settles := Outcome.settles_okOr _ _

theorem settles_findEdgeBetween (source target : NodeId) (edge : Edge Unit) :
    (M.findEdgeBetween source target edge).Settles := settles_findEdge _ _

theorem settles_linksThrough (kind : PieceLayer) (node : NodeId) (blocks : HashMap PortId PortId)
    (feeds : List (PortId × NodeId × (PortId → PortLink))) :
    (M.linksThrough kind node blocks feeds).Settles := by
  refine Outcome.settles_foldlM.mpr fun _ entry _ links _ _ => ?_
  obtain ⟨port, farNode, link⟩ := entry
  dsimp only
  split
  · exact Outcome.settles_ok _
  · simp only [Outcome.settles_bind, Outcome.settles_ensure, Outcome.settles_ok, implies_true,
      and_self]

theorem settles_outputs {α : Type} {f : α → Outcome (EdgeId × Edge Unit)} (l : List α)
    (hf : ∀ a, (f a).Settles) : (l.mapM f).Settles :=
  Outcome.settles_mapM.mpr fun _ a _ _ _ _ => hf a

/-- An output that has no place among the outputs is never reported as an error. -/
theorem outputNodeIds_ne_err {N I W : Type} (g : Graph N I Nat W) (msg : String) :
    g.outputNodeIds ≠ .error (.err msg) := by
  have hgen : ∀ (outputNodes : List (NodeId × Nat)) (r : List NodeId),
      outputNodes.foldlM (fun (r : List NodeId) (x : NodeId × Nat) =>
        (if x.2 < r.length then .ok (r.set x.2 x.1)
        else .error (.panic "index out of bounds") : Outcome (List NodeId))) r ≠
      .error (.err msg) := by
    intro outputNodes
    induction outputNodes with
    | nil => exact fun r => nofun
    | cons output outputNodes ih =>
      intro r
      rw [List.foldlM_cons]
      split
      · exact ih _
      · exact nofun
  exact hgen _ _

/-- The node of an output is looked up. -/
theorem hasOutput_iff {outId : Nat} : M.HasOutput outId ↔
    M.nodes.outputNodeIds.Settles ∧ ∀ outputNodeIds, M.nodes.outputNodeIds = .ok outputNodeIds →
      ∃ nodeId, outputNodeIds[outId]? = some nodeId := by
  have hindex : ∀ l : List NodeId, (∃ nodeId, l[outId]? = some nodeId) ↔ outId < l.length := by
    intro l
    rw [← Option.isSome_iff_exists, isSome_getElem?]
  simp only [hindex]
  constructor
  · rintro ⟨outputNodeIds, hids, hlt⟩
    refine ⟨.inl ⟨outputNodeIds, hids⟩, fun ids hids' => ?_⟩
    rwa [← Except.ok.inj (hids.symm.trans hids')]
  · rintro ⟨hids | ⟨msg, herr⟩, hlt⟩
    · obtain ⟨outputNodeIds, hids⟩ := hids
      exact ⟨outputNodeIds, hids, hlt outputNodeIds hids⟩
    · exact absurd herr (outputNodeIds_ne_err M.nodes msg)

include hK

/-- The layer between pieces is looked up and asked for the number of pieces. -/
theorem hasPieces_iff {kind : PieceLayer} {node : NodeId} (reported : ChunkId → ChunkId) :
    HasPieces L K kind node ↔ (K.pieceLayer kind node reported).Settles ∧
      ∀ chunk ctx, K.pieceLayer kind node reported = .ok (chunk, ctx) → L.numChunks ctx ≠ [] := by
  rw [HasPieces, ChunkIndex.settles_pieceLayer hK]
  refine and_congr_right fun _ => ⟨fun h chunk ctx hlayer => ?_, fun h ctx hlayer => ?_⟩
  · obtain ⟨n, inner, hnode, hinner, hctx⟩ := ChunkIndex.pieceLayer_eq_ok.mp hlayer
    exact h ctx ⟨chunk, n, inner, hnode, hinner, hctx⟩
  · obtain ⟨chunk, n, inner, hnode, hinner, hctx⟩ := hlayer
    exact h chunk ctx (ChunkIndex.pieceLayer_eq_ok.mpr ⟨n, inner, hnode, hinner, hctx⟩)

theorem divides_iff {kind : PieceLayer} {node : NodeId} {ports : Ports}
    (reported : ChunkId → ChunkId) :
    Divides L K kind node ports ↔ (K.pieceLayer kind node reported).Settles ∧
      ∀ chunk ctx, K.pieceLayer kind node reported = .ok (chunk, ctx) →
        L.numChunks ctx ≠ [] ∧ ∀ n, L.numPieces kind ctx = .ok n → n = 0 → ports = [] := by
  rw [Divides, hasPieces_iff hK reported, and_assoc]
  refine and_congr_right fun _ => ?_
  constructor
  · rintro ⟨hpieces, hports⟩ chunk ctx hlayer
    refine ⟨hpieces chunk ctx hlayer, ?_⟩
    rintro _ hn rfl
    obtain ⟨n, inner, hnode, hinner, hctx⟩ := ChunkIndex.pieceLayer_eq_ok.mp hlayer
    exact hports ctx ⟨chunk, n, inner, hnode, hinner, hctx⟩ hn
  · intro h
    refine ⟨fun chunk ctx hlayer => (h chunk ctx hlayer).1, ?_⟩
    rintro ctx ⟨chunk, n, inner, hnode, hinner, hctx⟩ hn
    exact (h chunk ctx (ChunkIndex.pieceLayer_eq_ok.mpr ⟨n, inner, hnode, hinner, hctx⟩)).2 0 hn rfl

variable {edge : Edge Unit}

theorem settles_edgeToSplit {chunkId : ChunkId} :
    (M.edgeToSplit L K chunkId edge).Settles ↔
      (edge.target ∈ K.splitLayers → HasPieces L K .split edge.target) := by
  unfold edgeToSplit
  by_cases hsplit : edge.target ∈ K.splitLayers
  · rw [hasPieces_iff hK fun _ => chunkId]
    simp only [hsplit, decide_true, ensure_true, Outcome.ok_bind, forall_true_left,
      Outcome.settles_bind, Prod.forall, ShapeLayers.settles_numPieces,
      ChunkIndex.settles_pieceOrigin, settles_findEdgeBetween, Outcome.settles_ok, implies_true,
      and_true]
  · simp only [hsplit, decide_false, ensure_false, Outcome.error_bind, Outcome.settles_err,
      false_implies]

theorem settles_edgeFromRecombination :
    (M.edgeFromRecombination L K edge).Settles ↔
      (edge.source ∈ K.recombinationLayers → HasPieces L K .recombination edge.source) := by
  unfold edgeFromRecombination
  by_cases hrec : edge.source ∈ K.recombinationLayers
  · rw [hasPieces_iff hK id]
    simp only [hrec, decide_true, ensure_true, Outcome.ok_bind, forall_true_left,
      Outcome.settles_bind, Prod.forall, ShapeLayers.settles_numPieces,
      ChunkIndex.settles_pieceOrigin, settles_findEdgeBetween, Outcome.settles_ok, implies_true,
      and_true]
  · simp only [hrec, decide_false, ensure_false, Outcome.error_bind, Outcome.settles_err,
      false_implies]

theorem settles_edgeFromPiece {originalSource : NodeId} {targetNode : ChunkNode O} :
    (M.edgeFromPiece L H K edge originalSource targetNode).Settles ↔
      if edge.target ∈ K.recombinationLayers then Divides L K .recombination edge.target edge.ports
      else ∀ io, targetNode.asOutput = some (.chunked io) → M.HasOutput io.ioId := by
  unfold edgeFromPiece
  split
  · rw [divides_iff hK id]
    simp only [Outcome.settles_bind, Prod.forall, ShapeLayers.settles_numPieces, settles_blockPorts,
      settles_linksThrough, settles_outputs _ fun _ => settles_findEdge _ _, implies_true, and_true,
      List.map_eq_nil_iff]
  · cases hout : targetNode.asOutput with
    | none => simp
    | some outNode =>
      cases outNode with
      | originalNode outId => simp
      | chunked io =>
        simp only [okOr_some, Outcome.ok_bind, Outcome.settles_bind, Outcome.settles_unwrap,
          settles_findEdgeBetween, Outcome.settles_ok, implies_true, and_true, Option.some.injEq,
          ChunkedIoNode.chunked.injEq, forall_eq', hasOutput_iff]

theorem settles_edgeToPiece {originalTarget : NodeId} {sourceNode : ChunkNode O} :
    (M.edgeToPiece L H K edge originalTarget sourceNode).Settles ↔
      (edge.source ∈ K.splitLayers → Divides L K .split edge.source edge.ports) := by
  unfold edgeToPiece
  by_cases hsplit : edge.source ∈ K.splitLayers
  · rw [if_pos hsplit, divides_iff hK id]
    simp only [Outcome.settles_bind, Prod.forall, ShapeLayers.settles_numPieces, settles_blockPorts,
      settles_linksThrough, settles_outputs _ fun _ => settles_findEdge _ _, implies_true, and_true,
      List.map_eq_nil_iff, hsplit, forall_true_left]
  · rw [if_neg hsplit]
    refine iff_of_true (Outcome.settles_bind.mpr ⟨Outcome.settles_okOr _ _, fun inNode _ => ?_⟩)
      fun h => absurd h hsplit
    cases inNode with
    | originalNode inId => exact Outcome.settles_err _
    | chunked io =>
      have hinput : (M.nodes.inputNodeId io.ioId).Settles := Outcome.settles_okOr _ _
      simp only [Outcome.settles_bind, hinput, settles_findEdgeBetween, Outcome.settles_ok,
        implies_true, and_self]

/-- Tracing back an edge returns exactly if the edge is traceable. -/
theorem settles_originalEdges {chunkId : ChunkId} {nodeId : NodeId} {node : ChunkNode O}
    {entry : EdgeId × Edge Unit} :
    (M.originalEdges L H K chunkId nodeId node entry).Settles ↔
      M.Traceable L K nodeId node entry.2 := by
  obtain ⟨edgeId, edge⟩ := entry
  unfold originalEdges Traceable
  dsimp only
  split
  · exact iff_of_true (Outcome.settles_ok _) trivial
  · split
    · exact settles_edgeToSplit hK
    · split
      · exact settles_edgeFromRecombination hK
      · simp only [Outcome.settles_bind, ChunkIndex.settles_endNode hK, true_and]
        refine ⟨fun h sourceNode targetNode hsource htarget => ?_,
          fun h sourceNode hsource targetNode htarget => ?_⟩
        · have htraced := h sourceNode hsource targetNode htarget
          revert htraced
          cases pieceOf sourceNode <;> cases pieceOf targetNode
          · exact fun _ => trivial
          · exact (settles_edgeToPiece hK).mp
          · exact (settles_edgeFromPiece hK).mp
          · exact fun _ => trivial
        · have htraceable := h sourceNode targetNode hsource htarget
          revert htraceable
          cases pieceOf sourceNode <;> cases pieceOf targetNode
          · exact fun _ => Outcome.settles_ok _
          · exact (settles_edgeToPiece hK).mpr
          · exact (settles_edgeFromPiece hK).mpr
          · exact fun _ => Outcome.settles_bind.mpr
              ⟨settles_findEdgeBetween _ _ _, fun _ _ => Outcome.settles_ok _⟩

omit hK

/-! ## All edges -/

/-- The check comes to an edge of a node of a chunk. -/
def EdgeReached (M : ModelCtx O) (L : ShapeLayers O) (H : HashOrder) (K : ChunkIndex O)
    (chunk : GraphChunk O) (entry : NodeId × ChunkNode O) (edge : EdgeId × Edge Unit) : Prop :=
  ∃ before after nodesBefore nodesAfter edgesBefore edgesAfter found foundInChunk foundForNode,
    K.chunks.values = before ++ chunk :: after ∧
    before.foldlM (M.checkChunkEdges L H K) ∅ = .ok found ∧
    chunk.subgraph.nodes.toList = nodesBefore ++ entry :: nodesAfter ∧
    nodesBefore.foldlM (M.checkNodeEdges L H K chunk) found = .ok foundInChunk ∧
    chunk.subgraph.neighbors entry.1 .any = edgesBefore ++ edge :: edgesAfter ∧
    edgesBefore.foldlM (M.traceEdge L H K chunk.chunkId entry) ∅ = .ok foundForNode

include hK in
theorem settles_checkNodeEdges {chunk : GraphChunk O} {graphEdges : BTreeMap EdgeId (Edge Unit)}
    {entry : NodeId × ChunkNode O} :
    (M.checkNodeEdges L H K chunk graphEdges entry).Settles ↔
      ∀ edgesBefore edge edgesAfter found,
        chunk.subgraph.neighbors entry.1 .any = edgesBefore ++ edge :: edgesAfter →
        edgesBefore.foldlM (M.traceEdge L H K chunk.chunkId entry) ∅ = .ok found →
        M.Traceable L K entry.1 entry.2 edge.2 := by
  have hedge : ∀ found edge, (M.traceEdge L H K chunk.chunkId entry found edge).Settles ↔
      M.Traceable L K entry.1 entry.2 edge.2 := by
    intro found edge
    rw [traceEdge, Outcome.settles_bind, settles_originalEdges hK]
    exact and_iff_left fun _ _ => Outcome.settles_ok _
  rw [checkNodeEdges, Outcome.settles_bind, Outcome.settles_foldlM]
  simp only [hedge]
  refine and_iff_left fun graphEdgesForNode _ => ?_
  split
  · exact Outcome.settles_ok _
  · exact Outcome.settles_bind.mpr
      ⟨Outcome.settles_ensure _ _, fun _ _ => Outcome.settles_ok _⟩

include hK in
theorem settles_graphEdges :
    (M.graphEdges L H K).Settles ↔ ∀ chunk entry edge, M.EdgeReached L H K chunk entry edge →
      M.Traceable L K entry.1 entry.2 edge.2 := by
  have hchunk : ∀ found chunk, (M.checkChunkEdges L H K found chunk).Settles ↔
      ∀ nodesBefore entry nodesAfter foundInChunk,
        chunk.subgraph.nodes.toList = nodesBefore ++ entry :: nodesAfter →
        nodesBefore.foldlM (M.checkNodeEdges L H K chunk) found = .ok foundInChunk →
        (M.checkNodeEdges L H K chunk foundInChunk entry).Settles :=
    fun _ _ => Outcome.settles_foldlM
  rw [graphEdges, Outcome.settles_foldlM]
  simp only [hchunk, settles_checkNodeEdges hK]
  constructor
  · rintro h chunk entry edge ⟨before, after, nodesBefore, nodesAfter, edgesBefore, edgesAfter,
      found, foundInChunk, foundForNode, hchunks, hfound, hnodes, hfoundInChunk, hedges, hfoundForNode⟩
    exact h before chunk after found hchunks hfound nodesBefore entry nodesAfter foundInChunk hnodes
      hfoundInChunk edgesBefore edge edgesAfter foundForNode hedges hfoundForNode
  · intro h before chunk after found hchunks hfound nodesBefore entry nodesAfter foundInChunk hnodes
      hfoundInChunk edgesBefore edge edgesAfter foundForNode hedges hfoundForNode
    exact h chunk entry edge ⟨before, after, nodesBefore, nodesAfter, edgesBefore, edgesAfter, found,
      foundInChunk, foundForNode, hchunks, hfound, hnodes, hfoundInChunk, hedges, hfoundForNode⟩

/-- `zip_eq` panics if one of the lists ends before the other, and they agree up to there. -/
theorem settles_zipEdges {edges originalEdges : List (EdgeId × Edge Unit)} :
    (zipEdges edges originalEdges).Settles ↔
      ((edges <+: originalEdges ∨ originalEdges <+: edges) → edges = originalEdges) := by
  induction edges generalizing originalEdges with
  | nil => cases originalEdges <;> simp [zipEdges]
  | cons edge edges ih =>
    cases originalEdges with
    | nil => simp [zipEdges]
    | cons originalEdge originalEdges =>
      have hfirst : (zipEdges (edge :: edges) (originalEdge :: originalEdges)).Settles ↔
          (edge = originalEdge → (zipEdges edges originalEdges).Settles) := by
        simp only [zipEdges, Outcome.settles_bind, Outcome.settles_ensure, true_and, ensure_eq_ok,
          beq_iff_eq, Prod.ext_iff, and_imp, forall_const]
      rw [hfirst, ih, List.cons_prefix_cons, List.cons_prefix_cons, List.cons.injEq]
      by_cases hsame : edge = originalEdge
      · simp [hsame]
      · simp [hsame, Ne.symm hsame]

/-! ## The pieces -/

/-- The check comes to a piece of a node of the model. -/
def PieceReached (M : ModelCtx O) (H : HashOrder) (chunks : BTreeMap ChunkId (GraphChunk O))
    (chunk : GraphChunk O) (newNode : NodeId) : Prop :=
  ∃ before after entriesBefore entry entriesAfter nodesBefore nodesAfter map₁ map₂ map₃,
    chunks.values = before ++ chunk :: after ∧
    before.foldlM (M.checkReplacedNodes H) ∅ = .ok map₁ ∧
    H.entries chunk.replacedNodes = entriesBefore ++ entry :: entriesAfter ∧
    entriesBefore.foldlM (M.checkPieces chunk) map₁ = .ok map₂ ∧
    entry.2 = nodesBefore ++ newNode :: nodesAfter ∧
    nodesBefore.foldlM (M.checkReplacedNode chunk entry.1) map₂ = .ok map₃

theorem settles_checkReplacedNode {chunk : GraphChunk O} {originalNode newNode : NodeId}
    {map : HashMap NodeId NodeId} :
    (M.checkReplacedNode chunk originalNode map newNode).Settles ↔
      ∀ io, chunk.subgraph.nodes[newNode]? = some (.output (.chunked io)) → M.HasOutput io.ioId := by
  unfold checkReplacedNode
  cases hnode : chunk.subgraph.nodes[newNode]? with
  | none => simp
  | some node =>
    rw [okOr_some, Outcome.ok_bind]
    cases node with
    | inner inner => simp [Outcome.settles_bind]
    | input io =>
      cases io with
      | originalNode inId => simp
      | chunked io =>
        have hinput : (M.nodes.inputNodeId io.ioId).Settles := Outcome.settles_okOr _ _
        simp [Outcome.settles_bind, hinput]
    | output io =>
      cases io with
      | originalNode outId => simp
      | chunked io => simp [Outcome.settles_bind, Outcome.settles_unwrap, hasOutput_iff]

theorem settles_chunkedNodes {chunks : BTreeMap ChunkId (GraphChunk O)} :
    (M.chunkedNodes H chunks).Settles ↔ ∀ chunk newNode, M.PieceReached H chunks chunk newNode →
      ∀ io, chunk.subgraph.nodes[newNode]? = some (.output (.chunked io)) →
        M.HasOutput io.ioId := by
  have hentry : ∀ map chunk (entry : NodeId × List NodeId), (M.checkPieces chunk map entry).Settles ↔
      ∀ nodesBefore newNode nodesAfter map', entry.2 = nodesBefore ++ newNode :: nodesAfter →
        nodesBefore.foldlM (M.checkReplacedNode chunk entry.1) map = .ok map' →
        (M.checkReplacedNode chunk entry.1 map' newNode).Settles :=
    fun _ _ _ => Outcome.settles_foldlM
  have hchunk : ∀ map chunk, (M.checkReplacedNodes H map chunk).Settles ↔
      ∀ entriesBefore entry entriesAfter map',
        H.entries chunk.replacedNodes = entriesBefore ++ entry :: entriesAfter →
        entriesBefore.foldlM (M.checkPieces chunk) map = .ok map' →
        (M.checkPieces chunk map' entry).Settles :=
    fun _ _ => Outcome.settles_foldlM
  rw [chunkedNodes, Outcome.settles_foldlM]
  simp only [hchunk, hentry, settles_checkReplacedNode]
  constructor
  · rintro h chunk newNode ⟨before, after, entriesBefore, entry, entriesAfter, nodesBefore, nodesAfter,
      map₁, map₂, map₃, hchunks, hmap₁, hentries, hmap₂, hnodes, hmap₃⟩
    exact h before chunk after map₁ hchunks hmap₁ entriesBefore entry entriesAfter map₂ hentries hmap₂
      nodesBefore newNode nodesAfter map₃ hnodes hmap₃
  · intro h before chunk after map₁ hchunks hmap₁ entriesBefore entry entriesAfter map₂ hentries hmap₂
      nodesBefore newNode nodesAfter map₃ hnodes hmap₃
    exact h chunk newNode ⟨before, after, entriesBefore, entry, entriesAfter, nodesBefore, nodesAfter,
      map₁, map₂, map₃, hchunks, hmap₁, hentries, hmap₂, hnodes, hmap₃⟩

/-! ## The rest of the check -/

theorem settles_checkPartition (chunks : BTreeMap ChunkId (GraphChunk O)) :
    (M.checkPartition chunks).Settles := by
  have hnode : ∀ nodeIds (entry : NodeId × ChunkNode O),
      (GraphChunk.collectNode nodeIds entry).Settles := by
    intro nodeIds entry
    unfold GraphChunk.collectNode
    split
    · simp [Outcome.settles_bind]
    · exact Outcome.settles_ok _
  refine Outcome.settles_bind.mpr ⟨?_, fun _ _ => Outcome.settles_ensure _ _⟩
  exact Outcome.settles_foldlM.mpr fun _ _ _ _ _ _ =>
    Outcome.settles_foldlM.mpr fun _ _ _ _ _ _ => hnode _ _

theorem settles_checkBoundaryEdges (chunkForNode : HashMap NodeId ChunkId) (chunk : GraphChunk O) :
    (GraphChunk.checkBoundaryEdges chunkForNode chunk).Settles := by
  have hbuild : ∀ farEnd what,
      (chunk.buildBoundaryEdges farEnd what chunkForNode).Settles := by
    refine fun farEnd what => Outcome.settles_mapM.mpr fun _ _ _ _ _ _ => ?_
    exact Outcome.settles_bind.mpr ⟨Outcome.settles_okOr _ _, fun _ _ => Outcome.settles_ok _⟩
  simp only [GraphChunk.checkBoundaryEdges, Outcome.settles_bind, hbuild, Outcome.settles_ensure,
    implies_true, and_self]

theorem settles_checkBoundaryEdgesConsistency (chunks : BTreeMap ChunkId ModelChunk) :
    (ModelChunk.checkBoundaryEdgesConsistency chunks).Settles := by
  have hincoming : ∀ chunkId entry, (ModelChunk.checkIncoming chunks chunkId entry).Settles := by
    intro chunkId entry
    simp [ModelChunk.checkIncoming, Outcome.settles_bind]
  have houtgoing : ∀ chunkId entry, (ModelChunk.checkOutgoing chunks chunkId entry).Settles := by
    intro chunkId entry
    simp [ModelChunk.checkOutgoing, Outcome.settles_bind]
  refine Outcome.settles_forM.mpr fun _ chunk _ _ _ => Outcome.settles_bind.mpr ⟨?_, fun _ _ => ?_⟩
  · exact Outcome.settles_forM.mpr fun _ entry _ _ _ => hincoming _ entry
  · exact Outcome.settles_forM.mpr fun _ entry _ _ _ => houtgoing _ entry

/-- The index of the chunks covers its nodes. -/
theorem covers_new (chunks : List (GraphChunk O)) (chunkedNodesMap : HashMap NodeId NodeId) :
    (ChunkIndex.new (GraphChunk.byId chunks) chunkedNodesMap).Covers := by
  intro node chunkId hget
  have hmem := Std.ExtTreeMap.mem_of_getElem?_insertMany hget
  obtain ⟨chunk, hchunk, hentry⟩ := List.mem_flatMap.mp hmem
  obtain ⟨node', hnode, heq⟩ := List.mem_map.mp hentry
  obtain ⟨rfl, rfl⟩ := Prod.mk.inj heq
  obtain ⟨id, hid⟩ := (Std.ExtTreeMap.mem_values _).mp hchunk
  obtain ⟨chunk', -, heq⟩ := List.mem_map.mp (Std.ExtTreeMap.mem_of_getElem?_insertMany hid)
  obtain ⟨rfl, rfl⟩ := Prod.mk.inj heq
  rw [Std.ExtTreeMap.mem_keys, ← Std.ExtTreeMap.isSome_getElem?_iff_mem] at hnode
  obtain ⟨n, hn⟩ := Option.isSome_iff_exists.mp hnode
  exact ⟨chunk', n, hid, hn⟩

/-! ## The check as a whole -/

section Whole

variable (M : ModelCtx O) (L : ShapeLayers O) (H : HashOrder) (chunks : List (GraphChunk O))
  (unpaddedInputShapes paddedInputShapes : HashMap ChunkedIo Shape)

/-- `shape_steps_for_chunks` followed by `check_model_chunking`. -/
def checkChunks (fuel : Nat) : Outcome (HashMap NodeId NodeShapes) := do
  let shapes ← M.shapeStepsForChunks L fuel chunks unpaddedInputShapes paddedInputShapes
  M.checkModelChunking L H chunks
  .ok shapes

/-- The order in which the chunks are visited. -/
def Visited (visited : List (GraphChunk O)) : Prop :=
  ∃ fuel, GraphChunk.visitChunksForward fuel chunks = .ok visited

/-- The computation of the shapes comes to a node of a chunk. -/
def ShapesReached (chunk : GraphChunk O) (entry : NodeId × ChunkNode O)
    (shapes : HashMap NodeId NodeShapes) : Prop :=
  ∃ visited before after nodesBefore nodesAfter start, Visited chunks visited ∧
    visited = before ++ chunk :: after ∧
    before.foldlM (M.shapeStepsForChunk L unpaddedInputShapes paddedInputShapes) ∅ = .ok start ∧
    chunk.subgraph.iterNodes true = nodesBefore ++ entry :: nodesAfter ∧
    nodesBefore.foldlM ((M.chunkPass L unpaddedInputShapes paddedInputShapes).registerShapes
      chunk.subgraph) start = .ok shapes

/-- The shapes are computed, and the chunks are a partition of the nodes of the model. -/
def PartitionChecked : Prop :=
  (∃ visited shapes, Visited chunks visited ∧
    visited.foldlM (M.shapeStepsForChunk L unpaddedInputShapes paddedInputShapes) ∅ = .ok shapes) ∧
  M.checkPartition (GraphChunk.byId chunks) = .ok ()

/-- What the check of the chunks relies on. -/
structure ChunksAdmissible : Prop where
  /-- The dependencies of at least half of the chunks end. -/
  half : (ModelChunk.byId (chunks.map GraphChunk.toModelChunk)).size ≤
    2 * (ModelChunk.visitable true (chunks.map GraphChunk.toModelChunk)).card
  /-- The shapes that a node reads are there. -/
  served : ∀ chunk entry shapes,
    ShapesReached M L chunks unpaddedInputShapes paddedInputShapes chunk entry shapes →
    (M.chunkPass L unpaddedInputShapes paddedInputShapes).Served chunk.subgraph shapes entry
  /-- A piece of an output is one of an output of the model. -/
  outputs : PartitionChecked M L chunks unpaddedInputShapes paddedInputShapes →
    ∀ chunk newNode, M.PieceReached H (GraphChunk.byId chunks) chunk newNode →
      ∀ io, chunk.subgraph.nodes[newNode]? = some (.output (.chunked io)) → M.HasOutput io.ioId
  /-- The layers between pieces say how many pieces there are. -/
  traceable : PartitionChecked M L chunks unpaddedInputShapes paddedInputShapes →
    ∀ map, M.chunkedNodes H (GraphChunk.byId chunks) = .ok map →
      ∀ chunk entry edge,
        M.EdgeReached L H (ChunkIndex.new (GraphChunk.byId chunks) map) chunk entry edge →
        M.Traceable L (ChunkIndex.new (GraphChunk.byId chunks) map) entry.1 entry.2 edge.2
  /-- The edges found are not just the first edges of the model. -/
  allEdges : PartitionChecked M L chunks unpaddedInputShapes paddedInputShapes →
    ∀ map edges, M.chunkedNodes H (GraphChunk.byId chunks) = .ok map →
      M.graphEdges L H (ChunkIndex.new (GraphChunk.byId chunks) map) = .ok edges →
      (edges.toList <+: M.nodes.edges.toList ∨ M.nodes.edges.toList <+: edges.toList) →
        edges.toList = M.nodes.edges.toList

variable {M L H chunks unpaddedInputShapes paddedInputShapes}
variable {visited : List (GraphChunk O)}

theorem Visited.unique {visited' : List (GraphChunk O)} (h : Visited chunks visited)
    (h' : Visited chunks visited') : visited = visited' := by
  obtain ⟨fuel, hrun⟩ := h
  obtain ⟨fuel', hrun'⟩ := h'
  obtain ⟨order, horder, heq⟩ := Outcome.bind_eq_ok.mp hrun
  obtain ⟨order', horder', heq'⟩ := Outcome.bind_eq_ok.mp hrun'
  obtain rfl := ModelChunk.visitChunks_unique horder horder'
  exact Except.ok.inj (heq.symm.trans heq')

/-- The visit of the chunks ends with an order of the chunks, or not at all. -/
theorem exists_visited_iff :
    (∃ visited, Visited chunks visited) ↔
      (ModelChunk.byId (chunks.map GraphChunk.toModelChunk)).size ≤
        2 * (ModelChunk.visitable true (chunks.map GraphChunk.toModelChunk)).card := by
  rw [← ModelChunk.halts_iff]
  constructor
  · rintro ⟨visited, fuel, hrun⟩
    obtain ⟨order, horder, -⟩ := Outcome.bind_eq_ok.mp hrun
    exact ⟨fuel, fun hends => nomatch horder.symm.trans hends⟩
  · rintro ⟨fuel, hends⟩
    have hstart : ModelChunk.Between true (chunks.map GraphChunk.toModelChunk) ∅ []
        (ModelChunk.byId (chunks.map GraphChunk.toModelChunk)) := ModelChunk.Between.start
    rcases @ModelChunk.visitLoop_cases _ _ fuel _ _ _ hstart with hfuel | ⟨_, order, _, horder, -⟩
    · exact absurd hfuel hends
    · refine ⟨_, fuel, Outcome.bind_eq_ok.mpr ⟨order, horder, rfl⟩⟩

/-- The computation of the shapes returns exactly if every node is served. -/
theorem settles_shapes (hvisited : Visited chunks visited) :
    (visited.foldlM (M.shapeStepsForChunk L unpaddedInputShapes paddedInputShapes) ∅).Settles ↔
      ∀ chunk entry shapes,
        ShapesReached M L chunks unpaddedInputShapes paddedInputShapes chunk entry shapes →
        (M.chunkPass L unpaddedInputShapes paddedInputShapes).Served chunk.subgraph shapes entry := by
  rw [Outcome.settles_foldlM]
  simp only [shapeStepsForChunk, ShapePass.settles_shapeStepsForGraph]
  constructor
  · rintro h chunk entry shapes ⟨visited', before, after, nodesBefore, nodesAfter, start, hvisited',
      hchunks, hstart, hnodes, hshapes⟩
    obtain rfl := hvisited.unique hvisited'
    exact h before chunk after start hchunks hstart nodesBefore entry nodesAfter shapes hnodes hshapes
  · intro h before chunk after start hchunks hstart nodesBefore entry nodesAfter shapes hnodes hshapes
    exact h chunk entry shapes ⟨visited, before, after, nodesBefore, nodesAfter, start, hvisited,
      hchunks, hstart, hnodes, hshapes⟩

theorem settles_checkModelChunking :
    (M.checkModelChunking L H chunks).Settles ↔
      (M.checkPartition (GraphChunk.byId chunks) = .ok () →
        (M.chunkedNodes H (GraphChunk.byId chunks)).Settles ∧
        ∀ map, M.chunkedNodes H (GraphChunk.byId chunks) = .ok map →
          (M.graphEdges L H (ChunkIndex.new (GraphChunk.byId chunks) map)).Settles ∧
          ∀ edges, M.graphEdges L H (ChunkIndex.new (GraphChunk.byId chunks) map) = .ok edges →
            (zipEdges edges.toList M.nodes.edges.toList).Settles) := by
  have hrest : ∀ chunkForNode : HashMap NodeId ChunkId,
      (forM (GraphChunk.byId chunks).values (GraphChunk.checkBoundaryEdges chunkForNode)).Settles :=
    fun _ => Outcome.settles_forM.mpr fun _ chunk _ _ _ => settles_checkBoundaryEdges _ chunk
  simp only [checkModelChunking, checkModelGraphEdgesFromChunks, Outcome.settles_bind,
    settles_checkPartition, hrest, settles_checkBoundaryEdgesConsistency, implies_true, and_true,
    true_and]
  exact ⟨fun h => h (), fun h _ => h⟩

/-- With an order of the chunks, the check is the computation of the shapes and then the rest. -/
theorem settles_checkChunks {fuel : Nat}
    (hrun : GraphChunk.visitChunksForward fuel chunks = .ok visited) :
    (M.checkChunks L H chunks unpaddedInputShapes paddedInputShapes fuel).Settles ↔
      (visited.foldlM (M.shapeStepsForChunk L unpaddedInputShapes paddedInputShapes) ∅).Settles ∧
      ((∃ shapes, visited.foldlM (M.shapeStepsForChunk L unpaddedInputShapes paddedInputShapes) ∅ =
          .ok shapes) → (M.checkModelChunking L H chunks).Settles) := by
  simp only [checkChunks, shapeStepsForChunks, hrun, Outcome.ok_bind, Outcome.settles_bind,
    Outcome.settles_ok, implies_true, and_true]
  exact and_congr_right fun _ => exists_imp.symm

/-- A check that returns has visited the chunks. -/
theorem exists_visited_of_settles {fuel : Nat}
    (h : (M.checkChunks L H chunks unpaddedInputShapes paddedInputShapes fuel).Settles) :
    ∃ visited, GraphChunk.visitChunksForward fuel chunks = .ok visited := by
  have hvisit := (Outcome.settles_bind.mp (Outcome.settles_bind.mp h).1).1
  rcases hvisit with hrun | ⟨msg, herr⟩
  · exact hrun
  · have hstart : ModelChunk.Between true (chunks.map GraphChunk.toModelChunk) ∅ []
        (ModelChunk.byId (chunks.map GraphChunk.toModelChunk)) := ModelChunk.Between.start
    rw [GraphChunk.visitChunksForward, ModelChunk.visitChunksForward, ModelChunk.visitChunks] at herr
    rcases @ModelChunk.visitLoop_cases _ _ fuel _ _ _ hstart with hfuel | ⟨_, order, _, horder, -⟩
    · rw [hfuel] at herr
      cases herr
    · rw [horder] at herr
      cases herr

end Whole

/-! ## Chunks that wait for each other -/

abbrev plainLayers : OtherLayers (ChunkVerifier.rationalCrypto fun _ => 0) Unit :=
  ChunkVerifier.additions fun _ => 0

/-- Two layers that hand on what they are given. -/
def twoFlattens : ModelCtx plainLayers where
  nodes :=
    { nodes := (((∅ : BTreeMap NodeId (Node (LayerCtx plainLayers) Nat Nat)).insert 0
        (.input 0)).insert 1 (.inner .flatten)).insert 2 (.inner .flatten) |>.insert 3 (.output 0)
      edges := ((∅ : BTreeMap EdgeId (Edge Unit)).insert 0 ⟨0, 1, [⟨0, 0⟩], none⟩).insert 1
        ⟨1, 2, [⟨0, 0⟩], none⟩ |>.insert 2 ⟨2, 3, [⟨0, 0⟩], none⟩ }

def plainShapes : ShapeLayers plainLayers where
  outputShapes _ shapes _ := .ok shapes
  splitInputShapes _ := none
  withInputShapes := Empty.elim
  numChunks := Empty.elim

/-- The first of two chunks, which is said to wait for the second. -/
def firstWaiting : GraphChunk plainLayers where
  chunkId := 0
  incomingEdges := (∅ : BoundaryEdges).insert 1 1
  outgoingEdges := (∅ : BoundaryEdges).insert 1 1
  subgraph :=
    { nodes := ((∅ : BTreeMap NodeId (ChunkNode plainLayers)).insert 0
        (.input (.originalNode 0))).insert 1 (.inner .originalNode)
      edges := ((∅ : BTreeMap EdgeId (Edge Unit)).insert 0 ⟨0, 1, [⟨0, 0⟩], none⟩).insert 1
        ⟨1, 2, [⟨0, 0⟩], none⟩ }
  replacedNodes := ∅

/-- The second chunk, which waits for the first. -/
def secondWaiting : GraphChunk plainLayers where
  chunkId := 1
  incomingEdges := (∅ : BoundaryEdges).insert 1 0
  outgoingEdges := ∅
  subgraph :=
    { nodes := ((∅ : BTreeMap NodeId (ChunkNode plainLayers)).insert 2
        (.inner .originalNode)).insert 3 (.output (.originalNode 0))
      edges := ((∅ : BTreeMap EdgeId (Edge Unit)).insert 1 ⟨1, 2, [⟨0, 0⟩], none⟩).insert 2
        ⟨2, 3, [⟨0, 0⟩], none⟩ }
  replacedNodes := ∅

def vectorShapes : HashMap ChunkedIo Shape := (∅ : HashMap ChunkedIo Shape).insert ⟨0, 0⟩ [4]

end ModelCtx

end DeepProve
