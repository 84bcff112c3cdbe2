import DeepProve.Model.Executes
import DeepProve.Quantization.SpliceRequants

/-!
# The scalings of a quantised model

A quantised model is the model it comes of, with requantisation layers put behind some ports. What is
recorded as the scaling of an input is what is recorded as the scaling of the port that feeds it.
-/

namespace DeepProve

namespace ModelMetadata

variable {σ : Type} (md : ModelMetadata σ)

/-- What is recorded for an output port. -/
def outputAt (key : NodeOutput) : Option σ := md.outputLayersScaling.at? key.nodeId key.port

/-- What is recorded for an input port. -/
def inputAt (key : NodeInput) : Option σ := md.inputLayersScaling.at? key.nodeId key.port

end ModelMetadata

namespace Graph

variable {N I O W L : Type} (g : Graph N I O W)

/-- Where a port is read, if the nodes that have been put in are left out. -/
def origin (inserted : List NodeId) (key : NodeOutput) : NodeOutput :=
  if key.nodeId ∈ inserted then
    ((g.links.find? fun feed => feed.target.nodeId = key.nodeId).map Feed.source).getD key
  else key

/-- The links of the graph without the nodes that have been put in. -/
def contracted (inserted : List NodeId) : List Feed :=
  (g.links.filter fun feed => feed.target.nodeId ∉ inserted).map fun feed =>
    ⟨g.origin inserted feed.source, feed.target⟩

/-- An acyclic graph whose inputs and outputs are numbered, and whose inputs are not fed. -/
structure IsModelGraph (g : ModelGraph L) : Prop where
  acyclic : Dag.Acyclic g.Pred
  ports : g.PortInvariant fun _ => []
  inputs : ∀ (n n' : NodeId) (i : Nat),
    g.nodes[n]? = some (.input i) → g.nodes[n']? = some (.input i) → n = n'
  outputs : ∀ (n n' : NodeId) (i : Nat),
    g.nodes[n]? = some (.output i) → g.nodes[n']? = some (.output i) → n = n'
  sources : ∀ feed ∈ g.links, ∀ i : Nat, g.nodes[feed.target.nodeId]? ≠ some (.input i)

end Graph

section Statement

variable {L Q ρ σ : Type} (ops : QuantizeOps L Q ρ σ)

/-- The negative infinity of a layer may have been set. -/
def QuantizeOps.Masked : Q → Q → Prop :=
  Relation.ReflTransGen fun q q' => ∃ negInf, ops.setNegativeInfinity q negInf = some q'

/-- A layer that is requantised is so at each of its outputs. -/
def QuantizeOps.RequantsAll : Prop :=
  ∀ n layer scalings shapes outputScalings outputShapes out requants,
    ops.quantizeOp n layer scalings shapes outputScalings outputShapes = .ok out →
      out.requantLayer = some requants → requants.length = out.outputScalings.length

/-- A call of `quantize_op` was made with what is recorded for the inputs of the node, and what it
    returned is recorded for its outputs. -/
structure CallKept (model : Model L) (result : QuantizedModel L Q σ)
    (shapes : NodeOutput → Option Shape) (call : QuantizeCall L σ) : Prop where
  inputScalings : List.Forall₂ (fun feed s => result.metadata.outputAt feed.source = some s)
    (model.graph.incomingFeeds call.nodeId) call.inputScaling
  inputShapes : List.Forall₂ (fun feed s => shapes feed.source = some s)
    (model.graph.incomingFeeds call.nodeId) call.unpaddedInputShapes
  quantized : ∃ outShapes out quantizedShapes q,
    ops.outputShapes call.layer call.unpaddedInputShapes = .ok outShapes ∧
    ops.quantizeOp call.nodeId call.layer call.inputScaling call.unpaddedInputShapes
      (ops.scalingFactorsForNode call.nodeId outShapes.length) outShapes = .ok out ∧
    ops.quantizedOutputShapes out.quantizedOp call.unpaddedInputShapes = .ok quantizedShapes ∧
    (∀ p, result.metadata.outputAt ⟨call.nodeId, p⟩ = out.outputScalings[p]?) ∧
    (∀ p, shapes ⟨call.nodeId, p⟩ = quantizedShapes[p]?) ∧
    result.model.graph.nodes[call.nodeId]? = some (.inner q) ∧ ops.Masked out.quantizedOp q

/-- The scalings are kept along the links of the quantised model, which is the model with the nodes
    `inserted` put in; `shapes` are the unpadded shapes of the ports. -/
structure ScalesKept (model : Model L) (inputScaling : List σ) (result : QuantizedModel L Q σ)
    (inserted : List NodeId) (shapes : NodeOutput → Option Shape) : Prop where
  links : ∀ feed ∈ result.model.graph.links, ∃ s,
    result.metadata.outputAt feed.source = some s ∧ result.metadata.inputAt feed.target = some s
  requants : ∀ r ∈ inserted, ∃ (source : NodeOutput) (s : σ),
    (result.model.graph.links.filter fun feed => feed.target.nodeId = r) = [⟨source, ⟨r, 0⟩⟩] ∧
    (∀ feed ∈ result.model.graph.links, feed.source.nodeId = r → feed.source.port = 0) ∧
    result.metadata.outputAt source = some s ∧ result.metadata.inputAt ⟨r, 0⟩ = some s ∧
    result.metadata.outputAt ⟨r, 0⟩ = some s
  calls : result.calls.map (fun call => (call.nodeId, call.layer)) = model.graph.forwardInners ∧
    ∀ call ∈ result.calls, CallKept ops model result shapes call
  contracted : (result.model.graph.contracted inserted).Perm model.graph.links
  nodes : ∀ n : NodeId, n ∈ result.model.graph.nodes ↔ n ∈ model.graph.nodes ∨ n ∈ inserted
  inserted : ∀ n ∈ inserted, n ∉ model.graph.nodes ∧
    ∃ r q, result.model.graph.nodes[n]? = some (.inner q) ∧ ops.Masked (ops.requant r) q
  inputs : ∀ (n : NodeId) (i : Nat), model.graph.nodes[n]? = some (.input i) →
    result.model.graph.nodes[n]? = some (.input i) ∧ shapes ⟨n, 0⟩ = model.inputShapes[i]? ∧
    ∃ s, inputScaling[i]? = some s ∧ result.metadata.outputAt ⟨n, 0⟩ = some s ∧
      result.metadata.inputScaling i = .ok s
  outputs : ∀ (n : NodeId) (o : Nat), model.graph.nodes[n]? = some (.output o) →
    result.model.graph.nodes[n]? = some (.output o) ∧
    result.metadata.outputScaling o =
      unwrap (result.metadata.inputAt ⟨n, 0⟩) "no entry found for key"

end Statement

/-! ## The masks -/

section Masks

variable {L Q ρ σ : Type} {ops : QuantizeOps L Q ρ σ}

/-- The nodes of a graph once negative infinities have been set. -/
inductive NodeMasked (ops : QuantizeOps L Q ρ σ) : Node Q Nat Nat → Node Q Nat Nat → Prop where
  | input (i : Nat) : NodeMasked ops (.input i) (.input i)
  | inner {q q' : Q} (h : ops.Masked q q') : NodeMasked ops (.inner q) (.inner q')
  | output (o : Nat) : NodeMasked ops (.output o) (.output o)

theorem NodeMasked.refl : ∀ node : Node Q Nat Nat, NodeMasked ops node node
  | .input i => .input i
  | .inner _ => .inner .refl
  | .output o => .output o

theorem NodeMasked.trans {node node' node'' : Node Q Nat Nat} (h : NodeMasked ops node node')
    (h' : NodeMasked ops node' node'') : NodeMasked ops node node'' := by
  cases h with
  | input i => exact h'
  | output o => exact h'
  | inner hq =>
    cases h' with
    | inner hq' => exact .inner (hq.trans hq')

/-- A rule leaves the links and the kinds of the nodes as they are. -/
theorem SoftmaxMaskTransform.apply_eq_ok {transform : SoftmaxMaskTransform} {g g' : ModelGraph Q}
    (h : transform.apply ops g = .ok g') :
    g'.edges = g.edges ∧ ∀ n : NodeId, Option.Rel (NodeMasked ops) g.nodes[n]? g'.nodes[n]? := by
  obtain ⟨node, hnode, h⟩ := Outcome.bind_eq_ok.mp h
  obtain ⟨softmax, hsoftmax, h⟩ := Outcome.bind_eq_ok.mp h
  obtain ⟨_, -, h⟩ := Outcome.bind_eq_ok.mp h
  obtain ⟨_, -, h⟩ := Outcome.bind_eq_ok.mp h
  obtain ⟨feed, -, h⟩ := Outcome.bind_eq_ok.mp h
  obtain ⟨inputNode, hinputNode, h⟩ := Outcome.bind_eq_ok.mp h
  obtain ⟨q, hq, h⟩ := Outcome.bind_eq_ok.mp h
  obtain ⟨_, -, h⟩ := Outcome.bind_eq_ok.mp h
  obtain ⟨mask, hmask, h⟩ := Outcome.bind_eq_ok.mp h
  obtain rfl := Except.ok.inj h
  refine ⟨rfl, fun n => ?_⟩
  dsimp only
  rw [Std.ExtTreeMap.getElem?_insert]
  have hinner : inputNode = .inner q := by
    cases inputNode with
    | input i => exact nomatch okOr_eq_ok.mp hq
    | output o => exact nomatch okOr_eq_ok.mp hq
    | inner l => exact congrArg Node.inner (Option.some.inj (okOr_eq_ok.mp hq))
  split
  · next hn =>
    obtain rfl := Std.compare_eq_iff_eq.mp hn
    rw [unwrap_eq_ok.mp hinputNode, hinner]
    exact .some (.inner (.single ⟨_, unwrap_eq_ok.mp hmask⟩))
  · cases g.nodes[n]? with
    | none => exact .none
    | some node => exact .some (.refl node)

theorem transforms_eq_ok {transforms : List SoftmaxMaskTransform} {g g' : ModelGraph Q}
    (h : transforms.foldlM (fun graph transform => transform.apply ops graph) g = .ok g') :
    g'.edges = g.edges ∧ ∀ n : NodeId, Option.Rel (NodeMasked ops) g.nodes[n]? g'.nodes[n]? := by
  induction transforms generalizing g with
  | nil =>
    obtain rfl := Except.ok.inj h
    refine ⟨rfl, fun n => ?_⟩
    cases g.nodes[n]? with
    | none => exact .none
    | some node => exact .some (.refl node)
  | cons transform transforms ih =>
    rw [List.foldlM_cons, Outcome.bind_eq_ok] at h
    obtain ⟨g₁, hfirst, h⟩ := h
    obtain ⟨hedges, hnodes⟩ := SoftmaxMaskTransform.apply_eq_ok hfirst
    obtain ⟨hedges', hnodes'⟩ := ih h
    refine ⟨hedges'.trans hedges, fun n => ?_⟩
    have hn := hnodes n
    have hn' := hnodes' n
    generalize g.nodes[n]? = a, g₁.nodes[n]? = b, g'.nodes[n]? = c at hn hn'
    cases hn with
    | none => exact hn'
    | some hnode =>
      cases hn' with
      | some hnode' => exact .some (hnode.trans hnode')

end Masks

/-! ## Numbered nodes -/

/-- Nodes with numbers of their own are found under their numbers. -/
theorem getElem?_of_placed {entries : List (NodeId × Nat)} {start r : List NodeId}
    (h : entries.foldlM (fun r (n, i) =>
      if i < r.length then .ok (r.set i n) else .error (.panic "index out of bounds")) start =
        (.ok r : Outcome (List NodeId)))
    (hinj : ∀ n n' i, (n, i) ∈ entries → (n', i) ∈ entries → n = n') {n : NodeId} {i : Nat}
    (hmem : (n, i) ∈ entries) : r[i]? = some n := by
  refine Outcome.foldlM_induction (motive := fun pre (r : List NodeId) =>
    ∀ n i, (n, i) ∈ pre → r[i]? = some n) h (fun _ _ hnil => nomatch hnil)
    (fun pre entry post r r' hentries hpre hstep n i hni => ?_) n i hmem
  obtain ⟨n', i'⟩ := entry
  dsimp only at hstep
  split at hstep
  · next hlt =>
    obtain rfl := Except.ok.inj hstep
    have hall : ∀ entry ∈ pre ++ [(n', i')], entry ∈ entries := fun entry hentry => by
      rw [hentries]
      exact List.mem_append.mpr ((List.mem_append.mp hentry).imp_right fun hlast =>
        List.mem_cons.mpr (.inl (List.mem_singleton.mp hlast)))
    by_cases hi : i = i'
    · subst hi
      have hn : n = n' := hinj n n' i (hall _ hni) (hall _ (List.mem_append_right _ List.mem_cons_self))
      rw [hn, List.getElem?_set_self hlt]
    · rw [List.getElem?_set_ne (Ne.symm hi)]
      refine hpre n i ((List.mem_append.mp hni).resolve_right fun hlast => hi ?_)
      exact (Prod.mk.inj (List.mem_singleton.mp hlast)).2
  · exact nomatch hstep

namespace Graph

variable {N I O W : Type} {g : Graph N I O W}

/-- A node with a number is found under it, if it is the only one of its kind with this number. -/
theorem getElem?_of_numbered {number : Node N I O → Option Nat} {kind : Nat → Node N I O}
    (hnumber : ∀ node i, number node = some i ↔ node = kind i) {start ids : List NodeId}
    (h : (g.nodes.toList.filterMap fun (n, node) => (number node).map fun i => (n, i)).foldlM
      (fun r (n, i) =>
        if i < r.length then .ok (r.set i n) else .error (.panic "index out of bounds")) start =
        (.ok ids : Outcome (List NodeId)))
    (hinj : ∀ (n n' : NodeId) (i : Nat),
      g.nodes[n]? = some (kind i) → g.nodes[n']? = some (kind i) → n = n')
    {n : NodeId} {i : Nat} (hn : g.nodes[n]? = some (kind i)) : ids[i]? = some n := by
  have hmem : ∀ (n : NodeId) (i : Nat), (n, i) ∈ (g.nodes.toList.filterMap fun (n, node) =>
      (number node).map fun i => (n, i)) ↔ g.nodes[n]? = some (kind i) := by
    intro n i
    rw [List.mem_filterMap]
    constructor
    · rintro ⟨⟨n', node⟩, hnode, heq⟩
      obtain ⟨i', hi', heq⟩ := Option.map_eq_some_iff.mp heq
      obtain ⟨rfl, rfl⟩ := Prod.mk.inj heq
      rw [← (hnumber node i').mp hi']
      exact Std.ExtTreeMap.mem_toList_iff_getElem?_eq_some.mp hnode
    · intro hn
      exact ⟨(n, kind i), Std.ExtTreeMap.mem_toList_iff_getElem?_eq_some.mpr hn,
        by simp [(hnumber (kind i) i).mpr rfl]⟩
  exact getElem?_of_placed h
    (fun n n' i hn hn' => hinj n n' i ((hmem n i).mp hn) ((hmem n' i).mp hn')) ((hmem n i).mpr hn)

theorem mem_iterNodes (hacyclic : Dag.Acyclic g.Pred) {n : NodeId} {node : Node N I O} :
    (n, node) ∈ g.iterNodes true ↔ g.nodes[n]? = some node := by
  rw [iterNodes, List.mem_filterMap]
  constructor
  · rintro ⟨m, -, hm⟩
    obtain ⟨node', hnode, heq⟩ := Option.map_eq_some_iff.mp hm
    obtain ⟨rfl, rfl⟩ := Prod.mk.inj heq
    exact hnode
  · intro hnode
    refine ⟨n, (perm_dagOrder hacyclic).mem_iff.mpr ?_, by rw [hnode]; rfl⟩
    rw [Std.ExtTreeMap.mem_keys, Std.ExtTreeMap.mem_iff_isSome_getElem?, hnode]
    rfl

theorem mem_links {feed : Feed} : feed ∈ g.links ↔ ∃ (id : EdgeId) (edge : Edge W),
    g.edges[id]? = some edge ∧ feed ∈ edge.feeds := by
  simp only [links, List.mem_flatMap, Prod.exists, Std.ExtTreeMap.mem_toList_iff_getElem?_eq_some]

/-- The links into a node are what it is fed by. -/
theorem mem_incomingFeeds {feed : Feed} {n : NodeId} :
    feed ∈ g.incomingFeeds n ↔ feed ∈ g.links ∧ feed.target.nodeId = n := by
  rw [incomingFeeds, List.mem_insertionSort, List.mem_flatMap, mem_links]
  constructor
  · rintro ⟨⟨id, edge⟩, hedge, hfeed⟩
    obtain ⟨hget, rfl⟩ := mem_incomings.mp hedge
    refine ⟨⟨id, edge, hget, hfeed⟩, ?_⟩
    obtain ⟨link, -, rfl⟩ := List.mem_map.mp hfeed
    rfl
  · rintro ⟨⟨id, edge, hget, hfeed⟩, rfl⟩
    obtain ⟨link, hlink, rfl⟩ := List.mem_map.mp hfeed
    exact ⟨(id, edge), mem_incomings.mpr ⟨hget, rfl⟩, List.mem_map.mpr ⟨link, hlink, rfl⟩⟩

end Graph

/-! ## The nodes -/

section Nodes

variable {L Q ρ σ : Type} {ops : QuantizeOps L Q ρ σ} {model : Model L} {inputScaling : List σ}
  {records : NodeId → NodeRecord Q ρ σ} {s : QuantizeState L Q ρ σ}

theorem IsModelGraph.mem_nodes {g : ModelGraph L} (hg : g.IsModelGraph) {feed : Feed}
    (hfeed : feed ∈ g.links) : feed.source.nodeId ∈ g.nodes ∧ feed.target.nodeId ∈ g.nodes := by
  obtain ⟨id, edge, hedge, hfeed⟩ := Graph.mem_links.mp hfeed
  obtain ⟨link, -, rfl⟩ := List.mem_map.mp hfeed
  exact (hg.ports.endpoints id edge hedge).2

variable {n : NodeId}

theorem mem_map_iterNodes {g : ModelGraph L} (hg : g.IsModelGraph) :
    n ∈ (g.iterNodes true).map Prod.fst ↔ n ∈ g.nodes := by
  rw [Std.ExtTreeMap.mem_iff_isSome_getElem?, Option.isSome_iff_exists, List.mem_map]
  constructor
  · rintro ⟨⟨n', node⟩, hmem, rfl⟩
    exact ⟨node, (Graph.mem_iterNodes hg.acyclic).mp hmem⟩
  · rintro ⟨node, hnode⟩
    exact ⟨(n, node), (Graph.mem_iterNodes hg.acyclic).mpr hnode, rfl⟩

variable (hmodel : model.graph.IsModelGraph)
  (hv : Visited ops model inputScaling (model.graph.iterNodes true) records s)

include hmodel hv

theorem Visited.recordOf {node : Node L Nat Nat} (hnode : model.graph.nodes[n]? = some node) :
    RecordOf ops model inputScaling s.md.outputAt (s.shapeMap[·]?) n node (records n) :=
  hv.recorded (n, node) ((Graph.mem_iterNodes hmodel.acyclic).mpr hnode)

theorem Visited.outputAt_eq (hn : n ∈ model.graph.nodes) (p : PortId) :
    s.md.outputAt ⟨n, p⟩ = (records n).outputScalings[p]? :=
  (hv.outputAt ⟨n, p⟩).trans (if_pos ((mem_map_iterNodes hmodel).mpr hn))

theorem Visited.inputAt_eq (hn : n ∈ model.graph.nodes) (p : PortId) :
    s.md.inputAt ⟨n, p⟩ = (records n).inputScalings[p]? :=
  (hv.inputAt ⟨n, p⟩).trans (if_pos ((mem_map_iterNodes hmodel).mpr hn))

theorem Visited.nodes_eq (hn : n ∈ model.graph.nodes) :
    s.nodes[n]? = some (records n).node :=
  (hv.nodes n).trans (if_pos ((mem_map_iterNodes hmodel).mpr hn))

theorem Visited.mem_nodes : n ∈ s.nodes ↔ n ∈ model.graph.nodes := by
  rw [Std.ExtTreeMap.mem_iff_isSome_getElem?, hv.nodes, ← mem_map_iterNodes hmodel]
  split
  · next hmem => exact iff_of_true rfl hmem
  · next hmem => exact iff_of_false Bool.false_ne_true hmem

theorem Visited.eq_none (hn : n ∉ s.nodes) (p : PortId) :
    s.md.outputAt ⟨n, p⟩ = none ∧ s.md.inputAt ⟨n, p⟩ = none := by
  have hnot : n ∉ (model.graph.iterNodes true).map Prod.fst := fun hmem =>
    hn ((hv.mem_nodes hmodel).mpr ((mem_map_iterNodes hmodel).mp hmem))
  exact ⟨(hv.outputAt ⟨n, p⟩).trans (if_neg hnot), (hv.inputAt ⟨n, p⟩).trans (if_neg hnot)⟩

/-- What is recorded for an input is what is recorded for the port that feeds it. -/
theorem Visited.link {feed : Feed} (hfeed : feed ∈ model.graph.links) :
    ∃ sc, s.md.outputAt feed.source = some sc ∧ s.md.inputAt feed.target = some sc := by
  obtain ⟨-, htarget⟩ := IsModelGraph.mem_nodes hmodel hfeed
  obtain ⟨node, hnode⟩ := Option.isSome_iff_exists.mp (Std.ExtTreeMap.mem_iff_isSome_getElem?.mp htarget)
  have hget := Graph.getElem?_incomingFeeds hmodel.ports
    (Graph.mem_incomingFeeds.mpr ⟨hfeed, rfl⟩)
  have hinput := hv.inputAt_eq hmodel htarget feed.target.port
  have hread : ∀ {scalings : List σ}, List.Forall₂ (fun feed sc => s.md.outputAt feed.source = some sc)
      (model.graph.incomingFeeds feed.target.nodeId) scalings →
        ∃ sc, s.md.outputAt feed.source = some sc ∧ scalings[feed.target.port]? = some sc := by
    intro scalings hscalings
    obtain ⟨hlt, -⟩ := List.getElem?_eq_some_iff.mp hget
    have hlt' : feed.target.port < scalings.length := hscalings.length_eq ▸ hlt
    refine ⟨scalings[feed.target.port], ?_, List.getElem?_eq_getElem hlt'⟩
    exact List.getElem?_of_forall₂ hscalings hget (List.getElem?_eq_getElem hlt')
  have hrecord := hv.recordOf hmodel hnode
  generalize records feed.target.nodeId = record at hrecord hinput
  cases hrecord with
  | input => exact absurd hnode (hmodel.sources feed hfeed _)
  | output hsfs =>
    obtain ⟨sc, hsc, hport⟩ := hread hsfs
    exact ⟨sc, hsc, hinput.trans hport⟩
  | inner hscalings =>
    obtain ⟨sc, hsc, hport⟩ := hread hscalings
    exact ⟨sc, hsc, hinput.trans hport⟩

/-- A node that is requantised has a layer for each port that is read. -/
theorem Visited.port_lt (hops : ops.RequantsAll) {entry : NodeId × List ρ}
    (hentry : entry ∈ s.requantLayers) : entry.1 ∈ s.nodes ∧
      ∀ feed ∈ model.graph.links, feed.source.nodeId = entry.1 → feed.source.port < entry.2.length := by
  rw [hv.requantLayers, List.mem_filterMap] at hentry
  obtain ⟨⟨n, node⟩, hmem, hentry⟩ := hentry
  obtain ⟨requants, hrequants, rfl⟩ := Option.map_eq_some_iff.mp hentry
  have hnode := (Graph.mem_iterNodes hmodel.acyclic).mp hmem
  have hn : n ∈ model.graph.nodes := (mem_map_iterNodes hmodel).mp (List.mem_map_of_mem hmem)
  refine ⟨(hv.mem_nodes hmodel).mpr hn, fun feed hfeed hsource => ?_⟩
  dsimp only at hsource ⊢
  obtain ⟨sc, hsc, -⟩ := hv.link hmodel hfeed
  have hport : (records n).outputScalings[feed.source.port]? = some sc := by
    rw [← hv.outputAt_eq hmodel hn, ← hsc, ← hsource]
  have hlength : requants.length = (records n).outputScalings.length := by
    have hrecord := hv.recordOf hmodel hnode
    generalize records n = record at hrecord hrequants
    cases hrecord with
    | input => exact nomatch hrequants
    | output => exact nomatch hrequants
    | inner _ _ _ hquantize _ => exact hops _ _ _ _ _ _ _ _ hquantize hrequants
  rw [hlength]
  exact (List.getElem?_eq_some_iff.mp hport).1

omit hmodel in
theorem Visited.nodup_requantLayers : (s.requantLayers.map Prod.fst).Nodup := by
  refine (Graph.nodup_iterNodes model.graph true).sublist ?_
  rw [hv.requantLayers]
  induction model.graph.iterNodes true with
  | nil => exact List.Sublist.refl _
  | cons entry entries ih =>
    rw [List.filterMap_cons]
    cases (records entry.1).requants with
    | none => exact ih.cons entry.1
    | some requants => exact ih.cons_cons entry.1

end Nodes

/-! ## The new layers -/

section Layers

variable {Q ρ σ : Type} {base graph : ModelGraph Q} {md₀ md : MetadataBuilder σ} {requant : ρ → Q}
  {requants : List Feed} {site : NodeOutput → NodeOutput}
  (h : Spliced base md₀ requant requants site graph md)

include h

variable {feed : Feed}

/-- A link of the graph leads to a new layer, or is a link that was there. -/
theorem Spliced.mem_links : feed ∈ graph.links ↔
    feed ∈ requants ∨ ∃ link ∈ base.links, (⟨site link.source, link.target⟩ : Feed) = feed := by
  rw [h.links.mem_iff, List.mem_append, List.mem_map]

theorem Spliced.nodup_targets : (requants.map fun feed => feed.target.nodeId).Nodup := by
  obtain ⟨layers, hadds, htargets, -⟩ := h.layers
  exact htargets.nodup_iff.mpr hadds.nodup

/-- One link leads to a new layer. -/
theorem Spliced.filter_links (hends : ∀ link ∈ base.links, link.target.nodeId ∈ base.nodes)
    (hfeed : feed ∈ requants) :
    (graph.links.filter fun feed' => feed'.target.nodeId = feed.target.nodeId) = [feed] := by
  refine List.perm_singleton.mp ((h.links.filter _).trans ?_)
  rw [List.filter_append]
  have hbase : ((base.links.map fun link => (⟨site link.source, link.target⟩ : Feed)).filter
      fun feed' => feed'.target.nodeId = feed.target.nodeId) = [] := by
    refine List.filter_eq_nil_iff.mpr fun feed' hfeed' => ?_
    obtain ⟨link, hlink, rfl⟩ := List.mem_map.mp hfeed'
    rw [decide_eq_true_iff]
    exact fun heq => (h.target_notMem hfeed).1 (heq ▸ hends link hlink)
  have hone : (requants.filter fun feed' => feed'.target.nodeId = feed.target.nodeId).Perm [feed] := by
    refine (List.perm_ext_iff_of_nodup ((List.Nodup.of_map _ h.nodup_targets).filter _)
      (List.nodup_singleton _)).mpr fun feed' => ?_
    rw [List.mem_filter, List.mem_singleton, decide_eq_true_iff]
    constructor
    · rintro ⟨hfeed', heq⟩
      exact List.inj_on_of_nodup_map h.nodup_targets hfeed' hfeed heq
    · rintro rfl
      exact ⟨hfeed, rfl⟩
  rw [hbase, List.append_nil]
  exact hone

/-- A new layer is read at its only port. -/
theorem Spliced.source_port (hends : ∀ link ∈ base.links, link.source.nodeId ∈ base.nodes)
    (hfeed : feed ∈ graph.links) (hsource : feed.source.nodeId ∉ base.nodes) :
    feed.source.port = 0 := by
  rcases h.mem_links.mp hfeed with hrequant | ⟨link, hlink, rfl⟩
  · exact absurd (h.sources feed hrequant) hsource
  · rcases h.site link.source (hends link hlink) with hkept | ⟨r, -, hmoved⟩
    · have hmem : (site link.source).nodeId ∈ base.nodes := by
        rw [hkept]
        exact hends link hlink
      exact absurd hmem hsource
    · exact congrArg NodePort.port hmoved

/-- What is recorded for an input is what is recorded for the port that feeds it. -/
theorem Spliced.link (hends : ∀ link ∈ base.links,
      link.source.nodeId ∈ base.nodes ∧ link.target.nodeId ∈ base.nodes)
    (hlinks : ∀ link ∈ base.links, ∃ s, md₀.outputAt link.source = some s ∧ md₀.inputAt link.target = some s)
    (hfeed : feed ∈ graph.links) :
    ∃ s, md.outputAt feed.source = some s ∧ md.inputAt feed.target = some s := by
  rcases h.mem_links.mp hfeed with hrequant | ⟨link, hlink, rfl⟩
  · obtain ⟨s, hsource, htarget, -⟩ := h.scalings feed hrequant
    exact ⟨s, hsource, htarget⟩
  · obtain ⟨hsource, htarget⟩ := hends link hlink
    obtain ⟨s, hs, hs'⟩ := hlinks link hlink
    rw [← h.outputAt _ hsource] at hs
    rw [← h.inputAt _ htarget] at hs'
    rcases h.site link.source hsource with hkept | ⟨r, hr, hmoved⟩
    · exact ⟨s, (congrArg md.outputAt hkept).trans hs, hs'⟩
    · -- the layer carries the scaling of the port that it is put behind
      obtain ⟨s', hport, -, hlayer⟩ := h.scalings _ hr
      obtain rfl := Option.some.inj (hport.symm.trans hs)
      exact ⟨s', (congrArg md.outputAt hmoved).trans hlayer, hs'⟩

/-- Without the new layers, the links are those that were there. -/
theorem Spliced.contracted (hends : ∀ link ∈ base.links,
      link.source.nodeId ∈ base.nodes ∧ link.target.nodeId ∈ base.nodes) :
    (graph.contracted (requants.map fun feed => feed.target.nodeId)).Perm base.links := by
  have hinserted : ∀ n ∈ base.nodes, n ∉ requants.map fun feed => feed.target.nodeId := by
    intro n hn hmem
    obtain ⟨feed, hfeed, rfl⟩ := List.mem_map.mp hmem
    exact (h.target_notMem hfeed).1 hn
  have horigin : ∀ key, key.nodeId ∈ base.nodes →
      graph.origin (requants.map fun feed => feed.target.nodeId) (site key) = key := by
    intro key hkey
    rcases h.site key hkey with hkept | ⟨r, hr, hmoved⟩
    · rw [hkept, Graph.origin, if_neg (hinserted key.nodeId hkey)]
    · have hfind : (graph.links.find? fun feed => feed.target.nodeId = r) = some ⟨key, ⟨r, 0⟩⟩ := by
        rw [← List.head?_filter, h.filter_links (fun link hlink => (hends link hlink).2) hr]
        rfl
      rw [hmoved, Graph.origin, if_pos (List.mem_map.mpr ⟨_, hr, rfl⟩), hfind]
      rfl
  rw [Graph.contracted]
  refine ((h.links.filter _).map _).trans (List.Perm.of_eq ?_)
  have hrequants : (requants.filter fun feed =>
      decide (feed.target.nodeId ∉ requants.map fun feed => feed.target.nodeId)) = [] := by
    refine List.filter_eq_nil_iff.mpr fun feed hfeed => ?_
    rw [decide_eq_true_iff, not_not]
    exact List.mem_map_of_mem (f := fun feed : Feed => feed.target.nodeId) hfeed
  have hbase : ((base.links.map fun link => (⟨site link.source, link.target⟩ : Feed)).filter fun feed =>
      decide (feed.target.nodeId ∉ requants.map fun feed => feed.target.nodeId)) =
        base.links.map fun link => ⟨site link.source, link.target⟩ := by
    refine List.filter_eq_self.mpr fun feed hfeed => ?_
    obtain ⟨link, hlink, rfl⟩ := List.mem_map.mp hfeed
    exact decide_eq_true (hinserted _ (hends link hlink).2)
  rw [List.filter_append, hrequants, hbase, List.nil_append, List.map_map]
  refine (List.map_congr_left fun link hlink => ?_).trans (List.map_id _)
  show (⟨graph.origin _ (site link.source), link.target⟩ : Feed) = link
  rw [horigin link.source (hends link hlink).1]

end Layers

/-! ## The quantised model -/

section Result

variable {L Q ρ σ : Type} {ops : QuantizeOps L Q ρ σ} {model : Model L} {inputScaling : List σ}
  {records : NodeId → NodeRecord Q ρ σ} {s : QuantizeState L Q ρ σ}

theorem forwardInners_calls (records : NodeId → NodeRecord Q ρ σ) (entries : List (NodeId × Node L Nat Nat)) :
    ((entries.filterMap fun entry => entry.2.asInner.map fun layer =>
      (⟨entry.1, layer, (records entry.1).inputScalings, (records entry.1).inputShapes⟩ :
        QuantizeCall L σ)).map fun call => (call.nodeId, call.layer)) =
      entries.filterMap fun (n, node) => node.asInner.map fun layer => (n, layer) := by
  rw [List.map_filterMap]
  refine List.filterMap_congr fun entry _ => ?_
  rw [Option.map_map]
  rfl

theorem mem_calls (hmodel : model.graph.IsModelGraph)
    (hv : Visited ops model inputScaling (model.graph.iterNodes true) records s) {call : QuantizeCall L σ}
    (hcall : call ∈ s.calls) : model.graph.nodes[call.nodeId]? = some (.inner call.layer) ∧
      call.inputScaling = (records call.nodeId).inputScalings ∧
      call.unpaddedInputShapes = (records call.nodeId).inputShapes := by
  rw [hv.calls, List.mem_filterMap] at hcall
  obtain ⟨⟨n, node⟩, hmem, hcall⟩ := hcall
  obtain ⟨layer, hlayer, rfl⟩ := Option.map_eq_some_iff.mp hcall
  cases node with
  | input i => exact nomatch hlayer
  | output o => exact nomatch hlayer
  | inner l =>
    obtain rfl := Option.some.inj hlayer
    exact ⟨(Graph.mem_iterNodes hmodel.acyclic).mp hmem, rfl, rfl⟩

theorem contracted_congr {N I O W : Type} {g g' : Graph N I O W} (h : g'.links = g.links)
    (inserted : List NodeId) : g'.contracted inserted = g.contracted inserted := by
  simp only [Graph.contracted, Graph.origin, h]

section Final

variable {g₂ g₃ : ModelGraph Q} {md : MetadataBuilder σ} {requants : List Feed}
  {site : NodeOutput → NodeOutput} (hmodel : model.graph.IsModelGraph)
  (hv : Visited ops model inputScaling (model.graph.iterNodes true) records s)
  (hspliced : Spliced ⟨s.nodes, model.graph.edges⟩ s.md ops.requant requants site g₂ md)
  (hmasked : ∀ n : NodeId, Option.Rel (NodeMasked ops) g₂.nodes[n]? g₃.nodes[n]?)

include hmodel hv hspliced hmasked

variable {n : NodeId}

/-- A node of the model is still there. -/
theorem final_node {node : Node L Nat Nat} (hnode : model.graph.nodes[n]? = some node) :
    ∃ node', g₃.nodes[n]? = some node' ∧ NodeMasked ops (records n).node node' := by
  have hn : n ∈ model.graph.nodes := by
    rw [Std.ExtTreeMap.mem_iff_isSome_getElem?, hnode]
    rfl
  obtain ⟨layers, hadds, -⟩ := hspliced.layers
  have hkept := (hadds.kept n ((hv.mem_nodes hmodel).mpr hn)).trans (hv.nodes_eq hmodel hn)
  have hn' := hmasked n
  rw [hkept] at hn'
  generalize g₃.nodes[n]? = found at hn' ⊢
  cases hn' with
  | some hnode' => exact ⟨_, rfl, hnode'⟩

omit hv hmodel in
theorem mem_final : n ∈ g₃.nodes ↔
    n ∈ s.nodes ∨ n ∈ requants.map fun feed => feed.target.nodeId := by
  obtain ⟨layers, hadds, htargets, -⟩ := hspliced.layers
  rw [htargets.mem_iff, ← hadds.mem n, Std.ExtTreeMap.mem_iff_isSome_getElem?,
    Std.ExtTreeMap.mem_iff_isSome_getElem?]
  have hn := hmasked n
  generalize g₂.nodes[n]? = old, g₃.nodes[n]? = new at hn
  cases hn with
  | none => exact Iff.rfl
  | some _ => exact iff_of_true rfl rfl

omit hv hmodel in
/-- A new node is a requantisation layer. -/
theorem final_layer (hn : n ∈ requants.map fun feed => feed.target.nodeId) :
    ∃ r q, g₃.nodes[n]? = some (.inner q) ∧ ops.Masked (ops.requant r) q := by
  obtain ⟨layers, hadds, htargets, hlayers⟩ := hspliced.layers
  obtain ⟨entry, hentry, rfl⟩ := List.mem_map.mp (htargets.mem_iff.mp hn)
  obtain ⟨r, hr⟩ := hlayers entry hentry
  have hn' := hmasked entry.1
  rw [hadds.added entry hentry, hr] at hn'
  generalize g₃.nodes[entry.1]? = found at hn' ⊢
  cases hn' with
  | some hnode =>
    cases hnode with
    | inner hq => exact ⟨r, _, rfl, hq⟩

theorem final_cases {node' : Node Q Nat Nat} (hnode' : g₃.nodes[n]? = some node') :
    (∃ node, model.graph.nodes[n]? = some node ∧ NodeMasked ops (records n).node node') ∨
      ∃ q, node' = .inner q := by
  cases hnode : model.graph.nodes[n]? with
  | some node =>
    obtain ⟨node'', hnode'', hmask⟩ := final_node hmodel hv hspliced hmasked hnode
    obtain rfl := Option.some.inj (hnode'.symm.trans hnode'')
    exact .inl ⟨node, rfl, hmask⟩
  | none =>
    have hmem : n ∈ g₃.nodes := by
      rw [Std.ExtTreeMap.mem_iff_isSome_getElem?, hnode']
      rfl
    have hnot : n ∉ s.nodes := by
      rw [hv.mem_nodes hmodel, Std.ExtTreeMap.mem_iff_isSome_getElem?, hnode]
      exact Bool.false_ne_true
    have hnew := ((mem_final hspliced hmasked).mp hmem).resolve_left hnot
    obtain ⟨r, q, hq, -⟩ := final_layer hspliced hmasked hnew
    exact .inr ⟨q, Option.some.inj (hnode'.symm.trans hq)⟩

/-- The inputs of the quantised model are those of the model. -/
theorem final_input {i : Nat} :
    g₃.nodes[n]? = some (.input i) ↔ model.graph.nodes[n]? = some (.input i) := by
  constructor
  · intro hinput
    rcases final_cases hmodel hv hspliced hmasked hinput with ⟨node, hnode, hmask⟩ | ⟨q, hq⟩
    · have hrecord := hv.recordOf hmodel hnode
      generalize records n = record at hrecord hmask
      cases hrecord with
      | input => cases hmask; exact hnode
      | output => exact nomatch hmask
      | inner => exact nomatch hmask
    · exact nomatch hq
  · intro hnode
    obtain ⟨node', hnode', hmask⟩ := final_node hmodel hv hspliced hmasked hnode
    have hrecord := hv.recordOf hmodel hnode
    generalize records n = record at hrecord hmask
    cases hrecord with
    | input => cases hmask; exact hnode'

/-- The outputs of the quantised model are those of the model. -/
theorem final_output {o : Nat} :
    g₃.nodes[n]? = some (.output o) ↔ model.graph.nodes[n]? = some (.output o) := by
  constructor
  · intro houtput
    rcases final_cases hmodel hv hspliced hmasked houtput with ⟨node, hnode, hmask⟩ | ⟨q, hq⟩
    · have hrecord := hv.recordOf hmodel hnode
      generalize records n = record at hrecord hmask
      cases hrecord with
      | output => cases hmask; exact hnode
      | input => exact nomatch hmask
      | inner => exact nomatch hmask
    · exact nomatch hq
  · intro hnode
    obtain ⟨node', hnode', hmask⟩ := final_node hmodel hv hspliced hmasked hnode
    have hrecord := hv.recordOf hmodel hnode
    generalize records n = record at hrecord hmask
    cases hrecord with
    | output => cases hmask; exact hnode'

end Final

end Result

/-! ## A layer that is requantised at both of its outputs -/

/-- A layer with two outputs that are the inputs of another, in the order opposite to that of the
    links. -/
def twoPortsOps : List (Graph.Op Nat Nat Nat Unit) :=
  [.addInput 0, .addInner 2, .addInner 1, .addOutput 0, .addEdge (fun _ => 0) 0 1 [⟨0, 0⟩] none,
    .addEdge (fun _ => 1) 1 2 [⟨0, 0⟩, ⟨1, 1⟩] none, .addEdge (fun _ => 2) 2 3 [⟨0, 0⟩] none]

def twoPorts : ModelGraph Nat :=
  ((Graph.callAll (Graph.new, fun _ => []) twoPortsOps).get rfl).1

theorem isModelGraph_twoPorts : twoPorts.IsModelGraph where
  acyclic := Graph.acyclic_of_edges (by decide)
  ports := by
    have hops : Graph.callAll (Graph.new, fun _ => []) twoPortsOps = some (twoPorts, _) := rfl
    exact Graph.portInvariant_of_ops hops fun v => by simp [Graph.Op.removed, Function.update]
  inputs n n' i hn hn' := by
    have hall : ∀ e ∈ twoPorts.nodes.toList, e.2.asInput.isSome → e.1 = 0 := by decide
    have hmem : ∀ n, twoPorts.nodes[n]? = some (.input i) → n = 0 := fun n hn =>
      hall _ (Std.ExtTreeMap.mem_toList_iff_getElem?_eq_some.mpr hn) rfl
    rw [hmem n hn, hmem n' hn']
  outputs n n' i hn hn' := by
    have hall : ∀ e ∈ twoPorts.nodes.toList, e.2.asOutput.isSome → e.1 = 3 := by decide
    have hmem : ∀ n, twoPorts.nodes[n]? = some (.output i) → n = 3 := fun n hn =>
      hall _ (Std.ExtTreeMap.mem_toList_iff_getElem?_eq_some.mpr hn) rfl
    rw [hmem n hn, hmem n' hn']
  sources feed hfeed i hinput := by
    have hall : ∀ feed ∈ twoPorts.links,
        ((twoPorts.nodes[feed.target.nodeId]?).bind Node.asInput).isNone := by decide
    have hnone := hall feed hfeed
    rw [hinput] at hnone
    exact Bool.false_ne_true hnone

/-- The layers are their numbers of outputs; those with two outputs are requantised. -/
def numberedOps : QuantizeOps Nat Nat Nat Nat where
  outputShapes layer _ := .ok (List.replicate layer [4])
  quantizedOutputShapes layer _ := .ok (List.replicate layer [4])
  scalingFactorsForNode n numOutputs := (List.range numOutputs).map fun p => 10 * n + p
  quantizeOp _ layer _ _ outputScalings _ := .ok {
    quantizedOp := layer
    outputScalings
    requantLayer := if layer = 2 then some outputScalings else none
    postQuantRule := none }
  requant _ := 1
  shortName _ := ""
  setNegativeInfinity _ _ := none

/-- The quantised model of `twoPorts`. -/
def twoPortsQuantized : Outcome (QuantizedModel Nat Nat Nat) :=
  quantizeModel numberedOps (fun n k j => 100 * n + 10 * k + j) (fun _ _ => ⟨id, List.Perm.refl⟩)
    ⟨[[4]], twoPorts⟩ [7]

end DeepProve
