import DeepProve.Graph.Denotation

/-!
# The scheduler follows the progress of the execution

The state of a scheduler is determined by the nodes running and the nodes done:
an edge carries the output of its source from the moment its source is done to
the moment its target is released. `stateAt` is this state, and the methods of
the scheduler lead from one such state to another.
-/

namespace DeepProve

namespace Graph

variable {N I O W : Type}

/-- Edges whose weights are changed are still found at the same nodes. -/
theorem neighbors_map_weight (g : Graph N I O W) (f : Edge W → Option W) (n : NodeId)
    (d : Direction) :
    neighbors { g with edges := g.edges.map fun _ e => { e with weight := f e } } n d =
      (g.neighbors n d).map fun e => (e.1, { e.2 with weight := f e.2 }) := by
  simp only [neighbors, Std.ExtTreeMap.toList_map, List.filter_map]
  cases d <;> rfl

end Graph

/-- The edge with the output it is for, if there is one. -/
def Edge.carrying {W : Type} (e : Edge W) (outputs : List W) : Edge W :=
  { e with weight := e.ports.head?.bind fun link => outputs[link.sourcePort]? }

namespace GraphScheduler

open Graph

variable {N C Io : Type}

def setEdges (s : GraphScheduler N C Io) (edges : BTreeMap EdgeId (Edge Io)) :
    GraphScheduler N C Io :=
  { s with graph := { s.graph with edges := edges } }

section State

variable (g : ExecGraph N C Io) (nodeRun : ExecNode N Io) (inputData : HashMap NodeInput Io)

/-- The data on an edge: it has been put there when the source was done, and is
    taken off when the target is released. -/
def weightAt (p : Dag.Progress NodeId) (e : Edge Io) : Option Io :=
  if e.source ∈ p.done ∧ e.target ∉ p.running ∧ e.target ∉ p.done then
    (e.carrying (g.outputsOf nodeRun inputData e.source)).weight
  else none

/-- The scheduler while the nodes of `p` are running and done. -/
def stateAt (policy : ReleasePolicy) (p : Dag.Progress NodeId) : GraphScheduler N C Io where
  graph :=
    { g with edges := g.edges.map fun _ e => { e with weight := weightAt g nodeRun inputData p e } }
  waitingInputData := ∅
  runningNodes := p.running
  doneNodes := p.done
  releasePolicy := policy

/-- A node as it is released. -/
def readyNode (v : NodeId) (x : Colored N C) : ReadyNode N C Io :=
  { node := x, inputs := g.inputsOf nodeRun inputData v, nodeId := v }

end State

variable {g : ExecGraph N C Io} {nodeRun : ExecNode N Io} {inputData : HashMap NodeInput Io}
variable {policy : ReleasePolicy} {p : Dag.Progress NodeId} {v : NodeId}

/-- The nodes of the graph. -/
abbrev nodesOf {N I O W : Type} (g : Graph N I O W) : Finset NodeId := g.nodes.keys.toFinset

theorem mem_nodesOf {N I O W : Type} {g : Graph N I O W} {v : NodeId} :
    v ∈ nodesOf g ↔ v ∈ g.nodes := by
  simp [nodesOf]

theorem card_nodesOf {N I O W : Type} (g : Graph N I O W) : (nodesOf g).card = g.nodeCount := by
  rw [List.toFinset_card_of_nodup g.nodes.nodup_keys, Std.ExtTreeMap.length_keys, nodeCount]

theorem getElem?_edges_stateAt (id : EdgeId) :
    (stateAt g nodeRun inputData policy p).graph.edges[id]? =
      g.edges[id]?.map fun e => { e with weight := weightAt g nodeRun inputData p e } := by
  simp [stateAt, Std.ExtTreeMap.getElem?_map]

/-- Updating some of the edges leads to the state of another progress, if the
    weights of the edges change accordingly. -/
private theorem insertMany_edges_stateAt (nodeRun : ExecNode N Io)
    (inputData : HashMap NodeInput Io) (policy : ReleasePolicy) (p p' : Dag.Progress NodeId)
    (changed : List (EdgeId × Edge Io)) {c : Edge Io → Prop} [DecidablePred c] {f : Edge Io → Edge Io}
    (hchanged : ∀ id e, (id, e) ∈ changed ↔ g.edges[id]? = some e ∧ c e)
    (hf : ∀ (id : EdgeId) e, g.edges[id]? = some e →
      { e with weight := weightAt g nodeRun inputData p' e } =
        if c e then f e else { e with weight := weightAt g nodeRun inputData p e }) :
    (stateAt g nodeRun inputData policy p).graph.edges.insertMany
        (changed.map fun e => (e.1, f e.2)) =
      (stateAt g nodeRun inputData policy p').graph.edges := by
  have hmem : ∀ id e', (id, e') ∈ changed.map (fun e => (e.1, f e.2)) ↔
      (g.edges[id]?.bind fun e => if c e then some (f e) else none) = some e' := by
    intro id e'
    simp only [List.mem_map, Prod.exists, hchanged, Prod.mk.injEq, Option.bind_eq_some_iff]
    constructor
    · intro ⟨id', e, ⟨he, hc⟩, hid, hfe⟩
      subst hid
      exact ⟨e, he, by rw [if_pos hc, hfe]⟩
    · intro ⟨e, he, hfe⟩
      split at hfe
      · rename_i hc
        exact ⟨id, e, ⟨he, hc⟩, rfl, Option.some.inj hfe⟩
      · exact nomatch hfe
  apply Std.ExtTreeMap.ext_getElem?
  intro id
  rw [Std.ExtTreeMap.getElem?_insertMany_of_mem_iff _ hmem, getElem?_edges_stateAt,
    getElem?_edges_stateAt]
  cases he : g.edges[id]? with
  | none => rfl
  | some e =>
    simp only [Option.bind_some, Option.map_some, hf id e he]
    split <;> rfl

/-! ## Completion -/

/-- Outputs are put on all edges of the list. -/
private theorem foldlM_fillEdge (outputs : List Io) (L : List (EdgeId × Edge Io))
    (hL : ∀ e ∈ L, ∃ link, e.2.ports = [link] ∧ link.sourcePort < outputs.length)
    (acc : Finset Nat) (s : GraphScheduler N C Io) :
    ∃ ports, (L.foldlM (fillEdge outputs) acc).run s = .ok ports
        (s.setEdges (s.graph.edges.insertMany (L.map fun e => (e.1, e.2.carrying outputs)))) ∧
      ∀ q, q ∈ ports ↔ q ∈ acc ∧ ∀ e ∈ L, ∀ link ∈ e.2.ports, link.sourcePort ≠ q := by
  induction L generalizing acc s with
  | nil => exact ⟨acc, rfl, by simp⟩
  | cons e L ih =>
    obtain ⟨id, e⟩ := e
    obtain ⟨link, hports, hlt⟩ := hL _ (List.mem_cons_self ..)
    have hports : e.ports = [link] := hports
    have hfill : (fillEdge outputs acc (id, e)).run s = .ok (acc.erase link.sourcePort)
        (s.setEdges (s.graph.edges.insert id (e.carrying outputs))) := by
      simp only [fillEdge, hports, List.length_singleton, beq_self_eq_true, ensure_true,
        Call.lift_ok, pure_bind, List.getElem?_cons_zero, unwrap_some,
        List.getElem?_eq_getElem hlt, Call.modify_bind_run, EStateM.run_pure]
      simp only [setEdges, Edge.carrying, hports, List.head?_cons, Option.bind_some,
        List.getElem?_eq_getElem hlt]
    obtain ⟨ports, hrun, hmem⟩ := ih (fun e he => hL e (List.mem_cons_of_mem _ he))
      (acc.erase link.sourcePort) (s.setEdges (s.graph.edges.insert id (e.carrying outputs)))
    refine ⟨ports, ?_, fun q => ?_⟩
    · rw [List.foldlM_cons, EStateM.run_bind, hfill]
      rw [List.map_cons, Std.ExtTreeMap.insertMany_cons]
      exact hrun
    · rw [hmem, Finset.mem_erase]
      simp only [List.mem_cons, forall_eq_or_imp, hports, List.not_mem_nil, false_imp_iff,
        implies_true, and_true, ne_comm]
      tauto

/-- The target of an edge is neither running nor done before its source is done. -/
theorem target_not_started (hp : p.Valid g.Pred (nodesOf g)) (hv : v ∈ p.running) {id : EdgeId}
    {e : Edge Io} (he : g.edges[id]? = some e) (hs : e.source = v) :
    e.target ∉ p.running ∧ e.target ∉ p.done := by
  have hnot : v ∉ p.done := Finset.disjoint_left.mp hp.disjoint hv
  have hpred : g.Pred v e.target := ⟨id, e, he, hs, rfl⟩
  constructor
  · exact fun ht => hnot (hp.closed _ (Finset.mem_union_left _ ht) _ hpred)
  · exact fun ht => hnot (hp.closed _ (Finset.mem_union_right _ ht) _ hpred)

/-- Completing a node fills the edges leaving it, and no others. -/
theorem weightAt_finish (hp : p.Valid g.Pred (nodesOf g)) (hv : v ∈ p.running) {id : EdgeId}
    {e : Edge Io} (he : g.edges[id]? = some e) :
    weightAt g nodeRun inputData (p.finish v) e =
      if e.source = v then (e.carrying (g.outputsOf nodeRun inputData v)).weight
      else weightAt g nodeRun inputData p e := by
  have hne : e.source = v → e.target ≠ v :=
    fun hs ht => (target_not_started hp hv he hs).1 (ht ▸ hv)
  unfold weightAt Dag.Progress.finish
  simp only [Finset.mem_insert, Finset.mem_erase]
  by_cases hs : e.source = v
  · have ht := target_not_started hp hv he hs
    rw [if_pos ⟨.inl hs, by simp [ht.1], by simp [ht.2, hne hs]⟩, if_pos hs, hs]
  · rw [if_neg hs]
    by_cases ht : e.target = v
    · rw [if_neg (by simp [ht]), if_neg (by simp [ht, hv])]
    · simp [hs, ht]

/-- The outputs of `v` on the given ports. -/
theorem mem_outputsAt {outputs : List Io} {ports : Finset Nat} {k : NodeOutput} {io : Io} :
    (k, io) ∈ (outputsAt v outputs ports).toList ↔
      k.nodeId = v ∧ k.port ∈ ports ∧ outputs[k.port]? = some io := by
  have hmem : ∀ (k : NodeOutput) io, (k, io) ∈ ((outputs.zipIdx.filter fun e => e.2 ∈ ports).map
        fun e => ((⟨v, e.2⟩ : NodeOutput), e.1)) ↔
      (if k.nodeId = v ∧ k.port ∈ ports then outputs[k.port]? else none) = some io := by
    intro k io
    simp only [List.mem_map, List.mem_filter, decide_eq_true_eq, Prod.exists,
      List.mem_zipIdx_iff_getElem?, Prod.mk.injEq]
    constructor
    · intro ⟨io, q, ⟨hio, hq⟩, hk, hio'⟩
      subst hk hio'
      rw [if_pos ⟨rfl, hq⟩]
      exact hio
    · intro hio
      split at hio
      · rename_i hc
        exact ⟨io, k.port, ⟨hio, hc.2⟩, by rw [← hc.1], rfl⟩
      · exact nomatch hio
  rw [Std.ExtTreeMap.mem_toList_iff_getElem?_eq_some, outputsAt,
    Std.ExtTreeMap.getElem?_insertMany_of_mem_iff ∅ hmem]
  by_cases hc : k.nodeId = v ∧ k.port ∈ ports
  · simp [hc]
  · simp only [if_neg hc, Std.ExtTreeMap.getElem?_empty, Option.or_none, reduceCtorEq, false_iff]
    exact fun hio => hc ⟨hio.1, hio.2.1⟩

/-- `mark_done` on a running node. -/
theorem markDone_stateAt (policy : ReleasePolicy) (h : g.Runnable nodeRun inputData) (hp : p.Valid g.Pred (nodesOf g))
    (hv : v ∈ p.running) :
    ∃ graphOutputs, (markDone v (g.outputsOf nodeRun inputData v)).run
        (stateAt g nodeRun inputData policy p) =
          .ok graphOutputs (stateAt g nodeRun inputData policy (p.finish v)) ∧
      ∀ k io, (k, io) ∈ graphOutputs.toList ↔ k.nodeId = v ∧ g.Unlinked v k.port ∧
        (g.outputsOf nodeRun inputData v)[k.port]? = some io := by
  set outs := g.outputsOf nodeRun inputData v with houts
  set s : GraphScheduler N C Io :=
    { stateAt g nodeRun inputData policy p with
      runningNodes := (p.finish v).running, doneNodes := (p.finish v).done } with hs
  -- no edge from `v` leads to a node that has been started
  have hfilter : ((s.graph.outgoings v).filter fun e =>
      decide (e.2.target ∉ s.doneNodes) && decide (e.2.target ∉ s.runningNodes)) =
        (g.outgoings v).map fun e =>
          (e.1, { e.2 with weight := weightAt g nodeRun inputData p e.2 }) := by
    have hout : s.graph.outgoings v = (g.outgoings v).map fun e =>
        (e.1, { e.2 with weight := weightAt g nodeRun inputData p e.2 }) :=
      neighbors_map_weight g _ v .outgoing
    rw [hout, List.filter_eq_self]
    intro e' he'
    obtain ⟨⟨id, e⟩, he, rfl⟩ := List.mem_map.mp he'
    obtain ⟨he, hsrc⟩ := mem_outgoings.mp he
    obtain ⟨hrun, hdone⟩ := target_not_started hp hv he hsrc
    have hne : e.target ≠ v := fun ht => hrun (ht ▸ hv)
    simp [s, Dag.Progress.finish, hrun, hdone, hne]
  obtain ⟨ports, hrun, hports⟩ := foldlM_fillEdge outs
    ((g.outgoings v).map fun e => (e.1, { e.2 with weight := weightAt g nodeRun inputData p e.2 }))
    (by
      intro e' he'
      obtain ⟨⟨id, e⟩, he, rfl⟩ := List.mem_map.mp he'
      obtain ⟨he, hsrc⟩ := mem_outgoings.mp he
      obtain ⟨link, hlink⟩ := h.single id e he
      have hlt := h.sourcePort_lt he link (by simp [hlink])
      rw [hsrc] at hlt
      exact ⟨link, hlink, hlt⟩)
    (Finset.range outs.length) s
  refine ⟨outputsAt v outs ports, ?_, fun k io => ?_⟩
  · have hnot : v ∉ p.done := Finset.disjoint_left.mp hp.disjoint hv
    have hrunning : decide (v ∈ (stateAt g nodeRun inputData policy p).runningNodes) = true :=
      decide_eq_true hv
    have hdone : decide (v ∉ (stateAt g nodeRun inputData policy p).doneNodes) = true :=
      decide_eq_true hnot
    simp only [markDone, Call.get_bind_run, Call.modify_bind_run, hrunning, hdone, ensure_true,
      Call.lift_ok, pure_bind]
    have hstate : s.setEdges (s.graph.edges.insertMany (((g.outgoings v).map fun e =>
        (e.1, { e.2 with weight := weightAt g nodeRun inputData p e.2 })).map fun e =>
          (e.1, e.2.carrying outs))) = stateAt g nodeRun inputData policy (p.finish v) := by
      have hedges := insertMany_edges_stateAt nodeRun inputData policy p (p.finish v) (g.outgoings v)
        (c := fun e => e.source = v) (f := fun e => e.carrying outs)
        (fun id e => mem_outgoings) (fun id e he => by
          rw [weightAt_finish hp hv he]
          split <;> rfl)
      rw [List.map_map]
      exact congrArg s.setEdges hedges
    rw [hstate] at hrun
    refine Call.bind_run_eq_ok.mpr ⟨ports, _, ?_, rfl⟩
    rw [← hrun, ← hfilter]
    rfl
  · have hun : (∀ e ∈ (g.outgoings v).map (fun e =>
        (e.1, { e.2 with weight := weightAt g nodeRun inputData p e.2 })),
          ∀ link ∈ e.2.ports, link.sourcePort ≠ k.port) ↔ g.Unlinked v k.port := by
      simp only [List.forall_mem_map]
      rfl
    rw [mem_outputsAt, hports, hun, Finset.mem_range]
    constructor
    · exact fun hk => ⟨hk.1, hk.2.1.2, hk.2.2⟩
    · exact fun hk => ⟨hk.1, ⟨(List.getElem?_eq_some_iff.mp hk.2.2).1, hk.2.1⟩, hk.2.2⟩

/-! ## Release -/

/-- Data is taken off all edges of the list. -/
private theorem foldlM_takeEdge (outputs : NodeId → List Io) (L : List (EdgeId × Edge Io))
    (hL : ∀ e ∈ L, ∃ link data, e.2.ports = [link] ∧
      (outputs e.2.source)[link.sourcePort]? = some data ∧ e.2.weight = some data)
    (acc : BTreeMap PortId Io) (s : GraphScheduler N C Io) :
    (L.foldlM takeEdge acc).run s =
      .ok (acc.insertMany (L.flatMap fun e => linkData (outputs e.2.source) e.2.ports))
        (s.setEdges (s.graph.edges.insertMany
          (L.map fun e => (e.1, { e.2 with weight := none })))) := by
  induction L generalizing acc s with
  | nil => rfl
  | cons e L ih =>
    obtain ⟨id, e⟩ := e
    obtain ⟨link, data, hports, hdata, hweight⟩ := hL _ (List.mem_cons_self ..)
    have hports : e.ports = [link] := hports
    have hweight : e.weight = some data := hweight
    have htake : (takeEdge acc (id, e)).run s =
        .ok (acc.insertMany (linkData (outputs e.source) e.ports))
          (s.setEdges (s.graph.edges.insert id { e with weight := none })) := by
      have hlinks : linkData (outputs e.source) e.ports = [(link.targetPort, data)] := by
        simp only [linkData, hports, List.filterMap_cons, hdata, Option.map_some,
          List.filterMap_nil]
      rw [hlinks, Std.ExtTreeMap.insertMany_list_singleton]
      simp only [takeEdge, hweight, okOr_some, Call.lift_ok, pure_bind, Call.modify_bind_run,
        EStateM.run_pure, hports, List.foldl_cons, List.foldl_nil]
      rfl
    rw [List.foldlM_cons, EStateM.run_bind, htake, List.map_cons,
      Std.ExtTreeMap.insertMany_cons, List.flatMap_cons, Std.ExtTreeMap.insertMany_append]
    exact ih (fun e he => hL e (List.mem_cons_of_mem _ he)) _ _

/-- Releasing a node clears the edges into it, and no others. -/
theorem weightAt_start (e : Edge Io) :
    weightAt g nodeRun inputData (p.start v) e =
      if e.target = v then none else weightAt g nodeRun inputData p e := by
  unfold weightAt Dag.Progress.start
  simp only [Finset.mem_insert]
  by_cases ht : e.target = v
  · simp [ht]
  · simp [ht]

/-- The edges into a node that may be started carry the outputs of their sources. -/
theorem weightAt_of_startable (h : g.Runnable nodeRun inputData)
    (hv : p.Startable g.Pred (nodesOf g) v) {id : EdgeId} {e : Edge Io}
    (he : g.edges[id]? = some e) (ht : e.target = v) :
    ∃ link data, e.ports = [link] ∧
      (g.outputsOf nodeRun inputData e.source)[link.sourcePort]? = some data ∧
        weightAt g nodeRun inputData p e = some data := by
  obtain ⟨-, hrun, hdone, hpred⟩ := hv
  obtain ⟨link, hlink⟩ := h.single id e he
  have hlt := h.sourcePort_lt he link (by simp [hlink])
  refine ⟨link, _, hlink, List.getElem?_eq_getElem hlt, ?_⟩
  have hsrc : e.source ∈ p.done := hpred e.source ⟨id, e, he, rfl, ht⟩
  rw [weightAt, if_pos ⟨hsrc, ht ▸ hrun, ht ▸ hdone⟩]
  simp only [Edge.carrying, hlink, List.head?_cons, Option.bind_some, List.getElem?_eq_getElem hlt]

/-- `next_ready_nodes` on one node that may be started: it is released with
    the inputs it has by the denotation. -/
theorem releaseNode_stateAt (h : g.Runnable nodeRun inputData)
    (hv : p.Startable g.Pred (nodesOf g) v) {u : NodeId} (huv : g.Pred u v) {x : Colored N C}
    (hx : g.nodes[v]? = some (.inner x)) :
    (releaseNode v).run (stateAt g nodeRun inputData policy p) =
      .ok (readyNode g nodeRun inputData v x)
        (stateAt g nodeRun inputData policy (p.start v)) := by
  set s : GraphScheduler N C Io :=
    { stateAt g nodeRun inputData policy p with runningNodes := (p.start v).running } with hs
  have hin : s.graph.incomings v = (g.incomings v).map fun e =>
      (e.1, { e.2 with weight := weightAt g nodeRun inputData p e.2 }) :=
    neighbors_map_weight g _ v .incoming
  have hrun := foldlM_takeEdge (g.outputsOf nodeRun inputData) (s.graph.incomings v)
    (by
      rw [hin]
      intro e' he'
      obtain ⟨⟨id, e⟩, he, rfl⟩ := List.mem_map.mp he'
      obtain ⟨he, ht⟩ := mem_incomings.mp he
      obtain ⟨link, data, hlink, hdata, hweight⟩ := weightAt_of_startable h hv he ht
      exact ⟨link, data, hlink, hdata, hweight⟩)
    ∅ s
  have hstate : s.setEdges (s.graph.edges.insertMany
      ((s.graph.incomings v).map fun e => (e.1, { e.2 with weight := none }))) =
        stateAt g nodeRun inputData policy (p.start v) := by
    have hedges := insertMany_edges_stateAt nodeRun inputData policy p (p.start v) (g.incomings v)
      (c := fun e => e.target = v) (f := fun e => { e with weight := none })
      (fun id e => mem_incomings) (fun id e he => by
        rw [weightAt_start]
        split <;> rfl)
    rw [hin, List.map_map]
    exact congrArg s.setEdges hedges
  have hinputs : (∅ : BTreeMap PortId Io).insertMany ((s.graph.incomings v).flatMap fun e =>
      linkData (g.outputsOf nodeRun inputData e.2.source) e.2.ports) =
        g.inputsByPort inputData (g.outputsOf nodeRun inputData) v := by
    rw [inputsByPort, h.externalData_eq_nil huv, hin, List.flatMap_map,
      Std.ExtTreeMap.insertMany_nil]
  rw [hinputs, hstate] at hrun
  simp only [releaseNode, Call.modify_bind_run, Call.get_bind_run]
  refine Call.bind_run_eq_ok.mpr ⟨_, _, hrun, ?_⟩
  have hnode : (stateAt g nodeRun inputData policy (p.start v)).innerNode v = some x := by
    simp only [innerNode, stateAt, hx, Option.bind_some, Node.asInner]
  have hwaiting : (stateAt g nodeRun inputData policy (p.start v)).waitingInputData.toList = [] :=
    rfl
  simp only [Call.get_bind_run, Call.modify_bind_run, hwaiting, List.filter_nil, List.foldl_nil,
    hnode, unwrap_some, Call.lift_ok, pure_bind, EStateM.run_pure]
  rfl

/-! ## Which nodes are ready -/

private theorem getElem?_filledEdges_foldl (l : List (EdgeId × Edge Io))
    (acc : HashMap NodeId (List Bool)) (v : NodeId) :
    (l.foldl (fun acc e =>
      acc.insert e.2.target (acc.getD e.2.target [] ++ [e.2.weight.isSome])) acc)[v]? =
        match (l.filter fun e => e.2.target == v).map fun e => e.2.weight.isSome with
        | [] => acc[v]?
        | filled => some (acc.getD v [] ++ filled) := by
  induction l generalizing acc with
  | nil => rfl
  | cons e l ih =>
    rw [List.foldl_cons, ih]
    by_cases hv : e.2.target = v
    · subst hv
      simp only [beq_self_eq_true, List.filter_cons_of_pos, List.map_cons,
        Std.ExtTreeMap.getElem?_insert_self, Std.ExtTreeMap.getD_insert_self]
      split
      · rename_i hnil
        rw [hnil]
      · simp
    · have hbeq : (e.2.target == v) = false := by simpa using hv
      rw [List.filter_cons_of_neg (by simp [hbeq])]
      simp only [Std.ExtTreeMap.getElem?_insert, Std.ExtTreeMap.getD_insert, Std.compare_eq_iff_eq,
        hv, if_false]

/-- A node is found ready if edges lead into it and all of them are filled. -/
theorem mem_readyNodeIds {s : GraphScheduler N C Io} :
    v ∈ s.readyNodeIds ↔ s.graph.incomings v ≠ [] ∧
      (∀ e ∈ s.graph.incomings v, e.2.weight.isSome = true) ∧ v ∉ s.runningNodes := by
  have hget := getElem?_filledEdges_foldl s.graph.edges.toList ∅ v
  have hfilled : (filledEdges s.graph.edges.toList)[v]? =
      match (s.graph.incomings v).map fun e => e.2.weight.isSome with
      | [] => none
      | filled => some filled := by
    rw [filledEdges, hget, incomings, neighbors]
    simp
  simp only [readyNodeIds, List.mem_map, List.mem_filter, Prod.exists,
    Std.ExtTreeMap.mem_toList_iff_getElem?_eq_some, exists_and_right, exists_eq_right, hfilled,
    Bool.and_eq_true, decide_eq_true_eq, List.all_eq_true]
  cases hin : s.graph.incomings v with
  | nil => simp
  | cons e l => simp [and_assoc, Option.isSome_iff_ne_none]

theorem nodup_readyNodeIds (s : GraphScheduler N C Io) : s.readyNodeIds.Nodup := by
  have hkeys := (filledEdges s.graph.edges.toList).nodup_keys
  rw [← Std.ExtTreeMap.map_fst_toList_eq_keys] at hkeys
  exact hkeys.sublist (List.filter_sublist.map Prod.fst)

/-- The ready nodes are those that may be started and are no sources. -/
theorem mem_readyNodeIds_stateAt (policy : ReleasePolicy) (h : g.Runnable nodeRun inputData) :
    v ∈ (stateAt g nodeRun inputData policy p).readyNodeIds ↔
      p.Startable g.Pred (nodesOf g) v ∧ ∃ u, g.Pred u v := by
  have hin : (stateAt g nodeRun inputData policy p).graph.incomings v =
      (g.incomings v).map fun e =>
        (e.1, { e.2 with weight := weightAt g nodeRun inputData p e.2 }) :=
    neighbors_map_weight g _ v .incoming
  rw [mem_readyNodeIds, hin]
  constructor
  · intro ⟨hne, hfilled, hrun⟩
    have hsource : ∀ (id : EdgeId) (e : Edge Io), g.edges[id]? = some e → e.target = v →
        e.source ∈ p.done ∧ v ∉ p.done := by
      intro id e he ht
      have hsome := hfilled _ (List.mem_map_of_mem (mem_incomings.mpr ⟨he, ht⟩))
      simp only [weightAt] at hsome
      split at hsome
      · rename_i hc
        exact ⟨hc.1, ht ▸ hc.2.2⟩
      · exact nomatch hsome
    have hedges : g.incomings v ≠ [] := fun hnil => hne (by rw [hnil]; rfl)
    obtain ⟨⟨id, e⟩, he⟩ := List.exists_mem_of_ne_nil _ hedges
    obtain ⟨he, ht⟩ := mem_incomings.mp he
    refine ⟨⟨?_, hrun, (hsource id e he ht).2, ?_⟩, e.source, id, e, he, rfl, ht⟩
    · rw [mem_nodesOf, ← ht]
      exact (h.endpoints id e he).2
    · intro u ⟨id', e', he', hs', ht'⟩
      exact hs' ▸ (hsource id' e' he' ht').1
  · intro ⟨hv, u, id, e, he, _, ht⟩
    refine ⟨?_, ?_, hv.2.1⟩
    · intro hnil
      rw [List.map_eq_nil_iff] at hnil
      exact absurd (mem_incomings.mpr ⟨he, ht⟩) (by rw [hnil]; exact List.not_mem_nil)
    · intro filled hfilled
      obtain ⟨⟨id', e'⟩, he', rfl⟩ := List.mem_map.mp hfilled
      obtain ⟨he', ht'⟩ := mem_incomings.mp he'
      obtain ⟨link, data, -, -, hweight⟩ := weightAt_of_startable h hv he' ht'
      simp only [hweight, Option.isSome_some]

/-! ## Batches of released nodes -/

/-- The nodes of a batch are released one after the other, each exactly once
    and with its inputs. -/
structure Releases (g : ExecGraph N C Io) (nodeRun : ExecNode N Io)
    (inputData : HashMap NodeInput Io) (p : Dag.Progress NodeId) (ready : List (ReadyNode N C Io))
    (p' : Dag.Progress NodeId) : Prop where
  done : p'.done = p.done
  running : p'.running = p.running ∪ (ready.map ReadyNode.nodeId).toFinset
  nodup : (ready.map ReadyNode.nodeId).Nodup
  startable : ∀ n ∈ ready, p.Startable g.Pred (nodesOf g) n.nodeId
  ready : ∀ n ∈ ready, g.nodes[n.nodeId]? = some (.inner n.node) ∧
    n.inputs = g.inputsOf nodeRun inputData n.nodeId
  valid : p'.Valid g.Pred (nodesOf g)

theorem releases_nil (hp : p.Valid g.Pred (nodesOf g)) :
    Releases g nodeRun inputData p [] p where
  done := rfl
  running := by simp
  nodup := List.nodup_nil
  startable := by simp
  ready := by simp
  valid := hp

/-- Release one node before the others. -/
theorem Releases.cons {p' : Dag.Progress NodeId} {ready : List (ReadyNode N C Io)}
    {x : Colored N C} (hv : p.Startable g.Pred (nodesOf g) v) (hx : g.nodes[v]? = some (.inner x))
    (hr : Releases g nodeRun inputData (p.start v) ready p') :
    Releases g nodeRun inputData p (readyNode g nodeRun inputData v x :: ready) p' where
  done := hr.done
  running := by
    rw [hr.running]
    simp [Dag.Progress.start, readyNode, Finset.insert_union, Finset.union_insert]
  nodup := by
    refine List.nodup_cons.mpr ⟨?_, hr.nodup⟩
    intro hmem
    obtain ⟨n, hn, hnv⟩ := List.mem_map.mp hmem
    refine (hr.startable n hn).2.1 ?_
    rw [hnv]
    exact Finset.mem_insert_self ..
  startable := by
    intro n hn
    rcases List.mem_cons.mp hn with hn | hn
    · exact hn ▸ hv
    · obtain ⟨hnode, hrun, hdone, hpred⟩ := hr.startable n hn
      exact ⟨hnode, fun hmem => hrun (Finset.mem_insert_of_mem hmem), hdone, hpred⟩
  ready := by
    intro n hn
    rcases List.mem_cons.mp hn with hn | hn
    · exact hn ▸ ⟨hx, rfl⟩
    · exact hr.ready n hn
  valid := hr.valid

section Pull

variable [DecidableEq C]

/-- The policy can be asked about every node, and lets one through as long as
    nothing is running. -/
theorem accept_stateAt (policy : ReleasePolicy) (h : g.Runnable nodeRun inputData) (hv : v ∈ g.nodes) :
    ∃ accepted, (stateAt g nodeRun inputData policy p).accept v = .ok accepted ∧
      (p.running = ∅ → accepted = true) := by
  obtain ⟨x, hx⟩ := h.inner v hv
  have hnode : (stateAt g nodeRun inputData policy p).innerNode v = some x := by
    simp only [innerNode, stateAt, hx, Option.bind_some, Node.asInner]
  cases policy with
  | all => exact ⟨true, rfl, fun _ => rfl⟩
  | uniqueColoring =>
    refine ⟨_, by simp only [accept, stateAt] at hnode ⊢; rw [hnode]; rfl, ?_⟩
    intro hempty
    simp [hempty]

private theorem foldlM_tryRelease (policy : ReleasePolicy) (h : g.Runnable nodeRun inputData) (l : List NodeId)
    (hl : l.Nodup) (hp : p.Valid g.Pred (nodesOf g))
    (hready : ∀ v ∈ l, p.Startable g.Pred (nodesOf g) v ∧ ∃ u, g.Pred u v)
    (acc : List (ReadyNode N C Io)) :
    ∃ ready p', (l.foldlM tryRelease acc).run (stateAt g nodeRun inputData policy p) =
        .ok (acc ++ ready) (stateAt g nodeRun inputData policy p') ∧
      Releases g nodeRun inputData p ready p' ∧ (p.running = ∅ → l ≠ [] → ready ≠ []) := by
  induction l generalizing p acc with
  | nil =>
    refine ⟨[], p, ?_, releases_nil hp, fun _ hne => absurd rfl hne⟩
    rw [List.append_nil]
    rfl
  | cons v l ih =>
    obtain ⟨hnotmem, hl⟩ := List.nodup_cons.mp hl
    obtain ⟨hv, u, huv⟩ := hready v (List.mem_cons_self ..)
    obtain ⟨accepted, haccept, hidle⟩ := accept_stateAt policy (p := p) h
      (mem_nodesOf.mp hv.1)
    cases accepted with
    | false =>
      have hskip : (tryRelease acc v).run (stateAt g nodeRun inputData policy p) =
          .ok acc (stateAt g nodeRun inputData policy p) := by
        simp only [tryRelease, Call.get_bind_run, haccept, Call.lift_ok, pure_bind]
        rfl
      obtain ⟨ready, p', hrun, hr, -⟩ := ih hl hp
        (fun w hw => hready w (List.mem_cons_of_mem _ hw)) acc
      refine ⟨ready, p', ?_, hr, fun hempty => ?_⟩
      · rw [List.foldlM_cons, EStateM.run_bind, hskip]
        exact hrun
      · exact absurd (hidle hempty) (by simp)
    | true =>
      obtain ⟨x, hx⟩ := h.inner v (mem_nodesOf.mp hv.1)
      have hrelease : (tryRelease acc v).run (stateAt g nodeRun inputData policy p) =
          .ok (acc ++ [readyNode g nodeRun inputData v x])
            (stateAt g nodeRun inputData policy (p.start v)) := by
        simp only [tryRelease, Call.get_bind_run, haccept, Call.lift_ok, pure_bind]
        exact Call.bind_run_eq_ok.mpr ⟨_, _, releaseNode_stateAt h hv huv hx, rfl⟩
      -- the other nodes may still be started
      have hrest : ∀ w ∈ l, (p.start v).Startable g.Pred (nodesOf g) w ∧ ∃ u, g.Pred u w := by
        intro w hw
        obtain ⟨⟨hnode, hnotrun, hnotdone, hpred⟩, hsource⟩ := hready w (List.mem_cons_of_mem _ hw)
        refine ⟨⟨hnode, ?_, hnotdone, hpred⟩, hsource⟩
        simp only [Dag.Progress.start, Finset.mem_insert, not_or]
        exact ⟨fun hwv => hnotmem (hwv ▸ hw), hnotrun⟩
      obtain ⟨ready, p', hrun, hr, -⟩ := ih hl (hp.start hv) hrest
        (acc ++ [readyNode g nodeRun inputData v x])
      refine ⟨readyNode g nodeRun inputData v x :: ready, p', ?_, hr.cons hv hx, fun _ _ => by simp⟩
      rw [List.foldlM_cons, EStateM.run_bind, hrelease]
      simp only [hrun, List.append_assoc, List.singleton_append]

/-- `next_ready_nodes` releases a batch of nodes, a nonempty one if nothing is
    running and some node other than a source may be started. -/
theorem nextReadyNodes_stateAt (policy : ReleasePolicy) (h : g.Runnable nodeRun inputData)
    (hp : p.Valid g.Pred (nodesOf g)) (order : HashOrder) :
    ∃ ready p', (nextReadyNodes order).run (stateAt g nodeRun inputData policy p) =
        .ok ready (stateAt g nodeRun inputData policy p') ∧
      Releases g nodeRun inputData p ready p' ∧
      (p.running = ∅ → (∃ v, p.Startable g.Pred (nodesOf g) v ∧ ∃ u, g.Pred u v) → ready ≠ []) := by
  have hperm := order.perm (stateAt g nodeRun inputData policy p).readyNodeIds
  obtain ⟨ready, p', hrun, hr, hne⟩ := foldlM_tryRelease policy h
    (order.toFun (stateAt g nodeRun inputData policy p).readyNodeIds)
    (hperm.nodup_iff.mpr (nodup_readyNodeIds _)) hp
    (fun v hv => (mem_readyNodeIds_stateAt policy h).mp (hperm.mem_iff.mp hv)) []
  refine ⟨ready, p', hrun, hr, fun hempty ⟨v, hv⟩ => hne hempty ?_⟩
  have hmem := hperm.mem_iff.mpr ((mem_readyNodeIds_stateAt policy h).mpr hv)
  exact List.ne_nil_of_mem hmem

end Pull

/-! ## Initialization -/

/-- Collect an input under its node. -/
private def collect (inputs : HashMap NodeId (BTreeMap PortId Io)) (entry : NodeInput × Io) :
    HashMap NodeId (BTreeMap PortId Io) :=
  inputs.insert entry.1.nodeId ((inputs.getD entry.1.nodeId ∅).insert entry.1.port entry.2)

/-- Inputs for sources, with pairwise distinct keys, are collected without error. -/
private theorem foldlM_initInput {s : GraphScheduler N C Io} (l : List (NodeInput × Io))
    (hl : (l.map Prod.fst).Nodup) (hsource : ∀ e ∈ l, s.graph.isSource e.1.nodeId = true)
    (inputs : HashMap NodeId (BTreeMap PortId Io))
    (hfresh : ∀ e ∈ l, (inputs.getD e.1.nodeId ∅).contains e.1.port = false) :
    (l.foldlM initInput inputs).run s = .ok (l.foldl collect inputs) s := by
  induction l generalizing inputs with
  | nil => rfl
  | cons e l ih =>
    obtain ⟨hnotmem, hl⟩ := List.nodup_cons.mp hl
    have hstep : (initInput inputs e).run s = .ok (collect inputs e) s := by
      simp only [initInput, Call.get_bind_run, hsource e (List.mem_cons_self ..), if_true,
        hfresh e (List.mem_cons_self ..), Bool.not_false, ensure_true, Call.lift_ok, pure_bind,
        EStateM.run_pure]
      rfl
    rw [List.foldlM_cons, EStateM.run_bind, hstep]
    refine ih hl (fun e' he' => hsource e' (List.mem_cons_of_mem _ he')) _ fun e' he' => ?_
    have hold := hfresh e' (List.mem_cons_of_mem _ he')
    rw [collect, Std.ExtTreeMap.getD_insert]
    split
    · rename_i hnode
      have hnode : e.1.nodeId = e'.1.nodeId := by simpa using hnode
      have hport : e.1.port ≠ e'.1.port := by
        intro hport
        have heq : e.1 = e'.1 := by
          cases h₁ : e.1; cases h₂ : e'.1
          simp_all
        exact hnotmem (heq ▸ List.mem_map_of_mem he')
      rw [Std.ExtTreeMap.contains_insert, hnode, hold]
      simpa using hport
    · exact hold

private theorem getElem?_collect (l : List (NodeInput × Io))
    (inputs : HashMap NodeId (BTreeMap PortId Io)) (v : NodeId) :
    (l.foldl collect inputs)[v]? =
      match l.filter fun e => e.1.nodeId == v with
      | [] => inputs[v]?
      | es => some ((inputs.getD v ∅).insertMany (es.map fun e => (e.1.port, e.2))) := by
  induction l generalizing inputs with
  | nil => rfl
  | cons e l ih =>
    rw [List.foldl_cons, ih]
    by_cases hv : e.1.nodeId = v
    · subst hv
      simp only [collect, beq_self_eq_true, List.filter_cons_of_pos,
        Std.ExtTreeMap.getElem?_insert_self, Std.ExtTreeMap.getD_insert_self, List.map_cons,
        Std.ExtTreeMap.insertMany_cons]
      split
      · rename_i hnil
        rw [hnil, List.map_nil, Std.ExtTreeMap.insertMany_nil]
      · rfl
    · have hbeq : (e.1.nodeId == v) = false := by simpa using hv
      rw [List.filter_cons_of_neg (by simp [hbeq])]
      simp only [collect, Std.ExtTreeMap.getElem?_insert, Std.ExtTreeMap.getD_insert,
        Std.compare_eq_iff_eq, hv, if_false]

/-- A new scheduler is in the state of an execution that has not begun. -/
theorem new_eq_stateAt (h : g.Runnable nodeRun inputData) :
    (new g).withReleasePolicy policy =
      stateAt g nodeRun inputData policy Dag.Progress.initial := by
  have hedges : (stateAt g nodeRun inputData policy Dag.Progress.initial).graph.edges =
      g.edges := by
    apply Std.ExtTreeMap.ext_getElem?
    intro id
    rw [getElem?_edges_stateAt]
    cases he : g.edges[id]? with
    | none => rfl
    | some e =>
      have hw : weightAt g nodeRun inputData Dag.Progress.initial e = e.weight := by
        rw [h.empty id e he]
        simp [weightAt, Dag.Progress.initial]
      rw [Option.map_some, hw]
  exact (congrArg (setEdges ((new g).withReleasePolicy policy)) hedges).symm

/-- A source does not change the edges when it is started. -/
private theorem stateAt_start_source (hv : ∀ u, ¬g.Pred u v) :
    stateAt g nodeRun inputData policy (p.start v) =
      { stateAt g nodeRun inputData policy p with runningNodes := insert v p.running } := by
  have hedges : (stateAt g nodeRun inputData policy (p.start v)).graph.edges =
      (stateAt g nodeRun inputData policy p).graph.edges := by
    apply Std.ExtTreeMap.ext_getElem?
    intro id
    rw [getElem?_edges_stateAt, getElem?_edges_stateAt]
    cases he : g.edges[id]? with
    | none => rfl
    | some e =>
      have ht : e.target ≠ v := fun ht => hv e.source ⟨id, e, he, rfl, ht⟩
      rw [Option.map_some, Option.map_some, weightAt_start, if_neg ht]
  exact congrArg (setEdges { stateAt g nodeRun inputData policy p with
    runningNodes := insert v p.running }) hedges

private theorem mapM_initNode (policy : ReleasePolicy) (h : g.Runnable nodeRun inputData)
    {inputs : HashMap NodeId (BTreeMap PortId Io)} (l : List NodeId) (hl : l.Nodup)
    (hinputs : ∀ v ∈ l, inputs[v]? =
      some (g.inputsByPort inputData (g.outputsOf nodeRun inputData) v))
    (hsource : ∀ v ∈ l, v ∈ g.sourceNodes ∧ v ∉ p.running ∧ v ∉ p.done)
    (hp : p.Valid g.Pred (nodesOf g)) :
    ∃ ready p', (l.mapM (initNode inputs)).run (stateAt g nodeRun inputData policy p) =
        .ok ready (stateAt g nodeRun inputData policy p') ∧
      Releases g nodeRun inputData p ready p' ∧ ready.map ReadyNode.nodeId = l := by
  induction l generalizing p with
  | nil => exact ⟨[], p, rfl, releases_nil hp, rfl⟩
  | cons v l ih =>
    obtain ⟨hnotmem, hl⟩ := List.nodup_cons.mp hl
    obtain ⟨hv, hrun, hdone⟩ := hsource v (List.mem_cons_self ..)
    obtain ⟨hmem, hpred⟩ := mem_sourceNodes.mp hv
    obtain ⟨x, hx⟩ := h.inner v hmem
    have hstart : p.Startable g.Pred (nodesOf g) v :=
      ⟨mem_nodesOf.mpr hmem, hrun, hdone, fun u hu => absurd hu (hpred u)⟩
    have hinit : (initNode inputs v).run (stateAt g nodeRun inputData policy p) =
        .ok (readyNode g nodeRun inputData v x)
          (stateAt g nodeRun inputData policy (p.start v)) := by
      have hx' : (stateAt g nodeRun inputData policy p).graph.nodes[v]? = some (.inner x) := hx
      simp only [initNode, hinputs v (List.mem_cons_self ..), unwrap_some, Call.lift_ok, pure_bind,
        Call.get_bind_run, hx', Call.modify_bind_run, Node.asInner, EStateM.run_pure]
      rw [stateAt_start_source hpred]
      rfl
    obtain ⟨ready, p', hready, hr, hids⟩ := ih hl
      (fun w hw => hinputs w (List.mem_cons_of_mem _ hw))
      (fun w hw => by
        obtain ⟨hw', hwrun, hwdone⟩ := hsource w (List.mem_cons_of_mem _ hw)
        refine ⟨hw', ?_, hwdone⟩
        simp only [Dag.Progress.start, Finset.mem_insert, not_or]
        exact ⟨fun hwv => hnotmem (hwv ▸ hw), hwrun⟩)
      (hp.start hstart)
    refine ⟨readyNode g nodeRun inputData v x :: ready, p', ?_, hr.cons hstart hx, ?_⟩
    · rw [List.mapM_cons]
      refine Call.bind_run_eq_ok.mpr ⟨_, _, hinit, ?_⟩
      exact Call.bind_run_eq_ok.mpr ⟨_, _, hready, rfl⟩
    · rw [List.map_cons, hids]
      rfl

/-- External data is addressed to the sources, and to every source. -/
private theorem filter_inputs_ne_nil (h : g.Runnable nodeRun inputData) :
    inputData.toList.filter (fun e => e.1.nodeId == v) ≠ [] ↔ v ∈ g.sourceNodes := by
  rw [ne_eq, List.filter_eq_nil_iff]
  push Not
  constructor
  · intro ⟨⟨k, io⟩, hk, hkv⟩
    have hmem : k ∈ inputData := by
      rw [Std.ExtTreeMap.mem_iff_isSome_getElem?,
        Std.ExtTreeMap.mem_toList_iff_getElem?_eq_some.mp hk]
      rfl
    have hkv : k.nodeId = v := by simpa using hkv
    exact hkv ▸ h.addressed k hmem
  · intro hv
    obtain ⟨k, hk, hkv⟩ := h.fed v hv
    refine ⟨(k, inputData[k]), ?_, by simpa using hkv⟩
    rw [Std.ExtTreeMap.mem_toList_iff_getElem?_eq_some]
    exact Std.ExtTreeMap.getElem?_eq_some_getElem hk

/-- `init_nodes` releases the sources. -/
theorem initNodes_new (policy : ReleasePolicy) (h : g.Runnable nodeRun inputData) (order : HashOrder) :
    ∃ ready p', (initNodes order inputData).run ((new g).withReleasePolicy policy) =
        .ok ready (stateAt g nodeRun inputData policy p') ∧
      Releases g nodeRun inputData Dag.Progress.initial ready p' ∧
      ∀ v, v ∈ p'.running ↔ v ∈ g.sourceNodes := by
  set inputs := inputData.toList.foldl collect ∅ with hinputs
  have hkey : ∀ v, v ∈ inputs.keys ↔ v ∈ g.sourceNodes := by
    intro v
    rw [Std.ExtTreeMap.mem_keys, Std.ExtTreeMap.mem_iff_isSome_getElem?, hinputs, getElem?_collect,
      ← filter_inputs_ne_nil h]
    split <;> simp_all
  have hget : ∀ v ∈ inputs.keys, inputs[v]? =
      some (g.inputsByPort inputData (g.outputsOf nodeRun inputData) v) := by
    intro v hv
    have hsource := (hkey v).mp hv
    have hno : g.incomings v = [] := by
      rw [List.eq_nil_iff_forall_not_mem]
      intro ⟨id, e⟩ he
      obtain ⟨he, ht⟩ := mem_incomings.mp he
      exact (mem_sourceNodes.mp hsource).2 e.source ⟨id, e, he, rfl, ht⟩
    rw [hinputs, getElem?_collect, inputsByPort, hno, externalData]
    split
    · rename_i hnil
      exact absurd hnil ((filter_inputs_ne_nil h).mpr hsource)
    · simp
  have hperm := order.perm inputs.keys
  have hcollect : (inputData.toList.foldlM initInput ∅).run
      (stateAt g nodeRun inputData policy Dag.Progress.initial) =
        .ok inputs (stateAt g nodeRun inputData policy Dag.Progress.initial) := by
    refine foldlM_initInput _ ?_ ?_ _ ?_
    · rw [Std.ExtTreeMap.map_fst_toList_eq_keys]
      exact inputData.nodup_keys
    · intro e he
      have hne : inputData.toList.filter (fun e' => e'.1.nodeId == e.1.nodeId) ≠ [] :=
        List.ne_nil_of_mem (List.mem_filter.mpr ⟨he, by simp⟩)
      have hsource := (filter_inputs_ne_nil h).mp hne
      rw [← new_eq_stateAt h]
      exact (List.mem_filter.mp hsource).2
    · simp
  obtain ⟨ready, p', hrun, hr, hids⟩ := mapM_initNode policy h
    (order.toFun inputs.keys) (hperm.nodup_iff.mpr inputs.nodup_keys)
    (fun v hv => hget v (hperm.mem_iff.mp hv))
    (fun v hv => ⟨(hkey v).mp (hperm.mem_iff.mp hv), by simp [Dag.Progress.initial],
      by simp [Dag.Progress.initial]⟩)
    Dag.Progress.valid_initial
  refine ⟨ready, p', ?_, hr, fun v => ?_⟩
  · rw [new_eq_stateAt h]
    have hwaiting : (stateAt g nodeRun inputData policy
        Dag.Progress.initial).waitingInputData.isEmpty = true := rfl
    have hrunning : (stateAt g nodeRun inputData policy Dag.Progress.initial).runningNodes = ∅ :=
      rfl
    have hdone : (stateAt g nodeRun inputData policy Dag.Progress.initial).doneNodes = ∅ := rfl
    simp only [initNodes, Call.get_bind_run, hwaiting, hrunning, hdone, decide_true, ensure_true,
      Call.lift_ok, pure_bind]
    exact Call.bind_run_eq_ok.mpr ⟨_, _, hcollect, hrun⟩
  · rw [hr.running, hids]
    simp [Dag.Progress.initial, hperm.mem_iff, hkey]

end GraphScheduler

end DeepProve
