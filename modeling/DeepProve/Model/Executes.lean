import DeepProve.Model.Run

/-!
# Models that are executed as they are meant

`executesAlways_iff`: the runs of a model do what the model says, for all layers, inputs and numbers
of runs, exactly if the layers have no unused port below a used one and the edges into the outputs
of the model were added in the order of the outputs.
-/

namespace DeepProve.Graph

variable {L T : Type} {numOutputs : L → Nat → Nat} {g : ModelGraph L}
  {F : LayerFunctions L T numOutputs} {inputs : List T}

/-! ## Executable models -/

variable {n : NodeId}

theorem outputNode_numOutputsAt {i : Nat} (h : g.nodes[n]? = some (.output i)) :
    g.numOutputsAt numOutputs n = 0 := by
  rw [numOutputsAt, h]

theorem inputNode_numOutputsAt {i : Nat} (h : g.nodes[n]? = some (.input i)) :
    g.numOutputsAt numOutputs n = 1 := by
  rw [numOutputsAt, h]

variable {key : NodeOutput}

/-- Without gaps each output is assigned to its own port. -/
theorem Executable.assignedSlot_eq (h : g.Executable numOutputs) (hread : g.IsRead key) :
    g.assignedSlot key = key.port := by
  unfold assignedSlot
  split
  · exact (List.countP_lt_eq_iff (nodup_outgoingPorts key.nodeId)).mpr (h.gapless key hread)
  · rfl

theorem Executable.assignedValue_eq (h : g.Executable numOutputs) (hread : g.IsRead key) :
    g.assignedValue F inputs key = g.valueOf F inputs key := by
  have houtputs : g.nodeOutputs F inputs g.assignedSlot = g.nodeOutputs F inputs NodePort.port :=
    nodeOutputs_congr fun key hread => h.assignedSlot_eq hread
  rw [assignedValue, valueOf, valueVia, valueVia, readFrom, readFrom, houtputs,
    h.assignedSlot_eq hread]

/-- The tensor that a layer receives on a port. -/
theorem getElem?_received (hg : g.PortInvariant fun _ => []) {value : NodeOutput → Option T}
    {tensors : List T} (h : tensors.map some = (g.inputKeys n).map value) {feed : Feed}
    (hfeed : feed ∈ g.incomingFeeds n) :
    ∃ t, value feed.source = some t ∧ tensors[feed.target.port]? = some t := by
  have hkey : (g.inputKeys n)[feed.target.port]? = some feed.source := by
    rw [inputKeys, List.getElem?_map, getElem?_incomingFeeds hg hfeed]
    rfl
  have hget := congrArg (fun l => l[feed.target.port]?) h
  simp only [List.getElem?_map, hkey, Option.map_some] at hget
  cases htensor : tensors[feed.target.port]? with
  | none =>
    rw [htensor] at hget
    cases hget
  | some t =>
    rw [htensor] at hget
    exact ⟨t, (Option.some.inj hget).symm, rfl⟩

/-- The tensor of an output of the model. -/
theorem getElem?_outputs {value : NodeOutput → Option T} {outputs : List (TensorHandle T)}
    (h : outputs.map TensorHandle.tensor = g.outputKeys.map value) (i : Nat) :
    (outputs[i]?).bind TensorHandle.tensor = (g.outputKeys[i]?).bind value := by
  have hget := congrArg (fun l => l[i]?) h
  simp only [List.getElem?_map] at hget
  cases houtput : outputs[i]? with
  | none =>
    cases hkey : g.outputKeys[i]? with
    | none => rfl
    | some key => simp [houtput, hkey] at hget
  | some handle =>
    cases hkey : g.outputKeys[i]? with
    | none => simp [houtput, hkey] at hget
    | some key =>
      rw [houtput, hkey] at hget
      exact Option.some.inj hget

theorem mem_evaluatedNode {events : List (RunEvent T)} :
    n ∈ events.filterMap RunEvent.evaluatedNode ↔ ∃ tensors, .evaluated n tensors ∈ events := by
  rw [List.mem_filterMap]
  constructor
  · rintro ⟨event, hmem, hn⟩
    cases event with
    | evaluated m tensors =>
      obtain rfl := Option.some.inj hn
      exact ⟨tensors, hmem⟩
    | dried key => cases hn
  · rintro ⟨tensors, hmem⟩
    exact ⟨_, hmem, rfl⟩

theorem mem_forwardInners_fst (hacyclic : Dag.Acyclic g.Pred) :
    n ∈ g.forwardInners.map Prod.fst ↔ ∃ layer, g.nodes[n]? = some (.inner layer) := by
  rw [List.mem_map]
  constructor
  · rintro ⟨⟨n, layer⟩, hmem, rfl⟩
    exact ⟨layer, (mem_forwardInners hacyclic).mp hmem⟩
  · rintro ⟨layer, hnode⟩
    exact ⟨(n, layer), (mem_forwardInners hacyclic).mpr hnode, rfl⟩

/-- One run. -/
theorem RunsOnAssigned.executes (hacyclic : Dag.Acyclic g.Pred) (hg : g.PortInvariant fun _ => [])
    (h : g.Executable numOutputs) (hlength : inputs.length = g.inputIds.length) {log : RunLog T}
    (hlog : g.RunsOnAssigned F inputs log) : g.Executes F inputs log where
  once := by
    rw [hlog.evaluated]
    exact ⟨g.nodup_forwardInners, fun n => mem_forwardInners_fst hacyclic⟩
  received n tensors hmem := by
    have hreceived := hlog.received n tensors hmem
    obtain ⟨layer, hnode⟩ : ∃ layer, g.nodes[n]? = some (.inner layer) := by
      rw [← mem_forwardInners_fst hacyclic, ← hlog.evaluated]
      exact mem_evaluatedNode.mpr ⟨tensors, hmem⟩
    refine ⟨by simpa [inputKeys] using congrArg List.length hreceived, fun feed hfeed => ?_⟩
    have hread : g.IsRead feed.source :=
      ⟨n, .inl ⟨layer, hnode⟩, List.mem_map_of_mem (f := Feed.source) hfeed⟩
    rw [← h.assignedValue_eq hread]
    exact getElem?_received hg hreceived hfeed
  dried := hlog.dried
  outputs := by
    have hcount := congrArg List.length hlog.outputs
    rw [List.length_map, List.length_map, h.ordered.1] at hcount
    refine ⟨hcount, fun n i hnode key hkey => ?_⟩
    have hread : g.IsRead key := ⟨n, .inr ⟨i, hnode⟩, hkey⟩
    obtain ⟨t, ht⟩ := exists_assignedValue (F := F) hacyclic hg
      (fun n i hnode => hlength ▸ lt_length_inputIds h.inputs hnode) h.ports hread
    have hget := getElem?_outputs hlog.outputs i
    rw [h.ordered.2 n i hnode key hkey, Option.bind_some, ht] at hget
    exact ⟨t, (h.assignedValue_eq hread).symm.trans ht, hget⟩

/-- All runs. -/
theorem Executable.runs (hacyclic : Dag.Acyclic g.Pred) (hg : g.PortInvariant fun _ => [])
    (h : g.Executable numOutputs) (F : LayerFunctions L T numOutputs)
    (runner : HandleLifetimeRunner T) (inputs : List (List T))
    (hlength : ∀ xs ∈ inputs, xs.length = g.inputIds.length) :
    ∃ logs, runner.runs F g inputs = .ok logs ∧ List.Forall₂ (g.Executes F) inputs logs := by
  induction inputs generalizing runner with
  | nil => exact ⟨[], rfl, .nil⟩
  | cons xs inputs ih =>
    obtain ⟨hxs, hrest⟩ := List.forall_mem_cons.mp hlength
    obtain ⟨runner', log, hrun, hlog⟩ := exists_run hacyclic hg h.ports h.inputs F runner hxs
    obtain ⟨logs, hruns, hlogs⟩ := ih runner' hrest
    refine ⟨log :: logs, ?_, .cons (hlog.executes hacyclic hg h hxs) hlogs⟩
    rw [HandleLifetimeRunner.runs, hrun, Outcome.ok_bind]
    dsimp only
    rw [hruns]
    rfl

/-! ## Marked ports -/

/-- Layers that put a mark on one output of one node. -/
def markedLayers (numOutputs : L → Nat → Nat) (mark : NodeOutput → T) :
    LayerFunctions L T numOutputs where
  asKindStr _ := ""
  unpaddedShape _ := []
  outputShapes _ layer shapes := List.replicate (numOutputs layer shapes.length) []
  evaluate n layer inputs := (List.range (numOutputs layer inputs.length)).map fun p => mark ⟨n, p⟩
  length_outputShapes _ _ _ := List.length_replicate
  length_evaluate _ _ _ := by rw [List.length_map, List.length_range]

/-- The inputs of the model with the marks of their nodes. -/
def markedInputs (g : ModelGraph L) (mark : NodeOutput → T) : List T :=
  (List.range g.inputIds.length).map fun i =>
    match g.inputNodeId i with
    | .ok n => mark ⟨n, 0⟩
    | .error _ => mark ⟨0, 0⟩

theorem length_markedInputs (g : ModelGraph L) (mark : NodeOutput → T) :
    (g.markedInputs mark).length = g.inputIds.length := by
  rw [markedInputs, List.length_map, List.length_range]

section Marked

variable (hacyclic : Dag.Acyclic g.Pred) (hg : g.PortInvariant fun _ => [])
include hacyclic hg

/-- A node has its marks on its outputs. -/
theorem nodeOutputs_marked (hnumbered : ∀ i < g.inputIds.length, i ∈ g.inputIds)
    (mark : NodeOutput → T) (slot : Slot) {n : NodeId} (hn : n ∈ g.nodes) {p : Nat} {t : T}
    (h : (g.nodeOutputs (markedLayers numOutputs mark) (g.markedInputs mark) slot n)[p]? = some t) :
    t = mark ⟨n, p⟩ := by
  obtain ⟨node, hnode⟩ := Option.isSome_iff_exists.mp
    (Std.ExtTreeMap.mem_iff_isSome_getElem?.mp hn)
  cases node with
  | input i =>
    have hi := lt_length_inputIds hnumbered hnode
    have hinput : (g.markedInputs mark)[i]? = some (mark ⟨n, 0⟩) := by
      rw [markedInputs, List.getElem?_map, List.getElem?_range hi, Option.map_some,
        inputNodeId_of_node hnumbered hnode]
    rw [nodeOutputs_input hacyclic hg hnode, hinput, Option.toList_some] at h
    cases p with
    | zero => exact (Option.some.inj h).symm
    | succ p => cases h
  | inner layer =>
    rw [nodeOutputs_inner hacyclic hg hnode] at h
    have hmap : (markedLayers numOutputs mark).evaluate n layer
        ((g.inputKeys n).filterMap (g.valueVia (markedLayers numOutputs mark)
          (g.markedInputs mark) slot)) = (List.range (numOutputs layer _)).map _ := rfl
    rw [hmap, List.getElem?_map, Option.map_eq_some_iff] at h
    obtain ⟨q, hq, rfl⟩ := h
    obtain ⟨hlt, hq⟩ := List.getElem?_eq_some_iff.mp hq
    rw [List.getElem_range] at hq
    rw [hq]
  | output i =>
    rw [nodeOutputs_output hacyclic hg hnode] at h
    cases h

/-! ## What the runs show -/

namespace ExecutesAlways

variable (h : g.ExecutesAlways T numOutputs)
include h

omit hacyclic hg in
/-- One run of the model with a new runner. -/
theorem exists_run (F : LayerFunctions L T numOutputs) (hlength : inputs.length = g.inputIds.length) :
    ∃ runner' log, (HandleLifetimeRunner.new g).run F g inputs = .ok (runner', log) ∧
      g.Executes F inputs log := by
  obtain ⟨logs, hruns, hlogs⟩ := h F [inputs] (by simpa using hlength)
  rw [HandleLifetimeRunner.runs, Outcome.bind_eq_ok] at hruns
  obtain ⟨⟨runner', log⟩, hrun, hrest⟩ := hruns
  obtain rfl := (Except.ok.inj hrest).symm
  cases hlogs with
  | cons hlog _ => exact ⟨runner', log, hrun, hlog⟩

omit hacyclic hg in
theorem numbered [Inhabited T] (i : Nat) (hi : i < g.inputIds.length) : i ∈ g.inputIds := by
  have hlength : (List.replicate g.inputIds.length (default : T)).length = g.inputIds.length :=
    List.length_replicate
  obtain ⟨runner', log, hrun, -⟩ := h.exists_run (markedLayers numOutputs fun _ => default) hlength
  rw [HandleLifetimeRunner.run, Outcome.bind_eq_ok] at hrun
  obtain ⟨handles, hhandles, -⟩ := hrun
  have hentry : ((default : T), i) ∈ (List.replicate g.inputIds.length (default : T)).zipIdx := by
    rw [List.mem_zipIdx_iff_getElem?, List.getElem?_replicate, if_pos hi]
  obtain ⟨handle, -, hok⟩ :=
    List.exists_of_forall₂_left (Outcome.forall₂_of_mapM_eq_ok hhandles) hentry
  obtain ⟨n, hn, -⟩ := Outcome.bind_eq_ok.mp hok
  exact mem_inputIds.mpr ⟨n, inputNodeId_eq_ok hn⟩

end ExecutesAlways

end Marked

/-- What is read has a value. -/
theorem Executes.exists_valueOf {log : RunLog T} (h : g.Executes F inputs log)
    (hread : g.IsRead key) : ∃ t, g.valueOf F inputs key = some t := by
  obtain ⟨n, hreader, hkey⟩ := hread
  rcases hreader with ⟨layer, hnode⟩ | ⟨i, hnode⟩
  · obtain ⟨tensors, hmem⟩ := mem_evaluatedNode.mp ((h.once.2 n).mpr ⟨layer, hnode⟩)
    obtain ⟨feed, hfeed, rfl⟩ := List.mem_map.mp hkey
    obtain ⟨t, ht, -⟩ := (h.received n tensors hmem).2 feed hfeed
    exact ⟨t, ht⟩
  · obtain ⟨t, ht, -⟩ := h.outputs.2 n i hnode key hkey
    exact ⟨t, ht⟩

/-- What is read is a port of its node. -/
theorem Executes.port_lt (hacyclic : Dag.Acyclic g.Pred) (hg : g.PortInvariant fun _ => [])
    {log : RunLog T} (h : g.Executes F inputs log) (hread : g.IsRead key) :
    key.port < g.numOutputsAt numOutputs key.nodeId := by
  obtain ⟨t, ht⟩ := h.exists_valueOf hread
  have hlt : key.port < (g.nodeOutputs F inputs NodePort.port key.nodeId).length :=
    (List.getElem?_eq_some_iff.mp ht).1
  obtain ⟨n, -, hkey⟩ := hread
  obtain ⟨node, hnode⟩ := Option.isSome_iff_exists.mp
    (Std.ExtTreeMap.mem_iff_isSome_getElem?.mp (mem_nodes_of_pred hg (pred_of_mem_inputKeys hkey)))
  cases node with
  | input i =>
    rw [nodeOutputs_input hacyclic hg hnode] at hlt
    rw [inputNode_numOutputsAt hnode]
    exact hlt.trans_le Option.length_toList_le
  | output i =>
    rw [nodeOutputs_output hacyclic hg hnode] at hlt
    exact absurd hlt (Nat.not_lt_zero _)
  | inner layer =>
    rwa [length_nodeOutputs_inner hacyclic hg hnode fun key' hkey' =>
      h.exists_valueOf ⟨key.nodeId, .inl ⟨layer, hnode⟩, hkey'⟩] at hlt

namespace ExecutesAlways

variable (hacyclic : Dag.Acyclic g.Pred) (hg : g.PortInvariant fun _ => [])
  (h : g.ExecutesAlways T numOutputs)
include hacyclic hg h

theorem ports [Inhabited T] (key : NodeOutput) (hread : g.IsRead key) :
    key.port < g.numOutputsAt numOutputs key.nodeId := by
  obtain ⟨runner', log, -, hlog⟩ := h.exists_run (markedLayers numOutputs fun _ => default)
    (g.length_markedInputs fun _ => default)
  exact hlog.port_lt hacyclic hg hread

/-- A run on marks, seen from both sides. -/
theorem exists_marked_run [Inhabited T] (mark : NodeOutput → T) :
    ∃ log, g.Executes (markedLayers numOutputs mark) (g.markedInputs mark) log ∧
      g.RunsOnAssigned (markedLayers numOutputs mark) (g.markedInputs mark) log := by
  obtain ⟨runner', log, hrun, hlog⟩ :=
    h.exists_run (markedLayers numOutputs mark) (g.length_markedInputs mark)
  obtain ⟨runner'', log', hrun', hlog'⟩ := Graph.exists_run hacyclic hg (h.ports hacyclic hg)
    h.numbered (markedLayers numOutputs mark) (HandleLifetimeRunner.new g)
    (g.length_markedInputs mark)
  have heq : log = log' := congrArg Prod.snd (Except.ok.inj (hrun.symm.trans hrun'))
  exact ⟨log, hlog, heq ▸ hlog'⟩

variable {key : NodeOutput}

/-- The mark of a port that is read. -/
theorem valueOf_marked [Inhabited T] (mark : NodeOutput → T) (hread : g.IsRead key) :
    g.valueOf (markedLayers numOutputs mark) (g.markedInputs mark) key = some (mark key) := by
  obtain ⟨log, hlog, -⟩ := h.exists_marked_run hacyclic hg mark
  obtain ⟨t, ht⟩ := hlog.exists_valueOf hread
  obtain ⟨n, -, hkey⟩ := hread
  rw [ht, nodeOutputs_marked hacyclic hg h.numbered mark NodePort.port
    (mem_nodes_of_pred hg (pred_of_mem_inputKeys hkey)) ht]

/-- The mark that the runner has for it. -/
theorem assignedValue_marked [Inhabited T] (mark : NodeOutput → T) (hread : g.IsRead key) :
    g.assignedValue (markedLayers numOutputs mark) (g.markedInputs mark) key =
      some (mark ⟨key.nodeId, g.assignedSlot key⟩) := by
  have hinputs : ∀ (n : NodeId) (i : Nat), g.nodes[n]? = some (.input i) →
      i < (g.markedInputs mark).length := fun n i hnode => by
    rw [length_markedInputs]
    exact lt_length_inputIds h.numbered hnode
  obtain ⟨t, ht⟩ := exists_assignedValue (F := markedLayers numOutputs mark) hacyclic hg hinputs
    (h.ports hacyclic hg) hread
  obtain ⟨n, -, hkey⟩ := hread
  rw [ht, nodeOutputs_marked hacyclic hg h.numbered mark g.assignedSlot
    (mem_nodes_of_pred hg (pred_of_mem_inputKeys hkey)) ht]

/-- A layer that reads a port receives the output of its number. -/
theorem assignedSlot_eq_of_inner [Nontrivial T] {n : NodeId} {layer : L}
    (hnode : g.nodes[n]? = some (.inner layer)) (hkey : key ∈ g.inputKeys n) :
    g.assignedSlot key = key.port := by
  obtain ⟨a, b, hab⟩ := exists_pair_ne T
  have : Inhabited T := ⟨a⟩
  let mark : NodeOutput → T := fun k => if k = key then b else a
  have hread : g.IsRead key := ⟨n, .inl ⟨layer, hnode⟩, hkey⟩
  obtain ⟨log, hlog, hassigned⟩ := h.exists_marked_run hacyclic hg mark
  obtain ⟨tensors, hmem⟩ := mem_evaluatedNode.mp ((hlog.once.2 n).mpr ⟨layer, hnode⟩)
  obtain ⟨feed, hfeed, rfl⟩ := List.mem_map.mp hkey
  obtain ⟨t, ht, htensor⟩ := (hlog.received n tensors hmem).2 feed hfeed
  obtain ⟨t', ht', htensor'⟩ := getElem?_received hg (hassigned.received n tensors hmem) hfeed
  rw [h.valueOf_marked hacyclic hg mark hread] at ht
  rw [h.assignedValue_marked hacyclic hg mark hread] at ht'
  have hmarks : mark ⟨feed.source.nodeId, g.assignedSlot feed.source⟩ = b := by
    rw [Option.some.inj ht', ← Option.some.inj (htensor.symm.trans htensor'), ← Option.some.inj ht]
    exact if_pos rfl
  by_contra hne
  have hother : mark ⟨feed.source.nodeId, g.assignedSlot feed.source⟩ = a :=
    if_neg fun heq => hne (congrArg NodePort.port heq)
  exact hab (hother.symm.trans hmarks)

/-- What is returned as an output is taken from the port that is linked to it. -/
theorem exists_outputKey [Nontrivial T] {n : NodeId} {i : Nat}
    (hnode : g.nodes[n]? = some (.output i)) (hkey : key ∈ g.inputKeys n) :
    ∃ key', g.outputKeys[i]? = some key' ∧
      (⟨key'.nodeId, g.assignedSlot key'⟩ : NodeOutput) = key := by
  obtain ⟨a, b, hab⟩ := exists_pair_ne T
  have : Inhabited T := ⟨a⟩
  let mark : NodeOutput → T := fun k => if k = key then b else a
  have hread : g.IsRead key := ⟨n, .inr ⟨i, hnode⟩, hkey⟩
  obtain ⟨log, hlog, hassigned⟩ := h.exists_marked_run hacyclic hg mark
  obtain ⟨t, ht, houtput⟩ := hlog.outputs.2 n i hnode key hkey
  rw [h.valueOf_marked hacyclic hg mark hread] at ht
  rw [getElem?_outputs hassigned.outputs i, ← ht, Option.bind_eq_some_iff] at houtput
  obtain ⟨key', hkey', hvalue⟩ := houtput
  obtain ⟨m, j, hm, hmem⟩ := mem_outputKeys.mp (List.mem_of_getElem? hkey')
  rw [h.assignedValue_marked hacyclic hg mark ⟨m, .inr ⟨j, hm⟩, hmem⟩] at hvalue
  refine ⟨key', hkey', ?_⟩
  by_contra hne
  have hother : mark ⟨key'.nodeId, g.assignedSlot key'⟩ = a := if_neg hne
  have hmark : mark key = b := if_pos rfl
  exact hab (by rw [← hother, Option.some.inj hvalue, hmark])

/-- The outputs of the model read no port that would be shifted: as the ports that they show are
    those that they read, the shifts would add up to nothing. -/
theorem assignedSlot_eq_of_output [Nontrivial T] (hkey : key ∈ g.outputKeys) :
    g.assignedSlot key = key.port := by
  refine Finset.eq_of_subset_image_of_le (s := g.outputKeys.toFinset)
    (f := fun key => (⟨key.nodeId, g.assignedSlot key⟩ : NodeOutput)) NodePort.port
    (fun key hkey => ?_) (fun key _ => assignedSlot_le key) key (List.mem_toFinset.mpr hkey)
  obtain ⟨n, i, hnode, hmem⟩ := mem_outputKeys.mp (List.mem_toFinset.mp hkey)
  obtain ⟨key', hkey', hshown⟩ := h.exists_outputKey hacyclic hg hnode hmem
  exact Finset.mem_image.mpr ⟨key', List.mem_toFinset.mpr (List.mem_of_getElem? hkey'), hshown⟩

theorem assignedSlot_eq [Nontrivial T] (hread : g.IsRead key) :
    g.assignedSlot key = key.port := by
  obtain ⟨n, ⟨layer, hnode⟩ | ⟨i, hnode⟩, hkey⟩ := hread
  · exact h.assignedSlot_eq_of_inner hacyclic hg hnode hkey
  · exact h.assignedSlot_eq_of_output hacyclic hg (mem_outputKeys.mpr ⟨n, i, hnode, hkey⟩)

theorem executable [Nontrivial T] : g.Executable numOutputs := by
  obtain ⟨a, -, -⟩ := exists_pair_ne T
  have : Inhabited T := ⟨a⟩
  exact {
    inputs := h.numbered
    ports := h.ports hacyclic hg
    gapless := fun key hread port hport => by
      obtain ⟨n, hreader, hkey⟩ := hread
      have hlt := h.ports hacyclic hg key ⟨n, hreader, hkey⟩
      have hslot := h.assignedSlot_eq hacyclic hg ⟨n, hreader, hkey⟩
      obtain ⟨node, hnode⟩ := Option.isSome_iff_exists.mp
        (Std.ExtTreeMap.mem_iff_isSome_getElem?.mp
          (mem_nodes_of_pred hg (pred_of_mem_inputKeys hkey)))
      cases node with
      | input i =>
        rw [inputNode_numOutputsAt hnode] at hlt
        exact absurd (hport.trans_le (Nat.le_of_lt_succ hlt)) (Nat.not_lt_zero port)
      | output i =>
        rw [outputNode_numOutputsAt hnode] at hlt
        exact absurd hlt (Nat.not_lt_zero key.port)
      | inner layer =>
        rw [assignedSlot_inner hnode] at hslot
        exact (List.countP_lt_eq_iff (nodup_outgoingPorts key.nodeId)).mp hslot port hport
    ordered := by
      obtain ⟨log, hlog, hassigned⟩ := h.exists_marked_run hacyclic hg fun _ => a
      refine ⟨?_, fun n i hnode key hkey => ?_⟩
      · have hlength := congrArg List.length hassigned.outputs
        rw [List.length_map, List.length_map] at hlength
        rw [← hlength, hlog.outputs.1]
      · obtain ⟨key', hkey', hshown⟩ := h.exists_outputKey hacyclic hg hnode hkey
        rw [h.assignedSlot_eq_of_output hacyclic hg (List.mem_of_getElem? hkey')] at hshown
        rw [hkey', ← hshown] }

end ExecutesAlways

/-- The runs of a model do what the model says exactly if no unused port of a layer is below a used
    one and the edges into the outputs of the model were added in the order of the outputs. -/
theorem executesAlways_iff [Nontrivial T] (hacyclic : Dag.Acyclic g.Pred)
    (hg : g.PortInvariant fun _ => []) : g.ExecutesAlways T numOutputs ↔ g.Executable numOutputs := by
  constructor
  · exact fun h => h.executable hacyclic hg
  · exact fun h F inputs hlength => h.runs hacyclic hg F _ inputs hlength

/-! ## Two models that are not executed as they are meant -/

theorem acyclic_of_edges (h : ∀ e ∈ g.edges.toList, e.2.source < e.2.target) :
    Dag.Acyclic g.Pred := by
  refine Dag.acyclic_of_lt id fun u v ⟨id, edge, hedge, hs, ht⟩ => ?_
  rw [← hs, ← ht]
  exact h (id, edge) (Std.ExtTreeMap.mem_toList_iff_getElem?_eq_some.mpr hedge)

/-- A layer with two outputs, of which the second is the output of the model. -/
def skippedPortOps : List (Op Nat Nat Nat Unit) :=
  [.addInput 0, .addInner 2, .addOutput 0, .addEdge (fun _ => 0) 0 1 [⟨0, 0⟩] none,
    .addEdge (fun _ => 1) 1 2 [⟨1, 0⟩] none]

def skippedPort : ModelGraph Nat := ((callAll (new, fun _ => []) skippedPortOps).get rfl).1

/-- Two inputs that are the outputs of the model; the second output is linked first. -/
def crossedOutputsOps : List (Op Nat Nat Nat Unit) :=
  [.addInput 0, .addInput 1, .addOutput 0, .addOutput 1, .addEdge (fun _ => 0) 1 3 [⟨0, 0⟩] none,
    .addEdge (fun _ => 1) 0 2 [⟨0, 0⟩] none]

def crossedOutputs : ModelGraph Nat := ((callAll (new, fun _ => []) crossedOutputsOps).get rfl).1

theorem portInvariant_of_ops {ops : List (Op Nat Nat Nat Unit)} {g : ModelGraph Nat}
    {removed : NodeId → List PortId} (h : callAll (new, fun _ => []) ops = some (g, removed))
    (hremoved : ∀ v, removed v = []) : g.PortInvariant fun _ => [] := by
  rw [← funext hremoved]
  exact portInvariant_new.callAll h

theorem portInvariant_skippedPort : skippedPort.PortInvariant fun _ => [] := by
  have hops : callAll (new, fun _ => []) skippedPortOps = some (skippedPort, _) := rfl
  exact portInvariant_of_ops hops fun v => by simp [Op.removed, Function.update]

theorem portInvariant_crossedOutputs : crossedOutputs.PortInvariant fun _ => [] := by
  have hops : callAll (new, fun _ => []) crossedOutputsOps = some (crossedOutputs, _) := rfl
  exact portInvariant_of_ops hops fun v => by simp [Op.removed, Function.update]

theorem acyclic_skippedPort : Dag.Acyclic skippedPort.Pred := acyclic_of_edges (by decide)

theorem acyclic_crossedOutputs : Dag.Acyclic crossedOutputs.Pred := acyclic_of_edges (by decide)

theorem executesAlways_iff_skippedPort :
    skippedPort.ExecutesAlways Nat (fun n _ => n) ↔ skippedPort.Executable fun n _ => n :=
  executesAlways_iff acyclic_skippedPort portInvariant_skippedPort

/-- The output of the one model is the first output of the layer, and the outputs of the other are
    exchanged, though every port that is read is a port of its node. -/
theorem not_executesAlways :
    (skippedPort.PortInvariant (fun _ => []) ∧ Dag.Acyclic skippedPort.Pred ∧
      skippedPort.numOutputsAt (fun n _ => n) 1 = 2 ∧
      ¬ skippedPort.ExecutesAlways Nat fun n _ => n) ∧
    (crossedOutputs.PortInvariant (fun _ => []) ∧ Dag.Acyclic crossedOutputs.Pred ∧
      ¬ crossedOutputs.ExecutesAlways Nat fun n _ => n) := by
  refine ⟨⟨portInvariant_skippedPort, acyclic_skippedPort, by decide, fun h => ?_⟩,
    portInvariant_crossedOutputs, acyclic_crossedOutputs, fun h => ?_⟩
  · have hkeys : skippedPort.inputKeys 2 = [⟨1, 1⟩] := by decide
    have hread : skippedPort.IsRead ⟨1, 1⟩ :=
      ⟨2, .inr ⟨0, rfl⟩, by rw [hkeys]; exact List.mem_cons_self⟩
    have hexecutable := h.executable acyclic_skippedPort portInvariant_skippedPort
    exact absurd (hexecutable.gapless ⟨1, 1⟩ hread 0 Nat.zero_lt_one) (by decide)
  · have hkeys : crossedOutputs.inputKeys 2 = [⟨0, 0⟩] := by decide
    have hexecutable := h.executable acyclic_crossedOutputs portInvariant_crossedOutputs
    exact absurd (hexecutable.ordered.2 2 0 rfl ⟨0, 0⟩ (by rw [hkeys]; exact List.mem_cons_self))
      (by decide)

end DeepProve.Graph
