import DeepProve.Model.Values

/-!
# What a run does

`Progress` is the invariant of a run, for the layers that have run: the uses that are left, with
those that have been counted off, are all uses; a handle that is still to be used has the tensor of
its port; what was dried has no use left. `exists_run` assembles a run from its steps. None of it
depends on the state in which the runner is before the run, so that it holds of every run.
-/

namespace DeepProve

variable {L T : Type} {numOutputs : L → Nat → Nat}

namespace Graph

/-- The value that the runner has for a port. -/
def assignedValue (g : ModelGraph L) (F : LayerFunctions L T numOutputs) (inputs : List T)
    (key : NodeOutput) : Option T := g.valueVia F inputs g.assignedSlot key

/-- What nodes read after their last consumer is dried. -/
def DriedInTime (g : ModelGraph L) (events : List (RunEvent T)) : Prop :=
  ∀ before key after, events = before ++ .dried key :: after → ∀ n layer,
    g.nodes[n]? = some (.inner layer) → key ∈ g.inputKeys n →
      n ∈ before.filterMap RunEvent.evaluatedNode

/-- All layers that read the key are among the visited ones. -/
def ReadWithin (g : ModelGraph L) (visited : List NodeId) (key : NodeOutput) : Prop :=
  ∀ n layer, g.nodes[n]? = some (.inner layer) → key ∈ g.inputKeys n → n ∈ visited

/-- The state of a runner in a run in which the visited layers have run. -/
structure Progress (g : ModelGraph L) (F : LayerFunctions L T numOutputs) (inputs : List T)
    (base : NodeOutput → Nat) (visited : List NodeId) (runner : HandleLifetimeRunner T) : Prop where
  uses : ∀ key, runner.uses key + (g.readBy visited).count key = base key + g.usedKeys.count key
  handles : ∀ key, g.IsRead key →
    (key.nodeId ∈ visited ∨ ∃ i, g.nodes[key.nodeId]? = some (.input i)) → 0 < runner.uses key →
      ∃ handle, runner.storagekeyToHandle[key]? = some handle ∧
        handle.tensor = g.assignedValue F inputs key
  evaluated : runner.history.filterMap RunEvent.evaluatedNode = visited
  received : ∀ n tensors, .evaluated n tensors ∈ runner.history →
    tensors.map some = (g.inputKeys n).map (g.assignedValue F inputs)
  dried : g.DriedInTime runner.history

/-- A run with the values that the runner has. -/
structure RunsOnAssigned (g : ModelGraph L) (F : LayerFunctions L T numOutputs) (inputs : List T)
    (log : RunLog T) : Prop where
  evaluated : log.events.filterMap RunEvent.evaluatedNode = g.forwardInners.map Prod.fst
  received : ∀ n tensors, .evaluated n tensors ∈ log.events →
    tensors.map some = (g.inputKeys n).map (g.assignedValue F inputs)
  dried : g.DriedInTime log.events
  outputs : log.outputs.map TensorHandle.tensor = g.outputKeys.map (g.assignedValue F inputs)

variable {g : ModelGraph L} {F : LayerFunctions L T numOutputs} {inputs : List T}
  {base : NodeOutput → Nat} {visited : List NodeId} {runner : HandleLifetimeRunner T}

theorem filterMap_dried (keys : List NodeOutput) :
    (keys.map (RunEvent.dried (T := T))).filterMap RunEvent.evaluatedNode = [] := by
  rw [List.filterMap_map]
  induction keys with
  | nil => rfl
  | cons key keys ih => exact ih

/-- Keys that are dried after all layers that read them. -/
theorem DriedInTime.append {events : List (RunEvent T)} (h : g.DriedInTime events)
    {keys : List NodeOutput}
    (hkeys : ∀ key ∈ keys, g.ReadWithin (events.filterMap RunEvent.evaluatedNode) key) :
    g.DriedInTime (events ++ keys.map RunEvent.dried) := by
  intro before key after hsplit n layer hnode hkey
  rcases List.append_eq_append_iff.mp hsplit with ⟨middle, hbefore, hdried⟩ | ⟨middle, hevents, hdried⟩
  · -- the key is one of the new ones
    have hmem : RunEvent.dried key ∈ keys.map (RunEvent.dried (T := T)) := by
      rw [hdried]
      exact List.mem_append_right _ List.mem_cons_self
    obtain ⟨key', hkey', heq⟩ := List.mem_map.mp hmem
    obtain rfl := RunEvent.dried.inj heq
    rw [hbefore, List.filterMap_append]
    exact List.mem_append_left _ (hkeys key' hkey' n layer hnode hkey)
  · cases middle with
    | nil =>
      have hmem : RunEvent.dried key ∈ keys.map (RunEvent.dried (T := T)) := by
        rw [← List.nil_append (keys.map _), ← hdried]
        exact List.mem_cons_self
      obtain ⟨key', hkey', heq⟩ := List.mem_map.mp hmem
      obtain rfl := RunEvent.dried.inj heq
      rw [List.append_nil] at hevents
      rw [← hevents]
      exact hkeys key' hkey' n layer hnode hkey
    | cons event middle =>
      obtain ⟨rfl, -⟩ := List.cons.inj hdried
      exact h before key middle hevents n layer hnode hkey

/-- Evaluating a layer dries nothing. -/
theorem DriedInTime.append_evaluated {events : List (RunEvent T)} (h : g.DriedInTime events)
    (n : NodeId) (tensors : List T) : g.DriedInTime (events ++ [.evaluated n tensors]) := by
  intro before key after hsplit m layer hnode hkey
  rcases List.eq_nil_or_concat after with rfl | ⟨rest, last, rfl⟩
  · have hlast := congrArg List.getLast? hsplit
    simp at hlast
  · rw [List.concat_eq_append, ← List.cons_append, ← List.append_assoc] at hsplit
    obtain ⟨hevents, -⟩ := List.append_inj' hsplit rfl
    exact h before key rest hevents m layer hnode hkey

/-! ## Reading handles -/

/-- Handles with tensors can be read. -/
theorem exists_mapM_handles {value : NodeOutput → Option T} {keys : List NodeOutput}
    (h : ∀ key ∈ keys, ∃ (handle : TensorHandle T) (t : T),
      runner.storagekeyToHandle[key]? = some handle ∧ handle.tensor = some t ∧
        value key = some t) :
    ∃ (handles : List (TensorHandle T)) (tensors : List T),
      keys.mapM runner.getByStorageKey = .ok handles ∧
      handles.mapM TensorHandle.wrappedTensor = .ok tensors ∧
      handles.map TensorHandle.tensor = keys.map value ∧ tensors.map some = keys.map value := by
  induction keys with
  | nil => exact ⟨[], [], rfl, rfl, rfl, rfl⟩
  | cons key keys ih =>
    obtain ⟨⟨handle, t, hhandle, htensor, hvalue⟩, hkeys⟩ := List.forall_mem_cons.mp h
    obtain ⟨handles, tensors, hget, hread, hhandles, htensors⟩ := ih hkeys
    have hfirst : runner.getByStorageKey key = .ok handle := by
      rw [HandleLifetimeRunner.getByStorageKey, hhandle]
      rfl
    have hwrapped : handle.wrappedTensor = .ok t := by
      rw [TensorHandle.wrappedTensor, htensor]
      rfl
    refine ⟨handle :: handles, t :: tensors, ?_, ?_, ?_, ?_⟩
    · rw [List.mapM_cons, hfirst, Outcome.ok_bind, hget]
      rfl
    · rw [List.mapM_cons, hwrapped, Outcome.ok_bind, hread]
      rfl
    · rw [List.map_cons, List.map_cons, hhandles, htensor, hvalue]
    · rw [List.map_cons, List.map_cons, htensors, hvalue]

/-! ## One layer -/

section Run

variable (hacyclic : Dag.Acyclic g.Pred) (hg : g.PortInvariant fun _ => [])
  (hinputs : ∀ (n : NodeId) (i : Nat), g.nodes[n]? = some (.input i) → i < inputs.length)
  (hports : ∀ key, g.IsRead key → key.port < g.numOutputsAt numOutputs key.nodeId)
variable {key : NodeOutput}

include hacyclic hg hinputs hports in
theorem exists_assignedValue (h : g.IsRead key) :
    ∃ t, g.assignedValue F inputs key = some t :=
  exists_valueVia hacyclic hg assignedSlot_le hinputs hports h

/-- A port without a use left has been read by all layers. -/
theorem readWithin_of_uses
    (huses : runner.uses key + (g.readBy visited).count key = base key + g.usedKeys.count key)
    (hnodup : visited.Nodup) (hinner : ∀ n ∈ visited, ∃ layer, g.nodes[n]? = some (.inner layer))
    (hzero : runner.uses key = 0) : g.ReadWithin visited key := by
  intro n layer hnode hkey
  by_contra hn
  have hle : (g.readBy visited).count key + (g.inputKeys n).count key ≤ g.usedKeys.count key :=
    count_readBy_add_inputKeys_le
    (List.nodup_append.mpr ⟨hnodup, List.nodup_singleton n, fun a ha b hb hab =>
      hn (by rwa [← List.mem_singleton.mp hb, ← hab])⟩)
    (fun m hm => by
      rcases List.mem_append.mp hm with hm | hm
      · exact hinner m hm
      · exact ⟨layer, by rwa [List.mem_singleton.mp hm]⟩) key
  have hpos := List.count_pos_iff.mpr hkey
  omega

/-- The handles of the outputs of a layer. -/
def outputHandles (g : ModelGraph L) (n : NodeId) (outShapes : List Shape) (outs : List T) :
    List (TensorHandle T) :=
  ((g.outgoingPorts n).zip (outShapes.zip outs)).map fun (port, outShape, tensor) =>
    { storageKey := ⟨n, port⟩, tensor := some tensor, unpaddedShape := outShape }

theorem storageKeys_outputHandles_sublist (n : NodeId) (outShapes : List Shape) (outs : List T) :
    ((g.outputHandles n outShapes outs).map TensorHandle.storageKey).Sublist
      ((g.outgoingPorts n).map fun port => (⟨n, port⟩ : NodeOutput)) := by
  have hmap : (g.outputHandles n outShapes outs).map TensorHandle.storageKey =
      (((g.outgoingPorts n).zip (outShapes.zip outs)).map Prod.fst).map
        fun port => (⟨n, port⟩ : NodeOutput) := by
    rw [outputHandles, List.map_map, List.map_map]
    rfl
  rw [hmap]
  exact (List.map_fst_zip_sublist _ _).map _

theorem nodup_outputHandles (n : NodeId) (outShapes : List Shape) (outs : List T) :
    ((g.outputHandles n outShapes outs).map TensorHandle.storageKey).Nodup := by
  refine (List.Nodup.map (fun p q hpq => ?_) (nodup_outgoingPorts n)).sublist
    (storageKeys_outputHandles_sublist n outShapes outs)
  exact congrArg NodePort.port hpq

variable {n : NodeId}

theorem nodeId_of_mem_outputHandles {outShapes : List Shape} {outs : List T}
    (h : key ∈ (g.outputHandles n outShapes outs).map TensorHandle.storageKey) :
    key.nodeId = n := by
  have hmem := (storageKeys_outputHandles_sublist n outShapes outs).subset h
  obtain ⟨port, -, rfl⟩ := List.mem_map.mp hmem
  rfl

/-- The handle of a port that is used has the output at its place among these ports. -/
theorem exists_mem_outputHandles {outShapes : List Shape} {outs : List T} {port i : Nat}
    (hlength : outShapes.length = outs.length) (hport : (g.outgoingPorts n)[i]? = some port)
    (hi : i < outs.length) :
    ∃ handle ∈ g.outputHandles n outShapes outs, handle.storageKey = ⟨n, port⟩ ∧
      handle.tensor = outs[i]? := by
  have hshape : i < outShapes.length := by rwa [hlength]
  have hzip : (outShapes.zip outs)[i]? = some (outShapes[i], outs[i]) :=
    List.getElem?_zip_eq_some.mpr ⟨List.getElem?_eq_getElem hshape, List.getElem?_eq_getElem hi⟩
  have hentry : ((g.outgoingPorts n).zip (outShapes.zip outs))[i]? =
      some (port, outShapes[i], outs[i]) := List.getElem?_zip_eq_some.mpr ⟨hport, hzip⟩
  exact ⟨_, List.mem_map_of_mem (List.mem_of_getElem? hentry), rfl,
    (List.getElem?_eq_getElem hi).symm⟩

include hacyclic hg hinputs hports

/-- What a layer reads is there when it runs. -/
theorem Progress.exists_inputHandle (h : g.Progress F inputs base visited runner) {layer : L}
    (hnode : g.nodes[n]? = some (.inner layer)) (hnodup : (visited ++ [n]).Nodup)
    (hinner : ∀ m ∈ visited, ∃ layer, g.nodes[m]? = some (.inner layer))
    (hready : ∀ u layer', g.Pred u n → g.nodes[u]? = some (.inner layer') → u ∈ visited)
    (hkey : key ∈ g.inputKeys n) :
    ∃ (handle : TensorHandle T) (t : T), runner.storagekeyToHandle[key]? = some handle ∧
      handle.tensor = some t ∧ g.assignedValue F inputs key = some t := by
  have hread : g.IsRead key := ⟨n, .inl ⟨layer, hnode⟩, hkey⟩
  have hpred := pred_of_mem_inputKeys hkey
  have hsource : key.nodeId ∈ visited ∨ ∃ i, g.nodes[key.nodeId]? = some (.input i) := by
    obtain ⟨node, hsource⟩ := Option.isSome_iff_exists.mp
      (Std.ExtTreeMap.mem_iff_isSome_getElem?.mp (mem_nodes_of_pred hg hpred))
    cases node with
    | input i => exact .inr ⟨i, hsource⟩
    | inner layer' => exact .inl (hready key.nodeId layer' hpred hsource)
    | output i =>
      -- an output of the model has no port
      have hport := hports key hread
      rw [numOutputsAt, hsource] at hport
      exact absurd hport (Nat.not_lt_zero _)
  have hpos : 0 < runner.uses key := by
    have hle := count_readBy_add_inputKeys_le hnodup (fun m hm => by
      rcases List.mem_append.mp hm with hm | hm
      · exact hinner m hm
      · exact ⟨layer, by rwa [List.mem_singleton.mp hm]⟩) key
    have huses := h.uses key
    have hcount := List.count_pos_iff.mpr hkey
    omega
  obtain ⟨t, ht⟩ := exists_assignedValue hacyclic hg hinputs hports hread
  obtain ⟨handle, hhandle, htensor⟩ := h.handles key hread hsource hpos
  exact ⟨handle, t, hhandle, htensor.trans ht, ht⟩

/-- One layer. -/
theorem Progress.runLayer (h : g.Progress F inputs base visited runner) {layer : L}
    (hnode : g.nodes[n]? = some (.inner layer)) (hnodup : (visited ++ [n]).Nodup)
    (hinner : ∀ m ∈ visited, ∃ layer, g.nodes[m]? = some (.inner layer))
    (hready : ∀ u layer', g.Pred u n → g.nodes[u]? = some (.inner layer') → u ∈ visited) :
    ∃ runner', HandleLifetimeRunner.runLayer F g runner (n, layer) = .ok runner' ∧
      g.Progress F inputs base (visited ++ [n]) runner' := by
  obtain ⟨handles, tensors, hget, hwrapped, -, htensors⟩ := exists_mapM_handles fun key hkey =>
    h.exists_inputHandle hacyclic hg hinputs hports hnode hnodup hinner hready hkey
  have hinner' : ∀ m ∈ visited ++ [n], ∃ layer, g.nodes[m]? = some (.inner layer) := by
    intro m hm
    rcases List.mem_append.mp hm with hm | hm
    · exact hinner m hm
    · exact ⟨layer, by rwa [List.mem_singleton.mp hm]⟩
  have hread : ∀ key ∈ g.inputKeys n, g.IsRead key :=
    fun key hkey => ⟨n, .inl ⟨layer, hnode⟩, hkey⟩
  -- the layer is evaluated on the values of what it reads
  have hfilter : tensors = (g.inputKeys n).filterMap (g.assignedValue F inputs) := by
    have hmap := List.map_some_filterMap fun key hkey =>
      exists_assignedValue hacyclic hg hinputs hports (F := F) (hread key hkey)
    rw [← htensors] at hmap
    exact (List.map_injective_iff.mpr (Option.some_injective T) hmap).symm
  have houts : F.evaluate n layer tensors = g.nodeOutputs F inputs g.assignedSlot n := by
    rw [nodeOutputs_inner hacyclic hg hnode, hfilter]
    rfl
  have hlength : (F.evaluate n layer tensors).length = g.numOutputsAt numOutputs n := by
    rw [houts]
    exact length_nodeOutputs hacyclic hg assignedSlot_le hinputs hports (mem_nodes hnode)
  set outShapes := F.outputShapes n layer (handles.map TensorHandle.unpaddedShape) with hshapes
  have hshape : outShapes.length = (F.evaluate n layer tensors).length := by
    have hhandles := (Outcome.forall₂_of_mapM_eq_ok hwrapped).length_eq
    rw [hshapes, F.length_outputShapes, F.length_evaluate, List.length_map, hhandles]
  set outputs := g.outputHandles n outShapes (F.evaluate n layer tensors) with houtputs
  have hbase : baseRunLayer F g n layer handles = .ok ⟨tensors, outputs⟩ := by
    rw [baseRunLayer, hwrapped]
    rfl
  -- its inputs are counted off
  set runner₁ : HandleLifetimeRunner T :=
    { runner with history := runner.history ++ [.evaluated n tensors] } with hrunner₁
  obtain ⟨runner₂, dried₂, hconsume, huses₂, hsame₂, hhistory₂, hdried₂⟩ :=
    HandleLifetimeRunner.foldlM_consume (g.inputKeys n) runner₁
      (fun key => by
        have hle := count_readBy_add_inputKeys_le hnodup hinner' key
        have huses := h.uses key
        show _ ≤ runner.uses key
        omega)
      (fun key hkey => by
        obtain ⟨handle, _, hhandle, -⟩ :=
          h.exists_inputHandle hacyclic hg hinputs hports hnode hnodup hinner hready hkey
        exact Option.isSome_iff_exists.mpr ⟨handle, hhandle⟩)
  obtain ⟨dried₃, hhistory₃, hdried₃⟩ :=
    HandleLifetimeRunner.history_foldl_insertHandle outputs runner₂
  refine ⟨outputs.foldl HandleLifetimeRunner.insertHandle runner₂, ?_, ?_⟩
  · rw [HandleLifetimeRunner.runLayer]
    dsimp only
    rw [show g.inputKeys n = g.inputKeys (n, layer).1 from rfl] at hget hconsume
    rw [hget, Outcome.ok_bind, hbase, Outcome.ok_bind, hconsume, Outcome.ok_bind]
  · have huses : ∀ key, runner₂.uses key + (g.readBy (visited ++ [n])).count key =
        base key + g.usedKeys.count key := by
      intro key
      have hbefore := h.uses key
      have hleft : runner₂.uses key + (g.inputKeys n).count key = runner.uses key := huses₂ key
      have hsplit : (g.readBy (visited ++ [n])).count key =
          (g.readBy visited).count key + (g.inputKeys n).count key := by
        rw [readBy, List.flatMap_append, List.count_append, List.flatMap_singleton]
        rfl
      omega
    have hhistory : (outputs.foldl HandleLifetimeRunner.insertHandle runner₂).history =
        runner.history ++ [.evaluated n tensors] ++ (dried₂ ++ dried₃).map RunEvent.dried := by
      rw [hhistory₃, hhistory₂, List.append_assoc, ← List.map_append]
    have hevaluated : (runner.history ++ [RunEvent.evaluated n tensors]).filterMap
        RunEvent.evaluatedNode = visited ++ [n] := by
      rw [List.filterMap_append, h.evaluated]
      rfl
    have huses₃ : ∀ key, (outputs.foldl HandleLifetimeRunner.insertHandle runner₂).uses key =
        runner₂.uses key := fun key => HandleLifetimeRunner.uses_foldl_insertHandle _ _ key
    have hspent : ∀ key ∈ dried₂ ++ dried₃, g.ReadWithin (visited ++ [n]) key := by
      intro key hkey
      refine readWithin_of_uses (huses key) hnodup hinner' ?_
      rcases List.mem_append.mp hkey with hkey | hkey
      · exact hdried₂ key hkey
      · exact hdried₃ key hkey
    exact {
      uses := fun key => by rw [huses₃, huses]
      handles := fun key hread hsource hpos => by
        rw [huses₃] at hpos
        by_cases hn : key.nodeId = n
        · -- the port has the output at its place among the ports that are used
          obtain ⟨m, hm, hkey⟩ := hread
          have hmem := mem_outgoingPorts_of_mem_inputKeys hkey
          obtain ⟨i, hi⟩ := List.mem_iff_getElem?.mp hmem
          rw [hn] at hi
          have hslot : g.assignedSlot key = i := by
            rw [assignedSlot_inner (by rw [hn]; exact hnode), hn]
            exact List.countP_lt_eq_of_getElem? (pairwise_outgoingPorts n) hi
          have hport := hports key ⟨m, hm, hkey⟩
          have hle := assignedSlot_le (g := g) key
          rw [hn, ← hlength] at hport
          obtain ⟨handle, hhandle, hstorage, htensor⟩ :=
            exists_mem_outputHandles hshape hi (hslot ▸ hle.trans_lt hport)
          have hstorage : handle.storageKey = key := by rw [hstorage, ← hn]
          refine ⟨handle, ?_, ?_⟩
          · rw [← hstorage]
            exact HandleLifetimeRunner.getElem?_foldl_insertHandle runner₂
              (nodup_outputHandles n outShapes _) hhandle (by rwa [hstorage])
          · rw [htensor, houts, assignedValue, valueVia, readFrom, hslot, hn]
        · have hother : key ∉ outputs.map TensorHandle.storageKey :=
            fun hmem => hn (nodeId_of_mem_outputHandles hmem)
          rw [HandleLifetimeRunner.getElem?_foldl_insertHandle_of_notMem _ _ hother, hsame₂ key hpos]
          apply h.handles key hread
          · rcases hsource with hmem | hinput
            · rcases List.mem_append.mp hmem with hmem | hmem
              · exact .inl hmem
              · exact absurd (List.mem_singleton.mp hmem) hn
            · exact .inr hinput
          · have hleft : runner₂.uses key + (g.inputKeys n).count key = runner.uses key := huses₂ key
            omega
      evaluated := by
        rw [hhistory, List.filterMap_append, filterMap_dried, List.append_nil, hevaluated]
      received := fun m received hmem => by
        rw [hhistory, List.mem_append, List.mem_append, List.mem_singleton] at hmem
        rcases hmem with (hmem | heq) | hmem
        · exact h.received m received hmem
        · obtain ⟨rfl, rfl⟩ := RunEvent.evaluated.inj heq
          exact htensors
        · obtain ⟨key, -, heq⟩ := List.mem_map.mp hmem
          cases heq
      dried := by
        rw [hhistory]
        exact (h.dried.append_evaluated n tensors).append (by rwa [hevaluated]) }

end Run

/-! ## A whole run -/

/-- The inputs of a run. -/
theorem exists_tensorToHandles (hnumbered : ∀ i < g.inputIds.length, i ∈ g.inputIds)
    (hlength : inputs.length = g.inputIds.length) :
    ∃ handles, HandleLifetimeRunner.tensorToHandles F g inputs = .ok handles ∧
      (handles.map TensorHandle.storageKey).Nodup ∧
      ∀ (n : NodeId) (i : Nat), g.nodes[n]? = some (.input i) →
        ∃ handle ∈ handles, handle.storageKey = ⟨n, 0⟩ ∧ handle.tensor = inputs[i]? := by
  obtain ⟨nodeFor, hnodeFor⟩ : ∃ nodeFor : Nat → NodeId, ∀ i < inputs.length,
      g.inputNodeId i = .ok (nodeFor i) := by
    refine ⟨fun i => ((g.inputNodeId i).toOption).getD 0, fun i hi => ?_⟩
    obtain ⟨n, hn⟩ := exists_inputNodeId (hnumbered i (hlength ▸ hi))
    dsimp only
    rw [hn]
    rfl
  have hentry : ∀ entry ∈ inputs.zipIdx, entry.2 < inputs.length ∧ inputs[entry.2]? = some entry.1 := by
    intro entry hmem
    have hget := List.mem_zipIdx_iff_getElem?.mp hmem
    exact ⟨(List.getElem?_eq_some_iff.mp hget).1, hget⟩
  refine ⟨inputs.zipIdx.map fun entry => ⟨⟨nodeFor entry.2, 0⟩, some entry.1,
    F.unpaddedShape entry.1⟩, ?_, ?_, fun n i hnode => ?_⟩
  · refine Outcome.mapM_eq_ok_map fun entry hmem => ?_
    dsimp only
    rw [hnodeFor entry.2 (hentry entry hmem).1]
    rfl
  · have hindices : (inputs.zipIdx.map Prod.snd).Nodup := by
      rw [List.zipIdx_map_snd]
      exact List.nodup_range'
    rw [List.map_map]
    refine List.Nodup.map_on (fun a ha b hb hab => ?_) hindices.of_map
    -- different inputs have different nodes
    have hnodes : nodeFor a.2 = nodeFor b.2 := congrArg NodePort.nodeId hab
    have ha' := inputNodeId_eq_ok (hnodeFor a.2 (hentry a ha).1)
    have hb' := inputNodeId_eq_ok (hnodeFor b.2 (hentry b hb).1)
    rw [hnodes, hb'] at ha'
    have hindex : b.2 = a.2 := Node.input.inj (Option.some.inj ha')
    have hgeta := (hentry a ha).2
    rw [← hindex, (hentry b hb).2] at hgeta
    exact Prod.ext (Option.some.inj hgeta).symm hindex.symm
  · have hi : i < inputs.length := hlength ▸ lt_length_inputIds hnumbered hnode
    have hnodeId := inputNodeId_of_node hnumbered hnode
    rw [hnodeFor i hi] at hnodeId
    refine ⟨_, List.mem_map_of_mem (a := (inputs[i], i))
      (List.mem_zipIdx_iff_getElem?.mpr (List.getElem?_eq_getElem hi)), ?_,
      (List.getElem?_eq_getElem hi).symm⟩
    show (⟨nodeFor i, 0⟩ : NodeOutput) = ⟨n, 0⟩
    rw [Except.ok.inj hnodeId]

theorem mem_outputKeys {key : NodeOutput} :
    key ∈ g.outputKeys ↔ ∃ (n : NodeId) (i : Nat), g.nodes[n]? = some (.output i) ∧
      key ∈ g.inputKeys n := by
  have houtput : ∀ n : NodeId, (g.nodes[n]?).any Node.isOutput = true ↔
      ∃ i, g.nodes[n]? = some (.output i) := by
    intro n
    cases g.nodes[n]? with
    | none => simp
    | some node =>
      cases node with
      | input i => simp [Node.isOutput]
      | inner layer => simp [Node.isOutput]
      | output i => simp [Node.isOutput]
  simp only [outputKeys, outputEdges, List.mem_flatMap, List.mem_filter, houtput, Prod.exists,
    Std.ExtTreeMap.mem_toList_iff_getElem?_eq_some, mem_inputKeys]
  constructor
  · rintro ⟨id, edge, ⟨hedge, i, hi⟩, hkey⟩
    exact ⟨edge.target, i, hi, id, edge, hedge, rfl, hkey⟩
  · rintro ⟨n, i, hi, id, edge, hedge, rfl, hkey⟩
    exact ⟨id, edge, ⟨hedge, i, hi⟩, hkey⟩

section Run

variable (hacyclic : Dag.Acyclic g.Pred) (hg : g.PortInvariant fun _ => [])
  (hports : ∀ key, g.IsRead key → key.port < g.numOutputsAt numOutputs key.nodeId)

include hacyclic hg hports in
/-- Before the first layer the inputs are there. -/
theorem progress_modelInputs {handles : List (TensorHandle T)}
    (hkeys : (handles.map TensorHandle.storageKey).Nodup)
    (hhandles : ∀ (n : NodeId) (i : Nat), g.nodes[n]? = some (.input i) →
      ∃ handle ∈ handles, handle.storageKey = ⟨n, 0⟩ ∧ handle.tensor = inputs[i]?)
    (hhistory : runner.history = []) :
    g.Progress F inputs runner.uses [] (runner.modelInputs g handles) := by
  set counted : HandleLifetimeRunner T :=
    { runner with
      handleUsageCount := HandleLifetimeRunner.countUses runner.handleUsageCount g.usedKeys }
    with hcounted
  have huses : ∀ key, counted.uses key = runner.uses key + g.usedKeys.count key :=
    fun key => HandleLifetimeRunner.getD_countUses runner.handleUsageCount g.usedKeys key
  have huses' : ∀ key, (runner.modelInputs g handles).uses key =
      runner.uses key + g.usedKeys.count key := by
    intro key
    rw [← huses]
    exact HandleLifetimeRunner.uses_foldl_insertHandle handles counted key
  obtain ⟨driedKeys, hdriedKeys, hzero⟩ :=
    HandleLifetimeRunner.history_foldl_insertHandle handles counted
  have hevents : (runner.modelInputs g handles).history = driedKeys.map RunEvent.dried := by
    show (handles.foldl HandleLifetimeRunner.insertHandle counted).history = _
    rw [hdriedKeys]
    show runner.history ++ _ = _
    rw [hhistory, List.nil_append]
  have hspent : ∀ key ∈ driedKeys, g.ReadWithin [] key := by
    intro key hkey
    have hcount : counted.uses key + (g.readBy []).count key =
        runner.uses key + g.usedKeys.count key := huses key
    exact readWithin_of_uses hcount List.nodup_nil (by simp) (hzero key hkey)
  exact {
    uses := fun key => by
      rw [huses']
      rfl
    handles := fun key hread hsource hpos => by
      obtain ⟨i, hinput⟩ : ∃ i, g.nodes[key.nodeId]? = some (.input i) :=
        hsource.resolve_left (by simp)
      have hport := hports key hread
      rw [numOutputsAt, hinput] at hport
      have hport : key.port = 0 := Nat.lt_one_iff.mp hport
      obtain ⟨handle, hmem, hstorage, htensor⟩ := hhandles key.nodeId i hinput
      have hstorage : handle.storageKey = key := by rw [hstorage, ← hport]
      refine ⟨handle, ?_, ?_⟩
      · rw [← hstorage]
        refine HandleLifetimeRunner.getElem?_foldl_insertHandle counted hkeys hmem ?_
        rw [huses, ← huses', hstorage]
        exact hpos
      · rw [htensor, assignedValue, valueVia, readFrom, assignedSlot_input hinput, hport,
          nodeOutputs_input hacyclic hg hinput]
        cases inputs[i]? with
        | none => rfl
        | some t => rfl
    evaluated := by rw [hevents, filterMap_dried]
    received := fun n tensors hmem => by
      rw [hevents] at hmem
      obtain ⟨key, -, heq⟩ := List.mem_map.mp hmem
      cases heq
    dried := by
      rw [hevents, ← List.nil_append (driedKeys.map _)]
      refine DriedInTime.append (fun before key after hsplit => ?_) hspent
      simp at hsplit }

include hacyclic hg hports in
/-- What is returned is an input of the model or an output of a layer. -/
theorem read_of_mem_outputKeys {key : NodeOutput} (h : key ∈ g.outputKeys) :
    g.IsRead key ∧ (key.nodeId ∈ g.forwardInners.map Prod.fst ∨
      ∃ i, g.nodes[key.nodeId]? = some (.input i)) := by
  obtain ⟨n, i, hnode, hkey⟩ := mem_outputKeys.mp h
  have hread : g.IsRead key := ⟨n, .inr ⟨i, hnode⟩, hkey⟩
  refine ⟨hread, ?_⟩
  obtain ⟨node, hsource⟩ := Option.isSome_iff_exists.mp
    (Std.ExtTreeMap.mem_iff_isSome_getElem?.mp (mem_nodes_of_pred hg (pred_of_mem_inputKeys hkey)))
  cases node with
  | input j => exact .inr ⟨j, hsource⟩
  | inner layer =>
    exact .inl (List.mem_map_of_mem (f := Prod.fst) ((mem_forwardInners hacyclic).mpr hsource))
  | output j =>
    have hport := hports key hread
    rw [numOutputsAt, hsource] at hport
    exact absurd hport (Nat.not_lt_zero _)

variable (hinputs : ∀ (n : NodeId) (i : Nat), g.nodes[n]? = some (.input i) → i < inputs.length)
include hacyclic hg hports hinputs

/-- The layers, one after the other. -/
theorem Progress.forwardInners {before after : List (NodeId × L)}
    (h : g.Progress F inputs base (before.map Prod.fst) runner)
    (hsplit : g.forwardInners = before ++ after) :
    ∃ runner', after.foldlM (fun runner entry =>
        (HandleLifetimeRunner.runLayer F g runner entry).mapErr fun _ =>
          s!"Error occurred at node ID: N{entry.1}, Operation: {F.asKindStr entry.2}") runner =
        .ok runner' ∧
      g.Progress F inputs base (g.forwardInners.map Prod.fst) runner' := by
  induction after generalizing before runner with
  | nil =>
    rw [hsplit, List.append_nil]
    exact ⟨runner, rfl, h⟩
  | cons entry after ih =>
    obtain ⟨n, layer⟩ := entry
    have hmem : ∀ m ∈ before.map Prod.fst, ∃ layer, g.nodes[m]? = some (.inner layer) := by
      intro m hm
      obtain ⟨⟨m, layer'⟩, hentry, rfl⟩ := List.mem_map.mp hm
      exact ⟨layer', (mem_forwardInners hacyclic).mp (hsplit ▸ List.mem_append_left _ hentry)⟩
    have hnode : g.nodes[n]? = some (.inner layer) := (mem_forwardInners hacyclic).mp
      (hsplit ▸ List.mem_append_right _ List.mem_cons_self)
    have hvisited : (before ++ [(n, layer)]).map Prod.fst = before.map Prod.fst ++ [n] := by
      rw [List.map_append]
      rfl
    have hsplit' : g.forwardInners = (before ++ [(n, layer)]) ++ after := by
      rw [hsplit, List.append_assoc, List.singleton_append]
    have hnodup : (before.map Prod.fst ++ [n]).Nodup := by
      have hall := g.nodup_forwardInners
      rw [hsplit', List.map_append, hvisited] at hall
      exact (List.nodup_append.mp hall).1
    obtain ⟨runner₁, hstep, h₁⟩ := h.runLayer hacyclic hg hinputs hports hnode hnodup hmem
      fun u layer' hpred hu =>
        List.mem_map_of_mem (mem_before_of_forwardInners hsplit hpred hu)
    rw [← hvisited] at h₁
    obtain ⟨runner', hrest, h'⟩ := ih h₁ hsplit'
    refine ⟨runner', ?_, h'⟩
    rw [List.foldlM_cons, hstep]
    exact hrest

end Run

/-- Every run that is given its inputs succeeds, whatever the runner has done before. -/
theorem exists_run (hacyclic : Dag.Acyclic g.Pred) (hg : g.PortInvariant fun _ => [])
    (hports : ∀ key, g.IsRead key → key.port < g.numOutputsAt numOutputs key.nodeId)
    (hnumbered : ∀ i < g.inputIds.length, i ∈ g.inputIds)
    (F : LayerFunctions L T numOutputs) (runner : HandleLifetimeRunner T)
    (hlength : inputs.length = g.inputIds.length) :
    ∃ runner' log, runner.run F g inputs = .ok (runner', log) ∧ g.RunsOnAssigned F inputs log := by
  have hinputs : ∀ (n : NodeId) (i : Nat), g.nodes[n]? = some (.input i) → i < inputs.length :=
    fun n i hnode => hlength ▸ lt_length_inputIds hnumbered hnode
  obtain ⟨handles, htensors, hkeys, hhandles⟩ :=
    exists_tensorToHandles (F := F) hnumbered hlength
  set fresh : HandleLifetimeRunner T := { runner with history := [] } with hfresh
  have hstart : g.Progress F inputs fresh.uses (([] : List (NodeId × L)).map Prod.fst)
      (fresh.modelInputs g handles) :=
    progress_modelInputs hacyclic hg hports hkeys hhandles rfl
  obtain ⟨runner', hrun, hend⟩ :=
    hstart.forwardInners hacyclic hg hports hinputs (List.nil_append _).symm
  have hinner : ∀ n ∈ g.forwardInners.map Prod.fst, ∃ layer, g.nodes[n]? = some (.inner layer) := by
    intro n hn
    obtain ⟨⟨n, layer⟩, hentry, rfl⟩ := List.mem_map.mp hn
    exact ⟨layer, (mem_forwardInners hacyclic).mp hentry⟩
  -- what is returned was counted apart from what the layers read
  have hreturned : ∀ key ∈ g.outputKeys, ∃ (handle : TensorHandle T) (t : T),
      runner'.storagekeyToHandle[key]? = some handle ∧ handle.tensor = some t ∧
        g.assignedValue F inputs key = some t := by
    intro key hkey
    obtain ⟨hread, hsource⟩ := read_of_mem_outputKeys hacyclic hg hports hkey
    have hle := count_readBy_add_outputKeys_le g.nodup_forwardInners hinner key
    have huses := hend.uses key
    have hcount := List.count_pos_iff.mpr hkey
    obtain ⟨t, ht⟩ := exists_assignedValue (F := F) hacyclic hg hinputs hports hread
    obtain ⟨handle, hhandle, htensor⟩ := hend.handles key hread hsource (by omega)
    exact ⟨handle, t, hhandle, htensor.trans ht, ht⟩
  obtain ⟨outputs, _, hget, -, houtputs, -⟩ := exists_mapM_handles hreturned
  refine ⟨runner', ⟨runner'.history, outputs⟩, ?_, ?_⟩
  · rw [HandleLifetimeRunner.run, htensors, Outcome.ok_bind]
    have hrun' : HandleLifetimeRunner.runWithRunner F g fresh handles = .ok runner' := hrun
    rw [← hfresh, hrun', Outcome.ok_bind, HandleLifetimeRunner.modelOutputs, hget]
    rfl
  · exact {
      evaluated := hend.evaluated
      received := hend.received
      dried := hend.dried
      outputs := houtputs }

end Graph

end DeepProve
