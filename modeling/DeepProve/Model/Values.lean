import DeepProve.Model.Usage

/-!
# The values of the ports

`nodeOutputs` satisfies its equation: each node has the outputs that it computes from what it
reads. The runner assigns the outputs of a layer to the ports that are used; where no port is left
out, each port has the output of its number.
-/

namespace DeepProve.Graph

variable {L T : Type} {numOutputs : L → Nat → Nat} {g : ModelGraph L}
  {F : LayerFunctions L T numOutputs} {inputs : List T} {slot : Slot}

/-! ## Ports -/

theorem nodup_targetPorts (hg : g.PortInvariant fun _ => []) (n : NodeId) :
    (g.targetPorts n).Nodup := by
  obtain ⟨k, hk⟩ := hg.ports n
  rw [List.append_nil] at hk
  exact hk.nodup_iff.mpr List.nodup_range

theorem length_inputKeys (n : NodeId) : (g.inputKeys n).length = (g.targetPorts n).length := by
  rw [(inputKeys_perm n).length_eq, targetPorts, List.length_flatMap, List.length_flatMap]
  simp [Edge.linkKeys]

variable {n : NodeId} {key : NodeOutput}
variable {i : Nat} {layer : L}

/-- A layer has as many outputs as it computes from its inputs. -/
theorem numOutputsAt_inner (hg : g.PortInvariant fun _ => [])
    (h : g.nodes[n]? = some (.inner layer)) :
    g.numOutputsAt numOutputs n = numOutputs layer (g.inputKeys n).length := by
  rw [numOutputsAt, h, length_inputKeys]
  dsimp only
  rw [List.toFinset_card_of_nodup (nodup_targetPorts hg n)]

theorem mem_nodes {node : Node L Nat Nat} (h : g.nodes[n]? = some node) :
    n ∈ g.nodes := by
  rw [Std.ExtTreeMap.mem_iff_isSome_getElem?, h]
  rfl

theorem mem_nodes_of_pred (hg : g.PortInvariant fun _ => []) {u : NodeId} (h : g.Pred u n) :
    u ∈ g.nodes := by
  obtain ⟨id, edge, hedge, rfl, -⟩ := h
  exact (hg.endpoints id edge hedge).2.1

/-- The ports of a node that are used, in increasing order. -/
theorem pairwise_outgoingPorts (n : NodeId) : (g.outgoingPorts n).Pairwise (· < ·) :=
  List.pairwise_lt_destutter_ne (List.pairwise_insertionSort (· ≤ ·) _)

theorem nodup_outgoingPorts (n : NodeId) : (g.outgoingPorts n).Nodup :=
  (pairwise_outgoingPorts n).imp fun h => Nat.ne_of_lt h

/-- What is read is used. -/
theorem mem_outgoingPorts_of_mem_inputKeys (h : key ∈ g.inputKeys n) :
    key.port ∈ g.outgoingPorts key.nodeId := by
  obtain ⟨id, edge, hedge, -, hkey⟩ := mem_inputKeys.mp h
  rw [outgoingPorts, List.mem_destutter_ne, List.mem_insertionSort, List.mem_flatMap]
  refine ⟨(id, edge), mem_outgoings.mpr ⟨hedge, (nodeId_of_mem_linkKeys hkey).symm⟩, ?_⟩
  obtain ⟨link, hlink, rfl⟩ := List.mem_map.mp hkey
  exact List.mem_map_of_mem hlink

variable (g) in
/-- Where the runner takes the value of a port from: among the outputs of a layer, at its place
    among the ports that are used. -/
def assignedSlot : Slot := fun key =>
  match g.nodes[key.nodeId]? with
  | some (.inner _) => (g.outgoingPorts key.nodeId).countP (· < key.port)
  | _ => key.port

theorem assignedSlot_inner (h : g.nodes[key.nodeId]? = some (.inner layer)) :
    g.assignedSlot key = (g.outgoingPorts key.nodeId).countP (· < key.port) := by
  rw [assignedSlot, h]

theorem assignedSlot_input (h : g.nodes[key.nodeId]? = some (.input i)) :
    g.assignedSlot key = key.port := by
  rw [assignedSlot, h]

theorem assignedSlot_le (key : NodeOutput) : g.assignedSlot key ≤ key.port := by
  unfold assignedSlot
  split
  · exact List.countP_lt_le (nodup_outgoingPorts key.nodeId) key.port
  · exact Nat.le_refl _

/-! ## Values -/

variable (g F inputs slot) in
/-- The outputs of a node depend on what it reads. -/
theorem local_nodeOutputsFrom : Dag.Local (g.nodeOutputsFrom F inputs slot) g.Pred := by
  intro outputs outputs' n heq
  have hkeys : (g.inputKeys n).filterMap (readFrom slot outputs) =
      (g.inputKeys n).filterMap (readFrom slot outputs') := by
    apply List.filterMap_congr
    intro key hkey
    rw [readFrom, readFrom, heq key.nodeId (pred_of_mem_inputKeys hkey)]
  unfold nodeOutputsFrom
  rw [hkeys]

variable (F inputs slot) in
theorem nodeOutputs_eq (hacyclic : Dag.Acyclic g.Pred) (hg : g.PortInvariant fun _ => [])
    (hn : n ∈ g.nodes) :
    g.nodeOutputs F inputs slot n =
      g.nodeOutputsFrom F inputs slot (g.nodeOutputs F inputs slot) n := by
  have hcard : g.nodes.keys.toFinset.card = g.nodeCount := by
    rw [List.toFinset_card_of_nodup g.nodes.nodup_keys, Std.ExtTreeMap.length_keys, nodeCount]
  have hmem : ∀ {m}, m ∈ g.nodes → m ∈ g.nodes.keys.toFinset := fun hm => by
    rwa [List.mem_toFinset, Std.ExtTreeMap.mem_keys]
  have heq := Dag.iterate_card_eq [] hacyclic (fun u v huv => hmem (mem_nodes_of_pred hg huv))
    (local_nodeOutputsFrom g F inputs slot) (hmem hn)
  rw [hcard] at heq
  exact heq

theorem nodeOutputs_input (hacyclic : Dag.Acyclic g.Pred) (hg : g.PortInvariant fun _ => [])
    (h : g.nodes[n]? = some (.input i)) :
    g.nodeOutputs F inputs slot n = (inputs[i]?).toList := by
  rw [nodeOutputs_eq F inputs slot hacyclic hg (mem_nodes h), nodeOutputsFrom, h]

theorem nodeOutputs_inner (hacyclic : Dag.Acyclic g.Pred) (hg : g.PortInvariant fun _ => [])
    (h : g.nodes[n]? = some (.inner layer)) :
    g.nodeOutputs F inputs slot n =
      F.evaluate n layer ((g.inputKeys n).filterMap (g.valueVia F inputs slot)) := by
  rw [nodeOutputs_eq F inputs slot hacyclic hg (mem_nodes h), nodeOutputsFrom, h]
  rfl

theorem nodeOutputs_output (hacyclic : Dag.Acyclic g.Pred) (hg : g.PortInvariant fun _ => [])
    (h : g.nodes[n]? = some (.output i)) :
    g.nodeOutputs F inputs slot n = [] := by
  rw [nodeOutputs_eq F inputs slot hacyclic hg (mem_nodes h), nodeOutputsFrom, h]

theorem length_nodeOutputs_inner (hacyclic : Dag.Acyclic g.Pred) (hg : g.PortInvariant fun _ => [])
    (h : g.nodes[n]? = some (.inner layer))
    (hvalues : ∀ key ∈ g.inputKeys n, ∃ t, g.valueVia F inputs slot key = some t) :
    (g.nodeOutputs F inputs slot n).length = g.numOutputsAt numOutputs n := by
  rw [nodeOutputs_inner hacyclic hg h, F.length_evaluate, List.length_filterMap_of_forall hvalues,
    numOutputsAt_inner hg h]

/-- A node has a value for each of its ports if everything that is read is a port of its node. -/
theorem length_nodeOutputs (hacyclic : Dag.Acyclic g.Pred) (hg : g.PortInvariant fun _ => [])
    (hslot : ∀ key, slot key ≤ key.port)
    (hinputs : ∀ (n : NodeId) (i : Nat), g.nodes[n]? = some (.input i) → i < inputs.length)
    (hports : ∀ key, g.IsRead key → key.port < g.numOutputsAt numOutputs key.nodeId)
    (hn : n ∈ g.nodes) :
    (g.nodeOutputs F inputs slot n).length = g.numOutputsAt numOutputs n := by
  -- by the number of nodes that lead to the node
  induction hdepth : Dag.depth g.Pred g.nodes.keys.toFinset n using Nat.strong_induction_on
    generalizing n with
  | _ depth ih =>
    obtain ⟨node, hnode⟩ := Option.isSome_iff_exists.mp
      (Std.ExtTreeMap.mem_iff_isSome_getElem?.mp hn)
    cases node with
    | input i =>
      rw [nodeOutputs_input hacyclic hg hnode, List.getElem?_eq_getElem (hinputs n i hnode),
        numOutputsAt, hnode]
      rfl
    | output i =>
      rw [nodeOutputs_output hacyclic hg hnode, numOutputsAt, hnode]
      rfl
    | inner layer =>
      apply length_nodeOutputs_inner hacyclic hg hnode
      intro key hkey
      have hpred := pred_of_mem_inputKeys hkey
      have hmem := mem_nodes_of_pred hg hpred
      have hlt : Dag.depth g.Pred g.nodes.keys.toFinset key.nodeId < depth := by
        rw [← hdepth]
        exact Dag.depth_lt_depth hacyclic (by rwa [List.mem_toFinset, Std.ExtTreeMap.mem_keys])
          hpred
      have hlength := ih _ hlt hmem rfl
      have hport := hports key ⟨n, .inl ⟨layer, hnode⟩, hkey⟩
      exact ⟨_, List.getElem?_eq_getElem (by rw [hlength]; exact (hslot key).trans_lt hport)⟩

/-- Everything that is read has a value. -/
theorem exists_valueVia (hacyclic : Dag.Acyclic g.Pred) (hg : g.PortInvariant fun _ => [])
    (hslot : ∀ key, slot key ≤ key.port)
    (hinputs : ∀ (n : NodeId) (i : Nat), g.nodes[n]? = some (.input i) → i < inputs.length)
    (hports : ∀ key, g.IsRead key → key.port < g.numOutputsAt numOutputs key.nodeId)
    (h : g.IsRead key) : ∃ t, g.valueVia F inputs slot key = some t := by
  have hport := hports key h
  obtain ⟨n, -, hkey⟩ := h
  have hmem := mem_nodes_of_pred hg (pred_of_mem_inputKeys hkey)
  have hlength : (g.nodeOutputs F inputs slot key.nodeId).length = _ :=
    length_nodeOutputs hacyclic hg hslot hinputs hports hmem
  exact ⟨_, List.getElem?_eq_getElem (by rw [hlength]; exact (hslot key).trans_lt hport)⟩

/-- Assignments that agree on what is read give the same values. -/
theorem nodeOutputs_congr {slot slot' : Slot} (h : ∀ key, g.IsRead key → slot key = slot' key) :
    g.nodeOutputs F inputs slot = g.nodeOutputs F inputs slot' := by
  have hrule : g.nodeOutputsFrom F inputs slot = g.nodeOutputsFrom F inputs slot' := by
    funext outputs n
    unfold nodeOutputsFrom
    split
    · rename_i layer hnode
      have hkeys : (g.inputKeys n).filterMap (readFrom slot outputs) =
          (g.inputKeys n).filterMap (readFrom slot' outputs) := by
        apply List.filterMap_congr
        intro key hkey
        rw [readFrom, readFrom, h key ⟨n, .inl ⟨layer, hnode⟩, hkey⟩]
      rw [hkeys]
    · rfl
    · rfl
  rw [nodeOutputs, hrule]
  rfl

/-! ## Inputs of the model -/

theorem mem_inputIds : i ∈ g.inputIds ↔ ∃ n : NodeId, g.nodes[n]? = some (.input i) := by
  simp only [inputIds, List.mem_filterMap, Prod.exists,
    Std.ExtTreeMap.mem_toList_iff_getElem?_eq_some]
  constructor
  · rintro ⟨n, node, hnode, hi⟩
    cases node with
    | input j => exact ⟨n, by rw [hnode, Option.some.inj hi]⟩
    | inner layer => cases hi
    | output j => cases hi
  · rintro ⟨n, hnode⟩
    exact ⟨n, _, hnode, rfl⟩

theorem inputNodeId_eq_ok (h : g.inputNodeId i = .ok n) :
    g.nodes[n]? = some (.input i) := by
  rw [inputNodeId, okOr_eq_ok, Option.map_eq_some_iff] at h
  obtain ⟨⟨m, node⟩, hfind, rfl⟩ := h
  have hmem := Std.ExtTreeMap.mem_toList_iff_getElem?_eq_some.mp (List.mem_of_find?_eq_some hfind)
  have hfound : (node.asInput == some i) = true := by simpa using List.find?_some hfind
  have hnode := eq_of_beq hfound
  cases node with
  | input j => rw [hmem, Option.some.inj hnode]
  | inner layer => cases hnode
  | output j => cases hnode

theorem exists_inputNodeId (h : i ∈ g.inputIds) : ∃ n, g.inputNodeId i = .ok n := by
  obtain ⟨n, hnode⟩ := mem_inputIds.mp h
  have hmem := Std.ExtTreeMap.mem_toList_iff_getElem?_eq_some.mpr hnode
  obtain ⟨entry, hfind⟩ := Option.isSome_iff_exists.mp (List.find?_isSome
    (p := fun e : NodeId × Node L Nat Nat => e.2.asInput == some i) |>.mpr
      ⟨(n, .input i), hmem, beq_self_eq_true _⟩)
  refine ⟨entry.1, ?_⟩
  have hmap : (g.nodes.toList.find? fun e => e.2.asInput == some i).map Prod.fst =
      some entry.1 := by rw [hfind]; rfl
  exact okOr_eq_ok.mpr hmap

section Numbered

variable (hinputs : ∀ i < g.inputIds.length, i ∈ g.inputIds)
include hinputs

theorem perm_inputIds : g.inputIds.Perm (List.range g.inputIds.length) := by
  have hsub : List.range g.inputIds.length ⊆ g.inputIds :=
    fun i hi => hinputs i (List.mem_range.mp hi)
  have hsubperm := List.nodup_range.subperm hsub
  exact (hsubperm.perm_of_length_le (by rw [List.length_range])).symm

theorem lt_length_inputIds {n : NodeId} {i : Nat} (h : g.nodes[n]? = some (.input i)) :
    i < g.inputIds.length :=
  List.mem_range.mp ((perm_inputIds hinputs).mem_iff.mp (mem_inputIds.mpr ⟨n, h⟩))

/-- Each input has one node. -/
theorem inputNodeId_of_node {n : NodeId} {i : Nat} (h : g.nodes[n]? = some (.input i)) :
    g.inputNodeId i = .ok n := by
  obtain ⟨m, hm⟩ := exists_inputNodeId (mem_inputIds.mpr ⟨n, h⟩)
  have hnode := inputNodeId_eq_ok hm
  have hnodup : g.inputIds.Nodup := (perm_inputIds hinputs).nodup_iff.mpr List.nodup_range
  rw [inputIds, List.nodup_iff_pairwise_ne] at hnodup
  have hpairwise : g.nodes.toList.Pairwise fun e e' => ∀ b, e.2.asInput = some b →
      ∀ b', e'.2.asInput = some b' → b ≠ b' := List.pairwise_filterMap.mp hnodup
  have hsymm : Std.Symm fun e e' : NodeId × Node L Nat Nat => ∀ b, e.2.asInput = some b →
      ∀ b', e'.2.asInput = some b' → b ≠ b' :=
    ⟨fun _ _ hab b hb b' hb' => Ne.symm (hab b' hb' b hb)⟩
  by_cases hne : m = n
  · rw [hm, hne]
  · have hentries : ((m, .input i) : NodeId × Node L Nat Nat) ≠ (n, .input i) :=
      fun heq => hne (congrArg Prod.fst heq)
    have hdistinct := hpairwise.forall
      (Std.ExtTreeMap.mem_toList_iff_getElem?_eq_some.mpr hnode)
      (Std.ExtTreeMap.mem_toList_iff_getElem?_eq_some.mpr h) hentries
    exact absurd rfl (hdistinct i rfl i rfl)

end Numbered

end DeepProve.Graph
