import DeepProve.ForStd.Groups
import DeepProve.Graph.PortInvariant
import DeepProve.Iop.CheckChunking

/-!
# Requantisation layers

`Model::add_requant_layer` of `model/mod.rs`: behind each port of a node that is used, a layer is put
that takes over the links from this port. The layer is linked to one node after the other, in the
order in which a hash map yields them.
-/

namespace DeepProve

namespace Graph

variable {N I O W L ρ : Type}

/-- The links of the graph, edge by edge. -/
def links (g : Graph N I O W) : List Feed := g.edges.toList.flatMap fun (_, edge) => edge.feeds

/-- What the links out of a node lead to, by source port. -/
def sourceEdgePerRequant (g : Graph N I O W) (inputNodeId : NodeId) :
    BTreeMap PortId (List NodeInput) :=
  .grouped ((g.neighbors inputNodeId .outgoing).flatMap fun (_, edge) =>
    edge.ports.map fun port => (port.sourcePort, ⟨edge.target, port.targetPort⟩))

/-- The links from a requantisation layer, one edge for each target. -/
def addRequantEdges (ids : Nat → EdgeId) (order : HashOrder) (requantNodeId : NodeId)
    (targets : List NodeInput) : Call (Graph N I O W) Unit := do
  let portlinksByEdgeId : HashMap NodeId (List PortId) :=
    .grouped (targets.map fun target => (target.nodeId, target.port))
  (order.entries portlinksByEdgeId).zipIdx.forM fun ((target, targetPorts), j) => do
    let links := targetPorts.map fun targetPort => (⟨0, targetPort⟩ : PortLink)
    let _ ← addEdgesRaw (fun _ => ids j) [Edge.new requantNodeId target links none]

/-- One round of the loop of `add_requant_layer`. -/
def addRequantNode (ids : Nat → EdgeId) (order : HashOrder) (layer : N) (inputNodeId : NodeId)
    (sourcePort : PortId) (targets : List NodeInput) : Call (Graph N I O W) NodeId := do
  let requantNodeId ← addInner layer
  let _ ← addEdge (fun _ => ids 0) inputNodeId requantNodeId [⟨sourcePort, 0⟩] none
  addRequantEdges (fun j => ids (j + 1)) order requantNodeId targets
  pure requantNodeId

/-- `add_requant_layer`; `ids k` are the identifiers of the edges of the `k`-th layer. -/
def addRequantLayer (ids : Nat → Nat → EdgeId) (order : Nat → HashOrder) (requant : ρ → N)
    (requants : List ρ) (inputNodeId : NodeId) : Call (Graph N I O W) (List NodeId) := do
  let g ← get
  Call.lift (ensure (g.nodes.contains inputNodeId) s!"Node N{inputNodeId} not found in the model")
  let sourceEdgePerRequant := g.sourceEdgePerRequant inputNodeId
  Call.lift (ensure (sourceEdgePerRequant.size == requants.length)
    s!"Unexpected number of requants: expected {sourceEdgePerRequant.size}, found {requants.length}")
  let edgesToRemove := (g.neighbors inputNodeId .outgoing).map Prod.fst
  edgesToRemove.forM removeEdge
  (sourceEdgePerRequant.toList.zip requants).zipIdx.mapM fun (((sourcePort, targets), r), k) =>
    addRequantNode (ids k) (order k) (requant r) inputNodeId sourcePort targets

/-! ## Links -/

variable {g g' : Graph N I O W} {ids : Nat → EdgeId}

theorem links_insert_perm {id : EdgeId} (edge : Edge W) (hid : g.edges[id]? = none) :
    links { g with edges := g.edges.insert id edge } |>.Perm (edge.feeds ++ g.links) :=
  (g.edges.toList_insert_perm edge hid).flatMap_right _

theorem feeds_new_perm (source target : NodeId) (ports : Ports) (weight : Option W) :
    (Edge.new source target ports weight).feeds.Perm
      (ports.map fun port => ⟨⟨source, port.sourcePort⟩, ⟨target, port.targetPort⟩⟩) :=
  (Ports.sorted_perm ports).map _

/-- An edge that is added adds its links. -/
theorem addEdgesRaw_links {edge : Edge W} {r : List EdgeId}
    (h : (addEdgesRaw ids [edge]).run g = .ok r g') :
    g'.nodes = g.nodes ∧ g'.links.Perm (edge.feeds ++ g.links) := by
  rw [addEdgesRaw, List.zipIdx_singleton, List.mapM_cons] at h
  obtain ⟨_, g₁, hadd, h⟩ := Call.bind_run_eq_ok.mp h
  obtain ⟨hacc, rfl⟩ := addEdgeRaw_eq_ok hadd
  obtain ⟨-, rfl⟩ := EStateM.Result.ok.inj h
  exact ⟨rfl, links_insert_perm edge hacc.unused⟩

theorem addEdge_links {source target : NodeId} {ports : Ports} {weight : Option W} {r : EdgeId}
    (h : (addEdge ids source target ports weight).run g = .ok r g') :
    g'.nodes = g.nodes ∧ g'.links.Perm
      ((ports.map fun port => ⟨⟨source, port.sourcePort⟩, ⟨target, port.targetPort⟩⟩) ++ g.links) := by
  obtain ⟨_, g₁, hraw, h⟩ := Call.bind_run_eq_ok.mp h
  obtain ⟨-, rfl⟩ := Call.lift_run_eq_ok.mp h
  obtain ⟨hnodes, hlinks⟩ := addEdgesRaw_links hraw
  exact ⟨hnodes, hlinks.trans ((feeds_new_perm source target ports weight).append_right _)⟩

/-- The edges that are removed, and those that are left. -/
theorem removeEdges_edges {entries : List (EdgeId × Edge W)} {u : PUnit}
    (hentries : ∀ entry ∈ entries, g.edges[entry.1]? = some entry.2)
    (hnodup : (entries.map Prod.fst).Nodup)
    (h : ((entries.map Prod.fst).forM removeEdge).run g = .ok u g') :
    g'.nodes = g.nodes ∧ g.edges.toList.Perm (entries ++ g'.edges.toList) := by
  induction entries generalizing g with
  | nil =>
    obtain ⟨-, rfl⟩ := EStateM.Result.ok.inj h
    exact ⟨rfl, List.Perm.refl _⟩
  | cons entry entries ih =>
    obtain ⟨hentry, hentries⟩ := List.forall_mem_cons.mp hentries
    obtain ⟨hnew, hnodup⟩ := List.nodup_cons.mp hnodup
    replace h : (removeEdge entry.1 >>= fun _ => (entries.map Prod.fst).forM removeEdge).run g =
        .ok u g' := h
    obtain ⟨_, g₁, hremove, h⟩ := Call.bind_run_eq_ok.mp h
    obtain ⟨-, rfl⟩ := removeEdge_eq_ok hremove
    have hrest : ∀ entry' ∈ entries, (g.edges.erase entry.1)[entry'.1]? = some entry'.2 := by
      intro entry' hmem
      have hne : entry.1 ≠ entry'.1 := fun heq => hnew (heq ▸ List.mem_map_of_mem hmem)
      rw [Std.ExtTreeMap.getElem?_erase, if_neg fun heq => hne (Std.compare_eq_iff_eq.mp heq)]
      exact hentries entry' hmem
    obtain ⟨hnodes, hedges⟩ := ih hrest hnodup h
    exact ⟨hnodes, (g.edges.toList_erase_perm hentry).trans (hedges.cons entry)⟩

/-- Without its outgoing edges, a node has no outgoing edge. -/
theorem removeOutgoings_edges {n : NodeId} {u : PUnit}
    (h : (((g.neighbors n .outgoing).map Prod.fst).forM removeEdge).run g = .ok u g') :
    g'.nodes = g.nodes ∧
      g.links.Perm (((g.neighbors n .outgoing).flatMap fun (_, edge) => edge.feeds) ++ g'.links) ∧
      ∀ feed ∈ g'.links, feed.source.nodeId ≠ n := by
  have hentries : ∀ entry ∈ g.neighbors n .outgoing, g.edges[entry.1]? = some entry.2 :=
    fun entry hentry => (mem_neighbors.mp hentry).1
  have hnodup : ((g.neighbors n .outgoing).map Prod.fst).Nodup := by
    refine List.Nodup.sublist (List.Sublist.map Prod.fst List.filter_sublist) ?_
    rw [g.edges.map_fst_toList_eq_keys]
    exact g.edges.nodup_keys
  obtain ⟨hnodes, hedges⟩ := removeEdges_edges hentries hnodup h
  refine ⟨hnodes, ?_, fun feed hfeed => ?_⟩
  · rw [links, links, ← List.flatMap_append]
    exact hedges.flatMap_right _
  · obtain ⟨⟨id, edge⟩, hedge, hlink⟩ := List.mem_flatMap.mp hfeed
    obtain ⟨link, -, rfl⟩ := List.mem_map.mp hlink
    intro heq
    -- such an edge would be listed twice
    have hold : (id, edge) ∈ g.neighbors n .outgoing :=
      mem_neighbors.mpr ⟨Std.ExtTreeMap.mem_toList_iff_getElem?_eq_some.mp
        (hedges.mem_iff.mpr (List.mem_append_right _ hedge)), heq⟩
    have hdisjoint := (List.nodup_append.mp (hedges.nodup_iff.mp (Std.ExtTreeMap.nodup_toList _))).2.2
    exact hdisjoint _ hold _ hedge rfl

theorem entries_perm {V : Type} (order : HashOrder) (m : HashMap NodeId V) :
    (order.entries m).Perm m.toList := by
  refine ((order.perm m.keys).filterMap _).trans (List.Perm.of_eq ?_)
  rw [← m.map_fst_toList_eq_keys, List.filterMap_map]
  refine (List.filterMap_congr fun entry hentry => ?_).trans List.filterMap_some
  have hvalue : m[entry.1]? = some entry.2 := Std.ExtTreeMap.mem_toList_iff_getElem?_eq_some.mp hentry
  rw [Function.comp_apply, hvalue]
  rfl

/-- The links from a node, to each of the targets. -/
def feedsFrom (source : NodeOutput) (targets : List NodeInput) : List Feed :=
  targets.map fun target => ⟨source, target⟩

theorem addRequantEdges_links {order : HashOrder} {requantNodeId : NodeId}
    {targets : List NodeInput} {u : Unit}
    (h : (addRequantEdges ids order requantNodeId targets).run g = .ok u g') :
    g'.nodes = g.nodes ∧ g'.links.Perm (feedsFrom ⟨requantNodeId, 0⟩ targets ++ g.links) := by
  -- edge by edge, in any order
  have hloop : ∀ (entries : List (NodeId × List PortId)) (j : Nat) (g g' : Graph N I O W) (u : PUnit),
      ((entries.zipIdx j).forM fun (p : (NodeId × List PortId) × Nat) => do
        let links := p.1.2.map fun targetPort => (⟨0, targetPort⟩ : PortLink)
        let _ ← addEdgesRaw (fun _ => ids p.2) [Edge.new requantNodeId p.1.1 links none]).run g =
          .ok u g' →
      g'.nodes = g.nodes ∧ g'.links.Perm
        (feedsFrom ⟨requantNodeId, 0⟩ (entries.flatMap fun entry =>
          entry.2.map fun port => ⟨entry.1, port⟩) ++ g.links) := by
    intro entries
    induction entries with
    | nil =>
      intro j g g' u h
      obtain ⟨-, rfl⟩ := EStateM.Result.ok.inj h
      exact ⟨rfl, List.Perm.refl _⟩
    | cons entry entries ih =>
      intro j g g' u h
      obtain ⟨_, g₁, hfirst, h⟩ := Call.bind_run_eq_ok.mp h
      obtain ⟨_, _, hadd, hfirst⟩ := Call.bind_run_eq_ok.mp hfirst
      obtain ⟨-, rfl⟩ := EStateM.Result.ok.inj hfirst
      obtain ⟨hnodes, hlinks⟩ := addEdgesRaw_links hadd
      obtain ⟨hnodes', hlinks'⟩ := ih (j + 1) _ g' u h
      refine ⟨hnodes'.trans hnodes, (hlinks'.trans (hlinks.append_left _)).trans ?_⟩
      have hfeeds := feeds_new_perm (W := W) requantNodeId entry.1
        (entry.2.map fun targetPort => ⟨0, targetPort⟩) none
      rw [List.map_map] at hfeeds
      rw [← List.append_assoc]
      refine (List.perm_append_comm.trans (hfeeds.append_right _)).append_right g.links |>.trans ?_
      rw [List.flatMap_cons, feedsFrom, feedsFrom, List.map_append, List.map_map]
      exact List.Perm.refl _
  obtain ⟨hnodes, hlinks⟩ := hloop _ 0 g g' u h
  refine ⟨hnodes, hlinks.trans (List.Perm.append_right _ (List.Perm.map _ ?_))⟩
  -- the groups hold the targets
  have hgroups := (Std.ExtTreeMap.ungrouped_grouped_perm compare
    (targets.map fun target => (target.nodeId, target.port))).map
      fun entry => (⟨entry.1, entry.2⟩ : NodeInput)
  rw [List.map_map] at hgroups
  refine ((entries_perm order _).flatMap_right _).trans ((List.Perm.of_eq ?_).trans
    (hgroups.trans (List.Perm.of_eq (List.map_id targets))))
  rw [Std.ExtTreeMap.ungrouped, List.map_flatMap]
  refine List.flatMap_congr fun entry _ => ?_
  obtain ⟨key, values⟩ := entry
  show values.map _ = (values.map fun value => (key, value)).map _
  rw [List.map_map]
  rfl

/-- One layer takes over the links it is given. -/
theorem addRequantNode_links {order : HashOrder} {layer : N} {inputNodeId r : NodeId}
    {sourcePort : PortId} {targets : List NodeInput}
    (h : (addRequantNode ids order layer inputNodeId sourcePort targets).run g = .ok r g') :
    r ∉ g.nodes ∧ g'.nodes = g.nodes.insert r (.inner layer) ∧
      g'.links.Perm (⟨⟨inputNodeId, sourcePort⟩, ⟨r, 0⟩⟩ :: feedsFrom ⟨r, 0⟩ targets ++ g.links) := by
  obtain ⟨_, g₁, hnode, h⟩ := Call.bind_run_eq_ok.mp h
  obtain ⟨_, g₂, hedge, h⟩ := Call.bind_run_eq_ok.mp h
  obtain ⟨_, g₃, hedges, h⟩ := Call.bind_run_eq_ok.mp h
  obtain ⟨rfl, rfl⟩ := EStateM.Result.ok.inj h
  obtain ⟨hfresh, rfl⟩ := addNode_eq_ok hnode
  obtain ⟨hnodes, hlinks⟩ := addEdge_links hedge
  obtain ⟨hnodes', hlinks'⟩ := addRequantEdges_links hedges
  refine ⟨hfresh, hnodes'.trans hnodes, hlinks'.trans ?_⟩
  exact ((hlinks.append_left _).trans List.perm_middle)

/-- The nodes of a graph, with new ones that are layers. -/
structure AddsLayers (g : Graph N I O W) (layers : List (NodeId × N)) (g' : Graph N I O W) : Prop where
  nodup : (layers.map Prod.fst).Nodup
  fresh : ∀ entry ∈ layers, entry.1 ∉ g.nodes
  added : ∀ entry ∈ layers, g'.nodes[entry.1]? = some (.inner entry.2)
  kept : ∀ n ∈ g.nodes, g'.nodes[n]? = g.nodes[n]?
  mem : ∀ n, n ∈ g'.nodes ↔ n ∈ g.nodes ∨ n ∈ layers.map Prod.fst

theorem AddsLayers.refl (g : Graph N I O W) : AddsLayers g [] g where
  nodup := List.nodup_nil
  fresh := List.forall_mem_nil _
  added := List.forall_mem_nil _
  kept _ _ := rfl
  mem _ := (or_iff_left List.not_mem_nil).symm

theorem AddsLayers.trans {g₁ g₂ : Graph N I O W} {layers layers' : List (NodeId × N)}
    (h : AddsLayers g layers g₁) (h' : AddsLayers g₁ layers' g₂) :
    AddsLayers g (layers ++ layers') g₂ where
  nodup := by
    rw [List.map_append]
    refine List.nodup_append.mpr ⟨h.nodup, h'.nodup, fun n hn n' hn' heq => ?_⟩
    obtain ⟨entry, hentry, rfl⟩ := List.mem_map.mp hn'
    exact h'.fresh entry hentry ((h.mem entry.1).mpr (.inr (heq ▸ hn)))
  fresh entry hentry := by
    rcases List.mem_append.mp hentry with hfirst | hlast
    · exact h.fresh entry hfirst
    · exact fun hold => h'.fresh entry hlast ((h.mem entry.1).mpr (.inl hold))
  added entry hentry := by
    rcases List.mem_append.mp hentry with hfirst | hlast
    · rw [h'.kept entry.1 ((h.mem entry.1).mpr (.inr (List.mem_map_of_mem hfirst)))]
      exact h.added entry hfirst
    · exact h'.added entry hlast
  kept n hn := (h'.kept n ((h.mem n).mpr (.inl hn))).trans (h.kept n hn)
  mem n := by rw [h'.mem, h.mem, List.map_append, List.mem_append, or_assoc]

theorem AddsLayers.singleton {n : NodeId} {layer : N} (hfresh : n ∉ g.nodes)
    (h : g'.nodes = g.nodes.insert n (.inner layer)) : AddsLayers g [(n, layer)] g' where
  nodup := List.nodup_singleton _
  fresh := List.forall_mem_singleton.mpr hfresh
  added := List.forall_mem_singleton.mpr (by rw [h, Std.ExtTreeMap.getElem?_insert_self])
  kept n' hn' := by
    have hne : n ≠ n' := fun heq => hfresh (heq ▸ hn')
    rw [h, Std.ExtTreeMap.getElem?_insert, if_neg fun heq => hne (Std.compare_eq_iff_eq.mp heq)]
  mem n' := by
    rw [h, Std.ExtTreeMap.mem_insert, or_comm, Std.compare_eq_iff_eq, eq_comm]
    exact or_congr_right List.mem_singleton.symm

/-- What is linked where when a node `r` is put behind each of the ports. -/
def splicedFeeds (inputNodeId : NodeId) (rs : List NodeId)
    (groups : List (PortId × List NodeInput)) : List Feed :=
  (rs.zip groups).flatMap fun (r, sourcePort, targets) =>
    ⟨⟨inputNodeId, sourcePort⟩, ⟨r, 0⟩⟩ :: feedsFrom ⟨r, 0⟩ targets

theorem addRequantNodes_links {ids : Nat → Nat → EdgeId} {order : Nat → HashOrder} {requant : ρ → N}
    {inputNodeId : NodeId} (groups : List (PortId × List NodeInput)) (requants : List ρ) (k : Nat)
    (hlength : groups.length = requants.length) {rs : List NodeId}
    (h : (((groups.zip requants).zipIdx k).mapM fun (p : ((PortId × List NodeInput) × ρ) × Nat) =>
      addRequantNode (ids p.2) (order p.2) (requant p.1.2) inputNodeId p.1.1.1 p.1.1.2).run g =
        .ok rs g') :
    rs.length = requants.length ∧ AddsLayers g (rs.zip (requants.map requant)) g' ∧
      g'.links.Perm (splicedFeeds inputNodeId rs groups ++ g.links) := by
  induction groups generalizing requants k g rs with
  | nil =>
    obtain rfl := List.length_eq_zero_iff.mp hlength.symm
    obtain ⟨rfl, rfl⟩ := EStateM.Result.ok.inj h
    exact ⟨rfl, AddsLayers.refl _, List.Perm.refl _⟩
  | cons group groups ih =>
    cases requants with
    | nil => exact nomatch hlength
    | cons q requants =>
      rw [List.zip_cons_cons, List.zipIdx_cons, List.mapM_cons] at h
      obtain ⟨r, g₁, hnode, h⟩ := Call.bind_run_eq_ok.mp h
      obtain ⟨rs, _, hrest, h⟩ := Call.bind_run_eq_ok.mp h
      obtain ⟨rfl, rfl⟩ := EStateM.Result.ok.inj h
      obtain ⟨hfresh, hnodes, hlinks⟩ := addRequantNode_links hnode
      obtain ⟨hrs, hadds, hlinks'⟩ := ih requants (k + 1) (Nat.succ.inj hlength) hrest
      refine ⟨congrArg Nat.succ hrs, (AddsLayers.singleton hfresh hnodes).trans hadds, ?_⟩
      refine (hlinks'.trans (hlinks.append_left _)).trans ?_
      rw [splicedFeeds, splicedFeeds, List.zip_cons_cons, List.flatMap_cons, ← List.append_assoc]
      exact List.perm_append_comm.append_right _

end Graph

/-- Where a port is read once there is a node `rs[i]` behind the `i`-th port of a node. -/
def NodePort.redirect (inputNodeId : NodeId) (rs : List NodeId) (key : NodeOutput) : NodeOutput :=
  if key.nodeId = inputNodeId then (rs[key.port]?).elim key fun r => ⟨r, 0⟩ else key

/-- The same target, read from where its source has gone. -/
def Feed.redirect (inputNodeId : NodeId) (rs : List NodeId) (feed : Feed) : Feed :=
  ⟨feed.source.redirect inputNodeId rs, feed.target⟩

/-- The links to the nodes behind the ports. -/
def requantFeeds (inputNodeId : NodeId) (rs : List NodeId) : List Feed :=
  rs.zipIdx.map fun (r, i) => ⟨⟨inputNodeId, i⟩, ⟨r, 0⟩⟩

namespace Graph

variable {N I O W ρ : Type}
variable {n : NodeId} {rs : List NodeId}

/-- If the ports of the groups are numbered, the links out of the node are redirected. -/
theorem splicedFeeds_perm {all : List NodeId} {groups : List (PortId × List NodeInput)} {k : Nat}
    (hlength : rs.length = groups.length)
    (hports : groups.map Prod.fst = List.range' k groups.length) (hall : all.drop k = rs) :
    (splicedFeeds n rs groups).Perm
      ((rs.zipIdx k).map (fun (r, i) => (⟨⟨n, i⟩, ⟨r, 0⟩⟩ : Feed)) ++
        (groups.flatMap fun (port, targets) => feedsFrom ⟨n, port⟩ targets).map (Feed.redirect n all)) := by
  induction groups generalizing rs k with
  | nil =>
    obtain rfl := List.length_eq_zero_iff.mp hlength
    exact List.Perm.refl _
  | cons group groups ih =>
    cases rs with
    | nil => exact nomatch hlength
    | cons r rs =>
      obtain ⟨port, targets⟩ := group
      rw [List.map_cons, List.length_cons, List.range'_succ] at hports
      obtain ⟨hport, hports⟩ := List.cons.inj hports
      obtain rfl : port = k := hport
      have hr : all[port]? = some r := by
        rw [← List.head?_drop, hall, List.head?_cons]
      have hrest : all.drop (port + 1) = rs := by
        rw [← List.tail_drop, hall, List.tail_cons]
      have hredirect : (feedsFrom ⟨n, port⟩ targets).map (Feed.redirect n all) =
          feedsFrom ⟨r, 0⟩ targets := by
        rw [feedsFrom, feedsFrom, List.map_map]
        refine List.map_congr_left fun target _ => ?_
        rw [Function.comp_apply, Feed.redirect, NodePort.redirect, if_pos rfl, hr]
        rfl
      rw [splicedFeeds, List.zip_cons_cons, List.flatMap_cons, List.zipIdx_cons, List.map_cons,
        List.flatMap_cons, List.map_append, hredirect, List.cons_append, List.cons_append]
      refine List.Perm.cons _ ((List.Perm.append_left _ (ih (Nat.succ.inj hlength) hports hrest)).trans ?_)
      rw [← List.append_assoc, ← List.append_assoc]
      exact List.perm_append_comm.append_right _

/-- The ports in use, if there are as many as they could be. -/
theorem keys_sourceEdgePerRequant {g : Graph N I O W} {count : Nat}
    (hports : ∀ feed ∈ g.links, feed.source.nodeId = n → feed.source.port < count)
    (hcount : (g.sourceEdgePerRequant n).size = count) :
    (g.sourceEdgePerRequant n).keys = List.range count := by
  have hlength : (g.sourceEdgePerRequant n).keys.length = count :=
    (Std.ExtTreeMap.length_keys).trans hcount
  have hsub : (g.sourceEdgePerRequant n).keys ⊆ List.range count := by
    intro port hport
    obtain ⟨target, hentry⟩ := Std.ExtTreeMap.mem_grouped.mp (Std.ExtTreeMap.mem_keys.mp hport)
    obtain ⟨⟨id, edge⟩, hedge, hentry⟩ := List.mem_flatMap.mp hentry
    obtain ⟨link, hmem, heq⟩ := List.mem_map.mp hentry
    obtain ⟨rfl, -⟩ := Prod.mk.inj heq
    obtain ⟨hget, hsource⟩ := mem_neighbors.mp hedge
    refine List.mem_range.mpr (hports ⟨⟨edge.source, link.sourcePort⟩, ⟨edge.target, link.targetPort⟩⟩
      (List.mem_flatMap.mpr ⟨(id, edge), ?_, List.mem_map.mpr ⟨link, hmem, rfl⟩⟩) hsource)
    exact Std.ExtTreeMap.mem_toList_iff_getElem?_eq_some.mpr hget
  have hperm : (g.sourceEdgePerRequant n).keys.Perm (List.range count) :=
    ((g.sourceEdgePerRequant n).nodup_keys.subperm hsub).perm_of_length_le
      (by rw [List.length_range, hlength])
  have hsorted : (g.sourceEdgePerRequant n).keys.Pairwise (· ≤ ·) :=
    Std.ExtTreeMap.ordered_keys.imp fun hlt => Nat.le_of_lt (Nat.compare_eq_lt.mp hlt)
  exact hperm.eq_of_pairwise (fun _ _ _ _ hab hba => Nat.le_antisymm hab hba) hsorted
    List.pairwise_le_range

theorem NodePort.redirect_of_ne {key : NodeOutput} (h : key.nodeId ≠ n) :
    key.redirect n rs = key := if_neg h

/-- With one layer for each port, each link out of the node is redirected to its layer. -/
theorem addRequantLayer_links {ids : Nat → Nat → EdgeId} {order : Nat → HashOrder} {requant : ρ → N}
    {requants : List ρ} {g g' : Graph N I O W}
    (hports : ∀ feed ∈ g.links, feed.source.nodeId = n → feed.source.port < requants.length)
    (h : (addRequantLayer ids order requant requants n).run g = .ok rs g') :
    rs.length = requants.length ∧ AddsLayers g (rs.zip (requants.map requant)) g' ∧
      g'.links.Perm (requantFeeds n rs ++ g.links.map (Feed.redirect n rs)) := by
  simp only [addRequantLayer, Call.get_bind_run, Call.lift_bind_run_eq_ok, ensure_eq_ok,
    beq_iff_eq] at h
  obtain ⟨_, -, _, hsize, h⟩ := h
  obtain ⟨_, g₁, hremove, h⟩ := Call.bind_run_eq_ok.mp h
  obtain ⟨hnodes, hlinks, hsources⟩ := removeOutgoings_edges hremove
  have hlength : (g.sourceEdgePerRequant n).toList.length = requants.length := by
    rw [Std.ExtTreeMap.length_toList, hsize]
  obtain ⟨hrs, hadds, hlinks'⟩ := addRequantNodes_links _ requants 0 hlength h
  have hgroups : ((g.sourceEdgePerRequant n).toList.map Prod.fst) =
      List.range' 0 (g.sourceEdgePerRequant n).toList.length := by
    rw [Std.ExtTreeMap.map_fst_toList_eq_keys, keys_sourceEdgePerRequant hports hsize, hlength,
      List.range_eq_range']
  have hspliced := splicedFeeds_perm (n := n) (hrs.trans hlength.symm) hgroups (List.drop_zero ..)
  -- the links out of the node, as they were
  have hout : ((g.sourceEdgePerRequant n).toList.flatMap fun (port, targets) =>
      feedsFrom ⟨n, port⟩ targets).Perm
        ((g.neighbors n .outgoing).flatMap fun (_, edge) => edge.feeds) := by
    have hungrouped := (Std.ExtTreeMap.ungrouped_grouped_perm compare
      ((g.neighbors n .outgoing).flatMap fun (_, edge) =>
        edge.ports.map fun port => (port.sourcePort, (⟨edge.target, port.targetPort⟩ : NodeInput)))).map
          fun entry => (⟨⟨n, entry.1⟩, entry.2⟩ : Feed)
    refine (List.Perm.of_eq ?_).trans (hungrouped.trans (List.Perm.of_eq ?_))
    · rw [Std.ExtTreeMap.ungrouped, List.map_flatMap]
      refine List.flatMap_congr fun entry _ => ?_
      obtain ⟨port, targets⟩ := entry
      show feedsFrom _ _ = (targets.map fun target => (port, target)).map _
      rw [List.map_map]
      rfl
    · rw [List.map_flatMap]
      refine List.flatMap_congr fun entry hentry => ?_
      obtain ⟨id, edge⟩ := entry
      obtain ⟨-, rfl⟩ := mem_neighbors.mp hentry
      show (edge.ports.map _).map _ = edge.feeds
      rw [List.map_map]
      rfl
  have hkept : g₁.links.map (Feed.redirect n rs) = g₁.links := by
    refine (List.map_congr_left fun feed hfeed => ?_).trans (List.map_id _)
    rw [Feed.redirect, NodePort.redirect_of_ne (hsources feed hfeed)]
    rfl
  refine ⟨hrs, ?_, (hlinks'.trans (hspliced.append_right _)).trans ?_⟩
  · exact ⟨hadds.nodup, fun entry hentry => hnodes ▸ hadds.fresh entry hentry, hadds.added,
      fun v hv => (hadds.kept v (hnodes ▸ hv)).trans (congrArg (·[v]?) hnodes),
      fun v => (hadds.mem v).trans (by rw [hnodes])⟩
  · rw [List.append_assoc, ← hkept]
    refine List.Perm.append_left _ ?_
    rw [hkept]
    refine ((hout.map _).append (List.Perm.of_eq hkept.symm)).trans ?_
    rw [← List.map_append]
    exact (hlinks.map _).symm

end Graph

end DeepProve
