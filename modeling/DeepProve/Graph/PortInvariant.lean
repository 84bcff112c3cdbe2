import DeepProve.Graph.Basic

/-!
# The port graph invariant

`PortInvariant` says that the edges of a graph connect distinct existing nodes,
at most one edge for an ordered pair, and describes the target ports in use at
each node. It is kept by every method of the graph that returns; hence it holds
of every graph built by any sequence of calls.

The ports at a node are a prefix of the naturals after every insertion of an
edge into it. A removal can leave a gap there until the next insertion, so the
invariant is stated with the ports removed since then.
-/

namespace DeepProve.Graph

variable {N I O W : Type}

/-! ## What a successful call has done -/

private theorem insertPorts_eq_some {ports : List PortId} {seen set : Finset PortId} :
    insertPorts seen ports = some set ↔
      ports.Nodup ∧ (∀ p ∈ ports, p ∉ seen) ∧ set = seen ∪ ports.toFinset := by
  induction ports generalizing seen with
  | nil => simp [insertPorts, eq_comm]
  | cons p ps ih =>
    have hstep : insertPorts seen (p :: ps) =
        if p ∈ seen then none else insertPorts (insert p seen) ps := by
      simp only [insertPorts, List.foldlM_cons]
      split <;> rfl
    rw [hstep]
    split
    · rename_i hmem
      simp only [reduceCtorEq, List.mem_cons, forall_eq_or_imp, false_iff]
      exact fun h => h.2.1.1 hmem
    · rename_i hmem
      rw [ih, List.nodup_cons]
      simp only [List.mem_cons, forall_eq_or_imp, Finset.mem_insert, not_or, List.toFinset_cons,
        Finset.insert_union, Finset.union_insert]
      constructor
      · rintro ⟨hnd, hfresh, hset⟩
        exact ⟨⟨fun hp => (hfresh p hp).1 rfl, hnd⟩, ⟨hmem, fun q hq => (hfresh q hq).2⟩, hset⟩
      · rintro ⟨⟨hp, hnd⟩, ⟨_, hfresh⟩, hset⟩
        exact ⟨hnd, fun q hq => ⟨fun h => hp (h ▸ hq), hfresh q hq⟩, hset⟩

variable {g g' : Graph N I O W} {id : EdgeId} {node : Node N I O}

/-- The port check passes exactly if the old and the new target ports together
    enumerate `0..len`. -/
theorem checkConsistency_eq_ok {n : NodeId} {newPorts : List PortId} :
    g.checkConsistency n newPorts = .ok () ↔
      ∃ k, (g.targetPorts n ++ newPorts).Perm (List.range k) := by
  simp only [checkConsistency, Outcome.bind_eq_ok, okOr_eq_ok, insertPorts_eq_some, ensure_eq_ok,
    List.all_eq_true, List.mem_range, decide_eq_true_eq]
  constructor
  · rintro ⟨_, ⟨hnd, -, rfl⟩, _, ⟨hnd', hdisj, rfl⟩, hall⟩
    have hnodup : (g.targetPorts n ++ newPorts).Nodup := by
      refine List.nodup_append.mpr ⟨hnd, hnd', fun p hp q hq hpq => hdisj q hq ?_⟩
      simpa [← hpq] using hp
    have hset : ∅ ∪ (g.targetPorts n).toFinset ∪ newPorts.toFinset =
        (g.targetPorts n ++ newPorts).toFinset := by
      simp [List.toFinset_append]
    rw [hset, List.toFinset_card_of_nodup hnodup] at hall
    refine ⟨(g.targetPorts n ++ newPorts).length, List.Perm.symm ?_⟩
    have hsub : List.range (g.targetPorts n ++ newPorts).length ⊆ g.targetPorts n ++ newPorts := by
      intro p hp
      simpa using hall p (List.mem_range.mp hp)
    exact (List.nodup_range.subperm hsub).perm_of_length_le (by simp)
  · rintro ⟨k, hperm⟩
    have hnodup : (g.targetPorts n ++ newPorts).Nodup := hperm.nodup_iff.mpr List.nodup_range
    obtain ⟨hnd, hnd', hdisj⟩ := List.nodup_append.mp hnodup
    refine ⟨_, ⟨hnd, by simp, rfl⟩, _, ⟨hnd', ?_, rfl⟩, ?_⟩
    · intro p hp hmem
      exact hdisj p (by simpa using hmem) p hp rfl
    · have hset : ∅ ∪ (g.targetPorts n).toFinset ∪ newPorts.toFinset =
          (g.targetPorts n ++ newPorts).toFinset := by
        simp [List.toFinset_append]
      rw [hset, List.toFinset_card_of_nodup hnodup, hperm.length_eq, List.length_range]
      intro p hp
      rw [List.mem_toFinset, hperm.mem_iff, List.mem_range]
      exact hp

variable {e : Edge W} {id : NodeId}

theorem addNodeWithId_eq_ok {u : Unit} (h : (addNodeWithId id node).run g = .ok u g') :
    id ∉ g.nodes ∧ g' = { g with nodes := g.nodes.insert id node } := by
  simp only [addNodeWithId, Call.get_bind_run, Call.modify_bind_run, Call.lift_run_eq_ok] at h
  simpa [ensure_eq_ok] using h

theorem addNode_eq_ok (h : (addNode node).run g = .ok id g') :
    id ∉ g.nodes ∧ g' = { g with nodes := g.nodes.insert id node } := by
  simp only [addNode, Call.get_bind_run] at h
  obtain ⟨_, _, hadd, h⟩ := Call.bind_run_eq_ok.mp h
  obtain ⟨rfl, rfl⟩ := EStateM.Result.ok.inj h
  exact addNodeWithId_eq_ok hadd

theorem addNode_id (h : (addNode node).run g = .ok id g') : id = g.nextNodeId := by
  simp only [addNode, Call.get_bind_run] at h
  obtain ⟨_, _, -, h⟩ := Call.bind_run_eq_ok.mp h
  exact (EStateM.Result.ok.inj h).1.symm

theorem addEdgeRawWithId_eq_ok {u : Unit} (h : (addEdgeRawWithId id e).run g = .ok u g') :
    g.edges[id]? = none ∧ g' = { g with edges := g.edges.insert id e } := by
  simp only [addEdgeRawWithId, Call.get_bind_run, Call.modify_bind_run, Call.lift_run_eq_ok] at h
  simpa [ensure_eq_ok] using h

/-- One accepted edge: what the checks of `add_edges_raw` guarantee about it. -/
structure Accepts (g : Graph N I O W) (id : EdgeId) (e : Edge W) : Prop where
  ne : e.source ≠ e.target
  source : e.source ∈ g.nodes
  target : e.target ∈ g.nodes
  fresh : ∀ (id' : EdgeId) (e' : Edge W), g.edges[id']? = some e' → ¬(e'.source = e.source ∧ e'.target = e.target)
  ports : ∃ k, (g.targetPorts e.target ++ e.ports.map PortLink.targetPort).Perm (List.range k)
  unused : g.edges[id]? = none

/-- The checks of `add_edges_raw`. -/
def edgeChecks (g : Graph N I O W) (e : Edge W) : Outcome Unit := do
  ensure (e.source != e.target) "idempotent edge"
  ensure (g.nodes.contains e.source) s!"Source node N{e.source} not found"
  ensure (g.nodes.contains e.target) s!"Target node N{e.target} not found"
  ensure (!g.edges.toList.any fun c => c.2.source == e.source && c.2.target == e.target)
    s!"Edge between Node({e.source}) and Node({e.target}) already exists"
  g.checkConsistency e.target (e.ports.map PortLink.targetPort)

theorem addEdgeRaw_eq : addEdgeRaw id e = (do
    Call.lift ((← get).edgeChecks e)
    addEdgeRawWithId id e
    pure id : Call (Graph N I O W) EdgeId) := by
  simp only [addEdgeRaw, edgeChecks, Call.lift_bind, bind_assoc]

theorem accepts_iff : g.Accepts id e ↔ g.edgeChecks e = .ok () ∧ g.edges[id]? = none := by
  simp only [edgeChecks, Outcome.bind_eq_ok, ensure_eq_ok, checkConsistency_eq_ok, exists_const,
    Bool.not_eq_true', List.any_eq_false, Prod.forall, Std.ExtTreeMap.mem_toList_iff_getElem?_eq_some]
  constructor
  · intro h
    exact ⟨⟨by simpa using h.ne, by simpa using h.source, by simpa using h.target,
      fun id' e' he' => by simpa using h.fresh id' e' he', h.ports⟩, h.unused⟩
  · rintro ⟨⟨hne, hsource, htarget, hfresh, hports⟩, hunused⟩
    exact ⟨by simpa using hne, by simpa using hsource, by simpa using htarget,
      fun id' e' he' => by simpa using hfresh id' e' he', hports, hunused⟩

theorem addEdgeRaw_eq_ok {r : EdgeId} (h : (addEdgeRaw id e).run g = .ok r g') :
    g.Accepts id e ∧ g' = { g with edges := g.edges.insert id e } := by
  simp only [addEdgeRaw_eq, Call.get_bind_run, Call.lift_bind_run_eq_ok] at h
  obtain ⟨_, hchecks, h⟩ := h
  obtain ⟨_, _, hadd, h⟩ := Call.bind_run_eq_ok.mp h
  obtain ⟨-, rfl⟩ := EStateM.Result.ok.inj h
  obtain ⟨hunused, rfl⟩ := addEdgeRawWithId_eq_ok hadd
  exact ⟨accepts_iff.mpr ⟨hchecks, hunused⟩, rfl⟩

theorem removeEdge_eq_ok {u : Unit} (h : (removeEdge id).run g = .ok u g') :
    (∃ e, g.edges[id]? = some e) ∧ g' = { g with edges := g.edges.erase id } := by
  simp only [removeEdge, Call.get_bind_run, Call.modify_bind_run, Call.lift_bind_run_eq_ok,
    okOr_eq_ok] at h
  obtain ⟨e, he, h⟩ := h
  obtain ⟨-, rfl⟩ := EStateM.Result.ok.inj h
  exact ⟨⟨e, he⟩, rfl⟩

theorem replaceInner_eq_ok {f : N → N} {u : Unit} (h : (replaceInner id f).run g = .ok u g') :
    ∃ x, g.nodes[id]? = some (.inner x) ∧
      g' = { g with nodes := (g.nodes.erase id).insert id (.inner (f x)) } := by
  simp only [replaceInner, Call.get_bind_run, Call.modify_bind_run, Call.lift_bind_run_eq_ok,
    okOr_eq_ok] at h
  obtain ⟨node, hnode, x, hx, h⟩ := h
  obtain ⟨-, rfl⟩ := EStateM.Result.ok.inj h
  cases node with
  | input i => exact nomatch hx
  | output o => exact nomatch hx
  | inner y =>
    obtain rfl := Option.some.inj hx
    exact ⟨y, hnode, rfl⟩

/-! ## The invariant -/

/-- The edges of the graph and the ports they occupy. `removed v` lists the
    target ports of the edges into `v` removed since an edge was last inserted
    into `v`. -/
structure PortInvariant (g : Graph N I O W) (removed : NodeId → List PortId) : Prop where
  endpoints : ∀ (id : EdgeId) (e : Edge W), g.edges[id]? = some e →
    e.source ≠ e.target ∧ e.source ∈ g.nodes ∧ e.target ∈ g.nodes
  unique : ∀ (id id' : EdgeId) (e e' : Edge W), g.edges[id]? = some e → g.edges[id']? = some e' →
    e.source = e'.source → e.target = e'.target → id = id'
  ports : ∀ v, ∃ k, (g.targetPorts v ++ removed v).Perm (List.range k)

/-- Target ports are the ports of the entries whose edge leads into `v`. -/
private theorem targetPorts_perm_cons (g g' : Graph N I O W)
    (h : g'.edges.toList.Perm ((id, e) :: g.edges.toList)) (v : NodeId) :
    (g'.targetPorts v).Perm
      ((if e.target = v then e.ports.map PortLink.targetPort else []) ++ g.targetPorts v) := by
  have hfilter := (h.filter fun x => x.2.target == v).flatMap_right
    fun x => x.2.ports.map PortLink.targetPort
  refine hfilter.trans (List.Perm.of_eq ?_)
  by_cases hv : e.target = v
  · simp [targetPorts, incomings, neighbors, hv]
  · simp [targetPorts, incomings, neighbors, hv]

/-- The ports at `v` only depend on the edges. -/
theorem targetPorts_congr (h : g'.edges = g.edges) (v : NodeId) :
    g'.targetPorts v = g.targetPorts v := by
  simp only [targetPorts, incomings, neighbors, h]

theorem portInvariant_new : (new : Graph N I O W).PortInvariant fun _ => [] where
  endpoints := by simp [new]
  unique := by simp [new]
  ports v := ⟨0, by simp [new, targetPorts, incomings, neighbors]⟩

/-- New nodes, and changes of payload, leave the invariant alone. -/
theorem PortInvariant.setNodes {removed : NodeId → List PortId} (hg : g.PortInvariant removed)
    (hedges : g'.edges = g.edges) (hnodes : ∀ v, v ∈ g.nodes → v ∈ g'.nodes) :
    g'.PortInvariant removed where
  endpoints id e he := by
    obtain ⟨hne, hs, ht⟩ := hg.endpoints id e (hedges ▸ he)
    exact ⟨hne, hnodes _ hs, hnodes _ ht⟩
  unique := by rw [hedges]; exact hg.unique
  ports v := by rw [targetPorts_congr hedges]; exact hg.ports v

/-- An accepted edge closes every gap at its target. -/
theorem PortInvariant.addEdge {removed : NodeId → List PortId} (hg : g.PortInvariant removed)
    (he : g.Accepts id e) :
    PortInvariant { g with edges := g.edges.insert id e } (Function.update removed e.target []) where
  endpoints id' e' he' := by
    rw [Std.ExtTreeMap.getElem?_insert] at he'
    split at he'
    · obtain rfl := Option.some.inj he'
      exact ⟨he.ne, he.source, he.target⟩
    · exact hg.endpoints id' e' he'
  unique id₁ id₂ e₁ e₂ h₁ h₂ hs ht := by
    rw [Std.ExtTreeMap.getElem?_insert] at h₁ h₂
    split at h₁ <;> split at h₂
    · rename_i heq₁ heq₂
      exact (Std.compare_eq_iff_eq.mp heq₁).symm.trans (Std.compare_eq_iff_eq.mp heq₂)
    · obtain rfl := Option.some.inj h₁
      exact absurd ⟨hs.symm, ht.symm⟩ (he.fresh id₂ e₂ h₂)
    · obtain rfl := Option.some.inj h₂
      exact absurd ⟨hs, ht⟩ (he.fresh id₁ e₁ h₁)
    · exact hg.unique id₁ id₂ e₁ e₂ h₁ h₂ hs ht
  ports v := by
    have hperm := targetPorts_perm_cons g { g with edges := g.edges.insert id e }
      (g.edges.toList_insert_perm e he.unused) v
    by_cases hv : e.target = v
    · subst hv
      obtain ⟨k, hk⟩ := he.ports
      rw [if_pos rfl] at hperm
      refine ⟨k, ?_⟩
      rw [Function.update_self, List.append_nil]
      exact (hperm.trans List.perm_append_comm).trans hk
    · obtain ⟨k, hk⟩ := hg.ports v
      rw [if_neg hv, List.nil_append] at hperm
      refine ⟨k, ?_⟩
      rw [Function.update_of_ne (Ne.symm hv)]
      exact (hperm.append_right _).trans hk

/-- A removed edge leaves the gap of its own ports. -/
theorem PortInvariant.removeEdge {removed : NodeId → List PortId} (hg : g.PortInvariant removed)
    (he : g.edges[id]? = some e) :
    PortInvariant { g with edges := g.edges.erase id }
      (Function.update removed e.target
        (e.ports.map PortLink.targetPort ++ removed e.target)) where
  endpoints id' e' he' := by
    rw [Std.ExtTreeMap.getElem?_erase] at he'
    split at he'
    · exact nomatch he'
    · exact hg.endpoints id' e' he'
  unique id₁ id₂ e₁ e₂ h₁ h₂ := by
    rw [Std.ExtTreeMap.getElem?_erase] at h₁ h₂
    split at h₁ <;> split at h₂
    · exact nomatch h₁
    · exact nomatch h₁
    · exact nomatch h₂
    · exact hg.unique id₁ id₂ e₁ e₂ h₁ h₂
  ports v := by
    have hperm := targetPorts_perm_cons { g with edges := g.edges.erase id } g
      (g.edges.toList_erase_perm he) v
    obtain ⟨k, hk⟩ := hg.ports v
    refine ⟨k, List.Perm.trans ?_ hk⟩
    by_cases hv : e.target = v
    · subst hv
      rw [if_pos rfl] at hperm
      rw [Function.update_self, ← List.append_assoc]
      exact (List.perm_append_comm.trans hperm.symm).append_right _
    · rw [if_neg hv, List.nil_append] at hperm
      rw [Function.update_of_ne (Ne.symm hv)]
      exact hperm.symm.append_right _

/-! ## Sequences of calls -/

/-- A call of one of the methods that build a graph. -/
inductive Op (N I O W : Type) where
  | addInput (i : I)
  | addInner (x : N)
  | addOutput (o : O)
  | addConsecutiveNode (ids : Nat → EdgeId) (node : Node N I O) (previousNodeId : NodeId)
      (weight : Option W)
  | addEdge (ids : Nat → EdgeId) (source target : NodeId) (ports : Ports) (weight : Option W)
  | addEdgesRaw (ids : Nat → EdgeId) (edges : List (Edge W))
  | replaceInner (id : NodeId) (f : N → N)
  | removeEdge (id : EdgeId)

/-- Make the call, dropping the identifiers it returns. -/
def Op.call : Op N I O W → Call (Graph N I O W) Unit
  | .addInput i => do let _ ← Graph.addInput i
  | .addInner x => do let _ ← Graph.addInner x
  | .addOutput o => do let _ ← Graph.addOutput o
  | .addConsecutiveNode ids node previousNodeId weight => do
      let _ ← Graph.addConsecutiveNode ids node previousNodeId weight
  | .addEdge ids source target ports weight => do
      let _ ← Graph.addEdge ids source target ports weight
  | .addEdgesRaw ids edges => do let _ ← Graph.addEdgesRaw ids edges
  | .replaceInner id f => Graph.replaceInner id f
  | .removeEdge id => Graph.removeEdge id

/-- The ports removed at each node since an edge was last inserted into it,
    after a call on `g`. -/
def Op.removed (g : Graph N I O W) (removed : NodeId → List PortId) :
    Op N I O W → NodeId → List PortId
  | .addInput _ | .addInner _ | .addOutput _ | .replaceInner _ _ => removed
  | .addConsecutiveNode _ _ _ _ => Function.update removed g.nextNodeId []
  | .addEdge _ _ target _ _ => Function.update removed target []
  | .addEdgesRaw _ edges => edges.foldl (fun acc e => Function.update acc e.target []) removed
  | .removeEdge id =>
      match g.edges[id]? with
      | some e =>
          Function.update removed e.target
            (e.ports.map PortLink.targetPort ++ removed e.target)
      | none => removed

/-- Make the calls one after the other, as long as they return `Ok`; next to
    the graph, keep the ports removed since the last insertions. -/
def callAll (s : Graph N I O W × (NodeId → List PortId)) (ops : List (Op N I O W)) :
    Option (Graph N I O W × (NodeId → List PortId)) :=
  ops.foldlM (fun s op =>
    match op.call.run s.1 with
    | .ok _ g => some (g, op.removed s.1 s.2)
    | .error _ _ => none) s

/-- The loop of `add_edges_raw` keeps the invariant, edge by edge. -/
private theorem portInvariant_addEdgesRaw (edges : List (Edge W)) {removed : NodeId → List PortId}
    {i : Nat} {ids : Nat → EdgeId} {r : List EdgeId} (hg : g.PortInvariant removed)
    (h : ((edges.zipIdx i).mapM fun (p : Edge W × Nat) => addEdgeRaw (ids p.2) p.1).run g =
      .ok r g') :
    g'.PortInvariant (edges.foldl (fun acc e => Function.update acc e.target []) removed) := by
  induction edges generalizing g removed i r with
  | nil =>
    simp only [List.zipIdx_nil, List.mapM_nil, EStateM.run_pure, EStateM.Result.ok.injEq] at h
    obtain ⟨-, rfl⟩ := h
    exact hg
  | cons e es ih =>
    rw [List.zipIdx_cons, List.mapM_cons] at h
    obtain ⟨_, g₁, hadd, h⟩ := Call.bind_run_eq_ok.mp h
    obtain ⟨rs, g₂, hrest, h⟩ := Call.bind_run_eq_ok.mp h
    obtain ⟨-, rfl⟩ := EStateM.Result.ok.inj h
    obtain ⟨hacc, rfl⟩ := addEdgeRaw_eq_ok hadd
    exact ih (hg.addEdge hacc) hrest

private theorem portInvariant_addEdge {ids : Nat → EdgeId} {source target : NodeId} {ports : Ports}
    {weight : Option W} {removed : NodeId → List PortId} {r : EdgeId} (hg : g.PortInvariant removed)
    (h : (addEdge ids source target ports weight).run g = .ok r g') :
    g'.PortInvariant (Function.update removed target []) := by
  obtain ⟨_, g₁, hraw, h⟩ := Call.bind_run_eq_ok.mp h
  obtain ⟨-, rfl⟩ := Call.lift_run_eq_ok.mp h
  exact portInvariant_addEdgesRaw [Edge.new source target ports weight] hg hraw

private theorem portInvariant_addNode {removed : NodeId → List PortId} {r : NodeId}
    (hg : g.PortInvariant removed) (h : (addNode node).run g = .ok r g') :
    g'.PortInvariant removed := by
  obtain ⟨-, rfl⟩ := addNode_eq_ok h
  exact hg.setNodes rfl fun v hv => Std.ExtTreeMap.mem_insert.mpr (.inr hv)

/-- One successful call keeps the invariant. -/
theorem PortInvariant.call {removed : NodeId → List PortId} (hg : g.PortInvariant removed)
    (op : Op N I O W) (h : op.call.run g = .ok () g') :
    g'.PortInvariant (op.removed g removed) := by
  cases op with
  | addInput i | addInner i | addOutput i =>
    obtain ⟨_, _, hadd, h⟩ := Call.bind_run_eq_ok.mp h
    obtain ⟨-, rfl⟩ := EStateM.Result.ok.inj h
    exact portInvariant_addNode hg hadd
  | addConsecutiveNode ids node previousNodeId weight =>
    obtain ⟨_, _, hadd, h⟩ := Call.bind_run_eq_ok.mp h
    obtain ⟨-, rfl⟩ := EStateM.Result.ok.inj h
    obtain ⟨id, g₁, hnode, h⟩ := Call.bind_run_eq_ok.mp hadd
    obtain ⟨_, _, hedge, h⟩ := Call.bind_run_eq_ok.mp h
    obtain ⟨-, rfl⟩ := EStateM.Result.ok.inj h
    obtain rfl := addNode_id hnode
    exact portInvariant_addEdge (portInvariant_addNode hg hnode) hedge
  | addEdge ids source target ports weight =>
    obtain ⟨_, _, hadd, h⟩ := Call.bind_run_eq_ok.mp h
    obtain ⟨-, rfl⟩ := EStateM.Result.ok.inj h
    exact portInvariant_addEdge hg hadd
  | addEdgesRaw ids edges =>
    obtain ⟨_, _, hadd, h⟩ := Call.bind_run_eq_ok.mp h
    obtain ⟨-, rfl⟩ := EStateM.Result.ok.inj h
    exact portInvariant_addEdgesRaw edges hg hadd
  | replaceInner id f =>
    obtain ⟨x, hx, rfl⟩ := replaceInner_eq_ok h
    refine hg.setNodes rfl fun v hv => ?_
    rw [Std.ExtTreeMap.mem_insert, Std.ExtTreeMap.mem_erase]
    by_cases hid : id = v
    · exact .inl (by simp [hid])
    · exact .inr ⟨by simpa using hid, hv⟩
  | removeEdge id =>
    obtain ⟨⟨e, he⟩, rfl⟩ := removeEdge_eq_ok h
    simp only [Op.removed, he]
    exact hg.removeEdge he

/-- Successful calls keep the invariant. -/
theorem PortInvariant.callAll {ops : List (Op N I O W)}
    {s s' : Graph N I O W × (NodeId → List PortId)} (hs : s.1.PortInvariant s.2)
    (h : callAll s ops = some s') : s'.1.PortInvariant s'.2 := by
  induction ops generalizing s with
  | nil =>
    obtain rfl := Option.some.inj h
    exact hs
  | cons op ops ih =>
    simp only [Graph.callAll, List.foldlM_cons] at h
    cases hcall : op.call.run s.1 with
    | error e g =>
      rw [hcall] at h
      exact nomatch h
    | ok u g =>
      rw [hcall] at h
      exact ih (hs.call op hcall) h

/-- Every graph built by successful calls is a port graph: its edges connect
    distinct existing nodes, at most one for an ordered pair; the target ports
    at a node are pairwise distinct, and with the ports of the edges removed
    since the last insertion into the node they are exactly `0..k`. -/
theorem built_is_port_graph (ops : List (Op N I O W)) (g : Graph N I O W)
    (removed : NodeId → List PortId) (h : callAll (new, fun _ => []) ops = some (g, removed)) :
    (∀ (id : EdgeId) (e : Edge W), g.edges[id]? = some e →
      e.source ≠ e.target ∧ e.source ∈ g.nodes ∧ e.target ∈ g.nodes) ∧
    (∀ (id id' : EdgeId) (e e' : Edge W), g.edges[id]? = some e → g.edges[id']? = some e' →
      e.source = e'.source → e.target = e'.target → id = id') ∧
    ∀ v, (g.targetPorts v).Nodup ∧ ∃ k, (g.targetPorts v ++ removed v).Perm (List.range k) := by
  have hg : g.PortInvariant removed := portInvariant_new.callAll h
  refine ⟨hg.endpoints, hg.unique, fun v => ?_⟩
  obtain ⟨k, hk⟩ := hg.ports v
  exact ⟨(List.nodup_append.mp (hk.nodup_iff.mpr List.nodup_range)).1, k, hk⟩

/-- Two edges into node `2`, of which the first one is removed again. -/
def gapOps : List (Op Nat Nat Nat Nat) :=
  [.addInner 0, .addInner 1, .addInner 2, .addEdge (fun _ => 7) 0 2 [⟨0, 0⟩] none,
    .addEdge (fun _ => 8) 1 2 [⟨0, 1⟩] none, .removeEdge 7]

/-- The graph these calls leave behind. -/
def gapGraph : Graph Nat Nat Nat Nat × (NodeId → List PortId) :=
  (callAll (new, fun _ => []) gapOps).get rfl

theorem built_is_port_graph_gap : (gapGraph.1.targetPorts 2).Nodup ∧
    ∃ k, (gapGraph.1.targetPorts 2 ++ gapGraph.2 2).Perm (List.range k) :=
  (built_is_port_graph gapOps gapGraph.1 gapGraph.2 rfl).2.2 2

/-- After the removal the target ports at node `2` are `[1]`: no `0..k`. -/
theorem built_ports_not_consecutive :
    ¬∀ (ops : List (Op Nat Nat Nat Nat)) (s : Graph Nat Nat Nat Nat × (NodeId → List PortId)),
      callAll (new, fun _ => []) ops = some s →
      ∀ v, ∃ k, (s.1.targetPorts v).Perm (List.range k) := by
  intro h
  obtain ⟨k, hk⟩ := h gapOps gapGraph rfl 2
  have hports : gapGraph.1.targetPorts 2 = [1] := by decide
  rw [hports] at hk
  have hlen : k = 1 := by simpa using hk.length_eq.symm
  subst hlen
  exact absurd hk (by decide)

end DeepProve.Graph
