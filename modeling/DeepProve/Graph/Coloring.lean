import DeepProve.Graph.Simulation

/-!
# Nodes of one color

The policy `UniqueColoring` is consulted when `next_ready_nodes` releases a node, and not when
`init_nodes` starts the source nodes. So at most one node of each color is running in every state
that is reached from source nodes of different colors. No run releases a node twice.

A call that fails may have changed the scheduler, and the run goes on from the state it leaves.
-/

namespace DeepProve

namespace Call

variable {σ α β : Type}

/-- However a call on `s` ends, the state it leaves satisfies `Q`, together with the value if there
    is one. -/
def Ends (x : Call σ α) (s : σ) (Q : Option α → σ → Prop) : Prop :=
  match x.run s with
  | .ok a s' => Q (some a) s'
  | .error _ s' => Q none s'

variable {s : σ} {Q R : Option α → σ → Prop}
variable {x : Call σ α}

theorem Ends.ok {a : α} {s' : σ} (h : Ends x s Q) (hrun : x.run s = .ok a s') :
    Q (some a) s' := by
  rw [Ends, hrun] at h
  exact h

theorem Ends.error {e : Fault} {s' : σ} (h : Ends x s Q) (hrun : x.run s = .error e s') :
    Q none s' := by
  rw [Ends, hrun] at h
  exact h

theorem Ends.of_run {a : α} {s' : σ} (hrun : x.run s = .ok a s') (h : Q (some a) s') :
    Ends x s Q := by
  rw [Ends, hrun]
  exact h

theorem Ends.imp (h : Ends x s Q) (hQ : ∀ r s', Q r s' → R r s') : Ends x s R := by
  unfold Ends at h ⊢
  cases hrun : x.run s with
  | ok a s' =>
    rw [hrun] at h
    exact hQ _ _ h
  | error e s' =>
    rw [hrun] at h
    exact hQ _ _ h

theorem Ends.pure {a : α} (h : Q (some a) s) : Ends (pure a) s Q := h

/-- The rest of a call runs in the state its first part leaves. -/
theorem Ends.bind {x : Call σ β} {f : β → Call σ α} {P : Option β → σ → Prop} (h : Ends x s P)
    (hok : ∀ b s', P (some b) s' → Ends (f b) s' Q) (herror : ∀ s', P none s' → Q none s') :
    Ends (x >>= f) s Q := by
  unfold Ends at h ⊢
  rw [EStateM.run_bind]
  cases hrun : x.run s with
  | ok b s' =>
    rw [hrun] at h
    exact hok b s' h
  | error e s' =>
    rw [hrun] at h
    exact herror s' h

/-- A check changes nothing. -/
theorem Ends.lift_bind {x : Outcome β} {f : β → Call σ α} (hok : ∀ b, x = .ok b → Ends (f b) s Q)
    (herror : ∀ e, x = .error e → Q none s) : Ends (lift x >>= f) s Q := by
  cases x with
  | ok b => exact hok b rfl
  | error e => exact herror e rfl

theorem Ends.get_bind {f : σ → Call σ α} (h : Ends (f s) s Q) :
    Ends ((get : Call σ σ) >>= f) s Q := h

theorem Ends.modify_bind {g : σ → σ} {f : PUnit → Call σ α} (h : Ends (f ⟨⟩) (g s) Q) :
    Ends ((modify g : Call σ PUnit) >>= f) s Q := h

end Call

namespace GraphScheduler

open Graph Call

variable {N C Io : Type}

/-! ## What is kept -/

/-- The nodes that have been released. -/
def started (s : GraphScheduler N C Io) : Finset NodeId := s.runningNodes ∪ s.doneNodes

/-- The color of a node. -/
def colorOf (s : GraphScheduler N C Io) (n : NodeId) : Option C := (s.innerNode n).map Colored.color

/-- At most one running node has any given color. -/
def ColorsExclusive (s : GraphScheduler N C Io) : Prop :=
  ∀ m ∈ s.runningNodes, ∀ n ∈ s.runningNodes, ∀ c, s.colorOf m = some c → s.colorOf n = some c →
    m = n

/-- No data waits on the edges into a node that has been released. -/
def Drained (s : GraphScheduler N C Io) : Prop :=
  ∀ (id : EdgeId) (e : Edge Io), s.graph.edges[id]? = some e → e.target ∈ s.started →
    e.weight = none

/-- The nodes released so far have been released once and are not released again. -/
structure ReleaseInvariant (g : ExecGraph N C Io) (released : List NodeId)
    (s : GraphScheduler N C Io) : Prop where
  nodes : s.graph.nodes = g.nodes
  policy : s.releasePolicy = .uniqueColoring
  nodup : released.Nodup
  started : ∀ n ∈ released, n ∈ s.started
  drained : s.Drained

variable {g : ExecGraph N C Io} {s : GraphScheduler N C Io} {released : List NodeId}

theorem releaseInvariant_new (g : ExecGraph N C Io) : (new g).ReleaseInvariant g [] where
  nodes := rfl
  policy := rfl
  nodup := List.nodup_nil
  started n hn := by cases hn
  drained id e _ ht := by simp [new, GraphScheduler.started] at ht

theorem ReleaseInvariant.sublist {released' : List NodeId} (h : s.ReleaseInvariant g released)
    (hsub : released'.Sublist released) : s.ReleaseInvariant g released' where
  nodes := h.nodes
  policy := h.policy
  nodup := h.nodup.sublist hsub
  started n hn := h.started n (hsub.subset hn)
  drained := h.drained

/-- Only data on edges has changed. -/
theorem ReleaseInvariant.congr {s' : GraphScheduler N C Io} (h : s.ReleaseInvariant g released)
    (hnodes : s'.graph.nodes = s.graph.nodes) (hpolicy : s'.releasePolicy = s.releasePolicy)
    (hstarted : s'.started = s.started) (hdrained : s'.Drained) : s'.ReleaseInvariant g released where
  nodes := hnodes.trans h.nodes
  policy := hpolicy.trans h.policy
  nodup := h.nodup
  started n hn := hstarted ▸ h.started n hn
  drained := hdrained

theorem colorsExclusive_new (g : ExecGraph N C Io) : (new g).ColorsExclusive := by
  intro m hm
  simp [new] at hm

/-- Fewer running nodes. -/
theorem ColorsExclusive.mono {s' : GraphScheduler N C Io} (h : s.ColorsExclusive)
    (hnodes : s'.graph.nodes = s.graph.nodes) (hsub : s'.runningNodes ⊆ s.runningNodes) :
    s'.ColorsExclusive := by
  intro m hm n hn c hmc hnc
  unfold colorOf innerNode at hmc hnc
  rw [hnodes] at hmc hnc
  exact h m (hsub hm) n (hsub hn) c hmc hnc

/-! ## Completion -/

/-- Outputs are put on edges into nodes that have not been released. -/
theorem ends_foldlM_fillEdge (outputs : List Io) {L : List (EdgeId × Edge Io)}
    (hL : ∀ e ∈ L, e.2.target ∉ s.started) (h : s.Drained) (acc : Finset Nat) :
    Ends (L.foldlM (fillEdge outputs) acc) s fun _ s' =>
      s' = s.setEdges s'.graph.edges ∧ s'.Drained := by
  induction L generalizing acc s with
  | nil => exact Ends.pure ⟨rfl, h⟩
  | cons e L ih =>
    obtain ⟨id, e⟩ := e
    obtain ⟨he, hL⟩ := List.forall_mem_cons.mp hL
    rw [List.foldlM_cons]
    apply Ends.bind (P := fun _ s' => s' = s.setEdges s'.graph.edges ∧ s'.Drained)
    · unfold fillEdge
      apply Ends.lift_bind _ fun _ _ => ⟨rfl, h⟩
      intro _ _
      apply Ends.lift_bind _ fun _ _ => ⟨rfl, h⟩
      intro link _
      apply Ends.lift_bind _ fun _ _ => ⟨rfl, h⟩
      intro data _
      apply Ends.modify_bind
      apply Ends.pure
      refine ⟨rfl, ?_⟩
      intro id' e' he' ht
      rw [Std.ExtTreeMap.getElem?_insert] at he'
      split at he'
      · obtain rfl := Option.some.inj he'
        exact absurd ht he
      · exact h id' e' he' ht
    · intro acc' s' ⟨hs', hdrained⟩
      have hstarted : s'.started = s.started := by rw [hs']; rfl
      apply (ih (fun e he => hstarted ▸ hL e he) hdrained acc').imp
      intro _ s'' ⟨hs'', hdrained''⟩
      refine ⟨?_, hdrained''⟩
      rw [hs'', hs']
      rfl
    · exact fun s' hs' => hs'

/-- A node that is completed stays released. -/
theorem Ends.markDone (h : s.ReleaseInvariant g released) (nodeId : NodeId) (outputs : List Io) :
    Ends (markDone nodeId outputs) s fun _ s' => s'.ReleaseInvariant g released ∧
      s'.runningNodes ⊆ s.runningNodes := by
  unfold GraphScheduler.markDone
  apply Ends.get_bind
  apply Ends.lift_bind _ fun _ _ => ⟨h, Finset.Subset.refl _⟩
  intro _ hrunning
  have hrunning : nodeId ∈ s.runningNodes := by simpa [ensure_eq_ok] using hrunning
  apply Ends.modify_bind
  apply Ends.lift_bind
  · intro _ hdone
    have hdone : nodeId ∉ s.doneNodes := by simpa [ensure_eq_ok] using hdone
    apply Ends.modify_bind
    apply Ends.get_bind
    -- the node goes from the running nodes to the completed ones
    have hstarted : s.runningNodes.erase nodeId ∪ insert nodeId s.doneNodes = s.started := by
      ext n
      simp only [Finset.mem_union, Finset.mem_erase, Finset.mem_insert, GraphScheduler.started]
      by_cases hn : n = nodeId
      · simp [hn, hrunning]
      · simp [hn]
    apply Ends.bind (ends_foldlM_fillEdge outputs _ _ _)
    · intro ports s' ⟨hs', hdrained⟩
      apply Ends.pure
      have hstarted' : s'.started = s.started := hs' ▸ hstarted
      exact ⟨h.congr (hs' ▸ rfl) (hs' ▸ rfl) hstarted' hdrained, hs' ▸ Finset.erase_subset _ _⟩
    · intro s' ⟨hs', hdrained⟩
      have hstarted' : s'.started = s.started := hs' ▸ hstarted
      exact ⟨h.congr (hs' ▸ rfl) (hs' ▸ rfl) hstarted' hdrained, hs' ▸ Finset.erase_subset _ _⟩
    · intro e he
      have htarget := (List.mem_filter.mp he).2
      simp only [Bool.and_eq_true, decide_eq_true_eq] at htarget
      rw [GraphScheduler.started, Finset.mem_union, not_or]
      exact ⟨htarget.2, htarget.1⟩
    · intro id e he ht
      exact h.drained id e he (hstarted ▸ ht)
  · -- a node that was running and done is only taken out of the running nodes
    intro e he
    have hdone : nodeId ∈ s.doneNodes := by
      by_contra hdone
      have hnot : decide (nodeId ∉ s.doneNodes) = true := by simpa using hdone
      rw [hnot] at he
      cases he
    have hstarted : s.runningNodes.erase nodeId ∪ s.doneNodes = s.started := by
      ext n
      simp only [Finset.mem_union, Finset.mem_erase, GraphScheduler.started]
      by_cases hn : n = nodeId
      · simp [hn, hdone]
      · simp [hn]
    refine ⟨h.congr rfl rfl hstarted fun id e he ht => ?_, Finset.erase_subset _ _⟩
    exact h.drained id e he (hstarted ▸ ht)

/-! ## Release -/

/-- Data is taken off edges that are filled. -/
theorem foldlM_takeEdge_run {L : List (EdgeId × Edge Io)}
    (hL : ∀ e ∈ L, e.2.weight.isSome = true) (acc : BTreeMap PortId Io)
    (s : GraphScheduler N C Io) :
    ∃ inputData, (L.foldlM takeEdge acc).run s = .ok inputData
      (s.setEdges (s.graph.edges.insertMany (L.map fun e => (e.1, { e.2 with weight := none })))) := by
  induction L generalizing acc s with
  | nil => exact ⟨acc, rfl⟩
  | cons e L ih =>
    obtain ⟨id, e⟩ := e
    obtain ⟨he, hL⟩ := List.forall_mem_cons.mp hL
    obtain ⟨data, hdata⟩ := Option.isSome_iff_exists.mp he
    have hdata : e.weight = some data := hdata
    obtain ⟨inputData, hrest⟩ := ih hL (e.ports.foldl (fun acc link => acc.insert link.targetPort data) acc)
      (s.setEdges (s.graph.edges.insert id { e with weight := none }))
    refine ⟨inputData, ?_⟩
    have htake : (takeEdge acc (id, e)).run s =
        .ok (e.ports.foldl (fun acc link => acc.insert link.targetPort data) acc)
          (s.setEdges (s.graph.edges.insert id { e with weight := none })) := by
      simp only [takeEdge, hdata, okOr_some, Call.lift_ok, pure_bind, Call.modify_bind_run,
        EStateM.run_pure]
      rfl
    rw [List.foldlM_cons, EStateM.run_bind, htake, List.map_cons, Std.ExtTreeMap.insertMany_cons]
    exact hrest

/-- All edges into a node are filled. -/
def Filled (s : GraphScheduler N C Io) (n : NodeId) : Prop :=
  ∀ e ∈ s.graph.incomings n, e.2.weight.isSome = true

/-- What the release of a node changes: the node is running, and the edges into it are empty. -/
structure Released (s : GraphScheduler N C Io) (n : NodeId) (s' : GraphScheduler N C Io) : Prop where
  nodes : s'.graph.nodes = s.graph.nodes
  policy : s'.releasePolicy = s.releasePolicy
  running : s'.runningNodes = insert n s.runningNodes
  done : s'.doneNodes = s.doneNodes
  edges : ∀ id : EdgeId, s'.graph.edges[id]? =
    s.graph.edges[id]?.map fun e : Edge Io => if e.target = n then { e with weight := none } else e

/-- `releaseNode` -/
theorem ends_releaseNode {n : NodeId} (hfilled : s.Filled n) :
    Ends (releaseNode n) s fun r s' => s.Released n s' ∧
      ∀ node : ReadyNode N C Io, r = some node → node.nodeId = n := by
  unfold releaseNode
  apply Ends.modify_bind
  apply Ends.get_bind
  obtain ⟨inputData, hrun⟩ := foldlM_takeEdge_run (L := s.graph.incomings n) hfilled ∅
    { s with runningNodes := insert n s.runningNodes }
  have hmem : ∀ (id : EdgeId) (e : Edge Io), (id, e) ∈ (s.graph.incomings n).map
      (fun e => (e.1, { e.2 with weight := none })) ↔
        (s.graph.edges[id]?.bind fun e : Edge Io =>
          if e.target = n then some { e with weight := none } else none) = some e := by
    intro id e'
    simp only [List.mem_map, Prod.exists, mem_incomings, Prod.mk.injEq, Option.bind_eq_some_iff]
    constructor
    · intro ⟨id', e, ⟨he, ht⟩, hid, hnone⟩
      subst hid
      exact ⟨e, he, by rw [if_pos ht, hnone]⟩
    · intro ⟨e, he, hnone⟩
      split at hnone
      · next ht => exact ⟨id, e, ⟨he, ht⟩, rfl, Option.some.inj hnone⟩
      · cases hnone
  have hedges : ∀ id : EdgeId, (s.graph.edges.insertMany ((s.graph.incomings n).map fun e =>
      (e.1, { e.2 with weight := none })))[id]? =
        s.graph.edges[id]?.map fun e : Edge Io => if e.target = n then { e with weight := none } else e := by
    intro id
    rw [Std.ExtTreeMap.getElem?_insertMany_of_mem_iff _ hmem]
    cases s.graph.edges[id]? with
    | none => rfl
    | some e =>
      simp only [Option.bind_some, Option.map_some]
      split <;> rfl
  apply Ends.bind (Ends.of_run (Q := fun _ s' => s' = _) hrun rfl)
  · intro _ s' hs'
    apply Ends.get_bind
    apply Ends.modify_bind
    apply Ends.lift_bind
    · intro node _
      apply Ends.pure
      rw [hs']
      refine ⟨⟨rfl, rfl, rfl, rfl, hedges⟩, fun node' hnode' => ?_⟩
      rw [← Option.some.inj hnode']
    · intro _ _
      rw [hs']
      exact ⟨⟨rfl, rfl, rfl, rfl, hedges⟩, fun _ h => nomatch h⟩
  · intro s' hs'
    rw [hs']
    exact ⟨⟨rfl, rfl, rfl, rfl, hedges⟩, fun _ h => nomatch h⟩

namespace Released

variable {n : NodeId} {s' : GraphScheduler N C Io} (h : s.Released n s')

include h

theorem mem_started {m : NodeId} : m ∈ s'.started ↔ m = n ∨ m ∈ s.started := by
  rw [GraphScheduler.started, GraphScheduler.started, h.running, h.done, Finset.insert_union,
    Finset.mem_insert]

/-- The released node is added to those that are not released again. -/
theorem releaseInvariant (hs : s.ReleaseInvariant g released) (hn : n ∉ s.started) :
    s'.ReleaseInvariant g (released ++ [n]) where
  nodes := h.nodes.trans hs.nodes
  policy := h.policy.trans hs.policy
  nodup := by
    rw [List.nodup_append_comm]
    exact List.nodup_cons.mpr ⟨fun hmem => hn (hs.started n hmem), hs.nodup⟩
  started m hm := by
    rw [h.mem_started]
    rcases List.mem_append.mp hm with hm | hm
    · exact .inr (hs.started m hm)
    · exact .inl (List.mem_singleton.mp hm)
  drained id e he ht := by
    rw [h.edges] at he
    obtain ⟨e', he', rfl⟩ := Option.map_eq_some_iff.mp he
    by_cases htarget : e'.target = n
    · rw [if_pos htarget]
    · rw [if_neg htarget] at ht ⊢
      exact hs.drained id e' he' ((h.mem_started.mp ht).resolve_left htarget)

/-- The color of the released node is new. -/
theorem colorsExclusive_release (hs : s.ColorsExclusive)
    (hn : ∀ m ∈ s.runningNodes, ∀ c, s.colorOf m = some c → s.colorOf n = some c → m = n) :
    s'.ColorsExclusive := by
  have hcolor : s'.colorOf = s.colorOf := by
    funext m
    unfold colorOf innerNode
    rw [h.nodes]
  intro m hm m' hm' c hc hc'
  rw [hcolor] at hc hc'
  rw [h.running] at hm hm'
  rcases Finset.mem_insert.mp hm with hnew | hold
  · rcases Finset.mem_insert.mp hm' with hnew' | hold'
    · rw [hnew, hnew']
    · rw [hnew] at hc ⊢
      exact (hn m' hold' c hc' hc).symm
  · rcases Finset.mem_insert.mp hm' with hnew' | hold'
    · rw [hnew'] at hc' ⊢
      exact hn m hold c hc hc'
    · exact hs m hold m' hold' c hc hc'

/-- The edges into another node stay filled. -/
theorem filled {m : NodeId} (hm : m ≠ n) (hfilled : s.Filled m) : s'.Filled m := by
  intro e he
  obtain ⟨he, ht⟩ := mem_incomings.mp he
  rw [h.edges] at he
  obtain ⟨e', he', heq⟩ := Option.map_eq_some_iff.mp he
  by_cases htarget : e'.target = n
  · rw [if_pos htarget] at heq
    have htarget' : e.2.target = n := by rw [← heq]; exact htarget
    exact absurd (ht.symm.trans htarget') hm
  · rw [if_neg htarget] at heq
    exact hfilled (e.1, e.2) (mem_incomings.mpr ⟨heq ▸ he', ht⟩)

end Released

section Accept

variable [DecidableEq C]

/-- A node is released only if no running node has its color. -/
theorem accept_eq_ok {n : NodeId} (hpolicy : s.releasePolicy = .uniqueColoring)
    (h : s.accept n = .ok true) :
    ∀ m ∈ s.runningNodes, ∀ c, s.colorOf m = some c → s.colorOf n = some c → m = n := by
  unfold accept at h
  rw [hpolicy] at h
  obtain ⟨node, hnode, hok⟩ := Outcome.bind_eq_ok.mp h
  have hcolors := of_decide_eq_true (Except.ok.inj hok)
  have hn : s.colorOf n = some node.color := by
    unfold colorOf
    rw [unwrap_eq_ok.mp hnode]
    rfl
  intro m hm c hmc hnc
  rw [hn] at hnc
  exact absurd (hmc.trans hnc.symm) (hcolors m hm)

/-- What has been released is released once, also if a call failed and did not return it. -/
def Kept (g : ExecGraph N C Io) (released : List NodeId) (r : Option (List (ReadyNode N C Io)))
    (s : GraphScheduler N C Io) : Prop :=
  s.ReleaseInvariant g (released ++ (r.getD []).map ReadyNode.nodeId)

/-- Ready nodes are released one by one. -/
theorem ends_foldlM_tryRelease {l : List NodeId} {ready : List (ReadyNode N C Io)}
    (hnodup : l.Nodup) (hl : ∀ n ∈ l, s.Filled n ∧ n ∉ s.started)
    (h : Kept g released (some ready) s) :
    Ends (l.foldlM tryRelease ready) s fun r s' => Kept g released r s' ∧
      (s.ColorsExclusive → s'.ColorsExclusive) := by
  induction l generalizing ready s with
  | nil => exact Ends.pure ⟨h, id⟩
  | cons n l ih =>
    obtain ⟨⟨hfilled, hnew⟩, hl⟩ := List.forall_mem_cons.mp hl
    obtain ⟨hn, hnodup⟩ := List.nodup_cons.mp hnodup
    have hfailed : Kept g released none s := by
      apply ReleaseInvariant.sublist h
      simp
    rw [List.foldlM_cons]
    unfold tryRelease
    rw [bind_assoc]
    apply Ends.get_bind
    rw [bind_assoc]
    apply Ends.lift_bind _ fun _ _ => ⟨hfailed, id⟩
    intro accepted haccept
    cases accepted with
    | false =>
      rw [if_neg (by decide), pure_bind]
      exact ih hnodup hl h
    | true =>
      rw [if_pos rfl, bind_assoc]
      apply Ends.bind (ends_releaseNode hfilled)
      · intro node s' ⟨hreleased, hnode⟩
        have hid : node.nodeId = n := hnode node rfl
        rw [pure_bind]
        have hkept : Kept g released (some (ready ++ [node])) s' := by
          have hinv := hreleased.releaseInvariant h hnew
          unfold Kept
          rw [Option.getD_some, List.map_append, List.map_singleton, hid, ← List.append_assoc]
          exact hinv
        have hrest : ∀ m ∈ l, s'.Filled m ∧ m ∉ s'.started := by
          intro m hm
          have hne : m ≠ n := fun heq => hn (heq ▸ hm)
          refine ⟨hreleased.filled hne (hl m hm).1, ?_⟩
          rw [hreleased.mem_started, not_or]
          exact ⟨hne, (hl m hm).2⟩
        apply (ih hnodup hrest hkept).imp
        intro r s'' ⟨hkept'', hexclusive⟩
        exact ⟨hkept'', fun hs => hexclusive
          (hreleased.colorsExclusive_release hs (accept_eq_ok h.policy haccept))⟩
      · intro s' ⟨hreleased, _⟩
        have hinv := hreleased.releaseInvariant h hnew
        refine ⟨ReleaseInvariant.sublist hinv ?_, fun hs =>
          hreleased.colorsExclusive_release hs (accept_eq_ok h.policy haccept)⟩
        simp

/-- Nodes that are found ready have not been released before. -/
theorem Ends.nextReadyNodes (h : s.ReleaseInvariant g released) (order : HashOrder) :
    Ends (nextReadyNodes order) s fun r s' => Kept g released r s' ∧
      (s.ColorsExclusive → s'.ColorsExclusive) := by
  unfold GraphScheduler.nextReadyNodes
  apply Ends.get_bind
  have hperm := order.perm s.readyNodeIds
  apply ends_foldlM_tryRelease (hperm.nodup_iff.mpr s.nodup_readyNodeIds)
  · intro n hn
    obtain ⟨hedges, hfilled, _⟩ := mem_readyNodeIds.mp (hperm.mem_iff.mp hn)
    refine ⟨hfilled, fun hstarted => ?_⟩
    obtain ⟨⟨id, e⟩, he⟩ := List.exists_mem_of_ne_nil _ hedges
    have hsome := hfilled _ he
    obtain ⟨hget, ht⟩ := mem_incomings.mp he
    rw [h.drained id e hget (ht ▸ hstarted)] at hsome
    cases hsome
  · unfold Kept
    simpa using h

end Accept

/-! ## Initialisation -/

/-- One input is sorted under its node. -/
theorem ends_initInput (inputs : HashMap NodeId (BTreeMap PortId Io)) (entry : NodeInput × Io) :
    Ends (initInput inputs entry) s fun r s' =>
      (∃ waiting, s' = { s with waitingInputData := waiting }) ∧
        ∀ inputs' : HashMap NodeId (BTreeMap PortId Io), r = some inputs' →
          ∀ n ∈ inputs', n ∈ inputs ∨ s.graph.isSource n = true ∧ entry.1.nodeId = n := by
  obtain ⟨nodeInput, io⟩ := entry
  unfold initInput
  apply Ends.get_bind
  by_cases hsource : s.graph.isSource nodeInput.nodeId = true
  · rw [if_pos hsource]
    apply Ends.lift_bind _ fun _ _ => ⟨⟨_, rfl⟩, fun _ h => nomatch h⟩
    intro _ _
    apply Ends.pure
    refine ⟨⟨_, rfl⟩, fun inputs' heq n hn => ?_⟩
    rw [← Option.some.inj heq, Std.ExtTreeMap.mem_insert] at hn
    rcases hn with hn | hn
    · obtain rfl := Std.compare_eq_iff_eq.mp hn
      exact .inr ⟨hsource, rfl⟩
    · exact .inl hn
  · rw [if_neg hsource]
    apply Ends.modify_bind
    apply Ends.lift_bind _ fun _ _ => ⟨⟨_, rfl⟩, fun _ h => nomatch h⟩
    intro _ _
    apply Ends.pure
    refine ⟨⟨_, rfl⟩, fun inputs' heq n hn => ?_⟩
    rw [← Option.some.inj heq] at hn
    exact .inl hn

variable {inputs : HashMap NodeId (BTreeMap PortId Io)}

/-- Only sources are started with their inputs. -/
theorem ends_foldlM_initInput {entries l : List (NodeInput × Io)} (hsub : l ⊆ entries)
    (h : ∀ n ∈ inputs, s.graph.isSource n = true ∧ ∃ entry ∈ entries, entry.1.nodeId = n) :
    Ends (l.foldlM initInput inputs) s fun r s' =>
      (∃ waiting, s' = { s with waitingInputData := waiting }) ∧
        ∀ inputs : HashMap NodeId (BTreeMap PortId Io), r = some inputs →
          ∀ n ∈ inputs, s.graph.isSource n = true ∧ ∃ entry ∈ entries, entry.1.nodeId = n := by
  induction l generalizing inputs s with
  | nil =>
    apply Ends.pure
    refine ⟨⟨_, rfl⟩, fun inputs' heq => ?_⟩
    rw [← Option.some.inj heq]
    exact h
  | cons entry l ih =>
    obtain ⟨hentry, hsub⟩ := List.cons_subset.mp hsub
    rw [List.foldlM_cons]
    apply Ends.bind (ends_initInput inputs entry)
    · intro inputs' s' ⟨⟨waiting, hs'⟩, hinputs⟩
      subst hs'
      have hnext : ∀ n ∈ inputs', s.graph.isSource n = true ∧ ∃ entry ∈ entries, entry.1.nodeId = n := by
        intro n hn
        rcases hinputs inputs' rfl n hn with hold | ⟨hsource, hid⟩
        · exact h n hold
        · exact ⟨hsource, entry, hentry, hid⟩
      apply (ih (s := { s with waitingInputData := waiting }) hsub hnext).imp
      intro r s'' ⟨⟨waiting', hs''⟩, hr⟩
      exact ⟨⟨waiting', hs''⟩, hr⟩
    · intro s' ⟨hs', _⟩
      exact ⟨hs', fun _ h => nomatch h⟩

/-- A node is started, or nothing happens. -/
theorem ends_initNode (inputs : HashMap NodeId (BTreeMap PortId Io)) (n : NodeId) :
    Ends (initNode inputs n) s fun r s' =>
      (s' = { s with runningNodes := insert n s.runningNodes } ∨ r = none ∧ s' = s) ∧
        ∀ node : ReadyNode N C Io, r = some node → node.nodeId = n := by
  unfold initNode
  apply Ends.lift_bind _ fun _ _ => ⟨.inr ⟨rfl, rfl⟩, fun _ h => nomatch h⟩
  intro payload _
  apply Ends.get_bind
  apply Ends.lift_bind _ fun _ _ => ⟨.inr ⟨rfl, rfl⟩, fun _ h => nomatch h⟩
  intro node _
  apply Ends.modify_bind
  apply Ends.lift_bind _ fun _ _ => ⟨.inl rfl, fun _ h => nomatch h⟩
  intro colored _
  apply Ends.pure
  refine ⟨.inl rfl, fun node' hnode' => ?_⟩
  rw [← Option.some.inj hnode']

/-- No edge leads into a source that is started. -/
theorem released_of_isSource {n : NodeId} (hsource : s.graph.isSource n = true) :
    s.Released n { s with runningNodes := insert n s.runningNodes } where
  nodes := rfl
  policy := rfl
  running := rfl
  done := rfl
  edges id := by
    cases he : s.graph.edges[id]? with
    | none => rfl
    | some e =>
      have hne : ¬ e.target = n := by
        intro ht
        have hmem := mem_incomings.mpr ⟨he, ht⟩
        rw [List.isEmpty_iff.mp hsource] at hmem
        cases hmem
      rw [Option.map_some, if_neg hne]

/-- Sources are started one by one. -/
theorem ends_mapM_initNode {l : List NodeId} (hnodup : l.Nodup)
    (hl : ∀ n ∈ l, n ∉ s.started ∧ s.graph.isSource n = true) (h : s.ReleaseInvariant g released) :
    Ends (l.mapM (initNode inputs)) s fun r s' => Kept g released r s' ∧
      s'.graph = s.graph ∧ s'.runningNodes ⊆ s.runningNodes ∪ l.toFinset := by
  induction l generalizing released s with
  | nil =>
    rw [List.mapM_nil]
    apply Ends.pure
    refine ⟨?_, rfl, Finset.subset_union_left⟩
    unfold Kept
    simpa using h
  | cons n l ih =>
    obtain ⟨⟨hnew, hsource⟩, hl⟩ := List.forall_mem_cons.mp hl
    obtain ⟨hn, hnodup⟩ := List.nodup_cons.mp hnodup
    have hinv := (released_of_isSource hsource).releaseInvariant h hnew
    have hsub : insert n s.runningNodes ⊆ s.runningNodes ∪ (n :: l).toFinset := by
      intro m hm
      simp only [Finset.mem_insert, Finset.mem_union, List.mem_toFinset, List.mem_cons] at hm ⊢
      tauto
    have hsub' : l.toFinset ⊆ s.runningNodes ∪ (n :: l).toFinset := by
      intro m hm
      simp only [Finset.mem_union, List.mem_toFinset, List.mem_cons] at hm ⊢
      exact .inr (.inr hm)
    rw [List.mapM_cons]
    apply Ends.bind (ends_initNode inputs n)
    · intro node s' ⟨hs', hnode⟩
      have hid : node.nodeId = n := hnode node rfl
      rcases hs' with hs' | ⟨hnone, _⟩
      · subst hs'
        have hrest : ∀ m ∈ l, m ∉ started { s with runningNodes := insert n s.runningNodes } ∧
            s.graph.isSource m = true := by
          intro m hm
          refine ⟨?_, (hl m hm).2⟩
          rw [(released_of_isSource hsource).mem_started, not_or]
          exact ⟨fun heq => hn (heq ▸ hm), (hl m hm).1⟩
        apply Ends.bind (ih hnodup hrest hinv)
        · intro nodes s' ⟨hkept, hgraph, hrunning⟩
          apply Ends.pure
          refine ⟨?_, hgraph, hrunning.trans (Finset.union_subset hsub hsub')⟩
          unfold Kept at hkept ⊢
          simpa [hid] using hkept
        · intro s' ⟨hkept, hgraph, hrunning⟩
          refine ⟨ReleaseInvariant.sublist hkept ?_, hgraph,
            hrunning.trans (Finset.union_subset hsub hsub')⟩
          simp
      · cases hnone
    · intro s' ⟨hs', _⟩
      rcases hs' with hs' | ⟨_, hs'⟩
      · subst hs'
        refine ⟨ReleaseInvariant.sublist hinv ?_, rfl, hsub⟩
        simp
      · subst hs'
        refine ⟨?_, rfl, Finset.subset_union_left⟩
        unfold Kept
        simpa using h

/-- The source nodes with inputs have different colors. -/
def DistinctSourceColors (s : GraphScheduler N C Io) (inputData : HashMap NodeInput Io) : Prop :=
  ∀ i ∈ inputData, ∀ j ∈ inputData, s.graph.isSource i.nodeId = true →
    s.graph.isSource j.nodeId = true → ∀ c, s.colorOf i.nodeId = some c →
      s.colorOf j.nodeId = some c → i.nodeId = j.nodeId

/-- Nothing has been started yet. -/
def Fresh (s : GraphScheduler N C Io) : Prop :=
  s.runningNodes = ∅ ∧ s.doneNodes = ∅ ∧ s.waitingInputData.isEmpty = true

/-- Source nodes are started once. Their colors are not looked at. -/
theorem Ends.initNodes (h : s.ReleaseInvariant g released) (order : HashOrder)
    (inputData : HashMap NodeInput Io) :
    Ends (initNodes order inputData) s fun r s' => Kept g released r s' ∧
      (s.ColorsExclusive → (s.Fresh → s.DistinctSourceColors inputData) → s'.ColorsExclusive) := by
  have hfailed : Kept g released none s := by
    unfold Kept
    simpa using h
  unfold GraphScheduler.initNodes
  apply Ends.get_bind
  apply Ends.lift_bind _ fun _ _ => ⟨hfailed, fun hs _ => hs⟩
  intro _ hrunning
  apply Ends.lift_bind _ fun _ _ => ⟨hfailed, fun hs _ => hs⟩
  intro _ hdone
  apply Ends.lift_bind _ fun _ _ => ⟨hfailed, fun hs _ => hs⟩
  intro _ hwaiting
  have hfresh : s.Fresh := ⟨by simpa [ensure_eq_ok] using hrunning,
    by simpa [ensure_eq_ok] using hdone, ensure_eq_ok.mp hwaiting⟩
  have hempty : s.started = ∅ := by rw [started, hfresh.1, hfresh.2.1, Finset.union_empty]
  apply Ends.bind (ends_foldlM_initInput (List.Subset.refl inputData.toList) (by simp))
  · intro inputs s' ⟨⟨waiting, hs'⟩, hinputs⟩
    have hperm := order.perm inputs.keys
    have hmem : ∀ n ∈ order.toFun inputs.keys, s.graph.isSource n = true ∧
        ∃ entry ∈ inputData.toList, entry.1.nodeId = n := by
      intro n hn
      exact hinputs inputs rfl n (Std.ExtTreeMap.mem_keys.mp (hperm.mem_iff.mp hn))
    subst hs'
    have hwaits : ReleaseInvariant g released { s with waitingInputData := waiting } :=
      h.congr rfl rfl rfl h.drained
    apply (ends_mapM_initNode (hperm.nodup_iff.mpr inputs.nodup_keys) _ hwaits).imp
    · intro r s' ⟨hkept, hgraph, hsub⟩
      refine ⟨hkept, fun _ hdistinct => ?_⟩
      have hdistinct := hdistinct hfresh
      have hsource : ∀ m ∈ s'.runningNodes, s.graph.isSource m = true ∧
          ∃ i ∈ inputData, i.nodeId = m := by
        intro m hm
        have hm := hsub hm
        rw [hfresh.1, Finset.empty_union, List.mem_toFinset] at hm
        obtain ⟨hsource, ⟨i, io⟩, hi, hid⟩ := hmem m hm
        refine ⟨hsource, i, ?_, hid⟩
        rw [Std.ExtTreeMap.mem_toList_iff_getElem?_eq_some] at hi
        exact Std.ExtTreeMap.mem_iff_isSome_getElem?.mpr (Option.isSome_of_eq_some hi)
      have hcolor : s'.colorOf = s.colorOf := by
        funext m
        unfold colorOf innerNode
        rw [hgraph]
      intro m hm n hn c hmc hnc
      rw [hcolor] at hmc hnc
      obtain ⟨hm, i, hi, rfl⟩ := hsource m hm
      obtain ⟨hn, j, hj, rfl⟩ := hsource n hn
      exact hdistinct i hi j hj hm hn c hmc hnc
    · intro n hn
      have hnot : n ∉ s.started := by
        rw [hempty]
        exact Finset.notMem_empty n
      exact ⟨hnot, (hmem n hn).1⟩
  · intro s' ⟨⟨waiting, hs'⟩, _⟩
    subst hs'
    refine ⟨hfailed.congr rfl rfl rfl hfailed.drained, fun hs _ => ?_⟩
    exact hs.mono rfl (Finset.Subset.refl _)

/-! ## Runs -/

/-- A call of the scheduler. -/
inductive SchedulerCall (Io : Type) where
  | initNodes (order : HashOrder) (inputData : HashMap NodeInput Io)
  | markDone (nodeId : NodeId) (outputs : List Io)
  | nextReadyNodes (order : HashOrder)

variable [DecidableEq C]

/-- The nodes that a call releases. -/
def SchedulerCall.run : SchedulerCall Io → Call (GraphScheduler N C Io) (List NodeId)
  | .initNodes order inputData => do
    let nodes ← GraphScheduler.initNodes order inputData
    pure (nodes.map ReadyNode.nodeId)
  | .markDone nodeId outputs => do
    let _ ← GraphScheduler.markDone nodeId outputs
    pure []
  | .nextReadyNodes order => do
    let nodes ← GraphScheduler.nextReadyNodes order
    pure (nodes.map ReadyNode.nodeId)

/-- The scheduler is reached by calls that meet a condition, after some nodes have been released. -/
inductive Reached (g : ExecGraph N C Io) (Meets : GraphScheduler N C Io → SchedulerCall Io → Prop) :
    List NodeId → GraphScheduler N C Io → Prop
  | new : Reached g Meets [] (new g)
  | returned {released ids : List NodeId} {s s' : GraphScheduler N C Io} {call : SchedulerCall Io}
      (h : Reached g Meets released s) (hcall : Meets s call) (hrun : call.run.run s = .ok ids s') :
      Reached g Meets (released ++ ids) s'
  | failed {released : List NodeId} {s s' : GraphScheduler N C Io} {call : SchedulerCall Io}
      {e : Fault} (h : Reached g Meets released s) (hcall : Meets s call)
      (hrun : call.run.run s = .error e s') : Reached g Meets released s'

/-- The inputs given to a scheduler that has not been started are for source nodes of different
    colors. -/
def StartsDistinctColors (s : GraphScheduler N C Io) : SchedulerCall Io → Prop
  | .initNodes _ inputData => s.Fresh → s.DistinctSourceColors inputData
  | .markDone .. | .nextReadyNodes _ => True

/-- What one call keeps. -/
theorem ends_call (h : s.ReleaseInvariant g released) (call : SchedulerCall Io) :
    Ends call.run s fun r s' => s'.ReleaseInvariant g (released ++ r.getD []) ∧
      (s.ColorsExclusive → s.StartsDistinctColors call → s'.ColorsExclusive) := by
  cases call with
  | initNodes order inputData =>
    apply Ends.bind (Ends.initNodes h order inputData)
    · intro nodes s' ⟨hkept, hexclusive⟩
      exact Ends.pure ⟨hkept, hexclusive⟩
    · intro s' hs'
      exact hs'
  | markDone nodeId outputs =>
    have hkept : ∀ s' : GraphScheduler N C Io, s'.ReleaseInvariant g released →
        s'.ReleaseInvariant g (released ++ []) := by
      intro s' hs'
      rwa [List.append_nil]
    apply Ends.bind (Ends.markDone h nodeId outputs)
    · intro _ s' ⟨hinv, hsub⟩
      exact Ends.pure ⟨hkept s' hinv,
        fun hs _ => hs.mono (hinv.nodes.trans h.nodes.symm) hsub⟩
    · intro s' ⟨hinv, hsub⟩
      exact ⟨hkept s' hinv, fun hs _ => hs.mono (hinv.nodes.trans h.nodes.symm) hsub⟩
  | nextReadyNodes order =>
    apply Ends.bind (Ends.nextReadyNodes h order)
    · intro nodes s' ⟨hkept, hexclusive⟩
      exact Ends.pure ⟨hkept, fun hs _ => hexclusive hs⟩
    · intro s' ⟨hkept, hexclusive⟩
      exact ⟨hkept, fun hs _ => hexclusive hs⟩

/-- Whatever is called, no node is released twice. -/
theorem Reached.invariant {Meets : GraphScheduler N C Io → SchedulerCall Io → Prop}
    (h : Reached g Meets released s) : s.ReleaseInvariant g released := by
  induction h with
  | new => exact releaseInvariant_new g
  | @returned released ids s s' call _ _ hrun ih => exact ((ends_call ih call).ok hrun).1
  | @failed released s s' call e _ _ hrun ih =>
    have hinv := ((ends_call ih call).error hrun).1
    rwa [Option.getD_none, List.append_nil] at hinv

/-- From source nodes of different colors, at most one node of each color is running in every state
    that is reached, and no node is released twice. -/
theorem Reached.colorsExclusive (h : Reached g StartsDistinctColors released s) :
    s.ColorsExclusive ∧ released.Nodup := by
  refine ⟨?_, h.invariant.nodup⟩
  induction h with
  | new => exact colorsExclusive_new g
  | @returned released ids s s' call h hcall hrun ih =>
    exact ((ends_call h.invariant call).ok hrun).2 ih hcall
  | @failed released s s' call e h hcall hrun ih =>
    exact ((ends_call h.invariant call).error hrun).2 ih hcall

/-! ## Two source nodes -/

section Twins

/-- Two nodes without edges, of the given colors. -/
def twins (first second : Nat) : ExecGraph Nat Nat Nat where
  nodes := ((∅ : BTreeMap NodeId _).insert 0 (.inner ⟨0, first⟩)).insert 1 (.inner ⟨0, second⟩)
  edges := ∅

/-- An input for each of them. -/
def twinInputs : HashMap NodeInput Nat :=
  ((∅ : HashMap NodeInput Nat).insert ⟨0, 0⟩ 7).insert ⟨1, 0⟩ 7

def twinsStarted (first second : Nat) : GraphScheduler Nat Nat Nat :=
  { new (twins first second) with runningNodes := {1, 0} }

theorem twins_run (first second : Nat) :
    (SchedulerCall.initNodes ⟨id, fun _ => .rfl⟩ twinInputs).run.run (new (twins first second)) =
      .ok [0, 1] (twinsStarted first second) := rfl

/-- Two source nodes of one color run at the same time. -/
theorem twins_not_exclusive :
    ∃ released s, Reached (twins 5 5) (fun _ _ => True) released s ∧ ¬ s.ColorsExclusive := by
  refine ⟨_, _, Reached.new.returned trivial (twins_run 5 5), fun h => ?_⟩
  have heq : (0 : NodeId) = 1 := h 0 (by decide) 1 (by decide) 5 rfl rfl
  cases heq

/-- Two source nodes of different colors. -/
theorem twins_exclusive : (twinsStarted 5 6).ColorsExclusive ∧ ([0, 1] : List NodeId).Nodup := by
  have hmem : ∀ i ∈ twinInputs, i = ⟨0, 0⟩ ∨ i = ⟨1, 0⟩ := by
    intro i hi
    simp only [twinInputs, Std.ExtTreeMap.mem_insert, Std.compare_eq_iff_eq,
      Std.ExtTreeMap.not_mem_empty, or_false] at hi
    exact hi.symm.imp Eq.symm Eq.symm
  have hstart : StartsDistinctColors (new (twins 5 6))
      (.initNodes ⟨id, fun _ => .rfl⟩ twinInputs) := by
    intro _ i hi j hj _ _ c hic hjc
    have hcolors : (new (twins 5 6)).colorOf 0 ≠ (new (twins 5 6)).colorOf 1 := by decide
    rcases hmem i hi with rfl | rfl <;> rcases hmem j hj with rfl | rfl
    · rfl
    · exact absurd (hic.trans hjc.symm) hcolors
    · exact absurd (hjc.trans hic.symm) hcolors
    · rfl
  exact (Reached.new.returned hstart (twins_run 5 6)).colorsExclusive

end Twins

end GraphScheduler

end DeepProve
