import DeepProve.Graph.Simulation

/-!
# Every execution computes the same outputs

An execution drives a scheduler by two kinds of events: one of the nodes in
flight completes, or the ready nodes are asked for. Whatever the order of the
events, each node is released once, with the inputs its denotation says, and
when no node is in flight or ready the scheduler is done and the outputs
collected on the way are those of the denotation. The two executors are such
executions.
-/

namespace DeepProve

open Graph GraphScheduler

variable {N C Io : Type} [DecidableEq C]

/-! ## Executions -/

/-- A scheduler, the nodes in flight, all nodes released so far, and the outputs
    collected so far. -/
structure Execution (N C Io : Type) where
  scheduler : GraphScheduler N C Io
  inFlight : List (ReadyNode N C Io)
  released : List (ReadyNode N C Io)
  outputs : BTreeMap NodeOutput Io

inductive Event where
  /-- The `i`-th of the nodes in flight completes. -/
  | complete (i : Nat)
  /-- The ready nodes are asked for. -/
  | pull (order : HashOrder)

def Event.isComplete : Event → Bool
  | .complete _ => true
  | .pull _ => false

namespace Execution

/-- Release the sources. -/
def start (policy : ReleasePolicy) (order : HashOrder) (g : ExecGraph N C Io)
    (inputData : HashMap NodeInput Io) : Outcome (Execution N C Io) :=
  match (initNodes order inputData).run ((new g).withReleasePolicy policy) with
  | .error fault _ => .error fault
  | .ok ready s => .ok { scheduler := s, inFlight := ready, released := ready, outputs := ∅ }

/-- Make an event happen. -/
def step (nodeRun : ExecNode N Io) (e : Execution N C Io) : Event → Outcome (Execution N C Io)
  | .complete i => do
    let node ← unwrap e.inFlight[i]? "index out of bounds"
    let output ← node.run nodeRun
    match (markDone node.nodeId output).run e.scheduler with
    | .error fault _ => .error fault
    | .ok graphOutputs s =>
      pure
        { e with
          scheduler := s
          inFlight := e.inFlight.eraseIdx i
          outputs := e.outputs.insertMany graphOutputs.toList }
  | .pull order =>
    match (nextReadyNodes order).run e.scheduler with
    | .error fault _ => .error fault
    | .ok ready s =>
      pure
        { e with
          scheduler := s
          inFlight := e.inFlight ++ ready
          released := e.released ++ ready }

/-- Make the events happen one after the other. -/
def steps (nodeRun : ExecNode N Io) (e : Execution N C Io) (events : List Event) :
    Outcome (Execution N C Io) :=
  events.foldlM (step nodeRun) e

end Execution

variable {g : ExecGraph N C Io} {nodeRun : ExecNode N Io} {inputData : HashMap NodeInput Io}
variable {policy : ReleasePolicy} {p : Dag.Progress NodeId}

/-! ## What is kept along an execution -/

/-- The scheduler, the nodes in flight and the outputs collected are those of
    the progress `p`. -/
structure Follows (g : ExecGraph N C Io) (nodeRun : ExecNode N Io)
    (inputData : HashMap NodeInput Io) (policy : ReleasePolicy) (p : Dag.Progress NodeId)
    (s : GraphScheduler N C Io) (inFlight : List (ReadyNode N C Io))
    (outputs : BTreeMap NodeOutput Io) : Prop where
  scheduler : s = stateAt g nodeRun inputData policy p
  valid : p.Valid g.Pred (nodesOf g)
  sources : ∀ v ∈ g.sourceNodes, v ∈ p.running ∪ p.done
  nodup : (inFlight.map ReadyNode.nodeId).Nodup
  running : p.running = (inFlight.map ReadyNode.nodeId).toFinset
  ready : ∀ n ∈ inFlight, g.nodes[n.nodeId]? = some (.inner n.node) ∧
    n.inputs = g.inputsOf nodeRun inputData n.nodeId
  outputs : ∀ k, outputs[k]? = g.outputAt nodeRun inputData p.done k

namespace Follows

variable {s : GraphScheduler N C Io} {inFlight : List (ReadyNode N C Io)}
  {outputs : BTreeMap NodeOutput Io}

omit [DecidableEq C] in
/-- A node in flight computes its outputs. -/
theorem run_eq (h : g.Runnable nodeRun inputData)
    (hf : Follows g nodeRun inputData policy p s inFlight outputs) {n : ReadyNode N C Io}
    (hn : n ∈ inFlight) : n.run nodeRun = .ok (g.outputsOf nodeRun inputData n.nodeId) := by
  obtain ⟨hnode, hinputs⟩ := hf.ready n hn
  rw [ReadyNode.run, hinputs, h.outputsOf_spec hnode]

omit [DecidableEq C] in
/-- The outputs of a completed node are collected. -/
private theorem outputAt_finish {go : BTreeMap NodeOutput Io} {v : NodeId}
    (hgo : ∀ k io, (k, io) ∈ go.toList ↔ k.nodeId = v ∧ g.Unlinked v k.port ∧
      (g.outputsOf nodeRun inputData v)[k.port]? = some io)
    (houtputs : ∀ k, outputs[k]? = g.outputAt nodeRun inputData p.done k) (k : NodeOutput) :
    (outputs.insertMany go.toList)[k]? = g.outputAt nodeRun inputData (p.finish v).done k := by
  have hmem : ∀ k io, (k, io) ∈ go.toList ↔ g.outputAt nodeRun inputData {v} k = some io := by
    intro k io
    rw [hgo, outputAt_eq_some, Finset.mem_singleton]
    constructor
    · intro ⟨hk, hio⟩
      exact ⟨hk, hk ▸ hio⟩
    · intro ⟨hk, hio⟩
      exact ⟨hk, hk ▸ hio⟩
  rw [Std.ExtTreeMap.getElem?_insertMany_of_mem_iff _ hmem, houtputs]
  simp only [outputAt, Dag.Progress.finish, Finset.mem_insert, Finset.mem_singleton]
  by_cases hk : k.nodeId = v
  · by_cases hun : g.Unlinked k.nodeId k.port
    · by_cases hdone : v ∈ p.done
      · simp [hk, hk ▸ hun, hdone]
      · simp [hk, hk ▸ hun, hdone]
    · simp [hun]
  · simp [hk]

omit [DecidableEq C] in
/-- A node in flight can complete at any time. -/
theorem complete (h : g.Runnable nodeRun inputData)
    (hf : Follows g nodeRun inputData policy p s inFlight outputs) {i : Nat}
    {n : ReadyNode N C Io} (hi : inFlight[i]? = some n) :
    ∃ go s', (markDone n.nodeId (g.outputsOf nodeRun inputData n.nodeId)).run s = .ok go s' ∧
      Follows g nodeRun inputData policy (p.finish n.nodeId) s' (inFlight.eraseIdx i)
        (outputs.insertMany go.toList) := by
  obtain ⟨hlt, hget⟩ := List.getElem?_eq_some_iff.mp hi
  have hperm : (n.nodeId :: (inFlight.eraseIdx i).map ReadyNode.nodeId).Perm
      (inFlight.map ReadyNode.nodeId) := by
    rw [← List.map_cons, ← hget]
    exact (List.getElem_cons_eraseIdx_perm hlt).map _
  obtain ⟨hnotmem, hnodup⟩ := List.nodup_cons.mp (hperm.nodup_iff.mpr hf.nodup)
  have hrunning : p.running =
      insert n.nodeId ((inFlight.eraseIdx i).map ReadyNode.nodeId).toFinset := by
    rw [hf.running, ← List.toFinset_cons]
    exact List.toFinset_eq_of_perm _ _ hperm.symm
  have hv : n.nodeId ∈ p.running := by
    rw [hrunning]
    exact Finset.mem_insert_self ..
  obtain ⟨go, hrun, hgo⟩ := markDone_stateAt policy h hf.valid hv
  refine ⟨go, _, by rw [hf.scheduler]; exact hrun, ?_⟩
  exact {
    scheduler := rfl
    valid := hf.valid.finish hv
    sources := by
      intro w hw
      have hmem := hf.sources w hw
      simp only [Dag.Progress.finish, Finset.mem_union, Finset.mem_erase, Finset.mem_insert]
        at hmem ⊢
      tauto
    nodup := hnodup
    running := by
      rw [Dag.Progress.finish, hrunning, Finset.erase_insert]
      simpa using hnotmem
    ready := fun m hm => hf.ready m (List.mem_of_mem_eraseIdx hm)
    outputs := outputAt_finish hgo hf.outputs }

omit [DecidableEq C] in
theorem isDone_iff (hf : Follows g nodeRun inputData policy p s inFlight outputs) :
    s.isDone = true ↔ inFlight = [] ∧ p.done = nodesOf g := by
  have hsub : p.done ⊆ nodesOf g := Finset.subset_union_right.trans hf.valid.subset
  have hcard : p.done.card = g.nodeCount ↔ p.done = nodesOf g := by
    rw [← card_nodesOf]
    constructor
    · exact fun hc => Finset.eq_of_subset_of_card_le hsub hc.ge
    · exact fun hd => by rw [hd]
  have hempty : p.running = ∅ ↔ inFlight = [] := by
    rw [hf.running, List.toFinset_eq_empty_iff, List.map_eq_nil_iff]
  rw [hf.scheduler, isDone, Bool.and_eq_true, decide_eq_true_iff, decide_eq_true_iff]
  exact and_congr hempty hcard

omit [DecidableEq C] in
/-- Nothing is left to do when as many nodes are done as there are. -/
theorem isDone_of_nodeCount_le (hf : Follows g nodeRun inputData policy p s inFlight outputs)
    (hcard : g.nodeCount ≤ p.done.card) (hready : inFlight = [] → s.isDone = true) :
    s.isDone = true := by
  have hle := hf.valid.card_le
  rw [card_nodesOf] at hle
  have hrunning : p.running.card = 0 := by omega
  rw [hf.running, Finset.card_eq_zero, List.toFinset_eq_empty_iff, List.map_eq_nil_iff] at hrunning
  exact hready hrunning

/-- The ready nodes can be asked for at any time. -/
theorem pull (h : g.Runnable nodeRun inputData)
    (hf : Follows g nodeRun inputData policy p s inFlight outputs) (order : HashOrder) :
    ∃ ready s' p', (nextReadyNodes order).run s = .ok ready s' ∧
      Releases g nodeRun inputData p ready p' ∧
      Follows g nodeRun inputData policy p' s' (inFlight ++ ready) outputs ∧
      (inFlight = [] → s.isDone = false → ready ≠ []) := by
  obtain ⟨ready, p', hrun, hr, hne⟩ := nextReadyNodes_stateAt policy h hf.valid order
  refine ⟨ready, _, p', by rw [hf.scheduler]; exact hrun, hr, ?_, fun hempty hdone => ?_⟩
  · exact {
      scheduler := rfl
      valid := hr.valid
      sources := by
        intro w hw
        have hmem := hf.sources w hw
        rw [hr.running, hr.done]
        simp only [Finset.mem_union] at hmem ⊢
        tauto
      nodup := by
        rw [List.map_append]
        refine List.nodup_append.mpr ⟨hf.nodup, hr.nodup, ?_⟩
        intro v hv w hw hvw
        obtain ⟨n, hn, rfl⟩ := List.mem_map.mp hw
        have hnot := (hr.startable n hn).2.1
        rw [hf.running, List.mem_toFinset] at hnot
        exact hnot (hvw ▸ hv)
      running := by rw [hr.running, hf.running, List.map_append, List.toFinset_append]
      ready := by
        intro n hn
        rcases List.mem_append.mp hn with hn | hn
        · exact hf.ready n hn
        · exact hr.ready n hn
      outputs := by
        rw [hr.done]
        exact hf.outputs }
  · have hidle : p.running = ∅ := by simp [hf.running, hempty]
    have hleft : p.done ≠ nodesOf g := by
      intro hd
      have htrue := hf.isDone_iff.mpr ⟨hempty, hd⟩
      rw [hdone] at htrue
      exact nomatch htrue
    obtain ⟨v, hv⟩ := hf.valid.exists_startable h.acyclic h.pred_mem hidle hleft
    refine hne hidle ⟨v, hv, ?_⟩
    -- the sources have been started at the beginning
    by_contra hnone
    have hsource : v ∈ g.sourceNodes :=
      mem_sourceNodes.mpr ⟨mem_nodesOf.mp hv.1, fun u hu => hnone ⟨u, hu⟩⟩
    rcases Finset.mem_union.mp (hf.sources v hsource) with hmem | hmem
    · exact hv.2.1 hmem
    · exact hv.2.2.1 hmem

omit [DecidableEq C] in
/-- When the scheduler is done, the outputs collected are those of the graph. -/
theorem outputs_eq (hf : Follows g nodeRun inputData policy p s inFlight outputs)
    (hdone : s.isDone = true) : outputs = g.graphOutputs nodeRun inputData := by
  apply Std.ExtTreeMap.ext_getElem?
  intro k
  rw [getElem?_graphOutputs, hf.outputs, (hf.isDone_iff.mp hdone).2]

omit [DecidableEq C] in
/-- The sources are in flight when the scheduler has been initialized. -/
theorem initNodes (policy : ReleasePolicy) (h : g.Runnable nodeRun inputData) (order : HashOrder) :
    ∃ ready s p, (initNodes order inputData).run ((new g).withReleasePolicy policy) = .ok ready s ∧
      Follows g nodeRun inputData policy p s ready ∅ ∧ p.done = ∅ ∧
      (ready = [] → s.isDone = true) := by
  obtain ⟨ready, p, hrun, hr, hsources⟩ := initNodes_new policy h order
  have hdone : p.done = ∅ := hr.done
  have hrunning : p.running = (ready.map ReadyNode.nodeId).toFinset := by
    rw [hr.running]
    exact Finset.empty_union _
  have hf : Follows g nodeRun inputData policy p (stateAt g nodeRun inputData policy p) ready ∅ :=
    { scheduler := rfl
      valid := hr.valid
      sources := fun v hv => Finset.mem_union_left _ ((hsources v).mpr hv)
      nodup := hr.nodup
      running := hrunning
      ready := hr.ready
      outputs := by simp [hdone, outputAt] }
  refine ⟨ready, _, p, hrun, hf, hdone, fun hnil => ?_⟩
  -- an acyclic graph without sources is empty
  have hidle : p.running = ∅ := by rw [hrunning, hnil]; rfl
  by_contra hnot
  have hleft : p.done ≠ nodesOf g := fun hall => hnot (hf.isDone_iff.mpr ⟨hnil, hall⟩)
  obtain ⟨v, hv⟩ := hf.valid.exists_startable h.acyclic h.pred_mem hidle hleft
  have hsource : v ∈ g.sourceNodes := by
    refine mem_sourceNodes.mpr ⟨mem_nodesOf.mp hv.1, fun u hu => ?_⟩
    have hmem := hv.2.2.2 u hu
    rw [hdone] at hmem
    exact Finset.notMem_empty _ hmem
  exact hv.2.1 ((hsources v).mpr hsource)

end Follows

/-! ## Any order of events -/

namespace Execution

/-- The nodes released so far are those of the progress, each released once and
    with its inputs. -/
structure Invariant (g : ExecGraph N C Io) (nodeRun : ExecNode N Io)
    (inputData : HashMap NodeInput Io) (policy : ReleasePolicy) (p : Dag.Progress NodeId)
    (e : Execution N C Io) : Prop where
  follows : Follows g nodeRun inputData policy p e.scheduler e.inFlight e.outputs
  nodup : (e.released.map ReadyNode.nodeId).Nodup
  released : (e.released.map ReadyNode.nodeId).toFinset = p.running ∪ p.done
  ready : ∀ n ∈ e.released, g.nodes[n.nodeId]? = some (.inner n.node) ∧
    n.inputs = g.inputsOf nodeRun inputData n.nodeId

variable {e e' : Execution N C Io}

omit [DecidableEq C] in
theorem invariant_start (policy : ReleasePolicy) (h : g.Runnable nodeRun inputData) (order : HashOrder) :
    ∃ e p, start policy order g inputData = .ok e ∧
      Invariant g nodeRun inputData policy p e ∧ p.done = ∅ := by
  obtain ⟨ready, s, p, hrun, hf, hdone, -⟩ := Follows.initNodes policy h order
  refine ⟨_, p, by rw [start, hrun], ⟨hf, hf.nodup, ?_, hf.ready⟩, hdone⟩
  rw [hdone, Finset.union_empty, hf.running]

/-- Any of the nodes in flight can complete. -/
theorem Invariant.complete (h : g.Runnable nodeRun inputData)
    (he : Invariant g nodeRun inputData policy p e) {i : Nat} (hi : i < e.inFlight.length) :
    ∃ e' p', e.step nodeRun (.complete i) = .ok e' ∧
      Invariant g nodeRun inputData policy p' e' ∧ p'.done.card = p.done.card + 1 := by
  have hget : e.inFlight[i]? = some e.inFlight[i] := List.getElem?_eq_getElem hi
  have hmem : e.inFlight[i] ∈ e.inFlight := List.getElem_mem hi
  obtain ⟨go, s', hrun, hf⟩ := he.follows.complete h hget
  have hv : e.inFlight[i].nodeId ∈ p.running := by
    rw [he.follows.running, List.mem_toFinset]
    exact List.mem_map_of_mem hmem
  refine ⟨{ e with
      scheduler := s'
      inFlight := e.inFlight.eraseIdx i
      outputs := e.outputs.insertMany go.toList },
    p.finish e.inFlight[i].nodeId, ?_, ⟨hf, he.nodup, ?_, he.ready⟩, ?_⟩
  · simp only [step, hget, unwrap_some, Outcome.ok_bind, he.follows.run_eq h hmem, hrun]
    rfl
  · rw [he.released]
    ext w
    simp only [Dag.Progress.finish, Finset.mem_union, Finset.mem_erase, Finset.mem_insert]
    by_cases hw : w = e.inFlight[i].nodeId
    · simp [hw, hv]
    · simp [hw]
  · exact Finset.card_insert_of_notMem (Finset.disjoint_left.mp he.follows.valid.disjoint hv)

/-- The ready nodes can be asked for at any time; if nothing is in flight and
    the scheduler is not done there are some. -/
theorem Invariant.pull (h : g.Runnable nodeRun inputData)
    (he : Invariant g nodeRun inputData policy p e) (order : HashOrder) :
    ∃ e' p', e.step nodeRun (.pull order) = .ok e' ∧
      Invariant g nodeRun inputData policy p' e' ∧ p'.done = p.done ∧
      (e.inFlight = [] → (e'.inFlight = [] ↔ e.scheduler.isDone = true)) := by
  obtain ⟨ready, s', p', hrun, hr, hf, hne⟩ := he.follows.pull h order
  refine ⟨{ e with
      scheduler := s'
      inFlight := e.inFlight ++ ready
      released := e.released ++ ready },
    p', by simp only [step, hrun]; rfl, ⟨hf, ?_, ?_, ?_⟩, hr.done, fun hempty => ?_⟩
  · rw [List.map_append]
    refine List.nodup_append.mpr ⟨he.nodup, hr.nodup, ?_⟩
    intro v hv w hw hvw
    obtain ⟨n, hn, rfl⟩ := List.mem_map.mp hw
    obtain ⟨-, hnotrun, hnotdone, -⟩ := hr.startable n hn
    have hmem : n.nodeId ∈ p.running ∪ p.done := by
      rw [← he.released, List.mem_toFinset]
      exact hvw ▸ hv
    rcases Finset.mem_union.mp hmem with hmem | hmem
    · exact hnotrun hmem
    · exact hnotdone hmem
  · rw [List.map_append, List.toFinset_append, he.released, hr.running, hr.done]
    ext w
    simp only [Finset.mem_union]
    tauto
  · intro n hn
    rcases List.mem_append.mp hn with hn | hn
    · exact he.ready n hn
    · exact hr.ready n hn
  · rw [hempty, List.nil_append]
    constructor
    · intro hnil
      by_contra hnot
      exact hne hempty (by simpa using hnot) hnil
    · intro hdone
      obtain ⟨-, hall⟩ := he.follows.isDone_iff.mp hdone
      rw [List.eq_nil_iff_forall_not_mem]
      intro n hn
      obtain ⟨hnode, -, hnotdone, -⟩ := hr.startable n hn
      exact hnotdone (hall ▸ hnode)

/-- One event keeps the invariant, and a completion counts. -/
theorem Invariant.step (h : g.Runnable nodeRun inputData)
    (he : Invariant g nodeRun inputData policy p e) {event : Event}
    (hstep : e.step nodeRun event = .ok e') :
    ∃ p', Invariant g nodeRun inputData policy p' e' ∧
      p'.done.card = p.done.card + [event].countP Event.isComplete := by
  cases event with
  | complete i =>
    have hi : i < e.inFlight.length := by
      by_contra hi
      simp only [Execution.step, List.getElem?_eq_none (Nat.le_of_not_lt hi), unwrap_none,
        Outcome.error_bind, reduceCtorEq] at hstep
    obtain ⟨e'', p', hstep', he', hcard⟩ := he.complete h hi
    obtain rfl := Except.ok.inj (hstep.symm.trans hstep')
    exact ⟨p', he', hcard⟩
  | pull order =>
    obtain ⟨e'', p', hstep', he', hdone, -⟩ := he.pull h order
    obtain rfl := Except.ok.inj (hstep.symm.trans hstep')
    exact ⟨p', he', by rw [hdone]; rfl⟩

/-- The events that have happened keep the invariant. -/
theorem Invariant.steps (h : g.Runnable nodeRun inputData) {events : List Event}
    (he : Invariant g nodeRun inputData policy p e) (hsteps : e.steps nodeRun events = .ok e') :
    ∃ p', Invariant g nodeRun inputData policy p' e' ∧
      p'.done.card = p.done.card + events.countP Event.isComplete := by
  induction events generalizing e p with
  | nil =>
    obtain rfl := Except.ok.inj hsteps
    exact ⟨p, he, rfl⟩
  | cons event events ih =>
    simp only [Execution.steps, List.foldlM_cons, Outcome.bind_eq_ok] at hsteps
    obtain ⟨e₁, hstep, hsteps⟩ := hsteps
    obtain ⟨p₁, he₁, hcard₁⟩ := he.step h hstep
    obtain ⟨p', he', hcard⟩ := ih he₁ hsteps
    refine ⟨p', he', ?_⟩
    rw [hcard, hcard₁, List.countP_cons, List.countP_cons, List.countP_nil]
    omega

/-- What the invariant says about an execution. -/
theorem Invariant.summary (h : g.Runnable nodeRun inputData)
    (he : Invariant g nodeRun inputData policy p e) {completed : Nat}
    (hcompleted : completed = p.done.card) :
    (∀ i < e.inFlight.length, ∃ e', e.step nodeRun (.complete i) = .ok e') ∧
    (∀ order, ∃ e', e.step nodeRun (.pull order) = .ok e') ∧
    (e.released.map ReadyNode.nodeId).Nodup ∧
    (∀ n ∈ e.released, g.nodes[n.nodeId]? = some (.inner n.node) ∧
      n.inputs = (g.inputsByPort inputData (g.outputsOf nodeRun inputData) n.nodeId).values) ∧
    completed + e.released.length ≤ 2 * g.nodeCount ∧
    (e.scheduler.isDone = true ↔ e.inFlight = [] ∧
      ∀ order e', e.step nodeRun (.pull order) = .ok e' → e'.inFlight = []) ∧
    (e.scheduler.isDone = true →
      (e.released.map ReadyNode.nodeId).Perm g.nodes.keys ∧
      e.outputs = g.graphOutputs nodeRun inputData) := by
  have hidle : ∀ order e', e.inFlight = [] → e.step nodeRun (.pull order) = .ok e' →
      (e'.inFlight = [] ↔ e.scheduler.isDone = true) := by
    intro order e' hempty hstep
    obtain ⟨e'', p', hstep', -, -, hiff⟩ := he.pull h order
    obtain rfl := Except.ok.inj (hstep.symm.trans hstep')
    exact hiff hempty
  refine ⟨fun i hi => ?_, fun order => ?_, he.nodup, he.ready, ?_, ?_, fun hdone => ⟨?_, ?_⟩⟩
  · obtain ⟨e', _, hstep, -⟩ := he.complete h hi
    exact ⟨e', hstep⟩
  · obtain ⟨e', _, hstep, -⟩ := he.pull h order
    exact ⟨e', hstep⟩
  · have hlen : e.released.length = (p.running ∪ p.done).card := by
      rw [← he.released, List.toFinset_card_of_nodup he.nodup, List.length_map]
    have hle := Finset.card_le_card he.follows.valid.subset
    have hdone := he.follows.valid.card_le
    rw [card_nodesOf] at hle hdone
    omega
  · constructor
    · intro hdone
      have hempty := (he.follows.isDone_iff.mp hdone).1
      exact ⟨hempty, fun order e' hstep => (hidle order e' hempty hstep).mpr hdone⟩
    · intro ⟨hempty, hall⟩
      obtain ⟨e', _, hstep, -⟩ := he.pull h ⟨id, fun l => .refl l⟩
      exact (hidle _ e' hempty hstep).mp (hall _ e' hstep)
  · obtain ⟨hempty, hall⟩ := he.follows.isDone_iff.mp hdone
    rw [List.perm_ext_iff_of_nodup he.nodup g.nodes.nodup_keys]
    intro v
    rw [← List.mem_toFinset, he.released, he.follows.running, hempty, hall, List.map_nil,
      List.toFinset_nil, Finset.empty_union, List.mem_toFinset]
  · exact he.follows.outputs_eq hdone

end Execution

/-! ## The executors -/

namespace SequentialExecutor

variable {s : GraphScheduler N C Io} {outputs : BTreeMap NodeOutput Io}
variable {ready : List (ReadyNode N C Io)}

omit [DecidableEq C] in
private theorem mapM_run
    (hready : ∀ n ∈ ready, n.run nodeRun = .ok (g.outputsOf nodeRun inputData n.nodeId)) :
    (ready.mapM fun node => (Call.lift (node.run nodeRun) : Call (GraphScheduler N C Io) _)).run s =
      .ok (ready.map fun n => g.outputsOf nodeRun inputData n.nodeId) s := by
  induction ready with
  | nil => rfl
  | cons n ready ih =>
    have hrest := ih fun m hm => hready m (List.mem_cons_of_mem _ hm)
    rw [List.mapM_cons, hready n (List.mem_cons_self ..), Call.lift_ok, pure_bind]
    exact Call.bind_run_eq_ok.mpr ⟨_, _, hrest, rfl⟩

omit [DecidableEq C] in
/-- A whole batch completes. -/
private theorem foldlM_complete (h : g.Runnable nodeRun inputData)
    (hf : Follows g nodeRun inputData policy p s ready outputs) :
    ∃ outputs' s' p', ((ready.zip (ready.map fun n => g.outputsOf nodeRun inputData n.nodeId)).foldlM
        complete outputs).run s = .ok outputs' s' ∧
      Follows g nodeRun inputData policy p' s' [] outputs' ∧
      p'.done.card = p.done.card + ready.length := by
  induction ready generalizing s p outputs with
  | nil => exact ⟨outputs, s, p, rfl, hf, rfl⟩
  | cons n ready ih =>
    obtain ⟨go, s₁, hrun, hf₁⟩ := hf.complete h (i := 0) (n := n) rfl
    obtain ⟨outputs', s', p', hrest, hf', hcard⟩ := ih hf₁
    have hv : n.nodeId ∈ p.running := by
      rw [hf.running]
      simp
    have hstep : (complete outputs (n, g.outputsOf nodeRun inputData n.nodeId)).run s =
        .ok (outputs.insertMany go.toList) s₁ :=
      Call.bind_run_eq_ok.mpr ⟨_, _, Call.unwrap_run_of_eq_ok hrun, rfl⟩
    refine ⟨outputs', s', p', ?_, hf', ?_⟩
    · rw [List.map_cons, List.zip_cons_cons, List.foldlM_cons]
      exact Call.bind_run_eq_ok.mpr ⟨_, _, hstep, hrest⟩
    · have hfinish : (p.finish n.nodeId).done.card = p.done.card + 1 :=
        Finset.card_insert_of_notMem (Finset.disjoint_left.mp hf.valid.disjoint hv)
      rw [hcard, hfinish, List.length_cons]
      omega

/-- A batch that is not empty brings the loop closer to its end. -/
private theorem loop_eq (orders : Nat → HashOrder) (h : g.Runnable nodeRun inputData) {fuel : Nat}
    (hf : Follows g nodeRun inputData policy p s ready outputs)
    (hready : ready = [] → s.isDone = true) (hfuel : g.nodeCount ≤ p.done.card + fuel) :
    ∃ s', (loop nodeRun orders fuel ready outputs).run s =
      .ok (g.graphOutputs nodeRun inputData) s' := by
  induction fuel generalizing p s ready outputs orders with
  | zero =>
    have hdone : s.isDone = true := hf.isDone_of_nodeCount_le hfuel hready
    rw [loop, Call.get_bind_run, if_pos hdone, hf.outputs_eq hdone]
    exact ⟨s, rfl⟩
  | succ fuel ih =>
    by_cases hdone : s.isDone = true
    · rw [loop, Call.get_bind_run, if_pos hdone, hf.outputs_eq hdone]
      exact ⟨s, rfl⟩
    · obtain ⟨outputs₁, s₁, p₁, hbatch, hf₁, hcard⟩ := foldlM_complete h hf
      obtain ⟨ready₂, s₂, p₂, hpull, hr, hf₂, hne⟩ := hf₁.pull h (orders 0)
      have hpos : 0 < ready.length :=
        List.length_pos_iff.mpr fun hnil => hdone (hready hnil)
      have hready₂ : ready₂ = [] → s₂.isDone = true := by
        intro hnil
        have hdone₁ : s₁.isDone = true := by
          by_contra hnot
          exact hne rfl (by simpa using hnot) hnil
        refine hf₂.isDone_iff.mpr ⟨hnil, ?_⟩
        rw [hr.done]
        exact (hf₁.isDone_iff.mp hdone₁).2
      obtain ⟨s', hloop⟩ := ih (fun i => orders (i + 1)) hf₂ hready₂
        (by rw [hr.done]; omega)
      refine ⟨s', ?_⟩
      rw [loop, Call.get_bind_run, if_neg hdone]
      refine Call.bind_run_eq_ok.mpr ⟨_, _, mapM_run fun n hn => hf.run_eq h hn, ?_⟩
      refine Call.bind_run_eq_ok.mpr ⟨_, _, hbatch, ?_⟩
      exact Call.bind_run_eq_ok.mpr ⟨_, _, hpull, hloop⟩

end SequentialExecutor

namespace ThreadPoolExecutor

variable {s : GraphScheduler N C Io} {outputs : BTreeMap NodeOutput Io}

/-- Each result received brings the loop closer to its end. -/
private theorem loop_eq (orders : Nat → HashOrder) (arrivals : Nat → Nat)
    (spawned : List (ReadyNode N C Io)) (h : g.Runnable nodeRun inputData) {fuel : Nat}
    {ready : List (ReadyNode N C Io)}
    (hf : Follows g nodeRun inputData policy p s (spawned ++ ready) outputs)
    (hready : spawned ++ ready = [] → s.isDone = true)
    (hfuel : g.nodeCount ≤ p.done.card + fuel) :
    ∃ s', (loop nodeRun orders arrivals fuel spawned ready outputs).run s =
      .ok (g.graphOutputs nodeRun inputData) s' := by
  induction fuel generalizing p s spawned ready outputs orders arrivals with
  | zero =>
    have hdone : s.isDone = true := hf.isDone_of_nodeCount_le hfuel hready
    rw [loop, Call.get_bind_run, if_pos hdone, hf.outputs_eq hdone]
    exact ⟨s, rfl⟩
  | succ fuel ih =>
    by_cases hdone : s.isDone = true
    · rw [loop, Call.get_bind_run, if_pos hdone, hf.outputs_eq hdone]
      exact ⟨s, rfl⟩
    · have hpos : 0 < (spawned ++ ready).length :=
        List.length_pos_iff.mpr fun hnil => hdone (hready hnil)
      have hlt := Nat.mod_lt (arrivals 0) hpos
      set i := arrivals 0 % (spawned ++ ready).length with hi
      set n := (spawned ++ ready)[i] with hn
      have hget : (spawned ++ ready)[i]? = some n := List.getElem?_eq_getElem hlt
      have hmem : n ∈ spawned ++ ready := List.getElem_mem hlt
      have hv : n.nodeId ∈ p.running := by
        rw [hf.running, List.mem_toFinset]
        exact List.mem_map_of_mem hmem
      obtain ⟨go, s₁, hmark, hf₁⟩ := hf.complete h hget
      obtain ⟨ready₂, s₂, p₂, hpull, hr, hf₂, hne⟩ := hf₁.pull h (orders 0)
      have hready₂ : (spawned ++ ready).eraseIdx i ++ ready₂ = [] → s₂.isDone = true := by
        intro hnil
        obtain ⟨hnil₁, hnil₂⟩ := List.append_eq_nil_iff.mp hnil
        have hdone₁ : s₁.isDone = true := by
          by_contra hnot
          exact hne hnil₁ (by simpa using hnot) hnil₂
        refine hf₂.isDone_iff.mpr ⟨hnil, ?_⟩
        rw [hr.done]
        exact (hf₁.isDone_iff.mp hdone₁).2
      have hcard : (p.finish n.nodeId).done.card = p.done.card + 1 :=
        Finset.card_insert_of_notMem (Finset.disjoint_left.mp hf.valid.disjoint hv)
      obtain ⟨s', hloop⟩ := ih (fun i => orders (i + 1)) (fun i => arrivals (i + 1)) _ hf₂ hready₂
        (by rw [hr.done]; omega)
      refine ⟨s', ?_⟩
      rw [loop, Call.get_bind_run, if_neg hdone]
      simp only [← hi, hget, hf.run_eq h hmem]
      refine Call.bind_run_eq_ok.mpr ⟨_, _, Call.context_run_of_eq_ok rfl, ?_⟩
      refine Call.bind_run_eq_ok.mpr ⟨_, _, Call.context_run_of_eq_ok hmark, ?_⟩
      exact Call.bind_run_eq_ok.mpr ⟨_, _, hpull, hloop⟩

end ThreadPoolExecutor

/-- Executor confluence. Every execution of a runnable graph, whatever the order
    of its events and under either release policy, can go on with any node in
    flight and with asking for ready nodes; it releases each node at most once,
    with the inputs its predecessors produced, in the order of the ports; it
    makes at most `2 * nodeCount` steps that complete or release a node; it is
    done exactly when no node is in flight or ready, and then every node has been
    released and the outputs are those of the graph. Both executors return these
    outputs. -/
theorem executors_confluent (h : g.Runnable nodeRun inputData) :
    (∀ order, ∃ e₀, Execution.start policy order g inputData = .ok e₀ ∧
      ∀ events e, e₀.steps nodeRun events = .ok e →
        (∀ i < e.inFlight.length, ∃ e', e.step nodeRun (.complete i) = .ok e') ∧
        (∀ order, ∃ e', e.step nodeRun (.pull order) = .ok e') ∧
        (e.released.map ReadyNode.nodeId).Nodup ∧
        (∀ n ∈ e.released, g.nodes[n.nodeId]? = some (.inner n.node) ∧
          n.inputs =
            (g.inputsByPort inputData (g.outputsOf nodeRun inputData) n.nodeId).values) ∧
        events.countP Event.isComplete + e.released.length ≤ 2 * g.nodeCount ∧
        (e.scheduler.isDone = true ↔ e.inFlight = [] ∧
          ∀ order e', e.step nodeRun (.pull order) = .ok e' → e'.inFlight = []) ∧
        (e.scheduler.isDone = true →
          (e.released.map ReadyNode.nodeId).Perm g.nodes.keys ∧
          e.outputs = g.graphOutputs nodeRun inputData)) ∧
    (∀ orders fuel, g.nodeCount ≤ fuel →
      SequentialExecutor.run nodeRun orders fuel ((new g).withReleasePolicy policy) inputData =
        .ok (g.graphOutputs nodeRun inputData)) ∧
    (∀ orders arrivals fuel, g.nodeCount ≤ fuel →
      ThreadPoolExecutor.run nodeRun orders arrivals fuel ((new g).withReleasePolicy policy)
        inputData = .ok (g.graphOutputs nodeRun inputData)) := by
  refine ⟨fun order => ?_, fun orders fuel hfuel => ?_, fun orders arrivals fuel hfuel => ?_⟩
  · obtain ⟨e₀, p₀, hstart, he₀, hdone₀⟩ := Execution.invariant_start policy h order
    refine ⟨e₀, hstart, fun events e hsteps => ?_⟩
    obtain ⟨p, he, hcount⟩ := he₀.steps h hsteps
    exact he.summary h (by rw [hcount, hdone₀]; simp)
  · obtain ⟨ready, s, p, hrun, hf, hdone, hready⟩ := Follows.initNodes policy h (orders 0)
    obtain ⟨s', hloop⟩ := SequentialExecutor.loop_eq (fun i => orders (i + 1)) h hf hready
      (by rw [hdone]; simpa using hfuel)
    exact Call.value_of_eq_ok (Call.bind_run_eq_ok.mpr ⟨_, _, hrun, hloop⟩)
  · obtain ⟨ready, s, p, hrun, hf, hdone, hready⟩ := Follows.initNodes .all h (orders 0)
    obtain ⟨s', hloop⟩ := ThreadPoolExecutor.loop_eq (fun i => orders (i + 1)) arrivals [] h hf
      hready (by rw [hdone]; simpa using hfuel)
    exact Call.value_of_eq_ok (Call.bind_run_eq_ok.mpr ⟨_, _, hrun, hloop⟩)

/-- Node `2` adds up the outputs of the sources `0` and `1`. -/
def sumGraph : ExecGraph Nat Nat Nat where
  nodes := ((∅ : BTreeMap NodeId (Node (Colored Nat Nat) Unit Unit)).insert 0 (.inner ⟨10, 0⟩)
    |>.insert 1 (.inner ⟨20, 0⟩)).insert 2 (.inner ⟨30, 1⟩)
  edges := ((∅ : BTreeMap EdgeId (Edge Nat)).insert 0 ⟨0, 2, [⟨0, 0⟩], none⟩).insert 1
    ⟨1, 2, [⟨0, 1⟩], none⟩

/-- A node adds its payload to its inputs. -/
def sumRun : ExecNode Nat Nat := fun x inputs => .ok [x + inputs.sum]

def sumInputs : HashMap NodeInput Nat :=
  ((∅ : HashMap NodeInput Nat).insert ⟨0, 0⟩ 5).insert ⟨1, 0⟩ 7

theorem sumGraph_edges {id : EdgeId} {e : Edge Nat} (he : sumGraph.edges[id]? = some e) :
    e = ⟨0, 2, [⟨0, 0⟩], none⟩ ∨ e = ⟨1, 2, [⟨0, 1⟩], none⟩ := by
  have hmem : (id, e) ∈ sumGraph.edges.toList :=
    Std.ExtTreeMap.mem_toList_iff_getElem?_eq_some.mpr he
  have hlist : sumGraph.edges.toList = [(0, ⟨0, 2, [⟨0, 0⟩], none⟩), (1, ⟨1, 2, [⟨0, 1⟩], none⟩)] := by
    decide
  rw [hlist] at hmem
  simp only [List.mem_cons, Prod.mk.injEq, List.not_mem_nil, or_false] at hmem
  exact hmem.imp And.right And.right

theorem sumGraph_runnable : sumGraph.Runnable sumRun sumInputs where
  inner v hv := by
    have hmem : v ∈ sumGraph.nodes.keys := Std.ExtTreeMap.mem_keys.mpr hv
    have hlist : sumGraph.nodes.keys = [0, 1, 2] := by decide
    rw [hlist] at hmem
    simp only [List.mem_cons, List.not_mem_nil, or_false] at hmem
    rcases hmem with rfl | rfl | rfl
    · exact ⟨⟨10, 0⟩, rfl⟩
    · exact ⟨⟨20, 0⟩, rfl⟩
    · exact ⟨⟨30, 1⟩, rfl⟩
  endpoints id e he := by
    rcases sumGraph_edges he with rfl | rfl <;> decide
  acyclic := by
    refine Dag.acyclic_of_lt id fun u v ⟨_, e, he, hs, ht⟩ => ?_
    rcases sumGraph_edges he with rfl | rfl <;> simp at hs ht <;> simp [← hs, ← ht]
  single id e he := by
    rcases sumGraph_edges he with rfl | rfl
    · exact ⟨_, rfl⟩
    · exact ⟨_, rfl⟩
  empty id e he := by
    rcases sumGraph_edges he with rfl | rfl <;> rfl
  addressed k hk := by
    have hmem : k ∈ sumInputs.keys := Std.ExtTreeMap.mem_keys.mpr hk
    have hlist : sumInputs.keys = [⟨0, 0⟩, ⟨1, 0⟩] := by decide
    rw [hlist] at hmem
    simp only [List.mem_cons, List.not_mem_nil, or_false] at hmem
    rcases hmem with rfl | rfl <;> decide
  fed v hv := by
    have hlist : sumGraph.sourceNodes = [0, 1] := by decide
    rw [hlist] at hv
    simp only [List.mem_cons, List.not_mem_nil, or_false] at hv
    rcases hv with rfl | rfl
    · exact ⟨⟨0, 0⟩, by decide, rfl⟩
    · exact ⟨⟨1, 0⟩, by decide, rfl⟩
  total v x hx := by
    refine ⟨_, rfl, fun id e he _ link hlink => ?_⟩
    have hport : link.sourcePort = 0 := by
      rcases sumGraph_edges he with rfl | rfl <;> rw [List.mem_singleton.mp hlink]
    simp [hport]

theorem executors_confluent_sum :
    SequentialExecutor.run sumRun (fun _ => ⟨id, fun l => .refl l⟩) 3
      ((new sumGraph).withReleasePolicy .uniqueColoring) sumInputs =
        .ok (sumGraph.graphOutputs sumRun sumInputs) ∧
    ThreadPoolExecutor.run sumRun (fun _ => ⟨id, fun l => .refl l⟩) id 3
      ((new sumGraph).withReleasePolicy .uniqueColoring) sumInputs =
        .ok (sumGraph.graphOutputs sumRun sumInputs) :=
  ⟨(executors_confluent sumGraph_runnable).2.1 _ 3 (by decide),
    (executors_confluent sumGraph_runnable).2.2 _ _ 3 (by decide)⟩

end DeepProve
