import DeepProve.Graph.PortInvariant

/-!
# Calls that fail

A method of the graph that returns an error can have changed the graph: nodes and edges are put into
the maps, or taken out of them, before the last of the checks.
-/

namespace DeepProve

namespace Call

variable {σ α β : Type} {s s₀ : σ} {x : Call σ α}

/-- A call that fails leaves the state `s₀`. -/
def FailsIn (x : Call σ α) (s s₀ : σ) : Prop := ∀ e s', x.run s = .error e s' → s' = s₀

@[simp] theorem failsIn_pure (a : α) : (pure a : Call σ α).FailsIn s s₀ := fun _ _ h => nomatch h

@[simp] theorem failsIn_throw {e : Fault} : (throw e : Call σ α).FailsIn s s₀ ↔ s = s₀ := by
  refine ⟨fun h => h e s rfl, fun h e' s' herror => ?_⟩
  obtain ⟨-, rfl⟩ := EStateM.Result.error.inj herror
  exact h

@[simp] theorem failsIn_throw_bind {e : Fault} {f : α → Call σ β} :
    (throw e >>= f).FailsIn s s₀ ↔ s = s₀ := failsIn_throw

theorem failsIn_bind {f : α → Call σ β} :
    (x >>= f).FailsIn s s₀ ↔ x.FailsIn s s₀ ∧ ∀ a s₁, x.run s = .ok a s₁ → (f a).FailsIn s₁ s₀ := by
  unfold FailsIn
  rw [EStateM.run_bind]
  cases x.run s with
  | ok a s₁ => simp
  | error e s₁ => simp

@[simp] theorem failsIn_map {f : α → β} : (f <$> x).FailsIn s s₀ ↔ x.FailsIn s s₀ := by
  rw [map_eq_pure_bind, failsIn_bind]
  exact and_iff_left fun _ _ _ => failsIn_pure _

theorem failsIn_isNone {o : Option β} {msg : String} :
    (lift (ensure o.isNone msg)).FailsIn s s₀ ↔ o = none ∨ s = s₀ := by
  cases o <;> simp

end Call

namespace Graph

variable {N I O W : Type} {g g₀ : Graph N I O W} {id : Nat} {e : Edge W} {node : Node N I O}

/-- After an error the graph is what it was before the call. -/
def KeepsOnError {α : Type} (g : Graph N I O W) (x : Call (Graph N I O W) α) : Prop :=
  x.FailsIn g g

theorem insert_eq_self {α : Type} {m : BTreeMap Nat α} {a : α} :
    m.insert id a = m ↔ m[id]? = some a := by
  constructor
  · intro h
    rw [← h, Std.ExtTreeMap.getElem?_insert_self]
  · intro h
    apply Std.ExtTreeMap.ext_getElem?
    intro k
    rw [Std.ExtTreeMap.getElem?_insert]
    split
    · rename_i hk
      rw [← Std.LawfulEqCmp.eq_of_compare hk, h]
    · rfl

theorem keepsOnError_addNodeWithId : g.KeepsOnError (addNodeWithId id node) ↔
    ∀ old, g.nodes[id]? = some old → old = node := by
  obtain ⟨nodes, edges⟩ := g
  have hrun : KeepsOnError ⟨nodes, edges⟩ (addNodeWithId id node) ↔ nodes[id]? = none ∨
      (⟨nodes.insert id node, edges⟩ : Graph N I O W) = ⟨nodes, edges⟩ := Call.failsIn_isNone
  rw [hrun, mk.injEq, and_iff_left rfl, insert_eq_self]
  cases nodes[id]? <;> simp

theorem failsIn_addEdgeRawWithId : (addEdgeRawWithId id e).FailsIn g g₀ ↔
    g.edges[id]? = none ∨ { g with edges := g.edges.insert id e } = g₀ := Call.failsIn_isNone

theorem keepsOnError_addEdgeRawWithId : g.KeepsOnError (addEdgeRawWithId id e) ↔
    ∀ old, g.edges[id]? = some old → old = e := by
  obtain ⟨nodes, edges⟩ := g
  rw [KeepsOnError, failsIn_addEdgeRawWithId, mk.injEq, and_iff_right rfl, insert_eq_self]
  cases edges[id]? <;> simp

theorem keepsOnError_replaceInner {f : N → N} : g.KeepsOnError (replaceInner id f) ↔
    ∀ node, g.nodes[id]? = some node → node.asInner.isSome = true := by
  obtain ⟨nodes, edges⟩ := g
  have hrun : KeepsOnError ⟨nodes, edges⟩ (replaceInner id f) ↔ Call.FailsIn (do
      let node ← Call.lift (okOr nodes[id]? "Node not found")
      let inner ← Call.lift (okOr node.asInner s!"N{id} is not an inner node")
      modify fun g => { g with nodes := g.nodes.insert id (.inner (f inner)) } : Call _ PUnit)
      (⟨nodes.erase id, edges⟩ : Graph N I O W) ⟨nodes, edges⟩ := Iff.rfl
  rw [hrun]
  cases hnode : nodes[id]? with
  | none => simp [Std.ExtTreeMap.erase_of_getElem?_eq_none _ hnode]
  | some node =>
    have herased : nodes.erase id ≠ nodes := fun h => by
      rw [← h, Std.ExtTreeMap.getElem?_erase_self] at hnode
      cases hnode
    cases node with
    | input i => simp [Node.asInner, herased]
    | output o => simp [Node.asInner, herased]
    | inner x => exact iff_of_true (fun _ _ h => nomatch h) (by simp [Node.asInner])

theorem keepsOnError_removeEdge : g.KeepsOnError (removeEdge id) := by
  obtain ⟨nodes, edges⟩ := g
  have hrun : KeepsOnError ⟨nodes, edges⟩ (removeEdge (W := W) id) ↔
      ((fun _ => ()) <$> Call.lift (okOr edges[id]? s!"Edge with id EdgeId({id}) not found")).FailsIn
        (⟨nodes, edges.erase id⟩ : Graph N I O W) ⟨nodes, edges⟩ := Iff.rfl
  rw [hrun]
  cases hedge : edges[id]? with
  | none => simp [Std.ExtTreeMap.erase_of_getElem?_eq_none _ hedge]
  | some e => simp

/-! ## A batch of edges -/

/-- An edge of which only the identifier can be at fault. -/
def Admits (g : Graph N I O W) (e : Edge W) : Prop := ∃ id, g.Accepts id e

theorem admits_iff : g.Admits e ↔ g.edgeChecks e = .ok () := by
  refine ⟨fun ⟨id, h⟩ => (accepts_iff.mp h).1, fun h => ?_⟩
  obtain ⟨id, hid⟩ := Infinite.exists_notMem_finset g.edges.keys.toFinset
  rw [List.mem_toFinset, Std.ExtTreeMap.mem_keys] at hid
  exact ⟨id, accepts_iff.mpr ⟨h, Std.ExtTreeMap.getElem?_eq_none hid⟩⟩

theorem failsIn_addEdgeRaw : (addEdgeRaw id e).FailsIn g g₀ ↔
    (g.Admits e → g.Accepts id e ∨ { g with edges := g.edges.insert id e } = g₀) ∧
      (¬ g.Admits e → g = g₀) := by
  have hrun : (addEdgeRaw id e).FailsIn g g₀ ↔ Call.FailsIn (do
      Call.lift (g.edgeChecks e)
      addEdgeRawWithId id e
      pure id) g g₀ := by
    rw [addEdgeRaw_eq]
    exact Iff.rfl
  rw [hrun, admits_iff, accepts_iff]
  cases g.edgeChecks e with
  | ok u => simp [failsIn_addEdgeRawWithId]
  | error err => simp

/-- The rounds of `add_edges_raw`, from the `i`-th on. -/
def addEdgesFrom (ids : Nat → EdgeId) (i : Nat) (es : List (Edge W)) :
    Call (Graph N I O W) (List EdgeId) :=
  (es.zipIdx i).mapM fun (e, i) => addEdgeRaw (ids i) e

/-- Each edge is accepted, after the edges before it. -/
def AcceptsAll (ids : Nat → EdgeId) : Graph N I O W → Nat → List (Edge W) → Prop
  | _, _, [] => True
  | g, i, e :: es =>
    g.Accepts (ids i) e ∧ AcceptsAll ids { g with edges := g.edges.insert (ids i) e } (i + 1) es

variable {ids : Nat → EdgeId} {i : Nat} {es : List (Edge W)}

theorem failsIn_cons : (addEdgesFrom ids i (e :: es)).FailsIn g g₀ ↔
    (addEdgeRaw (ids i) e).FailsIn g g₀ ∧ (g.Accepts (ids i) e →
      (addEdgesFrom ids (i + 1) es).FailsIn { g with edges := g.edges.insert (ids i) e } g₀) := by
  rw [addEdgesFrom, List.zipIdx_cons, List.mapM_cons, Call.failsIn_bind]
  refine and_congr_right fun _ => ⟨fun h haccepts => ?_, fun h a g₁ hadd => ?_⟩
  · have hadd : (addEdgeRaw (ids i) e).run g =
        .ok (ids i) { g with edges := g.edges.insert (ids i) e } := by
      obtain ⟨hchecks, hunused⟩ := accepts_iff.mp haccepts
      simp only [addEdgeRaw_eq, Call.get_bind_run, hchecks, Call.lift_ok, pure_bind,
        addEdgeRawWithId, bind_assoc, Call.modify_bind_run, hunused]
      rfl
    exact (Call.failsIn_bind.mp (h _ _ hadd)).1
  · obtain ⟨haccepts, rfl⟩ := addEdgeRaw_eq_ok hadd
    exact Call.failsIn_bind.mpr ⟨h haccepts, fun _ _ _ => Call.failsIn_pure _⟩

/-- Once an edge of the batch is in the graph, an error leaves it there. -/
theorem failsIn_addEdgesFrom {first : EdgeId} (hfirst : first ∈ g.edges) (hnew : first ∉ g₀.edges) :
    (addEdgesFrom ids i es).FailsIn g g₀ ↔ g.AcceptsAll ids i es := by
  induction es generalizing g i with
  | nil => exact iff_of_true (Call.failsIn_pure _) trivial
  | cons e es ih =>
    have hinsert : first ∈ g.edges.insert (ids i) e := Std.ExtTreeMap.mem_insert.mpr (.inr hfirst)
    have hne : g ≠ g₀ := fun h => hnew (h ▸ hfirst)
    have hne' : { g with edges := g.edges.insert (ids i) e } ≠ g₀ := fun h => hnew (h ▸ hinsert)
    have hadd : (addEdgeRaw (ids i) e).FailsIn g g₀ ↔ g.Accepts (ids i) e := by
      rw [failsIn_addEdgeRaw, or_iff_left hne']
      exact ⟨fun h => by_cases h.1 fun hnot => absurd (h.2 hnot) hne,
        fun h => ⟨fun _ => h, fun hnot => absurd ⟨_, h⟩ hnot⟩⟩
    rw [failsIn_cons, hadd, AcceptsAll]
    exact and_congr_right fun h => (imp_iff_right h).trans (ih hinsert)

theorem keepsOnError_addEdgesRaw : g.KeepsOnError (addEdgesRaw ids es) ↔
    ((∃ e ∈ es.head?, g.Admits e) → g.AcceptsAll ids 0 es) := by
  cases es with
  | nil => exact iff_of_true (Call.failsIn_pure _) fun _ => trivial
  | cons e es =>
    have hrest (h : g.Accepts (ids 0) e) :
        (addEdgesFrom ids 1 es).FailsIn { g with edges := g.edges.insert (ids 0) e } g ↔
          AcceptsAll ids { g with edges := g.edges.insert (ids 0) e } 1 es :=
      failsIn_addEdgesFrom Std.ExtTreeMap.mem_insert_self
        (by rw [Std.ExtTreeMap.mem_iff_isSome_getElem?, h.unused]; simp)
    have hreplaced (h : g.Admits e) : { g with edges := g.edges.insert (ids 0) e } ≠ g := fun hsame =>
      h.elim fun _ h => h.fresh _ _ (insert_eq_self.mp (congrArg Graph.edges hsame)) ⟨rfl, rfl⟩
    have hbatch : g.KeepsOnError (addEdgesRaw ids (e :: es)) ↔ _ := failsIn_cons
    rw [hbatch, failsIn_addEdgeRaw]
    simp only [List.head?_cons, Option.mem_some, exists_eq_left', AcceptsAll, implies_true, and_true]
    constructor
    · rintro ⟨hfirst, h⟩ hadmits
      have haccepts := (hfirst hadmits).resolve_right (hreplaced hadmits)
      exact ⟨haccepts, (hrest haccepts).mp (h haccepts)⟩
    · exact fun h => ⟨fun hadmits => .inl (h hadmits).1, fun haccepts =>
        (hrest haccepts).mpr (h ⟨_, haccepts⟩).2⟩

/-- **Atomic calls.** When an error leaves the graph as it was. -/
theorem keepsOnError_iff (g : Graph N I O W) :
    (∀ id node, g.KeepsOnError (addNodeWithId id node) ↔
      ∀ old, g.nodes[id]? = some old → old = node) ∧
    (∀ id e, g.KeepsOnError (addEdgeRawWithId id e) ↔
      ∀ old, g.edges[id]? = some old → old = e) ∧
    (∀ ids edges, g.KeepsOnError (addEdgesRaw ids edges) ↔
      ((∃ e ∈ edges.head?, g.Admits e) → g.AcceptsAll ids 0 edges)) ∧
    (∀ id f, g.KeepsOnError (replaceInner id f) ↔
      ∀ node, g.nodes[id]? = some node → node.asInner.isSome = true) ∧
    ∀ id, g.KeepsOnError (removeEdge id) :=
  ⟨fun _ _ => keepsOnError_addNodeWithId, fun _ _ => keepsOnError_addEdgeRawWithId,
    fun _ _ => keepsOnError_addEdgesRaw, fun _ _ => keepsOnError_replaceInner,
    fun _ => keepsOnError_removeEdge⟩

/-- The node under the identifier `1` is replaced, and then the identifier is found to be in use. -/
theorem not_keepsOnError_addNodeWithId :
    ¬ ∀ (g : Graph Nat Nat Nat Unit) (id : NodeId) (node : Node Nat Nat Nat),
      g.KeepsOnError (addNodeWithId id node) := by
  intro h
  have hsame := h ⟨(∅ : BTreeMap NodeId _).insert 1 (.inner 5), ∅⟩ 1 (.inner 7) _ _ rfl
  have hnode := congrArg (fun g : Graph Nat Nat Nat Unit => g.nodes[1]?) hsame
  simp at hnode

end Graph

end DeepProve
