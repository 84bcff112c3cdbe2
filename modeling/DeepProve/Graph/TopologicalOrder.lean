import DeepProve.Graph.Denotation
import DeepProve.Iop.ChunkGraph

/-!
# The order in which the nodes are visited

`dag_order` lists the nodes of an acyclic graph, each after the nodes it is fed by, or backwards each
after the nodes it feeds. On a graph with cycles it ends early, and edges of which an end is missing
do not count.
-/

namespace DeepProve.Graph

variable {N I O W : Type} {g : Graph N I O W}

/-- The node `u` is visited before `n`, in a direction. -/
def Precedes (g : Graph N I O W) (forward : Bool) (u n : NodeId) : Prop :=
  if forward then g.Pred u n else g.Pred n u

theorem acyclic_precedes (hacyclic : Dag.Acyclic g.Pred) (forward : Bool) :
    Dag.Acyclic (g.Precedes forward) := by
  cases forward with
  | true => exact hacyclic
  | false => exact fun v hv => hacyclic v (Relation.transGen_swap.mp hv)

variable {unvisited : List NodeId} {forward : Bool} {n : NodeId}

theorem isNodeNext_iff :
    g.isNodeNext forward unvisited n = true ↔ ∀ u, g.Precedes forward u n → u ∉ unvisited := by
  cases forward with
  | true =>
    simp only [isNodeNext, if_true, List.all_eq_true, Bool.not_eq_true', List.contains_eq_mem,
      decide_eq_false_iff_not, Prod.forall, mem_incomings, Precedes, Pred]
    constructor
    · rintro h u ⟨id, e, he, rfl, ht⟩
      exact h id e ⟨he, ht⟩
    · rintro h id e ⟨he, ht⟩
      exact h e.source ⟨id, e, he, rfl, ht⟩
  | false =>
    simp only [isNodeNext, Bool.false_eq_true, if_false, List.all_eq_true, Bool.not_eq_true',
      List.contains_eq_mem, decide_eq_false_iff_not, Prod.forall, mem_outgoings, Precedes, Pred]
    constructor
    · rintro h u ⟨id, e, he, hs, rfl⟩
      exact h id e ⟨he, hs⟩
    · rintro h id e ⟨he, hs⟩
      exact h e.target ⟨id, e, he, hs, rfl⟩

/-- The nodes left to visit do not depend on the order in which they are tried. -/
theorem find_candidates_eq_none {p : NodeId → Bool} :
    (if forward then unvisited else unvisited.reverse).find? p = none ↔
      ∀ n ∈ unvisited, ¬ p n = true := by
  cases forward <;> simp

/-- What is visited before a node contains what precedes the node. -/
theorem mem_before_of_dagRounds (rounds : Nat) {before after : List NodeId} {u : NodeId}
    (h : g.dagRounds forward rounds unvisited = before ++ n :: after)
    (hpred : g.Precedes forward u n) (hu : u ∈ unvisited) : u ∈ before := by
  induction rounds generalizing unvisited before with
  | zero => simp [dagRounds] at h
  | succ rounds ih =>
    simp only [dagRounds] at h
    split at h
    · rename_i first hfind
      have hnext := isNodeNext_iff.mp (List.find?_some hfind)
      cases before with
      | nil =>
        obtain ⟨rfl, -⟩ := List.cons.inj h
        exact absurd hu (hnext u hpred)
      | cons b before =>
        obtain ⟨rfl, hrest⟩ := List.cons.inj h
        by_cases hfirst : u = first
        · rw [hfirst]
          exact List.mem_cons_self
        · exact List.mem_cons_of_mem _ (ih hrest ((List.mem_erase_of_ne hfirst).mpr hu))
    · simp at h

/-- No node precedes one that is visited before it. -/
theorem pairwise_dagRounds (rounds : Nat) (h : unvisited.Nodup) :
    (g.dagRounds forward rounds unvisited).Pairwise fun a b => ¬ g.Precedes forward b a := by
  induction rounds generalizing unvisited with
  | zero => exact List.Pairwise.nil
  | succ rounds ih =>
    simp only [dagRounds]
    split
    · rename_i n hfind
      refine List.pairwise_cons.mpr ⟨fun m hm hpred => ?_, ih (h.erase n)⟩
      have hleft := (g.nodup_dagRounds forward rounds (h.erase n)).2 m hm
      exact isNodeNext_iff.mp (List.find?_some hfind) m hpred (List.mem_of_mem_erase hleft)
    · exact List.Pairwise.nil

variable {before after : List NodeId} {m c : NodeId}

/-- `Precedes`, for nodes of the graph. -/
def LeadsTo (g : Graph N I O W) (forward : Bool) (u n : NodeId) : Prop :=
  g.Precedes forward u n ∧ u ∈ g.nodes ∧ n ∈ g.nodes

/-- A node on a cycle leads to `n`; backward, `n` leads to a cycle. -/
def AfterCycle (g : Graph N I O W) (forward : Bool) (n : NodeId) : Prop :=
  ∃ c, Relation.TransGen (g.LeadsTo forward) c c ∧ Relation.ReflTransGen (g.LeadsTo forward) c n

/-- All that precedes `n` is in the list. -/
def Available (g : Graph N I O W) (forward : Bool) (before : List NodeId) (n : NodeId) : Prop :=
  n ∈ g.nodes ∧ n ∉ before ∧ ∀ u, g.LeadsTo forward u n → u ∈ before

/-- The order of a traversal: each node is the smallest one available at its turn (backward, the
    largest), and the nodes after a cycle are left out. -/
structure IsTraversal (g : Graph N I O W) (forward : Bool) (order : List NodeId) : Prop where
  nodup : order.Nodup
  turn : ∀ before n after, order = before ++ n :: after → g.Available forward before n ∧
    ∀ m, g.Available forward before m → if forward then n ≤ m else m ≤ n
  mem : ∀ n, n ∈ order ↔ n ∈ g.nodes ∧ ¬ g.AfterCycle forward n
  perm : Dag.Acyclic (g.LeadsTo forward) → order.Perm g.nodes.keys

/-- Of the candidates, the first is the smallest, or backward the largest. -/
theorem le_of_find_candidates (hsorted : unvisited.Pairwise (· < ·)) {p : NodeId → Bool}
    (h : (if forward then unvisited else unvisited.reverse).find? p = some n) (hm : m ∈ unvisited)
    (hp : p m = true) : if forward then n ≤ m else m ≤ n := by
  obtain ⟨-, as, bs, hsplit, has⟩ := List.find?_eq_some_iff_append.mp h
  have hmem : m ∈ n :: bs := by
    have hall : m ∈ as ++ n :: bs := by
      rw [← hsplit]
      split
      · exact hm
      · exact List.mem_reverse.mpr hm
    refine (List.mem_append.mp hall).resolve_left fun hbefore => ?_
    simpa [hp] using has m hbefore
  have hcandidates : (if forward then unvisited else unvisited.reverse).Pairwise fun a b =>
      if forward then a < b else b < a := by
    cases forward with
    | true => exact hsorted
    | false => exact List.pairwise_reverse.mpr hsorted
  have hlater := (List.pairwise_append.mp (hsplit ▸ hcandidates)).2.1
  rcases List.mem_cons.mp hmem with rfl | hbs
  · split <;> exact le_rfl
  · have hlt := (List.pairwise_cons.mp hlater).1 m hbs
    cases forward with
    | true => exact Nat.le_of_lt hlt
    | false => exact Nat.le_of_lt hlt

/-- Of the nodes that could be visited, the one visited is the smallest, or backward the largest. -/
theorem le_of_dagRounds (rounds : Nat) (hsorted : unvisited.Pairwise (· < ·))
    (h : g.dagRounds forward rounds unvisited = before ++ n :: after) (hm : m ∈ unvisited)
    (hbefore : m ∉ before) (hpred : ∀ u ∈ unvisited, g.Precedes forward u m → u ∈ before) :
    if forward then n ≤ m else m ≤ n := by
  induction rounds generalizing unvisited before with
  | zero => simp [dagRounds] at h
  | succ rounds ih =>
    simp only [dagRounds] at h
    split at h
    · rename_i first hfind
      cases before with
      | nil =>
        obtain ⟨rfl, -⟩ := List.cons.inj h
        refine le_of_find_candidates hsorted hfind hm (isNodeNext_iff.mpr fun u hu hmem => ?_)
        exact List.not_mem_nil (hpred u hmem hu)
      | cons b before =>
        obtain ⟨rfl, hrest⟩ := List.cons.inj h
        obtain ⟨hfirst, hbefore⟩ := List.ne_and_not_mem_of_not_mem_cons hbefore
        refine ih (hsorted.sublist List.erase_sublist) hrest ((List.mem_erase_of_ne hfirst).mpr hm)
          hbefore fun u hu hum => ?_
        have hnodup : unvisited.Nodup := hsorted.imp Nat.ne_of_lt
        obtain ⟨hne, hmem⟩ := hnodup.mem_erase_iff.mp hu
        exact (List.mem_cons.mp (hpred u hmem hum)).resolve_left hne
    · simp at h

/-- A node that is left has one before it that is left as well. -/
theorem exists_left_of_dagRounds (rounds : Nat) (hrounds : unvisited.length ≤ rounds)
    (hnodup : unvisited.Nodup) (hn : n ∈ unvisited) (hleft : n ∉ g.dagRounds forward rounds unvisited) :
    ∃ u ∈ unvisited, u ∉ g.dagRounds forward rounds unvisited ∧ g.Precedes forward u n := by
  induction rounds generalizing unvisited with
  | zero => exact absurd hn (List.length_eq_zero_iff.mp (Nat.le_zero.mp hrounds) ▸ List.not_mem_nil)
  | succ rounds ih =>
    simp only [dagRounds] at hleft ⊢
    split at hleft
    · rename_i first hfind
      obtain ⟨hne, hrest⟩ := List.ne_and_not_mem_of_not_mem_cons hleft
      have hfirst := mem_of_find_candidates hfind
      have hlength : (unvisited.erase first).length ≤ rounds := by
        rw [List.length_erase_of_mem hfirst]
        omega
      obtain ⟨u, hu, hleft, hpred⟩ := ih hlength (hnodup.erase first)
        ((List.mem_erase_of_ne hne).mpr hn) hrest
      obtain ⟨hne, hmem⟩ := hnodup.mem_erase_iff.mp hu
      exact ⟨u, hmem, List.not_mem_cons_of_ne_of_not_mem hne hleft, hpred⟩
    · rename_i hnone
      have hnext := find_candidates_eq_none.mp hnone n hn
      rw [isNodeNext_iff] at hnext
      push Not at hnext
      obtain ⟨u, hu, hmem⟩ := hnext
      exact ⟨u, hmem, List.not_mem_nil, hu⟩

theorem mem_before_of_dagOrder {u : NodeId} (h : g.dagOrder forward = before ++ n :: after)
    (hpred : g.Precedes forward u n) (hu : u ∈ g.nodes) : u ∈ before :=
  mem_before_of_dagRounds _ h hpred (Std.ExtTreeMap.mem_keys.mpr hu)

theorem not_mem_before (h : g.dagOrder forward = before ++ n :: after) : n ∉ before := by
  have hnodup := (g.nodup_dagRounds forward g.nodeCount g.nodes.nodup_keys).1
  rw [← dagOrder, h] at hnodup
  exact fun hbefore => (List.nodup_append.mp hnodup).2.2 n hbefore n List.mem_cons_self rfl

/-- What leads to a node is visited before it. -/
theorem mem_before_of_transGen (hcn : Relation.TransGen (g.LeadsTo forward) c n)
    (h : g.dagOrder forward = before ++ n :: after) : c ∈ before := by
  induction hcn generalizing before after with
  | single hcn => exact mem_before_of_dagOrder h hcn.1 hcn.2.1
  | @tail m n _ hmn ih =>
    obtain ⟨first, rest, hsplit⟩ := List.append_of_mem (mem_before_of_dagOrder h hmn.1 hmn.2.1)
    rw [hsplit, List.append_assoc, List.cons_append] at h
    rw [hsplit]
    exact List.mem_append_left _ (ih h)

/-- A node on a cycle would be visited before itself. -/
theorem not_afterCycle (hn : n ∈ g.dagOrder forward) : ¬ g.AfterCycle forward n := by
  rintro ⟨c, hcycle, hcn⟩
  have hc : c ∈ g.dagOrder forward := by
    rcases Relation.reflTransGen_iff_eq_or_transGen.mp hcn with rfl | htrans
    · exact hn
    · obtain ⟨before, after, horder⟩ := List.append_of_mem hn
      rw [horder]
      exact List.mem_append_left _ (mem_before_of_transGen htrans horder)
  obtain ⟨before, after, horder⟩ := List.append_of_mem hc
  exact not_mem_before horder (mem_before_of_transGen hcycle horder)

/-- Among the nodes left that lead to a node, none comes first. -/
theorem afterCycle_of_left (hn : n ∈ g.nodes) (hleft : n ∉ g.dagOrder forward) :
    g.AfterCycle forward n := by
  by_contra hcycle
  let toN (u v : NodeId) : Prop :=
    g.LeadsTo forward u v ∧ Relation.ReflTransGen (g.LeadsTo forward) v n
  have hacyclic : Dag.Acyclic toN := by
    intro v hv
    have hvn : Relation.ReflTransGen (g.LeadsTo forward) v n := by
      obtain ⟨w, -, hw⟩ := (Relation.TransGen.tail'_iff).mp hv
      exact hw.2
    exact hcycle ⟨v, hv.lift id fun _ _ h => h.1, hvn⟩
  classical
  let left : Finset NodeId := g.nodes.keys.toFinset.filter fun u =>
    u ∉ g.dagOrder forward ∧ Relation.ReflTransGen (g.LeadsTo forward) u n
  have hmemLeft (u : NodeId) : u ∈ left ↔ u ∈ g.nodes ∧ u ∉ g.dagOrder forward ∧
      Relation.ReflTransGen (g.LeadsTo forward) u n := by
    simp [left]
  obtain ⟨v, hv, hmin⟩ := Dag.exists_minimal hacyclic ⟨n, (hmemLeft n).mpr ⟨hn, hleft, .refl⟩⟩
  obtain ⟨hvmem, hvleft, hvn⟩ := (hmemLeft v).mp hv
  obtain ⟨u, hu, huleft, huv⟩ := exists_left_of_dagRounds g.nodeCount
    (by rw [Std.ExtTreeMap.length_keys, nodeCount]) g.nodes.nodup_keys
    (Std.ExtTreeMap.mem_keys.mpr hvmem) hvleft
  have hlead : g.LeadsTo forward u v := ⟨huv, Std.ExtTreeMap.mem_keys.mp hu, hvmem⟩
  exact hmin u ((hmemLeft u).mpr ⟨hlead.2.1, huleft, hvn.head hlead⟩) ⟨hlead, hvn⟩

theorem mem_dagOrder :
    n ∈ g.dagOrder forward ↔ n ∈ g.nodes ∧ ¬ g.AfterCycle forward n := by
  have hkeys := (g.nodup_dagRounds forward g.nodeCount g.nodes.nodup_keys).2
  exact ⟨fun hn => ⟨Std.ExtTreeMap.mem_keys.mp (hkeys n hn), not_afterCycle hn⟩,
    fun ⟨hn, hcycle⟩ => by_contra fun hleft => hcycle (afterCycle_of_left hn hleft)⟩

/-- Every node is visited once. -/
theorem perm_dagOrder_of_leadsTo (hacyclic : Dag.Acyclic (g.LeadsTo forward)) :
    (g.dagOrder forward).Perm g.nodes.keys := by
  refine (List.perm_ext_iff_of_nodup (g.nodup_dagRounds forward _ g.nodes.nodup_keys).1
    g.nodes.nodup_keys).mpr fun n => ?_
  rw [← dagOrder, mem_dagOrder, Std.ExtTreeMap.mem_keys]
  rw [and_iff_left]
  rintro ⟨c, hcycle, -⟩
  exact hacyclic c hcycle

theorem perm_dagOrder (hacyclic : Dag.Acyclic g.Pred) :
    (g.dagOrder forward).Perm g.nodes.keys :=
  perm_dagOrder_of_leadsTo fun v hv =>
    acyclic_precedes hacyclic forward v (hv.lift id fun _ _ h => h.1)

/-- **Traversal.** What `forward_iter` and `backward_iter` list, on any graph. -/
theorem isTraversal_iterNodes (g : Graph N I O W) (forward : Bool) :
    g.IsTraversal forward ((g.iterNodes forward).map Prod.fst) := by
  rw [map_fst_iterNodes]
  obtain ⟨hnodup, hkeys⟩ := g.nodup_dagRounds forward g.nodeCount g.nodes.nodup_keys
  have hsorted : g.nodes.keys.Pairwise (· < ·) :=
    Std.ExtTreeMap.ordered_keys.imp fun hlt => Nat.compare_eq_lt.mp hlt
  refine ⟨hnodup, fun before n after horder => ⟨⟨?_, not_mem_before horder, fun u hu =>
    mem_before_of_dagOrder horder hu.1 hu.2.1⟩, ?_⟩, fun n => mem_dagOrder,
    perm_dagOrder_of_leadsTo⟩
  · exact Std.ExtTreeMap.mem_keys.mp (hkeys n (by rw [← dagOrder, horder]; simp))
  · rintro m ⟨hm, hbefore, hready⟩
    exact le_of_dagRounds g.nodeCount hsorted horder (Std.ExtTreeMap.mem_keys.mpr hm) hbefore
      fun u hu hum => hready u ⟨hum, Std.ExtTreeMap.mem_keys.mp hu, hm⟩

/-- The inner node under an identifier. -/
def innerAt (g : Graph N I O W) (n : NodeId) : Option (NodeId × N) :=
  g.nodes[n]?.bind fun node => node.asInner.map fun layer => (n, layer)

theorem innerAt_eq_some {entry : NodeId × N} :
    g.innerAt n = some entry ↔ entry.1 = n ∧ g.nodes[n]? = some (.inner entry.2) := by
  obtain ⟨m, layer⟩ := entry
  rw [innerAt]
  cases g.nodes[n]? with
  | none => simp
  | some node =>
    cases node with
    | input i => simp [Node.asInner]
    | output o => simp [Node.asInner]
    | inner l => simp [Node.asInner, eq_comm]

theorem forwardInners_eq (g : Graph N I O W) :
    g.forwardInners = (g.dagOrder true).filterMap g.innerAt := by
  rw [forwardInners, iterNodes, List.filterMap_filterMap]
  congr 1
  funext n
  rw [innerAt]
  cases g.nodes[n]? with
  | none => rfl
  | some node => rfl

theorem mem_forwardInners (hacyclic : Dag.Acyclic g.Pred) {layer : N} :
    (n, layer) ∈ g.forwardInners ↔ g.nodes[n]? = some (.inner layer) := by
  rw [forwardInners_eq, List.mem_filterMap]
  constructor
  · rintro ⟨m, -, hm⟩
    obtain ⟨rfl, hnode⟩ := innerAt_eq_some.mp hm
    exact hnode
  · intro hnode
    refine ⟨n, (perm_dagOrder hacyclic).mem_iff.mpr ?_, innerAt_eq_some.mpr ⟨rfl, hnode⟩⟩
    rw [Std.ExtTreeMap.mem_keys, Std.ExtTreeMap.mem_iff_isSome_getElem?, hnode]
    rfl

/-- No inner node is visited twice. -/
theorem nodup_forwardInners (g : Graph N I O W) : (g.forwardInners.map Prod.fst).Nodup := by
  have hsub : (g.forwardInners.map Prod.fst).Sublist (g.dagOrder true) := by
    rw [forwardInners_eq]
    induction g.dagOrder true with
    | nil => exact List.Sublist.refl _
    | cons n ns ih =>
      rw [List.filterMap_cons]
      cases hn : g.innerAt n with
      | none => exact ih.cons n
      | some entry =>
        obtain ⟨hentry, -⟩ := innerAt_eq_some.mp hn
        rw [List.map_cons, hentry]
        exact ih.cons_cons n
  exact (g.nodup_dagRounds true _ g.nodes.nodup_keys).1.sublist hsub

/-- The inner nodes that feed an inner node are visited before it. -/
theorem mem_before_of_forwardInners {before after : List (NodeId × N)} {u : NodeId}
    {layer layer' : N} (h : g.forwardInners = before ++ (n, layer) :: after) (hpred : g.Pred u n)
    (hu : g.nodes[u]? = some (.inner layer')) : (u, layer') ∈ before := by
  rw [forwardInners_eq] at h
  obtain ⟨first, rest, horder, hfirst, hrest⟩ := List.filterMap_eq_append_iff.mp h
  obtain ⟨skipped, m, last, hrest, hskipped, hm, -⟩ := List.filterMap_eq_cons_iff.mp hrest
  obtain ⟨rfl, -⟩ := innerAt_eq_some.mp hm
  rw [hrest, ← List.append_assoc] at horder
  have humem : u ∈ g.nodes := by
    rw [Std.ExtTreeMap.mem_iff_isSome_getElem?, hu]
    rfl
  rcases List.mem_append.mp (mem_before_of_dagOrder horder hpred humem) with hmem | hmem
  · rw [← hfirst]
    exact List.mem_filterMap.mpr ⟨u, hmem, innerAt_eq_some.mpr ⟨rfl, hu⟩⟩
  · -- the nodes that were skipped are no inner nodes
    have hsome : g.innerAt u = some (u, layer') := innerAt_eq_some.mpr ⟨rfl, hu⟩
    rw [hskipped u hmem] at hsome
    cases hsome

end DeepProve.Graph
