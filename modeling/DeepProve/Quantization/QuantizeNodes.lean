import DeepProve.Model.Denotation
import DeepProve.Quantization.QuantizeModel

/-!
# The loop over the nodes

What `quantize_model` has recorded once it has visited the nodes of a model: for each node, the
scalings of its ports, which at the inputs are those of the ports that feed them.
-/

namespace DeepProve

/-! ## Writing under consecutive keys -/

section Writes

variable {S K V : Type} [DecidableEq K] (view : S → K → Option V) (write : S → V × Nat → S)
  (keyOf : Nat → K)

theorem view_foldl_zipIdx
    (hwrite : ∀ s v i key, view (write s (v, i)) key = if key = keyOf i then some v else view s key)
    (hinj : Function.Injective keyOf) (l : List V) (k i : Nat) (s : S) :
    view ((l.zipIdx k).foldl write s) (keyOf (k + i)) = l[i]?.or (view s (keyOf (k + i))) := by
  induction l generalizing k i s with
  | nil => rfl
  | cons v l ih =>
    rw [List.zipIdx_cons, List.foldl_cons]
    cases i with
    | zero =>
      -- the later keys are other keys
      have hlater : ∀ (l : List V) (k' : Nat) (s : S), k < k' →
          view ((l.zipIdx k').foldl write s) (keyOf k) = view s (keyOf k) := by
        intro l
        induction l with
        | nil => exact fun _ _ _ => rfl
        | cons v l ih =>
          intro k' s hk
          rw [List.zipIdx_cons, List.foldl_cons, ih (k' + 1) _ (by omega), hwrite,
            if_neg fun heq => absurd (hinj heq) (by omega)]
      show view ((l.zipIdx (k + 1)).foldl write (write s (v, k))) (keyOf k) = some v
      rw [hlater l (k + 1) _ (Nat.lt_succ_self k), hwrite, if_pos rfl]
    | succ i =>
      have hshift : k + (i + 1) = k + 1 + i := by omega
      rw [hshift, ih (k + 1) i, hwrite, if_neg fun heq => absurd (hinj heq) (by omega)]
      rfl

theorem view_foldl_zipIdx_of_ne
    (hwrite : ∀ s v i key, view (write s (v, i)) key = if key = keyOf i then some v else view s key)
    (l : List V) (k : Nat) (s : S) {key : K} (hkey : ∀ i, key ≠ keyOf i) :
    view ((l.zipIdx k).foldl write s) key = view s key := by
  induction l generalizing k s with
  | nil => rfl
  | cons v l ih => rw [List.zipIdx_cons, List.foldl_cons, ih, hwrite, if_neg (hkey k)]

end Writes

namespace LayersScaling

variable {σ : Type} (m : LayersScaling σ) (n : NodeId) (scalings : List σ)

theorem at?_insert (s : σ) (i : PortId) (key : NodeId × PortId) :
    at? (m.insert n (((m[n]?).getD ∅).insert i s)) key.1 key.2 =
      if key = (n, i) then some s else m.at? key.1 key.2 := by
  obtain ⟨n', p⟩ := key
  rw [at?, Std.ExtTreeMap.getElem?_insert]
  by_cases hn : n = n'
  · subst hn
    rw [if_pos (Std.compare_self), Option.bind_some, Std.ExtTreeMap.getElem?_insert]
    by_cases hp : i = p
    · subst hp
      rw [if_pos Std.compare_self, if_pos rfl]
    · rw [if_neg fun heq => hp (Std.compare_eq_iff_eq.mp heq),
        if_neg fun heq => hp (Prod.mk.inj heq).2.symm, at?]
      cases m[n]? with
      | none => exact Std.ExtTreeMap.getElem?_empty
      | some ports => rfl
  · rw [if_neg fun heq => hn (Std.compare_eq_iff_eq.mp heq),
      if_neg fun heq => hn (Prod.mk.inj heq).1.symm]
    rfl

theorem at?_insertScalings (hfresh : ∀ p, m.at? n p = none) (n' : NodeId) (p : PortId) :
    (m.insertScalings n scalings).at? n' p = if n' = n then scalings[p]? else m.at? n' p := by
  split
  · next heq =>
    subst heq
    have hview := view_foldl_zipIdx (fun (m : LayersScaling σ) (key : NodeId × PortId) => m.at? key.1 key.2)
      (fun m x => m.insert n' (((m[n']?).getD ∅).insert x.2 x.1)) (fun i => (n', i))
      (fun m s i key => m.at?_insert n' s i key) (fun i j heq => (Prod.mk.inj heq).2) scalings 0 p m
    rw [Nat.zero_add] at hview
    exact hview.trans (by rw [hfresh, Option.or_none])
  · next hne =>
    exact view_foldl_zipIdx_of_ne (fun (m : LayersScaling σ) (key : NodeId × PortId) => m.at? key.1 key.2)
      (fun m x => m.insert n (((m[n]?).getD ∅).insert x.2 x.1)) (fun i => (n, i))
      (fun m s i key => m.at?_insert n s i key) scalings 0 m fun _ heq => hne (Prod.mk.inj heq).1

end LayersScaling

/-- The shapes of the outputs of a node are written under its ports. -/
theorem getElem?_foldl_shapes (n : NodeId) (shapes : List Shape) (m : HashMap NodeOutput Shape)
    (key : NodeOutput) (hfresh : ∀ p, m[(⟨n, p⟩ : NodeOutput)]? = none) :
    (shapes.zipIdx.foldl (fun m (shape, outPort) => m.insert ⟨n, outPort⟩ shape) m)[key]? =
      if key.nodeId = n then shapes[key.port]? else m[key]? := by
  have hwrite : ∀ (m : HashMap NodeOutput Shape) (shape : Shape) (i : Nat) (key : NodeOutput),
      (m.insert ⟨n, i⟩ shape)[key]? = if key = ⟨n, i⟩ then some shape else m[key]? := by
    intro m shape i key
    rw [Std.ExtTreeMap.getElem?_insert]
    exact if_congr (Std.compare_eq_iff_eq.trans eq_comm) rfl rfl
  by_cases hn : key.nodeId = n
  · obtain ⟨n', p⟩ := key
    subst hn
    have hview := view_foldl_zipIdx (fun (m : HashMap NodeOutput Shape) (key : NodeOutput) => m[key]?)
      (fun m (shape, outPort) => m.insert ⟨n', outPort⟩ shape) (fun i => ⟨n', i⟩) hwrite
      (fun i j heq => (NodePort.mk.inj heq).2) shapes 0 p m
    rw [Nat.zero_add] at hview
    rw [if_pos rfl]
    exact hview.trans (by rw [hfresh, Option.or_none])
  · rw [if_neg hn]
    exact view_foldl_zipIdx_of_ne (fun (m : HashMap NodeOutput Shape) (key : NodeOutput) => m[key]?)
      (fun m (shape, outPort) => m.insert ⟨n, outPort⟩ shape) (fun i => ⟨n, i⟩) hwrite shapes 0 m
      fun i heq => hn (heq ▸ rfl)

/-! ## What a node reads -/

/-- A key beyond those of a map comes last. -/
theorem toList_insert_of_forall_lt {V : Type} {m : BTreeMap Nat V} {k : Nat} (v : V)
    (h : ∀ k' ∈ m.keys, k' < k) : (m.insert k v).toList = m.toList ++ [(k, v)] := by
  have hnone : m[k]? = none :=
    Std.ExtTreeMap.getElem?_eq_none fun hmem => Nat.lt_irrefl k (h k (Std.ExtTreeMap.mem_keys.mpr hmem))
  have hperm : (m.insert k v).toList.Perm (m.toList ++ [(k, v)]) :=
    (m.toList_insert_perm v hnone).trans (List.perm_append_singleton _ _).symm
  have hleft : (m.insert k v).toList.Pairwise fun a b => a.1 < b.1 :=
    Std.ExtTreeMap.ordered_keys_toList.imp fun hlt => Nat.compare_eq_lt.mp hlt
  have hright : (m.toList ++ [(k, v)]).Pairwise fun a b => a.1 < b.1 := by
    refine List.pairwise_append.mpr ⟨?_, List.pairwise_singleton _ _, fun a ha b hb => ?_⟩
    · exact Std.ExtTreeMap.ordered_keys_toList.imp fun hlt => Nat.compare_eq_lt.mp hlt
    · rw [List.mem_singleton.mp hb]
      exact h a.1 (m.map_fst_toList_eq_keys ▸ List.mem_map_of_mem ha)
  exact hperm.eq_of_pairwise (fun a b _ _ hab hba => absurd (hab.trans hba) (Nat.lt_irrefl _))
    hleft hright

/-- The shapes of the ports that feed the inputs, in the order of the inputs. -/
theorem QuantizeState.shapeInfo_eq_ok {L Q ρ σ : Type} {s : QuantizeState L Q ρ σ}
    {feeds : List Feed} {shapes : List Shape}
    (hports : feeds.map (fun feed => feed.target.port) = List.range feeds.length)
    (h : s.shapeInfo feeds = .ok shapes) :
    List.Forall₂ (fun feed shape => s.shapeMap[feed.source]? = some shape) feeds shapes := by
  obtain ⟨ax, hax, h⟩ := Outcome.bind_eq_ok.mp h
  have hloop : ∃ shapes : List Shape,
      List.Forall₂ (fun feed shape => s.shapeMap[feed.source]? = some shape) feeds shapes ∧
        ax.toList = (List.range feeds.length).zip shapes := by
    refine Outcome.foldlM_induction (motive := fun pre (ax : BTreeMap PortId Shape) =>
      ∃ shapes : List Shape,
        List.Forall₂ (fun feed shape => s.shapeMap[feed.source]? = some shape) pre shapes ∧
          ax.toList = (List.range pre.length).zip shapes) hax
      ⟨[], .nil, Std.ExtTreeMap.toList_eq_nil_iff.mpr rfl⟩ fun pre feed post ax ax' hfeeds hpre hstep => ?_
    obtain ⟨shapes, hshapes, hlist⟩ := hpre
    obtain ⟨shape, hshape, hstep⟩ := Outcome.bind_eq_ok.mp hstep
    obtain rfl := Except.ok.inj hstep
    have hport : feed.target.port = pre.length := by
      have hget := congrArg (·[pre.length]?) hports
      rw [hfeeds] at hget
      simpa using hget
    refine ⟨shapes ++ [shape], List.rel_append hshapes
      (.cons (okOr_eq_ok.mp hshape) .nil), ?_⟩
    have hlength := hshapes.length_eq
    rw [toList_insert_of_forall_lt, hlist, List.length_append, List.length_singleton,
      List.range_succ, List.zip_append (by rw [List.length_range, hlength]), hport]
    · rfl
    · intro k hk
      rw [← ax.map_fst_toList_eq_keys, hlist, List.map_fst_zip (by rw [List.length_range, hlength])] at hk
      exact hport ▸ List.mem_range.mp hk
  obtain ⟨shapes', hshapes, hlist⟩ := hloop
  have hvalues : shapes = shapes' := by
    rw [← Except.ok.inj h, ax.values_eq_map_snd_toList, hlist,
      List.map_snd_zip (by rw [List.length_range, hshapes.length_eq])]
  exact hvalues ▸ hshapes

/-! ## One round -/

namespace MetadataBuilder

variable {σ : Type} (md : MetadataBuilder σ)

/-- What is recorded for an output port. -/
def outputAt (key : NodeOutput) : Option σ := md.outputLayersScaling.at? key.nodeId key.port

/-- What is recorded for an input port. -/
def inputAt (key : NodeInput) : Option σ := md.inputLayersScaling.at? key.nodeId key.port

theorem getOutputLayerScaling_eq_ok {key : NodeOutput} {s : σ} :
    md.getOutputLayerScaling key = .ok s ↔ md.outputAt key = some s := okOr_eq_ok

theorem outputAt_insertLayerScalings (n : NodeId) (outputs inputs : List σ) (key : NodeOutput)
    (hfresh : ∀ p, md.outputAt ⟨n, p⟩ = none) :
    (md.insertLayerScalings n outputs inputs).outputAt key =
      if key.nodeId = n then outputs[key.port]? else md.outputAt key :=
  LayersScaling.at?_insertScalings _ _ _ hfresh key.nodeId key.port

theorem inputAt_insertLayerScalings (n : NodeId) (outputs inputs : List σ) (key : NodeInput)
    (hfresh : ∀ p, md.inputAt ⟨n, p⟩ = none) :
    (md.insertLayerScalings n outputs inputs).inputAt key =
      if key.nodeId = n then inputs[key.port]? else md.inputAt key :=
  LayersScaling.at?_insertScalings _ _ _ hfresh key.nodeId key.port

end MetadataBuilder

/-- What is recorded of a node. -/
structure NodeRecord (Q ρ σ : Type) where
  outputScalings : List σ
  inputScalings : List σ
  inputShapes : List Shape
  outputShapes : List Shape
  node : Node Q Nat Nat
  requants : Option (List ρ)

section Round

variable {L Q ρ σ : Type} (ops : QuantizeOps L Q ρ σ) (model : Model L) (inputScaling : List σ)

/-- The record of a node is what comes of the ports that feed it. -/
inductive RecordOf (scaling : NodeOutput → Option σ) (shape : NodeOutput → Option Shape) (n : NodeId) :
    Node L Nat Nat → NodeRecord Q ρ σ → Prop where
  | input {i : Nat} {sc : σ} {sh : Shape} (hscaling : inputScaling[i]? = some sc)
      (hshape : model.inputShapes[i]? = some sh) :
      RecordOf scaling shape n (.input i) ⟨[sc], [], [], [sh], .input i, none⟩
  | output {o : Nat} {sfs : List σ}
      (hsfs : List.Forall₂ (fun feed s => scaling feed.source = some s)
        (model.graph.incomingFeeds n) sfs) :
      RecordOf scaling shape n (.output o) ⟨[], sfs, [], [], .output o, none⟩
  | inner {layer : L} {scalings : List σ} {shapes outShapes quantizedShapes : List Shape}
      {out : QuantizeOutput Q ρ σ}
      (hscalings : List.Forall₂ (fun feed s => scaling feed.source = some s)
        (model.graph.incomingFeeds n) scalings)
      (hshapes : List.Forall₂ (fun feed s => shape feed.source = some s)
        (model.graph.incomingFeeds n) shapes)
      (houtShapes : ops.outputShapes layer shapes = .ok outShapes)
      (hquantize : ops.quantizeOp n layer scalings shapes
        (ops.scalingFactorsForNode n outShapes.length) outShapes = .ok out)
      (hquantizedShapes : ops.quantizedOutputShapes out.quantizedOp shapes = .ok quantizedShapes) :
      RecordOf scaling shape n (.inner layer)
        ⟨out.outputScalings, scalings, shapes, quantizedShapes, .inner out.quantizedOp,
          out.requantLayer⟩

/-- The record of a node is added to what has been recorded. -/
structure Adds (s : QuantizeState L Q ρ σ) (n : NodeId) (node : Node L Nat Nat)
    (record : NodeRecord Q ρ σ) (s' : QuantizeState L Q ρ σ) : Prop where
  md : s'.md = s.md.insertLayerScalings n record.outputScalings record.inputScalings
  shapeMap : s'.shapeMap = record.outputShapes.zipIdx.foldl (fun shapeMap (shape, outPort) =>
    shapeMap.insert ⟨n, outPort⟩ shape) s.shapeMap
  requantLayers : s'.requantLayers =
    s.requantLayers ++ (record.requants.map fun requant => (n, requant)).toList
  nodes : s'.nodes = s.nodes.insert n record.node
  calls : s'.calls = s.calls ++ (node.asInner.map fun layer =>
    ⟨n, layer, record.inputScalings, record.inputShapes⟩).toList

variable {ops model inputScaling}

theorem forall₂_of_mapM_scalings {md : MetadataBuilder σ} {feeds : List Feed} {scalings : List σ}
    (h : (feeds.mapM fun feed => md.getOutputLayerScaling feed.source) = .ok scalings) :
    List.Forall₂ (fun feed s => md.outputAt feed.source = some s) feeds scalings :=
  (Outcome.forall₂_of_mapM_eq_ok h).imp fun _ _ => (md.getOutputLayerScaling_eq_ok).mp

variable {s : QuantizeState L Q ρ σ} {node : Node L Nat Nat}

theorem quantizeNode_eq_ok (hg : model.graph.PortInvariant fun _ => []) {s' : QuantizeState L Q ρ σ}
    {n : NodeId} (h : QuantizeState.quantizeNode ops model inputScaling s (n, node) = .ok s') :
    ∃ record, RecordOf ops model inputScaling s.md.outputAt (s.shapeMap[·]?) n node record ∧
      Adds s n node record s' := by
  cases node with
  | input i =>
    obtain ⟨sc, hsc, h⟩ := Outcome.bind_eq_ok.mp h
    obtain ⟨sh, hsh, h⟩ := Outcome.bind_eq_ok.mp h
    obtain rfl := Except.ok.inj h
    exact ⟨_, .input (unwrap_eq_ok.mp hsc) (unwrap_eq_ok.mp hsh),
      ⟨rfl, rfl, (List.append_nil _).symm, rfl, (List.append_nil _).symm⟩⟩
  | output o =>
    obtain ⟨sfs, hsfs, h⟩ := Outcome.bind_eq_ok.mp h
    obtain rfl := Except.ok.inj h
    exact ⟨_, .output (forall₂_of_mapM_scalings hsfs),
      ⟨rfl, rfl, (List.append_nil _).symm, rfl, (List.append_nil _).symm⟩⟩
  | inner layer =>
    obtain ⟨shapes, hshapes, h⟩ := Outcome.bind_eq_ok.mp h
    obtain ⟨scalings, hscalings, h⟩ := Outcome.bind_eq_ok.mp h
    obtain ⟨outShapes, houtShapes, h⟩ := Outcome.bind_eq_ok.mp h
    obtain ⟨out, hout, h⟩ := Outcome.bind_eq_ok.mp h
    obtain ⟨quantizedShapes, hquantizedShapes, h⟩ := Outcome.bind_eq_ok.mp h
    obtain rfl := Except.ok.inj h
    have hports := Graph.map_targetPort_incomingFeeds hg n
    exact ⟨_, .inner (forall₂_of_mapM_scalings hscalings)
      (QuantizeState.shapeInfo_eq_ok hports hshapes) houtShapes hout hquantizedShapes,
      ⟨rfl, rfl, rfl, rfl, rfl⟩⟩

/-- A record stands if what it has come of does. -/
theorem RecordOf.mono {scaling scaling' : NodeOutput → Option σ}
    {shape shape' : NodeOutput → Option Shape} {n : NodeId} {record : NodeRecord Q ρ σ}
    (h : RecordOf ops model inputScaling scaling shape n node record)
    (hscaling : ∀ key s, scaling key = some s → scaling' key = some s)
    (hshape : ∀ key s, shape key = some s → shape' key = some s) :
    RecordOf ops model inputScaling scaling' shape' n node record := by
  cases h with
  | input hsc hsh => exact .input hsc hsh
  | output hsfs => exact .output (hsfs.imp fun _ _ => hscaling _ _)
  | inner hscalings hshapes houtShapes hquantize hquantizedShapes =>
    exact .inner (hscalings.imp fun _ _ => hscaling _ _)
      (hshapes.imp fun _ _ => hshape _ _) houtShapes hquantize hquantizedShapes

/-! ## All rounds -/

variable (ops model inputScaling)

/-- What has been recorded once some nodes have been visited. -/
structure Visited (visited : List (NodeId × Node L Nat Nat)) (records : NodeId → NodeRecord Q ρ σ)
    (s : QuantizeState L Q ρ σ) : Prop where
  recorded : ∀ entry ∈ visited,
    RecordOf ops model inputScaling s.md.outputAt (s.shapeMap[·]?) entry.1 entry.2 (records entry.1)
  outputAt : ∀ key : NodeOutput, s.md.outputAt key =
    if key.nodeId ∈ visited.map Prod.fst then (records key.nodeId).outputScalings[key.port]? else none
  inputAt : ∀ key : NodeInput, s.md.inputAt key =
    if key.nodeId ∈ visited.map Prod.fst then (records key.nodeId).inputScalings[key.port]? else none
  shapeMap : ∀ key : NodeOutput, s.shapeMap[key]? =
    if key.nodeId ∈ visited.map Prod.fst then (records key.nodeId).outputShapes[key.port]? else none
  nodes : ∀ n, s.nodes[n]? = if n ∈ visited.map Prod.fst then some (records n).node else none
  requantLayers : s.requantLayers = visited.filterMap fun entry =>
    (records entry.1).requants.map fun requant => (entry.1, requant)
  calls : s.calls = visited.filterMap fun entry => entry.2.asInner.map fun layer =>
    ⟨entry.1, layer, (records entry.1).inputScalings, (records entry.1).inputShapes⟩

variable {ops model inputScaling}

theorem Visited.quantizeNode (hg : model.graph.PortInvariant fun _ => [])
    {visited : List (NodeId × Node L Nat Nat)} {records : NodeId → NodeRecord Q ρ σ}
    {s' : QuantizeState L Q ρ σ} {n : NodeId}
    (hv : Visited ops model inputScaling visited records s) (hnew : n ∉ visited.map Prod.fst)
    (h : QuantizeState.quantizeNode ops model inputScaling s (n, node) = .ok s') :
    ∃ record, Visited ops model inputScaling (visited ++ [(n, node)])
      (Function.update records n record) s' := by
  obtain ⟨record, hrecord, hadds⟩ := quantizeNode_eq_ok hg h
  have hrecords : ∀ m ∈ visited.map Prod.fst, Function.update records n record m = records m :=
    fun m hm => Function.update_of_ne (fun heq : m = n => hnew (heq ▸ hm)) _ _
  have hmem : ∀ m, m ∈ (visited ++ [(n, node)]).map Prod.fst ↔ m = n ∨ m ∈ visited.map Prod.fst := by
    intro m
    rw [List.map_append, List.mem_append, or_comm]
    exact or_congr_left List.mem_singleton
  -- what is recorded under the key of a node, before and after the round
  have hread : ∀ {α : Type} (f : NodeRecord Q ρ σ → Option α) (m : NodeId),
      (if m = n then f record else if m ∈ visited.map Prod.fst then f (records m) else none) =
        if m ∈ (visited ++ [(n, node)]).map Prod.fst then f (Function.update records n record m)
        else none := by
    intro α f m
    by_cases hm : m = n
    · subst hm
      rw [if_pos rfl, if_pos ((hmem m).mpr (.inl rfl)), Function.update_self]
    · rw [if_neg hm, Function.update_of_ne hm]
      exact if_congr ((hmem m).trans (or_iff_right hm)).symm rfl rfl
  have houtputAt : ∀ key : NodeOutput, s'.md.outputAt key =
      if key.nodeId = n then record.outputScalings[key.port]? else s.md.outputAt key := by
    intro key
    rw [hadds.md]
    exact s.md.outputAt_insertLayerScalings n _ _ key fun p => by rw [hv.outputAt, if_neg hnew]
  have hinputAt : ∀ key : NodeInput, s'.md.inputAt key =
      if key.nodeId = n then record.inputScalings[key.port]? else s.md.inputAt key := by
    intro key
    rw [hadds.md]
    exact s.md.inputAt_insertLayerScalings n _ _ key fun p => by rw [hv.inputAt, if_neg hnew]
  have hshapeMap : ∀ key : NodeOutput, s'.shapeMap[key]? =
      if key.nodeId = n then record.outputShapes[key.port]? else s.shapeMap[key]? := by
    intro key
    rw [hadds.shapeMap]
    exact getElem?_foldl_shapes n _ _ key fun p => by rw [hv.shapeMap, if_neg hnew]
  have hscalings : ∀ key sc, s.md.outputAt key = some sc → s'.md.outputAt key = some sc := by
    intro key sc hsc
    rw [houtputAt, if_neg fun heq => ?_]
    · exact hsc
    · rw [hv.outputAt, if_neg (heq ▸ hnew)] at hsc
      exact nomatch hsc
  have hshapes : ∀ (key : NodeOutput) sh, s.shapeMap[key]? = some sh → s'.shapeMap[key]? = some sh := by
    intro key sh hsh
    rw [hshapeMap, if_neg fun heq => ?_]
    · exact hsh
    · rw [hv.shapeMap, if_neg (heq ▸ hnew)] at hsh
      exact nomatch hsh
  refine ⟨record, ?_, ?_, ?_, ?_, ?_, ?_, ?_⟩
  · intro entry hentry
    rcases List.mem_append.mp hentry with hold | hlast
    · rw [hrecords entry.1 (List.mem_map_of_mem hold)]
      exact (hv.recorded entry hold).mono hscalings hshapes
    · rw [List.mem_singleton.mp hlast, Function.update_self]
      exact hrecord.mono hscalings hshapes
  · intro key
    rw [houtputAt, hv.outputAt]
    exact hread (fun record => record.outputScalings[key.port]?) key.nodeId
  · intro key
    rw [hinputAt, hv.inputAt]
    exact hread (fun record => record.inputScalings[key.port]?) key.nodeId
  · intro key
    rw [hshapeMap, hv.shapeMap]
    exact hread (fun record => record.outputShapes[key.port]?) key.nodeId
  · intro m
    rw [hadds.nodes, Std.ExtTreeMap.getElem?_insert, hv.nodes]
    exact (if_congr (Std.compare_eq_iff_eq.trans eq_comm) rfl rfl).trans
      (hread (fun record => some record.node) m)
  · rw [hadds.requantLayers, List.filterMap_append, hv.requantLayers]
    refine congrArg₂ _ (List.filterMap_congr fun entry hentry => ?_) ?_
    · rw [hrecords entry.1 (List.mem_map_of_mem hentry)]
    · rw [List.filterMap_cons, List.filterMap_nil, Function.update_self]
      cases record.requants with
      | none => rfl
      | some requants => rfl
  · rw [hadds.calls, List.filterMap_append, hv.calls]
    refine congrArg₂ _ (List.filterMap_congr fun entry hentry => ?_) ?_
    · rw [hrecords entry.1 (List.mem_map_of_mem hentry)]
    · rw [List.filterMap_cons, List.filterMap_nil, Function.update_self]
      cases node with
      | input i | output o | inner layer => rfl

/-- What has been recorded when all nodes have been visited. -/
theorem visited_of_foldlM (hg : model.graph.PortInvariant fun _ => [])
    {entries : List (NodeId × Node L Nat Nat)} (hnodup : (entries.map Prod.fst).Nodup)
    (h : entries.foldlM (QuantizeState.quantizeNode ops model inputScaling) .new = .ok s) :
    ∃ records, Visited ops model inputScaling entries records s := by
  refine Outcome.foldlM_induction (motive := fun visited s =>
    ∃ records, Visited ops model inputScaling visited records s) h ?_ fun pre entry post s s' hentries hpre hstep => ?_
  · refine ⟨fun _ => ⟨[], [], [], [], .input 0, none⟩, ?_⟩
    exact ⟨List.forall_mem_nil _, fun _ => rfl, fun _ => rfl, fun _ => rfl, fun _ => rfl, rfl, rfl⟩
  · obtain ⟨records, hv⟩ := hpre
    have hnew : entry.1 ∉ pre.map Prod.fst := by
      rw [hentries, List.map_append, List.map_cons, List.nodup_append] at hnodup
      exact fun hmem => hnodup.2.2 _ hmem _ List.mem_cons_self rfl
    obtain ⟨record, hv'⟩ := hv.quantizeNode hg hnew hstep
    exact ⟨_, hv'⟩

end Round

end DeepProve
