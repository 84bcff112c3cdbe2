import DeepProve.Quantization.QuantizeNodes

/-!
# The loop over the requantisation layers

What has become of the links of a graph and of the scalings of its ports once requantisation layers
have been put behind the ports of some of its nodes.
-/

namespace DeepProve

variable {Q ρ σ L : Type}

/-- A graph with new layers: `site` is where a port of the graph is read now, and `requants` are the
    links to the new layers, which carry the scalings of the ports that they are put behind. -/
structure Spliced (base : ModelGraph Q) (md₀ : MetadataBuilder σ) (requant : ρ → Q)
    (requants : List Feed) (site : NodeOutput → NodeOutput) (graph : ModelGraph Q)
    (md : MetadataBuilder σ) : Prop where
  links : graph.links.Perm
    (requants ++ base.links.map fun feed => ⟨site feed.source, feed.target⟩)
  layers : ∃ layers : List (NodeId × Q), Graph.AddsLayers base layers graph ∧
    (requants.map fun feed => feed.target.nodeId).Perm (layers.map Prod.fst) ∧
    ∀ entry ∈ layers, ∃ r, entry.2 = requant r
  sources : ∀ feed ∈ requants, feed.source.nodeId ∈ base.nodes
  targets : ∀ feed ∈ requants, feed.target.port = 0
  site : ∀ key, key.nodeId ∈ base.nodes → site key = key ∨
    ∃ r, ⟨key, ⟨r, 0⟩⟩ ∈ requants ∧ site key = ⟨r, 0⟩
  scalings : ∀ feed ∈ requants, ∃ s, md.outputAt feed.source = some s ∧
    md.inputAt feed.target = some s ∧ md.outputAt ⟨feed.target.nodeId, 0⟩ = some s
  outputAt : ∀ key, key.nodeId ∈ base.nodes → md.outputAt key = md₀.outputAt key
  inputAt : ∀ key, key.nodeId ∈ base.nodes → md.inputAt key = md₀.inputAt key
  fresh : ∀ n, n ∉ graph.nodes → ∀ p, md.outputAt ⟨n, p⟩ = none ∧ md.inputAt ⟨n, p⟩ = none

variable {base : ModelGraph Q} {md₀ : MetadataBuilder σ} {requant : ρ → Q}

theorem Spliced.start (hfresh : ∀ n, n ∉ base.nodes → ∀ p,
    md₀.outputAt ⟨n, p⟩ = none ∧ md₀.inputAt ⟨n, p⟩ = none) :
    Spliced base md₀ requant [] id base md₀ where
  links := List.Perm.of_eq (List.map_id _).symm
  layers := ⟨[], Graph.AddsLayers.refl base, List.Perm.refl _, List.forall_mem_nil _⟩
  sources := List.forall_mem_nil _
  targets := List.forall_mem_nil _
  site _ _ := .inl rfl
  scalings := List.forall_mem_nil _
  outputAt _ _ := rfl
  inputAt _ _ := rfl
  fresh := hfresh

/-- The scalings of the new layers of a node. -/
theorem addRequantScalings_eq_ok {md md' : MetadataBuilder σ} {n : NodeId} {rs : List NodeId}
    (hnodup : rs.Nodup) (hn : n ∉ rs)
    (hfresh : ∀ r ∈ rs, ∀ p, md.outputAt ⟨r, p⟩ = none ∧ md.inputAt ⟨r, p⟩ = none)
    (h : addRequantScalings md n rs = .ok md') :
    (∀ (i : Nat) (r : NodeId), rs[i]? = some r → ∃ s, md.outputAt ⟨n, i⟩ = some s ∧
      ∀ p, md'.outputAt ⟨r, p⟩ = [s][p]? ∧ md'.inputAt ⟨r, p⟩ = [s][p]?) ∧
    ∀ m, m ∉ rs → ∀ p, md'.outputAt ⟨m, p⟩ = md.outputAt ⟨m, p⟩ ∧ md'.inputAt ⟨m, p⟩ = md.inputAt ⟨m, p⟩ := by
  have hloop : ∀ (rs : List NodeId) (k : Nat) (md : MetadataBuilder σ), rs.Nodup → n ∉ rs →
      (∀ r ∈ rs, ∀ p, md.outputAt ⟨r, p⟩ = none ∧ md.inputAt ⟨r, p⟩ = none) →
      (rs.zipIdx k).foldlM (fun md (p : NodeId × Nat) => do
        let scalingFactor ← md.getOutputLayerScaling ⟨n, p.2⟩
        .ok (md.insertLayerScalings p.1 [scalingFactor] [scalingFactor])) md = .ok md' →
      (∀ (i : Nat) (r : NodeId), rs[i]? = some r → ∃ s, md.outputAt ⟨n, k + i⟩ = some s ∧
        ∀ p, md'.outputAt ⟨r, p⟩ = [s][p]? ∧ md'.inputAt ⟨r, p⟩ = [s][p]?) ∧
      ∀ m, m ∉ rs → ∀ p, md'.outputAt ⟨m, p⟩ = md.outputAt ⟨m, p⟩ ∧
        md'.inputAt ⟨m, p⟩ = md.inputAt ⟨m, p⟩ := by
    intro rs
    induction rs with
    | nil =>
      intro k md _ _ _ h
      obtain rfl := Except.ok.inj h
      exact ⟨fun i r hr => (nomatch hr), fun _ _ _ => ⟨rfl, rfl⟩⟩
    | cons r rs ih =>
      intro k md hnodup hn hfresh h
      obtain ⟨hr, hnodup⟩ := List.nodup_cons.mp hnodup
      obtain ⟨hne, hn⟩ := not_or.mp (mt List.mem_cons.mpr hn)
      obtain ⟨hfirst, hfresh⟩ := List.forall_mem_cons.mp hfresh
      rw [List.zipIdx_cons, List.foldlM_cons, Outcome.bind_eq_ok] at h
      obtain ⟨md₁, hstep, h⟩ := h
      obtain ⟨s, hs, hstep⟩ := Outcome.bind_eq_ok.mp hstep
      replace hs := (md.getOutputLayerScaling_eq_ok).mp hs
      obtain rfl := Except.ok.inj hstep
      have hinserted : ∀ m p, (md.insertLayerScalings r [s] [s]).outputAt ⟨m, p⟩ =
          (if m = r then [s][p]? else md.outputAt ⟨m, p⟩) ∧
          (md.insertLayerScalings r [s] [s]).inputAt ⟨m, p⟩ =
            if m = r then [s][p]? else md.inputAt ⟨m, p⟩ := fun m p =>
        ⟨md.outputAt_insertLayerScalings r _ _ ⟨m, p⟩ fun p => (hfirst p).1,
          md.inputAt_insertLayerScalings r _ _ ⟨m, p⟩ fun p => (hfirst p).2⟩
      have hkept : ∀ m, m ≠ r → ∀ p,
          (md.insertLayerScalings r [s] [s]).outputAt ⟨m, p⟩ = md.outputAt ⟨m, p⟩ ∧
          (md.insertLayerScalings r [s] [s]).inputAt ⟨m, p⟩ = md.inputAt ⟨m, p⟩ := fun m hm p =>
        ⟨(hinserted m p).1.trans (if_neg hm), (hinserted m p).2.trans (if_neg hm)⟩
      have hfresh' : ∀ r' ∈ rs, ∀ p, (md.insertLayerScalings r [s] [s]).outputAt ⟨r', p⟩ = none ∧
          (md.insertLayerScalings r [s] [s]).inputAt ⟨r', p⟩ = none := by
        intro r' hr' p
        have hne' : r' ≠ r := fun heq => hr (heq ▸ hr')
        rw [(hkept r' hne' p).1, (hkept r' hne' p).2]
        exact hfresh r' hr' p
      obtain ⟨hrest, hothers⟩ := ih (k + 1) _ hnodup hn hfresh' h
      refine ⟨fun i r' hi => ?_, fun m hm p => ?_⟩
      · cases i with
        | zero =>
          obtain rfl := Option.some.inj hi
          refine ⟨s, hs, fun p => ?_⟩
          rw [(hothers r hr p).1, (hothers r hr p).2, (hinserted r p).1, (hinserted r p).2]
          exact ⟨if_pos rfl, if_pos rfl⟩
        | succ i =>
          obtain ⟨s', hs', hr'⟩ := hrest i r' hi
          have hshift : k + (i + 1) = k + 1 + i := by omega
          exact ⟨s', hshift ▸ (hkept n hne _).1.symm.trans hs', hr'⟩
      · obtain ⟨hmr, hm⟩ := not_or.mp (mt List.mem_cons.mpr hm)
        exact ⟨(hothers m hm p).1.trans (hkept m hmr p).1, (hothers m hm p).2.trans (hkept m hmr p).2⟩
  obtain ⟨hrs, hothers⟩ := hloop rs 0 md hnodup hn hfresh h
  refine ⟨fun i r hr => ?_, hothers⟩
  obtain ⟨s, hs, hr⟩ := hrs i r hr
  exact ⟨s, Nat.zero_add i ▸ hs, hr⟩

theorem mem_requantFeeds {n : NodeId} {rs : List NodeId} {feed : Feed} :
    feed ∈ requantFeeds n rs ↔ ∃ (i : Nat) (r : NodeId), rs[i]? = some r ∧ feed = ⟨⟨n, i⟩, ⟨r, 0⟩⟩ := by
  rw [requantFeeds, List.mem_map]
  constructor
  · rintro ⟨⟨r, i⟩, hmem, rfl⟩
    exact ⟨i, r, List.mem_zipIdx_iff_getElem?.mp hmem, rfl⟩
  · rintro ⟨i, r, hr, rfl⟩
    exact ⟨(r, i), List.mem_zipIdx_iff_getElem?.mpr hr, rfl⟩

theorem map_target_requantFeeds (n : NodeId) (rs : List NodeId) :
    (requantFeeds n rs).map (fun feed => feed.target.nodeId) = rs := by
  rw [requantFeeds, List.map_map]
  exact List.zipIdx_map_fst 0 rs

variable {site : NodeOutput → NodeOutput} {requants : List Feed}

/-- New layers are not nodes of the graph that they are put into. -/
theorem Spliced.target_notMem {graph : ModelGraph Q} {md : MetadataBuilder σ}
    (h : Spliced base md₀ requant requants site graph md) {feed : Feed} (hfeed : feed ∈ requants) :
    feed.target.nodeId ∉ base.nodes ∧ feed.target.nodeId ∈ graph.nodes := by
  obtain ⟨layers, hadds, htargets, -⟩ := h.layers
  have hmem : feed.target.nodeId ∈ layers.map Prod.fst :=
    htargets.mem_iff.mp (List.mem_map_of_mem hfeed)
  refine ⟨?_, (hadds.mem _).mpr (.inr hmem)⟩
  obtain ⟨entry, hentry, heq⟩ := List.mem_map.mp hmem
  exact heq ▸ hadds.fresh entry hentry

/-- A port that is read behind the node is read at the node. -/
theorem Spliced.site_eq {graph : ModelGraph Q} {md : MetadataBuilder σ}
    (h : Spliced base md₀ requant requants site graph md) {key : NodeOutput}
    (hkey : key.nodeId ∈ base.nodes) (hsite : (site key).nodeId ∈ base.nodes) : site key = key := by
  rcases h.site key hkey with hkept | ⟨r, hr, hmoved⟩
  · exact hkept
  · rw [hmoved] at hsite
    exact absurd hsite (h.target_notMem hr).1

/-- One round: the layers are put behind the ports of a node that has had none. -/
theorem Spliced.addRequants {ops : QuantizeOps L Q ρ σ} {s s' : ModelGraph Q × MetadataBuilder σ}
    (h : Spliced base md₀ ops.requant requants site s.1 s.2) {ids : Nat → Nat → EdgeId}
    {order : Nat → HashOrder} {n : NodeId} {rs : List ρ} (hn : n ∈ base.nodes)
    (hnew : ∀ feed ∈ requants, feed.source.nodeId ≠ n)
    (hends : ∀ feed ∈ base.links, feed.source.nodeId ∈ base.nodes)
    (hports : ∀ feed ∈ base.links, feed.source.nodeId = n → feed.source.port < rs.length)
    (hstep : addRequants ops ids order s (n, rs) = .ok s') :
    ∃ requantIds, Spliced base md₀ ops.requant (requantFeeds n requantIds ++ requants)
      (fun key => (site key).redirect n requantIds) s'.1 s'.2 := by
  obtain ⟨graph, md⟩ := s
  obtain ⟨layers, hadds, htargets, hlayers⟩ := h.layers
  unfold DeepProve.addRequants at hstep
  dsimp only at hstep
  split at hstep
  · next requantIds graph' hrun =>
    obtain ⟨md', hmd, hstep⟩ := Outcome.bind_eq_ok.mp hstep
    obtain rfl := Except.ok.inj hstep
    have hcurrent : ∀ feed ∈ graph.links, feed.source.nodeId = n → feed.source.port < rs.length := by
      intro feed hfeed hsource
      rcases List.mem_append.mp (h.links.mem_iff.mp hfeed) with hrequant | hmapped
      · exact absurd hsource (hnew feed hrequant)
      · obtain ⟨link, hlink, rfl⟩ := List.mem_map.mp hmapped
        have hsite := h.site_eq (hends link hlink) (hsource ▸ hn)
        dsimp only at hsource ⊢
        rw [hsite] at hsource ⊢
        exact hports link hlink hsource
    obtain ⟨hlength, hadds', hlinks⟩ := Graph.addRequantLayer_links hcurrent hrun
    have hids : (requantIds.zip (rs.map ops.requant)).map Prod.fst = requantIds :=
      List.map_fst_zip (by rw [List.length_map, hlength])
    have hfreshIds : ∀ r ∈ requantIds, r ∉ graph.nodes := by
      intro r hr
      rw [← hids] at hr
      obtain ⟨entry, hentry, rfl⟩ := List.mem_map.mp hr
      exact hadds'.fresh entry hentry
    have hngraph : n ∈ graph.nodes := (hadds.mem n).mpr (.inl hn)
    have hnids : n ∉ requantIds := fun hmem => hfreshIds n hmem hngraph
    obtain ⟨hnewScalings, hothers⟩ := addRequantScalings_eq_ok (hids ▸ hadds'.nodup) hnids
      (fun r hr p => h.fresh r (hfreshIds r hr) p) hmd
    have hkept : ∀ m ∈ graph.nodes, ∀ p, md'.outputAt ⟨m, p⟩ = md.outputAt ⟨m, p⟩ ∧
        md'.inputAt ⟨m, p⟩ = md.inputAt ⟨m, p⟩ :=
      fun m hm => hothers m fun hmem => hfreshIds m hmem hm
    refine ⟨requantIds, ?_, ?_, ?_, ?_, ?_, ?_, ?_, ?_, ?_⟩
    · have hold : requants.map (Feed.redirect n requantIds) = requants := by
        refine (List.map_congr_left fun feed hfeed => ?_).trans (List.map_id _)
        rw [Feed.redirect, NodePort.redirect, if_neg (hnew feed hfeed)]
        rfl
      refine hlinks.trans ?_
      rw [List.append_assoc]
      refine List.Perm.append_left _ ((h.links.map _).trans (List.Perm.of_eq ?_))
      rw [List.map_append, hold, List.map_map]
      rfl
    · refine ⟨layers ++ requantIds.zip (rs.map ops.requant), hadds.trans hadds', ?_, fun entry hentry => ?_⟩
      · rw [List.map_append, List.map_append, map_target_requantFeeds, hids]
        exact List.perm_append_comm.trans (htargets.append_right _)
      · rcases List.mem_append.mp hentry with hold | hlast
        · exact hlayers entry hold
        · obtain ⟨r, -, hr⟩ := List.mem_map.mp (List.of_mem_zip hlast).2
          exact ⟨r, hr.symm⟩
    · intro feed hfeed
      rcases List.mem_append.mp hfeed with hlast | hold
      · obtain ⟨i, r, -, rfl⟩ := mem_requantFeeds.mp hlast
        exact hn
      · exact h.sources feed hold
    · intro feed hfeed
      rcases List.mem_append.mp hfeed with hlast | hold
      · obtain ⟨i, r, -, rfl⟩ := mem_requantFeeds.mp hlast
        rfl
      · exact h.targets feed hold
    · intro key hkey
      rcases h.site key hkey with hsite | ⟨r, hr, hsite⟩
      · rw [hsite, NodePort.redirect]
        split
        · next hnode =>
          cases hport : requantIds[key.port]? with
          | none => exact .inl rfl
          | some r =>
            refine .inr ⟨r, List.mem_append_left _ (mem_requantFeeds.mpr ⟨key.port, r, hport, ?_⟩), rfl⟩
            rw [← hnode]
        · exact .inl rfl
      · -- what is behind another node is left there
        have hne : r ≠ n := fun heq => (h.target_notMem hr).1 (heq ▸ hn)
        rw [hsite, NodePort.redirect, if_neg hne]
        exact .inr ⟨r, List.mem_append_right _ hr, rfl⟩
    · intro feed hfeed
      rcases List.mem_append.mp hfeed with hlast | hold
      · obtain ⟨i, r, hr, rfl⟩ := mem_requantFeeds.mp hlast
        obtain ⟨s, hs, hr⟩ := hnewScalings i r hr
        exact ⟨s, (hkept n hngraph i).1.trans hs, (hr 0).2, (hr 0).1⟩
      · obtain ⟨s, hsource, htarget, hout⟩ := h.scalings feed hold
        have hsourceMem : feed.source.nodeId ∈ graph.nodes :=
          (hadds.mem _).mpr (.inl (h.sources feed hold))
        have htargetMem := (h.target_notMem hold).2
        exact ⟨s, (hkept _ hsourceMem _).1.trans hsource, (hkept _ htargetMem _).2.trans htarget,
          (hkept _ htargetMem _).1.trans hout⟩
    · intro key hkey
      exact (hkept _ ((hadds.mem _).mpr (.inl hkey)) _).1.trans (h.outputAt key hkey)
    · intro key hkey
      exact (hkept _ ((hadds.mem _).mpr (.inl hkey)) _).2.trans (h.inputAt key hkey)
    · intro m hm p
      have hgraph : m ∉ graph.nodes := fun hmem => hm ((hadds'.mem m).mpr (.inl hmem))
      have hmids : m ∉ requantIds := fun hmem => hm ((hadds'.mem m).mpr (.inr (hids.symm ▸ hmem)))
      rw [(hothers m hmids p).1, (hothers m hmids p).2]
      exact h.fresh m hgraph p
  · cases hstep

/-- The graph with all layers in. -/
theorem spliced_of_foldlM {ops : QuantizeOps L Q ρ σ} {ids : NodeId → Nat → Nat → EdgeId}
    {order : NodeId → Nat → HashOrder} {entries : List (NodeId × List ρ)}
    {s : ModelGraph Q × MetadataBuilder σ}
    (hfresh : ∀ n, n ∉ base.nodes → ∀ p, md₀.outputAt ⟨n, p⟩ = none ∧ md₀.inputAt ⟨n, p⟩ = none)
    (hends : ∀ feed ∈ base.links, feed.source.nodeId ∈ base.nodes)
    (hnodup : (entries.map Prod.fst).Nodup)
    (hentries : ∀ entry ∈ entries, entry.1 ∈ base.nodes ∧
      ∀ feed ∈ base.links, feed.source.nodeId = entry.1 → feed.source.port < entry.2.length)
    (h : entries.foldlM (fun s entry => addRequants ops (ids entry.1) (order entry.1) s entry)
      (base, md₀) = .ok s) :
    ∃ requants site, Spliced base md₀ ops.requant requants site s.1 s.2 := by
  have hloop : ∃ requants site, Spliced base md₀ ops.requant requants site s.1 s.2 ∧
      ∀ feed ∈ requants, feed.source.nodeId ∈ entries.map Prod.fst := by
    refine Outcome.foldlM_induction (motive := fun pre s =>
      ∃ requants site, Spliced base md₀ ops.requant requants site s.1 s.2 ∧
        ∀ feed ∈ requants, feed.source.nodeId ∈ pre.map Prod.fst) h
      ⟨[], id, Spliced.start hfresh, List.forall_mem_nil _⟩ fun pre entry post s s' heq hpre hstep => ?_
    obtain ⟨requants, site, hspliced, hdone⟩ := hpre
    have hentry : entry ∈ entries := heq ▸ List.mem_append_right _ List.mem_cons_self
    have hnew : entry.1 ∉ pre.map Prod.fst := by
      rw [heq, List.map_append, List.map_cons, List.nodup_append] at hnodup
      exact fun hmem => hnodup.2.2 _ hmem _ List.mem_cons_self rfl
    obtain ⟨hn, hports⟩ := hentries entry hentry
    obtain ⟨requantIds, hspliced'⟩ := hspliced.addRequants hn
      (fun feed hfeed hsource => hnew (hsource ▸ hdone feed hfeed)) hends hports hstep
    refine ⟨_, _, hspliced', fun feed hfeed => ?_⟩
    rw [List.map_append, List.mem_append]
    rcases List.mem_append.mp hfeed with hlast | hold
    · obtain ⟨i, r, -, rfl⟩ := mem_requantFeeds.mp hlast
      exact .inr (List.mem_singleton.mpr rfl)
    · exact .inl (hdone feed hold)
  obtain ⟨requants, site, hspliced, -⟩ := hloop
  exact ⟨requants, site, hspliced⟩

end DeepProve
