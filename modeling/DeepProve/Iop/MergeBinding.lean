import DeepProve.Iop.ListTranscript
import DeepProve.Iop.TwoRuns

/-!
# Are merged claims bound by the transcript?

The challenges that combine the claims about one port are drawn from the transcript. The claims are
then fixed before the challenges only if the transcript determines them: this is a matter of every
layer that reads the port, directly or through other nodes. The transcript does not hold the
evaluations that the proof gives for the outputs of the chunk.
-/

namespace DeepProve

variable {F C : Type} [Field F] [DecidableEq F] {D : DpCrypto F} {A : Appender D C}
  {O : OtherLayers D C}

namespace ChunkVerifier

variable (V : ChunkVerifier O) {proof proof₁ proof₂ : ChunkProof O}

/-! ## One node -/

/-- The layer at an inner node, with what it is called with. -/
structure LayerAt (n : NodeId) where
  inner : ChunkedNode O
  layer : LayerCtx O
  shapeStep : ShapeStep
  mem : (n, .inner inner) ∈ V.chunk.subgraph.backwardIter
  layerOf : V.layerOf n inner = .ok layer
  shapeSteps : V.shapeSteps[n]? = some shapeStep

variable {V}

/-- What the layer makes of the claims. -/
def LayerAt.run {n : NodeId} (l : V.LayerAt n) : LayerRun D C (LayerProof O) :=
  l.layer.inputClaims l.shapeStep n (chunkNumber l.inner)

omit [Field F] [DecidableEq F] in
/-- A node of the chunk determines its layer. -/
theorem LayerAt.ext_inner {n : NodeId} {l₁ l₂ : V.LayerAt n} (h : l₁.inner = l₂.inner) : l₁ = l₂ := by
  obtain ⟨inner, layer₁, shapeStep₁, _, hlayer₁, hshape₁⟩ := l₁
  obtain ⟨inner₂, layer₂, shapeStep₂, _, hlayer₂, hshape₂⟩ := l₂
  obtain rfl : inner = inner₂ := h
  obtain rfl := Except.ok.inj (hlayer₁.symm.trans hlayer₂)
  obtain rfl := Option.some.inj (hshape₁.symm.trans hshape₂)
  rfl

variable {start : ClaimsStart D C}

theorem verifyNode_inner_eq_ok {n : NodeId} {inner : ChunkedNode O} {state state' : ClaimsState D C}
    (hmem : (n, .inner inner) ∈ V.chunk.subgraph.backwardIter)
    (h : V.verifyNode proof start state (n, .inner inner) = .ok state') :
    ∃ (l : V.LayerAt n) (byPort : BTreeMap PortId (List (Claim F)))
      (merged out : List (Claim F)) (t : D.Transcript),
      l.inner = inner ∧
      V.chunk.claimsForNode n state.claims start.chunkOutputClaims = .ok byPort ∧
      verifyMergeClaimsProof byPort proof.mergeClaimProofs[n]? state.verifier.transcript =
        .ok (merged, t) ∧
      l.run ((proof.steps[n]?).getD .dummy) merged { state.verifier with transcript := t } =
        .ok (out, state'.verifier) ∧
      state'.claims = extendClaims state.claims n out := by
  simp only [verifyNode, Outcome.bind_eq_ok, okOr_eq_ok] at h
  obtain ⟨layer, hlayer, shapeStep, hshapeStep, byPort, hbyPort, ⟨merged, t⟩, hmerged,
    ⟨out, verifier⟩, hrun, -, -, hstate⟩ := h
  rw [← Except.ok.inj hstate]
  exact ⟨⟨inner, layer, shapeStep, hmem, hlayer, hshapeStep⟩, byPort, merged, out, t, rfl, hbyPort,
    hmerged, hrun, rfl⟩

variable {T : TranscriptLog D A}

/-- A round takes nothing off the transcript. -/
theorem verifyNode_extends (happends : ∀ n (l : V.LayerAt n), LayerRun.Appends T l.run)
    {state state' : ClaimsState D C} {entry : NodeId × ChunkNode O}
    (hmem : entry ∈ V.chunk.subgraph.backwardIter)
    (h : V.verifyNode proof start state entry = .ok state') :
    T.Extends state.verifier.transcript state'.verifier.transcript := by
  obtain ⟨n, node⟩ := entry
  cases node with
  | inner inner =>
    obtain ⟨l, byPort, merged, out, t, -, -, hmerged, hrun, -⟩ := verifyNode_inner_eq_ok hmem h
    have hports : T.Extends state.verifier.transcript t :=
      foldlM_mergePort_extends (verifyMergeClaimsProof_eq_ok hmerged)
    exact hports.trans (happends n l _ _ _ _ hrun).1
  | input i =>
    rw [← Except.ok.inj h]
    exact TranscriptLog.Extends.refl _
  | output o =>
    obtain ⟨claim, -, hstate⟩ := Outcome.bind_eq_ok.mp h
    rw [← Except.ok.inj hstate]
    exact TranscriptLog.Extends.refl _

/-! ## The condition -/

/-- The nodes whose claims may come to be merged at `nodeId`. -/
def ReadsFrom (V : ChunkVerifier O) (nodeId n : NodeId) : Prop :=
  V.chunk.subgraph.Downstream nodeId n

/-- Two proofs of a chunk of which the transcript determines the claims about `nodeId`. -/
structure BoundConsumers (V : ChunkVerifier O) (T : TranscriptLog D A) (nodeId : NodeId)
    (proof₁ proof₂ : ChunkProof O) : Prop where
  /-- The proofs hold equally many commitments. -/
  sameLength : ∀ t₁ t₂, V.writeCommitments proof₁ = .ok t₁ → V.writeCommitments proof₂ = .ok t₂ →
    (T.log t₁).length = (T.log t₂).length
  /-- No evaluation of an output of the chunk that is given for `nodeId`, or for a node that reads
      from it, is chosen freely. -/
  outputs : SameOutputs (fun port => port.nodeId = nodeId ∨ V.ReadsFrom nodeId port.nodeId)
    proof₁.outputEvals proof₂.outputEvals
  appends : ∀ n (l : V.LayerAt n), LayerRun.Appends T l.run
  delimited : ∀ n (l : V.LayerAt n), LayerRun.Delimited T l.run
  /-- The layers that read from `nodeId` are bound by the transcript. -/
  binds : ∀ n (l : V.LayerAt n), V.ReadsFrom nodeId n → LayerRun.Binds T l.run
  /-- No merging on the way checks the value of a polynomial against a multiple of zero. -/
  weights : ∀ n port claims t proofs, V.ReadsFrom nodeId n →
    V.ReachesMerge proof₁ n port claims t → proof₁.mergeClaimProofs[n]? = some proofs →
      WeightNonzero proofs port claims t

/-- The two runs have registered the same claims for the nodes that read from `nodeId`. -/
structure StatesAgree (V : ChunkVerifier O) (nodeId : NodeId) (s₁ s₂ : ClaimsState D C) : Prop where
  sameTranscript : Verifier.SameTranscript s₁.verifier s₂.verifier
  claims : MapAgree (fun k => V.ReadsFrom nodeId k.nodeId) s₁.claims s₂.claims

/-- The same for what the visit of the nodes starts from. -/
structure StartsAgree (V : ChunkVerifier O) (nodeId : NodeId) (s₁ s₂ : ClaimsStart D C) : Prop where
  sameTranscript : Verifier.SameTranscript s₁.verifier s₂.verifier
  outputs : s₁.outputClaimsByPort = s₂.outputClaimsByPort
  chunkOutputs : MapAgree (fun port => port.nodeId = nodeId ∨ V.ReadsFrom nodeId port.nodeId)
    s₁.chunkOutputClaims s₂.chunkOutputClaims

/-! ## What the visit of the nodes starts from -/

omit [DecidableEq F] in
theorem tableChallenges_extends (t : D.Transcript) : T.Extends t (V.tableChallenges t).2 := by
  unfold tableChallenges
  dsimp only
  split
  · exact TranscriptLog.Extends.refl _
  · exact TranscriptLog.initialise_extends _ _ _

omit [Field F] [DecidableEq F] in
theorem computeClaim_extends {acc r : HashMap ChunkedIo (Claim F) × D.Transcript}
    {entry : ChunkedIo × IoTensor F} (h : V.computeClaim acc entry = .ok r) :
    T.Extends acc.2 r.2 := by
  obtain ⟨numVars, -, h⟩ := Outcome.bind_eq_ok.mp h
  obtain ⟨eval, -, h⟩ := Outcome.bind_eq_ok.mp h
  rw [← Except.ok.inj h]
  exact TranscriptLog.readChallenges_extends _ _

omit [Field F] [DecidableEq F] in
theorem outputClaims_extends {t : D.Transcript} {r : HashMap ChunkedIo (Claim F) × D.Transcript}
    (h : V.outputClaims t = .ok r) : T.Extends t r.2 := by
  obtain ⟨outputs, -, h⟩ := Outcome.bind_eq_ok.mp h
  exact Outcome.foldlM_back (P := fun acc => T.Extends acc.2 r.2) h (TranscriptLog.Extends.refl _)
    fun _ _ _ _ hok hr => (computeClaim_extends hok).trans hr

omit [DecidableEq F] in
/-- What the visit starts from, step by step. -/
theorem start_eq_ok (h : V.start proof = .ok start) :
    ∃ t outs, V.writeCommitments proof = .ok t ∧
      V.outputClaims (V.tableChallenges t).2 = .ok outs ∧
      start = ⟨⟨CommitmentVerifier.default, (chunkOutputClaims proof outs.2).transcript,
        (V.tableChallenges t).1, ∅⟩, outs.1, (chunkOutputClaims proof outs.2).claims⟩ := by
  obtain ⟨t, ht, h⟩ := Outcome.bind_eq_ok.mp h
  obtain ⟨outs, houts, h⟩ := Outcome.bind_eq_ok.mp h
  exact ⟨t, outs, ht, houts, (Except.ok.inj h).symm⟩

/-- The proofs hold equally many commitments, so what they append before the first challenge is the
    same; from then on the two runs draw the same challenges. -/
theorem starts_agree {nodeId : NodeId} (hb : BoundConsumers V T nodeId proof₁ proof₂)
    {start₁ start₂ : ClaimsStart D C} (h₁ : V.start proof₁ = .ok start₁)
    (h₂ : V.start proof₂ = .ok start₂) {whole : List (Entry F C)}
    (hw₁ : T.log start₁.verifier.transcript <+: whole)
    (hw₂ : T.log start₂.verifier.transcript <+: whole) : StartsAgree V nodeId start₁ start₂ := by
  obtain ⟨t₁, outs₁, ht₁, houts₁, rfl⟩ := start_eq_ok h₁
  obtain ⟨t₂, outs₂, ht₂, houts₂, rfl⟩ := start_eq_ok h₂
  have hinit : ∀ {proof : ChunkProof O} {t : D.Transcript}
      {outs : HashMap ChunkedIo (Claim F) × D.Transcript},
      V.outputClaims (V.tableChallenges t).2 = .ok outs →
      T.log (chunkOutputClaims proof outs.2).transcript <+: whole → T.log t <+: whole := by
    intro proof t outs houts hw
    have htables : T.Extends t (V.tableChallenges t).2 := tableChallenges_extends t
    have hlast : T.Extends outs.2 (chunkOutputClaims proof outs.2).transcript :=
      foldl_addOutputClaim_extends proof.outputEvals.toList ⟨∅, [], outs.2⟩
    exact ((htables.trans (outputClaims_extends houts)).trans hlast).isPrefix hw
  have hlog : T.log t₁ = T.log t₂ := by
    rw [List.prefix_iff_eq_take.mp (hinit houts₁ hw₁),
      List.prefix_iff_eq_take.mp (hinit houts₂ hw₂), hb.sameLength t₁ t₂ ht₁ ht₂]
  obtain rfl := T.injective hlog
  obtain rfl := Except.ok.inj (houts₁.symm.trans houts₂)
  obtain ⟨hclaims, htranscript⟩ := chunkOutputClaims_agree hb.outputs outs₁.2
  exact ⟨⟨htranscript, rfl⟩, rfl, hclaims⟩

/-! ## Two runs -/

section TwoRuns

variable {nodeId : NodeId} (hb : BoundConsumers V T nodeId proof₁ proof₂)
  {start₁ start₂ : ClaimsStart D C} (hstart₁ : V.start proof₁ = .ok start₁)
  (hstarts : StartsAgree V nodeId start₁ start₂)

include hb hstart₁ hstarts

/-- One round in two runs: the claims of a node that reads from `nodeId` are merged and handed on
    in the same way, those of other nodes to claims about equally many variables. -/
theorem verifyNode_agree {pre post : List (NodeId × ChunkNode O)} {entry : NodeId × ChunkNode O}
    {s₁ s₂ s₁' s₂' : ClaimsState D C} {whole : List (Entry F C)}
    (horder : V.chunk.subgraph.backwardIter = pre ++ entry :: post)
    (hpre : pre.foldlM (V.verifyNode proof₁ start₁) ⟨∅, start₁.verifier⟩ = .ok s₁)
    (hs : StatesAgree V nodeId s₁ s₂) (h₁ : V.verifyNode proof₁ start₁ s₁ entry = .ok s₁')
    (h₂ : V.verifyNode proof₂ start₂ s₂ entry = .ok s₂')
    (hw₁ : T.log s₁'.verifier.transcript <+: whole) (hw₂ : T.log s₂'.verifier.transcript <+: whole) :
    StatesAgree V nodeId s₁' s₂' := by
  have hmem : entry ∈ V.chunk.subgraph.backwardIter := by
    rw [horder]
    exact List.mem_append_right _ List.mem_cons_self
  obtain ⟨n, node⟩ := entry
  cases node with
  | input i =>
    rw [← Except.ok.inj h₁, ← Except.ok.inj h₂]
    exact hs
  | output o =>
    obtain ⟨c₁, hc₁, hs₁'⟩ := Outcome.bind_eq_ok.mp h₁
    obtain ⟨c₂, hc₂, hs₂'⟩ := Outcome.bind_eq_ok.mp h₂
    rw [unwrap_eq_ok, hstarts.outputs] at hc₁
    rw [unwrap_eq_ok, hc₁] at hc₂
    obtain rfl := Option.some.inj hc₂
    rw [← Except.ok.inj hs₁', ← Except.ok.inj hs₂']
    exact ⟨hs.sameTranscript, hs.claims.insert _ (ClaimAgree.refl _ _)⟩
  | inner inner =>
    obtain ⟨l, byPort₁, merged₁, out₁, t₁, hl₁, hbyPort₁, hmerged₁, hrun₁, hclaims₁⟩ :=
      verifyNode_inner_eq_ok hmem h₁
    obtain ⟨l₂, byPort₂, merged₂, out₂, t₂, hl₂, hbyPort₂, hmerged₂, hrun₂, hclaims₂⟩ :=
      verifyNode_inner_eq_ok hmem h₂
    obtain rfl := LayerAt.ext_inner (hl₁.trans hl₂.symm)
    -- what the node receives
    have hentries := V.chunk.claimsForNode_agree (q := V.ReadsFrom nodeId n) hs.claims
      hstarts.chunkOutputs (fun feed hfeed hreads => .further hreads hfeed)
      (fun _ hreads => .inr hreads) hbyPort₁ hbyPort₂
    -- the claims are merged
    have ht₁ : T.log t₁ <+: whole := TranscriptLog.Extends.isPrefix (hb.appends n l _ _ _ _ hrun₁).1 hw₁
    have ht₂ : T.log t₂ <+: whole := TranscriptLog.Extends.isPrefix (hb.appends n l _ _ _ _ hrun₂).1 hw₂
    have hports₁ := verifyMergeClaimsProof_eq_ok hmerged₁
    have hports₂ := verifyMergeClaimsProof_eq_ok hmerged₂
    rw [← hs.sameTranscript.1] at hports₂
    obtain ⟨hmerged, ht⟩ := foldlM_mergePort_agree hentries
      (fun e he => V.chunk.claimsForNode_ne_nil hbyPort₁ he) hports₁ hports₂ ht₁ ht₂
      (fun hreads before e later acc hes hlen hbefore => by
        cases hproofs : proof₁.mergeClaimProofs[n]? with
        | none =>
          rw [Option.getD_none]
          intro proof merged t hproof
          simp at hproof
        | some proofs =>
          rw [hproofs, Option.getD_some] at hbefore
          rw [Option.getD_some]
          exact hb.weights n e.1 e.2 acc.2 proofs hreads
            ⟨start₁, pre, inner, post, s₁, byPort₁, proofs, before, acc.1, hstart₁, horder, hpre,
              hbyPort₁, hproofs, ⟨later, hes⟩, hbefore, hlen⟩ hproofs)
    -- the layer takes the claims to claims about its inputs
    have hsame : Verifier.SameTranscript { s₁.verifier with transcript := t₁ }
        { s₂.verifier with transcript := t₂ } := ⟨ht, hs.sameTranscript.2⟩
    obtain ⟨htranscript, hshape⟩ := hb.delimited n l _ _ _ _ _ _ _ _ whole hsame
      (sameShape_of_agree hmerged) hrun₁ hrun₂ hw₁ hw₂
    have hout : List.Forall₂ (ClaimAgree (V.ReadsFrom nodeId n)) out₁ out₂ := by
      refine agree_of_sameShape hshape fun hreads => ?_
      obtain rfl := eq_of_agree hreads hmerged
      exact hb.binds n l hreads _ _ _ _ _ _ _ whole hsame hrun₁ hrun₂ hw₁ hw₂
    refine ⟨⟨htranscript, ?_⟩, ?_⟩
    · rw [(hb.appends n l _ _ _ _ hrun₁).2, (hb.appends n l _ _ _ _ hrun₂).2]
      exact hs.sameTranscript.2
    · rw [hclaims₁, hclaims₂]
      exact extendClaims_agree hs.claims hout

end TwoRuns

/-- Two runs that come to the merging of the claims about a port with the same transcript merge the
    same claims, if the layers that read from its node are bound by the transcript. -/
theorem mergedClaims_bound {nodeId : NodeId} {port : PortId} {claims₁ claims₂ : List (Claim F)}
    {t : D.Transcript} (hb : BoundConsumers V T nodeId proof₁ proof₂)
    (h₁ : V.ReachesMerge proof₁ nodeId port claims₁ t)
    (h₂ : V.ReachesMerge proof₂ nodeId port claims₂ t) : claims₁ = claims₂ := by
  obtain ⟨start₁, before, inner, after, s₁, byPort₁, proofs₁, ports₁, merged₁, hstart₁, horder, hrun₁,
    hbyPort₁, -, ⟨later₁, hports₁⟩, hmerge₁, -⟩ := h₁
  obtain ⟨start₂, before', inner', after', s₂, byPort₂, proofs₂, ports₂, merged₂, hstart₂, horder',
    hrun₂, hbyPort₂, -, ⟨later₂, hports₂⟩, hmerge₂, -⟩ := h₂
  obtain rfl := V.chunk.subgraph.before_eq_of_iterNodes horder horder'
  have hbefore : ∀ entry ∈ before, entry ∈ V.chunk.subgraph.backwardIter := fun entry hentry => by
    rw [horder]
    exact List.mem_append_left _ hentry
  -- both runs have read a part of the common transcript at every node
  have hs₁ : T.Extends s₁.verifier.transcript t := foldlM_mergePort_extends hmerge₁
  have hs₂ : T.Extends s₂.verifier.transcript t := foldlM_mergePort_extends hmerge₂
  have hback : ∀ {proof : ChunkProof O} {start : ClaimsStart D C}, ∀ entry ∈ before,
      ∀ s s', V.verifyNode proof start s entry = .ok s' →
        T.log s'.verifier.transcript <+: T.log t → T.log s.verifier.transcript <+: T.log t :=
    fun entry hentry s s' hok hw =>
      TranscriptLog.Extends.isPrefix (verifyNode_extends hb.appends (hbefore entry hentry) hok) hw
  have hw₁ : T.log start₁.verifier.transcript <+: T.log t :=
    Outcome.foldlM_back (P := fun s : ClaimsState D C => T.log s.verifier.transcript <+: T.log t)
      hrun₁ hs₁ hback
  have hw₂ : T.log start₂.verifier.transcript <+: T.log t :=
    Outcome.foldlM_back (P := fun s : ClaimsState D C => T.log s.verifier.transcript <+: T.log t)
      hrun₂ hs₂ hback
  have hstarts := starts_agree hb hstart₁ hstart₂ hw₁ hw₂
  have hnodes : List.Forall₂ (fun a b : NodeId × ChunkNode O => a = b) before before :=
    List.forall₂_same.mpr fun _ _ => rfl
  have hstates : StatesAgree V nodeId s₁ s₂ := by
    refine Outcome.foldlM_rel (P := fun s : ClaimsState D C => T.log s.verifier.transcript <+: T.log t)
      (Q := fun s : ClaimsState D C => T.log s.verifier.transcript <+: T.log t)
      (motive := StatesAgree V nodeId) hnodes hrun₁ hrun₂ ⟨hstarts.sameTranscript, MapAgree.refl _ _⟩
      hs₁ hs₂ hback hback ?_
    intro pre entry post entry' r₁ r₂ r₁' r₂' hpre hinit heq hr hok₁ hok₂ hgood₁ hgood₂
    subst heq
    have horder₁ : V.chunk.subgraph.backwardIter = pre ++ entry :: (post ++ (nodeId, .inner inner) :: after) := by
      rw [horder, hpre]
      simp
    exact verifyNode_agree hb hstart₁ hstarts horder₁ hinit hr hok₁ hok₂ hgood₁ hgood₂
  -- so the node receives the same claims
  have hentries := V.chunk.claimsForNode_agree (q := True) hstates.claims hstarts.chunkOutputs
    (fun feed hfeed _ => .direct hfeed) (fun _ _ => .inl rfl) hbyPort₁ hbyPort₂
  have hsame : byPort₁.toList = byPort₂.toList :=
    List.forall₂_eq_eq_eq ▸ hentries.imp fun e₁ e₂ he => Prod.ext he.1 (eq_of_agree trivial he.2)
  have hmem₁ : (port, claims₁) ∈ byPort₁.toList := by
    rw [hports₁]
    exact List.mem_append_right _ List.mem_cons_self
  have hmem₂ : (port, claims₂) ∈ byPort₁.toList := by
    rw [hsame, hports₂]
    exact List.mem_append_right _ List.mem_cons_self
  exact Std.ExtTreeMap.eq_of_mem_toList hmem₁ hmem₂

/-- A model of additions only. -/
def noOtherLayers {F : Type} (D : DpCrypto F) (C : Type) : OtherLayers D C where
  Ctx := Empty
  Proof := Empty
  isProvable := Empty.elim
  commitments := Empty.elim
  verify := Empty.elim
  verifyInputClaim := Empty.elim

section Doubled

variable (challenge : List (Entry ℚ Unit) → ℚ)

abbrev rationalCrypto : DpCrypto ℚ := listCrypto Unit challenge fun message r => message.getD 0 0 + r

abbrev additions : OtherLayers (rationalCrypto challenge) Unit := noOtherLayers _ _

/-- An addition of two operands that are not rescaled. -/
def plainAdd : AddCtx := ⟨⟨1, 1⟩, none⟩

/-- Both operands of nodes 1 and 2 are fed by one port. -/
def doubledEdges : BTreeMap EdgeId (Edge Unit) :=
  (((∅ : BTreeMap EdgeId (Edge Unit)).insert 0 ⟨0, 1, [⟨0, 0⟩, ⟨0, 1⟩], none⟩).insert 1
    ⟨1, 2, [⟨0, 0⟩, ⟨0, 1⟩], none⟩).insert 2 ⟨2, 3, [⟨0, 0⟩], none⟩

/-- Node 1 adds the input to itself; node 2 adds the output of node 1 to itself. -/
def doubledGraph : ChunkedGraph (additions challenge) where
  nodes := (((∅ : BTreeMap NodeId (ChunkNode (additions challenge))).insert 0
    (.input (.originalNode 0))).insert 1 (.inner .originalNode)).insert 2 (.inner .originalNode)
      |>.insert 3 (.output (.originalNode 0))
  edges := doubledEdges

def doubled : ChunkVerifier (additions challenge) where
  ctx := { nodes := ((∅ : BTreeMap NodeId (Node (LayerCtx (additions challenge)) Nat Nat)).insert 1
             (.inner (.add plainAdd))).insert 2 (.inner (.add plainAdd))
           lookup := ⟨∅⟩ }
  io := { input := [⟨[1], []⟩], output := [⟨[4], []⟩], splittedInputs := none, splittedOutputs := none }
  chunk := { chunkId := 0, incomingEdges := ∅, outgoingEdges := ∅
             subgraph := doubledGraph challenge, replacedNodes := ∅ }
  shapeSteps := ((∅ : HashMap NodeId ShapeStep).insert 1 ⟨[[], []], [[], []]⟩).insert 2
    ⟨[[], []], [[], []]⟩
  transcript := []
  appender := listAppender challenge _
  floats := noFloats
  evaluateMle data _ := .ok (data.getD 0 0)

/-- Node 2 splits the output, which is four, in `left` and `4 - left`. -/
def doubledProof (left : ℚ) : ChunkProof (additions challenge) where
  steps := ((∅ : HashMap NodeId (LayerProof (additions challenge))).insert 1 (.add ⟨1, 1⟩)).insert 2
    (.add ⟨left, 4 - left⟩)
  mergeClaimProofs := (∅ : HashMap NodeId (MergeClaimsProof (rationalCrypto challenge))).insert 1
    ((∅ : MergeClaimsProof (rationalCrypto challenge)).insert 0 ⟨⟨[], 2⟩, 0⟩)
  tableProof := none
  commitments := ⟨∅, ∅⟩
  outputEvals := ∅

/-- The nodes of the graph without what they stand for. -/
private def doubledSkeleton : Graph Unit Unit Unit Unit where
  nodes := (((∅ : BTreeMap NodeId (Node Unit Unit Unit)).insert 0 (.input ())).insert 1
    (.inner ())).insert 2 (.inner ()) |>.insert 3 (.output ())
  edges := doubledEdges

private theorem dagOrder_doubledGraph (forward : Bool) :
    (doubledGraph challenge).dagOrder forward = doubledSkeleton.dagOrder forward :=
  Graph.dagOrder_congr _ forward rfl rfl

theorem backwardIter_doubledGraph : (doubledGraph challenge).backwardIter =
    [(3, .output (.originalNode 0)), (2, .inner .originalNode), (1, .inner .originalNode),
      (0, .input (.originalNode 0))] := by
  have horder : doubledSkeleton.dagOrder false = [3, 2, 1, 0] := rfl
  rw [Graph.backwardIter, Graph.iterNodes, dagOrder_doubledGraph, horder]
  rfl

theorem forwardInners_doubledGraph : (doubledGraph challenge).forwardInners =
    [(1, .originalNode), (2, .originalNode)] := by
  have horder : doubledSkeleton.dagOrder true = [0, 1, 2, 3] := rfl
  rw [Graph.forwardInners, Graph.iterNodes, dagOrder_doubledGraph, horder]
  rfl

/-- What both proofs append to the transcript. -/
def doubledStart : List (Entry ℚ Unit) :=
  (doubled challenge).chunk.addChunkDataToTranscript (doubled challenge).appender []

theorem writeCommitments_doubled (left : ℚ) :
    (doubled challenge).writeCommitments (doubledProof challenge left) =
      .ok (doubledStart challenge) := by
  show ((doubledGraph challenge).forwardInners.foldlM _ (doubledStart challenge) >>= _) = _
  rw [forwardInners_doubledGraph]
  rfl

theorem tableChallenges_doubled (t : List (Entry ℚ Unit)) :
    ((doubled challenge).tableChallenges t) = (ChallengeStorage.default, t) := rfl

/-- The claim about the output of the model. -/
abbrev outputClaim : HashMap NodeInput (Claim ℚ) := (∅ : HashMap NodeInput (Claim ℚ)).insert ⟨3, 0⟩ ⟨[], 4⟩

/-- What the visit of the nodes starts from. -/
def doubledClaimsStart : ClaimsStart (rationalCrypto challenge) Unit :=
  ⟨⟨CommitmentVerifier.default, doubledStart challenge, ChallengeStorage.default, ∅⟩,
    (∅ : HashMap ChunkedIo (Claim ℚ)).insert ⟨0, 0⟩ ⟨[], 4⟩, ∅⟩

theorem start_doubled (left : ℚ) : (doubled challenge).start (doubledProof challenge left) =
    .ok (doubledClaimsStart challenge) := by
  rw [start, writeCommitments_doubled, Outcome.ok_bind, tableChallenges_doubled]
  rfl

theorem verifyNode_split (left : ℚ) (v : Verifier (rationalCrypto challenge) Unit) :
    (doubled challenge).verifyNode (doubledProof challenge left) (doubledClaimsStart challenge)
      ⟨outputClaim, v⟩ (2, .inner .originalNode) =
    .ok ⟨extendClaims outputClaim 2 [⟨[], left⟩, ⟨[], 4 - left⟩], v⟩ := by
  have hadd : plainAdd.verify 2 ⟨left, 4 - left⟩ [⟨[], 4⟩] v =
      .ok ([⟨[], left⟩, ⟨[], 4 - left⟩], v) := by
    have hunit : (elementToField (1 : Int64) : ℚ) = 1 := by
      show ((1 : Int) : ℚ) = 1
      exact Int.cast_one
    refine AddCtx.verify_eq_ok.mpr ⟨⟨[], 4⟩, rfl, ?_, rfl⟩
    show left * elementToField 1 + (4 - left) * elementToField 1 = 4
    rw [hunit]
    ring
  have hlayer : (doubled challenge).layerOf 2 .originalNode = .ok (.add plainAdd) := rfl
  have hproof : ((doubledProof challenge left).steps[2]?).getD .dummy = .add ⟨left, 4 - left⟩ := rfl
  have hmergeProof : (doubledProof challenge left).mergeClaimProofs[2]? = none := rfl
  have hshape : (doubled challenge).shapeSteps[2]? = some ⟨[[], []], [[], []]⟩ := rfl
  have hclaims : (doubled challenge).chunk.claimsForNode 2 outputClaim ∅ =
      .ok ((∅ : BTreeMap PortId (List (Claim ℚ))).insert 0 [⟨[], 4⟩]) := rfl
  have hmerge : verifyMergeClaimsProof ((∅ : BTreeMap PortId (List (Claim ℚ))).insert 0 [⟨[], 4⟩])
      (none : Option (MergeClaimsProof (rationalCrypto challenge))) v.transcript =
        .ok ([⟨[], 4⟩], v.transcript) := rfl
  have hcheck : ∀ claims, (doubled challenge).checkInputs (.add plainAdd) claims 2 = .ok () :=
    fun claims => rfl
  simp only [verifyNode, hlayer, Outcome.ok_bind, hproof, hmergeProof, hshape, okOr_some, hclaims,
    doubledClaimsStart, hmerge, LayerCtx.inputClaims, LayerCtx.isProvable, if_true, LayerCtx.verify,
    hadd, hcheck]

/-- With any `left` the run comes to node 1 with the same transcript. -/
theorem reachesMerge_doubled (left : ℚ) :
    (doubled challenge).ReachesMerge (doubledProof challenge left) 1 0
      [⟨[], left⟩, ⟨[], 4 - left⟩] (doubledStart challenge) := by
  have houtput : (doubled challenge).verifyNode (doubledProof challenge left)
      (doubledClaimsStart challenge) ⟨∅, (doubledClaimsStart challenge).verifier⟩
      (3, .output (.originalNode 0)) =
        .ok ⟨outputClaim, (doubledClaimsStart challenge).verifier⟩ := rfl
  let received : BTreeMap PortId (List (Claim ℚ)) :=
    GraphChunk.pushClaim (GraphChunk.pushClaim ∅ 0 ⟨[], left⟩) 0 ⟨[], 4 - left⟩
  have hreceived : (doubled challenge).chunk.claimsForNode 1
      (extendClaims outputClaim 2 [⟨[], left⟩, ⟨[], 4 - left⟩]) ∅ = .ok received := rfl
  have hports : received.toList = [(0, [⟨[], left⟩, ⟨[], 4 - left⟩])] := rfl
  have hbefore : [(3, .output (.originalNode 0)), (2, .inner .originalNode)].foldlM
      ((doubled challenge).verifyNode (doubledProof challenge left) (doubledClaimsStart challenge))
      ⟨∅, (doubledClaimsStart challenge).verifier⟩ =
        .ok ⟨extendClaims outputClaim 2 [⟨[], left⟩, ⟨[], 4 - left⟩],
          (doubledClaimsStart challenge).verifier⟩ := by
    rw [List.foldlM_cons, houtput, Outcome.ok_bind, List.foldlM_cons, verifyNode_split,
      Outcome.ok_bind]
    rfl
  exact ⟨doubledClaimsStart challenge, [(3, .output (.originalNode 0)), (2, .inner .originalNode)],
    .originalNode, [(0, .input (.originalNode 0))], _, received,
    _, [], [], start_doubled challenge left, backwardIter_doubledGraph challenge, hbefore, hreceived,
    rfl, ⟨[], hports⟩, rfl, by simp⟩

end Doubled

/-- The output of node 1 is read by both operands of an addition. The proof chooses how the output
    of the addition is split between them, and what it has read when the two claims are merged does
    not depend on it, even if no two transcripts give the same challenge. -/
theorem mergedClaims_free : ∃ challenge : List (Entry ℚ Unit) → ℚ, Function.Injective challenge ∧
    ¬ ∀ (proof₁ proof₂ : ChunkProof (additions challenge)) (nodeId : NodeId) (port : PortId)
      (claims₁ claims₂ : List (Claim ℚ)) (t : List (Entry ℚ Unit)),
      (doubled challenge).ReachesMerge proof₁ nodeId port claims₁ t →
      (doubled challenge).ReachesMerge proof₂ nodeId port claims₂ t → claims₁ = claims₂ := by
  obtain ⟨challenge, hinjective⟩ := exists_injective_challenge
  refine ⟨challenge, hinjective, fun hall => ?_⟩
  have heq := hall _ _ 1 0 _ _ _ (reachesMerge_doubled challenge 2) (reachesMerge_doubled challenge 1)
  simp at heq

section Flattened

/-- The output of node 1 is an output of the model and is read by node 2, which reshapes it to
    another one. -/
def flattenedGraph : ChunkedGraph (additions fun _ => 0) where
  nodes := (((∅ : BTreeMap NodeId (ChunkNode (additions fun _ => 0))).insert 1
    (.inner .originalNode)).insert 2 (.inner .originalNode)).insert 3 (.output (.originalNode 0))
      |>.insert 4 (.output (.originalNode 1))
  edges := (((∅ : BTreeMap EdgeId (Edge Unit)).insert 0 ⟨1, 3, [⟨0, 0⟩], none⟩).insert 1
    ⟨1, 2, [⟨0, 0⟩], none⟩).insert 2 ⟨2, 4, [⟨0, 0⟩], none⟩

def flattened : ChunkVerifier (additions fun _ => 0) where
  ctx := { nodes := ((∅ : BTreeMap NodeId (Node (LayerCtx (additions fun _ => 0)) Nat Nat)).insert 1
             (.inner .flatten)).insert 2 (.inner .flatten)
           lookup := ⟨∅⟩ }
  io := { input := [], output := [⟨[4], []⟩, ⟨[4], []⟩], splittedInputs := none
          splittedOutputs := none }
  chunk := { chunkId := 0, incomingEdges := ∅, outgoingEdges := ∅
             subgraph := flattenedGraph, replacedNodes := ∅ }
  shapeSteps := ((∅ : HashMap NodeId ShapeStep).insert 1 ⟨[[]], [[]]⟩).insert 2 ⟨[[]], [[]]⟩
  transcript := []
  appender := listAppender _ _
  floats := noFloats
  evaluateMle data _ := .ok (data.getD 0 0)

def flattenedProof (merged : ℚ) : ChunkProof (additions fun _ => 0) where
  steps := ∅
  mergeClaimProofs := (∅ : HashMap NodeId (MergeClaimsProof (rationalCrypto fun _ => 0))).insert 1
    ((∅ : MergeClaimsProof (rationalCrypto fun _ => 0)).insert 0 ⟨⟨[], merged⟩, 0⟩)
  tableProof := none
  commitments := ⟨∅, ∅⟩
  outputEvals := ∅

theorem forwardInners_flattened : flattenedGraph.forwardInners =
    [(1, .originalNode), (2, .originalNode)] := by
  have horder : flattenedGraph.dagOrder true = [1, 2, 3, 4] := rfl
  rw [Graph.forwardInners, Graph.iterNodes, horder]
  rfl

theorem backwardIter_flattened : flattenedGraph.backwardIter =
    [(4, .output (.originalNode 1)), (3, .output (.originalNode 0)), (2, .inner .originalNode),
      (1, .inner .originalNode)] := by
  have horder : flattenedGraph.dagOrder false = [4, 3, 2, 1] := rfl
  rw [Graph.backwardIter, Graph.iterNodes, horder]
  rfl

/-- What both proofs append to the transcript. -/
def flattenedStart : List (Entry ℚ Unit) :=
  flattened.chunk.addChunkDataToTranscript flattened.appender []

theorem writeCommitments_flattened (merged : ℚ) :
    flattened.writeCommitments (flattenedProof merged) = .ok flattenedStart := by
  show (flattenedGraph.forwardInners.foldlM _ flattenedStart >>= _) = _
  rw [forwardInners_flattened]
  rfl

/-- The nodes are numbered along the edges. -/
theorem lt_of_mem_outgoingFeeds_flattened {n : NodeId} {feed : Feed}
    (h : feed ∈ flattenedGraph.outgoingFeeds n) : n < feed.target.nodeId := by
  have hedges : ∀ e ∈ flattenedGraph.edges.toList, e.2.source < e.2.target := by decide +kernel
  rw [Graph.outgoingFeeds, List.mem_insertionSort] at h
  obtain ⟨e, he, hfeed⟩ := List.mem_flatMap.mp h
  obtain ⟨link, -, rfl⟩ := List.mem_map.mp hfeed
  obtain ⟨hget, hsource⟩ := Graph.mem_outgoings.mp he
  have hlt := hedges e (Std.ExtTreeMap.mem_toList_iff_getElem?_eq_some.mpr hget)
  rw [hsource] at hlt
  exact hlt

theorem lt_of_readsFrom_flattened {n : NodeId} (h : flattened.ReadsFrom 1 n) : 1 < n := by
  induction h with
  | direct hfeed => exact lt_of_mem_outgoingFeeds_flattened hfeed
  | further _ hfeed ih => exact ih.trans (lt_of_mem_outgoingFeeds_flattened hfeed)

theorem layerAt_flattened {n : NodeId} (l : flattened.LayerAt n) : l.layer = .flatten := by
  obtain ⟨inner, layer, shapeStep, hmem, hlayer, hshape⟩ := l
  have hmem : (n, Node.inner inner) ∈ flattenedGraph.backwardIter := hmem
  rw [backwardIter_flattened] at hmem
  simp only [List.mem_cons, Prod.mk.injEq, reduceCtorEq, and_false, Node.inner.injEq,
    List.not_mem_nil, or_false, false_or] at hmem
  rcases hmem with ⟨rfl, rfl⟩ | ⟨rfl, rfl⟩
  · exact (Except.ok.inj (hlayer : (.ok .flatten : Outcome _) = .ok layer)).symm
  · exact (Except.ok.inj (hlayer : (.ok .flatten : Outcome _) = .ok layer)).symm

theorem boundConsumers_flattened : BoundConsumers flattened
    (listTranscript (fun _ => 0) fun message r => message.getD 0 0 + r) 1
    (flattenedProof 2) (flattenedProof 3) where
  sameLength t₁ t₂ h₁ h₂ := by
    rw [writeCommitments_flattened] at h₁ h₂
    rw [← Except.ok.inj h₁, ← Except.ok.inj h₂]
  outputs := List.Forall₂.nil
  appends n l := LayerCtx.appends_of_not_provable _ (by rw [layerAt_flattened l]; rfl) _ _ _
  delimited n l := LayerCtx.delimited_of_not_provable _ (by rw [layerAt_flattened l]; rfl) _ _ _
  binds n l _ := LayerCtx.binds_of_not_provable _ (by rw [layerAt_flattened l]; rfl) _ _ _
  weights n port claims t proofs hreads _ hproofs := by
    have hnone : ((∅ : HashMap NodeId (MergeClaimsProof (rationalCrypto fun _ => 0))).insert 1
        ((∅ : MergeClaimsProof (rationalCrypto fun _ => 0)).insert 0 ⟨⟨[], 2⟩, 0⟩))[n]? = none := by
      rw [Std.ExtTreeMap.getElem?_insert, if_neg]
      · simp
      · rw [Std.LawfulEqOrd.compare_eq_iff_eq]
        exact (lt_of_readsFrom_flattened hreads).ne
    exact nomatch hnone.symm.trans hproofs

/-- Both claims about node 1 are known to the verifier. -/
theorem reachesMerge_flattened (merged : ℚ) :
    flattened.ReachesMerge (flattenedProof merged) 1 0 [⟨[], 4⟩, ⟨[], 4⟩] flattenedStart := by
  let start : ClaimsStart (rationalCrypto fun _ => 0) Unit :=
    ⟨⟨CommitmentVerifier.default, flattenedStart, ChallengeStorage.default, ∅⟩,
      ((∅ : HashMap ChunkedIo (Claim ℚ)).insert ⟨0, 0⟩ ⟨[], 4⟩).insert ⟨1, 0⟩ ⟨[], 4⟩, ∅⟩
  let claims : HashMap NodeInput (Claim ℚ) := extendClaims (((∅ : HashMap NodeInput
    (Claim ℚ)).insert ⟨4, 0⟩ ⟨[], 4⟩).insert ⟨3, 0⟩ ⟨[], 4⟩) 2 [⟨[], 4⟩]
  let received : BTreeMap PortId (List (Claim ℚ)) :=
    GraphChunk.pushClaim (GraphChunk.pushClaim ∅ 0 ⟨[], 4⟩) 0 ⟨[], 4⟩
  have hstart : flattened.start (flattenedProof merged) = .ok start := by
    rw [ChunkVerifier.start, writeCommitments_flattened]
    rfl
  have hbefore : [(4, .output (.originalNode 1)), (3, .output (.originalNode 0)),
      (2, .inner .originalNode)].foldlM (flattened.verifyNode (flattenedProof merged) start)
        ⟨∅, start.verifier⟩ = .ok ⟨claims, start.verifier⟩ := rfl
  have hreceived : flattened.chunk.claimsForNode 1 claims ∅ = .ok received := rfl
  have hports : received.toList = [(0, [⟨[], 4⟩, ⟨[], 4⟩])] := rfl
  exact ⟨start, [(4, .output (.originalNode 1)), (3, .output (.originalNode 0)),
      (2, .inner .originalNode)], .originalNode, [], _, received, _, [], [], hstart,
    backwardIter_flattened, hbefore, hreceived, rfl, ⟨[], hports⟩, rfl, by simp⟩

theorem mergedClaims_bound_flattened :
    BoundConsumers flattened (listTranscript (fun _ => 0) fun message r => message.getD 0 0 + r) 1
        (flattenedProof 2) (flattenedProof 3) ∧
      flattened.ReachesMerge (flattenedProof 2) 1 0 [⟨[], 4⟩, ⟨[], 4⟩] flattenedStart ∧
      flattened.ReachesMerge (flattenedProof 3) 1 0 [⟨[], 4⟩, ⟨[], 4⟩] flattenedStart ∧
      ([⟨[], 4⟩, ⟨[], 4⟩] : List (Claim ℚ)) = [⟨[], 4⟩, ⟨[], 4⟩] :=
  ⟨boundConsumers_flattened, reachesMerge_flattened 2, reachesMerge_flattened 3,
    mergedClaims_bound boundConsumers_flattened (reachesMerge_flattened 2) (reachesMerge_flattened 3)⟩

end Flattened

end ChunkVerifier

end DeepProve
