import DeepProve.Iop.VerifyChunk

/-!
# Two runs of the verifier side by side

Two proofs of one chunk are verified from one transcript. As long as the transcripts do not part,
the claims the runs have registered are about equally many variables; those of some nodes are even
the same. These are the facts about one round of each loop of the verifier.
-/

namespace DeepProve

/-! ## Claims of two runs -/

section Claims

variable {F : Type}

/-- The claims are about equally many variables, and the same where `p` holds. -/
def ClaimAgree (p : Prop) (c₁ c₂ : Claim F) : Prop :=
  c₁.point.length = c₂.point.length ∧ (p → c₁ = c₂)

theorem ClaimAgree.refl (p : Prop) (c : Claim F) : ClaimAgree p c c := ⟨rfl, fun _ => rfl⟩

/-- The claims registered by two runs: those at the keys with `p` are the same. -/
def MapAgree {K : Type} [Ord K] [Std.TransOrd K] (p : K → Prop) (m₁ m₂ : HashMap K (Claim F)) :
    Prop :=
  ∀ k : K, Option.Rel (ClaimAgree (p k)) m₁[k]? m₂[k]?

section Lists

variable {p : Prop} {cs₁ cs₂ : List (Claim F)}

theorem sameShape_of_agree (h : List.Forall₂ (ClaimAgree p) cs₁ cs₂) : SameShape cs₁ cs₂ :=
  h.imp fun _ _ hc => hc.1

theorem eq_of_agree (hp : p) (h : List.Forall₂ (ClaimAgree p) cs₁ cs₂) : cs₁ = cs₂ :=
  List.forall₂_eq_eq_eq ▸ h.imp fun _ _ hc => hc.2 hp

theorem agree_of_sameShape (h : SameShape cs₁ cs₂) (heq : p → cs₁ = cs₂) :
    List.Forall₂ (ClaimAgree p) cs₁ cs₂ := by
  by_cases hp : p
  · rw [heq hp]
    exact List.forall₂_same.mpr fun c _ => ClaimAgree.refl p c
  · exact h.imp fun _ _ hlen => ⟨hlen, fun h => absurd h hp⟩

end Lists

/-! ## Maps of claims -/

section Maps

variable {K : Type} [Ord K] [Std.TransOrd K] {p : K → Prop}
  {m₁ m₂ : HashMap K (Claim F)}

theorem MapAgree.refl (p : K → Prop) (m : HashMap K (Claim F)) : MapAgree p m m := by
  intro k
  cases m[k]? with
  | none => exact .none
  | some c => exact .some (ClaimAgree.refl _ c)

theorem MapAgree.insert [Std.LawfulEqOrd K] (h : MapAgree p m₁ m₂) (k : K) {c₁ c₂ : Claim F}
    (hc : ClaimAgree (p k) c₁ c₂) : MapAgree p (m₁.insert k c₁) (m₂.insert k c₂) := by
  intro k'
  by_cases hk : k = k'
  · subst hk
    rw [Std.ExtTreeMap.getElem?_insert_self, Std.ExtTreeMap.getElem?_insert_self]
    exact .some hc
  · rw [Std.ExtTreeMap.getElem?_insert, Std.ExtTreeMap.getElem?_insert]
    simp only [Std.LawfulEqOrd.compare_eq_iff_eq, hk, if_false]
    exact h k'

end Maps

/-- The claims that a node registers. -/
theorem extendClaims_agree {p : NodeId → Prop} {nodeId : NodeId}
    {m₁ m₂ : HashMap NodeInput (Claim F)} (h : MapAgree (fun k => p k.nodeId) m₁ m₂)
    {cs₁ cs₂ : List (Claim F)} (hcs : List.Forall₂ (ClaimAgree (p nodeId)) cs₁ cs₂) :
    MapAgree (fun k => p k.nodeId) (ChunkVerifier.extendClaims m₁ nodeId cs₁)
      (ChunkVerifier.extendClaims m₂ nodeId cs₂) := by
  have hgen : ∀ i, MapAgree (fun k => p k.nodeId)
      (m₁.insertMany ((cs₁.zipIdx i).map fun e => ((⟨nodeId, e.2⟩ : NodeInput), e.1)))
      (m₂.insertMany ((cs₂.zipIdx i).map fun e => ((⟨nodeId, e.2⟩ : NodeInput), e.1))) := by
    induction hcs generalizing m₁ m₂ with
    | nil =>
      intro i
      simpa using h
    | @cons c₁ c₂ cs₁ cs₂ hc _ ih =>
      intro i
      rw [List.zipIdx_cons, List.zipIdx_cons, List.map_cons, List.map_cons,
        Std.ExtTreeMap.insertMany_cons, Std.ExtTreeMap.insertMany_cons]
      exact ih (h.insert ⟨nodeId, i⟩ hc) (i + 1)
  exact hgen 0

end Claims

/-! ## What a node receives -/

namespace GraphChunk

section Ports

variable {F : Type}

/-- The claims collected for the ports of a node. -/
def PortAgree (q : Prop) (a₁ a₂ : PortClaims F) : Prop :=
  (∀ port : PortId, Option.Rel (List.Forall₂ (ClaimAgree q)) a₁.1[port]? a₂.1[port]?) ∧ a₁.2 = a₂.2

theorem pushClaim_agree {q : Prop} {m₁ m₂ : BTreeMap PortId (List (Claim F))}
    (h : ∀ port : PortId, Option.Rel (List.Forall₂ (ClaimAgree q)) m₁[port]? m₂[port]?)
    (port : PortId) {c₁ c₂ : Claim F} (hc : ClaimAgree q c₁ c₂) (port' : PortId) :
    Option.Rel (List.Forall₂ (ClaimAgree q)) (pushClaim m₁ port c₁)[port']?
      (pushClaim m₂ port c₂)[port']? := by
  have hsoFar : List.Forall₂ (ClaimAgree q) ((m₁[port]?).getD []) ((m₂[port]?).getD []) := by
    have hport := h port
    generalize m₁[port]? = o₁, m₂[port]? = o₂ at hport
    cases hport with
    | none => exact .nil
    | some hcs => exact hcs
  rw [pushClaim, pushClaim, Std.ExtTreeMap.getElem?_insert, Std.ExtTreeMap.getElem?_insert]
  split
  · exact .some (List.rel_append hsoFar (.cons hc .nil))
  · exact h port'

/-- One feed: both runs take the claim of the port that is fed, or both that of the chunk. -/
theorem feedClaim_agree {p : NodeId → Prop} {p' : NodeOutput → Prop} {q : Prop} {nodeId : NodeId}
    {claims₁ claims₂ : HashMap NodeInput (Claim F)} {outs₁ outs₂ : HashMap NodeOutput (Claim F)}
    (hclaims : MapAgree (fun k => p k.nodeId) claims₁ claims₂) (houts : MapAgree p' outs₁ outs₂)
    {feed : Feed} (hfed : q → p feed.target.nodeId) (hport : q → p' ⟨nodeId, feed.source.port⟩)
    {s₁ s₂ s₁' s₂' : PortClaims F} (hs : PortAgree q s₁ s₂)
    (h₁ : feedClaim nodeId claims₁ outs₁ s₁ feed = .ok s₁')
    (h₂ : feedClaim nodeId claims₂ outs₂ s₂ feed = .ok s₂') : PortAgree q s₁' s₂' := by
  obtain ⟨hs, hseen⟩ := hs
  have htarget := hclaims feed.target
  have hout := houts ⟨nodeId, feed.source.port⟩
  unfold feedClaim at h₁ h₂
  generalize claims₁[feed.target]? = o₁, claims₂[feed.target]? = o₂ at htarget h₁ h₂
  cases htarget with
  | some hc =>
    rw [← Except.ok.inj h₁, ← Except.ok.inj h₂]
    exact ⟨pushClaim_agree hs _ ⟨hc.1, fun hq => hc.2 (hfed hq)⟩, hseen⟩
  | none =>
    obtain ⟨c₁, hc₁, h₁⟩ := Outcome.bind_eq_ok.mp h₁
    obtain ⟨c₂, hc₂, h₂⟩ := Outcome.bind_eq_ok.mp h₂
    rw [okOr_eq_ok] at hc₁ hc₂
    rw [hc₁, hc₂] at hout
    cases hout with
    | some hc =>
      rw [← hseen] at h₂
      by_cases hport' : feed.source.port ∈ s₁.2
      · rw [if_pos hport'] at h₁ h₂
        rw [← Except.ok.inj h₁, ← Except.ok.inj h₂]
        exact ⟨hs, hseen⟩
      · rw [if_neg hport'] at h₁ h₂
        rw [← Except.ok.inj h₁, ← Except.ok.inj h₂]
        exact ⟨pushClaim_agree hs _ ⟨hc.1, fun hq => hc.2 (hport hq)⟩, rfl⟩

end Ports

variable {F C : Type} {D : DpCrypto F} {O : OtherLayers D C} (chunk : GraphChunk O)

/-- Two runs that agree on the claims about what a node feeds agree on what the node receives. -/
theorem claimsForNode_agree {p : NodeId → Prop} {q : Prop} {nodeId : NodeId}
    {claims₁ claims₂ : HashMap NodeInput (Claim F)} {outs₁ outs₂ : HashMap NodeOutput (Claim F)}
    {byPort₁ byPort₂ : BTreeMap PortId (List (Claim F))} {p' : NodeOutput → Prop}
    (hclaims : MapAgree (fun k => p k.nodeId) claims₁ claims₂) (houts : MapAgree p' outs₁ outs₂)
    (hfed : ∀ feed ∈ chunk.subgraph.outgoingFeeds nodeId, q → p feed.target.nodeId)
    (hport : ∀ port, q → p' ⟨nodeId, port⟩)
    (h₁ : chunk.claimsForNode nodeId claims₁ outs₁ = .ok byPort₁)
    (h₂ : chunk.claimsForNode nodeId claims₂ outs₂ = .ok byPort₂) :
    List.Forall₂ (fun e₁ e₂ => e₁.1 = e₂.1 ∧ List.Forall₂ (ClaimAgree q) e₁.2 e₂.2)
      byPort₁.toList byPort₂.toList := by
  obtain ⟨acc₁, hrun₁, heq₁⟩ := Outcome.bind_eq_ok.mp h₁
  obtain ⟨acc₂, hrun₂, heq₂⟩ := Outcome.bind_eq_ok.mp h₂
  obtain rfl := Except.ok.inj heq₁
  obtain rfl := Except.ok.inj heq₂
  have hagree : PortAgree q acc₁ acc₂ := by
    have hsame : List.Forall₂ (fun a b : Feed => a = b) (chunk.subgraph.outgoingFeeds nodeId)
        (chunk.subgraph.outgoingFeeds nodeId) := List.forall₂_same.mpr fun _ _ => rfl
    refine Outcome.foldlM_rel (P := fun _ => True) (Q := fun _ => True) hsame hrun₁ hrun₂
      ⟨fun _ => .none, rfl⟩ trivial trivial (fun _ _ _ _ _ _ => trivial) (fun _ _ _ _ _ _ => trivial) ?_
    intro pre feed post feed' s₁ s₂ s₁' s₂' hl _ heq hs hok₁ hok₂ _ _
    subst heq
    have hmem : feed ∈ chunk.subgraph.outgoingFeeds nodeId := by
      rw [hl]
      exact List.mem_append_right _ List.mem_cons_self
    exact feedClaim_agree hclaims houts (hfed feed hmem) (hport feed.source.port) hs hok₁ hok₂
  exact Std.ExtTreeMap.forall₂_toList hagree.1

/-- A port that receives claims receives at least one. -/
theorem claimsForNode_ne_nil {nodeId : NodeId} {claims : HashMap NodeInput (Claim F)}
    {outs : HashMap NodeOutput (Claim F)} {byPort : BTreeMap PortId (List (Claim F))}
    (h : chunk.claimsForNode nodeId claims outs = .ok byPort) {e : PortId × List (Claim F)}
    (he : e ∈ byPort.toList) : e.2 ≠ [] := by
  obtain ⟨acc, hrun, heq⟩ := Outcome.bind_eq_ok.mp h
  obtain rfl := Except.ok.inj heq
  have hpush : ∀ (m : BTreeMap PortId (List (Claim F))) (port : PortId) (c : Claim F),
      (∀ (port' : PortId) cs, m[port']? = some cs → cs ≠ []) →
      ∀ (port' : PortId) cs, (pushClaim m port c)[port']? = some cs → cs ≠ [] := by
    intro m port c hm port' cs hcs
    rw [pushClaim, Std.ExtTreeMap.getElem?_insert] at hcs
    split at hcs
    · rw [← Option.some.inj hcs]
      simp
    · exact hm port' cs hcs
  have hinv : ∀ (port : PortId) cs, acc.1[port]? = some cs → cs ≠ [] := by
    refine Outcome.foldlM_induction (motive := fun _ (acc : PortClaims F) =>
      ∀ (port : PortId) cs, acc.1[port]? = some cs → cs ≠ []) hrun (by simp) ?_
    intro pre feed post s₁ s₂ _ hs hstep
    unfold feedClaim at hstep
    split at hstep
    · rw [← Except.ok.inj hstep]
      exact hpush _ _ _ hs
    · obtain ⟨c, -, hstep⟩ := Outcome.bind_eq_ok.mp hstep
      split at hstep
      · rw [← Except.ok.inj hstep]
        exact hs
      · rw [← Except.ok.inj hstep]
        exact hpush _ _ _ hs
  exact hinv e.1 e.2 (Std.ExtTreeMap.mem_toList_iff_getElem?_eq_some.mp he)

end GraphChunk

/-! ## What the chunk receives -/

namespace ChunkVerifier

section Outputs

variable {F : Type} {D : DpCrypto F}

/-- The proofs give evaluations at the same ports, of polynomials in equally many variables; the
    evaluations at the ports with `p` are the same. -/
def SameOutputs (p : NodeOutput → Prop) (evals₁ evals₂ : BTreeMap NodeOutput (PolynomialEvaluation F)) :
    Prop :=
  List.Forall₂ (fun e₁ e₂ => e₁.1 = e₂.1 ∧ e₁.2.numVars = e₂.2.numVars ∧ (p e₁.1 → e₁.2.eval = e₂.2.eval))
    evals₁.toList evals₂.toList

variable {p : NodeOutput → Prop}

/-- One output of the chunk in two runs. -/
theorem addOutputClaim_agree {acc₁ acc₂ : OutputPoint D}
    {e₁ e₂ : NodeOutput × PolynomialEvaluation F} (hclaims : MapAgree p acc₁.claims acc₂.claims)
    (hpoint : acc₁.commonPoint = acc₂.commonPoint) (ht : acc₁.transcript = acc₂.transcript)
    (he : e₁.1 = e₂.1 ∧ e₁.2.numVars = e₂.2.numVars ∧ (p e₁.1 → e₁.2.eval = e₂.2.eval)) :
    MapAgree p (addOutputClaim acc₁ e₁).claims (addOutputClaim acc₂ e₂).claims ∧
      (addOutputClaim acc₁ e₁).commonPoint = (addOutputClaim acc₂ e₂).commonPoint ∧
      (addOutputClaim acc₁ e₁).transcript = (addOutputClaim acc₂ e₂).transcript := by
  obtain ⟨hport, hnumVars, heval⟩ := he
  simp only [addOutputClaim, hpoint, ht, hnumVars, and_true]
  rw [← hport]
  exact hclaims.insert e₁.1 ⟨rfl, fun hp => by rw [heval hp]⟩

theorem foldl_addOutputClaim_agree {es₁ es₂ : List (NodeOutput × PolynomialEvaluation F)}
    (hes : List.Forall₂ (fun e₁ e₂ => e₁.1 = e₂.1 ∧ e₁.2.numVars = e₂.2.numVars ∧
      (p e₁.1 → e₁.2.eval = e₂.2.eval)) es₁ es₂) {acc₁ acc₂ : OutputPoint D}
    (hclaims : MapAgree p acc₁.claims acc₂.claims) (hpoint : acc₁.commonPoint = acc₂.commonPoint)
    (ht : acc₁.transcript = acc₂.transcript) :
    MapAgree p (es₁.foldl addOutputClaim acc₁).claims (es₂.foldl addOutputClaim acc₂).claims ∧
      (es₁.foldl addOutputClaim acc₁).transcript = (es₂.foldl addOutputClaim acc₂).transcript := by
  induction hes generalizing acc₁ acc₂ with
  | nil => exact ⟨hclaims, ht⟩
  | cons he _ ih =>
    obtain ⟨hclaims', hpoint', ht'⟩ := addOutputClaim_agree hclaims hpoint ht he
    exact ih hclaims' hpoint' ht'

/-- The claims about the outputs of the chunk in two runs. -/
theorem chunkOutputClaims_agree {evals₁ evals₂ : BTreeMap NodeOutput (PolynomialEvaluation F)}
    (h : SameOutputs p evals₁ evals₂) (t : D.Transcript) :
    MapAgree p (evals₁.toList.foldl addOutputClaim (⟨∅, [], t⟩ : OutputPoint D)).claims
        (evals₂.toList.foldl addOutputClaim (⟨∅, [], t⟩ : OutputPoint D)).claims ∧
      (evals₁.toList.foldl addOutputClaim (⟨∅, [], t⟩ : OutputPoint D)).transcript =
        (evals₂.toList.foldl addOutputClaim (⟨∅, [], t⟩ : OutputPoint D)).transcript :=
  foldl_addOutputClaim_agree h (MapAgree.refl _ _) rfl rfl

theorem foldl_addOutputClaim_extends {C : Type} {A : Appender D C} {T : TranscriptLog D A}
    (es : List (NodeOutput × PolynomialEvaluation F)) (acc : OutputPoint D) :
    T.Extends acc.transcript (es.foldl addOutputClaim acc).transcript := by
  induction es generalizing acc with
  | nil => exact TranscriptLog.Extends.refl _
  | cons e es ih =>
    have hround : T.Extends acc.transcript (addOutputClaim acc e).transcript :=
      TranscriptLog.readChallenges_extends _ _
    exact hround.trans (ih _)

end Outputs

end ChunkVerifier

/-! ## Merging -/

namespace ChunkVerifier

variable {F C : Type} [Field F] [DecidableEq F] {D : DpCrypto F} {A : Appender D C}
  {T : TranscriptLog D A}

variable {r acc : List (Claim F) × D.Transcript} {proofs : MergeClaimsProof D}

/-- One port: a single claim is handed on, several claims are merged. -/
theorem mergePort_eq_ok {e : PortId × List (Claim F)} (h : mergePort proofs acc e = .ok r) :
    (∃ claim, e.2 = [claim] ∧ r = (acc.1 ++ [claim], acc.2)) ∨
      e.2.length ≠ 1 ∧ ∃ proof merged t, proofs[e.1]? = some proof ∧
        proof.verifyProof e.2 acc.2 = .ok (merged, t) ∧ r = (acc.1 ++ [merged], t) := by
  obtain ⟨port, claims⟩ := e
  unfold mergePort at h
  split at h
  · rename_i claim hclaims
    exact .inl ⟨claim, hclaims, (Except.ok.inj h).symm⟩
  · rename_i hmany
    refine .inr ⟨fun hlen => ?_, ?_⟩
    · obtain ⟨claim, hclaim⟩ := List.length_eq_one_iff.mp hlen
      exact hmany claim hclaim
    · obtain ⟨proof, hproof, h⟩ := Outcome.bind_eq_ok.mp h
      obtain ⟨⟨merged, t⟩, hverify, h⟩ := Outcome.bind_eq_ok.mp h
      exact ⟨proof, merged, t, okOr_eq_ok.mp hproof, hverify, (Except.ok.inj h).symm⟩

theorem mergePort_extends {e : PortId × List (Claim F)} (h : mergePort proofs acc e = .ok r) :
    T.Extends acc.2 r.2 := by
  rcases mergePort_eq_ok h with ⟨_, _, rfl⟩ | ⟨_, _, _, _, _, hverify, rfl⟩
  · exact TranscriptLog.Extends.refl _
  · exact MergeClaimNodeProof.verifyProof_extends T hverify

theorem foldlM_mergePort_extends {es : List (PortId × List (Claim F))}
    (h : es.foldlM (mergePort proofs) acc = .ok r) :
    T.Extends acc.2 r.2 :=
  Outcome.foldlM_back (P := fun a => T.Extends a.2 r.2) h (TranscriptLog.Extends.refl _)
    fun _ _ _ _ hok hr => (mergePort_extends hok).trans hr

/-- The checks of the multiples of one merging: the value of the polynomial is not free. -/
def WeightNonzero (proofs : MergeClaimsProof D) (port : PortId) (claims : List (Claim F))
    (t : D.Transcript) : Prop :=
  ∀ proof merged t', proofs[port]? = some proof →
    MergeClaimNodeProof.verifyProof proof claims t = .ok (merged, t') →
      mergeWeight D claims t merged.point ≠ 0

/-- One port in two runs. -/
theorem mergePort_agree {q : Prop} {proofs₁ proofs₂ : MergeClaimsProof D}
    {a₁ a₂ a₁' a₂' : List (Claim F) × D.Transcript} {e₁ e₂ : PortId × List (Claim F)}
    {whole : List (Entry F C)} (hacc : List.Forall₂ (ClaimAgree q) a₁.1 a₂.1 ∧ a₁.2 = a₂.2)
    (hentry : e₁.1 = e₂.1 ∧ List.Forall₂ (ClaimAgree q) e₁.2 e₂.2) (hne : e₁.2 ≠ [])
    (h₁ : mergePort proofs₁ a₁ e₁ = .ok a₁') (h₂ : mergePort proofs₂ a₂ e₂ = .ok a₂')
    (hw₁ : T.log a₁'.2 <+: whole) (hw₂ : T.log a₂'.2 <+: whole)
    (hweight : q → e₁.2.length ≠ 1 → WeightNonzero proofs₁ e₁.1 e₁.2 a₁.2) :
    List.Forall₂ (ClaimAgree q) a₁'.1 a₂'.1 ∧ a₁'.2 = a₂'.2 := by
  obtain ⟨hclaims, ht⟩ := hacc
  have hlength := hentry.2.length_eq
  rcases mergePort_eq_ok h₁ with ⟨c₁, hc₁, rfl⟩ | ⟨hlen₁, proof₁, merged₁, t₁, hproof₁, hverify₁, rfl⟩
  · rcases mergePort_eq_ok h₂ with ⟨c₂, hc₂, rfl⟩ | ⟨hlen₂, -⟩
    · rw [hc₁, hc₂] at hentry
      exact ⟨List.rel_append hclaims hentry.2, ht⟩
    · rw [hc₁] at hlength
      exact absurd hlength.symm hlen₂
  · rcases mergePort_eq_ok h₂ with ⟨c₂, hc₂, rfl⟩ | ⟨-, proof₂, merged₂, t₂, -, hverify₂, rfl⟩
    · rw [hc₂] at hlength
      exact absurd hlength hlen₁
    · rw [← ht] at hverify₂
      obtain ⟨ht', hpoint⟩ := MergeClaimNodeProof.verifyProof_delimited T hne
        (sameShape_of_agree hentry.2) hverify₁ hverify₂ hw₁ hw₂
      refine ⟨List.rel_append hclaims (.cons ⟨by rw [hpoint], fun hq => ?_⟩ .nil), ht'⟩
      rw [← eq_of_agree hq hentry.2] at hverify₂
      exact (MergeClaimNodeProof.verifyProof_binds T hne hverify₁ hverify₂ hw₁ hw₂
        (hweight hq hlen₁ proof₁ merged₁ t₁ hproof₁ hverify₁)).2

/-- Without a proof there is nothing to merge. -/
theorem verifyMergeClaimsProof_eq_ok {claims : BTreeMap PortId (List (Claim F))}
    {mergeProof : Option (MergeClaimsProof D)} {t : D.Transcript}
    (h : verifyMergeClaimsProof claims mergeProof t = .ok r) :
    claims.toList.foldlM (mergePort (mergeProof.getD ∅)) ([], t) = .ok r := by
  cases mergeProof with
  | some proofs => exact h
  | none =>
    obtain ⟨_, hall, h⟩ := Outcome.bind_eq_ok.mp h
    obtain ⟨merged, hmerged, h⟩ := Outcome.bind_eq_ok.mp h
    rw [← Except.ok.inj h]
    have hsingle : ∀ e ∈ claims.toList, e.2.length = 1 := by
      simpa using ensure_eq_ok.mp hall
    have hgen : ∀ (l : List (PortId × List (Claim F))) (merged acc : List (Claim F)),
        (∀ e ∈ l, e.2.length = 1) →
        (l.mapM fun (e : PortId × List (Claim F)) => unwrap e.2[0]? "index out of bounds") = .ok merged →
        l.foldlM (mergePort (D := D) ∅) (acc, t) = .ok (acc ++ merged, t) := by
      intro l
      induction l with
      | nil =>
        intro merged acc _ hl
        rw [← Except.ok.inj hl]
        show (.ok (acc, t) : Outcome (List (Claim F) × D.Transcript)) = .ok (acc ++ [], t)
        rw [List.append_nil]
      | cons e l ih =>
        intro merged acc hone hl
        obtain ⟨he, hrest⟩ := List.forall_mem_cons.mp hone
        obtain ⟨claim, hclaim⟩ := List.length_eq_one_iff.mp he
        rw [List.mapM_cons, hclaim] at hl
        obtain ⟨_, hc, hl⟩ := Outcome.bind_eq_ok.mp hl
        obtain ⟨merged', hmerged', hl⟩ := Outcome.bind_eq_ok.mp hl
        obtain rfl := Except.ok.inj hc
        obtain rfl := Except.ok.inj hl
        have hround : mergePort (D := D) ∅ (acc, t) e = .ok (acc ++ [claim], t) := by
          rw [mergePort, hclaim]
        rw [List.foldlM_cons, hround, Outcome.ok_bind, ih merged' (acc ++ [claim]) hrest hmerged',
          List.append_assoc, List.singleton_append]
    exact hgen claims.toList merged [] hsingle hmerged

/-- The ports of a node in two runs. -/
theorem foldlM_mergePort_agree {q : Prop} {proofs₁ proofs₂ : MergeClaimsProof D}
    {es₁ es₂ : List (PortId × List (Claim F))} {t : D.Transcript}
    {r₁ r₂ : List (Claim F) × D.Transcript} {whole : List (Entry F C)}
    (hentries : List.Forall₂ (fun e₁ e₂ => e₁.1 = e₂.1 ∧ List.Forall₂ (ClaimAgree q) e₁.2 e₂.2)
      es₁ es₂) (hne : ∀ e ∈ es₁, e.2 ≠ [])
    (h₁ : es₁.foldlM (mergePort proofs₁) ([], t) = .ok r₁)
    (h₂ : es₂.foldlM (mergePort proofs₂) ([], t) = .ok r₂)
    (hw₁ : T.log r₁.2 <+: whole) (hw₂ : T.log r₂.2 <+: whole)
    (hweight : q → ∀ pre e post acc, es₁ = pre ++ e :: post → e.2.length ≠ 1 →
      pre.foldlM (mergePort proofs₁) ([], t) = .ok acc →
      WeightNonzero proofs₁ e.1 e.2 acc.2) :
    List.Forall₂ (ClaimAgree q) r₁.1 r₂.1 ∧ r₁.2 = r₂.2 := by
  refine Outcome.foldlM_rel (P := fun r => T.log r.2 <+: whole)
    (Q := fun r => T.log r.2 <+: whole)
    (motive := fun a₁ a₂ => List.Forall₂ (ClaimAgree q) a₁.1 a₂.1 ∧ a₁.2 = a₂.2)
    hentries h₁ h₂ ⟨.nil, rfl⟩ hw₁ hw₂
    (fun _ _ _ _ hok hw => (mergePort_extends hok).isPrefix hw)
    (fun _ _ _ _ hok hw => (mergePort_extends hok).isPrefix hw) ?_
  intro pre e₁ post e₂ a₁ a₂ a₁' a₂' hes hrun hentry hacc hok₁ hok₂ hgood₁ hgood₂
  have hmem : e₁ ∈ es₁ := by
    rw [hes]
    exact List.mem_append_right _ List.mem_cons_self
  exact mergePort_agree hacc hentry (hne e₁ hmem) hok₁ hok₂ hgood₁ hgood₂ fun hq hlen =>
    hweight hq pre e₁ post a₁ hes hlen hrun

end ChunkVerifier

end DeepProve
