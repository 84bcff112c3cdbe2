import DeepProve.PolyCommit.Binding

/-!
# Where added claims end up

Claims reach the verifier through three methods and leave it through the batching
sumcheck. A claim about the model is lost if its polynomial is not in the context;
a claim about a witness is lost if the same node adds claims again, since
`add_witness_claim` replaces what the node had added before. Nothing else is lost
and nothing is repeated.
-/

namespace DeepProve

open scoped List

namespace CommitmentVerifier

variable {F C Setup : Type}

/-- A call that adds claims. -/
inductive AddCall (F C : Type) where
  | common (claims : List (CommitmentId × List (NodeId × Claim F)))
  | table (tableNodeId : NodeId) (tableName : String) (claim : Claim F)
  | witness (nodeId : NodeId) (claims : List (VerifierClaim F C))

def applyCall (self : CommitmentVerifier F C) : AddCall F C → Outcome (CommitmentVerifier F C)
  | .common claims => self.addCommonClaims claims
  | .table tableNodeId tableName claim => self.addTableClaim tableNodeId tableName claim
  | .witness nodeId claims => .ok (self.addWitnessClaim nodeId claims)

/-- Make the calls one after another. -/
def runCalls (self : CommitmentVerifier F C) (calls : List (AddCall F C)) :
    Outcome (CommitmentVerifier F C) :=
  calls.foldlM applyCall self

/-- The claims of one polynomial's entry, with the polynomial. -/
def entryClaims (entry : CommitmentId × List (NodeId × Claim F)) : List (CommitmentId × Claim F) :=
  entry.2.map fun claim => (entry.1, claim.2)

/-- The claims about the model that a call adds. -/
def AddCall.modelAdded : AddCall F C → List (CommitmentId × Claim F)
  | common claims => claims.flatMap entryClaims
  | table _ tableName claim => [(tablePolyId tableName, claim)]
  | witness _ _ => []

/-- The claims about witnesses that a call adds. -/
def AddCall.witnessAdded : AddCall F C → List (Claim F)
  | witness _ claims => claims.flatMap VerifierClaim.claims
  | _ => []

/-- The claims a call adds. -/
def AddCall.added (call : AddCall F C) : List (Claim F) :=
  call.modelAdded.map Prod.snd ++ call.witnessAdded

/-- The claims held about one polynomial of the model. -/
def polyHeld (entry : CommitmentId × BTreeMap NodeId (Claim F)) : List (CommitmentId × Claim F) :=
  entry.2.values.map (Prod.mk entry.1)

/-- The claims about the model that the verifier holds. -/
def modelHeld (modelClaims : ModelClaims F) : List (CommitmentId × Claim F) :=
  modelClaims.toList.flatMap polyHeld

/-- The claims about witnesses that the verifier holds. -/
def witnessHeld (witnessClaims : BTreeMap NodeId (List (VerifierClaim F C))) : List (Claim F) :=
  witnessClaims.values.flatten.flatMap VerifierClaim.claims

/-- The witness claims of one node. -/
def nodeHeld (witnessClaims : BTreeMap NodeId (List (VerifierClaim F C))) (nodeId : NodeId) :
    List (Claim F) :=
  (witnessClaims[nodeId]?.getD []).flatMap VerifierClaim.claims

/-- The witness claims that calls replace. -/
def replaced (witnessClaims : BTreeMap NodeId (List (VerifierClaim F C))) :
    List (AddCall F C) → List (Claim F)
  | [] => []
  | .witness nodeId claims :: calls =>
    nodeHeld witnessClaims nodeId ++ replaced (witnessClaims.insert nodeId claims) calls
  | _ :: calls => replaced witnessClaims calls

/-! ### Claims about the model -/

/-- Set the claims about one polynomial apart. -/
theorem modelHeld_perm_erase (modelClaims : ModelClaims F) (polyId : CommitmentId) :
    (modelHeld modelClaims).Perm
      (polyHeld (polyId, (modelClaims[polyId]?).getD ∅) ++ modelHeld (modelClaims.erase polyId)) := by
  have h := (modelClaims.toList_perm_erase polyId).flatMap_right polyHeld
  rw [List.flatMap_append] at h
  cases hclaims : modelClaims[polyId]? with
  | none =>
    rw [hclaims] at h
    exact h
  | some claims =>
    rw [hclaims, Option.map_some, Option.toList_some, List.flatMap_singleton] at h
    exact h

theorem modelHeld_insert_perm (modelClaims : ModelClaims F) (polyId : CommitmentId)
    (claims : BTreeMap NodeId (Claim F)) :
    (modelHeld (modelClaims.insert polyId claims)).Perm
      (polyHeld (polyId, claims) ++ modelHeld (modelClaims.erase polyId)) :=
  (modelClaims.toList_insert_perm_erase polyId claims).flatMap_right polyHeld

variable {polyClaims' polyClaims : BTreeMap NodeId (Claim F)}

/-- A claim is inserted under a node that had none. -/
theorem insertModelClaim_values_perm {entry : NodeId × Claim F}
    (h : insertModelClaim polyClaims entry = .ok polyClaims') :
    polyClaims'.values.Perm (entry.2 :: polyClaims.values) := by
  unfold insertModelClaim at h
  split at h
  · next hnone =>
    rw [← Except.ok.inj h, Std.ExtTreeMap.values_eq_map_snd_toList,
      Std.ExtTreeMap.values_eq_map_snd_toList]
    exact (polyClaims.toList_insert_perm entry.2 hnone).map Prod.snd
  · nomatch h

theorem foldlM_insertModelClaim_values_perm (entries : List (NodeId × Claim F))
    (h : entries.foldlM insertModelClaim polyClaims = .ok polyClaims') :
    polyClaims'.values.Perm (entries.map Prod.snd ++ polyClaims.values) := by
  induction entries generalizing polyClaims with
  | nil =>
    rw [← Except.ok.inj h]
    exact List.Perm.refl _
  | cons entry entries ih =>
    rw [List.foldlM_cons, Outcome.bind_eq_ok] at h
    obtain ⟨polyClaims₁, hfirst, hrest⟩ := h
    have hstep := (insertModelClaim_values_perm hfirst).append_left (entries.map Prod.snd)
    apply (ih hrest).trans
    apply hstep.trans
    exact List.perm_middle

variable {self self' : CommitmentVerifier F C}

/-- The claims about one polynomial are added to those held. -/
theorem addPolyClaims_spec {entry : CommitmentId × List (NodeId × Claim F)}
    (h : self.addPolyClaims entry = .ok self') :
    (modelHeld self'.modelClaims).Perm (entryClaims entry ++ modelHeld self.modelClaims) ∧
      self'.witnessClaims = self.witnessClaims := by
  simp only [addPolyClaims, Outcome.bind_eq_ok, Except.ok.injEq] at h
  obtain ⟨polyClaims, hinsert, rfl⟩ := h
  refine ⟨?_, rfl⟩
  have hvalues := (foldlM_insertModelClaim_values_perm _ hinsert).map (Prod.mk entry.1)
  rw [List.map_append, List.map_map] at hvalues
  apply (modelHeld_insert_perm _ _ _).trans
  apply (hvalues.append_right _).trans
  rw [List.append_assoc]
  exact (modelHeld_perm_erase self.modelClaims entry.1).symm.append_left _

theorem addCommonClaims_spec (claims : List (CommitmentId × List (NodeId × Claim F)))
    (h : self.addCommonClaims claims = .ok self') :
    (modelHeld self'.modelClaims).Perm
        (claims.flatMap entryClaims ++ modelHeld self.modelClaims) ∧
      self'.witnessClaims = self.witnessClaims := by
  unfold addCommonClaims at h
  induction claims generalizing self with
  | nil =>
    rw [← Except.ok.inj h]
    exact ⟨List.Perm.refl _, rfl⟩
  | cons entry claims ih =>
    rw [List.foldlM_cons, Outcome.bind_eq_ok] at h
    obtain ⟨self₁, hfirst, hrest⟩ := h
    obtain ⟨hperm, hwitness⟩ := addPolyClaims_spec hfirst
    obtain ⟨hperm', hwitness'⟩ := ih hrest
    refine ⟨?_, hwitness'.trans hwitness⟩
    apply hperm'.trans
    apply (hperm.append_left _).trans
    rw [List.flatMap_cons, ← List.append_assoc]
    exact List.perm_append_comm.append_right _

/-! ### Claims about witnesses -/

/-- The claims a node adds take the place of those it had added. -/
theorem witnessHeld_insert_perm (witnessClaims : BTreeMap NodeId (List (VerifierClaim F C)))
    (nodeId : NodeId) (claims : List (VerifierClaim F C)) :
    (witnessHeld (witnessClaims.insert nodeId claims) ++ nodeHeld witnessClaims nodeId).Perm
      (claims.flatMap VerifierClaim.claims ++ witnessHeld witnessClaims) := by
  have hheld : ∀ m : BTreeMap NodeId (List (VerifierClaim F C)),
      witnessHeld m = m.toList.flatMap fun entry => entry.2.flatMap VerifierClaim.claims := by
    intro m
    rw [witnessHeld, Std.ExtTreeMap.values_eq_map_snd_toList, ← List.flatMap_id, List.flatMap_map,
      List.flatMap_assoc]
    rfl
  have hinsert := (witnessClaims.toList_insert_perm_erase nodeId claims).flatMap_right
    fun entry => entry.2.flatMap VerifierClaim.claims
  have herase := (witnessClaims.toList_perm_erase nodeId).flatMap_right
    fun entry => entry.2.flatMap VerifierClaim.claims
  have hnode : ((witnessClaims[nodeId]?.map (Prod.mk nodeId)).toList.flatMap
      fun entry => entry.2.flatMap VerifierClaim.claims) = nodeHeld witnessClaims nodeId := by
    unfold nodeHeld
    cases witnessClaims[nodeId]? with
    | none => rfl
    | some old => simp
  rw [List.flatMap_append, hnode] at herase
  rw [List.flatMap_cons] at hinsert
  rw [hheld, hheld]
  apply (hinsert.append_right _).trans
  rw [List.append_assoc]
  apply List.Perm.append_left
  exact List.perm_append_comm.trans herase.symm

/-! ### Runs -/

/-- **No claim disappears except by being replaced.** After any calls the verifier
    holds the claims added, less those replaced. -/
theorem runCalls_perm (calls : List (AddCall F C)) (h : self.runCalls calls = .ok self') :
    (modelHeld self'.modelClaims).Perm
        (calls.flatMap AddCall.modelAdded ++ modelHeld self.modelClaims) ∧
      (witnessHeld self'.witnessClaims ++ replaced self.witnessClaims calls).Perm
        (calls.flatMap AddCall.witnessAdded ++ witnessHeld self.witnessClaims) := by
  unfold runCalls at h
  induction calls generalizing self with
  | nil =>
    rw [← Except.ok.inj h]
    refine ⟨List.Perm.refl _, ?_⟩
    rw [replaced, List.append_nil]
    exact List.Perm.refl _
  | cons call calls ih =>
    rw [List.foldlM_cons, Outcome.bind_eq_ok] at h
    obtain ⟨self₁, hfirst, hrest⟩ := h
    obtain ⟨hmodel, hwitness⟩ := ih hrest
    rw [List.flatMap_cons, List.flatMap_cons]
    -- What a call on the model adds comes first instead of last
    have hmodelStep : ∀ added : List (CommitmentId × Claim F),
        (modelHeld self₁.modelClaims).Perm (added ++ modelHeld self.modelClaims) →
        (modelHeld self'.modelClaims).Perm
          ((added ++ calls.flatMap AddCall.modelAdded) ++ modelHeld self.modelClaims) := by
      intro added hadded
      apply hmodel.trans
      apply (hadded.append_left _).trans
      rw [← List.append_assoc]
      exact List.perm_append_comm.append_right _
    cases call with
    | common claims =>
      obtain ⟨hperm, hsame⟩ := addCommonClaims_spec claims hfirst
      rw [hsame] at hwitness
      exact ⟨hmodelStep _ hperm, hwitness⟩
    | table tableNodeId tableName claim =>
      obtain ⟨hperm, hsame⟩ := addPolyClaims_spec hfirst
      rw [hsame] at hwitness
      exact ⟨hmodelStep _ hperm, hwitness⟩
    | witness nodeId claims =>
      have hself := (Except.ok.inj hfirst).symm
      subst hself
      refine ⟨hmodelStep [] (List.Perm.refl _), ?_⟩
      have hinsert := witnessHeld_insert_perm self.witnessClaims nodeId claims
      let later := calls.flatMap AddCall.witnessAdded
      show (witnessHeld self'.witnessClaims ++ (nodeHeld self.witnessClaims nodeId ++
        replaced (self.witnessClaims.insert nodeId claims) calls)).Perm
        ((claims.flatMap VerifierClaim.claims ++ later) ++ witnessHeld self.witnessClaims)
      calc _
        _ ~ (witnessHeld self'.witnessClaims ++
              replaced (self.witnessClaims.insert nodeId claims) calls) ++
            nodeHeld self.witnessClaims nodeId := by
          rw [List.append_assoc]
          exact List.perm_append_comm.append_left _
        _ ~ (later ++ witnessHeld (self.witnessClaims.insert nodeId claims)) ++
            nodeHeld self.witnessClaims nodeId := hwitness.append_right _
        _ ~ later ++ (claims.flatMap VerifierClaim.claims ++ witnessHeld self.witnessClaims) := by
          rw [List.append_assoc]
          exact hinsert.append_left _
        _ ~ _ := by
          rw [← List.append_assoc]
          exact List.perm_append_comm.append_right _

/-! ### What the sumcheck takes in -/

/-- The claims folded into the sumcheck. -/
def foldedClaims (self : CommitmentVerifier F C) (commitCtx : CommitmentVerifierCtx C Setup) :
    List (Claim F) :=
  (self.polys commitCtx).flatMap VerifierClaim.claims

/-- The calls lose no claim: every polynomial of the model with claims is in the
    context, and a node that adds witness claims does not do so again. -/
structure LosesNoClaim (commitCtx : CommitmentVerifierCtx C Setup) (calls : List (AddCall F C)) :
    Prop where
  known : ∀ entry ∈ calls.flatMap AddCall.modelAdded, entry.1 ∈ commitCtx.modelCommitments
  once : calls.Pairwise fun call later => ∀ nodeId claims claims',
    call = .witness nodeId claims → later = .witness nodeId claims' →
      claims.flatMap VerifierClaim.claims = []

/-- The claims of one list entry after another, for those entries that pass a test. -/
theorem flatMap_filter {α β : Type} (p : α → Bool) (g : α → List β) (l : List α) :
    (l.filter p).flatMap g = l.flatMap fun a => if p a then g a else [] := by
  induction l with
  | nil => rfl
  | cons a l ih =>
    rw [List.filter_cons, List.flatMap_cons, ← ih]
    split <;> simp

/-- From the model the claims about polynomials of the context are taken in. -/
theorem modelPolys_claims_perm (modelClaims : ModelClaims F)
    (modelCommitments : BTreeMap CommitmentId (VerifierCommitment C)) :
    (modelPolys modelClaims modelCommitments.toList).flatMap VerifierClaim.claims ~
      ((modelHeld modelClaims).filter fun entry => entry.1 ∈ modelCommitments).map Prod.snd := by
  let found (entry : CommitmentId × VerifierCommitment C) :=
    (modelClaims[entry.1]?).map (Prod.mk entry.1)
  -- the entries of the claims map that the context asks for
  have hfound : modelCommitments.toList.filterMap found ~
      modelClaims.toList.filter fun entry => entry.1 ∈ modelCommitments := by
    have hnodup : (modelCommitments.toList.filterMap found).Nodup := by
      have hkeys : (modelCommitments.toList.map Prod.fst).Nodup := by
        rw [Std.ExtTreeMap.map_fst_toList_eq_keys]
        exact Std.ExtTreeMap.nodup_keys
      apply (List.pairwise_map.mp hkeys).filterMap
      intro entry entry' hne b hb b' hb' heq
      obtain ⟨_, _, rfl⟩ := Option.map_eq_some_iff.mp hb
      obtain ⟨_, _, rfl⟩ := Option.map_eq_some_iff.mp hb'
      exact hne (Prod.mk.inj heq).1
    apply (List.perm_ext_iff_of_nodup hnodup ((Std.ExtTreeMap.nodup_toList _).filter _)).mpr
    intro ⟨polyId, claims⟩
    simp only [List.mem_filterMap, List.mem_filter, Prod.exists, decide_eq_true_eq,
      Std.ExtTreeMap.mem_toList_iff_getElem?_eq_some, found, Option.map_eq_some_iff,
      Prod.mk.injEq, Std.ExtTreeMap.mem_iff_isSome_getElem?, Option.isSome_iff_exists]
    constructor
    · intro ⟨_, comm, hcomm, _, hclaims, hid, hval⟩
      subst hid hval
      exact ⟨hclaims, comm, hcomm⟩
    · intro ⟨hclaims, comm, hcomm⟩
      exact ⟨polyId, comm, hcomm, claims, hclaims, rfl, rfl⟩
  have hclaims : ∀ entries, (modelPolys modelClaims entries).flatMap VerifierClaim.claims =
      (entries.filterMap found).flatMap fun entry => entry.2.values := by
    intro entries
    induction entries with
    | nil => rfl
    | cons entry entries ih =>
      unfold modelPolys at ih ⊢
      simp only [List.filterMap_cons, found]
      cases modelClaims[entry.1]? with
      | none => exact ih
      | some claims =>
        simp only [Option.map_some, List.flatMap_cons]
        rw [ih]
  rw [hclaims]
  apply (hfound.flatMap_right _).trans
  rw [flatMap_filter, modelHeld, List.filter_flatMap, List.map_flatMap]
  apply List.Perm.of_eq
  congr 1
  funext entry
  have hfilter : (polyHeld entry).filter (fun e => e.1 ∈ modelCommitments) =
      if entry.1 ∈ modelCommitments then polyHeld entry else [] := by
    unfold polyHeld
    rw [List.filter_map]
    split
    · next hmem => simp [Function.comp_def, hmem]
    · next hmem => simp [Function.comp_def, hmem]
  rw [hfilter]
  simp only [decide_eq_true_eq]
  split
  · simp [polyHeld, Function.comp_def]
  · rfl

/-- Calls replace no claims exactly if a node with claims is not written again. -/
theorem replaced_eq_nil_iff (calls : List (AddCall F C))
    (witnessClaims : BTreeMap NodeId (List (VerifierClaim F C))) :
    replaced witnessClaims calls = [] ↔
      (∀ nodeId claims, AddCall.witness nodeId claims ∈ calls →
        nodeHeld witnessClaims nodeId = []) ∧
      calls.Pairwise fun call later => ∀ nodeId claims claims',
        call = .witness nodeId claims → later = .witness nodeId claims' →
          claims.flatMap VerifierClaim.claims = [] := by
  induction calls generalizing witnessClaims with
  | nil => simp [replaced]
  | cons call calls ih =>
    rw [List.pairwise_cons]
    cases call with
    | common claims => simp [replaced, ih]
    | table tableNodeId tableName claim => simp [replaced, ih]
    | witness nodeId claims =>
      rw [replaced, List.append_eq_nil_iff, ih]
      -- afterwards the node holds the new claims, every other node what it held
      have hheld : ∀ nodeId', nodeHeld (witnessClaims.insert nodeId claims) nodeId' =
          if nodeId = nodeId' then claims.flatMap VerifierClaim.claims
          else nodeHeld witnessClaims nodeId' := by
        intro nodeId'
        unfold nodeHeld
        rw [Std.ExtTreeMap.getElem?_insert]
        by_cases hid : nodeId = nodeId' <;> simp [hid]
      simp only [hheld]
      constructor
      · intro ⟨hold, hrest, hpairs⟩
        refine ⟨?_, ?_, hpairs⟩
        · intro nodeId' claims' hmem
          rcases List.mem_cons.mp hmem with heq | hmem
          · obtain ⟨rfl, rfl⟩ := AddCall.witness.inj heq
            exact hold
          · have hthis := hrest nodeId' claims' hmem
            split at hthis
            · next hid => rw [← hid]; exact hold
            · exact hthis
        · intro later hlater nodeId' claims₁ claims' hcall heq
          obtain ⟨rfl, rfl⟩ := AddCall.witness.inj hcall
          have hthis := hrest nodeId claims' (heq ▸ hlater)
          rwa [if_pos rfl] at hthis
      · intro ⟨hold, hfirst, hpairs⟩
        refine ⟨hold nodeId claims List.mem_cons_self, ?_, hpairs⟩
        intro nodeId' claims' hmem
        split
        · next hid =>
          subst hid
          exact hfirst _ hmem nodeId claims claims' rfl rfl
        · exact hold nodeId' claims' (List.mem_cons_of_mem _ hmem)

/-- The claims of calls, first those about the model. -/
theorem added_perm (calls : List (AddCall F C)) :
    calls.flatMap AddCall.added ~
      (calls.flatMap AddCall.modelAdded).map Prod.snd ++ calls.flatMap AddCall.witnessAdded := by
  induction calls with
  | nil => exact List.Perm.refl _
  | cons call calls ih =>
    simp only [List.flatMap_cons, List.map_append, AddCall.added, List.append_assoc]
    apply List.Perm.append_left
    apply (ih.append_left _).trans
    rw [← List.append_assoc, ← List.append_assoc]
    exact List.perm_append_comm.append_right _

/-- After calls on a fresh verifier, the claims folded are the claims added exactly
    if the calls lose no claim. -/
theorem foldedClaims_perm_iff {calls : List (AddCall F C)}
    (hcalls : default.runCalls calls = .ok self) (commitCtx : CommitmentVerifierCtx C Setup) :
    foldedClaims self commitCtx ~ calls.flatMap AddCall.added ↔ LosesNoClaim commitCtx calls := by
  let known (entry : CommitmentId × Claim F) : Bool := entry.1 ∈ commitCtx.modelCommitments
  let modelAdded := calls.flatMap AddCall.modelAdded
  let witnessAdded := calls.flatMap AddCall.witnessAdded
  have hadded : calls.flatMap AddCall.added ~ modelAdded.map Prod.snd ++ witnessAdded :=
    added_perm calls
  -- what the verifier holds after the calls, from the accounting over the run
  obtain ⟨hmodel, hwitness⟩ := runCalls_perm calls hcalls
  rw [show modelHeld (default : CommitmentVerifier F C).modelClaims = [] from rfl,
    List.append_nil] at hmodel
  rw [show witnessHeld (default : CommitmentVerifier F C).witnessClaims = [] from rfl,
    List.append_nil] at hwitness
  have hfolded : foldedClaims self commitCtx ~
      (modelAdded.filter known).map Prod.snd ++ witnessHeld self.witnessClaims := by
    rw [foldedClaims, polys, List.flatMap_append]
    apply List.Perm.append_right
    apply (modelPolys_claims_perm _ _).trans
    exact (hmodel.filter known).map Prod.snd
  have honce := replaced_eq_nil_iff calls (default : CommitmentVerifier F C).witnessClaims
  have hdefault : ∀ nodeId,
      nodeHeld (default : CommitmentVerifier F C).witnessClaims nodeId = [] := fun _ => rfl
  constructor
  · intro hperm
    -- nothing can be missing, as the numbers of claims agree
    have hlen := (hfolded.symm.trans (hperm.trans hadded)).length_eq
    have hlen' : _ = witnessAdded.length := hwitness.length_eq
    simp only [List.length_append, List.length_map] at hlen hlen'
    have hle := List.length_filter_le known modelAdded
    have hmodelLen : (modelAdded.filter known).length = modelAdded.length := by omega
    have hreplaced := List.eq_nil_of_length_eq_zero
      (show (replaced (default : CommitmentVerifier F C).witnessClaims calls).length = 0 by omega)
    refine ⟨?_, (honce.mp hreplaced).2⟩
    intro entry hentry
    exact of_decide_eq_true (List.length_filter_eq_length_iff.mp hmodelLen entry hentry)
  · intro hloses
    have hreplaced := honce.mpr ⟨fun nodeId _ _ => hdefault nodeId, hloses.once⟩
    have hfilter : modelAdded.filter known = modelAdded :=
      List.filter_eq_self.mpr fun entry hentry => decide_eq_true (hloses.known entry hentry)
    rw [hreplaced, List.append_nil] at hwitness
    rw [hfilter] at hfolded
    exact hfolded.trans ((hwitness.append_left _).trans hadded.symm)

/-- **No claim is dropped**, exactly if the calls lose none: when `verify` returns,
    the sumcheck was run on the combination of the folded claims. -/
theorem verify_folds_added_claims_iff [CommRing F] [DecidableEq F] {D : DpCrypto F}
    {PCS : CommitmentScheme F D.Transcript} (hD : D.Lawful)
    {calls : List (AddCall F PCS.Commitment)} {self self' : CommitmentVerifier F PCS.Commitment}
    {commitCtx : CommitmentVerifierCtx PCS.Commitment PCS.VerifierSetup}
    {proof : OpeningProof D PCS.Proof} {transcript transcript' : D.Transcript}
    (hcalls : default.runCalls calls = .ok self)
    (hverify : verify D PCS self commitCtx proof transcript = .ok (self', transcript')) :
    (∃ aux c transcript₁ result,
      D.verifySumcheck (claimedSum c ((foldedClaims self commitCtx).map Claim.eval))
        proof.sumcheckProof aux transcript₁ = .ok result) ∧
    (foldedClaims self commitCtx ~ calls.flatMap AddCall.added ↔
      LosesNoClaim commitCtx calls) := by
  refine ⟨?_, foldedClaims_perm_iff hcalls commitCtx⟩
  simp only [verify, Outcome.bind_eq_ok, Prod.exists] at hverify
  obtain ⟨out, self₁, transcript₁, hbatching, -⟩ := hverify
  obtain ⟨_, subclaim, -, hsumcheck, -⟩ := claimsBatchingSumcheck_ok hD rfl hbatching
  exact ⟨_, _, _, _, hsumcheck⟩

section Example

/-- No polynomials of the model. -/
def emptyCtx : CommitmentVerifierCtx (ZMod 5) Unit := ⟨(), ∅⟩

/-- One node adds the claim that the constant `2` is `2`. -/
def claimTwo : AddCall (ZMod 5) (ZMod 5) := .witness 0 [⟨⟨[2], 0⟩, [⟨[], 2⟩]⟩]

/-- The same node adds the claim that the constant `3` is `4`. -/
def claimFour : AddCall (ZMod 5) (ZMod 5) := .witness 0 [⟨⟨[3], 0⟩, [⟨[], 4⟩]⟩]

/-- The verifier after the claim about the constant `2`, whether or not it
    replaced another one. -/
def twoVerifier : CommitmentVerifier (ZMod 5) (ZMod 5) :=
  addWitnessClaim default 0 [⟨⟨[2], 0⟩, [⟨[], 2⟩]⟩]

/-- A single call loses nothing. -/
theorem verify_folds_added_claims_two :
    foldedClaims twoVerifier emptyCtx ~ [claimTwo].flatMap AddCall.added := by
  have hcalls : runCalls default [claimTwo] = .ok twoVerifier := rfl
  have hverify : verify (plainCrypto fun _ => 3) (plainScheme (ZMod 5)) twoVerifier emptyCtx
      ⟨[], [2], ()⟩ [] = .ok (⟨∅, ∅⟩, [2, 3, 2, 3]) := rfl
  apply (verify_folds_added_claims_iff (plainCrypto_lawful fun _ => 3) hcalls hverify).2.mpr
  refine ⟨?_, List.pairwise_singleton _ _⟩
  intro entry hentry
  nomatch hentry

/-- The false claim about the constant `3` is replaced by the true one about `2`:
    both calls return and so does `verify`, which has not seen the false claim. -/
theorem verify_drops_claims :
    runCalls default [claimFour, claimTwo] = .ok twoVerifier ∧
      verify (plainCrypto fun _ => 3) (plainScheme (ZMod 5)) twoVerifier emptyCtx
        ⟨[], [2], ()⟩ [] = .ok (⟨∅, ∅⟩, [2, 3, 2, 3]) ∧
      [claimFour, claimTwo].flatMap AddCall.added = [⟨[], 4⟩, ⟨[], 2⟩] ∧
      foldedClaims twoVerifier emptyCtx = [⟨[], 2⟩] ∧
      ¬ foldedClaims twoVerifier emptyCtx ~ [claimFour, claimTwo].flatMap AddCall.added := by
  refine ⟨rfl, rfl, rfl, rfl, ?_⟩
  intro hperm
  have hlen : 1 = 2 := hperm.length_eq
  omega

end Example

end CommitmentVerifier

end DeepProve
