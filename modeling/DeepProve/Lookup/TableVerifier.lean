import DeepProve.LogUp.Bookkeeping
import DeepProve.Lookup.Context

/-!
# Verification of the tables

`verify_table` of `iop/verifier.rs`. The LogUp argument about the tables leaves one
evaluation for the multiplicities of each table and one for each of its columns. The
first goes to the commitment verifier, and so does that of a committed column; the
others are left to the verifier, which can evaluate these columns itself.
-/

namespace DeepProve

/-- The proof about the tables of a chunk. -/
structure TableProof {F : Type} (D : DpCrypto F) (C : Type) where
  multiplicityCommit : List (VerifierCommitment C)
  lookup : LogUpBatchProof D

section VerifyTable

variable {F C : Type} (fl : Float32Ops)

/-- `point[point_len - nv..]`. -/
def tablePoint (point : List F) (nv : Nat) : Outcome (List F) := do
  let start ← usizeSub point.length nv
  .ok (point.drop start)

/-- What the closure over the tables accumulates: the claims about the multiplicities,
    the number of evaluations that are used up, and the commitment verifier. -/
structure TableAcc (F C : Type) where
  multClaims : List (Claim F)
  skip : Nat
  witnessVerifier : CommitmentVerifier F C

/-- The closure over the tables. -/
def recordTable (polyEvals point : List F) (chunkId : NodeId) (acc : TableAcc F C) (tt : Table) :
    Outcome (TableAcc F C) := do
  let take := tt.numColumns + 1
  let nv := tt.tableBitSize
  let evals := (polyEvals.drop acc.skip).take take
  let multEval ← unwrap evals[0]? "index out of bounds"
  let claimPoint ← tablePoint point nv
  let multClaims := acc.multClaims ++ [⟨claimPoint, multEval⟩]
  if tt.commitOutputColumn then
    let outputEval ← unwrap evals[take - 1]? "index out of bounds"
    let witnessVerifier ←
      acc.witnessVerifier.addTableClaim chunkId (tt.name fl) ⟨claimPoint, outputEval⟩
    .ok ⟨multClaims, acc.skip + take, witnessVerifier⟩
  else
    .ok ⟨multClaims, acc.skip + take, acc.witnessVerifier⟩

variable [CommRing F] [DecidableEq F] (D : DpCrypto F)

/-- `verify_table`. -/
def verifyTable (proof : TableProof D C) (lookupCtx : LookupContext) (chunkId tableNodeId : NodeId)
    (witnessVerifier : CommitmentVerifier F C) (t : D.Transcript)
    (challengeStorage : ChallengeStorage F) : Outcome (CommitmentVerifier F C × D.Transcript) := do
  let instances ← lookupCtx.createLogupVerifierInstances fl challengeStorage
  let (batchClaim, t) ← newVerifyLogupProofMultipleSizes D proof.lookup instances t
  let acc ← lookupCtx.iter.foldlM (recordTable fl batchClaim.polyEvals batchClaim.point chunkId)
    ⟨[], 0, witnessVerifier⟩
  let verifierClaims := (acc.multClaims.zip proof.multiplicityCommit).map
    fun (claim, commitment) => (⟨commitment, [claim]⟩ : VerifierClaim F C)
  .ok (acc.witnessVerifier.addWitnessClaim tableNodeId verifierClaims, t)

end VerifyTable

/-! ## What the LogUp verifier returns for a table -/

section OutputClaims

variable {F : Type} [CommRing F]

/-- The evaluation of the `k`-th polynomial of a table, the multiplicities being the first,
    that the pair of its evaluations in the last round folds to. The claims of the tables
    before it take up `start` places, their pairs twice as many. -/
def foldedEval (batchingChallenge : F) (finalRoundEvals : List F) (numColumns start k : Nat) :
    Option F :=
  match k with
  | 0 => do
    let low ← finalRoundEvals[2 * start]?
    let high ← finalRoundEvals[2 * start + 1]?
    some (LogUpVerifierInstance.foldPair batchingChallenge (low, high))
  | j + 1 => do
    let low ← finalRoundEvals[2 * start + (2 + j)]?
    let high ← finalRoundEvals[2 * start + (2 + numColumns + j)]?
    some (LogUpVerifierInstance.foldPair batchingChallenge (low, high))

variable {sumcheckPoint : List F} {claims : List (Claim F)}

omit [CommRing F] in
theorem eq_map_of_claimsAt {self : LogUpVerifierInstance F} {evals : List F}
    (h : self.claimsAt sumcheckPoint evals = .ok claims) :
    claims = evals.map fun eval => ⟨sumcheckPoint.drop (sumcheckPoint.length - 1 - self.numVars),
      eval⟩ := by
  refine Outcome.eq_map_of_mapM_eq_ok ?_ h
  intro eval claim hclaim
  simp only [LogUpVerifierInstance.finalPoint, Outcome.bind_eq_ok, usizeSub_eq_ok] at hclaim
  obtain ⟨_, ⟨_, ⟨_, rfl⟩, _, ⟨_, rfl⟩, hpoint⟩, hclaim⟩ := hclaim
  rw [← Except.ok.inj hclaim, ← Except.ok.inj hpoint]

/-- The claims of one table, from its block of the last evaluations. -/
theorem finalClaim_table {self : LogUpVerifierInstance F} (htype : self.instanceType = .table)
    {finalRoundEvals : List F} {batchingChallenge : F} {start : Nat}
    (hroom : 2 * start + self.numFinalRoundEvals ≤ finalRoundEvals.length)
    (h : self.finalClaim ((finalRoundEvals.drop (2 * start)).take self.numFinalRoundEvals)
      batchingChallenge sumcheckPoint = .ok claims) :
    claims.length = self.numColumns + 1 ∧ ∀ k ≤ self.numColumns, ∃ eval,
      foldedEval batchingChallenge finalRoundEvals self.numColumns start k = some eval ∧
      claims[k]? = some ⟨sumcheckPoint.drop (sumcheckPoint.length - 1 - self.numVars), eval⟩ := by
  have hwidth : self.numFinalRoundEvals = 2 * (1 + self.numColumns) := by
    simp [LogUpVerifierInstance.numFinalRoundEvals, htype]
  rw [hwidth] at hroom h
  -- the block is two evaluations of the multiplicities and two halves of columns
  generalize hblock : (finalRoundEvals.drop (2 * start)).take (2 * (1 + self.numColumns)) = block at h
  have hlength : block.length = 2 * (1 + self.numColumns) := by
    rw [← hblock, List.length_take, List.length_drop]
    omega
  have hread : ∀ j < 2 * (1 + self.numColumns), finalRoundEvals[2 * start + j]? = block[j]? := by
    intro j hj
    rw [← hblock, List.getElem?_take_of_lt hj, List.getElem?_drop]
  simp only [LogUpVerifierInstance.finalClaim, htype] at h
  rcases block with _ | ⟨multiplicityLow, _ | ⟨multiplicityHigh, columns⟩⟩
  · rw [List.length_nil] at hlength
    omega
  · rw [List.length_singleton] at hlength
    omega
  · simp only [List.length_cons] at hlength
    have hcolumns : columns.length = 2 * self.numColumns := by omega
    dsimp only at h
    rw [if_pos (by omega)] at h
    have hclaims := eq_map_of_claimsAt h
    rw [List.splitAt_eq] at hclaims
    simp only at hclaims
    constructor
    · rw [hclaims]
      simp only [List.length_map, List.length_cons, List.length_zip, List.length_take,
        List.length_drop]
      omega
    · intro k hk
      cases k with
      | zero =>
        refine ⟨_, ?_, by rw [hclaims]; rfl⟩
        have h0 := hread 0 (by omega)
        have h1 := hread 1 (by omega)
        rw [Nat.add_zero] at h0
        simp only [foldedEval, h0, h1]
        rfl
      | succ j =>
        have hj : j < columns.length := by omega
        have hj' : self.numColumns + j < columns.length := by omega
        have hlow : finalRoundEvals[2 * start + (2 + j)]? = some columns[j] := by
          rw [hread _ (by omega), Nat.add_comm 2 j]
          exact List.getElem?_eq_getElem hj
        have hhigh : finalRoundEvals[2 * start + (2 + self.numColumns + j)]? =
            some columns[self.numColumns + j] := by
          rw [hread _ (by omega), Nat.add_assoc, Nat.add_comm 2]
          exact List.getElem?_eq_getElem hj'
        have hzip : ((columns.take self.numColumns).zip (columns.drop self.numColumns))[j]? =
            some (columns[j], columns[self.numColumns + j]) := by
          rw [List.getElem?_zip_eq_some, List.getElem?_take_of_lt (by omega), List.getElem?_drop]
          exact ⟨List.getElem?_eq_getElem hj, List.getElem?_eq_getElem hj'⟩
        refine ⟨LogUpVerifierInstance.foldPair batchingChallenge
          (columns[j], columns[self.numColumns + j]), ?_, ?_⟩
        · simp only [foldedEval, hlow, hhigh]
          rfl
        · rw [hclaims, List.map_cons, List.getElem?_cons_succ, List.getElem?_map,
            List.getElem?_map, hzip]
          rfl

/-- The claim that the LogUp verifier returns for a polynomial. -/
theorem outputClaims_getElem? {finalRoundEvals : List F} {batchingChallenge : F}
    {instances : List (LogUpVerifierInstance F)}
    (htype : ∀ inst ∈ instances, inst.instanceType = .table) {claims' : List (Claim F)}
    {skip' : Nat}
    (h : instances.foldlM (outputClaimsOf finalRoundEvals batchingChallenge sumcheckPoint)
      (claims, 2 * claims.length) = .ok (claims', skip')) :
    claims <+: claims' ∧ ∀ (i : Nat) (inst : LogUpVerifierInstance F) (start : Nat),
      (Blocks.layout (fun inst => inst.numColumns + 1) claims.length instances)[i]? =
        some (inst, start) →
      ∀ k ≤ inst.numColumns, ∃ eval,
        foldedEval batchingChallenge finalRoundEvals inst.numColumns start k = some eval ∧
        claims'[start + k]? =
          some ⟨sumcheckPoint.drop (sumcheckPoint.length - 1 - inst.numVars), eval⟩ := by
  induction instances generalizing claims with
  | nil =>
    obtain ⟨rfl, _⟩ := Prod.mk.inj (Except.ok.inj h)
    exact ⟨List.prefix_rfl, fun i inst start hi => nomatch hi⟩
  | cons inst instances ih =>
    rw [List.foldlM_cons, Outcome.bind_eq_ok] at h
    obtain ⟨⟨claims₁, skip₁⟩, hstep, hrest⟩ := h
    obtain ⟨hinst, htype⟩ := List.forall_mem_cons.mp htype
    simp only [outputClaimsOf] at hstep
    split at hstep
    case isFalse => cases hstep
    case isTrue hroom =>
      rw [Outcome.bind_eq_ok] at hstep
      obtain ⟨new, hnew, hpair⟩ := hstep
      obtain ⟨rfl, rfl⟩ := Prod.mk.inj (Except.ok.inj hpair)
      obtain ⟨hlength, hread⟩ := finalClaim_table hinst hroom hnew
      have hskip : 2 * claims.length + inst.numFinalRoundEvals = 2 * (claims ++ new).length := by
        simp only [LogUpVerifierInstance.numFinalRoundEvals, hinst, List.length_append, hlength]
        omega
      rw [hskip] at hrest
      obtain ⟨hinit, hall⟩ := ih htype hrest
      refine ⟨(List.prefix_append claims new).trans hinit, ?_⟩
      intro i inst' start hi k hk
      cases i with
      | zero =>
        cases hi
        obtain ⟨eval, heval, hclaim⟩ := hread k hk
        refine ⟨eval, heval, ?_⟩
        -- the claims of the first table stay where they are
        obtain ⟨more, hmore⟩ := hinit
        rw [← hmore, List.append_assoc, List.getElem?_append_right (by omega),
          Nat.add_sub_cancel_left, List.getElem?_append_left (by omega), hclaim]
      | succ i =>
        rw [Blocks.layout_cons, List.getElem?_cons_succ, ← hlength, ← List.length_append] at hi
        exact hall i inst' start hi k hk

end OutputClaims

/-! ## What the loop over the tables records -/

section RecordTables

variable {F C : Type} {fl : Float32Ops}

/-- The tables, each with the position of its first claim. -/
def tableBlocks (start : Nat) (tables : List Table) : List (Table × Nat) :=
  Blocks.layout (fun tt => tt.numColumns + 1) start tables

/-- Claims about the model that are there stay there. -/
def KeepsModelClaims (self self' : CommitmentVerifier F C) : Prop :=
  ∀ (polyId : CommitmentId) (nodeId : NodeId) (claim : Claim F),
    (self.modelEntry polyId)[nodeId]? = some claim → (self'.modelEntry polyId)[nodeId]? = some claim

/-- A claim about a table is recorded in addition to those that are there. -/
theorem addTableClaim_eq_ok {self self' : CommitmentVerifier F C} {tableNodeId : NodeId}
    {tableName : String} {claim : Claim F}
    (h : self.addTableClaim tableNodeId tableName claim = .ok self') :
    (self'.modelEntry (tablePolyId tableName))[tableNodeId]? = some claim ∧
      self'.witnessClaims = self.witnessClaims ∧
      KeepsModelClaims self self' := by
  simp only [CommitmentVerifier.addTableClaim, CommitmentVerifier.addPolyClaims,
    List.foldlM_cons, List.foldlM_nil, Outcome.bind_eq_ok] at h
  obtain ⟨polyClaims, ⟨polyClaims', hinsert, hpure⟩, hself⟩ := h
  obtain rfl := Except.ok.inj hpure
  obtain rfl := Except.ok.inj hself
  simp only [CommitmentVerifier.insertModelClaim] at hinsert
  split at hinsert
  case isFalse => cases hinsert
  case isTrue hfresh =>
    obtain rfl := Except.ok.inj hinsert
    refine ⟨by simp [CommitmentVerifier.modelEntry], rfl, ?_⟩
    intro polyId nodeId claim' hclaim
    by_cases hpoly : tablePolyId tableName = polyId
    · subst hpoly
      have hnode : tableNodeId ≠ nodeId := by
        rintro rfl
        rw [hfresh] at hclaim
        cases hclaim
      simp [CommitmentVerifier.modelEntry, Std.ExtTreeMap.getElem?_insert, hnode] at hclaim ⊢
      exact hclaim
    · simpa [CommitmentVerifier.modelEntry, Std.ExtTreeMap.getElem?_insert, hpoly] using hclaim

/-- What is recorded for one table. -/
structure Recorded (fl : Float32Ops) (polyEvals point : List F) (chunkId : NodeId)
    (acc : TableAcc F C) (i : Nat) (tt : Table) (start : Nat) : Prop where
  multiplicity : ∃ eval, polyEvals[start]? = some eval ∧
    acc.multClaims[i]? = some ⟨point.drop (point.length - tt.tableBitSize), eval⟩
  output : tt.commitOutputColumn = true → ∃ eval, polyEvals[start + tt.numColumns]? = some eval ∧
    (acc.witnessVerifier.modelEntry (tablePolyId (tt.name fl)))[chunkId]? =
      some ⟨point.drop (point.length - tt.tableBitSize), eval⟩

/-- One step of the loop. -/
theorem recordTable_eq_ok {polyEvals point : List F} {chunkId : NodeId} {acc acc' : TableAcc F C}
    {tt : Table} (h : recordTable fl polyEvals point chunkId acc tt = .ok acc') :
    acc'.skip = acc.skip + (tt.numColumns + 1) ∧
      acc'.multClaims.length = acc.multClaims.length + 1 ∧
      Recorded fl polyEvals point chunkId acc' acc.multClaims.length tt acc.skip ∧
      acc.multClaims <+: acc'.multClaims ∧
      acc'.witnessVerifier.witnessClaims = acc.witnessVerifier.witnessClaims ∧
      KeepsModelClaims acc.witnessVerifier acc'.witnessVerifier := by
  simp only [recordTable, tablePoint, Outcome.bind_eq_ok, unwrap_eq_ok, usizeSub_eq_ok] at h
  obtain ⟨multEval, hmult, claimPoint, ⟨_, ⟨_, rfl⟩, hpoint⟩, h⟩ := h
  obtain rfl := Except.ok.inj hpoint
  rw [List.getElem?_take_of_lt (by omega), List.getElem?_drop, Nat.add_zero] at hmult
  split at h
  case isTrue hcommit =>
    simp only [Outcome.bind_eq_ok, unwrap_eq_ok] at h
    obtain ⟨outputEval, houtput, verifier, hadd, hacc⟩ := h
    obtain rfl := Except.ok.inj hacc
    rw [List.getElem?_take_of_lt (by omega), List.getElem?_drop, Nat.add_sub_cancel] at houtput
    obtain ⟨hrecorded, hwitness, hkeep⟩ := addTableClaim_eq_ok hadd
    exact ⟨rfl, by simp, ⟨⟨multEval, hmult, by simp⟩, fun _ => ⟨outputEval, houtput, hrecorded⟩⟩,
      List.prefix_append _ _, hwitness, hkeep⟩
  case isFalse hcommit =>
    obtain rfl := Except.ok.inj h
    exact ⟨rfl, by simp, ⟨⟨multEval, hmult, by simp⟩, fun hcommit' => absurd hcommit' hcommit⟩,
      List.prefix_append _ _, rfl, fun _ _ _ hclaim => hclaim⟩

/-- The whole loop: every table is recorded. -/
theorem recordTables {polyEvals point : List F} {chunkId : NodeId} {tables : List Table}
    {acc acc' : TableAcc F C}
    (h : tables.foldlM (recordTable fl polyEvals point chunkId) acc = .ok acc') :
    acc'.multClaims.length = acc.multClaims.length + tables.length ∧
      acc.multClaims <+: acc'.multClaims ∧
      KeepsModelClaims acc.witnessVerifier acc'.witnessVerifier ∧
      ∀ (i : Nat) (tt : Table) (start : Nat), (tableBlocks acc.skip tables)[i]? = some (tt, start) →
        Recorded fl polyEvals point chunkId acc' (acc.multClaims.length + i) tt start := by
  induction tables generalizing acc with
  | nil =>
    obtain rfl := Except.ok.inj h
    exact ⟨rfl, List.prefix_rfl, fun _ _ _ hclaim => hclaim, fun i tt start hi => nomatch hi⟩
  | cons tt tables ih =>
    rw [List.foldlM_cons, Outcome.bind_eq_ok] at h
    obtain ⟨acc₁, hstep, hrest⟩ := h
    obtain ⟨hskip, hlength, hrecorded, hinit, _, hkeep⟩ := recordTable_eq_ok hstep
    obtain ⟨hlength', hinit', hkeep', hall⟩ := ih hrest
    refine ⟨by rw [hlength', hlength, List.length_cons]; omega, hinit.trans hinit',
      fun _ _ _ hclaim => hkeep' _ _ _ (hkeep _ _ _ hclaim), ?_⟩
    intro i tt' start hi
    cases i with
    | zero =>
      cases hi
      obtain ⟨⟨eval, heval, hclaim⟩, houtput⟩ := hrecorded
      constructor
      · refine ⟨eval, heval, ?_⟩
        obtain ⟨hlt, hget⟩ := List.getElem?_eq_some_iff.mp hclaim
        rw [Nat.add_zero, List.prefix_iff_getElem?.mp hinit' _ hlt, hget]
      · intro hcommit
        obtain ⟨eval, heval, hclaim⟩ := houtput hcommit
        exact ⟨eval, heval, hkeep' _ _ _ hclaim⟩
    | succ i =>
      rw [tableBlocks, Blocks.layout_cons, List.getElem?_cons_succ, ← hskip] at hi
      have hrec := hall i tt' start hi
      rwa [hlength, Nat.add_assoc, Nat.add_comm 1 i] at hrec

end RecordTables

/-! ## When every evaluation is taken care of -/

section Discharge

variable {F C : Type} [CommRing F] [DecidableEq F] (fl : Float32Ops) (D : DpCrypto F)

/-- The columns of a table that are not committed. -/
def uncommittedColumns (tt : Table) : List Nat :=
  List.range (if tt.commitOutputColumn then tt.numColumns - 1 else tt.numColumns)

omit [DecidableEq F] in
/-- What has to happen to the evaluations of a table which the LogUp argument has been
    reduced to, `outputClaims` from position `start` on: the multiplicities and the
    committed column are recorded, the other columns have the right value. -/
structure TableDischarged (multiplicityCommit : List (VerifierCommitment C))
    (chunkId tableNodeId : NodeId) (outputClaims : List (Claim F))
    (witnessVerifier : CommitmentVerifier F C) (i : Nat) (tt : Table) (start : Nat) : Prop where
  multiplicity : ∃ claim commitment recorded, outputClaims[start]? = some claim ∧
    multiplicityCommit[i]? = some commitment ∧
    witnessVerifier.witnessClaims[tableNodeId]? = some recorded ∧
    recorded[i]? = some ⟨commitment, [claim]⟩
  output : tt.commitOutputColumn = true → ∃ claim, outputClaims[start + tt.numColumns]? = some claim ∧
    (witnessVerifier.modelEntry (tablePolyId (tt.name fl)))[chunkId]? = some claim
  columns : ∀ j ∈ uncommittedColumns tt, ∃ claim values, outputClaims[start + (j + 1)]? = some claim ∧
    tt.evaluateTableColumns claim.point = .ok values ∧ values[j]? = some claim.eval

variable (proof : TableProof D C) (lookupCtx : LookupContext) (chunkId tableNodeId : NodeId)
  (t : D.Transcript) (challengeStorage : ChallengeStorage F)

/-- Every table is taken care of. -/
def TablesDischarged (witnessVerifier : CommitmentVerifier F C) : Prop :=
  ∀ instances batchClaim t',
    lookupCtx.createLogupVerifierInstances fl challengeStorage = .ok instances →
    newVerifyLogupProofMultipleSizes D proof.lookup instances t = .ok (batchClaim, t') →
    ∀ (i : Nat) (tt : Table) (start : Nat),
      (tableBlocks 0 lookupCtx.iter)[i]? = some (tt, start) →
      TableDischarged fl proof.multiplicityCommit chunkId tableNodeId batchClaim.outputClaims
        witnessVerifier i tt start

omit [DecidableEq F] in
/-- What the evaluations of the last round and those beside the proof must be like for one
    table. -/
structure TableComplies (lookup : LogUpBatchProof D) (batchingChallenge : F)
    (sumcheckPoint finalRoundEvals : List F) (tt : Table) (start : Nat) : Prop where
  /-- The evaluation beside the proof is the one that the last round gives, -/
  multiplicity : (lookup.outputClaims[start]?).map Claim.eval =
    foldedEval batchingChallenge finalRoundEvals tt.numColumns start 0
  output : tt.commitOutputColumn = true →
    (lookup.outputClaims[start + tt.numColumns]?).map Claim.eval =
      foldedEval batchingChallenge finalRoundEvals tt.numColumns start tt.numColumns
  /-- and for the columns that are not committed the last round gives their true value. -/
  columns : ∀ j ∈ uncommittedColumns tt, ∃ values,
    tt.evaluateTableColumns (sumcheckPoint.drop (sumcheckPoint.length - tt.tableBitSize)) =
      .ok values ∧
    values[j]? = foldedEval batchingChallenge finalRoundEvals tt.numColumns start (j + 1)

/-- The condition on the proof. -/
structure TablesComply : Prop where
  commitments : lookupCtx.iter.length ≤ proof.multiplicityCommit.length
  tables : ∀ instances state finalRoundEvals,
    lookupCtx.createLogupVerifierInstances fl challengeStorage = .ok instances →
    roundState D proof.lookup instances t proof.lookup.proofsAndEvals.length = .ok state →
    proof.lookup.roundEvaluations.getLast? = some finalRoundEvals →
    ∀ (i : Nat) (tt : Table) (start : Nat),
      (tableBlocks 0 lookupCtx.iter)[i]? = some (tt, start) →
      TableComplies D proof.lookup state.batchingChallenge state.sumcheckPoint finalRoundEvals tt
        start

variable {fl D proof lookupCtx chunkId tableNodeId t challengeStorage}
variable {multiplicityCommit : List (VerifierCommitment C)}
variable {instances : List (LogUpVerifierInstance F)}

/-- The columns that are not committed are columns. -/
theorem lt_of_mem_uncommittedColumns {tt : Table} {j : Nat} (h : j ∈ uncommittedColumns tt) :
    j < tt.numColumns := by
  simp only [uncommittedColumns, List.mem_range] at h
  split at h <;> omega

omit [DecidableEq F] in
/-- The claims that the LogUp verifier returns for a table. -/
theorem outputClaims_table
    (hinstances : lookupCtx.createLogupVerifierInstances fl challengeStorage = .ok instances)
    {evals sumcheckPoint : List F} {batchingChallenge : F} {claims : List (Claim F)} {skip : Nat}
    (hclaims : instances.foldlM (outputClaimsOf evals batchingChallenge sumcheckPoint) ([], 0) =
      .ok (claims, skip)) {i : Nat} {tt : Table} {start : Nat}
    (hblock : (tableBlocks 0 lookupCtx.iter)[i]? = some (tt, start)) {k : Nat}
    (hk : k ≤ tt.numColumns) :
    ∃ eval, foldedEval batchingChallenge evals tt.numColumns start k = some eval ∧
      claims[start + k]? =
        some ⟨sumcheckPoint.drop (sumcheckPoint.length - tt.tableBitSize), eval⟩ := by
  have htype : ∀ inst ∈ instances, inst.instanceType = .table := by
    intro inst hinst
    obtain ⟨table, _, hok⟩ := Outcome.exists_of_mem_mapM_eq_ok hinstances hinst
    exact (LookupContext.logupVerifierInstance_eq_ok hok).1
  have hwidth : ∀ table inst,
      LookupContext.logupVerifierInstance fl challengeStorage table = .ok inst →
      table.numColumns + 1 = inst.numColumns + 1 := by
    intro table inst hok
    rw [(LookupContext.logupVerifierInstance_eq_ok hok).2.1]
  obtain ⟨inst, hinst, hok⟩ := Blocks.exists_layout_of_forall₂ hwidth
    (Outcome.forall₂_of_mapM_eq_ok hinstances) hblock
  obtain ⟨_, hcolumns, hbits⟩ := LookupContext.logupVerifierInstance_eq_ok hok
  rw [← hcolumns, hbits, Nat.add_comm inst.numVars 1, ← Nat.sub_sub]
  exact (outputClaims_getElem? htype hclaims).2 i inst start hinst k (by omega)

omit [CommRing F] [DecidableEq F] in
/-- The claims about multiplicities that leave `verify_table`, given those of the loop. -/
theorem getElem?_verifierClaims {multClaims : List (Claim F)} {i : Nat}
    {recorded : VerifierClaim F C} :
    ((multClaims.zip multiplicityCommit).map fun (claim, commitment) =>
        (⟨commitment, [claim]⟩ : VerifierClaim F C))[i]? = some recorded ↔
      ∃ claim commitment, multClaims[i]? = some claim ∧ multiplicityCommit[i]? = some commitment ∧
        ⟨commitment, [claim]⟩ = recorded := by
  simp only [List.getElem?_map, Option.map_eq_some_iff, Prod.exists, List.getElem?_zip_eq_some]
  constructor
  · intro ⟨claim, commitment, ⟨hclaim, hcommitment⟩, hrecorded⟩
    exact ⟨claim, commitment, hclaim, hcommitment, hrecorded⟩
  · intro ⟨claim, commitment, hclaim, hcommitment, hrecorded⟩
    exact ⟨claim, commitment, ⟨hclaim, hcommitment⟩, hrecorded⟩

omit [DecidableEq F] in
/-- One table with a commitment to its multiplicities. -/
theorem tableDischarged_iff {lookup : LogUpBatchProof D} {outputClaims : List (Claim F)}
    {batchingChallenge : F} {sumcheckPoint evals : List F} {acc : TableAcc F C}
    {witnessVerifier : CommitmentVerifier F C} {i : Nat} {tt : Table} {start : Nat}
    (hclaims : ∀ k ≤ tt.numColumns, ∃ eval,
      foldedEval batchingChallenge evals tt.numColumns start k = some eval ∧
      outputClaims[start + k]? =
        some ⟨sumcheckPoint.drop (sumcheckPoint.length - tt.tableBitSize), eval⟩)
    (hrecorded : Recorded fl (lookup.outputClaims.map Claim.eval) sumcheckPoint chunkId acc i tt
      start) (hwitness : witnessVerifier.witnessClaims[tableNodeId]? = some
      ((acc.multClaims.zip multiplicityCommit).map fun (claim, commitment) =>
        (⟨commitment, [claim]⟩ : VerifierClaim F C)))
    (hmodel : witnessVerifier.modelEntry = acc.witnessVerifier.modelEntry)
    (hi : i < multiplicityCommit.length) :
    TableDischarged fl multiplicityCommit chunkId tableNodeId outputClaims witnessVerifier i tt
        start ↔
      TableComplies D lookup batchingChallenge sumcheckPoint evals tt start := by
  obtain ⟨⟨multEval, hmultEval, hmultClaim⟩, houtput⟩ := hrecorded
  rw [List.getElem?_map] at hmultEval
  obtain ⟨multFolded, hmultFolded, hmultOut⟩ := hclaims 0 (Nat.zero_le _)
  rw [Nat.add_zero] at hmultOut
  constructor
  · intro hdischarged
    constructor
    case multiplicity =>
      obtain ⟨claim, commitment, recorded, hclaim, _, hrecorded, hat⟩ := hdischarged.multiplicity
      obtain rfl := Option.some.inj (hwitness.symm.trans hrecorded)
      obtain ⟨claim', _, hclaim', _, heq⟩ := getElem?_verifierClaims.mp hat
      obtain ⟨_, hlist⟩ := VerifierClaim.mk.inj heq
      obtain ⟨rfl, _⟩ := List.cons.inj hlist
      -- the claim is both the one recorded and the one returned
      rw [hmultClaim] at hclaim'
      rw [hmultOut, ← hclaim', Option.some.injEq] at hclaim
      rw [hmultEval, hmultFolded, (Claim.mk.inj hclaim).2]
    case output =>
      intro hcommit
      obtain ⟨claim, hclaim, hat⟩ := hdischarged.output hcommit
      obtain ⟨eval, heval, hat'⟩ := houtput hcommit
      obtain ⟨folded, hfolded, hout⟩ := hclaims tt.numColumns (Nat.le_refl _)
      rw [List.getElem?_map] at heval
      rw [hmodel, hat', ← hclaim, hout, Option.some.injEq] at hat
      rw [heval, hfolded, (Claim.mk.inj hat).2]
    case columns =>
      intro j hj
      obtain ⟨claim, values, hclaim, hvalues, hat⟩ := hdischarged.columns j hj
      obtain ⟨folded, hfolded, hout⟩ := hclaims (j + 1) (lt_of_mem_uncommittedColumns hj)
      obtain rfl := Option.some.inj (hout.symm.trans hclaim)
      exact ⟨values, hvalues, hat.trans hfolded.symm⟩
  · intro hcomplies
    constructor
    case multiplicity =>
      have hfolded := hcomplies.multiplicity
      rw [hmultEval, hmultFolded] at hfolded
      obtain rfl := Option.some.inj hfolded
      have hcommitment := List.getElem?_eq_getElem hi
      exact ⟨_, _, _, hmultOut, hcommitment, hwitness,
        getElem?_verifierClaims.mpr ⟨_, _, hmultClaim, hcommitment, rfl⟩⟩
    case output =>
      intro hcommit
      obtain ⟨eval, heval, hat⟩ := houtput hcommit
      obtain ⟨folded, hfolded, hout⟩ := hclaims tt.numColumns (Nat.le_refl _)
      have hsame := hcomplies.output hcommit
      rw [List.getElem?_map] at heval
      rw [heval, hfolded] at hsame
      obtain rfl := Option.some.inj hsame
      exact ⟨_, hout, by rw [hmodel, hat]⟩
    case columns =>
      intro j hj
      obtain ⟨values, hvalues, hat⟩ := hcomplies.columns j hj
      obtain ⟨folded, hfolded, hout⟩ := hclaims (j + 1) (lt_of_mem_uncommittedColumns hj)
      exact ⟨_, values, hout, hvalues, hat.trans hfolded⟩

/-- A run of `verify_table` that returned has taken care of every table exactly if the
    proof complies. -/
theorem verifyTable_discharges_iff {witnessVerifier witnessVerifier' : CommitmentVerifier F C}
    {t' : D.Transcript}
    (h : verifyTable fl D proof lookupCtx chunkId tableNodeId witnessVerifier t challengeStorage =
      .ok (witnessVerifier', t')) :
    TablesDischarged fl D proof lookupCtx chunkId tableNodeId t challengeStorage
        witnessVerifier' ↔
      TablesComply fl D proof lookupCtx t challengeStorage := by
  simp only [verifyTable, Outcome.bind_eq_ok] at h
  obtain ⟨instances, hinstances, ⟨batchClaim, t''⟩, hlogup, acc, hacc, hout⟩ := h
  obtain ⟨hverifier, rfl⟩ := Prod.mk.inj (Except.ok.inj hout)
  obtain ⟨state, evals, skip, hstate, hevals, hclaims, hpolyEvals, hpoint⟩ :=
    newVerifyLogupProofMultipleSizes_run hlogup
  obtain ⟨_, _, _, hrecorded⟩ := recordTables hacc
  rw [hpolyEvals, hpoint] at hrecorded
  simp only [List.length_nil, Nat.zero_add] at hrecorded
  -- what the last two steps leave in the commitment verifier
  have hwitness : witnessVerifier'.witnessClaims[tableNodeId]? = some
      ((acc.multClaims.zip proof.multiplicityCommit).map fun (claim, commitment) =>
        (⟨commitment, [claim]⟩ : VerifierClaim F C)) := by
    rw [← hverifier]
    simp [CommitmentVerifier.addWitnessClaim]
  have hmodel : witnessVerifier'.modelEntry = acc.witnessVerifier.modelEntry := by
    rw [← hverifier]
    rfl
  have htable : ∀ (i : Nat) (tt : Table) (start : Nat),
      (tableBlocks 0 lookupCtx.iter)[i]? = some (tt, start) → i < proof.multiplicityCommit.length →
      (TableDischarged fl proof.multiplicityCommit chunkId tableNodeId batchClaim.outputClaims
          witnessVerifier' i tt start ↔
        TableComplies D proof.lookup state.batchingChallenge state.sumcheckPoint evals tt start) :=
    fun i tt start hblock hi => tableDischarged_iff
      (fun k hk => outputClaims_table hinstances hclaims hblock hk)
      (hrecorded i tt start hblock) hwitness hmodel hi
  have hblocks : (tableBlocks 0 lookupCtx.iter).length = lookupCtx.iter.length :=
    Blocks.length_layout _ _ _
  constructor
  · intro hdischarged
    have hcommitments : lookupCtx.iter.length ≤ proof.multiplicityCommit.length := by
      apply Nat.le_of_not_lt
      intro hlt
      -- the first table without a commitment
      have hblock := List.getElem?_eq_getElem (hblocks.symm ▸ hlt)
      obtain ⟨_, _, _, _, hnone, _⟩ :=
        (hdischarged instances batchClaim t'' hinstances hlogup _ _ _ hblock).multiplicity
      rw [List.getElem?_eq_none (Nat.le_refl _)] at hnone
      cases hnone
    refine ⟨hcommitments, ?_⟩
    intro instances' state' evals' hinstances' hstate' hevals' i tt start hblock
    obtain rfl := Except.ok.inj (hinstances.symm.trans hinstances')
    obtain rfl := Except.ok.inj (hstate.symm.trans hstate')
    obtain rfl := Option.some.inj (hevals.symm.trans hevals')
    have hi := (List.getElem?_eq_some_iff.mp hblock).1
    exact (htable i tt start hblock (by omega)).mp
      (hdischarged instances batchClaim t'' hinstances hlogup i tt start hblock)
  · intro hcomply instances' batchClaim' t₁ hinstances' hlogup' i tt start hblock
    obtain rfl := Except.ok.inj (hinstances.symm.trans hinstances')
    obtain ⟨rfl, _⟩ := Prod.mk.inj (Except.ok.inj (hlogup.symm.trans hlogup'))
    have hi := (List.getElem?_eq_some_iff.mp hblock).1
    have hle := hcomply.commitments
    exact (htable i tt start hblock (by omega)).mpr
      (hcomply.tables instances state evals hinstances hstate hevals i tt start hblock)

end Discharge

/-! ## A table of four values -/

section FourValues

/-- Every challenge is `3`. -/
abbrev constantCrypto : DpCrypto (ZMod 5) := plainCrypto fun _ => (3 : ZMod 5)

/-- Of the float operations only the display of `1.0` is used. -/
def noFloats : Float32Ops where
  F32 := UInt32
  fromBits bits := bits
  ofElement _ := 0
  div x _ := x
  mul x _ := x
  exp x := x
  geluFloat x := x
  siluFloat x := x
  roundTiesEven x := x
  toElement _ := 0
  display bits := if bits = oneBits then "1" else ""

/-- The values from -2 to 1. -/
def fourValues : Table := Table.newRequantise 2

def fourValuesCtx : LookupContext := ⟨(∅ : BTreeMap Table (List NodeId)).insert fourValues [0]⟩

def fourValuesChallenges : ChallengeStorage (ZMod 5) :=
  ⟨3, (∅ : HashMap String (ZMod 5)).insert (fourValues.name noFloats) 1⟩

/-- The proof that every value is looked up once, given the polynomial of the only round,
    the two evaluations of the column and the evaluation it folds to. -/
def fourValuesProof (round : ZMod 5 → ZMod 5) (low high folded : ZMod 5) :
    TableProof constantCrypto Unit where
  multiplicityCommit := [⟨[()], 2⟩]
  lookup :=
    { sumcheckProofs := [[round]]
      roundEvaluations := [[1, 1, low, high]]
      outputClaims := [⟨[3, 3], 1⟩, ⟨[3, 3], folded⟩]
      circuitOutputs := [[4, 1, 3, 3]] }

def fourValuesInstance : LogUpVerifierInstance (ZMod 5) := ⟨3, 1, 1, .table, 1⟩

theorem fourValues_iter : fourValuesCtx.iter = [fourValues] := by decide

theorem fourValues_instances :
    fourValuesCtx.createLogupVerifierInstances noFloats fourValuesChallenges =
      .ok [fourValuesInstance] := by
  have hchallenges : fourValuesChallenges.getChallengesByName (fourValues.name noFloats) =
      some (3, 1) := by
    simp [ChallengeStorage.getChallengesByName, fourValuesChallenges]
  simp only [LookupContext.createLogupVerifierInstances, fourValues_iter, List.mapM_cons, List.mapM_nil,
    LookupContext.logupVerifierInstance, hchallenges]
  rfl

/-- What the commitment verifier holds afterwards. -/
def fourValuesVerifier : CommitmentVerifier (ZMod 5) Unit :=
  CommitmentVerifier.default.addWitnessClaim 7 [⟨⟨[()], 2⟩, [⟨[3, 3], 1⟩]⟩]

/-- The honest proof. -/
abbrev honestFourValues : TableProof constantCrypto Unit :=
  fourValuesProof (fun x => 4 + 2 * x + 4 * x ^ 2) 1 3 2

theorem honestFourValues_verified :
    verifyTable noFloats constantCrypto honestFourValues fourValuesCtx 0 7
      CommitmentVerifier.default [] fourValuesChallenges =
        .ok (fourValuesVerifier, [1, 4, 1, 3, 3, 3, 3, 3, 4, 4, 0, 3]) := by
  rw [verifyTable, fourValues_instances]
  rfl

theorem honestFourValues_complies :
    TablesComply noFloats constantCrypto honestFourValues fourValuesCtx [] fourValuesChallenges where
  commitments := by decide
  tables := by
    intro instances state evals hinstances hstate hevals i tt start hblock
    obtain rfl := Except.ok.inj (fourValues_instances.symm.trans hinstances)
    have hrun : roundState constantCrypto honestFourValues.lookup [fourValuesInstance] [] 1 =
        .ok ⟨[1, 4, 1, 3, 3, 3, 3, 3, 4, 4, 0, 3], 3, 3, 3, [3, 3]⟩ := by rfl
    obtain rfl := Except.ok.inj (hrun.symm.trans hstate)
    cases hevals
    rw [fourValues_iter] at hblock
    match i with
    | 0 =>
      cases hblock
      constructor
      case multiplicity => rfl
      case output => exact fun hcommit => nomatch hcommit
      case columns =>
        intro j hj
        obtain rfl : j = 0 := List.mem_singleton.mp hj
        exact ⟨[2], rfl, rfl⟩
    | i + 1 => cases hblock

/-- The honest proof takes care of the table. -/
theorem verifyTable_discharges_fourValues :
    TablesDischarged noFloats constantCrypto honestFourValues fourValuesCtx 0 7 []
      fourValuesChallenges fourValuesVerifier :=
  (verifyTable_discharges_iff honestFourValues_verified).mpr honestFourValues_complies

/-- A proof about a column of zeros. -/
abbrev zeroColumn : TableProof constantCrypto Unit :=
  fourValuesProof (fun x => 4 + 4 * x + 2 * x ^ 2) 0 0 0

/-- **A wrong column is accepted.** Its evaluation is `0`, that of the table's column `2`. -/
theorem verifyTable_accepts_zeroColumn :
    verifyTable noFloats constantCrypto zeroColumn fourValuesCtx 0 7 CommitmentVerifier.default []
        fourValuesChallenges =
          .ok (fourValuesVerifier, [1, 4, 1, 3, 3, 3, 3, 3, 4, 4, 0, 3]) ∧
      ¬ TablesDischarged noFloats constantCrypto zeroColumn fourValuesCtx 0 7 []
        fourValuesChallenges fourValuesVerifier := by
  constructor
  · rw [verifyTable, fourValues_instances]
    rfl
  · intro hdischarged
    have hrun : newVerifyLogupProofMultipleSizes constantCrypto zeroColumn.lookup
        [fourValuesInstance] [] = .ok (⟨0, [⟨[3, 3], 1⟩, ⟨[3, 3], 0⟩], [3, 3], [1, 0], [0], [4]⟩,
          [1, 4, 1, 3, 3, 3, 3, 3, 4, 4, 0, 3]) := by rfl
    have hblock : (tableBlocks 0 fourValuesCtx.iter)[0]? = some (fourValues, 0) := by
      rw [fourValues_iter]
      rfl
    have htable := hdischarged _ _ _ fourValues_instances hrun 0 fourValues 0 hblock
    obtain ⟨claim, values, hclaim, hvalues, heval⟩ := htable.columns 0 (by decide)
    cases hclaim
    have htrue : fourValues.evaluateTableColumns [(3 : ZMod 5), 3] = .ok [2] := by rfl
    obtain rfl := Except.ok.inj (htrue.symm.trans hvalues)
    revert heval
    decide

end FourValues

end DeepProve
