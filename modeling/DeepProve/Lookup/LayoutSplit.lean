import DeepProve.Lookup.LayoutAgree
import DeepProve.Lookup.LookupVerifier

/-!
# How the evaluations and the fractions of a lookup layer are split

The evaluations of a chunk are split in the same way where the sumcheck is prepared and where
the claims are made. Each fraction is charged to the table that its instance looks values up in.
-/

namespace DeepProve

/-! ## The evaluations of a chunk -/
section Split

variable {chunkedOutput : ChunkedOutput} {α : Type} {chunkedInput : ChunkedInput}
variable {xs : List α} {size : Nat}

/-- The two parts of a list. -/
theorem parts_of_splitAtMid {ys zs : List α} {m n : Nat} (hlength : xs.length = m + n)
    (h : splitAtMid xs m = .ok (ys, zs)) : ys.length = m ∧ zs.length = n ∧ xs = ys ++ zs := by
  obtain ⟨_, rfl, rfl⟩ := splitAtMid_eq_ok.mp h
  refine ⟨?_, ?_, (List.take_append_drop _ _).symm⟩
  · rw [List.length_take]
    omega
  · rw [List.length_drop]
    omega

theorem exists_splitAtMid {m n : Nat} (hlength : xs.length = m + n) :
    ∃ ys zs, splitAtMid xs m = .ok (ys, zs) ∧ ys.length = m ∧ zs.length = n := by
  have hsplit := splitAtMid_eq_ok.mpr ⟨show m ≤ xs.length by omega, rfl, rfl⟩
  obtain ⟨hys, hzs, _⟩ := parts_of_splitAtMid hlength hsplit
  exact ⟨_, _, hsplit, hys, hzs⟩

theorem stepBy_two_cons (a b : α) (rest : List α) :
    stepBy (a :: b :: rest) 2 = a :: stepBy rest 2 := by
  have hentry : ∀ i, (a :: b :: rest)[(i + 1) * 2]? = rest[i * 2]? := by
    intro i
    rw [Nat.add_mul]
    rfl
  have hlast : rest[rest.length * 2]? = none := List.getElem?_eq_none (by omega)
  have hsame : (List.range rest.length).filterMap
      ((fun i => (a :: b :: rest)[i * 2]?) ∘ Nat.succ) =
        (List.range rest.length).filterMap fun i => rest[i * 2]? :=
    List.filterMap_congr fun i _ => hentry i
  have hend : [rest.length].filterMap ((fun i => (a :: b :: rest)[i * 2]?) ∘ Nat.succ) = [] := by
    rw [List.filterMap_eq_nil_iff, List.forall_mem_singleton]
    exact (hentry _).trans hlast
  unfold stepBy
  rw [List.length_cons, List.length_cons, List.range_succ_eq_map, ← hsame,
    ← List.append_nil (List.filterMap _ (List.range rest.length)), ← hend,
    ← List.filterMap_append, ← List.range_succ, ← List.filterMap_map]
  rfl

/-- The first entries of all pairs. -/
theorem stepBy_of_unzipPairs {firsts seconds : List α} (h : unzipPairs xs = .ok (firsts, seconds)) :
    stepBy xs 2 = firsts := by
  induction xs using unzipPairs.induct generalizing firsts seconds with
  | case1 =>
    obtain ⟨rfl, _⟩ := Prod.mk.inj (Except.ok.inj h)
    rfl
  | case2 => cases h
  | case3 a b rest ih =>
    simp only [unzipPairs, Outcome.bind_eq_ok] at h
    obtain ⟨⟨firsts', seconds'⟩, hrest, hok⟩ := h
    obtain ⟨rfl, _⟩ := Prod.mk.inj (Except.ok.inj hok)
    rw [stepBy_two_cons, ih hrest]

variable {F : Type} [Field F] [DecidableEq F] {info : ChunkingInfo}

/-- The number of evaluations of a chunk. -/
theorem ioLookups_eq (info : ChunkingInfo) :
    info.totalInputsPerChunk + info.totalOutputsPerChunk = info.numberOfShiftedChunks +
      info.table.numColumns * info.numberOfValueChunks + 2 * info.numberOfZeroingChunks := by
  unfold ChunkingInfo.totalInputsPerChunk ChunkingInfo.totalOutputsPerChunk
  rcases TableType.numColumns_eq info.table.operation with hone | htwo
  · have hone : info.table.numColumns = 1 := hone
    rw [hone]
    omega
  · have htwo : info.table.numColumns = 2 := htwo
    rw [htwo]
    omega

theorem unzipPairs_eq_ok {n : Nat} (h : xs.length = 2 * n) :
    ∃ firsts seconds, unzipPairs xs = .ok (firsts, seconds) ∧ seconds.length = n := by
  induction n generalizing xs with
  | zero =>
    rw [List.length_eq_zero_iff.mp h]
    exact ⟨[], [], rfl, rfl⟩
  | succ n ih =>
    match xs, h with
    | [_], h =>
      rw [List.length_singleton] at h
      omega
    | a :: b :: rest, h =>
      have hrest : rest.length = 2 * n := by
        rw [List.length_cons, List.length_cons] at h
        omega
      obtain ⟨firsts, seconds, hpairs, hseconds⟩ := ih hrest
      exact ⟨a :: firsts, b :: seconds, by rw [unzipPairs, hpairs]; rfl, by simp [hseconds]⟩

omit [Field F] [DecidableEq F] in
theorem splitValueColumns_eq_ok {values : List F}
    (h : values.length = info.table.numColumns * info.numberOfValueChunks) :
    ∃ valueIn valueOut, splitValueColumns info.table values = .ok (valueIn, valueOut) ∧
      valueOut.length = info.numberOfValueChunks := by
  unfold splitValueColumns
  rcases numColumns_cases info.table with hone | htwo
  · rw [hone] at h ⊢
    exact ⟨values, values, rfl, h.trans (Nat.one_mul _)⟩
  · rw [htwo] at h ⊢
    exact unzipPairs_eq_ok h

omit [DecidableEq F] in
theorem valueExpression_evaluate_eq_ok {values : List F} {challenge : F}
    (h : values.length = info.numberOfValueChunks) :
    ∃ expr, ValueExpression.evaluate values challenge info = .ok expr := by
  unfold ValueExpression.evaluate
  split
  · next hone =>
    obtain ⟨value, rfl⟩ := List.length_eq_one_iff.mp (h.trans hone)
    exact ⟨_, rfl⟩
  · exact ⟨_, rfl⟩

omit [Field F] [DecidableEq F] in
theorem BlockFits.length_value (h : BlockFits info size chunkedInput chunkedOutput) :
    (blockColumns info chunkedInput chunkedOutput).value.length =
      info.table.numColumns * info.numberOfValueChunks := by
  simp only [blockColumns]
  rcases numColumns_cases info.table with hone | htwo
  · rw [if_pos hone, hone, Nat.one_mul, h.valueOutputs]
  · rw [if_neg (by omega), htwo, length_interleave (h.value.trans h.valueOutputs.symm), h.value,
      Nat.mul_comm]

omit [Field F] [DecidableEq F] in
/-- The number of columns of a block. -/
theorem BlockFits.length_toList (h : BlockFits info size chunkedInput chunkedOutput) :
    (blockColumns info chunkedInput chunkedOutput).toList.length =
      info.totalInputsPerChunk + info.totalOutputsPerChunk := by
  have hzeroing : (blockColumns info chunkedInput chunkedOutput).zeroing.length =
      2 * info.numberOfZeroingChunks := by
    rw [Nat.mul_comm, ← h.zeroing]
    exact length_interleave (h.zeroing.trans h.zeroingOutputs.symm)
  rw [ioLookups_eq, ← h.length_value, ← hzeroing, ← h.shifted, ChunkColumns.toList, List.length_append,
    List.length_append]
  rfl

omit [DecidableEq F] in
theorem ioContribution_eq_ok {chunkEvals : List F} (challenge : F)
    (hlength : chunkEvals.length = info.totalInputsPerChunk + info.totalOutputsPerChunk) :
    ∃ result, LookupVariant.ioContribution info challenge chunkEvals = .ok result := by
  rw [ioLookups_eq, Nat.add_assoc] at hlength
  obtain ⟨shifted, rest, hshifted, hrest⟩ := exists_splitAtMid hlength
  obtain ⟨values, zeroing, hvalues, hzeroing⟩ := exists_splitAtMid hrest.2
  obtain ⟨valueIn, valueOut, hcolumns, hvalueOut⟩ := splitValueColumns_eq_ok hzeroing.1
  obtain ⟨expr, hexpr⟩ := @valueExpression_evaluate_eq_ok _ _ _ _ challenge hvalueOut
  obtain ⟨pairs, rest', hpairs, hlast⟩ := exists_splitAtMid (hzeroing.2.trans (Nat.add_zero _).symm)
  obtain ⟨zeroIn, zeroOut, hunzip, _⟩ := unzipPairs_eq_ok hlast.1
  simp only [LookupVariant.ioContribution, hshifted, Outcome.ok_bind, hvalues, hcolumns, hexpr,
    hpairs, hunzip]
  exact ⟨_, rfl⟩

omit [DecidableEq F] in
/-- Where the sumcheck is prepared a chunk is split as where the evaluations are constructed. -/
theorem splitChunkEvals_of_ioContribution {challenge : F} {chunkEvals : List F}
    {evals : ChunkEvals F} {contribution : F}
    (hlength : chunkEvals.length = info.totalInputsPerChunk + info.totalOutputsPerChunk)
    (h : LookupVariant.ioContribution info challenge chunkEvals = .ok (evals, contribution)) :
    splitChunkEvals info chunkEvals = .ok evals := by
  simp only [LookupVariant.ioContribution, Outcome.bind_eq_ok] at h
  obtain ⟨⟨shifted, rest⟩, hshifted, ⟨values, rest'⟩, hvalues, ⟨valueIn, valueOut⟩, hcolumns, _, _,
    ⟨zeroing, rest''⟩, hzeroing, ⟨zeroIn, zeroOut⟩, hpairs, hok⟩ := h
  -- nothing is left after the zeroing evaluations
  rw [ioLookups_eq, Nat.add_assoc] at hlength
  obtain ⟨_, hrest, _⟩ := parts_of_splitAtMid hlength hshifted
  obtain ⟨_, hrest', _⟩ := parts_of_splitAtMid hrest hvalues
  obtain ⟨_, rfl, _⟩ := splitAtMid_eq_ok.mp hzeroing
  rw [← hrest', List.take_length] at hpairs
  unfold splitChunkEvals
  simp only [hshifted, Outcome.ok_bind, hvalues, hcolumns, stepBy_of_unzipPairs hpairs]
  rw [← (Prod.mk.inj (Except.ok.inj hok)).1]

omit [Field F] [DecidableEq F] in
/-- The chunks of the leading entries are the leading chunks. -/
theorem pieces_take {xs : List F} {n : Nat} (hsize : 0 < size) (h : n * size ≤ xs.length) :
    pieces (xs.take (size * n)) size = (pieces xs size).take n := by
  have htake : (xs.take (size * n)).length = n * size := by
    rw [List.length_take, Nat.mul_comm]
    omega
  have hcount : n ≤ (xs.length + size - 1) / size := by
    apply (Nat.le_div_iff_mul_le hsize).mpr
    omega
  rw [pieces_of_length hsize htake, pieces, ← List.map_take, List.take_range,
    Nat.min_eq_left hcount]
  apply List.map_congr_left
  intro i hi
  have hi : (i + 1) * size ≤ n * size := Nat.mul_le_mul_right _ (List.mem_range.mp hi)
  rw [Nat.succ_mul] at hi
  rw [List.drop_take, List.take_take, Nat.min_eq_left]
  rw [Nat.mul_comm size]
  omega

theorem splitAtMid_append (xs ys : List α) :
    splitAtMid (xs ++ ys) xs.length = .ok (xs, ys) :=
  splitAtMid_eq_ok.mpr ⟨by simp, List.take_left.symm, List.drop_left.symm⟩

theorem unzipPairs_interleave {inputs outputs : List α} (h : inputs.length = outputs.length) :
    unzipPairs (interleave inputs outputs) = .ok (inputs, outputs) := by
  induction inputs generalizing outputs with
  | nil => rw [List.length_eq_zero_iff.mp h.symm]; rfl
  | cons input inputs ih =>
    cases outputs with
    | nil => cases h
    | cons output outputs =>
      have hcons : interleave (input :: inputs) (output :: outputs) =
          input :: output :: interleave inputs outputs := rfl
      rw [hcons, unzipPairs, ih (Nat.succ.inj h)]
      rfl

omit [Field F] [DecidableEq F] in
/-- The evaluations of the columns of a block, as they are split. -/
theorem splitChunkEvals_blockColumns (h : BlockFits info size chunkedInput chunkedOutput)
    (e : List Int → F) :
    splitChunkEvals info ((blockColumns info chunkedInput chunkedOutput).toList.map e) =
      .ok ⟨chunkedInput.shiftedChunks.map e,
        (if info.table.numColumns = 1 then chunkedOutput.valueChunkOutputs
          else chunkedInput.valueChunks).map e,
        chunkedInput.zeroingChunks.map e⟩ := by
  have hzeroing : unzipPairs ((interleave chunkedInput.zeroingChunks
      chunkedOutput.zeroingChunkOutputs).map e) =
        .ok (chunkedInput.zeroingChunks.map e, chunkedOutput.zeroingChunkOutputs.map e) := by
    rw [← interleave_map, unzipPairs_interleave]
    rw [List.length_map, List.length_map, h.zeroing, h.zeroingOutputs]
  have hcolumns : ∃ outputs, splitValueColumns info.table
      ((blockColumns info chunkedInput chunkedOutput).value.map e) =
        .ok ((if info.table.numColumns = 1 then chunkedOutput.valueChunkOutputs
          else chunkedInput.valueChunks).map e, outputs) := by
    unfold splitValueColumns
    simp only [blockColumns]
    rcases numColumns_cases info.table with hone | htwo
    · rw [hone]
      exact ⟨_, rfl⟩
    · rw [htwo, if_neg (by decide), if_neg (by decide), ← interleave_map, unzipPairs_interleave]
      · exact ⟨_, rfl⟩
      · rw [List.length_map, List.length_map, h.value, h.valueOutputs]
  obtain ⟨outputs, hcolumns⟩ := hcolumns
  have hvalue := h.length_value
  generalize hblock : blockColumns info chunkedInput chunkedOutput = columns at hcolumns hvalue
  have hshifted : columns.shifted.map e = chunkedInput.shiftedChunks.map e := by rw [← hblock]; rfl
  have hpairs : columns.zeroing = interleave chunkedInput.zeroingChunks
      chunkedOutput.zeroingChunkOutputs := by rw [← hblock]; rfl
  have hfirst := splitAtMid_append (columns.shifted.map e)
    (columns.value.map e ++ columns.zeroing.map e)
  have hsecond := splitAtMid_append (columns.value.map e) (columns.zeroing.map e)
  have hcount : (columns.shifted.map e).length = info.numberOfShiftedChunks := by
    rw [hshifted, List.length_map, h.shifted]
  rw [hcount] at hfirst
  rw [List.length_map, hvalue] at hsecond
  unfold splitChunkEvals ChunkColumns.toList
  rw [List.map_append, List.map_append, List.append_assoc]
  simp only [hfirst, Outcome.ok_bind, hsecond, hcolumns]
  rw [hpairs, stepBy_of_unzipPairs hzeroing, hshifted]

end Split

/-- The tables of the zeroing chunks of a chunk. -/
def zeroingTables (signed : Bool) (numberOfZeroingChunks : Nat) : List Table :=
  match numberOfZeroingChunks, signed with
  | 0, _ => []
  | n + 1, true => List.replicate n Table.newZeroCheck ++ [Table.newSignedZeroCheck]
  | n + 1, false => List.replicate (n + 1) Table.newZeroCheck

theorem length_zeroingTables (signed : Bool) (n : Nat) : (zeroingTables signed n).length = n := by
  unfold zeroingTables
  split <;> simp

namespace LookupInputConfig

variable (self : LookupInputConfig)

/-- The tables of the regular instances of a chunk. -/
def chunkTables : List Table :=
  List.replicate self.chunkingInfo.numberOfShiftedChunks Table.newShiftCheck ++
    (List.replicate self.chunkingInfo.numberOfValueChunks self.chunkingInfo.table ++
      zeroingTables self.chunkingInfo.table.isSigned self.chunkingInfo.numberOfZeroingChunks)

/-- The tables of all instances. -/
def instanceTables : List Table :=
  (List.replicate self.numberOfChunks self.chunkTables).flatten ++
    List.replicate (self.numberOfChunks * self.variant.normLookupsPerChunk) Table.newShiftCheck

theorem length_chunkTables : self.chunkTables.length = self.regularLookupsPerChunk := by
  simp only [chunkTables, List.length_append, List.length_replicate, length_zeroingTables,
    regularLookupsPerChunk, Nat.add_assoc]

end LookupInputConfig

section Uses

variable {F : Type}

/-- An instance has the challenges of a table. The challenge that separates columns is the one of
    the table unless there is only one column. -/
structure UsesTable (fl : Float32Ops) (storage : ChallengeStorage F)
    (inst : LogUpVerifierInstance F) (table : Table) : Prop where
  challenges : ∃ separation,
    storage.getChallengesByName (table.name fl) = some (inst.constantChallenge, separation) ∧
      (table.numColumns ≠ 1 → inst.columnSeparationChallenge = separation)
  numColumns : inst.numColumns = table.numColumns

variable {self : LookupInputConfig} {fl : Float32Ops} {storage : ChallengeStorage F}
variable {instances : List (LogUpVerifierInstance F)}

theorem usesTable_pushInstances {table : Table} {msg : String} {challenges : F × F} {sep : F}
    {count vars : Nat}
    (hchallenges : LookupInputConfig.challengesOf fl storage table msg = .ok challenges)
    (hsep : table.numColumns ≠ 1 → sep = challenges.2)
    (h : LookupInputConfig.pushInstances count (challenges.1, sep) table.numColumns vars =
      .ok instances) :
    List.Forall₂ (UsesTable fl storage) instances (List.replicate count table) := by
  unfold LookupInputConfig.pushInstances at h
  split at h
  · next hzero =>
    rw [← Except.ok.inj h, hzero]
    exact List.Forall₂.nil
  · simp only [Outcome.bind_eq_ok] at h
    obtain ⟨numVars, _, hok⟩ := h
    rw [← Except.ok.inj hok]
    apply forall₂_replicate List.length_replicate
    intro inst hinst
    rw [List.eq_of_mem_replicate hinst]
    exact ⟨⟨challenges.2, okOr_eq_ok.mp hchallenges, hsep⟩, rfl⟩

theorem usesTable_zeroingInstances {vars : Nat}
    (h : self.zeroingInstances fl storage vars = .ok instances) :
    List.Forall₂ (UsesTable fl storage) instances
      (zeroingTables self.chunkingInfo.table.isSigned self.chunkingInfo.numberOfZeroingChunks) := by
  unfold LookupInputConfig.zeroingInstances at h
  generalize self.chunkingInfo.numberOfZeroingChunks = count at *
  generalize self.chunkingInfo.table.isSigned = signed at *
  split at h
  case h_1 =>
    rw [← Except.ok.inj h]
    exact List.Forall₂.nil
  case h_2 =>
    simp only [Outcome.bind_eq_ok] at h
    obtain ⟨challenges, hchallenges, hpush⟩ := h
    exact usesTable_pushInstances hchallenges (fun _ => rfl) hpush
  case h_3 n =>
    simp only [Outcome.bind_eq_ok] at h
    obtain ⟨zero, hzero, zeroInstances, hpush, signed, hsigned, signedInstances, hpush', hok⟩ := h
    rw [← Except.ok.inj hok]
    apply List.rel_append
    · exact usesTable_pushInstances hzero (fun _ => rfl) hpush
    · exact usesTable_pushInstances hsigned (fun _ => rfl) hpush'
  case h_4 =>
    simp only [Outcome.bind_eq_ok] at h
    obtain ⟨challenges, hchallenges, hpush⟩ := h
    exact usesTable_pushInstances hchallenges (fun _ => rfl) hpush

variable [Field F]

/-- Every instance has the challenges of its table. -/
theorem usesTable_instances (h : self.createLogupVerifierInstances fl storage = .ok instances) :
    List.Forall₂ (UsesTable fl storage) instances self.instanceTables := by
  obtain ⟨normDimSize, lastDim, shift, value, chunk, norm, _, hshift, hvalue, hparts, rfl⟩ :=
    createLogupVerifierInstances_eq_ok h
  by_cases hzero : self.numberOfChunks = 0
  · rw [LookupInputConfig.instanceTables, hzero, Nat.zero_mul]
    exact List.Forall₂.nil
  obtain ⟨hchunk, hnorm⟩ := hparts hzero
  apply List.rel_append
  · apply List.rel_flatten
    apply forall₂_replicate List.length_replicate
    intro insts hinsts
    rw [List.eq_of_mem_replicate hinsts]
    simp only [LookupInputConfig.chunkInstances, Outcome.bind_eq_ok] at hchunk
    obtain ⟨shifted, hshifted, values, hvalues, zeroing, hzeroing, hok⟩ := hchunk
    rw [← Except.ok.inj hok, List.append_assoc]
    apply List.rel_append
    · exact usesTable_pushInstances hshift (fun _ => rfl) hshifted
    · apply List.rel_append
      · exact usesTable_pushInstances hvalue (fun _ => rfl) hvalues
      · exact usesTable_zeroingInstances hzeroing
  · rw [← List.flatten_replicate_replicate]
    apply List.rel_flatten
    apply forall₂_replicate List.length_replicate
    intro insts hinsts
    rw [List.eq_of_mem_replicate hinsts]
    have hone : Table.newShiftCheck.numColumns = 1 := rfl
    exact usesTable_pushInstances hshift (fun hne => absurd hone hne) hnorm

end Uses

section Fractions

variable {F : Type} [Field F]

/-- The fractions of the tables of a name are added. -/
def chargedTo (fl : Float32Ops) (name : String) (entries : List (Table × F × F)) (acc : F × F) :
    F × F :=
  ((entries.filter fun entry => entry.1.name fl = name).map Prod.snd).foldl addFractions acc

/-- What is stored for a table. -/
def NumeratorsAndDenominators.at (stored : NumeratorsAndDenominators F) (name : String) : F × F :=
  (stored[name]?).getD (0, 1)

variable {fl : Float32Ops} {name : String}

theorem chargedTo_append (entries entries' : List (Table × F × F)) (acc : F × F) :
    chargedTo fl name (entries ++ entries') acc =
      chargedTo fl name entries' (chargedTo fl name entries acc) := by
  unfold chargedTo
  rw [List.filter_append, List.map_append, List.foldl_append]

/-- The fractions of one table. -/
theorem chargedTo_replicate (table : Table) {fractions : List (F × F)} {count : Nat}
    (hlength : fractions.length = count) (acc : F × F) :
    chargedTo fl name ((List.replicate count table).zip fractions) acc =
      if table.name fl = name then fractions.foldl addFractions acc else acc := by
  subst hlength
  induction fractions generalizing acc with
  | nil =>
    split <;> rfl
  | cons fraction fractions ih =>
    rw [List.length_cons, List.replicate_succ, List.zip_cons_cons, ← List.singleton_append,
      chargedTo_append, ih]
    split
    · next hname =>
      rw [List.foldl_cons, chargedTo, List.filter_singleton, decide_eq_true hname]
      rfl
    · next hname =>
      rw [chargedTo, List.filter_singleton, decide_eq_false hname]
      rfl

variable [DecidableEq F]

theorem addFraction_eq_ok {msg : String} {acc fraction result : F × F}
    (h : LookupInputConfig.addFraction msg acc fraction = .ok result) :
    result = addFractions acc fraction := by
  simp only [LookupInputConfig.addFraction, Outcome.bind_eq_ok] at h
  obtain ⟨_, _, hok⟩ := h
  rw [← Except.ok.inj hok, addFractions, add_comm]

theorem foldl_of_foldlM_eq_ok {α β : Type} {step : β → α → Outcome β} {g : β → α → β}
    (hstep : ∀ acc a r, step acc a = .ok r → r = g acc a) {l : List α} {init out : β}
    (h : l.foldlM step init = .ok out) : out = l.foldl g init := by
  induction l generalizing init with
  | nil => exact (Except.ok.inj h).symm
  | cons a l ih =>
    rw [List.foldlM_cons, Outcome.bind_eq_ok] at h
    obtain ⟨acc, hacc, hrest⟩ := h
    rw [List.foldl_cons, ← hstep init a acc hacc, ih hrest]

variable {stored result : NumeratorsAndDenominators F} {nums dens : List F}

/-- The fractions of lookups into one table are added to what is stored for it. -/
theorem at_of_chargeTable {table : Table} {msg : String} {count : Nat} (hnums : nums.length = count)
    (hdens : dens.length = count)
    (h : LookupInputConfig.chargeTable fl stored table msg nums dens = .ok result) :
    result.at name = chargedTo fl name ((List.replicate count table).zip (nums.zip dens))
      (stored.at name) := by
  have hlength : (nums.zip dens).length = count := by
    rw [List.length_zip, hnums, hdens, Nat.min_self]
  simp only [LookupInputConfig.chargeTable, Outcome.bind_eq_ok] at h
  obtain ⟨total, htotal, hok⟩ := h
  have htotal := foldl_of_foldlM_eq_ok (fun _ _ _ => addFraction_eq_ok) htotal
  rw [← Except.ok.inj hok, chargedTo_replicate table hlength, NumeratorsAndDenominators.at,
    Std.ExtTreeMap.getElem?_insert]
  by_cases hname : table.name fl = name
  · rw [if_pos hname, if_pos (by simpa using hname), Option.getD_some, htotal, hname]
    rfl
  · rw [if_neg hname, if_neg (by simpa using hname)]
    rfl

omit [DecidableEq F] in
/-- Fractions are charged part by part. -/
theorem chargedTo_parts {tables tables' : List Table} {nums' dens' : List F} {count : Nat}
    (htables : tables.length = count) (hnums : nums.length = count) (hdens : dens.length = count)
    (acc : F × F) :
    chargedTo fl name ((tables ++ tables').zip ((nums ++ nums').zip (dens ++ dens'))) acc =
      chargedTo fl name (tables'.zip (nums'.zip dens'))
        (chargedTo fl name (tables.zip (nums.zip dens)) acc) := by
  rw [List.zip_append (hnums.trans hdens.symm), List.zip_append, chargedTo_append]
  rw [List.length_zip, htables, hnums, hdens, Nat.min_self]

variable {self : LookupInputConfig}

/-- The zeroing fractions of a chunk. -/
theorem at_of_chargeZeroing (hnums : nums.length = self.chunkingInfo.numberOfZeroingChunks)
    (hdens : dens.length = self.chunkingInfo.numberOfZeroingChunks)
    (h : self.chargeZeroing fl stored nums dens = .ok result) :
    result.at name = chargedTo fl name ((zeroingTables self.chunkingInfo.table.isSigned
      self.chunkingInfo.numberOfZeroingChunks).zip (nums.zip dens)) (stored.at name) := by
  unfold LookupInputConfig.chargeZeroing at h
  generalize self.chunkingInfo.numberOfZeroingChunks = count at *
  generalize self.chunkingInfo.table.isSigned = signed at *
  split at h
  case h_1 =>
    rw [Except.ok.inj h]
    rfl
  case h_2 => exact at_of_chargeTable hnums hdens h
  case h_3 n =>
    simp only [Outcome.bind_eq_ok] at h
    obtain ⟨⟨plainNums, signedNums⟩, hsplitNums, ⟨plainDens, signedDens⟩, hsplitDens, stored', hplain,
      den, hden, num, hnum, hsigned⟩ := h
    have hnums : nums.length = n + 1 + 1 := hnums
    have hdens : dens.length = n + 1 + 1 := hdens
    obtain ⟨hplainNums, hsignedNums, rfl⟩ := parts_of_splitAtMid hnums hsplitNums
    obtain ⟨hplainDens, hsignedDens, rfl⟩ := parts_of_splitAtMid hdens hsplitDens
    obtain ⟨num', rfl⟩ := List.length_eq_one_iff.mp hsignedNums
    obtain ⟨den', rfl⟩ := List.length_eq_one_iff.mp hsignedDens
    obtain rfl := Option.some.inj (unwrap_eq_ok.mp hnum)
    obtain rfl := Option.some.inj (unwrap_eq_ok.mp hden)
    have hone : ([Table.newSignedZeroCheck] : List Table) =
        List.replicate 1 Table.newSignedZeroCheck := rfl
    rw [zeroingTables, chargedTo_parts List.length_replicate hplainNums hplainDens,
      ← at_of_chargeTable hplainNums hplainDens hplain, hone]
    exact at_of_chargeTable rfl rfl hsigned
  case h_4 => exact at_of_chargeTable hnums hdens h

/-- The fractions of a chunk. -/
theorem at_of_chargeChunk (hnums : nums.length = self.regularLookupsPerChunk)
    (hdens : dens.length = self.regularLookupsPerChunk)
    (h : self.chargeChunk fl stored (nums, dens) = .ok result) :
    result.at name = chargedTo fl name (self.chunkTables.zip (nums.zip dens)) (stored.at name) := by
  simp only [LookupInputConfig.chargeChunk, Outcome.bind_eq_ok] at h
  obtain ⟨⟨shiftedNums, otherNums⟩, hsplitNums, ⟨shiftedDens, otherDens⟩, hsplitDens, stored₁,
    hshifted, ⟨valueNums, zeroNums⟩, hsplitNums', ⟨valueDens, zeroDens⟩, hsplitDens', stored₂,
    hvalue, hzeroing⟩ := h
  unfold LookupInputConfig.regularLookupsPerChunk at hnums hdens
  rw [Nat.add_assoc] at hnums hdens
  obtain ⟨hshiftedNums, hotherNums, rfl⟩ := parts_of_splitAtMid hnums hsplitNums
  obtain ⟨hshiftedDens, hotherDens, rfl⟩ := parts_of_splitAtMid hdens hsplitDens
  obtain ⟨hvalueNums, hzeroNums, rfl⟩ := parts_of_splitAtMid hotherNums hsplitNums'
  obtain ⟨hvalueDens, hzeroDens, rfl⟩ := parts_of_splitAtMid hotherDens hsplitDens'
  rw [LookupInputConfig.chunkTables,
    chargedTo_parts List.length_replicate hshiftedNums hshiftedDens,
    chargedTo_parts List.length_replicate hvalueNums hvalueDens,
    ← at_of_chargeTable hshiftedNums hshiftedDens hshifted,
    ← at_of_chargeTable hvalueNums hvalueDens hvalue]
  exact at_of_chargeZeroing hzeroNums hzeroDens hzeroing

/-- The fractions of all chunks, one chunk after the other. -/
theorem at_of_chargeChunks {stored result : NumeratorsAndDenominators F} {nums dens : List F}
    {count : Nat} (hpos : 0 < self.regularLookupsPerChunk)
    (hnums : nums.length = count * self.regularLookupsPerChunk)
    (hdens : dens.length = count * self.regularLookupsPerChunk)
    (h : ((pieces nums self.regularLookupsPerChunk).zip
      (pieces dens self.regularLookupsPerChunk)).foldlM (self.chargeChunk fl) stored = .ok result) :
    result.at name = chargedTo fl name
      ((List.replicate count self.chunkTables).flatten.zip (nums.zip dens)) (stored.at name) := by
  induction count generalizing stored nums dens with
  | zero =>
    rw [Nat.zero_mul] at hnums hdens
    rw [List.length_eq_zero_iff.mp hnums, List.length_eq_zero_iff.mp hdens, pieces_nil] at h
    rw [← Except.ok.inj h]
    rfl
  | succ count ih =>
    rw [Nat.succ_mul, Nat.add_comm] at hnums hdens
    have hsplitNums := splitAtMid_eq_ok.mpr ⟨show self.regularLookupsPerChunk ≤ nums.length by omega,
      rfl, rfl⟩
    have hsplitDens := splitAtMid_eq_ok.mpr ⟨show self.regularLookupsPerChunk ≤ dens.length by omega,
      rfl, rfl⟩
    obtain ⟨hfirstNums, hrestNums, hnums'⟩ := parts_of_splitAtMid hnums hsplitNums
    obtain ⟨hfirstDens, hrestDens, hdens'⟩ := parts_of_splitAtMid hdens hsplitDens
    rw [hnums', hdens', pieces_append hpos hfirstNums, pieces_append hpos hfirstDens,
      List.zip_cons_cons, List.foldlM_cons, Outcome.bind_eq_ok] at h
    obtain ⟨stored', hchunk, hrest⟩ := h
    rw [hnums', hdens', List.replicate_succ, List.flatten_cons,
      chargedTo_parts self.length_chunkTables hfirstNums hfirstDens,
      ← at_of_chargeChunk hfirstNums hfirstDens hchunk]
    exact ih hrestNums hrestDens hrest

/-- What is stored for a table after the fractions of all instances have been charged. -/
theorem at_of_sortFractions (hnums : nums.length = self.instanceTables.length)
    (hdens : dens.length = self.instanceTables.length)
    (h : self.sortFractions fl stored nums dens = .ok result) :
    result.at name =
      chargedTo fl name (self.instanceTables.zip (nums.zip dens)) (stored.at name) := by
  simp only [LookupInputConfig.sortFractions, Outcome.bind_eq_ok, chunksOf_eq_ok] at h
  obtain ⟨_, ⟨hne, rfl⟩, _, ⟨_, rfl⟩, stored', hchunks, hnorm⟩ := h
  have hpos := Nat.pos_of_ne_zero hne
  rw [LookupInputConfig.instanceTables, List.length_append, List.length_flatten, List.map_replicate,
    List.sum_replicate, smul_eq_mul, self.length_chunkTables, List.length_replicate] at hnums hdens
  -- the fractions of the chunks, and those of the checks
  have hcount : self.numberOfChunks * self.regularLookupsPerChunk ≤ nums.length := by omega
  have hsplitNums := splitAtMid_eq_ok.mpr ⟨hcount, rfl, rfl⟩
  have hcount' : self.numberOfChunks * self.regularLookupsPerChunk ≤ dens.length := by omega
  have hsplitDens := splitAtMid_eq_ok.mpr ⟨hcount', rfl, rfl⟩
  obtain ⟨hchunkNums, hnormNums, hnums'⟩ := parts_of_splitAtMid hnums hsplitNums
  obtain ⟨hchunkDens, hnormDens, hdens'⟩ := parts_of_splitAtMid hdens hsplitDens
  rw [List.zip, List.take_zipWith, ← pieces_take hpos hcount, ← pieces_take hpos hcount',
    Nat.mul_comm self.regularLookupsPerChunk] at hchunks
  have hstored := @at_of_chargeChunks _ _ _ name _ _ _ _ _ _ _ hpos hchunkNums hchunkDens
    hchunks
  rw [LookupInputConfig.instanceTables, hnums', hdens', chargedTo_parts _ hchunkNums hchunkDens,
    ← hstored]
  · exact at_of_chargeTable hnormNums hnormDens hnorm
  · rw [List.length_flatten, List.map_replicate, List.sum_replicate, smul_eq_mul,
      self.length_chunkTables]

end Fractions

/-! ## The layout -/

section Layout

variable {F : Type} [Field F] [DecidableEq F]

/-- What the prover and the verifier of a lookup layer agree about. -/
structure SameLayout (config : LookupInputConfig) (fl : Float32Ops) (storage : ChallengeStorage F)
    (witness : LookupOpWitness) (inputs : List (LogUpInput F))
    (instances : List (LogUpVerifierInstance F)) : Prop where
  /-- The circuits are the instances. -/
  circuits : List.Forall₂ MatchesInstance (inputs.flatMap LogUpInput.circuitInputs) instances
  /-- The columns of the blocks come first, block by block. -/
  columns : ∃ checks, LogUpInput.allColumns inputs =
    (witness.chunkedInputs.zip witness.chunkedOutputs).flatMap
      (fun (chunkedInput, chunkedOutput) =>
        (blockColumns config.chunkingInfo chunkedInput chunkedOutput).toList.map (toField F)) ++
      checks
  /-- The evaluations of the columns of a block are split into those of its chunks. -/
  blocks : ∀ pair ∈ witness.chunkedInputs.zip witness.chunkedOutputs, ∀ eval : List Int → F,
    splitChunkEvals config.chunkingInfo
        ((blockColumns config.chunkingInfo pair.1 pair.2).toList.map eval) =
      .ok ⟨pair.1.shiftedChunks.map eval,
        (if config.chunkingInfo.table.numColumns = 1 then pair.2.valueChunkOutputs
          else pair.1.valueChunks).map eval,
        pair.1.zeroingChunks.map eval⟩
  /-- The evaluations of the same chunks are split where the sumcheck is prepared and where the
      claims are made, and they are split in the same way. -/
  evaluations : ∀ (logupEvals : List F) (challenge : F),
    let io := config.chunkingInfo.totalInputsPerChunk + config.chunkingInfo.totalOutputsPerChunk
    config.numberOfChunks * io ≤ logupEvals.length →
      pieces (logupEvals.take (io * config.numberOfChunks)) io =
          (pieces logupEvals io).take config.numberOfChunks ∧
        ∀ chunkEvals ∈ (pieces logupEvals io).take config.numberOfChunks, ∃ evals contribution,
          LookupVariant.ioContribution config.chunkingInfo challenge chunkEvals =
              .ok (evals, contribution) ∧
            splitChunkEvals config.chunkingInfo chunkEvals = .ok evals
  /-- Every instance has the challenges of its table. -/
  tables : List.Forall₂ (UsesTable fl storage) instances config.instanceTables
  /-- The fraction of an instance is charged to its table. -/
  fractions : ∀ (stored result : NumeratorsAndDenominators F) (nums dens : List F),
    nums.length = instances.length → dens.length = instances.length →
    config.sortFractions fl stored nums dens = .ok result →
    ∀ name, result.at name =
      chargedTo fl name (config.instanceTables.zip (nums.zip dens)) (stored.at name)

end Layout

/-! ## The layout of a layer of four values -/

section FourSigns

/-- Challenges by which two tables separate their columns differently. -/
def twoSeparations : ChallengeStorage (ZMod 5) :=
  ⟨3, ((∅ : HashMap String (ZMod 5)).insert (Table.newShiftCheck.name noFloats) 2).insert
    (fourSignsTable.name noFloats) 4⟩

def fourSignsWitness : LookupOpWitness where
  chunkedInputs := [⟨[[2 ^ 15, 0, 2 ^ 15, 0]], [[0, 0, -1, -1]], []⟩]
  chunkedOutputs := [⟨[[0, 0, -1, -1]], []⟩]

theorem fourSigns_generateWitness :
    fourSignsOp.generateWitness noFloats [4] [0, -1, -2, 1] fourSignsTable =
      .ok fourSignsWitness := by
  rfl

theorem noFloats_names : fourSignsTable.name noFloats ≠ Table.newShiftCheck.name noFloats := by
  decide

theorem twoSeparations_challenges :
    LookupInputConfig.challengesOf noFloats twoSeparations Table.newShiftCheck "ShiftCheckTable" =
        .ok (3, 2) ∧
      LookupInputConfig.challengesOf noFloats twoSeparations fourSignsTable "ValueTable" =
        .ok (3, 4) := by
  have hshift : twoSeparations.challengeMap[Table.newShiftCheck.name noFloats]? = some 2 := by
    rw [twoSeparations, Std.ExtTreeMap.getElem?_insert, if_neg (by simpa using noFloats_names)]
    exact Std.ExtTreeMap.getElem?_insert_self
  have hvalue : twoSeparations.challengeMap[fourSignsTable.name noFloats]? = some 4 :=
    Std.ExtTreeMap.getElem?_insert_self
  constructor
  · rw [LookupInputConfig.challengesOf, ChallengeStorage.getChallengesByName, hshift]
    rfl
  · rw [LookupInputConfig.challengesOf, ChallengeStorage.getChallengesByName, hvalue]
    rfl

theorem fourSigns_logupInputs :
    (fourSignsOp.inputConfig fourSignsInfo [4]).createLogupInputs noFloats twoSeparations
        (fourSignsWitness.inputMleEvals (ZMod 5) fourSignsTable.numColumns ++
          fourSignsWitness.outputMleEvals (ZMod 5)) none =
      .ok [.lookup [toField (ZMod 5) [2 ^ 15, 0, 2 ^ 15, 0]] 3 1 1,
        .lookup [toField (ZMod 5) [0, 0, -1, -1]] 3 4 1] := by
  obtain ⟨hshift, hvalue⟩ := twoSeparations_challenges
  have hvalue : LookupInputConfig.challengesOf noFloats twoSeparations
      (fourSignsOp.inputConfig fourSignsInfo [4]).chunkingInfo.table "ValueTable" =
        .ok (3, 4) := hvalue
  simp only [LookupInputConfig.createLogupInputs, hshift, hvalue]
  rfl

theorem twoSeparations_instances :
    (fourSignsOp.inputConfig fourSignsInfo [4]).createLogupVerifierInstances noFloats
        twoSeparations =
      .ok [⟨3, 2, 1, .lookup, 1⟩, ⟨3, 4, 1, .lookup, 1⟩] := by
  obtain ⟨hshift, hvalue⟩ := twoSeparations_challenges
  have hvalue : LookupInputConfig.challengesOf noFloats twoSeparations
      (fourSignsOp.inputConfig fourSignsInfo [4]).chunkingInfo.table "ValueTable" =
        .ok (3, 4) := hvalue
  simp only [LookupInputConfig.createLogupVerifierInstances, hshift, hvalue]
  rfl

end FourSigns

end DeepProve
