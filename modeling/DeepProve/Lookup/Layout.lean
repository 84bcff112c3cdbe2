import DeepProve.Lookup.LogupInputs

/-!
# The layout of a lookup layer for the prover and for the verifier

The inputs of `create_logup_inputs` are cut into circuits, one for each instance of
`create_logup_verifier_instances`: first those of the chunks, one chunk after the other, then
the checks of a normalisation.
-/

namespace DeepProve

/-! ## The columns of a chunk -/

section Columns

variable {α β : Type}

@[simp] theorem interleave_map (f : α → β) (inputs outputs : List α) :
    interleave (inputs.map f) (outputs.map f) = (interleave inputs outputs).map f := by
  unfold interleave
  rw [List.zip_map, List.flatMap_map, List.map_flatMap]
  rfl

theorem length_interleave {inputs outputs : List α} (h : inputs.length = outputs.length) :
    (interleave inputs outputs).length = inputs.length * 2 := by
  simp [interleave, List.length_flatMap, h]

theorem pieces_one (xs : List α) : pieces xs 1 = xs.map fun x => [x] := by
  have h := @pieces_flatMap α α xs (fun x => [x]) 1 Nat.one_pos fun _ _ => rfl
  rwa [List.flatMap_singleton'] at h

def ChunkColumns.map (f : α → β) (self : ChunkColumns α) : ChunkColumns β :=
  ⟨self.shifted.map f, self.value.map f, self.zeroing.map f⟩

end Columns

/-- The chunks of a block, as many as the chunking info says and each of the size of the block. -/
structure BlockFits (info : ChunkingInfo) (size : Nat) (chunkedInput : ChunkedInput)
    (chunkedOutput : ChunkedOutput) : Prop where
  shifted : chunkedInput.shiftedChunks.length = info.numberOfShiftedChunks
  value : chunkedInput.valueChunks.length = info.numberOfValueChunks
  zeroing : chunkedInput.zeroingChunks.length = info.numberOfZeroingChunks
  valueOutputs : chunkedOutput.valueChunkOutputs.length = info.numberOfValueChunks
  zeroingOutputs : chunkedOutput.zeroingChunkOutputs.length = info.numberOfZeroingChunks
  inputSize : ∀ chunk ∈ chunkedInput.shiftedChunks ++ chunkedInput.valueChunks ++
    chunkedInput.zeroingChunks, chunk.length = size
  outputSize : ∀ chunk ∈ chunkedOutput.valueChunkOutputs ++ chunkedOutput.zeroingChunkOutputs,
    chunk.length = size

/-- The columns of a block, by the kind of table that they are looked up in. -/
def blockColumns (info : ChunkingInfo) (chunkedInput : ChunkedInput)
    (chunkedOutput : ChunkedOutput) : ChunkColumns (List Int) where
  shifted := chunkedInput.shiftedChunks
  value :=
    if info.table.numColumns = 1 then
      chunkedOutput.valueChunkOutputs
    else
      interleave chunkedInput.valueChunks chunkedOutput.valueChunkOutputs
  zeroing := interleave chunkedInput.zeroingChunks chunkedOutput.zeroingChunkOutputs

section Block

variable {F : Type} [Field F] {info : ChunkingInfo} {size : Nat} {chunkedInput : ChunkedInput}
  {chunkedOutput : ChunkedOutput}

theorem sortColumns_toEvals (h : BlockFits info size chunkedInput chunkedOutput) :
    sortColumns info (chunkedInput.toEvals F info.table.numColumns) (chunkedOutput.toEvals F) =
      .ok ((blockColumns info chunkedInput chunkedOutput).map (toField F)) := by
  have hsplit : splitAtMid (chunkedInput.toEvals F info.table.numColumns)
      info.numberOfShiftedChunks = .ok (chunkedInput.shiftedChunks.map (toField F),
        ((if info.table.numColumns ≠ 1 then chunkedInput.valueChunks else []) ++
          chunkedInput.zeroingChunks).map (toField F)) := by
    rw [splitAtMid_eq_ok, ChunkedInput.toEvals, List.append_assoc, List.map_append, ← h.shifted,
      ← List.length_map (toField F)]
    exact ⟨by simp, List.take_left.symm, List.drop_left.symm⟩
  have hzeroing : (chunkedInput.zeroingChunks.map (toField F)).take info.numberOfZeroingChunks =
      chunkedInput.zeroingChunks.map (toField F) := by
    rw [List.take_of_length_le]
    rw [List.length_map, h.zeroing]
  have hvalueOutputs : (chunkedOutput.toEvals F).take info.numberOfValueChunks =
      chunkedOutput.valueChunkOutputs.map (toField F) := by
    rw [ChunkedOutput.toEvals, List.map_append, ← h.valueOutputs,
      ← List.length_map (toField F)]
    exact List.take_left
  have hzeroOutputs : (chunkedOutput.toEvals F).drop info.numberOfValueChunks =
      chunkedOutput.zeroingChunkOutputs.map (toField F) := by
    rw [ChunkedOutput.toEvals, List.map_append, ← h.valueOutputs,
      ← List.length_map (toField F)]
    exact List.drop_left
  unfold sortColumns blockColumns
  rw [hsplit]
  simp only [Outcome.ok_bind, hvalueOutputs, hzeroOutputs]
  rcases TableType.numColumns_eq info.table.operation with hone | htwo
  · have hone : info.table.numColumns = 1 := hone
    simp only [hone, ne_eq, not_true_eq_false, if_false, List.nil_append, hzeroing, interleave_map]
    rfl
  · have htwo : info.table.numColumns = 2 := htwo
    have hrest : splitAtMid ((chunkedInput.valueChunks ++ chunkedInput.zeroingChunks).map
        (toField F)) info.numberOfValueChunks = .ok (chunkedInput.valueChunks.map (toField F),
          chunkedInput.zeroingChunks.map (toField F)) := by
      rw [splitAtMid_eq_ok, List.map_append, ← h.value, ← List.length_map (toField F)]
      exact ⟨by simp, List.take_left.symm, List.drop_left.symm⟩
    have hne : ¬ (2 : Nat) = 1 := by decide
    simp only [htwo, ne_eq, hne, not_false_eq_true, if_true, hrest, Outcome.ok_bind, hzeroing,
      interleave_map]
    rfl

end Block

/-! ## Inputs and instances -/

section Instances

variable {F : Type} [Field F]

/-- A circuit of the prover is the instance of the verifier. The challenge that separates columns
    is the same one unless there is only one column. -/
structure MatchesInstance (input : CircuitInput F) (inst : LogUpVerifierInstance F) : Prop where
  constant : input.constantChallenge = inst.constantChallenge
  separation : inst.numColumns ≠ 1 → input.columnSeparationChallenge = inst.columnSeparationChallenge
  numColumns : input.columns.length = inst.numColumns
  evaluations : ∀ column ∈ input.columns, column.length = 2 ^ (inst.numVars + 1)
  instanceType : inst.instanceType = .lookup

variable {input : LogUpInput F} {separation constant : F}

omit [Field F] in
theorem newLookup_eq_ok {columnEvals : List (List F)} {columnsPerInstance : Nat}
    (h : LogUpInput.newLookup columnEvals constant separation columnsPerInstance = .ok input) :
    input = .lookup columnEvals constant separation columnsPerInstance := by
  simp only [LogUpInput.newLookup, Outcome.bind_eq_ok] at h
  obtain ⟨_, _, h⟩ := h
  exact (Except.ok.inj h).symm

omit [Field F] in
theorem lookupInput_eq_ok {columnEvals : List (List F)} {challenges : F × F} {numColumns : Nat}
    {msg : String}
    (h : LookupInputConfig.lookupInput columnEvals challenges numColumns msg = .ok input) :
    input = .lookup columnEvals challenges.1 challenges.2 numColumns :=
  newLookup_eq_ok (Outcome.mapErr_eq_ok.mp h)

theorem mem_of_mem_pieces {α : Type} {xs piece : List α} {size : Nat} {x : α}
    (hpiece : piece ∈ pieces xs size) (hx : x ∈ piece) : x ∈ xs := by
  obtain ⟨i, _, rfl⟩ := List.mem_map.mp hpiece
  exact List.mem_of_mem_drop (List.mem_of_mem_take hx)

theorem forall₂_replicate {α β : Type} {R : α → β → Prop} {xs : List α} {n : Nat} {b : β}
    (hlength : xs.length = n) (h : ∀ x ∈ xs, R x b) : List.Forall₂ R xs (List.replicate n b) := by
  subst hlength
  induction xs with
  | nil => exact List.Forall₂.nil
  | cons x xs ih =>
    obtain ⟨hx, hxs⟩ := List.forall_mem_cons.mp h
    exact List.Forall₂.cons hx (ih hxs)

variable {instances : List (LogUpVerifierInstance F)} {inputs : List (LogUpInput F)}

omit [Field F] in
/-- The columns of one table are cut into the instances that the verifier pushes. -/
theorem matches_pushInstances {columns : List (List F)} {count numColumns vars : Nat}
    {separation' : F}
    (hpush : LookupInputConfig.pushInstances count (constant, separation') numColumns vars =
      .ok instances) (hpos : 0 < numColumns) (hlength : columns.length = count * numColumns)
    (hevals : ∀ column ∈ columns, column.length = 2 ^ vars)
    (hsep : numColumns ≠ 1 → separation = separation') :
    List.Forall₂ MatchesInstance
      (LogUpInput.lookup columns constant separation numColumns).circuitInputs instances := by
  unfold LookupInputConfig.pushInstances at hpush
  split at hpush
  · next hzero =>
    obtain rfl := Except.ok.inj hpush
    have hnil : columns = [] := List.length_eq_zero_iff.mp (by rw [hlength, hzero, Nat.zero_mul])
    rw [hnil, LogUpInput.circuitInputs, pieces_nil]
    exact List.Forall₂.nil
  · next hne =>
    simp only [Outcome.bind_eq_ok, usizeSub_eq_ok] at hpush
    obtain ⟨numVars, ⟨hvars, rfl⟩, hpush⟩ := hpush
    obtain rfl := Except.ok.inj hpush
    rw [LogUpInput.circuitInputs, List.forall₂_map_left_iff]
    apply forall₂_replicate
    · rw [pieces_of_length hpos hlength, List.length_map, List.length_range]
    · intro piece hpiece
      constructor
      case constant => rfl
      case separation => exact hsep
      case numColumns => exact length_of_mem_pieces hpos hlength hpiece
      case evaluations =>
        intro column hcolumn
        rw [hevals column (mem_of_mem_pieces hpiece hcolumn), Nat.sub_add_cancel hvars]
      case instanceType => rfl

/-- The columns of a chunk, as many as the chunking info says and each of the given size. -/
structure ColumnsFit (info : ChunkingInfo) (vars : Nat) (columns : ChunkColumns (List F)) :
    Prop where
  shifted : columns.shifted.length = info.numberOfShiftedChunks
  value : columns.value.length = info.numberOfValueChunks * info.table.numColumns
  zeroing : columns.zeroing.length = info.numberOfZeroingChunks * 2
  evaluations : ∀ column ∈ columns.shifted ++ columns.value ++ columns.zeroing,
    column.length = 2 ^ vars

variable {self : LookupInputConfig} {fl : Float32Ops} {storage : ChallengeStorage F} {vars : Nat}

omit [Field F] in
/-- The zeroing columns are looked up in the tables of the zeroing instances. -/
theorem matches_zeroingInputs {columns : List (List F)}
    (hsigned : self.chunkingInfo.isSigned = self.chunkingInfo.table.isSigned)
    (hinputs : self.zeroingInputs fl storage columns = .ok inputs)
    (hinstances : self.zeroingInstances fl storage vars = .ok instances)
    (hlength : columns.length = self.chunkingInfo.numberOfZeroingChunks * 2)
    (hevals : ∀ column ∈ columns, column.length = 2 ^ vars) :
    List.Forall₂ MatchesInstance (inputs.flatMap LogUpInput.circuitInputs) instances := by
  unfold LookupInputConfig.zeroingInputs at hinputs
  unfold LookupInputConfig.zeroingInstances at hinstances
  rw [hsigned] at hinputs
  generalize self.chunkingInfo.numberOfZeroingChunks = count at *
  generalize self.chunkingInfo.table.isSigned = signed at *
  have htwo : Table.newZeroCheck.numColumns = 2 := rfl
  have htwo' : Table.newSignedZeroCheck.numColumns = 2 := rfl
  split at hinputs
  case h_1 =>
    obtain rfl := Except.ok.inj hinputs
    obtain rfl := Except.ok.inj hinstances
    exact List.Forall₂.nil
  case h_2 | h_4 =>
    simp only [Outcome.bind_eq_ok] at hinputs hinstances
    obtain ⟨challenges, hchallenges, input, hinput, hok⟩ := hinputs
    obtain ⟨challenges', hchallenges', hpush⟩ := hinstances
    obtain rfl := Except.ok.inj (hchallenges.symm.trans hchallenges')
    obtain rfl := Except.ok.inj hok
    rw [lookupInput_eq_ok hinput, List.flatMap_singleton]
    exact matches_pushInstances hpush (by decide) hlength hevals fun _ => rfl
  case h_3 n =>
    simp only [Outcome.bind_eq_ok] at hinputs hinstances
    obtain ⟨⟨plain, signedColumns⟩, hsplit, zero, hzero, zeroInput, hzeroInput, signed, hsigned',
      signedInput, hsignedInput, hok⟩ := hinputs
    obtain ⟨zero', hzero', zeroInstances, hpush, signed', hsigned'', signedInstances, hpush',
      hok'⟩ := hinstances
    obtain rfl := Except.ok.inj (hzero.symm.trans hzero')
    obtain rfl := Except.ok.inj (hsigned'.symm.trans hsigned'')
    obtain rfl := Except.ok.inj hok
    obtain rfl := Except.ok.inj hok'
    obtain ⟨_, rfl, rfl⟩ := splitAtMid_eq_ok.mp hsplit
    rw [lookupInput_eq_ok hzeroInput, lookupInput_eq_ok hsignedInput, List.flatMap_cons,
      List.flatMap_singleton]
    apply List.rel_append
    · apply matches_pushInstances hpush (by decide) _ _ fun _ => rfl
      · rw [List.length_take, htwo]
        omega
      · exact fun column hcolumn => hevals column (List.mem_of_mem_take hcolumn)
    · apply matches_pushInstances hpush' (by decide) _ _ fun _ => rfl
      · rw [List.length_drop, htwo']
        omega
      · exact fun column hcolumn => hevals column (List.mem_of_mem_drop hcolumn)

/-- The regular instances of one chunk. -/
def LookupInputConfig.chunkInstances (self : LookupInputConfig) (fl : Float32Ops)
    (storage : ChallengeStorage F) (shift value : F × F) (fullVars : Nat) :
    Outcome (List (LogUpVerifierInstance F)) := do
  let shifted ← pushInstances self.chunkingInfo.numberOfShiftedChunks shift
    Table.newShiftCheck.numColumns fullVars
  let values ← pushInstances self.chunkingInfo.numberOfValueChunks value
    self.chunkingInfo.table.numColumns fullVars
  let zeroing ← self.zeroingInstances fl storage fullVars
  .ok (shifted ++ values ++ zeroing)

/-- The inputs of a chunk are its instances. -/
theorem matches_chunkInputs {shift value : F × F} {inputMles outputMles : List (List F)}
    {columns : ChunkColumns (List F)}
    (hsigned : self.chunkingInfo.isSigned = self.chunkingInfo.table.isSigned)
    (hcolumns : sortColumns self.chunkingInfo inputMles outputMles = .ok columns)
    (hfit : ColumnsFit self.chunkingInfo vars columns)
    (hinputs : self.chunkInputs fl storage shift value (inputMles, outputMles) = .ok inputs)
    (hinstances : self.chunkInstances fl storage shift value vars = .ok instances) :
    List.Forall₂ MatchesInstance (inputs.flatMap LogUpInput.circuitInputs) instances := by
  simp only [LookupInputConfig.chunkInputs, hcolumns, Outcome.ok_bind, Outcome.bind_eq_ok] at hinputs
  simp only [LookupInputConfig.chunkInstances, Outcome.bind_eq_ok] at hinstances
  obtain ⟨shiftInput, hshift, valueInput, hvalue, zeroing, hzeroing, hok⟩ := hinputs
  obtain ⟨shiftInstances, hshift', valueInstances, hvalue', zeroInstances, hzeroing', hok'⟩ :=
    hinstances
  obtain rfl := Except.ok.inj hok
  obtain rfl := Except.ok.inj hok'
  have hone : Table.newShiftCheck.numColumns = 1 := rfl
  have hpos : 0 < self.chunkingInfo.table.numColumns := by
    have hcolumns := TableType.numColumns_eq self.chunkingInfo.table.operation
    show 0 < self.chunkingInfo.table.operation.numColumns
    omega
  rw [lookupInput_eq_ok hshift, lookupInput_eq_ok hvalue, List.flatMap_cons, List.flatMap_cons,
    List.append_assoc]
  apply List.rel_append
  · apply matches_pushInstances hshift' (by decide) _ _ fun hne => absurd hone hne
    · rw [hfit.shifted, hone, Nat.mul_one]
    · intro column hcolumn
      exact hfit.evaluations column (by simp [hcolumn])
  · apply List.rel_append
    · apply matches_pushInstances hvalue' hpos hfit.value _ fun _ => rfl
      intro column hcolumn
      exact hfit.evaluations column (by simp [hcolumn])
    · apply matches_zeroingInputs hsigned hzeroing hzeroing' hfit.zeroing
      intro column hcolumn
      exact hfit.evaluations column (by simp [hcolumn])

/-- The same step for every chunk. -/
theorem foldlM_range_append {α β : Type} {chunk : Outcome (List α × List β)} {n : Nat}
    {step : List α × List β → Nat → Outcome (List α × List β)}
    (hstep : ∀ acc i, step acc i = do
      let parts ← chunk
      .ok (acc.1 ++ parts.1, acc.2 ++ parts.2))
    {result : List α × List β} (h : (List.range n).foldlM step ([], []) = .ok result) :
    ∃ parts, (n ≠ 0 → chunk = .ok parts) ∧
      result = ((List.replicate n parts.1).flatten, (List.replicate n parts.2).flatten) := by
  induction n generalizing result with
  | zero => exact ⟨([], []), fun h => absurd rfl h, (Except.ok.inj h).symm⟩
  | succ n ih =>
    rw [List.range_succ, List.foldlM_append, Outcome.bind_eq_ok] at h
    obtain ⟨acc, hacc, hlast⟩ := h
    rw [List.foldlM_cons, hstep] at hlast
    simp only [List.foldlM_nil, bind_pure, Outcome.bind_eq_ok] at hlast
    obtain ⟨last, hchunk, hresult⟩ := hlast
    obtain ⟨parts, hparts, rfl⟩ := ih hacc
    refine ⟨last, fun _ => hchunk, ?_⟩
    rw [← Except.ok.inj hresult]
    rcases Nat.eq_zero_or_pos n with rfl | hpos
    · simp
    · obtain rfl := Except.ok.inj ((hparts (by omega)).symm.trans hchunk)
      rw [List.replicate_succ', List.replicate_succ', List.flatten_append, List.flatten_append]
      simp

/-- The instances of the verifier: those of every chunk, then the normalisation checks. -/
theorem createLogupVerifierInstances_eq_ok
    (h : self.createLogupVerifierInstances fl storage = .ok instances) :
    ∃ normDimSize lastDim shift value chunk norm,
      self.unpaddedInputShape.lastDims = .ok (normDimSize, lastDim) ∧
      LookupInputConfig.challengesOf fl storage Table.newShiftCheck "ShiftCheckTable" = .ok shift ∧
      LookupInputConfig.challengesOf fl storage self.chunkingInfo.table "ValueTable" = .ok value ∧
      (self.numberOfChunks ≠ 0 →
        self.chunkInstances fl storage shift value
            (ceilLog2 (nextPowerOfTwo normDimSize * nextPowerOfTwo lastDim)) = .ok chunk ∧
          self.computeNormalisationLookupVerifierInstances (shift.1, 1) (ceilLog2 normDimSize) =
            .ok norm) ∧
      instances = (List.replicate self.numberOfChunks chunk).flatten ++
        (List.replicate self.numberOfChunks norm).flatten := by
  simp only [LookupInputConfig.createLogupVerifierInstances, Outcome.bind_eq_ok] at h
  obtain ⟨⟨normDimSize, lastDim⟩, hdims, shift, hshift, value, hvalue, result, hresult, hok⟩ := h
  have hchunks := @foldlM_range_append _ _ (do
      let chunk ← self.chunkInstances fl storage shift value
        (ceilLog2 (nextPowerOfTwo normDimSize * nextPowerOfTwo lastDim))
      let norm ← self.computeNormalisationLookupVerifierInstances (shift.1, 1) (ceilLog2 normDimSize)
      .ok (chunk, norm)) self.numberOfChunks
  obtain ⟨parts, hparts, rfl⟩ := hchunks (by
    intro acc i
    simp only [LookupInputConfig.chunkInstances, bind_assoc, Outcome.ok_bind, List.append_assoc])
    hresult
  refine ⟨normDimSize, lastDim, shift, value, parts.1, parts.2, hdims, hshift, hvalue, fun hne => ?_,
    (Except.ok.inj hok).symm⟩
  have hparts := hparts hne
  simp only [Outcome.bind_eq_ok] at hparts
  obtain ⟨chunk, hchunk, norm, hnorm, hpair⟩ := hparts
  rw [← Except.ok.inj hpair]
  exact ⟨hchunk, hnorm⟩

/-! ## The checks of a normalisation -/

omit [Field F] in
/-- The blocks of a tensor. -/
theorem prod_eq_of_lastDims {shape : Shape} {secondLastDim lastDim : Nat}
    (h : shape.lastDims = .ok (secondLastDim, lastDim)) :
    shape.prod = (shape.take (shape.rank - 2)).prod * (secondLastDim * lastDim) ∧
      shape.lastDim = .ok lastDim := by
  obtain ⟨dims, rfl⟩ : ∃ dims : Shape, shape = dims.reverse := ⟨shape.reverse, by simp⟩
  unfold Shape.lastDims Shape.lastDim Shape.rank at *
  rw [List.reverse_reverse] at h
  match dims, h with
  | [last], h =>
    obtain ⟨rfl, rfl⟩ := Prod.mk.inj (Except.ok.inj h)
    simp
  | last :: secondLast :: rest, h =>
    obtain ⟨rfl, rfl⟩ := Prod.mk.inj (Except.ok.inj h)
    have htake : (last :: secondLast :: rest).reverse.take
        ((last :: secondLast :: rest).reverse.length - 2) = rest.reverse := by
      rw [List.reverse_cons, List.reverse_cons, List.append_assoc]
      exact List.take_left' (by simp)
    rw [htake, List.getLast?_reverse, List.head?_cons]
    refine ⟨?_, rfl⟩
    simp [List.prod_append]

/-- A check has one padded column for each chunk. -/
theorem checkInput_eq_ok {offset normConst : Int} {rowValue : List Int → Int} {data : List Int}
    {count secondLastDim lastDim : Nat} {challenges : F × F} (hlast : 0 < lastDim)
    (hsecond : 0 < secondLastDim) (hdata : data.length = count * (secondLastDim * lastDim))
    (h : LookupVariant.checkInput offset normConst rowValue lastDim
      (pieces data (secondLastDim * lastDim)) challenges = .ok input) :
    ∃ columns, input = .lookup columns challenges.1 challenges.2 1 ∧ columns.length = count ∧
      ∀ column ∈ columns, column.length = nextPowerOfTwo secondLastDim := by
  simp only [LookupVariant.checkInput, Outcome.bind_eq_ok] at h
  obtain ⟨columns, hcolumns, hinput⟩ := h
  have hsize : 0 < secondLastDim * lastDim := Nat.mul_pos hsecond hlast
  have hall := Outcome.forall₂_of_mapM_eq_ok hcolumns
  refine ⟨columns, newLookup_eq_ok hinput, ?_, fun column hcolumn => ?_⟩
  · rw [← hall.length_eq, pieces_of_length hsize hdata, List.length_map, List.length_range]
  · obtain ⟨chunk, hchunk, hcheck⟩ := Outcome.exists_of_mem_mapM_eq_ok hcolumns hcolumn
    have hlength := length_of_mem_pieces hsize hdata hchunk
    simp only [LookupVariant.checkColumn, Outcome.bind_eq_ok, chunksOf_eq_ok] at hcheck
    obtain ⟨rows, ⟨_, rfl⟩, hok⟩ := hcheck
    have hge := le_nextPowerOfTwo secondLastDim
    rw [← Except.ok.inj hok, toField, List.length_map, List.length_append, List.length_map,
      pieces_of_length hlast hlength, List.length_map, List.length_range, List.length_replicate,
      hlength, Nat.mul_div_cancel _ hlast, Nat.add_sub_cancel' hge]

omit [Field F] in
/-- Checks with one column for each chunk are the instances that are pushed chunk by chunk. -/
theorem matches_checks {norm : List (LogUpVerifierInstance F)} {separation' : F}
    {count perChunk vars : Nat}
    (hpush : LookupInputConfig.pushInstances perChunk (constant, separation') 1 vars = .ok norm)
    (hlength : inputs.length = perChunk)
    (hinputs : ∀ input ∈ inputs, ∃ columns, input = .lookup columns constant separation 1 ∧
      columns.length = count ∧ ∀ column ∈ columns, column.length = 2 ^ vars) :
    List.Forall₂ MatchesInstance (inputs.flatMap LogUpInput.circuitInputs)
      (List.replicate count norm).flatten := by
  unfold LookupInputConfig.pushInstances at hpush
  split at hpush
  · next hzero =>
    obtain rfl := Except.ok.inj hpush
    obtain rfl := List.length_eq_zero_iff.mp (hlength.trans hzero)
    simp
  · simp only [Outcome.bind_eq_ok, usizeSub_eq_ok] at hpush
    obtain ⟨numVars, ⟨hvars, rfl⟩, hpush⟩ := hpush
    obtain rfl := Except.ok.inj hpush
    rw [List.flatten_replicate_replicate]
    apply forall₂_replicate
    · have hcount : ∀ input ∈ inputs, input.circuitInputs.length = count := by
        intro input hinput
        obtain ⟨columns, rfl, hcolumns, _⟩ := hinputs input hinput
        rw [LogUpInput.circuitInputs, pieces_one, List.length_map, List.length_map, hcolumns]
      rw [List.length_flatMap, List.map_congr_left hcount, List.map_const', List.sum_replicate,
        hlength, smul_eq_mul, Nat.mul_comm]
    · intro circuit hcircuit
      obtain ⟨input, hinput, hmem⟩ := List.mem_flatMap.mp hcircuit
      obtain ⟨columns, rfl, _, hevals⟩ := hinputs input hinput
      rw [LogUpInput.circuitInputs, pieces_one, List.map_map] at hmem
      obtain ⟨column, hcolumn, rfl⟩ := List.mem_map.mp hmem
      constructor
      case constant => rfl
      case separation => exact fun hne => absurd rfl hne
      case numColumns => rfl
      case evaluations =>
        intro column' hcolumn'
        rw [List.mem_singleton.mp hcolumn', hevals column hcolumn, Nat.sub_add_cancel hvars]
      case instanceType => rfl

end Instances

/-! ## The blocks of a witness -/

theorem length_of_mapM_eq_ok {α β : Type} {f : α → Outcome β} {l : List α} {r : List β}
    (h : l.mapM f = .ok r) : r.length = l.length :=
  (Outcome.forall₂_of_mapM_eq_ok h).length_eq.symm

theorem mem_interleave {α : Type} {inputs outputs : List α} {x : α}
    (h : x ∈ interleave inputs outputs) : x ∈ inputs ∨ x ∈ outputs := by
  obtain ⟨⟨input, output⟩, hpair, hx⟩ := List.mem_flatMap.mp h
  have hmem := List.of_mem_zip hpair
  rcases List.mem_cons.mp hx with rfl | hx
  · exact .inl hmem.1
  · obtain rfl := List.mem_singleton.mp hx
    exact .inr hmem.2

/-- The lookups of chunks. Without zeroing chunks there is nothing to look up. -/
theorem tableOutput_eq_ok {fl : Float32Ops} {info : ChunkingInfo} {valueTable : Table}
    {chunkedInput : ChunkedInput} {chunkedOutput : ChunkedOutput}
    (hzeroing : chunkedInput.zeroingChunks.length = info.numberOfZeroingChunks)
    (h : info.tableOutput fl chunkedInput valueTable = .ok chunkedOutput) :
    chunkedInput.valueChunks.mapM (ChunkingInfo.chunkOutput fl valueTable) =
        .ok chunkedOutput.valueChunkOutputs ∧
      chunkedInput.zeroingChunks.zipIdx.mapM
          (fun (chunk, i) => ChunkingInfo.chunkOutput fl (info.zeroingTable i) chunk) =
        .ok chunkedOutput.zeroingChunkOutputs := by
  unfold ChunkingInfo.tableOutput at h
  rw [Outcome.bind_eq_ok] at h
  obtain ⟨values, hvalues, h⟩ := h
  by_cases hzero : info.numberOfZeroingChunks = 0
  · rw [if_pos hzero] at h
    obtain rfl := Except.ok.inj h
    rw [hzero] at hzeroing
    rw [List.length_eq_zero_iff.mp hzeroing]
    exact ⟨hvalues, rfl⟩
  · rw [if_neg hzero] at h
    simp only [Outcome.bind_eq_ok] at h
    obtain ⟨zeroing, hzeroing, hok⟩ := h
    obtain rfl := Except.ok.inj hok
    exact ⟨hvalues, hzeroing⟩

/-- The decomposition of a block and its lookups. -/
theorem blockFits_of_tableOutput {fl : Float32Ops} {info : ChunkingInfo} {valueTable : Table}
    {data : List Int} {chunkedOutput : ChunkedOutput}
    (h : info.tableOutput fl (info.decomposeInput data) valueTable = .ok chunkedOutput) :
    BlockFits info data.length (info.decomposeInput data) chunkedOutput := by
  have hlookups : ∀ {table : Table} {chunk outputs : List Int},
      ChunkingInfo.chunkOutput fl table chunk = .ok outputs → outputs.length = chunk.length :=
    fun h => length_of_mapM_eq_ok h
  have hcount : (info.decomposeInput data).zeroingChunks.length = info.numberOfZeroingChunks := by
    simp [ChunkingInfo.decomposeInput_eq]
  obtain ⟨hvalues, hzeroing⟩ := tableOutput_eq_ok hcount h
  rw [ChunkingInfo.decomposeInput_eq] at hvalues hzeroing ⊢
  constructor
  case shifted => simp
  case value => simp
  case zeroing => simp
  case valueOutputs => simpa using length_of_mapM_eq_ok hvalues
  case zeroingOutputs => simpa using length_of_mapM_eq_ok hzeroing
  case inputSize =>
    intro chunk hchunk
    simp only [List.mem_append, List.mem_map] at hchunk
    obtain (⟨_, _, rfl⟩ | ⟨_, _, rfl⟩) | ⟨_, _, rfl⟩ := hchunk <;> exact List.length_map _
  case outputSize =>
    intro outputs houtputs
    rcases List.mem_append.mp houtputs with hmem | hmem
    · obtain ⟨chunk, hchunk, hlookup⟩ := Outcome.exists_of_mem_mapM_eq_ok hvalues hmem
      obtain ⟨_, _, rfl⟩ := List.mem_map.mp hchunk
      rw [hlookups hlookup, List.length_map]
    · obtain ⟨⟨chunk, i⟩, hchunk, hlookup⟩ := Outcome.exists_of_mem_mapM_eq_ok hzeroing hmem
      obtain ⟨_, _, rfl⟩ := List.mem_map.mp (List.fst_mem_of_mem_zipIdx hchunk)
      rw [hlookups hlookup, List.length_map]

section Block

variable {F : Type} [Field F] {info : ChunkingInfo} {size : Nat} {chunkedInput : ChunkedInput}
  {chunkedOutput : ChunkedOutput}

theorem numColumns_cases (table : Table) : table.numColumns = 1 ∨ table.numColumns = 2 :=
  TableType.numColumns_eq table.operation

theorem BlockFits.length_toEvals (h : BlockFits info size chunkedInput chunkedOutput) :
    (chunkedInput.toEvals F info.table.numColumns).length = info.totalInputsPerChunk := by
  have hvalue : (if info.table.numColumns ≠ 1 then chunkedInput.valueChunks else []).length =
      info.numberOfValueChunks * (info.table.numColumns - 1) := by
    rcases numColumns_cases info.table with hone | htwo
    · simp [hone]
    · simp [htwo, h.value]
  rw [ChunkedInput.toEvals, List.length_map, List.length_append, List.length_append, hvalue,
    h.shifted, h.zeroing]
  rfl

theorem BlockFits.length_outputEvals (h : BlockFits info size chunkedInput chunkedOutput) :
    (chunkedOutput.toEvals F).length = info.totalOutputsPerChunk := by
  rw [ChunkedOutput.toEvals, List.length_map, List.length_append, h.valueOutputs,
    h.zeroingOutputs]
  rfl

theorem BlockFits.columnsFit {vars : Nat}
    (h : BlockFits info (2 ^ vars) chunkedInput chunkedOutput) :
    ColumnsFit info vars ((blockColumns info chunkedInput chunkedOutput).map (toField F)) := by
  have hsize : ∀ column : List Int, column ∈ (blockColumns info chunkedInput chunkedOutput).shifted ++
      (blockColumns info chunkedInput chunkedOutput).value ++
      (blockColumns info chunkedInput chunkedOutput).zeroing → column.length = 2 ^ vars := by
    intro column hcolumn
    have hinput := h.inputSize column
    have houtput := h.outputSize column
    simp only [List.mem_append] at hcolumn hinput houtput
    rcases hcolumn with (hshifted | hvalue) | hzeroing
    · exact hinput (.inl (.inl hshifted))
    · simp only [blockColumns] at hvalue
      split at hvalue
      · exact houtput (.inl hvalue)
      · exact (mem_interleave hvalue).elim (fun h => hinput (.inl (.inr h)))
          fun h => houtput (.inl h)
    · exact (mem_interleave hzeroing).elim (fun h => hinput (.inr h)) fun h => houtput (.inr h)
  constructor
  case shifted => exact (List.length_map _).trans h.shifted
  case value =>
    refine (List.length_map _).trans ?_
    simp only [blockColumns]
    rcases numColumns_cases info.table with hone | htwo
    · rw [if_pos hone, hone, Nat.mul_one, h.valueOutputs]
    · rw [if_neg (by omega), htwo, length_interleave (h.value.trans h.valueOutputs.symm), h.value]
  case zeroing =>
    rw [← h.zeroing, ← length_interleave (h.zeroing.trans h.zeroingOutputs.symm)]
    exact List.length_map _
  case evaluations =>
    intro column hcolumn
    simp only [ChunkColumns.map, ← List.map_append] at hcolumn
    obtain ⟨chunk, hchunk, rfl⟩ := List.mem_map.mp hcolumn
    rw [toField, List.length_map]
    exact hsize chunk hchunk

end Block

end DeepProve
