import DeepProve.Lookup.Layout

/-!
# A lookup layer is laid out once

What the prover and the verifier of a lookup layer agree about: the circuits of the prover are
the instances of the verifier, the evaluations of a chunk are split in the same way where the
sumcheck is prepared and where the claims are made, and each fraction is charged to the table
that its instance looks values up in.
-/

namespace DeepProve

/-- The prover computes checks from an output of the shape of the input, if there are any. -/
def LookupVariant.OutputFits (variant : LookupVariant) (shape : Shape) :
    Option UnpaddedTensor → Prop
  | some output => variant.requiresOutput = true ∧ output.unpaddedShape = shape
  | none => variant.requiresOutput = false

section Checks

variable {F : Type} [Field F] {self : LookupInputConfig} {output : Option UnpaddedTensor}
  {shift : F × F} {normDimSize lastDim : Nat} {inputs : List (LogUpInput F)}

/-- One input for each check, with one column for each chunk. -/
theorem normalisationInputs_eq_ok
    (hdims : self.unpaddedInputShape.lastDims = .ok (normDimSize, lastDim))
    (hsecond : 0 < normDimSize) (hlast : 0 < lastDim)
    (houtput : self.variant.OutputFits self.unpaddedInputShape output)
    (h : self.normalisationInputs output shift = .ok inputs) :
    inputs.length = self.variant.normLookupsPerChunk ∧
      (self.numberOfChunks = 0 → inputs = []) ∧
      ∀ input ∈ inputs, ∃ columns, input = .lookup columns shift.1 shift.2 1 ∧
        columns.length = self.numberOfChunks ∧
        ∀ column ∈ columns, column.length = 2 ^ ceilLog2 normDimSize := by
  cases output with
  | none =>
    obtain rfl := Except.ok.inj h
    have hnone : self.variant.requiresOutput = false := houtput
    refine ⟨?_, fun _ => rfl, fun _ hinput => nomatch hinput⟩
    generalize self.variant = variant at hnone
    cases variant with
    | standard => rfl
    | glu => rfl
    | softmax => cases hnone
    | normalisation => cases hnone
  | some output =>
    obtain ⟨hrequires, hshape⟩ := houtput
    obtain ⟨hprod, hlastDim⟩ := prod_eq_of_lastDims hdims
    have hdata : output.data.length = self.numberOfChunks * (normDimSize * lastDim) := by
      rw [output.length_eq, hshape]
      exact hprod
    unfold LookupInputConfig.normalisationInputs at h
    simp only [LookupVariant.computeExtraLookupInputs, hshape] at h
    by_cases hzero : self.numberOfChunks = 0
    · rw [if_pos hzero] at h
      cases h
    · have hsize : Shape.numel self.unpaddedInputShape / self.numberOfChunks =
          normDimSize * lastDim := by
        unfold Shape.numel
        rw [hprod]
        exact Nat.mul_div_cancel_left _ (Nat.pos_of_ne_zero hzero)
      rw [if_neg hzero] at h
      simp only [Outcome.ok_bind, hsize, hlastDim, Outcome.bind_eq_ok, chunksOf_eq_ok] at h
      obtain ⟨_, ⟨_, rfl⟩, h⟩ := h
      have hcheck : ∀ {offset normConst : Int} {rowValue : List Int → Int} {input : LogUpInput F},
          LookupVariant.checkInput offset normConst rowValue lastDim
            (pieces output.data (normDimSize * lastDim)) shift = .ok input →
          ∃ columns, input = .lookup columns shift.1 shift.2 1 ∧
            columns.length = self.numberOfChunks ∧
            ∀ column ∈ columns, column.length = 2 ^ ceilLog2 normDimSize :=
        fun hinput => checkInput_eq_ok hlast hsecond hdata hinput
      cases hvariant : self.variant with
      | standard =>
        rw [hvariant] at hrequires
        cases hrequires
      | glu =>
        rw [hvariant] at hrequires
        cases hrequires
      | softmax normalisedSumValue errorBound =>
        simp only [hvariant, Outcome.bind_eq_ok] at h
        obtain ⟨input, hinput, hok⟩ := h
        obtain rfl := Except.ok.inj hok
        exact ⟨rfl, fun h => absurd h hzero, List.forall_mem_singleton.mpr (hcheck hinput)⟩
      | normalisation normalisedMagnitudeValue magnitudeErrorBound normalisedSumValue hasWeight =>
        simp only [hvariant, Outcome.bind_eq_ok] at h
        obtain ⟨sumsq, hsumsq, h⟩ := h
        cases normalisedSumValue with
        | none =>
          obtain rfl := Except.ok.inj h
          exact ⟨rfl, fun h => absurd h hzero, List.forall_mem_singleton.mpr (hcheck hsumsq)⟩
        | some norm =>
          simp only [Outcome.bind_eq_ok] at h
          obtain ⟨sum, hsum, hok⟩ := h
          obtain rfl := Except.ok.inj hok
          exact ⟨rfl, fun h => absurd h hzero,
            List.forall_mem_cons.mpr ⟨hcheck hsumsq, List.forall_mem_singleton.mpr (hcheck hsum)⟩⟩

/-- The inputs of all checks are the instances of the checks. -/
theorem matches_normalisationInputs {sep : F} {norm : List (LogUpVerifierInstance F)}
    (hdims : self.unpaddedInputShape.lastDims = .ok (normDimSize, lastDim))
    (hsecond : 0 < normDimSize) (hlast : 0 < lastDim)
    (houtput : self.variant.OutputFits self.unpaddedInputShape output)
    (hinputs : self.normalisationInputs output shift = .ok inputs)
    (hnorm : self.numberOfChunks ≠ 0 →
      self.computeNormalisationLookupVerifierInstances (shift.1, sep) (ceilLog2 normDimSize) =
        .ok norm) :
    List.Forall₂ MatchesInstance (inputs.flatMap LogUpInput.circuitInputs)
      (List.replicate self.numberOfChunks norm).flatten := by
  obtain ⟨hlength, hnil, hcolumns⟩ := normalisationInputs_eq_ok hdims hsecond hlast houtput hinputs
  by_cases hzero : self.numberOfChunks = 0
  · rw [hnil hzero, hzero]
    exact List.Forall₂.nil
  · exact matches_checks (hnorm hzero) hlength hcolumns

end Checks

section Layout

variable {F : Type} [Field F] {self : LookupInputConfig} {fl : Float32Ops}
  {storage : ChallengeStorage F}

/-- The blocks of all chunks. -/
structure BlocksFit (config : LookupInputConfig) (vars : Nat) (witness : LookupOpWitness) :
    Prop where
  block : List.Forall₂ (BlockFits config.chunkingInfo (2 ^ vars)) witness.chunkedInputs
    witness.chunkedOutputs
  length : witness.chunkedInputs.length = config.numberOfChunks

variable {inputs : List (LogUpInput F)} {witness : LookupOpWitness}

/-- The blocks that the witness of an operation consists of. -/
theorem blocksFit_of_generateWitness {lookupOp : LookupOp} {shape : Shape} {input : List Int}
    {table : Table} {info : ChunkingInfo} {secondLastDim lastDim : Nat}
    (hinfo : lookupOp.chunkingInfo table = .ok info)
    (hdims : shape.lastDims = .ok (secondLastDim, lastDim)) (hinput : input.length = shape.prod)
    (hwitness : lookupOp.generateWitness fl shape input table = .ok witness) :
    0 < secondLastDim ∧ 0 < lastDim ∧ BlocksFit (lookupOp.inputConfig info shape)
      (ceilLog2 (nextPowerOfTwo secondLastDim * nextPowerOfTwo lastDim)) witness := by
  obtain ⟨secondLastDim', lastDim', info', hdims', hsecond, hlast, hinfo', hinputs, houtputs⟩ :=
    lookupOp.generateWitness_eq_ok hwitness
  obtain rfl := Except.ok.inj (hinfo.symm.trans hinfo')
  obtain ⟨rfl, rfl⟩ := Prod.mk.inj (Except.ok.inj (hdims.symm.trans hdims'))
  have hsize : 0 < secondLastDim * lastDim := Nat.mul_pos hsecond hlast
  have hlength : input.length = (shape.take (shape.rank - 2)).prod * (secondLastDim * lastDim) :=
    hinput.trans (prod_eq_of_lastDims hdims).1
  have hvars : 2 ^ ceilLog2 (nextPowerOfTwo secondLastDim * nextPowerOfTwo lastDim) =
      nextPowerOfTwo secondLastDim * nextPowerOfTwo lastDim := by
    unfold nextPowerOfTwo ceilLog2
    rw [← pow_add, Nat.clog_pow _ _ (by decide)]
  refine ⟨hsecond, hlast, ?_, ?_⟩
  · rw [hinputs, List.forall₂_map_left_iff] at houtputs ⊢
    have hlengths : ∀ chunk ∈ pieces input (secondLastDim * lastDim),
        chunk.length = secondLastDim * lastDim :=
      fun chunk hchunk => length_of_mem_pieces hsize hlength hchunk
    apply ((List.forall₂_and_left _ _).mpr ⟨hlengths, houtputs⟩).imp
    intro chunk chunkedOutput ⟨hchunk, houtput⟩
    have hdata : (lookupOp.blockData secondLastDim lastDim chunk).length =
        2 ^ ceilLog2 (nextPowerOfTwo secondLastDim * nextPowerOfTwo lastDim) := by
      rw [lookupOp.blockData_eq hlast hchunk, List.length_map, List.length_range, hvars]
    exact hdata ▸ blockFits_of_tableOutput houtput
  · rw [hinputs, List.length_map, pieces_of_length hsize hlength, List.length_map,
      List.length_range]
    rfl

variable {vars : Nat}

/-- The inputs of all chunks, and the columns that they are made of. -/
theorem createLogupInputs_eq_ok {output : Option UnpaddedTensor}
    (hfits : BlocksFit self vars witness) (h : self.createLogupInputs fl storage
      (witness.inputMleEvals F self.chunkingInfo.table.numColumns ++ witness.outputMleEvals F)
      output = .ok inputs) :
    ∃ shift value chunkInputs norm,
      LookupInputConfig.challengesOf fl storage Table.newShiftCheck "ShiftCheckTable" = .ok shift ∧
      LookupInputConfig.challengesOf fl storage self.chunkingInfo.table "ValueTable" = .ok value ∧
      (witness.chunkedInputs.zip witness.chunkedOutputs).mapM
        (fun (chunkedInput, chunkedOutput) => self.chunkInputs fl storage shift value
          (chunkedInput.toEvals F self.chunkingInfo.table.numColumns, chunkedOutput.toEvals F)) =
        .ok chunkInputs ∧
      self.normalisationInputs output shift = .ok norm ∧ inputs = chunkInputs.flatten ++ norm := by
  have hinputs : ∀ chunkedInput ∈ witness.chunkedInputs,
      (chunkedInput.toEvals F self.chunkingInfo.table.numColumns).length =
        self.chunkingInfo.totalInputsPerChunk := by
    intro chunkedInput hmem
    obtain ⟨_, _, hfits⟩ := List.exists_of_forall₂_left hfits.block hmem
    exact hfits.length_toEvals
  have houtputs : ∀ chunkedOutput ∈ witness.chunkedOutputs,
      (chunkedOutput.toEvals F).length = self.chunkingInfo.totalOutputsPerChunk := by
    intro chunkedOutput hmem
    obtain ⟨_, _, hfits⟩ := List.exists_of_forall₂_left hfits.block.flip hmem
    exact BlockFits.length_outputEvals hfits
  have hlength : (witness.inputMleEvals F self.chunkingInfo.table.numColumns).length =
      self.numberOfChunks * self.chunkingInfo.totalInputsPerChunk := by
    rw [LookupOpWitness.inputMleEvals, List.length_flatMap, List.map_congr_left hinputs,
      List.map_const', List.sum_replicate, smul_eq_mul, hfits.length]
  simp only [LookupInputConfig.createLogupInputs, Outcome.bind_eq_ok, chunksOf_eq_ok] at h
  obtain ⟨⟨allInputMles, allOutputMles⟩, hsplit, shift, hshift, value, hvalue, inputChunks,
    ⟨hne, rfl⟩, outputChunks, ⟨hne', rfl⟩, chunkInputs, hchunks, norm, hnorm, hok⟩ := h
  obtain ⟨_, hin, hout⟩ := splitAtMid_eq_ok.mp hsplit
  rw [← hlength, List.take_left] at hin
  rw [← hlength, List.drop_left] at hout
  rw [hin, hout, LookupOpWitness.inputMleEvals, LookupOpWitness.outputMleEvals,
    pieces_flatMap (Nat.pos_of_ne_zero hne) hinputs,
    pieces_flatMap (Nat.pos_of_ne_zero hne') houtputs, List.zip_map, List.mapM_map] at hchunks
  exact ⟨shift, value, chunkInputs, norm, hshift, hvalue, hchunks, hnorm, (Except.ok.inj hok).symm⟩

/-- The columns of all circuits, one after the other. -/
def LogUpInput.allColumns (inputs : List (LogUpInput F)) : List (List F) :=
  (inputs.flatMap LogUpInput.circuitInputs).flatMap CircuitInput.columns

omit [Field F] in
theorem allColumns_append (inputs inputs' : List (LogUpInput F)) :
    LogUpInput.allColumns (inputs ++ inputs') =
      LogUpInput.allColumns inputs ++ LogUpInput.allColumns inputs' := by
  simp [LogUpInput.allColumns]

omit [Field F] in
theorem allColumns_lookup {columns : List (List F)} {constant separation : F}
    {count numColumns : Nat} (hpos : 0 < numColumns) (h : columns.length = count * numColumns) :
    LogUpInput.allColumns [.lookup columns constant separation numColumns] = columns := by
  rw [LogUpInput.allColumns, List.flatMap_singleton, LogUpInput.circuitInputs, List.flatMap_map]
  show (pieces columns numColumns).flatMap id = columns
  rw [← List.flatten_eq_flatMap, flatten_pieces hpos h]

/-- The columns of a chunk, in the order of its instances. -/
def ChunkColumns.toList {α : Type} (self : ChunkColumns α) : List α :=
  self.shifted ++ self.value ++ self.zeroing

omit [Field F] in
theorem allColumns_zeroingInputs {columns : List (List F)}
    (hinputs : self.zeroingInputs fl storage columns = .ok inputs)
    (hlength : columns.length = self.chunkingInfo.numberOfZeroingChunks * 2) :
    LogUpInput.allColumns inputs = columns := by
  unfold LookupInputConfig.zeroingInputs at hinputs
  generalize self.chunkingInfo.numberOfZeroingChunks = count at *
  generalize self.chunkingInfo.isSigned = signed at *
  have htwo : Table.newZeroCheck.numColumns = 2 := rfl
  have htwo' : Table.newSignedZeroCheck.numColumns = 2 := rfl
  split at hinputs
  case h_1 =>
    rw [← Except.ok.inj hinputs, List.length_eq_zero_iff.mp hlength]
    rfl
  case h_3 n =>
    simp only [Outcome.bind_eq_ok] at hinputs
    obtain ⟨⟨plain, signed⟩, hsplit, _, _, zeroInput, hzero, _, _, signedInput, hsigned, hok⟩ :=
      hinputs
    obtain ⟨_, rfl, rfl⟩ := splitAtMid_eq_ok.mp hsplit
    have hplain : (columns.take (2 * (n + 1))).length = (n + 1) * 2 := by
      rw [List.length_take]
      omega
    have hlast : (columns.drop (2 * (n + 1))).length = 1 * 2 := by
      rw [List.length_drop]
      omega
    rw [← Except.ok.inj hok, ← List.singleton_append, allColumns_append, lookupInput_eq_ok hzero,
      lookupInput_eq_ok hsigned, htwo, htwo', allColumns_lookup (by decide) hplain,
      allColumns_lookup (by decide) hlast, List.take_append_drop]
  all_goals
    simp only [Outcome.bind_eq_ok] at hinputs
    obtain ⟨_, _, input, hinput, hok⟩ := hinputs
    rw [← Except.ok.inj hok, lookupInput_eq_ok hinput]
    exact allColumns_lookup (by decide) hlength

/-- The circuits of a chunk have its columns. -/
theorem allColumns_chunkInputs {shift value : F × F} {inputMles outputMles : List (List F)}
    {columns : ChunkColumns (List F)}
    (hcolumns : sortColumns self.chunkingInfo inputMles outputMles = .ok columns)
    (hfit : ColumnsFit self.chunkingInfo vars columns)
    (hinputs : self.chunkInputs fl storage shift value (inputMles, outputMles) = .ok inputs) :
    LogUpInput.allColumns inputs = columns.toList := by
  simp only [LookupInputConfig.chunkInputs, hcolumns, Outcome.ok_bind, Outcome.bind_eq_ok] at hinputs
  obtain ⟨shiftInput, hshift, valueInput, hvalue, zeroing, hzeroing, hok⟩ := hinputs
  have hpos : 0 < self.chunkingInfo.table.numColumns := by
    rcases numColumns_cases self.chunkingInfo.table with h | h <;> omega
  have hshifted : columns.shifted.length =
      self.chunkingInfo.numberOfShiftedChunks * Table.newShiftCheck.numColumns :=
    hfit.shifted.trans (Nat.mul_one _).symm
  rw [← Except.ok.inj hok, ← List.singleton_append, ← List.singleton_append (l := zeroing),
    allColumns_append, allColumns_append, lookupInput_eq_ok hshift, lookupInput_eq_ok hvalue,
    allColumns_lookup (by decide) hshifted, allColumns_lookup hpos hfit.value,
    allColumns_zeroingInputs hzeroing hfit.zeroing, ChunkColumns.toList, List.append_assoc]

/-- The chunk of an input, sorted, and the inputs that it becomes. -/
theorem forall₂_chunkInputs {shift value : F × F} {chunkInputs : List (List (LogUpInput F))}
    (hfits : BlocksFit self vars witness)
    (h : (witness.chunkedInputs.zip witness.chunkedOutputs).mapM
      (fun (chunkedInput, chunkedOutput) => self.chunkInputs fl storage shift value
        (chunkedInput.toEvals F self.chunkingInfo.table.numColumns, chunkedOutput.toEvals F)) =
      .ok chunkInputs) :
    List.Forall₂ (fun pair inputs => BlockFits self.chunkingInfo (2 ^ vars) pair.1 pair.2 ∧
        self.chunkInputs fl storage shift value
          (pair.1.toEvals F self.chunkingInfo.table.numColumns, pair.2.toEvals F) = .ok inputs)
      (witness.chunkedInputs.zip witness.chunkedOutputs) chunkInputs := by
  apply (List.forall₂_and_left _ _).mpr ⟨fun pair hpair => ?_, Outcome.forall₂_of_mapM_eq_ok h⟩
  exact List.forall₂_zip hfits.block hpair

variable {output : Option UnpaddedTensor} {inputs : List (LogUpInput F)}
  {witness : LookupOpWitness} {normDimSize lastDim : Nat}

/-- The circuits are the instances of the verifier. -/
theorem matches_logupInputs {instances : List (LogUpVerifierInstance F)}
    (hsigned : self.chunkingInfo.isSigned = self.chunkingInfo.table.isSigned)
    (hdims : self.unpaddedInputShape.lastDims = .ok (normDimSize, lastDim))
    (hsecond : 0 < normDimSize) (hlast : 0 < lastDim)
    (hfits : BlocksFit self
      (ceilLog2 (nextPowerOfTwo normDimSize * nextPowerOfTwo lastDim)) witness)
    (houtput : self.variant.OutputFits self.unpaddedInputShape output)
    (hinputs : self.createLogupInputs fl storage
      (witness.inputMleEvals F self.chunkingInfo.table.numColumns ++ witness.outputMleEvals F)
      output = .ok inputs)
    (hinstances : self.createLogupVerifierInstances fl storage = .ok instances) :
    List.Forall₂ MatchesInstance (inputs.flatMap LogUpInput.circuitInputs) instances := by
  obtain ⟨shift, value, chunkInputs, norm, hshift, hvalue, hchunks, hnorm, rfl⟩ :=
    createLogupInputs_eq_ok hfits hinputs
  obtain ⟨normDimSize', lastDim', shift', value', chunk, normInstances, hdims', hshift', hvalue',
    hparts, rfl⟩ := createLogupVerifierInstances_eq_ok hinstances
  obtain ⟨rfl, rfl⟩ := Prod.mk.inj (Except.ok.inj (hdims.symm.trans hdims'))
  obtain rfl := Except.ok.inj (hshift.symm.trans hshift')
  obtain rfl := Except.ok.inj (hvalue.symm.trans hvalue')
  rw [List.flatMap_append]
  apply List.rel_append
  · -- chunk by chunk
    have hall := forall₂_chunkInputs hfits hchunks
    have hcount : chunkInputs.length = self.numberOfChunks := by
      rw [← hall.length_eq, List.length_zip, ← hfits.block.length_eq, Nat.min_self, hfits.length]
    have hmatch : List.Forall₂ (List.Forall₂ MatchesInstance)
        (chunkInputs.map fun inputs => inputs.flatMap LogUpInput.circuitInputs)
        (List.replicate self.numberOfChunks chunk) := by
      apply forall₂_replicate (by rw [List.length_map, hcount])
      intro circuits hcircuits
      obtain ⟨inputs, hmem, rfl⟩ := List.mem_map.mp hcircuits
      obtain ⟨pair, _, hblock, hok⟩ := List.exists_of_forall₂_left hall.flip hmem
      have hpos : self.numberOfChunks ≠ 0 := by
        rw [← hcount]
        exact List.length_pos_of_mem hmem |>.ne'
      exact matches_chunkInputs hsigned (sortColumns_toEvals hblock) hblock.columnsFit hok
        (hparts hpos).1
    rw [List.flatten_eq_flatMap, List.flatMap_assoc]
    have hflatten := List.rel_flatten hmatch
    rwa [← List.flatMap_def] at hflatten
  · exact matches_normalisationInputs hdims hsecond hlast houtput hnorm fun hne => (hparts hne).2

/-- The columns of the chunks come first, one chunk after the other. -/
theorem allColumns_logupInputs (hfits : BlocksFit self vars witness)
    (hinputs : self.createLogupInputs fl storage
      (witness.inputMleEvals F self.chunkingInfo.table.numColumns ++ witness.outputMleEvals F)
      output = .ok inputs) :
    ∃ checks, LogUpInput.allColumns inputs =
      (witness.chunkedInputs.zip witness.chunkedOutputs).flatMap
        (fun (chunkedInput, chunkedOutput) =>
          (blockColumns self.chunkingInfo chunkedInput chunkedOutput).toList.map (toField F)) ++
        checks := by
  obtain ⟨shift, value, chunkInputs, norm, hshift, hvalue, hchunks, hnorm, rfl⟩ :=
    createLogupInputs_eq_ok hfits hinputs
  have hall := forall₂_chunkInputs hfits hchunks
  refine ⟨LogUpInput.allColumns norm, ?_⟩
  rw [allColumns_append]
  congr 1
  generalize witness.chunkedInputs.zip witness.chunkedOutputs = pairs at hall
  clear hchunks hinputs
  induction hall with
  | nil => rfl
  | cons hpair _ ih =>
    obtain ⟨hblock, hok⟩ := hpair
    rw [List.flatten_cons, allColumns_append, List.flatMap_cons, ih,
      allColumns_chunkInputs (sortColumns_toEvals hblock) hblock.columnsFit hok]
    simp [ChunkColumns.toList, ChunkColumns.map]

end Layout

end DeepProve
