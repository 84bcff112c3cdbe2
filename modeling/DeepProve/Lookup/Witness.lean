import DeepProve.Lookup.Outputs
import DeepProve.Lookup.VariantVerifier
import DeepProve.Lookup.WitnessGen
import DeepProve.Tensor

/-!
# The witness of a lookup layer

`generate_witness` and `LookupOpWitness` of `lookup/operation/mod.rs`: each 2D block of the
input is padded, rescaled and decomposed, and its chunks are looked up. The tensor is in its
unpadded form, row by row.
-/

namespace DeepProve

structure LookupOpWitness where
  chunkedInputs : List ChunkedInput
  chunkedOutputs : List ChunkedOutput
  deriving DecidableEq, Repr

namespace LookupOp

variable (self : LookupOp)

/-- The value that is decomposed. -/
def rescale (x : Int) : Int := x * self.fixedPointMultiplier + self.roundingConstant

/-- `chunk_data`: the rows of a block and the block are filled up with the padding value. -/
def chunkData (lastDim lastDimDiff chunkDiff : Nat) (chunk : List Int) : Outcome (List Int) := do
  let rows ← chunksOf chunk lastDim
  .ok (rows.flatMap (fun row =>
      row.map self.rescale ++ List.replicate lastDimDiff (self.rescale self.paddingValue)) ++
    List.replicate chunkDiff (self.rescale self.paddingValue))

/-- `generate_witness`, for a tensor of the given shape. -/
def generateWitness (fl : Float32Ops) (shape : Shape) (input : List Int) (valueTable : Table) :
    Outcome LookupOpWitness := do
  ensure (!shape.isEmpty) "Input tensor must have rank at least 1"
  let (secondLastDim, lastDim) ← shape.lastDims
  let chunkSize := secondLastDim * lastDim
  let paddedLastDim := nextPowerOfTwo lastDim
  let lastDimDiff := paddedLastDim - lastDim
  let paddedSecondLastDim := nextPowerOfTwo secondLastDim
  let chunkDiff := (paddedSecondLastDim - secondLastDim) * paddedLastDim
  let chunkingInfo ← self.chunkingInfo valueTable
  let chunks ← chunksOf input chunkSize
  let chunkedInputs ← chunks.mapM fun chunk => do
    let data ← self.chunkData lastDim lastDimDiff chunkDiff chunk
    .ok (chunkingInfo.decomposeInput data)
  let chunkedOutputs ← chunkedInputs.mapM fun chunkedInput =>
    chunkingInfo.tableOutput fl chunkedInput valueTable
  .ok ⟨chunkedInputs, chunkedOutputs⟩

end LookupOp

/-! ## The polynomials of a witness -/

/-- `to_evals` of the inputs; the values of a table with one column are not committed to. -/
def ChunkedInput.toEvals (F : Type) [Field F] (self : ChunkedInput) (numValueColumns : Nat) :
    List (List F) :=
  (self.shiftedChunks ++ (if numValueColumns ≠ 1 then self.valueChunks else []) ++
    self.zeroingChunks).map (toField F)

/-- `to_evals` of the outputs. -/
def ChunkedOutput.toEvals (F : Type) [Field F] (self : ChunkedOutput) : List (List F) :=
  (self.valueChunkOutputs ++ self.zeroingChunkOutputs).map (toField F)

namespace LookupOpWitness

variable (self : LookupOpWitness)

/-- `input_mle_evals`. -/
def inputMleEvals (F : Type) [Field F] (numValueColumns : Nat) : List (List F) :=
  self.chunkedInputs.flatMap fun chunkedInput => chunkedInput.toEvals F numValueColumns

/-- `output_mle_evals`. -/
def outputMleEvals (F : Type) [Field F] : List (List F) :=
  self.chunkedOutputs.flatMap (ChunkedOutput.toEvals F)

end LookupOpWitness

/-! ## The blocks of a witness -/

namespace LookupOp

variable (self : LookupOp)

/-- A block of `secondLastDim` rows, padded and rescaled. -/
def blockData (secondLastDim lastDim : Nat) (chunk : List Int) : List Int :=
  (pieces chunk lastDim).flatMap (fun row => row.map self.rescale ++
      List.replicate (nextPowerOfTwo lastDim - lastDim) (self.rescale self.paddingValue)) ++
    List.replicate ((nextPowerOfTwo secondLastDim - secondLastDim) * nextPowerOfTwo lastDim)
      (self.rescale self.paddingValue)

/-- The entry of a padded block. -/
def blockEntry (secondLastDim lastDim : Nat) (chunk : List Int) (i : Nat) : Int :=
  if i / nextPowerOfTwo lastDim < secondLastDim ∧ i % nextPowerOfTwo lastDim < lastDim then
    chunk.getD (i / nextPowerOfTwo lastDim * lastDim + i % nextPowerOfTwo lastDim) 0
  else
    self.paddingValue

theorem blockData_eq {secondLastDim lastDim : Nat} (hlast : 0 < lastDim) {chunk : List Int}
    (h : chunk.length = secondLastDim * lastDim) :
    self.blockData secondLastDim lastDim chunk =
      (List.range (nextPowerOfTwo secondLastDim * nextPowerOfTwo lastDim)).map fun i =>
        self.rescale (self.blockEntry secondLastDim lastDim chunk i) := by
  have hL := le_nextPowerOfTwo lastDim
  have hS := le_nextPowerOfTwo secondLastDim
  -- the rows with data
  have hrow : ∀ r < secondLastDim,
      ((chunk.drop (r * lastDim)).take lastDim).map self.rescale ++
          List.replicate (nextPowerOfTwo lastDim - lastDim) (self.rescale self.paddingValue) =
        (List.range (nextPowerOfTwo lastDim)).map fun c => self.rescale
          (if c < lastDim then chunk.getD (r * lastDim + c) 0 else self.paddingValue) := by
    intro r hr
    have hle : (r + 1) * lastDim ≤ secondLastDim * lastDim := Nat.mul_le_mul_right _ hr
    rw [Nat.succ_mul] at hle
    apply List.ext_getElem
    · simp
      omega
    · intro c hc _
      by_cases hdata : c < lastDim
      · have hlen : r * lastDim + c < chunk.length := by omega
        rw [List.getElem_append_left (by simp; omega)]
        simp [hdata, hlen]
      · rw [List.getElem_append_right (by simp; omega)]
        simp [hdata]
  have hrows : (pieces chunk lastDim).flatMap (fun row => row.map self.rescale ++
      List.replicate (nextPowerOfTwo lastDim - lastDim) (self.rescale self.paddingValue)) =
        (List.range (secondLastDim * nextPowerOfTwo lastDim)).map fun i =>
          self.rescale (if i % nextPowerOfTwo lastDim < lastDim then
            chunk.getD (i / nextPowerOfTwo lastDim * lastDim + i % nextPowerOfTwo lastDim) 0
          else self.paddingValue) := by
    rw [pieces_of_length hlast h, List.flatMap_map, ← List.flatMap_range_map_range fun r c =>
      self.rescale (if c < lastDim then chunk.getD (r * lastDim + c) 0 else self.paddingValue)]
    apply List.flatMap_congr
    intro r hr
    exact hrow r (List.mem_range.mp hr)
  have hsplit : nextPowerOfTwo secondLastDim * nextPowerOfTwo lastDim =
      secondLastDim * nextPowerOfTwo lastDim +
        (nextPowerOfTwo secondLastDim - secondLastDim) * nextPowerOfTwo lastDim := by
    rw [← Nat.add_mul, Nat.add_sub_cancel' hS]
  have hLpos : 0 < nextPowerOfTwo lastDim := by omega
  rw [blockData, hrows, hsplit, List.range_add, List.map_append, List.map_map]
  congr 1
  · apply List.map_congr_left
    intro i hi
    have hi : i / nextPowerOfTwo lastDim < secondLastDim :=
      Nat.div_lt_of_lt_mul (Nat.mul_comm _ _ ▸ List.mem_range.mp hi)
    simp [blockEntry, hi]
  · -- the rows of padding
    symm
    rw [List.eq_replicate_iff]
    refine ⟨by simp, fun x hx => ?_⟩
    obtain ⟨i, _, rfl⟩ := List.mem_map.mp hx
    have hpad : ¬ (secondLastDim * nextPowerOfTwo lastDim + i) / nextPowerOfTwo lastDim <
        secondLastDim := by
      rw [Nat.mul_comm, Nat.mul_add_div hLpos]
      exact Nat.not_lt.mpr (Nat.le_add_right _ _)
    simp [blockEntry, hpad]

/-- The blocks of a witness: each is padded, rescaled and decomposed. -/
theorem generateWitness_eq_ok {fl : Float32Ops} {shape : Shape} {input : List Int}
    {valueTable : Table} {witness : LookupOpWitness}
    (h : self.generateWitness fl shape input valueTable = .ok witness) :
    ∃ secondLastDim lastDim chunkingInfo, shape.lastDims = .ok (secondLastDim, lastDim) ∧
      0 < secondLastDim ∧ 0 < lastDim ∧ self.chunkingInfo valueTable = .ok chunkingInfo ∧
      witness.chunkedInputs = (pieces input (secondLastDim * lastDim)).map
        (fun chunk => chunkingInfo.decomposeInput (self.blockData secondLastDim lastDim chunk)) ∧
      List.Forall₂ (fun chunkedInput chunkedOutput =>
          chunkingInfo.tableOutput fl chunkedInput valueTable = .ok chunkedOutput)
        witness.chunkedInputs witness.chunkedOutputs := by
  simp only [generateWitness, Outcome.bind_eq_ok] at h
  obtain ⟨_, _, ⟨secondLastDim, lastDim⟩, hdims, chunkingInfo, hinfo, chunks, hchunks,
    chunkedInputs, hinputs, chunkedOutputs, houtputs, hwitness⟩ := h
  obtain rfl := Except.ok.inj hwitness
  obtain ⟨hsize, rfl⟩ := chunksOf_eq_ok.mp hchunks
  have hsecond : 0 < secondLastDim := Nat.pos_of_ne_zero fun h => hsize (by simp [h])
  have hlast : 0 < lastDim := Nat.pos_of_ne_zero fun h => hsize (by simp [h])
  refine ⟨secondLastDim, lastDim, chunkingInfo, hdims, hsecond, hlast, hinfo, ?_,
    Outcome.forall₂_of_mapM_eq_ok houtputs⟩
  apply Outcome.eq_map_of_mapM_eq_ok _ hinputs
  intro chunk chunkedInput hchunk
  simp only [chunkData, Outcome.bind_eq_ok, chunksOf_eq_ok] at hchunk
  obtain ⟨data, ⟨rows, ⟨_, hrows⟩, hdata⟩, hchunk⟩ := hchunk
  rw [← Except.ok.inj hchunk, ← Except.ok.inj hdata, hrows]
  rfl

end LookupOp

end DeepProve
