import DeepProve.ForStd.Counts
import DeepProve.Lookup.Context

/-!
# The multiplicities of the tables

`lookup/context.rs`: every layer counts what it looks up in its tables, the counts of the nodes
of a chunk are added up, and each table gets the number of times that each of its rows is looked
up. The multiplicities are a list without the tables; they are paired with the tables of the
lookup context by their position.
-/

namespace DeepProve

/-- `count_elements`. -/
def countElements (i : List Int) : HashMap Int Nat := Std.ExtTreeMap.counts i

/-- The counts of every table, and the polynomials `W` to commit to of every node. -/
structure LookupWitnessGen (W : Type) where
  elementCount : BTreeMap Table (HashMap Int Nat)
  polyToCommit : HashMap NodeId (List W)

namespace LookupWitnessGen

variable {W : Type}

def default : LookupWitnessGen W := ⟨∅, ∅⟩

def insertLogupWitness (self : LookupWitnessGen W) (nodeId : NodeId) (witness : List W) :
    LookupWitnessGen W :=
  { self with polyToCommit := self.polyToCommit.insert nodeId witness }

/-- What was there for the table is replaced. -/
def insertElementCount (self : LookupWitnessGen W) (table : Table) (elements : HashMap Int Nat) :
    LookupWitnessGen W :=
  { self with elementCount := self.elementCount.insert table elements }

def insertLayerWitnessData (self : LookupWitnessGen W) (nodeId : NodeId) (witness : List W)
    (tables : List Table) (elementCounts : List (HashMap Int Nat)) : LookupWitnessGen W :=
  (tables.zip elementCounts).foldl
    (fun self (table, count) => if count.isEmpty then self else self.insertElementCount table count)
    (self.insertLogupWitness nodeId witness)

/-- The counts of a table are added to those that are there. -/
def consumeCounts (counts : BTreeMap Table (HashMap Int Nat))
    (entry : Table × HashMap Int Nat) : BTreeMap Table (HashMap Int Nat) :=
  let (table, elements) := entry
  match counts[table]? with
  | none => counts.insert table elements
  | some aggCount => counts.insert table (aggCount.addCounts elements)

/-- `consume`. -/
def consume (self other : LookupWitnessGen W) : LookupWitnessGen W where
  elementCount := other.elementCount.toList.foldl consumeCounts self.elementCount
  polyToCommit := self.polyToCommit.insertMany other.polyToCommit.toList

/-- The witnesses of all nodes. -/
def consumeAll (witnessGens : List (LookupWitnessGen W)) : LookupWitnessGen W :=
  witnessGens.foldl consume default

section Multiplicities

variable (F : Type) [Field F] [DecidableEq F] (fl : Float32Ops)

/-- The multiplicity of one row: repeated rows share the lookups. -/
def multiplicityOf (tableColumnMap tableLookupData : HashMap Int Nat) (tableVal : Int) :
    Outcome F :=
  match tableLookupData[tableVal]? with
  | some lookupCount => do
    let tableCount ← unwrap tableColumnMap[tableVal]? "called `Option::unwrap()` on a `None` value"
    if tableCount = 1 then
      .ok lookupCount
    else if (tableCount : F) = 0 then
      .error (.panic "Tried to invert zero when computing table multiplicities")
    else
      .ok (lookupCount * (tableCount : F)⁻¹)
  | none => .ok 0

/-- The multiplicities of one table. -/
def tableMultiplicities (entry : Table × HashMap Int Nat) : Outcome (List F) := do
  let (table, tableLookupData) := entry
  let tableColumn ← table.getMergedTableColumns fl
  let tableColumnMap := countElements tableColumn
  tableColumn.mapM (multiplicityOf F tableColumnMap tableLookupData)

/-- The multiplicities in `generate_lookup_witness_for_chunk`. -/
def multiplicities (self : LookupWitnessGen W) : Outcome (List (List F)) :=
  self.elementCount.toList.mapM (tableMultiplicities F fl)

end Multiplicities

end LookupWitnessGen

namespace LookupContext

variable {F : Type} [Field F] (fl : Float32Ops)

def isEmpty (self : LookupContext) : Bool := self.tables.isEmpty

end LookupContext

/-- `table_witnesses` of `generate_lookup_witness_for_chunk`; a chunk without tables and without
    boundary edges has none. -/
def tableWitnesses {W : Type} (F : Type) [Field F] [DecidableEq F] (fl : Float32Ops)
    (chunkLookupCtx : LookupContext) (noBoundaryEdges : Bool)
    (witnessGens : List (LookupWitnessGen W)) : Outcome (Option (List (List F))) :=
  if chunkLookupCtx.isEmpty && noBoundaryEdges then
    .ok none
  else do
    let multiplicities ← (LookupWitnessGen.consumeAll witnessGens).multiplicities F fl
    .ok (some multiplicities)

/-! ## What is looked up -/

/-- A row of a table; tables with one column have no output. -/
structure TableRow where
  input : Int
  output : Option Int
  deriving DecidableEq, Repr

/-- What a row is counted under. -/
def TableRow.key (self : TableRow) : Int :=
  match self.output with
  | none => self.input
  | some output => Table.mergeColumns self.input output

def TableRow.values (self : TableRow) : List Int := self.input :: self.output.toList

namespace Table

variable (fl : Float32Ops) (self : Table)

/-- The row of an input. -/
def row (input : Int) : TableRow :=
  ⟨input, if self.numColumns = 1 then none else (self.lookup fl input).toOption⟩

def rows : List TableRow := self.inputValues.map (self.row fl)

variable {fl self}

theorem nodup_rows : (self.rows fl).Nodup :=
  (nodup_inputValues self).map fun _ _ h => congrArg TableRow.input h

/-- The output of every input is found. -/
theorem outputValues_eq : ∃ outputs : Int → Int,
    (∀ input ∈ self.inputValues, self.lookup fl input = .ok (outputs input)) := by
  refine ⟨fun input => ((self.lookup fl input).toOption).getD 0, fun input hmem => ?_⟩
  obtain ⟨output, houtput⟩ := lookup_of_inRange fl (mem_inputValues.mp hmem)
  simp [houtput, Except.toOption]

theorem getMergedTableColumns_eq :
    self.getMergedTableColumns fl = .ok ((self.rows fl).map TableRow.key) := by
  unfold getMergedTableColumns rows row
  rcases TableType.numColumns_eq self.operation with hone | htwo
  · have hone : self.numColumns = 1 := hone
    simp [hone, Function.comp_def, TableRow.key]
  · have htwo : self.numColumns = 2 := htwo
    obtain ⟨outputs, houtputs⟩ := @outputValues_eq fl self
    simp only [htwo, List.map_map]
    apply Outcome.mapM_eq_ok_map
    intro input hmem
    simp [houtputs input hmem, TableRow.key, Except.toOption]

/-- The columns list the rows of the table. -/
theorem getTableColumns_eq {F : Type} [Field F] : ∃ columns,
    self.getTableColumns fl F = .ok columns ∧
      (∀ column ∈ columns, column.length = (self.rows fl).length) ∧
      ∀ constant separation i (hi : i < (self.rows fl).length),
        denominatorAt constant separation columns i =
          mergeRow constant separation (((self.rows fl)[i].values).map fun v : Int => (v : F)) := by
  unfold getTableColumns rows row
  rcases TableType.numColumns_eq self.operation with hone | htwo
  · have hone : self.numColumns = 1 := hone
    refine ⟨[self.inputValues.map fun inp : Int => (inp : F)], by simp only [hone], by simp,
      fun constant separation i hi => ?_⟩
    rw [List.length_map] at hi
    simp [denominatorAt, TableRow.values, hone, hi]
  · have htwo : self.numColumns = 2 := htwo
    obtain ⟨outputs, houtputs⟩ := @outputValues_eq fl self
    have hcolumn : self.outputValues fl = .ok (self.inputValues.map outputs) := by
      apply Outcome.mapM_eq_ok_map
      intro input hmem
      rw [houtputs input hmem, Outcome.unwrapped_ok]
    refine ⟨[self.inputValues.map fun inp : Int => (inp : F),
      self.inputValues.map fun inp : Int => (outputs inp : F)], ?_, by simp,
      fun constant separation i hi => ?_⟩
    · simp only [htwo, hcolumn, Outcome.ok_bind, List.map_map]
      rfl
    rw [List.length_map] at hi
    simp [denominatorAt, TableRow.values, htwo, hi, houtputs _ (List.getElem_mem hi), Except.toOption]

end Table
/-! ## What is counted -/

/-- One call of `insert_layer_witness_data`, with the rows that are looked up in each table. -/
structure LayerLookups (W : Type) where
  nodeId : NodeId
  witness : List W
  tables : List Table
  lookups : List (List TableRow)

/-- The counts of the rows of a lookup. -/
def countRows (rows : List TableRow) : HashMap Int Nat := countElements (rows.map TableRow.key)

namespace LayerLookups

variable {W : Type}

/-- The tables with what is looked up in them. -/
def entries (self : LayerLookups W) : List (Table × List TableRow) := self.tables.zip self.lookups

def record (witnessGen : LookupWitnessGen W) (self : LayerLookups W) : LookupWitnessGen W :=
  witnessGen.insertLayerWitnessData self.nodeId self.witness self.tables (self.lookups.map countRows)

end LayerLookups

/-- The calls of one node. -/
abbrev NodeLookups (W : Type) := List (LayerLookups W)

namespace NodeLookups

variable {W : Type}

def record (self : NodeLookups W) : LookupWitnessGen W :=
  self.foldl LayerLookups.record LookupWitnessGen.default

/-- The lists of rows that the node looks up in a table, less the empty ones. -/
def listsInto (table : Table) (self : NodeLookups W) : List (List TableRow) :=
  ((self.flatMap LayerLookups.entries).filter fun entry =>
    entry.1 = table ∧ entry.2 ≠ []).map Prod.snd

/-- All rows that the node looks up in a table. -/
def lookupsInto (table : Table) (self : NodeLookups W) : List TableRow :=
  (self.listsInto table).flatten

/-- The last list is the one that is counted. -/
def countedInto (table : Table) (self : NodeLookups W) : List TableRow :=
  ((self.listsInto table).getLast?).getD []

/-- The node has at most one list of rows for the table. -/
def RecordsOnce (table : Table) (self : NodeLookups W) : Prop :=
  (self.listsInto table).length ≤ 1

theorem ne_nil_of_mem_listsInto {table : Table} {self : NodeLookups W} {rows : List TableRow}
    (h : rows ∈ self.listsInto table) : rows ≠ [] := by
  obtain ⟨entry, hentry, rfl⟩ := List.mem_map.mp h
  have hentry := List.of_mem_filter hentry
  simp only [decide_eq_true_eq] at hentry
  exact hentry.2

/-- One list of rows is recorded. -/
def recordEntry (counts : BTreeMap Table (HashMap Int Nat)) (entry : Table × List TableRow) :
    BTreeMap Table (HashMap Int Nat) :=
  if entry.2 = [] then counts else counts.insert entry.1 (countRows entry.2)

theorem isEmpty_countRows (rows : List TableRow) :
    (countRows rows).isEmpty = true ↔ rows = [] := by
  rw [countRows, countElements, Std.ExtTreeMap.isEmpty_counts]
  simp

theorem elementCount_record (witnessGen : LookupWitnessGen W) (layer : LayerLookups W) :
    (layer.record witnessGen).elementCount =
      layer.entries.foldl recordEntry witnessGen.elementCount := by
  have hzip : layer.tables.zip (layer.lookups.map countRows) =
      layer.entries.map (Prod.map id countRows) := List.zip_map_right ..
  have hfold : ∀ (entries : List (Table × List TableRow)) (acc : LookupWitnessGen W),
      ((entries.map (Prod.map id countRows)).foldl (fun self (table, count) =>
        if count.isEmpty then self else self.insertElementCount table count) acc).elementCount =
      entries.foldl recordEntry acc.elementCount := by
    intro entries
    induction entries with
    | nil => exact fun _ => rfl
    | cons entry entries ih =>
      intro acc
      rw [List.map_cons, List.foldl_cons, ih, List.foldl_cons]
      congr 1
      show (if (countRows entry.2).isEmpty = true then acc
        else acc.insertElementCount entry.1 (countRows entry.2)).elementCount = _
      by_cases hempty : entry.2 = []
      · rw [if_pos ((isEmpty_countRows _).mpr hempty), recordEntry, if_pos hempty]
      · rw [if_neg fun h => hempty ((isEmpty_countRows _).mp h), recordEntry, if_neg hempty]
        rfl
  rw [LayerLookups.record, LookupWitnessGen.insertLayerWitnessData, hzip, hfold]
  rfl

theorem getElem?_foldl_recordEntry (entries : List (Table × List TableRow))
    (counts : BTreeMap Table (HashMap Int Nat)) (table : Table) :
    (entries.foldl recordEntry counts)[table]? =
      ((((entries.filter fun entry => entry.1 = table ∧ entry.2 ≠ []).map Prod.snd).getLast?).map
        countRows).or counts[table]? := by
  induction entries using List.reverseRecOn with
  | nil => rfl
  | append_singleton entries entry ih =>
    rw [List.foldl_concat, recordEntry, List.filter_append, List.map_append]
    by_cases hempty : entry.2 = []
    · rw [if_pos hempty, ih]
      simp [hempty]
    · rw [if_neg hempty, Std.ExtTreeMap.getElem?_insert]
      by_cases htable : entry.1 = table
      · subst htable
        simp [hempty]
      · simp [htable, ih]

/-- A node counts the last list of rows for each table. -/
theorem getElem?_elementCount_record (self : NodeLookups W) (table : Table) :
    self.record.elementCount[table]? = ((self.listsInto table).getLast?).map countRows := by
  have hfold : ∀ (layers : List (LayerLookups W)) (acc : LookupWitnessGen W),
      (layers.foldl LayerLookups.record acc).elementCount =
        (layers.flatMap LayerLookups.entries).foldl recordEntry acc.elementCount := by
    intro layers
    induction layers with
    | nil => exact fun _ => rfl
    | cons layer layers ih =>
      intro acc
      rw [List.foldl_cons, ih, elementCount_record, List.flatMap_cons, List.foldl_append]
  rw [record, hfold, getElem?_foldl_recordEntry]
  exact Option.or_none

end NodeLookups
namespace LookupWitnessGen

variable {W : Type}

/-- The counts of a table after a merge. -/
def mergedCounts : Option (HashMap Int Nat) → Option (HashMap Int Nat) → Option (HashMap Int Nat)
  | none, other => other
  | self, none => self
  | some aggCount, some elements => some (aggCount.addCounts elements)

theorem getElem?_consumeCounts (counts : BTreeMap Table (HashMap Int Nat))
    (entry : Table × HashMap Int Nat) (table : Table) :
    (consumeCounts counts entry)[table]? =
      if entry.1 = table then mergedCounts counts[table]? (some entry.2) else counts[table]? := by
  unfold consumeCounts
  by_cases htable : entry.1 = table
  · subst htable
    cases hget : counts[entry.1]? with
    | none => simp [hget, mergedCounts]
    | some aggCount => simp [hget, mergedCounts]
  · cases hget : counts[entry.1]? with
    | none => simp [hget, htable, Std.ExtTreeMap.getElem?_insert]
    | some aggCount => simp [hget, htable, Std.ExtTreeMap.getElem?_insert]

theorem getElem?_elementCount_consume (self other : LookupWitnessGen W) (table : Table) :
    (self.consume other).elementCount[table]? =
      mergedCounts self.elementCount[table]? other.elementCount[table]? := by
  have hfold : ∀ (entries : List (Table × HashMap Int Nat)) (counts : BTreeMap Table (HashMap Int Nat)),
      (entries.map Prod.fst).Nodup →
      (entries.foldl consumeCounts counts)[table]? =
        mergedCounts counts[table]? ((entries.find? fun entry => entry.1 = table).map Prod.snd) := by
    intro entries
    induction entries with
    | nil =>
      intro counts _
      cases h : counts[table]? <;> simp [h, mergedCounts]
    | cons entry entries ih =>
      intro counts hnodup
      obtain ⟨hnew, hrest⟩ := List.nodup_cons.mp hnodup
      rw [List.foldl_cons, ih _ hrest, getElem?_consumeCounts, List.find?_cons]
      by_cases htable : entry.1 = table
      · -- the later entries are of other tables
        have hnone : entries.find? (fun entry => entry.1 = table) = none := by
          rw [List.find?_eq_none]
          intro later hlater heq
          apply hnew
          rw [htable, ← of_decide_eq_true heq]
          exact List.mem_map_of_mem hlater
        rw [if_pos htable, hnone, decide_eq_true htable]
        cases counts[table]? <;> rfl
      · rw [if_neg htable, decide_eq_false htable]
  have hkeys : (other.elementCount.toList.map Prod.fst).Nodup := by
    rw [Std.ExtTreeMap.map_fst_toList_eq_keys]
    exact Std.ExtTreeMap.nodup_keys
  show (other.elementCount.toList.foldl consumeCounts self.elementCount)[table]? = _
  rw [hfold _ _ hkeys]
  congr 1
  cases hget : other.elementCount[table]? with
  | none =>
    rw [Option.map_eq_none_iff, List.find?_eq_none]
    rintro ⟨table', elements⟩ hmem heq
    obtain rfl : table' = table := of_decide_eq_true heq
    rw [Std.ExtTreeMap.mem_toList_iff_getElem?_eq_some.mp hmem] at hget
    cases hget
  | some elements =>
    have hmem := Std.ExtTreeMap.mem_toList_iff_getElem?_eq_some.mpr hget
    cases hfind : other.elementCount.toList.find? (fun entry => entry.1 = table) with
    | none => exact absurd (by simp) (List.find?_eq_none.mp hfind _ hmem)
    | some entry =>
      obtain ⟨table', elements'⟩ := entry
      obtain rfl : table' = table := of_decide_eq_true (List.find?_some hfind :)
      rw [Option.map_some, Std.ExtTreeMap.eq_of_mem_toList hmem (List.mem_of_find?_eq_some hfind)]

end LookupWitnessGen

section Recorded

variable {W : Type}

/-- All rows that are looked up in a table. -/
def lookupsInto (nodes : List (NodeLookups W)) (table : Table) : List TableRow :=
  nodes.flatMap (NodeLookups.lookupsInto table)

/-- The rows that are counted. -/
def countedInto (nodes : List (NodeLookups W)) (table : Table) : List TableRow :=
  nodes.flatMap (NodeLookups.countedInto table)

/-- The counts of a table, if there are any. -/
def countsOf (rows : List TableRow) : Option (HashMap Int Nat) :=
  if rows = [] then none else some (countRows rows)

theorem mergedCounts_countsOf (rows rows' : List TableRow) :
    LookupWitnessGen.mergedCounts (countsOf rows) (countsOf rows') = countsOf (rows ++ rows') := by
  unfold countsOf
  by_cases hrows : rows = []
  · rw [if_pos hrows, hrows, List.nil_append]
    rfl
  · by_cases hrows' : rows' = []
    · rw [if_neg hrows, if_pos hrows', hrows', List.append_nil, if_neg hrows]
      rfl
    · rw [if_neg hrows, if_neg hrows', if_neg (by simp [hrows])]
      show some ((countRows rows).addCounts (countRows rows')) = _
      rw [countRows, countRows, countElements, countElements, Std.ExtTreeMap.addCounts_counts,
        ← List.map_append]
      rfl

theorem getElem?_elementCount_record_eq (node : NodeLookups W) (table : Table) :
    node.record.elementCount[table]? = countsOf (node.countedInto table) := by
  rw [NodeLookups.getElem?_elementCount_record, NodeLookups.countedInto]
  cases hlast : (node.listsInto table).getLast? with
  | none => rfl
  | some rows =>
    have hne := NodeLookups.ne_nil_of_mem_listsInto (List.mem_of_getLast? hlast)
    rw [Option.getD_some, countsOf, if_neg hne]
    rfl

/-- For each table the counted rows of all nodes are counted together. -/
theorem elementCount_consumeAll (nodes : List (NodeLookups W)) (table : Table) :
    (LookupWitnessGen.consumeAll (nodes.map NodeLookups.record)).elementCount[table]? =
      countsOf (countedInto nodes table) := by
  induction nodes using List.reverseRecOn with
  | nil => rfl
  | append_singleton nodes node ih =>
    have hstep : LookupWitnessGen.consumeAll ((nodes ++ [node]).map NodeLookups.record) =
        (LookupWitnessGen.consumeAll (nodes.map NodeLookups.record)).consume node.record := by
      rw [LookupWitnessGen.consumeAll, List.map_append, List.foldl_append]
      rfl
    rw [hstep, LookupWitnessGen.getElem?_elementCount_consume, ih, getElem?_elementCount_record_eq,
      mergedCounts_countsOf, countedInto, countedInto, List.flatMap_append, List.flatMap_singleton]

end Recorded
end DeepProve
