import DeepProve.ForStd.SumInv
import DeepProve.Lookup.TableVerifier
import DeepProve.Lookup.WitnessGen

/-!
# The multiplicities balance the lookups

The sum over the rows of a table of the multiplicity over the denominator is the sum over all
lookups of one over the denominator, if every table of the lookup context is looked up, no node
records a table twice, and the merged keys tell the rows apart.
-/

namespace DeepProve

section Balance

variable (F : Type) [Field F] [DecidableEq F] (fl : Float32Ops)

/-- The denominator of a row. -/
def TableRow.denominator {F : Type} [Field F] (constant separation : F) (row : TableRow) : F :=
  mergeRow constant separation (row.values.map fun v : Int => (v : F))

/-- The fractions of a table add up to those of the lookups, for all challenges for which no
    denominator vanishes. -/
def TableBalanced (table : Table) (multiplicities : List F) (lookups : List TableRow) : Prop :=
  ∃ columns, table.getTableColumns fl F = .ok columns ∧
    (∀ column ∈ columns, column.length = multiplicities.length) ∧
    ∀ constant separation : F,
      (∀ i < multiplicities.length, denominatorAt constant separation columns i ≠ 0) →
      ((List.range multiplicities.length).map fun i =>
        multiplicities.getD i 0 / denominatorAt constant separation columns i).sum =
      (lookups.map fun row => 1 / row.denominator constant separation).sum

variable {W : Type} (chunkLookupCtx : LookupContext) (noBoundaryEdges : Bool)
  (nodes : List (NodeLookups W))

/-- The tables that the multiplicities are for, in their order. -/
def multiplicityTables : List Table :=
  if chunkLookupCtx.isEmpty && noBoundaryEdges then
    []
  else
    (LookupWitnessGen.consumeAll (nodes.map NodeLookups.record)).elementCount.keys

/-- The multiplicities are those of the tables of the lookup context, in their order, and each
    balances the lookups into the table that `create_logup_inputs` pairs it with. -/
structure Balanced : Prop where
  tables : multiplicityTables chunkLookupCtx noBoundaryEdges nodes = chunkLookupCtx.iter
  balance : ∃ witnesses, tableWitnesses F fl chunkLookupCtx noBoundaryEdges
      (nodes.map NodeLookups.record) = .ok witnesses ∧
    (witnesses.getD []).length =
      (multiplicityTables chunkLookupCtx noBoundaryEdges nodes).length ∧
    ∀ entry ∈ chunkLookupCtx.iter.zip (witnesses.getD []),
      TableBalanced F fl entry.1 entry.2 (lookupsInto nodes entry.1)

/-- All looked up rows are rows of their table. -/
def RowsPresent : Prop :=
  ∀ node ∈ nodes, ∀ layer ∈ node, ∀ entry ∈ layer.entries, ∀ row ∈ entry.2, row ∈ entry.1.rows fl

/-- No other row of the table has the key of a looked up row. -/
def KeysDistinct (table : Table) (lookups : List TableRow) : Prop :=
  ∀ row ∈ lookups, ∀ other ∈ table.rows fl, other.key = row.key → other = row

end Balance

/-! ## One table -/

section OneTable

variable {fl : Float32Ops} {table : Table} {rows : List TableRow}

theorem inputWidth_lt (h : table.tableBitSize ≤ 32) :
    table.maxInputValue - table.minInputValue < 2 ^ 32 := by
  have hbits : (2 : Int) ^ table.tableBitSize ≤ 2 ^ 32 := pow_le_pow_right₀ (by decide) h
  unfold Table.maxInputValue Table.minInputValue
  cases table.operation.inputSign with
  | positive | negative => simp only; omega
  | mixed =>
    rcases Nat.eq_zero_or_pos table.tableBitSize with hzero | hpos
    · rw [hzero]
      decide
    · have hpow : (2 : Int) ^ table.tableBitSize = 2 ^ (table.tableBitSize - 1) * 2 := by
        rw [← pow_succ]
        congr 1
        omega
      simp only
      omega

/-- A table of at most 32 bits has distinct keys. -/
theorem keysDistinct_of_tableBitSize_le (h : table.tableBitSize ≤ 32)
    (hrows : ∀ row ∈ rows, row ∈ table.rows fl) : KeysDistinct fl table rows := by
  intro row hrow other hother hkey
  obtain ⟨input, hinput, rfl⟩ := List.mem_map.mp (hrows row hrow)
  obtain ⟨input', hinput', rfl⟩ := List.mem_map.mp hother
  obtain ⟨hmin, hmax⟩ := Table.mem_inputValues.mp hinput
  obtain ⟨hmin', hmax'⟩ := Table.mem_inputValues.mp hinput'
  have hwidth := inputWidth_lt h
  have hmod : input' % 2 ^ 32 = input % 2 ^ 32 := by
    have hkey := congrArg (· % (2 ^ 32 : Int)) hkey
    have hlower : ∀ inp, (table.row fl inp).key % 2 ^ 32 = inp % 2 ^ 32 := by
      intro inp
      unfold TableRow.key
      split
      · rfl
      · exact Table.mergeColumns_emod _ _
    simpa only [hlower] using hkey
  have heq : input' = input := by omega
  rw [heq]

/-- The key of a row without others of the same key is there once. -/
theorem count_key_eq_one (hdistinct : KeysDistinct fl table rows) {row : TableRow}
    (hrow : row ∈ rows) (hmem : row ∈ table.rows fl) :
    ((table.rows fl).map TableRow.key).count row.key = 1 := by
  have hcount : ((table.rows fl).map TableRow.key).count row.key = (table.rows fl).count row := by
    rw [List.count, List.countP_map, List.count]
    apply List.countP_congr
    intro other hother
    simp only [Function.comp_apply, beq_iff_eq]
    exact ⟨hdistinct row hrow other hother, fun h => h ▸ rfl⟩
  rw [hcount]
  exact List.count_eq_one_of_mem Table.nodup_rows hmem

variable {F : Type} [Field F] [DecidableEq F]

/-- A row has the number of its lookups as multiplicity. -/
theorem tableMultiplicities_eq (hdistinct : KeysDistinct fl table rows)
    (hrows : ∀ row ∈ rows, row ∈ table.rows fl) :
    LookupWitnessGen.tableMultiplicities F fl (table, countRows rows) =
      .ok ((table.rows fl).map fun row => ((rows.map TableRow.key).count row.key : F)) := by
  have hval : ∀ val, LookupWitnessGen.multiplicityOf F
      (countElements ((table.rows fl).map TableRow.key)) (countRows rows) val =
        .ok ((rows.map TableRow.key).count val : F) := by
    intro val
    unfold LookupWitnessGen.multiplicityOf
    rw [countRows, countElements, Std.ExtTreeMap.getElem?_counts]
    by_cases hval : val ∈ rows.map TableRow.key
    · obtain ⟨row, hrow, rfl⟩ := List.mem_map.mp hval
      rw [if_pos hval, countElements, Std.ExtTreeMap.getElem?_counts,
        if_pos (List.mem_map_of_mem (hrows row hrow)),
        count_key_eq_one hdistinct hrow (hrows row hrow)]
      rfl
    · rw [if_neg hval, List.count_eq_zero_of_not_mem hval, Nat.cast_zero]
  rw [LookupWitnessGen.tableMultiplicities, Table.getMergedTableColumns_eq]
  simp only [Outcome.ok_bind]
  rw [Outcome.mapM_eq_ok_map fun val _ => hval val, List.map_map]
  rfl

omit [DecidableEq F] in
/-- Summing over the rows with their multiplicities is summing over the lookups. -/
theorem sum_rows_eq_sum_lookups (hdistinct : KeysDistinct fl table rows)
    (hrows : ∀ row ∈ rows, row ∈ table.rows fl) (weight : TableRow → F) :
    ((table.rows fl).map fun row =>
      ((rows.map TableRow.key).count row.key : F) * weight row).sum =
    (rows.map weight).sum := by
  induction rows with
  | nil => simp
  | cons row rows ih =>
    obtain ⟨hrow, hrest⟩ := List.forall_mem_cons.mp hrows
    -- the first lookup is counted at its own row only
    have hfirst : ((table.rows fl).map fun other =>
        (if row.key = other.key then 1 else 0) * weight other).sum = weight row := by
      have hsingle : ∀ other ∈ table.rows fl,
          (if row.key = other.key then 1 else 0) * weight other =
            if other = row then weight row else 0 := by
        intro other hother
        by_cases hkey : row.key = other.key
        · have heq := hdistinct row List.mem_cons_self other hother hkey.symm
          rw [if_pos hkey, if_pos heq, heq, one_mul]
        · have hne : other ≠ row := fun heq => hkey (congrArg TableRow.key heq.symm)
          rw [if_neg hkey, if_neg hne, zero_mul]
      rw [List.map_congr_left hsingle, List.sum_map_ite_eq,
        List.count_eq_one_of_mem Table.nodup_rows hrow, one_nsmul]
      simp
    have hsplit : ∀ other : TableRow,
        (((row :: rows).map TableRow.key).count other.key : F) * weight other =
          ((rows.map TableRow.key).count other.key : F) * weight other +
            (if row.key = other.key then 1 else 0) * weight other := by
      intro other
      rw [List.map_cons, List.count_cons]
      by_cases hkey : row.key = other.key
      · simp [hkey, add_mul]
      · simp [hkey]
    simp only [hsplit]
    rw [List.sum_map_add, hfirst, ih (fun r hr => hdistinct r (List.mem_cons_of_mem _ hr)) hrest,
      List.map_cons, List.sum_cons, add_comm]

omit [DecidableEq F] in
/-- The fractions of a table, over its rows. -/
theorem sum_fractions_eq {columns : List (List F)} {constant separation : F}
    (hdenominator : ∀ i (hi : i < (table.rows fl).length),
      denominatorAt constant separation columns i =
        ((table.rows fl)[i]).denominator constant separation)
    (multiplicity : TableRow → F) :
    ((List.range (table.rows fl).length).map fun i =>
      ((table.rows fl).map multiplicity).getD i 0 / denominatorAt constant separation columns i).sum =
    ((table.rows fl).map fun row => multiplicity row * (row.denominator constant separation)⁻¹).sum := by
  congr 1
  apply List.ext_getElem
  · simp
  · intro i hi _
    have hi : i < (table.rows fl).length := by simpa using hi
    simp [hi, hdenominator i hi, div_eq_mul_inv]

omit [DecidableEq F] in
/-- The multiplicities of the lookups balance others exactly if the sums over both are equal. -/
theorem tableBalanced_iff {lookups : List TableRow} (hdistinct : KeysDistinct fl table rows)
    (hrows : ∀ row ∈ rows, row ∈ table.rows fl) :
    TableBalanced F fl table
        ((table.rows fl).map fun row => ((rows.map TableRow.key).count row.key : F)) lookups ↔
      ∀ constant separation : F,
        (∀ row ∈ table.rows fl, row.denominator constant separation ≠ 0) →
        (rows.map fun row => (row.denominator constant separation)⁻¹).sum =
          (lookups.map fun row => (row.denominator constant separation)⁻¹).sum := by
  obtain ⟨columns, hcolumns, hlength, hdenominator⟩ :=
    @Table.getTableColumns_eq fl table F _
  have hsum : ∀ constant separation : F,
      ((List.range (table.rows fl).length).map fun i =>
        ((table.rows fl).map fun row => ((rows.map TableRow.key).count row.key : F)).getD i 0 /
          denominatorAt constant separation columns i).sum =
      (rows.map fun row => (row.denominator constant separation)⁻¹).sum := by
    intro constant separation
    rw [sum_fractions_eq (hdenominator constant separation),
      sum_rows_eq_sum_lookups hdistinct hrows]
  have hvanish : ∀ constant separation : F,
      (∀ i < (table.rows fl).length, denominatorAt constant separation columns i ≠ 0) ↔
        ∀ row ∈ table.rows fl, row.denominator constant separation ≠ 0 := by
    intro constant separation
    rw [List.forall_mem_iff_getElem]
    exact forall₂_congr fun i hi => by rw [hdenominator constant separation i hi]; rfl
  unfold TableBalanced
  simp only [hcolumns, Except.ok.injEq, exists_eq_left', List.length_map, hsum, hvanish, one_div]
  exact and_iff_right hlength

end OneTable

/-! ## What is overwritten -/

section Overwritten

variable {W : Type} {fl : Float32Ops}

/-- All lists of rows but the last. -/
def NodeLookups.overwrittenInto (table : Table) (self : NodeLookups W) : List TableRow :=
  (self.listsInto table).dropLast.flatten

theorem NodeLookups.lookupsInto_eq (table : Table) (self : NodeLookups W) :
    self.lookupsInto table = self.overwrittenInto table ++ self.countedInto table := by
  unfold lookupsInto overwrittenInto countedInto
  rcases List.eq_nil_or_concat (self.listsInto table) with hnil | ⟨lists, last, hlast⟩
  · simp [hnil]
  · simp [hlast]

variable {nodes : List (NodeLookups W)} {table : Table}

theorem NodeLookups.overwrittenInto_eq_nil_iff {self : NodeLookups W} :
    self.overwrittenInto table = [] ↔ self.RecordsOnce table := by
  have hne : ∀ rows ∈ (self.listsInto table).dropLast, rows ≠ [] := fun rows hrows =>
    ne_nil_of_mem_listsInto (List.dropLast_subset _ hrows)
  rw [overwrittenInto, List.flatten_eq_nil_iff, RecordsOnce]
  constructor
  · intro h
    have hnil : (self.listsInto table).dropLast = [] :=
      List.eq_nil_iff_forall_not_mem.mpr fun rows hrows => hne rows hrows (h rows hrows)
    have hlength := congrArg List.length hnil
    rw [List.length_dropLast, List.length_nil] at hlength
    omega
  · intro h rows hrows
    have hlength := List.length_pos_of_mem hrows
    rw [List.length_dropLast] at hlength
    omega

/-- All rows that are looked up in a table and not counted. -/
def overwrittenInto (nodes : List (NodeLookups W)) (table : Table) : List TableRow :=
  nodes.flatMap (NodeLookups.overwrittenInto table)

theorem lookupsInto_perm (nodes : List (NodeLookups W)) (table : Table) :
    (lookupsInto nodes table).Perm (overwrittenInto nodes table ++ countedInto nodes table) := by
  induction nodes with
  | nil => exact List.Perm.nil
  | cons node nodes ih =>
    unfold lookupsInto overwrittenInto countedInto at ih ⊢
    rw [List.flatMap_cons, List.flatMap_cons, List.flatMap_cons, NodeLookups.lookupsInto_eq,
      List.append_assoc, List.append_assoc]
    apply List.Perm.append_left
    exact (List.Perm.append_left _ ih).trans (List.perm_append_comm_assoc ..)

theorem overwrittenInto_eq_nil_iff :
    overwrittenInto nodes table = [] ↔ ∀ node ∈ nodes, node.RecordsOnce table := by
  simp only [overwrittenInto, List.flatMap_eq_nil_iff, NodeLookups.overwrittenInto_eq_nil_iff]

/-- Of each node with lookups some are counted. -/
theorem countedInto_eq_nil_iff :
    countedInto nodes table = [] ↔ lookupsInto nodes table = [] := by
  simp only [countedInto, lookupsInto, List.flatMap_eq_nil_iff]
  refine forall₂_congr fun node _ => ?_
  unfold NodeLookups.countedInto NodeLookups.lookupsInto
  rcases List.eq_nil_or_concat (node.listsInto table) with hnil | ⟨lists, last, hlast⟩
  · simp [hnil]
  · have hne := @NodeLookups.ne_nil_of_mem_listsInto _ table node last
      (by rw [hlast]; simp)
    simp [hlast, hne]

theorem mem_rows_of_mem_lookupsInto (h : RowsPresent fl nodes) {row : TableRow}
    (hrow : row ∈ lookupsInto nodes table) :
    row ∈ table.rows fl := by
  obtain ⟨node, hnode, hrow⟩ := List.mem_flatMap.mp hrow
  obtain ⟨rows, hrows, hrow⟩ := List.mem_flatten.mp hrow
  obtain ⟨entry, hentry, rfl⟩ := List.mem_map.mp hrows
  obtain ⟨hentry, htable⟩ := List.mem_filter.mp hentry
  obtain ⟨layer, hlayer, hentry⟩ := List.mem_flatMap.mp hentry
  simp only [decide_eq_true_eq] at htable
  rw [← htable.1]
  exact h node hnode layer hlayer entry hentry row hrow

end Overwritten

/-! ## All tables -/

section AllTables

variable {W : Type} {fl : Float32Ops} {chunkLookupCtx : LookupContext} {noBoundaryEdges : Bool}
  {nodes : List (NodeLookups W)}

/-- The tables that are looked up are those that have multiplicities. -/
theorem multiplicityTables_eq_iter_iff :
    (LookupWitnessGen.consumeAll (nodes.map NodeLookups.record)).elementCount.keys =
        chunkLookupCtx.iter ↔
      ∀ table, table ∈ chunkLookupCtx.tables ↔ lookupsInto nodes table ≠ [] := by
  rw [LookupContext.iter, Std.ExtTreeMap.keys_eq_keys_iff]
  refine forall_congr' fun table => ?_
  rw [Std.ExtTreeMap.mem_iff_isSome_getElem?, elementCount_consumeAll, countsOf, ne_eq,
    ← countedInto_eq_nil_iff]
  by_cases hnil : countedInto nodes table = []
  · simp [hnil]
  · simp [hnil]

/-- The multiplicities that a table has, if all of them are there. -/
theorem tableMultiplicities_of_tableWitnesses {F : Type} [Field F] [DecidableEq F]
    {witnesses : List (List F)}
    (h : (LookupWitnessGen.consumeAll (nodes.map NodeLookups.record)).multiplicities F fl =
      .ok witnesses) :
    List.Forall₂ (fun table multiplicities => LookupWitnessGen.tableMultiplicities F fl
        (table, countRows (countedInto nodes table)) = .ok multiplicities)
      (LookupWitnessGen.consumeAll (nodes.map NodeLookups.record)).elementCount.keys witnesses := by
  have hall := Outcome.forall₂_of_mapM_eq_ok h
  rw [← Std.ExtTreeMap.map_fst_toList_eq_keys, List.forall₂_map_left_iff]
  have hentries : ∀ entry ∈
      (LookupWitnessGen.consumeAll (nodes.map NodeLookups.record)).elementCount.toList,
      entry = (entry.1, countRows (countedInto nodes entry.1)) := by
    rintro ⟨table, counts⟩ hmem
    have hget := Std.ExtTreeMap.mem_toList_iff_getElem?_eq_some.mp hmem
    rw [elementCount_consumeAll, countsOf] at hget
    split at hget
    · cases hget
    · rw [← Option.some.inj hget]
  rw [List.forall₂_iff_get] at hall ⊢
  refine ⟨hall.1, fun i hi hi' => ?_⟩
  rw [← hentries _ (List.get_mem ..)]
  exact hall.2 i hi hi'

/-- Without overwritten lookups and with distinct keys the multiplicities are counted. -/
theorem multiplicities_eq {F : Type} [Field F] [DecidableEq F]
    (h : ∀ table ∈ (LookupWitnessGen.consumeAll (nodes.map NodeLookups.record)).elementCount.keys,
      KeysDistinct fl table (countedInto nodes table) ∧
        ∀ row ∈ countedInto nodes table, row ∈ table.rows fl) :
    (LookupWitnessGen.consumeAll (nodes.map NodeLookups.record)).multiplicities F fl =
      .ok ((LookupWitnessGen.consumeAll (nodes.map NodeLookups.record)).elementCount.keys.map
        fun table => (table.rows fl).map fun row =>
          (((countedInto nodes table).map TableRow.key).count row.key : F)) := by
  rw [← Std.ExtTreeMap.map_fst_toList_eq_keys, List.map_map]
  apply Outcome.mapM_eq_ok_map
  rintro ⟨table, counts⟩ hmem
  have hget := Std.ExtTreeMap.mem_toList_iff_getElem?_eq_some.mp hmem
  rw [elementCount_consumeAll, countsOf] at hget
  split at hget
  · cases hget
  · obtain ⟨hdistinct, hrows⟩ := h table (by
      rw [← Std.ExtTreeMap.map_fst_toList_eq_keys]
      exact List.mem_map_of_mem hmem)
    rw [← Option.some.inj hget]
    exact tableMultiplicities_eq hdistinct hrows

end AllTables

/-! ## Over every prime field -/

section PrimeFields

variable {fl : Float32Ops} {table : Table} {rows : List TableRow}

/-- The multiplicity of a repeated key is not defined over every prime field. -/
theorem keysDistinct_of_forall_prime (hrows : ∀ row ∈ rows, row ∈ table.rows fl)
    (h : ∀ (p : Nat) [Fact p.Prime], ∃ multiplicities,
      LookupWitnessGen.tableMultiplicities (ZMod p) fl (table, countRows rows) =
        .ok multiplicities) : KeysDistinct fl table rows := by
  intro row hrow other hother hkey
  by_contra hne
  have hcount : 2 ≤ ((table.rows fl).map TableRow.key).count row.key := by
    have hnodup : [row, other].Nodup := by simpa using Ne.symm hne
    have hsub : [row, other].Subperm (table.rows fl) := by
      apply hnodup.subperm
      intro r hr
      rcases List.mem_pair.mp hr with rfl | rfl
      · exact hrows _ hrow
      · exact hother
    have hle := hsub.countP_le fun r => r.key == row.key
    rw [List.count, List.countP_map]
    simpa [hkey, Function.comp_def] using hle
  obtain ⟨p, hprime, hdvd⟩ := Nat.exists_prime_and_dvd (n :=
    ((table.rows fl).map TableRow.key).count row.key) (by omega)
  have := Fact.mk hprime
  obtain ⟨multiplicities, hmultiplicities⟩ := h p
  -- the entry of the key fails
  rw [LookupWitnessGen.tableMultiplicities, Table.getMergedTableColumns_eq] at hmultiplicities
  have hall := Outcome.forall₂_of_mapM_eq_ok hmultiplicities
  obtain ⟨value, hvalue⟩ : ∃ value, LookupWitnessGen.multiplicityOf (ZMod p)
      (countElements ((table.rows fl).map TableRow.key)) (countRows rows) row.key = .ok value := by
    obtain ⟨i, hi, hget⟩ := List.getElem_of_mem (List.mem_map_of_mem (f := TableRow.key)
      (hrows row hrow))
    have hi' : i < multiplicities.length := hall.length_eq ▸ hi
    have hentry := (List.forall₂_iff_get.mp hall).2 i hi hi'
    rw [List.get_eq_getElem, hget] at hentry
    exact ⟨_, hentry⟩
  rw [LookupWitnessGen.multiplicityOf, countRows, countElements, Std.ExtTreeMap.getElem?_counts,
    if_pos (List.mem_map_of_mem hrow), countElements, Std.ExtTreeMap.getElem?_counts,
    if_pos (List.mem_map_of_mem (hrows row hrow))] at hvalue
  simp only [unwrap_some, Outcome.ok_bind] at hvalue
  rw [if_neg (by omega), if_pos ((ZMod.natCast_eq_zero_iff _ p).mpr hdvd)] at hvalue
  cases hvalue

/-- Lookups that are not counted are missed over some prime field. -/
theorem eq_nil_of_forall_prime {counted lost lookups : List TableRow}
    (hperm : lookups.Perm (lost ++ counted)) (hrows : ∀ row ∈ lookups, row ∈ table.rows fl)
    (h : ∀ (p : Nat) [Fact p.Prime] (constant separation : ZMod p),
      (∀ row ∈ table.rows fl, row.denominator constant separation ≠ 0) →
      (counted.map fun row => (row.denominator constant separation)⁻¹).sum =
        (lookups.map fun row => (row.denominator constant separation)⁻¹).sum) : lost = [] := by
  by_contra hlost
  -- a constant for which all denominators are positive numbers
  obtain ⟨constant, hconstant⟩ : ∃ constant : Nat, ∀ row ∈ table.rows fl,
      0 < (constant : Int) + row.values.sum := by
    refine ⟨(((table.rows fl).map fun row => row.values.sum.natAbs).sum + 1), fun row hrow => ?_⟩
    have hle := List.single_le_sum (by simp) _
      (List.mem_map_of_mem (f := fun row : TableRow => row.values.sum.natAbs) hrow)
    omega
  let den (row : TableRow) : Nat := ((constant : Int) + row.values.sum).toNat
  have hsub : ∀ row ∈ lost, row ∈ table.rows fl := fun row hrow =>
    hrows row (hperm.mem_iff.mpr (List.mem_append_left _ hrow))
  obtain ⟨p, hprime, hne, hsum⟩ := @SumInv.exists_prime_sum_inv_ne_zero
    ((table.rows fl).map den) (lost.map den)
    (by simpa using hlost)
    (by
      intro d hd
      obtain ⟨row, hrow, rfl⟩ := List.mem_map.mp hd
      exact List.mem_map_of_mem (hsub row hrow))
    (by
      intro d hd
      obtain ⟨row, hrow, rfl⟩ := List.mem_map.mp hd
      have hpos := hconstant row hrow
      show 0 < ((constant : Int) + row.values.sum).toNat
      omega)
  have := Fact.mk hprime
  have hden : ∀ row ∈ table.rows fl,
      row.denominator (constant : ZMod p) 1 = ((den row : Nat) : ZMod p) := by
    intro row hrow
    have hcast : ((den row : Nat) : Int) = constant + row.values.sum :=
      Int.toNat_of_nonneg (hconstant row hrow).le
    have hcast' : ((den row : Nat) : ZMod p) = ((constant + row.values.sum : Int) : ZMod p) := by
      rw [← hcast, Int.cast_natCast]
    rw [hcast']
    obtain ⟨input, output⟩ := row
    cases output with
    | none => simp [TableRow.denominator, TableRow.values]
    | some output =>
      simp [TableRow.denominator, TableRow.values, add_assoc]
  have hbalance := h p constant 1 fun row hrow => by
    rw [hden row hrow]
    exact hne _ (List.mem_map_of_mem hrow)
  rw [(hperm.map _).sum_eq, List.map_append, List.sum_append, right_eq_add] at hbalance
  apply hsum
  rw [← hbalance, List.map_map]
  congr 1
  apply List.map_congr_left
  intro row hrow
  rw [Function.comp_apply, hden row (hsub row hrow)]

end PrimeFields

/-! ## When the multiplicities balance -/

section Main

variable {W : Type} {fl : Float32Ops} {chunkLookupCtx : LookupContext} {noBoundaryEdges : Bool}
  {nodes : List (NodeLookups W)}

/-- Every table of the context is looked up, each node has one list of rows for it, and the keys
    tell these rows apart. -/
structure LookupsCounted (fl : Float32Ops) (chunkLookupCtx : LookupContext)
    (nodes : List (NodeLookups W)) : Prop where
  tables : ∀ table, table ∈ chunkLookupCtx.tables ↔ lookupsInto nodes table ≠ []
  once : ∀ table ∈ chunkLookupCtx.tables, ∀ node ∈ nodes, node.RecordsOnce table
  keys : ∀ table ∈ chunkLookupCtx.tables, KeysDistinct fl table (lookupsInto nodes table)

theorem countedInto_eq_lookupsInto {table : Table} (h : ∀ node ∈ nodes, node.RecordsOnce table) :
    countedInto nodes table = lookupsInto nodes table := by
  apply List.flatMap_congr
  intro node hnode
  rw [NodeLookups.lookupsInto_eq, NodeLookups.overwrittenInto_eq_nil_iff.mpr (h node hnode),
    List.nil_append]

/-- The lookups that are counted balance over every field. -/
theorem balanced_of_lookupsCounted {F : Type} [Field F] [DecidableEq F]
    (hrows : RowsPresent fl nodes) (h : LookupsCounted fl chunkLookupCtx nodes)
    (hrun : (chunkLookupCtx.isEmpty && noBoundaryEdges) = false) :
    Balanced F fl chunkLookupCtx noBoundaryEdges nodes := by
  have hkeys : (LookupWitnessGen.consumeAll (nodes.map NodeLookups.record)).elementCount.keys =
      chunkLookupCtx.iter := multiplicityTables_eq_iter_iff.mpr h.tables
  have htables : multiplicityTables chunkLookupCtx noBoundaryEdges nodes = chunkLookupCtx.iter := by
    rw [multiplicityTables, hrun, ← hkeys]
    rfl
  have hmem : ∀ table, table ∈ chunkLookupCtx.iter → table ∈ chunkLookupCtx.tables :=
    fun table => Std.ExtTreeMap.mem_keys.mp
  have hcounted : ∀ table ∈ chunkLookupCtx.iter,
      KeysDistinct fl table (countedInto nodes table) ∧
        ∀ row ∈ countedInto nodes table, row ∈ table.rows fl := by
    intro table htable
    rw [countedInto_eq_lookupsInto (h.once table (hmem table htable))]
    exact ⟨h.keys table (hmem table htable), fun row => mem_rows_of_mem_lookupsInto hrows⟩
  have hwitnesses : tableWitnesses F fl chunkLookupCtx noBoundaryEdges
      (nodes.map NodeLookups.record) =
        .ok (some (chunkLookupCtx.iter.map fun table => (table.rows fl).map fun row =>
          (((countedInto nodes table).map TableRow.key).count row.key : F))) := by
    rw [tableWitnesses, hrun, multiplicities_eq (by rw [hkeys]; exact hcounted), hkeys]
    rfl
  refine ⟨htables, _, hwitnesses, ?_, ?_⟩
  · rw [Option.getD_some, List.length_map, htables]
  · intro entry hentry
    rw [Option.getD_some, List.zip_map_right, List.mem_map] at hentry
    obtain ⟨⟨table, table'⟩, hpair, rfl⟩ := hentry
    obtain ⟨i, hi, hget⟩ := List.getElem_of_mem hpair
    rw [List.getElem_zip] at hget
    obtain ⟨rfl, rfl⟩ := Prod.mk.inj hget
    have hiter := List.getElem_mem (l := chunkLookupCtx.iter) (by simpa using hi : i < _)
    obtain ⟨hdistinct, hpresent⟩ := hcounted _ hiter
    apply (tableBalanced_iff hdistinct hpresent).mpr
    intro constant separation _
    rw [countedInto_eq_lookupsInto (h.once _ (hmem _ hiter))]
    rfl

/-- A chunk with something to commit to has balanced multiplicities over all prime fields only if
    its lookups are counted. -/
theorem lookupsCounted_of_balanced (hrows : RowsPresent fl nodes)
    (hrun : (chunkLookupCtx.isEmpty && noBoundaryEdges) = false)
    (h : ∀ (p : Nat) [Fact p.Prime], Balanced (ZMod p) fl chunkLookupCtx noBoundaryEdges nodes) :
    LookupsCounted fl chunkLookupCtx nodes := by
  have hkeys : (LookupWitnessGen.consumeAll (nodes.map NodeLookups.record)).elementCount.keys =
      chunkLookupCtx.iter := by
    have htables := (h 2).tables
    rwa [multiplicityTables, hrun] at htables
  -- what a table of the context has over each field
  have htable : ∀ table ∈ chunkLookupCtx.tables, ∀ (p : Nat) [Fact p.Prime], ∃ multiplicities,
      LookupWitnessGen.tableMultiplicities (ZMod p) fl
        (table, countRows (countedInto nodes table)) = .ok multiplicities ∧
      TableBalanced (ZMod p) fl table multiplicities (lookupsInto nodes table) := by
    intro table hmem p hp
    obtain ⟨witnesses, hwitnesses, _, hbalance⟩ := (h p).balance
    rw [tableWitnesses, hrun] at hwitnesses
    simp only [Bool.false_eq_true, if_false, Outcome.bind_eq_ok] at hwitnesses
    obtain ⟨multiplicities, hmultiplicities, hsome⟩ := hwitnesses
    obtain rfl := Except.ok.inj hsome
    have hall := tableMultiplicities_of_tableWitnesses hmultiplicities
    rw [hkeys] at hall
    have hiter : table ∈ chunkLookupCtx.iter := Std.ExtTreeMap.mem_keys.mpr hmem
    obtain ⟨i, hi, hget⟩ := List.getElem_of_mem hiter
    have hi' : i < multiplicities.length := hall.length_eq ▸ hi
    have hentry := (List.forall₂_iff_get.mp hall).2 i hi hi'
    rw [List.get_eq_getElem, hget] at hentry
    refine ⟨multiplicities[i], hentry, ?_⟩
    apply hbalance (table, multiplicities[i])
    rw [Option.getD_some, List.mem_iff_getElem]
    exact ⟨i, by simp [hi, hi'], by rw [List.getElem_zip, hget]⟩
  have hpresent : ∀ table, ∀ row ∈ countedInto nodes table, row ∈ table.rows fl := by
    intro table row hrow
    apply mem_rows_of_mem_lookupsInto hrows
    exact (lookupsInto_perm nodes table).mem_iff.mpr (List.mem_append_right _ hrow)
  have hdistinct : ∀ table ∈ chunkLookupCtx.tables,
      KeysDistinct fl table (countedInto nodes table) := by
    intro table hmem
    apply keysDistinct_of_forall_prime (hpresent table)
    intro p hp
    obtain ⟨multiplicities, hmultiplicities, _⟩ := htable table hmem p
    exact ⟨multiplicities, hmultiplicities⟩
  have honce : ∀ table ∈ chunkLookupCtx.tables, ∀ node ∈ nodes, node.RecordsOnce table := by
    intro table hmem
    apply overwrittenInto_eq_nil_iff.mp
    apply eq_nil_of_forall_prime (lookupsInto_perm nodes table)
      (fun row => mem_rows_of_mem_lookupsInto hrows)
    intro p hp
    obtain ⟨multiplicities, hmultiplicities, hbalance⟩ := htable table hmem p
    rw [tableMultiplicities_eq (hdistinct table hmem) (hpresent table)] at hmultiplicities
    rw [← Except.ok.inj hmultiplicities] at hbalance
    exact (tableBalanced_iff (hdistinct table hmem) (hpresent table)).mp hbalance
  refine ⟨multiplicityTables_eq_iter_iff.mp hkeys, honce, fun table hmem => ?_⟩
  rw [← countedInto_eq_lookupsInto (honce table hmem)]
  exact hdistinct table hmem

/-- The multiplicities balance the lookups over every prime field exactly if there is nothing to
    commit to, or the lookups into the tables of the context are all counted. -/
theorem forall_balanced_iff (hrows : RowsPresent fl nodes) :
    (∀ (p : Nat) [Fact p.Prime], Balanced (ZMod p) fl chunkLookupCtx noBoundaryEdges nodes) ↔
      (chunkLookupCtx.isEmpty && noBoundaryEdges) = true ∨
        LookupsCounted fl chunkLookupCtx nodes := by
  cases hrun : chunkLookupCtx.isEmpty && noBoundaryEdges with
  | false =>
    rw [Bool.false_eq_true, false_or]
    constructor
    · exact lookupsCounted_of_balanced hrows hrun
    · exact fun h p hp => balanced_of_lookupsCounted hrows h hrun
  | true =>
    refine ⟨fun _ => .inl rfl, fun _ p hp => ?_⟩
    have hempty : chunkLookupCtx.iter = [] := by
      rw [LookupContext.iter, ← List.isEmpty_iff, Std.ExtTreeMap.isEmpty_keys]
      exact (Bool.and_eq_true_iff.mp hrun).1
    have htables : multiplicityTables chunkLookupCtx noBoundaryEdges nodes = [] := by
      rw [multiplicityTables, hrun]
      rfl
    refine ⟨by rw [htables, hempty], none, ?_, by rw [htables]; rfl, ?_⟩
    · rw [tableWitnesses, hrun]
      rfl
    · rw [hempty]
      exact fun entry hentry => nomatch hentry

end Main

/-! ## A normalisation of small values -/

section SmallNorm

/-- The values of a normalisation, of one bit. -/
def normTable : Table := Table.newRequantise 1

/-- The layer has values and shifts to look up, and nothing that has to be zero. -/
def normLayer : LayerLookups Unit where
  nodeId := 7
  witness := []
  tables := [Table.newShiftCheck, normTable, Table.newZeroCheck, Table.newSignedZeroCheck]
  lookups := [[⟨0, none⟩], [⟨0, none⟩, ⟨-1, none⟩, ⟨0, none⟩], [], []]

/-- The tables of the layer. -/
def normCtx (tables : List Table) : LookupContext :=
  ⟨Std.ExtTreeMap.ofList (tables.map fun table => (table, [7])) compare⟩

theorem mem_normCtx {tables : List Table} {table : Table} :
    table ∈ (normCtx tables).tables ↔ table ∈ tables := by
  rw [normCtx, Std.ExtTreeMap.mem_ofList, List.map_map]
  simp [Function.comp_def]

theorem normLayer_rowsPresent {nodes : List (NodeLookups Unit)}
    (h : ∀ node ∈ nodes, ∀ layer ∈ node, layer = normLayer) : RowsPresent noFloats nodes := by
  have hshift : (⟨0, none⟩ : TableRow) ∈ Table.newShiftCheck.rows noFloats :=
    List.mem_map.mpr ⟨0, Table.mem_inputValues.mpr (by decide), rfl⟩
  have hvalue : ∀ row ∈ [(⟨0, none⟩ : TableRow), ⟨-1, none⟩, ⟨0, none⟩],
      row ∈ normTable.rows noFloats := by decide
  intro node hnode layer hlayer entry hentry
  rw [h node hnode layer hlayer] at hentry
  have hentries : normLayer.entries = [(Table.newShiftCheck, [⟨0, none⟩]),
    (normTable, [⟨0, none⟩, ⟨-1, none⟩, ⟨0, none⟩]), (Table.newZeroCheck, []),
    (Table.newSignedZeroCheck, [])] := rfl
  rw [hentries] at hentry
  simp only [List.mem_cons, List.not_mem_nil, or_false] at hentry
  rcases hentry with rfl | rfl | rfl | rfl
  · exact List.forall_mem_singleton.mpr hshift
  · exact hvalue
  · exact fun row hrow => nomatch hrow
  · exact fun row hrow => nomatch hrow

/-- The tables that the layer uses, with one list of rows each. -/
theorem normLayer_listsInto (table : Table) : NodeLookups.listsInto table [normLayer] =
    if table = Table.newShiftCheck then [[⟨0, none⟩]]
    else if table = normTable then [[⟨0, none⟩, ⟨-1, none⟩, ⟨0, none⟩]] else [] := by
  by_cases hshift : table = Table.newShiftCheck
  · rw [hshift]
    decide
  · by_cases hvalue : table = normTable
    · rw [hvalue]
      decide
    · rw [if_neg hshift, if_neg hvalue, List.eq_nil_iff_forall_not_mem]
      intro rows hrows
      obtain ⟨entry, hentry, _⟩ := List.mem_map.mp hrows
      obtain ⟨hmem, hentry⟩ := List.mem_filter.mp hentry
      simp only [decide_eq_true_eq] at hentry
      obtain ⟨rfl, hne⟩ := hentry
      have hused : ∀ entry ∈ [normLayer].flatMap LayerLookups.entries, entry.2 ≠ [] →
          entry.1 = Table.newShiftCheck ∨ entry.1 = normTable := by decide
      rcases hused entry hmem hne with h | h
      · exact hshift h
      · exact hvalue h

/-- With the tables that are used, the lookups balance. -/
theorem normLayer_balanced :
    Balanced (ZMod 3) noFloats (normCtx [Table.newShiftCheck, normTable]) false [[normLayer]] := by
  have hrows : RowsPresent noFloats [[normLayer]] := normLayer_rowsPresent (by simp)
  refine (forall_balanced_iff hrows).mpr ?_ 3
  right
  refine ⟨fun table => ?_, fun table _ node hnode => ?_, fun table htable => ?_⟩
  · rw [mem_normCtx, List.mem_pair]
    simp only [lookupsInto, List.flatMap_singleton, NodeLookups.lookupsInto, normLayer_listsInto]
    by_cases hshift : table = Table.newShiftCheck
    · simp [hshift]
    · by_cases hvalue : table = normTable
      · have hne : normTable ≠ Table.newShiftCheck := by decide
        simp [hvalue, hne]
      · simp [hshift, hvalue]
  · rw [List.mem_singleton.mp hnode, NodeLookups.RecordsOnce, normLayer_listsInto]
    split
    · exact le_refl 1
    · split <;> decide
  · apply keysDistinct_of_tableBitSize_le _ fun row => mem_rows_of_mem_lookupsInto hrows
    rcases List.mem_pair.mp (mem_normCtx.mp htable) with rfl | rfl <;> decide

/-- The lookups of a node that records them twice are counted once, and a table of the context
    that is not used has no multiplicities. -/
theorem normLayer_not_balanced :
    (RowsPresent noFloats [[normLayer]] ∧ ¬ ∀ (p : Nat) [Fact p.Prime], Balanced (ZMod p) noFloats
      (normCtx [Table.newShiftCheck, normTable, Table.newSignedZeroCheck]) false [[normLayer]]) ∧
    (RowsPresent noFloats [[normLayer, normLayer]] ∧ ¬ ∀ (p : Nat) [Fact p.Prime],
      Balanced (ZMod p) noFloats (normCtx [Table.newShiftCheck, normTable]) false
        [[normLayer, normLayer]]) := by
  refine ⟨⟨normLayer_rowsPresent (by simp), fun h => ?_⟩, normLayer_rowsPresent (by simp), fun h => ?_⟩
  · have hcounted := lookupsCounted_of_balanced (normLayer_rowsPresent (by simp)) rfl h
    have hsigned := (hcounted.tables Table.newSignedZeroCheck).mp (mem_normCtx.mpr (by simp))
    exact hsigned (by decide)
  · have hcounted := lookupsCounted_of_balanced (normLayer_rowsPresent (by simp)) rfl h
    have honce := hcounted.once normTable (mem_normCtx.mpr (by simp)) _ (List.mem_singleton.mpr rfl)
    revert honce
    unfold NodeLookups.RecordsOnce
    decide

end SmallNorm

end DeepProve
