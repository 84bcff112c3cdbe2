import DeepProve.ForStd.Blocks
import DeepProve.LogUp.Verifier
import DeepProve.PolyCommit.Expression

/-!
# What a round of the LogUp verifier reads

A round prepares one expression for each circuit size that runs in it. The
instances of these sizes take up consecutive blocks of the evaluations of the
round, the largest size first; the `eq` factors come after the last block. Every
position is computed in 16 bits.
-/

namespace DeepProve

variable {F : Type} [CommRing F]

/-! ## One instance -/

/-- The sum of two fractions, unreduced. -/
def addFractions (low high : F × F) : F × F :=
  (low.1 * high.2 + high.1 * low.2, low.2 * high.2)

namespace LogUpVerifierInstance

/-- The denominator of a fraction whose columns start at `start`. -/
def denomValue (self : LogUpVerifierInstance F) (read : Nat → F) (start : Nat) : F :=
  self.constantChallenge +
    ∑ j ∈ Finset.range self.numColumns, self.columnSeparationChallenge ^ j * read (start + j)

/-- The two fractions that an instance adds up, on the block of evaluations it reads. -/
def layerFractions (self : LogUpVerifierInstance F) (isFinalRound : Bool) (read : Nat → F) :
    (F × F) × (F × F) :=
  if !isFinalRound then
    ((read 0, read 2), (read 1, read 3))
  else
    match self.instanceType with
    | .table =>
      ((read 0, self.denomValue read 2), (read 1, self.denomValue read (2 + self.numColumns)))
    | .lookup => ((-1, self.denomValue read 0), (-1, self.denomValue read self.numColumns))

/-- Numerator and denominator of the sum, combined. -/
def layerValue (self : LogUpVerifierInstance F) (lambda : F) (isFinalRound : Bool)
    (read : Nat → F) : F :=
  let fractions := self.layerFractions isFinalRound read
  let sum := addFractions fractions.1 fractions.2
  sum.1 + lambda * sum.2

section Evaluation

variable {D : DpCrypto F} {witness : List F} {alpha lambda : F} {read : Nat → F}

theorem eval_alphaPower (hD : D.Lawful) (layerCount : Nat) :
    D.eval witness [alpha, lambda] (alphaPower D layerCount) = .ok (alpha ^ layerCount) := by
  have h := hD.challenge witness [alpha, lambda] 0 layerCount 1 0 alpha rfl
  rwa [mul_one, add_zero] at h

theorem eval_lambdaExpr (hD : D.Lawful) :
    D.eval witness [alpha, lambda] (lambdaExpr D) = .ok lambda := by
  have h := hD.challenge witness [alpha, lambda] 1 1 1 0 lambda rfl
  rwa [pow_one, mul_one, add_zero] at h

/-- The denominators of an instance, column by column. -/
theorem eval_denomExprs (hD : D.Lawful) (self : LogUpVerifierInstance F) (alpha lambda : F)
    (low high : UInt16) (lowStart highStart : Nat) (hcols : self.numColumns < 2 ^ 16)
    (hlow : ∀ j < self.numColumns,
      witness[(low + UInt16.ofNat j).toNat]? = some (read (lowStart + j)))
    (hhigh : ∀ j < self.numColumns,
      witness[(high + UInt16.ofNat j).toNat]? = some (read (highStart + j))) :
    D.eval witness [alpha, lambda] (self.denomExprs D low high).1 =
        .ok (self.denomValue read lowStart) ∧
      D.eval witness [alpha, lambda] (self.denomExprs D low high).2 =
        .ok (self.denomValue read highStart) := by
  -- The loop keeps the power of the challenge beside the two sums
  suffices hgen : ∀ n ≤ self.numColumns,
      let acc := (List.range n).foldl (fun acc i =>
        (D.add acc.1 (D.mul (D.constant acc.2.2) (D.witIn (low + UInt16.ofNat i))),
          D.add acc.2.1 (D.mul (D.constant acc.2.2) (D.witIn (high + UInt16.ofNat i))),
          acc.2.2 * self.columnSeparationChallenge))
        (D.constant self.constantChallenge, D.constant self.constantChallenge, (1 : F))
      D.eval witness [alpha, lambda] acc.1 = .ok (self.constantChallenge +
          ∑ j ∈ Finset.range n, self.columnSeparationChallenge ^ j * read (lowStart + j)) ∧
        D.eval witness [alpha, lambda] acc.2.1 = .ok (self.constantChallenge +
          ∑ j ∈ Finset.range n, self.columnSeparationChallenge ^ j * read (highStart + j)) ∧
        acc.2.2 = self.columnSeparationChallenge ^ n by
    have hall := hgen self.numColumns (Nat.le_refl _)
    unfold denomExprs
    rw [Nat.mod_eq_of_lt hcols]
    exact ⟨hall.1, hall.2.1⟩
  intro n hn
  induction n with
  | zero =>
    have hconst := hD.constant witness [alpha, lambda] self.constantChallenge
    simpa using hconst
  | succ n ih =>
    obtain ⟨ihLow, ihHigh, ihChal⟩ := ih (by omega)
    rw [List.range_succ, List.foldl_append]
    generalize (List.range n).foldl _ _ = acc at ihLow ihHigh ihChal ⊢
    obtain ⟨accLow, accHigh, chalAcc⟩ := acc
    simp only [List.foldl_cons, List.foldl_nil] at ihLow ihHigh ihChal ⊢
    have hchal := hD.constant witness [alpha, lambda] chalAcc
    rw [Finset.sum_range_succ, Finset.sum_range_succ, ← add_assoc, ← add_assoc, ← ihChal]
    refine ⟨hD.add _ _ _ _ _ _ ihLow (hD.mul _ _ _ _ _ _ hchal
      (hD.witIn _ _ _ _ (hlow n (by omega)))), hD.add _ _ _ _ _ _ ihHigh (hD.mul _ _ _ _ _ _ hchal
      (hD.witIn _ _ _ _ (hhigh n (by omega)))), ?_⟩
    rw [pow_succ, ihChal]

/-- Two fractions added by expressions. -/
theorem eval_addFractions (hD : D.Lawful) (layerCount : Nat) {numer denomLow denomHigh : D.Expression}
    {m c d : F} (hnumer : D.eval witness [alpha, lambda] numer = .ok m)
    (hdenomLow : D.eval witness [alpha, lambda] denomLow = .ok c)
    (hdenomHigh : D.eval witness [alpha, lambda] denomHigh = .ok d) :
    D.eval witness [alpha, lambda] (D.mul (alphaPower D layerCount)
        (D.add numer (D.mul (D.mul (lambdaExpr D) denomLow) denomHigh))) =
      .ok (alpha ^ layerCount * (m + lambda * (c * d))) := by
  have hdenom := hD.mul _ _ _ _ _ _ (hD.mul _ _ _ _ _ _ (eval_lambdaExpr hD) hdenomLow) hdenomHigh
  rw [hD.mul _ _ _ _ _ _ (eval_alphaPower hD layerCount) (hD.add _ _ _ _ _ _ hnumer hdenom), mul_assoc]

/-- The value of the expression that links this layer to the next one. -/
theorem eval_sumcheckExpression (hD : D.Lawful) (self : LogUpVerifierInstance F)
    (alpha lambda : F) (read : Nat → F) (layerCount offset : Nat) (isFinalRound : Bool)
    (hcols : self.numRoundEvals isFinalRound < 2 ^ 16)
    (hread : ∀ j < self.numRoundEvals isFinalRound,
      readWitIn witness (offset + j) = some (read j)) :
    D.eval witness [alpha, lambda]
        (self.sumcheckExpression D layerCount (UInt16.ofNat offset) isFinalRound) =
      .ok (alpha ^ layerCount * self.layerValue lambda isFinalRound read) := by
  -- every id the expression uses is the offset and a step
  have hid : ∀ j < self.numRoundEvals isFinalRound, ∀ id : UInt16,
      id = UInt16.ofNat (offset + j) → witness[id.toNat]? = some (read j) := by
    intro j hj id hid
    rw [hid]
    exact hread j hj
  have hwitIn : ∀ j < self.numRoundEvals isFinalRound, ∀ id : UInt16,
      id = UInt16.ofNat (offset + j) → D.eval witness [alpha, lambda] (D.witIn id) = .ok (read j) :=
    fun j hj id h => hD.witIn _ _ _ _ (hid j hj id h)
  unfold sumcheckExpression layerValue layerFractions
  cases isFinalRound with
  | false =>
    have h0 := hwitIn 0 (by show 0 < 4; omega) (UInt16.ofNat offset) rfl
    have h1 := hwitIn 1 (by show 1 < 4; omega) (UInt16.ofNat offset + 1) (by simp)
    have h2 := hwitIn 2 (by show 2 < 4; omega) (UInt16.ofNat offset + 1 + 1)
      (by simp [UInt16.add_assoc])
    have h3 := hwitIn 3 (by show 3 < 4; omega) (UInt16.ofNat offset + 1 + 1 + 1)
      (by simp [UInt16.add_assoc])
    exact eval_addFractions hD layerCount (hD.add _ _ _ _ _ _ (hD.mul _ _ _ _ _ _ h0 h3)
      (hD.mul _ _ _ _ _ _ h1 h2)) h2 h3
  | true =>
    cases htype : self.instanceType with
    | table =>
      have hwidth : self.numRoundEvals true = 2 * (1 + self.numColumns) := by
        simp [numRoundEvals, numFinalRoundEvals, htype]
      rw [hwidth] at hcols hid hwitIn
      have h0 := hwitIn 0 (by omega) (UInt16.ofNat offset) rfl
      have h1 := hwitIn 1 (by omega) (UInt16.ofNat offset + 1) (by simp)
      have hdenoms := eval_denomExprs hD self alpha lambda (UInt16.ofNat offset + 1 + 1)
        (UInt16.ofNat offset + 1 + 1 + UInt16.ofNat self.numColumns) 2 (2 + self.numColumns)
        (by omega) (fun j hj => hid (2 + j) (by omega) _ (by simp [UInt16.add_assoc]))
        (fun j hj => hid (2 + self.numColumns + j) (by omega) _ (by simp [UInt16.add_assoc]))
      exact eval_addFractions hD layerCount (hD.add _ _ _ _ _ _ (hD.mul _ _ _ _ _ _ h0 hdenoms.2)
        (hD.mul _ _ _ _ _ _ h1 hdenoms.1)) hdenoms.1 hdenoms.2
    | lookup =>
      have hwidth : self.numRoundEvals true = 2 * self.numColumns := by
        simp [numRoundEvals, numFinalRoundEvals, htype]
      rw [hwidth] at hcols hid
      have hdenoms := eval_denomExprs hD self alpha lambda (UInt16.ofNat offset)
        (UInt16.ofNat offset + UInt16.ofNat self.numColumns) 0 self.numColumns
        (by omega) (fun j hj => hid (0 + j) (by omega) _ (by simp))
        (fun j hj => hid (self.numColumns + j) (by omega) _ (by simp [UInt16.add_assoc]))
      have hnumer := hD.sub _ _ _ _ _ _ (hD.neg _ _ _ _ hdenoms.2) hdenoms.1
      rw [sub_eq_add_neg, neg_eq_neg_one_mul, neg_eq_neg_one_mul (self.denomValue read 0)] at hnumer
      exact eval_addFractions hD layerCount hnumer hdenoms.1 hdenoms.2

end Evaluation

end LogUpVerifierInstance

/-! ## One round -/

section Round

variable (instances : List (LogUpVerifierInstance F))

omit [CommRing F] in
/-- The sizes that run in a round, the largest first. -/
def runningSizes (remainingLayers : Nat) : List Nat :=
  (uniqueLayerSize instances).reverse.filter fun size => remainingLayers ≤ size

omit [CommRing F] in
/-- The instances of the given sizes, each with its position in the list of instances. -/
def instancesOf (sizes : List Nat) : List (LogUpVerifierInstance F × Nat) :=
  Blocks.byKeys (fun inst => inst.1.numVars) sizes instances.zipIdx

omit [CommRing F] in
/-- The number of evaluations a round reads before the `eq` factors. -/
def neededEvals (isFinalRound : Bool) (sizes : List Nat) : Nat :=
  Blocks.total (fun inst => inst.1.numRoundEvals isFinalRound) (instancesOf instances sizes)

omit [CommRing F] in
/-- The instances of the given sizes, each with its position in the list of
    instances and the start of its block. -/
def roundBlocks (isFinalRound : Bool) (sizes : List Nat) :
    List ((LogUpVerifierInstance F × Nat) × Nat) :=
  Blocks.layout (fun inst => inst.1.numRoundEvals isFinalRound) 0 (instancesOf instances sizes)

/-- The point of the `eq` polynomial of a size. -/
def eqPointOf (sumcheckPoint : List F) (remainingLayers size : Nat) : List F :=
  sumcheckPoint.drop (sumcheckPoint.length - (size + 1 - remainingLayers))

/-- The values that instances contribute, weighted by their powers of `alpha` and the
    factors of their sizes. -/
def blocksValue (isFinalRound : Bool) (alpha lambda : F) (read eqFactor : Nat → F)
    (blocks : List (((LogUpVerifierInstance F × Nat) × Nat) × Nat)) : F :=
  (blocks.map fun (((inst, _), start), rank) =>
    alpha ^ rank * inst.layerValue lambda isFinalRound (fun j => read (start + j)) *
      eqFactor inst.numVars).sum

theorem blocksValue_append (isFinalRound : Bool) (alpha lambda : F) (read eqFactor : Nat → F)
    (blocks blocks' : List (((LogUpVerifierInstance F × Nat) × Nat) × Nat)) :
    blocksValue isFinalRound alpha lambda read eqFactor (blocks ++ blocks') =
      blocksValue isFinalRound alpha lambda read eqFactor blocks +
        blocksValue isFinalRound alpha lambda read eqFactor blocks' := by
  simp only [blocksValue, List.map_append, List.sum_append]

/-- The blocks of one size have one factor in common. -/
theorem blocksValue_eq_mul {isFinalRound : Bool} {alpha lambda : F} {read : Nat → F}
    (eqFactor : Nat → F) {size : Nat} {blocks : List (((LogUpVerifierInstance F × Nat) × Nat) × Nat)}
    (h : ∀ block ∈ blocks, block.1.1.1.numVars = size) :
    blocksValue isFinalRound alpha lambda read eqFactor blocks =
      blocksValue isFinalRound alpha lambda read (fun _ => 1) blocks * eqFactor size := by
  induction blocks with
  | nil => simp [blocksValue]
  | cons block blocks ih =>
    obtain ⟨hblock, hrest⟩ := List.forall_mem_cons.mp h
    have hih := ih hrest
    simp only [blocksValue, List.map_cons, List.sum_cons] at hih ⊢
    rw [hih, hblock, mul_one, add_mul]

variable {D : DpCrypto F} {witness : List F} {alpha lambda : F} {read eqFactor : Nat → F}

/-- The instances of one size: their expressions are added up, the counters move on. -/
theorem foldl_prepareInstance (claimExprMultiplier : D.Expression) (isFinalRound : Bool)
    (insts : List (LogUpVerifierInstance F × Nat)) (layerCount offset : Nat) (acc : LayerAcc D)
    (expr : D.Expression) (hcount : acc.layerCount = layerCount)
    (hoffset : acc.witnessOffset = UInt16.ofNat offset) :
    let width := fun (inst : LogUpVerifierInstance F × Nat) => inst.1.numRoundEvals isFinalRound
    let out := (insts.map Prod.fst).foldl (prepareInstance D claimExprMultiplier isFinalRound)
      (acc, expr)
    out.1.layerCount = layerCount + insts.length ∧
      out.1.witnessOffset = UInt16.ofNat (offset + Blocks.total width insts) ∧
      out.1.info.eqPoints = acc.info.eqPoints ∧
      out.1.info.sumcheckExpressions = acc.info.sumcheckExpressions ∧
      ∀ witness alpha lambda read x, D.Lawful → offset + Blocks.total width insts < 2 ^ 16 →
        (∀ j < offset + Blocks.total width insts, readWitIn witness j = some (read j)) →
        D.eval witness [alpha, lambda] expr = .ok x →
        D.eval witness [alpha, lambda] out.2 = .ok (x +
          blocksValue isFinalRound alpha lambda read (fun _ => 1)
            ((Blocks.layout width offset insts).zipIdx layerCount)) := by
  intro width
  induction insts generalizing layerCount offset acc expr with
  | nil =>
    refine ⟨hcount, hoffset, rfl, rfl, ?_⟩
    intro witness alpha lambda read x _ _ _ hx
    simpa [blocksValue] using hx
  | cons inst insts ih =>
    have hnext := ih (layerCount + 1) (offset + width inst)
      (prepareInstance D claimExprMultiplier isFinalRound (acc, expr) inst.1).1
      (prepareInstance D claimExprMultiplier isFinalRound (acc, expr) inst.1).2
      (by simp [prepareInstance, LogUpVerifierInstance.instanceExpressions, hcount])
      (by simp [prepareInstance, LogUpVerifierInstance.instanceExpressions, hoffset, width])
    obtain ⟨hcount', hoffset', heqPoints, hexprs, hvalue⟩ := hnext
    simp only [List.map_cons, List.foldl_cons, Blocks.total_cons, Blocks.layout_cons,
      List.zipIdx_cons, List.length_cons]
    refine ⟨by rw [hcount']; omega, by rw [hoffset', Nat.add_assoc], heqPoints, hexprs, ?_⟩
    intro witness alpha lambda read x hD hlt hread hx
    have hinst := inst.1.eval_sumcheckExpression hD alpha lambda (fun j => read (offset + j))
      layerCount offset isFinalRound
      (show width inst < 2 ^ 16 by omega)
      (fun j hj => hread (offset + j) (by show offset + j < _; change j < width inst at hj; omega))
    have hexpr : D.eval witness [alpha, lambda]
        (prepareInstance D claimExprMultiplier isFinalRound (acc, expr) inst.1).2 =
        .ok (x + alpha ^ layerCount *
          inst.1.layerValue lambda isFinalRound (fun j => read (offset + j))) := by
      simp only [prepareInstance, LogUpVerifierInstance.instanceExpressions, hcount, hoffset]
      exact hD.add _ _ _ _ _ _ hx hinst
    rw [hvalue witness alpha lambda read _ hD (by omega) (fun j hj => hread j (by omega)) hexpr]
    simp only [blocksValue, List.map_cons, List.sum_cons, mul_one, add_assoc]

/-- What the closure over the sizes has prepared when it is through with `sizes`. -/
structure Prepared (remainingLayers : Nat) (isFinalRound : Bool) (sumcheckPoint : List F)
    (sizes : List Nat) (acc : LayerAcc D) : Prop where
  layerCount : acc.layerCount = (instancesOf instances sizes).length
  witnessOffset : acc.witnessOffset = UInt16.ofNat (neededEvals instances isFinalRound sizes)
  eqPoints : acc.info.eqPoints = sizes.map (eqPointOf sumcheckPoint remainingLayers)
  numExpressions : acc.info.sumcheckExpressions.length = sizes.length
  /-- The values of the expressions, each with the factor of its size, add up to what
      the blocks contribute. -/
  value : ∀ witness alpha lambda read eqFactor, D.Lawful →
    neededEvals instances isFinalRound sizes < 2 ^ 16 →
    (∀ j < neededEvals instances isFinalRound sizes, readWitIn witness j = some (read j)) →
    ∃ vals, List.Forall₂ (fun e x => D.eval witness [alpha, lambda] e = .ok x)
        acc.info.sumcheckExpressions vals ∧
      (List.zipWith (· * ·) vals (sizes.map eqFactor)).sum =
        blocksValue isFinalRound alpha lambda read eqFactor
          (roundBlocks instances isFinalRound sizes).zipIdx

variable {instances} {remainingLayers totalLayers : Nat} {isFinalRound : Bool}
  {sumcheckPoint : List F} {sizes : List Nat} {acc acc' : LayerAcc D}

theorem Prepared.nil : Prepared instances remainingLayers isFinalRound sumcheckPoint []
    (⟨⟨[], [], D.constant 0⟩, 0, 0⟩ : LayerAcc D) where
  layerCount := rfl
  witnessOffset := rfl
  eqPoints := rfl
  numExpressions := rfl
  value := by
    intro witness alpha lambda read eqFactor _ _ _
    exact ⟨[], List.Forall₂.nil, rfl⟩

/-- One more size. -/
theorem Prepared.prepareSize {size : Nat} (hsize : remainingLayers ≤ size)
    (h : Prepared instances remainingLayers isFinalRound sumcheckPoint sizes acc)
    (hok : prepareSize D instances totalLayers remainingLayers isFinalRound sumcheckPoint acc size =
      .ok acc') :
    Prepared instances remainingLayers isFinalRound sumcheckPoint (sizes ++ [size]) acc' := by
  unfold DeepProve.prepareSize at hok
  rw [if_pos hsize] at hok
  simp only [Outcome.bind_eq_ok] at hok
  obtain ⟨shift, _, start, hstart, hacc'⟩ := hok
  -- the instances of the size, with their positions
  let group := instances.zipIdx.filter fun inst => inst.1.numVars = size
  have hgroup : (instances.filter fun inst => inst.numVars = size) = group.map Prod.fst := by
    have hmap := List.filter_map (p := fun (inst : LogUpVerifierInstance F) =>
      decide (inst.numVars = size)) (f := Prod.fst) (l := instances.zipIdx)
    rwa [List.zipIdx_map_fst] at hmap
  have hof : instancesOf instances (sizes ++ [size]) = instancesOf instances sizes ++ group := by
    unfold instancesOf
    rw [Blocks.byKeys_append, Blocks.byKeys_cons, Blocks.byKeys_nil, List.append_nil]
  let width := fun (inst : LogUpVerifierInstance F × Nat) => inst.1.numRoundEvals isFinalRound
  have hneeded : neededEvals instances isFinalRound (sizes ++ [size]) =
      neededEvals instances isFinalRound sizes + Blocks.total width group := by
    unfold neededEvals
    rw [hof, Blocks.total_append]
  rw [hgroup] at hacc'
  have hfold := foldl_prepareInstance (D.constant ((2 ^ (shift % 64) : Nat) : F)) isFinalRound group
    _ _ acc (D.constant 0) h.layerCount h.witnessOffset
  generalize (group.map Prod.fst).foldl _ _ = out at hfold hacc'
  obtain ⟨hcount, hoffset, heqPoints, hexprs, hvalue⟩ := hfold
  have hacc' := Except.ok.inj hacc'
  subst hacc'
  constructor
  case layerCount => rw [hof, List.length_append]; exact hcount
  case witnessOffset => rw [hneeded]; exact hoffset
  case eqPoints =>
    rw [List.map_append, ← h.eqPoints, ← heqPoints, (usizeSub_eq_ok.mp hstart).2]
    rfl
  case numExpressions =>
    show (out.1.info.sumcheckExpressions ++ [out.2]).length = _
    rw [hexprs, List.length_append, h.numExpressions, List.length_append]
    rfl
  case value =>
    intro witness alpha lambda read eqFactor hD hlt hread
    rw [hneeded] at hlt hread
    obtain ⟨vals, hvals, hsum⟩ := h.value witness alpha lambda read eqFactor hD (by omega)
      (fun j hj => hread j (by omega))
    have hgroupValue := hvalue witness alpha lambda read 0 hD hlt hread (hD.constant _ _ _)
    rw [zero_add] at hgroupValue
    -- the new expression is paired with the factor of the new size
    let groupBlocks := (Blocks.layout width (neededEvals instances isFinalRound sizes)
      group).zipIdx (instancesOf instances sizes).length
    refine ⟨vals ++ [blocksValue isFinalRound alpha lambda read (fun _ => 1) groupBlocks], ?_, ?_⟩
    · show List.Forall₂ _ (out.1.info.sumcheckExpressions ++ [out.2]) _
      rw [hexprs]
      exact List.rel_append hvals (List.Forall₂.cons hgroupValue List.Forall₂.nil)
    · have hlen : vals.length = (sizes.map eqFactor).length := by
        rw [← hvals.length_eq, h.numExpressions, List.length_map]
      have hblocks : roundBlocks instances isFinalRound (sizes ++ [size]) =
          roundBlocks instances isFinalRound sizes ++
            Blocks.layout width (neededEvals instances isFinalRound sizes) group := by
        unfold roundBlocks
        rw [hof, Blocks.layout_append, Nat.zero_add]
        rfl
      have hsize : ∀ block ∈ groupBlocks, block.1.1.1.numVars = size := by
        intro block hblock
        have hmem := Blocks.mem_of_mem_layout (List.fst_mem_of_mem_zipIdx hblock)
        simpa using (List.mem_filter.mp hmem).2
      have hcount : (roundBlocks instances isFinalRound sizes).length =
          (instancesOf instances sizes).length := Blocks.length_layout _ _ _
      rw [List.map_append, List.zipWith_append hlen, List.sum_append, hsum, hblocks,
        List.zipIdx_append, blocksValue_append, Nat.zero_add, hcount]
      show _ = _ + blocksValue isFinalRound alpha lambda read eqFactor groupBlocks
      rw [blocksValue_eq_mul eqFactor hsize]
      simp

omit [CommRing F] in
theorem mem_uniqueLayerSize {instances : List (LogUpVerifierInstance F)} {size : Nat} :
    size ∈ uniqueLayerSize instances ↔ ∃ inst ∈ instances, inst.numVars = size := by
  suffices hgen : ∀ sizes : BTreeMap Nat Unit,
      size ∈ instances.foldl (fun sizes inst => sizes.insert inst.numVars ()) sizes ↔
        size ∈ sizes ∨ ∃ inst ∈ instances, inst.numVars = size by
    rw [uniqueLayerSize, Std.ExtTreeMap.mem_keys, hgen]
    simp
  induction instances with
  | nil => simp
  | cons inst instances ih =>
    intro sizes
    rw [List.foldl_cons, ih, Std.ExtTreeMap.mem_insert, List.exists_mem_cons_iff,
      Std.LawfulEqCmp.compare_eq_iff_eq, or_assoc, or_left_comm]

omit [CommRing F] in
theorem mem_runningSizes {instances : List (LogUpVerifierInstance F)} {remainingLayers size : Nat} :
    size ∈ runningSizes instances remainingLayers ↔
      (∃ inst ∈ instances, inst.numVars = size) ∧ remainingLayers ≤ size := by
  rw [runningSizes, List.mem_filter, List.mem_reverse, mem_uniqueLayerSize, decide_eq_true_eq]

omit [CommRing F] in
/-- The largest size comes first. -/
theorem pairwise_runningSizes (instances : List (LogUpVerifierInstance F)) (remainingLayers : Nat) :
    (runningSizes instances remainingLayers).Pairwise fun j k => k < j := by
  apply List.Pairwise.filter
  rw [List.pairwise_reverse]
  apply (Std.ExtTreeMap.ordered_keys).imp
  intro j k h
  exact Nat.compare_eq_lt.mp h

/-- What a round prepares. -/
theorem prepared_of_verifyingInfo
    (hok : verifyingInfo D instances totalLayers remainingLayers isFinalRound sumcheckPoint =
      .ok acc) :
    Prepared instances remainingLayers isFinalRound sumcheckPoint
      (runningSizes instances remainingLayers) acc := by
  -- Induction over the sizes: those that do not run yet are passed over
  suffices hgen : ∀ (sizes done : List Nat) (acc acc' : LayerAcc D),
      Prepared instances remainingLayers isFinalRound sumcheckPoint done acc →
      sizes.foldlM (DeepProve.prepareSize D instances totalLayers remainingLayers isFinalRound
        sumcheckPoint) acc = .ok acc' →
      Prepared instances remainingLayers isFinalRound sumcheckPoint
        (done ++ sizes.filter fun size => remainingLayers ≤ size) acc' from
    hgen _ [] _ acc Prepared.nil hok
  intro sizes
  induction sizes with
  | nil =>
    intro done acc acc' hacc hok
    rw [← Except.ok.inj hok, List.filter_nil, List.append_nil]
    exact hacc
  | cons size sizes ih =>
    intro done acc acc' hacc hok
    rw [List.foldlM_cons, Outcome.bind_eq_ok] at hok
    obtain ⟨acc₁, hstep, hrest⟩ := hok
    by_cases hsize : remainingLayers ≤ size
    · have hmore := ih (done ++ [size]) acc₁ acc' (hacc.prepareSize hsize hstep) hrest
      rw [List.append_assoc, List.singleton_append] at hmore
      rwa [List.filter_cons_of_pos (by simpa using hsize)]
    · unfold DeepProve.prepareSize at hstep
      rw [if_neg hsize] at hstep
      rw [List.filter_cons_of_neg (by simpa using hsize)]
      exact ih done acc₁ acc' (Except.ok.inj hstep ▸ hacc) hrest

/-- The expressions, each with the factor that is read for it. -/
theorem eval_foldl_factors (hD : D.Lawful) {witness challenges : List F} {offset : UInt16}
    {exprs : List D.Expression} {vals : List F}
    (hvals : List.Forall₂ (fun e x => D.eval witness challenges e = .ok x) exprs vals)
    (k : Nat) (factors : List F) (hnum : factors.length = vals.length)
    (hread : ∀ i x, factors[i]? = some x →
      witness[(offset + UInt16.ofNat (k + i)).toNat]? = some x)
    (acc : D.Expression) {x : F} (hacc : D.eval witness challenges acc = .ok x) :
    D.eval witness challenges ((exprs.zipIdx k).foldl (fun acc (expr, i) =>
        D.add acc (D.mul expr (D.witIn (offset + UInt16.ofNat i)))) acc) =
      .ok (x + (List.zipWith (· * ·) vals factors).sum) := by
  induction hvals generalizing k factors acc x with
  | nil => simpa using hacc
  | @cons expr val exprs vals hval _ ih =>
    cases factors with
    | nil => cases hnum
    | cons factor factors =>
      have hterm := hD.mul _ _ _ _ _ _ hval (hD.witIn _ challenges _ _ (hread 0 factor rfl))
      have hrest := ih (k + 1) factors (by simpa using hnum)
        (fun i x hx => by rw [Nat.add_right_comm]; exact hread (i + 1) x hx)
        _ (hD.add _ _ _ _ _ _ hacc hterm)
      rw [List.zipIdx_cons, List.foldl_cons, List.zipWith_cons_cons, List.sum_cons, ← add_assoc]
      exact hrest

/-- The value of the expression that a round checks, when the proof has as many
    evaluations as the round reads. -/
theorem eval_fullSumcheckExpression (hD : D.Lawful)
    (hprep : Prepared instances remainingLayers isFinalRound sumcheckPoint sizes acc)
    {roundEvaluations eqEvaluations : List F}
    (hlen : roundEvaluations.length = neededEvals instances isFinalRound sizes)
    (hlt : roundEvaluations.length + eqEvaluations.length ≤ 2 ^ 16)
    (hpos : 0 < sizes.length) (heqs : eqEvaluations = sizes.map eqFactor) (alpha lambda : F) :
    D.eval (roundEvaluations ++ eqEvaluations) [alpha, lambda]
        (acc.info.fullSumcheckExpression acc.witnessOffset) =
      .ok (blocksValue isFinalRound alpha lambda (fun j => roundEvaluations[j]?.getD 0) eqFactor
        (roundBlocks instances isFinalRound sizes).zipIdx) := by
  have hnum : eqEvaluations.length = sizes.length := by rw [heqs, List.length_map]
  -- the blocks lie in the evaluations of the proof
  have hread : ∀ j < neededEvals instances isFinalRound sizes,
      readWitIn (roundEvaluations ++ eqEvaluations) j =
        some (roundEvaluations[j]?.getD 0) := by
    intro j hj
    have hj : j < roundEvaluations.length := by omega
    rw [readWitIn_eq (by omega), List.getElem?_append_left hj, List.getElem?_eq_getElem hj]
    rfl
  obtain ⟨vals, hvals, hsum⟩ := hprep.value (roundEvaluations ++ eqEvaluations) alpha lambda
    (fun j => roundEvaluations[j]?.getD 0) eqFactor hD (by omega) hread
  rw [← hsum, ← heqs]
  -- the factors come after them
  have heq : ∀ i x, eqEvaluations[i]? = some x →
      (roundEvaluations ++ eqEvaluations)[
        (acc.witnessOffset + UInt16.ofNat i).toNat]? = some x := by
    intro i x hx
    obtain ⟨hi, _⟩ := List.getElem?_eq_some_iff.mp hx
    rw [hprep.witnessOffset, ← UInt16.ofNat_add, UInt16.toNat_ofNat_of_lt' (by
      show _ < 2 ^ 16; omega), ← hlen, List.getElem?_append_right (by omega),
      Nat.add_sub_cancel_left]
    exact hx
  have hvalue := eval_foldl_factors hD hvals 0 eqEvaluations
    (by rw [hnum, ← hvals.length_eq, hprep.numExpressions])
    (fun i x hx => by rw [Nat.zero_add]; exact heq i x hx) (D.constant 0) (hD.constant _ _ _)
  rwa [zero_add] at hvalue

end Round

end DeepProve
