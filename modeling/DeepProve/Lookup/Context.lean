import DeepProve.Graph.Basic
import DeepProve.LogUp.Structs
import DeepProve.Lookup.Table

/-!
# The lookup context

`lookup/context.rs`: the tables of a chunk with the nodes that use them, and the
challenges of the tables (`iop/mod.rs`), which are kept by the name of the table.
-/

namespace DeepProve

structure LookupContext where
  tables : BTreeMap Table (List NodeId)

/-- One challenge for the denominators of all tables, and one for each table that
    separates its columns. -/
structure ChallengeStorage (F : Type) where
  constantChallenge : F
  challengeMap : HashMap String F

/-- `get_challenges_by_name`. -/
def ChallengeStorage.getChallengesByName {F : Type} (self : ChallengeStorage F) (name : String) :
    Option (F × F) :=
  (self.challengeMap[name]?).map fun challenges => (self.constantChallenge, challenges)

namespace LookupContext

/-- `iter`, the tables in their order. -/
def iter (self : LookupContext) : List Table := self.tables.keys

section VerifierInstances

variable {F : Type} (fl : Float32Ops) (challengeStorage : ChallengeStorage F)

/-- The instance of one table. -/
def logupVerifierInstance (table : Table) : Outcome (LogUpVerifierInstance F) := do
  let (constantChallenge, columnSeparationChallenge) ←
    okOr (challengeStorage.getChallengesByName (table.name fl))
      s!"No challenges found for Table {table.name fl}, cannot generate LogUp input"
  let numVars ← usizeSub table.tableBitSize 1
  .ok ⟨constantChallenge, columnSeparationChallenge, table.numColumns, .table, numVars⟩

/-- `create_logup_verifier_instances`. -/
def createLogupVerifierInstances (self : LookupContext) :
    Outcome (List (LogUpVerifierInstance F)) :=
  self.iter.mapM (logupVerifierInstance fl challengeStorage)

variable {fl challengeStorage}

/-- What the verifier knows about the instance of a table. -/
theorem logupVerifierInstance_eq_ok {table : Table} {inst : LogUpVerifierInstance F}
    (h : logupVerifierInstance fl challengeStorage table = .ok inst) :
    inst.instanceType = .table ∧ inst.numColumns = table.numColumns ∧
      table.tableBitSize = inst.numVars + 1 := by
  simp only [logupVerifierInstance, Outcome.bind_eq_ok] at h
  obtain ⟨_, _, numVars, hnumVars, hinst⟩ := h
  obtain ⟨hle, rfl⟩ := usizeSub_eq_ok.mp hnumVars
  rw [← Except.ok.inj hinst]
  exact ⟨rfl, rfl, by show _ = table.tableBitSize - 1 + 1; omega⟩

end VerifierInstances

end LookupContext

end DeepProve
