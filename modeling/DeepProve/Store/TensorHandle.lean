import DeepProve.ForStd.Runs
import DeepProve.Reshape.Layout
import DeepProve.Resize.PadToShape

/-!
# Handles of tensors

`tensor/handle.rs`: a handle caches a tensor, in one of two variants, that it can load from the
store. Clones share the cache. To dry a handle empties its cache, and what is loaded afterwards is
made of the stored data and the shapes of the handle. A wrapped tensor is made of its shape alone.
-/

namespace DeepProve.HandleStore

/-- The types of the entries. -/
inductive Kind where
  | f32
  | element
  deriving DecidableEq

/-- `StorageKey`: the hash covers the name of the type. -/
structure StorageKey where
  id : String
  kind : Kind
  deriving DecidableEq

inductive Variant where
  | wrappedTensor
  | tensor
  deriving DecidableEq

/-- `TensorHandle`. The lock that clones share is a number. -/
structure Handle where
  variant : Variant
  storageKey : StorageKey
  cell : Nat
  shape : Shape
  unpaddedShape : Shape

/-- The handles of a program, what their locks hold, and the store. -/
structure State (V : Type) where
  store : StorageKey → Option (List V)
  cells : Nat → Option (Tensor V)
  nextCell : Nat
  handles : List Handle

variable {V : Type}

/-- `Tensor::new_with_unpadded_shape`. -/
def newWithUnpaddedShape (shape unpaddedShape : Shape) (data : List V) : Outcome (Tensor V) := do
  ensure (shape.numel == data.length)
    s!"Shape does not match data length: shape {shape}->{shape.numel} vs data.len() {data.length}"
  .ok ⟨data, shape, unpaddedShape⟩

/-- `WrappedTensor::from_data`, after `TensorData::new`. -/
def fromData (shape : Shape) (data : List V) : Outcome (Tensor V) := do
  assertThat (shape.numel == data.length) "the shape does not match the data"
  ensure (1 ≤ shape.rank && shape.rank ≤ 4) s!"Unexpected tensor rank: {shape.rank}."
  .ok ⟨data, shape, shape⟩

/-- `WrappedTensor::try_from`. -/
def tryFrom (tensor : Tensor V) : Outcome (Tensor V) := do
  ensure (1 ≤ tensor.shape.rank && tensor.shape.rank ≤ 4) s!"Unexpected tensor rank: {tensor.shape.rank}"
  assertThat (tensor.shape.numel == tensor.data.length) "the shape does not match the data"
  .ok tensor

namespace State

/-- `GenStore::cast`. -/
def castStore (store : StorageKey → Option (List V)) (key : StorageKey) (kind : Kind) (f : V → V) :
    Outcome (StorageKey → Option (List V)) :=
  let newKey := { key with kind }
  match store newKey with
  | some _ => .ok store
  | none => do
    let oldPage ← okOr (store key) "KeyUnknown"
    .ok (Function.update store newKey (some (oldPage.map f)))

variable (s : State V)

/-- What `load` leaves in the lock. -/
def load (h : Handle) : Outcome (Tensor V) :=
  match s.cells h.cell with
  | some tensor => .ok tensor
  | none => do
    let data ← okOr (s.store h.storageKey) "KeyUnknown"
    match h.variant with
    | .wrappedTensor => fromData h.shape data
    | .tensor => newWithUnpaddedShape h.shape h.unpaddedShape data

def setCell (cell : Nat) (content : Option (Tensor V)) : State V :=
  { s with cells := Function.update s.cells cell content }

/-- A handle with a lock of its own. -/
def add (h : Handle) (content : Option (Tensor V)) : State V where
  store := s.store
  cells := Function.update s.cells s.nextCell content
  nextCell := s.nextCell + 1
  handles := s.handles ++ [{ h with cell := s.nextCell }]

def push (h : Handle) : State V := { s with handles := s.handles ++ [h] }

def read (variant : Variant) (msg : String) (h : Handle) : Outcome (State V) :=
  if h.variant = variant then do
    let tensor ← s.load h
    .ok (s.setCell h.cell (some tensor))
  else
    .error (.err msg)

/-- `tensor`. -/
def tensor (h : Handle) : Outcome (State V) :=
  s.read .tensor "Tensor is unavailable for a wrapped tensor handler" h

/-- `wrapped_tensor`. -/
def wrappedTensor (h : Handle) : Outcome (State V) :=
  s.read .wrappedTensor "Wrapped tensor is unavailable for a tensor handler" h

/-- `dry`. -/
def dry (h : Handle) : State V := s.setCell h.cell none

/-- `isolate`. -/
def isolate (h : Handle) : State V := s.add h (s.cells h.cell)

/-- The cached tensor, converted. -/
def convert (h : Handle) (f : Tensor V → Outcome (Tensor V)) : Outcome (Option (Tensor V)) :=
  match s.cells h.cell with
  | some tensor => do
    let converted ← f tensor
    .ok (some converted)
  | none => .ok none

def toVariant (variant : Variant) (f : Tensor V → Outcome (Tensor V)) (h : Handle) : Outcome (State V) :=
  if h.variant = variant then
    .ok (s.push h)
  else do
    let content ← s.convert h f
    .ok (s.add { h with variant } content)

/-- `tensor_variant` and `into_dry_tensor`, which do the same. -/
def tensorVariant (h : Handle) : Outcome (State V) :=
  s.toVariant .tensor (fun t => newWithUnpaddedShape t.shape t.unpaddedShape t.data) h

/-- `wrapped_tensor_variant`. -/
def wrappedTensorVariant (h : Handle) : Outcome (State V) := s.toVariant .wrappedTensor tryFrom h

/-- `cast`. -/
def cast (h : Handle) (kind : Kind) (f : V → V) : Outcome (State V) := do
  let store ← castStore s.store h.storageKey kind f
  .ok (add { s with store } { h with storageKey := { h.storageKey with kind } } none)

end State

/-- What is done with a handle. -/
inductive Op (V : Type) where
  | dry
  | tensor
  | wrappedTensor
  | isolate
  | clone
  | tensorVariant
  | wrappedTensorVariant
  | intoDryTensor
  | cast (kind : Kind) (f : V → V)

def Op.apply (s : State V) (h : Handle) : Op V → Outcome (State V)
  | .dry => .ok (s.dry h)
  | .tensor => s.tensor h
  | .wrappedTensor => s.wrappedTensor h
  | .isolate => .ok (s.isolate h)
  | .clone => .ok (s.push h)
  | .tensorVariant => s.tensorVariant h
  | .wrappedTensorVariant => s.wrappedTensorVariant h
  | .intoDryTensor => s.tensorVariant h
  | .cast kind f => s.cast h kind f

/-- The next operation, on one of the handles. What it returns becomes one of them. -/
def step (s : State V) (a : Nat × Op V) : Option (State V) :=
  match s.handles[a.1]? with
  | some h => (a.2.apply s h).toOption
  | none => some s

def Op.isDry : Op V → Bool
  | .dry => true
  | _ => false

def Op.isWrappedTensor : Op V → Bool
  | .wrappedTensor => true
  | _ => false

/-! ## What is cached is what the store has -/

/-- The tensor is that of the handle. -/
structure State.Stored (s : State V) (h : Handle) (t : Tensor V) : Prop where
  data : s.store h.storageKey = some t.data
  shape : t.shape = h.shape
  unpaddedShape : t.unpaddedShape = h.unpaddedShape
  numel : h.shape.numel = t.data.length
  rank : h.variant = .wrappedTensor → 1 ≤ h.shape.rank ∧ h.shape.rank ≤ 4

structure State.Valid (s : State V) : Prop where
  fresh : ∀ h ∈ s.handles, h.cell < s.nextCell
  shared : ∀ h ∈ s.handles, ∀ h' ∈ s.handles, h.cell = h'.cell → h = h'
  stored : ∀ h ∈ s.handles, ∀ t, s.cells h.cell = some t → s.Stored h t

namespace Handle

/-- The unpadded shape of what is loaded. -/
def restored (h : Handle) : Shape :=
  match h.variant with
  | .wrappedTensor => h.shape
  | .tensor => h.unpaddedShape

def Rebuilds (h : Handle) : Prop := h.variant = .wrappedTensor → h.unpaddedShape = h.shape

theorem rebuilds_iff (h : Handle) : h.Rebuilds ↔ h.restored = h.unpaddedShape := by
  cases hvariant : h.variant <;> simp [Rebuilds, restored, hvariant, eq_comm]

end Handle

/-- A wrapped tensor is loaded only if it is cached or its unpadded shape is its shape. -/
def KeepsShape (s : State V) (a : Nat × Op V) : Prop :=
  a.2.isWrappedTensor = true → ∀ h ∈ s.handles[a.1]?, s.cells h.cell = none → h.Rebuilds

/-- The same state, with some of the caches emptied. -/
def Follows (s' s : State V) : Prop :=
  ∃ cells, s' = { s with cells } ∧ ∀ c, cells c = none ∨ cells c = s.cells c

namespace State

variable {s : State V} {h : Handle} {t : Tensor V}

theorem load_eq_ok_iff (hnone : s.cells h.cell = none) : s.load h = .ok t ↔
    s.store h.storageKey = some t.data ∧ t.shape = h.shape ∧ t.unpaddedShape = h.restored ∧
      h.shape.numel = t.data.length ∧ (h.variant = .wrappedTensor → 1 ≤ h.shape.rank ∧ h.shape.rank ≤ 4) := by
  obtain ⟨data, shape, unpaddedShape⟩ := t
  simp only [load, hnone, Outcome.bind_eq_ok, okOr_eq_ok]
  cases hvariant : h.variant <;>
    simp only [fromData, newWithUnpaddedShape, Handle.restored, hvariant, Outcome.bind_eq_ok,
      assertThat_eq_ok, ensure_eq_ok, Except.ok.injEq, Tensor.mk.injEq, Bool.and_eq_true,
      decide_eq_true_eq, beq_iff_eq] <;>
    grind

theorem load_iff_stored (hnone : s.cells h.cell = none) (hkeep : h.Rebuilds) :
    s.load h = .ok t ↔ s.Stored h t := by
  rw [load_eq_ok_iff hnone, h.rebuilds_iff.mp hkeep]
  exact ⟨fun ⟨h₁, h₂, h₃, h₄, h₅⟩ => ⟨h₁, h₂, h₃, h₄, h₅⟩, fun ⟨h₁, h₂, h₃, h₄, h₅⟩ => ⟨h₁, h₂, h₃, h₄, h₅⟩⟩

theorem Valid.setCell (hv : s.Valid) (hmem : h ∈ s.handles) (hstored : s.Stored h t) :
    (s.setCell h.cell (some t)).Valid where
  fresh := hv.fresh
  shared := hv.shared
  stored h' hmem' t' hcell := by
    by_cases heq : h'.cell = h.cell
    · obtain rfl := hv.shared h' hmem' h hmem heq
      simp only [State.setCell, Function.update_self, Option.some.injEq] at hcell
      exact hcell ▸ { hstored with }
    · simp only [State.setCell, Function.update_of_ne heq] at hcell
      exact { hv.stored h' hmem' t' hcell with }

theorem Valid.add (hv : s.Valid) {content : Option (Tensor V)}
    (hstored : ∀ t, content = some t → s.Stored h t) : (s.add h content).Valid where
  fresh h' hmem := by
    rcases List.mem_append.mp hmem with hmem | hmem
    · exact Nat.lt_succ_of_lt (hv.fresh h' hmem)
    · obtain rfl := List.mem_singleton.mp hmem
      exact Nat.lt_succ_self _
  shared h₁ hmem₁ h₂ hmem₂ heq := by
    rcases List.mem_append.mp hmem₁ with hmem₁ | hmem₁ <;>
      rcases List.mem_append.mp hmem₂ with hmem₂ | hmem₂
    · exact hv.shared h₁ hmem₁ h₂ hmem₂ heq
    · obtain rfl := List.mem_singleton.mp hmem₂
      exact absurd heq (hv.fresh h₁ hmem₁).ne
    · obtain rfl := List.mem_singleton.mp hmem₁
      exact absurd heq.symm (hv.fresh h₂ hmem₂).ne
    · rw [List.mem_singleton.mp hmem₁, List.mem_singleton.mp hmem₂]
  stored h' hmem t hcell := by
    rcases List.mem_append.mp hmem with hmem | hmem
    · simp only [State.add, Function.update_of_ne (hv.fresh h' hmem).ne] at hcell
      exact { hv.stored h' hmem t hcell with }
    · obtain rfl := List.mem_singleton.mp hmem
      simp only [State.add, Function.update_self] at hcell
      exact { hstored t hcell with }

theorem Valid.push (hv : s.Valid) (hmem : h ∈ s.handles) : (s.push h).Valid := by
  have hsub : ∀ h' ∈ s.handles ++ [h], h' ∈ s.handles := by
    simpa [List.mem_append, or_imp, forall_and] using hmem
  exact ⟨fun h' hmem => hv.fresh h' (hsub h' hmem),
    fun h₁ hmem₁ h₂ hmem₂ => hv.shared h₁ (hsub h₁ hmem₁) h₂ (hsub h₂ hmem₂),
    fun h' hmem t hcell => { hv.stored h' (hsub h' hmem) t hcell with }⟩

/-- The store keeps what it has. -/
theorem castStore_extends {store store' : StorageKey → Option (List V)} {key : StorageKey} {kind : Kind}
    {f : V → V} (hcast : castStore store key kind f = .ok store') {key' : StorageKey} {data : List V}
    (hdata : store key' = some data) : store' key' = some data := by
  simp only [castStore] at hcast
  split at hcast
  · exact Except.ok.inj hcast ▸ hdata
  · rename_i hnone
    obtain ⟨_, -, hstore⟩ := Outcome.bind_eq_ok.mp hcast
    rw [← Except.ok.inj hstore, Function.update_of_ne, hdata]
    rintro rfl
    simp [hnone] at hdata

end State

/-! ## Runs with some of the caches emptied -/

section Follows

variable {s s' s₁ : State V} {h : Handle}

theorem Follows.dry (hf : Follows s' s) (h : Handle) : Follows (s'.dry h) s := by
  obtain ⟨cells, rfl, hcells⟩ := hf
  refine ⟨_, rfl, fun c => ?_⟩
  by_cases hc : c = h.cell
  · exact .inl (by simp [hc])
  · simpa [Function.update_of_ne hc] using hcells c

/-- What is loaded is the tensor of the handle, whether the cache was emptied or not. -/
theorem Follows.load (hf : Follows s' s) (hv : s.Valid) (hmem : h ∈ s.handles)
    (hkeep : s'.cells h.cell = none → h.Rebuilds) {t : Tensor V} (hload : s.load h = .ok t) :
    s'.load h = .ok t ∧ s.Stored h t := by
  obtain ⟨cells, rfl, hcells⟩ := hf
  cases hcell : s.cells h.cell with
  | none =>
    have hnone : cells h.cell = none := (hcells h.cell).elim id fun heq => heq.trans hcell
    have hstored := (State.load_iff_stored hcell (hkeep hnone)).mp hload
    exact ⟨(State.load_iff_stored hnone (hkeep hnone)).mpr { hstored with }, hstored⟩
  | some cached =>
    simp only [State.load, hcell] at hload
    obtain rfl := Except.ok.inj hload
    have hstored := hv.stored h hmem cached hcell
    refine ⟨?_, hstored⟩
    rcases hcells h.cell with hnone | heq
    · exact (State.load_iff_stored hnone (hkeep hnone)).mpr { hstored with }
    · simp [State.load, heq, hcell]

theorem Follows.setCell (hf : Follows s' s) (cell : Nat) (content : Option (Tensor V)) :
    Follows (s'.setCell cell content) (s.setCell cell content) := by
  obtain ⟨cells, rfl, hcells⟩ := hf
  refine ⟨_, rfl, fun c => ?_⟩
  by_cases hc : c = cell
  · exact .inr (by simp [State.setCell, hc])
  · simpa [State.setCell, Function.update_of_ne hc] using hcells c

theorem Follows.add (hf : Follows s' s) (h : Handle) {content content' : Option (Tensor V)}
    (hcontent : content' = none ∨ content' = content) : Follows (s'.add h content') (s.add h content) := by
  obtain ⟨cells, rfl, hcells⟩ := hf
  refine ⟨_, rfl, fun c => ?_⟩
  by_cases hc : c = s.nextCell
  · simpa [State.add, hc] using hcontent
  · simpa [State.add, Function.update_of_ne hc] using hcells c

theorem Follows.push (hf : Follows s' s) (h : Handle) : Follows (s'.push h) (s.push h) := by
  obtain ⟨cells, rfl, hcells⟩ := hf
  exact ⟨cells, rfl, hcells⟩

theorem Follows.read (hf : Follows s' s) (hv : s.Valid) (hmem : h ∈ s.handles) {variant : Variant}
    {msg : String} (hkeep : variant = .wrappedTensor → s'.cells h.cell = none → h.Rebuilds)
    (hread : s.read variant msg h = .ok s₁) :
    ∃ s₁', s'.read variant msg h = .ok s₁' ∧ Follows s₁' s₁ ∧ s₁.Valid := by
  unfold State.read at hread ⊢
  split at hread
  · rename_i hvariant
    obtain ⟨t, hload, heq⟩ := Outcome.bind_eq_ok.mp hread
    obtain rfl := Except.ok.inj heq
    have hrebuilds : s'.cells h.cell = none → h.Rebuilds :=
      fun hnone hwrapped => hkeep (hvariant.symm.trans hwrapped) hnone hwrapped
    obtain ⟨hload', hstored⟩ := hf.load hv hmem hrebuilds hload
    exact ⟨_, by rw [if_pos hvariant, hload']; rfl, hf.setCell _ _, hv.setCell hmem hstored⟩
  · cases hread

/-- What is cached is converted, and stays the tensor of the handle. -/
theorem Follows.toVariant (hf : Follows s' s) (hv : s.Valid) (hmem : h ∈ s.handles) {variant : Variant}
    {f : Tensor V → Outcome (Tensor V)}
    (hkeeps : ∀ t t', s.Stored h t → f t = .ok t' → s.Stored { h with variant } t')
    (hvariant : s.toVariant variant f h = .ok s₁) :
    ∃ s₁', s'.toVariant variant f h = .ok s₁' ∧ Follows s₁' s₁ ∧ s₁.Valid := by
  unfold State.toVariant at hvariant ⊢
  split at hvariant
  · rename_i hsame
    exact ⟨_, if_pos hsame, Except.ok.inj hvariant ▸ ⟨hf.push h, hv.push hmem⟩⟩
  rename_i hother
  obtain ⟨content, hconvert, heq⟩ := Outcome.bind_eq_ok.mp hvariant
  obtain rfl := Except.ok.inj heq
  simp only [if_neg hother]
  have hvalid : (s.add { h with variant } content).Valid := by
    refine hv.add fun t' hcontent => ?_
    unfold State.convert at hconvert
    split at hconvert
    · rename_i t hcell
      obtain ⟨t₁, hft, heq⟩ := Outcome.bind_eq_ok.mp hconvert
      obtain rfl := Option.some.inj ((Except.ok.inj heq).trans hcontent)
      exact hkeeps t t₁ (hv.stored h hmem t hcell) hft
    · exact absurd ((Except.ok.inj hconvert).trans hcontent) (by simp)
  have hcells := hf
  obtain ⟨cells, rfl, hcell⟩ := hcells
  rcases hcell h.cell with hnone | heq
  · exact ⟨_, by simp only [State.convert, hnone]; rfl, hf.add _ (.inl rfl), hvalid⟩
  · refine ⟨_, ?_, hf.add _ (.inr rfl), hvalid⟩
    rw [show State.convert { s with cells } h f = s.convert h f by simp only [State.convert, heq], hconvert]
    rfl

end Follows

/-- A step is taken in the same way, and what is cached stays what the store has. -/
theorem Follows.step {s s' s₁ : State V} {a : Nat × Op V} (hf : Follows s' s) (hv : s.Valid)
    (hkeep : KeepsShape s' a) (hdry : a.2.isDry = false) (hstep : step s a = some s₁) :
    ∃ s₁', step s' a = some s₁' ∧ Follows s₁' s₁ ∧ s₁.Valid := by
  obtain ⟨i, op⟩ := a
  have hget : s'.handles[i]? = s.handles[i]? := by
    obtain ⟨_, rfl, -⟩ := hf
    rfl
  simp only [HandleStore.step, hget] at hstep ⊢
  cases hhandle : s.handles[i]? with
  | none =>
    rw [hhandle] at hstep
    exact ⟨s', rfl, Option.some.inj hstep ▸ hf, Option.some.inj hstep ▸ hv⟩
  | some h =>
  rw [hhandle] at hstep hget
  have hmem := List.mem_of_getElem? hhandle
  suffices hsame : ∃ s₁', op.apply s' h = .ok s₁' ∧ Follows s₁' s₁ ∧ s₁.Valid by
    obtain ⟨s₁', happly', hrest⟩ := hsame
    exact ⟨s₁', by simp [happly', Except.toOption], hrest⟩
  have happly : op.apply s h = .ok s₁ := by
    cases heq : op.apply s h <;> simp_all [Except.toOption]
  have htensor : s.tensorVariant h = .ok s₁ →
      ∃ s₁', s'.tensorVariant h = .ok s₁' ∧ Follows s₁' s₁ ∧ s₁.Valid := by
    refine hf.toVariant hv hmem fun t t' hstored ht => ?_
    obtain ⟨-, -, heq⟩ := Outcome.bind_eq_ok.mp ht
    obtain rfl := Except.ok.inj heq
    exact { hstored with rank := fun hwrapped => by cases hwrapped }
  cases op with
  | dry => cases hdry
  | tensor => exact hf.read hv hmem (fun hwrapped => by cases hwrapped) happly
  | wrappedTensor => exact hf.read hv hmem (fun _ => hkeep rfl h hget) happly
  | isolate =>
    obtain rfl := Except.ok.inj happly
    refine ⟨_, rfl, hf.add h ?_, hv.add (hv.stored h hmem)⟩
    obtain ⟨cells, rfl, hcells⟩ := hf
    exact hcells h.cell
  | clone => exact ⟨_, rfl, Except.ok.inj happly ▸ ⟨hf.push h, hv.push hmem⟩⟩
  | tensorVariant => exact htensor happly
  | intoDryTensor => exact htensor happly
  | wrappedTensorVariant =>
    refine hf.toVariant hv hmem (fun t t' hstored ht => ?_) happly
    obtain ⟨_, hrank, ht⟩ := Outcome.bind_eq_ok.mp ht
    obtain ⟨-, -, heq⟩ := Outcome.bind_eq_ok.mp ht
    obtain rfl := Except.ok.inj heq
    rw [ensure_eq_ok, hstored.shape] at hrank
    exact { hstored with rank := fun _ => by simpa using hrank }
  | cast kind f =>
    obtain ⟨store, hstore, heq⟩ := Outcome.bind_eq_ok.mp happly
    obtain rfl := Except.ok.inj heq
    have hvalid : State.Valid { s with store } := { hv with
      stored := fun h hmem t hcell => { hv.stored h hmem t hcell with
        data := State.castStore_extends hstore (hv.stored h hmem t hcell).data } }
    obtain ⟨cells, rfl, hcells⟩ := hf
    have hf : Follows { s with cells, store } { s with store } := ⟨cells, rfl, hcells⟩
    refine ⟨_, ?_, hf.add _ (.inl rfl), hvalid.add fun _ hnone => by cases hnone⟩
    simp only [Op.apply, State.cast, hstore, Outcome.ok_bind]

/-- Whatever is dried in between, the same operations are done. -/
theorem follows_run {s s' s₁ : State V} {ops : List (Nat × Op V)} (hf : Follows s' s) (hv : s.Valid)
    (hkeep : AllSteps step KeepsShape s' ops)
    (hrun : runActions step s (ops.filter fun a => !a.2.isDry) = some s₁) :
    ∃ s₁', runActions step s' ops = some s₁' ∧ Follows s₁' s₁ ∧ s₁.Valid := by
  induction ops generalizing s s' with
  | nil => exact ⟨s', rfl, Option.some.inj hrun ▸ hf, Option.some.inj hrun ▸ hv⟩
  | cons a ops ih =>
    cases hdry : a.2.isDry with
    | true =>
      rw [List.filter_cons_of_neg (by simp [hdry])] at hrun
      obtain ⟨s₂', hfirst, hf₂⟩ : ∃ s₂', step s' a = some s₂' ∧ Follows s₂' s := by
        obtain ⟨i, op⟩ := a
        cases op <;> cases hdry
        unfold step
        cases s'.handles[i]? with
        | none => exact ⟨s', rfl, hf⟩
        | some h => exact ⟨_, rfl, hf.dry h⟩
      obtain ⟨s₁', hrest, hend⟩ := ih hf₂ hv (hkeep.2 s₂' hfirst) hrun
      exact ⟨s₁', runActions_cons_eq_some.mpr ⟨s₂', hfirst, hrest⟩, hend⟩
    | false =>
      rw [List.filter_cons_of_pos (by simp [hdry])] at hrun
      obtain ⟨s₂, hfirst, hrun⟩ := runActions_cons_eq_some.mp hrun
      obtain ⟨s₂', hfirst', hf₂, hv₂⟩ := hf.step hv hkeep.1 hdry hfirst
      obtain ⟨s₁', hrest, hend⟩ := ih hf₂ hv₂ (hkeep.2 s₂' hfirst') hrun
      exact ⟨s₁', runActions_cons_eq_some.mpr ⟨s₂', hfirst', hrest⟩, hend⟩

/-! ## Changes of a dried handle -/

/-- `pad_next_power_of_two`, `quantize` and `dequantize`, with what the last two do to an entry. -/
inductive Change (V : Type) where
  | padNextPowerOfTwo (zero : V)
  | quantize (f : V → V)
  | dequantize (f : V → V)

namespace Change

/-- The tensor that is cached. -/
def tensor (t : Tensor V) : Change V → Outcome (Tensor V)
  | padNextPowerOfTwo zero =>
    match t.padToShapeWithValue t.shape.nextPowerOfTwo zero with
    | .ok padded => .ok padded
    | .error _ => .error (.panic "creates a new shape of correct rank; qed")
  | quantize f | dequantize f => .ok { t with data := t.data.map f }

/-- The handle of the result, which keeps the id of the data. -/
def handle (h : Handle) : Change V → Handle
  | padNextPowerOfTwo _ => { h with shape := h.shape.nextPowerOfTwo }
  | quantize _ => { h with storageKey := { h.storageKey with kind := .element } }
  | dequantize _ => { h with storageKey := { h.storageKey with kind := .f32 } }

/-- The result of a change, when it is loaded. -/
def loaded (c : Change V) (s : State V) (h : Handle) : Outcome (Tensor V) := do
  let content ← s.convert h (c.tensor ·)
  (s.add (c.handle h) content).load { c.handle h with cell := s.nextCell }

/-- The data that the store has under the key of the result is the result. A padding has the key of
    what is padded, whose data does not fit if there is anything to pad. -/
def Keeps (c : Change V) (s : State V) (h : Handle) : Prop :=
  match c with
  | padNextPowerOfTwo _ => h.shape.nextPowerOfTwo = h.shape → h.Rebuilds
  | quantize f | dequantize f => ∀ data data', s.store h.storageKey = some data →
    s.store (c.handle h).storageKey = some data' → data'.length = data.length →
      data' = data.map f ∧ h.Rebuilds

end Change

namespace State

variable {s s' : State V} {h : Handle} {t : Tensor V}

/-- A change of a dried handle gives no other tensor exactly if the store has no other data for it. -/
theorem Stored.loaded_iff (hstored : s.Stored h t) (hcell : s.cells h.cell = some t)
    (hnone : s'.cells h.cell = none) (hf : Follows s' s) (c : Change V) :
    (∀ t', c.loaded s' h = .ok t' → c.loaded s h = .ok t') ↔ c.Keeps s h := by
  obtain ⟨cells, rfl, -⟩ := hf
  replace hnone : cells h.cell = none := hnone
  have hloaded : c.loaded s h = c.tensor t := by
    simp only [Change.loaded, convert, hcell]
    cases c.tensor t <;> simp [load, add]
  have hdried : ∀ t', c.loaded { s with cells } h = .ok t' ↔
      s.store (c.handle h).storageKey = some t'.data ∧ t'.shape = (c.handle h).shape ∧
        t'.unpaddedShape = (c.handle h).restored ∧ (c.handle h).shape.numel = t'.data.length := fun t' => by
    have hrank : (c.handle h).variant = .wrappedTensor →
        1 ≤ (c.handle h).shape.rank ∧ (c.handle h).shape.rank ≤ 4 := by
      cases c <;> simpa [Change.handle, Shape.rank, Shape.nextPowerOfTwo] using hstored.rank
    have hconvert : convert { s with cells } h (c.tensor ·) = .ok none := by
      simp only [convert, hnone]
    rw [Change.loaded, hconvert, Outcome.ok_bind, load_eq_ok_iff (by simp [add])]
    exact ⟨fun ⟨h₁, h₂, h₃, h₄, _⟩ => ⟨h₁, h₂, h₃, h₄⟩, fun ⟨h₁, h₂, h₃, h₄⟩ => ⟨h₁, h₂, h₃, h₄, hrank⟩⟩
  have hmapped : ∀ (kind : Kind) (f : V → V),
      (∀ t' : Tensor V, s.store { h.storageKey with kind } = some t'.data ∧ t'.shape = h.shape ∧
        t'.unpaddedShape = h.restored ∧ h.shape.numel = t'.data.length →
          (.ok { t with data := t.data.map f } : Outcome (Tensor V)) = .ok t') ↔
      ∀ data data', s.store h.storageKey = some data → s.store { h.storageKey with kind } = some data' →
        data'.length = data.length → data' = data.map f ∧ h.Rebuilds := by
    intro kind f
    constructor
    · intro hsame data data' hdata hdata' hlength
      obtain rfl := Option.some.inj (hdata.symm.trans hstored.data)
      have heq := Except.ok.inj (hsame ⟨data', h.shape, h.restored⟩
        ⟨hdata', rfl, rfl, hstored.numel.trans hlength.symm⟩)
      obtain ⟨hmap, -, hunpadded⟩ := Tensor.mk.injEq .. ▸ heq
      exact ⟨hmap.symm, h.rebuilds_iff.mpr (hunpadded.symm.trans hstored.unpaddedShape)⟩
    · intro hkeep t' ⟨hdata', hshape, hunpadded, hnumel⟩
      obtain ⟨hmap, hrebuilds⟩ := hkeep t.data t'.data hstored.data hdata'
        (hnumel.symm.trans hstored.numel)
      rw [h.rebuilds_iff.mp hrebuilds, ← hstored.unpaddedShape] at hunpadded
      rw [← hmap, hstored.shape.trans hshape.symm, ← hunpadded]
  simp only [hloaded, hdried]
  cases c with
  | quantize f => exact hmapped .element f
  | dequantize f => exact hmapped .f32 f
  | padNextPowerOfTwo zero =>
    have hpad : h.shape.nextPowerOfTwo = h.shape →
        Change.tensor t (.padNextPowerOfTwo zero) = .ok t := fun hshape => by
      simp [Change.tensor, Tensor.padToShapeWithValue, hstored.shape, hshape]
    have hfits : h.shape.nextPowerOfTwo.numel = t.data.length → h.shape.nextPowerOfTwo = h.shape :=
      fun hnumel => Shape.nextPowerOfTwo_eq_self
        (Shape.all_isPowerOfTwo_of_numel_eq (hnumel.trans hstored.numel.symm))
    have hrestored : h.shape.nextPowerOfTwo = h.shape →
        Handle.restored { h with shape := h.shape.nextPowerOfTwo } = h.restored := fun hshape => by
      rw [hshape]
    simp only [Change.handle, Change.Keeps, h.rebuilds_iff]
    constructor
    · intro hsame hshape
      have heq := Except.ok.inj ((hpad hshape).symm.trans (hsame ⟨t.data, h.shape, h.restored⟩
        ⟨hstored.data, hshape.symm, (hrestored hshape).symm, by rw [hshape, hstored.numel]⟩))
      exact (congrArg Tensor.unpaddedShape heq).symm.trans hstored.unpaddedShape
    · intro hkeep t' ⟨hdata, hshape', hunpadded, hnumel⟩
      have hsame : t.data = t'.data := Option.some.inj (hstored.data.symm.trans hdata)
      have hshape := hfits (hnumel.trans (congrArg List.length hsame.symm))
      rw [hpad hshape]
      rw [hrestored hshape, hkeep hshape, ← hstored.unpaddedShape] at hunpadded
      rw [hshape, ← hstored.shape] at hshape'
      cases t
      cases t'
      simp_all

end State

/-- Drying loses nothing, in a run that loads no wrapped tensor without its unpadded shape, and then
    after a change exactly if the store has no other data under the key of the result. -/
theorem sameTensors_iff {s : State V} (hv : s.Valid) {ops : List (Nat × Op V)}
    (hkeep : AllSteps step KeepsShape s ops) {s₁ : State V}
    (hrun : runActions step s (ops.filter fun a => !a.2.isDry) = some s₁) :
    ∃ s₁', runActions step s ops = some s₁' ∧ s₁'.handles = s₁.handles ∧ ∀ h ∈ s₁.handles,
      ((s₁'.cells h.cell = none → h.Rebuilds) → ∀ t, s₁.load h = .ok t → s₁'.load h = .ok t) ∧
      ∀ t, s₁.cells h.cell = some t → ∀ c : Change V,
        (∀ t', c.loaded (s₁'.dry h) h = .ok t' → c.loaded s₁ h = .ok t') ↔ c.Keeps s₁ h := by
  obtain ⟨s₁', hrun', hf, hv₁⟩ := follows_run ⟨s.cells, rfl, fun _ => .inr rfl⟩ hv hkeep hrun
  have hhandles : s₁'.handles = s₁.handles := by
    obtain ⟨_, rfl, -⟩ := hf
    rfl
  refine ⟨s₁', hrun', hhandles, fun h hmem => ⟨fun hrebuilds t hload => ?_, fun t hcell c => ?_⟩⟩
  · exact (hf.load hv₁ hmem hrebuilds hload).1
  · exact (hv₁.stored h hmem t hcell).loaded_iff hcell (by simp [State.dry, State.setCell]) (hf.dry h) c

/-- A padded tensor, with its data in the store. -/
def padded (variant : Variant) : State Int where
  store := fun key => if key = ⟨"w", .element⟩ then some [5, 0] else none
  cells := fun _ => some ⟨[5, 0], [2], [1]⟩
  nextCell := 1
  handles := [⟨variant, ⟨"w", .element⟩, 0, [2], [1]⟩]

theorem valid_padded (variant : Variant) : (padded variant).Valid where
  fresh := by simp [padded]
  shared := by simp [padded]
  stored := by
    intro h hmem t hcell
    obtain rfl := List.mem_singleton.mp hmem
    obtain rfl := Option.some.inj hcell
    exact ⟨rfl, rfl, rfl, rfl, fun _ => ⟨Nat.le_refl 1, Nat.le_of_ble_eq_true rfl⟩⟩

/-- A clone of a plain tensor is dried, and the tensor loaded. -/
theorem sameTensors_plain : ∃ s₁', runActions step (padded .tensor) [(0, .clone), (1, .dry), (0, .tensor)] =
      some s₁' ∧ ∀ h ∈ s₁'.handles, s₁'.load h = .ok ⟨[5, 0], [2], [1]⟩ := by
  have hkeep : AllSteps step KeepsShape (padded .tensor) [(0, .clone), (1, .dry), (0, .tensor)] :=
    allSteps_of_forall_mem (by simp [KeepsShape, Op.isWrappedTensor])
  obtain ⟨s₁', hrun, hhandles, hsame⟩ := sameTensors_iff (valid_padded .tensor) hkeep rfl
  refine ⟨s₁', hrun, fun h hmem => ?_⟩
  rw [hhandles] at hmem
  obtain rfl : h = ⟨.tensor, ⟨"w", .element⟩, 0, [2], [1]⟩ := by
    simpa [padded, State.push, State.setCell] using hmem
  exact (hsame _ hmem).1 (fun _ hwrapped => by cases hwrapped) _ rfl

/-- A wrapped tensor is dried, and loaded without its unpadded shape. -/
theorem not_sameTensors_wrapped : (padded .wrappedTensor).Valid ∧
    ∃ s₁, runActions step (padded .wrappedTensor) [(0, .dry)] = some s₁ ∧ ∃ h ∈ s₁.handles,
      (padded .wrappedTensor).load h = .ok ⟨[5, 0], [2], [1]⟩ ∧ s₁.load h = .ok ⟨[5, 0], [2], [2]⟩ :=
  ⟨valid_padded _, _, rfl, _, List.mem_cons_self, rfl, rfl⟩

end DeepProve.HandleStore
