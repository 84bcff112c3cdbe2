import DeepProve.Iop.SplitIo

/-!
# Does the transcript bind the public inputs and outputs?

The tensors that the model was given and that it put out are never appended to a transcript: the
verifier draws the point at which such a tensor is evaluated from a transcript that holds the
commitments of the context, the chunk and its proof. Two runs that differ in one entry come to the
first evaluation of that tensor with the same transcript.
-/

namespace DeepProve

namespace ChunkedIo

instance : Std.LawfulEqCmp (compare : ChunkedIo → ChunkedIo → Ordering) where
  eq_of_compare {a b} h := by
    obtain ⟨hio, hchunk⟩ := Ordering.then_eq_eq.mp h
    obtain ⟨ioId, chunkId⟩ := a
    obtain ⟨ioId', chunkId'⟩ := b
    obtain rfl : ioId = ioId' := Std.LawfulEqCmp.eq_of_compare hio
    obtain rfl : chunkId = chunkId' := Std.LawfulEqCmp.eq_of_compare hchunk
    rfl

end ChunkedIo

deriving instance DecidableEq for ChunkedIoNode

/-- A tensor that the verifier is given. -/
inductive IoSource where
  | output (node : ChunkedIoNode)
  | input (node : ChunkedIoNode)

/-! ## One entry is changed -/

section Change

variable {F : Type} [Field F]

/-- The first entry is changed. -/
def IoTensor.changeEntry (self : IoTensor F) : IoTensor F :=
  { self with data := self.data.modify 0 (· + 1) }

/-- The first entry is changed. -/
def PublicTensor.changeEntry (self : PublicTensor F) : PublicTensor F :=
  { self with
    data := self.data.modify 0 (· + 1)
    numel_eq := by rw [List.length_modify, self.numel_eq] }

/-- The pieces of a tensor, with one of them changed. -/
def changePiece (piece : ChunkedIo) (splitted : HashMap Nat (List (PublicTensor F))) :
    HashMap Nat (List (PublicTensor F)) :=
  splitted.map fun id tensors =>
    if id = piece.ioId then tensors.modify piece.chunkId PublicTensor.changeEntry else tensors

/-- One of the tensors is changed. -/
def PublicIo.change (io : PublicIo F) : IoSource → PublicIo F
  | .output (.originalNode outId) =>
    { io with output := io.output.modify outId PublicTensor.changeEntry }
  | .output (.chunked piece) =>
    { io with splittedOutputs := io.splittedOutputs.map (changePiece piece) }
  | .input (.originalNode inputId) =>
    { io with input := io.input.modify inputId PublicTensor.changeEntry }
  | .input (.chunked piece) =>
    { io with splittedInputs := io.splittedInputs.map (changePiece piece) }

/-- The tensor differs from what it was. -/
theorem IoTensor.exists_changed {tensor : IoTensor F} (h : tensor.data ≠ []) :
    ∃ (i : Nat) (x x' : F), tensor.data[i]? = some x ∧ tensor.changeEntry.data[i]? = some x' ∧
      x ≠ x' := by
  obtain ⟨x, xs, hdata⟩ := List.exists_cons_of_ne_nil h
  refine ⟨0, x, x + 1, by rw [hdata]; rfl, by rw [changeEntry, hdata]; rfl, ?_⟩
  exact fun heq => one_ne_zero (left_eq_add.mp heq)

theorem PublicTensor.toIoTensor_changeEntry (self : PublicTensor F) :
    self.changeEntry.toIoTensor = self.toIoTensor.changeEntry := rfl

/-- A list of tensors, with one of them changed. -/
theorem getElem?_toIoTensor_modify (tensors : List (PublicTensor F)) (id id' : Nat) :
    ((tensors.modify id PublicTensor.changeEntry).map PublicTensor.toIoTensor)[id']? =
      ((tensors.map PublicTensor.toIoTensor)[id']?).map
        fun tensor => if id = id' then tensor.changeEntry else tensor := by
  rw [List.getElem?_map, List.getElem?_modify, List.getElem?_map]
  cases tensors[id']? with
  | none => rfl
  | some tensor =>
    by_cases hid : id = id'
    · simp [hid, PublicTensor.toIoTensor_changeEntry]
    · simp [hid]

theorem okOr_map {α β : Type} (o : Option α) (f : α → β) (msg : String) :
    okOr (o.map f) msg = (okOr o msg >>= fun a => .ok (f a)) := by
  cases o <;> rfl

/-- The pieces as they are evaluated. -/
abbrev toIoTensors (splitted : HashMap Nat (List (PublicTensor F))) :
    HashMap Nat (List (IoTensor F)) :=
  splitted.map fun _ tensors => tensors.map PublicTensor.toIoTensor

/-- The pieces that are looked up, with one of them changed. -/
theorem okOr_changePiece (piece : ChunkedIo) (splitted : HashMap Nat (List (PublicTensor F)))
    (piece' : ChunkedIo) (msg msg' : String) :
    (okOr (toIoTensors (changePiece piece splitted))[piece'.ioId]? msg >>=
        fun tensors => okOr tensors[piece'.chunkId]? msg') =
      (okOr (toIoTensors splitted)[piece'.ioId]? msg >>= fun tensors =>
        okOr tensors[piece'.chunkId]? msg' >>= fun tensor =>
          .ok (if piece = piece' then tensor.changeEntry else tensor)) := by
  rw [changePiece, Std.ExtTreeMap.getElem?_map, Std.ExtTreeMap.getElem?_map,
    Std.ExtTreeMap.getElem?_map]
  cases splitted[piece'.ioId]? with
  | none => rfl
  | some tensors =>
    simp only [Option.map_some, okOr_some, Outcome.ok_bind]
    obtain ⟨ioId, chunkId⟩ := piece
    obtain ⟨ioId', chunkId'⟩ := piece'
    by_cases hio : ioId' = ioId
    · subst hio
      rw [if_pos rfl, getElem?_toIoTensor_modify, okOr_map]
      simp only [ChunkedIo.mk.injEq, true_and]
    · have hpiece : ¬ (⟨ioId, chunkId⟩ : ChunkedIo) = ⟨ioId', chunkId'⟩ := by
        intro heq
        exact hio (congrArg ChunkedIo.ioId heq).symm
      rw [if_neg hio]
      simp only [if_neg hpiece]
      cases okOr (tensors.map PublicTensor.toIoTensor)[chunkId']? msg' <;> rfl

end Change

namespace ChunkVerifier

variable {F C : Type} [Field F] [DecidableEq F] {D : DpCrypto F} {O : OtherLayers D C}
  (V : ChunkVerifier O)

/-! ## Where a tensor is read -/

/-- The chunk puts out the output of the model. -/
def ReadsOutput (o : ChunkedIoNode) : Prop :=
  ∃ entry ∈ V.chunk.modelOutputsInChunk,
    V.chunk.subgraph.nodes[entry.2.target]? = some (.output o)

/-- The node reads the input of the model. -/
def ReadsInput (n : NodeId) (i : ChunkedIoNode) : Prop :=
  ∃ entry ∈ V.chunk.modelInputsInChunk, entry.2.target = n ∧ entry.2.ports ≠ [] ∧
    V.chunk.subgraph.nodes[entry.2.source]? = some (.input i)

variable (proof : ChunkProof O)

/-- The run comes to the evaluation of an output of the model, `compute_claim`, with the
    transcript `t`. -/
def EvaluatesOutput (o : ChunkedIoNode) (tensor : IoTensor F) (t : D.Transcript) : Prop :=
  ∃ t₀ outputs before after acc,
    V.writeCommitments proof = .ok t₀ ∧
    V.chunk.modelOutputsInChunk.foldlM V.collectOutput ∅ = .ok outputs ∧
    V.ReadsOutput o ∧ V.outputTensor o = .ok tensor ∧
    outputs.toList = before ++ (o.toChunkedIo, tensor) :: after ∧
    before.foldlM V.computeClaim (∅, (V.tableChallenges t₀).2) = .ok (acc, t)

/-- After `position` rounds the run comes to the evaluation of the inputs of the model that the node
    reads, `verify_input_claim`, with the transcript `t`. -/
def ChecksInput (position : Nat) (n : NodeId) (i : ChunkedIoNode) (tensor : IoTensor F)
    (t : D.Transcript) : Prop :=
  ∃ start before inner after state layer state' inputs,
    V.start proof = .ok start ∧
    V.chunk.subgraph.backwardIter = before ++ (n, .inner inner) :: after ∧
    before.length = position ∧
    before.foldlM (V.verifyNode proof start) ⟨∅, start.verifier⟩ = .ok state ∧
    V.nodeClaims proof start state n inner = .ok (layer, state') ∧
    V.nodeInputs state'.claims n = .ok inputs ∧
    V.ReadsInput n i ∧ V.inputTensor i = .ok tensor ∧
    t = state'.verifier.transcript

/-! ## Runs to the end evaluate what they read -/

variable {V proof}
variable {outputs' outputs : BTreeMap ChunkedIo (IoTensor F)} {i : ChunkedIoNode}

omit [Field F] [DecidableEq F] in
theorem collectOutput_eq_ok {entry : EdgeId × Edge Unit} :
    V.collectOutput outputs entry = .ok outputs' ↔ entry.2.ports.length = 1 ∧ ∃ o tensor,
      V.chunk.subgraph.nodes[entry.2.target]? = some (.output o) ∧ V.outputTensor o = .ok tensor ∧
      outputs[o.toChunkedIo]? = none ∧ outputs' = outputs.insert o.toChunkedIo tensor := by
  have houtput : ∀ {node : ChunkNode O} {o : ChunkedIoNode},
      node.asOutput = some o ↔ node = .output o := by
    intro node o
    cases node <;> simp [Node.asOutput]
  have hcontains : ∀ key : ChunkedIo, (!outputs.contains key) = true ↔ outputs[key]? = none := by
    intro key
    rw [Std.ExtTreeMap.contains_eq_isSome_getElem?, Bool.not_eq_true', Option.isSome_eq_false_iff,
      Option.isNone_iff_eq_none]
  unfold collectOutput
  simp only [Outcome.bind_eq_ok, ensure_eq_ok, okOr_eq_ok, houtput, hcontains, beq_iff_eq,
    Except.ok.injEq]
  constructor
  · rintro ⟨_, hports, _, htarget, o, hnode, tensor, htensor, _, hnone, hresult⟩
    exact ⟨hports, o, tensor, hnode ▸ htarget, htensor, hnone, hresult.symm⟩
  · rintro ⟨hports, o, tensor, htarget, htensor, hnone, hresult⟩
    exact ⟨(), hports, _, htarget, o, rfl, tensor, htensor, (), hnone, hresult.symm⟩

variable {n : NodeId} {entries : List (EdgeId × Edge Unit)} {inputs : List (IoTensor F × Claim F)}

omit [Field F] [DecidableEq F] in
/-- Every output that is collected is kept. -/
theorem getElem?_of_collectOutputs (h : entries.foldlM V.collectOutput outputs = .ok outputs') :
    (∀ (key : ChunkedIo) (tensor : IoTensor F), outputs[key]? = some tensor →
      outputs'[key]? = some tensor) ∧
    ∀ entry ∈ entries, ∀ o, V.chunk.subgraph.nodes[entry.2.target]? = some (.output o) →
      ∃ tensor, V.outputTensor o = .ok tensor ∧ outputs'[o.toChunkedIo]? = some tensor := by
  induction entries generalizing outputs with
  | nil =>
    obtain rfl := Except.ok.inj h
    exact ⟨fun _ _ hget => hget, fun _ hmem => nomatch hmem⟩
  | cons entry entries ih =>
    rw [List.foldlM_cons, Outcome.bind_eq_ok] at h
    obtain ⟨outputs₁, hstep, hrest⟩ := h
    obtain ⟨hkeep, hall⟩ := ih hrest
    obtain ⟨-, o, tensor, hnode, htensor, hnone, rfl⟩ := collectOutput_eq_ok.mp hstep
    constructor
    · intro key tensor' hget
      apply hkeep
      -- the key of the new output is not among the old ones
      have hne : o.toChunkedIo ≠ key := by
        intro heq
        rw [← heq, hnone] at hget
        exact nomatch hget
      rw [Std.ExtTreeMap.getElem?_insert, if_neg]
      · exact hget
      · rw [Std.LawfulEqOrd.compare_eq_iff_eq]
        exact hne
    · intro entry' hmem o' hnode'
      rcases List.mem_cons.mp hmem with rfl | hmem
      · obtain rfl : o = o' := by simpa using hnode.symm.trans hnode'
        exact ⟨tensor, htensor, hkeep _ _ Std.ExtTreeMap.getElem?_insert_self⟩
      · exact hall entry' hmem o' hnode'

omit [DecidableEq F] in
/-- All outputs that the chunk puts out are evaluated before its nodes are visited. -/
theorem exists_evaluatesOutput {start : ClaimsStart D C} (hstart : V.start proof = .ok start)
    {o : ChunkedIoNode} (hreads : V.ReadsOutput o) :
    ∃ tensor t, V.EvaluatesOutput proof o tensor t := by
  unfold ChunkVerifier.start at hstart
  obtain ⟨t₀, hwrite, hstart⟩ := Outcome.bind_eq_ok.mp hstart
  obtain ⟨claims, hclaims, -⟩ := Outcome.bind_eq_ok.mp hstart
  obtain ⟨outputs, houtputs, hevaluate⟩ := Outcome.bind_eq_ok.mp hclaims
  obtain ⟨entry, hentry, hnode⟩ := hreads
  obtain ⟨tensor, htensor, hget⟩ := (getElem?_of_collectOutputs houtputs).2 entry hentry o hnode
  obtain ⟨before, after, hlist⟩ := List.append_of_mem
    (Std.ExtTreeMap.mem_toList_iff_getElem?_eq_some.mpr hget)
  rw [hlist, List.foldlM_append, Outcome.bind_eq_ok] at hevaluate
  obtain ⟨⟨acc, t⟩, hbefore, -⟩ := hevaluate
  exact ⟨tensor, t, t₀, outputs, before, after, acc, hwrite, houtputs, ⟨entry, hentry, hnode⟩, htensor,
    hlist, hbefore⟩

omit [Field F] [DecidableEq F] in
/-- The tensors that a node reads are there. -/
theorem exists_inputTensor {claims : HashMap NodeInput (Claim F)}
    (h : V.nodeInputs claims n = .ok inputs) (hreads : V.ReadsInput n i) :
    ∃ tensor, V.inputTensor i = .ok tensor := by
  obtain ⟨entry, hentry, htarget, -, hnode⟩ := hreads
  obtain ⟨lists, hlists, -⟩ := Outcome.bind_eq_ok.mp h
  obtain ⟨list, -, hlist⟩ := Outcome.exists_eq_ok_of_mapM hlists
    (List.mem_filter.mpr ⟨hentry, beq_iff_eq.mpr htarget⟩)
  unfold edgeInputs at hlist
  simp only [hnode, okOr_some, Outcome.ok_bind, Node.asInput] at hlist
  obtain ⟨tensor, htensor, -⟩ := Outcome.bind_eq_ok.mp hlist
  exact ⟨tensor, htensor⟩

/-- The inputs of the nodes that have been visited were evaluated. -/
theorem exists_checksInput {start : ClaimsStart D C} {visited later : List (NodeId × ChunkNode O)}
    {state : ClaimsState D C} (hstart : V.start proof = .ok start)
    (hiter : V.chunk.subgraph.backwardIter = visited ++ later)
    (hvisit : visited.foldlM (V.verifyNode proof start) ⟨∅, start.verifier⟩ = .ok state)
    {inner : ChunkedNode O} (hmem : (n, .inner inner) ∈ visited) (hreads : V.ReadsInput n i) :
    ∃ position < visited.length, ∃ tensor t, V.ChecksInput proof position n i tensor t := by
  obtain ⟨before, after, rfl⟩ := List.append_of_mem hmem
  rw [List.foldlM_append, Outcome.bind_eq_ok] at hvisit
  obtain ⟨state₁, hbefore, hvisit⟩ := hvisit
  rw [List.foldlM_cons, verifyNode_inner, Outcome.bind_eq_ok] at hvisit
  obtain ⟨state₂, hnode, -⟩ := hvisit
  obtain ⟨⟨layer, state'⟩, hclaims, hchecked⟩ := Outcome.bind_eq_ok.mp hnode
  dsimp only at hchecked
  rw [checkInputs_eq] at hchecked
  obtain ⟨_, hcheck, -⟩ := Outcome.bind_eq_ok.mp hchecked
  obtain ⟨inputs, hinputs, -⟩ := Outcome.bind_eq_ok.mp hcheck
  obtain ⟨tensor, htensor⟩ := exists_inputTensor hinputs hreads
  refine ⟨before.length, ?_, tensor, _, start, before, inner, after ++ later, state₁, layer, state',
    inputs, hstart, ?_, rfl, hbefore, hclaims, hinputs, hreads, htensor, rfl⟩
  · rw [List.length_append, List.length_cons]
    omega
  · rw [hiter, List.append_assoc, List.cons_append]

/-! ## A changed tensor -/

variable {io : PublicIo F}

omit [DecidableEq F] in
/-- Of the outputs only the changed one is another. -/
theorem outputTensor_change (hio : V.io = io.toVerifierIo) (o o' : ChunkedIoNode) :
    (V.withIo (io.change (.output o)).toVerifierIo).outputTensor o' =
      (V.outputTensor o' >>= fun tensor =>
        .ok (if o = o' then tensor.changeEntry else tensor)) := by
  cases o with
  | originalNode outId =>
    cases o' with
    | originalNode outId' =>
      simp only [outputTensor, withIo, PublicIo.change, PublicIo.toVerifierIo, hio, List.length_map,
        List.length_modify, getElem?_toIoTensor_modify, okOr_map, ChunkedIoNode.originalNode.injEq]
    | chunked piece =>
      simp only [outputTensor, withIo, PublicIo.change, PublicIo.toVerifierIo, hio, reduceCtorEq,
        if_false]
      exact (bind_pure _).symm
  | chunked piece =>
    cases o' with
    | originalNode outId =>
      simp only [outputTensor, withIo, PublicIo.change, PublicIo.toVerifierIo, hio, reduceCtorEq,
        if_false]
      exact (bind_pure _).symm
    | chunked piece' =>
      simp only [outputTensor, withIo, PublicIo.change, PublicIo.toVerifierIo, hio,
        ChunkedIoNode.chunked.injEq]
      cases io.splittedOutputs with
      | none => rfl
      | some splitted =>
        simp only [Option.map_some, okOr_some, Outcome.ok_bind, bind_assoc]
        exact okOr_changePiece piece splitted piece' _ _

omit [DecidableEq F] in
/-- Of the inputs only the changed one is another. -/
theorem inputTensor_change (hio : V.io = io.toVerifierIo) (i i' : ChunkedIoNode) :
    (V.withIo (io.change (.input i)).toVerifierIo).inputTensor i' =
      (V.inputTensor i' >>= fun tensor =>
        .ok (if i = i' then tensor.changeEntry else tensor)) := by
  cases i with
  | originalNode inputId =>
    cases i' with
    | originalNode inputId' =>
      simp only [inputTensor, withIo, PublicIo.change, PublicIo.toVerifierIo, hio, List.length_map,
        List.length_modify, getElem?_toIoTensor_modify, okOr_map, ChunkedIoNode.originalNode.injEq]
    | chunked piece =>
      simp only [inputTensor, withIo, PublicIo.change, PublicIo.toVerifierIo, hio, reduceCtorEq,
        if_false]
      exact (bind_pure _).symm
  | chunked piece =>
    cases i' with
    | originalNode inputId =>
      simp only [inputTensor, withIo, PublicIo.change, PublicIo.toVerifierIo, hio, reduceCtorEq,
        if_false]
      exact (bind_pure _).symm
    | chunked piece' =>
      simp only [inputTensor, withIo, PublicIo.change, PublicIo.toVerifierIo, hio,
        ChunkedIoNode.chunked.injEq]
      cases io.splittedInputs with
      | none => rfl
      | some splitted =>
        simp only [Option.map_some, okOr_some, Outcome.ok_bind, bind_assoc]
        exact okOr_changePiece piece splitted piece' _ _

omit [DecidableEq F] in
theorem outputTensor_change_input (hio : V.io = io.toVerifierIo) (i o : ChunkedIoNode) :
    (V.withIo (io.change (.input i)).toVerifierIo).outputTensor o = V.outputTensor o := by
  unfold outputTensor
  rw [hio]
  cases i <;> rfl

omit [DecidableEq F] in
theorem inputTensor_change_output (hio : V.io = io.toVerifierIo) (o i : ChunkedIoNode) :
    (V.withIo (io.change (.output o)).toVerifierIo).inputTensor i = V.inputTensor i := by
  unfold inputTensor
  rw [hio]
  cases o <;> rfl

/-! ## The run up to the changed tensor -/

omit [DecidableEq F] in
/-- The outputs are collected as before, but for the changed one. -/
theorem collectOutputs_change (hio : V.io = io.toVerifierIo) (o : ChunkedIoNode)
    (h : entries.foldlM V.collectOutput outputs = .ok outputs')
    {changed : BTreeMap ChunkedIo (IoTensor F)}
    (hsame : ∀ key : ChunkedIo, key ≠ o.toChunkedIo → changed[key]? = outputs[key]?)
    (hnone : ∀ key : ChunkedIo, outputs[key]? = none → changed[key]? = none) :
    ∃ changed', entries.foldlM
        (V.withIo (io.change (.output o)).toVerifierIo).collectOutput changed = .ok changed' ∧
      ∀ key : ChunkedIo, key ≠ o.toChunkedIo → changed'[key]? = outputs'[key]? := by
  induction entries generalizing outputs changed with
  | nil =>
    obtain rfl := Except.ok.inj h
    exact ⟨changed, rfl, hsame⟩
  | cons entry entries ih =>
    rw [List.foldlM_cons, Outcome.bind_eq_ok] at h
    obtain ⟨outputs₁, hstep, hrest⟩ := h
    obtain ⟨hports, o', tensor, hnode, htensor, hfresh, rfl⟩ := collectOutput_eq_ok.mp hstep
    have htensor' := outputTensor_change hio o o'
    rw [htensor, Outcome.ok_bind] at htensor'
    have hstep' : (V.withIo (io.change (.output o)).toVerifierIo).collectOutput changed entry = _ :=
      collectOutput_eq_ok.mpr ⟨hports, o', _, hnode, htensor', hnone _ hfresh, rfl⟩
    have hinsert : ∀ (key : ChunkedIo) (m : BTreeMap ChunkedIo (IoTensor F)) (x : IoTensor F),
        (m.insert o'.toChunkedIo x)[key]? = if o'.toChunkedIo = key then some x else m[key]? := by
      intro key m x
      rw [Std.ExtTreeMap.getElem?_insert]
      simp only [Std.LawfulEqCmp.compare_eq_iff_eq]
    have hsame₁ : ∀ key : ChunkedIo, key ≠ o.toChunkedIo →
        (changed.insert o'.toChunkedIo (if o = o' then tensor.changeEntry else tensor))[key]? =
          (outputs.insert o'.toChunkedIo tensor)[key]? := by
      intro key hkey
      rw [hinsert, hinsert, hsame key hkey]
      by_cases hkey' : o'.toChunkedIo = key
      · have hne : o ≠ o' := fun heq => hkey (heq ▸ hkey'.symm)
        rw [if_pos hkey', if_pos hkey', if_neg hne]
      · rw [if_neg hkey', if_neg hkey']
    have hnone₁ : ∀ key : ChunkedIo, (outputs.insert o'.toChunkedIo tensor)[key]? = none →
        (changed.insert o'.toChunkedIo (if o = o' then tensor.changeEntry else tensor))[key]? =
          none := by
      intro key hkey
      rw [hinsert] at hkey ⊢
      split at hkey
      · exact nomatch hkey
      · next hne =>
        rw [if_neg hne]
        exact hnone key hkey
    obtain ⟨changed', hrest', hall⟩ := ih hrest hsame₁ hnone₁
    refine ⟨changed', ?_, hall⟩
    rw [List.foldlM_cons, hstep', Outcome.ok_bind]
    exact hrest'

omit [DecidableEq F] in
/-- A run on another tensor comes to its evaluation with the same transcript. -/
theorem evaluatesOutput_change (hio : V.io = io.toVerifierIo) {o : ChunkedIoNode}
    {tensor : IoTensor F} {t : D.Transcript} (h : V.EvaluatesOutput proof o tensor t) :
    (V.withIo (io.change (.output o)).toVerifierIo).EvaluatesOutput proof o tensor.changeEntry t := by
  obtain ⟨t₀, outputs, before, after, acc, hwrite, houtputs, hreads, htensor, hlist, hbefore⟩ := h
  have htensor' := outputTensor_change hio o o
  rw [htensor, Outcome.ok_bind, if_pos rfl] at htensor'
  obtain ⟨changed, hchanged, hsame⟩ := collectOutputs_change hio o houtputs
    (fun _ _ => rfl) fun _ hnone => hnone
  have hinsert : changed = outputs.insert o.toChunkedIo tensor.changeEntry := by
    apply Std.ExtTreeMap.ext_getElem?
    intro key
    rw [Std.ExtTreeMap.getElem?_insert]
    simp only [Std.LawfulEqCmp.compare_eq_iff_eq]
    by_cases hkey : o.toChunkedIo = key
    · subst hkey
      obtain ⟨entry, hentry, hnode⟩ := hreads
      obtain ⟨x, hx, hget⟩ := (getElem?_of_collectOutputs hchanged).2 entry hentry o hnode
      rw [hget, if_pos rfl, ← Except.ok.inj (htensor'.symm.trans hx)]
    · rw [if_neg hkey, hsame key (Ne.symm hkey)]
  exact ⟨t₀, changed, before, after, acc, hwrite, hchanged, hreads, htensor',
    hinsert ▸ Std.ExtTreeMap.toList_insert_of_toList hlist _, hbefore⟩

omit [DecidableEq F] in
/-- A node that does not read the changed input reads what it read. -/
theorem nodeInputs_change (hio : V.io = io.toVerifierIo) (hreads : ¬ V.ReadsInput n i)
    (claims : HashMap NodeInput (Claim F)) :
    (V.withIo (io.change (.input i)).toVerifierIo).nodeInputs claims n = V.nodeInputs claims n := by
  refine nodeInputs_congr fun entry hentry htarget => ?_
  by_cases hports : entry.2.ports = []
  · -- the tensor is looked up, but there is no port to read it
    unfold edgeInputs
    simp only [hports, List.mapM_nil]
    rw [show (V.withIo (io.change (.input i)).toVerifierIo).chunk = V.chunk from rfl]
    simp only [inputTensor_change hio, bind_assoc, Outcome.ok_bind]
  · refine edgeInputs_congr fun i' hnode => ?_
    have hne : i ≠ i' := fun heq => hreads ⟨entry, hentry, htarget, hports, heq ▸ hnode⟩
    rw [inputTensor_change hio, show (fun tensor : IoTensor F =>
      (.ok (if i = i' then tensor.changeEntry else tensor) : Outcome (IoTensor F))) = pure from
        funext fun _ => by rw [if_neg hne]; rfl]
    exact bind_pure _

omit [DecidableEq F] in
/-- A node finds its inputs, changed or not. -/
theorem exists_nodeInputs_change (hio : V.io = io.toVerifierIo) (i : ChunkedIoNode)
    {claims : HashMap NodeInput (Claim F)} (h : V.nodeInputs claims n = .ok inputs) : ∃ inputs',
      (V.withIo (io.change (.input i)).toVerifierIo).nodeInputs claims n = .ok inputs' := by
  obtain ⟨lists, hlists, -⟩ := Outcome.bind_eq_ok.mp h
  have hedge : ∀ entry, (∃ list, V.edgeInputs claims n entry = .ok list) →
      ∃ list, (V.withIo (io.change (.input i)).toVerifierIo).edgeInputs claims n entry =
        .ok list := by
    rintro entry ⟨list, hlist⟩
    simp only [edgeInputs, Outcome.bind_eq_ok, okOr_eq_ok] at hlist
    obtain ⟨source, hsource, i', hi', tensor, htensor, hports⟩ := hlist
    have hclaims : ∀ port ∈ entry.2.ports, ∃ input : IoTensor F × Claim F,
        (do let claim ← unwrap claims[(⟨n, port.targetPort⟩ : NodeInput)]? "no entry found for key"
            .ok ((if i = i' then tensor.changeEntry else tensor), claim)) = .ok input := by
      intro port hport
      obtain ⟨input, -, hinput⟩ := Outcome.exists_eq_ok_of_mapM hports hport
      obtain ⟨claim, hclaim, -⟩ := Outcome.bind_eq_ok.mp hinput
      exact ⟨_, Outcome.bind_eq_ok.mpr ⟨claim, hclaim, rfl⟩⟩
    obtain ⟨list', hlist'⟩ := Outcome.exists_mapM_eq_ok hclaims
    refine ⟨list', ?_⟩
    simp only [edgeInputs, Outcome.bind_eq_ok, okOr_eq_ok]
    refine ⟨source, hsource, i', hi', _, ?_, hlist'⟩
    rw [inputTensor_change hio, htensor, Outcome.ok_bind]
  obtain ⟨lists', hlists'⟩ := Outcome.exists_mapM_eq_ok fun entry hentry =>
    hedge entry ((Outcome.exists_eq_ok_of_mapM hlists hentry).imp fun _ h => h.2)
  exact ⟨lists'.flatten, Outcome.bind_eq_ok.mpr ⟨lists', hlists', rfl⟩⟩

/-- A run on another tensor comes to its first evaluation with the same transcript. -/
theorem checksInput_change (hio : V.io = io.toVerifierIo) {position : Nat} {tensor : IoTensor F}
    {t : D.Transcript} (h : V.ChecksInput proof position n i tensor t)
    (hfirst : ∀ position' < position, ∀ n' tensor' t',
      ¬ V.ChecksInput proof position' n' i tensor' t') :
    (V.withIo (io.change (.input i)).toVerifierIo).ChecksInput proof position n i
      tensor.changeEntry t := by
  obtain ⟨start, before, inner, after, state, layer, state', inputs, hstart, hiter, hposition, hbefore,
    hclaims, hinputs, hreads, htensor, ht⟩ := h
  have hstart' : (V.withIo (io.change (.input i)).toVerifierIo).start proof = .ok start := by
    rw [start_congr _ proof, hstart]
    exact fun entry _ => collectOutput_congr fun o _ => outputTensor_change_input hio i o
  have hbefore' : before.foldlM
      ((V.withIo (io.change (.input i)).toVerifierIo).verifyNode proof start)
        ⟨∅, start.verifier⟩ = .ok state := by
    rw [List.foldlM_congr_of_mem (fun entry hentry => ?_), hbefore]
    refine verifyNode_congr proof start fun inner' hinner' => nodeInputs_change hio fun hreads' => ?_
    -- a node that is visited before and reads the input would have evaluated it
    obtain ⟨position', hlt, tensor', t', hchecks⟩ := exists_checksInput hstart hiter hbefore
      (hinner' ▸ hentry : (entry.1, Node.inner inner') ∈ before) hreads'
    exact hfirst position' (hposition ▸ hlt) _ _ _ hchecks
  obtain ⟨inputs', hinputs'⟩ := exists_nodeInputs_change hio i hinputs
  have htensor' := inputTensor_change hio i i
  rw [htensor, Outcome.ok_bind, if_pos rfl] at htensor'
  exact ⟨start, before, inner, after, state, layer, state', inputs', hstart', hiter, hposition,
    hbefore', hclaims, hinputs', hreads, htensor', ht⟩

end ChunkVerifier

/-! ## The shapes do not change -/

section Shapes

variable {F : Type} [Field F] {io : PublicIo F} {shapeOf : PublicTensor F → Shape}

/-- The shapes of the pieces of an input. -/
def pieceShapes (splitted : Option (HashMap Nat (List Shape))) (entry : Shape × Nat) :
    List (ChunkedIo × Shape) :=
  match splitted.bind fun splitted => splitted[entry.2]? with
  | some shapes => shapes.zipIdx.map fun (shape, chunkId) => (⟨entry.2, chunkId⟩, shape)
  | none => [(⟨entry.2, 0⟩, entry.1)]

omit [Field F] in
/-- Nothing but the shapes of the tensors is asked for. -/
theorem inputShapes_eq : io.inputShapes shapeOf = (∅ : HashMap ChunkedIo Shape).insertMany
    ((io.input.map shapeOf).zipIdx.flatMap (pieceShapes (io.splittedInputs.map fun splitted =>
      splitted.map fun _ tensors => tensors.map shapeOf))) := by
  rw [PublicIo.inputShapes, List.map_flatMap, List.zipIdx_map, List.flatMap_map]
  congr 1
  apply List.flatMap_congr
  intro entry _
  unfold PublicIo.inputPieces pieceShapes
  cases io.splittedInputs with
  | none => rfl
  | some splitted =>
    simp only [Option.bind_some, Option.map_some, Std.ExtTreeMap.getElem?_map, Prod.map_snd, id_eq]
    cases splitted[entry.2]? with
    | none => rfl
    | some tensors =>
      simp only [Option.map_some, List.zipIdx_map, List.map_map]
      rfl

theorem map_modify_changeEntry (hshape : ∀ tensor, shapeOf tensor.changeEntry = shapeOf tensor)
    (tensors : List (PublicTensor F)) (id : Nat) :
    (tensors.modify id PublicTensor.changeEntry).map shapeOf = tensors.map shapeOf := by
  apply List.ext_getElem?
  intro j
  rw [List.getElem?_map, List.getElem?_modify, List.getElem?_map]
  cases tensors[j]? with
  | none => rfl
  | some tensor =>
    by_cases hid : id = j
    · simp [hid, hshape]
    · simp [hid]

theorem inputShapes_change (hshape : ∀ tensor, shapeOf tensor.changeEntry = shapeOf tensor)
    (source : IoSource) : (io.change source).inputShapes shapeOf = io.inputShapes shapeOf := by
  rw [inputShapes_eq, inputShapes_eq]
  cases source with
  | output o => cases o <;> rfl
  | input i =>
    cases i with
    | originalNode inputId =>
      simp only [PublicIo.change, map_modify_changeEntry hshape]
    | chunked piece =>
      simp only [PublicIo.change]
      cases io.splittedInputs with
      | none => rfl
      | some splitted =>
        have hpieces : ((changePiece piece splitted).map fun _ tensors => tensors.map shapeOf) =
            splitted.map fun _ tensors => tensors.map shapeOf := by
          apply Std.ExtTreeMap.ext_getElem?
          intro id
          rw [changePiece, Std.ExtTreeMap.getElem?_map, Std.ExtTreeMap.getElem?_map,
            Std.ExtTreeMap.getElem?_map]
          cases splitted[id]? with
          | none => rfl
          | some tensors =>
            simp only [Option.map_some]
            split
            · rw [map_modify_changeEntry hshape]
            · rfl
        simp only [Option.map_some, hpieces]

end Shapes

/-! ## The runs of the verifier -/

/-- Where a public tensor is evaluated: in a chunk of the proof, for an input also at a node. -/
inductive IoPlace where
  | output (chunk : Nat) (o : ChunkedIoNode)
  | input (chunk : Nat) (nodeId : NodeId) (i : ChunkedIoNode)

namespace ModelVerifier

variable {F : Type} [Field F] [DecidableEq F] {D : DpCrypto F}
  {PCS : CommitmentScheme F D.Transcript} {O : OtherLayers D PCS.Commitment}
  (ctx : ModelVerifier PCS O) [DecidableEq PCS.Commitment]

/-- The run comes to a chunk: everything that is checked before has been accepted. -/
def ReachesChunk (io : PublicIo F) (chunkProofs : List (ProvedChunk PCS O)) (k : Nat)
    (V : ChunkVerifier O) (proof : ProvedChunk PCS O) : Prop :=
  ∃ fuel shapes before after,
    ctx.shapeSteps fuel (chunkProofs.map ProvedChunk.modelChunk)
      (io.inputShapes fun tensor => tensor.unpaddedShape)
      (io.inputShapes fun tensor => tensor.shape) = .ok shapes ∧
    ctx.model.checkModelChunking ctx.layers ctx.hashOrder
      (chunkProofs.map ProvedChunk.modelChunk) = .ok () ∧
    (∀ proof ∈ chunkProofs, proof.modelChunk.checkChunkCommitmentConsistency
      ctx.computeCommitmentId (commitmentsById chunkProofs) = .ok ()) ∧
    chunkProofs = before ++ proof :: after ∧ before.length = k ∧
    (∀ earlier ∈ before, ctx.verifyChunk (ctx.chunkVerifier io.toVerifierIo
      (shapes.map fun _ step => step.toShapeStep) ctx.chunkTranscript earlier.modelChunk) earlier =
        .ok ()) ∧
    V = ctx.chunkVerifier io.toVerifierIo (shapes.map fun _ step => step.toShapeStep)
      ctx.chunkTranscript proof.modelChunk

/-- The run comes to the evaluation of a tensor with the transcript `t`. -/
def Evaluates (io : PublicIo F) (chunkProofs : List (ProvedChunk PCS O)) (place : IoPlace)
    (tensor : IoTensor F) (t : D.Transcript) : Prop :=
  match place with
  | .output k o => ∃ V proof, ctx.ReachesChunk io chunkProofs k V proof ∧
      V.EvaluatesOutput proof.toChunkProof o tensor t
  | .input k n i => ∃ V proof, ctx.ReachesChunk io chunkProofs k V proof ∧
      ∃ position, V.ChecksInput proof.toChunkProof position n i tensor t

/-- Two runs on tensors that differ in an entry come to the evaluation of that tensor with different
    transcripts. -/
def BindsPublicIo (chunkProofs : List (ProvedChunk PCS O)) : Prop :=
  ∀ io io' place tensor tensor' t t', ctx.Evaluates io chunkProofs place tensor t →
    ctx.Evaluates io' chunkProofs place tensor' t' →
    (∃ (i : Nat) (x x' : F), tensor.data[i]? = some x ∧ tensor'.data[i]? = some x' ∧ x ≠ x') →
    t ≠ t'

variable {ctx} {io : PublicIo F} {chunkProofs : List (ProvedChunk PCS O)} {k : Nat}
  {V : ChunkVerifier O} {proof : ProvedChunk PCS O}

theorem ReachesChunk.io_eq (h : ctx.ReachesChunk io chunkProofs k V proof) :
    V.io = io.toVerifierIo := by
  obtain ⟨_, _, _, _, _, _, _, _, _, _, rfl⟩ := h
  rfl

/-- The run on other tensors, up to a chunk: either an earlier chunk reads the changed tensor, or
    the run comes to the chunk as well. -/
theorem ReachesChunk.change (h : ctx.ReachesChunk io chunkProofs k V proof) (source : IoSource) :
    (∃ k' < k, ∃ V' proof', ctx.ReachesChunk io chunkProofs k' V' proof' ∧
      ctx.verifyChunk V' proof' = .ok () ∧ ¬ V'.ReadsAlike (io.change source).toVerifierIo) ∨
    ctx.ReachesChunk (io.change source) chunkProofs k
      (V.withIo (io.change source).toVerifierIo) proof := by
  obtain ⟨fuel, shapes, before, after, hshapes, hchecked, hcommitments, hproofs, rfl, hearlier, rfl⟩ := h
  by_cases hall : ∀ earlier ∈ before, (ctx.chunkVerifier io.toVerifierIo
      (shapes.map fun _ step => step.toShapeStep) ctx.chunkTranscript
        earlier.modelChunk).ReadsAlike (io.change source).toVerifierIo
  · right
    refine ⟨fuel, shapes, before, after, ?_, hchecked, hcommitments, hproofs, rfl, ?_, rfl⟩
    · rw [inputShapes_change (fun _ => rfl), inputShapes_change (fun _ => rfl)]
      exact hshapes
    · intro earlier hmem
      exact (ctx.verifyChunk_congr earlier (hall earlier hmem)).trans (hearlier earlier hmem)
  · left
    obtain ⟨earlier, hmem, hreads⟩ : ∃ earlier ∈ before, ¬ (ctx.chunkVerifier io.toVerifierIo
        (shapes.map fun _ step => step.toShapeStep) ctx.chunkTranscript
          earlier.modelChunk).ReadsAlike (io.change source).toVerifierIo := by
      by_contra hnone
      exact hall fun earlier hmem => by_contra fun hreads => hnone ⟨earlier, hmem, hreads⟩
    obtain ⟨first, rest, rfl⟩ := List.append_of_mem hmem
    refine ⟨first.length, by simp, _, earlier, ?_, hearlier earlier hmem, hreads⟩
    refine ⟨fuel, shapes, first, rest ++ proof :: after, hshapes, hchecked, hcommitments, ?_, rfl, ?_,
      rfl⟩
    · rw [hproofs, List.append_assoc, List.cons_append]
    · exact fun earlier' hmem' => hearlier earlier' (List.mem_append_left _ hmem')

omit [DecidableEq PCS.Commitment] in
theorem exists_runs_of_verifyChunk (h : ctx.verifyChunk V proof = .ok ()) :
    ∃ start state, V.start proof.toChunkProof = .ok start ∧
      V.chunk.subgraph.backwardIter.foldlM (V.verifyNode proof.toChunkProof start)
        ⟨∅, start.verifier⟩ = .ok state := by
  obtain ⟨start, hstart, h⟩ := Outcome.bind_eq_ok.mp h
  obtain ⟨state, hstate, -⟩ := Outcome.bind_eq_ok.mp h
  exact ⟨start, state, hstart, hstate⟩

omit [DecidableEq PCS.Commitment] in
/-- An accepted chunk that reads the changed output has evaluated it. -/
theorem exists_evaluatesOutput_of_not_readsAlike (hio : V.io = io.toVerifierIo)
    (h : ctx.verifyChunk V proof = .ok ()) {o : ChunkedIoNode}
    (hreads : ¬ V.ReadsAlike (io.change (.output o)).toVerifierIo) :
    ∃ tensor t, V.EvaluatesOutput proof.toChunkProof o tensor t := by
  obtain ⟨start, state, hstart, -⟩ := exists_runs_of_verifyChunk h
  by_contra hnone
  have hout : ¬ V.ReadsOutput o := fun hout =>
    hnone (ChunkVerifier.exists_evaluatesOutput hstart hout)
  refine hreads ⟨fun entry hentry => ?_, fun n inner _ claims => ?_⟩
  · refine ChunkVerifier.collectOutput_congr fun o' hnode => ?_
    have hne : o ≠ o' := fun heq => hout ⟨entry, hentry, heq ▸ hnode⟩
    rw [ChunkVerifier.outputTensor_change hio]
    simp only [if_neg hne]
    exact bind_pure _
  · refine ChunkVerifier.nodeInputs_congr fun entry _ _ =>
      ChunkVerifier.edgeInputs_congr fun i _ => ?_
    exact ChunkVerifier.inputTensor_change_output hio o i

omit [DecidableEq PCS.Commitment] in
/-- An accepted chunk that reads the changed input has evaluated it. -/
theorem exists_checksInput_of_not_readsAlike (hio : V.io = io.toVerifierIo)
    (h : ctx.verifyChunk V proof = .ok ()) {i : ChunkedIoNode}
    (hreads : ¬ V.ReadsAlike (io.change (.input i)).toVerifierIo) :
    ∃ position n tensor t, V.ChecksInput proof.toChunkProof position n i tensor t := by
  obtain ⟨start, state, hstart, hstate⟩ := exists_runs_of_verifyChunk h
  by_contra hnone
  refine hreads ⟨fun entry _ => ?_, fun n inner hmem claims => ?_⟩
  · exact ChunkVerifier.collectOutput_congr fun o _ =>
      ChunkVerifier.outputTensor_change_input hio i o
  · refine ChunkVerifier.nodeInputs_change hio (fun hin => ?_) claims
    obtain ⟨position, -, tensor, t, hchecks⟩ :=
      ChunkVerifier.exists_checksInput hstart (List.append_nil _).symm hstate hmem hin
    exact hnone ⟨position, n, tensor, t, hchecks⟩

/-! ## The transcript binds no tensor -/

/-- An output with an entry is not bound where it is evaluated first. -/
theorem not_evaluatesOutput (hbinds : ctx.BindsPublicIo chunkProofs) {o : ChunkedIoNode}
    {tensor : IoTensor F} {t : D.Transcript} (hdata : tensor.data ≠ []) :
    ¬ ctx.Evaluates io chunkProofs (.output k o) tensor t := by
  induction k using Nat.strong_induction_on generalizing tensor t with
  | _ k ih =>
    intro ⟨V, proof, hreaches, hevaluates⟩
    rcases hreaches.change (.output o) with ⟨k', hlt, V', proof', hreaches', hverify, hreads⟩ | hchanged
    · obtain ⟨tensor', t', hevaluates'⟩ :=
        exists_evaluatesOutput_of_not_readsAlike hreaches'.io_eq hverify hreads
      have hsame : tensor' = tensor := by
        obtain ⟨_, _, _, _, _, _, _, _, htensor, _⟩ := hevaluates
        obtain ⟨_, _, _, _, _, _, _, _, htensor', _⟩ := hevaluates'
        unfold ChunkVerifier.outputTensor at htensor htensor'
        rw [hreaches.io_eq] at htensor
        rw [hreaches'.io_eq] at htensor'
        exact Except.ok.inj (htensor'.symm.trans htensor)
      exact ih k' hlt (hsame ▸ hdata) ⟨V', proof', hreaches', hevaluates'⟩
    · exact hbinds io _ (.output k o) tensor _ t t ⟨V, proof, hreaches, hevaluates⟩
        ⟨_, proof, hchanged, ChunkVerifier.evaluatesOutput_change hreaches.io_eq hevaluates⟩
        (IoTensor.exists_changed hdata) rfl

/-- An input with an entry is not bound where it is evaluated first. -/
theorem not_checksInput (hbinds : ctx.BindsPublicIo chunkProofs) {n : NodeId} {i : ChunkedIoNode}
    {tensor : IoTensor F} {t : D.Transcript} (hdata : tensor.data ≠ []) :
    ¬ ctx.Evaluates io chunkProofs (.input k n i) tensor t := by
  have htensors : ∀ {k k' position position' n n' tensor tensor' t t'} {V V' : ChunkVerifier O}
      {proof proof' : ProvedChunk PCS O}, ctx.ReachesChunk io chunkProofs k V proof →
      ctx.ReachesChunk io chunkProofs k' V' proof' →
      V.ChecksInput proof.toChunkProof position n i tensor t →
      V'.ChecksInput proof'.toChunkProof position' n' i tensor' t' → tensor' = tensor := by
    intro _ _ _ _ _ _ _ _ _ _ V V' _ _ hreaches hreaches' hchecks hchecks'
    obtain ⟨_, _, _, _, _, _, _, _, _, _, _, _, _, _, _, htensor, _⟩ := hchecks
    obtain ⟨_, _, _, _, _, _, _, _, _, _, _, _, _, _, _, htensor', _⟩ := hchecks'
    unfold ChunkVerifier.inputTensor at htensor htensor'
    rw [hreaches.io_eq] at htensor
    rw [hreaches'.io_eq] at htensor'
    exact Except.ok.inj (htensor'.symm.trans htensor)
  induction k using Nat.strong_induction_on generalizing n tensor t with
  | _ k ih =>
    intro ⟨V, proof, hreaches, hchecked⟩
    rcases hreaches.change (.input i) with ⟨k', hlt, V', proof', hreaches', hverify, hreads⟩ | hchanged
    · obtain ⟨position, hchecks⟩ := hchecked
      obtain ⟨position', n', tensor', t', hchecks'⟩ :=
        exists_checksInput_of_not_readsAlike hreaches'.io_eq hverify hreads
      have hsame := htensors hreaches hreaches' hchecks hchecks'
      exact ih k' hlt (hsame ▸ hdata) ⟨V', proof', hreaches', position', hchecks'⟩
    · -- the first of the nodes of the chunk that read the input
      have hsome : ∃ position n tensor t, V.ChecksInput proof.toChunkProof position n i tensor t := by
        obtain ⟨position, hchecks⟩ := hchecked
        exact ⟨position, n, tensor, t, hchecks⟩
      classical
      obtain ⟨n', tensor', t', hfirst⟩ := Nat.find_spec hsome
      have hminimal : ∀ position' < Nat.find hsome, ∀ n' tensor' t',
          ¬ V.ChecksInput proof.toChunkProof position' n' i tensor' t' :=
        fun position' hlt n' tensor' t' hchecks' =>
          Nat.find_min hsome hlt ⟨n', tensor', t', hchecks'⟩
      obtain ⟨position, hchecks⟩ := hchecked
      have hsame := htensors hreaches hreaches hchecks hfirst
      exact hbinds io _ (.input k n' i) tensor' _ t' t' ⟨V, proof, hreaches, _, hfirst⟩
        ⟨_, proof, hchanged, _, ChunkVerifier.checksInput_change hreaches.io_eq hfirst hminimal⟩
        (IoTensor.exists_changed (hsame ▸ hdata)) rfl

end ModelVerifier

/-! ## A challenge that determines everything that was appended -/

section Free

open Classical in
/-- No two transcripts give the same challenge. -/
noncomputable def freeChallenge : List (Entry ℚ Unit) → ℚ := choose exists_injective_challenge

noncomputable abbrev freeCrypto : DpCrypto ℚ :=
  listCrypto Unit freeChallenge fun message r => message.getD 0 0 + r

@[reducible]
noncomputable def freeScheme : CommitmentScheme ℚ freeCrypto.Transcript where
  Commitment := Unit
  Proof := Unit
  VerifierSetup := Unit
  combineCommitments _ _ := .ok ()
  verify _ _ t _ eval _ := if eval = 0 then .ok t else .error (.err "opening failed")

noncomputable abbrev noFreeLayers : OtherLayers freeCrypto Unit := ChunkVerifier.noOtherLayers _ _

def flatEdges : BTreeMap EdgeId (Edge Unit) :=
  ((∅ : BTreeMap EdgeId (Edge Unit)).insert 0 ⟨0, 1, [⟨0, 0⟩], none⟩).insert 1 ⟨1, 2, [⟨0, 0⟩], none⟩

/-- One layer that hands on its input. -/
noncomputable def flat : ModelVerifier freeScheme noFreeLayers where
  model :=
    { nodes :=
        { nodes := ((∅ : BTreeMap NodeId (Node (LayerCtx noFreeLayers) Nat Nat)).insert 0
            (.input 0)).insert 1 (.inner .flatten) |>.insert 2 (.output 0)
          edges := flatEdges } }
  commitmentCtx := ⟨(), ∅⟩
  tableNodeId := 3
  lookup := ⟨∅⟩
  layers := ⟨fun _ shapes _ => .ok shapes, fun _ => none, Empty.elim, Empty.elim⟩
  hashOrder := ⟨id, List.Perm.refl⟩
  newTranscript bytes := [.bytes bytes]
  appender := listAppender _ _
  floats := noFloats
  evaluateMle data _ := .ok (data.getD 0 0)
  computeCommitmentId port := port.nodeId + port.port

/-- The model is not split. -/
noncomputable def flatChunk : GraphChunk noFreeLayers where
  chunkId := 0
  incomingEdges := ∅
  outgoingEdges := ∅
  subgraph :=
    { nodes := ((∅ : BTreeMap NodeId (ChunkNode noFreeLayers)).insert 0
        (.input (.originalNode 0))).insert 1 (.inner .originalNode)
          |>.insert 2 (.output (.originalNode 0))
      edges := flatEdges }
  replacedNodes := ∅

/-- Nothing is left to prove. -/
noncomputable def flatProof : ProvedChunk freeScheme noFreeLayers where
  steps := ∅
  mergeClaimProofs := ∅
  tableProof := none
  commitments := ⟨∅, ∅⟩
  outputEvals := ∅
  modelChunk := flatChunk
  commit := ⟨[], [], ()⟩

def numberOf (x : ℚ) : PublicTensor ℚ := ⟨⟨[x], [1], [1]⟩, PublicTensor.one_ne_nil, rfl⟩

/-- The layer was applied to 1; `x` is shown as its output. -/
def numberIo (x : ℚ) : PublicIo ℚ := ⟨[numberOf 1], [numberOf x], none, none⟩

theorem numberIo_change : (numberIo 1).change (.output (.originalNode 0)) = numberIo 2 := by
  have hentry : (numberOf 1).changeEntry = numberOf 2 := by
    show (⟨⟨[1 + 1], [1], [1]⟩, _, _⟩ : PublicTensor ℚ) = ⟨⟨[2], [1], [1]⟩, _, _⟩
    simp only [one_add_one_eq_two]
  show (⟨[numberOf 1], [(numberOf 1).changeEntry], none, none⟩ : PublicIo ℚ) = numberIo 2
  rw [hentry]
  rfl

end Free

end DeepProve
