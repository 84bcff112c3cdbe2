import DeepProve.ForStd.Counts
import DeepProve.Iop.CheckChunking

/-!
# Running a model

`HandleLifetimeRunner` over `BaseRunner` of `model/mod.rs`, as `run_float` uses them. A runner keeps
a handle for each output of a node and counts how often it is still to be used; a handle whose
count reaches zero is dried. The store is empty, so that what is dried cannot be loaded again.

The layers are functions. Each node has a layer of its own, so what a layer computes may depend on
the node.
-/

namespace DeepProve

variable {L T : Type}

abbrev ModelGraph (L : Type) := Graph L Nat Nat Unit

def Node.isOutput {N I O : Type} : Node N I O → Bool
  | .output _ => true
  | _ => false

/-- What a link reads. -/
def Edge.linkKeys {W : Type} (edge : Edge W) : List NodeOutput :=
  edge.ports.map fun link => ⟨edge.source, link.sourcePort⟩

namespace Graph

variable {N I O W : Type} (g : Graph N I O W)

/-- `outgoing_ports`. -/
def outgoingPorts (n : NodeId) : List PortId :=
  (((g.outgoings n).flatMap fun (_, edge) =>
    edge.ports.map PortLink.sourcePort).insertionSort (· ≤ ·)).destutter (· ≠ ·)

/-- What the links read, by edge identifier. -/
def usedKeys : List NodeOutput := g.edges.toList.flatMap fun (_, edge) => edge.linkKeys

/-- The edges into the outputs of the model. -/
def outputEdges : List (EdgeId × Edge W) :=
  g.edges.toList.filter fun (_, edge) => (g.nodes[edge.target]?).any Node.isOutput

/-- What the links into the outputs of the model read, by edge identifier. -/
def outputKeys : List NodeOutput := g.outputEdges.flatMap fun (_, edge) => edge.linkKeys

/-- What a node reads, by port. -/
def inputKeys (n : NodeId) : List NodeOutput := (g.incomingFeeds n).map Feed.source

end Graph

/-- What the layers of a model compute. -/
structure LayerFunctions (L T : Type) (numOutputs : L → Nat → Nat) where
  asKindStr : L → String
  /-- `unpadded_shape` of a tensor. -/
  unpaddedShape : T → Shape
  outputShapes : NodeId → L → List Shape → List Shape
  evaluate : NodeId → L → List T → List T
  length_outputShapes : ∀ n layer shapes,
    (outputShapes n layer shapes).length = numOutputs layer shapes.length
  length_evaluate : ∀ n layer inputs, (evaluate n layer inputs).length = numOutputs layer inputs.length

/-- A handle of a tensor, which is there as long as the handle is not dried. -/
structure TensorHandle (T : Type) where
  storageKey : NodeOutput
  tensor : Option T
  unpaddedShape : Shape
  deriving DecidableEq

namespace TensorHandle

def dry (handle : TensorHandle T) : TensorHandle T := { handle with tensor := none }

/-- `wrapped_tensor`: an empty store has no tensor to load. -/
def wrappedTensor (handle : TensorHandle T) : Outcome T :=
  okOr handle.tensor "key not found"

end TensorHandle

/-- What a runner has done. -/
inductive RunEvent (T : Type) where
  | evaluated (nodeId : NodeId) (inputs : List T)
  | dried (key : NodeOutput)
  deriving DecidableEq

def RunEvent.evaluatedNode : RunEvent T → Option NodeId
  | evaluated nodeId _ => some nodeId
  | dried _ => none

/-- What is returned for a layer, and the tensors it was evaluated on. -/
structure RunOutput (T : Type) where
  inputs : List T
  outputs : List (TensorHandle T)

variable {numOutputs : L → Nat → Nat} (F : LayerFunctions L T numOutputs)

/-- `BaseRunner::run_layer`: the outputs are assigned to the ports that are used, in their order. -/
def baseRunLayer (g : ModelGraph L) (nodeId : NodeId) (layer : L)
    (inputHandles : List (TensorHandle T)) : Outcome (RunOutput T) := do
  let wrappedTensors ← inputHandles.mapM TensorHandle.wrappedTensor
  let precUnpaddedShapes := inputHandles.map TensorHandle.unpaddedShape
  let outShapes := F.outputShapes nodeId layer precUnpaddedShapes
  let layerOut := F.evaluate nodeId layer wrappedTensors
  let outputs := ((g.outgoingPorts nodeId).zip (outShapes.zip layerOut)).map
    fun (port, outShape, tensor) =>
      ({ storageKey := ⟨nodeId, port⟩, tensor := some tensor, unpaddedShape := outShape } :
        TensorHandle T)
  .ok { inputs := wrappedTensors, outputs }

/-- The runner, and what it has done so far. -/
structure HandleLifetimeRunner (T : Type) where
  storagekeyToHandle : HashMap NodeOutput (TensorHandle T)
  handleUsageCount : HashMap NodeOutput Nat
  history : List (RunEvent T)

namespace HandleLifetimeRunner

/-- `entry(key).and_modify(|curr| *curr += 1).or_insert(1)`, for each key. -/
def countUses (counts : HashMap NodeOutput Nat) (keys : List NodeOutput) : HashMap NodeOutput Nat :=
  keys.foldl (fun counts key => counts.addCount key 1) counts

/-- `HandleLifetimeRunner::new`. -/
def new (g : ModelGraph L) : HandleLifetimeRunner T where
  storagekeyToHandle := ∅
  handleUsageCount := countUses ∅ g.outputKeys
  history := []

/-- The uses that are left. -/
def uses (runner : HandleLifetimeRunner T) (key : NodeOutput) : Nat :=
  (runner.handleUsageCount[key]?).getD 0

/-- `get_by_storage_key`. -/
def getByStorageKey (runner : HandleLifetimeRunner T) (key : NodeOutput) :
    Outcome (TensorHandle T) :=
  okOr runner.storagekeyToHandle[key]?
    s!"Missing tensor handle for Output: N{key.nodeId}->:{key.port}"

/-- A handle is kept under its key; one that nothing uses is dried. -/
def insertHandle (runner : HandleLifetimeRunner T) (handle : TensorHandle T) :
    HandleLifetimeRunner T :=
  if runner.uses handle.storageKey = 0 then
    { runner with
      storagekeyToHandle := runner.storagekeyToHandle.insert handle.storageKey handle.dry
      history := runner.history ++ [.dried handle.storageKey] }
  else
    { runner with
      storagekeyToHandle := runner.storagekeyToHandle.insert handle.storageKey handle }

/-- `model_inputs`. -/
def modelInputs (runner : HandleLifetimeRunner T) (g : ModelGraph L)
    (inputs : List (TensorHandle T)) : HandleLifetimeRunner T :=
  inputs.foldl insertHandle
    { runner with handleUsageCount := countUses runner.handleUsageCount g.usedKeys }

/-- `model_outputs`. -/
def modelOutputs (runner : HandleLifetimeRunner T) (g : ModelGraph L) :
    Outcome (List (TensorHandle T)) :=
  g.outputKeys.mapM runner.getByStorageKey

/-- `entry(key).and_modify(|curr| *curr -= 1).or_default()`. -/
def usesLeft (runner : HandleLifetimeRunner T) (key : NodeOutput) : Outcome Nat :=
  match runner.handleUsageCount[key]? with
  | some 0 => .error (.panic "attempt to subtract with overflow")
  | some (curr + 1) => .ok curr
  | none => .ok 0

/-- An input has been used once more. -/
def consume (runner : HandleLifetimeRunner T) (key : NodeOutput) :
    Outcome (HandleLifetimeRunner T) := do
  let uses ← runner.usesLeft key
  let runner := { runner with handleUsageCount := runner.handleUsageCount.insert key uses }
  if uses = 0 then do
    let handle ← runner.getByStorageKey key
    .ok { runner with
      storagekeyToHandle := runner.storagekeyToHandle.insert key handle.dry
      history := runner.history ++ [.dried key] }
  else
    .ok runner

/-- `run_layer`. -/
def runLayer (g : ModelGraph L) (runner : HandleLifetimeRunner T) (entry : NodeId × L) :
    Outcome (HandleLifetimeRunner T) := do
  let inputStorageKeys := g.inputKeys entry.1
  let inputHandles ← inputStorageKeys.mapM runner.getByStorageKey
  let layerOut ← baseRunLayer F g entry.1 entry.2 inputHandles
  let runner := { runner with history := runner.history ++ [.evaluated entry.1 layerOut.inputs] }
  let runner ← inputStorageKeys.foldlM consume runner
  .ok (layerOut.outputs.foldl insertHandle runner)

/-- `tensor_to_handles`. -/
def tensorToHandles (g : ModelGraph L) (inputs : List T) : Outcome (List (TensorHandle T)) :=
  inputs.zipIdx.mapM fun (tensor, i) => do
    let inputNodeId ← g.inputNodeId i
    .ok { storageKey := ⟨inputNodeId, 0⟩, tensor := some tensor,
          unpaddedShape := F.unpaddedShape tensor }

/-- `run_with_runner`. -/
def runWithRunner (g : ModelGraph L) (runner : HandleLifetimeRunner T)
    (inputs : List (TensorHandle T)) : Outcome (HandleLifetimeRunner T) :=
  g.forwardInners.foldlM (fun runner entry =>
    (runLayer F g runner entry).mapErr fun _ =>
      s!"Error occurred at node ID: N{entry.1}, Operation: {F.asKindStr entry.2}")
    (runner.modelInputs g inputs)

end HandleLifetimeRunner

/-- What is seen of a run: what the runner has done in it, and the outputs it returns. -/
structure RunLog (T : Type) where
  events : List (RunEvent T)
  outputs : List (TensorHandle T)

namespace HandleLifetimeRunner

/-- One run of the model and its outputs. -/
def run (g : ModelGraph L) (runner : HandleLifetimeRunner T) (inputs : List T) :
    Outcome (HandleLifetimeRunner T × RunLog T) := do
  let inputHandles ← tensorToHandles F g inputs
  let runner ← runWithRunner F g { runner with history := [] } inputHandles
  let outputs ← runner.modelOutputs g
  .ok (runner, { events := runner.history, outputs })

/-- Successive runs with one runner. -/
def runs (g : ModelGraph L) (runner : HandleLifetimeRunner T) :
    List (List T) → Outcome (List (RunLog T))
  | [] => .ok []
  | inputs :: rest => do
    let (runner, log) ← run F g runner inputs
    let logs ← runs g runner rest
    .ok (log :: logs)

end HandleLifetimeRunner

end DeepProve
