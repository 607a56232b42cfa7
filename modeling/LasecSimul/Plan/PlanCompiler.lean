import LasecSimul.Signal.Compiler
import LasecSimul.Wiring.Netlist
import Mathlib.Data.Finset.Insert

/-!
# Simulation plans (`SimulationPlan.hpp`)

A plan is one sub-plan for each domain. `revision` says when a sub-plan was compiled: a sub-plan that is
taken over from the previous plan keeps its own.
-/

namespace LasecSimul.Plan

open Signal Wiring

inductive PlanDomain where
  | electrical | signal | external | plc | python | executionIndex
  deriving DecidableEq

/-- The domains to compile again. -/
abbrev PlanInvalidation := Finset PlanDomain

/-- `PlanDomain::All`. -/
def PlanInvalidation.all : PlanInvalidation := {.electrical, .signal, .external, .plc, .python, .executionIndex}

theorem PlanInvalidation.mem_all (domain : PlanDomain) : domain ∈ PlanInvalidation.all := by
  cases domain <;> decide

structure DenseExecutionLists where
  activeComponents : List Nat := []
  reactiveComponents : List Nat := []
  nonlinearComponents : List Nat := []
  fpgaComponents : List Nat := []
  mcuComponents : List Nat := []
  signalSubscribers : List Nat := []
  plcComponents : List Nat := []
  pythonComponents : List Nat := []
  dynamicComponents : List Nat := []

structure ElectricalGroupPlan where
  nodeIndices : List Nat
  totalSize : Nat

structure ElectricalPlan where
  revision : Nat
  groups : List ElectricalGroupPlan
  resolutionBySlot : List PinSlotResolution
  listenersByNode : List (List Nat)
  pinRefsByNode : List (List NodePinRef)
  slotToNode : List Nat
  extraVariablesByComponent : List ExtraVariableResolution
  stampResolutionByComponent : List ComponentStampResolution

inductive ElectricalSignalBridgeKind where
  | voltageSensor | currentSensor | digitalInput | controlledVoltageSource | controlledCurrentSource | digitalOutput
  deriving DecidableEq

structure ElectricalSignalBridgeDefinition where
  kind : ElectricalSignalBridgeKind := .voltageSensor
  componentIndex : Nat := 0
  signalBlockId : String

structure SignalDescriptor where
  channelId : String
  source : String
  label : String

structure Route where
  descriptor : SignalDescriptor
  nodeIndices : List Nat

structure Subscriber where
  componentIndex : Nat
  channels : List Route

structure BridgeBinding where
  definition : ElectricalSignalBridgeDefinition
  signal : SignalSlotHandle

structure SignalPlan (R : Type) where
  revision : Nat
  subscribers : List Nat
  resolvedSubscribers : List Subscriber
  engine : CompiledSignalGraph R
  electricalBridges : List BridgeBinding

structure ExternalBindingPlan where
  revision : Nat
  processComponents : List Nat

structure PlcExportedIo where
  ioId : String
  name : String
  direction : String
  iecType : String

structure PlcNativeModule where
  exportedIo : List PlcExportedIo

structure PlcIoBinding where
  ioId : String
  name : String
  direction : String
  iecType : String
  signalBlockId : String := ""
  signal : Option SignalSlotHandle := none

structure PlcInstancePlan where
  componentIndex : Nat
  artifact : Option PlcNativeModule
  taskIntervalNs : Nat
  ioBindings : List PlcIoBinding := []
  orphanedBindingRequests : List String := []

structure PlcPlan where
  revision : Nat
  instances : List PlcInstancePlan

structure PlcIoBindingRequest where
  ioId : String
  signalBlockId : String

structure PlcInstanceDescriptor where
  componentIndex : Nat := 0
  artifact : Option PlcNativeModule := none
  taskIntervalNs : Nat := 10000000
  ioBindingRequests : List PlcIoBindingRequest := []

structure PythonBlockPlan where
  blockId : String
  source : String
  rateGroupId : String
  dependencies : List String

structure PythonPlan where
  revision : Nat
  blocks : List PythonBlockPlan

structure SimulationPlan (R : Type) where
  generation : Nat
  authoringRevision : Nat
  normalizedAuthoringHash : String
  execution : DenseExecutionLists
  electrical : ElectricalPlan
  signal : SignalPlan R
  externalBindings : ExternalBindingPlan
  plc : PlcPlan
  python : PythonPlan

structure PlanCompileInput (R : Type) where
  authoringRevision : Nat := 0
  electricalRevision : Nat := 0
  componentCapacity : Nat := 0
  normalizedComponentState : List String := []
  electricalTopology : Option Topology := none
  execution : DenseExecutionLists := {}
  resolvedSignalSubscribers : List Subscriber := []
  signalGraph : Option (SignalGraphDefinition R) := none
  electricalSignalBridges : List ElectricalSignalBridgeDefinition := []
  pythonBlocks : List PythonBlockPlan := []
  plcInstances : List PlcInstanceDescriptor := []
  invalidation : PlanInvalidation := .all
  previous : Option (SimulationPlan R) := none

end LasecSimul.Plan

/-!
## `PlanCompiler::compile`

Each domain is compiled from the input, or taken over from the previous plan when there is one and the
domain is not invalidated.
-/

namespace LasecSimul.Plan

open Signal Wiring

/-! ### Structural hash -/

def kFnvOffset : UInt64 := 14695981039346656037
def kFnvPrime : UInt64 := 1099511628211

def hashBytes (hash : UInt64) (bytes : List UInt8) : UInt64 :=
  bytes.foldl (fun hash byte => (hash ^^^ byte.toUInt64) * kFnvPrime) hash

/-- The bytes of an unsigned scalar of `size` bytes, least significant first. -/
def scalarBytes : Nat → Nat → List UInt8
  | 0, _ => []
  | size + 1, value => UInt8.ofNat value :: scalarBytes size (value / 256)

def hashScalar (hash : UInt64) (size value : Nat) : UInt64 := hashBytes hash (scalarBytes size value)

def hashText (hash : UInt64) (text : String) : UInt64 :=
  hashBytes (hashScalar hash 8 text.utf8ByteSize) text.toUTF8.toList

def hashList (hash : UInt64) (values : List Nat) : UInt64 :=
  values.foldl (fun hash value => hashScalar hash 4 value) (hashScalar hash 8 values.length)

def SignalScalarType.code : SignalScalarType → Nat
  | .real => 0
  | .bool => 1
  | .int64 => 2

def SignalBlockKind.code (kind : SignalBlockKind) : Nat := kind.ctorIdx

def hashPort (hash : UInt64) (port : SignalPortDefinition) : UInt64 :=
  let hash := hashScalar (hashText hash port.id) 1 (SignalScalarType.code port.type.scalar)
  hashText (hashScalar hash 2 port.type.width) port.unit

variable {R : Type} (doubleBytes : R → List UInt8)

def hashDoubles (hash : UInt64) (values : List R) : UInt64 :=
  values.foldl (fun hash value => hashBytes hash (doubleBytes value)) (hashScalar hash 8 values.length)

def hashBlock (hash : UInt64) (block : SignalBlockDefinition R) : UInt64 :=
  let hash := hashScalar (hashText hash block.id) 1 (SignalBlockKind.code block.kind)
  let hash := hashPort hash block.output
  let hash := hashScalar (hashScalar (hashScalar hash 8 block.rate.periodNs) 8 block.rate.offsetNs) 2 block.rate.phase
  let hash := hashScalar hash 1 (if block.loopPolicy = .reject then 0 else 1)
  let hash := hashBytes (hashScalar hash 4 block.maxIterations) (doubleBytes block.tolerance)
  let hash := hashScalar hash 4 block.historyCapacity
  let hash := block.inputs.foldl hashPort (hashScalar hash 8 block.inputs.length)
  let hash := hashDoubles doubleBytes hash block.realParameters
  let hash := block.intParameters.foldl (fun hash value => hashScalar hash 8 (value % 2 ^ 64).toNat)
    (hashScalar hash 8 block.intParameters.length)
  let hash := block.boolParameters.foldl (fun hash value => hashScalar hash 1 value.toNat)
    (hashScalar hash 8 block.boolParameters.length)
  hashText hash block.expression

def hashSubscriber (hash : UInt64) (subscriber : Subscriber) : UInt64 :=
  subscriber.channels.foldl
    (fun hash route => hashList (hashText (hashText (hashText hash route.descriptor.channelId) route.descriptor.source)
      route.descriptor.label) route.nodeIndices)
    (hashScalar hash 4 subscriber.componentIndex)

def hashGraph (hash : UInt64) (graph : SignalGraphDefinition R) : UInt64 :=
  let hash := hashScalar (hashScalar hash 2 graph.maxVectorWidth) 4 graph.maxMicrosteps
  let hash := graph.blocks.foldl (hashBlock doubleBytes) (hashScalar hash 8 graph.blocks.length)
  graph.connections.foldl
    (fun hash edge => hashScalar (hashText (hashText (hashText (hashText hash edge.sourceBlock) edge.sourcePort)
      edge.targetBlock) edge.targetPort) 1 edge.allowUnitConversion.toNat)
    (hashScalar hash 8 graph.connections.length)

def ElectricalSignalBridgeKind.code : ElectricalSignalBridgeKind → Nat
  | .voltageSensor => 0
  | .currentSensor => 1
  | .digitalInput => 2
  | .controlledVoltageSource => 3
  | .controlledCurrentSource => 4
  | .digitalOutput => 5

def hashPythonBlock (hash : UInt64) (block : PythonBlockPlan) : UInt64 :=
  let hash := hashText (hashText (hashText hash block.blockId) block.source) block.rateGroupId
  block.dependencies.foldl hashText (hashScalar hash 8 block.dependencies.length)

/-- The pins of a component, in the order of their ids. -/
def hashStamp (hash : UInt64) (resolution : ComponentStampResolution) : UInt64 :=
  let pins := resolution.localIndexByPinId.entries.mergeSort fun a b => a.1 ≤ b.1
  pins.foldl (fun hash pin => hashScalar (hashText hash pin.1) 4 pin.2) (hashScalar hash 4 resolution.groupIndex)

def hashTopology (hash : UInt64) (topology : Topology) : UInt64 :=
  let hash := topology.groups.foldl
    (fun hash group => hashScalar (hashList hash group.nodes) 8 (group.nodes.length + group.extraVariableCount))
    (hashScalar (hashList hash topology.slotToNode) 8 topology.groups.length)
  topology.stampResolutionByComponent.foldl hashStamp (hashScalar hash 8 topology.stampResolutionByComponent.length)

def hexText (hash : UInt64) : String :=
  let digits := Nat.toDigits 16 hash.toNat
  String.ofList (List.replicate (16 - digits.length) '0' ++ digits)

def structuralHash (input : PlanCompileInput R) : String :=
  let hash := hashScalar kFnvOffset 8 input.componentCapacity
  let hash := input.normalizedComponentState.foldl hashText (hashScalar hash 8 input.normalizedComponentState.length)
  let lists := input.execution
  let hash := [lists.activeComponents, lists.reactiveComponents, lists.nonlinearComponents, lists.fpgaComponents,
    lists.mcuComponents, lists.signalSubscribers, lists.plcComponents, lists.pythonComponents,
    lists.dynamicComponents].foldl hashList hash
  let hash := input.resolvedSignalSubscribers.foldl hashSubscriber
    (hashScalar hash 8 input.resolvedSignalSubscribers.length)
  let hash := input.signalGraph.elim hash (hashGraph doubleBytes hash)
  let hash := input.electricalSignalBridges.foldl
    (fun hash bridge => hashText (hashScalar (hashScalar hash 1 (ElectricalSignalBridgeKind.code bridge.kind)) 4
      bridge.componentIndex) bridge.signalBlockId)
    (hashScalar hash 8 input.electricalSignalBridges.length)
  let hash := input.pythonBlocks.foldl hashPythonBlock (hashScalar hash 8 input.pythonBlocks.length)
  hexText (input.electricalTopology.elim hash (hashTopology hash))

def validateDenseList (values : List Nat) (capacity : Nat) (active : Option (List Nat)) (name : String) :
    Except Exception Unit := do
  throwIf (¬(values.Pairwise (· ≤ ·)) ∨ ¬values.IsChain (· ≠ ·))
    (.invalidArgument (name ++ " deve ser ordenada e sem duplicatas"))
  values.forM fun value => do
    throwIf (value ≥ capacity) (.invalidArgument (name ++ " contem indice fora da capacidade"))
    throwIf (active.any fun list => value ∉ list) (.invalidArgument (name ++ " contem componente inativo"))

def validateExecution (lists : DenseExecutionLists) (capacity : Nat) : Except Exception Unit := do
  let active := some lists.activeComponents
  validateDenseList lists.activeComponents capacity none "activeComponents"
  validateDenseList lists.reactiveComponents capacity active "reactiveComponents"
  validateDenseList lists.nonlinearComponents capacity active "nonlinearComponents"
  validateDenseList lists.fpgaComponents capacity active "fpgaComponents"
  validateDenseList lists.mcuComponents capacity active "mcuComponents"
  validateDenseList lists.signalSubscribers capacity active "signalSubscribers"
  validateDenseList lists.plcComponents capacity active "plcComponents"
  validateDenseList lists.pythonComponents capacity active "pythonComponents"
  validateDenseList lists.dynamicComponents capacity active "dynamicComponents"

def isSensorBridge : ElectricalSignalBridgeKind → Bool
  | .voltageSensor | .currentSensor | .digitalInput => true
  | _ => false

def bridgeScalar : ElectricalSignalBridgeKind → SignalScalarType
  | .digitalInput | .digitalOutput => .bool
  | _ => .real

def bridgeUnit : ElectricalSignalBridgeKind → String
  | .voltageSensor | .controlledVoltageSource => "V"
  | .currentSensor | .controlledCurrentSource => "A"
  | _ => ""

namespace SignalCompiler

def block (graph : CompiledSignalGraph R) (blockId : String) : Option (CompiledBlock R) :=
  (graph.blockIds.idxOf? blockId).bind fun index => graph.blocks[index]?

def output (graph : CompiledSignalGraph R) (blockId : String) : Except Exception SignalSlotHandle := do
  let block ← orThrow (block graph blockId) (.outOfRange ("bloco de sinal inexistente: " ++ blockId))
  return block.output

def outputDefinition (graph : CompiledSignalGraph R) (blockId : String) : Except Exception SignalPortDefinition := do
  let block ← orThrow (block graph blockId) (.outOfRange ("bloco de sinal inexistente: " ++ blockId))
  return { id := "out", type := ⟨block.output.scalar, block.output.width⟩, unit := block.outputUnit }

def isExternalInput (graph : CompiledSignalGraph R) (blockId : String) : Bool :=
  (block graph blockId).any fun block => block.kind = .externalInput

end SignalCompiler

def compileElectrical (input : PlanCompileInput R) : Except Exception ElectricalPlan := do
  let topology ← orThrow input.electricalTopology (.invalidArgument "ElectricalPlan exige Topology compilada")
  return {
    revision := input.electricalRevision
    groups := topology.groups.map fun group => ⟨group.nodes, group.nodes.length + group.extraVariableCount⟩
    resolutionBySlot := topology.resolutionBySlot
    listenersByNode := topology.listenersByNode
    pinRefsByNode := topology.pinRefsByNode
    slotToNode := topology.slotToNode
    extraVariablesByComponent := topology.extraVariablesByComponent
    stampResolutionByComponent := topology.stampResolutionByComponent }

/-- The loop over the bridges: the components bound so far, the sensor targets so far and the bindings. -/
structure BridgeLoop where
  boundComponents : List Nat := []
  sensorTargets : List String := []
  electricalBridges : List BridgeBinding := []

/-- `capacity` and `active` are the execution lists the bridge is checked against. -/
def checkBridge (capacity : Nat) (active : List Nat) (bridge : ElectricalSignalBridgeDefinition) :
    Except Exception Unit :=
  throwIf (bridge.componentIndex ≥ capacity ∨ bridge.componentIndex ∉ active)
    (.invalidArgument "bridge referencia componente eletrico inativo/inexistente")

def bindBridge (engine : CompiledSignalGraph R) (loop : BridgeLoop) (bridge : ElectricalSignalBridgeDefinition) :
    Except Exception BridgeLoop := do
  throwIf (bridge.componentIndex ∈ loop.boundComponents)
    (.invalidArgument "componente eletrico possui mais de um bridge")
  let output ← SignalCompiler.outputDefinition engine bridge.signalBlockId
  throwIf (output.type.scalar ≠ bridgeScalar bridge.kind ∨ output.type.width ≠ 1)
    (.invalidArgument ("bridge possui tipo/largura de sinal incompativel: " ++ bridge.signalBlockId))
  throwIf (output.unit ≠ bridgeUnit bridge.kind)
    (.invalidArgument ("bridge possui unidade incompativel: " ++ bridge.signalBlockId))
  throwIf (isSensorBridge bridge.kind ∧ !SignalCompiler.isExternalInput engine bridge.signalBlockId)
    (.invalidArgument ("sensor bridge deve publicar em ExternalInput: " ++ bridge.signalBlockId))
  throwIf (isSensorBridge bridge.kind ∧ bridge.signalBlockId ∈ loop.sensorTargets)
    (.invalidArgument "mais de um sensor publica no mesmo ExternalInput")
  let signal ← SignalCompiler.output engine bridge.signalBlockId
  return {
    boundComponents := bridge.componentIndex :: loop.boundComponents
    sensorTargets :=
      if isSensorBridge bridge.kind then bridge.signalBlockId :: loop.sensorTargets else loop.sensorTargets
    electricalBridges := loop.electricalBridges ++ [⟨bridge, signal⟩] }

variable [Double R] (tools : Tools R)

def compileSignal (input : PlanCompileInput R) : Except Exception (SignalPlan R) := do
  let engine ← Signal.compile tools (input.signalGraph.getD ⟨[], [], 64, 1024⟩)
  let loop ← input.electricalSignalBridges.foldlM
    (fun loop bridge => do
      checkBridge input.componentCapacity input.execution.activeComponents bridge
      bindBridge engine loop bridge) {}
  return {
    revision := input.authoringRevision
    subscribers := input.execution.signalSubscribers
    resolvedSubscribers := input.resolvedSignalSubscribers
    engine
    electricalBridges := loop.electricalBridges }

def compileExternal (input : PlanCompileInput R) : ExternalBindingPlan where
  revision := input.authoringRevision
  -- sorted, without the repetitions `std::unique` drops
  processComponents := ((input.execution.fpgaComponents ++ input.execution.mcuComponents).mergeSort).dedup

def plcIoScalarType (iecType : String) : SignalScalarType :=
  if iecType = "BOOL" then .bool else if iecType = "REAL" ∨ iecType = "LREAL" then .real else .int64

/-- Resolves one I/O of a PLC. `outputTargets` are the blocks its outputs publish in so far. -/
def bindIo (engine : CompiledSignalGraph R) (requests : List PlcIoBindingRequest) (io : PlcExportedIo)
    (outputTargets : List String) : Except Exception (PlcIoBinding × List String) :=
  let binding : PlcIoBinding := ⟨io.ioId, io.name, io.direction, io.iecType, "", none⟩
  match requests.find? fun candidate => candidate.ioId = io.ioId with
  | none => .ok (binding, outputTargets)
  | some request =>
    let expectedScalar := plcIoScalarType io.iecType
    if io.direction = "output" then do
      throwIf (expectedScalar = .int64) (.invalidArgument ("PLC output de tipo IEC inteiro/temporal (" ++ io.iecType ++
        ") ainda não pode ser ligado ao Signal Engine nesta rodada (só BOOL/REAL/LREAL): " ++ io.ioId))
      throwIf (!SignalCompiler.isExternalInput engine request.signalBlockId) (.invalidArgument
        ("PLC output deve publicar em um bloco ExternalInput do Signal Engine: " ++ request.signalBlockId))
      let target ← SignalCompiler.outputDefinition engine request.signalBlockId
      throwIf (target.type.scalar ≠ expectedScalar)
        (.invalidArgument ("PLC output com tipo incompativel no bloco alvo: " ++ request.signalBlockId))
      throwIf (request.signalBlockId ∈ outputTargets)
        (.invalidArgument ("mais de um output de PLC publica no mesmo bloco: " ++ request.signalBlockId))
      return ({ binding with signalBlockId := request.signalBlockId }, request.signalBlockId :: outputTargets)
    else if io.direction = "input" then do
      let source ← SignalCompiler.outputDefinition engine request.signalBlockId
      throwIf (source.type.scalar ≠ expectedScalar)
        (.invalidArgument ("PLC input com tipo incompativel na fonte: " ++ request.signalBlockId))
      let signal ← SignalCompiler.output engine request.signalBlockId
      return ({ binding with signalBlockId := request.signalBlockId, signal := some signal }, outputTargets)
    else .ok (binding, outputTargets)

def bindIos (engine : CompiledSignalGraph R) (requests : List PlcIoBindingRequest) :
    List PlcExportedIo → List String → Except Exception (List PlcIoBinding)
  | [], _ => .ok []
  | io :: rest, outputTargets => do
    let (binding, outputTargets) ← bindIo engine requests io outputTargets
    let bindings ← bindIos engine requests rest outputTargets
    return binding :: bindings

def compileInstance (engine : CompiledSignalGraph R) (descriptor : PlcInstanceDescriptor) :
    Except Exception PlcInstancePlan := do
  let instancePlan : PlcInstancePlan := {
    componentIndex := descriptor.componentIndex
    artifact := descriptor.artifact
    taskIntervalNs := if descriptor.taskIntervalNs > 0 then descriptor.taskIntervalNs else 10000000 }
  match descriptor.artifact with
  | none => return instancePlan
  | some artifact =>
    let ioBindings ← bindIos engine descriptor.ioBindingRequests artifact.exportedIo []
    return { instancePlan with
      ioBindings
      orphanedBindingRequests := (descriptor.ioBindingRequests.map (·.ioId)).filter fun ioId =>
        ioId ∉ artifact.exportedIo.map (·.ioId) }

/-- `capacity` and `plcComponents` are the execution lists the descriptor is checked against. -/
def checkInstance (capacity : Nat) (plcComponents : List Nat) (descriptor : PlcInstanceDescriptor) :
    Except Exception Unit :=
  throwIf (descriptor.componentIndex ≥ capacity ∨ descriptor.componentIndex ∉ plcComponents)
    (.invalidArgument "PlcInstanceDescriptor referencia componente PLC inativo/inexistente")

def compileInstances (capacity : Nat) (plcComponents : List Nat) (engine : CompiledSignalGraph R) :
    List PlcInstanceDescriptor → List Nat → Except Exception (List PlcInstancePlan)
  | [], _ => .ok []
  | descriptor :: rest, seenComponents => do
    checkInstance capacity plcComponents descriptor
    throwIf (descriptor.componentIndex ∈ seenComponents)
      (.invalidArgument "PlcInstanceDescriptor duplicado pro mesmo componentIndex")
    let instancePlan ← compileInstance engine descriptor
    let instances ← compileInstances capacity plcComponents engine rest (descriptor.componentIndex :: seenComponents)
    return instancePlan :: instances

def compilePlc (input : PlanCompileInput R) (engine : CompiledSignalGraph R) : Except Exception PlcPlan := do
  let instances ← compileInstances input.componentCapacity input.execution.plcComponents engine input.plcInstances []
  return { revision := input.authoringRevision, instances }

def checkPythonBlock (ids : List String) (block : PythonBlockPlan) : Except Exception (List String) := do
  throwIf (block.blockId = "" ∨ block.source = "" ∨ block.rateGroupId = "")
    (.invalidArgument "PythonPlan exige blockId/source/rateGroupId nao vazios")
  throwIf (block.blockId ∈ ids) (.invalidArgument ("PythonPlan contem blockId duplicado: " ++ block.blockId))
  return block.blockId :: ids

def compilePython (input : PlanCompileInput R) : Except Exception PythonPlan := do
  let _ ← input.pythonBlocks.foldlM checkPythonBlock []
  return { revision := input.authoringRevision, blocks := input.pythonBlocks }

/-- A domain of the next plan: compiled, or the one of the previous plan. -/
def PlanCompileInput.refresh {α : Type} (input : PlanCompileInput R) (domain : PlanDomain) (part : SimulationPlan R → α)
    (build : Except Exception α) : Except Exception α :=
  match input.previous with
  | none => build
  | some previous => if domain ∈ input.invalidation then build else .ok (part previous)

def compile (input : PlanCompileInput R) : Except Exception (SimulationPlan R) := do
  validateExecution input.execution input.componentCapacity
  let execution ← input.refresh .executionIndex (·.execution) (.ok input.execution)
  let electrical ← input.refresh .electrical (·.electrical) (compileElectrical input)
  let signal ← input.refresh .signal (·.signal) (compileSignal tools input)
  let externalBindings ← input.refresh .external (·.externalBindings) (.ok (compileExternal input))
  let plc ← input.refresh .plc (·.plc) (compilePlc input signal.engine)
  let python ← input.refresh .python (·.python) (compilePython input)
  return {
    generation := input.previous.elim 1 fun previous => previous.generation + 1
    authoringRevision := input.authoringRevision
    normalizedAuthoringHash := structuralHash doubleBytes input
    execution
    electrical
    signal
    externalBindings
    plc
    python }

end LasecSimul.Plan
