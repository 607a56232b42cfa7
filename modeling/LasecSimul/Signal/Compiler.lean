import LasecSimul.Lib.Layering
import LasecSimul.Lib.StrongComponents
import LasecSimul.Signal.Definition
import Mathlib.Data.List.FinRange

/-!
# `SignalCompiler::compile`

Blocks are numbered in authoring order. The components and their order come from the two searches of
the library, at the instantaneous edges of the diagram.
-/

namespace LasecSimul.Signal

open Lib

variable {R : Type} [Double R]

structure InputBinding (R : Type) where
  source : SignalSlotHandle
  conversion : LinearConversion R

inductive ExpressionInstruction (R : Type) where
  | constant (value : R)
  | input (index : Nat)
  | add | subtract | multiply | divide | power | greater | less | negate

/-- A `RateGroup` by its index, `kContinuousGroup` or `kMixedRateGroup`. -/
inductive Group where
  | rate (index : Nat)
  | continuous
  | mixed
  deriving DecidableEq

structure CompiledBlock (R : Type) where
  kind : SignalBlockKind
  output : SignalSlotHandle
  outputUnit : String
  inputs : List (InputBinding R)
  realParameters : List R
  intParameters : List Int
  boolParameters : List Bool
  expression : List (ExpressionInstruction R) := []
  expressionDepth : Nat := 0
  stateOffset : Option Nat := none
  stateWidth : Nat := 0
  delayIndex : Option Nat := none
  delayNs : Nat := 0
  historyCapacity : Nat := 0
  kernel : Option (KernelSpec R) := none
  feedthrough : List Bool := []
  inputWidths : List Nat := []
  discreteOffset : Nat := 0
  discreteCount : Nat := 0
  paramOffset : Nat := 0
  paramCount : Nat := 0
  group : Group := .continuous
  samplePeriod : R

structure ExecutionItem (R : Type) where
  blocks : List Nat
  continuousBlocks : List Nat
  group : Group
  fixedPoint : Bool
  maxIterations : Nat
  tolerance : R
  microstep : Nat

/-- Only sampled blocks have a rate group, so its period is positive. -/
structure RateGroup where
  rate : SignalRate
  sampled : rate.continuous = false

theorem RateGroup.period_pos (group : RateGroup) : 0 < group.rate.periodNs := by
  have sampled := group.sampled
  unfold SignalRate.continuous at sampled
  exact Nat.pos_of_ne_zero (of_decide_eq_false sampled)

structure CompiledSignalGraph (R : Type) where
  blockIds : List String := []
  blocks : List (CompiledBlock R) := []
  rateGroups : List RateGroup := []
  realCount : Nat := 0
  boolCount : Nat := 0
  intCount : Nat := 0
  expressionDepth : Nat := 0
  maxMicrosteps : Nat := 0
  dynamicStateCount : Nat := 0
  continuousBlocks : List Nat := []
  discreteStateBlocks : List Nat := []
  delayBlocks : List Nat := []
  items : List (ExecutionItem R) := []
  continuousItems : List Nat := []
  continuousPartition : List Nat := []
  kernelBlocks : List Nat := []
  kernelParamInit : List R := []
  kernelDiscreteCount : Nat := 0
  maxKernelInputs : Nat := 0
  maxKernelInputElements : Nat := 0

/-- The kernel table and the parser of calc expressions, which are other parts of the core. -/
structure Tools (R : Type) where
  findKernel : String → Option (KernelSpec R)
  parseExpression : String → List SignalPortDefinition →
    Except Exception (List (ExpressionInstruction R) × Nat)

def allocateSlot (type : SignalDataType) (graph : CompiledSignalGraph R) :
    SignalSlotHandle × CompiledSignalGraph R :=
  match type.scalar with
  | .real => (⟨.real, graph.realCount, type.width⟩, { graph with realCount := graph.realCount + type.width })
  | .bool => (⟨.bool, graph.boolCount, type.width⟩, { graph with boolCount := graph.boolCount + type.width })
  | .int64 => (⟨.int64, graph.intCount, type.width⟩, { graph with intCount := graph.intCount + type.width })

def samplePeriodOf (rate : SignalRate) : R :=
  if rate.continuous then 0.0 else ofUnsignedNs rate.periodNs
where
  ofUnsignedNs (ns : Nat) : R := Double.ofUnsigned ns * 1e-9

/-- The kernel of a block with the shape `configure` gives it, once the shape is checked. -/
def configureKernel (tools : Tools R) (source : SignalBlockDefinition R) :
    Except Exception (KernelSpec R × KernelShape) := do
  let kernel ← orThrow (tools.findKernel source.kernel)
    (.invalidArgument ("kernel desconhecido '" ++ source.kernel ++ "' no bloco: " ++ source.id))
  let config : KernelConfig R := ⟨source.realParameters, source.intParameters,
    source.inputs.map (·.type.width), source.output.type.width, samplePeriodOf source.rate⟩
  let shape ← (kernel.configure config).mapError fun error =>
    match error with
    | .invalidArgument what => .invalidArgument (what ++ " [" ++ source.id ++ "]")
    | other => other
  throwIf (shape.feedthrough.length ≠ source.inputs.length)
    (.logicError ("kernel '" ++ source.kernel ++ "' declarou feedthrough para um numero errado de entradas"))
  throwIf (shape.continuousStates > 0 && !source.rate.continuous)
    (.invalidArgument ("bloco com estados continuos exige tempo de amostragem continuo: " ++ source.id))
  throwIf (shape.continuousStates > 65535)
    (.invalidArgument ("estados continuos demais no bloco: " ++ source.id))
  return (kernel, shape)

/-- The fields a kernel block adds to the compiled block, and its shares of the graph's vectors. -/
def addKernel (tools : Tools R) (source : SignalBlockDefinition R) (target : CompiledBlock R)
    (graph : CompiledSignalGraph R) : Except Exception (CompiledBlock R × CompiledSignalGraph R) :=
  if source.kind = .kernel then do
    let configured ← configureKernel tools source
    let shape := configured.2
    let widths := source.inputs.map (·.type.width)
    return ({ target with
        kernel := some configured.1
        feedthrough := shape.feedthrough
        inputWidths := widths
        samplePeriod := samplePeriodOf source.rate
        stateWidth := shape.continuousStates
        discreteOffset := graph.kernelDiscreteCount
        discreteCount := shape.discreteStates
        paramOffset := graph.kernelParamInit.length
        paramCount := source.realParameters.length },
      { graph with
        kernelDiscreteCount := graph.kernelDiscreteCount + shape.discreteStates
        kernelParamInit := graph.kernelParamInit ++ source.realParameters
        maxKernelInputs := max graph.maxKernelInputs source.inputs.length
        maxKernelInputElements := max graph.maxKernelInputElements (widths.foldl (· + ·) 0) })
  else return (target, graph)

/-- Where the states and the delay ring of a block go. -/
def addStorage (source : SignalBlockDefinition R) (index : Nat) (target : CompiledBlock R)
    (graph : CompiledSignalGraph R) : Except Exception (CompiledBlock R × CompiledSignalGraph R) := do
  let placed : CompiledBlock R × CompiledSignalGraph R :=
    if target.stateWidth > 0 then
      ({ target with stateOffset := some graph.dynamicStateCount },
        { graph with dynamicStateCount := graph.dynamicStateCount + target.stateWidth })
    else (target, graph)
  let listed := { placed.2 with
    continuousBlocks := if isContinuous source.kind then placed.2.continuousBlocks ++ [index]
      else placed.2.continuousBlocks
    discreteStateBlocks := if isDiscreteState source.kind then placed.2.discreteStateBlocks ++ [index]
      else placed.2.discreteStateBlocks }
  if usesDelay source.kind then
    let delayNs ← secondsToNanoseconds (source.real (if source.kind = .fopdt then 2 else 0)) source.id
    return ({ placed.1 with
        delayIndex := some listed.delayBlocks.length
        delayNs
        historyCapacity := source.historyCapacity },
      { listed with delayBlocks := listed.delayBlocks ++ [index] })
  else return (placed.1, listed)

def addExpression (tools : Tools R) (source : SignalBlockDefinition R) (target : CompiledBlock R)
    (graph : CompiledSignalGraph R) : Except Exception (CompiledBlock R × CompiledSignalGraph R) :=
  if source.kind = .calcExpression then do
    let parsed ← tools.parseExpression source.expression source.inputs
    return ({ target with expression := parsed.1, expressionDepth := parsed.2 },
      { graph with expressionDepth := max graph.expressionDepth parsed.2 })
  else return (target, graph)

def addBlock (tools : Tools R) (maxVectorWidth : Nat) (graph : CompiledSignalGraph R)
    (source : SignalBlockDefinition R) : Except Exception (CompiledSignalGraph R) := do
  validateBlock tools.findKernel source maxVectorWidth
  throwIf (source.id ∈ graph.blockIds) (.invalidArgument ("id de bloco duplicado: " ++ source.id))
  let slot := allocateSlot source.output.type graph
  let stateWidth ← stateWidthFor source
  let target : CompiledBlock R := {
    kind := source.kind
    output := slot.1
    outputUnit := source.output.unit
    inputs := source.inputs.map fun _ => ⟨{}, ⟨1.0, 0.0⟩⟩
    realParameters := source.realParameters
    intParameters := source.intParameters
    boolParameters := source.boolParameters
    stateWidth
    samplePeriod := 0.0 }
  let kernel ← addKernel tools source target slot.2
  let stored ← addStorage source graph.blocks.length kernel.1 kernel.2
  let parsed ← addExpression tools source stored.1 stored.2
  return { parsed.2 with
    blockIds := parsed.2.blockIds ++ [source.id]
    blocks := parsed.2.blocks ++ [parsed.1] }

variable {definition : SignalGraphDefinition R}

/-- `blockById`. -/
def SignalGraphDefinition.find (definition : SignalGraphDefinition R) (id : String) :
    Option (Fin definition.blocks.length) := definition.blocks.findFinIdx? (·.id = id)

def SignalGraphDefinition.block (definition : SignalGraphDefinition R) (index : Fin definition.blocks.length) :
    SignalBlockDefinition R := definition.blocks.get index

/-- An input is an instantaneous dependency unless its block consumes it for a later state: continuous
blocks but the sampled bounds of an Accumulator, UnitDelay, a DiscreteTransferFunction without direct
term, and the kernel inputs declared so. -/
def instantaneous (target : SignalBlockDefinition R) (feedthrough : List Bool) (port : Nat) : Bool :=
  let accumulatorBound := target.kind = .accumulator && port ≥ 2
  let delayedInput :=
    if target.kind = .kernel then !feedthrough.getD port false
    else if target.kind = .discreteTransferFunction then
      Double.eq (if target.int 1 = target.int 0 then target.real 0 else 0.0) (0.0 : R)
    else target.kind = .unitDelay
  (!isContinuous target.kind && !delayedInput) || accumulatorBound

/-- `inputSources`, the bindings of the inputs and `edges`. -/
structure Connected (definition : SignalGraphDefinition R) where
  inputSources : Fin definition.blocks.length → Nat → Option (Fin definition.blocks.length) :=
    fun _ _ => none
  bindings : Fin definition.blocks.length → Nat → Option (InputBinding R) := fun _ _ => none
  edges : Fin definition.blocks.length → List (Fin definition.blocks.length) := fun _ => []

/-- A connection whose ends exist and agree. -/
structure Link (definition : SignalGraphDefinition R) where
  source : Fin definition.blocks.length
  target : Fin definition.blocks.length
  port : Fin (definition.block target).inputs.length
  conversion : LinearConversion R

def resolve (connected : Connected definition) (edge : SignalConnectionDefinition) :
    Except Exception (Link definition) := do
  let missing : Exception := .invalidArgument "conexao referencia bloco inexistente"
  let sourceIndex ← orThrow (definition.find edge.sourceBlock) missing
  let targetIndex ← orThrow (definition.find edge.targetBlock) missing
  let source := definition.block sourceIndex
  let target := definition.block targetIndex
  throwIf (edge.sourcePort ≠ source.output.id)
    (.invalidArgument ("porta de saida inexistente: " ++ edge.sourceBlock ++ "." ++ edge.sourcePort))
  let port ← orThrow (target.inputs.findFinIdx? (·.id = edge.targetPort))
    (.invalidArgument ("porta de entrada inexistente: " ++ edge.targetBlock ++ "." ++ edge.targetPort))
  throwIf (connected.inputSources targetIndex port).isSome
    (.invalidArgument "entrada de sinal conectada mais de uma vez")
  throwIf (source.output.type ≠ target.inputs[port].type)
    (.invalidArgument ("tipos de sinal incompativeis na conexao " ++ edge.sourceBlock ++ " -> " ++
      edge.targetBlock))
  let converted ← conversion source.output.unit target.inputs[port].unit edge.allowUnitConversion
  throwIf (source.output.type.scalar ≠ .real ∧
      (!Double.eq converted.scale 1.0 || !Double.eq converted.offset 0.0))
    (.invalidArgument "conversao de unidade so e suportada para Real")
  return ⟨sourceIndex, targetIndex, port, converted⟩

def Connected.add (graph : CompiledSignalGraph R) (connected : Connected definition) (link : Link definition) :
    Connected definition :=
  let output := (graph.blocks[link.source.val]?.map (·.output)).getD {}
  let feedthrough := (graph.blocks[link.target.val]?.map (·.feedthrough)).getD []
  { inputSources := fun block input =>
      if block = link.target ∧ input = link.port then some link.source else connected.inputSources block input
    bindings := fun block input =>
      if block = link.target ∧ input = link.port then some ⟨output, link.conversion⟩
      else connected.bindings block input
    edges := fun block =>
      if block = link.source ∧ instantaneous (definition.block link.target) feedthrough link.port then
        connected.edges block ++ [link.target]
      else connected.edges block }

def connect (graph : CompiledSignalGraph R) (connected : Connected definition)
    (edge : SignalConnectionDefinition) : Except Exception (Connected definition) := do
  let link ← resolve connected edge
  return connected.add graph link

/-- Every input has a source. -/
def checkConnected (definition : SignalGraphDefinition R) (connected : Connected definition) :
    Except Exception Unit :=
  (List.finRange definition.blocks.length).forM fun block =>
    (List.range (definition.block block).inputs.length).forM fun port =>
      throwIf (connected.inputSources block port).isNone
        (.invalidArgument ("entrada de sinal sem conexao no bloco: " ++ (definition.block block).id))

/-- The inputs of the compiled blocks, as connected. -/
def bindInputs (connected : Connected definition) (blocks : List (CompiledBlock R)) : List (CompiledBlock R) :=
  blocks.mapIdx fun index block =>
    if bound : index < definition.blocks.length then
      { block with inputs := block.inputs.mapIdx fun port unbound =>
        (connected.bindings ⟨index, bound⟩ port).getD unbound }
    else block

section Order

variable (definition) (edges : Fin definition.blocks.length → List (Fin definition.blocks.length))

def cyclic (component : List (Fin definition.blocks.length)) : Bool :=
  component.length > 1 || component.head?.any fun block => block ∈ edges block

/-- A component with a cycle is admitted when all its blocks declare `FixedPoint` and none is a discrete
transfer function with a direct term. -/
def admitLoop (component : List (Fin definition.blocks.length)) : Except Exception Unit :=
  match component with
  | [] => .ok ()
  | first :: _ =>
    if cyclic definition edges component then do
      component.forM fun index =>
        let block := definition.block index
        throwIf (block.kind = .discreteTransferFunction ∧ block.int 1 = block.int 0 ∧
            !Double.eq (block.real 0) (0.0 : R))
          (.invalidArgument
            ("funcao discreta com transmissao direta cria uma malha algebrica nao suportada: " ++ block.id))
      throwIf ((definition.block first).loopPolicy ≠ .fixedPoint)
        (.invalidArgument ("loop algebrico sem politica explicita no bloco: " ++ (definition.block first).id))
      component.forM fun index =>
        throwIf ((definition.block index).loopPolicy ≠ .fixedPoint)
          (.invalidArgument "todos os blocos do SCC devem declarar FixedPoint")
    else .ok ()

/-- The rates in use, by period, offset and phase. -/
def rateGroupsOf (definition : SignalGraphDefinition R) : List SignalRate :=
  (((definition.blocks.map (·.rate)).filter fun rate => !rate.continuous).foldl
    (fun rates rate => if rate ∈ rates then rates else rates ++ [rate]) []).insertionSort fun a b =>
      a.periodNs < b.periodNs ∨ a.periodNs = b.periodNs ∧
        (a.offsetNs < b.offsetNs ∨ a.offsetNs = b.offsetNs ∧ a.phase ≤ b.phase)

def rateGroup (rate : SignalRate) : Option RateGroup :=
  if sampled : rate.continuous = false then some ⟨rate, sampled⟩ else none

def groupOf (definition : SignalGraphDefinition R) (block : Fin definition.blocks.length) : Group :=
  let rate := (definition.block block).rate
  if rate.continuous then .continuous else .rate ((rateGroupsOf definition).idxOf rate)

variable (components : List (List (Fin definition.blocks.length)))

def componentOf (block : Fin definition.blocks.length) : List (Fin definition.blocks.length) :=
  (components.find? fun component => block ∈ component).getD []

/-- The components the edges of `component` lead to, one for each edge. -/
def successors (component : List (Fin definition.blocks.length)) : List (List (Fin definition.blocks.length)) :=
  component.flatMap fun source =>
    ((edges source).map (componentOf definition components)).filter (· ≠ component)

def indegree (component : List (Fin definition.blocks.length)) : Nat :=
  Layering.incoming (fun source => ((edges source).map (componentOf definition components)).filter
    (· ≠ componentOf definition components source)) (List.finRange definition.blocks.length) component

/-- `later`, read the other way: ties go by the phase of the rate, then by authoring order. -/
def Before (a b : List (Fin definition.blocks.length)) : Prop :=
  phase a < phase b ∨ phase a = phase b ∧ front a ≤ front b
where
  phase (component : List (Fin definition.blocks.length)) : Nat :=
    (component.head?.map fun block =>
      if (definition.block block).rate.continuous then 0 else (definition.block block).rate.phase).getD 0
  front (component : List (Fin definition.blocks.length)) : Nat := (component.head?.map (·.val)).getD 0

instance : DecidableRel (Before definition) := fun a b => by
  unfold Before
  infer_instance

def itemGroup (component : List (Fin definition.blocks.length)) : Group :=
  component.foldl (fun group block =>
      let blockGroup := groupOf definition block
      if blockGroup ≠ .continuous ∧ blockGroup ≠ group then .mixed else group)
    ((component.head?.map (groupOf definition)).getD .continuous)

def makeItem (component : List (Fin definition.blocks.length)) (level : Nat) :
    Except Exception (ExecutionItem R) := do
  throwIf (level ≥ definition.maxMicrosteps) (.invalidArgument "limite de microsteps excedido")
  let fixedPoint : Bool := cyclic definition edges component
  let maxIterations : Nat :=
    component.foldl (fun least block => min least (definition.block block).maxIterations) 4294967295
  throwIf (fixedPoint ∧ maxIterations = 0) (.invalidArgument "FixedPoint exige maxIterations positivo")
  return {
    blocks := component.map (·.val)
    continuousBlocks := (component.filter fun block => groupOf definition block = .continuous).map (·.val)
    group := itemGroup definition component
    fixedPoint
    maxIterations := if fixedPoint then maxIterations else 1
    tolerance := if fixedPoint then
        component.foldl (fun most block => Double.max most (definition.block block).tolerance) 0.0
      else 0.0
    microstep := level }

/-- The items in execution order: by level, and on a level in the order in which they were taken. -/
def schedule : Except Exception (List (ExecutionItem R)) := do
  let order := Layering.layers (Before definition) (successors definition edges components) components
    (indegree definition edges components)
  let items ← order.mapM fun entry => makeItem definition edges entry.1 entry.2
  throwIf (items.length ≠ components.length) (.logicError "falha ao ordenar plano de sinais")
  return items.insertionSort fun a b => a.microstep ≤ b.microstep

end Order

def compile (tools : Tools R) (definition : SignalGraphDefinition R) :
    Except Exception (CompiledSignalGraph R) := do
  throwIf (definition.maxVectorWidth = 0) (.invalidArgument "maxVectorWidth deve ser positivo")
  throwIf (definition.maxMicrosteps = 0) (.invalidArgument "maxMicrosteps deve ser positivo")
  let graph ← definition.blocks.foldlM (addBlock tools definition.maxVectorWidth)
    { maxMicrosteps := definition.maxMicrosteps }
  let connected : Connected definition ← definition.connections.foldlM (connect graph) {}
  checkConnected definition connected
  let components := StrongComponents.components connected.edges (List.finRange definition.blocks.length)
  components.forM (admitLoop definition connected.edges)
  let items ← schedule definition connected.edges components
  let blocks := (bindInputs connected graph.blocks).mapIdx fun index block =>
    if bound : index < definition.blocks.length then { block with group := groupOf definition ⟨index, bound⟩ }
    else block
  return { graph with
    blocks
    rateGroups := (rateGroupsOf definition).filterMap rateGroup
    items
    continuousItems := (List.range items.length).filter fun index =>
      items[index]?.any fun item => !item.continuousBlocks.isEmpty
    continuousPartition := items.flatMap (·.continuousBlocks)
    kernelBlocks := (items.flatMap (·.blocks)).filter fun index =>
      blocks[index]?.any fun block => block.kind = .kernel }

end LasecSimul.Signal
