import LasecSimul.Lib.Fallible
import LasecSimul.Plan.PlanCompiler
import LasecSimul.Signal.Schedule

/-!
# Incremental compilation

A domain that is taken over answers for the inputs it was compiled from. The bindings of the PLC domain
were also resolved against the signal graph of that time, and the components of both against its execution
lists.
-/

namespace LasecSimul.Plan

open Signal Lib.Fallible

variable {R : Type}

def ElectricalPlan.unstamped (plan : ElectricalPlan) : ElectricalPlan := { plan with revision := 0 }

def SignalPlan.unstamped (plan : SignalPlan R) : SignalPlan R := { plan with revision := 0 }

def ExternalBindingPlan.unstamped (plan : ExternalBindingPlan) : ExternalBindingPlan := { plan with revision := 0 }

def PlcPlan.unstamped (plan : PlcPlan) : PlcPlan := { plan with revision := 0 }

def PythonPlan.unstamped (plan : PythonPlan) : PythonPlan := { plan with revision := 0 }

/-- The plan without the stamps that say when each sub-plan was compiled. -/
def SimulationPlan.unstamped (plan : SimulationPlan R) : SimulationPlan R :=
  { plan with
    electrical := plan.electrical.unstamped
    signal := plan.signal.unstamped
    externalBindings := plan.externalBindings.unstamped
    plc := plan.plc.unstamped
    python := plan.python.unstamped }

/-- The same input, with every domain invalidated. -/
def PlanCompileInput.full (input : PlanCompileInput R) : PlanCompileInput R :=
  { input with invalidation := .all }

/-- What a domain is compiled from, apart from what belongs to other domains. -/
def PlanDomain.Unchanged (old input : PlanCompileInput R) : PlanDomain → Prop
  | .executionIndex => old.execution = input.execution
  | .electrical => old.electricalTopology = input.electricalTopology
  | .signal => old.execution.signalSubscribers = input.execution.signalSubscribers ∧
      old.resolvedSignalSubscribers = input.resolvedSignalSubscribers ∧ old.signalGraph = input.signalGraph ∧
      old.electricalSignalBridges = input.electricalSignalBridges
  | .external => old.execution.fpgaComponents = input.execution.fpgaComponents ∧
      old.execution.mcuComponents = input.execution.mcuComponents
  | .plc => old.plcInstances = input.plcInstances
  | .python => old.pythonBlocks = input.pythonBlocks

/-- Every domain whose own inputs changed is invalidated. -/
def Covers (old input : PlanCompileInput R) : Prop :=
  ∀ domain, domain ∉ input.invalidation → domain.Unchanged old input

/-- A PLC I/O that was resolved in the old graph resolves to the same slot in the new one. -/
structure KeepsTarget (old new : CompiledSignalGraph R) (io : PlcExportedIo) (blockId : String) : Prop where
  output : io.direction = "output" → SignalCompiler.isExternalInput new blockId = true ∧
    ∃ slot, SignalCompiler.output new blockId = .ok slot ∧ slot.scalar = plcIoScalarType io.iecType
  input : io.direction = "input" → SignalCompiler.output new blockId = SignalCompiler.output old blockId

/-! ### Resolving against another graph -/

section Bindings

variable {old new : CompiledSignalGraph R} {requests : List PlcIoBindingRequest}

theorem output_eq {graph : CompiledSignalGraph R} {blockId : String} {slot : SignalSlotHandle} :
    SignalCompiler.output graph blockId = .ok slot ↔
      ∃ block, SignalCompiler.block graph blockId = some block ∧ block.output = slot := by
  constructor
  · intro h
    obtain ⟨block, found, made⟩ := bind_ok h
    exact ⟨block, orThrow_ok found, Except.ok.inj made⟩
  · rintro ⟨block, found, rfl⟩
    rw [SignalCompiler.output, found]
    rfl

theorem outputDefinition_eq {graph : CompiledSignalGraph R} {blockId : String} {block : CompiledBlock R}
    (found : SignalCompiler.block graph blockId = some block) :
    SignalCompiler.outputDefinition graph blockId =
      .ok { id := "out", type := ⟨block.output.scalar, block.output.width⟩, unit := block.outputUnit } := by
  rw [SignalCompiler.outputDefinition, found]
  rfl

theorem bindIo_output {graph : CompiledSignalGraph R} {io : PlcExportedIo} {request : PlcIoBindingRequest}
    {outputTargets : List String} {bound : PlcIoBinding × List String}
    (asked : requests.find? (fun candidate => candidate.ioId = io.ioId) = some request)
    (isOutput : io.direction = "output") :
    bindIo graph requests io outputTargets = .ok bound ↔
      plcIoScalarType io.iecType ≠ .int64 ∧ SignalCompiler.isExternalInput graph request.signalBlockId = true ∧
        (∃ slot, SignalCompiler.output graph request.signalBlockId = .ok slot ∧ slot.scalar = plcIoScalarType io.iecType) ∧
          request.signalBlockId ∉ outputTargets ∧
            bound = (⟨io.ioId, io.name, io.direction, io.iecType, request.signalBlockId, none⟩,
              request.signalBlockId :: outputTargets) := by
  unfold bindIo
  simp only [asked, isOutput, if_true]
  constructor
  · intro run
    obtain ⟨_, publishes, run⟩ := bind_ok run
    obtain ⟨_, external, run⟩ := bind_ok run
    obtain ⟨target, found, run⟩ := bind_ok run
    obtain ⟨_, typed, run⟩ := bind_ok run
    obtain ⟨_, single, made⟩ := bind_ok run
    obtain ⟨block, stored, isTarget⟩ := bind_ok found
    obtain rfl := Except.ok.inj isTarget
    refine ⟨throwIf_ok publishes, by simpa using throwIf_ok external, ⟨block.output,
      output_eq.mpr ⟨block, orThrow_ok stored, rfl⟩, not_not.mp (throwIf_ok typed)⟩, throwIf_ok single, ?_⟩
    exact (Except.ok.inj made).symm
  · rintro ⟨publishes, external, ⟨slot, found, typed⟩, single, rfl⟩
    obtain ⟨block, stored, rfl⟩ := output_eq.mp found
    rw [throwIf_neg publishes, throwIf_neg (by simpa using external), outputDefinition_eq stored]
    dsimp only [bind, Except.bind]
    rw [throwIf_neg (not_not.mpr typed), throwIf_neg single]
    rfl

theorem bindIo_input {graph : CompiledSignalGraph R} {io : PlcExportedIo} {request : PlcIoBindingRequest}
    {outputTargets : List String} {bound : PlcIoBinding × List String}
    (asked : requests.find? (fun candidate => candidate.ioId = io.ioId) = some request)
    (isInput : io.direction = "input") :
    bindIo graph requests io outputTargets = .ok bound ↔
      ∃ slot, SignalCompiler.output graph request.signalBlockId = .ok slot ∧ slot.scalar = plcIoScalarType io.iecType ∧
        bound = (⟨io.ioId, io.name, io.direction, io.iecType, request.signalBlockId, some slot⟩, outputTargets) := by
  have notOutput : "input" ≠ "output" := by decide
  unfold bindIo
  simp only [asked, isInput, if_neg notOutput, if_true]
  constructor
  · intro run
    obtain ⟨source, found, run⟩ := bind_ok run
    obtain ⟨_, typed, run⟩ := bind_ok run
    obtain ⟨slot, output, made⟩ := bind_ok run
    obtain ⟨block, stored, isSource⟩ := bind_ok found
    obtain rfl := Except.ok.inj isSource
    obtain ⟨other, stored', rfl⟩ := output_eq.mp output
    obtain rfl : block = other := Option.some.inj ((orThrow_ok stored).symm.trans stored')
    exact ⟨block.output, output, not_not.mp (throwIf_ok typed), (Except.ok.inj made).symm⟩
  · rintro ⟨slot, found, typed, rfl⟩
    obtain ⟨block, stored, rfl⟩ := output_eq.mp found
    rw [outputDefinition_eq stored]
    dsimp only [bind, Except.bind]
    rw [throwIf_neg (not_not.mpr typed), found]
    rfl

/-- What one binding needs of the new graph, when the old graph gave it. -/
theorem bindIo_keeps {io : PlcExportedIo} {outputTargets : List String} {bound : PlcIoBinding × List String}
    (run : bindIo old requests io outputTargets = .ok bound) :
    bindIo new requests io outputTargets = .ok bound ↔
      ∀ request, requests.find? (fun candidate => candidate.ioId = io.ioId) = some request →
        KeepsTarget old new io request.signalBlockId := by
  cases asked : requests.find? (fun candidate => candidate.ioId = io.ioId) with
  | none =>
    refine iff_of_true ?_ nofun
    unfold bindIo at run ⊢
    rw [asked] at run ⊢
    exact run
  | some request =>
    simp only [Option.some.injEq, forall_eq']
    by_cases isOutput : io.direction = "output"
    · obtain ⟨publishes, _, _, single, same⟩ := (bindIo_output asked isOutput).mp run
      rw [bindIo_output asked isOutput]
      constructor
      · rintro ⟨_, external, typed, _, _⟩
        refine ⟨fun _ => ⟨external, typed⟩, fun isInput => ?_⟩
        rw [isOutput] at isInput
        exact absurd isInput (by decide)
      · intro keeps
        obtain ⟨external, typed⟩ := keeps.output isOutput
        exact ⟨publishes, external, typed, single, same⟩
    · by_cases isInput : io.direction = "input"
      · obtain ⟨slot, found, typed, same⟩ := (bindIo_input asked isInput).mp run
        rw [bindIo_input asked isInput]
        constructor
        · rintro ⟨slot', found', _, same'⟩
          obtain rfl : slot = slot' := by
            have bindings := congrArg (fun bound => bound.1.signal) (same.symm.trans same')
            exact Option.some.inj bindings
          exact ⟨fun isOutput' => absurd isOutput' isOutput, fun _ => found'.trans found.symm⟩
        · intro keeps
          exact ⟨slot, (keeps.input isInput).trans found, typed, same⟩
      · refine iff_of_true ?_ ⟨fun isOutput' => absurd isOutput' isOutput, fun isInput' => absurd isInput' isInput⟩
        unfold bindIo at run ⊢
        simp only [asked, if_neg isOutput, if_neg isInput] at run ⊢
        exact run

/-- Which blocks the outputs publish in does not depend on the graph. -/
theorem bindIo_targets {io : PlcExportedIo} {outputTargets : List String} {bound bound' : PlcIoBinding × List String}
    (run : bindIo old requests io outputTargets = .ok bound) (run' : bindIo new requests io outputTargets = .ok bound') :
    bound.2 = bound'.2 := by
  cases asked : requests.find? (fun candidate => candidate.ioId = io.ioId) with
  | none =>
    unfold bindIo at run run'
    rw [asked] at run run'
    cases run
    cases run'
    rfl
  | some request =>
    by_cases isOutput : io.direction = "output"
    · obtain ⟨_, _, _, _, same⟩ := (bindIo_output asked isOutput).mp run
      obtain ⟨_, _, _, _, same'⟩ := (bindIo_output asked isOutput).mp run'
      rw [same, same']
    · by_cases isInput : io.direction = "input"
      · obtain ⟨_, _, _, same⟩ := (bindIo_input asked isInput).mp run
        obtain ⟨_, _, _, same'⟩ := (bindIo_input asked isInput).mp run'
        rw [same, same']
      · unfold bindIo at run run'
        simp only [asked, if_neg isOutput, if_neg isInput] at run run'
        cases run
        cases run'
        rfl

/-- Every I/O with a request keeps its target. -/
def KeepsTargets (old new : CompiledSignalGraph R) (requests : List PlcIoBindingRequest) (ios : List PlcExportedIo) :
    Prop :=
  ∀ io ∈ ios, ∀ request, requests.find? (fun candidate => candidate.ioId = io.ioId) = some request →
    KeepsTarget old new io request.signalBlockId

theorem bindIos_keeps {ios : List PlcExportedIo} {outputTargets : List String} {bindings : List PlcIoBinding}
    (run : bindIos old requests ios outputTargets = .ok bindings) :
    bindIos new requests ios outputTargets = .ok bindings ↔ KeepsTargets old new requests ios := by
  induction ios generalizing outputTargets bindings with
  | nil => exact iff_of_true run nofun
  | cons io rest ih =>
    obtain ⟨bound, head, tailRun⟩ := bind_ok run
    obtain ⟨later, tail, made⟩ := bind_ok tailRun
    obtain rfl := Except.ok.inj made
    rw [KeepsTargets, List.forall_mem_cons, ← bindIo_keeps head]
    constructor
    · intro run'
      obtain ⟨bound', head', tailRun'⟩ := bind_ok run'
      obtain ⟨later', tail', made'⟩ := bind_ok tailRun'
      obtain ⟨first, others⟩ := List.cons.inj (Except.ok.inj made')
      obtain rfl : bound' = bound := Prod.ext first (bindIo_targets head head').symm
      rw [others] at tail'
      exact ⟨head', (ih tail).mp tail'⟩
    · rintro ⟨head', keeps⟩
      rw [bindIos, head']
      show (bindIos new requests rest bound.2 >>= fun bindings => pure (bound.1 :: bindings)) = _
      rw [(ih tail).mpr keeps]
      rfl

/-- Every I/O of the instance with a request keeps its target. -/
def PlcInstanceDescriptor.Keeps (old new : CompiledSignalGraph R) (descriptor : PlcInstanceDescriptor) : Prop :=
  ∀ artifact, descriptor.artifact = some artifact →
    KeepsTargets old new descriptor.ioBindingRequests artifact.exportedIo

theorem compileInstance_keeps {descriptor : PlcInstanceDescriptor} {instancePlan : PlcInstancePlan}
    (run : compileInstance old descriptor = .ok instancePlan) :
    compileInstance new descriptor = .ok instancePlan ↔ descriptor.Keeps old new := by
  obtain ⟨componentIndex, artifact, taskIntervalNs, requests⟩ := descriptor
  cases artifact with
  | none => exact iff_of_true run nofun
  | some artifact =>
    obtain ⟨bindings, bound, made⟩ := bind_ok run
    obtain rfl := Except.ok.inj made
    simp only [PlcInstanceDescriptor.Keeps, Option.some.injEq, forall_eq']
    rw [← bindIos_keeps bound]
    constructor
    · intro run'
      obtain ⟨bindings', bound', made'⟩ := bind_ok run'
      obtain rfl : bindings' = bindings := congrArg PlcInstancePlan.ioBindings (Except.ok.inj made')
      exact bound'
    · intro bound'
      simp only [compileInstance, bound']
      rfl

theorem checkInstance_iff {capacity : Nat} {plcComponents : List Nat} {descriptor : PlcInstanceDescriptor} :
    checkInstance capacity plcComponents descriptor = .ok () ↔
      descriptor.componentIndex < capacity ∧ descriptor.componentIndex ∈ plcComponents := by
  constructor
  · intro passes
    have fails := throwIf_ok passes
    rw [not_or, not_le, not_not] at fails
    exact fails
  · rintro ⟨inside, listed⟩
    refine throwIf_neg ?_
    rw [not_or, not_le, not_not]
    exact ⟨inside, listed⟩

theorem compileInstances_keeps {capacity capacity' : Nat} {components components' : List Nat}
    {descriptors : List PlcInstanceDescriptor} {seenComponents : List Nat} {instances : List PlcInstancePlan}
    (run : compileInstances capacity components old descriptors seenComponents = .ok instances) :
    compileInstances capacity' components' new descriptors seenComponents = .ok instances ↔
      (∀ descriptor ∈ descriptors,
        descriptor.componentIndex < capacity' ∧ descriptor.componentIndex ∈ components') ∧
      ∀ descriptor ∈ descriptors, descriptor.Keeps old new := by
  induction descriptors generalizing seenComponents instances with
  | nil => exact iff_of_true run ⟨nofun, nofun⟩
  | cons descriptor rest ih =>
    obtain ⟨_, _, run⟩ := bind_ok run
    obtain ⟨_, unseen, run⟩ := bind_ok run
    obtain ⟨instancePlan, head, run⟩ := bind_ok run
    obtain ⟨later, tail, made⟩ := bind_ok run
    obtain rfl := Except.ok.inj made
    rw [List.forall_mem_cons, List.forall_mem_cons, ← compileInstance_keeps head, ← checkInstance_iff]
    constructor
    · intro run'
      obtain ⟨_, known, run'⟩ := bind_ok run'
      obtain ⟨_, _, run'⟩ := bind_ok run'
      obtain ⟨instancePlan', head', run'⟩ := bind_ok run'
      obtain ⟨later', tail', made'⟩ := bind_ok run'
      obtain ⟨rfl, rfl⟩ := List.cons.inj (Except.ok.inj made')
      obtain ⟨inside, keeps⟩ := (ih tail).mp tail'
      exact ⟨⟨known, inside⟩, head', keeps⟩
    · rintro ⟨⟨known, inside⟩, head', keeps⟩
      rw [compileInstances, known]
      show (throwIf _ _ >>= fun _ => compileInstance new descriptor >>= fun instancePlan =>
        compileInstances capacity' components' new rest _ >>= fun instances => pure (instancePlan :: instances)) = _
      rw [unseen, head']
      show (compileInstances capacity' components' new rest _ >>= fun instances => pure (instancePlan :: instances)) = _
      rw [(ih tail).mpr ⟨inside, keeps⟩]
      rfl

end Bindings

/-! ### Compiling one domain for other inputs -/

section Domains

variable {old input : PlanCompileInput R}

theorem refresh_full {α : Type} (domain : PlanDomain) (part : SimulationPlan R → α) (build : Except Exception α) :
    input.full.refresh domain part build = build := by
  unfold PlanCompileInput.refresh
  split
  · rfl
  · exact if_pos (PlanInvalidation.mem_all domain)

theorem refresh_fresh {α : Type} {domain : PlanDomain} {part : SimulationPlan R → α} {build : Except Exception α}
    (invalidated : domain ∈ input.invalidation) : input.refresh domain part build = build := by
  unfold PlanCompileInput.refresh
  split
  · rfl
  · exact if_pos invalidated

theorem refresh_kept {α : Type} {domain : PlanDomain} {part : SimulationPlan R → α} {build : Except Exception α}
    {previous : SimulationPlan R} (isPrevious : input.previous = some previous) (valid : domain ∉ input.invalidation) :
    input.refresh domain part build = .ok (part previous) := by
  unfold PlanCompileInput.refresh
  rw [isPrevious]
  exact if_neg valid

theorem refresh_ok {α : Type} (input : PlanCompileInput R) (domain : PlanDomain) (part : SimulationPlan R → α)
    {build : Except Exception α} {built : α} (run : build = .ok built) :
    ∃ result, input.refresh domain part build = .ok result := by
  unfold PlanCompileInput.refresh
  split
  · exact ⟨built, run⟩
  · split
    · exact ⟨built, run⟩
    · exact ⟨_, rfl⟩

theorem compileElectrical_of (unchanged : PlanDomain.electrical.Unchanged old input) {plan : ElectricalPlan}
    (run : compileElectrical old = .ok plan) :
    compileElectrical input = .ok { plan with revision := input.electricalRevision } := by
  obtain ⟨topology, found, made⟩ := bind_ok run
  obtain rfl := Except.ok.inj made
  rw [compileElectrical, ← show old.electricalTopology = input.electricalTopology from unchanged, found]
  rfl

theorem compileExternal_of (unchanged : PlanDomain.external.Unchanged old input) :
    compileExternal input = { compileExternal old with revision := input.authoringRevision } := by
  rw [compileExternal, ← unchanged.1, ← unchanged.2]
  rfl

theorem compilePython_of (unchanged : PlanDomain.python.Unchanged old input) {plan : PythonPlan}
    (run : compilePython old = .ok plan) :
    compilePython input = .ok { plan with revision := input.authoringRevision } := by
  obtain ⟨ids, checked, made⟩ := bind_ok run
  obtain rfl := Except.ok.inj made
  rw [compilePython, ← show old.pythonBlocks = input.pythonBlocks from unchanged, checked]
  rfl

theorem compilePlc_eq {engine : CompiledSignalGraph R} {plan : PlcPlan} : compilePlc input engine = .ok plan ↔
    ∃ instances, compileInstances input.componentCapacity input.execution.plcComponents engine input.plcInstances [] =
      .ok instances ∧ plan = ⟨input.authoringRevision, instances⟩ := by
  constructor
  · intro run
    obtain ⟨instances, compiled, made⟩ := bind_ok run
    exact ⟨instances, compiled, (Except.ok.inj made).symm⟩
  · rintro ⟨instances, compiled, rfl⟩
    rw [compilePlc, compiled]
    rfl

/-- The PLC domain compiles to the same instances exactly when they are still on PLC components and their
bindings keep their targets. -/
theorem compilePlc_of (unchanged : PlanDomain.plc.Unchanged old input) {before after : CompiledSignalGraph R}
    {plan : PlcPlan} (run : compilePlc old before = .ok plan) :
    compilePlc input after = .ok { plan with revision := input.authoringRevision } ↔
      (∀ descriptor ∈ input.plcInstances, descriptor.componentIndex < input.componentCapacity ∧
        descriptor.componentIndex ∈ input.execution.plcComponents) ∧
      ∀ descriptor ∈ input.plcInstances, descriptor.Keeps before after := by
  obtain ⟨instances, compiled, rfl⟩ := compilePlc_eq.mp run
  have same : old.plcInstances = input.plcInstances := unchanged
  rw [same] at compiled
  rw [← compileInstances_keeps compiled, compilePlc_eq]
  constructor
  · rintro ⟨instances', compiled', equal⟩
    obtain rfl : instances = instances' := congrArg PlcPlan.instances equal
    exact compiled'
  · intro compiled'
    exact ⟨instances, compiled', rfl⟩

theorem checkBridge_iff {capacity : Nat} {active : List Nat} {bridge : ElectricalSignalBridgeDefinition} :
    checkBridge capacity active bridge = .ok () ↔ bridge.componentIndex < capacity ∧ bridge.componentIndex ∈ active := by
  constructor
  · intro passes
    have fails := throwIf_ok passes
    rw [not_or, not_le, not_not] at fails
    exact fails
  · rintro ⟨inside, listed⟩
    refine throwIf_neg ?_
    rw [not_or, not_le, not_not]
    exact ⟨inside, listed⟩

variable [Double R] {tools : Tools R}

theorem compileSignal_eq {plan : SignalPlan R} : compileSignal tools input = .ok plan ↔
    (∀ bridge ∈ input.electricalSignalBridges, bridge.componentIndex < input.componentCapacity ∧
      bridge.componentIndex ∈ input.execution.activeComponents) ∧
    ∃ engine loop, Signal.compile tools (input.signalGraph.getD ⟨[], [], 64, 1024⟩) = .ok engine ∧
      input.electricalSignalBridges.foldlM (bindBridge engine) {} = .ok loop ∧
      plan = ⟨input.authoringRevision, input.execution.signalSubscribers, input.resolvedSignalSubscribers, engine,
        loop.electricalBridges⟩ := by
  simp only [← checkBridge_iff]
  constructor
  · intro run
    obtain ⟨engine, compiled, run⟩ := bind_ok run
    obtain ⟨loop, bound, made⟩ := bind_ok run
    obtain ⟨checks, bound⟩ := foldlM_guarded.mp bound
    exact ⟨checks, engine, loop, compiled, bound, (Except.ok.inj made).symm⟩
  · rintro ⟨checks, engine, loop, compiled, bound, rfl⟩
    have guarded := foldlM_guarded.mpr ⟨checks, bound⟩
    rw [compileSignal, compiled]
    exact congrArg (fun run : Except Exception BridgeLoop => run >>= fun loop => pure
      (SignalPlan.mk input.authoringRevision input.execution.signalSubscribers input.resolvedSignalSubscribers engine
        loop.electricalBridges)) guarded

/-- The signal domain compiles again exactly when its bridges are still on active components. -/
theorem compileSignal_of (unchanged : PlanDomain.signal.Unchanged old input) {plan plan' : SignalPlan R}
    (run : compileSignal tools old = .ok plan) :
    compileSignal tools input = .ok plan' ↔
      (∀ bridge ∈ input.electricalSignalBridges, bridge.componentIndex < input.componentCapacity ∧
        bridge.componentIndex ∈ input.execution.activeComponents) ∧
      plan' = { plan with revision := input.authoringRevision } := by
  obtain ⟨_, engine, loop, compiled, bound, rfl⟩ := compileSignal_eq.mp run
  obtain ⟨subscribers, resolved, graph, bridges⟩ := unchanged
  rw [compileSignal_eq, ← graph]
  refine and_congr_right fun _ => ?_
  constructor
  · rintro ⟨engine', loop', compiled', bound', rfl⟩
    obtain rfl := Except.ok.inj (compiled.symm.trans compiled')
    rw [← bridges, bound] at bound'
    obtain rfl := Except.ok.inj bound'
    rw [← subscribers, ← resolved]
  · rintro rfl
    exact ⟨engine, loop, compiled, by rw [← bridges]; exact bound, by rw [← subscribers, ← resolved]⟩

end Domains

/-! ### The whole plan -/

section Compile

variable [Double R] {doubleBytes : R → List UInt8} {tools : Tools R} {old input : PlanCompileInput R}

/-- What `compile` establishes, domain by domain. -/
structure Compiled (doubleBytes : R → List UInt8) (tools : Tools R) (input : PlanCompileInput R)
    (next : SimulationPlan R) : Prop where
  valid : validateExecution input.execution input.componentCapacity = .ok ()
  execution : input.refresh .executionIndex (·.execution) (.ok input.execution) = .ok next.execution
  electrical : input.refresh .electrical (·.electrical) (compileElectrical input) = .ok next.electrical
  signal : input.refresh .signal (·.signal) (compileSignal tools input) = .ok next.signal
  externalBindings :
    input.refresh .external (·.externalBindings) (.ok (compileExternal input)) = .ok next.externalBindings
  plc : input.refresh .plc (·.plc) (compilePlc input next.signal.engine) = .ok next.plc
  python : input.refresh .python (·.python) (compilePython input) = .ok next.python
  generation : next.generation = input.previous.elim 1 fun previous => previous.generation + 1
  authoringRevision : next.authoringRevision = input.authoringRevision
  hash : next.normalizedAuthoringHash = structuralHash doubleBytes input

theorem compile_iff {next : SimulationPlan R} :
    compile doubleBytes tools input = .ok next ↔ Compiled doubleBytes tools input next := by
  constructor
  · intro run
    obtain ⟨_, valid, run⟩ := bind_ok run
    obtain ⟨execution, hExecution, run⟩ := bind_ok run
    obtain ⟨electrical, hElectrical, run⟩ := bind_ok run
    obtain ⟨signal, hSignal, run⟩ := bind_ok run
    obtain ⟨externalBindings, hExternal, run⟩ := bind_ok run
    obtain ⟨plc, hPlc, run⟩ := bind_ok run
    obtain ⟨python, hPython, made⟩ := bind_ok run
    obtain rfl := Except.ok.inj made
    exact ⟨valid, hExecution, hElectrical, hSignal, hExternal, hPlc, hPython, rfl, rfl, rfl⟩
  · intro compiled
    obtain ⟨generation, revision, hash, execution, electrical, signal, external, plc, python⟩ := next
    obtain rfl := compiled.generation
    obtain rfl := compiled.authoringRevision
    obtain rfl := compiled.hash
    simp only [compile, compiled.valid, compiled.execution, compiled.electrical, compiled.signal,
      compiled.externalBindings, compiled.plc, compiled.python, bind, Except.bind]
    rfl

/-- The previous plan is what all of `old` compiles to. -/
def Reflects (doubleBytes : R → List UInt8) (tools : Tools R) (old : PlanCompileInput R)
    (previous : SimulationPlan R) : Prop :=
  ∃ plan, compile doubleBytes tools old.full = .ok plan ∧ previous.unstamped = plan.unstamped

/-- The sub-plans taken over from the previous plan fit the sub-plans compiled now. -/
structure Fits (tools : Tools R) (previous : SimulationPlan R) (input : PlanCompileInput R) : Prop where
  bridges : PlanDomain.signal ∉ input.invalidation → ∀ bridge ∈ input.electricalSignalBridges,
    bridge.componentIndex < input.componentCapacity ∧ bridge.componentIndex ∈ input.execution.activeComponents
  instances : PlanDomain.plc ∉ input.invalidation → ∀ descriptor ∈ input.plcInstances,
    descriptor.componentIndex < input.componentCapacity ∧ descriptor.componentIndex ∈ input.execution.plcComponents
  targets : PlanDomain.plc ∉ input.invalidation → PlanDomain.signal ∈ input.invalidation → ∀ engine,
    Signal.compile tools (input.signalGraph.getD ⟨[], [], 64, 1024⟩) = .ok engine →
      ∀ descriptor ∈ input.plcInstances, descriptor.Keeps previous.signal.engine engine

variable {previous next : SimulationPlan R}

/-- What a plan that `old` compiles to says of the domains of `old`. -/
structure Parts (tools : Tools R) (old : PlanCompileInput R) (plan : SimulationPlan R) : Prop where
  execution : plan.execution = old.execution
  electrical : compileElectrical old = .ok plan.electrical
  signal : compileSignal tools old = .ok plan.signal
  externalBindings : plan.externalBindings = compileExternal old
  plc : compilePlc old plan.signal.engine = .ok plan.plc
  python : compilePython old = .ok plan.python

theorem compile_full {plan : SimulationPlan R} (compiled : compile doubleBytes tools old.full = .ok plan) :
    Parts tools old plan := by
  obtain ⟨_, execution, electrical, signal, external, plc, python, _⟩ := compile_iff.mp compiled
  rw [refresh_full] at execution electrical signal external plc python
  exact ⟨(Except.ok.inj execution).symm, electrical, signal, (Except.ok.inj external).symm, plc, python⟩

theorem full_compile {plan : SimulationPlan R} (parts : Parts tools old plan)
    (valid : validateExecution old.execution old.componentCapacity = .ok ())
    (generation : plan.generation = old.previous.elim 1 fun previous => previous.generation + 1)
    (authoringRevision : plan.authoringRevision = old.authoringRevision)
    (hash : plan.normalizedAuthoringHash = structuralHash doubleBytes old) :
    compile doubleBytes tools old.full = .ok plan := by
  refine compile_iff.mpr ⟨valid, ?_, ?_, ?_, ?_, ?_, ?_, generation, authoringRevision, hash⟩ <;> rw [refresh_full]
  · exact congrArg Except.ok parts.execution.symm
  · exact parts.electrical
  · exact parts.signal
  · exact congrArg Except.ok parts.externalBindings.symm
  · exact parts.plc
  · exact parts.python

section Taken

variable {plan : SimulationPlan R} (isPrevious : input.previous = some previous) (covers : Covers old input)
  (parts : Parts tools old plan) (same : previous.unstamped = plan.unstamped)
  (compiled : Compiled doubleBytes tools input next)

include isPrevious covers parts same compiled

theorem next_execution : next.execution = input.execution := by
  by_cases invalidated : PlanDomain.executionIndex ∈ input.invalidation
  · have run := compiled.execution
    rw [refresh_fresh invalidated] at run
    exact (Except.ok.inj run).symm
  · have run := compiled.execution
    rw [refresh_kept isPrevious invalidated] at run
    have unchanged : old.execution = input.execution := covers _ invalidated
    have taken := congrArg SimulationPlan.execution same
    exact (Except.ok.inj run).symm.trans (taken.trans (parts.execution.trans unchanged))

theorem next_electrical : ∃ electrical, compileElectrical input = .ok electrical ∧
    next.electrical.unstamped = electrical.unstamped := by
  by_cases invalidated : PlanDomain.electrical ∈ input.invalidation
  · have run := compiled.electrical
    rw [refresh_fresh invalidated] at run
    exact ⟨_, run, rfl⟩
  · have run := compiled.electrical
    rw [refresh_kept isPrevious invalidated] at run
    refine ⟨_, compileElectrical_of (covers _ invalidated) parts.electrical, ?_⟩
    rw [← Except.ok.inj run]
    exact congrArg SimulationPlan.electrical same

theorem next_external :
    next.externalBindings.unstamped = (compileExternal input).unstamped := by
  by_cases invalidated : PlanDomain.external ∈ input.invalidation
  · have run := compiled.externalBindings
    rw [refresh_fresh invalidated] at run
    rw [← Except.ok.inj run]
  · have run := compiled.externalBindings
    rw [refresh_kept isPrevious invalidated] at run
    rw [← Except.ok.inj run, compileExternal_of (covers _ invalidated), ← parts.externalBindings]
    exact congrArg SimulationPlan.externalBindings same

theorem next_python : ∃ python, compilePython input = .ok python ∧
    next.python.unstamped = python.unstamped := by
  by_cases invalidated : PlanDomain.python ∈ input.invalidation
  · have run := compiled.python
    rw [refresh_fresh invalidated] at run
    exact ⟨_, run, rfl⟩
  · have run := compiled.python
    rw [refresh_kept isPrevious invalidated] at run
    refine ⟨_, compilePython_of (covers _ invalidated) parts.python, ?_⟩
    rw [← Except.ok.inj run]
    exact congrArg SimulationPlan.python same

theorem next_signal_iff : (∃ signal, compileSignal tools input = .ok signal ∧
      next.signal.unstamped = signal.unstamped) ↔
    (PlanDomain.signal ∉ input.invalidation → ∀ bridge ∈ input.electricalSignalBridges,
      bridge.componentIndex < input.componentCapacity ∧ bridge.componentIndex ∈ input.execution.activeComponents) := by
  by_cases invalidated : PlanDomain.signal ∈ input.invalidation
  · have run := compiled.signal
    rw [refresh_fresh invalidated] at run
    exact iff_of_true ⟨_, run, rfl⟩ fun valid => absurd invalidated valid
  · have run := compiled.signal
    rw [refresh_kept isPrevious invalidated] at run
    simp only [invalidated, not_false_eq_true, true_imp_iff]
    constructor
    · rintro ⟨signal, again, _⟩
      exact ((compileSignal_of (covers _ invalidated) parts.signal).mp again).1
    · intro bridges
      refine ⟨_, (compileSignal_of (covers _ invalidated) parts.signal).mpr ⟨bridges, rfl⟩, ?_⟩
      rw [← Except.ok.inj run]
      exact congrArg SimulationPlan.signal same

theorem next_plc_iff {signal : SignalPlan R} (again : compileSignal tools input = .ok signal)
    (equal : next.signal.unstamped = signal.unstamped) :
    (∃ plc, compilePlc input signal.engine = .ok plc ∧ next.plc.unstamped = plc.unstamped) ↔
      (PlanDomain.plc ∉ input.invalidation → ∀ descriptor ∈ input.plcInstances,
        descriptor.componentIndex < input.componentCapacity ∧
          descriptor.componentIndex ∈ input.execution.plcComponents) ∧
      (PlanDomain.plc ∉ input.invalidation → PlanDomain.signal ∈ input.invalidation → ∀ engine,
        Signal.compile tools (input.signalGraph.getD ⟨[], [], 64, 1024⟩) = .ok engine →
          ∀ descriptor ∈ input.plcInstances, descriptor.Keeps previous.signal.engine engine) := by
  have engines : next.signal.engine = signal.engine := (congrArg SignalPlan.engine equal :)
  have engineThen : previous.signal.engine = plan.signal.engine :=
    (congrArg (fun plan => plan.signal.engine) same :)
  have run := compiled.plc
  by_cases invalidated : PlanDomain.plc ∈ input.invalidation
  · rw [refresh_fresh invalidated, engines] at run
    exact iff_of_true ⟨_, run, rfl⟩ ⟨fun valid => absurd invalidated valid, fun valid => absurd invalidated valid⟩
  · rw [refresh_kept isPrevious invalidated] at run
    have unchanged : PlanDomain.plc.Unchanged old input := covers _ invalidated
    have taken : next.plc.unstamped = plan.plc.unstamped := by
      rw [← Except.ok.inj run]
      exact congrArg SimulationPlan.plc same
    have recompiled : (∃ plc, compilePlc input signal.engine = .ok plc ∧
        next.plc.unstamped = plc.unstamped) ↔
        compilePlc input signal.engine = .ok { plan.plc with revision := input.authoringRevision } := by
      constructor
      · rintro ⟨plc, compiledPlc, samePlc⟩
        obtain ⟨instances, _, rfl⟩ := compilePlc_eq.mp compiledPlc
        obtain rfl : plan.plc.instances = instances := (congrArg PlcPlan.instances (taken.symm.trans samePlc) :)
        exact compiledPlc
      · intro compiledPlc
        exact ⟨_, compiledPlc, taken⟩
    rw [recompiled, compilePlc_of unchanged parts.plc]
    simp only [invalidated, not_false_eq_true, true_imp_iff]
    refine and_congr_right fun _ => ?_
    rw [engineThen]
    obtain ⟨_, engine, _, compiledEngine, _, rfl⟩ := compileSignal_eq.mp again
    by_cases fresh : PlanDomain.signal ∈ input.invalidation
    · simp only [fresh, true_imp_iff]
      constructor
      · intro keeps other compiledOther
        rw [← Except.ok.inj (compiledEngine.symm.trans compiledOther)]
        exact keeps
      · intro targets
        exact targets engine compiledEngine
    · refine iff_of_true ?_ fun invalidated => absurd invalidated fresh
      have kept := compiled.signal
      rw [refresh_kept isPrevious fresh] at kept
      have unmoved : plan.signal.engine = engine :=
        engineThen.symm.trans ((congrArg SignalPlan.engine (Except.ok.inj kept)).trans engines)
      obtain ⟨instances, compiledInstances, _⟩ := compilePlc_eq.mp parts.plc
      have keeps := ((compileInstances_keeps compiledInstances).mp compiledInstances).2
      rw [← show old.plcInstances = input.plcInstances from unchanged]
      exact unmoved ▸ keeps

theorem next_eq_full_iff : (∃ full, compile doubleBytes tools input.full = .ok full ∧ next.unstamped = full.unstamped) ↔
    Fits tools previous input := by
  have signalIff := next_signal_iff isPrevious covers parts same compiled
  constructor
  · rintro ⟨full, compiledFull, equal⟩
    have fullParts := compile_full compiledFull
    have equalSignal : next.signal.unstamped = full.signal.unstamped := congrArg SimulationPlan.signal equal
    have plcIff := next_plc_iff isPrevious covers parts same compiled fullParts.signal equalSignal
    obtain ⟨instances, targets⟩ := plcIff.mp ⟨full.plc, fullParts.plc, congrArg SimulationPlan.plc equal⟩
    exact ⟨signalIff.mp ⟨full.signal, fullParts.signal, equalSignal⟩, instances, targets⟩
  · intro fits
    obtain ⟨signal, compiledSignal, equalSignal⟩ := signalIff.mpr fits.bridges
    obtain ⟨plc, compiledPlc, equalPlc⟩ :=
      (next_plc_iff isPrevious covers parts same compiled compiledSignal equalSignal).mpr ⟨fits.instances, fits.targets⟩
    obtain ⟨electrical, compiledElectrical, equalElectrical⟩ := next_electrical isPrevious covers parts same compiled
    obtain ⟨python, compiledPython, equalPython⟩ := next_python isPrevious covers parts same compiled
    have equalExternal := next_external isPrevious covers parts same compiled
    have executions := next_execution isPrevious covers parts same compiled
    refine ⟨{ next with electrical, signal, externalBindings := compileExternal input, plc, python },
      full_compile ⟨executions, compiledElectrical, compiledSignal, rfl,
        compiledPlc, compiledPython⟩ compiled.valid compiled.generation compiled.authoringRevision compiled.hash, ?_⟩
    simp only [SimulationPlan.unstamped, equalElectrical, equalSignal, equalExternal, equalPlc, equalPython]

end Taken

/-- Where the whole of the input compiles, the invalidated part of it does. -/
theorem compile_of_full {plan full : SimulationPlan R} (isPrevious : input.previous = some previous)
    (covers : Covers old input) (parts : Parts tools old plan) (same : previous.unstamped = plan.unstamped)
    (compiledFull : compile doubleBytes tools input.full = .ok full) :
    ∃ next, compile doubleBytes tools input = .ok next := by
  have whole := compile_full compiledFull
  have valid : validateExecution input.execution input.componentCapacity = .ok () := (compile_iff.mp compiledFull).valid
  obtain ⟨execution, hExecution⟩ := refresh_ok input .executionIndex (·.execution)
    (show (Except.ok input.execution : Except Exception _) = .ok _ from rfl)
  obtain ⟨electrical, hElectrical⟩ := refresh_ok input .electrical (·.electrical) whole.electrical
  obtain ⟨signal, hSignal⟩ := refresh_ok input .signal (·.signal) whole.signal
  obtain ⟨externalBindings, hExternal⟩ :=
    refresh_ok input .external (·.externalBindings) (show Except.ok (compileExternal input) = .ok _ from rfl)
  obtain ⟨python, hPython⟩ := refresh_ok input .python (·.python) whole.python
  have engines : signal.engine = full.signal.engine := by
    by_cases fresh : PlanDomain.signal ∈ input.invalidation
    · rw [refresh_fresh fresh, whole.signal] at hSignal
      rw [Except.ok.inj hSignal]
    · rw [refresh_kept isPrevious fresh] at hSignal
      have again := ((compileSignal_of (covers _ fresh) parts.signal).mp whole.signal).2
      rw [again, ← Except.ok.inj hSignal]
      exact (congrArg (fun plan => plan.signal.engine) same :)
  obtain ⟨plc, hPlc⟩ := refresh_ok input .plc (·.plc) (engines ▸ whole.plc)
  exact ⟨⟨_, _, _, execution, electrical, signal, externalBindings, plc, python⟩, compile_iff.mpr
    ⟨valid, hExecution, hElectrical, hSignal, hExternal, hPlc, hPython, rfl, rfl, rfl⟩⟩

/-- A plan in which domains were taken over is the plan of a full compilation exactly when the domains taken over
fit those compiled now; and where it fails, the full compilation fails. -/
theorem incremental_eq_full_iff (doubleBytes : R → List UInt8) (tools : Tools R) (old input : PlanCompileInput R)
    (previous : SimulationPlan R) (isPrevious : input.previous = some previous)
    (reflects : Reflects doubleBytes tools old previous) (covers : Covers old input) :
    (∀ exception, compile doubleBytes tools input = .error exception →
        ∃ exception, compile doubleBytes tools input.full = .error exception) ∧
      ∀ next, compile doubleBytes tools input = .ok next →
        ((∃ full, compile doubleBytes tools input.full = .ok full ∧ next.unstamped = full.unstamped) ↔
          Fits tools previous input) := by
  obtain ⟨plan, compiledPlan, same⟩ := reflects
  have parts := compile_full compiledPlan
  refine ⟨fun exception failed => ?_, fun next compiled =>
    next_eq_full_iff isPrevious covers parts same (compile_iff.mp compiled)⟩
  cases compiledFull : compile doubleBytes tools input.full with
  | error exception => exact ⟨exception, rfl⟩
  | ok full =>
    obtain ⟨next, compiled⟩ := compile_of_full isPrevious covers parts same compiledFull
    rw [compiled] at failed
    cases failed

/-- One compilation after another: from the plan of the one before, with every changed domain invalidated and what is
taken over fitting. -/
def Recompiles (doubleBytes : R → List UInt8) (tools : Tools R) (before after : PlanCompileInput R × SimulationPlan R) :
    Prop :=
  after.1.previous = some before.2 ∧ Covers before.1 after.1 ∧ Fits tools before.2 after.1 ∧
    compile doubleBytes tools after.1 = .ok after.2

/-- After any number of incremental compilations the plan is still the plan of a full one. -/
theorem recompiled_reflects (doubleBytes : R → List UInt8) (tools : Tools R)
    (first last : PlanCompileInput R × SimulationPlan R) (reflects : Reflects doubleBytes tools first.1 first.2)
    (run : Relation.ReflTransGen (Recompiles doubleBytes tools) first last) :
    Reflects doubleBytes tools last.1 last.2 := by
  induction run with
  | refl => exact reflects
  | tail _ step ih =>
    obtain ⟨isPrevious, covers, fits, compiled⟩ := step
    obtain ⟨plan, compiledPlan, same⟩ := ih
    exact (next_eq_full_iff isPrevious covers (compile_full compiledPlan) same (compile_iff.mp compiled)).mpr fits

end Compile

def noBytes : Float → List UInt8 := fun _ => []

def inputNamed (id : String) : SignalBlockDefinition Float := { id, kind := .externalInput, tolerance := 0.0, realParameters := [0.0] }

/-- A PLC whose one input reads the block `x`. -/
def readingPlc : PlanCompileInput Float where
  componentCapacity := 1
  electricalTopology := some ⟨[], [], [], [], [], [], []⟩
  execution := { activeComponents := [0], plcComponents := [0] }
  signalGraph := some ⟨[inputNamed "x"], [], 64, 1024⟩
  plcInstances := [{
    artifact := some ⟨[⟨"IN", "IN", "input", "REAL"⟩]⟩
    ioBindingRequests := [⟨"IN", "x"⟩] }]

/-- The same PLC after another block was put before `x`, which invalidates the signal domain alone. -/
def readingPlcRenumbered (previous : SimulationPlan Float) : PlanCompileInput Float :=
  { readingPlc with
    signalGraph := some ⟨[inputNamed "w", inputNamed "x"], [], 64, 1024⟩
    invalidation := {.signal}
    previous := some previous }

def SimulationPlan.plcSlots (plan : SimulationPlan Float) : List (Option SignalSlotHandle) :=
  plan.plc.instances.flatMap fun instancePlan => instancePlan.ioBindings.map (·.signal)

def renumberedSlots : Except Exception (List (Option SignalSlotHandle) × List (Option SignalSlotHandle)) := do
  let previous ← compile noBytes noKernels readingPlc
  let next ← compile noBytes noKernels (readingPlcRenumbered previous)
  let full ← compile noBytes noKernels (readingPlcRenumbered previous).full
  return (next.plcSlots, full.plcSlots)

theorem renumberedSlots_eq : renumberedSlots = .ok ([some ⟨.real, 0, 1⟩], [some ⟨.real, 1, 1⟩]) := by
  decide +kernel

theorem readingPlc_covers (previous : SimulationPlan Float) : Covers readingPlc (readingPlcRenumbered previous) := by
  intro domain valid
  cases domain with
  | signal => exact absurd (Finset.mem_singleton_self _) valid
  | external => exact ⟨rfl, rfl⟩
  | _ => rfl

/-- The PLC goes on reading the slot that `x` had, which is now the slot of `w`. -/
theorem plc_reads_stale_slot : ∃ previous next full, compile noBytes noKernels readingPlc = .ok previous ∧
    Covers readingPlc (readingPlcRenumbered previous) ∧
    compile noBytes noKernels (readingPlcRenumbered previous) = .ok next ∧
    compile noBytes noKernels (readingPlcRenumbered previous).full = .ok full ∧
    next.plcSlots = [some ⟨.real, 0, 1⟩] ∧ full.plcSlots = [some ⟨.real, 1, 1⟩] := by
  obtain ⟨previous, compiledPrevious, run⟩ := bind_ok renumberedSlots_eq
  obtain ⟨next, compiledNext, run⟩ := bind_ok run
  obtain ⟨full, compiledFull, slots⟩ := bind_ok run
  obtain ⟨nextSlots, fullSlots⟩ := Prod.mk.inj (Except.ok.inj slots)
  exact ⟨previous, next, full, compiledPrevious, readingPlc_covers previous, compiledNext, compiledFull, nextSlots,
    fullSlots⟩

theorem incremental_eq_full_iff_readingPlc : ∃ previous next, compile noBytes noKernels readingPlc = .ok previous ∧
    compile noBytes noKernels (readingPlcRenumbered previous) = .ok next ∧
    ((∃ full, compile noBytes noKernels (readingPlcRenumbered previous).full = .ok full ∧
      next.unstamped = full.unstamped) ↔ Fits noKernels previous (readingPlcRenumbered previous)) := by
  obtain ⟨previous, compiledPrevious, run⟩ := bind_ok renumberedSlots_eq
  obtain ⟨next, compiledNext, _⟩ := bind_ok run
  exact ⟨previous, next, compiledPrevious, compiledNext,
    (incremental_eq_full_iff noBytes noKernels readingPlc (readingPlcRenumbered previous) previous rfl
      ⟨previous, compiledPrevious, rfl⟩ (readingPlc_covers previous)).2 next compiledNext⟩

/-- The same PLC again, with nothing invalidated. -/
def readingPlcAgain (previous : SimulationPlan Float) : PlanCompileInput Float :=
  { readingPlc with authoringRevision := 1, invalidation := ∅, previous := some previous }

theorem readingPlcAgain_recompiles {previous : SimulationPlan Float}
    (compiled : compile noBytes noKernels readingPlc = .ok previous) :
    ∃ next, Recompiles noBytes noKernels (readingPlc, previous) (readingPlcAgain previous, next) := by
  refine ⟨{ previous with
      generation := previous.generation + 1
      authoringRevision := 1
      normalizedAuthoringHash := structuralHash noBytes (readingPlcAgain previous) }, rfl, ?_, ?_, ?_⟩
  · intro domain _
    cases domain with
    | signal => exact ⟨rfl, rfl, rfl, rfl⟩
    | external => exact ⟨rfl, rfl⟩
    | _ => rfl
  · refine ⟨fun _ _ member => absurd member List.not_mem_nil, fun _ descriptor member => ?_,
      fun _ invalidated => absurd invalidated (Finset.notMem_empty _)⟩
    obtain rfl := List.mem_singleton.mp member
    exact ⟨Nat.one_pos, List.mem_singleton_self _⟩
  · have kept {T : Type} (domain : PlanDomain) (part : SimulationPlan Float → T) (build : Except Exception T) :
        (readingPlcAgain previous).refresh domain part build = .ok (part previous) :=
      refresh_kept rfl (Finset.notMem_empty domain)
    exact compile_iff.mpr ⟨(compile_iff.mp compiled).valid, kept .executionIndex _ _, kept .electrical _ _, kept .signal _ _,
      kept .external _ _, kept .plc _ _, kept .python _ _, rfl, rfl, rfl⟩

theorem recompiled_reflects_readingPlc : ∃ previous next, compile noBytes noKernels readingPlc = .ok previous ∧
    Recompiles noBytes noKernels (readingPlc, previous) (readingPlcAgain previous, next) ∧
    Reflects noBytes noKernels (readingPlcAgain previous) next := by
  obtain ⟨previous, compiled, _⟩ := bind_ok renumberedSlots_eq
  obtain ⟨next, step⟩ := readingPlcAgain_recompiles compiled
  exact ⟨previous, next, compiled, step, recompiled_reflects noBytes noKernels (readingPlc, previous)
    (readingPlcAgain previous, next) ⟨previous, compiled, rfl⟩ (.single step)⟩

end LasecSimul.Plan
