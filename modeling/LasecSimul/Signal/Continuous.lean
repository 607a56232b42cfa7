import LasecSimul.Signal.Execution

/-!
# The continuous step

`beginContinuousStep` computes candidates for the states and outputs, `commitContinuousStep` takes them and
`rollbackContinuousStep` drops them. The error estimate and the metrics are left out.
-/

namespace LasecSimul.Signal

open Double Function

variable {R : Type} [Double R]

/-! ### Blocks with continuous state -/

/-- The value of the delay line at `query`. -/
def DelayBuffer.lookup (buffer : DelayBuffer R) (query element : Nat) (initial : R) : R :=
  let slot (position : Nat) := (buffer.head + position) % buffer.capacity
  ((List.range buffer.count).takeWhile fun position => buffer.times (slot position) ≤ query).foldl
    (fun _ position => buffer.values (slot position * buffer.width + element)) initial

def delayedInput (values : SignalValues R) (block : CompiledBlock R) (timeNs element : Nat) : R :=
  let initial := if block.kind = .fopdt then block.real 3 else block.real 1
  if timeNs < block.delayNs then initial
  else (values.delayBuffers (block.delayIndex.getD 0)).lookup (timeNs - block.delayNs) element initial

def rk4Scalar (state dt : R) (derivative : R → R) : R :=
  let k1 := derivative state
  let k2 := derivative (state + 0.5 * dt * k1)
  let k3 := derivative (state + 0.5 * dt * k2)
  let k4 := derivative (state + dt * k3)
  state + dt * (k1 + 2.0 * k2 + 2.0 * k3 + k4) / 6.0

structure SecondOrderState (R : Type) where
  position : R
  velocity : R

def rk4SecondOrder (state : SecondOrderState R) (dt input gain omega damping : R) : SecondOrderState R :=
  let derivative (value : SecondOrderState R) : SecondOrderState R :=
    ⟨value.velocity, gain * omega * omega * input - 2.0 * damping * omega * value.velocity -
      omega * omega * value.position⟩
  let add (a b : SecondOrderState R) (scale : R) : SecondOrderState R :=
    ⟨a.position + scale * b.position, a.velocity + scale * b.velocity⟩
  let k1 := derivative state
  let k2 := derivative (add state k1 (0.5 * dt))
  let k3 := derivative (add state k2 (0.5 * dt))
  let k4 := derivative (add state k3 dt)
  ⟨state.position + dt * (k1.position + 2.0 * k2.position + 2.0 * k3.position + k4.position) / 6.0,
    state.velocity + dt * (k1.velocity + 2.0 * k2.velocity + 2.0 * k3.velocity + k4.velocity) / 6.0⟩

/-- One step of a state space: its slopes, the last intermediate state, and the result, by row. -/
structure StateSpaceStep (R : Type) extends Slopes R where
  result : Nat → R

def rk4StateSpace (block : CompiledBlock R) (input : R) (initial : Nat → R) (step : R) : StateSpaceStep R :=
  let n := stateOrder block
  let slope (state : Nat → R) (row : Nat) := (List.range n).foldl
    (fun slope column => slope + block.real (row * n + column) * state column) (block.real (n * n + row) * input)
  let k1 := slope initial
  let k2 := slope fun row => initial row + 0.5 * step * k1 row
  let k3 := slope fun row => initial row + 0.5 * step * k2 row
  let temporary row := initial row + step * k3 row
  let k4 := slope temporary
  { k1, k2, k3, k4, temporary
    result := fun row => initial row + step * (k1 row + 2.0 * k2 row + 2.0 * k3 row + k4 row) / 6.0 }

/-- The full step, the two half steps and the output of one element. -/
structure ElementStep (R : Type) where
  full : R
  half : R
  output : R

/-- Both step sizes of a first-order equation. -/
def stepScalar (state dt : R) (derivative : R → R) (output : R → R) : ElementStep R :=
  let half := rk4Scalar (rk4Scalar state (dt * 0.5) derivative) (dt * 0.5) derivative
  ⟨rk4Scalar state dt derivative, half, output half⟩

def stepElement (values : SignalValues R) (block : CompiledBlock R) (previousNs currentNs : Nat) (dt : R)
    (element : Nat) : ElementStep R :=
  let state := values.dynamicState (block.stateIndex element)
  let rawInput := readReal values.reals (block.input 0) element
  let input := if usesDelay block.kind then delayedInput values block previousNs element else rawInput
  match block.kind with
  | .integrator =>
    let derivative := block.real 0 * input
    let half := state + 0.5 * dt * derivative + 0.5 * dt * derivative
    ⟨state + dt * derivative, half, half⟩
  | .filteredDerivative =>
    let tau := block.real 1
    stepScalar state dt (fun value => (input - value) / tau) fun half => block.real 0 * (rawInput - half) / tau
  | .firstOrder | .fopdt =>
    stepScalar state dt (fun value => (block.real 0 * input - value) / block.real 1) id
  | .leadLag =>
    let lag := block.real 2
    let ratio := block.real 1 / lag
    stepScalar state dt (fun value => (input - value) / lag) fun half =>
      block.real 0 * (ratio * rawInput + (1.0 - ratio) * half)
  | .rateLimiter =>
    let delta := rawInput - state
    let limit := (if le 0.0 delta then block.real 0 else block.real 1) * dt
    let full := state + clamp delta (-limit) limit
    ⟨full, full, full⟩
  | .deadTime => ⟨state, state, delayedInput values block currentNs element⟩
  | _ => ⟨state, state, state⟩

namespace StepCandidates

def setElement (candidates : StepCandidates R) (block : CompiledBlock R) (element : Nat) (step : ElementStep R) :
    StepCandidates R where
  dynamicFullStep := update candidates.dynamicFullStep (block.stateIndex element) step.full
  dynamicCandidate := update candidates.dynamicCandidate (block.stateIndex element) step.half
  dynamicOutputCandidate := update candidates.dynamicOutputCandidate (block.outputIndex element) step.output

/-- The elements of a block; a SecondOrder block also has a velocity for each. -/
def stepElements (candidates : StepCandidates R) (values : SignalValues R) (block : CompiledBlock R)
    (previousNs currentNs : Nat) (dt : R) : StepCandidates R :=
  (List.range block.output.width).foldl (fun candidates element =>
    if block.kind = .secondOrder then
      let velocityIndex := block.stateIndex (block.output.width + element)
      let initial : SecondOrderState R :=
        ⟨values.dynamicState (block.stateIndex element), values.dynamicState velocityIndex⟩
      let input := readReal values.reals (block.input 0) element
      let step (state : SecondOrderState R) (dt : R) :=
        rk4SecondOrder state dt input (block.real 0) (block.real 1) (block.real 2)
      let full := step initial dt
      let half := step (step initial (dt * 0.5)) (dt * 0.5)
      let stepped := { candidates with
        dynamicFullStep := update candidates.dynamicFullStep velocityIndex full.velocity
        dynamicCandidate := update candidates.dynamicCandidate velocityIndex half.velocity }
      stepped.setElement block element ⟨full.position, half.position, half.position⟩
    else candidates.setElement block element (stepElement values block previousNs currentNs dt element)) candidates

/-- Exact for inputs held over the step, so the full step and the half steps agree. -/
def stepAccumulator (candidates : StepCandidates R) (values : SignalValues R) (block : CompiledBlock R)
    (previousNs : Nat) (dt : R) : StepCandidates R :=
  let bounds := accumulatorBounds block values.reals
  let base := block.stateIndex 0
  let next := Signal.stepAccumulator (fun element => values.dynamicState (base + element.index))
    (readReal values.reals (block.input 0) 0) (readReal values.reals (block.input 1) 0) bounds.1 bounds.2
    (ofUnsigned previousNs * 1e-9) dt
  let keep (vector : Nat → R) (contents : AccumulatorElement → R) (offset : Nat) :=
    AccumulatorElement.list.foldl (fun vector element => update vector (offset + element.index) (contents element)) vector
  { dynamicCandidate := keep candidates.dynamicCandidate next base
    dynamicFullStep := keep candidates.dynamicFullStep next base
    dynamicOutputCandidate :=
      keep candidates.dynamicOutputCandidate (publishAccumulator next) block.output.offset }

end StepCandidates

/-! ### The continuous partition -/

/-- What a minor step may write. -/
structure Stage (R : Type) extends StageVectors R where
  kernelDiscrete : Nat → R

/-- The fixed surroundings of a minor step. -/
structure Minor (R : Type) where
  graph : CompiledSignalGraph R
  kernelParams : Nat → R
  stageMajorNs : Nat

namespace Minor

variable (minor : Minor R) (timestampNs : Nat)

def vectors (stage : Stage R) : KernelVectors R := ⟨stage.stageReals, stage.stageState, stage.kernelDiscrete⟩

def runOutputs (stage : Stage R) (block : CompiledBlock R) : Stage R :=
  let written :=
    runKernelOutputs block minor.kernelParams timestampNs false minor.stageMajorNs (vectors stage)
  { stage with
    stageReals := written.reals, stageState := written.states, kernelDiscrete := written.discrete }

/-- One block of an iteration of an algebraic loop, with the greatest change so far. -/
def relaxBlock (progress : R × Stage R) (block : CompiledBlock R) : R × Stage R :=
  let slot := block.output
  let stage := progress.2
  let saved := { stage with
    realSnapshot := store stage.realSnapshot slot.offset slot.width fun element =>
      stage.stageReals (slot.offset + element) }
  let after := minor.runOutputs timestampNs saved block
  ((List.range slot.width).foldl (fun delta element => Double.max delta
    (Double.abs (after.stageReals (slot.offset + element) - after.realSnapshot (slot.offset + element)))) progress.1,
    after)

/-- The bounded iterations of an algebraic loop inside the partition. -/
def relax (blocks : List (CompiledBlock R)) (tolerance : R) : Nat → Stage R → Stage R
  | 0, stage => stage
  | remaining + 1, stage =>
    let swept := blocks.foldl (minor.relaxBlock timestampNs) (0.0, stage)
    if le swept.1 tolerance then swept.2 else relax blocks tolerance remaining swept.2

def evaluateItem (stage : Stage R) (item : ExecutionItem R) : Stage R :=
  let blocks := item.continuousBlocks.map minor.graph.block
  if item.fixedPoint then minor.relax timestampNs blocks item.tolerance item.maxIterations stage
  else blocks.foldl (minor.runOutputs timestampNs) stage

/-- `evaluateContinuousPartition` without its last part. -/
def evaluate (stage : Stage R) : Stage R :=
  (minor.graph.continuousItems.filterMap fun index => minor.graph.items[index]?).foldl
    (minor.evaluateItem timestampNs) stage

/-- The derivatives of one block, where it has some. -/
def derivativesOf (stage : Stage R) (slopes : Nat → R) (block : CompiledBlock R) : Nat → R :=
  match block.kernel.bind (·.derivatives) with
  | none => slopes
  | some derivatives =>
    store slopes (block.stateIndex 0) block.stateWidth
      (derivatives (kernelContext block minor.kernelParams timestampNs false minor.stageMajorNs (vectors stage)))

/-- The last part of `evaluateContinuousPartition`. -/
def derivatives (stage : Stage R) (slopes : Nat → R) : Nat → R :=
  (minor.graph.continuousPartition.map minor.graph.block).foldl (minor.derivativesOf timestampNs stage) slopes

def evaluateContinuousPartition (stage : Stage R) (slopes : Nat → R) : Stage R × (Nat → R) :=
  let evaluated := minor.evaluate timestampNs stage
  (evaluated, minor.derivatives timestampNs evaluated slopes)

end Minor

/-- The indices of `forEachState`. -/
def partitionStates (graph : CompiledSignalGraph R) : List Nat :=
  (graph.continuousPartition.map graph.block).flatMap fun block =>
    (List.range block.stateWidth).map block.stateIndex

/-- New values at some indices. -/
def overwrite (indices : List Nat) (values contents : Nat → R) : Nat → R := fun index =>
  if index ∈ indices then contents index else values index

def Stage.setState (stage : Stage R) (state : Nat → R) : Stage R := { stage with stageState := state }

/-- The states of a later stage of `rk4`. -/
def Stage.move (stage : Stage R) (states : List Nat) (base step : Nat → R) : Stage R :=
  { stage with stageState := overwrite states stage.stageState fun index => base index + step index }

/-- What the integrator works on: the stage, the slopes, and the vector the result goes to. -/
structure Integration (R : Type) where
  stage : Stage R
  slopes : Slopes R
  result : Nat → R

def rk4Result (base : Nat → R) (h : R) (k1 k2 k3 k4 : Nat → R) (index : Nat) : R :=
  base index + h * (k1 index + 2.0 * k2 index + 2.0 * k3 index + k4 index) / 6.0

/-- `rk4` over all states of the partition. -/
def rk4Partition (minor : Minor R) (base : Nat → R) (startNs lengthNs : Nat) (s : Integration R) : Integration R :=
  let states := partitionStates minor.graph
  let h : R := ofUnsigned lengthNs * 1e-9
  let midNs := startNs + lengthNs / 2
  let first := minor.evaluateContinuousPartition startNs (s.stage.setState base) s.slopes.k1
  let second := minor.evaluateContinuousPartition midNs
    (first.1.move states base fun index => 0.5 * h * first.2 index) s.slopes.k2
  let third := minor.evaluateContinuousPartition midNs
    (second.1.move states base fun index => 0.5 * h * second.2 index) s.slopes.k3
  let fourth := minor.evaluateContinuousPartition (startNs + lengthNs)
    (third.1.move states base fun index => h * third.2 index) s.slopes.k4
  { stage := fourth.1
    slopes := { s.slopes with k1 := first.2, k2 := second.2, k3 := third.2, k4 := fourth.2 }
    result := overwrite states s.result (rk4Result base h first.2 second.2 third.2 fourth.2) }

/-- The output slots of some blocks, taken from other values. -/
def takeOutputs (graph : CompiledSignalGraph R) (blocks : List Nat) (candidates reals : Nat → R) : Nat → R :=
  (blocks.map graph.block).foldl (fun reals block =>
    store reals block.output.offset block.output.width fun element => candidates (block.output.offset + element)) reals

/-- What `beginContinuousStep` writes. -/
structure Trial (R : Type) extends Stage R, Slopes R, StepCandidates R where
  halfState : Nat → R
  stageMajorNs : Nat

namespace Trial

variable (graph : CompiledSignalGraph R) (values : SignalValues R) (previousNs currentNs : Nat)

def stepStateSpace (dt : R) (trial : Trial R) (block : CompiledBlock R) : Trial R :=
  let n := stateOrder block
  let base := block.stateIndex 0
  let input := readReal values.reals (block.input 0) 0
  let state (row : Nat) := values.dynamicState (base + row)
  let full := rk4StateSpace block input state dt
  let half := rk4StateSpace block input (rk4StateSpace block input state (dt * 0.5)).result (dt * 0.5)
  let output := (List.range n).foldl (fun output row => output + block.real (n * n + n + row) * half.result row)
    (block.real (n * n + 2 * n) * input)
  { trial with
    k1 := store trial.k1 base n half.k1
    k2 := store trial.k2 base n half.k2
    k3 := store trial.k3 base n half.k3
    k4 := store trial.k4 base n half.k4
    temporary := store trial.temporary base n half.temporary
    dynamicFullStep := store trial.dynamicFullStep base n full.result
    dynamicCandidate := store trial.dynamicCandidate base n half.result
    dynamicOutputCandidate := update trial.dynamicOutputCandidate block.output.offset output }

def stepBlock (dt : R) (trial : Trial R) (block : CompiledBlock R) : Trial R :=
  match block.kind with
  | .stateSpaceContinuous => trial.stepStateSpace values dt block
  | .accumulator =>
    { trial with toStepCandidates := trial.toStepCandidates.stepAccumulator values block previousNs dt }
  | _ => { trial with
    toStepCandidates := trial.toStepCandidates.stepElements values block previousNs currentNs dt }

/-- The candidates start as the accepted values. -/
def start (trial : Trial R) : Trial R :=
  { trial with
    dynamicCandidate := values.dynamicState
    dynamicFullStep := values.dynamicState
    dynamicOutputCandidate := values.reals }

def minor : Minor R := ⟨graph, values.kernelParams, previousNs⟩

/-- The step as a whole. -/
def fullStep (trial : Trial R) : Integration R :=
  rk4Partition (minor graph values previousNs) values.dynamicState previousNs (currentNs - previousNs)
    ⟨{ trial.toStage with stageReals := values.reals }, trial.toSlopes, trial.dynamicFullStep⟩

def firstHalf (trial : Trial R) : Integration R :=
  let full := trial.fullStep graph values previousNs currentNs
  rk4Partition (minor graph values previousNs) values.dynamicState previousNs ((currentNs - previousNs) / 2)
    ⟨full.stage, full.slopes, trial.halfState⟩

def secondHalf (trial : Trial R) : Integration R :=
  let first := trial.firstHalf graph values previousNs currentNs
  let stepNs := currentNs - previousNs
  rk4Partition (minor graph values previousNs) first.result (previousNs + stepNs / 2) (stepNs - stepNs / 2)
    ⟨first.stage, first.slopes, trial.dynamicCandidate⟩

/-- The outputs at the end of the step, with the states of the two half steps. -/
def finalStage (trial : Trial R) : Stage R :=
  let second := trial.secondHalf graph values previousNs currentNs
  (minor graph values previousNs).evaluate currentNs (second.stage.setState second.result)

/-- `integrateContinuousPartition`. -/
def integrate (trial : Trial R) : Trial R :=
  let final := trial.finalStage graph values previousNs currentNs
  { toStage := final
    toSlopes := (trial.secondHalf graph values previousNs currentNs).slopes
    dynamicCandidate := (trial.secondHalf graph values previousNs currentNs).result
    dynamicFullStep := (trial.fullStep graph values previousNs currentNs).result
    dynamicOutputCandidate :=
      takeOutputs graph graph.continuousPartition final.stageReals trial.dynamicOutputCandidate
    halfState := (trial.firstHalf graph values previousNs currentNs).result
    stageMajorNs := previousNs }

def run (trial : Trial R) : Trial R :=
  let dt := ofUnsigned (currentNs - previousNs) * 1e-9
  let stepped := (graph.continuousBlocks.map graph.block).foldl (stepBlock values previousNs currentNs dt)
    (trial.start values)
  if graph.continuousPartition.isEmpty then stepped else stepped.integrate graph values previousNs currentNs

end Trial

def SignalStore.trial (s : SignalStore R) : Trial R where
  toStageVectors := s.toStageVectors
  kernelDiscrete := s.kernelDiscrete
  toSlopes := s.toSlopes
  toStepCandidates := s.toStepCandidates
  halfState := s.halfState
  stageMajorNs := s.stageMajorNs

def SignalStore.setTrial (s : SignalStore R) (trial : Trial R) : SignalStore R :=
  { s with
    toStageVectors := trial.toStageVectors
    kernelDiscrete := trial.kernelDiscrete
    toSlopes := trial.toSlopes
    toStepCandidates := trial.toStepCandidates
    halfState := trial.halfState
    stageMajorNs := trial.stageMajorNs }

section Phases

variable (graph : CompiledSignalGraph R)

/-- The runtime with the candidates of a step. -/
def withTrial (previousNs currentNs : Nat) (s : SignalRuntime R) : SignalRuntime R :=
  { s with
    toSignalStore := s.toSignalStore.setTrial (s.trial.run graph s.toSignalValues previousNs currentNs)
    pendingDynamicTimeNs := currentNs
    pendingDynamicStepNs := currentNs - previousNs
    dynamicStepPending := true }

def beginContinuousStep (previousNs currentNs : Nat) (s : SignalRuntime R) : Except Exception (SignalRuntime R) :=
  if (graph.continuousBlocks.isEmpty && graph.continuousPartition.isEmpty) || currentNs ≤ previousNs then .ok s
  else do
    throwIf s.dynamicStepPending (.logicError "passo dinamico anterior ainda pendente")
    throwIf (previousNs ≠ s.dynamicTimeNs) (.logicError "tempo do SignalRuntime divergiu do Scheduler")
    return withTrial graph previousNs currentNs s

def continuousPartitionMajorStep (timestampNs : Nat) (s : SignalStore R) : SignalStore R :=
  let items := graph.continuousItems.filterMap fun index => graph.items[index]?
  let evaluated := ((items.flatMap (·.continuousBlocks)).map graph.block).foldl
    (fun s block => s.kernelOutputs block timestampNs) s
  (graph.continuousPartition.map graph.block).foldl (fun s block => s.kernelUpdate block timestampNs) evaluated

/-- The candidates become the states and the outputs. -/
def takeCandidates (s : SignalStore R) : SignalStore R :=
  { s with
    dynamicState := s.dynamicCandidate
    reals := takeOutputs graph graph.continuousPartition s.dynamicOutputCandidate
      (takeOutputs graph graph.continuousBlocks s.dynamicOutputCandidate s.reals) }

def commitContinuousStep (s : SignalRuntime R) : SignalRuntime R :=
  if s.dynamicStepPending then
    let taken := takeCandidates graph s.toSignalStore
    { s with
      toSignalStore := if graph.continuousPartition.isEmpty then taken
        else continuousPartitionMajorStep graph s.pendingDynamicTimeNs taken
      dynamicTimeNs := s.pendingDynamicTimeNs
      dynamicStepPending := false }
  else s

end Phases

def rollbackContinuousStep (s : SignalRuntime R) : SignalRuntime R :=
  if s.dynamicStepPending then { s with dynamicStepPending := false } else s

end LasecSimul.Signal
