import LasecSimul.Signal.Evaluation
import Mathlib.Logic.Function.Basic

/-!
# `SignalRuntime::activateBatch`

The vectors of the runtime are functions of the index. Errors of `vector::at` and of unsupported
operations end a batch; what a failed batch leaves behind is not modelled.
-/

namespace LasecSimul.Signal

open Double Function

variable {R : Type} [Double R]

structure DelayBuffer (R : Type) where
  times : Nat → Nat
  values : Nat → R
  capacity : Nat
  head : Nat := 0
  count : Nat := 0
  width : Nat := 1

/-- The values a plan computes and remembers. -/
structure SignalValues (R : Type) where
  reals : Nat → R
  ints : Nat → Int
  bools : Nat → Bool
  dynamicState : Nat → R
  kernelDiscrete : Nat → R
  kernelParams : Nat → R
  delayBuffers : Nat → DelayBuffer R

/-- The vectors a stage of the integrator works on. -/
structure StageVectors (R : Type) where
  stageReals : Nat → R
  stageState : Nat → R
  realSnapshot : Nat → R

/-- The parts of `m_dynamicScratch`. -/
structure Slopes (R : Type) where
  k1 : Nat → R
  k2 : Nat → R
  k3 : Nat → R
  k4 : Nat → R
  temporary : Nat → R

structure StepCandidates (R : Type) where
  dynamicCandidate : Nat → R
  dynamicFullStep : Nat → R
  dynamicOutputCandidate : Nat → R

/-- The vectors that hold intermediate values. -/
structure SignalScratch (R : Type) extends StageVectors R, Slopes R, StepCandidates R where
  realCandidate : Nat → R
  intSnapshot : Nat → Int
  intCandidate : Nat → Int
  boolSnapshot : Nat → Bool
  boolCandidate : Nat → Bool
  halfState : Nat → R
  stageMajorNs : Nat

structure SignalStore (R : Type) extends SignalValues R, SignalScratch R

/-- The storage as `bind` assigns it, before the initial values. -/
def SignalStore.cleared : SignalStore R where
  reals _ := 0.0
  ints _ := 0
  bools _ := false
  dynamicState _ := 0.0
  kernelDiscrete _ := 0.0
  kernelParams _ := 0.0
  delayBuffers _ := { times := fun _ => 0, values := fun _ => 0.0, capacity := 0 }
  realSnapshot _ := 0.0
  realCandidate _ := 0.0
  intSnapshot _ := 0
  intCandidate _ := 0
  boolSnapshot _ := false
  boolCandidate _ := false
  stageReals _ := 0.0
  stageState _ := 0.0
  halfState _ := 0.0
  stageMajorNs := 0
  dynamicCandidate _ := 0.0
  dynamicFullStep _ := 0.0
  dynamicOutputCandidate _ := 0.0
  k1 _ := 0.0
  k2 _ := 0.0
  k3 _ := 0.0
  k4 _ := 0.0
  temporary _ := 0.0

def hasContinuous (graph : CompiledSignalGraph R) : Bool := !graph.continuousPartition.isEmpty

def CompiledSignalGraph.periodNs (graph : CompiledSignalGraph R) : Group → Nat
  | .rate index => (graph.rateGroups[index]?.map (·.rate.periodNs)).getD 0
  | _ => 0

/-- `m_due` of the group of a block; the continuous partition is in no rate group. -/
def groupDue (due : Nat → Bool) : Group → Bool
  | .rate index => due index
  | _ => false

/-- In an item of mixed rates only the continuous blocks and those with a due group take part. -/
def takesPart (graph : CompiledSignalGraph R) (due : Nat → Bool) (item : ExecutionItem R) (index : Nat) : Bool :=
  item.group ≠ .mixed || (graph.block index).group = .continuous || groupDue due (graph.block index).group

def itemRuns (graph : CompiledSignalGraph R) (due : Nat → Bool) (item : ExecutionItem R) : Bool :=
  match item.group with
  | .continuous => hasContinuous graph
  | .mixed => hasContinuous graph || item.blocks.any fun index => groupDue due (graph.block index).group
  | .rate index => due index

/-- The vectors a kernel call reads and writes. -/
structure KernelVectors (R : Type) where
  reals : Nat → R
  states : Nat → R
  discrete : Nat → R

def kernelContext (block : CompiledBlock R) (params : Nat → R) (timestampNs : Nat) (major : Bool)
    (stageMajorNs : Nat) (vectors : KernelVectors R) : KernelContext R where
  tNs := timestampNs
  t := ofUnsigned timestampNs * 1e-9
  majorNs := if major then timestampNs else Nat.min timestampNs stageMajorNs
  ts := block.samplePeriod
  major := major
  inputs := (block.inputs.zip block.inputWidths).map fun port =>
    (List.range port.2).map fun element =>
      if eq port.1.conversion.scale 1.0 && eq port.1.conversion.offset 0.0 then
        readSlot vectors.reals port.1 element
      else readReal vectors.reals port.1 element
  out := window vectors.reals block.output.offset block.output.width
  x := window vectors.states (block.stateIndex 0) block.stateWidth
  d := window vectors.discrete block.discreteOffset block.discreteCount
  rp := window params block.paramOffset block.paramCount
  ip := block.intParameters

def writeKernel (block : CompiledBlock R) (writes : KernelWrites R) (vectors : KernelVectors R) :
    KernelVectors R where
  reals := storeList vectors.reals block.output.offset block.output.width writes.out
  states := storeList vectors.states (block.stateIndex 0) block.stateWidth writes.x
  discrete := storeList vectors.discrete block.discreteOffset block.discreteCount writes.d

def runKernelOutputs (block : CompiledBlock R) (params : Nat → R) (timestampNs : Nat) (major : Bool)
    (stageMajorNs : Nat) (vectors : KernelVectors R) : KernelVectors R :=
  match block.kernel with
  | none => vectors
  | some kernel =>
    writeKernel block (kernel.outputs (kernelContext block params timestampNs major stageMajorNs vectors)) vectors

def runKernelUpdate (block : CompiledBlock R) (params : Nat → R) (timestampNs : Nat)
    (stageMajorNs : Nat) (vectors : KernelVectors R) : KernelVectors R :=
  match block.kernel.bind (·.update) with
  | none => vectors
  | some update =>
    writeKernel block (update (kernelContext block params timestampNs true stageMajorNs vectors)) vectors

namespace SignalStore

def kernelVectors (s : SignalStore R) : KernelVectors R := ⟨s.reals, s.dynamicState, s.kernelDiscrete⟩

def setKernelVectors (s : SignalStore R) (vectors : KernelVectors R) : SignalStore R :=
  { s with reals := vectors.reals, dynamicState := vectors.states, kernelDiscrete := vectors.discrete }

/-- The outputs of a kernel block in a major step. -/
def kernelOutputs (s : SignalStore R) (block : CompiledBlock R) (timestampNs : Nat) : SignalStore R :=
  s.setKernelVectors (runKernelOutputs block s.kernelParams timestampNs true s.stageMajorNs s.kernelVectors)

def kernelUpdate (s : SignalStore R) (block : CompiledBlock R) (timestampNs : Nat) : SignalStore R :=
  s.setKernelVectors (runKernelUpdate block s.kernelParams timestampNs s.stageMajorNs s.kernelVectors)

def snapshot (s : SignalStore R) : SignalStore R :=
  { s with realSnapshot := s.reals, intSnapshot := s.ints, boolSnapshot := s.bools }

/-- `evaluate`: the candidates of a block without state, from the snapshots. -/
def evaluate (s : SignalStore R) (block : CompiledBlock R) : Except Exception (SignalStore R) :=
  let elements := List.range block.output.width
  let slot := block.output
  match slot.scalar with
  | .real => do
    let values ← elements.mapM (evaluateReal block s.realSnapshot s.dynamicState s.boolSnapshot)
    return { s with realCandidate := storeList s.realCandidate slot.offset slot.width values }
  | .int64 => do
    let values ← elements.mapM (evaluateInt block s.intSnapshot s.boolSnapshot)
    return { s with intCandidate := store s.intCandidate slot.offset slot.width fun element => values.getD element 0 }
  | .bool => do
    let values ← elements.mapM (evaluateBool block s.boolSnapshot)
    return { s with
      boolCandidate := store s.boolCandidate slot.offset slot.width fun element => values.getD element false }

/-- The four states of an element of a PID block, in the order of the source. -/
def pidState (s : SignalStore R) (block : CompiledBlock R) (element : Nat) : PidState R :=
  let value (part : Nat) := s.dynamicState (block.stateIndex (part * block.output.width + element))
  ⟨value 0, value 1, value 2, value 3⟩

def setPidState (s : SignalStore R) (block : CompiledBlock R) (element : Nat) (state : PidState R) :
    SignalStore R :=
  let index (part : Nat) := block.stateIndex (part * block.output.width + element)
  { s with dynamicState := update (update (update (update s.dynamicState (index 0) state.integral)
      (index 1) state.previousBasis) (index 2) state.filteredDerivative) (index 3) state.initialized }

/-- The candidate of one element of a block with discrete state. UnitDelay and the transfer functions
latch later. -/
def evaluateDiscrete (graph : CompiledSignalGraph R) (block : CompiledBlock R) (s : SignalStore R)
    (element : Nat) : SignalStore R :=
  let candidate := update s.realCandidate (block.outputIndex element)
  let input := readReal s.realSnapshot (block.input 0) element
  match block.kind with
  | .discreteTransferFunction =>
    { s with realCandidate := candidate (discreteTransferOutput block s.dynamicState input) }
  | .pid =>
    let stepped := stepPid block s.realSnapshot element (graph.periodNs block.group) (s.pidState block element)
    { s.setPidState block element stepped.1 with realCandidate := candidate stepped.2 }
  | kind =>
    let output := discreteOutput block (s.dynamicState (block.stateIndex element)) input
    { s with
      realCandidate := candidate output
      dynamicState := if kind = .unitDelay then s.dynamicState
        else update s.dynamicState (block.stateIndex element) output }

def commitSlot (s : SignalStore R) (slot : SignalSlotHandle) : SignalStore R :=
  let commit {α : Type} (values candidates : Nat → α) : Nat → α :=
    store values slot.offset slot.width fun element => candidates (slot.offset + element)
  match slot.scalar with
  | .real => { s with reals := commit s.reals s.realCandidate }
  | .bool => { s with bools := commit s.bools s.boolCandidate }
  | .int64 => { s with ints := commit s.ints s.intCandidate }

def difference (s : SignalStore R) (slot : SignalSlotHandle) : R :=
  (List.range slot.width).foldl (fun result element =>
    let index := slot.offset + element
    Double.max result (match slot.scalar with
      | .real => Double.abs (s.reals index - s.realSnapshot index)
      | .int64 => if s.ints index = s.intSnapshot index then 0.0 else 1.0
      | .bool => if s.bools index = s.boolSnapshot index then 0.0 else 1.0)) 0.0

section Item

variable (graph : CompiledSignalGraph R) (due : Nat → Bool) (timestampNs : Nat) (item : ExecutionItem R)

/-- The blocks of an item that take part, in the order of the item. -/
def participants : List (CompiledBlock R) :=
  (item.blocks.filter (takesPart graph due item)).map graph.block

def commitItem (s : SignalStore R) : SignalStore R :=
  ((participants graph due item).filter fun block => block.kind ≠ .kernel).foldl
    (fun s block => s.commitSlot block.output) s

def evaluateBlock (s : SignalStore R) (block : CompiledBlock R) : Except Exception (SignalStore R) :=
  if block.kind = .kernel then .ok (s.kernelOutputs block timestampNs)
  else if isDiscreteState block.kind then
    .ok ((List.range block.output.width).foldl (evaluateDiscrete graph block) s)
  else s.evaluate block

def evaluateLoopBlock (s : SignalStore R) (block : CompiledBlock R) : Except Exception (SignalStore R) :=
  if block.kind = .kernel then .ok (s.kernelOutputs block timestampNs) else s.evaluate block

/-- The iterations of an algebraic loop; an item that does not converge keeps its last values. -/
def iterate : Nat → SignalStore R → Except Exception (SignalStore R)
  | 0, s => .ok s
  | remaining + 1, s => do
    let evaluated ← (participants graph due item).foldlM (evaluateLoopBlock timestampNs) s.snapshot
    let committed := evaluated.commitItem graph due item
    let delta := (participants graph due item).foldl
      (fun delta block => Double.max delta (committed.difference block.output)) 0.0
    if le delta item.tolerance then return committed else iterate remaining committed

def runItem (s : SignalStore R) : Except Exception (SignalStore R) :=
  if item.fixedPoint then iterate graph due timestampNs item item.maxIterations s
  else do
    let evaluated ← (participants graph due item).foldlM (evaluateBlock graph timestampNs) s
    return evaluated.commitItem graph due item

end Item

/-- The items that run, in order; a new microstep takes new snapshots. -/
def runItems (graph : CompiledSignalGraph R) (due : Nat → Bool) (timestampNs : Nat) (s : SignalStore R) :
    Except Exception (SignalStore R) := do
  let last ← (graph.items.filter (itemRuns graph due)).foldlM
    (fun (current : Option Nat × SignalStore R) item => do
      let s := if current.1 = some item.microstep then current.2 else current.2.snapshot
      let s ← s.runItem graph due timestampNs item
      return (some item.microstep, s)) (none, s)
  return last.2

/-- What a due block keeps for its next activation, once every item has committed. -/
def latch (s : SignalStore R) (block : CompiledBlock R) : SignalStore R :=
  let input (element : Nat) := readReal s.reals (block.input 0) element
  let base := block.stateIndex 0
  match block.kind with
  | .unitDelay => { s with dynamicState := store s.dynamicState base block.output.width input }
  | .discreteTransferFunction =>
    let order := (block.int 1 - 1).toNat
    { s with dynamicState := store s.dynamicState base (2 * order) fun index =>
      if index = 0 then input 0
      else if index = order then s.reals block.output.offset
      else s.dynamicState (base + index - 1) }
  | .stateSpaceDiscrete =>
    let n := stateOrder block
    let next (row : Nat) := (List.range n).foldl (fun next column =>
      next + block.real (row * n + column) * s.dynamicState (base + column)) (block.real (n * n + row) * input 0)
    { s with
      dynamicCandidate := store s.dynamicCandidate base n next
      dynamicState := store s.dynamicState base n next }
  | .accumulator =>
    let index (element : AccumulatorElement) := base + element.index
    let published := s.reals (block.outputIndex AccumulatorElement.state.index)
    let projected :=
      if !eq published (s.dynamicState (index .state) + s.dynamicState (index .compState)) then
        update (update s.dynamicState (index .state) published) (index .compState) 0.0
      else s.dynamicState
    let spilled := s.reals (block.outputIndex AccumulatorElement.cumSpill.index)
    { s with dynamicState := update projected (index .cumSpill) spilled }
  | _ => s

def latchAll (graph : CompiledSignalGraph R) (due : Nat → Bool) (s : SignalStore R) : SignalStore R :=
  (((graph.items.flatMap (·.blocks)).map graph.block).filter fun block => groupDue due block.group).foldl latch s

def updateKernels (graph : CompiledSignalGraph R) (due : Nat → Bool) (timestampNs : Nat) (s : SignalStore R) :
    SignalStore R :=
  ((graph.kernelBlocks.map graph.block).filter fun block =>
    if block.group = .continuous then hasContinuous graph else groupDue due block.group).foldl
      (fun s block => s.kernelUpdate block timestampNs) s

end SignalStore

namespace DelayBuffer

/-- Drops the entries that no query at or after `timestampNs` reaches. -/
def trim (buffer : DelayBuffer R) (delayNs timestampNs : Nat) : DelayBuffer R :=
  match count : buffer.count with
  | 0 | 1 => buffer
  | remaining + 2 =>
    let second := (buffer.head + 1) % buffer.capacity
    if (buffer.times second + delayNs) % 18446744073709551616 > timestampNs then buffer
    else trim { buffer with head := second, count := remaining + 1 } delayNs timestampNs
termination_by buffer.count
decreasing_by exact count ▸ Nat.lt_succ_self _

def changed (buffer : DelayBuffer R) (input : Nat → R) : Bool :=
  buffer.count = 0 ||
    let last := (buffer.head + buffer.count - 1) % buffer.capacity
    (List.range buffer.width).any fun element => !eq (buffer.values (last * buffer.width + element)) (input element)

/-- Room for one more entry: the oldest one goes when the ring is full. -/
def makeRoom (buffer : DelayBuffer R) : DelayBuffer R :=
  if buffer.count = buffer.capacity then
    { buffer with head := (buffer.head + 1) % buffer.capacity, count := buffer.count - 1 }
  else buffer

def push (buffer : DelayBuffer R) (timestampNs : Nat) (input : Nat → R) : DelayBuffer R :=
  let slot := (buffer.head + buffer.count) % buffer.capacity
  { buffer with
    times := update buffer.times slot timestampNs
    values := store buffer.values (slot * buffer.width) buffer.width input
    count := buffer.count + 1 }

def record (buffer : DelayBuffer R) (delayNs timestampNs : Nat) (input : Nat → R) : DelayBuffer R :=
  if buffer.changed input then ((buffer.trim delayNs timestampNs).makeRoom).push timestampNs input else buffer

end DelayBuffer

def SignalStore.recordDelays (graph : CompiledSignalGraph R) (timestampNs : Nat) (s : SignalStore R) :
    SignalStore R :=
  (graph.delayBlocks.map graph.block).foldl (fun s block =>
    let index := block.delayIndex.getD 0
    { s with delayBuffers := update s.delayBuffers index ((s.delayBuffers index).record block.delayNs timestampNs
        (readReal s.reals (block.input 0))) }) s

def activateBatch (graph : CompiledSignalGraph R) (due : Nat → Bool) (timestampNs : Nat) (s : SignalStore R) :
    Except Exception (SignalStore R) := do
  let ran ← s.runItems graph due timestampNs
  return ((ran.latchAll graph due).updateKernels graph due timestampNs).recordDelays graph timestampNs

end LasecSimul.Signal
