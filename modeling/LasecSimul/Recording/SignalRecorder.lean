import LasecSimul.Signal.Definition

/-!
# The signal recorder (`SignalRecorder.hpp`)

The scheduler records stable steps and parameter changes into the ring of each subscription, and the IPC
thread drains it. Every call is one critical section. Row, event and generation numbers are unbounded;
times are those of a `uint64_t` clock.
-/

namespace LasecSimul.Recording

open Signal (SignalScalarType SignalSlotHandle)

/-- A `double` as its bits, which is what `memcmp` compares. -/
class Cell (V : Type) where
  quietNaN : V
  ofBool : Bool → V
  ofInteger : Int → V

instance : Cell UInt64 where
  quietNaN := 0x7ff8000000000000
  ofBool value := if value then 0x3ff0000000000000 else 0
  ofInteger value := (Float.ofInt value).toBits

structure SeriesChannelRequest where
  componentIndex : Nat := 0
  port : String := "out"
  element : Nat := 0

structure SeriesSubscriptionRequest where
  channels : List SeriesChannelRequest
  periodNs : Nat := 0
  capacityRows : Nat := 65536

inductive SeriesEventKind where
  | start
  | parameter
  deriving DecidableEq

structure SeriesEvent (V : Type) where
  seq : Nat := 0
  timestampNs : Nat := 0
  kind : Option SeriesEventKind := none
  componentIndex : Option Nat := none
  name : String := ""
  value : V

structure SeriesChunk (V : Type) where
  subscriptionId : Nat
  generation : Nat
  fromSeq : Nat
  toSeq : Nat
  lost : Nat
  more : Bool
  timestampsNs : List Nat
  columns : List (List V)
  events : List (SeriesEvent V)
  nextEventSeq : Nat
  resolved : List Bool

/-- What the recorder reads of a `SignalRuntime`; `graph` is the address of the graph it runs. -/
structure SignalRuntime (V : Type) where
  graph : Option Nat
  real : SignalSlotHandle → Nat → V
  boolean : SignalSlotHandle → Nat → Bool
  integer : SignalSlotHandle → Nat → Int

abbrev Resolver := SeriesChannelRequest → Option SignalSlotHandle

def kMaxChannels : Nat := 64
def kMaxCapacityRows : Nat := 1048576
def kMaxCells : Nat := 4194304
def kEventCapacity : Nat := 1024
def kMaxRowsPerInstant : Nat := 4

/-- `std::numeric_limits<uint64_t>::max()`. -/
def kTimeMax : Nat := 18446744073709551615

structure Subscription (V : Type) where
  request : SeriesSubscriptionRequest
  generation : Nat := 0
  started : Bool := false
  count : Nat := 0
  lastTimeNs : Nat := 0
  nextGridNs : Nat := 0
  rowsAtInstant : Nat := 0
  times : List Nat
  columns : List (List V)
  handles : List (Option SignalSlotHandle)
  resolvedGraph : Option Nat := none
  scratch : List V
  last : List V
  events : List (SeriesEvent V)
  eventCount : Nat := 0

variable {V : Type} [Cell V] [DecidableEq V]

/-- `0.0`. -/
def zeroCell : V := Cell.ofBool false

def Subscription.create (request : SeriesSubscriptionRequest) : Except Exception (Subscription V) := do
  throwIf (request.channels = []) (.invalidArgument "assinatura de série sem canais")
  throwIf (kMaxChannels < request.channels.length)
    (.invalidArgument "assinatura de série excede 64 canais")
  throwIf (request.capacityRows < 2 ∨ kMaxCapacityRows < request.capacityRows)
    (.invalidArgument "capacidade de série fora de [2, 1048576] linhas")
  throwIf (kMaxCells < request.capacityRows * (request.channels.length + 1))
    (.invalidArgument "assinatura de série excede o orçamento de memória")
  let channels := request.channels.length
  return {
    request
    times := List.replicate request.capacityRows 0
    columns := List.replicate channels (List.replicate request.capacityRows zeroCell)
    handles := List.replicate channels none
    scratch := List.replicate channels zeroCell
    last := List.replicate channels zeroCell
    events := List.replicate kEventCapacity { value := Cell.quietNaN } }

namespace Subscription

def pushEventLocked (sub : Subscription V) (event : SeriesEvent V) : Subscription V :=
  { sub with
    events := sub.events.set (sub.eventCount % kEventCapacity) { event with seq := sub.eventCount }
    eventCount := sub.eventCount + 1 }

/-- The first grid point after `timestampNs`, or the end of time where the next one is not safely before it. -/
def gridAfter (period timestampNs : Nat) : Nat :=
  if kTimeMax / period - 1 ≤ timestampNs / period then kTimeMax else (timestampNs / period + 1) * period

def appendRowLocked (sub : Subscription V) (timestampNs : Nat) : Subscription V :=
  let slot := sub.count % sub.request.capacityRows
  { sub with
    times := sub.times.set slot timestampNs
    columns := List.zipWith (fun column value => column.set slot value) sub.columns sub.scratch
    last := sub.scratch
    rowsAtInstant := if 0 < sub.count ∧ timestampNs = sub.lastTimeNs then sub.rowsAtInstant + 1 else 1
    lastTimeNs := timestampNs
    count := sub.count + 1
    nextGridNs := if 0 < sub.request.periodNs then gridAfter sub.request.periodNs timestampNs
      else sub.nextGridNs }

/-- The generation counter of the recorder goes in and comes out. -/
def startGenerationLocked (counter : Nat) (sub : Subscription V) (timestampNs : Nat) (newGeneration : Bool) :
    Nat × Subscription V :=
  (if newGeneration then counter + 1 else counter,
    pushEventLocked
      { sub with
        generation := if newGeneration then counter + 1 else sub.generation
        started := true
        count := 0
        eventCount := 0
        rowsAtInstant := 0
        lastTimeNs := timestampNs }
      { timestampNs, kind := some .start, value := Cell.quietNaN })

def resolveChannel (graph : Option Nat) (resolve : Resolver) (channel : SeriesChannelRequest) :
    Option SignalSlotHandle :=
  if graph.isSome then (resolve channel).filter (channel.element < ·.width) else none

def readChannel (runtime : SignalRuntime V) (handle : Option SignalSlotHandle) (channel : SeriesChannelRequest) : V :=
  match handle with
  | none => Cell.quietNaN
  | some handle =>
    match handle.scalar with
    | .real => runtime.real handle channel.element
    | .bool => Cell.ofBool (runtime.boolean handle channel.element)
    | .int64 => Cell.ofInteger (runtime.integer handle channel.element)

def readChannels (sub : Subscription V) (runtime : SignalRuntime V) (resolve : Resolver) : Subscription V :=
  let handles :=
    if runtime.graph = sub.resolvedGraph then sub.handles
    else sub.request.channels.map (resolveChannel runtime.graph resolve)
  { sub with
    resolvedGraph := runtime.graph
    handles
    scratch := List.zipWith (readChannel runtime) handles sub.request.channels }

def prepareLocked (counter : Nat) (sub : Subscription V) (timestampNs : Nat) (runtime : SignalRuntime V)
    (resolve : Resolver) : Nat × Subscription V :=
  let sub := sub.readChannels runtime resolve
  if sub.started ∧ 0 < sub.count ∧ timestampNs < sub.lastTimeNs then
    startGenerationLocked counter sub timestampNs true
  else (counter, sub)

def differsFromLast (sub : Subscription V) : Bool := decide (sub.count = 0 ∨ sub.scratch ≠ sub.last)

/-- The rule of `record` for a generation that has begun. -/
def recordStep (sub : Subscription V) (timestampNs : Nat) : Subscription V :=
  if timestampNs = sub.lastTimeNs then
    if sub.differsFromLast ∧ sub.rowsAtInstant < kMaxRowsPerInstant then sub.appendRowLocked timestampNs else sub
  else if (if sub.request.periodNs = 0 then sub.differsFromLast else decide (sub.nextGridNs ≤ timestampNs)) then
    sub.appendRowLocked timestampNs
  else sub

/-- The rule of `noteParameter` for a generation that has begun. -/
def recordParameter (sub : Subscription V) (timestampNs : Nat) : Subscription V :=
  if sub.count = 0 ∨ sub.lastTimeNs < timestampNs ∨
      (sub.differsFromLast ∧ sub.rowsAtInstant < kMaxRowsPerInstant) then
    sub.appendRowLocked timestampNs
  else sub

/-- The loop body of `record`. -/
def record (timestampNs : Nat) (runtime : SignalRuntime V) (resolve : Resolver) (counter : Nat)
    (sub : Subscription V) : Nat × Subscription V :=
  let (counter, sub) := sub.prepareLocked counter timestampNs runtime resolve
  if sub.started = false then
    let (counter, sub) := sub.startGenerationLocked counter timestampNs false
    (counter, sub.appendRowLocked timestampNs)
  else (counter, sub.recordStep timestampNs)

/-- The loop body of `noteParameter`. -/
def noteParameter (timestampNs componentIndex : Nat) (name : String) (value : V) (runtime : SignalRuntime V)
    (resolve : Resolver) (counter : Nat) (sub : Subscription V) : Nat × Subscription V :=
  let (counter, sub) := sub.prepareLocked counter timestampNs runtime resolve
  let (counter, sub) := if sub.started = false then sub.startGenerationLocked counter timestampNs false
    else (counter, sub)
  (counter, (sub.recordParameter timestampNs).pushEventLocked
    { timestampNs, kind := some .parameter, componentIndex := some componentIndex, name, value })

def restart (timestampNs : Nat) (counter : Nat) (sub : Subscription V) : Nat × Subscription V :=
  if sub.started then sub.startGenerationLocked counter timestampNs true else (counter, sub)

def chunk (id : Nat) (sub : Subscription V) (generation : Option Nat) (sinceSeq sinceEventSeq maxRows : Nat) :
    SeriesChunk V :=
  let current := generation = none ∨ generation = some sub.generation
  let sinceSeq := if current then sinceSeq else 0
  let sinceEventSeq := if current then sinceEventSeq else 0
  let capacity := sub.request.capacityRows
  let oldest := if capacity < sub.count then sub.count - capacity else 0
  let first := max (min sinceSeq sub.count) oldest
  let last := min sub.count (first + max maxRows 1)
  let slots := (List.range' first (last - first)).map (· % capacity)
  let oldestEvent := if kEventCapacity < sub.eventCount then sub.eventCount - kEventCapacity else 0
  let firstEvent := max sinceEventSeq oldestEvent
  { subscriptionId := id
    generation := sub.generation
    fromSeq := first
    toSeq := last
    lost := if sinceSeq < first then first - sinceSeq else 0
    more := last < sub.count
    timestampsNs := slots.map fun slot => sub.times.getD slot 0
    columns := sub.columns.map fun column => slots.map fun slot => column.getD slot zeroCell
    events := (List.range' firstEvent (sub.eventCount - firstEvent)).map fun seq =>
      sub.events.getD (seq % kEventCapacity) { value := Cell.quietNaN }
    nextEventSeq := sub.eventCount
    resolved := sub.handles.map (·.isSome) }

end Subscription

/-- The subscriptions are those of a `std::map`, in the order of their ids. -/
structure SignalRecorder (V : Type) where
  subscriptions : List (Nat × Subscription V) := []
  nextId : Nat := 0
  generationCounter : Nat := 0
  executionId : Nat := 0

/-- A loop over the subscriptions that counts generations. -/
def eachSubscription (f : Nat → Subscription V → Nat × Subscription V) :
    Nat → List (Nat × Subscription V) → Nat × List (Nat × Subscription V)
  | counter, [] => (counter, [])
  | counter, (id, sub) :: rest =>
    let (counter, sub) := f counter sub
    let (counter, rest) := eachSubscription f counter rest
    (counter, (id, sub) :: rest)

namespace SignalRecorder

def subscribe (recorder : SignalRecorder V) (request : SeriesSubscriptionRequest) :
    Except Exception (Nat × SignalRecorder V) := do
  let sub ← Subscription.create request
  let id := recorder.nextId + 1
  let generation := recorder.generationCounter + 1
  return (id,
    { recorder with
      subscriptions := recorder.subscriptions ++ [(id, { sub with generation })]
      nextId := id
      generationCounter := generation })

def unsubscribe (recorder : SignalRecorder V) (id : Nat) : SignalRecorder V :=
  { recorder with subscriptions := recorder.subscriptions.filter (·.1 ≠ id) }

def hasSubscriptions (recorder : SignalRecorder V) : Bool := !recorder.subscriptions.isEmpty

def each (recorder : SignalRecorder V) (f : Nat → Subscription V → Nat × Subscription V) : SignalRecorder V :=
  let (generationCounter, subscriptions) :=
    eachSubscription f recorder.generationCounter recorder.subscriptions
  { recorder with generationCounter, subscriptions }

def beginExecutionLocked (recorder : SignalRecorder V) (executionId timestampNs : Nat) : SignalRecorder V :=
  if executionId = recorder.executionId then recorder
  else { recorder with executionId }.each (Subscription.restart timestampNs)

def record (recorder : SignalRecorder V) (timestampNs executionId : Nat) (runtime : SignalRuntime V)
    (resolve : Resolver) : SignalRecorder V :=
  if recorder.hasSubscriptions then
    (recorder.beginExecutionLocked executionId timestampNs).each (Subscription.record timestampNs runtime resolve)
  else recorder

def noteParameter (recorder : SignalRecorder V) (timestampNs executionId componentIndex : Nat) (name : String)
    (value : V) (runtime : SignalRuntime V) (resolve : Resolver) : SignalRecorder V :=
  if recorder.hasSubscriptions then
    (recorder.beginExecutionLocked executionId timestampNs).each
      (Subscription.noteParameter timestampNs componentIndex name value runtime resolve)
  else recorder

def find (recorder : SignalRecorder V) (id : Nat) : Option (Subscription V) := recorder.subscriptions.lookup id

def drain (recorder : SignalRecorder V) (id : Nat) (generation : Option Nat)
    (sinceSeq sinceEventSeq maxRows : Nat) : Option (SeriesChunk V) :=
  (recorder.find id).map fun sub => sub.chunk id generation sinceSeq sinceEventSeq maxRows

end SignalRecorder

end LasecSimul.Recording
