import LasecSimul.Hart.SubDevices

/-!
# Command execution

`HartEngine::execute`. A device reference carries the generation of the device table it was taken
from: reading or writing through it after the table was replaced is undefined in the source and a
fault here. Nested executions (Commands 75, 77 and 78) are given shorter requests, which bounds the
recursion.
-/

namespace LasecSimul.Hart

variable {ρ σ : Type}

structure HartCommandContext where
  pollingAddress : UInt8
  command : UInt8
  request : Bytes

/-- What the engine is given: the profiles, the native handlers, which share the state `σ`, and the
command programs. -/
structure Host (ρ σ : Type) where
  profiles : String → Option HartDeviceProfile
  handler : HartCommandId → Option (σ → HartCommandContext → HartResponseBuilder → σ × Bool × HartResponseBuilder)
  programHook : Option (HartDeviceProfile → HartDevicePlan ρ → Float → HartCommandId → Bytes →
    HartResponseBuilder → UInt8 → Bool × HartDevicePlan ρ × HartResponseBuilder)

structure HartEngine (ρ σ : Type) where
  devices : List (RuntimeDevice ρ) := []
  /-- Changes whenever `m_devices` is replaced as a whole. -/
  generation : Nat := 0
  handlers : σ
  virtualTimeSeconds : Nat := 0

inductive Fault where
  | staleReference
  | noSuchDevice
  | nesting
  deriving DecidableEq, Repr

/-- The arguments of `execute`. -/
structure Call where
  bus : String
  pollingAddress : UInt8
  command : HartCommandId
  request : Bytes := []
  masterRole : UInt8 := 0
  routingDepth : UInt8 := 0
  deriving DecidableEq, Repr

structure Outcome (ρ σ : Type) where
  executed : Bool
  engine : HartEngine ρ σ
  response : HartResponseBuilder

abbrev Execute (ρ σ : Type) := HartEngine ρ σ → Call → HartResponseBuilder → Except Fault (Outcome ρ σ)

structure DeviceRef where
  generation : Nat
  index : Nat
  deriving DecidableEq, Repr

namespace HartEngine

def deref (engine : HartEngine ρ σ) (ref : DeviceRef) : Except Fault (RuntimeDevice ρ) :=
  if ref.generation ≠ engine.generation then .error .staleReference
  else
    match engine.devices[ref.index]? with
    | some device => .ok device
    | none => .error .noSuchDevice

def store (engine : HartEngine ρ σ) (ref : DeviceRef) (device : RuntimeDevice ρ) :
    Except Fault (HartEngine ρ σ) :=
  if ref.generation ≠ engine.generation then .error .staleReference
  else .ok { engine with devices := engine.devices.set ref.index device }

/-- `m_devices = …`. -/
def replaceDevices (engine : HartEngine ρ σ) (devices : List (RuntimeDevice ρ)) : HartEngine ρ σ :=
  { engine with devices := devices, generation := engine.generation + 1 }

/-- The first device of the bus with this polling address. -/
def lookup (engine : HartEngine ρ σ) (bus : String) (pollingAddress : UInt8) : Option Nat :=
  engine.devices.findIdx? fun device => device.plan.bus == bus && device.plan.pollingAddress == pollingAddress

/-- `return` of a command that leaves `answer`. -/
def finish (engine : HartEngine ρ σ) (selected : DeviceRef) (answer : Answer ρ) : Except Fault (Outcome ρ σ) := do
  let engine ← engine.store selected answer.device
  return ⟨answer.executed, engine, answer.response⟩

end HartEngine

namespace RuntimeDevice

def prepare (device : RuntimeDevice ρ) (call : Call) : RuntimeDevice ρ :=
  if call.command = 0x2A ∧ call.request = [] ∧ device.declares call.command then device.resetRuntime else device

/-- The answers given before native handlers and the lock. -/
def answerEarly (device : RuntimeDevice ρ) (call : Call) (response : HartResponseBuilder) : Option (Answer ρ) :=
  if ¬device.declares call.command then some (.reply device (response.fail HartResponseCodes.commandNotImplemented))
  else if call.command = 0x6A then
    if call.request ≠ [] then some (.refuse device response)
    else some ⟨true, { device with burstEvents := [] }, response⟩
  else if call.command = 0x5D then some (device.readTrend call.request response)
  else if call.command = 0x5E then some (device.readClientCounters call.request response)
  else if call.command = 0x5F then some (device.readDeviceCounters call.request response)
  else (device.override call.command response).map (.reply device)

/-- The answers given after the lock. -/
def answerBuiltIn (devices : List (RuntimeDevice ρ)) (device : RuntimeDevice ρ) (call : Call)
    (response : HartResponseBuilder) : Option (Answer ρ) :=
  if call.command = 0x30 then some (device.readAdditionalStatus response)
  else if call.command = 0x6F then some (device.transferService call.request response)
  else if call.command = 0x70 then some (device.transferSegment call.request response)
  else if call.command = 0x73 then some (device.readEventNotification call.request response)
  else if call.command = 0x77 then some (device.acknowledgeEvent call.request response call.masterRole)
  else if 528 ≤ call.command ∧ call.command ≤ 531 then
    some (assignmentCommand devices device call.command call.request response)
  else if call.command = 0x54 then some (readSubDeviceIdentity devices device call.request response)
  else if call.command = 0x55 then some (device.readChannelStatistics call.request response)
  else if call.command = 0x56 then some (device.readSubDeviceStatistics call.request response)
  else none

end RuntimeDevice

/-- A nested execution on a sub-device and what is written around its response. -/
structure Route where
  card : UInt8
  channel : UInt8
  childDeviceId : String
  call : Call
  envelope : Bytes → List Bytes

structure RoutedCommand where
  card : UInt8
  channel : UInt8
  delimiter : UInt8
  address : Bytes
  command : UInt8
  request : Bytes
  deriving DecidableEq, Repr

/-- The request of Command 77. -/
def RoutedCommand.parse (request : Bytes) : Option RoutedCommand :=
  match request with
  | card :: channel :: preambles :: delimiter :: rest =>
    let addressLength := if delimiter &&& 0x80 ≠ 0 then 5 else 1
    if request.length < 6 ∨ preambles < 5 ∨ 20 < preambles then none
    else
      match rest.drop addressLength with
      | command :: count :: data =>
        if data.length = count.toNat then some ⟨card, channel, delimiter, rest.take addressLength, command, data⟩
        else none
      | _ => none
  | _ => none

namespace RuntimeDevice

/-- The sub-device at this place, unless it is the device itself. -/
def subDeviceAt (devices : List (RuntimeDevice ρ)) (device : RuntimeDevice ρ) (card channel address : UInt8) :
    Option (RuntimeDevice ρ) :=
  let link := device.plan.subDevices.find? fun candidate =>
    candidate.ioCard == card && candidate.channel == channel && candidate.pollingAddress == address
  match link with
  | none => none
  | some link => if link.childDeviceId = device.plan.id then none else childFor devices link.childDeviceId

/-- Command 75: Command 0 of the sub-device. -/
def identityRoute (devices : List (RuntimeDevice ρ)) (device : RuntimeDevice ρ) (call : Call) : Option Route :=
  match call.request with
  | [card, channel, address] =>
    if ¬device.plan.ioSystem then none
    else
      (subDeviceAt devices device card channel address).map fun child => {
        card, channel
        childDeviceId := child.plan.id
        call := { call with
          bus := child.plan.bus, pollingAddress := child.plan.pollingAddress, command := 0, request := [] }
        envelope := fun bytes => [bytes] }
  | _ => none

/-- Command 77. -/
def commandRoute (devices : List (RuntimeDevice ρ)) (device : RuntimeDevice ρ) (call : Call) : Option Route :=
  if 8 ≤ call.routingDepth ∨ ¬device.plan.ioSystem then none
  else
    (RoutedCommand.parse call.request).bind fun routed =>
      (subDeviceAt devices device routed.card routed.channel (routed.address.headD 0)).map fun child => {
        card := routed.card
        channel := routed.channel
        childDeviceId := child.plan.id
        call := { call with
          bus := child.plan.bus, pollingAddress := child.plan.pollingAddress
          command := routed.command.toUInt16, request := routed.request, routingDepth := call.routingDepth + 1 }
        envelope := fun bytes =>
          [[routed.card], [routed.channel], [routed.delimiter], routed.address, [routed.command],
            [UInt8.ofNat bytes.length], bytes] }

def countExchange (statistics : List HartIoChannelStatistics) (card channel : UInt8) : List HartIoChannelStatistics :=
  match statistics.findIdx? fun entry => entry.ioCard == card && entry.channel == channel with
  | some i => statistics.modify i fun entry =>
      { entry with stxSent := entry.stxSent + 1, ackReceived := entry.ackReceived + 1 }
  | none => statistics ++ [{ ioCard := card, channel := channel, stxSent := 1, ackReceived := 1 }]

/-- The statistics of the parent after its sub-device answered. -/
def countRouted (device : RuntimeDevice ρ) (route : Route) : RuntimeDevice ρ :=
  device.modifyPlan fun plan => { plan with
    clientRequestsForwarded := plan.clientRequestsForwarded + 1
    clientResponsesReturned := plan.clientResponsesReturned + 1
    ioChannelStatistics := countExchange plan.ioChannelStatistics route.card route.channel
    subDevices := plan.subDevices.map fun link =>
      if link.childDeviceId = route.childDeviceId then
        { link with
          messagesSent := link.messagesSent + 1
          acknowledgementsReceived := link.acknowledgementsReceived + 1 }
      else link }

end RuntimeDevice

namespace HartEngine

def forward (nested : Execute ρ σ) (engine : HartEngine ρ σ) (selected : DeviceRef) (route : Option Route)
    (response : HartResponseBuilder) : Except Fault (Outcome ρ σ) :=
  match route with
  | none => .ok ⟨false, engine, response⟩
  | some route => do
    let child ← nested engine route.call { capacity := 255 }
    if ¬child.executed then return ⟨false, child.engine, response⟩
    let parent ← child.engine.deref selected
    let engine ← child.engine.store selected (parent.countRouted route)
    let written := response.write (route.envelope child.response.bytes)
    return ⟨written.1, engine, written.2⟩

end HartEngine

def parseEmbedded : Nat → Bytes → Option (List (HartCommandId × Bytes))
  | 0, [] => some []
  | n + 1, high :: low :: length :: rest =>
    let inner := readU16 high low
    if inner = 31 ∨ inner = 78 ∨ rest.length < length.toNat then none
    else (parseEmbedded n (rest.drop length.toNat)).map ((inner, rest.take length.toNat) :: ·)
  | _, _ => none

/-- The embedded commands of a well-formed request. -/
def embeddedCommands (request : Bytes) : Option (List (HartCommandId × Bytes)) :=
  match request with
  | requested :: rest =>
    if 255 < request.length ∨ requested = 0 ∨ 32 < requested then none else parseEmbedded requested.toNat rest
  | [] => none

structure AggregateResult where
  command : HartCommandId
  bytes : Bytes
  success : Bool
  deriving DecidableEq, Repr

def AggregateResult.fields (result : AggregateResult) : List Bytes :=
  put16 result.command ++ [[UInt8.ofNat result.bytes.length], [if result.success then 0 else 6], result.bytes]

namespace HartEngine

/-- The embedded commands one after another, `run` executing one of them. -/
def runEmbedded (run : HartEngine ρ σ → HartCommandId → Bytes → Except Fault (Outcome ρ σ)) :
    HartEngine ρ σ → List (HartCommandId × Bytes) → Except Fault (HartEngine ρ σ × List AggregateResult)
  | staged, [] => .ok (staged, [])
  | staged, (command, request) :: rest => do
    let outcome ← run staged command request
    let (staged, results) ← runEmbedded run outcome.engine rest
    return (staged, ⟨command, if outcome.executed then outcome.response.bytes else [], outcome.executed⟩ :: results)

def embeddedCall (call : Call) (command : HartCommandId) (request : Bytes) : Call :=
  { call with command := command, request := request, routingDepth := 0 }

def aggregateCommands (nested : Execute ρ σ) (engine : HartEngine ρ σ) (call : Call)
    (response : HartResponseBuilder) : Except Fault (Outcome ρ σ) :=
  match embeddedCommands call.request with
  | none => .ok ⟨false, engine, response⟩
  | some embedded => do
    let (staged, results) ← runEmbedded
      (fun staged command request => nested staged (embeddedCall call command request) { capacity := 255 })
      engine embedded
    -- native handlers are shared with the staged engine, so their state is never rolled back
    let engine := { engine with handlers := staged.handlers }
    match response.write ([[0], [call.request.headD 0]] ++ results.flatMap AggregateResult.fields) with
    | (true, response) => return ⟨true, engine.replaceDevices staged.devices, response⟩
    | (false, response) => return ⟨false, engine, response⟩

end HartEngine

/-! ### Command programs -/

namespace RuntimeDevice

def effectivePlan (device : RuntimeDevice ρ) (virtualTimeSeconds : Nat) : HartDevicePlan ρ :=
  { device.plan with
    virtualTimeSeconds := virtualTimeSeconds
    variableConfigurations := device.plan.variableConfigurations.zipIdx.map fun (entry, i) =>
      { entry with value := device.variableValues.getD i entry.value } }

/-- `static_cast<double>((static_cast<uint32_t>(std::max(0.0, value)) + 1u) % 256u)`. -/
def nextOperationCount (value : Float) : Float :=
  (((if 0.0 < value then value else 0.0).toUInt32 + 1) % 256).toFloat

def countOperation (plan : HartDevicePlan ρ) (command : HartCommandId) (counter : OperationCounter) :
    HartDevicePlan ρ :=
  if counter.command ≠ command then plan
  else { plan with
    variableConfigurations := plan.variableConfigurations.map fun entry =>
      if entry.id = counter.variableId then
        { entry with value := nextOperationCount entry.value, runtimeMutable := true }
      else entry }

def configurationChanged (device : RuntimeDevice ρ) (command : HartCommandId) (plan : HartDevicePlan ρ) :
    HartDevicePlan ρ :=
  if plan.configurationChangedCounter = device.plan.configurationChangedCounter then plan
  else device.profile.operationCounters.foldl (countOperation · command ·)
    { plan with configurationChangedMasters := 0x03 }

def trendChanged (before after : HartDevicePlan ρ) : Bool :=
  before.trendCount != after.trendCount || before.trends != after.trends

def actionChanged (before after : HartDevicePlan ρ) : Bool :=
  before.actionCount != after.actionCount || (List.range 4).any fun i =>
    let action (plan : HartDevicePlan ρ) := plan.synchronousActions.getD i {}
    let command (plan : HartDevicePlan ρ) := plan.commandActions.getD i {}
    (action before).control != (action after).control ||
      (action before).triggerSeconds != (action after).triggerSeconds ||
      (command before).command != (command after).command ||
      (command before).requestData != (command after).requestData

/-- The device after the plan a program left was written back. -/
def commitPlan (device : RuntimeDevice ρ) (command : HartCommandId) (plan : HartDevicePlan ρ) : RuntimeDevice ρ :=
  let plan := device.configurationChanged command plan
  let trendReset := trendChanged device.plan plan
  { device with
    plan := plan
    trendSampleCounts := if trendReset then Vector.replicate 4 0 else device.trendSampleCounts
    trendSampleNext := if trendReset then Vector.replicate 4 0 else device.trendSampleNext
    trendNextSampleTime := if trendReset then Vector.replicate 4 0 else device.trendNextSampleTime
    actionFired := if actionChanged device.plan plan then Vector.replicate 4 false else device.actionFired
    variableValues := device.variableValues.zipIdx.map fun (value, i) =>
      match plan.variableConfigurations[i]? with
      | some entry => if entry.writable ∨ entry.runtimeMutable then entry.value else value
      | none => value }

/-- The value and the status a catch mapping takes from the response. -/
def caughtFrom (command : HartCommandId) (bytes : Bytes) (slot : UInt8) : Option (Float32 × UInt8) :=
  let float (offset : Nat) := Float32.ofBits <|
    readU32 (bytes.getD offset 0) (bytes.getD (offset + 1) 0) (bytes.getD (offset + 2) 0) (bytes.getD (offset + 3) 0)
  let found : Option (Float32 × UInt8) :=
    if command = 1 ∧ 5 ≤ bytes.length ∧ slot = 0 then some (float 1, 0)
    else if command = 3 ∧ 9 ≤ bytes.length ∧ slot < 4 then
      let offset := 1 + slot.toNat * 5
      if offset + 5 ≤ bytes.length then some (float (offset + 1), bytes.getD offset 0) else none
    else none
  found.filter (·.1.isFinite)

/-- The mapping takes responses to this command of the device at this address. -/
def catches (mapping : HartCatchConfiguration) (command : HartCommandId) (pollingAddress : UInt8) : Bool :=
  mapping.captureMode == 1 && mapping.sourceCommand == command && mapping.destinationDeviceVariable != 250 &&
    (mapping.sourceAddress.getD 4 0 == 0 || mapping.sourceAddress.getD 4 0 == pollingAddress)

def catchInto (command : HartCommandId) (pollingAddress : UInt8) (bytes : Bytes) (time : Nat)
    (receiver : RuntimeDevice ρ) (catchIndex : Nat) : RuntimeDevice ρ :=
  let mapping := receiver.plan.catchConfigurations.getD catchIndex {}
  match if catches mapping command pollingAddress then caughtFrom command bytes mapping.sourceSlot else none with
  | none => receiver
  | some (caught, status) => { receiver with
      caughtValues := receiver.caughtValues.setIfInBounds catchIndex caught
      caughtStatuses := receiver.caughtStatuses.setIfInBounds catchIndex status
      caughtTimestamps := receiver.caughtTimestamps.setIfInBounds catchIndex time
      caughtValid := receiver.caughtValid.setIfInBounds catchIndex true
      variableValues := receiver.variableValues.zipIdx.map fun (value, i) =>
        match receiver.plan.variableConfigurations[i]? with
        | some entry => if entry.deviceVariableCode = mapping.destinationDeviceVariable then caught.toFloat else value
        | none => value }

/-- The catch mappings of a device see the response. -/
def observe (receiver : RuntimeDevice ρ) (command : HartCommandId) (pollingAddress : UInt8) (bytes : Bytes)
    (time : Nat) : RuntimeDevice ρ :=
  (List.range 8).foldl (catchInto command pollingAddress bytes time) receiver

end RuntimeDevice

namespace HartEngine

/-- Every catch mapping sees the response. -/
def observe (engine : HartEngine ρ σ) (command : HartCommandId) (pollingAddress : UInt8) (bytes : Bytes) :
    HartEngine ρ σ :=
  { engine with
    devices := engine.devices.map (·.observe command pollingAddress bytes engine.virtualTimeSeconds) }

def runProgram (host : Host ρ σ) (engine : HartEngine ρ σ) (selected : DeviceRef) (call : Call)
    (response : HartResponseBuilder) : Except Fault (Outcome ρ σ) :=
  match host.programHook with
  | none => .ok ⟨false, engine, response⟩
  | some programHook => do
    let device ← engine.deref selected
    let (executed, plan, response) := programHook device.profile (device.effectivePlan engine.virtualTimeSeconds)
      device.evaluatePrimary call.command call.request response call.masterRole
    if ¬executed then return ⟨false, engine, response⟩
    let device := device.commitPlan call.command plan
    let engine ← engine.store selected device
    return ⟨true, engine.observe call.command device.plan.pollingAddress response.bytes, response⟩

/-- `execute` from the check of the command on, `device` being the selected one. -/
def respond (host : Host ρ σ) (nested : Execute ρ σ) (engine : HartEngine ρ σ) (selected : DeviceRef)
    (device : RuntimeDevice ρ) (call : Call) (response : HartResponseBuilder) : Except Fault (Outcome ρ σ) :=
  match device.answerEarly call response with
  | some answer => engine.finish selected answer
  | none =>
    match host.handler call.command with
    | some custom =>
      let (handlers, executed, response) :=
        custom engine.handlers ⟨call.pollingAddress, call.command.toUInt8, call.request⟩ response
      .ok ⟨executed, { engine with handlers := handlers }, response⟩
    | none =>
      if device.locked call.command call.masterRole then
        engine.finish selected (.reply device (response.fail HartResponseCodes.accessRestricted))
      else
        match device.answerBuiltIn engine.devices call response with
        | some answer => engine.finish selected answer
        | none =>
          if call.command = 0x4B then
            engine.forward nested selected (device.identityRoute engine.devices call) response
          else if call.command = 0x4D then
            engine.forward nested selected (device.commandRoute engine.devices call) response
          else if call.command = 0x4E then engine.aggregateCommands nested call response
          else engine.runProgram host selected call response

/-- `execute` on the device at index `i`. -/
def executeOn (host : Host ρ σ) (nested : Execute ρ σ) (i : Nat) : Execute ρ σ := fun engine call response => do
  let selected : DeviceRef := ⟨engine.generation, i⟩
  let device ← engine.deref selected
  let device := device.receive.prepare call
  let engine ← engine.store selected device
  respond host nested engine selected device call response

def executeWith (host : Host ρ σ) (nested : Execute ρ σ) : Execute ρ σ := fun engine call response =>
  match engine.lookup call.bus call.pollingAddress with
  | none => .ok ⟨false, engine, response⟩
  | some i => executeOn host nested i engine call response

def executeNested (host : Host ρ σ) : Nat → Execute ρ σ
  | 0 => fun _ _ _ => .error .nesting
  | depth + 1 => executeWith host (executeNested host depth)

/-- `HartEngine::execute`. -/
def execute (host : Host ρ σ) : Execute ρ σ := fun engine call response =>
  executeNested host (call.request.length + 1) engine call response

end HartEngine

end LasecSimul.Hart
