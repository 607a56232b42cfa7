import LasecSimul.Hart.Addressed
import LasecSimul.Hart.Engine

/-!
# Virtual time

`HartEngine::setVirtualTimeSeconds`: trend samples, due synchronous actions and due bursts of every
device. Actions and bursts execute commands while references to the device are held.
-/

namespace LasecSimul.Hart

variable {ρ σ : Type}

namespace RuntimeDevice

def trendValue (device : RuntimeDevice ρ) (code : UInt8) : Float32 :=
  if code = 246 then
    device.plan.variableConfigurations.foldl
      (fun value entry => if entry.deviceVariableCode = 246 then value + entry.trimAdjustment else value)
      device.evaluatePrimary.toFloat32
  else
    (device.plan.variableConfigurations.zip device.variableValues).foldl
      (fun value (entry, live) =>
        if entry.deviceVariableCode = code then (live + entry.trimAdjustment.toFloat).toFloat32 else value)
      quietNaN

def sampleTrend (device : RuntimeDevice ρ) (trendIndex timestamp : Nat) : RuntimeDevice ρ :=
  let configuration := device.plan.trends.getD trendIndex {}
  if device.plan.trendCount.toNat ≤ trendIndex ∨ 4 ≤ trendIndex ∨ configuration.control = 0 then device
  else
    let value := device.trendValue configuration.deviceVariableCode
    let count := device.trendSampleCounts.getD trendIndex 0
    let next := device.trendSampleNext.getD trendIndex 0
    let ring := device.trendSamples.getD trendIndex (Vector.replicate 12 {})
    { device with
      trendSamples := device.trendSamples.setIfInBounds trendIndex <|
        ring.setIfInBounds next.toNat { timestamp, value, status := if value.isFinite then 0 else 0x30 }
      trendSampleNext := device.trendSampleNext.setIfInBounds trendIndex ((next + 1) % 12)
      trendSampleCounts := device.trendSampleCounts.setIfInBounds trendIndex (if count < 12 then count + 1 else count) }

/-- The samples due by `current`, at most as many as `guard`. -/
def sampleDue (trendIndex current : Nat) : Nat → RuntimeDevice ρ → RuntimeDevice ρ
  | 0, device => device
  | guard + 1, device =>
    let next := device.trendNextSampleTime.getD trendIndex 0
    if current < next then device
    else
      let sampled := device.sampleTrend trendIndex next
      let period := (device.plan.trends.getD trendIndex {}).samplePeriodSeconds.toNat
      sampleDue trendIndex current guard
        { sampled with trendNextSampleTime := sampled.trendNextSampleTime.setIfInBounds trendIndex (next + period) }

def advanceTrend (previous current : Nat) (device : RuntimeDevice ρ) (trendIndex : Nat) : RuntimeDevice ρ :=
  let configuration := device.plan.trends.getD trendIndex {}
  if device.plan.trendCount.toNat ≤ trendIndex ∨ configuration.control = 0 ∨ configuration.samplePeriodSeconds = 0 then
    device
  else
    let started :=
      if device.trendNextSampleTime.getD trendIndex 0 = 0 then { device with
        trendNextSampleTime := device.trendNextSampleTime.setIfInBounds trendIndex
          (previous + configuration.samplePeriodSeconds.toNat) }
      else device
    sampleDue trendIndex current 64 started

def advanceTrends (device : RuntimeDevice ρ) (previous current : Nat) : RuntimeDevice ρ :=
  (List.range 4).foldl (advanceTrend previous current) device

def actionDue (device : RuntimeDevice ρ) (i current : Nat) : Bool :=
  let action := device.plan.synchronousActions.getD i {}
  decide (i < device.plan.actionCount.toNat) && action.control &&& 0x80 != 0 && !device.actionFired.getD i false &&
    decide (action.triggerSeconds ≤ current)

/-- The action carries a command. -/
def actionExecutes (device : RuntimeDevice ρ) (i : Nat) : Bool :=
  (device.plan.synchronousActions.getD i {}).control &&& 0x01 != 0

def actionCall (device : RuntimeDevice ρ) (i : Nat) : Call :=
  let commandAction := device.plan.commandActions.getD i {}
  { bus := device.plan.bus
    pollingAddress := device.plan.pollingAddress
    command := commandAction.command
    request := commandAction.requestData
    routingDepth := 1 }

def completeAction (device : RuntimeDevice ρ) (i : Nat) : RuntimeDevice ρ :=
  let action := device.plan.synchronousActions.getD i {}
  let action :=
    if action.control &&& 0x10 ≠ 0 then { action with control := action.control &&& ~~~0x80 }
    else { action with triggerSeconds := action.triggerSeconds + 86400 }
  { device with
    actionFired := device.actionFired.setIfInBounds i true
    plan := { device.plan with synchronousActions := device.plan.synchronousActions.setIfInBounds i action } }

/-! ### Bursts -/

def burstPeriodSeconds (ticks : UInt32) : Nat := if ticks = 0 then 1 else max 1 ((ticks.toNat + 31999) / 32000)

def burst (device : RuntimeDevice ρ) (index : Nat) : HartBurstConfiguration := device.plan.burstMessages.getD index {}

def burstTime (device : RuntimeDevice ρ) (index : Nat) : Nat := device.burstNextSampleTime.getD index 0

def setBurstTime (device : RuntimeDevice ρ) (index time : Nat) : RuntimeDevice ρ :=
  { device with burstNextSampleTime := device.burstNextSampleTime.setIfInBounds index time }

/-- The message at `index` is not sent. -/
def burstIdle (device : RuntimeDevice ρ) (index : Nat) : Bool :=
  decide (device.plan.burstMessageCount.toNat ≤ index) || (device.burst index).control == 0 ||
    (device.burst index).command == 0xFFFF

def maximumBurstPeriod (device : RuntimeDevice ρ) (index : Nat) : Nat :=
  burstPeriodSeconds (device.burst index).maximumUpdatePeriodTicks

def startBurst (device : RuntimeDevice ρ) (index previous : Nat) : RuntimeDevice ρ :=
  if device.burstTime index = 0 then device.setBurstTime index (previous + device.maximumBurstPeriod index) else device

/-- The value a burst trigger looks at. -/
def burstSource (source : RuntimeDevice ρ) (code : UInt8) : Float32 :=
  let primary := source.evaluatePrimary.toFloat32
  if code = 250 ∨ code = 246 then primary
  else (source.plan.variableConfigurations.zip source.variableValues).foldl
    (fun value (entry, live) => if entry.deviceVariableCode = code then live.toFloat32 else value) primary

def burstTriggered (configuration : HartBurstConfiguration) (last triggerSource : Float32) : Bool :=
  configuration.triggerMode == 0 || (configuration.triggerValue.isFinite &&
    (configuration.triggerMode == 1 &&
        (!last.isFinite || decide (configuration.triggerValue ≤ (triggerSource - last).abs)) ||
      configuration.triggerMode == 2 && decide (configuration.triggerValue < triggerSource) ||
      configuration.triggerMode == 3 && decide (triggerSource < configuration.triggerValue)))

def burstCall (source : RuntimeDevice ρ) (command : HartCommandId) : Call :=
  { bus := source.plan.bus, pollingAddress := source.plan.pollingAddress, command, routingDepth := 1 }

/-- The device after its burst message was executed on the device `sourceId`. -/
def recordBurst (device : RuntimeDevice ρ) (index : Nat) (sourceId : String) (emitted : Bool) (payload : Bytes)
    (triggered : Bool) (triggerSource : Float32) : RuntimeDevice ρ :=
  let configuration := device.burst index
  let time := device.burstTime index
  let event : HartBurstEvent := {
    deviceId := sourceId, burstMessage := UInt8.ofNat index, command := configuration.command
    timestamp := time, payload }
  let period := burstPeriodSeconds <|
    if triggered then configuration.updatePeriodTicks else configuration.maximumUpdatePeriodTicks
  { device.setBurstTime index (time + period) with
    burstEvents := if emitted ∧ device.burstEvents.length < 32 then device.burstEvents ++ [event] else device.burstEvents
    burstLastValues := device.burstLastValues.setIfInBounds index triggerSource }

end RuntimeDevice

namespace HartEngine

/-- The command of the action at index `i`, if it carries one. -/
def performAction (host : Host ρ σ) (engine : HartEngine ρ σ) (device : RuntimeDevice ρ) (i : Nat) :
    Except Fault (HartEngine ρ σ) :=
  if device.actionExecutes i then (execute host engine (device.actionCall i) { capacity := 255 }).map (·.engine)
  else .ok engine

def runDueAction (host : Host ρ σ) (ref : DeviceRef) (current : Nat) (engine : HartEngine ρ σ) (i : Nat) :
    Except Fault (HartEngine ρ σ) := do
  let device ← engine.deref ref
  if ¬device.actionDue i current then return engine
  let engine ← engine.performAction host device i
  let device ← engine.deref ref
  engine.store ref (device.completeAction i)

def runDueActions (host : Host ρ σ) (ref : DeviceRef) (current : Nat) (engine : HartEngine ρ σ) :
    Except Fault (HartEngine ρ σ) :=
  (List.range 4).foldlM (runDueAction host ref current) engine

/-- The device a burst message is executed on. -/
def burstSender (engine : HartEngine ρ σ) (ref : DeviceRef) (configuration : HartBurstConfiguration) :
    Option DeviceRef :=
  if configuration.mappedSubDeviceId = "" then some ref
  else (engine.devices.findIdx? (·.plan.id == configuration.mappedSubDeviceId)).map (⟨engine.generation, ·⟩)

/-- One burst of the message at `index`. -/
def emitBurst (host : Host ρ σ) (ref : DeviceRef) (index maximumPeriod : Nat) (engine : HartEngine ρ σ) :
    Except Fault (HartEngine ρ σ) := do
  let device ← engine.deref ref
  let configuration := device.burst index
  match engine.burstSender ref configuration with
  | none => engine.store ref (device.setBurstTime index (device.burstTime index + maximumPeriod))
  | some source =>
    let sender ← engine.deref source
    let triggerSource := sender.burstSource configuration.deviceVariableCode
    let triggered := RuntimeDevice.burstTriggered configuration (device.burstLastValues.getD index 0.0) triggerSource
    let outcome ← execute host engine (sender.burstCall configuration.command) { capacity := 255 }
    let sender ← outcome.engine.deref source
    let device ← outcome.engine.deref ref
    outcome.engine.store ref <|
      device.recordBurst index sender.plan.id outcome.executed outcome.response.bytes triggered triggerSource

def runBurst (host : Host ρ σ) (ref : DeviceRef) (index maximumPeriod current : Nat) :
    Nat → HartEngine ρ σ → Except Fault (HartEngine ρ σ)
  | 0, engine => .ok engine
  | guard + 1, engine => do
    let device ← engine.deref ref
    if current < device.burstTime index then return engine
    let engine ← engine.emitBurst host ref index maximumPeriod
    runBurst host ref index maximumPeriod current guard engine

def runDueBurst (host : Host ρ σ) (ref : DeviceRef) (previous current : Nat) (engine : HartEngine ρ σ)
    (index : Nat) : Except Fault (HartEngine ρ σ) := do
  let device ← engine.deref ref
  if device.burstIdle index then return engine
  let engine ← engine.store ref (device.startBurst index previous)
  engine.runBurst host ref index (device.maximumBurstPeriod index) current 64

def runDueBursts (host : Host ρ σ) (ref : DeviceRef) (previous current : Nat) (engine : HartEngine ρ σ) :
    Except Fault (HartEngine ρ σ) :=
  (List.range 3).foldlM (runDueBurst host ref previous current) engine

def advanceDevice (host : Host ρ σ) (previous current : Nat) (engine : HartEngine ρ σ) (ref : DeviceRef) :
    Except Fault (HartEngine ρ σ) := do
  let device ← engine.deref ref
  let engine ← engine.store ref (device.advanceTrends previous current)
  let engine ← engine.runDueActions host ref current
  engine.runDueBursts host ref previous current

/-- The references a range-for over `m_devices` goes through. -/
def references (engine : HartEngine ρ σ) : List DeviceRef :=
  (List.range engine.devices.length).map (DeviceRef.mk engine.generation)

def advanceVirtualState (host : Host ρ σ) (previous current : Nat) (engine : HartEngine ρ σ) :
    Except Fault (HartEngine ρ σ) :=
  engine.references.foldlM (advanceDevice host previous current) engine

def setVirtualTimeSeconds (host : Host ρ σ) (engine : HartEngine ρ σ) (seconds : Nat) :
    Except Fault (HartEngine ρ σ) :=
  let previous := engine.virtualTimeSeconds
  let engine := { engine with virtualTimeSeconds := seconds }
  if previous ≤ seconds then engine.advanceVirtualState host previous seconds else .ok engine

end HartEngine

end LasecSimul.Hart

/-!
## Sessions

The other entry points of `HartEngine`, and runs of any of them from a new engine. The native handlers,
the command programs and the profiles may differ from one operation to the next.
-/

namespace LasecSimul.Hart

variable {ρ σ : Type}

namespace HartEngine

/-! ### Plans and injected values -/

def loadPlan (host : Host ρ σ) (engine : HartEngine ρ σ) (plan : List (HartDevicePlan ρ)) : Bool × HartEngine ρ σ :=
  let resolved := do
    let devices ← (compile host.profiles plan).toOption
    devices.mapM fun device => (host.profiles device.profileId).map fun profile =>
      { plan := device, profile, variableValues := device.variableConfigurations.map (·.value) : RuntimeDevice ρ }
  match resolved with
  | some devices => (true, engine.replaceDevices devices)
  | none => (false, engine)

def clear (engine : HartEngine ρ σ) : HartEngine ρ σ := engine.replaceDevices []

/-- A write to the first device with this id; refused without one, or when `write` refuses it. -/
def updateDevice (engine : HartEngine ρ σ) (deviceId : String) (write : RuntimeDevice ρ → Option (RuntimeDevice ρ)) :
    Bool × HartEngine ρ σ :=
  match engine.devices.findIdx? (·.plan.id == deviceId) with
  | none => (false, engine)
  | some i =>
    match engine.devices[i]?.bind write with
    | none => (false, engine)
    | some device => (true, { engine with devices := engine.devices.set i device })

/-- The values of the variables `selects`, set to `value`. -/
def setValues (device : RuntimeDevice ρ) (selects : VariableConfiguration → Bool) (value : Float) : RuntimeDevice ρ :=
  { device with variableValues := device.variableValues.zipIdx.map fun (live, i) =>
      if (device.plan.variableConfigurations[i]?.map selects).getD false then value else live }

def setPrimaryValue (engine : HartEngine ρ σ) (deviceId : String) (value : Float) : Bool × HartEngine ρ σ :=
  if ¬value.isFinite then (false, engine)
  else engine.updateDevice deviceId fun device => some <|
    setValues (device.modifyPlan fun plan => { plan with primaryValue := value })
      (fun entry => entry.id == "PV" || entry.id == "primary") value

/-- Writes the first variable with this id, when it passes `accepts`. -/
def writeVariable (accepts : VariableConfiguration → Bool) (variableId : String) (value : Float)
    (device : RuntimeDevice ρ) : Option (RuntimeDevice ρ) :=
  match device.plan.variableConfigurations.findIdx? (·.id == variableId) with
  | none => none
  | some i =>
    if (device.plan.variableConfigurations[i]?.map accepts).getD false then
      some { device with variableValues := device.variableValues.set i value }
    else none

def setVariableInput (engine : HartEngine ρ σ) (deviceId variableId : String) (value : Float) : Bool × HartEngine ρ σ :=
  if ¬value.isFinite then (false, engine)
  else engine.updateDevice deviceId (writeVariable (·.direction == .input) variableId value)

def setMeasuredVariable (engine : HartEngine ρ σ) (deviceId variableId : String) (value : Float) :
    Bool × HartEngine ρ σ :=
  if ¬value.isFinite then (false, engine)
  else engine.updateDevice deviceId (writeVariable (fun _ => true) variableId value)

/-- Changes the first override of the command. -/
def writeConfiguration (command : HartCommandId) (change : CommandConfiguration → CommandConfiguration)
    (device : RuntimeDevice ρ) : Option (RuntimeDevice ρ) :=
  (device.plan.commandConfigurations.findIdx? (·.command == command)).map fun i =>
    device.modifyPlan fun plan => { plan with commandConfigurations := plan.commandConfigurations.modify i change }

def setCommandEnabled (engine : HartEngine ρ σ) (deviceId : String) (command : HartCommandId) (enabled : Bool) :
    Bool × HartEngine ρ σ :=
  engine.updateDevice deviceId (writeConfiguration command ({ · with enabled := enabled }))

def setCommandResponse (engine : HartEngine ρ σ) (deviceId : String) (command : HartCommandId) (response : Bytes) :
    Bool × HartEngine ρ σ :=
  if 255 < response.length then (false, engine)
  else engine.updateDevice deviceId
    (writeConfiguration command ({ · with hasStaticResponse := true, staticResponse := response }))

def recordDiagnostic (device : RuntimeDevice ρ) (status : UInt8) (time : Nat) : RuntimeDevice ρ :=
  if device.plan.statusSimulationEnabled then device
  else
    let changed := device.plan.diagnosticStatus ^^^ status
    let configuration := device.plan.eventNotification
    let device := device.modifyPlan fun plan => { plan with diagnosticStatus := status }
    if configuration.control ≠ 0 ∧ (changed &&& configuration.deviceStatusMask ≠ 0 ∨
        changed &&& configuration.eventMask.getD 0 0 ≠ 0) ∧ device.eventRecords.length < 8 then
      { device with eventRecords := device.eventRecords ++ [{
          timestamp := time
          deviceStatus := status.toUInt16
          command48Data := (Vector.replicate 25 0).setIfInBounds 0 status }] }
    else device

def setDiagnosticStatus (engine : HartEngine ρ σ) (deviceId : String) (status : UInt8) : Bool × HartEngine ρ σ :=
  engine.updateDevice deviceId fun device => some (recordDiagnostic device status engine.virtualTimeSeconds)

def setSensorFault (engine : HartEngine ρ σ) (deviceId : String) (fault : Bool) : Bool × HartEngine ρ σ :=
  engine.updateDevice deviceId fun device => some (device.modifyPlan fun plan => { plan with sensorFault := fault })

def takeBurstEvents (engine : HartEngine ρ σ) (deviceId : String) : List HartBurstEvent × HartEngine ρ σ :=
  (((engine.devices.find? (·.plan.id == deviceId)).map (·.burstEvents)).getD [],
    (engine.updateDevice deviceId fun device => some { device with burstEvents := [] }).2)

end HartEngine

inductive Operation (ρ : Type) where
  | loadPlan (plan : List (HartDevicePlan ρ))
  | clear
  | execute (call : Call) (response : HartResponseBuilder)
  | executeAddressed (bus : String) (address : HartFrameAddress) (command : HartCommandId) (request : Bytes)
      (response : HartResponseBuilder)
  | setVirtualTimeSeconds (seconds : Nat)
  | setPrimaryValue (deviceId : String) (value : Float)
  | setVariableInput (deviceId variableId : String) (value : Float)
  | setMeasuredVariable (deviceId variableId : String) (value : Float)
  | setCommandEnabled (deviceId : String) (command : HartCommandId) (enabled : Bool)
  | setCommandResponse (deviceId : String) (command : HartCommandId) (response : Bytes)
  | setDiagnosticStatus (deviceId : String) (status : UInt8)
  | setSensorFault (deviceId : String) (fault : Bool)
  | takeBurstEvents (deviceId : String)

open HartEngine in
/-- The engine after an operation. -/
def Operation.perform (host : Host ρ σ) (engine : HartEngine ρ σ) : Operation ρ → Except Fault (HartEngine ρ σ)
  | .loadPlan plan => .ok (engine.loadPlan host plan).2
  | .clear => .ok engine.clear
  | .execute call response => (HartEngine.execute host engine call response).map (·.engine)
  | .executeAddressed bus address command request response =>
    (HartEngine.executeAddressed host engine bus address command request response).map (·.2.1)
  | .setVirtualTimeSeconds seconds => engine.setVirtualTimeSeconds host seconds
  | .setPrimaryValue deviceId value => .ok (engine.setPrimaryValue deviceId value).2
  | .setVariableInput deviceId variableId value => .ok (engine.setVariableInput deviceId variableId value).2
  | .setMeasuredVariable deviceId variableId value => .ok (engine.setMeasuredVariable deviceId variableId value).2
  | .setCommandEnabled deviceId command enabled => .ok (engine.setCommandEnabled deviceId command enabled).2
  | .setCommandResponse deviceId command response => .ok (engine.setCommandResponse deviceId command response).2
  | .setDiagnosticStatus deviceId status => .ok (engine.setDiagnosticStatus deviceId status).2
  | .setSensorFault deviceId fault => .ok (engine.setSensorFault deviceId fault).2
  | .takeBurstEvents deviceId => .ok (engine.takeBurstEvents deviceId).2

/-- Operations one after another, each with what the engine is given at that time. -/
def run (engine : HartEngine ρ σ) (operations : List (Host ρ σ × Operation ρ)) : Except Fault (HartEngine ρ σ) :=
  operations.foldlM (fun engine (host, operation) => operation.perform host engine) engine

end LasecSimul.Hart
