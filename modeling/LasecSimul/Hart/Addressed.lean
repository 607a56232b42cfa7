import LasecSimul.Hart.Engine

/-!
# Addressed frames

`HartEngine::executeAddressed` and the Field Device Status it reports.
-/

namespace LasecSimul.Hart

variable {ρ σ : Type}

structure HartAnalogOutput where
  percentOfRange : Float32 := 0.0
  outputPercent : Float32 := 0.0
  milliamps : Float32 := 4.0
  saturated : Bool := false

structure HartTransferSettings where
  function : UInt8 := 0
  cutoffPercent : Float32 := 0.0
  cutoffMode : UInt8 := 0

def hartTransferSettings (plan : HartDevicePlan ρ) : HartTransferSettings :=
  plan.variableConfigurations.foldl
    (fun settings entry =>
      if entry.transferParameter = 1 then { settings with cutoffPercent := entry.value.toFloat32 }
      else if entry.transferParameter = 2 then { settings with cutoffMode := entry.value.toUInt8 }
      else settings)
    { function := plan.pvTransferFunctionCode }

/-- The percent of range after the transfer function. -/
def transferPercent (transfer : HartTransferSettings) (inputPercent : Float32) : Float32 :=
  if transfer.function = 1 ∧ inputPercent.isFinite then
    let cutoff : Float32 :=
      if transfer.cutoffPercent < 0.0 then 0.0 else if 100.0 < transfer.cutoffPercent then 100.0
      else transfer.cutoffPercent
    if inputPercent < cutoff ∧ 0.0 < cutoff then
      if transfer.cutoffMode = 0 then 0.0 else inputPercent * (10.0 / cutoff.sqrt)
    else if inputPercent ≤ 0.0 then 0.0
    else 10.0 * inputPercent.sqrt
  else inputPercent

/-- The output percent between the saturation limits, and whether it sits at one. -/
def saturate (lower upper percent : Float32) : Float32 × Bool :=
  let low := lower.isFinite ∧ percent ≤ lower
  let percent := if low then lower else percent
  let high := upper.isFinite ∧ upper ≤ percent
  (if high then upper else percent, low ∨ high)

def hartEvaluateAnalogOutput (primaryValue : Float) (lowerRangeValue upperRangeValue lowerSaturationPercent
    upperSaturationPercent : Float32) (fixedCurrentMode : Bool) (fixedCurrentMilliamps zeroTrim gainTrim : Float32)
    (loopCurrentMode : UInt8) (alarmMilliamps : Float32) (transfer : HartTransferSettings) : HartAnalogOutput :=
  let span := upperRangeValue - lowerRangeValue
  let ratio : Float32 := if span == 0.0 then 0.0 else (primaryValue.toFloat32 - lowerRangeValue) / span
  let percentOfRange := transferPercent transfer (ratio * 100.0)
  let (outputPercent, saturated) := saturate lowerSaturationPercent upperSaturationPercent percentOfRange
  let driven : Float32 := 4.0 + 16.0 * (outputPercent / 100.0)
  let output : HartAnalogOutput := {
    percentOfRange
    outputPercent := if fixedCurrentMode then (fixedCurrentMilliamps - 4.0) / 16.0 * 100.0 else outputPercent
    milliamps :=
      if fixedCurrentMode then fixedCurrentMilliamps
      else if loopCurrentMode = 0 then 4.0
      else (driven + zeroTrim) * gainTrim
    saturated := saturated && loopCurrentMode != 0 }
  if alarmMilliamps.isFinite ∧ ¬fixedCurrentMode ∧ loopCurrentMode ≠ 0 then { output with
    milliamps := alarmMilliamps
    outputPercent := (alarmMilliamps - 4.0) / 16.0 * 100.0
    saturated := true }
  else output

def hartAlarmMilliamps (profile : HartDeviceProfile) (plan : HartDevicePlan ρ) : Float32 :=
  if ¬plan.sensorFault then quietNaN
  else if plan.alarmSelectionCode = profile.analogAlarmHighCode then profile.analogAlarmHighMilliamps
  else if plan.alarmSelectionCode = profile.analogAlarmLowCode then profile.analogAlarmLowMilliamps
  else quietNaN

namespace HartDeviceStatusBits

def deviceMalfunction : UInt8 := 0x80
def configurationChanged : UInt8 := 0x40
def coldStart : UInt8 := 0x20
def moreStatusAvailable : UInt8 := 0x10
def loopCurrentFixed : UInt8 := 0x08
def loopCurrentSaturated : UInt8 := 0x04
def nonPrimaryVariableOutOfLimits : UInt8 := 0x02
def primaryVariableOutOfLimits : UInt8 := 0x01

end HartDeviceStatusBits

open HartDeviceStatusBits

namespace RuntimeDevice

/-- The out-of-limits bit of the variable at index `i`, `primary` being the index of the primary one. -/
def limitBit (device : RuntimeDevice ρ) (primary : Option Nat) (pv : Float) (entry : VariableConfiguration)
    (i : Nat) : UInt8 :=
  let isPrimary := primary == some i
  let value := if isPrimary then pv else device.variableValues.getD i entry.value
  if entry.upperTransducerLimit ≤ entry.lowerTransducerLimit then 0
  else if ¬isPrimary ∧ (entry.deviceVariableCode = 0xFF ∨ entry.derivedSource ≠ 0xFF) then 0
  else if entry.lowerTransducerLimit.toFloat ≤ value ∧ value ≤ entry.upperTransducerLimit.toFloat then 0
  else if isPrimary then primaryVariableOutOfLimits
  else nonPrimaryVariableOutOfLimits

def fieldDeviceStatus (device : RuntimeDevice ρ) (masterBit : UInt8) : UInt8 :=
  let plan := device.plan
  let profile := device.profile
  let primary := plan.variableConfigurations.findIdx? fun entry =>
    entry.deviceVariableCode == 246 || entry.role == .primaryVariable || entry.id == "PV" || entry.id == "primary"
  let pv := device.evaluatePrimary + plan.primaryVariableZeroOffset.toFloat
  let range (read : VariableConfiguration → Float32) (fallback : Float32) : Float32 :=
    match primary.bind (plan.variableConfigurations[·]?) with
    | some entry => if (read entry).isFinite then read entry else fallback
    | none => fallback
  let alarmMilliamps := hartAlarmMilliamps profile plan
  let analog := hartEvaluateAnalogOutput pv (range (·.lowerRangeValue) profile.lowerRangeValue)
    (range (·.upperRangeValue) profile.upperRangeValue) profile.analogLowerSaturationPercent
    profile.analogUpperSaturationPercent false 0.0 0.0 1.0 plan.loopCurrentMode alarmMilliamps
    (hartTransferSettings plan)
  let burnout := alarmMilliamps.isFinite && plan.loopCurrentMode != 0
  let bit (condition : Bool) (value : UInt8) : UInt8 := if condition then value else 0
  let stored := plan.diagnosticStatus &&& (deviceMalfunction ||| moreStatusAvailable |||
    nonPrimaryVariableOutOfLimits ||| primaryVariableOutOfLimits)
  let status := stored |||
    bit (plan.configurationChangedMasters &&& masterBit != 0) HartDeviceStatusBits.configurationChanged |||
    bit (plan.coldStartMasters &&& masterBit != 0) coldStart ||| bit plan.fixedCurrentMode loopCurrentFixed |||
    bit (analog.saturated && !burnout) loopCurrentSaturated ||| bit burnout profile.burnoutStatus |||
    bit plan.sensorFault deviceMalfunction
  plan.variableConfigurations.zipIdx.foldl
    (fun status (entry, i) => status ||| device.limitBit primary pv entry i) status

/-- Cold Start after a response to this master. -/
def clearColdStart (device : RuntimeDevice ρ) (command : HartCommandId) (masterBit : UInt8) (executed : Bool) :
    RuntimeDevice ρ :=
  device.modifyPlan fun plan => { plan with
    coldStartMasters :=
      if executed ∧ command = 0x2A then 0x03
      else if command ≠ 0 ∨ ¬device.profile.coldStartKeptByCommand0 then plan.coldStartMasters &&& ~~~masterBit
      else plan.coldStartMasters }

end RuntimeDevice

structure HartFrameAddress where
  longFrame : Bool := false
  primaryMaster : Bool := true
  pollingAddress : UInt8 := 0
  longAddress : Vector UInt8 5 := Vector.replicate 5 0

structure HartAddressedReply where
  addressed : Bool := false
  executed : Bool := false
  responseCode : UInt8 := 0
  deviceStatus : UInt8 := 0
  responsePreambles : UInt8 := 5
  deriving DecidableEq, Repr

/-- The device owns the long address. -/
def RuntimeDevice.ownsLongAddress (device : RuntimeDevice ρ) (longAddress : Vector UInt8 5) : Bool :=
  longAddress.getD 0 0 &&& 0x3F == device.profile.manufacturerId.toUInt8 &&& 0x3F &&
    longAddress.getD 1 0 == device.profile.deviceType.toUInt8 &&
    longAddress.toList.drop 2 == parseDeviceIdHexEngine device.plan.uniqueId

namespace HartEngine

/-- The device `executeAddressed` selects. -/
def lookupFrame (engine : HartEngine ρ σ) (bus : String) (address : HartFrameAddress) : Option Nat :=
  engine.devices.findIdx? fun device => device.plan.bus == bus &&
    if address.longFrame then device.ownsLongAddress address.longAddress
    else device.plan.pollingAddress == address.pollingAddress

/-- HART 5 and later: every command except Command 0 needs the long frame. -/
def needsLongFrame (device : RuntimeDevice ρ) (address : HartFrameAddress) (command : HartCommandId) : Bool :=
  !address.longFrame && command != 0 && decide (5 ≤ device.profile.identity.universalCommandRevision)

def addressedCall (device : RuntimeDevice ρ) (bus : String) (address : HartFrameAddress) (command : HartCommandId)
    (request : Bytes) : Call :=
  { bus, pollingAddress := device.plan.pollingAddress, command, request
    masterRole := if address.primaryMaster then 0 else 1 }

def executeAddressed (host : Host ρ σ) (engine : HartEngine ρ σ) (bus : String) (address : HartFrameAddress)
    (command : HartCommandId) (request : Bytes) (response : HartResponseBuilder) :
    Except Fault (HartAddressedReply × HartEngine ρ σ × HartResponseBuilder) :=
  match engine.lookupFrame bus address with
  | none => .ok ({}, engine, response)
  | some i => do
    let selected : DeviceRef := ⟨engine.generation, i⟩
    let device ← engine.deref selected
    if needsLongFrame device address command then return ({}, engine, response)
    let masterBit : UInt8 := if address.primaryMaster then 0x01 else 0x02
    let reply : HartAddressedReply := { addressed := true, responsePreambles := device.plan.responsePreambles }
    let outcome ← execute host engine (addressedCall device bus address command request)
      (response.setResponseCode HartResponseCodes.success)
    if ¬outcome.executed ∧ outcome.response.noReply then
      return ({ reply with addressed := false }, outcome.engine, outcome.response)
    let responseCode :=
      if ¬outcome.executed ∧ outcome.response.responseCode = HartResponseCodes.success then
        if request = [] then HartResponseCodes.tooFewDataBytes else HartResponseCodes.invalidSelection
      else outcome.response.responseCode
    let device ← outcome.engine.deref selected
    let engine ← outcome.engine.store selected (device.clearColdStart command masterBit outcome.executed)
    return ({ reply with
      executed := outcome.executed, responseCode, deviceStatus := device.fieldDeviceStatus masterBit },
      engine, outcome.response)

end HartEngine

end LasecSimul.Hart
