import LasecSimul.Hart.Response

/-!
# HART devices

The profile, the plan and the runtime state of one device, with the fields `HartEngine` reads or
writes. The fields that only the command programs read are `rest` of the plan; those of a profile
are what its `id` stands for.
-/

namespace LasecSimul.Hart

def quietNaN : Float32 := Float32.ofBits 0x7FC00000

structure HartDeviceIdentity where
  universalCommandRevision : UInt8 := 7
  transmitterSpecificRevision : UInt8 := 1

structure OperationCounter where
  command : HartCommandId := 0
  variableId : String

structure HartDeviceProfile where
  id : String
  manufacturerId : UInt16 := 0
  deviceType : UInt16 := 0
  /-- Ids of the declared commands. -/
  commands : List HartCommandId := []
  identity : HartDeviceIdentity := {}
  upperRangeValue : Float32 := 100.0
  lowerRangeValue : Float32 := 0.0
  analogLowerSaturationPercent : Float32 := quietNaN
  analogUpperSaturationPercent : Float32 := quietNaN
  analogAlarmLowMilliamps : Float32 := quietNaN
  analogAlarmHighMilliamps : Float32 := quietNaN
  analogAlarmHighCode : UInt8 := 0
  analogAlarmLowCode : UInt8 := 1
  burnoutStatus : UInt8 := 0x04
  coldStartKeptByCommand0 : Bool := false
  operationCounters : List OperationCounter := []

/-! ### Plans -/

structure HartSubDeviceLink where
  childDeviceId : String
  ioCard : UInt8 := 0
  channel : UInt8 := 0
  pollingAddress : UInt8 := 0
  messagesSent : UInt16 := 0
  acknowledgementsReceived : UInt16 := 0
  backMessagesReceived : UInt16 := 0
  deriving DecidableEq, Repr

structure HartIoChannelStatistics where
  ioCard : UInt8 := 0
  channel : UInt8 := 0
  stxSent : UInt16 := 0
  ackReceived : UInt16 := 0
  ostxReceived : UInt16 := 0
  oackReceived : UInt16 := 0
  backReceived : UInt16 := 0
  deriving DecidableEq, Repr

structure HartTrendConfiguration where
  control : UInt8 := 0
  deviceVariableCode : UInt8 := 250
  samplePeriodSeconds : UInt32 := 0
  deriving DecidableEq, Repr

structure HartSynchronousActionConfiguration where
  control : UInt8 := 0
  deviceVariableCode : UInt8 := 251
  command : HartCommandId := 0xFFFF
  triggerSeconds : Nat := 0
  requestData : Bytes := []
  deriving DecidableEq, Repr

structure HartBurstConfiguration where
  control : UInt8 := 0
  command : HartCommandId := 1
  /-- The first of `deviceVariableCodes`. -/
  deviceVariableCode : UInt8 := 246
  updatePeriodTicks : UInt32 := 32000
  maximumUpdatePeriodTicks : UInt32 := 32000
  triggerMode : UInt8 := 0
  triggerValue : Float32 := quietNaN
  mappedSubDeviceId : String := ""

structure HartBurstEvent where
  deviceId : String
  burstMessage : UInt8 := 0
  command : HartCommandId := 0
  timestamp : Nat := 0
  payload : Bytes := []
  deriving DecidableEq, Repr

structure HartCatchConfiguration where
  destinationDeviceVariable : UInt8 := 250
  captureMode : UInt8 := 0
  sourceAddress : Vector UInt8 5 := Vector.replicate 5 0
  sourceSlot : UInt8 := 0
  sourceCommand : HartCommandId := 0
  deriving DecidableEq, Repr

structure HartEventNotificationConfiguration where
  control : UInt8 := 0
  retryTimeTicks : UInt32 := 32000
  maximumUpdateTimeTicks : UInt32 := 32000
  debounceTimeTicks : UInt32 := 32000
  deviceStatusMask : UInt8 := 0
  eventMask : Vector UInt8 25 := Vector.replicate 25 0
  deriving DecidableEq, Repr

structure HartEventNotificationRecord where
  timestamp : Nat := 0
  configurationChangedCounter : UInt32 := 0
  deviceStatus : UInt16 := 0
  command48Data : Vector UInt8 25 := Vector.replicate 25 0
  deriving DecidableEq, Repr

structure HartSubDeviceAssignment where
  index : UInt16 := 0
  ioCard : UInt8 := 0xFF
  channel : UInt8 := 0xFF
  manufacturerId : UInt16 := 0
  expandedDeviceType : UInt16 := 0
  deviceId : UInt32 := 0
  longTag : Vector UInt8 32 := Vector.replicate 32 0
  deviceRevision : UInt8 := 0
  status : UInt8 := 0
  childDeviceId : String := ""
  deriving DecidableEq, Repr

inductive HartVariableRole where
  | primaryVariable | secondaryVariable | tertiaryVariable | quaternaryVariable
  | internal | deviceSpecific | vendorSpecific | custom
  deriving DecidableEq, Repr

inductive HartVariableDirection where
  | internal | input | output
  deriving DecidableEq, Repr

structure CommandConfiguration where
  command : HartCommandId := 0
  enabled : Bool := true
  hasStaticResponse : Bool := false
  staticResponse : Bytes := []
  deriving DecidableEq, Repr

structure VariableConfiguration where
  id : String
  value : Float := 0.0
  role : HartVariableRole := .internal
  direction : HartVariableDirection := .internal
  runtimeMutable : Bool := false
  deviceVariableCode : UInt8 := 0xFF
  classification : UInt8 := 0
  upperTransducerLimit : Float32 := 0.0
  lowerTransducerLimit : Float32 := 0.0
  writable : Bool := false
  deviceVariableUnit : UInt8 := 250
  lowerRangeValue : Float32 := quietNaN
  upperRangeValue : Float32 := quietNaN
  trimAdjustment : Float32 := 0.0
  derivedSource : UInt8 := 0xFF
  transferParameter : UInt8 := 0

structure HartDevicePlan (ρ : Type) where
  id : String
  profileId : String
  bus : String := "hart-1"
  pollingAddress : UInt8 := 0
  uniqueId : String := ""
  primaryValue : Float := 0.0
  commandConfigurations : List CommandConfiguration := []
  variableConfigurations : List VariableConfiguration := []
  tag : String := ""
  /-- Bytes of the long tag. -/
  longTag : Bytes := []
  loopCurrentMode : UInt8 := 1
  pvTransferFunctionCode : UInt8 := 0
  alarmSelectionCode : UInt8 := 0xFB
  writeProtectCode : UInt8 := 0xFB
  writeProtectActiveCode : UInt16 := 1
  responsePreambles : UInt8 := 5
  fixedCurrentMode : Bool := false
  primaryVariableZeroOffset : Float32 := 0.0
  diagnosticStatus : UInt8 := 0
  eventManagerRegistered : Bool := false
  eventManagerOwner : UInt8 := 0
  statusSimulationEnabled : Bool := false
  simulatedStatusMask : Vector UInt8 208 := Vector.replicate 208 0
  simulatedStatusValues : Vector UInt8 208 := Vector.replicate 208 0
  lockCode : UInt8 := 0
  lockOwner : UInt8 := 0
  ioSystem : Bool := false
  ioMaximumCards : UInt8 := 1
  ioMaximumChannelsPerCard : UInt8 := 1
  subDevices : List HartSubDeviceLink := []
  assignmentCapacity : UInt8 := 0
  assignmentCount : UInt8 := 0
  assignments : Vector HartSubDeviceAssignment 32 := Vector.replicate 32 {}
  ioChannelStatistics : List HartIoChannelStatistics := []
  virtualTimeSeconds : Nat := 0
  configurationChangedCounter : UInt32 := 0
  trendCount : UInt8 := 0
  trends : Vector HartTrendConfiguration 4 := Vector.replicate 4 {}
  actionCount : UInt8 := 0
  synchronousActions : Vector HartSynchronousActionConfiguration 4 := Vector.replicate 4 {}
  commandActions : Vector HartSynchronousActionConfiguration 4 := Vector.replicate 4 {}
  burstMessageCount : UInt8 := 3
  burstMessages : Vector HartBurstConfiguration 3 := Vector.replicate 3 {}
  catchConfigurations : Vector HartCatchConfiguration 8 := Vector.replicate 8 {}
  /-- The one entry of `eventNotifications`. -/
  eventNotification : HartEventNotificationConfiguration := {}
  clientMessagesReceived : UInt32 := 0
  clientMessagesReturned : UInt32 := 0
  clientRequestsForwarded : UInt32 := 0
  clientResponsesReturned : UInt32 := 0
  deviceStxReceived : UInt16 := 0
  deviceAckSent : UInt16 := 0
  deviceBackSent : UInt16 := 0
  configurationChangedMasters : UInt8 := 0
  coldStartMasters : UInt8 := 0x03
  sensorFault : Bool := false
  rest : ρ

def HartDevicePlan.writeProtected {ρ : Type} (plan : HartDevicePlan ρ) : Bool :=
  plan.writeProtectCode.toUInt16 == plan.writeProtectActiveCode

structure TrendSample where
  timestamp : Nat := 0
  value : Float32 := quietNaN
  status : UInt8 := 0x30

structure RuntimeDevice (ρ : Type) where
  plan : HartDevicePlan ρ
  profile : HartDeviceProfile
  variableValues : List Float := []
  trendSamples : Vector (Vector TrendSample 12) 4 := Vector.replicate 4 (Vector.replicate 12 {})
  trendSampleCounts : Vector UInt8 4 := Vector.replicate 4 0
  trendSampleNext : Vector UInt8 4 := Vector.replicate 4 0
  trendNextSampleTime : Vector Nat 4 := Vector.replicate 4 0
  actionFired : Vector Bool 4 := Vector.replicate 4 false
  burstNextSampleTime : Vector Nat 3 := Vector.replicate 3 0
  burstLastValues : Vector Float32 3 := Vector.replicate 3 0.0
  burstEvents : List HartBurstEvent := []
  transferOpen : Bool := false
  transferPort : UInt8 := 250
  transferMaximumSegment : UInt8 := 0
  transferMasterCounter : UInt16 := 0
  transferDeviceCounter : UInt16 := 0
  caughtValues : Vector Float32 8 := Vector.replicate 8 0.0
  caughtStatuses : Vector UInt8 8 := Vector.replicate 8 0
  caughtTimestamps : Vector Nat 8 := Vector.replicate 8 0
  caughtValid : Vector Bool 8 := Vector.replicate 8 false
  eventRecords : List HartEventNotificationRecord := []

section Compile

variable {ρ : Type}

/-- The checks of one command override, `before` being those in front of it in the list. -/
def checkConfiguration (profile : HartDeviceProfile) (before : List CommandConfiguration)
    (configuration : CommandConfiguration) : Except String Unit :=
  if configuration.command ∉ profile.commands ∧ (¬configuration.enabled ∨ configuration.hasStaticResponse) then
    .error "HART command override is not declared by profile"
  else if 255 < configuration.staticResponse.length then
    .error "HART command override response exceeds frame limit"
  else if before.any (·.command == configuration.command) then .error "duplicate HART command override"
  else .ok ()

def checkVariable (before : List VariableConfiguration) (configuration : VariableConfiguration) :
    Except String Unit :=
  if configuration.id = "" then .error "HART variable id is empty"
  else if ¬configuration.value.isFinite then .error "HART variable value is not finite"
  else if before.any (·.id == configuration.id) then .error "duplicate HART variable id"
  else .ok ()

/-- The checks of a device against one accepted before it. -/
def checkPrior (device prior : HartDevicePlan ρ) : Except String Unit :=
  if prior.id = device.id then .error "duplicate HART device id"
  else if prior.bus = device.bus ∧ prior.pollingAddress = device.pollingAddress then
    .error ("duplicate HART address on bus: " ++ device.bus)
  else .ok ()

/-- A loop of checks, each with the items in front of its own. -/
def checkEach {α : Type} (check : List α → α → Except String Unit) (before : List α) :
    List α → Except String Unit
  | [] => .ok ()
  | item :: items => do
    check before item
    checkEach check (before ++ [item]) items

def checkDevice (profiles : String → Option HartDeviceProfile) (accepted : List (HartDevicePlan ρ))
    (device : HartDevicePlan ρ) : Except String (List (HartDevicePlan ρ)) :=
  if device.id = "" then .error "HART device id is empty"
  else if device.bus = "" then .error "HART bus is empty"
  else if 63 < device.pollingAddress then .error "HART polling address out of range"
  else
    match profiles device.profileId with
    | none => .error ("HART profile not found: " ++ device.profileId)
    | some profile => do
      checkEach (checkConfiguration profile) [] device.commandConfigurations
      checkEach checkVariable [] device.variableConfigurations
      checkEach (fun _ prior => checkPrior device prior) [] accepted
      return accepted ++ [device]

/-- `HartPlanCompiler::compile`. -/
def compile (profiles : String → Option HartDeviceProfile) (devices : List (HartDevicePlan ρ)) :
    Except String (List (HartDevicePlan ρ)) :=
  devices.foldlM (checkDevice profiles) []

end Compile

end LasecSimul.Hart

/-!
## Commands answered by the device itself

The commands `HartEngine::execute` answers from the addressed device alone: trends, message
counters, overrides of the plan, the lock, status, block transfer and event notification.
-/

namespace LasecSimul.Hart

def nibble (c : Char) : Option UInt8 :=
  if '0' ≤ c ∧ c ≤ '9' then some (UInt8.ofNat (c.toNat - '0'.toNat))
  else if 'a' ≤ c ∧ c ≤ 'f' then some (UInt8.ofNat (c.toNat - 'a'.toNat + 10))
  else if 'A' ≤ c ∧ c ≤ 'F' then some (UInt8.ofNat (c.toNat - 'A'.toNat + 10))
  else none

def parseHexBytes : Nat → List Char → Bytes
  | n + 1, high :: low :: rest =>
    match nibble high, nibble low with
    | some high, some low => (high <<< 4 ||| low) :: parseHexBytes n rest
    | _, _ => List.replicate (n + 1) 0
  | n, _ => List.replicate n 0

/-- The three bytes of a device id. -/
def parseDeviceIdHexEngine (text : String) : Bytes := parseHexBytes 3 text.toList

/-- The device id as one number. -/
def deviceIdNumber (text : String) : UInt32 :=
  let id := parseDeviceIdHexEngine text
  readU24 (id.getD 0 0) (id.getD 1 0) (id.getD 2 0)

/-- `HartTypeCodec::encodeLatin1`: the text, cut or padded with spaces. -/
def encodeLatin1 (text : Bytes) (maxChars : Nat) : Bytes :=
  text.take maxChars ++ List.replicate (maxChars - text.length) 0x20

def encodeDateTimeEngine (seconds : Nat) : Bytes :=
  let days := seconds / 86400
  let z := days + 693901
  let era := z / 146097
  let doe := z - era * 146097
  let yoe := (doe - doe / 1460 + doe / 36524 - doe / 146096) / 365
  let doy := doe - (365 * yoe + yoe / 4 - yoe / 100)
  let mp := (5 * doy + 2) / 153
  let day := doy - (153 * mp + 2) / 5 + 1
  let month := if mp < 10 then mp + 3 else mp - 9
  let year := yoe + era * 400 + if month ≤ 2 then 1 else 0
  let time := UInt32.ofNat (seconds % 86400)
  [UInt8.ofNat day, UInt8.ofNat month, UInt8.ofNat (year - 1900)] ++ (put32 time).flatten

def encodeFloatEngine (value : Float32) : Bytes := (put32 value.toBits).flatten

variable {ρ : Type}

/-- What a command leaves: the value `execute` returns, the device and the response buffer. -/
structure Answer (ρ : Type) where
  executed : Bool
  device : RuntimeDevice ρ
  response : HartResponseBuilder

namespace Answer

/-- `return false`. -/
def refuse (device : RuntimeDevice ρ) (response : HartResponseBuilder) : Answer ρ := ⟨false, device, response⟩

/-- `return response.…`. -/
def reply (device : RuntimeDevice ρ) (written : Bool × HartResponseBuilder) : Answer ρ :=
  ⟨written.1, device, written.2⟩

end Answer

namespace RuntimeDevice

def modifyPlan (device : RuntimeDevice ρ) (f : HartDevicePlan ρ → HartDevicePlan ρ) : RuntimeDevice ρ :=
  { device with plan := f device.plan }

def evaluatePrimary (device : RuntimeDevice ρ) : Float :=
  match device.plan.variableConfigurations.findIdx? fun entry => entry.id == "PV" || entry.id == "primary" with
  | some i => device.variableValues.getD i 0.0
  | none => device.plan.primaryValue

/-- The counters every addressed request increments. -/
def receive (device : RuntimeDevice ρ) : RuntimeDevice ρ :=
  device.modifyPlan fun plan => { plan with
    clientMessagesReceived := plan.clientMessagesReceived + 1
    deviceStxReceived := plan.deviceStxReceived + 1 }

/-- Declared by the profile or by the device itself. -/
def declares (device : RuntimeDevice ρ) (command : HartCommandId) : Bool :=
  device.profile.commands.any (· == command) || device.plan.commandConfigurations.any (·.command == command)

/-- What Command 42 resets before it is checked. -/
def resetRuntime (device : RuntimeDevice ρ) : RuntimeDevice ρ :=
  { device with
    transferOpen := false
    transferMasterCounter := 0
    transferDeviceCounter := 0
    eventRecords := []
    caughtValid := Vector.replicate 8 false
    burstNextSampleTime := Vector.replicate 3 0
    burstEvents := [] }

/-- Command 93. -/
def readTrend (device : RuntimeDevice ρ) (request : Bytes) (response : HartResponseBuilder) : Answer ρ :=
  match request with
  | [index] =>
    if device.plan.trendCount ≤ index ∨ 4 ≤ index.toNat then .refuse device response
    else
      let configuration := device.plan.trends.getD index.toNat {}
      let (classification, units) := device.plan.variableConfigurations.foldl
        (fun found entry =>
          if entry.deviceVariableCode = configuration.deviceVariableCode then
            (entry.classification, entry.deviceVariableUnit)
          else found)
        ((0, 250) : UInt8 × UInt8)
      let count := device.trendSampleCounts.getD index.toNat 0
      let next := (device.trendSampleNext.getD index.toNat 0).toNat
      let samples := device.trendSamples.getD index.toNat (Vector.replicate 12 {})
      let newestTimestamp := if count = 0 then 0 else (samples.getD ((next + 11) % 12) {}).timestamp
      let sampleAt (position : Nat) : TrendSample :=
        if position < count.toNat then samples.getD ((next + 12 - 1 - position) % 12) {} else {}
      let written := response.write <|
        [[index], [configuration.deviceVariableCode], [classification], [units],
          encodeDateTimeEngine newestTimestamp] ++ put32 configuration.samplePeriodSeconds ++
        (List.range 12).flatMap fun position =>
          [encodeFloatEngine (sampleAt position).value, [(sampleAt position).status]]
      match written with
      | (true, response) =>
        ⟨true, device.modifyPlan fun plan =>
          { plan with clientMessagesReturned := plan.clientMessagesReturned + 1 }, response⟩
      | (false, response) => .refuse device response
  | _ => .refuse device response

/-- Command 94. -/
def readClientCounters (device : RuntimeDevice ρ) (request : Bytes) (response : HartResponseBuilder) : Answer ρ :=
  if ¬device.plan.ioSystem ∨ request ≠ [] then .refuse device response
  else .reply device <| response.write <|
    put32 device.plan.clientMessagesReceived ++ put32 device.plan.clientMessagesReturned ++
      put32 device.plan.clientRequestsForwarded ++ put32 device.plan.clientResponsesReturned

/-- Command 95. -/
def readDeviceCounters (device : RuntimeDevice ρ) (request : Bytes) (response : HartResponseBuilder) : Answer ρ :=
  if request ≠ [] then .refuse device response
  else .reply device <| response.write <|
    put16 device.plan.deviceStxReceived ++ put16 device.plan.deviceAckSent ++ put16 device.plan.deviceBackSent

/-- The answer of the first override of the command, if it has one. -/
def override (device : RuntimeDevice ρ) (command : HartCommandId) (response : HartResponseBuilder) :
    Option (Bool × HartResponseBuilder) :=
  match device.plan.commandConfigurations.find? (·.command == command) with
  | none => none
  | some configuration =>
    if ¬configuration.enabled then some (response.fail HartResponseCodes.commandNotImplemented)
    else if configuration.hasStaticResponse then some (response.writeBytes configuration.staticResponse)
    else none

/-- Device Lock refuses the command to this master. -/
def locked (device : RuntimeDevice ρ) (command : HartCommandId) (masterRole : UInt8) : Bool :=
  device.plan.lockCode != 0 &&
    !([0x47, 0x4C, 0x48, 0x49, 0x4A, 0x4B, 0x4D, 0x4E, 0x26, 0x30] : List HartCommandId).contains command &&
    !(device.plan.lockCode != 3 && device.plan.lockOwner == masterRole)

def simulateStatus (plan : HartDevicePlan ρ) (statusBytes : Bytes) (index : Nat) : Bytes :=
  if plan.simulatedStatusMask.getD index 0 = 0 then statusBytes
  else
    let byte := if index < 8 then 0 else 1 + (index - 8) / 8
    let bit : UInt8 := 1 <<< UInt8.ofNat (if index < 8 then index else (index - 8) % 8)
    if plan.simulatedStatusValues.getD index 0 ≠ 0 then statusBytes.modify byte (· ||| bit)
    else statusBytes.modify byte (· &&& ~~~bit)

/-- Command 48. -/
def readAdditionalStatus (device : RuntimeDevice ρ) (response : HartResponseBuilder) : Answer ρ :=
  let statusBytes := device.plan.diagnosticStatus :: List.replicate 8 0
  .reply device <| response.writeBytes <|
    if device.plan.statusSimulationEnabled then (List.range 208).foldl (simulateStatus device.plan) statusBytes
    else statusBytes

/-- Command 111. -/
def transferService (device : RuntimeDevice ρ) (request : Bytes) (response : HartResponseBuilder) : Answer ρ :=
  match request with
  | [function, port, segment, high, low] =>
    if port < 2 ∨ 8 < port ∨ segment = 0 ∨ (function ≠ 1 ∧ function ≠ 2 ∧ function ≠ 3 ∧ function ≠ 4) then
      .refuse device response
    else if function ≠ 1 ∧ (¬device.transferOpen ∨ device.transferPort ≠ port) then .refuse device response
    else
      let device :=
        if function = 1 then { device with
          transferOpen := true
          transferPort := port
          transferMaximumSegment := min segment 200
          transferMasterCounter := readU16 high low
          transferDeviceCounter := 0 }
        else if function = 2 then { device with
          transferOpen := false
          transferMasterCounter := 0
          transferDeviceCounter := 0 }
        else if function = 4 then { device with transferOpen := false }
        else device
      .reply device <| response.write <|
        [[function], [port], [device.transferMaximumSegment]] ++ put16 device.transferMasterCounter ++
          put16 device.transferDeviceCounter
  | _ => .refuse device response

/-- Command 112. -/
def transferSegment (device : RuntimeDevice ρ) (request : Bytes) (response : HartResponseBuilder) : Answer ρ :=
  match request with
  | function :: count :: masterHigh :: masterLow :: slaveHigh :: slaveLow :: data =>
    if ¬device.transferOpen ∨ (function ≠ 0 ∧ function ≠ 3 ∧ function ≠ 4) then .refuse device response
    else if function = 0 ∧ (device.transferMaximumSegment < count ∨ data.length ≠ count.toNat ∨
        readU16 masterHigh masterLow ≠ device.transferMasterCounter ∨
        readU16 slaveHigh slaveLow ≠ device.transferDeviceCounter) then .refuse device response
    else
      let device :=
        if function = 0 then { device with transferMasterCounter := device.transferMasterCounter + count.toUInt16 }
        else if function = 4 then { device with transferOpen := false }
        else device
      .reply device <| response.write <|
        [[function], [0]] ++ put16 device.transferMasterCounter ++ put16 device.transferDeviceCounter
  | _ => .refuse device response

/-- Command 115. -/
def readEventNotification (device : RuntimeDevice ρ) (request : Bytes) (response : HartResponseBuilder) :
    Answer ρ :=
  if request ≠ [0] then .refuse device response
  else
    let configuration := device.plan.eventNotification
    let eventStatus : UInt8 := if device.eventRecords.isEmpty then 0 else 0x02
    let timestamp := match device.eventRecords with
      | [] => 0xFFFFFFFF
      | record :: _ => UInt32.ofNat record.timestamp
    .reply device <| response.write <|
      ([[0], [1], [eventStatus <<< 4 ||| configuration.control &&& 0x0F]] : List Bytes) ++ put32 timestamp ++
        put32 configuration.retryTimeTicks ++ put32 configuration.maximumUpdateTimeTicks ++
        put32 configuration.debounceTimeTicks ++ [[configuration.deviceStatusMask], configuration.eventMask.toList]

/-- The request of Command 119 names this record. -/
def acknowledges (request : Bytes) (record : HartEventNotificationRecord) : Bool :=
  let byte (i : Nat) := request.getD i 0
  readU32 (byte 1) (byte 2) (byte 3) (byte 4) == UInt32.ofNat record.timestamp &&
    readU16 (byte 5) (byte 6) == record.configurationChangedCounter.toUInt16 &&
    byte 7 == record.deviceStatus.toUInt8 && request.drop 8 == record.command48Data.toList

/-- Command 119. -/
def acknowledgeEvent (device : RuntimeDevice ρ) (request : Bytes) (response : HartResponseBuilder)
    (masterRole : UInt8) : Answer ρ :=
  if (request.length ≠ 1 ∧ request.length ≠ 33) ∨ request.headD 0 ≠ 0 then .refuse device response
  else if request.length = 33 ∧ device.plan.eventManagerRegistered ∧
      device.plan.eventManagerOwner ≠ masterRole then .refuse device response
  else
    let record := device.eventRecords.headD {}
    let device :=
      if request.length = 33 ∧ ¬device.eventRecords.isEmpty ∧ acknowledges request record then
        { device with eventRecords := device.eventRecords.tail }
      else device
    let record :=
      if device.eventRecords.isEmpty then { record with
        timestamp := 0xFFFFFFFF
        deviceStatus := device.plan.diagnosticStatus.toUInt16
        command48Data := (Vector.replicate 25 0).set 0 device.plan.diagnosticStatus }
      else record
    .reply device <| response.write <|
      [[0]] ++ put32 (UInt32.ofNat record.timestamp) ++ put16 record.configurationChangedCounter.toUInt16 ++
        [[record.deviceStatus.toUInt8], record.command48Data.toList]

end RuntimeDevice

end LasecSimul.Hart
