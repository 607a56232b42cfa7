import LasecSimul.Hart.Commands

/-!
# Commands about sub-devices

Commands 84 to 86 and the assignment table of Commands 528 to 531. They read the other devices of the
table and write the addressed one.
-/

namespace LasecSimul.Hart

variable {ρ : Type}

def childFor (devices : List (RuntimeDevice ρ)) (id : String) : Option (RuntimeDevice ρ) :=
  devices.find? (·.plan.id == id)

/-! ### The assignment table -/

namespace HartSubDeviceAssignment

def tagEmpty (assignment : HartSubDeviceAssignment) : Bool := assignment.longTag.toList.all (· == 0)

/-- The identity by which Command 530 recognises an assignment. -/
def sameIdentity (request item : HartSubDeviceAssignment) : Bool :=
  if ¬request.tagEmpty ∧ ¬item.tagEmpty then item.longTag == request.longTag
  else request.expandedDeviceType != 0 && item.expandedDeviceType == request.expandedDeviceType &&
    item.deviceId == request.deviceId

/-- The fields `writeAssignment` writes, with `status` after the index for `writeIdentity`. -/
def fields (assignment : HartSubDeviceAssignment) (status : List Bytes) : List Bytes :=
  put16 assignment.index ++ status ++ [[assignment.ioCard], [assignment.channel]] ++
    put16 assignment.manufacturerId ++ put16 assignment.expandedDeviceType ++ put24 assignment.deviceId ++
    [assignment.longTag.toList, [assignment.deviceRevision]]

/-- The request of Command 530, its `index` being the requested one. -/
def parse (request : Bytes) : Option HartSubDeviceAssignment :=
  let byte (i : Nat) := request.getD i 0
  if request.length = 44 then some {
    index := readU16 (byte 0) (byte 1)
    ioCard := byte 2
    channel := byte 3
    manufacturerId := readU16 (byte 4) (byte 5)
    expandedDeviceType := readU16 (byte 6) (byte 7)
    deviceId := readU24 (byte 8) (byte 9) (byte 10)
    longTag := Vector.ofFn fun i => byte (11 + i)
    deviceRevision := byte 43 }
  else none

/-- Command 530 deletes when the manufacturer is this one. -/
def deleting (request : HartSubDeviceAssignment) : Bool := request.manufacturerId == 0xFFFF

end HartSubDeviceAssignment

namespace HartDevicePlan

def withAssignments (plan : HartDevicePlan ρ) (assignments : Vector HartSubDeviceAssignment 32) (count : UInt8) :
    HartDevicePlan ρ :=
  { plan with assignments := assignments, assignmentCount := count }

/-- The first `assignmentCount` entries. -/
def liveAssignments (plan : HartDevicePlan ρ) : List HartSubDeviceAssignment :=
  plan.assignments.toList.take plan.assignmentCount.toNat

def assignmentStatus (devices : List (RuntimeDevice ρ)) (plan : HartDevicePlan ρ)
    (assignment : HartSubDeviceAssignment) : UInt8 :=
  match childFor devices assignment.childDeviceId with
  | none => if assignment.expandedDeviceType = 0 ∧ assignment.tagEmpty then 0x02 else 0x01
  | some child =>
    match plan.subDevices.find? (·.childDeviceId == assignment.childDeviceId) with
    | none => 0x01
    | some liveLink =>
      let status : UInt8 :=
        if (assignment.ioCard ≠ 0xFF ∧ assignment.ioCard ≠ liveLink.ioCard) ∨
            (assignment.channel ≠ 0xFF ∧ assignment.channel ≠ liveLink.channel) then 0x01
        else 0
      if assignment.longTag.toList ≠ encodeLatin1 child.plan.longTag 32 ∧ assignment.expandedDeviceType = 0 then
        status ||| 0x02
      else status

/-- The entries from `found + 1` on move down by one. -/
def shiftDown (assignments : Vector HartSubDeviceAssignment 32) (found count : Nat) :
    Vector HartSubDeviceAssignment 32 :=
  (List.range' (found + 1) (count - (found + 1))).foldl
    (fun entries i => entries.setIfInBounds (i - 1) (entries.getD i {})) assignments

/-- The device a new assignment stands for. -/
def assignedChild (devices : List (RuntimeDevice ρ)) (request : HartSubDeviceAssignment) : String :=
  match childFor devices "" with
  | some _ => ""
  | none =>
    let found := devices.find? fun candidate =>
      (!request.tagEmpty && request.longTag.toList == encodeLatin1 candidate.plan.longTag 32) ||
        (request.expandedDeviceType != 0 && deviceIdNumber candidate.plan.uniqueId == request.deviceId &&
          candidate.profile.deviceType == request.expandedDeviceType)
    match found with
    | some candidate => candidate.plan.id
    | none => ""

/-- The entry Command 531 stages for the sub-device at position `i`. -/
def transferredAssignment (devices : List (RuntimeDevice ρ)) (i : Nat) (link : HartSubDeviceLink) :
    Option HartSubDeviceAssignment :=
  (childFor devices link.childDeviceId).map fun child => {
    index := UInt16.ofNat (i + 1)
    ioCard := link.ioCard
    channel := link.channel
    manufacturerId := child.profile.manufacturerId
    expandedDeviceType := child.profile.deviceType
    deviceId := deviceIdNumber child.plan.uniqueId
    longTag := Vector.ofFn fun i => (encodeLatin1 child.plan.longTag 32).getD i 0
    deviceRevision := child.profile.identity.transmitterSpecificRevision
    childDeviceId := child.plan.id }

def transferredAssignments (devices : List (RuntimeDevice ρ)) (plan : HartDevicePlan ρ) :
    Option (List HartSubDeviceAssignment) :=
  plan.subDevices.zipIdx.mapM fun (link, i) => transferredAssignment devices i link

end HartDevicePlan

namespace RuntimeDevice

/-- The table after Command 530 was accepted, and the entry it reports; `none` when it is refused. -/
def assign (devices : List (RuntimeDevice ρ)) (plan : HartDevicePlan ρ) (request : HartSubDeviceAssignment) :
    Option (HartDevicePlan ρ × HartSubDeviceAssignment) :=
  let count := plan.assignmentCount.toNat
  let found := plan.liveAssignments.findIdx? request.sameIdentity
  if (request.ioCard ≠ 0xFF ∧ plan.ioMaximumCards ≤ request.ioCard) ∨
      (request.channel ≠ 0xFF ∧ plan.ioMaximumChannelsPerCard ≤ request.channel) then none
  else if ¬request.deleting ∧ request.expandedDeviceType = 0 ∧ request.deviceId = 0 ∧ request.tagEmpty then none
  else if request.index = 0 ∧ ¬request.deleting ∧ found.isSome then none
  else if count < request.index.toNat then none
  else if request.deleting then
    match found with
    | none => none
    | some i =>
      let plan := plan.withAssignments (HartDevicePlan.shiftDown plan.assignments i count) (plan.assignmentCount - 1)
      some (plan, plan.assignments.getD (min i (plan.assignmentCount.toNat - 1)) {})
  else
    let target := if request.index = 0 then count else request.index.toNat - 1
    if plan.assignmentCapacity.toNat ≤ target ∨ 32 ≤ target then none
    else
      let staged := { request with
        index := UInt16.ofNat (target + 1)
        childDeviceId := HartDevicePlan.assignedChild devices request }
      let plan := plan.withAssignments (plan.assignments.setIfInBounds target staged)
        (if target = count then plan.assignmentCount + 1 else plan.assignmentCount)
      some (plan, plan.assignments.getD
        ((if request.index = 0 then plan.assignmentCount.toNat else request.index.toNat) - 1) {})

/-- Commands 528 to 531. -/
def assignmentCommand (devices : List (RuntimeDevice ρ)) (device : RuntimeDevice ρ) (command : HartCommandId)
    (request : Bytes) (response : HartResponseBuilder) : Answer ρ :=
  let plan := device.plan
  if ¬plan.ioSystem ∨ plan.assignmentCapacity = 0 then .refuse device response
  else if command = 528 then
    if request ≠ [] then .refuse device response
    else
      let status := plan.liveAssignments.foldl (fun status entry => status ||| plan.assignmentStatus devices entry) 0
      .reply device <| response.write <|
        put16 (plan.assignmentCount.toUInt16 + 1) ++ put16 (plan.assignmentCapacity.toUInt16 + 1) ++ [[status]]
  else if command = 529 then
    match request with
    | [high, low] =>
      let index := readU16 high low
      if plan.assignmentCount.toUInt16 < index then .refuse device response
      else if index = 0 then
        let self : HartSubDeviceAssignment := {
          ioCard := 0xFB
          channel := 0xFB
          manufacturerId := device.profile.manufacturerId
          expandedDeviceType := device.profile.deviceType
          deviceId := deviceIdNumber plan.uniqueId
          longTag := Vector.ofFn fun i => (encodeLatin1 plan.longTag 32).getD i 0
          deviceRevision := device.profile.identity.transmitterSpecificRevision }
        .reply device (response.write (self.fields [[0]]))
      else
        let assignment := plan.assignments.getD (index.toNat - 1) {}
        let assignment := { assignment with status := plan.assignmentStatus devices assignment }
        .reply { device with plan :=
            plan.withAssignments (plan.assignments.setIfInBounds (index.toNat - 1) assignment) plan.assignmentCount }
          (response.write (assignment.fields [[assignment.status]]))
    | _ => .refuse device response
  else if plan.writeProtected then .reply device (response.fail HartResponseCodes.inWriteProtectMode)
  else if command = 530 then
    match (HartSubDeviceAssignment.parse request).bind (assign devices plan) with
    | none => .refuse device response
    | some (plan, committed) => .reply { device with plan := plan } (response.write (committed.fields []))
  else
    match request with
    | [transferCode] =>
      if 1 < transferCode ∨ plan.assignmentCapacity.toNat < plan.subDevices.length ∨ 32 < plan.subDevices.length then
        .refuse device response
      else
        match plan.transferredAssignments devices with
        | none => .refuse device response
        | some staged =>
          let plan := plan.withAssignments (Vector.ofFn fun i => staged.getD i {})
            (UInt8.ofNat plan.subDevices.length)
          .reply { device with plan := plan } <| response.write <|
            [[transferCode]] ++ put16 plan.assignmentCount.toUInt16
    | _ => .refuse device response

/-- Command 84. -/
def readSubDeviceIdentity (devices : List (RuntimeDevice ρ)) (device : RuntimeDevice ρ) (request : Bytes)
    (response : HartResponseBuilder) : Answer ρ :=
  match request with
  | [high, low] =>
    let index := readU16 high low
    let subject : Option (HartDevicePlan ρ × HartDeviceProfile × UInt8 × UInt8) :=
      if index = 0 then some (device.plan, device.profile, 0, 0)
      else
        device.plan.subDevices[index.toNat - 1]?.bind fun link =>
          (childFor devices link.childDeviceId).map fun child => (child.plan, child.profile, link.ioCard, link.channel)
    match device.plan.ioSystem, subject with
    | true, some (plan, profile, card, channel) =>
      let tag :=
        if plan.longTag ≠ [] then plan.longTag
        else if plan.tag ≠ "" then plan.tag.toUTF8.data.toList
        else plan.id.toUTF8.data.toList
      .reply device <| response.write <|
        put16 index ++ [[card], [channel]] ++ put16 profile.manufacturerId ++ put16 profile.deviceType ++
          [parseDeviceIdHexEngine plan.uniqueId, [profile.identity.universalCommandRevision], encodeLatin1 tag 32,
            [profile.identity.transmitterSpecificRevision], [1], [0], [0]]
    | _, _ => .refuse device response
  | _ => .refuse device response

/-- Command 85. -/
def readChannelStatistics (device : RuntimeDevice ρ) (request : Bytes) (response : HartResponseBuilder) : Answer ρ :=
  match request with
  | [card, channel] =>
    if ¬device.plan.ioSystem ∨ device.plan.ioMaximumCards ≤ card ∨ device.plan.ioMaximumChannelsPerCard ≤ channel then
      .refuse device response
    else
      let value :=
        (device.plan.ioChannelStatistics.find? fun entry => entry.ioCard == card && entry.channel == channel).getD
          { ioCard := card, channel := channel }
      .reply device <| response.write <|
        [[value.ioCard], [value.channel]] ++ put16 value.stxSent ++ put16 value.ackReceived ++
          put16 value.ostxReceived ++ put16 value.oackReceived ++ put16 value.backReceived
  | _ => .refuse device response

/-- Command 86. -/
def readSubDeviceStatistics (device : RuntimeDevice ρ) (request : Bytes) (response : HartResponseBuilder) :
    Answer ρ :=
  match request with
  | [high, low] =>
    let index := (readU16 high low).toNat
    if ¬device.plan.ioSystem ∨ device.plan.subDevices.length < index then .refuse device response
    else
      let (sent, ack, back) :=
        if index = 0 then (0, 0, 0)
        else
          match device.plan.subDevices[index - 1]? with
          | some link => (link.messagesSent, link.acknowledgementsReceived, link.backMessagesReceived)
          | none => (0, 0, 0)
      .reply device <| response.write <| [[high], [low]] ++ put16 sent ++ put16 ack ++ put16 back
  | _ => .refuse device response

end RuntimeDevice

end LasecSimul.Hart
