import LasecSimul.Hart.Addressed
import LasecSimul.Hart.Capacity
import LasecSimul.Hart.FrameCodec

/-!
# The transport

`HartTransportEndpoint`: a request of bytes, as a virtual or a physical frame, to the bytes of the response.
-/

namespace LasecSimul.Hart

variable {ρ σ : Type}

structure HartTransportConfig where
  bus : String := "hart-1"
  maxFrameBytes : Nat := 272

structure HartTransportCounters where
  framesRx : Nat := 0
  framesTx : Nat := 0
  checksumErrors : Nat := 0
  decodeErrors : Nat := 0
  unknownAddress : Nat := 0
  unsupportedCommand : Nat := 0
  deriving DecidableEq, Repr

structure HartTransportEndpoint (ρ σ : Type) where
  engine : HartEngine ρ σ
  config : HartTransportConfig := {}
  counters : HartTransportCounters := {}

/-- What a transaction leaves: the value it returns, the endpoint and the response. -/
structure Transaction (ρ σ : Type) where
  answered : Bool
  endpoint : HartTransportEndpoint ρ σ
  response : HartResponseBuilder

/-! ### Physical frames -/

/-- A request from the master, without preambles and checksum. -/
structure PhysicalRequest where
  delimiter : UInt8
  /-- One byte, or five. -/
  address : Bytes
  command : UInt8
  data : Bytes
  deriving DecidableEq, Repr

inductive PhysicalError where
  | decode
  | checksum
  deriving DecidableEq, Repr

def PhysicalRequest.parse (request : Bytes) : Except PhysicalError PhysicalRequest :=
  let preambles := (request.takeWhile (· == 0xFF)).length
  if preambles < 2 ∨ request.length ≤ preambles then .error .decode
  else
    let frame := request.drop preambles
    let delimiter := frame.headD 0
    if delimiter &&& 0x07 ≠ 0x02 ∨ delimiter &&& 0x60 ≠ 0 then .error .decode
    else
      let addressBytes := addressLength delimiter
      if frame.length < 1 + addressBytes + 3 then .error .decode
      else
        let byteCount := (frame.getD (2 + addressBytes) 0).toNat
        if frame.length ≠ 1 + addressBytes + 2 + byteCount + 1 then .error .decode
        else if HartFrameCodec.checksum frame ≠ 0 then .error .checksum
        else .ok {
          delimiter
          address := (frame.drop 1).take addressBytes
          command := frame.getD (1 + addressBytes) 0
          data := (frame.drop (3 + addressBytes)).take byteCount }

namespace PhysicalRequest

def longFrame (request : PhysicalRequest) : Bool := request.delimiter &&& 0x80 != 0

/-- The address without the master and burst bits. -/
def frameAddress (request : PhysicalRequest) : HartFrameAddress :=
  let primaryMaster := request.address.headD 0 &&& 0x80 != 0
  if request.longFrame then {
    longFrame := true
    primaryMaster
    longAddress := Vector.ofFn fun i =>
      if i = 0 then request.address.getD 0 0 &&& 0x3F else request.address.getD i 0 }
  else { longFrame := false, primaryMaster, pollingAddress := request.address.headD 0 &&& 0x3F }

end PhysicalRequest

/-- The bytes written around an answer, up to the checksum. -/
def acknowledgeFields (request : PhysicalRequest) (reply : HartAddressedReply) (data : Bytes) : List Bytes :=
  [[request.delimiter ||| 0x04], request.address, [request.command], [UInt8.ofNat (2 + data.length)],
    [reply.responseCode], [reply.deviceStatus], data]

namespace HartTransportEndpoint

def count (endpoint : HartTransportEndpoint ρ σ) (f : HartTransportCounters → HartTransportCounters) :
    HartTransportEndpoint ρ σ :=
  { endpoint with counters := f endpoint.counters }

def decodeError (endpoint : HartTransportEndpoint ρ σ) : HartTransportEndpoint ρ σ :=
  endpoint.count fun counters => { counters with decodeErrors := counters.decodeErrors + 1 }

/-- The response to an addressed request: preambles, the fields and their checksum. -/
def acknowledge (response : HartResponseBuilder) (request : PhysicalRequest) (reply : HartAddressedReply)
    (data : Bytes) : Bool × HartResponseBuilder :=
  match response.write (List.replicate reply.responsePreambles.toNat [0xFF]) with
  | (false, response) => (false, response)
  | (true, response) =>
    let frameStart := response.bytes.length
    match response.write (acknowledgeFields request reply data) with
    | (false, response) => (false, response)
    | (true, response) => response.writeBytes [HartFrameCodec.checksum (response.bytes.drop frameStart)]

def transactPhysical (host : Host ρ σ) (endpoint : HartTransportEndpoint ρ σ) (request : Bytes)
    (response : HartResponseBuilder) : Except Fault (Transaction ρ σ) :=
  match PhysicalRequest.parse request with
  | .error .decode => .ok ⟨false, endpoint.decodeError, response⟩
  | .error .checksum =>
    .ok ⟨false, endpoint.count fun counters => { counters with checksumErrors := counters.checksumErrors + 1 }, response⟩
  | .ok frame => do
    let endpoint := endpoint.count fun counters => { counters with framesRx := counters.framesRx + 1 }
    let (reply, engine, body) ← endpoint.engine.executeAddressed host endpoint.config.bus frame.frameAddress
      frame.command.toUInt16 frame.data { capacity := 253 }
    let endpoint := { endpoint with engine := engine }
    if ¬reply.addressed then
      return ⟨false, endpoint.count fun counters => { counters with unknownAddress := counters.unknownAddress + 1 }, response⟩
    let endpoint :=
      if reply.executed then endpoint
      else endpoint.count fun counters => { counters with unsupportedCommand := counters.unsupportedCommand + 1 }
    match acknowledge response frame reply (if reply.executed then body.bytes else []) with
    | (false, response) => return ⟨false, endpoint, response⟩
    | (true, response) =>
      return ⟨true, endpoint.count fun counters => { counters with framesTx := counters.framesTx + 1 }, response⟩

/-- The virtual frame, without preambles. -/
def transactVirtual (host : Host ρ σ) (endpoint : HartTransportEndpoint ρ σ) (request : Bytes)
    (response : HartResponseBuilder) : Except Fault (Transaction ρ σ) :=
  match HartFrameCodec.decode request (endpoint.config.maxFrameBytes - 5) with
  | none => .ok ⟨false, endpoint.decodeError, response⟩
  | some frame => do
    let endpoint := endpoint.count fun counters => { counters with framesRx := counters.framesRx + 1 }
    let outcome ← HartEngine.execute host endpoint.engine {
      bus := endpoint.config.bus, pollingAddress := frame.pollingAddress, command := frame.command
      request := frame.payload } { capacity := 255 }
    let endpoint := { endpoint with engine := outcome.engine }
    if ¬outcome.executed then
      return ⟨false, endpoint.count fun counters =>
        { counters with unsupportedCommand := counters.unsupportedCommand + 1 }, response⟩
    let reply : HartFrame := { frame with payload := outcome.response.bytes }
    match HartFrameCodec.encode reply response (endpoint.config.maxFrameBytes - 5) with
    | (false, response) => return ⟨false, endpoint.decodeError, response⟩
    | (true, response) =>
      return ⟨true, endpoint.count fun counters => { counters with framesTx := counters.framesTx + 1 }, response⟩

def transact (host : Host ρ σ) (endpoint : HartTransportEndpoint ρ σ) (request : Bytes)
    (response : HartResponseBuilder) : Except Fault (Transaction ρ σ) :=
  if request = [] ∨ endpoint.config.maxFrameBytes < request.length then .ok ⟨false, endpoint.decodeError, response⟩
  else if request.headD 0 = 0xFF then endpoint.transactPhysical host request response
  else endpoint.transactVirtual host request response

end HartTransportEndpoint

section Delimiter

variable {delimiter : UInt8}

theorem and_acknowledge (delimiter mask : UInt8) :
    (delimiter ||| (0x04 : UInt8)) &&& mask = (delimiter &&& mask) ||| ((0x04 : UInt8) &&& mask) :=
  UInt8.toBitVec_inj.mp BitVec.and_or_distrib_right

theorem addressLength_acknowledge (delimiter : UInt8) : addressLength (delimiter ||| 0x04) = addressLength delimiter := by
  unfold addressLength
  rw [and_acknowledge, show (0x04 : UInt8) &&& 0x80 = 0 from rfl, UInt8.or_zero]

theorem expansionLength_acknowledge (plain : delimiter &&& 0x60 = 0) : expansionLength (delimiter ||| 0x04) = 0 := by
  have shifted : (delimiter ||| 0x04) >>> 5 &&& (0x03 : UInt8) = ((delimiter ||| 0x04) &&& (0x60 : UInt8)) >>> 5 := by
    rw [UInt8.shiftRight_and]
    rfl
  unfold expansionLength
  rw [shifted, and_acknowledge, plain]
  rfl

/-- The response's delimiter is taken for one unless the request's sets a physical layer bit. -/
theorem isDelimiter_acknowledge (master : delimiter &&& 0x07 = 0x02) :
    isDelimiter (delimiter ||| 0x04) = true ↔ delimiter &&& 0x18 = 0 := by
  have frameType : (delimiter ||| 0x04) &&& 0x07 = 0x06 := by
    rw [and_acknowledge, master]
    rfl
  have physical : (delimiter ||| 0x04) &&& 0x18 = delimiter &&& 0x18 := by
    rw [and_acknowledge, show (0x04 : UInt8) &&& 0x18 = 0 from rfl, UInt8.or_zero]
  unfold isDelimiter
  dsimp only
  rw [frameType, physical]
  simp

theorem acknowledge_ne_preamble (plain : delimiter &&& 0x60 = 0) : delimiter ||| 0x04 ≠ 0xFF := by
  intro preamble
  have bits := and_acknowledge delimiter 0x60
  rw [preamble, plain] at bits
  exact absurd bits (by decide)

end Delimiter

theorem PhysicalRequest.parse_ok {bytes : Bytes} {request : PhysicalRequest}
    (parsed : PhysicalRequest.parse bytes = .ok request) :
    request.delimiter &&& 0x07 = 0x02 ∧ request.delimiter &&& 0x60 = 0 ∧
      request.address.length = addressLength request.delimiter := by
  unfold PhysicalRequest.parse at parsed
  dsimp only at parsed
  split at parsed
  · cases parsed
  split at parsed
  · cases parsed
  rename_i master
  split at parsed
  · cases parsed
  rename_i long
  split at parsed
  · cases parsed
  split at parsed
  · cases parsed
  cases parsed
  obtain ⟨frameType, expansion⟩ := not_or.mp master
  refine ⟨not_not.mp frameType, not_not.mp expansion, ?_⟩
  simp only [List.length_take, List.length_drop] at long ⊢
  omega

/-- The frame answers the request: its address and command, a byte count that counts its data, and an XOR of zero. -/
structure Acknowledges (request : PhysicalRequest) (frame : Bytes) : Prop where
  layout : ∃ count data parity, data.length = UInt8.toNat count ∧
    frame = [request.delimiter ||| 0x04] ++ (request.address ++ [request.command]) ++ [count] ++ (data ++ [parity])
  parity : HartFrameCodec.checksum frame = 0

namespace HartTransportEndpoint

open Lib.Fallible

theorem acknowledge_bytes {request : PhysicalRequest} {reply : HartAddressedReply} {data : Bytes}
    {response after : HartResponseBuilder} (small : data.length ≤ 253)
    (written : acknowledge response request reply data = (true, after)) :
    ∃ frame, Acknowledges request frame ∧
      after.bytes = response.bytes ++ (List.replicate reply.responsePreambles.toNat 0xFF ++ frame) := by
  unfold acknowledge at written
  split at written
  · cases written
  rename_i middle preambles
  dsimp only at written
  split at written
  · cases written
  rename_i filled fields
  have start := HartResponseBuilder.write_bytes preambles
  have rest := HartResponseBuilder.write_bytes fields
  have parity := HartResponseBuilder.writeBytes_bytes written
  rw [rest, List.drop_left] at parity
  refine ⟨(acknowledgeFields request reply data).flatten ++
    [HartFrameCodec.checksum (acknowledgeFields request reply data).flatten], ⟨?_, HartFrameCodec.checksum_closed _⟩, ?_⟩
  · refine ⟨UInt8.ofNat (2 + data.length), [reply.responseCode, reply.deviceStatus] ++ data,
      HartFrameCodec.checksum (acknowledgeFields request reply data).flatten, ?_, ?_⟩
    · rw [UInt8.toNat_ofNat', Nat.mod_eq_of_lt (by omega)]
      simp
      omega
    · simp [acknowledgeFields]
  · rw [parity, start]
    simp

theorem executeAddressed_within {host : Host ρ σ} (bounded : host.Bounded) {engine after : HartEngine ρ σ} {bus : String}
    {address : HartFrameAddress} {command : HartCommandId} {request : Bytes} {response body : HartResponseBuilder}
    {reply : HartAddressedReply} {capacity : Nat} (within : response.Within capacity)
    (ran : engine.executeAddressed host bus address command request response = .ok (reply, after, body))
    (executed : reply.executed = true) : body.Within capacity := by
  unfold HartEngine.executeAddressed at ran
  split at ran
  · cases ran
    cases executed
  rename_i i found
  obtain ⟨device, read, ran⟩ := bind_ok ran
  dsimp only at ran
  split at ran
  · cases ran
    cases executed
  obtain ⟨outcome, executes, ran⟩ := bind_ok ran
  split at ran
  · rename_i silent
    cases ran
    exact absurd executed (by simp)
  obtain ⟨later, _, ran⟩ := bind_ok ran
  obtain ⟨stored, _, ran⟩ := bind_ok ran
  cases ran
  have started : (response.setResponseCode HartResponseCodes.success).Within capacity := ⟨within.same, within.fits⟩
  exact HartEngine.execute_within bounded started executes executed

/-- What a physical transaction that answers has done. -/
theorem transactPhysical_ok {host : Host ρ σ} {endpoint : HartTransportEndpoint ρ σ} {request : Bytes}
    {response : HartResponseBuilder} {transaction : Transaction ρ σ}
    (ran : endpoint.transactPhysical host request response = .ok transaction) (answered : transaction.answered = true) :
    ∃ frame reply after body, PhysicalRequest.parse request = .ok frame ∧
      endpoint.engine.executeAddressed host endpoint.config.bus frame.frameAddress frame.command.toUInt16 frame.data
        { capacity := 253 } = .ok (reply, after, body) ∧
      acknowledge response frame reply (if reply.executed then body.bytes else []) = (true, transaction.response) := by
  unfold transactPhysical at ran
  split at ran
  · cases ran
    cases answered
  · cases ran
    cases answered
  rename_i frame parsed
  obtain ⟨⟨reply, engine, body⟩, executes, ran⟩ := bind_ok ran
  dsimp only at ran
  split at ran
  · cases ran
    cases answered
  split at ran
  · cases ran
    cases answered
  · rename_i after written
    cases ran
    exact ⟨frame, reply, engine, body, parsed, executes, written⟩

/-- An answer is one acknowledge frame, and the assembler finds it, however its bytes arrive, exactly when the request
sets no physical layer bit. -/
theorem physical_frames {host : Host ρ σ} (bounded : host.Bounded) {endpoint : HartTransportEndpoint ρ σ}
    {request : Bytes} {response : HartResponseBuilder} {transaction : Transaction ρ σ}
    (ran : endpoint.transactPhysical host request response = .ok transaction) (answered : transaction.answered = true) :
    ∃ parsed preambles frame, PhysicalRequest.parse request = .ok parsed ∧
      transaction.response.bytes = response.bytes ++ (List.replicate preambles 0xFF ++ frame) ∧
      Acknowledges parsed frame ∧
      (2 ≤ preambles →
        ((∀ (assembler : HartFrameAssembler) (chunks : List Bytes),
          chunks.flatten = List.replicate preambles 0xFF ++ frame →
            (assembler.reset.pushAll chunks).2 = [List.replicate (min preambles 20) 0xFF ++ frame]) ↔
          parsed.delimiter &&& 0x18 = 0)) := by
  obtain ⟨parsed, reply, after, body, read, executes, written⟩ := transactPhysical_ok ran answered
  obtain ⟨master, plain, size⟩ := PhysicalRequest.parse_ok read
  have small : (if reply.executed then body.bytes else []).length ≤ 253 := by
    split
    · rename_i executed
      exact (executeAddressed_within bounded ⟨rfl, Nat.zero_le _⟩ executes executed).fits
    · exact Nat.zero_le _
  obtain ⟨frame, acknowledges, bytes⟩ := acknowledge_bytes small written
  refine ⟨parsed, _, frame, read, bytes, acknowledges, fun enough => ?_⟩
  obtain ⟨count, data, parity, counted, rfl⟩ := acknowledges.layout
  rw [← isDelimiter_acknowledge master]
  constructor
  · intro found
    by_contra other
    have rejected : isDelimiter (parsed.delimiter ||| 0x04) = false := Bool.eq_false_iff.mpr other
    have short := HartFrameAssembler.push_rejected reply.responsePreambles.toNat
      (parsed.address ++ [parsed.command] ++ [count] ++ (data ++ [parity])) (acknowledge_ne_preamble plain) rejected
    have whole := found {} [_] List.flatten_singleton
    rw [HartFrameAssembler.pushAll_eq, List.flatten_singleton] at whole
    have within := short _ (whole ▸ List.mem_singleton_self _)
    simp only [List.length_append, List.length_replicate, List.length_singleton] at within
    omega
  · intro delimits assembler chunks split
    rw [HartFrameAssembler.pushAll_eq, split]
    have address : (parsed.address ++ [parsed.command]).length = addressLength (parsed.delimiter ||| 0x04) +
        expansionLength (parsed.delimiter ||| 0x04) + 1 := by
      rw [addressLength_acknowledge, expansionLength_acknowledge plain, List.length_append, size]
      rfl
    have rest : (data ++ [parity]).length = count.toNat + 1 := by
      rw [List.length_append, counted]
      rfl
    obtain ⟨_, _, completed⟩ :=
      HartFrameAssembler.push_frame (⟨rfl, rfl⟩ : assembler.reset.Idle) enough delimits address rest
    exact congrArg Prod.snd completed

/-- No native handler and no program. -/
def plainHost : Host Unit Unit := { profiles := fun _ => none, handler := fun _ => none, programHook := none }

/-- Command 0 of the device at address 1 has a fixed response. -/
def polledEndpoint : HartTransportEndpoint Unit Unit where
  engine := {
    devices := [{
      plan := {
        id := "polled", profileId := "polled", bus := "hart-1", pollingAddress := 1, rest := ()
        commandConfigurations := [{ command := 0, hasStaticResponse := true, staticResponse := [254, 1] }] }
      profile := { id := "polled" } }]
    handlers := () }

/-- Five preambles and the poll of address 1 with this delimiter. -/
def poll (delimiter : UInt8) : Bytes :=
  List.replicate 5 0xFF ++ [delimiter, 0x81, 0x00, 0x00, HartFrameCodec.checksum [delimiter, 0x81, 0x00, 0x00]]

theorem plainHost_bounded : plainHost.Bounded := ⟨nofun, nofun⟩

theorem physical_frames_poll :
    Post False (polledEndpoint.transactPhysical plainHost (poll 0x02) { capacity := 255 }) fun transaction =>
      ∃ parsed preambles frame, PhysicalRequest.parse (poll 0x02) = .ok parsed ∧
        transaction.response.bytes = [] ++ (List.replicate preambles 0xFF ++ frame) ∧
        Acknowledges parsed frame ∧
        (2 ≤ preambles →
          ((∀ (assembler : HartFrameAssembler) (chunks : List Bytes),
            chunks.flatten = List.replicate preambles 0xFF ++ frame →
              (assembler.reset.pushAll chunks).2 = [List.replicate (min preambles 20) 0xFF ++ frame]) ↔
            parsed.delimiter &&& 0x18 = 0)) := by
  have answers : (polledEndpoint.transactPhysical plainHost (poll 0x02) { capacity := 255 }).toOption.map (·.answered) =
      some true := by decide +kernel
  obtain ⟨transaction, ran, answered⟩ := toOption_map answers
  rw [ran]
  exact physical_frames plainHost_bounded ran answered

/-- A poll with delimiter 0x0A is answered, but the assembler does not find the answer. -/
theorem physical_frame_missed :
    Post False (polledEndpoint.transactPhysical plainHost (poll 0x0A) { capacity := 255 }) fun transaction =>
      transaction.answered = true ∧
        transaction.response.bytes ∉ (HartFrameAssembler.pushAll {} [transaction.response.bytes]).2 := by
  have answers : (polledEndpoint.transactPhysical plainHost (poll 0x0A) { capacity := 255 }).toOption.map (fun transaction =>
      (transaction.answered, transaction.response.bytes.take 6)) =
      some (true, List.replicate 5 0xFF ++ [0x0E]) := by decide +kernel
  obtain ⟨transaction, ran, facts⟩ := toOption_map answers
  obtain ⟨answered, start⟩ := Prod.mk.inj facts
  rw [ran]
  refine ⟨answered, fun found => ?_⟩
  have whole : transaction.response.bytes = List.replicate 5 0xFF ++ 0x0E :: transaction.response.bytes.drop 6 := by
    have both := List.take_append_drop 6 transaction.response.bytes
    rw [start] at both
    rw [← both]
    simp
  rw [HartFrameAssembler.pushAll_eq, List.flatten_singleton, whole] at found
  have short := HartFrameAssembler.push_rejected 5 _ (by decide) (by decide) _ found
  simp at short
  omega

end HartTransportEndpoint

end LasecSimul.Hart
