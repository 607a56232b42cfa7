import LasecSimul.Hart.Response
import Mathlib.Data.List.Induction

/-!
# The virtual frame

`HartFrameCodec`: delimiter, short address, command, byte count, payload and the XOR of all of them.
-/

namespace LasecSimul.Hart

structure HartFrame where
  pollingAddress : UInt8 := 0
  command : HartCommandId := 0
  payload : Bytes := []
  deriving DecidableEq, Repr

namespace HartFrameCodec

def checksum (bytes : Bytes) : UInt8 := bytes.foldl (· ^^^ ·) 0

/-- `decode`; `none` for `false`, which leaves the frame as it was. -/
def decode (wire : Bytes) (maxPayload : Nat) : Option HartFrame :=
  if wire.length < 5 ∨ wire.headD 0 ≠ 0x02 then none
  else
    let payloadSize := (wire.getD 3 0).toNat
    if maxPayload < payloadSize ∨ wire.length ≠ payloadSize + 5 then none
    else if checksum wire.dropLast ≠ wire.getLastD 0 then none
    else some {
      pollingAddress := wire.getD 1 0
      command := (wire.getD 2 0).toUInt16
      payload := (wire.drop 4).take payloadSize }

def encode (frame : HartFrame) (output : HartResponseBuilder) (maxPayload : Nat) : Bool × HartResponseBuilder :=
  if maxPayload < frame.payload.length ∨ 255 < frame.payload.length then (false, output)
  else
    let start := output.bytes.length
    match output.write [[0x02], [frame.pollingAddress], [frame.command.toUInt8], [UInt8.ofNat frame.payload.length],
      frame.payload] with
    | (false, output) => (false, output)
    | (true, output) => output.writeBytes [checksum (output.bytes.drop start)]

theorem foldl_xor (bytes : Bytes) (first : UInt8) : bytes.foldl (· ^^^ ·) first = first ^^^ checksum bytes := by
  unfold checksum
  induction bytes generalizing first with
  | nil => rw [List.foldl_nil, List.foldl_nil, UInt8.xor_zero]
  | cons byte bytes ih => rw [List.foldl_cons, List.foldl_cons, ih, ih (0 ^^^ byte), UInt8.zero_xor, UInt8.xor_assoc]

theorem checksum_append (left right : Bytes) : checksum (left ++ right) = checksum left ^^^ checksum right := by
  rw [checksum, List.foldl_append, foldl_xor]
  rfl

theorem checksum_closed (bytes : Bytes) : checksum (bytes ++ [checksum bytes]) = 0 := by
  rw [checksum_append]
  show checksum bytes ^^^ (0 ^^^ checksum bytes) = 0
  rw [UInt8.zero_xor, UInt8.xor_self]

/-! ### The wire form of a frame -/

/-- The bytes in front of the checksum. -/
def body (frame : HartFrame) : Bytes :=
  [0x02, frame.pollingAddress, frame.command.toUInt8, UInt8.ofNat frame.payload.length] ++ frame.payload

variable {frame : HartFrame} {output after : HartResponseBuilder} {maxPayload : Nat} {wire : Bytes}

theorem encode_bytes (encoded : encode frame output maxPayload = (true, after)) :
    frame.payload.length ≤ maxPayload ∧ frame.payload.length ≤ 255 ∧
      after.bytes = output.bytes ++ (body frame ++ [checksum (body frame)]) := by
  unfold encode at encoded
  split at encoded
  · cases encoded
  rename_i small
  dsimp only at encoded
  split at encoded
  · cases encoded
  rename_i middle fits
  have written := HartResponseBuilder.write_bytes fits
  have bytes : middle.bytes = output.bytes ++ body frame := by simpa [body] using written
  rw [bytes, List.drop_left] at encoded
  refine ⟨by omega, by omega, ?_⟩
  rw [HartResponseBuilder.writeBytes_bytes encoded, bytes, List.append_assoc]

/-- What `decode` reads in the bytes `encode` writes. -/
theorem decode_body (fits : frame.payload.length ≤ maxPayload) (small : frame.payload.length ≤ 255) :
    decode (body frame ++ [checksum (body frame)]) maxPayload =
      some { frame with command := frame.command.toUInt8.toUInt16 } := by
  have count : (UInt8.ofNat frame.payload.length).toNat = frame.payload.length := by
    rw [UInt8.toNat_ofNat', Nat.mod_eq_of_lt (by omega)]
  unfold decode
  rw [if_neg (by simp [body])]
  dsimp only
  rw [if_neg (by simp [body, count]; omega), List.dropLast_concat, if_neg (by simp)]
  simp [body, count]

theorem truncated_eq : { frame with command := frame.command.toUInt8.toUInt16 } = frame ↔ frame.command < 256 := by
  have value : frame.command.toUInt8.toUInt16.toNat = frame.command.toNat % 256 := by simp
  rw [UInt16.lt_iff_toNat_lt]
  constructor
  · intro same
    have command : frame.command.toUInt8.toUInt16 = frame.command := congrArg HartFrame.command same
    rw [← command, value]
    exact Nat.mod_lt _ (by decide)
  · intro small
    have command : frame.command.toUInt8.toUInt16 = frame.command :=
      UInt16.toNat_inj.mp (value.trans (Nat.mod_eq_of_lt small))
    rw [command]

theorem exists_parts (long : 5 ≤ wire.length) : ∃ delimiter address command count payload parity,
    wire = [delimiter, address, command, count] ++ payload ++ [parity] := by
  match wire, long with
  | delimiter :: address :: command :: count :: first :: rest, _ =>
    refine ⟨delimiter, address, command, count, (first :: rest).dropLast, (first :: rest).getLast (List.cons_ne_nil _ _), ?_⟩
    rw [List.append_assoc, List.dropLast_concat_getLast]
    rfl

/-- Accepted bytes are the wire form of the frame read in them. -/
theorem decode_wire (decoded : decode wire maxPayload = some frame) :
    wire = body frame ++ [checksum (body frame)] ∧ frame.payload.length ≤ maxPayload ∧
      frame.payload.length ≤ 255 := by
  unfold decode at decoded
  split at decoded
  · cases decoded
  rename_i start
  obtain ⟨delimiter, address, command, count, payload, parity, rfl⟩ := exists_parts (show 5 ≤ wire.length by omega)
  dsimp only at decoded
  split at decoded
  · cases decoded
  rename_i size
  split at decoded
  · cases decoded
  rename_i closed
  have here : delimiter = 0x02 := by simpa using start
  have length : payload.length = count.toNat := by
    simp at size
    omega
  have whole : UInt8.ofNat payload.length = count := by rw [length, UInt8.ofNat_toNat]
  have read : frame = { pollingAddress := address, command := command.toUInt16, payload := payload } := by
    rw [← Option.some.inj decoded]
    simp [← length]
  have bytes : body frame = [delimiter, address, command, count] ++ payload := by
    rw [read]
    simp [body, here, whole]
  rw [List.dropLast_concat, not_not, ← bytes] at closed
  refine ⟨?_, ?_, ?_⟩
  · rw [← bytes, closed]
    simp
  · rw [read]
    show payload.length ≤ maxPayload
    simp at size
    omega
  · rw [read]
    show payload.length ≤ 255
    have := count.toNat_lt
    omega

theorem encode_fits (fits : frame.payload.length ≤ maxPayload) (small : frame.payload.length ≤ 255)
    (room : output.bytes.length + frame.payload.length + 5 ≤ output.capacity) :
    encode frame output maxPayload =
      (true, { output with bytes := output.bytes ++ (body frame ++ [checksum (body frame)]) }) := by
  have written : output.write [[0x02], [frame.pollingAddress], [frame.command.toUInt8],
      [UInt8.ofNat frame.payload.length], frame.payload] =
      (true, { output with bytes := output.bytes ++ body frame }) := by
    rw [HartResponseBuilder.write_fits (by simp; omega)]
    simp [body]
  unfold encode
  rw [if_neg (by omega)]
  dsimp only
  rw [written]
  dsimp only
  rw [List.drop_left, HartResponseBuilder.writeBytes_fits (by simp [body]; omega), List.append_assoc]

/-- The bytes of an encoded frame decode to it exactly when its command fits its byte; accepted bytes are encoded to
themselves. -/
theorem frame_round_trip (frame : HartFrame) (maxPayload : Nat) :
    (∀ output after, encode frame output maxPayload = (true, after) →
      ∃ wire, after.bytes = output.bytes ++ wire ∧ (decode wire maxPayload = some frame ↔ frame.command < 256)) ∧
    ∀ wire output, decode wire maxPayload = some frame →
      output.bytes.length + wire.length ≤ output.capacity →
      encode frame output maxPayload = (true, { output with bytes := output.bytes ++ wire }) := by
  constructor
  · intro output after encoded
    obtain ⟨fits, small, bytes⟩ := encode_bytes encoded
    refine ⟨_, bytes, ?_⟩
    rw [decode_body fits small, Option.some.injEq]
    exact truncated_eq
  · intro wire output decoded room
    obtain ⟨rfl, fits, small⟩ := decode_wire decoded
    refine encode_fits fits small ?_
    simp [body] at room
    omega

/-- A frame that reads the primary variable, and one whose command number needs both bytes. -/
theorem frame_round_trip_samples :
    (∃ wire, (encode { pollingAddress := 3, command := 1 } {} 255).2.bytes = [] ++ wire ∧
      (decode wire 255 = some { pollingAddress := 3, command := 1 } ↔ (1 : HartCommandId) < 256)) ∧
    encode { pollingAddress := 3, command := 1 } {} 255 = (true, { bytes := [0x02, 0x03, 0x01, 0x00, 0x00] }) :=
  ⟨(frame_round_trip { pollingAddress := 3, command := 1 } 255).1 {} _ rfl,
    (frame_round_trip { pollingAddress := 3, command := 1 } 255).2 [0x02, 0x03, 0x01, 0x00, 0x00] {} (by decide)
      (by decide)⟩

/-- Command 528 is sent, and read back, as Command 16. -/
theorem frame_loses_command :
    (encode { pollingAddress := 3, command := 528 } {} 255).1 = true ∧
      decode (encode { pollingAddress := 3, command := 528 } {} 255).2.bytes 255 =
        some { pollingAddress := 3, command := 16 } := by
  decide

end HartFrameCodec

end LasecSimul.Hart

/-!
## Frames on the wire

`HartFrameAssembler`: received bytes, a byte at a time, to frames.
-/

namespace LasecSimul.Hart

/-- BACK, STX or ACK, physical layer bits zero. -/
def isDelimiter (byte : UInt8) : Bool :=
  let frameType := byte &&& 0x07
  byte &&& 0x18 == 0 && (frameType == 1 || frameType == 2 || frameType == 6)

def addressLength (delimiter : UInt8) : Nat := if delimiter &&& 0x80 ≠ 0 then 5 else 1

/-- The expansion bytes the delimiter announces. -/
def expansionLength (delimiter : UInt8) : Nat := (delimiter >>> 5 &&& 0x03).toNat

structure HartFrameAssembler where
  frame : Bytes := []
  preambles : Nat := 0
  expected : Nat := 0
  headerLength : Nat := 0
  inFrame : Bool := false
  deriving DecidableEq, Repr

namespace HartFrameAssembler

/-- `reset`. -/
def reset (_ : HartFrameAssembler) : HartFrameAssembler := {}

/-- One turn of the loop in `push`, and the frame it completes. -/
def pushByte (assembler : HartFrameAssembler) (byte : UInt8) : HartFrameAssembler × Option Bytes :=
  if assembler.inFrame = false then
    if byte = 0xFF then ({ assembler with preambles := assembler.preambles + 1 }, none)
    else if 2 ≤ assembler.preambles ∧ isDelimiter byte then
      let frame := List.replicate (min assembler.preambles 20) 0xFF ++ [byte]
      ({ frame
         inFrame := true
         expected := 0
         headerLength := frame.length + addressLength byte + expansionLength byte + 2
         preambles := 0 }, none)
    else ({ assembler with preambles := 0 }, none)
  else
    let frame := assembler.frame ++ [byte]
    let expected :=
      if frame.length = assembler.headerLength then assembler.headerLength + byte.toNat + 1 else assembler.expected
    if expected ≠ 0 ∧ frame.length = expected then
      ({ assembler with frame := [], inFrame := false, preambles := 0, expected := 0 }, some frame)
    else ({ assembler with frame := frame, expected := expected }, none)

/-- The frames completed by `bytes`. -/
def push (assembler : HartFrameAssembler) : Bytes → HartFrameAssembler × List Bytes
  | [] => (assembler, [])
  | byte :: bytes =>
    let (assembler, completed) := assembler.pushByte byte
    let (assembler, frames) := push assembler bytes
    (assembler, completed.toList ++ frames)

/-- The frames completed by one `push` after the other. -/
def pushAll (assembler : HartFrameAssembler) : List Bytes → HartFrameAssembler × List Bytes
  | [] => (assembler, [])
  | chunk :: chunks =>
    let (assembler, completed) := assembler.push chunk
    let (assembler, frames) := pushAll assembler chunks
    (assembler, completed ++ frames)

variable {assembler : HartFrameAssembler} {byte : UInt8} {bytes header tail : Bytes}

theorem push_cons (assembler : HartFrameAssembler) (byte : UInt8) (bytes : Bytes) :
    assembler.push (byte :: bytes) =
      (((assembler.pushByte byte).1.push bytes).1,
        (assembler.pushByte byte).2.toList ++ ((assembler.pushByte byte).1.push bytes).2) := rfl

theorem push_append (assembler : HartFrameAssembler) (bytes later : Bytes) :
    assembler.push (bytes ++ later) =
      (((assembler.push bytes).1.push later).1, (assembler.push bytes).2 ++ ((assembler.push bytes).1.push later).2) := by
  induction bytes generalizing assembler with
  | nil => rfl
  | cons byte bytes ih =>
    rw [List.cons_append, push_cons, push_cons, ih, List.append_assoc]

/-- How the bytes are split does not matter. -/
theorem pushAll_eq (assembler : HartFrameAssembler) (chunks : List Bytes) :
    assembler.pushAll chunks = assembler.push chunks.flatten := by
  induction chunks generalizing assembler with
  | nil => rfl
  | cons chunk chunks ih =>
    rw [List.flatten_cons, push_append, ← ih]
    rfl

theorem push_preambles (count : Nat) (idle : assembler.inFrame = false) :
    assembler.push (List.replicate count 0xFF) =
      ({ assembler with preambles := assembler.preambles + count }, []) := by
  induction count generalizing assembler with
  | zero => rfl
  | succ count ih =>
    have step : assembler.pushByte 0xFF = ({ assembler with preambles := assembler.preambles + 1 }, none) := by
      unfold pushByte
      rw [if_pos idle, if_pos rfl]
    have rest := @ih { assembler with preambles := assembler.preambles + 1 } idle
    rw [List.replicate_succ, push_cons, step, rest]
    simp [Nat.add_right_comm, Nat.add_assoc]

theorem pushByte_inside (inFrame : assembler.inFrame = true) (header : assembler.frame.length + 1 ≠ assembler.headerLength)
    (unfinished : assembler.expected = 0 ∨ assembler.frame.length + 1 ≠ assembler.expected) :
    assembler.pushByte byte = ({ assembler with frame := assembler.frame ++ [byte] }, none) := by
  have size : (assembler.frame ++ [byte]).length = assembler.frame.length + 1 := by simp
  unfold pushByte
  rw [if_neg (by simp [inFrame])]
  dsimp only
  rw [size, if_neg header, if_neg (by omega)]

theorem push_inside (inFrame : assembler.inFrame = true)
    (place : assembler.frame.length + bytes.length < assembler.headerLength ∧ assembler.expected = 0 ∨
      assembler.headerLength ≤ assembler.frame.length ∧ assembler.frame.length + bytes.length < assembler.expected) :
    assembler.push bytes = ({ assembler with frame := assembler.frame ++ bytes }, []) := by
  induction bytes generalizing assembler with
  | nil => simp [push]
  | cons byte bytes ih =>
    simp only [List.length_cons] at place
    have rest := @ih { assembler with frame := assembler.frame ++ [byte] } inFrame (by simp; omega)
    rw [push_cons, pushByte_inside inFrame (by omega) (by omega), rest]
    simp

theorem pushByte_count (inFrame : assembler.inFrame = true)
    (last : assembler.frame.length + 1 = assembler.headerLength) :
    assembler.pushByte byte = ({ assembler with
      frame := assembler.frame ++ [byte], expected := assembler.headerLength + byte.toNat + 1 }, none) := by
  have size : (assembler.frame ++ [byte]).length = assembler.frame.length + 1 := by simp
  have unfinished : ¬ (assembler.headerLength + byte.toNat + 1 ≠ 0 ∧
      assembler.frame.length + 1 = assembler.headerLength + byte.toNat + 1) := by omega
  unfold pushByte
  rw [if_neg (by simp [inFrame])]
  dsimp only
  rw [size, if_pos last, if_neg unfinished]

theorem pushByte_last (inFrame : assembler.inFrame = true) (header : assembler.headerLength ≤ assembler.frame.length)
    (last : assembler.frame.length + 1 = assembler.expected) :
    assembler.pushByte byte = ({ assembler with frame := [], inFrame := false, preambles := 0, expected := 0 },
      some (assembler.frame ++ [byte])) := by
  have size : (assembler.frame ++ [byte]).length = assembler.frame.length + 1 := by simp
  have behind : ¬ assembler.frame.length + 1 = assembler.headerLength := by omega
  have whole : assembler.expected ≠ 0 ∧ assembler.frame.length + 1 = assembler.expected := by omega
  unfold pushByte
  rw [if_neg (by simp [inFrame])]
  dsimp only
  rw [size, if_neg behind, if_pos whole]

/-- Between two frames, with no preamble counted. -/
def Idle (assembler : HartFrameAssembler) : Prop := assembler.inFrame = false ∧ assembler.preambles = 0

/-- A frame behind two preambles or more. -/
theorem push_frame {delimiter count : UInt8} {preambles : Nat} (idle : assembler.Idle) (enough : 2 ≤ preambles)
    (delimits : isDelimiter delimiter = true)
    (address : header.length = addressLength delimiter + expansionLength delimiter + 1)
    (data : tail.length = count.toNat + 1) :
    ∃ after, after.Idle ∧
      assembler.push (List.replicate preambles 0xFF ++ ([delimiter] ++ header ++ [count] ++ tail)) =
        (after, [List.replicate (min preambles 20) 0xFF ++ ([delimiter] ++ header ++ [count] ++ tail)]) := by
  have plain : delimiter ≠ 0xFF := by
    rintro rfl
    exact absurd delimits (by decide)
  obtain ⟨body, last, rfl⟩ : ∃ body last, tail = body ++ [last] :=
    ⟨tail.dropLast, tail.getLast (by rintro rfl; simp at data), (List.dropLast_concat_getLast _).symm⟩
  rw [push_append, push_preambles preambles idle.1, idle.2]
  -- the states after the delimiter, the header, the byte count and the data
  let opened : HartFrameAssembler := {
    frame := List.replicate (min preambles 20) 0xFF ++ [delimiter]
    inFrame := true
    headerLength := (List.replicate (min preambles 20) 0xFF ++ [delimiter]).length + addressLength delimiter +
      expansionLength delimiter + 2 }
  let headed : HartFrameAssembler := { opened with frame := opened.frame ++ header }
  let counted : HartFrameAssembler := { opened with
    frame := opened.frame ++ header ++ [count], expected := opened.headerLength + count.toNat + 1 }
  let filled : HartFrameAssembler := { counted with frame := counted.frame ++ body }
  rw [List.length_append, List.length_singleton] at data
  have start : pushByte { assembler with preambles := 0 + preambles } delimiter = (opened, none) := by
    unfold pushByte
    rw [if_pos idle.1, if_neg plain, if_pos ⟨by dsimp only; omega, delimits⟩, Nat.zero_add]
  have inHeader : opened.push header = (headed, []) := push_inside rfl (.inl ⟨by simp only [opened]; omega, rfl⟩)
  have counts : headed.pushByte count = (counted, none) :=
    pushByte_count rfl (by simp only [headed, opened, List.length_append]; omega)
  have size : counted.frame.length = counted.headerLength := by
    simp only [counted, opened, List.length_append, List.length_singleton]
    omega
  have expects : counted.expected = counted.headerLength + count.toNat + 1 := rfl
  have inData : counted.push body = (filled, []) := push_inside rfl (.inr ⟨by omega, by omega⟩)
  have filledSize : filled.frame.length = counted.frame.length + body.length := by
    simp only [filled, List.length_append]
  have closes : filled.pushByte last = ({ filled with frame := [], inFrame := false, preambles := 0, expected := 0 },
      some (filled.frame ++ [last])) :=
    pushByte_last rfl (show counted.headerLength ≤ filled.frame.length by omega)
      (show filled.frame.length + 1 = counted.expected by omega)
  rw [show [delimiter] ++ header ++ [count] ++ (body ++ [last]) =
    delimiter :: (header ++ count :: (body ++ [last])) by simp]
  rw [push_cons, start, push_append, inHeader, push_cons, counts, push_append, inData, push_cons, closes]
  refine ⟨{ filled with frame := [], inFrame := false, preambles := 0, expected := 0 }, ⟨rfl, rfl⟩, ?_⟩
  simp [push, filled, counted, opened]

theorem push_gap (idle : assembler.Idle) (quiet : bytes.any isDelimiter = false) :
    ∃ after, after.inFrame = false ∧ (bytes.getLast? ≠ some 0xFF → after.preambles = 0) ∧
      assembler.push bytes = (after, []) := by
  induction bytes using List.reverseRecOn with
  | nil => exact ⟨assembler, idle.1, fun _ => idle.2, rfl⟩
  | append_singleton before last ih =>
    rw [List.any_append, Bool.or_eq_false_iff] at quiet
    obtain ⟨after, outside, _, skipped⟩ := ih quiet.1
    have plain : isDelimiter last = false := by simpa using quiet.2
    rw [push_append, skipped, push_cons]
    unfold pushByte
    rw [if_pos outside]
    by_cases preamble : last = 0xFF
    · exact ⟨{ after with preambles := after.preambles + 1 }, outside, by simp [preamble], by simp [preamble, push]⟩
    · exact ⟨{ after with preambles := 0 }, outside, fun _ => rfl, by simp [preamble, plain, push]⟩

/-- What stands on the wire for one frame: noise in which no frame starts, the preambles, and the frame. -/
structure Sent where
  gap : Bytes := []
  preambles : Nat
  delimiter : UInt8
  header : Bytes
  count : UInt8
  tail : Bytes
  quiet : gap.any isDelimiter = false := by decide
  ends : gap.getLast? ≠ some 0xFF := by decide
  enough : 2 ≤ preambles := by decide
  delimits : isDelimiter delimiter = true := by decide
  address : header.length = addressLength delimiter + expansionLength delimiter + 1 := by decide
  data : tail.length = count.toNat + 1 := by decide

def Sent.body (sent : Sent) : Bytes := [sent.delimiter] ++ sent.header ++ [sent.count] ++ sent.tail

def Sent.wire (sent : Sent) : Bytes := sent.gap ++ (List.replicate sent.preambles 0xFF ++ sent.body)

/-- The frame as it is completed: the assembler keeps 20 of its preambles. -/
def Sent.frame (sent : Sent) : Bytes := List.replicate (min sent.preambles 20) 0xFF ++ sent.body

theorem push_sent (idle : assembler.Idle) (sent : Sent) :
    ∃ after, after.Idle ∧ assembler.push sent.wire = (after, [sent.frame]) := by
  obtain ⟨waiting, outside, fresh, skipped⟩ := push_gap idle sent.quiet
  obtain ⟨after, done, completed⟩ := push_frame ⟨outside, fresh sent.ends⟩ sent.enough sent.delimits sent.address sent.data
  refine ⟨after, done, ?_⟩
  rw [Sent.wire, push_append, skipped, Sent.body, completed]
  rfl

theorem push_stream (idle : assembler.Idle) (stream : List Sent) :
    (assembler.push (stream.flatMap Sent.wire)).2 = stream.map Sent.frame := by
  induction stream generalizing assembler with
  | nil => rfl
  | cons sent stream ih =>
    obtain ⟨after, done, completed⟩ := push_sent idle sent
    rw [List.flatMap_cons, push_append, completed, ih done]
    rfl

/-- However a stream of frames is split on its way, each frame is completed, once and in its order. -/
theorem stream_frames (assembler : HartFrameAssembler) (stream : List Sent) (chunks : List Bytes)
    (split : chunks.flatten = stream.flatMap Sent.wire) :
    (assembler.reset.pushAll chunks).2 = stream.map Sent.frame := by
  rw [pushAll_eq, split]
  exact push_stream ⟨rfl, rfl⟩ stream

/-- An acknowledge behind noise, and a burst frame right behind it. -/
theorem stream_frames_two :
    (reset {} |>.pushAll [[0x00, 0xFF], [0xFF, 0x06, 0x80], [0x01, 0x01, 0x07, 0x81, 0xFF, 0xFF, 0xFF],
      [0x01, 0x80, 0x02, 0x00, 0x83]]).2 =
      [[0xFF, 0xFF, 0x06, 0x80, 0x01, 0x01, 0x07, 0x81], [0xFF, 0xFF, 0xFF, 0x01, 0x80, 0x02, 0x00, 0x83]] :=
  stream_frames {}
    [{ gap := [0x00], preambles := 2, delimiter := 0x06, header := [0x80, 0x01], count := 0x01, tail := [0x07, 0x81] },
      { preambles := 3, delimiter := 0x01, header := [0x80, 0x02], count := 0x00, tail := [0x83] }] _ rfl

/-- The bytes kept for the frame to come. -/
def held (assembler : HartFrameAssembler) : Nat :=
  if assembler.inFrame then assembler.frame.length else min assembler.preambles 20

theorem pushByte_held (assembler : HartFrameAssembler) (byte : UInt8) :
    (assembler.pushByte byte).1.held ≤ assembler.held + 1 ∧
      ∀ frame, (assembler.pushByte byte).2 = some frame → frame.length ≤ assembler.held + 1 := by
  unfold pushByte held
  cases inside : assembler.inFrame with
  | false =>
    rw [if_pos rfl]
    refine ⟨?_, ?_⟩
    · split_ifs
      all_goals simp_all
      omega
    · split_ifs <;> exact nofun
  | true =>
    rw [if_neg (show ¬ true = false from nofun)]
    dsimp only
    split_ifs
    all_goals simp_all

theorem push_short (assembler : HartFrameAssembler) (bytes : Bytes) :
    ∀ frame ∈ (assembler.push bytes).2, frame.length ≤ assembler.held + bytes.length := by
  induction bytes generalizing assembler with
  | nil => exact nofun
  | cons byte bytes ih =>
    obtain ⟨grows, completes⟩ := pushByte_held assembler byte
    intro frame member
    rw [push_cons] at member
    rw [List.length_cons]
    rcases List.mem_append.mp member with here | later
    · have := completes frame (Option.mem_toList.mp here)
      omega
    · have := ih _ frame later
      omega

/-- Behind a byte that is no delimiter, no frame is longer than what follows it. -/
theorem push_rejected {delimiter : UInt8} (preambles : Nat) (rest : Bytes) (other : delimiter ≠ 0xFF)
    (rejected : isDelimiter delimiter = false) :
    ∀ frame ∈ (push {} (List.replicate preambles 0xFF ++ delimiter :: rest)).2, frame.length ≤ rest.length := by
  have skipped : pushByte { preambles := 0 + preambles } delimiter = ({}, none) := by
    unfold pushByte
    rw [if_pos rfl, if_neg other, if_neg (by simp [rejected])]
  intro frame member
  rw [push_append, push_preambles preambles rfl, push_cons, skipped] at member
  have short := push_short {} rest frame member
  rwa [show held {} = 0 from rfl, Nat.zero_add] at short

/-- Inside a frame, what is held begins one. -/
def Begun (assembler : HartFrameAssembler) : Prop :=
  assembler.inFrame = true → ∃ preambles delimiter rest, (2 ≤ preambles ∧ preambles ≤ 20) ∧ isDelimiter delimiter = true ∧
    assembler.frame = List.replicate preambles 0xFF ++ delimiter :: rest ∧
      let size := addressLength delimiter + expansionLength delimiter + 1
      assembler.headerLength = preambles + size + 2 ∧ (rest.length ≤ size ∧ assembler.expected = 0 ∨
        ∃ header count tail, rest = header ++ count :: tail ∧ header.length = size ∧ tail.length ≤ count.toNat ∧
          assembler.expected = assembler.headerLength + count.toNat + 1)

theorem pushByte_begun (begun : assembler.Begun) (byte : UInt8) : (assembler.pushByte byte).1.Begun ∧
    ∀ frame, (assembler.pushByte byte).2 = some frame → ∃ sent : Sent, frame = sent.frame := by
  cases inside : assembler.inFrame with
  | false =>
    unfold pushByte
    rw [if_pos inside]
    split_ifs with preamble starts
    · exact ⟨fun entered => by simp [inside] at entered, by simp⟩
    · refine ⟨fun _ => ⟨min assembler.preambles 20, byte, [], by omega, starts.2, rfl, ?_⟩, by simp⟩
      simp
      omega
    · exact ⟨fun entered => by simp [inside] at entered, by simp⟩
  | true =>
    obtain ⟨preambles, delimiter, rest, enough, delimits, frame, length, place⟩ := begun inside
    have held : assembler.frame.length = preambles + rest.length + 1 := by simp [frame]; omega
    rcases place with ⟨short, unknown⟩ | ⟨header, count, tail, rfl, address, data, expected⟩
    · by_cases last : rest.length = addressLength delimiter + expansionLength delimiter + 1
      · rw [pushByte_count inside (by omega)]
        exact ⟨fun _ => ⟨preambles, delimiter, rest ++ [byte], enough, delimits, by simp [frame], length,
          .inr ⟨rest, byte, [], rfl, last, Nat.zero_le _, rfl⟩⟩, by simp⟩
      · rw [pushByte_inside inside (by omega) (.inl unknown)]
        exact ⟨fun _ => ⟨preambles, delimiter, rest ++ [byte], enough, delimits, by simp [frame], length,
          .inl ⟨by simp; omega, unknown⟩⟩, by simp⟩
    · rw [List.length_append, List.length_cons] at held
      by_cases last : tail.length = count.toNat
      · rw [pushByte_last inside (by omega) (by omega)]
        refine ⟨fun entered => absurd entered Bool.false_ne_true, ?_⟩
        rintro _ ⟨⟩
        exact ⟨{ preambles, delimiter, header, count, tail := tail ++ [byte], enough := enough.1, delimits, address
                 data := by simp [last] }, by simp [Sent.frame, Sent.body, frame, enough.2]⟩
      · rw [pushByte_inside inside (by omega) (.inr (by omega))]
        exact ⟨fun _ => ⟨preambles, delimiter, header ++ count :: (tail ++ [byte]), enough, delimits, by simp [frame], length,
          .inr ⟨header, count, tail ++ [byte], rfl, address, by simp; omega, expected⟩⟩, by simp⟩

theorem push_begun (begun : assembler.Begun) :
    ∃ stream : List Sent, (assembler.push bytes).2 = stream.map Sent.frame := by
  induction bytes generalizing assembler with
  | nil => exact ⟨[], rfl⟩
  | cons byte bytes ih =>
    obtain ⟨begun, whole⟩ := pushByte_begun begun byte
    obtain ⟨stream, frames⟩ := ih begun
    rw [push_cons, frames]
    cases completed : (assembler.pushByte byte).2 with
    | none => exact ⟨stream, rfl⟩
    | some frame =>
      obtain ⟨sent, rfl⟩ := whole frame completed
      exact ⟨sent :: stream, rfl⟩

/-- Whatever is received, what is completed is a stream of frames. -/
theorem completed_wellFormed (assembler : HartFrameAssembler) (chunks : List Bytes) :
    ∃ stream : List Sent, (assembler.reset.pushAll chunks).2 = stream.map Sent.frame := by
  rw [pushAll_eq]
  exact push_begun fun entered => absurd entered Bool.false_ne_true

end HartFrameAssembler

end LasecSimul.Hart
