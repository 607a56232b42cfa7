import Mathlib.Data.List.Basic

/-!
# Response buffer

`HartResponseBuilder`, the response codes, and the big-endian fields the commands write.
-/

namespace LasecSimul.Hart

abbrev Bytes := List UInt8

abbrev HartCommandId := UInt16

structure HartResponseBuilder where
  /-- Size of `m_bytes`. -/
  capacity : Nat := 64
  /-- The first `m_size` bytes of `m_bytes`. -/
  bytes : Bytes := []
  overflow : Bool := false
  responseCode : UInt8 := 0
  noReply : Bool := false
  deriving DecidableEq, Repr

namespace HartResponseCodes

def success : UInt8 := 0
def invalidSelection : UInt8 := 2
def tooFewDataBytes : UInt8 := 5
def inWriteProtectMode : UInt8 := 7
def accessRestricted : UInt8 := 16
def commandNotImplemented : UInt8 := 64

end HartResponseCodes

namespace HartResponseBuilder

def writeBytes (response : HartResponseBuilder) (values : Bytes) : Bool × HartResponseBuilder :=
  if response.capacity - response.bytes.length < values.length then (false, { response with overflow := true })
  else (true, { response with bytes := response.bytes ++ values })

/-- `response.write…(a) && response.write…(b) && …`; `writeByte(v)` is `writeBytes` of one byte. -/
def write (response : HartResponseBuilder) : List Bytes → Bool × HartResponseBuilder
  | [] => (true, response)
  | field :: fields =>
    match response.writeBytes field with
    | (true, response) => response.write fields
    | (false, response) => (false, response)

def fail (response : HartResponseBuilder) (code : UInt8) : Bool × HartResponseBuilder :=
  (false, { response with responseCode := code })

def setResponseCode (response : HartResponseBuilder) (code : UInt8) : HartResponseBuilder :=
  { response with responseCode := code }

theorem writeBytes_bytes {response after : HartResponseBuilder} {values : Bytes}
    (fits : response.writeBytes values = (true, after)) : after.bytes = response.bytes ++ values := by
  unfold writeBytes at fits
  split at fits
  · cases fits
  · cases fits
    rfl

/-- A write that succeeds appended all its fields. -/
theorem write_bytes {response after : HartResponseBuilder} {fields : List Bytes}
    (fits : response.write fields = (true, after)) : after.bytes = response.bytes ++ fields.flatten := by
  induction fields generalizing response with
  | nil =>
    cases fits
    simp
  | cons field fields ih =>
    unfold write at fits
    split at fits
    · rename_i next first
      rw [ih fits, writeBytes_bytes first, List.flatten_cons, List.append_assoc]
    · cases fits

theorem writeBytes_fits {response : HartResponseBuilder} {values : Bytes}
    (room : response.bytes.length + values.length ≤ response.capacity) :
    response.writeBytes values = (true, { response with bytes := response.bytes ++ values }) := by
  unfold writeBytes
  rw [if_neg (by omega)]

/-- Fields for which there is room are all written. -/
theorem write_fits {response : HartResponseBuilder} {fields : List Bytes}
    (room : response.bytes.length + fields.flatten.length ≤ response.capacity) :
    response.write fields = (true, { response with bytes := response.bytes ++ fields.flatten }) := by
  induction fields generalizing response with
  | nil => simp [write]
  | cons field fields ih =>
    rw [List.flatten_cons, List.length_append] at room
    unfold write
    rw [writeBytes_fits (by omega)]
    dsimp only
    rw [ih (by rw [List.length_append]; dsimp only; omega), List.flatten_cons, List.append_assoc]

end HartResponseBuilder

/-- `high << 8 | low`. -/
def readU16 (high low : UInt8) : UInt16 := high.toUInt16 <<< 8 ||| low.toUInt16

def readU24 (high middle low : UInt8) : UInt32 :=
  high.toUInt32 <<< 16 ||| middle.toUInt32 <<< 8 ||| low.toUInt32

def readU32 (b₀ b₁ b₂ b₃ : UInt8) : UInt32 :=
  b₀.toUInt32 <<< 24 ||| b₁.toUInt32 <<< 16 ||| b₂.toUInt32 <<< 8 ||| b₃.toUInt32

def put16 (value : UInt16) : List Bytes := [[(value >>> 8).toUInt8], [value.toUInt8]]

def put24 (value : UInt32) : List Bytes :=
  [[(value >>> 16).toUInt8], [(value >>> 8).toUInt8], [value.toUInt8]]

def put32 (value : UInt32) : List Bytes :=
  [[(value >>> 24).toUInt8], [(value >>> 16).toUInt8], [(value >>> 8).toUInt8], [value.toUInt8]]

end LasecSimul.Hart
