import LasecSimul.Hart.Response
import LasecSimul.Lib.Ieee

/-!
# User variables of command programs

The bytes an expression yields, and `APPEND` and `SET` of an authored variable by its declared type.
-/

namespace LasecSimul.Hart

open Lib.Binary (FloatValue binary32)

/-- `HartTypeCodec::decodeFloat32BE`. -/
def decodeFloat32BE : Bytes → FloatValue
  | b₀ :: b₁ :: b₂ :: b₃ :: _ => binary32.unpack (readU32 b₀ b₁ b₂ b₃).toNat
  | _ => .finite false 0

/-- `HartTypeCodec::encodeFloat32BE`. -/
def encodeFloat32BE (value : FloatValue) : Bytes := (put32 (UInt32.ofNat (binary32.pack value))).flatten

/-- `HartTypeCodec::encodeUnsignedBE`. -/
def encodeUnsignedBE (value : UInt32) (width : Nat) : Bytes :=
  ((List.range (min width 4)).map fun i => (value >>> UInt32.ofNat (8 * i)).toUInt8).reverse

def unsignedValue (bytes : Bytes) (width : Nat) : Option UInt32 :=
  if bytes.length ≠ width then none
  else some (bytes.foldl (fun result byte => result <<< 8 ||| byte.toUInt32) 0)

inductive HartVariableType where
  | float32 | uInt8 | uInt16 | int16 | packedAscii | bool | enum | bitEnum | ascii
  deriving DecidableEq, Repr

inductive HartUserVariableField where
  | value | lowerRange | upperRange
  deriving DecidableEq, Repr

structure UserVariable where
  id : String
  /-- A double; `lowerRangeValue` and `upperRangeValue` are floats. -/
  value : FloatValue := .finite false 0
  type : HartVariableType := .float32
  wireWidth : UInt8 := 1
  lowerRangeValue : FloatValue := .nan false
  upperRangeValue : FloatValue := .nan false
  text : Bytes := []
  dirty : Bool := false

/-- `std::clamp<size_t>(wireWidth, 1, 2)`. -/
def UserVariable.width (target : UserVariable) : Nat := max 1 (min target.wireWidth.toNat 2)

/-- `static_cast<uint32_t>(value)`, for a value in range. -/
def toUnsigned (value : FloatValue) : UInt32 := UInt32.ofNat value.truncate.toNat

namespace UserVariable

/-- The bytes of a `UserVariable` expression. -/
def read (target : UserVariable) : HartUserVariableField → Option Bytes
  | .lowerRange => some (encodeFloat32BE target.lowerRangeValue)
  | .upperRange => some (encodeFloat32BE target.upperRangeValue)
  | .value =>
    match target.type with
    | .float32 => some (encodeFloat32BE (binary32.convert target.value))
    | .uInt8 => some (encodeUnsignedBE (toUnsigned target.value) 1)
    | .uInt16 => some (encodeUnsignedBE (toUnsigned target.value) 2)
    | .int16 => some (encodeUnsignedBE (Int16.ofInt target.value.truncate).toUInt16.toUInt32 2)
    | .bool => some [if target.value.eq (.finite false 0) then 0 else 1]
    | .enum | .bitEnum => some (encodeUnsignedBE (toUnsigned target.value) target.width)
    | .ascii => some target.text
    | .packedAscii => none

/-- The variable with a value decoded from the bytes; `none` when they are refused. -/
def decode (target : UserVariable) (bytes : Bytes) : Option UserVariable :=
  let assign (decoded : UInt32) : UserVariable := { target with value := .ofInt decoded.toNat }
  match target.type with
  | .float32 =>
    if bytes.length ≠ 4 then none
    else
      let decoded := decodeFloat32BE bytes
      if decoded.isFinite then some { target with value := decoded } else none
  | .uInt8 | .bool => (unsignedValue bytes 1).map assign
  | .uInt16 => (unsignedValue bytes 2).map assign
  | .int16 => (unsignedValue bytes 2).map fun decoded =>
      { target with value := .ofInt decoded.toUInt16.toInt16.toInt }
  | .enum | .bitEnum => (unsignedValue bytes target.width).map assign
  | .ascii => if bytes.length ≠ target.text.length then none else some { target with text := bytes }
  | .packedAscii => none

/-- The variable after a `SET` statement was executed on the field. -/
def write (target : UserVariable) (field : HartUserVariableField) (bytes : Bytes) : Option UserVariable :=
  match field with
  | .value => (target.decode bytes).map fun target => { target with dirty := true }
  | field =>
    if bytes.length ≠ 4 then none
    else
      let bound := decodeFloat32BE bytes
      if bound.isFinite then
        if field = .lowerRange then some { target with lowerRangeValue := bound, dirty := true }
        else some { target with upperRangeValue := bound, dirty := true }
      else none

end UserVariable

/-- The expressions; `ε` are those that read neither the request nor a user variable. -/
inductive HartExpr (ε : Type) where
  | requestBody
  | bodySlice (offset length : Nat)
  | hexConstant (constant : Bytes)
  | localCode
  | userVariable (variableId : String) (field : HartUserVariableField)
  | userVariableTable (offset length : Nat) (table : List String)
  | other (kind : ε)

structure HartExecutionVariables (τ : Type) where
  userVariables : List UserVariable
  requestTooShort : Bool := false
  invalidSelection : Bool := false
  /-- Identity, process values and device variables. -/
  rest : τ

section Statements

variable {ε τ : Type} (evalOther : ε → τ → UInt8 → Option Bytes)

def evalUserVariable (vars : HartExecutionVariables τ) (variableId : String) (field : HartUserVariableField) :
    Option Bytes :=
  (vars.userVariables.find? (·.id == variableId)).bind (·.read field)

/-- `evalExpr`: the bytes of an expression, and the variables with the error flags it set. -/
def evalExpr (vars : HartExecutionVariables τ) (request : Bytes) (localCode : UInt8) :
    HartExpr ε → Option Bytes × HartExecutionVariables τ
  | .requestBody => (some request, vars)
  | .bodySlice offset length =>
    if request.length < offset then (none, { vars with requestTooShort := true })
    else
      let available := request.length - offset
      let length := if length = 0 then available else length
      if available < length then (none, { vars with requestTooShort := true })
      else (some ((request.drop offset).take length), vars)
  | .hexConstant constant => (some constant, vars)
  | .localCode => (some [localCode], vars)
  | .userVariable variableId field => (evalUserVariable vars variableId field, vars)
  | .userVariableTable offset length table =>
    match request[offset]? with
    | none => (none, { vars with requestTooShort := true })
    | some selector =>
      match table[selector.toNat + length]? with
      | none => (none, { vars with invalidSelection := true })
      | some variableId =>
        match evalUserVariable vars variableId .value with
        | none => (none, { vars with invalidSelection := true })
        | some bytes => (some bytes, vars)
  | .other kind => (evalOther kind vars.rest localCode, vars)

/-- The first variable with this id, written. -/
def writeFirst (variableId : String) (write : UserVariable → Option UserVariable) :
    List UserVariable → Option (List UserVariable)
  | [] => none
  | target :: rest =>
    if target.id = variableId then (write target).map (· :: rest)
    else (writeFirst variableId write rest).map (target :: ·)

/-- `SET` of a user variable. -/
def execSetUserVariable (vars : HartExecutionVariables τ) (request : Bytes) (localCode : UInt8) (variableId : String)
    (field : HartUserVariableField) (value : HartExpr ε) : Bool × HartExecutionVariables τ :=
  match evalExpr evalOther vars request localCode value with
  | (none, vars) => (false, vars)
  | (some bytes, vars) =>
    match writeFirst variableId (·.write field bytes) vars.userVariables with
    | none => (false, vars)
    | some userVariables => (true, { vars with userVariables := userVariables })

/-- `APPEND`. -/
def execAppend (vars : HartExecutionVariables τ) (request : Bytes) (localCode : UInt8) (source : HartExpr ε)
    (response : HartResponseBuilder) : Bool × HartExecutionVariables τ × HartResponseBuilder :=
  match evalExpr evalOther vars request localCode source with
  | (none, vars) => (false, vars, response)
  | (some bytes, vars) =>
    let (written, response) := response.writeBytes bytes
    (written, vars, response)

end Statements

/-! ### Bytes of a number -/

theorem or_eq_add (high low bits : Nat) (small : low < 2 ^ bits) : high * 2 ^ bits ||| low = high * 2 ^ bits + low := by
  rw [Nat.mul_comm, ← Nat.two_pow_add_eq_or_of_lt small]

theorem readU32_toNat (b₀ b₁ b₂ b₃ : UInt8) : (readU32 b₀ b₁ b₂ b₃).toNat =
    ((b₀.toNat * 256 + b₁.toNat) * 256 + b₂.toNat) * 256 + b₃.toNat := by
  have h₀ := b₀.toNat_lt
  have h₁ := b₁.toNat_lt
  have h₂ := b₂.toNat_lt
  have h₃ := b₃.toNat_lt
  unfold readU32
  simp only [UInt32.toNat_or, UInt32.toNat_shiftLeft, UInt8.toNat_toUInt32, Nat.shiftLeft_eq, UInt32.reduceToNat,
    Nat.reduceMod]
  rw [Nat.mod_eq_of_lt (a := b₀.toNat * 2 ^ 24) (by omega), Nat.mod_eq_of_lt (a := b₁.toNat * 2 ^ 16) (by omega),
    Nat.mod_eq_of_lt (a := b₂.toNat * 2 ^ 8) (by omega), or_eq_add _ _ 24 (by omega),
    show b₀.toNat * 2 ^ 24 + b₁.toNat * 2 ^ 16 = (b₀.toNat * 256 + b₁.toNat) * 2 ^ 16 by omega,
    or_eq_add _ _ 16 (by omega),
    show (b₀.toNat * 256 + b₁.toNat) * 2 ^ 16 + b₂.toNat * 2 ^ 8 =
      ((b₀.toNat * 256 + b₁.toNat) * 256 + b₂.toNat) * 2 ^ 8 by omega,
    or_eq_add _ _ 8 (by omega)]
  omega

theorem put32_readU32 (b₀ b₁ b₂ b₃ : UInt8) : put32 (readU32 b₀ b₁ b₂ b₃) = [[b₀], [b₁], [b₂], [b₃]] := by
  have value := readU32_toNat b₀ b₁ b₂ b₃
  have h₀ := b₀.toNat_lt
  have h₁ := b₁.toNat_lt
  have h₂ := b₂.toNat_lt
  have h₃ := b₃.toNat_lt
  unfold put32
  simp only [List.cons.injEq, and_true, ← UInt8.toNat_inj, UInt32.toNat_toUInt8, UInt32.toNat_shiftRight,
    Nat.shiftRight_eq_div_pow, UInt32.reduceToNat, Nat.reduceMod, value]
  omega

theorem exists_four {bytes : Bytes} (four : bytes.length = 4) : ∃ b₀ b₁ b₂ b₃, bytes = [b₀, b₁, b₂, b₃] := by
  match bytes, four with
  | [b₀, b₁, b₂, b₃], _ => exact ⟨b₀, b₁, b₂, b₃, rfl⟩

theorem encodeFloat32BE_decode {bytes : Bytes} (four : bytes.length = 4)
    (finite : (decodeFloat32BE bytes).isFinite = true) : encodeFloat32BE (decodeFloat32BE bytes) = bytes := by
  obtain ⟨b₀, b₁, b₂, b₃, rfl⟩ := exists_four four
  have bits : (readU32 b₀ b₁ b₂ b₃).toNat < 2 * (binary32.exponents * binary32.fractions) := UInt32.toNat_lt _
  show (put32 (UInt32.ofNat (binary32.pack (binary32.unpack (readU32 b₀ b₁ b₂ b₃).toNat)))).flatten = _
  rw [Lib.Binary.Format.pack_unpack (by decide) (by decide) finite bits, UInt32.ofNat_toNat, put32_readU32]
  rfl

/-- A float is what it was after its time as a double. -/
theorem convert_decodeFloat32BE {bytes : Bytes} (four : bytes.length = 4)
    (finite : (decodeFloat32BE bytes).isFinite = true) :
    binary32.convert (decodeFloat32BE bytes) = decodeFloat32BE bytes := by
  obtain ⟨b₀, b₁, b₂, b₃, rfl⟩ := exists_four four
  exact Lib.Binary.Format.convert_unpack (by decide) (by decide) finite (by decide) (by decide) (Nat.le_refl _)
    (Int.le_refl _) (Int.le_refl _)

theorem toUnsigned_ofInt (decoded : UInt32) : toUnsigned (.ofInt decoded.toNat) = decoded := by
  unfold toUnsigned
  rw [FloatValue.truncate_ofInt, Int.toNat_natCast, UInt32.ofNat_toNat]

theorem encodeUnsignedBE_one (a : UInt8) : encodeUnsignedBE ((0 : UInt32) <<< 8 ||| a.toUInt32) 1 = [a] := by
  have high := a.toNat_lt
  show [((((0 : UInt32) <<< 8 ||| a.toUInt32) >>> UInt32.ofNat 0)).toUInt8] = [a]
  simp only [List.cons.injEq, and_true, ← UInt8.toNat_inj, UInt32.toNat_toUInt8, UInt32.toNat_shiftRight,
    UInt32.toNat_or, UInt32.toNat_shiftLeft, UInt8.toNat_toUInt32, Nat.shiftRight_eq_div_pow, Nat.shiftLeft_eq,
    UInt32.reduceToNat, UInt32.reduceOfNat, Nat.reduceMod, Nat.zero_mul, Nat.zero_mod, Nat.zero_or]
  omega

/-- Two bytes as one number. -/
def readPair (a b : UInt8) : UInt32 := ((0 : UInt32) <<< 8 ||| a.toUInt32) <<< 8 ||| b.toUInt32

theorem readPair_toNat (a b : UInt8) : (readPair a b).toNat = a.toNat * 2 ^ 8 + b.toNat := by
  have high := a.toNat_lt
  have low := b.toNat_lt
  unfold readPair
  simp only [UInt32.toNat_or, UInt32.toNat_shiftLeft, UInt8.toNat_toUInt32, Nat.shiftLeft_eq, UInt32.reduceToNat,
    Nat.reduceMod, Nat.zero_mul, Nat.zero_mod, Nat.zero_or]
  rw [Nat.mod_eq_of_lt (a := a.toNat * 2 ^ 8) (by omega), or_eq_add _ _ 8 low]

theorem encodeUnsignedBE_pair (a b : UInt8) : encodeUnsignedBE (readPair a b) 2 = [a, b] := by
  have value := readPair_toNat a b
  have high := a.toNat_lt
  have low := b.toNat_lt
  show [(readPair a b >>> UInt32.ofNat 8).toUInt8, (readPair a b >>> UInt32.ofNat 0).toUInt8] = [a, b]
  simp only [List.cons.injEq, and_true, ← UInt8.toNat_inj, UInt32.toNat_toUInt8, UInt32.toNat_shiftRight,
    Nat.shiftRight_eq_div_pow, UInt32.reduceToNat, UInt32.reduceOfNat, Nat.reduceMod, value]
  omega

/-- A number of one or two bytes is written with the bytes it was read from. -/
theorem encodeUnsignedBE_unsignedValue {bytes : Bytes} {width : Nat} {decoded : UInt32}
    (narrow : width = 1 ∨ width = 2) (read : unsignedValue bytes width = some decoded) :
    encodeUnsignedBE decoded width = bytes := by
  unfold unsignedValue at read
  split at read
  · cases read
  · rename_i size
    obtain rfl := Option.some.inj read
    rw [not_not] at size
    subst size
    match bytes, narrow with
    | [a], _ => exact encodeUnsignedBE_one a
    | [a, b], _ => exact encodeUnsignedBE_pair a b

theorem length_unsignedValue {bytes : Bytes} {width : Nat} {decoded : UInt32}
    (read : unsignedValue bytes width = some decoded) : bytes.length = width := by
  unfold unsignedValue at read
  split at read
  · cases read
  · rename_i size
    exact not_not.mp size

/-- Two bytes read as a signed number are written back. -/
theorem encodeUnsignedBE_signed {bytes : Bytes} {decoded : UInt32} (read : unsignedValue bytes 2 = some decoded) :
    encodeUnsignedBE (Int16.ofInt (FloatValue.ofInt decoded.toUInt16.toInt16.toInt).truncate).toUInt16.toUInt32 2 =
      bytes := by
  have small : decoded.toUInt16.toUInt32 = decoded := by
    have size := length_unsignedValue read
    match bytes, size with
    | [a, b], _ =>
      obtain rfl : readPair a b = decoded := Option.some.inj read
      have high := a.toNat_lt
      have low := b.toNat_lt
      rw [← UInt32.toNat_inj, UInt16.toNat_toUInt32, UInt32.toNat_toUInt16, readPair_toNat]
      omega
  rw [FloatValue.truncate_ofInt, Int16.ofInt_toInt, UInt16.toUInt16_toInt16, small]
  exact encodeUnsignedBE_unsignedValue (.inr rfl) read

namespace UserVariable

theorem width_cases (target : UserVariable) : target.width = 1 ∨ target.width = 2 := by
  unfold width
  omega

/-- The byte a truth value is read as. -/
def truth (value : FloatValue) : UInt8 := if value.eq (.finite false 0) then 0 else 1

theorem eq_ofNat_zero (n : Nat) : (FloatValue.ofInt n).eq (.finite false 0) = decide (n = 0) := by
  have natural : ¬(n : ℤ) < 0 := by omega
  simp [FloatValue.ofInt, FloatValue.eq, FloatValue.extended, FloatValue.signed, natural]

theorem truth_ofInt (decoded : UInt32) : truth (.ofInt decoded.toNat) = if decoded.toNat = 0 then 0 else 1 := by
  unfold truth
  rw [eq_ofNat_zero]
  simp only [decide_eq_true_eq]

/-- A byte is a truth value as it is read back only when it is 0 or 1. -/
theorem truth_unsignedValue {bytes : Bytes} {decoded : UInt32} (read : unsignedValue bytes 1 = some decoded) :
    [truth (.ofInt decoded.toNat)] = bytes ↔ bytes = [0] ∨ bytes = [1] := by
  have size := length_unsignedValue read
  match bytes, size with
  | [a], _ =>
    obtain rfl : (0 : UInt32) <<< 8 ||| a.toUInt32 = decoded := Option.some.inj read
    have same : (0 : UInt32) <<< 8 ||| a.toUInt32 = a.toUInt32 := by simp
    rw [same, truth_ofInt, UInt8.toNat_toUInt32]
    simp only [List.cons.injEq, and_true, ← UInt8.toNat_inj]
    split
    · rename_i zero
      simp [zero]
    · rename_i positive
      show 1 = a.toNat ↔ a.toNat = 0 ∨ a.toNat = 1
      omega

theorem read_finite {bytes : Bytes} (four : bytes.length = 4) (finite : (decodeFloat32BE bytes).isFinite = true) :
    encodeFloat32BE (binary32.convert (decodeFloat32BE bytes)) = bytes := by
  rw [convert_decodeFloat32BE four finite, encodeFloat32BE_decode four finite]

/-- What is read after a value was accepted: only a truth value is normalised. -/
theorem read_decode {target after : UserVariable} {bytes : Bytes} (accepted : target.decode bytes = some after) :
    after.read .value = some bytes ↔ (target.type = .bool → bytes = [0] ∨ bytes = [1]) := by
  unfold decode at accepted
  dsimp only at accepted
  cases type : target.type with
  | float32 =>
    rw [type] at accepted
    dsimp only at accepted
    split at accepted
    · cases accepted
    · rename_i four
      split at accepted
      · rename_i finite
        obtain rfl := Option.some.inj accepted
        simp only [read, read_finite (not_not.mp four) finite, reduceCtorEq, false_implies]
      · cases accepted
  | uInt8 =>
    rw [type] at accepted
    obtain ⟨decoded, read, rfl⟩ := Option.map_eq_some_iff.mp accepted
    simp only [UserVariable.read, toUnsigned_ofInt, encodeUnsignedBE_unsignedValue (.inl rfl) read, reduceCtorEq,
      false_implies]
  | bool =>
    rw [type] at accepted
    obtain ⟨decoded, read, rfl⟩ := Option.map_eq_some_iff.mp accepted
    rw [← truth_unsignedValue read]
    simp only [UserVariable.read, truth, Option.some.injEq, forall_const]
  | uInt16 =>
    rw [type] at accepted
    obtain ⟨decoded, read, rfl⟩ := Option.map_eq_some_iff.mp accepted
    simp only [UserVariable.read, toUnsigned_ofInt, encodeUnsignedBE_unsignedValue (.inr rfl) read, reduceCtorEq,
      false_implies]
  | int16 =>
    rw [type] at accepted
    obtain ⟨decoded, read, rfl⟩ := Option.map_eq_some_iff.mp accepted
    simp only [UserVariable.read, encodeUnsignedBE_signed read, reduceCtorEq, false_implies]
  | enum =>
    rw [type] at accepted
    obtain ⟨decoded, read, rfl⟩ := Option.map_eq_some_iff.mp accepted
    simp only [UserVariable.read, toUnsigned_ofInt, reduceCtorEq, false_implies, iff_true]
    exact congrArg some (encodeUnsignedBE_unsignedValue target.width_cases read)
  | bitEnum =>
    rw [type] at accepted
    obtain ⟨decoded, read, rfl⟩ := Option.map_eq_some_iff.mp accepted
    simp only [UserVariable.read, toUnsigned_ofInt, reduceCtorEq, false_implies, iff_true]
    exact congrArg some (encodeUnsignedBE_unsignedValue target.width_cases read)
  | ascii =>
    rw [type] at accepted
    dsimp only at accepted
    split at accepted
    · cases accepted
    · obtain rfl := Option.some.inj accepted
      simp only [read, reduceCtorEq, false_implies]
  | packedAscii =>
    rw [type] at accepted
    cases accepted

/-- A value is written by its type, a bound as a finite float. -/
theorem write_cases {target after : UserVariable} {field : HartUserVariableField} {bytes : Bytes}
    (accepted : target.write field bytes = some after) :
    (field = .value ∧ ∃ changed, target.decode bytes = some changed ∧ after = { changed with dirty := true }) ∨
      bytes.length = 4 ∧ (decodeFloat32BE bytes).isFinite = true ∧
        (field = .lowerRange ∧ after = { target with lowerRangeValue := decodeFloat32BE bytes, dirty := true } ∨
          field = .upperRange ∧ after = { target with upperRangeValue := decodeFloat32BE bytes, dirty := true }) := by
  cases field with
  | value =>
    obtain ⟨changed, decoded, rfl⟩ := Option.map_eq_some_iff.mp accepted
    exact .inl ⟨rfl, changed, decoded, rfl⟩
  | lowerRange =>
    obtain ⟨four, accepted⟩ := Option.ite_none_left_eq_some.mp accepted
    obtain ⟨finite, written⟩ := Option.ite_none_right_eq_some.mp accepted
    exact .inr ⟨not_not.mp four, finite, .inl ⟨rfl, (Option.some.inj written).symm⟩⟩
  | upperRange =>
    obtain ⟨four, accepted⟩ := Option.ite_none_left_eq_some.mp accepted
    obtain ⟨finite, written⟩ := Option.ite_none_right_eq_some.mp accepted
    exact .inr ⟨not_not.mp four, finite, .inr ⟨rfl, (Option.some.inj written).symm⟩⟩

theorem exists_decode {target after : UserVariable} {bytes : Bytes} (accepted : target.decode bytes = some after) :
    ∃ value text, after = { target with value := value, text := text } := by
  unfold decode at accepted
  cases type : target.type <;>
    simp only [type, Option.map_eq_some_iff, Option.ite_none_left_eq_some, Option.ite_none_right_eq_some,
      Option.some.injEq, reduceCtorEq] at accepted
  case float32 => exact ⟨_, _, accepted.2.2.symm⟩
  case ascii => exact ⟨_, _, accepted.2.symm⟩
  all_goals
    obtain ⟨decoded, -, rfl⟩ := accepted
    exact ⟨_, _, rfl⟩

theorem read_write {target after : UserVariable} {field : HartUserVariableField} {bytes : Bytes}
    (accepted : target.write field bytes = some after) : after.read field = some bytes ↔
      (field = .value → target.type = .bool → bytes = [0] ∨ bytes = [1]) := by
  rcases write_cases accepted with ⟨rfl, changed, decoded, rfl⟩ | ⟨four, finite, ⟨rfl, rfl⟩ | ⟨rfl, rfl⟩⟩
  · exact (read_decode decoded).trans ⟨fun same _ => same, fun same => same rfl⟩
  · simp only [read, encodeFloat32BE_decode four finite, reduceCtorEq, false_implies]
  · simp only [read, encodeFloat32BE_decode four finite, reduceCtorEq, false_implies]

theorem length_read_write {target after : UserVariable} {field : HartUserVariableField} {bytes : Bytes}
    (accepted : target.write field bytes = some after) :
    ∃ read, after.read field = some read ∧ read.length = bytes.length := by
  by_cases same : field = .value → target.type = .bool → bytes = [0] ∨ bytes = [1]
  · exact ⟨bytes, (read_write accepted).mpr same, rfl⟩
  · simp only [not_forall] at same
    obtain ⟨rfl, type, -⟩ := same
    obtain ⟨changed, decoded, rfl⟩ := Option.map_eq_some_iff.mp accepted
    unfold decode at decoded
    rw [type] at decoded
    obtain ⟨number, read, rfl⟩ := Option.map_eq_some_iff.mp decoded
    refine ⟨[truth (.ofInt number.toNat)], ?_, (length_unsignedValue read).symm⟩
    simp only [UserVariable.read, truth]

theorem id_write {target after : UserVariable} {field : HartUserVariableField} {bytes : Bytes}
    (accepted : target.write field bytes = some after) : after.id = target.id := by
  rcases write_cases accepted with ⟨-, changed, decoded, rfl⟩ | ⟨-, -, ⟨-, rfl⟩ | ⟨-, rfl⟩⟩
  · obtain ⟨value, text, rfl⟩ := exists_decode decoded
    rfl
  · rfl
  · rfl

end UserVariable

theorem find?_writeFirst {variableId : String} {write : UserVariable → Option UserVariable}
    (named : ∀ {target after}, write target = some after → after.id = target.id) {before after : List UserVariable}
    (written : writeFirst variableId write before = some after) :
    ∃ target changed, before.find? (·.id == variableId) = some target ∧ write target = some changed ∧
      after.find? (·.id == variableId) = some changed := by
  induction before generalizing after with
  | nil => cases written
  | cons first rest ih =>
    unfold writeFirst at written
    split at written
    · rename_i here
      obtain ⟨changed, accepted, rfl⟩ := Option.map_eq_some_iff.mp written
      refine ⟨first, changed, List.find?_cons_of_pos (by simpa using here), accepted, List.find?_cons_of_pos ?_⟩
      simpa [named accepted] using here
    · rename_i later
      obtain ⟨others, rested, rfl⟩ := Option.map_eq_some_iff.mp written
      obtain ⟨target, changed, found, accepted, kept⟩ := ih rested
      refine ⟨target, changed, ?_, accepted, ?_⟩
      · rw [List.find?_cons_of_neg (by simpa using later), found]
      · rw [List.find?_cons_of_neg (by simpa using later), kept]

section Statements

variable {ε τ : Type} {evalOther : ε → τ → UInt8 → Option Bytes} {vars after : HartExecutionVariables τ}
  {request : Bytes} {localCode : UInt8} {variableId : String} {field : HartUserVariableField} {value : HartExpr ε}

theorem evalExpr_userVariables :
    (evalExpr evalOther vars request localCode value).2.userVariables = vars.userVariables := by
  cases value <;> simp only [evalExpr]
  case bodySlice offset length =>
    split
    · rfl
    · generalize (if length = 0 then request.length - offset else length) = taken
      split <;> rfl
  case userVariableTable offset length table =>
    split
    · rfl
    · split
      · rfl
      · split <;> rfl

/-- An accepted `SET` wrote the first variable with the id, which is then the one an expression reads. -/
theorem execSetUserVariable_accepted
    (accepted : execSetUserVariable evalOther vars request localCode variableId field value = (true, after)) :
    ∃ bytes target changed, (evalExpr evalOther vars request localCode value).1 = some bytes ∧
      vars.userVariables.find? (·.id == variableId) = some target ∧ target.write field bytes = some changed ∧
      after.userVariables.find? (·.id == variableId) = some changed := by
  unfold execSetUserVariable at accepted
  split at accepted
  · cases accepted
  · rename_i bytes evaluated read
    split at accepted
    · cases accepted
    · rename_i written wrote
      obtain rfl := (Prod.mk.inj accepted).2
      have same : (evalExpr evalOther vars request localCode value).2.userVariables = vars.userVariables :=
        evalExpr_userVariables
      rw [read] at same
      dsimp only at same
      rw [same] at wrote
      obtain ⟨target, changed, found, accepted, kept⟩ := find?_writeFirst UserVariable.id_write wrote
      exact ⟨bytes, target, changed, by rw [read], found, accepted, kept⟩

theorem execAppend_userVariable {target : UserVariable} {read : Bytes}
    (found : vars.userVariables.find? (·.id == variableId) = some target) (reads : target.read field = some read)
    (response : HartResponseBuilder) :
    execAppend evalOther vars request localCode (.userVariable variableId field) response =
      ((response.writeBytes read).1, vars, (response.writeBytes read).2) := by
  unfold execAppend
  simp only [evalExpr, evalUserVariable, found, Option.bind_some, reads]

/-- The bytes a `SET` accepted are appended again, where there is room for them and unless they are a truth value
other than 0 and 1. -/
theorem set_append {bytes later : Bytes} {laterCode : UInt8} {response : HartResponseBuilder} {target : UserVariable}
    (evaluated : (evalExpr evalOther vars request localCode value).1 = some bytes)
    (found : vars.userVariables.find? (·.id == variableId) = some target)
    (accepted : execSetUserVariable evalOther vars request localCode variableId field value = (true, after)) :
    execAppend evalOther after later laterCode (.userVariable variableId field) response =
        (true, after, { response with bytes := response.bytes ++ bytes }) ↔
      bytes.length ≤ response.capacity - response.bytes.length ∧
        (field = .value → target.type = .bool → bytes = [0] ∨ bytes = [1]) := by
  obtain ⟨read, same, changed, evaluated', found', wrote, kept⟩ := execSetUserVariable_accepted accepted
  obtain rfl := Option.some.inj (evaluated.symm.trans evaluated')
  obtain rfl := Option.some.inj (found.symm.trans found')
  obtain ⟨emitted, reads, size⟩ := UserVariable.length_read_write wrote
  rw [execAppend_userVariable kept reads, ← UserVariable.read_write wrote, reads, Option.some.injEq]
  unfold HartResponseBuilder.writeBytes
  by_cases room : bytes.length ≤ response.capacity - response.bytes.length
  · rw [if_neg (by omega)]
    simp only [Prod.mk.injEq, true_and, HartResponseBuilder.mk.injEq, List.append_cancel_left_eq, and_true, room]
  · rw [if_pos (by omega)]
    simp only [Prod.mk.injEq, Bool.false_eq_true, false_and, room]

end Statements

/-- The variables of a program with one variable, and expressions of the request alone. -/
def oneVariable (target : UserVariable) : HartExecutionVariables Unit := { userVariables := [target], rest := () }

def noOther : Empty → Unit → UInt8 → Option Bytes := fun kind _ _ => kind.elim

/-- The two bytes of a signed number. -/
theorem set_append_signed :
    execSetUserVariable noOther (oneVariable { id := "offset", type := .int16 }) [0xFF, 0xFE] 150 "offset" .value
        .requestBody =
      (true, oneVariable { id := "offset", type := .int16, value := .ofInt (-2), dirty := true }) ∧
    execAppend noOther (oneVariable { id := "offset", type := .int16, value := .ofInt (-2), dirty := true }) [] 151
        (.userVariable "offset" .value) { } =
      (true, oneVariable { id := "offset", type := .int16, value := .ofInt (-2), dirty := true },
        { bytes := [0xFF, 0xFE] }) := by
  have accepted : execSetUserVariable noOther (oneVariable { id := "offset", type := .int16 }) [0xFF, 0xFE] 150
      "offset" .value .requestBody =
      (true, oneVariable { id := "offset", type := .int16, value := .ofInt (-2), dirty := true }) := rfl
  have found : (oneVariable { id := "offset", type := .int16 }).userVariables.find? (·.id == "offset") =
      some { id := "offset", type := .int16 } := rfl
  exact ⟨accepted, (set_append rfl found accepted).mpr ⟨by decide, by decide⟩⟩

/-- A truth value set to 5 is appended as 1. -/
theorem set_append_normalised :
    execSetUserVariable noOther (oneVariable { id := "flag", type := .bool }) [5] 150 "flag" .value .requestBody =
      (true, oneVariable { id := "flag", type := .bool, value := .ofInt 5, dirty := true }) ∧
    execAppend noOther (oneVariable { id := "flag", type := .bool, value := .ofInt 5, dirty := true }) [] 151
        (.userVariable "flag" .value) { } =
      (true, oneVariable { id := "flag", type := .bool, value := .ofInt 5, dirty := true }, { bytes := [1] }) := by
  have read : UserVariable.read { id := "flag", type := .bool, value := .ofInt 5, dirty := true } .value = some [1] :=
    congrArg (fun byte => some [byte]) (UserVariable.truth_ofInt 5)
  exact ⟨rfl, execAppend_userVariable rfl read { }⟩

end LasecSimul.Hart
