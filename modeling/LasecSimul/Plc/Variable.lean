import LasecSimul.Base.Conversions
import LasecSimul.Lib.Decimal

/-!
# Variables of a PLC program (`PlcVariableCommands.hpp`, `iec_var.hpp`, `iec_string.hpp`)

A variable holds a value and may be forced to another. Texts become values by the conversions of the
standard library, and a cast to the declared type.
-/

namespace LasecSimul.Plc

open Lib.Binary Lib.Decimal Lib.Numeral

inductive VarTypeTag where
  | bool
  | sint | int | dint | lint
  | usint | uint | udint | ulint
  | real | lreal
  | byte | word | dword | lword
  | time | string | other
  deriving DecidableEq, Repr

def varTypeName : VarTypeTag → Text
  | .bool => "BOOL".toList
  | .sint => "SINT".toList
  | .int => "INT".toList
  | .dint => "DINT".toList
  | .lint => "LINT".toList
  | .usint => "USINT".toList
  | .uint => "UINT".toList
  | .udint => "UDINT".toList
  | .ulint => "ULINT".toList
  | .real => "REAL".toList
  | .lreal => "LREAL".toList
  | .byte => "BYTE".toList
  | .word => "WORD".toList
  | .dword => "DWORD".toList
  | .lword => "LWORD".toList
  | .time => "TIME".toList
  | .string => "STRING".toList
  | .other => "OTHER".toList

inductive IecValue where
  | bool (value : Bool)
  | integer (value : Int)
  | float (value : FloatValue)
  | string (value : Text)
  deriving DecidableEq

/-- `IECVar` and `IECStringVar`. -/
structure IecVar where
  value : IecValue
  forced : Bool := false
  forcedValue : IecValue
  deriving DecidableEq

namespace IecVar

def get (variable_ : IecVar) : IecValue := if variable_.forced then variable_.forcedValue else variable_.value

/-- A string takes the value also while it is forced. -/
def set (variable_ : IecVar) (type : VarTypeTag) (value : IecValue) : IecVar :=
  if variable_.forced ∧ type ≠ .string then variable_ else { variable_ with value := value }

end IecVar

def maxLength : Nat := 254

/-- `IECString(const char*)`: up to the first NUL, and no longer than `maxLength`. -/
def iecString (text : Text) : Text := (text.takeWhile (· ≠ '\x00')).take maxLength

def unquoted (text : Text) : Text :=
  if 2 ≤ text.length ∧ text.head? = some '\'' ∧ text.getLast? = some '\'' then text.tail.dropLast else text

/-- The value `var_set_value` hands to `set`, or `none` where it fails or throws. -/
def valueToSet (long : LongWidth) (type : VarTypeTag) (text : Text) : Option IecValue :=
  match type with
  | .bool =>
    if text ∈ ["TRUE".toList, "true".toList, "1".toList] then some (.bool true)
    else if text ∈ ["FALSE".toList, "false".toList, "0".toList] then some (.bool false)
    else none
  | .sint => (stoi text).map fun n => .integer (wrapSigned 8 n)
  | .int => (stoi text).map fun n => .integer (wrapSigned 16 n)
  | .dint => (stol long text).map fun n => .integer (wrapSigned 32 n)
  | .lint => (stoll text).map fun n => .integer (wrapSigned 64 n)
  | .usint => (stoul long 10 text).map fun n => .integer (wrapUnsigned 8 n)
  | .uint => (stoul long 10 text).map fun n => .integer (wrapUnsigned 16 n)
  | .udint => (stoul long 10 text).map fun n => .integer (wrapUnsigned 32 n)
  | .ulint => (stoull 10 text).map fun n => .integer (wrapUnsigned 64 n)
  | .real => (sto binary32 text).map fun read => .float read.1
  | .lreal => (sto binary64 text).map fun read => .float read.1
  | .byte => (stoul long 0 text).map fun n => .integer (wrapUnsigned 8 n)
  | .word => (stoul long 0 text).map fun n => .integer (wrapUnsigned 16 n)
  | .dword => (stoul long 0 text).map fun n => .integer (wrapUnsigned 32 n)
  | .lword => (stoull 0 text).map fun n => .integer (wrapUnsigned 64 n)
  | .time => (stoll text).map fun n => .integer (wrapSigned 64 n)
  | .string => some (.string (iecString (unquoted text)))
  | .other => none

/-- `none` is `false`. -/
def varSetValue (long : LongWidth) (type : VarTypeTag) (variable_ : IecVar) (text : Text) : Option IecVar :=
  (valueToSet long type text).map (variable_.set type)

def isValueValidForType (long : LongWidth) (type : VarTypeTag) (text : Text) : Bool :=
  match type with
  | .bool =>
    text ∈ ["TRUE".toList, "true".toList, "1".toList, "FALSE".toList, "false".toList, "0".toList]
  | .sint | .int => (stoi text).isSome
  | .dint => (stol long text).isSome
  | .lint => (stoll text).isSome
  | .usint | .uint | .udint => (stoul long 10 text).isSome
  | .ulint => (stoull 10 text).isSome
  | .real => (sto binary32 text).isSome
  | .lreal => (sto binary64 text).isSome
  | .byte | .word | .dword => (stoul long 0 text).isSome
  | .lword => (stoull 0 text).isSome
  | .time => (stoll text).isSome
  | .string => text.length ≤ 256
  | .other => false

theorem varSetValue_isSome {long : LongWidth} {type : VarTypeTag} {text : Text}
    (valid : isValueValidForType long type text = true) (variable_ : IecVar) :
    (varSetValue long type variable_ text).isSome = true := by
  unfold varSetValue
  rw [Option.isSome_map]
  cases type with
  | bool =>
    simp only [isValueValidForType, decide_eq_true_eq] at valid
    simp only [valueToSet]
    split
    · rfl
    · split
      · rfl
      · rename_i notTrue notFalse
        simp_all
  | string => rfl
  | other => cases valid
  | _ => simpa [valueToSet, isValueValidForType, Option.isSome_map] using valid

/-- `%0<width>X`. -/
def hexText (width : Nat) (n : Int) : Text :=
  let digits := (Nat.toDigits 16 n.toNat).map Char.toUpper
  "16#".toList ++ List.replicate (width - digits.length) '0' ++ digits

/-- The part of a time in one unit, left out when it is zero. -/
def timePart (ns unit : Nat) (name : String) : Text :=
  if ns / unit = 0 then [] else Nat.toDigits 10 (ns / unit) ++ name.toList

def timeText (ns : Int) : Text :=
  if ns = 0 then "T#0s".toList
  else
    (if ns < 0 then "-T#".toList else "T#".toList) ++ timePart ns.natAbs 1000000000 "s" ++
      timePart (ns.natAbs % 1000000000) 1000000 "ms" ++ timePart (ns.natAbs % 1000000) 1000 "us" ++
      timePart (ns.natAbs % 1000) 1 "ns"

/-- A variable holds a value of its type; other pairs do not occur. -/
def varValueToString : VarTypeTag → IecValue → Text
  | .bool, .bool value => if value then "TRUE".toList else "FALSE".toList
  | .sint, .integer n | .int, .integer n | .dint, .integer n | .lint, .integer n
  | .usint, .integer n | .uint, .integer n | .udint, .integer n | .ulint, .integer n => intText n
  | .real, .float value => floatText (generalText 6) value
  | .lreal, .float value => floatText (generalText 10) value
  | .byte, .integer n => hexText 2 n
  | .word, .integer n => hexText 4 n
  | .dword, .integer n => hexText 8 n
  | .lword, .integer n => hexText 16 n
  | .time, .integer n => timeText n
  | .string, .string value => '\'' :: value ++ ['\'']
  | _, _ => "<?>".toList

/-- The values of an integer type. -/
def InRange : VarTypeTag → Int → Prop
  | .sint => InSigned 8
  | .int => InSigned 16
  | .dint => InSigned 32
  | .lint | .time => InSigned 64
  | .usint | .byte => InUnsigned 8
  | .uint | .word => InUnsigned 16
  | .udint | .dword => InUnsigned 32
  | .ulint | .lword => InUnsigned 64
  | _ => fun _ => False

instance (type : VarTypeTag) (n : Int) : Decidable (InRange type n) :=
  match type with
  | .sint => inferInstanceAs (Decidable (InSigned 8 n))
  | .int => inferInstanceAs (Decidable (InSigned 16 n))
  | .dint => inferInstanceAs (Decidable (InSigned 32 n))
  | .lint | .time => inferInstanceAs (Decidable (InSigned 64 n))
  | .usint | .byte => inferInstanceAs (Decidable (InUnsigned 8 n))
  | .uint | .word => inferInstanceAs (Decidable (InUnsigned 16 n))
  | .udint | .dword => inferInstanceAs (Decidable (InUnsigned 32 n))
  | .ulint | .lword => inferInstanceAs (Decidable (InUnsigned 64 n))
  | .bool | .real | .lreal | .string | .other => inferInstanceAs (Decidable False)

/-- The whole text is a numeral of the base, in the range of the type. -/
def denotesInteger (base : Nat) (type : VarTypeTag) (text : Text) : Option IecValue :=
  match scanInteger base text with
  | some scanned => if scanned.rest = [] ∧ InRange type scanned.value then some (.integer scanned.value) else none
  | none => none

/-- The whole text is a number; its value in the format is the nearest one. -/
def denotesFloat (format : Format) (text : Text) : Option IecValue :=
  match scanFloat text with
  | some (value, rest) => if rest = [] then some (.float (format.convert value)) else none
  | none => none

def denotes (type : VarTypeTag) (text : Text) : Option IecValue :=
  match type with
  | .bool =>
    if text ∈ ["TRUE".toList, "true".toList, "1".toList] then some (.bool true)
    else if text ∈ ["FALSE".toList, "false".toList, "0".toList] then some (.bool false)
    else none
  | .real => denotesFloat binary32 text
  | .lreal => denotesFloat binary64 text
  | .byte | .word | .dword | .lword => denotesInteger 0 type text
  | .string =>
    if (unquoted text).length ≤ maxLength ∧ '\x00' ∉ unquoted text then some (.string (unquoted text)) else none
  | .other => none
  | type => denotesInteger 10 type text

variable {long : LongWidth} {type : VarTypeTag} {text : Text} {v w : IecValue}

theorem denotesInteger_some {base : Nat} (denotes : denotesInteger base type text = some w) :
    ∃ scanned, scanInteger base text = some scanned ∧ scanned.rest = [] ∧ InRange type scanned.value ∧
      w = .integer scanned.value := by
  unfold denotesInteger at denotes
  cases reads : scanInteger base text with
  | none =>
    rw [reads] at denotes
    cases denotes
  | some scanned =>
    rw [reads] at denotes
    dsimp only at denotes
    split at denotes
    · rename_i exact
      cases denotes
      exact ⟨scanned, rfl, exact.1, exact.2, rfl⟩
    · cases denotes

theorem signed_exact {narrow wide : Nat} (positive : 0 < narrow) (fits : narrow ≤ wide)
    (ranged : InRange type = InSigned narrow) (denotes : denotesInteger 10 type text = some w) :
    (stoSigned wide text).map (fun n => IecValue.integer (wrapSigned narrow n)) = some w := by
  obtain ⟨scanned, reads, _, inside, rfl⟩ := denotesInteger_some denotes
  rw [ranged] at inside
  rw [stoSigned_exact fits reads inside, Option.map_some, wrapSigned_of_in positive inside]

theorem unsigned_exact {base narrow wide : Nat} (fits : narrow ≤ wide) (ranged : InRange type = InUnsigned narrow)
    (denotes : denotesInteger base type text = some w) :
    (stoUnsigned wide base text).map (fun n => IecValue.integer (wrapUnsigned narrow n)) = some w := by
  obtain ⟨scanned, reads, _, inside, rfl⟩ := denotesInteger_some denotes
  rw [ranged] at inside
  rw [stoUnsigned_exact fits reads inside, Option.map_some, wrapUnsigned_of_in inside]

theorem inFormat_convert {format : Format} {value read : FloatValue} (reads : inFormat format value = some read) :
    read = format.convert value := by
  cases value with
  | finite negative magnitude =>
    unfold inFormat at reads
    dsimp only at reads
    split at reads
    · cases reads
    · rename_i inside
      push Not at inside
      cases reads
      exact (if_neg inside.1).symm
  | infinity negative => exact (Option.some.inj reads).symm
  | nan negative => exact (Option.some.inj reads).symm

theorem float_exact {format : Format} (denotes : denotesFloat format text = some w)
    (sets : (sto format text).map (fun read => IecValue.float read.1) = some v) : v = w := by
  unfold denotesFloat at denotes
  unfold sto at sets
  cases reads : scanFloat text with
  | none =>
    rw [reads] at denotes
    cases denotes
  | some scanned =>
    obtain ⟨value, rest⟩ := scanned
    rw [reads] at denotes sets
    dsimp only at denotes
    split at denotes
    · cases denotes
      obtain ⟨read, converts, rfl⟩ := Option.map_eq_some_iff.mp sets
      obtain ⟨inside, taken, rfl⟩ := Option.map_eq_some_iff.mp converts
      rw [inFormat_convert taken]
    · cases denotes

theorem iecString_exact (short : text.length ≤ maxLength) (noNul : '\x00' ∉ text) : iecString text = text := by
  unfold iecString
  have whole : text.takeWhile (· ≠ '\x00') = text := by
    rw [List.takeWhile_eq_self_iff]
    intro c member
    have differs : c ≠ '\x00' := fun same => noNul (same ▸ member)
    simpa using differs
  rw [whole, List.take_of_length_le short]

theorem valueToSet_exact (exact : denotes type text = some w) (sets : valueToSet long type text = some v) :
    v = w := by
  have wide := long.atLeast
  cases type with
  | bool => exact Option.some.inj (sets.symm.trans exact)
  | sint => exact Option.some.inj (sets.symm.trans (signed_exact (by decide) (by decide) rfl exact))
  | int => exact Option.some.inj (sets.symm.trans (signed_exact (by decide) (by decide) rfl exact))
  | dint => exact Option.some.inj (sets.symm.trans (signed_exact (by decide) wide rfl exact))
  | lint => exact Option.some.inj (sets.symm.trans (signed_exact (by decide) (by decide) rfl exact))
  | usint => exact Option.some.inj (sets.symm.trans (unsigned_exact (by omega) rfl exact))
  | uint => exact Option.some.inj (sets.symm.trans (unsigned_exact (by omega) rfl exact))
  | udint => exact Option.some.inj (sets.symm.trans (unsigned_exact wide rfl exact))
  | ulint => exact Option.some.inj (sets.symm.trans (unsigned_exact (by decide) rfl exact))
  | real => exact float_exact exact sets
  | lreal => exact float_exact exact sets
  | byte => exact Option.some.inj (sets.symm.trans (unsigned_exact (by omega) rfl exact))
  | word => exact Option.some.inj (sets.symm.trans (unsigned_exact (by omega) rfl exact))
  | dword => exact Option.some.inj (sets.symm.trans (unsigned_exact wide rfl exact))
  | lword => exact Option.some.inj (sets.symm.trans (unsigned_exact (by decide) rfl exact))
  | time => exact Option.some.inj (sets.symm.trans (signed_exact (by decide) (by decide) rfl exact))
  | string =>
    unfold denotes at exact
    dsimp only at exact
    split at exact
    · rename_i fits
      cases exact
      cases sets
      rw [iecString_exact fits.1 fits.2]
    · cases exact
  | other => cases exact

end LasecSimul.Plc
