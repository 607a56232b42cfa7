import LasecSimul.Plc.ScanSession

/-!
# One value across the boundary

What a slot's text sets in a variable of the worker, and what a variable's text publishes in a slot. The
conversion a crossing should make is stated without texts.
-/

namespace LasecSimul.Plc

open Lib.Binary Lib.Decimal Lib.Numeral

variable {long : LongWidth} {type : VarTypeTag} {text : Text} {n : Int}

def ofInt (n : Int) : FloatValue := .finite (decide (n < 0)) n.natAbs

/-- The value of a slot in the declared type of a variable. -/
def converted : VarTypeTag → SlotValue → IecValue
  | .bool, .boolean value => .bool value
  | .bool, .integer n => .bool (n ≠ 0)
  | .real, .real value => .float (binary32.convert value)
  | .lreal, .real value => .float value
  | .real, .integer n => .float (binary32.convert (ofInt n))
  | .lreal, .integer n => .float (binary64.convert (ofInt n))
  | .sint, .integer n => .integer (wrapSigned 8 n)
  | .int, .integer n => .integer (wrapSigned 16 n)
  | .dint, .integer n => .integer (wrapSigned 32 n)
  | .lint, .integer n | .time, .integer n => .integer (wrapSigned 64 n)
  | .usint, .integer n | .byte, .integer n => .integer (wrapUnsigned 8 n)
  | .uint, .integer n | .word, .integer n => .integer (wrapUnsigned 16 n)
  | .udint, .integer n | .dword, .integer n => .integer (wrapUnsigned 32 n)
  | .ulint, .integer n | .lword, .integer n => .integer (wrapUnsigned 64 n)
  | _, slot => .string slot.text

/-- The value of a variable as a slot holds it. -/
def slotOf : IecValue → Option SlotValue
  | .bool value => some (.boolean value)
  | .float value => some (.real value)
  | _ => none

/-- The six decimals of the text give the value back. -/
def SixDecimals (format : Format) (wanted : FloatValue) : FloatValue → Prop
  | .finite negative magnitude => inFormat format (.finite negative (fixedValue 6 magnitude)) = some wanted
  | _ => True

/-- The value of a slot survives its text. -/
def InputCarries (long : LongWidth) : VarTypeTag → SlotValue → Prop
  | .bool, .integer n => n = 0 ∨ n = 1
  | .real, .real value => SixDecimals binary32 (binary32.convert value) value
  | .lreal, .real value => SixDecimals binary64 value value
  | .real, .integer n => inFormat binary32 (ofInt n) = some (binary32.convert (ofInt n))
  | .lreal, .integer n => inFormat binary64 (ofInt n) = some (binary64.convert (ofInt n))
  | .sint, .integer n | .int, .integer n => InSigned 32 n
  | .dint, .integer n => InSigned long.bits n
  | .usint, .integer n | .uint, .integer n | .udint, .integer n
  | .byte, .integer n | .word, .integer n | .dword, .integer n => n.natAbs < 2 ^ long.bits
  | _, _ => True

/-- The significant digits of the text give the value back. -/
def OutputCarries : VarTypeTag → IecValue → Prop
  | .real, .float (.finite negative magnitude) =>
    inFormat binary64 (.finite negative (significantValue 6 magnitude)) = some (.finite negative magnitude)
  | .lreal, .float (.finite negative magnitude) =>
    inFormat binary64 (.finite negative (significantValue 10 magnitude)) = some (.finite negative magnitude)
  | _, _ => True

/-- The slots a binding may have for a variable of the type. -/
def SlotTyped : VarTypeTag → SlotValue → Prop
  | .bool, .boolean _ | .real, .real _ | .lreal, .real _ => True
  | .other, _ => False
  | _, .integer n => InSigned 64 n
  | _, _ => False

/-- A variable holds values of its type. -/
def ValueTyped : VarTypeTag → IecValue → Prop
  | .bool, .bool _ | .real, .float _ | .lreal, .float _ | .string, .string _ => True
  | .bool, _ | .real, _ | .lreal, _ | .string, _ | .other, _ => False
  | _, .integer _ => True
  | _, _ => False

theorem stoSigned_intText (bits : Nat) (n : Int) :
    stoSigned bits (intText n) = if InSigned bits n then some n else none := by
  unfold stoSigned
  rw [scan_intText]
  dsimp only
  rw [value_writtenScan]

theorem stoUnsigned_intText {base : Nat} (bits : Nat) (n : Int)
    (scanned : scanInteger base (intText n) = some (writtenScan n [])) :
    stoUnsigned bits base (intText n) = if n.natAbs < 2 ^ bits then some (wrapUnsigned bits n) else none := by
  unfold stoUnsigned
  rw [scanned]
  dsimp only
  rw [value_writtenScan]
  rfl

theorem sto_of_scan {format : Format} {value : FloatValue} (scanned : scanFloat text = some (value, [])) :
    sto format text = (inFormat format value).map fun value => (value, []) := by
  unfold sto
  rw [scanned]
  rfl

theorem scanFloat_intText (n : Int) : scanFloat (intText n) = some (ofInt n, []) := by
  have nonempty : Nat.toDigits 10 n.natAbs ≠ [] := Nat.toDigits_ne_nil
  have noFraction : ∀ c ∈ ([] : Text), isDigitOf 10 c = true := nofun
  have read := scanFloat_written (decide (n < 0)) nonempty (isDigitOf_toDigits n.natAbs) noFraction
    (.inl ⟨rfl, rfl⟩ : Exponent 0 [])
  have text : ((if decide (n < 0) then ['-'] else []) ++ (withFraction (Nat.toDigits 10 n.natAbs) [] ++ [])) =
      intText n := by
    unfold intText withFraction
    rw [if_pos rfl, List.append_nil]
    by_cases negative : n < 0
    · rw [if_pos negative, if_pos (decide_eq_true negative)]
      rfl
    · rw [if_neg negative, if_neg (by simpa using negative)]
      rfl
  rw [text] at read
  rw [read, List.append_nil, valueOf_toDigits]
  simp [ofInt]

theorem signed_crosses (narrow wide : Nat) (n : Int) :
    ((stoSigned wide (intText n)).isSome = true ∧
      (stoSigned wide (intText n)).map (fun n => IecValue.integer (wrapSigned narrow n)) =
        some (.integer (wrapSigned narrow n))) ↔ InSigned wide n := by
  rw [stoSigned_intText]
  split
  · rename_i inside
    exact iff_of_true ⟨rfl, rfl⟩ inside
  · rename_i outside
    exact iff_of_false (fun both => by cases both.1) outside

theorem unsigned_crosses {base narrow wide : Nat} (fits : narrow ≤ wide) (n : Int)
    (scanned : scanInteger base (intText n) = some (writtenScan n [])) :
    ((stoUnsigned wide base (intText n)).isSome = true ∧
      (stoUnsigned wide base (intText n)).map (fun n => IecValue.integer (wrapUnsigned narrow n)) =
        some (.integer (wrapUnsigned narrow n))) ↔ n.natAbs < 2 ^ wide := by
  rw [stoUnsigned_intText wide n scanned]
  split
  · rename_i inside
    refine iff_of_true ⟨rfl, ?_⟩ inside
    rw [Option.map_some, wrapUnsigned_wrapUnsigned fits]
  · rename_i outside
    exact iff_of_false (fun both => by cases both.1) outside

theorem float_crosses {format : Format} {value wanted : FloatValue} (scanned : scanFloat text = some (value, [])) :
    ((sto format text).isSome = true ∧
      (sto format text).map (fun read => IecValue.float read.1) = some (.float wanted)) ↔
      inFormat format value = some wanted := by
  rw [sto_of_scan scanned]
  cases inFormat format value with
  | none => simp
  | some read => simp

theorem natAbs_lt_of_inSigned (inside : InSigned 64 n) : n.natAbs < 2 ^ 64 := by
  obtain ⟨low, high⟩ := inside
  simp only [Nat.add_one_sub_one] at low high
  omega

theorem length_intText (inside : InSigned 64 n) : (intText n).length ≤ 21 := by
  have bound := natAbs_lt_of_inSigned inside
  have digits : (Nat.toDigits 10 n.natAbs).length ≤ 20 :=
    (Nat.length_toDigits_le_iff (by decide) (by decide)).mpr (Nat.lt_of_lt_of_le bound (by decide))
  unfold intText
  split
  · rw [List.length_cons]
    omega
  · omega

theorem intText_head (n : Int) : ∃ c rest, intText n = c :: rest ∧ c ≠ '\'' := by
  unfold intText
  split
  · exact ⟨'-', _, rfl, by decide⟩
  · obtain ⟨c, rest, same, digit⟩ := toDigits_head n.natAbs
    refine ⟨c, rest, same, ?_⟩
    rintro rfl
    exact absurd digit (by decide)

theorem string_crosses (inside : InSigned 64 n) :
    isValueValidForType long .string (intText n) = true ∧
    valueToSet long .string (intText n) = some (.string (intText n)) := by
  have short := length_intText inside
  constructor
  · exact decide_eq_true (by omega)
  · obtain ⟨c, rest, same, noQuote⟩ := intText_head n
    have plain : unquoted (intText n) = intText n := by
      unfold unquoted
      rw [same]
      apply if_neg
      rintro ⟨_, first, _⟩
      exact noQuote (Option.some.inj first)
    have noNul : '\x00' ∉ intText n := by
      intro member
      unfold intText at member
      split at member
      · rcases List.mem_cons.mp member with same | digit
        · exact absurd same (by decide)
        · exact absurd (isDigitOf_toDigits _ _ digit) (by decide)
      · exact absurd (isDigitOf_toDigits _ _ member) (by decide)
    show some (IecValue.string (iecString (unquoted (intText n)))) = _
    rw [plain, iecString_exact (by unfold maxLength; omega) noNul]

theorem intText_ne {word : Text} (noNumber : scanInteger 10 word = none) : intText n ≠ word := by
  intro same
  rw [← same, scan_intText] at noNumber
  cases noNumber

theorem bool_crosses :
    (isValueValidForType long .bool (intText n) = true ∧
      valueToSet long .bool (intText n) = some (.bool (n ≠ 0))) ↔ n = 0 ∨ n = 1 := by
  constructor
  · rintro ⟨valid, _⟩
    simp only [isValueValidForType, decide_eq_true_eq, List.mem_cons, List.not_mem_nil, or_false] at valid
    rcases valid with word | word | one | word | word | zero
    · exact absurd word (intText_ne (by decide))
    · exact absurd word (intText_ne (by decide))
    · exact .inr (intText_injective (one.trans (by decide)))
    · exact absurd word (intText_ne (by decide))
    · exact absurd word (intText_ne (by decide))
    · exact .inl (intText_injective (zero.trans (by decide)))
  · rintro (rfl | rfl)
    · exact ⟨rfl, rfl⟩
    · exact ⟨rfl, rfl⟩

theorem real_crosses {format : Format} {wanted value : FloatValue}
    (special : ∀ sign, value = .infinity sign ∨ value = .nan sign → wanted = value) :
    ((sto format (floatText (fixedText 6) value)).isSome = true ∧
      (sto format (floatText (fixedText 6) value)).map (fun read => IecValue.float read.1) = some (.float wanted)) ↔
      SixDecimals format wanted value := by
  cases value with
  | finite negative magnitude => exact float_crosses (scanFloat_fixedText negative 6 magnitude)
  | infinity negative =>
    rw [float_crosses (scanFloat_infinity _ negative), special negative (.inl rfl)]
    exact iff_of_true rfl True.intro
  | nan negative =>
    rw [float_crosses (scanFloat_nan _ negative), special negative (.inr rfl)]
    exact iff_of_true rfl True.intro

theorem input_crosses {slot : SlotValue} (typed : SlotTyped type slot) :
    (isValueValidForType long type slot.text = true ∧
      valueToSet long type slot.text = some (converted type slot)) ↔ InputCarries long type slot := by
  have wide := long.atLeast
  cases slot with
  | boolean value =>
    cases type with
    | bool => cases value <;> exact iff_of_true ⟨rfl, rfl⟩ True.intro
    | _ => cases typed
  | real value =>
    cases type with
    | real =>
      apply real_crosses
      rintro sign (rfl | rfl) <;> rfl
    | lreal => exact real_crosses fun _ _ => rfl
    | _ => cases typed
  | integer n =>
    cases type with
    | bool => exact bool_crosses
    | sint => exact signed_crosses 8 32 n
    | int => exact signed_crosses 16 32 n
    | dint => exact signed_crosses 32 long.bits n
    | lint => exact iff_of_true ((signed_crosses 64 64 n).mpr typed) True.intro
    | time => exact iff_of_true ((signed_crosses 64 64 n).mpr typed) True.intro
    | usint => exact unsigned_crosses (by omega) n (scan_intText n)
    | uint => exact unsigned_crosses (by omega) n (scan_intText n)
    | udint => exact unsigned_crosses wide n (scan_intText n)
    | ulint =>
      exact iff_of_true ((unsigned_crosses (Nat.le_refl 64) n (scan_intText n)).mpr (natAbs_lt_of_inSigned typed))
        True.intro
    | byte => exact unsigned_crosses (by omega) n (scan_intText_base0 n)
    | word => exact unsigned_crosses (by omega) n (scan_intText_base0 n)
    | dword => exact unsigned_crosses wide n (scan_intText_base0 n)
    | lword =>
      exact iff_of_true
        ((unsigned_crosses (Nat.le_refl 64) n (scan_intText_base0 n)).mpr (natAbs_lt_of_inSigned typed)) True.intro
    | real => exact float_crosses (scanFloat_intText n)
    | lreal => exact float_crosses (scanFloat_intText n)
    | string => exact iff_of_true (string_crosses typed) True.intro
    | other => cases typed

theorem general_crosses {digits : Nat} (positive : 0 < digits) {format : Format} (negative : Bool) (magnitude : ℚ)
    (wanted : FloatValue) :
    (sto format (floatText (generalText digits) (.finite negative magnitude))).map (fun read => SlotValue.real read.1) =
      some (.real wanted) ↔ inFormat format (.finite negative (significantValue digits magnitude)) = some wanted := by
  rw [sto_of_scan (scanFloat_generalText negative positive magnitude)]
  cases inFormat format (.finite negative (significantValue digits magnitude)) with
  | none => simp
  | some read => simp

/-- The IEC types of outputs the plan compiler binds, with the types of their variables. -/
def OutputTyped (iecType : String) (type : VarTypeTag) : Prop :=
  (iecType = "BOOL" ∧ type = .bool) ∨ (iecType = "REAL" ∧ type = .real) ∨ (iecType = "LREAL" ∧ type = .lreal)

theorem special_crosses {format : Format} {value : FloatValue} (scanned : scanFloat text = some (value, []))
    (inside : inFormat format value = some value) :
    (sto format text).map (fun read => SlotValue.real read.1) = some (.real value) := by
  rw [sto_of_scan scanned, inside]
  rfl

theorem output_crosses {binding : Plan.PlcIoBinding} {value : IecValue} (bound : OutputTyped binding.iecType type)
    (typed : ValueTyped type value) :
    published binding (varValueToString type value) = slotOf value ↔ OutputCarries type value := by
  unfold published
  rcases bound with ⟨iec, rfl⟩ | ⟨iec, rfl⟩ | ⟨iec, rfl⟩
  · rw [if_pos iec]
    cases value with
    | bool value => cases value <;> exact iff_of_true (by decide) True.intro
    | _ => cases typed
  · rw [if_neg (by rw [iec]; decide)]
    cases value with
    | float value =>
      cases value with
      | finite negative magnitude => exact general_crosses (by decide) negative magnitude _
      | infinity negative => exact iff_of_true (special_crosses (scanFloat_infinity (generalText 6) negative) rfl) True.intro
      | nan negative => exact iff_of_true (special_crosses (scanFloat_nan (generalText 6) negative) rfl) True.intro
    | _ => cases typed
  · rw [if_neg (by rw [iec]; decide)]
    cases value with
    | float value =>
      cases value with
      | finite negative magnitude => exact general_crosses (by decide) negative magnitude _
      | infinity negative => exact iff_of_true (special_crosses (scanFloat_infinity (generalText 10) negative) rfl) True.intro
      | nan negative => exact iff_of_true (special_crosses (scanFloat_nan (generalText 10) negative) rfl) True.intro
    | _ => cases typed

theorem solid_numeric (numeric : ∀ c ∈ text, isNumeric c = true) : Solid text := by
  intro c member
  have shape := numeric c member
  unfold isNumeric at shape
  simp only [Bool.decide_or, Bool.or_eq_true, decide_eq_true_eq] at shape
  rcases shape with digit | other
  · exact digit_notSpace digit
  · simp only [List.mem_cons, List.not_mem_nil, or_false] at other
    rcases other with rfl | rfl | rfl | rfl <;> decide

theorem solid_floatText {print : ℚ → Text} (solid : ∀ magnitude, Solid (print magnitude)) (value : FloatValue) :
    Solid (floatText print value) := by
  have sign : ∀ negative : Bool, Solid (if negative then ['-'] else []) := by decide
  cases value with
  | finite negative magnitude => exact (sign negative).append (solid magnitude)
  | infinity negative => exact (sign negative).append (by decide)
  | nan negative => exact (sign negative).append (by decide)

theorem solid_fixedText (decimals : Nat) (magnitude : ℚ) : Solid (fixedText decimals magnitude) :=
  solid_numeric (withFraction_numeric (wholeDigits_digits _ _) (fractionDigits_digits _ _))

theorem trimmed_numeric (decimals n : Nat) : ∀ c ∈ trimmed decimals n, isNumeric c = true := by
  apply withFraction_numeric (wholeDigits_digits _ _)
  intro c member
  have shorter := List.rdropWhile_prefix (· = '0') (fractionDigits decimals n)
  exact fractionDigits_digits decimals n c (shorter.subset member)

theorem solid_generalText (digits : Nat) (magnitude : ℚ) : Solid (generalText digits magnitude) := by
  unfold generalText
  dsimp only
  split
  · exact solid_numeric (trimmed_numeric _ _)
  · exact .append (solid_numeric (trimmed_numeric _ _)) (solid_numeric (Exponent.numeric (.inr rfl)))

theorem solid_hexText (width : Nat) (n : Int) : Solid (hexText width n) := by
  have digits : Solid ((Nat.toDigits 16 n.toNat).map Char.toUpper) := by
    intro c member
    obtain ⟨d, digit, rfl⟩ := List.mem_map.mp member
    obtain ⟨k, small, rfl⟩ := mem_toDigits (by decide) _ d digit
    interval_cases k <;> rfl
  unfold hexText
  refine .append (.append (by decide) fun c member => ?_) digits
  rw [List.eq_of_mem_replicate member]
  decide

theorem solid_timeText (ns : Int) : Solid (timeText ns) := by
  have part : ∀ ns unit name, Solid (String.toList name) → Solid (timePart ns unit name) := by
    intro ns unit name solid
    unfold timePart
    split
    · nofun
    · exact .append (solid_digits (isDigitOf_toDigits _)) solid
  unfold timeText
  split
  · decide
  · refine .append (.append (.append (.append ?_ (part _ _ _ ?_)) (part _ _ _ ?_)) (part _ _ _ ?_)) (part _ _ _ ?_)
    · split <;> decide
    all_goals decide

theorem solid_slotText (slot : SlotValue) : Solid slot.text := by
  cases slot with
  | boolean value => cases value <;> decide
  | real value => exact solid_floatText (solid_fixedText 6) value
  | integer n => exact solid_intText n

/-- Only strings have blanks. -/
theorem solid_varValueToString {value : IecValue} (typed : ValueTyped type value) :
    Solid (varValueToString type value) ↔ ∀ s, value = .string s → Solid s := by
  cases value with
  | string s =>
    cases type with
    | string =>
      constructor
      · intro solid _ same
        cases same
        exact fun c member => solid c (List.mem_append_left _ (List.mem_cons_of_mem _ member))
      · intro solid
        have quote : Solid ['\''] := by decide
        exact (quote.append (solid s rfl)).append quote
    | _ => cases typed
  | bool value =>
    cases type with
    | bool => cases value <;> exact iff_of_true (by decide) nofun
    | _ => cases typed
  | float value =>
    refine iff_of_true ?_ nofun
    cases type with
    | real => exact solid_floatText (solid_generalText 6) value
    | lreal => exact solid_floatText (solid_generalText 10) value
    | _ => cases typed
  | integer n =>
    refine iff_of_true ?_ nofun
    cases type with
    | sint | int | dint | lint | usint | uint | udint | ulint => exact solid_intText n
    | byte => exact solid_hexText 2 n
    | word => exact solid_hexText 4 n
    | dword => exact solid_hexText 8 n
    | lword => exact solid_hexText 16 n
    | time => exact solid_timeText n
    | _ => cases typed

end LasecSimul.Plc
