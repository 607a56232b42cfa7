import Mathlib.Data.List.DropRight
import LasecSimul.Lib.Binary
import LasecSimul.Lib.Numeral

/-!
# Floating-point numbers in texts

`strtod` takes the longest front of a text that is a number and rounds it correctly. `fixedText` and
`generalText` are the conversions `%f` and `%g` of `printf`, with exact decimal rounding.
-/

namespace LasecSimul.Lib.Decimal

open Binary Numeral

/-- The digits after a point, if one follows. -/
def scanFraction (base : Nat) : Text → Text × Text
  | '.' :: rest => (digitRun base rest, afterRun base rest)
  | rest => ([], rest)

/-- Digits with an optional point: the mantissa, the number of fraction digits and what is left. -/
def scanMantissa (base : Nat) (text : Text) : Option (Nat × Nat × Text) :=
  let whole := digitRun base text
  let pointed := scanFraction base (afterRun base text)
  if whole ++ pointed.1 = [] then none
  else some (valueOf base 0 (whole ++ pointed.1), pointed.1.length, pointed.2)

/-- An exponent after one of `marks`, or none. -/
def scanExponent (marks : List Char) (text : Text) : Int × Text :=
  match text with
  | mark :: rest =>
    if mark ∈ marks then
      match scanDigits 10 (scanSign rest).1 (scanSign rest).2 with
      | some scanned => (scanned.value, scanned.rest)
      | none => (0, text)
    else (0, text)
  | [] => (0, text)

def scanDecimal (text : Text) : Option (ℚ × Text) :=
  (scanMantissa 10 text).map fun (mantissa, fraction, rest) =>
    let exponent := scanExponent ['e', 'E'] rest
    (mantissa * (10 : ℚ) ^ (exponent.1 - fraction), exponent.2)

def scanHexadecimal (text : Text) : Option (ℚ × Text) :=
  (scanMantissa 16 text).map fun (mantissa, fraction, rest) =>
    let exponent := scanExponent ['p', 'P'] rest
    (mantissa * (2 : ℚ) ^ (exponent.1 - 4 * fraction), exponent.2)

def scanMagnitude (text : Text) : Option (ℚ × Text) :=
  match text with
  | '0' :: x :: rest =>
    if x = 'x' ∨ x = 'X' then (scanHexadecimal rest).or (scanDecimal text) else scanDecimal text
  | _ => scanDecimal text

/-- What follows `word`, in letters of either case. -/
def dropWord : Text → Text → Option Text
  | [], text => some text
  | c :: word, d :: text => if d.toLower = c then dropWord word text else none
  | _ :: _, [] => none

/-- The optional sequence after `nan`. -/
def dropPayload (text : Text) : Text :=
  match text with
  | '(' :: rest =>
    match rest.dropWhile fun c => c.isAlphanum ∨ c = '_' with
    | ')' :: rest => rest
    | _ => text
  | _ => text

def scanFloat (text : Text) : Option (FloatValue × Text) :=
  let signed := scanSign (text.dropWhile isSpace)
  match dropWord "infinity".toList signed.2 <|> dropWord "inf".toList signed.2 with
  | some rest => some (.infinity signed.1, rest)
  | none =>
    match dropWord "nan".toList signed.2 with
    | some rest => some (.nan signed.1, dropPayload rest)
    | none => (scanMagnitude signed.2).map fun (magnitude, rest) => (.finite signed.1 magnitude, rest)

/-- The value in the format, unless that is a range error. -/
def inFormat (format : Format) : FloatValue → Option FloatValue
  | .finite negative magnitude =>
    if format.overflows magnitude ∨ format.underflows magnitude then none
    else some (.finite negative (format.nearest magnitude))
  | value => some value

/-- `std::stod`, and `std::stof` for `binary32`; `none` when it throws. -/
def sto (format : Format) (text : Text) : Option (FloatValue × Text) :=
  (scanFloat text).bind fun (value, rest) => (inFormat format value).map fun value => (value, rest)

def paddedDigits (width n : Nat) : Text :=
  List.replicate (width - (Nat.toDigits 10 n).length) '0' ++ Nat.toDigits 10 n

/-- The digits of `n / 10 ^ decimals` before and after the point. -/
def wholeDigits (decimals n : Nat) : Text :=
  (paddedDigits (decimals + 1) n).take ((paddedDigits (decimals + 1) n).length - decimals)

def fractionDigits (decimals n : Nat) : Text :=
  (paddedDigits (decimals + 1) n).drop ((paddedDigits (decimals + 1) n).length - decimals)

def withFraction (whole fraction : Text) : Text := if fraction = [] then whole else whole ++ '.' :: fraction

def fixedText (decimals : Nat) (magnitude : ℚ) : Text :=
  let n := (roundHalfEven (magnitude * 10 ^ decimals)).toNat
  withFraction (wholeDigits decimals n) (fractionDigits decimals n)

/-- `digits` significant digits as an integer, and the decimal exponent of the first. -/
def significant (digits : Nat) (magnitude : ℚ) : Nat × Int :=
  if magnitude = 0 then (0, 0)
  else
    let exponent := Int.log 10 magnitude
    let n := (roundHalfEven (magnitude / 10 ^ (exponent - (digits - 1)))).toNat
    if n = 10 ^ digits then (10 ^ (digits - 1), exponent + 1) else (n, exponent)

def trimmed (decimals n : Nat) : Text :=
  withFraction (wholeDigits decimals n) ((fractionDigits decimals n).rdropWhile (· = '0'))

def exponentText (exponent : Int) : Text :=
  (if exponent < 0 then '-' else '+') :: paddedDigits 2 exponent.natAbs

def generalText (digits : Nat) (magnitude : ℚ) : Text :=
  let (n, exponent) := significant digits magnitude
  if -4 ≤ exponent ∧ exponent < digits then trimmed (digits - 1 - exponent).toNat n
  else trimmed (digits - 1) n ++ 'e' :: exponentText exponent

def floatText (text : ℚ → Text) : FloatValue → Text
  | .finite negative magnitude => (if negative then ['-'] else []) ++ text magnitude
  | .infinity negative => (if negative then ['-'] else []) ++ "inf".toList
  | .nan negative => (if negative then ['-'] else []) ++ "nan".toList

variable {whole fraction rest : Text} {decimals digits n : Nat} {magnitude : ℚ}

theorem isDigitOf_zero : isDigitOf 10 '0' = true := by decide

theorem paddedDigits_digits (width n : Nat) : ∀ c ∈ paddedDigits width n, isDigitOf 10 c = true := by
  intro c member
  rcases List.mem_append.mp member with zero | digit
  · rw [List.eq_of_mem_replicate zero]
    exact isDigitOf_zero
  · exact isDigitOf_toDigits n c digit

theorem valueOf_paddedDigits (width n : Nat) : valueOf 10 0 (paddedDigits width n) = n := by
  unfold paddedDigits
  rw [valueOf_leadingZeros, valueOf_toDigits]

theorem length_paddedDigits (width n : Nat) : width ≤ (paddedDigits width n).length := by
  unfold paddedDigits
  rw [List.length_append, List.length_replicate]
  omega

theorem whole_append_fraction (decimals n : Nat) :
    wholeDigits decimals n ++ fractionDigits decimals n = paddedDigits (decimals + 1) n :=
  List.take_append_drop ..

theorem length_fractionDigits (decimals n : Nat) : (fractionDigits decimals n).length = decimals := by
  have long := length_paddedDigits (decimals + 1) n
  unfold fractionDigits
  rw [List.length_drop]
  omega

theorem wholeDigits_ne_nil (decimals n : Nat) : wholeDigits decimals n ≠ [] := by
  have long := length_paddedDigits (decimals + 1) n
  intro none
  have short := congrArg List.length none
  unfold wholeDigits at short
  rw [List.length_take, List.length_nil] at short
  omega

theorem wholeDigits_digits (decimals n : Nat) : ∀ c ∈ wholeDigits decimals n, isDigitOf 10 c = true :=
  fun c member => paddedDigits_digits (decimals + 1) n c (List.mem_of_mem_take member)

theorem fractionDigits_digits (decimals n : Nat) : ∀ c ∈ fractionDigits decimals n, isDigitOf 10 c = true :=
  fun c member => paddedDigits_digits (decimals + 1) n c (List.mem_of_mem_drop member)

/-! ### Reading a written number -/

/-- What may follow the digits of a number. -/
def Ends (rest : Text) : Prop := ∀ c ∈ rest.head?, isDigitOf 10 c = false ∧ c ≠ '.'

theorem scanFraction_none (ends : Ends rest) : scanFraction 10 rest = ([], rest) := by
  unfold scanFraction
  split
  · exact absurd rfl (ends '.' rfl).2
  · rfl

theorem scanMantissa_written (nonempty : whole ≠ []) (wholly : ∀ c ∈ whole, isDigitOf 10 c = true)
    (fractional : ∀ c ∈ fraction, isDigitOf 10 c = true) (ends : Ends rest) :
    scanMantissa 10 (withFraction whole fraction ++ rest) =
      some (valueOf 10 0 (whole ++ fraction), fraction.length, rest) := by
  unfold scanMantissa withFraction
  split
  · rename_i none
    subst none
    obtain ⟨run, after⟩ := digitRun_append wholly fun c head => (ends c head).1
    rw [run, after, scanFraction_none ends]
    dsimp only
    rw [List.append_nil, if_neg nonempty]
  · rw [List.append_assoc, List.cons_append]
    have point : ∀ c ∈ ('.' :: (fraction ++ rest)).head?, isDigitOf 10 c = false := by
      intro c head
      cases head
      decide
    obtain ⟨run, after⟩ := digitRun_append wholly point
    obtain ⟨run', after'⟩ := digitRun_append fractional fun c head => (ends c head).1
    have pointed : scanFraction 10 ('.' :: (fraction ++ rest)) = (fraction, rest) := by
      show (digitRun 10 (fraction ++ rest), afterRun 10 (fraction ++ rest)) = _
      rw [run', after']
    rw [run, after, pointed]
    dsimp only
    rw [if_neg (by simp [nonempty])]

theorem scanExponent_written (exponent : Int) :
    scanExponent ['e', 'E'] ('e' :: exponentText exponent) = (exponent, []) := by
  obtain ⟨run, after⟩ := digitRun_all (paddedDigits_digits 2 exponent.natAbs)
  have nonempty : paddedDigits 2 exponent.natAbs ≠ [] := by
    intro none
    have long := length_paddedDigits 2 exponent.natAbs
    rw [none] at long
    cases long
  have scanned : ∀ negative, scanDigits 10 negative (paddedDigits 2 exponent.natAbs) =
      some { negative := negative, magnitude := exponent.natAbs, rest := [] } := by
    intro negative
    unfold scanDigits
    rw [run, after, if_neg nonempty, valueOf_paddedDigits]
  unfold scanExponent exponentText
  dsimp only
  rw [if_pos List.mem_cons_self]
  by_cases negative : exponent < 0
  · have sign : scanSign ('-' :: paddedDigits 2 exponent.natAbs) = (true, paddedDigits 2 exponent.natAbs) := rfl
    rw [if_pos negative, sign, scanned]
    show (-(exponent.natAbs : Int), _) = _
    congr 1
    omega
  · have sign : scanSign ('+' :: paddedDigits 2 exponent.natAbs) = (false, paddedDigits 2 exponent.natAbs) := rfl
    rw [if_neg negative, sign, scanned]
    show ((exponent.natAbs : Int), _) = _
    congr 1
    omega

/-- Nothing, or a decimal exponent. -/
def Exponent (exponent : Int) (text : Text) : Prop :=
  (exponent = 0 ∧ text = []) ∨ text = 'e' :: exponentText exponent

variable {exponent : Int}

theorem Exponent.ends (last : Exponent exponent rest) : Ends rest := by
  rcases last with ⟨_, rfl⟩ | rfl
  · nofun
  · intro c head
    cases head
    decide

theorem Exponent.scans (last : Exponent exponent rest) : scanExponent ['e', 'E'] rest = (exponent, []) := by
  rcases last with ⟨rfl, rfl⟩ | rfl
  · rfl
  · exact scanExponent_written exponent

/-- The characters of a decimal number. -/
def isNumeric (c : Char) : Bool := isDigitOf 10 c ∨ c ∈ ['.', 'e', '+', '-']

theorem isNumeric_digit {c : Char} (digit : isDigitOf 10 c = true) : isNumeric c = true := by
  unfold isNumeric
  simp [digit]

theorem Exponent.numeric (last : Exponent exponent rest) : ∀ c ∈ rest, isNumeric c = true := by
  rcases last with ⟨_, rfl⟩ | rfl
  · nofun
  · intro c member
    rcases List.mem_cons.mp member with rfl | member
    · decide
    · rcases List.mem_cons.mp member with rfl | member
      · split <;> decide
      · exact isNumeric_digit (paddedDigits_digits _ _ c member)

theorem withFraction_numeric (wholly : ∀ c ∈ whole, isDigitOf 10 c = true)
    (fractional : ∀ c ∈ fraction, isDigitOf 10 c = true) : ∀ c ∈ withFraction whole fraction, isNumeric c = true := by
  intro c member
  unfold withFraction at member
  split at member
  · exact isNumeric_digit (wholly c member)
  · rcases List.mem_append.mp member with front | back
    · exact isNumeric_digit (wholly c front)
    · rcases List.mem_cons.mp back with rfl | back
      · decide
      · exact isNumeric_digit (fractional c back)

theorem isNumeric_notX {c : Char} (numeric : isNumeric c = true) : ¬(c = 'x' ∨ c = 'X') := by
  rintro (rfl | rfl)
  · exact absurd numeric (by decide)
  · exact absurd numeric (by decide)

theorem digit_toLower {c : Char} (digit : isDigitOf 10 c = true) : c.toLower = c := by
  obtain ⟨low, high⟩ := digit_bounds digit
  rw [← Char.ofNat_toNat c]
  generalize c.toNat = code at low high
  interval_cases code <;> rfl

theorem dropWord_digit {c d : Char} {word text : Text} (digit : isDigitOf 10 c = true)
    (letter : isDigitOf 10 d = false) : dropWord (d :: word) (c :: text) = none := by
  unfold dropWord
  rw [digit_toLower digit]
  apply if_neg
  rintro rfl
  rw [digit] at letter
  cases letter

theorem scanMagnitude_written (nonempty : whole ≠ []) (wholly : ∀ c ∈ whole, isDigitOf 10 c = true)
    (fractional : ∀ c ∈ fraction, isDigitOf 10 c = true) (last : Exponent exponent rest) :
    scanMagnitude (withFraction whole fraction ++ rest) =
      some (valueOf 10 0 (whole ++ fraction) * (10 : ℚ) ^ (exponent - fraction.length), []) := by
  have decimal : scanDecimal (withFraction whole fraction ++ rest) =
      some (valueOf 10 0 (whole ++ fraction) * (10 : ℚ) ^ (exponent - fraction.length), []) := by
    unfold scanDecimal
    rw [scanMantissa_written nonempty wholly fractional last.ends, Option.map_some]
    dsimp only
    rw [last.scans]
  have numeric : ∀ c ∈ withFraction whole fraction ++ rest, isNumeric c = true := fun c member =>
    (List.mem_append.mp member).elim (withFraction_numeric wholly fractional c) (last.numeric c)
  rw [← decimal]
  unfold scanMagnitude
  split
  · rename_i x tail same
    rw [same] at numeric
    exact if_neg (isNumeric_notX (numeric x (List.mem_cons_of_mem _ List.mem_cons_self)))
  · rfl

theorem scanFloat_written (negative : Bool) (nonempty : whole ≠ []) (wholly : ∀ c ∈ whole, isDigitOf 10 c = true)
    (fractional : ∀ c ∈ fraction, isDigitOf 10 c = true) (last : Exponent exponent rest) :
    scanFloat ((if negative then ['-'] else []) ++ (withFraction whole fraction ++ rest)) =
      some (.finite negative (valueOf 10 0 (whole ++ fraction) * (10 : ℚ) ^ (exponent - fraction.length)), []) := by
  have magnitude := scanMagnitude_written nonempty wholly fractional last
  have head : ∃ c tail, withFraction whole fraction ++ rest = c :: tail ∧ isDigitOf 10 c = true := by
    cases whole with
    | nil => exact absurd rfl nonempty
    | cons c whole =>
      refine ⟨c, withFraction whole fraction ++ rest, ?_, wholly c List.mem_cons_self⟩
      unfold withFraction
      split <;> rfl
  obtain ⟨c, tail, same, digit⟩ := head
  rw [same] at magnitude ⊢
  have signed : scanSign (((if negative then ['-'] else []) ++ c :: tail).dropWhile isSpace) =
      (negative, c :: tail) := by
    cases negative with
    | true => rfl
    | false =>
      show scanSign ((c :: tail).dropWhile isSpace) = _
      rw [List.dropWhile_cons_of_neg (by rw [digit_notSpace digit]; exact Bool.false_ne_true)]
      exact scanSign_digit digit
  unfold scanFloat
  rw [signed]
  have infinity : dropWord "infinity".toList (c :: tail) = none := dropWord_digit digit (by decide)
  have inf : dropWord "inf".toList (c :: tail) = none := dropWord_digit digit (by decide)
  have nan : dropWord "nan".toList (c :: tail) = none := dropWord_digit digit (by decide)
  dsimp only
  rw [infinity, inf, nan, magnitude]
  rfl

theorem scanMantissa_head {c : Char} {text : Text} {scanned : Nat × Nat × Text}
    (scans : scanMantissa 10 (c :: text) = some scanned) : isDigitOf 10 c = true ∨ c = '.' := by
  by_contra neither
  rw [not_or, Bool.not_eq_true] at neither
  have stop : ∀ d ∈ (c :: text).head?, isDigitOf 10 d = false := by
    intro d first
    obtain rfl := Option.some.inj first
    exact neither.1
  have pointless : scanFraction 10 (c :: text) = ([], c :: text) := by
    unfold scanFraction
    split
    · next same => exact absurd (List.cons.inj same).1 neither.2
    · rfl
  unfold scanMantissa at scans
  rw [(digitRun_none stop).1, (digitRun_none stop).2, pointless] at scans
  cases scans

/-- A float scan reads a decimal literal as such, unless it goes on as a hexadecimal one. -/
theorem scanFloat_decimal {text rest : Text} {magnitude : ℚ} (scans : scanDecimal text = some (magnitude, rest))
    (unmarked : ∀ c ∈ rest.head?, c ∉ ['x', 'X']) : scanFloat text = some (.finite false magnitude, rest) := by
  cases text with
  | nil => cases scans
  | cons c text =>
    obtain ⟨scanned, mantissa, -⟩ := Option.map_eq_some_iff.mp scans
    have front : isSpace c = false ∧ scanSign (c :: text) = (false, c :: text) ∧
        ∀ letter ∈ ['i', 'n'], ∀ word, dropWord (letter :: word) (c :: text) = none := by
      rcases scanMantissa_head mantissa with digit | rfl
      · refine ⟨digit_notSpace digit, scanSign_digit digit, fun letter member word => dropWord_digit digit ?_⟩
        rcases List.mem_cons.mp member with rfl | member
        · decide
        · rw [List.mem_singleton.mp member]
          decide
      · refine ⟨by decide, rfl, fun letter member word => if_neg ?_⟩
        rcases List.mem_cons.mp member with rfl | member
        · decide
        · rw [List.mem_singleton.mp member]
          decide
    have magnitudes : scanMagnitude (c :: text) = some (magnitude, rest) := by
      unfold scanMagnitude
      split
      · next x tail same =>
        obtain ⟨rfl, rfl⟩ := List.cons.inj same
        refine (if_neg ?_).trans scans
        rintro (rfl | rfl)
        · cases scans
          exact unmarked 'x' rfl (by decide)
        · cases scans
          exact unmarked 'X' rfl (by decide)
      · exact scans
    unfold scanFloat
    rw [List.dropWhile_cons_of_neg (by rw [front.1]; exact Bool.false_ne_true), front.2.1]
    have infinity : dropWord "infinity".toList (c :: text) = none := front.2.2 'i' (by decide) _
    have inf : dropWord "inf".toList (c :: text) = none := front.2.2 'i' (by decide) _
    have nan : dropWord "nan".toList (c :: text) = none := front.2.2 'n' (by decide) _
    dsimp only
    rw [infinity, inf, nan, magnitudes]
    rfl

theorem scanFloat_whole {text : Text} {magnitude : ℚ} (whole : scanDecimal text = some (magnitude, [])) :
    scanFloat text = some (.finite false magnitude, []) := scanFloat_decimal whole nofun

theorem written_value (decimals n : Nat) :
    (valueOf 10 0 (wholeDigits decimals n ++ fractionDigits decimals n) : ℚ) = n := by
  rw [whole_append_fraction, valueOf_paddedDigits]

def fixedValue (decimals : Nat) (magnitude : ℚ) : ℚ := (roundHalfEven (magnitude * 10 ^ decimals)).toNat / 10 ^ decimals

theorem scanFloat_fixedText (negative : Bool) (decimals : Nat) (magnitude : ℚ) :
    scanFloat (floatText (fixedText decimals) (.finite negative magnitude)) =
      some (.finite negative (fixedValue decimals magnitude), []) := by
  unfold floatText fixedText fixedValue
  dsimp only
  generalize (roundHalfEven (magnitude * 10 ^ decimals)).toNat = n
  have read := scanFloat_written negative (wholeDigits_ne_nil decimals n) (wholeDigits_digits decimals n)
    (fractionDigits_digits decimals n) (.inl ⟨rfl, rfl⟩ : Exponent 0 [])
  rw [List.append_nil, written_value, length_fractionDigits, zero_sub, zpow_neg, zpow_natCast, ← div_eq_mul_inv]
    at read
  exact read

/-- Zeros at the end of the fraction do not count. -/
theorem trimmed_value (decimals n : Nat) (exponent : Int) :
    (valueOf 10 0 (wholeDigits decimals n ++ (fractionDigits decimals n).rdropWhile (· = '0')) : ℚ) *
      (10 : ℚ) ^ (exponent - ((fractionDigits decimals n).rdropWhile (· = '0')).length) =
      n * (10 : ℚ) ^ (exponent - decimals) := by
  have split := List.rdropWhile_append_rtakeWhile (p := (· = '0')) (l := fractionDigits decimals n)
  have zeros := List.eq_replicate_of_mem fun c (member : c ∈ (fractionDigits decimals n).rtakeWhile (· = '0')) =>
    of_decide_eq_true (List.mem_rtakeWhile_imp (p := (· = '0')) member)
  have value := written_value decimals n
  have length := length_fractionDigits decimals n
  generalize (fractionDigits decimals n).rdropWhile (· = '0') = kept at *
  generalize (fractionDigits decimals n).rtakeWhile (· = '0') = dropped at *
  rw [← split, zeros, ← List.append_assoc, valueOf_append, valueOf_zeros] at value
  rw [← split, List.length_append] at length
  have exponents : exponent - kept.length = (exponent - decimals) + dropped.length := by omega
  rw [← value, exponents, zpow_add₀ (by decide), zpow_natCast]
  push_cast
  ring

theorem scanFloat_trimmed (negative : Bool) (decimals n : Nat) (last : Exponent exponent rest) :
    scanFloat ((if negative then ['-'] else []) ++ (trimmed decimals n ++ rest)) =
      some (.finite negative (n * (10 : ℚ) ^ (exponent - decimals)), []) := by
  rw [← trimmed_value decimals n exponent]
  apply scanFloat_written negative (wholeDigits_ne_nil decimals n) (wholeDigits_digits decimals n) _ last
  intro c member
  have shorter := List.rdropWhile_prefix (· = '0') (fractionDigits decimals n)
  exact fractionDigits_digits decimals n c (shorter.subset member)

def significantValue (digits : Nat) (magnitude : ℚ) : ℚ :=
  (significant digits magnitude).1 * (10 : ℚ) ^ ((significant digits magnitude).2 - (digits - 1))

theorem scanFloat_generalText (negative : Bool) (positive : 0 < digits) (magnitude : ℚ) :
    scanFloat (floatText (generalText digits) (.finite negative magnitude)) =
      some (.finite negative (significantValue digits magnitude), []) := by
  unfold floatText generalText significantValue
  dsimp only
  generalize significant digits magnitude = shown
  obtain ⟨n, exponent⟩ := shown
  dsimp only
  by_cases plain : -4 ≤ exponent ∧ exponent < digits
  · rw [if_pos plain]
    have read := scanFloat_trimmed negative (digits - 1 - exponent).toNat n (.inl ⟨rfl, rfl⟩ : Exponent 0 [])
    have exponents : (0 : Int) - ((digits - 1 - exponent).toNat : Int) = exponent - (digits - 1) := by omega
    rw [List.append_nil, exponents] at read
    exact read
  · rw [if_neg plain]
    have read := scanFloat_trimmed negative (digits - 1) n (.inr rfl : Exponent exponent _)
    have exponents : exponent - ((digits - 1 : Nat) : Int) = exponent - (digits - 1) := by omega
    rw [exponents] at read
    exact read

theorem scanFloat_infinity (text : ℚ → Text) (negative : Bool) :
    scanFloat (floatText text (.infinity negative)) = some (.infinity negative, []) := by
  cases negative <;> rfl

theorem scanFloat_nan (text : ℚ → Text) (negative : Bool) :
    scanFloat (floatText text (.nan negative)) = some (.nan negative, []) := by
  cases negative <;> rfl

end LasecSimul.Lib.Decimal
