import LasecSimul.Lib.Decimal
import LasecSimul.Lib.Ieee

/-!
# Numbers as ECMAScript writes and reads them

`numberText` is `String(value)`: the fewest decimal digits that read back as the same value, in one of four
layouts. `ofText` is `Number(text)`. The two agree on every finite value except the negative zero.
-/

namespace LasecSimul.Lib.EcmaNumber

open Binary Numeral Decimal

/-- The numbers `s * 10 ^ e` of `k` digits below and above `magnitude`, the closer one first. -/
def candidates (k : Nat) (magnitude : ℚ) : List (Nat × Int) :=
  let e := Int.log 10 magnitude + 1 - k
  let low := ⌊magnitude / 10 ^ e⌋.toNat
  let high := if low + 1 = 10 ^ k then (1, e + k) else (low + 1, e)
  if magnitude / 10 ^ e - low ≤ 1 / 2 then [(low, e), high] else [high, (low, e)]

/-- Whether the decimal number rounds to `magnitude`. -/
def readsBack (magnitude : ℚ) (decimal : Nat × Int) : Bool :=
  binary64.convert (.finite false (decimal.1 * (10 : ℚ) ^ decimal.2)) = .finite false magnitude

/-- All digits of a binary64 magnitude. -/
def exactDigits (magnitude : ℚ) : Nat × Int :=
  (⌊magnitude * 10 ^ (-binary64.minExponent)⌋.toNat, binary64.minExponent)

/-- The fewest digits that read back; 17 always do. -/
def shortest (magnitude : ℚ) : Nat × Int :=
  (((List.range 17).flatMap fun k => candidates (k + 1) magnitude).find? (readsBack magnitude)).getD
    (exactDigits magnitude)

def exponentText (exponent : Int) : Text :=
  (if exponent < 0 then '-' else '+') :: Nat.toDigits 10 exponent.natAbs

/-- The digits with the point after the first `n` of them. -/
def layout (digits : Text) (n : Int) : Text :=
  if digits.length ≤ n ∧ n ≤ 21 then digits ++ List.replicate (n - digits.length).toNat '0'
  else if 0 < n ∧ n ≤ 21 then withFraction (digits.take n.toNat) (digits.drop n.toNat)
  else if -6 < n ∧ n ≤ 0 then withFraction ['0'] (List.replicate (-n).toNat '0' ++ digits)
  else withFraction (digits.take 1) (digits.drop 1) ++ 'e' :: exponentText (n - 1)

def magnitudeText (magnitude : ℚ) : Text :=
  let (s, e) := shortest magnitude
  layout (Nat.toDigits 10 s) ((Nat.toDigits 10 s).length + e)

def signText (negative : Bool) : Text := if negative then ['-'] else []

/-- `String(value)`. -/
def numberText : FloatValue → Text
  | .nan _ => "NaN".toList
  | .infinity negative => signText negative ++ "Infinity".toList
  | .finite negative magnitude => if magnitude = 0 then ['0'] else signText negative ++ magnitudeText magnitude

/-- White space and line terminators. -/
def isWhite (c : Char) : Bool :=
  isSpace c ∨ (0x2000 ≤ c.toNat ∧ c.toNat ≤ 0x200A) ∨
    c.toNat ∈ [0xA0, 0x1680, 0x2028, 0x2029, 0x202F, 0x205F, 0x3000, 0xFEFF]

variable {magnitude value : ℚ} {negative : Bool} {exponent : Int} {text digits rest : Text}

/-- A decimal number with an optional fraction and an optional exponent, and what it says. -/
def Written (text : Text) (value : ℚ) : Prop :=
  ∃ whole fraction exponent rest, text = withFraction whole fraction ++ rest ∧ whole ≠ [] ∧
    (∀ c ∈ whole, isDigitOf 10 c = true) ∧ (∀ c ∈ fraction, isDigitOf 10 c = true) ∧
    ((exponent = 0 ∧ rest = []) ∨ rest = 'e' :: exponentText exponent) ∧
    valueOf 10 0 (whole ++ fraction) * (10 : ℚ) ^ (exponent - fraction.length) = value

theorem Written.numeric (written : Written text value) : ∀ c ∈ text, isNumeric c = true := by
  obtain ⟨whole, fraction, exponent, rest, rfl, _, wholly, fractional, last, _⟩ := written
  intro c member
  rcases List.mem_append.mp member with front | back
  · exact withFraction_numeric wholly fractional c front
  · rcases last with ⟨_, rfl⟩ | rfl
    · cases back
    · rcases List.mem_cons.mp back with rfl | back
      · decide
      · rcases List.mem_cons.mp back with rfl | digit
        · split <;> decide
        · exact isNumeric_digit (isDigitOf_toDigits _ c digit)

theorem Written.head (written : Written text value) : ∃ c rest, text = c :: rest ∧ isDigitOf 10 c = true := by
  obtain ⟨whole, fraction, exponent, rest, rfl, nonempty, wholly, _⟩ := written
  cases whole with
  | nil => exact absurd rfl nonempty
  | cons c whole =>
    refine ⟨c, withFraction whole fraction ++ rest, ?_, wholly c List.mem_cons_self⟩
    unfold withFraction
    split <;> rfl

theorem layout_written {n : Int} (nonempty : digits ≠ []) (all : ∀ c ∈ digits, isDigitOf 10 c = true) :
    Written (layout digits n) (valueOf 10 0 digits * (10 : ℚ) ^ (n - digits.length)) := by
  have zeros : ∀ count, ∀ c ∈ List.replicate count '0', isDigitOf 10 c = true := fun count c member => by
    rw [List.eq_of_mem_replicate member]
    rfl
  unfold layout
  split
  · next large =>
    refine ⟨digits ++ List.replicate (n - digits.length).toNat '0', [], 0, [], ?_, by simp [nonempty], ?_, nofun,
      .inl ⟨rfl, rfl⟩, ?_⟩
    · simp [withFraction]
    · intro c member
      exact (List.mem_append.mp member).elim (all c) (zeros _ c)
    · rw [List.append_nil, valueOf_append, valueOf_zeros]
      push_cast
      rw [← zpow_natCast, Int.toNat_of_nonneg (by omega)]
      simp
  · split
    · next small inside =>
      refine ⟨digits.take n.toNat, digits.drop n.toNat, 0, [], (List.append_nil _).symm, ?_,
        fun c member => all c (List.mem_of_mem_take member), fun c member => all c (List.mem_of_mem_drop member),
        .inl ⟨rfl, rfl⟩, ?_⟩
      · simp only [Ne, List.take_eq_nil_iff, nonempty, or_false]
        omega
      · rw [List.take_append_drop, List.length_drop]
        congr 2
        omega
    · split
      · next below =>
        refine ⟨['0'], List.replicate (-n).toNat '0' ++ digits, 0, [], (List.append_nil _).symm, by simp, ?_, ?_,
          .inl ⟨rfl, rfl⟩, ?_⟩
        · simpa using zeros 1
        · intro c member
          exact (List.mem_append.mp member).elim (zeros _ c) (all c)
        · have leading := valueOf_leadingZeros 10 (1 + (-n).toNat) digits
          rw [List.replicate_add, List.append_assoc] at leading
          rw [show ['0'] = List.replicate 1 '0' from rfl, leading, List.length_append, List.length_replicate]
          congr 2
          push_cast
          omega
      · refine ⟨digits.take 1, digits.drop 1, n - 1, _, rfl, ?_, fun c member => all c (List.mem_of_mem_take member),
          fun c member => all c (List.mem_of_mem_drop member), .inr rfl, ?_⟩
        · simp [nonempty]
        · have := List.length_pos_iff.mpr nonempty
          rw [List.take_append_drop, List.length_drop]
          congr 2
          omega

theorem magnitudeText_written (magnitude : ℚ) :
    Written (magnitudeText magnitude) ((shortest magnitude).1 * (10 : ℚ) ^ (shortest magnitude).2) := by
  have written := layout_written (n := (Nat.toDigits 10 (shortest magnitude).1).length + (shortest magnitude).2)
    Nat.toDigits_ne_nil (isDigitOf_toDigits (shortest magnitude).1)
  rwa [valueOf_toDigits, add_sub_cancel_left] at written

theorem numberText_numeric (negative : Bool) (magnitude : ℚ) :
    ∀ c ∈ numberText (.finite negative magnitude), isNumeric c = true := by
  intro c member
  unfold numberText at member
  dsimp only at member
  split at member
  · cases List.mem_singleton.mp member
    rfl
  · rcases List.mem_append.mp member with sign | digit
    · cases negative with
      | true =>
        cases List.mem_singleton.mp sign
        rfl
      | false => cases sign
    · exact (magnitudeText_written magnitude).numeric c digit

/-! ### Numbers -/

/-- The values of the Number type: there is one NaN, and finite values are binary64. -/
def IsNumber : FloatValue → Prop
  | .finite negative magnitude =>
    0 ≤ magnitude ∧ binary64.convert (.finite negative magnitude) = .finite negative magnitude
  | .infinity _ => True
  | .nan negative => negative = false

structure Number where
  value : FloatValue
  isNumber : IsNumber value

theorem isNumber_convert (nonneg : 0 ≤ magnitude) : IsNumber (binary64.convert (.finite negative magnitude)) := by
  have twice : binary64.convert (binary64.convert (.finite negative magnitude)) =
      binary64.convert (.finite negative magnitude) := Format.convert_convert (by decide) nonneg
  cases converted : binary64.convert (.finite negative magnitude) with
  | nan sign =>
    unfold Format.convert at converted
    dsimp only at converted
    split at converted <;> cases converted
  | infinity sign => exact True.intro
  | finite sign value =>
    rw [converted] at twice
    refine ⟨?_, twice⟩
    unfold Format.convert at converted
    dsimp only at converted
    split at converted
    · cases converted
    · cases converted
      exact Format.nearest_nonneg nonneg

end LasecSimul.Lib.EcmaNumber

/-!
## Arithmetic of the Number type

Every operation rounds its exact result once. `Number.round` is `Math.round`: the nearest integer, a half upwards.
-/

namespace LasecSimul.Lib.EcmaNumber

open Binary

namespace Number

/-- The number a value of any sign and size rounds to. -/
def rounded : FloatValue → Number
  | .finite negative magnitude => ⟨binary64.convert (.finite negative |magnitude|), isNumber_convert (abs_nonneg _)⟩
  | .infinity negative => ⟨.infinity negative, True.intro⟩
  | .nan _ => ⟨.nan false, rfl⟩

def nan : Number := ⟨.nan false, rfl⟩

/-- A numeric literal. -/
def ofRat (value : ℚ) : Number := rounded (binary64.ofRat false value)

instance : Add Number := ⟨fun a b => rounded (binary64.add a.value b.value)⟩

instance : Sub Number := ⟨fun a b => rounded (binary64.sub a.value b.value)⟩

instance : Mul Number := ⟨fun a b => rounded (binary64.mul a.value b.value)⟩

instance : Div Number := ⟨fun a b => rounded (binary64.div a.value b.value)⟩

def lt (a b : Number) : Bool := a.value.lt b.value

def le (a b : Number) : Bool := a.value.le b.value

def isNaN (a : Number) : Bool :=
  match a.value with
  | .nan _ => true
  | _ => false

/-- `Math.abs`. -/
def abs (a : Number) : Number := rounded (a.value.withSign false)

/-- `Math.min`, for which the negative zero is below the other one. -/
def min (a b : Number) : Number :=
  if a.isNaN || b.isNaN then nan
  else if lt a b then a
  else if lt b a then b
  else if a.value.negative then a else b

/-- `Math.max`. -/
def max (a b : Number) : Number :=
  if a.isNaN || b.isNaN then nan
  else if lt a b then b
  else if lt b a then a
  else if a.value.negative then b else a

/-- `Math.round`. -/
def round (a : Number) : Number :=
  match a.value with
  | .finite negative magnitude => rounded (.finite negative |(⌊FloatValue.signed negative magnitude + 1 / 2⌋ : ℚ)|)
  | _ => a

end Number

end LasecSimul.Lib.EcmaNumber
