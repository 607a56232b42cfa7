import Mathlib.Data.List.TakeWhile
import Mathlib.Tactic.IntervalCases
import Mathlib.Tactic.Ring

/-!
# Numerals in texts

Reading takes the longest run of digits at the front of a text. A text is a list of bytes, each written
as a character.
-/

namespace LasecSimul.Lib.Numeral

abbrev Text := List Char

/-- `isspace` in the "C" locale. -/
def isSpace (c : Char) : Bool := c = ' ' ∨ (9 ≤ c.toNat ∧ c.toNat ≤ 13)

/-- The value of a digit or a letter, and 36 for everything else. -/
def digitValue (c : Char) : Nat :=
  if 48 ≤ c.toNat ∧ c.toNat ≤ 57 then c.toNat - 48
  else if 97 ≤ c.toNat ∧ c.toNat ≤ 122 then c.toNat - 87
  else if 65 ≤ c.toNat ∧ c.toNat ≤ 90 then c.toNat - 55
  else 36

def isDigitOf (base : Nat) (c : Char) : Bool := digitValue c < base

/-- What the digits say, after `value`. -/
def valueOf (base value : Nat) (digits : Text) : Nat :=
  digits.foldl (fun value c => value * base + digitValue c) value

def digitRun (base : Nat) (text : Text) : Text := text.takeWhile (isDigitOf base)

def afterRun (base : Nat) (text : Text) : Text := text.dropWhile (isDigitOf base)

variable {base : Nat} {digits rest text : Text}

theorem valueOf_append (base value : Nat) (digits rest : Text) :
    valueOf base value (digits ++ rest) = valueOf base (valueOf base value digits) rest :=
  List.foldl_append

theorem valueOf_zeros (base value count : Nat) :
    valueOf base value (List.replicate count '0') = value * base ^ count := by
  induction count generalizing value with
  | zero => simp [valueOf]
  | succ count ih =>
    show valueOf base (value * base + 0) (List.replicate count '0') = _
    rw [ih]
    ring

theorem valueOf_leadingZeros (base count : Nat) (digits : Text) :
    valueOf base 0 (List.replicate count '0' ++ digits) = valueOf base 0 digits := by
  rw [valueOf_append, valueOf_zeros, Nat.zero_mul]

theorem digitRun_append (all : ∀ c ∈ digits, isDigitOf base c = true)
    (stops : ∀ c ∈ rest.head?, isDigitOf base c = false) :
    digitRun base (digits ++ rest) = digits ∧ afterRun base (digits ++ rest) = rest := by
  unfold digitRun afterRun
  rw [List.takeWhile_append_of_pos all, List.dropWhile_append_of_pos all]
  cases rest with
  | nil => simp
  | cons c rest =>
    have stop := stops c rfl
    simp [stop]

theorem digitRun_all (all : ∀ c ∈ digits, isDigitOf base c = true) :
    digitRun base digits = digits ∧ afterRun base digits = [] := by
  have whole : digitRun base (digits ++ []) = digits ∧ afterRun base (digits ++ []) = [] := digitRun_append all nofun
  rwa [List.append_nil] at whole

theorem digitRun_none (stops : ∀ c ∈ text.head?, isDigitOf base c = false) :
    digitRun base text = [] ∧ afterRun base text = text := by
  have none : ∀ c ∈ ([] : Text), isDigitOf base c = true := nofun
  exact digitRun_append none stops

theorem digitValue_digitChar {n : Nat} (small : n < 10) : digitValue n.digitChar = n := by
  interval_cases n <;> rfl

theorem isDigitOf_digitChar {n : Nat} (small : n < 10) : isDigitOf 10 n.digitChar = true := by
  unfold isDigitOf
  rw [digitValue_digitChar small]
  exact decide_eq_true small

theorem valueOf_toDigits (n : Nat) : valueOf 10 0 (Nat.toDigits 10 n) = n := by
  induction n using Nat.strong_induction_on with
  | _ n ih =>
    rcases Nat.lt_or_ge n 10 with small | large
    · rw [Nat.toDigits_of_lt_base small]
      show 0 * 10 + digitValue n.digitChar = n
      rw [digitValue_digitChar small, Nat.zero_mul, Nat.zero_add]
    · have split := Nat.toDigits_append_toDigits (by decide : 1 < 10) (by omega : 0 < n / 10)
        (Nat.mod_lt n (by decide : 0 < 10))
      rw [Nat.div_add_mod] at split
      rw [← split, valueOf_append, ih (n / 10) (by omega), Nat.toDigits_of_lt_base (Nat.mod_lt n (by decide))]
      show n / 10 * 10 + digitValue (n % 10).digitChar = n
      rw [digitValue_digitChar (Nat.mod_lt n (by decide))]
      omega

theorem mem_toDigits (large : 1 < base) (n : Nat) : ∀ c ∈ Nat.toDigits base n, ∃ k < base, c = k.digitChar := by
  induction n using Nat.strong_induction_on with
  | _ n ih =>
    intro c member
    rcases Nat.lt_or_ge n base with small | high
    · rw [Nat.toDigits_of_lt_base small, List.mem_singleton] at member
      exact ⟨n, small, member⟩
    · have last := Nat.mod_lt n (by omega : 0 < base)
      have split := Nat.toDigits_append_toDigits large (Nat.div_pos high (by omega)) last
      rw [Nat.div_add_mod] at split
      rw [← split, Nat.toDigits_of_lt_base last] at member
      rcases List.mem_append.mp member with front | back
      · exact ih (n / base) (Nat.div_lt_self (by omega) large) c front
      · exact ⟨n % base, last, List.mem_singleton.mp back⟩

theorem isDigitOf_toDigits (n : Nat) : ∀ c ∈ Nat.toDigits 10 n, isDigitOf 10 c = true := by
  intro c member
  obtain ⟨k, small, rfl⟩ := mem_toDigits (by decide) n c member
  exact isDigitOf_digitChar small

/-! ### Signed integers -/

structure Scanned where
  negative : Bool
  magnitude : Nat
  rest : Text
  deriving DecidableEq, Repr

def Scanned.value (scanned : Scanned) : Int :=
  if scanned.negative then -(scanned.magnitude : Int) else scanned.magnitude

def scanSign : Text → Bool × Text
  | '-' :: rest => (true, rest)
  | '+' :: rest => (false, rest)
  | text => (false, text)

def scanDigits (base : Nat) (negative : Bool) (text : Text) : Option Scanned :=
  if digitRun base text = [] then none
  else some { negative, magnitude := valueOf base 0 (digitRun base text), rest := afterRun base text }

/-- Base 0: a leading `0x` or `0` chooses the base. -/
def chooseBase : Text → Nat × Text
  | '0' :: x :: c :: rest =>
    if (x = 'x' ∨ x = 'X') ∧ isDigitOf 16 c then (16, c :: rest) else (8, '0' :: x :: c :: rest)
  | '0' :: rest => (8, '0' :: rest)
  | text => (10, text)

/-- The front of the text that `strtol` and its family convert. -/
def scanInteger (base : Nat) (text : Text) : Option Scanned :=
  let signed := scanSign (text.dropWhile isSpace)
  let based := if base = 0 then chooseBase signed.2 else (base, signed.2)
  scanDigits based.1 signed.1 based.2

/-- The decimal text of an integer. -/
def intText (n : Int) : Text := if n < 0 then '-' :: Nat.toDigits 10 n.natAbs else Nat.toDigits 10 n.natAbs

theorem toDigits_head (n : Nat) : ∃ c rest, Nat.toDigits 10 n = c :: rest ∧ isDigitOf 10 c = true := by
  cases digits : Nat.toDigits 10 n with
  | nil => exact absurd digits Nat.toDigits_ne_nil
  | cons c rest => exact ⟨c, rest, rfl, isDigitOf_toDigits n c (by rw [digits]; exact List.mem_cons_self)⟩

theorem scanDigits_toDigits (negative : Bool) (n : Nat) (stops : ∀ c ∈ rest.head?, isDigitOf 10 c = false) :
    scanDigits 10 negative (Nat.toDigits 10 n ++ rest) = some { negative, magnitude := n, rest } := by
  obtain ⟨run, after⟩ := digitRun_append (isDigitOf_toDigits n) stops
  unfold scanDigits
  rw [run, after, if_neg Nat.toDigits_ne_nil, valueOf_toDigits]

theorem digit_bounds {c : Char} (digit : isDigitOf 10 c = true) : 48 ≤ c.toNat ∧ c.toNat ≤ 57 := by
  unfold isDigitOf digitValue at digit
  have small := of_decide_eq_true digit
  split at small
  · assumption
  · split at small
    · omega
    · split at small <;> omega

theorem digit_notSpace {c : Char} (digit : isDigitOf 10 c = true) : isSpace c = false := by
  obtain ⟨low, high⟩ := digit_bounds digit
  unfold isSpace
  rw [decide_eq_false_iff_not]
  rintro (rfl | between)
  · simp at low
  · omega

theorem scanSign_digit {c : Char} {rest : Text} (digit : isDigitOf 10 c = true) :
    scanSign (c :: rest) = (false, c :: rest) := by
  obtain ⟨low, high⟩ := digit_bounds digit
  unfold scanSign
  split
  · rename_i same
    cases same
    simp at low
  · rename_i same
    cases same
    simp at low
  · rfl

/-- The scan of a written integer. -/
def writtenScan (n : Int) (rest : Text) : Scanned := { negative := decide (n < 0), magnitude := n.natAbs, rest }

theorem scanSign_intText (n : Int) (rest : Text) :
    scanSign ((intText n ++ rest).dropWhile isSpace) = (decide (n < 0), Nat.toDigits 10 n.natAbs ++ rest) := by
  obtain ⟨c, digits, same, digit⟩ := toDigits_head n.natAbs
  unfold intText
  by_cases negative : n < 0
  · rw [if_pos negative, decide_eq_true negative]
    rfl
  · rw [if_neg negative, decide_eq_false negative, same, List.cons_append,
      List.dropWhile_cons_of_neg (by rw [digit_notSpace digit]; exact Bool.false_ne_true)]
    exact scanSign_digit digit

theorem scanInteger_intText (n : Int) (stops : ∀ c ∈ rest.head?, isDigitOf 10 c = false) :
    scanInteger 10 (intText n ++ rest) = some (writtenScan n rest) := by
  unfold scanInteger
  rw [scanSign_intText]
  exact scanDigits_toDigits _ _ stops

theorem value_writtenScan (n : Int) (rest : Text) : (writtenScan n rest).value = n := by
  unfold Scanned.value writtenScan
  dsimp only
  by_cases negative : n < 0
  · rw [decide_eq_true negative, if_pos rfl]
    omega
  · rw [decide_eq_false negative]
    simp only [Bool.false_eq_true, if_false]
    omega

theorem scan_intText (n : Int) : scanInteger 10 (intText n) = some (writtenScan n []) := by
  have scanned : scanInteger 10 (intText n ++ []) = some (writtenScan n []) := scanInteger_intText n nofun
  rwa [List.append_nil] at scanned

theorem intText_injective {n m : Int} (same : intText n = intText m) : n = m := by
  have scanned := scan_intText n
  rw [same, scan_intText, Option.some.injEq] at scanned
  rw [← value_writtenScan n [], ← value_writtenScan m [], scanned]

theorem toDigits_head_ne_zero {n : Nat} (positive : 0 < n) : ∀ c ∈ (Nat.toDigits 10 n).head?, c ≠ '0' := by
  induction n using Nat.strong_induction_on with
  | _ n ih =>
    intro c head
    rcases Nat.lt_or_ge n 10 with small | large
    · rw [Nat.toDigits_of_lt_base small] at head
      cases head
      intro zero
      have := Nat.digitChar_eq_zero.mp zero
      omega
    · have split := Nat.toDigits_append_toDigits (by decide : 1 < 10) (by omega : 0 < n / 10)
        (Nat.mod_lt n (by decide : 0 < 10))
      rw [Nat.div_add_mod] at split
      obtain ⟨first, more, same, _⟩ := toDigits_head (n / 10)
      rw [← split, same, List.cons_append] at head
      exact ih (n / 10) (by omega) (by omega) c (by rw [same]; exact head)

/-- Decimal digits do not choose another base, except for zero. -/
theorem scan_intText_base0 (n : Int) : scanInteger 0 (intText n) = some (writtenScan n []) := by
  have sign := scanSign_intText n []
  rw [List.append_nil, List.append_nil] at sign
  unfold scanInteger
  rw [sign]
  dsimp only
  rw [if_pos rfl]
  rcases Nat.eq_zero_or_pos n.natAbs with zero | positive
  · obtain rfl := Int.natAbs_eq_zero.mp zero
    decide
  · have based : chooseBase (Nat.toDigits 10 n.natAbs) = (10, Nat.toDigits 10 n.natAbs) := by
      have nonzero := toDigits_head_ne_zero positive
      unfold chooseBase
      split
      · rename_i same
        rw [same] at nonzero
        exact absurd rfl (nonzero '0' rfl)
      · rename_i same
        rw [same] at nonzero
        exact absurd rfl (nonzero '0' rfl)
      · rfl
    have ends : ∀ c ∈ ([] : Text).head?, isDigitOf 10 c = false := nofun
    have scanned := scanDigits_toDigits (decide (n < 0)) n.natAbs ends
    rw [List.append_nil] at scanned
    rw [based]
    exact scanned

def Solid (text : Text) : Prop := ∀ c ∈ text, isSpace c = false

instance (text : Text) : Decidable (Solid text) := List.decidableBAll (fun c => isSpace c = false) text

theorem Solid.append {left right : Text} (first : Solid left) (second : Solid right) : Solid (left ++ right) :=
  fun c member => (List.mem_append.mp member).elim (first c) (second c)

theorem solid_digits (all : ∀ c ∈ digits, isDigitOf 10 c = true) : Solid digits :=
  fun c member => digit_notSpace (all c member)

theorem solid_intText (n : Int) : Solid (intText n) := by
  unfold intText
  split
  · intro c member
    rcases List.mem_cons.mp member with rfl | digit
    · decide
    · exact solid_digits (isDigitOf_toDigits _) c digit
  · exact solid_digits (isDigitOf_toDigits _)

end LasecSimul.Lib.Numeral
