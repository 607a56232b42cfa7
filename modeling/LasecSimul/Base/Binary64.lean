import LasecSimul.Lib.Ieee

/-!
# `double`

The operations the core uses on `double`. No law is assumed, so what is proved holds for IEEE
arithmetic, of which `Float` is the instance, and for exact arithmetic alike.
-/

namespace LasecSimul

class Double (R : Type) extends Zero R, One R, Add R, Sub R, Neg R, Mul R, Div R, OfScientific R where
  lt : R → R → Bool
  le : R → R → Bool
  eq : R → R → Bool
  abs : R → R
  pow : R → R → R
  copysign : R → R → R
  floor : R → R
  isNaN : R → Bool
  isFinite : R → Bool
  infinity : R
  /-- `static_cast<double>` of an unsigned integer. -/
  ofUnsigned : Nat → R
  /-- `static_cast` to an unsigned integer. -/
  toUnsigned : R → Nat
  /-- `std::llround`. -/
  round : R → Int

namespace Double

variable {R : Type} [Double R]

/-- `std::min`. -/
def min (a b : R) : R := if lt b a then b else a

/-- `std::max`. -/
def max (a b : R) : R := if lt a b then b else a

/-- `std::clamp`. -/
def clamp (value low high : R) : R := if lt value low then low else if lt high value then high else value

end Double

instance : Double Float where
  zero := 0.0
  one := 1.0
  lt a b := a < b
  le a b := a ≤ b
  eq a b := a == b
  abs := Float.abs
  pow := Float.pow
  copysign a b := Float.ofBits (a.abs.toBits ||| (b.toBits &&& 0x8000000000000000))
  floor := Float.floor
  isNaN := Float.isNaN
  isFinite := Float.isFinite
  infinity := 1.0 / 0.0
  ofUnsigned := Float.ofNat
  toUnsigned a := a.toUInt64.toNat
  round a := a.round.toInt64.toInt

end LasecSimul

/-!
## `double` as exact binary64

The instance computes in the kernel, so runs on fixed inputs can be evaluated.
-/

namespace LasecSimul

open Lib.Binary

namespace Double

/-- The laws of IEEE comparisons. `le a a` says that `a` is no NaN. -/
class Ordered (R : Type) [Double R] : Prop where
  zero_le_zero : le (0.0 : R) 0.0 = true
  le_self_of_lt : ∀ {a b : R}, lt a b = true → le b b = true
  le_self_of_le : ∀ {a b : R}, le a b = true → le b b = true
  le_of_not_lt : ∀ {a b : R}, le a a = true → le b b = true → lt a b = false → le b a = true
  lt_of_le : ∀ {a b : R}, le a b = true → lt b a = false
  le_of_lt_of_le : ∀ {a b c : R}, lt a b = true → le b c = true → le a c = true
  lt_of_le_of_lt : ∀ {a b c : R}, le a b = true → lt b c = true → lt a c = true

variable {R : Type} [Double R] [Ordered R]

theorem foldl_max_number {α : Type} {values : α → R} {xs : List α} {start : R} (number : le start start = true) :
    le (xs.foldl (fun most x => max most (values x)) start) (xs.foldl (fun most x => max most (values x)) start) =
      true := by
  induction xs generalizing start with
  | nil => exact number
  | cons x xs ih =>
    apply ih
    unfold max
    dsimp only
    split
    · next above => exact Ordered.le_self_of_lt above
    · exact number

/-- A bound on a running maximum bounds every value, unless the value is a NaN. -/
theorem foldl_max_le {α : Type} {values : α → R} {xs : List α} {start bound : R}
    (le' : le (xs.foldl (fun most x => max most (values x)) start) bound = true) :
    le start bound = true ∧ ∀ x ∈ xs, lt bound (values x) = false := by
  induction xs generalizing start with
  | nil => exact ⟨le', by simp⟩
  | cons x xs ih =>
    obtain ⟨most, rest⟩ := ih le'
    simp only [max] at most
    by_cases above : lt start (values x) = true
    · rw [if_pos above] at most
      refine ⟨Ordered.le_of_lt_of_le above most, ?_⟩
      simpa [Ordered.lt_of_le most] using rest
    · rw [if_neg above] at most
      refine ⟨most, ?_⟩
      have below : lt bound (values x) = false := by
        by_contra exceeds
        exact above (Ordered.lt_of_le_of_lt most (by simpa using exceeds))
      simpa [below] using rest

end Double

namespace Binary64

/-- `std::pow` for a whole exponent; other powers are not used here. -/
def pow (base exponent : FloatValue) : FloatValue :=
  match base, exponent with
  | .finite negative magnitude, .finite sign power =>
    if power.den = 1 ∧ (magnitude ≠ 0 ∨ sign = false) then
      binary64.ofRat false (FloatValue.signed negative magnitude ^ (FloatValue.signed sign power).num)
    else .nan false
  | _, _ => .nan false

/-- Half away from zero. -/
def llround : FloatValue → Int
  | .finite negative magnitude => if negative then -⌊magnitude + 1 / 2⌋ else ⌊magnitude + 1 / 2⌋
  | _ => 0

def truncate : FloatValue → Nat
  | .finite false magnitude => ⌊magnitude⌋.toNat
  | _ => 0

instance : Double FloatValue where
  zero := .finite false 0
  one := .finite false 1
  add := binary64.add
  sub := binary64.sub
  neg value := value.withSign (!value.negative)
  mul := binary64.mul
  div := binary64.div
  ofScientific mantissa decimals exponent :=
    binary64.ofRat false (OfScientific.ofScientific mantissa decimals exponent : ℚ)
  lt := FloatValue.lt
  le := FloatValue.le
  eq := FloatValue.eq
  abs value := value.withSign false
  pow := pow
  copysign magnitude sign := magnitude.withSign sign.negative
  floor := FloatValue.floor
  isNaN
    | .nan _ => true
    | _ => false
  isFinite
    | .finite _ _ => true
    | _ => false
  infinity := .infinity false
  ofUnsigned n := binary64.ofRat false n
  toUnsigned := truncate
  round := llround

theorem lt_finite (a b : Bool) (x y : ℚ) :
    Double.lt (FloatValue.finite a x) (FloatValue.finite b y) =
      decide (FloatValue.signed a x < FloatValue.signed b y) := by
  show FloatValue.lt _ _ = _
  simp [FloatValue.lt, FloatValue.extended]

theorem ofUnsigned_eq {n : ℕ} (fits : n < 2 ^ 53) : (Double.ofUnsigned n : FloatValue) = .finite false n :=
  Format.ofRat_natCast fits (by decide) (by
    calc (n : ℚ) < 2 ^ 53 := by exact_mod_cast fits
      _ = 2 ^ (53 : ℤ) := (zpow_natCast 2 53).symm
      _ ≤ 2 ^ binary64.maxExponent := zpow_le_zpow_right₀ one_le_two (by decide))

theorem toUnsigned_ofUnsigned {n : ℕ} (fits : n < 2 ^ 53) : Double.toUnsigned (Double.ofUnsigned n : FloatValue) = n := by
  rw [ofUnsigned_eq fits]
  show ⌊(n : ℚ)⌋.toNat = n
  rw [Int.floor_natCast, Int.toNat_natCast]

theorem le_ofUnsigned {m n : ℕ} (left : m < 2 ^ 53) (right : n < 2 ^ 53) :
    Double.le (Double.ofUnsigned m : FloatValue) (Double.ofUnsigned n) = decide (m ≤ n) := by
  rw [ofUnsigned_eq left, ofUnsigned_eq right]
  show FloatValue.le _ _ = _
  simp [FloatValue.le, FloatValue.extended, FloatValue.signed]

theorem eq_ofUnsigned {m n : ℕ} (left : m < 2 ^ 53) (right : n < 2 ^ 53) :
    Double.eq (Double.ofUnsigned m : FloatValue) (Double.ofUnsigned n) = decide (m = n) := by
  rw [ofUnsigned_eq left, ofUnsigned_eq right]
  show FloatValue.eq _ _ = _
  simp [FloatValue.eq, FloatValue.extended, FloatValue.signed]

instance : Double.Ordered FloatValue where
  zero_le_zero := by decide +kernel
  le_self_of_lt := FloatValue.le_self_of_lt
  le_self_of_le := FloatValue.le_self_of_le
  le_of_not_lt := FloatValue.le_of_not_lt
  lt_of_le := FloatValue.lt_of_le
  le_of_lt_of_le := FloatValue.le_of_lt_of_le
  lt_of_le_of_lt := FloatValue.lt_of_le_of_lt

end Binary64

end LasecSimul
