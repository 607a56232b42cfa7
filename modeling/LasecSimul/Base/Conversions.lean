import LasecSimul.Lib.Numeral

/-!
# Conversions of texts to integers

`std::stoi` and its family read the longest front of the text that is a number and leave the rest unread.
`none` is an exception.
-/

namespace LasecSimul

open Lib.Numeral

/-- The width of `long`. -/
structure LongWidth where
  bits : Nat
  atLeast : 32 ≤ bits

/-- `static_cast` to a signed integer. -/
def wrapSigned (bits : Nat) (n : Int) : Int := Int.bmod n (2 ^ bits)

/-- `static_cast` to an unsigned integer. -/
def wrapUnsigned (bits : Nat) (n : Int) : Int := n % 2 ^ bits

def InSigned (bits : Nat) (n : Int) : Prop := -2 ^ (bits - 1) ≤ n ∧ n < 2 ^ (bits - 1)

def InUnsigned (bits : Nat) (n : Int) : Prop := 0 ≤ n ∧ n < 2 ^ bits

instance (bits : Nat) (n : Int) : Decidable (InSigned bits n) :=
  inferInstanceAs (Decidable (-2 ^ (bits - 1) ≤ n ∧ n < 2 ^ (bits - 1)))

instance (bits : Nat) (n : Int) : Decidable (InUnsigned bits n) :=
  inferInstanceAs (Decidable (0 ≤ n ∧ n < 2 ^ bits))

def stoSigned (bits : Nat) (text : Text) : Option Int :=
  match scanInteger 10 text with
  | some scanned => if InSigned bits scanned.value then some scanned.value else none
  | none => none

/-- `strtoul` negates what follows a minus sign in the unsigned type. -/
def stoUnsigned (bits base : Nat) (text : Text) : Option Int :=
  match scanInteger base text with
  | some scanned => if scanned.magnitude < 2 ^ bits then some (wrapUnsigned bits scanned.value) else none
  | none => none

def stoi (text : Text) : Option Int := stoSigned 32 text

def stol (long : LongWidth) (text : Text) : Option Int := stoSigned long.bits text

def stoll (text : Text) : Option Int := stoSigned 64 text

def stoul (long : LongWidth) (base : Nat) (text : Text) : Option Int := stoUnsigned long.bits base text

def stoull (base : Nat) (text : Text) : Option Int := stoUnsigned 64 base text

theorem wrapSigned_of_in {bits : Nat} (positive : 0 < bits) {n : Int} (inside : InSigned bits n) :
    wrapSigned bits n = n := by
  obtain ⟨low, high⟩ := inside
  have double : (2 : Int) ^ bits = 2 * 2 ^ (bits - 1) := by
    rw [← Int.pow_succ', Nat.sub_add_cancel positive]
  unfold wrapSigned
  apply Int.bmod_eq_of_le_mul_two <;> push_cast <;> omega

theorem wrapUnsigned_of_in {bits : Nat} {n : Int} (inside : InUnsigned bits n) : wrapUnsigned bits n = n :=
  Int.emod_eq_of_lt inside.1 inside.2

theorem wrapUnsigned_wrapUnsigned {narrow wide : Nat} (fits : narrow ≤ wide) (n : Int) :
    wrapUnsigned narrow (wrapUnsigned wide n) = wrapUnsigned narrow n :=
  Int.emod_emod_of_dvd n (pow_dvd_pow 2 fits)

theorem InSigned.mono {narrow wide : Nat} (fits : narrow ≤ wide) {n : Int} (inside : InSigned narrow n) :
    InSigned wide n := by
  have grows : (2 : Int) ^ (narrow - 1) ≤ 2 ^ (wide - 1) :=
    pow_le_pow_right₀ (by decide) (Nat.sub_le_sub_right fits 1)
  obtain ⟨low, high⟩ := inside
  exact ⟨by omega, by omega⟩

theorem InUnsigned.mono {narrow wide : Nat} (fits : narrow ≤ wide) {n : Int} (inside : InUnsigned narrow n) :
    InUnsigned wide n := by
  have grows : (2 : Int) ^ narrow ≤ 2 ^ wide := pow_le_pow_right₀ (by decide) fits
  exact ⟨inside.1, by have := inside.2; omega⟩

theorem stoSigned_exact {narrow wide : Nat} (fits : narrow ≤ wide) {text : Text} {scanned : Scanned}
    (reads : scanInteger 10 text = some scanned) (inside : InSigned narrow scanned.value) :
    stoSigned wide text = some scanned.value := by
  unfold stoSigned
  rw [reads]
  exact if_pos (inside.mono fits)

theorem stoUnsigned_exact {narrow wide base : Nat} (fits : narrow ≤ wide) {text : Text} {scanned : Scanned}
    (reads : scanInteger base text = some scanned) (inside : InUnsigned narrow scanned.value) :
    stoUnsigned wide base text = some scanned.value := by
  have within := inside.mono fits
  unfold stoUnsigned
  rw [reads]
  dsimp only
  rw [wrapUnsigned_of_in within]
  apply if_pos
  obtain ⟨low, high⟩ := within
  have bound : (scanned.magnitude : Int) < 2 ^ wide := by
    unfold Scanned.value at low high
    split at low
    · have positive : (0 : Int) < 2 ^ wide := by positivity
      omega
    · rename_i plus
      rw [if_neg plus] at high
      exact high
  exact_mod_cast bound

end LasecSimul
