import Mathlib.Algebra.Order.Round
import Mathlib.Data.Int.Log
import Mathlib.Data.Rat.Floor

/-!
# Binary floating-point formats

A value is a sign and an exact magnitude. `Format.nearest` rounds a magnitude to the format, ties to even;
it does not bound it from above.
-/

namespace LasecSimul.Lib.Binary

inductive FloatValue where
  | finite (negative : Bool) (magnitude : ℚ)
  | infinity (negative : Bool)
  | nan (negative : Bool)
  deriving DecidableEq

/-- The least bit of a subnormal has exponent `minExponent`; finite values are below `2 ^ maxExponent`. -/
structure Format where
  precision : Nat
  minExponent : Int
  maxExponent : Int

def binary32 : Format := { precision := 24, minExponent := -149, maxExponent := 128 }

def binary64 : Format := { precision := 53, minExponent := -1074, maxExponent := 1024 }

def roundHalfEven (x : ℚ) : ℤ :=
  if x - ⌊x⌋ < 1 / 2 then ⌊x⌋ else if 1 / 2 < x - ⌊x⌋ then ⌊x⌋ + 1 else ⌊x⌋ + ⌊x⌋ % 2

namespace Format

/-- The distance of two neighbours around `magnitude`. -/
def spacing (format : Format) (magnitude : ℚ) : ℚ :=
  2 ^ max (Int.log 2 magnitude - (format.precision - 1)) format.minExponent

def nearest (format : Format) (magnitude : ℚ) : ℚ :=
  roundHalfEven (magnitude / format.spacing magnitude) * format.spacing magnitude

def overflows (format : Format) (magnitude : ℚ) : Bool := 2 ^ format.maxExponent ≤ format.nearest magnitude

/-- The result is below the normal range and inexact. -/
def underflows (format : Format) (magnitude : ℚ) : Bool :=
  format.nearest magnitude < 2 ^ (format.minExponent + format.precision - 1) ∧ format.nearest magnitude ≠ magnitude

/-- The conversion of a value to the format. -/
def convert (format : Format) : FloatValue → FloatValue
  | .finite negative magnitude =>
    if format.overflows magnitude then .infinity negative else .finite negative (format.nearest magnitude)
  | value => value

/-! ### Rounding twice -/

variable {format : Format} {x : ℚ} {n : ℤ}

theorem roundHalfEven_intCast (n : ℤ) : roundHalfEven n = n := by
  unfold roundHalfEven
  rw [Int.floor_intCast, sub_self, if_pos (by norm_num)]

theorem roundHalfEven_le (below : x < n) : roundHalfEven x ≤ n := by
  have floor := Int.floor_lt.mpr below
  unfold roundHalfEven
  split
  · omega
  · split <;> omega

theorem floor_le_roundHalfEven (x : ℚ) : ⌊x⌋ ≤ roundHalfEven x := by
  unfold roundHalfEven
  split
  · omega
  · split <;> omega

theorem roundHalfEven_nonneg (nonneg : 0 ≤ x) : 0 ≤ roundHalfEven x := by
  have floor := Int.floor_nonneg.mpr nonneg
  unfold roundHalfEven
  split
  · omega
  · split <;> omega

theorem roundHalfEven_small (nonneg : 0 ≤ x) (small : x < 1 / 2) : roundHalfEven x = 0 := by
  have floor : ⌊x⌋ = 0 := Int.floor_eq_zero_iff.mpr ⟨nonneg, small.trans (by norm_num)⟩
  unfold roundHalfEven
  rw [floor, Int.cast_zero, sub_zero, if_pos small]

theorem spacing_pos (x : ℚ) : 0 < format.spacing x := zpow_pos (by norm_num) _

theorem nearest_nonneg (nonneg : 0 ≤ x) : 0 ≤ format.nearest x :=
  mul_nonneg (Int.cast_nonneg (roundHalfEven_nonneg (div_nonneg nonneg (spacing_pos x).le))) (spacing_pos x).le

theorem nearest_le (x : ℚ) : format.nearest x ≤ x + format.spacing x := by
  have positive : 0 < format.spacing x := spacing_pos x
  have above : roundHalfEven (x / format.spacing x) ≤ ⌊x / format.spacing x⌋ + 1 :=
    roundHalfEven_le (by rw [Int.cast_add, Int.cast_one]; exact Int.lt_floor_add_one _)
  have near : (roundHalfEven (x / format.spacing x) : ℚ) ≤ x / format.spacing x + 1 :=
    (Int.cast_le.mpr above).trans (by rw [Int.cast_add, Int.cast_one]; linarith [Int.floor_le (x / format.spacing x)])
  calc format.nearest x ≤ (x / format.spacing x + 1) * format.spacing x :=
        mul_le_mul_of_nonneg_right near positive.le
    _ = x + format.spacing x := by rw [add_mul, one_mul, div_mul_cancel₀ x positive.ne']

theorem le_nearest (x : ℚ) : x - format.spacing x ≤ format.nearest x := by
  have positive : 0 < format.spacing x := spacing_pos x
  have near : x / format.spacing x - 1 ≤ roundHalfEven (x / format.spacing x) :=
    (Int.sub_one_lt_floor _).le.trans (Int.cast_le.mpr (floor_le_roundHalfEven _))
  calc x - format.spacing x = (x / format.spacing x - 1) * format.spacing x := by
        rw [sub_mul, one_mul, div_mul_cancel₀ x positive.ne']
    _ ≤ format.nearest x := mul_le_mul_of_nonneg_right near positive.le

theorem spacing_le (positive : 0 < x) (normal : format.minExponent ≤ Int.log 2 x - (format.precision - 1)) :
    format.spacing x ≤ x * 2 ^ (1 - (format.precision : ℤ)) := by
  have binade : ((2 : ℕ) : ℚ) ^ Int.log 2 x ≤ x := Int.zpow_log_le_self (by norm_num) positive
  unfold spacing
  rw [max_eq_left normal, sub_eq_add_neg, zpow_add₀ (by norm_num), neg_sub]
  exact mul_le_mul_of_nonneg_right (by exact_mod_cast binade) (zpow_pos (by norm_num) _).le

theorem nearest_multiple (multiple : x = n * format.spacing x) : format.nearest x = x := by
  unfold nearest
  have quotient : x / format.spacing x = n := (div_eq_iff (spacing_pos x).ne').mpr multiple
  rw [quotient, roundHalfEven_intCast, ← multiple]

/-- A rounded value is a multiple of its own spacing: it is of the binade of `x`, or the next power of two. -/
theorem nearest_nearest (precise : 0 < format.precision) (nonneg : 0 ≤ x) :
    format.nearest (format.nearest x) = format.nearest x := by
  rcases nonneg.eq_or_lt with rfl | positive
  · have zero : format.nearest 0 = 0 := nearest_multiple (n := 0) (by simp)
    rw [zero, zero]
  set L := Int.log 2 x with hL
  set e := max (L - (format.precision - 1)) format.minExponent with he
  have spacing : format.spacing x = 2 ^ e := rfl
  set r := roundHalfEven (x / 2 ^ e) with hr
  have value : format.nearest x = r * 2 ^ e := rfl
  have above : x < 2 ^ (L + 1) := Int.lt_zpow_succ_log_self (by decide) x
  have two : (0 : ℚ) < 2 := by norm_num
  have r_nonneg : 0 ≤ r := roundHalfEven_nonneg (div_nonneg nonneg (zpow_pos two e).le)
  rcases r_nonneg.eq_or_lt with r_zero | r_pos
  · rw [value, ← r_zero]
    exact nearest_multiple (n := 0) (by simp)
  have inside : e ≤ L + 1 := by
    by_contra outside
    have small : x / 2 ^ e < 1 / 2 := by
      rw [div_lt_iff₀ (zpow_pos two e)]
      calc x < 2 ^ (L + 1) := above
        _ ≤ 2 ^ (e - 1) := zpow_le_zpow_right₀ (by norm_num) (by omega)
        _ = 1 / 2 * 2 ^ e := by rw [zpow_sub_one₀ two.ne']; ring
    have zero := roundHalfEven_small (div_nonneg nonneg (zpow_pos two e).le) small
    omega
  obtain ⟨k, hk⟩ := Int.le.dest inside
  have whole : (2 : ℚ) ^ (L + 1) = ((2 ^ k : ℤ) : ℚ) * 2 ^ e := by
    rw [← hk, zpow_add₀ two.ne', zpow_natCast]
    push_cast
    ring
  have r_le : r ≤ 2 ^ k := by
    apply roundHalfEven_le
    rwa [div_lt_iff₀ (zpow_pos two e), ← whole]
  have y_pos : (0 : ℚ) < r * 2 ^ e := mul_pos (by exact_mod_cast r_pos) (zpow_pos two e)
  rw [value]
  rcases lt_or_ge ((r : ℚ) * 2 ^ e) (2 ^ (L + 1)) with same | next
  · have log : Int.log 2 ((r : ℚ) * 2 ^ e) ≤ L := by
      have := (Int.lt_zpow_iff_log_lt (b := 2) (by decide) y_pos).mp (by exact_mod_cast same)
      omega
    have smaller : max (Int.log 2 ((r : ℚ) * 2 ^ e) - (format.precision - 1)) format.minExponent ≤ e := by omega
    obtain ⟨j, hj⟩ := Int.le.dest smaller
    refine nearest_multiple (n := r * 2 ^ j) ?_
    unfold Format.spacing
    conv_lhs => rw [← hj, zpow_add₀ two.ne', zpow_natCast]
    push_cast
    ring
  · have top : (r : ℚ) * 2 ^ e = 2 ^ (L + 1) := by
      refine le_antisymm ?_ next
      rw [whole]
      exact mul_le_mul_of_nonneg_right (by exact_mod_cast r_le) (zpow_pos two e).le
    have log : Int.log 2 ((2 : ℚ) ^ (L + 1)) = L + 1 := Int.log_zpow (R := ℚ) (by decide) (L + 1)
    have below : max (L + 1 - (format.precision - 1)) format.minExponent ≤ L + 1 := by omega
    obtain ⟨j, hj⟩ := Int.le.dest below
    rw [top]
    refine nearest_multiple (n := 2 ^ j) ?_
    unfold Format.spacing
    rw [log]
    conv_lhs => rw [← hj, zpow_add₀ two.ne', zpow_natCast]
    push_cast
    ring

theorem convert_convert (precise : 0 < format.precision) {negative : Bool} (nonneg : 0 ≤ x) :
    format.convert (format.convert (.finite negative x)) = format.convert (.finite negative x) := by
  by_cases exceeds : format.overflows x = true
  · have first : format.convert (.finite negative x) = .infinity negative := if_pos exceeds
    rw [first]
    rfl
  · have first : format.convert (.finite negative x) = .finite negative (format.nearest x) := if_neg exceeds
    have same : format.overflows (format.nearest x) = format.overflows x := by
      unfold overflows
      rw [nearest_nearest precise nonneg]
    have second : format.convert (.finite negative (format.nearest x)) =
        .finite negative (format.nearest (format.nearest x)) := if_neg (same ▸ exceeds)
    rw [first, second, nearest_nearest precise nonneg]

end Format

end LasecSimul.Lib.Binary
