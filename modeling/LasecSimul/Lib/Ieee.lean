import LasecSimul.Lib.Binary
import Mathlib.Order.WithBot

/-!
# Arithmetic of a binary format

Results are exact rationals rounded to the format, with the signs of zeros and the special values of
IEEE 754 arithmetic. A comparison with a NaN is false.
-/

namespace LasecSimul.Lib.Binary

namespace FloatValue

def negative : FloatValue → Bool
  | .finite negative _ | .infinity negative | .nan negative => negative

def withSign (negative : Bool) : FloatValue → FloatValue
  | .finite _ magnitude => .finite negative magnitude
  | .infinity _ => .infinity negative
  | .nan _ => .nan negative

def signed (negative : Bool) (magnitude : ℚ) : ℚ := if negative then -magnitude else magnitude

/-- The value as an extended rational; a NaN has none. -/
def extended : FloatValue → Option (WithBot (WithTop ℚ))
  | .finite negative magnitude => some ((signed negative magnitude : WithTop ℚ) : WithBot (WithTop ℚ))
  | .infinity true => some ⊥
  | .infinity false => some ((⊤ : WithTop ℚ) : WithBot (WithTop ℚ))
  | .nan _ => none

def lt (a b : FloatValue) : Bool :=
  match a.extended, b.extended with
  | some x, some y => x < y
  | _, _ => false

def le (a b : FloatValue) : Bool :=
  match a.extended, b.extended with
  | some x, some y => x ≤ y
  | _, _ => false

def eq (a b : FloatValue) : Bool :=
  match a.extended, b.extended with
  | some x, some y => x = y
  | _, _ => false

theorem lt_iff {a b : FloatValue} : a.lt b = true ↔ ∃ x y, a.extended = some x ∧ b.extended = some y ∧ x < y := by
  unfold lt
  cases a.extended with
  | none => exact ⟨nofun, fun ⟨_, _, found, _⟩ => nomatch found⟩
  | some x =>
    cases b.extended with
    | none => exact ⟨nofun, fun ⟨_, _, _, found, _⟩ => nomatch found⟩
    | some y =>
      constructor
      · exact fun less => ⟨x, y, rfl, rfl, of_decide_eq_true less⟩
      · rintro ⟨_, _, first, second, less⟩
        cases first
        cases second
        exact decide_eq_true less

theorem le_iff {a b : FloatValue} : a.le b = true ↔ ∃ x y, a.extended = some x ∧ b.extended = some y ∧ x ≤ y := by
  unfold le
  cases a.extended with
  | none => exact ⟨nofun, fun ⟨_, _, found, _⟩ => nomatch found⟩
  | some x =>
    cases b.extended with
    | none => exact ⟨nofun, fun ⟨_, _, _, found, _⟩ => nomatch found⟩
    | some y =>
      constructor
      · exact fun ordered => ⟨x, y, rfl, rfl, of_decide_eq_true ordered⟩
      · rintro ⟨_, _, first, second, ordered⟩
        cases first
        cases second
        exact decide_eq_true ordered

theorem le_self_of_lt {a b : FloatValue} (lt : a.lt b = true) : b.le b = true := by
  rw [lt_iff] at lt
  rw [le_iff]
  obtain ⟨_, y, _, right, _⟩ := lt
  exact ⟨y, y, right, right, le_refl y⟩

theorem le_self_of_le {a b : FloatValue} (le : a.le b = true) : b.le b = true := by
  rw [le_iff] at le ⊢
  obtain ⟨_, y, _, right, _⟩ := le
  exact ⟨y, y, right, right, le_refl y⟩

theorem le_of_not_lt {a b : FloatValue} (left : a.le a = true) (right : b.le b = true) (not : a.lt b = false) :
    b.le a = true := by
  rw [le_iff] at left right ⊢
  obtain ⟨x, _, first, _⟩ := left
  obtain ⟨y, _, second, _⟩ := right
  exact ⟨y, x, second, first, by simpa [lt, first, second] using not⟩

theorem lt_of_le {a b : FloatValue} (le : a.le b = true) : b.lt a = false := by
  rw [le_iff] at le
  obtain ⟨x, y, left, right, ordered⟩ := le
  simp [lt, left, right, ordered]

theorem le_of_lt_of_le {a b c : FloatValue} (first : a.lt b = true) (second : b.le c = true) : a.le c = true := by
  rw [lt_iff] at first
  rw [le_iff] at second ⊢
  obtain ⟨x, y, left, middle, below⟩ := first
  obtain ⟨y', z, middle', right, ordered⟩ := second
  obtain rfl := Option.some.inj (middle.symm.trans middle')
  exact ⟨x, z, left, right, (below.trans_le ordered).le⟩

theorem lt_of_le_of_lt {a b c : FloatValue} (first : a.le b = true) (second : b.lt c = true) : a.lt c = true := by
  rw [le_iff] at first
  rw [lt_iff] at second ⊢
  obtain ⟨x, y, left, middle, ordered⟩ := first
  obtain ⟨y', z, middle', right, below⟩ := second
  obtain rfl := Option.some.inj (middle.symm.trans middle')
  exact ⟨x, z, left, right, ordered.trans_lt below⟩

def floor : FloatValue → FloatValue
  | .finite negative magnitude => .finite negative |(⌊signed negative magnitude⌋ : ℚ)|
  | value => value

end FloatValue

namespace Format

variable (format : Format)

/-- The rounded value of `x`; a result that is zero has the sign `zero`. -/
def ofRat (zero : Bool) (x : ℚ) : FloatValue :=
  format.convert (.finite (if x = 0 then zero else decide (x < 0)) |x|)

def add : FloatValue → FloatValue → FloatValue
  | .nan negative, _ | _, .nan negative => .nan negative
  | .infinity left, .infinity right => if left = right then .infinity left else .nan false
  | .infinity negative, _ | _, .infinity negative => .infinity negative
  | .finite left a, .finite right b =>
    format.ofRat (left && right) (FloatValue.signed left a + FloatValue.signed right b)

def sub (a b : FloatValue) : FloatValue := format.add a (b.withSign (!b.negative))

def mul : FloatValue → FloatValue → FloatValue
  | .nan negative, _ | _, .nan negative => .nan negative
  | .infinity left, .infinity right => .infinity (left != right)
  | .infinity left, .finite right b => if b = 0 then .nan false else .infinity (left != right)
  | .finite left a, .infinity right => if a = 0 then .nan false else .infinity (left != right)
  | .finite left a, .finite right b => format.convert (.finite (left != right) (a * b))

def div : FloatValue → FloatValue → FloatValue
  | .nan negative, _ | _, .nan negative => .nan negative
  | .infinity _, .infinity _ => .nan false
  | .infinity left, .finite right _ => .infinity (left != right)
  | .finite left _, .infinity right => .finite (left != right) 0
  | .finite left a, .finite right b =>
    if b = 0 then if a = 0 then .nan false else .infinity (left != right)
    else format.convert (.finite (left != right) (a / b))

/-- The root of `x` to the nearest whole number, ties to even. -/
def roundedRoot (x : ℚ) : ℕ :=
  let below := ⌊x⌋.toNat.sqrt
  let middle : ℚ := (below + 1 / 2) ^ 2
  if middle < x ∨ middle = x ∧ below % 2 = 1 then below + 1 else below

/-- The distance of two neighbours around the root of `magnitude`. -/
def rootSpacing (magnitude : ℚ) : ℚ :=
  2 ^ max (Int.log 2 magnitude / 2 - (format.precision - 1)) format.minExponent

def sqrt : FloatValue → FloatValue
  | .finite negative magnitude =>
    if magnitude = 0 then .finite negative 0
    else if FloatValue.signed negative magnitude < 0 then .nan false
    else .finite false (roundedRoot (|magnitude| / format.rootSpacing magnitude ^ 2) * format.rootSpacing magnitude)
  | .infinity negative => if negative then .nan false else .infinity false
  | .nan negative => .nan negative

example : binary64.sqrt (.finite false 2) = .finite false (6369051672525773 / 2 ^ 52) := by decide +kernel

/-! ### Whole numbers -/

variable {format} {x : ℚ}

/-- A whole number of at most `precision` bits is exact. -/
theorem nearest_natCast {n : ℕ} (fits : n < 2 ^ format.precision) (whole : format.minExponent ≤ 0) :
    format.nearest n = n := by
  rcases Nat.eq_zero_or_pos n with rfl | positive
  · exact nearest_multiple (n := 0) (by simp)
  have bits : Nat.log 2 n < format.precision := Nat.log_lt_of_lt_pow positive.ne' fits
  obtain ⟨k, exponent⟩ : ∃ k : ℕ, max (Int.log 2 (n : ℚ) - (format.precision - 1)) format.minExponent = -(k : ℤ) := by
    refine ⟨(-max (Int.log 2 (n : ℚ) - (format.precision - 1)) format.minExponent).toNat, ?_⟩
    rw [Int.log_natCast]
    omega
  apply nearest_multiple (n := n * 2 ^ k)
  unfold spacing
  rw [exponent, zpow_neg, zpow_natCast]
  push_cast
  exact (mul_inv_cancel_right₀ (by positivity) _).symm

theorem ofRat_natCast {n : ℕ} (fits : n < 2 ^ format.precision) (whole : format.minExponent ≤ 0)
    (range : (n : ℚ) < 2 ^ format.maxExponent) : format.ofRat false n = .finite false n := by
  have exact' := nearest_natCast fits whole
  have within : ¬ format.overflows |(n : ℚ)| = true := by
    rw [Nat.abs_cast, overflows, exact']
    simpa using range
  have positive : (if (n : ℚ) = 0 then false else decide ((n : ℚ) < 0)) = false := by
    simp
  rw [ofRat, positive, convert, if_neg within, Nat.abs_cast, exact']

/-- The whole part of a rounded value needs no further rounding. -/
theorem nearest_floor (precise : 1 < format.precision) (whole : format.minExponent ≤ 0) (nonneg : 0 ≤ x) :
    format.nearest ⌊format.nearest x⌋ = ⌊format.nearest x⌋ := by
  rcases nonneg.eq_or_lt with rfl | positive
  · simp [nearest, roundHalfEven]
  by_cases coarse : 0 ≤ max (Int.log 2 x - (format.precision - 1)) format.minExponent
  · obtain ⟨e, exponent⟩ := Int.eq_ofNat_of_zero_le coarse
    have integer : format.nearest x = ((roundHalfEven (x / format.spacing x) * 2 ^ e : ℤ) : ℚ) := by
      unfold nearest
      push_cast
      congr 1
      unfold spacing
      rw [exponent]
      exact zpow_natCast 2 e
    have same : (⌊format.nearest x⌋ : ℚ) = format.nearest x := by
      rw [integer, Int.floor_intCast]
    rw [same, nearest_nearest (by omega) nonneg]
  · have small : max (Int.log 2 x - (format.precision - 1)) format.minExponent ≤ 0 := by omega
    have logarithm : Int.log 2 x + 1 ≤ ((format.precision - 1 : ℕ) : ℤ) := by omega
    have below : x < 2 ^ (format.precision - 1) := by
      have self : x < ((2 : ℕ) : ℚ) ^ (Int.log 2 x + 1) := Int.lt_zpow_succ_log_self one_lt_two x
      calc x < 2 ^ (Int.log 2 x + 1) := by exact_mod_cast self
        _ ≤ 2 ^ ((format.precision - 1 : ℕ) : ℤ) := zpow_le_zpow_right₀ one_le_two logarithm
        _ = 2 ^ (format.precision - 1) := zpow_natCast 2 _
    have step : format.spacing x ≤ 1 := zpow_le_one_of_nonpos₀ one_le_two small
    have power : (1 : ℚ) ≤ 2 ^ (format.precision - 1) := one_le_pow₀ one_le_two
    have twice : (2 : ℚ) ^ format.precision = 2 * 2 ^ (format.precision - 1) := by
      rw [← pow_succ', Nat.sub_add_cancel (by omega)]
    have bound : format.nearest x < 2 ^ format.precision := by
      have above : format.nearest x ≤ x + format.spacing x := nearest_le x
      linarith
    have nonneg' : 0 ≤ format.nearest x := nearest_nonneg nonneg
    obtain ⟨n, natural⟩ := Int.eq_ofNat_of_zero_le (Int.floor_nonneg.mpr nonneg')
    have fits : n < 2 ^ format.precision := by
      have floor : ((n : ℤ) : ℚ) ≤ format.nearest x := by
        rw [← natural]
        exact Int.floor_le _
      exact_mod_cast floor.trans_lt bound
    rw [natural]
    exact_mod_cast nearest_natCast fits whole

/-- A whole number rounds to a whole number. -/
theorem nearest_whole (n : ℕ) (whole : format.minExponent ≤ 0) : ∃ m : ℕ, format.nearest n = m := by
  by_cases fits : n < 2 ^ format.precision
  · exact ⟨n, nearest_natCast fits whole⟩
  have bits : format.precision ≤ Nat.log 2 n :=
    (Nat.le_log_iff_pow_le one_lt_two (by have := Nat.two_pow_pos format.precision; omega)).mpr (not_lt.mp fits)
  obtain ⟨e, exponent⟩ : ∃ e : ℕ, max (Int.log 2 (n : ℚ) - (format.precision - 1)) format.minExponent = e := by
    refine ⟨(max (Int.log 2 (n : ℚ) - (format.precision - 1)) format.minExponent).toNat, ?_⟩
    rw [Int.log_natCast]
    omega
  have quotient : 0 ≤ roundHalfEven (n / format.spacing n) :=
    roundHalfEven_nonneg (div_nonneg (Nat.cast_nonneg _) (spacing_pos _).le)
  obtain ⟨m, natural⟩ := Int.eq_ofNat_of_zero_le quotient
  refine ⟨m * 2 ^ e, ?_⟩
  have step : format.spacing n = 2 ^ e := by
    unfold spacing
    rw [exponent]
    exact zpow_natCast 2 e
  rw [nearest, natural, step]
  push_cast
  rfl

end Format

end LasecSimul.Lib.Binary

/-!
## Bits of a binary format

The interchange encoding of a format: a sign, the field of the exponent and the field of the fraction. A finite value
survives the way to its bits and back, and the way through a wider format.
-/

namespace LasecSimul.Lib.Binary

namespace FloatValue

def isFinite : FloatValue → Bool
  | .finite _ _ => true
  | _ => false

/-- Towards zero. -/
def truncate : FloatValue → ℤ
  | .finite negative magnitude => if negative then -⌊magnitude⌋ else ⌊magnitude⌋
  | _ => 0

/-- A whole number, exactly. -/
def ofInt (n : ℤ) : FloatValue := .finite (n < 0) |(n : ℚ)|

theorem truncate_ofInt (n : ℤ) : (ofInt n).truncate = n := by
  have magnitude : ⌊|(n : ℚ)|⌋ = |n| := by rw [← Int.cast_abs, Int.floor_intCast]
  unfold ofInt truncate
  dsimp only
  rw [magnitude]
  by_cases negative : n < 0
  · rw [if_pos (by simpa using negative), abs_of_neg negative, neg_neg]
  · rw [if_neg (by simpa using negative), abs_of_nonneg (by omega)]

end FloatValue

namespace Format

variable (format : Format)

/-- How many fractions there are. -/
def fractions : Nat := 2 ^ (format.precision - 1)

/-- How many values the field of the exponent has. -/
def exponents : Nat := 2 * format.maxExponent.toNat

/-- The value with these bits. -/
def unpack (bits : Nat) : FloatValue :=
  let fraction := bits % format.fractions
  let exponent := bits / format.fractions % format.exponents
  let negative := bits / format.fractions / format.exponents == 1
  if exponent + 1 = format.exponents then if fraction = 0 then .infinity negative else .nan negative
  else if exponent = 0 then .finite negative (fraction * 2 ^ format.minExponent)
  else .finite negative ((format.fractions + fraction : ℕ) * 2 ^ (format.minExponent + exponent - 1))

def signBits (negative : Bool) : Nat := if negative then format.exponents * format.fractions else 0

/-- The fields of a finite value, the exponent's counted from the subnormals on. -/
def magnitudeBits (magnitude : ℚ) : Nat :=
  if magnitude = 0 then 0
  else
    (max (Int.log 2 magnitude - (format.precision - 1)) format.minExponent - format.minExponent).toNat * format.fractions +
      ⌊magnitude / format.spacing magnitude⌋.toNat

/-- The bits of a value of the format. -/
def pack : FloatValue → Nat
  | .finite negative magnitude => format.signBits negative + format.magnitudeBits magnitude
  | .infinity negative => format.signBits negative + (format.exponents - 1) * format.fractions
  | .nan negative => format.signBits negative + (format.exponents - 1) * format.fractions + format.fractions / 2

section Exact

variable {format : Format} {k : ℕ} {e : ℤ}

theorem log_scaled (positive : 0 < k) : Int.log 2 ((k : ℚ) * 2 ^ e) = Nat.log 2 k + e := by
  have low : (2 : ℚ) ^ (Nat.log 2 k : ℤ) ≤ k := by
    rw [zpow_natCast]
    exact_mod_cast Nat.pow_log_le_self 2 positive.ne'
  have high : (k : ℚ) < 2 ^ (Nat.log 2 k + 1 : ℤ) := by
    rw [show (Nat.log 2 k + 1 : ℤ) = ((Nat.log 2 k + 1 : ℕ) : ℤ) from rfl, zpow_natCast]
    exact_mod_cast Nat.lt_pow_succ_log_self (by decide) k
  have two : (2 : ℚ) ≠ 0 := by norm_num
  have scale : (0 : ℚ) < 2 ^ e := zpow_pos (by norm_num) e
  have value : (0 : ℚ) < k * 2 ^ e := mul_pos (by exact_mod_cast positive) scale
  refine le_antisymm ?_ ?_
  · have below : (k : ℚ) * 2 ^ e < 2 ^ (Nat.log 2 k + e + 1 : ℤ) := by
      rw [show (Nat.log 2 k + e + 1 : ℤ) = Nat.log 2 k + 1 + e by ring, zpow_add₀ two]
      exact mul_lt_mul_of_pos_right high scale
    have := (Int.lt_zpow_iff_log_lt (b := 2) (by decide) value).mp (by exact_mod_cast below)
    omega
  · have above : (2 : ℚ) ^ (Nat.log 2 k + e : ℤ) ≤ k * 2 ^ e := by
      rw [zpow_add₀ two]
      exact mul_le_mul_of_nonneg_right low scale.le
    exact (Int.zpow_le_iff_le_log (b := 2) (by decide) value).mp (by exact_mod_cast above)

/-- A number of units that the precision holds is not rounded. -/
theorem nearest_exact (small : k < 2 ^ format.precision) (low : format.minExponent ≤ e) :
    format.nearest (k * 2 ^ e) = k * 2 ^ e := by
  rcases Nat.eq_zero_or_pos k with rfl | positive
  · exact nearest_multiple (n := 0) (by simp)
  have log := log_scaled (e := e) positive
  have bits : Nat.log 2 k < format.precision := Nat.log_lt_of_lt_pow positive.ne' small
  have unit : max (Int.log 2 ((k : ℚ) * 2 ^ e) - (format.precision - 1)) format.minExponent ≤ e := by
    rw [log]
    omega
  obtain ⟨j, shift⟩ := Int.le.dest unit
  refine nearest_multiple (n := k * 2 ^ j) ?_
  unfold spacing
  conv_lhs => rw [← shift, zpow_add₀ (by norm_num), zpow_natCast]
  push_cast
  ring

theorem convert_exact {negative : Bool} (small : k < 2 ^ format.precision) (low : format.minExponent ≤ e)
    (high : (k : ℚ) * 2 ^ e < 2 ^ format.maxExponent) :
    format.convert (.finite negative (k * 2 ^ e)) = .finite negative (k * 2 ^ e) := by
  have exact_ : format.nearest (k * 2 ^ e) = k * 2 ^ e := nearest_exact small low
  have fits : format.overflows (k * 2 ^ e) = false := by
    unfold overflows
    rw [exact_]
    exact decide_eq_false (not_le.mpr high)
  show (if format.overflows _ then _ else _) = _
  rw [fits, exact_]
  rfl

end Exact

section Bits

variable {format : Format} {k bits : ℕ} {e : ℤ}

theorem fractions_pos (format : Format) : 0 < format.fractions := Nat.pow_pos (by decide)

theorem two_fractions (precise : 0 < format.precision) : 2 ^ format.precision = 2 * format.fractions := by
  obtain ⟨less, same⟩ : ∃ less, format.precision = less + 1 := ⟨format.precision - 1, by omega⟩
  unfold fractions
  rw [same, Nat.add_sub_cancel, Nat.pow_succ, Nat.mul_comm]

/-- A finite value is a number of units, full unless the unit is the least. -/
structure Units (format : Format) (bits k : ℕ) (e : ℤ) : Prop where
  value : format.unpack bits = .finite (bits / format.fractions / format.exponents == 1) (k * 2 ^ e)
  small : k < 2 ^ format.precision
  low : format.minExponent ≤ e
  high : e = format.minExponent ∨ e + 3 ≤ format.minExponent + format.exponents
  normal : format.fractions ≤ k ∨ e = format.minExponent
  fields : bits / format.fractions % format.exponents * format.fractions + bits % format.fractions =
    (e - format.minExponent).toNat * format.fractions + k

theorem exists_units (precise : 0 < format.precision) (ranged : 0 < format.exponents)
    (finite : (format.unpack bits).isFinite = true) :
    ∃ k e, Units format bits k e := by
  have fraction : bits % format.fractions < format.fractions := Nat.mod_lt _ (fractions_pos format)
  have twice := two_fractions precise
  have infinite : bits / format.fractions % format.exponents + 1 ≠ format.exponents := by
    intro top
    unfold unpack at finite
    dsimp only at finite
    rw [if_pos top] at finite
    split at finite <;> cases finite
  by_cases subnormal : bits / format.fractions % format.exponents = 0
  · refine ⟨bits % format.fractions, format.minExponent, ?_, by omega, le_refl _, .inl rfl, .inr rfl, ?_⟩
    · unfold unpack
      dsimp only
      rw [if_neg infinite, if_pos subnormal]
    · rw [subnormal]
      simp
  · have field : bits / format.fractions % format.exponents < format.exponents := Nat.mod_lt _ ranged
    refine ⟨format.fractions + bits % format.fractions,
      format.minExponent + (bits / format.fractions % format.exponents : ℕ) - 1, ?_, by omega, by omega,
      .inr (by omega), .inl (Nat.le_add_right _ _), ?_⟩
    · unfold unpack
      dsimp only
      rw [if_neg infinite, if_neg subnormal]
    · obtain ⟨field', shifted⟩ : ∃ field', bits / format.fractions % format.exponents = field' + 1 :=
        ⟨bits / format.fractions % format.exponents - 1, by omega⟩
      rw [shifted, show (format.minExponent + ((field' + 1 : ℕ) : ℤ) - 1 - format.minExponent).toNat = field' by omega,
        Nat.succ_mul]
      omega

theorem magnitudeBits_scaled (precise : 0 < format.precision) (small : k < 2 ^ format.precision)
    (low : format.minExponent ≤ e) (normal : format.fractions ≤ k ∨ e = format.minExponent) :
    format.magnitudeBits (k * 2 ^ e) = if k = 0 then 0 else (e - format.minExponent).toNat * format.fractions + k := by
  have scale : (0 : ℚ) < 2 ^ e := zpow_pos (by norm_num) e
  unfold magnitudeBits
  rcases Nat.eq_zero_or_pos k with rfl | positive
  · rw [if_pos (by simp), if_pos rfl]
  have value : (0 : ℚ) < k * 2 ^ e := mul_pos (by exact_mod_cast positive) scale
  have bits : Nat.log 2 k < format.precision := Nat.log_lt_of_lt_pow positive.ne' small
  have log := log_scaled (e := e) positive
  have unit : max (Int.log 2 ((k : ℚ) * 2 ^ e) - (format.precision - 1)) format.minExponent = e := by
    rw [log]
    rcases normal with full | least
    · have : format.precision - 1 ≤ Nat.log 2 k := Nat.le_log_of_pow_le (by decide) full
      omega
    · omega
  have spacing : format.spacing (k * 2 ^ e) = 2 ^ e := by
    unfold Format.spacing
    rw [unit]
  rw [if_neg value.ne', if_neg positive.ne', unit, spacing, mul_div_cancel_right₀ _ scale.ne', Int.floor_natCast,
    Int.toNat_natCast]

theorem pack_unpack (precise : 0 < format.precision) (ranged : 0 < format.exponents)
    (finite : (format.unpack bits).isFinite = true) (small : bits < 2 * (format.exponents * format.fractions)) :
    format.pack (format.unpack bits) = bits := by
  obtain ⟨k, e, units⟩ := exists_units precise ranged finite
  rw [units.value]
  show format.signBits _ + format.magnitudeBits _ = bits
  have magnitude : format.magnitudeBits (k * 2 ^ e) = (e - format.minExponent).toNat * format.fractions + k := by
    rw [magnitudeBits_scaled precise units.small units.low units.normal]
    split
    · rename_i empty
      have positive := fractions_pos format
      have least : e = format.minExponent := units.normal.resolve_left (by omega)
      rw [least, empty, sub_self]
      simp
    · rfl
  have upper : bits / format.fractions / format.exponents < 2 := by
    rw [Nat.div_div_eq_div_mul, Nat.div_lt_iff_lt_mul (Nat.mul_pos (fractions_pos format) ranged), Nat.mul_comm format.fractions]
    exact small
  have sign : format.signBits (bits / format.fractions / format.exponents == 1) =
      bits / format.fractions / format.exponents * (format.exponents * format.fractions) := by
    unfold signBits
    rcases Nat.lt_succ_iff_lt_or_eq.mp upper with zero | one
    · rw [Nat.lt_one_iff.mp zero]
      simp
    · rw [one]
      simp
  have whole : bits = bits / format.fractions * format.fractions + bits % format.fractions :=
    (Nat.div_add_mod' bits format.fractions).symm
  have upperFields : bits / format.fractions =
      bits / format.fractions / format.exponents * format.exponents + bits / format.fractions % format.exponents :=
    (Nat.div_add_mod' _ _).symm
  rw [magnitude, ← units.fields, sign, ← Nat.mul_assoc, ← Nat.add_assoc, ← Nat.add_mul, ← upperFields, ← whole]

/-- A wider format has the value as it is. -/
theorem convert_unpack {wide : Format} (precise : 0 < format.precision) (ranged : 0 < format.exponents)
    (finite : (format.unpack bits).isFinite = true)
    (bound : format.minExponent + format.exponents + format.precision - 3 ≤ format.maxExponent)
    (least : format.minExponent + format.precision ≤ format.maxExponent)
    (precision : format.precision ≤ wide.precision) (low : wide.minExponent ≤ format.minExponent)
    (high : format.maxExponent ≤ wide.maxExponent) :
    wide.convert (format.unpack bits) = format.unpack bits := by
  obtain ⟨k, e, units⟩ := exists_units precise ranged finite
  rw [units.value]
  refine convert_exact (units.small.trans_le (Nat.pow_le_pow_right (by decide) precision)) (low.trans units.low) ?_
  have whole : (k : ℚ) < 2 ^ (format.precision : ℤ) := by
    rw [zpow_natCast]
    exact_mod_cast units.small
  calc (k : ℚ) * 2 ^ e < 2 ^ (format.precision : ℤ) * 2 ^ e := mul_lt_mul_of_pos_right whole (zpow_pos (by norm_num) e)
    _ = 2 ^ (format.precision + e : ℤ) := (zpow_add₀ (by norm_num) _ _).symm
    _ ≤ 2 ^ wide.maxExponent := zpow_le_zpow_right₀ (by norm_num) (by have := units.high; omega)

end Bits

end Format

end LasecSimul.Lib.Binary
