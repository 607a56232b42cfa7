import Mathlib.Algebra.Order.Field.Basic
import Mathlib.Tactic.Linarith

/-!
# Limits

A lower and an upper limit, either of which may be absent.
-/

namespace LasecSimul.Lib

structure Limits (α : Type) [LinearOrder α] where
  lower : Option α
  upper : Option α
  ordered : ∀ low ∈ lower, ∀ high ∈ upper, low ≤ high

/-- The nearest value between two limits; above both, the upper one. -/
def saturate {α : Type} [LinearOrder α] (lower upper : Option α) (x : α) : α :=
  match upper.filter (· < x), lower.filter (x < ·) with
  | some high, _ => high
  | none, some low => low
  | none, none => x

namespace Limits

section Order

variable {α : Type} [LinearOrder α] {limits : Limits α} {x y : α}

def Contains (limits : Limits α) (x : α) : Prop := (∀ low ∈ limits.lower, low ≤ x) ∧ ∀ high ∈ limits.upper, x ≤ high

def clamp (limits : Limits α) (x : α) : α := saturate limits.lower limits.upper x

/-- The three ways a value is clamped. -/
theorem clamp_cases (limits : Limits α) (x : α) :
    (∃ high ∈ limits.upper, high < x ∧ limits.clamp x = high) ∨
      (∃ low ∈ limits.lower, x < low ∧ limits.clamp x = low) ∨ limits.Contains x ∧ limits.clamp x = x := by
  unfold clamp saturate
  cases above : limits.upper.filter (· < x) with
  | some high =>
    obtain ⟨member, less⟩ := Option.filter_eq_some_iff.mp above
    exact .inl ⟨high, member, by simpa using less, rfl⟩
  | none =>
    cases below : limits.lower.filter (x < ·) with
    | some low =>
      obtain ⟨member, less⟩ := Option.filter_eq_some_iff.mp below
      exact .inr (.inl ⟨low, member, by simpa using less, rfl⟩)
    | none =>
      rw [Option.filter_eq_none_iff] at above below
      refine .inr (.inr ⟨⟨fun low member => ?_, fun high member => ?_⟩, rfl⟩)
      · simpa using below low member
      · simpa using above high member

/-- A clamped value lies between the limits, and where it is another value it is the limit on that side. -/
theorem clamp_eq_iff :
    limits.clamp x = y ↔ limits.Contains y ∧ (y < x → y ∈ limits.upper) ∧ (x < y → y ∈ limits.lower) := by
  constructor
  · rintro rfl
    obtain ⟨high, upper, less, same⟩ | ⟨low, lower, less, same⟩ | ⟨inside, same⟩ := limits.clamp_cases x
    · rw [same]
      refine ⟨⟨fun low lower => limits.ordered low lower high upper, fun other member => ?_⟩, fun _ => upper,
        fun more => absurd less more.not_gt⟩
      exact (Option.mem_unique upper member).le
    · rw [same]
      refine ⟨⟨fun other member => ?_, fun high upper => limits.ordered low lower high upper⟩,
        fun more => absurd less more.not_gt, fun _ => lower⟩
      exact (Option.mem_unique member lower).le
    · rw [same]
      exact ⟨inside, fun less => absurd less (lt_irrefl x), fun less => absurd less (lt_irrefl x)⟩
  · rintro ⟨inside, upper, lower⟩
    obtain ⟨high, member, less, same⟩ | ⟨low, member, less, same⟩ | ⟨within, same⟩ := limits.clamp_cases x
    · rw [same]
      exact Option.mem_unique member (upper ((inside.2 high member).trans_lt less))
    · rw [same]
      exact Option.mem_unique member (lower (less.trans_le (inside.1 low member)))
    · rw [same]
      rcases lt_trichotomy x y with less | same | less
      · exact absurd (within.1 y (lower less)) less.not_ge
      · exact same
      · exact absurd (within.2 y (upper less)) less.not_ge

theorem clamp_spec (limits : Limits α) (x : α) : limits.Contains (limits.clamp x) ∧
    (limits.clamp x < x → limits.clamp x ∈ limits.upper) ∧ (x < limits.clamp x → limits.clamp x ∈ limits.lower) := by
  rw [← clamp_eq_iff]

theorem contains_clamp (limits : Limits α) (x : α) : limits.Contains (limits.clamp x) :=
  (clamp_spec limits x).1

theorem clamp_of_contains (inside : limits.Contains x) : limits.clamp x = x := by
  rw [clamp_eq_iff]
  exact ⟨inside, fun less => absurd less (lt_irrefl x), fun less => absurd less (lt_irrefl x)⟩

@[simp]
theorem clamp_clamp (limits : Limits α) (x : α) : limits.clamp (limits.clamp x) = limits.clamp x :=
  clamp_of_contains (limits.contains_clamp x)

theorem clamp_mono (limits : Limits α) : Monotone limits.clamp := by
  intro x y less
  have first := clamp_spec limits x
  have second := clamp_spec limits y
  by_contra more
  rw [not_le] at more
  rcases lt_or_ge (limits.clamp y) y with beyond | beyond
  · exact absurd (first.1.2 _ (second.2.1 beyond)) more.not_ge
  · have below : x < limits.clamp x := less.trans_lt (beyond.trans_lt more)
    exact absurd (second.1.1 _ (first.2.2 below)) more.not_ge

theorem clamp_eq_upper {high : α} (member : high ∈ limits.upper) (beyond : high ≤ x) : limits.clamp x = high := by
  rw [clamp_eq_iff]
  refine ⟨⟨fun low lower => limits.ordered low lower high member, fun other upper => ?_⟩,
    fun _ => member, fun less => absurd beyond less.not_ge⟩
  exact (Option.mem_unique member upper).le

theorem clamp_eq_lower {low : α} (member : low ∈ limits.lower) (beyond : x ≤ low) : limits.clamp x = low := by
  rw [clamp_eq_iff]
  refine ⟨⟨fun other lower => ?_, fun high upper => limits.ordered low member high upper⟩,
    fun less => absurd beyond less.not_ge, fun _ => member⟩
  exact (Option.mem_unique lower member).le

theorem clamp_eq_of_single {low : α} (lower : low ∈ limits.lower) (upper : low ∈ limits.upper) (x : α) :
    limits.clamp x = low :=
  le_antisymm ((limits.contains_clamp x).2 low upper) ((limits.contains_clamp x).1 low lower)

theorem fixed_unique {f : α → α} (falling : Antitone f) (first : limits.clamp (f x) = x)
    (second : limits.clamp (f y) = y) : x = y := by
  rcases le_total x y with less | less
  · have back := limits.clamp_mono (falling less)
    rw [first, second] at back
    exact le_antisymm less back
  · have back := limits.clamp_mono (falling less)
    rw [first, second] at back
    exact le_antisymm back less

theorem fixed_clamp {f : α → α} (falling : Antitone f) (fixed : f x = x) :
    limits.clamp (f (limits.clamp x)) = limits.clamp x := by
  obtain ⟨high, upper, less, same⟩ | ⟨low, lower, less, same⟩ | ⟨inside, same⟩ := limits.clamp_cases x
  · rw [same]
    exact clamp_eq_upper upper (by rw [← fixed] at less; exact less.le.trans (falling (fixed ▸ less.le)))
  · rw [same]
    exact clamp_eq_lower lower (by rw [← fixed] at less; exact (falling (fixed ▸ less.le)).trans less.le)
  · rw [same, fixed, same]

end Order

section Field

variable {K : Type} [Field K] [LinearOrder K] {limits : Limits K} {x : K}

/-- A step that a value outside the limits takes as the limit itself would take it. -/
def Harmless (limits : Limits K) (x h : K) : Prop :=
  (∀ high ∈ limits.upper, high < x → 0 ≤ h ∨ ∃ low ∈ limits.lower, low = high ∨ x + h ≤ low) ∧
    ∀ low ∈ limits.lower, x < low → h ≤ 0 ∨ ∃ high ∈ limits.upper, low = high ∨ high ≤ x + h

theorem harmless_of_contains (inside : limits.Contains x) (h : K) : limits.Harmless x h :=
  ⟨fun high upper above => absurd (inside.2 high upper) above.not_ge,
    fun low lower below => absurd (inside.1 low lower) below.not_ge⟩

variable [IsStrictOrderedRing K]

/-- Clamping brings values no further apart. -/
theorem clamp_sub_antitone (limits : Limits K) : Antitone fun x => limits.clamp x - x := by
  intro x y less
  have first := clamp_spec limits x
  have second := clamp_spec limits y
  show limits.clamp y - y ≤ limits.clamp x - x
  by_contra more
  rw [not_le] at more
  rcases le_or_gt x (limits.clamp x) with beyond | beyond
  · have above : y < limits.clamp y := by linarith
    have low := first.1.1 _ (second.2.2 above)
    linarith
  · have high := second.1.2 _ (first.2.1 beyond)
    linarith

theorem clamp_step_above {high h : K} (upper : high ∈ limits.upper) (above : high < x) :
    limits.clamp (high + h) = limits.clamp (x + h) ↔ 0 ≤ h ∨ ∃ low ∈ limits.lower, low = high ∨ x + h ≤ low := by
  constructor
  · intro same
    by_contra harm
    rw [not_or, not_le, not_exists] at harm
    obtain ⟨falls, apart⟩ := harm
    have less : limits.clamp (high + h) < high ∧ limits.clamp (high + h) < x + h := by
      obtain ⟨other, member, beyond, -⟩ | ⟨low, lower, -, found⟩ | ⟨-, found⟩ := limits.clamp_cases (high + h)
      · have := Option.mem_unique member upper
        linarith
      · have apart := apart low
        rw [not_and, not_or, not_le] at apart
        obtain ⟨differs, less⟩ := apart lower
        rw [found]
        exact ⟨lt_of_le_of_ne (limits.ordered low lower high upper) differs, less⟩
      · rw [found]
        exact ⟨by linarith, by linarith⟩
    have limit := (clamp_spec limits (x + h)).2.1 (same ▸ less.2)
    rw [← same] at limit
    exact absurd (Option.mem_unique limit upper) less.1.ne
  · rintro (rises | ⟨low, lower, rfl | beyond⟩)
    · rw [clamp_eq_upper upper (by linarith), clamp_eq_upper upper (by linarith)]
    · rw [clamp_eq_of_single lower upper, clamp_eq_of_single lower upper]
    · rw [clamp_eq_lower lower (by linarith), clamp_eq_lower lower beyond]

theorem clamp_step_below {low h : K} (lower : low ∈ limits.lower) (below : x < low) :
    limits.clamp (low + h) = limits.clamp (x + h) ↔ h ≤ 0 ∨ ∃ high ∈ limits.upper, low = high ∨ high ≤ x + h := by
  constructor
  · intro same
    by_contra harm
    rw [not_or, not_le, not_exists] at harm
    obtain ⟨rises, apart⟩ := harm
    have more : low < limits.clamp (low + h) ∧ x + h < limits.clamp (low + h) := by
      obtain ⟨high, upper, -, found⟩ | ⟨other, member, beyond, -⟩ | ⟨-, found⟩ := limits.clamp_cases (low + h)
      · have apart := apart high
        rw [not_and, not_or, not_le] at apart
        obtain ⟨differs, less⟩ := apart upper
        rw [found]
        exact ⟨lt_of_le_of_ne (limits.ordered low lower high upper) differs, less⟩
      · have := Option.mem_unique member lower
        linarith
      · rw [found]
        exact ⟨by linarith, by linarith⟩
    have limit := (clamp_spec limits (x + h)).2.2 (same ▸ more.2)
    rw [← same] at limit
    exact absurd (Option.mem_unique limit lower) more.1.ne'
  · rintro (falls | ⟨high, upper, rfl | beyond⟩)
    · rw [clamp_eq_lower lower (by linarith), clamp_eq_lower lower (by linarith)]
    · rw [clamp_eq_of_single lower upper, clamp_eq_of_single lower upper]
    · rw [clamp_eq_upper upper (by linarith), clamp_eq_upper upper beyond]

/-- Clamping before a step changes what is clamped after it unless the step is harmless. -/
theorem clamp_step_iff (x h : K) : limits.clamp (limits.clamp x + h) = limits.clamp (x + h) ↔ limits.Harmless x h := by
  obtain ⟨high, upper, above, same⟩ | ⟨low, lower, below, same⟩ | ⟨inside, same⟩ := limits.clamp_cases x
  · rw [same, clamp_step_above upper above]
    refine ⟨fun step => ⟨fun other member _ => ?_, fun low lower below => ?_⟩, fun step => step.1 high upper above⟩
    · rwa [Option.mem_unique member upper]
    · exact absurd (limits.ordered low lower high upper) (above.trans below).not_ge
  · rw [same, clamp_step_below lower below]
    refine ⟨fun step => ⟨fun high upper above => ?_, fun other member _ => ?_⟩, fun step => step.2 low lower below⟩
    · exact absurd (limits.ordered low lower high upper) (above.trans below).not_ge
    · rwa [Option.mem_unique member lower]
  · rw [same]
    exact iff_of_true rfl (harmless_of_contains inside h)

end Field

end Limits

end LasecSimul.Lib

/-!
## Exact numbers with infinities

The values of a floating-point format without its rounding: the elements of an ordered field, two infinities and a NaN. A
comparison with a NaN is false.
-/

namespace LasecSimul.Lib

inductive Extended (K : Type) where
  | finite (value : K)
  | infinite (negative : Bool)
  | nan
  deriving DecidableEq

namespace Extended

variable {K : Type} [Field K] [LinearOrder K]

def neg : Extended K → Extended K
  | finite a => finite (-a)
  | infinite negative => infinite (!negative)
  | nan => nan

def add : Extended K → Extended K → Extended K
  | finite a, finite b => finite (a + b)
  | infinite first, infinite second => if first = second then infinite first else nan
  | nan, _ | _, nan => nan
  | infinite negative, _ | _, infinite negative => infinite negative

def mul : Extended K → Extended K → Extended K
  | finite a, finite b => finite (a * b)
  | nan, _ | _, nan => nan
  | infinite first, infinite second => infinite (first != second)
  | infinite negative, finite a | finite a, infinite negative =>
    if a = 0 then nan else infinite (negative != decide (a < 0))

def div : Extended K → Extended K → Extended K
  | finite a, finite b => if b = 0 then if a = 0 then nan else infinite (decide (a < 0)) else finite (a / b)
  | nan, _ | _, nan => nan
  | infinite _, infinite _ => nan
  | finite _, infinite _ => finite 0
  | infinite negative, finite b => infinite (negative != decide (b < 0))

instance : Zero (Extended K) := ⟨finite 0⟩
instance : One (Extended K) := ⟨finite 1⟩
instance : Neg (Extended K) := ⟨neg⟩
instance : Add (Extended K) := ⟨add⟩
instance : Sub (Extended K) := ⟨fun a b => add a (neg b)⟩
instance : Mul (Extended K) := ⟨mul⟩
instance : Div (Extended K) := ⟨div⟩

def lt : Extended K → Extended K → Bool
  | finite a, finite b => a < b
  | finite _, infinite negative => !negative
  | infinite negative, finite _ => negative
  | infinite first, infinite second => first && !second
  | nan, _ | _, nan => false

def le : Extended K → Extended K → Bool
  | finite a, finite b => a ≤ b
  | finite _, infinite negative => !negative
  | infinite negative, finite _ => negative
  | infinite first, infinite second => first || !second
  | nan, _ | _, nan => false

def abs (a : Extended K) : Extended K := if lt a 0 then -a else a

def max (a b : Extended K) : Extended K := if lt a b then b else a

def clamp (value low high : Extended K) : Extended K :=
  if lt value low then low else if lt high value then high else value

def isNaN : Extended K → Bool
  | nan => true
  | _ => false

def isFinite : Extended K → Bool
  | finite _ => true
  | _ => false

section Finite

variable (a b : K)

omit [LinearOrder K] in
@[simp]
theorem zero_eq : (0 : Extended K) = finite 0 := rfl

omit [LinearOrder K] in
@[simp]
theorem finite_add : finite a + finite b = finite (a + b) := rfl

omit [LinearOrder K] in
@[simp]
theorem finite_neg : -finite a = finite (-a) := rfl

omit [LinearOrder K] in
@[simp]
theorem finite_sub : finite a - finite b = finite (a - b) := by
  rw [sub_eq_add_neg]
  rfl

@[simp]
theorem finite_mul : finite a * finite b = finite (a * b) := rfl

variable {a b} in
theorem finite_div (nonzero : b ≠ 0) : finite a / finite b = finite (a / b) := if_neg nonzero

omit [Field K] in
@[simp]
theorem lt_finite : lt (finite a) (finite b) = decide (a < b) := rfl

omit [Field K] in
@[simp]
theorem le_finite : le (finite a) (finite b) = decide (a ≤ b) := rfl

end Finite

end Extended

end LasecSimul.Lib
