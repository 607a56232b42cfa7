import LasecSimul.Kernels.Modes

/-!
# Major and minor outputs

A minor stage at a major instant gives what the instant has published, but for a pulse whose end `update` rounds down to
the instant itself.
-/

namespace LasecSimul.Kernels

open Lib.Binary Double

variable {tNs majorNs : ℕ} {input : ℕ → Elements}

/-! ### Modes -/

theorem Relay.noJump (p : Relay) (d : Elements) : p.kernel.NoJump d tNs majorNs input := rfl

/-- How the modes and states compare. -/
theorem marks_compare : (lt (0 : FloatValue) 1 = true ∧ lt (0 : FloatValue) (-1) = false ∧ lt (-1 : FloatValue) 0 = true ∧
      lt (0 : FloatValue) 0 = false) ∧
    (eq (1 : FloatValue) 1 = true ∧ eq (2.0 : FloatValue) 0 = false ∧ eq (2.0 : FloatValue) 1 = false) ∧
    lt (0 : FloatValue) 2.0 = true ∧ lt (1 : FloatValue) 2.0 = true := by
  decide +kernel

theorem Backlash.backlashStep_minor (u previous half : FloatValue) :
    let (y, mode) := backlashStep u previous half
    (if lt 0 mode then u - half else if lt mode 0 then u + half else y) = y := by
  obtain ⟨⟨positive, below, negative, zero⟩, _⟩ := marks_compare
  unfold backlashStep
  by_cases upper : le (previous + half) u = true
  · rw [if_pos upper]
    dsimp only
    rw [if_pos positive]
  rw [if_neg upper]
  by_cases lower : le u (previous - half) = true
  · rw [if_pos lower]
    dsimp only
    rw [below, if_neg Bool.false_ne_true, if_pos negative]
  · rw [if_neg lower]
    dsimp only
    rw [zero, if_neg Bool.false_ne_true, if_neg Bool.false_ne_true]

theorem Backlash.noJump (p : Backlash) (d : State) : p.kernel.NoJump d tNs majorNs input := by
  funext i
  exact backlashStep_minor (input 0 i) (d.y i) (p.half i)

theorem Relational.noJump (p : Relational) (d : Elements) : p.kernel.NoJump d tNs majorNs input := by
  show (if !false && p.zeroCross then p.value _ else p.value _) = p.value _
  exact ite_self _

theorem Switch.noJump (p : Switch) (d : Elements) : p.kernel.NoJump d tNs majorNs input := by
  show (p.outputs ⟨tNs, majorNs, false, input⟩ (p.outputs ⟨tNs, tNs, true, input⟩ d).2).1 =
    (p.outputs ⟨tNs, tNs, true, input⟩ d).1
  unfold Switch.outputs
  by_cases latched : p.zeroCross = true
  · simp [latched]
  · simp [latched, Switch.passesFirst]

theorem eq_self {value : FloatValue} (number : ∀ negative, value ≠ .nan negative) : eq value value = true := by
  show FloatValue.eq value value = true
  cases value with
  | finite negative magnitude => simp [FloatValue.eq, FloatValue.extended]
  | infinity negative => cases negative <;> simp [FloatValue.eq, FloatValue.extended]
  | nan negative => exact absurd rfl (number negative)

theorem ofUnsigned_number (n : ℕ) (negative : Bool) : (ofUnsigned n : FloatValue) ≠ .nan negative := by
  show binary64.ofRat false n ≠ _
  unfold Format.ofRat Format.convert
  dsimp only
  split
  · exact nofun
  · exact nofun

theorem lt_congr {a b c : FloatValue} (same : eq a b = true) : lt a c = lt b c := by
  have extended : a.extended = b.extended := by
    change FloatValue.eq a b = true at same
    unfold FloatValue.eq at same
    rcases left : a.extended with _ | x <;> rcases right : b.extended with _ | y <;> simp_all
  show FloatValue.lt a c = FloatValue.lt b c
  rw [FloatValue.lt, extended, FloatValue.lt]

namespace HitCrossing

variable (p : HitCrossing)

theorem recorded_initial (k : Instant) (previous y : Elements) :
    initialInstant k ⟨previous, y, 1, ofUnsigned k.tNs⟩ = true := by
  obtain ⟨_, ⟨first, _⟩, _⟩ := marks_compare
  simp [initialInstant, first, eq_self (ofUnsigned_number k.tNs)]

theorem updated_initial (k : Instant) (d : State) : initialInstant k { d with status := 2.0 } = false := by
  obtain ⟨_, ⟨_, zero, one⟩, _⟩ := marks_compare
  simp [initialInstant, zero, one]

theorem status_below {k : Instant} {d : State} (initial : initialInstant k d = true) : lt d.status 2.0 = true := by
  obtain ⟨_, _, zero, one⟩ := marks_compare
  rcases (Bool.or_eq_true _ _).mp initial with start | recorded
  · rw [lt_congr start, zero]
  · rw [lt_congr ((Bool.and_eq_true _ _).mp recorded).1, one]

/-- Publishing does not change what `update` computes. -/
theorem value_published {k : Instant} (present : k.tNs = k.majorNs) (major : k.major = true) (d : State) :
    p.value k (p.outputs k d).2 = (p.outputs k d).1 := by
  unfold outputs
  by_cases initial : initialInstant k d = true
  · have record : (lt d.status 2.0 && k.tNs == k.majorNs && initialInstant k d) = true := by
      rw [status_below initial, initial, beq_iff_eq.mpr present]
      rfl
    rw [if_neg (by simp [major])]
    dsimp only
    rw [if_pos record]
    funext i
    show p.value k ⟨p.signal k, p.value k d, 1, ofUnsigned k.tNs⟩ i = p.value k d i
    rw [value, value, recorded_initial, initial]
    rfl
  · simp [major, initial]

theorem noJump (d : State) : p.kernel.NoJump d tNs majorNs input := by
  show (p.outputs ⟨tNs, majorNs, false, input⟩ (p.update ⟨tNs, tNs, true, input⟩ (p.outputs ⟨tNs, tNs, true, input⟩ d).2)).1
    = (p.outputs ⟨tNs, tNs, true, input⟩ d).1
  rw [← p.value_published rfl rfl d, outputs]
  have later : initialInstant ⟨tNs, majorNs, false, input⟩
      (p.update ⟨tNs, tNs, true, input⟩ (p.outputs ⟨tNs, tNs, true, input⟩ d).2) = false := updated_initial _ _
  rw [if_pos (by simp [later])]
  rfl

end HitCrossing

/-! ### Pulses -/

namespace Pwm

/-- A count that a double holds. -/
def Held (n : ℤ) : Prop := ofInt n = .finite false n

theorem held_zero : Held 0 := by
  unfold Held
  decide +kernel

theorem Held.toInt64 {n : ℤ} (held : Held n) : toInt64 (ofInt n) = n := by
  rw [held]
  exact Int.floor_intCast n

/-- The whole part of a rounded result is exact. -/
theorem held_floor_convert {negative : Bool} {magnitude : ℚ} (size : 0 ≤ magnitude)
    (nonneg : 0 ≤ toInt64 (floor (binary64.convert (.finite negative magnitude)))) :
    Held (toInt64 (floor (binary64.convert (.finite negative magnitude)))) := by
  by_cases exceeds : binary64.overflows magnitude = true
  · rw [Format.convert, if_pos exceeds] at nonneg
    exact absurd nonneg (show ¬ (0 : ℤ) ≤ -2 ^ 63 by decide)
  rw [Format.convert, if_neg exceeds] at nonneg ⊢
  have rounded : 0 ≤ binary64.nearest magnitude := Format.nearest_nonneg size
  have whole : 0 ≤ ⌊binary64.nearest magnitude⌋ := Int.floor_nonneg.mpr rounded
  cases negative with
  | true =>
    have sign : 0 ≤ -⌊|(⌊-binary64.nearest magnitude⌋ : ℚ)|⌋ := nonneg
    have bound : 0 ≤ ⌊|(⌊-binary64.nearest magnitude⌋ : ℚ)|⌋ := Int.floor_nonneg.mpr (abs_nonneg _)
    have none : toInt64 (floor (FloatValue.finite true (binary64.nearest magnitude))) = 0 := le_antisymm (by
      show -⌊|(⌊-binary64.nearest magnitude⌋ : ℚ)|⌋ ≤ 0
      omega) nonneg
    rw [none]
    exact held_zero
  | false =>
    have value : toInt64 (floor (FloatValue.finite false (binary64.nearest magnitude))) =
        ⌊binary64.nearest magnitude⌋ := by
      show ⌊|(⌊binary64.nearest magnitude⌋ : ℚ)|⌋ = _
      rw [abs_of_nonneg (by exact_mod_cast whole), Int.floor_intCast]
    rw [value]
    have exact' := @Format.nearest_floor binary64 _ (by decide) (by decide) size
    have cast : (0 : ℚ) ≤ (⌊binary64.nearest magnitude⌋ : ℚ) := by exact_mod_cast whole
    have below : ¬ binary64.overflows |(⌊binary64.nearest magnitude⌋ : ℚ)| = true := by
      rw [abs_of_nonneg cast, Format.overflows, exact']
      simp only [Format.overflows, decide_eq_true_eq, not_le] at exceeds ⊢
      exact (Int.floor_le _).trans_lt exceeds
    have sign : (if (⌊binary64.nearest magnitude⌋ : ℚ) = 0 then false
        else decide ((⌊binary64.nearest magnitude⌋ : ℚ) < 0)) = false := by
      simp [not_lt.mpr cast]
    rw [Held, ofInt, Format.ofRat, sign, Format.convert, if_neg below, abs_of_nonneg cast, exact']

/-- A sum is a rounded value or not finite. -/
theorem add_cases (a b : FloatValue) :
    (∃ negative magnitude, 0 ≤ magnitude ∧ a + b = binary64.convert (.finite negative magnitude)) ∨
      ∃ negative, a + b = .infinity negative ∨ a + b = .nan negative := by
  show (∃ negative magnitude, 0 ≤ magnitude ∧ binary64.add a b = _) ∨
    ∃ negative, binary64.add a b = _ ∨ binary64.add a b = _
  unfold Format.add
  split
  · exact .inr ⟨_, .inr rfl⟩
  · exact .inr ⟨_, .inr rfl⟩
  · split
    · exact .inr ⟨_, .inl rfl⟩
    · exact .inr ⟨_, .inr rfl⟩
  · exact .inr ⟨_, .inl rfl⟩
  · exact .inr ⟨_, .inl rfl⟩
  · exact .inl ⟨_, _, abs_nonneg _, rfl⟩

theorem held_floor_add (a b : FloatValue) (nonneg : 0 ≤ toInt64 (floor (a + b))) : Held (toInt64 (floor (a + b))) := by
  rcases add_cases a b with ⟨negative, magnitude, size, sum⟩ | ⟨negative, sum | sum⟩
  · rw [sum] at nonneg ⊢
    exact held_floor_convert size nonneg
  · rw [sum] at nonneg
    exact absurd nonneg (show ¬ (0 : ℤ) ≤ -2 ^ 63 by decide)
  · rw [sum] at nonneg
    exact absurd nonneg (show ¬ (0 : ℤ) ≤ -2 ^ 63 by decide)

theorem sample_held {p : Pwm} {d : State} (started : 0 ≤ (p.sample d).1) : Held (p.sample d).2 := by
  unfold sample at started ⊢
  dsimp only at started ⊢
  split at started
  · exact absurd started (show ¬ (0 : ℤ) ≤ -1 by decide)
  · next running =>
    rw [if_neg running]
    exact held_floor_add _ _ (by omega)

theorem highSamples_held {p : Pwm} {duty : FloatValue} {samples : ℤ} (held : Held samples) :
    Held (p.highSamples duty samples) := by
  unfold highSamples
  dsimp only
  split
  · exact held_zero
  · next nonneg =>
    split
    · exact held
    · exact held_floor_add _ _ (not_lt.mp nonneg)

variable (p : Pwm) (d : State)

theorem fixedOutput_update (fixed : p.fixed = true) (k : Instant) :
    (p.update k d).d2 = logical (p.fixedOutput k d) := by
  unfold update fixedOutput
  rw [if_pos fixed]
  dsimp only
  by_cases waiting : (p.sample d).1 < 0
  · rw [if_pos waiting]
    simp [waiting]
  rw [if_neg waiting]
  have started := not_lt.mp waiting
  by_cases first : (p.sample d).1 = 0
  · rw [if_pos first, if_pos first, (highSamples_held (sample_held started)).toInt64]
    simp [waiting]
  · rw [if_neg first, if_neg first]
    simp [waiting]

/-- The end of the pulse is less than half a nanosecond after the instant. -/
def RoundsAway (tNs : ℕ) (input : ℕ → Elements) : Prop :=
  p.fixed = false ∧ p.disallowZero = false ∧ ∃ start t e, p.pulseAt d tNs = some start ∧
    (ofUnsigned tNs : FloatValue) = .finite false t ∧ p.pulseEnd start (input 0 0) = .finite false e ∧ t < e ∧ e < t + 1 / 2

theorem ofUnsigned_whole (n : ℕ) :
    (∃ z : ℕ, (ofUnsigned n : FloatValue) = .finite false z) ∨ (ofUnsigned n : FloatValue) = .infinity false := by
  show (∃ z : ℕ, binary64.ofRat false n = _) ∨ binary64.ofRat false n = _
  have sign : (if (n : ℚ) = 0 then false else decide ((n : ℚ) < 0)) = false := by simp
  rw [Format.ofRat, sign, Format.convert, Nat.abs_cast]
  split
  · exact .inr rfl
  · obtain ⟨z, whole⟩ := @Format.nearest_whole binary64 n (by decide)
    exact .inl ⟨z, by rw [whole]⟩

/-- Rounding changes the order with an instant for the values just after it. -/
theorem lt_roundAway {value : FloatValue} (regular : ∀ negative magnitude, value = .finite negative magnitude → 0 ≤ magnitude) :
    lt (ofUnsigned tNs) (roundAway value) = lt (ofUnsigned tNs) value ↔
      ¬ ∃ t e, (ofUnsigned tNs : FloatValue) = .finite false t ∧ value = .finite false e ∧ t < e ∧ e < t + 1 / 2 := by
  cases value with
  | infinity negative =>
    refine iff_of_true rfl ?_
    rintro ⟨_, _, _, other, _⟩
    cases other
  | nan negative =>
    refine iff_of_true rfl ?_
    rintro ⟨_, _, _, other, _⟩
    cases other
  | finite negative magnitude =>
    have nonneg := regular negative magnitude rfl
    rcases ofUnsigned_whole tNs with ⟨z, whole⟩ | infinite
    · rw [roundAway, whole, Binary64.lt_finite, Binary64.lt_finite, decide_eq_decide]
      have positive : (0 : ℚ) ≤ z := Nat.cast_nonneg z
      cases negative with
      | true =>
        have rounded : (0 : ℚ) ≤ (⌊magnitude + 1 / 2⌋ : ℚ) := by
          exact_mod_cast Int.floor_nonneg.mpr (by linarith : (0 : ℚ) ≤ magnitude + 1 / 2)
        simp only [FloatValue.signed, Bool.false_eq_true, if_true, if_false]
        refine iff_of_true (iff_of_false (by linarith) (by linarith)) ?_
        rintro ⟨_, _, _, other, _⟩
        cases other
      | false =>
        simp only [FloatValue.signed, Bool.false_eq_true, if_false]
        have later : (z : ℚ) < (⌊magnitude + 1 / 2⌋ : ℚ) ↔ (z : ℚ) + 1 / 2 ≤ magnitude := by
          have step : (z : ℤ) < ⌊magnitude + 1 / 2⌋ ↔ ((z + 1 : ℤ) : ℚ) ≤ magnitude + 1 / 2 := by
            rw [← Int.le_floor]
            omega
          have cast : (z : ℚ) < (⌊magnitude + 1 / 2⌋ : ℚ) ↔ (z : ℤ) < ⌊magnitude + 1 / 2⌋ := by exact_mod_cast Iff.rfl
          rw [cast, step]
          push_cast
          constructor <;> intro bound <;> linarith
        rw [later]
        constructor
        · rintro same ⟨t, e, here, there, after, near⟩
          obtain ⟨-, rfl⟩ := FloatValue.finite.inj here
          obtain ⟨-, rfl⟩ := FloatValue.finite.inj there
          exact absurd (same.mpr after) (not_le.mpr near)
        · intro apart
          refine ⟨fun bound => by linarith, fun after => not_lt.mp fun near => apart ⟨z, magnitude, rfl, rfl, after, near⟩⟩
    · have below (x : FloatValue) : lt (.infinity false) x = false := by
        show FloatValue.lt _ x = false
        rcases x with _ | (_ | _) | _ <;> simp [FloatValue.lt, FloatValue.extended]
      rw [infinite, below, below]
      refine iff_of_true rfl ?_
      rintro ⟨_, _, other, _⟩
      cases other

theorem pulseEnd_regular (start duty : FloatValue) :
    ∀ negative magnitude, p.pulseEnd start duty = .finite negative magnitude → 0 ≤ magnitude := by
  intro negative magnitude finite
  rcases add_cases start (clampDuty duty * ofUnsigned p.periodNs) with ⟨sign, size, nonneg, sum⟩ | ⟨sign, sum | sum⟩
  · have converted : binary64.convert (.finite sign size) = .finite negative magnitude := sum.symm.trans finite
    rw [Format.convert] at converted
    split at converted
    · cases converted
    · obtain ⟨-, rfl⟩ := FloatValue.finite.inj converted
      exact Format.nearest_nonneg nonneg
  · cases sum.symm.trans finite
  · cases sum.symm.trans finite

variable {p d}

theorem continuous_update (continuous : p.fixed = false) (k : Instant) :
    (p.update k d).d2 = logical (match p.pulseAt d k.tNs with
      | none => lt (ofUnsigned k.tNs) d.d1
      | some start => p.disallowZero || lt (ofUnsigned k.tNs) (roundAway (p.pulseEnd start (k.input 0 0)))) := by
  rw [update, continuous, if_neg Bool.false_ne_true]
  cases p.pulseAt d k.tNs <;> rfl

theorem logical_inj {a b : Bool} : logical a = logical b ↔ a = b := by
  have differ : logical true ≠ logical false := by decide +kernel
  cases a <;> cases b <;> simp [differ, differ.symm]

theorem noJump_pulse : p.kernel.NoJump d tNs majorNs input ↔ ¬ p.RoundsAway d tNs input := by
  have outcome : p.kernel.NoJump d tNs majorNs input ↔ (p.update ⟨tNs, tNs, true, input⟩ d).d2 =
      logical (if p.fixed then p.fixedOutput ⟨tNs, tNs, true, input⟩ d else p.continuousOutput ⟨tNs, tNs, true, input⟩ d) :=
    ⟨fun same => congrFun same 0, fun same => funext fun _ => same⟩
  rw [outcome]
  cases fixed : p.fixed with
  | true =>
    rw [if_pos rfl, fixedOutput_update p d fixed]
    exact iff_of_true rfl fun rounds => by simp [RoundsAway, fixed] at rounds
  | false =>
    rw [if_neg Bool.false_ne_true, continuous_update fixed, logical_inj, continuousOutput]
    dsimp only
    cases pulse : p.pulseAt d tNs with
    | none => exact iff_of_true rfl fun ⟨_, _, _, _, _, held, _⟩ => by simp [pulse] at held
    | some start =>
      cases disallow : p.disallowZero with
      | true => exact iff_of_true rfl fun rounds => by simp [RoundsAway, disallow] at rounds
      | false =>
        dsimp only
        rw [Bool.false_or, Bool.false_or, lt_roundAway (p.pulseEnd_regular start (input 0 0)), RoundsAway]
        simp [fixed, disallow, pulse]

end Pwm

/-- The blocks whose modes change at major instants only. -/
inductive ModeBlock where
  | relay (p : Relay)
  | backlash (p : Backlash)
  | hitCrossing (p : HitCrossing)
  | pwm (p : Pwm)
  | relational (p : Relational)
  | switch (p : Switch)

namespace ModeBlock

def kernel : ModeBlock → ModeKernel
  | relay p => p.kernel
  | backlash p => p.kernel
  | hitCrossing p => p.kernel
  | pwm p => p.kernel
  | relational p => p.kernel
  | switch p => p.kernel

/-- At this instant and input the kernel rounds the end of a pulse down to the instant. -/
def RoundsAway : (block : ModeBlock) → block.kernel.State → ℕ → (ℕ → Elements) → Prop
  | pwm p, d, tNs, input => p.RoundsAway d tNs input
  | _, _, _, _ => False

/-- Only the rounded end of a pulse makes a jump. -/
theorem noJump_iff (block : ModeBlock) (d : block.kernel.State) (tNs majorNs : ℕ) (input : ℕ → Elements) :
    block.kernel.NoJump d tNs majorNs input ↔ ¬ block.RoundsAway d tNs input := by
  cases block with
  | relay p => exact iff_of_true (p.noJump d) id
  | backlash p => exact iff_of_true (p.noJump d) id
  | hitCrossing p => exact iff_of_true (p.noJump d) id
  | pwm p => exact p.noJump_pulse
  | relational p => exact iff_of_true (p.noJump d) id
  | switch p => exact iff_of_true (p.noJump d) id

/-- A period of one second. -/
def second : Pwm := { fixed := false, disallowZero := false, period := 1, initialDelay := 0, ts := 0 }

/-- A duty cycle of a tenth of a nanosecond is published, and gone in the first stage. -/
theorem pwm_jumps : ¬ (pwm second).kernel.NoJump (⟨0, 0, 0⟩ : Pwm.State) 0 0 fun _ _ => 1e-10 := by
  intro same
  have published : (second.update ⟨0, 0, true, fun _ _ => 1e-10⟩ ⟨0, 0, 0⟩).d2 =
      logical (second.continuousOutput ⟨0, 0, true, fun _ _ => 1e-10⟩ ⟨0, 0, 0⟩) := congrFun same 0
  exact absurd published (by decide +kernel)

end ModeBlock

end LasecSimul.Kernels
