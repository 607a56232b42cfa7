import LasecSimul.Base.Binary64
import LasecSimul.Scheduling.Scheduler

/-!
# The adaptive time step (`Scheduler.cpp`, `SimulationSession.cpp`)

The step lengths the scheduler derives from an error ratio, and the answers the commit callback of the
session gives. A casted length that does not fit `uint64_t` is not wrapped.
-/

namespace LasecSimul.Scheduling

open Lib.Binary

/-- `TransientSettings`, without the integration method. -/
structure TransientSettings where
  initialStepNs : Nat := 100
  minimumStepNs : Nat := 1
  maximumStepNs : Nat := 100000
  relativeTolerance : FloatValue := 1e-4
  absoluteTolerance : FloatValue := 1e-9
  maximumNewtonIterations : Nat := 20
  adaptiveTimeStep : Bool := true

/-- `SimulationSession::setTransientSettings`, which throws on settings it does not accept. -/
def setTransientSettings (settings : TransientSettings) (s : Scheduler) : Option Scheduler :=
  if settings.minimumStepNs = 0 ∨ settings.maximumStepNs < settings.minimumStepNs ∨
      settings.initialStepNs < settings.minimumStepNs ∨ settings.initialStepNs > settings.maximumStepNs ∨
      ¬Double.lt 0.0 settings.relativeTolerance ∨ ¬Double.lt 0.0 settings.absoluteTolerance then none
  else some { s with
    maximumTimeStepNs := settings.maximumStepNs
    currentTimeStepNs := settings.initialStepNs
    minimumTimeStepNs := settings.minimumStepNs
    adaptiveTimeStep := settings.adaptiveTimeStep
    maxNonLinearIterations := settings.maximumNewtonIterations }

/-- The factor of a step that is rejected. -/
def reductionFactor (errorRatio : FloatValue) : FloatValue :=
  Double.clamp (0.9 / binary64.sqrt (Double.max errorRatio 1e-12)) 0.2 0.8

/-- The factor of a step that stands. -/
def adaptationFactor (errorRatio : FloatValue) : FloatValue :=
  if Double.lt 1e-12 errorRatio then Double.clamp (0.9 / binary64.sqrt errorRatio) 0.5 2.0 else 2.0

/-- `static_cast<uint64_t>(static_cast<double>(attempted) * factor)`. -/
def scaledStepNs (attempted : Nat) (factor : FloatValue) : Nat :=
  Double.toUnsigned (Double.ofUnsigned attempted * factor)

/-- One continuous state: its accepted value, the candidate and the result of the full step. -/
structure DynamicState where
  state : FloatValue
  candidate : FloatValue
  fullStep : FloatValue

/-- `SignalRuntime::continuousErrorRatio`. -/
def continuousErrorRatio (stepPending : Bool) (absoluteTolerance relativeTolerance : FloatValue)
    (states : List DynamicState) : FloatValue :=
  if stepPending then
    states.foldl (fun maximum x => Double.max maximum
      (Double.abs (x.candidate - x.fullStep) /
        (absoluteTolerance + relativeTolerance * Double.max (Double.abs x.state) (Double.abs x.candidate)))) 0.0
  else 0.0

/-- The error ratio of the commit callback, from the ratios of the reactive components. -/
def maximumError (settings : TransientSettings) (eventBoundary converged : Bool) (signalError : FloatValue)
    (componentErrors : List FloatValue) : FloatValue :=
  let measured :=
    if settings.adaptiveTimeStep && !eventBoundary then componentErrors.foldl Double.max signalError
    else 0.0
  if converged then measured else Double.max measured 2.0

/-- `TimeStepDecision` of the commit callback. -/
def sessionDecision (settings : TransientSettings) (frame : StepFrame) (errorRatio : FloatValue) :
    TimeStepDecision :=
  let attempted := frame.nextTime - frame.previousTime
  { accept := frame.eventBoundary || attempted ≤ settings.minimumStepNs || !settings.adaptiveTimeStep ||
      Double.le errorRatio 1.0
    reducedStepNs := scaledStepNs attempted (reductionFactor errorRatio)
    adaptedStepNs := scaledStepNs attempted (adaptationFactor errorRatio) }

/-- A decision the session can give at the end of a time step. -/
inductive Answers (settings : TransientSettings) (s : Scheduler) (frame : StepFrame) :
    TimeStepDecision → Prop where
  | measured (stepPending : Bool) (states : List DynamicState) (componentErrors : List FloatValue) :
    Answers settings s frame (sessionDecision settings frame
      (maximumError settings frame.eventBoundary s.lastSettleConverged
        (continuousErrorRatio stepPending settings.absoluteTolerance settings.relativeTolerance states)
        componentErrors))

theorem max_number {a b : FloatValue} (number : Double.le a a = true) :
    Double.le (Double.max a b) (Double.max a b) = true := by
  unfold Double.max
  split
  · next above => exact Double.Ordered.le_self_of_lt above
  · exact number

theorem continuousErrorRatio_number (stepPending : Bool) (absoluteTolerance relativeTolerance : FloatValue)
    (states : List DynamicState) :
    Double.le (continuousErrorRatio stepPending absoluteTolerance relativeTolerance states)
      (continuousErrorRatio stepPending absoluteTolerance relativeTolerance states) = true := by
  unfold continuousErrorRatio
  split
  · exact Double.foldl_max_number Double.Ordered.zero_le_zero
  · exact Double.Ordered.zero_le_zero

theorem maximumError_number {settings : TransientSettings} {eventBoundary converged : Bool}
    {signalError : FloatValue} (number : Double.le signalError signalError = true)
    (componentErrors : List FloatValue) :
    Double.le (maximumError settings eventBoundary converged signalError componentErrors)
      (maximumError settings eventBoundary converged signalError componentErrors) = true := by
  have measured : Double.le
      (if settings.adaptiveTimeStep && !eventBoundary then componentErrors.foldl Double.max signalError else 0.0)
      (if settings.adaptiveTimeStep && !eventBoundary then componentErrors.foldl Double.max signalError
        else 0.0) = true := by
    split
    · have folded : Double.le (componentErrors.foldl (fun most x => Double.max most (id x)) signalError)
          (componentErrors.foldl (fun most x => Double.max most (id x)) signalError) = true :=
        Double.foldl_max_number number
      exact folded
    · exact Double.Ordered.zero_le_zero
  unfold maximumError
  dsimp only
  split
  · exact measured
  · exact max_number measured

/-! ### A rejected step shrinks -/

/-- The literals of `reductionFactor`. -/
theorem literals : (0.2 : FloatValue) = .finite false (3602879701896397 / 2 ^ 54) ∧
    (0.8 : FloatValue) = .finite false (3602879701896397 / 2 ^ 52) ∧
    (0.9 : FloatValue) = .finite false (8106479329266893 / 2 ^ 53) ∧
    (1e-12 : FloatValue) = .finite false (4951760157141521 / 2 ^ 92) ∧
    Double.le (1e-12 : FloatValue) 1e-12 = true ∧
    Double.lt (0.8 : FloatValue) (.infinity false) = true := by
  decide +kernel

/-- A value that is neither negative nor a NaN. -/
def Nonnegative (value : FloatValue) : Prop :=
  value = .infinity false ∨ ∃ magnitude, value = .finite false magnitude

theorem convert_nonnegative (magnitude : ℚ) : Nonnegative (binary64.convert (.finite false magnitude)) := by
  unfold Format.convert
  split
  · next same =>
    obtain ⟨rfl, rfl⟩ := same
    split
    · exact Or.inl rfl
    · exact Or.inr ⟨_, rfl⟩
  · next other => exact absurd rfl (other false magnitude)

theorem sqrt_nonnegative {value : FloatValue} {least : ℚ} (positive : 0 < least)
    (above : Double.le (.finite false least) value = true) : Nonnegative (binary64.sqrt value) := by
  obtain ⟨x, y, left, right, bound⟩ := FloatValue.le_iff.mp above
  obtain rfl : x = ((least : WithTop ℚ) : WithBot (WithTop ℚ)) := (Option.some_inj.mp left).symm
  cases value with
  | finite negative magnitude =>
    obtain rfl : y = ((FloatValue.signed negative magnitude : WithTop ℚ) : WithBot (WithTop ℚ)) :=
      (Option.some_inj.mp right).symm
    have ordered : least ≤ FloatValue.signed negative magnitude := by exact_mod_cast bound
    have nonzero : magnitude ≠ 0 := by
      rintro rfl
      cases negative <;> simp only [FloatValue.signed, Bool.false_eq_true, if_false, if_true, neg_zero] at ordered <;>
        linarith
    unfold Format.sqrt
    dsimp only
    rw [if_neg nonzero, if_neg (by linarith)]
    exact Or.inr ⟨_, rfl⟩
  | infinity negative =>
    cases negative with
    | false => exact Or.inl rfl
    | true =>
      obtain rfl : y = ⊥ := (Option.some_inj.mp right).symm
      exact absurd bound (by simp)
  | nan => cases right

theorem div_nonnegative {a : ℚ} (nonzero : a ≠ 0) {value : FloatValue} (nonnegative : Nonnegative value) :
    Nonnegative (binary64.div (.finite false a) value) := by
  obtain rfl | ⟨b, rfl⟩ := nonnegative
  · exact Or.inr ⟨0, rfl⟩
  · unfold Format.div
    dsimp only
    by_cases zero : b = 0
    · rw [if_pos zero, if_neg nonzero]
      exact Or.inl rfl
    · rw [if_neg zero]
      exact convert_nonnegative _

/-- `0.9 / sqrt (max errorRatio 1e-12)` is no NaN if the error ratio is none. -/
theorem reduction_nonnegative {errorRatio : FloatValue} (number : Double.le errorRatio errorRatio = true) :
    Nonnegative (0.9 / binary64.sqrt (Double.max errorRatio 1e-12)) := by
  obtain ⟨_, _, nine_tenths, floor_ratio, self, _⟩ := literals
  have floored : Double.le (1e-12 : FloatValue) (Double.max errorRatio 1e-12) = true := by
    unfold Double.max
    split
    · exact self
    · next above => exact Double.Ordered.le_of_not_lt number self (by simpa using above)
  have root : Nonnegative (binary64.sqrt (Double.max errorRatio 1e-12)) := by
    generalize Double.max errorRatio 1e-12 = value at floored
    rw [floor_ratio] at floored
    exact sqrt_nonnegative (by norm_num) floored
  rw [nine_tenths]
  exact div_nonnegative (by norm_num) root

theorem finite_lt {a b : ℚ} :
    Double.lt (FloatValue.finite false a) (.finite false b) = true ↔ a < b := by
  constructor
  · intro above
    obtain ⟨x, y, left, right, bound⟩ := FloatValue.lt_iff.mp above
    obtain rfl := (Option.some_inj.mp left).symm
    obtain rfl := (Option.some_inj.mp right).symm
    exact_mod_cast bound
  · intro above
    exact FloatValue.lt_iff.mpr ⟨_, _, rfl, rfl, by exact_mod_cast above⟩

theorem reductionFactor_bounds {errorRatio : FloatValue} (number : Double.le errorRatio errorRatio = true) :
    ∃ factor, reductionFactor errorRatio = .finite false factor ∧ 1 / 8 ≤ factor ∧ factor ≤ 9 / 10 := by
  have nonnegative := reduction_nonnegative number
  obtain ⟨fifth, four_fifths, _, _, _, below_infinity⟩ := literals
  unfold reductionFactor Double.clamp
  split
  · exact ⟨_, fifth, by norm_num, by norm_num⟩
  · next notBelow =>
    split
    · exact ⟨_, four_fifths, by norm_num, by norm_num⟩
    · next notAbove =>
      obtain top | ⟨factor, value⟩ := nonnegative
      · rw [top] at notAbove
        exact absurd below_infinity notAbove
      · rw [value, fifth] at notBelow
        rw [value, four_fifths] at notAbove
        refine ⟨factor, value, ?_, ?_⟩
        · by_contra small
          exact notBelow (finite_lt.mpr (by linarith))
        · by_contra large
          exact notAbove (finite_lt.mpr (by linarith))

/-- Rounding a value that is not tiny changes it by less than a hundredth. -/
theorem nearest_close {x : ℚ} (least : 1 / 16 ≤ x) :
    99 / 100 * x ≤ binary64.nearest x ∧ binary64.nearest x ≤ 101 / 100 * x := by
  have positive : 0 < x := lt_of_lt_of_le (by norm_num) least
  have log : -4 ≤ Int.log 2 x := by
    have exact4 : Int.log 2 ((2 : ℚ) ^ (-4 : ℤ)) = -4 := Int.log_zpow (R := ℚ) (by decide) (-4)
    rw [← exact4]
    exact Int.log_mono_right (by norm_num) (le_trans (by norm_num) least)
  have normal : binary64.minExponent ≤ Int.log 2 x - (binary64.precision - 1) := by
    show (-1074 : ℤ) ≤ Int.log 2 x - ((53 : ℕ) - 1)
    omega
  have spacing : binary64.spacing x ≤ x * (1 / 100) :=
    (Format.spacing_le positive normal).trans (mul_le_mul_of_nonneg_left (by norm_num [binary64]) positive.le)
  constructor
  · have below : x - binary64.spacing x ≤ binary64.nearest x := Format.le_nearest x
    linarith
  · have above : binary64.nearest x ≤ x + binary64.spacing x := Format.nearest_le x
    linarith

/-- The scheduler retries with less than it attempted, whatever error it was told. -/
theorem scaledStepNs_lt {attempted : Nat} (positive : 0 < attempted) {errorRatio : FloatValue}
    (number : Double.le errorRatio errorRatio = true) :
    scaledStepNs attempted (reductionFactor errorRatio) < attempted := by
  obtain ⟨factor, value, least, most⟩ := reductionFactor_bounds number
  have one : (1 : ℚ) ≤ attempted := by exact_mod_cast positive
  have cast : (Double.ofUnsigned attempted : FloatValue) = binary64.convert (.finite false attempted) := by
    show binary64.ofRat false (attempted : ℚ) = _
    unfold Format.ofRat
    rw [if_neg (by linarith), abs_of_nonneg (by linarith), decide_eq_false (by linarith)]
  have product : ∀ magnitude, FloatValue.finite false magnitude * .finite false factor =
      binary64.convert (.finite false (magnitude * factor)) := fun _ => rfl
  obtain ⟨below, above⟩ := nearest_close (x := attempted) (by linarith)
  obtain ⟨_, scaled⟩ := nearest_close (x := binary64.nearest attempted * factor) (by nlinarith)
  unfold scaledStepNs
  rw [cast, value]
  unfold Format.convert
  dsimp only
  split
  · have infinite : FloatValue.infinity false * .finite false factor = .infinity false := by
      show (if factor = 0 then FloatValue.nan false else .infinity (false != false)) = _
      rw [if_neg (by linarith)]
      rfl
    rw [infinite]
    exact positive
  · rw [product]
    unfold Format.convert
    dsimp only
    split
    · exact positive
    · show ⌊binary64.nearest (binary64.nearest attempted * factor)⌋.toNat < attempted
      have small : binary64.nearest (binary64.nearest attempted * factor) < (attempted : ℤ) := by
        push_cast
        nlinarith
      have floor := Int.floor_lt.mpr small
      omega

variable {settings : TransientSettings} {s : Scheduler} {frame : StepFrame} {decision : TimeStepDecision}

theorem Answers.reduced (answers : Answers settings s frame decision) (forward : frame.previousTime < frame.nextTime) :
    decision.reducedStepNs < frame.nextTime - frame.previousTime := by
  cases answers with
  | measured stepPending states componentErrors =>
    exact scaledStepNs_lt (Nat.sub_pos_of_lt forward)
      (maximumError_number (continuousErrorRatio_number _ _ _ _) componentErrors)

theorem Answers.accepts (answers : Answers settings s frame decision)
    (bound : frame.eventBoundary = true ∨ frame.nextTime - frame.previousTime ≤ settings.minimumStepNs ∨
      settings.adaptiveTimeStep = false) : decision.accept = true := by
  cases answers with
  | measured stepPending states componentErrors =>
    obtain boundary | least | fixed := bound
    · simp [sessionDecision, boundary]
    · simp [sessionDecision, least]
    · simp [sessionDecision, fixed]

end LasecSimul.Scheduling
