import LasecSimul.Kernels.Pid
import Mathlib.Tactic.Ring

/-!
# The `discrete_integrator` kernel

One element in exact arithmetic. An infinite limit is an absent one.
-/

namespace LasecSimul.Kernels

open Lib

inductive DtiReset where
  | none
  | rising
  | falling
  | either
  | level
  | sampledLevel
  deriving DecidableEq

def dtiTriggered (mode : DtiReset) (previous current : Sign) : Bool :=
  let rising := previous.nonpositive && current == .positive
  let falling := previous == .positive && current.nonpositive
  match mode with
  | .rising => rising
  | .falling => falling
  | .either => rising || falling
  | .level => current != .zero || (previous != .zero && current == .zero)
  | .sampledLevel => current != .zero
  | .none => false

structure Dti (K : Type) where
  method : Method
  reset : DtiReset
  icExternal : Bool
  limit : Bool
  showSat : Bool
  showState : Bool
  icOutput : Bool
  gain : K
  ic : K
  upper : Option K
  lower : Option K
  period : K

/-- The values at the ports of an element. -/
structure DtiPorts (K : Type) where
  u : K
  reset : K
  x0 : K

structure DtiStates (K : Type) where
  x : K
  resetPrevious : K
  started : Bool

structure DtiStep (K : Type) where
  y : K
  next : K
  state : K

structure DtiOutput (K : Type) where
  y : K
  sat : Option K
  state : Option K

namespace Dti

variable {K : Type} [Field K] [LinearOrder K] (dti : Dti K)

def clip (v : K) : K := if dti.limit then saturate dti.lower dti.upper v else v

local instance two : Nat.AtLeastTwo 2 := inferInstance

/-- `dtiStep`. -/
def step (ports : DtiPorts K) (states : DtiStates K) : DtiStep K :=
  let reset := dti.reset ≠ .none ∧ dtiTriggered dti.reset (exactSign states.resetPrevious) (exactSign ports.reset)
  let fresh := !states.started ∨ reset
  let ic := dti.clip (if dti.icExternal then ports.x0 else dti.ic)
  let x := if fresh then ic else states.x
  let kt := dti.gain * dti.period
  let u := ports.u
  let atOutput := fresh ∧ dti.icOutput
  let state := if !states.started then ic else states.x
  match dti.method with
  | .forwardEuler => ⟨x, dti.clip (x + kt * u), state⟩
  | .backwardEuler =>
    let y := if atOutput then ic else dti.clip (x + kt * u)
    ⟨y, y, state⟩
  | .trapezoidal =>
    let y := if atOutput then ic else dti.clip (x + 1 / 2 * kt * u)
    ⟨y, y + 1 / 2 * kt * u, state⟩

/-- `dtiInit`. -/
def init : DtiStates K where
  x := dti.clip dti.ic
  resetPrevious := 0
  started := false

/-- `dtiOutputs`. -/
def outputs (ports : DtiPorts K) (states : DtiStates K) : DtiOutput K :=
  let step := dti.step ports states
  { y := step.y
    sat :=
      if dti.showSat then
        some <|
          if !dti.limit then 0
          else if dti.upper.any (· ≤ step.y) then 1
          else if dti.lower.any (step.y ≤ ·) then -1
          else 0
      else none
    state := if dti.showState then some step.state else none }

/-- `dtiUpdate`. -/
def update (ports : DtiPorts K) (states : DtiStates K) : DtiStates K where
  x := (dti.step ports states).next
  resetPrevious := if dti.reset = .none then states.resetPrevious else ports.reset
  started := true

end Dti

end LasecSimul.Kernels

/-!
## The integral path of the discrete controller

The controller limits the state that the trapezoidal method hands to the next sample; the integrator does not.
-/

namespace LasecSimul.Kernels

open Lib

variable {K : Type} [Field K] [LinearOrder K]

/-- A region without ends is solved by its line, clamped. -/
theorem Region.solution_whole (limits : Limits K) (q x alpha : K) :
    (⟨none, none, alpha, 0⟩ : Region K).solution q x limits.lower limits.upper =
      some (limits.clamp (x + q * alpha)) := by
  have line : (x + q * alpha) / (1 - q * 0) = x + q * alpha := by
    rw [mul_zero, sub_zero, div_one]
  have den : 1 - q * 0 ≠ (0 : K) := by
    rw [mul_zero, sub_zero]
    exact one_ne_zero
  have everywhere (Y : K) : (⟨none, none, alpha, 0⟩ : Region K).inside Y := ⟨nofun, nofun⟩
  simp only [Region.solution, line, zero_mul, add_zero]
  obtain ⟨high, upper, above, same⟩ | ⟨low, lower, below, same⟩ | ⟨inside, same⟩ := limits.clamp_cases (x + q * alpha)
  · rw [if_neg fun all => above.not_ge (all.2.2.2 high upper), same]
    refine Option.or_eq_some_iff.mpr (.inl (Option.filter_eq_some_iff.mpr ⟨upper, ?_⟩))
    exact decide_eq_true ⟨everywhere high, above.le⟩
  · rw [if_neg fun all => below.not_ge (all.2.2.1 low lower), same]
    refine Option.or_eq_some_iff.mpr (.inr ⟨Option.filter_eq_none_iff.mpr fun high upper => ?_,
      Option.filter_eq_some_iff.mpr ⟨lower, decide_eq_true ⟨everywhere low, below.le⟩⟩⟩)
    have far := below.trans_le (limits.ordered low lower high upper)
    simp [far]
  · rw [if_pos ⟨den, everywhere _, inside⟩, same]

/-- The ports of a controller that is fed by `u` alone. -/
def onlyU (u : K) : PidPorts K
  | .u => some u
  | _ => none

/-- A controller with its integral term only, and an integrator with the same settings. -/
structure IntegralPath (pid : Pid K) (dti : Dti K) : Prop where
  oneDof : pid.twoDof = false
  noP : pid.hasP = false
  hasI : pid.hasI = true
  noD : pid.hasD = false
  discrete : pid.discrete = true
  unlimited : pid.limit = false
  untracked : pid.tracking = false
  noReset : dti.reset = .none
  icInternal : dti.icExternal = false
  gain : dti.gain = pid.rp .i
  ic : dti.ic = pid.rp .icI
  period : dti.period = pid.s
  method : dti.method = pid.intMethod
  icOutput : dti.icOutput = pid.icOutput
  limit : dti.limit = pid.limitIntegrator
  upper : dti.upper = pid.rpIntUpper
  lower : dti.lower = pid.rpIntLower
  ordered : ∀ low ∈ pid.rpIntLower, ∀ high ∈ pid.rpIntUpper, low ≤ high

/-- The states after some samples, each a pass of outputs and an update. -/
def Pid.statesAt (pid : Pid K) (u : ℕ → K) : ℕ → PidStates K
  | 0 => pid.init (onlyU (u 0))
  | k + 1 => pid.update (onlyU (u k)) (pid.outputs (onlyU (u k)) true (pid.statesAt u k)).1

/-- The output at a sample. -/
def Pid.outputAt (pid : Pid K) (u : ℕ → K) (k : ℕ) : K := (pid.outputs (onlyU (u k)) true (pid.statesAt u k)).2.y

def Dti.statesAt (dti : Dti K) (u : ℕ → K) : ℕ → DtiStates K
  | 0 => dti.init
  | k + 1 => dti.update ⟨u k, 0, 0⟩ (dti.statesAt u k)

def Dti.outputAt (dti : Dti K) (u : ℕ → K) (k : ℕ) : K := (dti.outputs ⟨u k, 0, 0⟩ (dti.statesAt u k)).y

namespace IntegralPath

variable {pid : Pid K} {dti : Dti K} (path : IntegralPath pid dti)

include path

theorem intLower_eq : pid.intLower = if dti.limit then dti.lower else none := by
  rw [Pid.intLower, path.limit, path.lower]

theorem intUpper_eq : pid.intUpper = if dti.limit then dti.upper else none := by
  rw [Pid.intUpper, path.limit, path.upper]

/-- The limits that both share. -/
def limits : Limits K where
  lower := pid.intLower
  upper := pid.intUpper
  ordered := by
    intro low lower high upper
    rw [Pid.intLower] at lower
    rw [Pid.intUpper] at upper
    split at lower
    · next limited =>
      rw [if_pos limited] at upper
      exact path.ordered low lower high upper
    · cases lower

theorem clip_eq (v : K) : dti.clip v = path.limits.clamp v := by
  show _ = saturate pid.intLower pid.intUpper v
  rw [Dti.clip, path.intLower_eq, path.intUpper_eq]
  split
  · rfl
  · rfl

/-! ### The controller -/

/-- Without output limits and tracking there is one region. -/
theorem solveIntegrator_eq (u x A g TR : K) :
    pid.solveIntegrator (onlyU u) x A g TR = path.limits.clamp (x + pid.q * g) := by
  have kt : pid.kt = 0 := if_neg (by rw [path.untracked]; decide)
  have lower : pid.lower (onlyU u) = none := if_neg (by rw [path.unlimited]; decide)
  have upper : pid.upper (onlyU u) = none := if_neg (by rw [path.unlimited]; decide)
  have found : pid.solveRegions (onlyU u) x A g TR = some (path.limits.clamp (x + pid.q * g)) := by
    rw [Pid.solveRegions, Pid.regions, lower, upper, kt, zero_mul, add_zero, neg_zero]
    simp only [Option.map_none, Option.toList_none, List.map_nil, List.append_nil, List.findSome?_singleton]
    exact Region.solution_whole path.limits pid.q x g
  rw [Pid.solveIntegrator, found]
  rfl

theorem evaluate_eq (u : K) (state : PidState K) (Y : K)
    (output : Y = if state.forceIntegrator then state.forcedIntegrator
      else path.limits.clamp (state.xI + pid.q * (pid.rp .i * u))) :
    (pid.evaluate (onlyU u) state).y = Y ∧ (pid.evaluate (onlyU u) state).integral = Y ∧
      (pid.evaluate (onlyU u) state).v = pid.rp .i * u := by
  have lower : pid.lower (onlyU u) = none := if_neg (by rw [path.unlimited]; decide)
  have upper : pid.upper (onlyU u) = none := if_neg (by rw [path.unlimited]; decide)
  have clamp (x : K) : pid.clampIntegrator x = path.limits.clamp x := rfl
  have same (x : K) : saturate none none x = x := rfl
  have external : (onlyU u PidRole.extAw).isSome = false := rfl
  have read : Pid.read (onlyU u) .u = u := rfl
  have gain : pid.param (onlyU u) .i .i = pid.rp .i := rfl
  simp only [Pid.evaluate, Pid.terms, Pid.errors, Pid.derivative, path.oneDof, path.noP, path.hasI, path.noD,
    path.unlimited, path.untracked, lower, upper, same, external, read, gain, Bool.false_and, Bool.and_false,
    Bool.false_eq_true, if_false, Bool.not_true, Bool.not_false, if_true, id, zero_add, add_zero, sub_self, mul_zero,
    path.solveIntegrator_eq, clamp, or_false]
  split
  · next forced =>
    rw [if_pos forced] at output
    exact ⟨output.symm, output.symm, rfl⟩
  · next free =>
    rw [if_neg free] at output
    split
    · next still =>
      rw [still, zero_mul, add_zero] at output
      exact ⟨output.symm, output.symm, rfl⟩
    · exact ⟨output.symm, output.symm, rfl⟩

theorem pid_pass (u : K) (states : PidStates K) (Y : K)
    (output : Y = if !states.initialized && pid.icOutput then path.limits.clamp (pid.rp .icI)
      else path.limits.clamp ((if states.initialized then states.xI else path.limits.clamp (pid.rp .icI)) +
        pid.q * (pid.rp .i * u))) :
    (pid.outputs (onlyU u) true states).2.y = Y ∧
      (pid.update (onlyU u) (pid.outputs (onlyU u) true states).1).xI =
        path.limits.clamp (Y + (pid.s - pid.q) * (pid.rp .i * u)) ∧
      (pid.update (onlyU u) (pid.outputs (onlyU u) true states).1).initialized = true := by
  have ic : pid.icIntegrator (onlyU u) = path.limits.clamp (pid.rp .icI) := rfl
  have prepared : pid.prepare (onlyU u) states =
      if states.initialized then { states with mode := false }
      else { states with xI := path.limits.clamp (pid.rp .icI), xF := pid.rp .icF, mode := pid.icOutput } := by
    simp only [Pid.prepare, Pid.applyInitialConditions, path.discrete, ic, Bool.not_true, Bool.false_eq_true, false_and,
      if_false, if_true, onlyU, Option.isSome_none, and_false, or_false, Bool.not_eq_true']
    cases states.initialized <;> rfl
  have passed : (pid.outputs (onlyU u) true states).1 = pid.prepare (onlyU u) states := by
    simp only [Pid.outputs, path.discrete, Bool.not_true, Bool.false_eq_true, false_and, if_false, if_true]
  have published : (pid.outputs (onlyU u) true states).2 =
      pid.evaluate (onlyU u) (pid.currentState (onlyU u) (pid.prepare (onlyU u) states)) := by
    simp only [Pid.outputs, path.discrete, Bool.not_true, Bool.false_eq_true, false_and, if_false, if_true]
  have evaluated := path.evaluate_eq u (pid.currentState (onlyU u) (pid.prepare (onlyU u) states)) Y (by
    rw [output, prepared]
    simp only [Pid.currentState, path.discrete, path.hasI, ic, Bool.true_and, Bool.and_true]
    cases states.initialized <;> simp)
  rw [passed, published]
  refine ⟨evaluated.1, ?_, rfl⟩
  simp only [Pid.update, path.discrete, path.hasI, if_true, evaluated.2.1, evaluated.2.2]
  rfl

theorem dti_step (u : K) (states : DtiStates K) (x : K) (atOutput : Bool)
    (base : x = if states.started then states.x else path.limits.clamp (pid.rp .icI))
    (fresh : atOutput = (!states.started && pid.icOutput)) :
    (pid.intMethod = .forwardEuler → (dti.step ⟨u, 0, 0⟩ states).y = x ∧
      (dti.step ⟨u, 0, 0⟩ states).next = path.limits.clamp (x + pid.rp .i * pid.s * u)) ∧
    (pid.intMethod = .backwardEuler →
      (dti.step ⟨u, 0, 0⟩ states).y =
        (if atOutput then path.limits.clamp (pid.rp .icI) else path.limits.clamp (x + pid.rp .i * pid.s * u)) ∧
      (dti.step ⟨u, 0, 0⟩ states).next = (dti.step ⟨u, 0, 0⟩ states).y) ∧
    (pid.intMethod = .trapezoidal →
      (dti.step ⟨u, 0, 0⟩ states).y = (if atOutput then path.limits.clamp (pid.rp .icI)
        else path.limits.clamp (x + 1 / 2 * (pid.rp .i * pid.s) * u)) ∧
      (dti.step ⟨u, 0, 0⟩ states).next = (dti.step ⟨u, 0, 0⟩ states).y + 1 / 2 * (pid.rp .i * pid.s) * u) := by
  subst base fresh
  refine ⟨fun method => ?_, fun method => ?_, fun method => ?_⟩
  all_goals
    simp only [Dti.step, path.noReset, path.icInternal, path.gain, path.period, path.method, path.icOutput, path.ic,
      path.clip_eq, method, ne_eq, not_true_eq_false, false_and, or_false, Bool.not_eq_true', Bool.false_eq_true, if_false]
    cases states.started <;> simp

structure Lockstep (states : PidStates K) (other : DtiStates K) : Prop where
  started : states.initialized = other.started
  state : states.xI = path.limits.clamp other.x
  inside : pid.intMethod ≠ .trapezoidal ∨ other.started = false → path.limits.Contains other.x
  fresh : other.started = false → other.x = path.limits.clamp (pid.rp .icI)

theorem lockstep_start (u : K) : path.Lockstep (pid.init (onlyU u)) dti.init where
  started := rfl
  state := by
    show path.limits.clamp (pid.rp .icI) = path.limits.clamp (dti.clip dti.ic)
    rw [path.clip_eq, path.ic, Limits.clamp_clamp]
  inside := fun _ => by
    show path.limits.Contains (dti.clip dti.ic)
    rw [path.clip_eq]
    exact path.limits.contains_clamp _
  fresh := fun _ => by
    show dti.clip dti.ic = _
    rw [path.clip_eq, path.ic]

/-- What one sample of both does when the controller holds the integrator's state, clamped. -/
structure Sampled (states : PidStates K) (other : DtiStates K) (u : K) (y next : K) : Prop where
  output : (pid.outputs (onlyU u) true states).2.y = y
  state : (pid.update (onlyU u) (pid.outputs (onlyU u) true states).1).xI =
    path.limits.clamp (y + (pid.s - pid.q) * (pid.rp .i * u))
  initialized : (pid.update (onlyU u) (pid.outputs (onlyU u) true states).1).initialized = true
  nextState : (dti.update ⟨u, 0, 0⟩ other).x = next

theorem sampled {states : PidStates K} {other : DtiStates K} (sync : path.Lockstep states other) (u : K) :
    path.Sampled states other u
      (if !other.started && pid.icOutput then other.x else path.limits.clamp
        (path.limits.clamp other.x + pid.q * (pid.rp .i * u))) (dti.step ⟨u, 0, 0⟩ other).next := by
  obtain ⟨output, next, initialized⟩ := path.pid_pass u states
    (if !other.started && pid.icOutput then other.x else path.limits.clamp
        (path.limits.clamp other.x + pid.q * (pid.rp .i * u))) (by
    rw [sync.started, sync.state]
    cases started : other.started
    · rw [sync.fresh started]
      simp
    · simp)
  exact ⟨output, next, initialized, rfl⟩

theorem Sampled.lockstep {states : PidStates K} {other : DtiStates K} {u y next : K}
    (sample : path.Sampled states other u y next)
    (state : path.limits.clamp (y + (pid.s - pid.q) * (pid.rp .i * u)) = path.limits.clamp next)
    (inside : pid.intMethod ≠ .trapezoidal → path.limits.Contains next) :
    path.Lockstep (pid.update (onlyU u) (pid.outputs (onlyU u) true states).1) (dti.update ⟨u, 0, 0⟩ other) where
  started := sample.initialized
  state := by rw [sample.state, state, sample.nextState]
  inside := by
    rintro (method | fresh)
    · rw [sample.nextState]
      exact inside method
    · cases fresh
  fresh := nofun

theorem fraction : pid.q = methodFraction pid.intMethod * pid.s := by
  rw [Pid.q, if_pos path.discrete]

theorem started_base {states : PidStates K} {other : DtiStates K} (sync : path.Lockstep states other) :
    other.x = if other.started then other.x else path.limits.clamp (pid.rp .icI) := by
  split
  · rfl
  · next fresh => exact sync.fresh (by simpa using fresh)

/-- With an Euler method the two stay together. -/
theorem lockstep_euler {states : PidStates K} {other : DtiStates K} (sync : path.Lockstep states other) (u : K)
    (euler : pid.intMethod ≠ .trapezoidal) :
    (pid.outputs (onlyU u) true states).2.y = (dti.step ⟨u, 0, 0⟩ other).y ∧
      path.Lockstep (pid.update (onlyU u) (pid.outputs (onlyU u) true states).1) (dti.update ⟨u, 0, 0⟩ other) := by
  have sample := path.sampled sync u
  have held := Limits.clamp_of_contains (sync.inside (.inl euler))
  obtain ⟨forward, backward, -⟩ := path.dti_step u other other.x _ (path.started_base sync) rfl
  have scale := path.fraction
  have input : pid.s * (pid.rp .i * u) = pid.rp .i * pid.s * u := by ring
  rw [held] at sample
  cases method : pid.intMethod with
  | forwardEuler =>
    obtain ⟨y, next⟩ := forward method
    rw [method, methodFraction, zero_mul] at scale
    have same : (if !other.started && pid.icOutput then other.x
        else path.limits.clamp (other.x + pid.q * (pid.rp .i * u))) = other.x := by
      rw [scale, zero_mul, add_zero, held, ite_self]
    rw [same, next] at sample
    refine ⟨sample.output.trans y.symm, sample.lockstep _ ?_ fun _ => path.limits.contains_clamp _⟩
    rw [scale, sub_zero, Limits.clamp_clamp, input]
  | backwardEuler =>
    obtain ⟨y, next⟩ := backward method
    rw [method, methodFraction, one_mul] at scale
    have same : (if !other.started && pid.icOutput then other.x
        else path.limits.clamp (other.x + pid.q * (pid.rp .i * u))) = (dti.step ⟨u, 0, 0⟩ other).y := by
      rw [y, scale]
      split
      · next fresh => exact sync.fresh (by simpa using (Bool.and_eq_true_iff.mp fresh).1)
      · rw [input]
    have inside : path.limits.Contains (dti.step ⟨u, 0, 0⟩ other).y := by
      rw [y]
      split
      · exact path.limits.contains_clamp _
      · exact path.limits.contains_clamp _
    rw [same, next] at sample
    refine ⟨sample.output, sample.lockstep _ ?_ fun _ => inside⟩
    rw [scale, sub_self, zero_mul, add_zero]
  | trapezoidal => exact absurd method euler

variable [IsStrictOrderedRing K]

/-- With the trapezoidal method they stay together as long as the steps are harmless. -/
theorem lockstep_trapezoidal {states : PidStates K} {other : DtiStates K} (sync : path.Lockstep states other) (u : K)
    (method : pid.intMethod = .trapezoidal) :
    ((pid.outputs (onlyU u) true states).2.y = (dti.step ⟨u, 0, 0⟩ other).y ↔
      path.limits.Harmless other.x (1 / 2 * (dti.gain * dti.period) * u)) ∧
    ((pid.outputs (onlyU u) true states).2.y = (dti.step ⟨u, 0, 0⟩ other).y →
      path.Lockstep (pid.update (onlyU u) (pid.outputs (onlyU u) true states).1) (dti.update ⟨u, 0, 0⟩ other)) := by
  have sample := path.sampled sync u
  obtain ⟨-, -, trapezoidal⟩ := path.dti_step u other other.x _ (path.started_base sync) rfl
  obtain ⟨y, next⟩ := trapezoidal method
  have scale := path.fraction
  rw [method, methodFraction] at scale
  have half : pid.q * (pid.rp .i * u) = 1 / 2 * (pid.rp .i * pid.s) * u := by
    rw [scale]
    ring
  have rest : (pid.s - pid.q) * (pid.rp .i * u) = 1 / 2 * (pid.rp .i * pid.s) * u := by
    rw [scale]
    ring
  rw [path.gain, path.period]
  constructor
  · rw [sample.output, y, half]
    by_cases fresh : (!other.started && pid.icOutput) = true
    · have first : other.started = false := by simpa using (Bool.and_eq_true_iff.mp fresh).1
      rw [if_pos fresh, if_pos fresh]
      exact iff_of_true (sync.fresh first) (Limits.harmless_of_contains (sync.inside (.inr first)) _)
    · rw [if_neg fresh, if_neg fresh]
      exact Limits.clamp_step_iff _ _
  · intro same
    refine sample.lockstep _ ?_ fun euler => absurd method euler
    rw [rest, next, ← same, sample.output]

end IntegralPath

/-- The controller follows the integrator through a run of samples exactly when, with the trapezoidal method, no step
brings back a state that is outside the limits. -/
theorem integralPath_iff [IsStrictOrderedRing K] {pid : Pid K} {dti : Dti K} (path : IntegralPath pid dti) (u : ℕ → K) :
    (∀ k, pid.outputAt u k = dti.outputAt u k) ↔
      (pid.intMethod = .trapezoidal →
        ∀ k, path.limits.Harmless (dti.statesAt u k).x (1 / 2 * (dti.gain * dti.period) * u k)) := by
  have lockstep (same : ∀ k, path.Lockstep (pid.statesAt u k) (dti.statesAt u k) →
      pid.outputAt u k = dti.outputAt u k) (k : ℕ) : path.Lockstep (pid.statesAt u k) (dti.statesAt u k) := by
    induction k with
    | zero => exact path.lockstep_start (u 0)
    | succ k sync =>
      by_cases method : pid.intMethod = .trapezoidal
      · exact (path.lockstep_trapezoidal sync (u k) method).2 (same k sync)
      · exact (path.lockstep_euler sync (u k) method).2
  constructor
  · intro same method k
    exact (path.lockstep_trapezoidal (lockstep (fun k _ => same k) k) (u k) method).1.mp (same k)
  · intro harmless
    have same (k : ℕ) (sync : path.Lockstep (pid.statesAt u k) (dti.statesAt u k)) :
        pid.outputAt u k = dti.outputAt u k := by
      by_cases method : pid.intMethod = .trapezoidal
      · exact (path.lockstep_trapezoidal sync (u k) method).1.mpr (harmless method k)
      · exact (path.lockstep_euler sync (u k) method).1
    exact fun k => same k (lockstep same k)

/-- A controller with an integral term. -/
def integralPid (method : Method) (icOutput : Bool) (gain ic ts : K) (lower upper : Option K) : Pid K where
  twoDof := false
  hasP := false
  hasI := true
  hasD := false
  ideal := false
  discrete := true
  intMethod := method
  filtMethod := .forwardEuler
  filtered := false
  useKiTs := false
  resetMode := .none
  icOutput := icOutput
  limit := false
  antiWindup := .none
  tracking := false
  limitIntegrator := true
  ts := ts
  rp
    | .i => gain
    | .icI => ic
    | _ => 0
  rpUpper := none
  rpLower := none
  rpIntUpper := upper
  rpIntLower := lower
  rpKb := 0
  rpKt := 0

def integralDti (method : Method) (icOutput : Bool) (gain ic ts : K) (lower upper : Option K) : Dti K where
  method := method
  reset := .none
  icExternal := false
  limit := true
  showSat := false
  showState := false
  icOutput := icOutput
  gain := gain
  ic := ic
  upper := upper
  lower := lower
  period := ts

theorem integralPath (method : Method) (icOutput : Bool) (gain ic ts : K) {lower upper : Option K}
    (ordered : ∀ low ∈ lower, ∀ high ∈ upper, low ≤ high) :
    IntegralPath (integralPid method icOutput gain ic ts lower upper)
      (integralDti method icOutput gain ic ts lower upper) where
  oneDof := rfl
  noP := rfl
  hasI := rfl
  noD := rfl
  discrete := rfl
  unlimited := rfl
  untracked := rfl
  noReset := rfl
  icInternal := rfl
  gain := rfl
  ic := rfl
  period := rfl
  method := rfl
  icOutput := rfl
  limit := rfl
  upper := rfl
  lower := rfl
  ordered := ordered

theorem integralPath_iff_backward :
    (integralPid .backwardEuler true (2 : ℚ) 0 1 none (some 3)).outputAt (fun _ => 1) =
      (integralDti .backwardEuler true (2 : ℚ) 0 1 none (some 3)).outputAt (fun _ => 1) :=
  funext ((integralPath_iff (integralPath .backwardEuler true 2 0 1 nofun) _).mpr nofun)

/-- At the upper limit a step up and a step down leave the two apart. -/
theorem integralPath_departs :
    ¬ ∀ (pid : Pid ℚ) (dti : Dti ℚ), IntegralPath pid dti → ∀ u k, pid.outputAt u k = dti.outputAt u k := by
  intro follows
  have ordered : ∀ low ∈ some (-1 : ℚ), ∀ high ∈ some 1, low ≤ high := by
    rintro low ⟨⟩ high ⟨⟩
    decide
  have same := follows _ _ (integralPath .trapezoidal false 1 1 2 ordered) (fun k => if k = 0 then 1 else -1) 1
  revert same
  decide +kernel

end LasecSimul.Kernels
