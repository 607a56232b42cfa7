import LasecSimul.Kernels.ResetEdge
import LasecSimul.Lib.Limits
import Mathlib.Tactic.FieldSimp
import Mathlib.Tactic.Ring

/-!
# The `pid` kernel

One element of the controller in exact arithmetic. An infinite limit is an absent one, and a port that the block does
not have has no value.
-/

namespace LasecSimul.Kernels

open Lib

/-- The sign of an exact number. -/
def exactSign {K : Type} [Zero K] [LinearOrder K] (x : K) : Sign :=
  if x < 0 then .negative else if x = 0 then .zero else .positive

/-- `sgn`. -/
def sgn {K : Type} [Zero K] [One K] [Neg K] [LinearOrder K] (x : K) : K := if 0 < x then 1 else if x < 0 then -1 else 0

inductive Method where
  | forwardEuler
  | backwardEuler
  | trapezoidal
  deriving DecidableEq

inductive AntiWindup where
  | none
  | backCalculation
  | clamping
  | external
  deriving DecidableEq

/-- The ports by their role. -/
inductive PidRole where
  | u
  | y
  | p
  | i
  | d
  | n
  | b
  | c
  | reset
  | i0
  | d0
  | up
  | lo
  | tr
  | extAw
  deriving DecidableEq

/-- The parameters of the dialog. -/
inductive PidRp where
  | p
  | i
  | d
  | n
  | b
  | c
  | icI
  | icF
  deriving DecidableEq

structure Pid (K : Type) where
  twoDof : Bool
  hasP : Bool
  hasI : Bool
  hasD : Bool
  ideal : Bool
  discrete : Bool
  intMethod : Method
  filtMethod : Method
  filtered : Bool
  useKiTs : Bool
  resetMode : ResetMode
  icOutput : Bool
  limit : Bool
  antiWindup : AntiWindup
  tracking : Bool
  limitIntegrator : Bool
  ts : K
  rp : PidRp → K
  rpUpper : Option K
  rpLower : Option K
  rpIntUpper : Option K
  rpIntLower : Option K
  rpKb : K
  rpKt : K

/-- The values at the ports of an element. -/
abbrev PidPorts (K : Type) := PidRole → Option K

/-- The states of an element. -/
structure PidStates (K : Type) where
  xI : K
  xF : K
  resetPrevious : K
  mode : Bool
  initialized : Bool

structure PidEval (K : Type) where
  y : K
  yUnsat : K
  integral : K
  v : K
  preInt : K
  gI : K
  dOut : K
  fOut : K
  scaled : K

structure PidState (K : Type) where
  xI : K
  xF : K
  forceIntegrator : Bool := false
  forceFilter : Bool := false
  forcedIntegrator : K
  forcedFilter : K
  /-- Absent where the mode is decided now. -/
  clampMode : Option Bool := none

section Operations

variable {K : Type} [Field K] [LinearOrder K]

def methodFraction : Method → K
  | .forwardEuler => 0
  | .backwardEuler => 1
  | .trapezoidal => 1 / 2

def clampCondition (yUnsat : K) (lo up : Option K) (gI : K) : Bool :=
  let dz := yUnsat - saturate lo up yUnsat
  dz ≠ 0 ∧ sgn dz = sgn gI

/-- A piece of `v`, which is `alpha + beta * Y` between `from` and `to`. -/
structure Region (K : Type) where
  start : Option K
  stop : Option K
  alpha : K
  beta : K

namespace Region

def inside (region : Region K) (Y : K) : Prop := (∀ start ∈ region.start, start ≤ Y) ∧ ∀ stop ∈ region.stop, Y ≤ stop

instance (region : Region K) (Y : K) : Decidable (region.inside Y) := instDecidableAnd

/-- What one round of the search returns. -/
def solution (region : Region K) (q x : K) (iLo iUp : Option K) : Option K :=
  let z Y := x + q * (region.alpha + region.beta * Y)
  let den := 1 - q * region.beta
  let Y := (x + q * region.alpha) / den
  if den ≠ 0 ∧ region.inside Y ∧ (∀ low ∈ iLo, low ≤ Y) ∧ ∀ high ∈ iUp, Y ≤ high then some Y
  else
    (iUp.filter fun high => region.inside high ∧ high ≤ z high).or
      (iLo.filter fun low => region.inside low ∧ z low ≤ low)

end Region

namespace Pid

variable (pid : Pid K) (ports : PidPorts K)

def s : K := if pid.discrete then if pid.useKiTs then 1 else pid.ts else 0

def q : K := if pid.discrete then methodFraction pid.intMethod * pid.s else 0

def qF : K := if pid.discrete then methodFraction pid.filtMethod * pid.ts else 0

def read (role : PidRole) : K := (ports role).getD 0

def param (role : PidRole) (block : PidRp) : K := (ports role).getD (pid.rp block)

def upper : Option K := if pid.limit then (ports .up).or pid.rpUpper else none

def lower : Option K := if pid.limit then (ports .lo).or pid.rpLower else none

def intUpper : Option K := if pid.limitIntegrator then pid.rpIntUpper else none

def intLower : Option K := if pid.limitIntegrator then pid.rpIntLower else none

def clampIntegrator (x : K) : K := saturate pid.intLower pid.intUpper x

def kb : K := if pid.antiWindup = .backCalculation then pid.rpKb else 0

def kt : K := if pid.tracking then pid.rpKt else 0

def icIntegrator : K := pid.clampIntegrator (pid.param ports .i0 .icI)

def icFilter : K := pid.param ports .d0 .icF

def regions (A g TR : K) : List (Region K) :=
  let lo := pid.lower ports
  let up := pid.upper ports
  let Kb := pid.kb
  let Kt := pid.kt
  ⟨lo.map (· - A), up.map (· - A), g + Kt * (TR - A), -Kt⟩ ::
    (lo.toList.map (fun lo => ⟨none, some (lo - A), g + Kb * (lo - A) + Kt * (TR - lo), -Kb⟩) ++
      up.toList.map fun up => ⟨some (up - A), none, g + Kb * (up - A) + Kt * (TR - up), -Kb⟩)

/-- The result of the search over the regions, if there is one. -/
def solveRegions (x A g TR : K) : Option K :=
  (pid.regions ports A g TR).findSome? fun region => region.solution pid.q x pid.intLower pid.intUpper

def solveIntegrator (x A g TR : K) : K :=
  (pid.solveRegions ports x A g TR).getD <|
    let Y0 := pid.clampIntegrator x
    let y0 := saturate (pid.lower ports) (pid.upper ports) (A + Y0)
    pid.clampIntegrator (x + pid.q * (g + pid.kb * (y0 - (A + Y0)) + pid.kt * (TR - y0)))

/-- `eP`, `eI` and `eD`. -/
def errors : K × K × K :=
  if pid.twoDof then
    let r := read ports .u
    let ym := read ports .y
    (pid.param ports .b .b * r - ym, r - ym, if pid.hasD then pid.param ports .c .c * r - ym else 0)
  else (read ports .u, read ports .u, read ports .u)

/-- `pTerm`, `gI` and `Dd`. -/
def terms : K × K × K :=
  let (eP, eI, eD) := pid.errors ports
  let P := if pid.hasP then pid.param ports .p .p else 0
  let first := if pid.ideal && pid.hasP then (P * ·) else id
  (if pid.hasP then P * eP else 0, if pid.hasI then pid.param ports .i .i * first eI else 0,
    if pid.hasD then pid.param ports .d .d * first eD else 0)

/-- `fOut`, `dOut` and `scaled`. -/
def derivative (state : PidState K) (Dd : K) : K × K × K :=
  if !pid.hasD then (0, 0, 0)
  else if !pid.discrete then (state.xF, pid.param ports .n .n * (Dd - state.xF), 0)
  else if pid.filtered then
    let N := pid.param ports .n .n
    let fOut := if state.forceFilter then state.forcedFilter else (state.xF + pid.qF * N * Dd) / (1 + pid.qF * N)
    (fOut, N * (Dd - fOut), 0)
  else (0, Dd / pid.ts - state.xF, Dd / pid.ts)

def evaluate (state : PidState K) : PidEval K :=
  let (pTerm, gI, Dd) := pid.terms ports
  let (fOut, dOut, scaled) := pid.derivative ports state Dd
  let lo := pid.lower ports
  let up := pid.upper ports
  if !pid.hasI then
    let yUnsat := pTerm + dOut
    ⟨saturate lo up yUnsat, yUnsat, 0, 0, 0, gI, dOut, fOut, scaled⟩
  else
    let TR := if pid.tracking then read ports .tr else 0
    let clamping := pid.limit && pid.antiWindup == .clamping
    let external := pid.antiWindup == .external && (ports .extAw).isSome
    let finish (Y : K) (clamped : Bool) : PidEval K :=
      let yUnsat := (pTerm + Y) + dOut
      let y := saturate lo up yUnsat
      let tr := if pid.tracking then pid.kt * (TR - y) else 0
      let v := if external then read ports .extAw else ((if clamped then 0 else gI) + pid.kb * (y - yUnsat)) + tr
      ⟨y, yUnsat, Y, v, gI + tr, gI, dOut, fOut, scaled⟩
    if state.forceIntegrator then
      let e := finish state.forcedIntegrator false
      if clamping && clampCondition e.yUnsat lo up gI then finish state.forcedIntegrator true else e
    else if pid.q = 0 ∨ external then
      let Y := if pid.q = 0 then pid.clampIntegrator state.xI
        else pid.clampIntegrator (state.xI + pid.q * read ports .extAw)
      let e := finish Y false
      if clamping && state.clampMode.getD (clampCondition e.yUnsat lo up gI) then finish Y true else e
    else
      let A := pTerm + dOut
      let e := finish (pid.solveIntegrator ports state.xI A gI TR) false
      if clamping && clampCondition e.yUnsat lo up gI then finish (pid.solveIntegrator ports state.xI A 0 TR) true
      else e

/-- `pidInit`. -/
def init : PidStates K where
  xI := if (ports .i0).isSome then 0 else pid.clampIntegrator (pid.rp .icI)
  xF := if (ports .d0).isSome then 0 else pid.rp .icF
  resetPrevious := 0
  mode := false
  initialized := false

def applyInitialConditions (states : PidStates K) : PidStates K :=
  { states with
    xI := pid.icIntegrator ports
    xF := pid.icFilter ports
    mode := if pid.discrete then pid.icOutput else states.mode }

def currentState (states : PidStates K) : PidState K where
  xI := states.xI
  xF := states.xF
  forceIntegrator := pid.discrete && states.mode && pid.hasI
  forceFilter := pid.discrete && states.mode && (pid.hasD && pid.filtered)
  forcedIntegrator := pid.icIntegrator ports
  forcedFilter := pid.icFilter ports
  clampMode := if pid.discrete then none else some states.mode

/-- What `pidOutputs` does to the states at a major step before it evaluates. -/
def prepare (states : PidStates K) : PidStates K :=
  let reset := pid.resetMode ≠ .none ∧ (ports .reset).isSome ∧
    resetTriggered pid.resetMode (exactSign states.resetPrevious) (exactSign (read ports .reset))
  let states :=
    if !states.initialized ∨ reset then pid.applyInitialConditions ports states
    else if pid.discrete then { states with mode := false }
    else states
  if !pid.discrete ∧ pid.limitIntegrator then { states with xI := pid.clampIntegrator states.xI } else states

/-- `pidOutputs`, with the result that it publishes. -/
def outputs (major : Bool) (states : PidStates K) : PidStates K × PidEval K :=
  let states := if major then pid.prepare ports states else states
  let state := pid.currentState ports states
  let e := pid.evaluate ports (if !pid.discrete ∧ major then { state with clampMode := none } else state)
  let states :=
    if !pid.discrete ∧ major ∧ pid.hasI ∧ pid.limit ∧ pid.antiWindup = .clamping then
      { states with mode := clampCondition e.yUnsat (pid.lower ports) (pid.upper ports) e.gI }
    else states
  (states, e)

/-- `pidUpdate`. -/
def update (states : PidStates K) : PidStates K :=
  let e := pid.evaluate ports (pid.currentState ports states)
  let states :=
    if pid.discrete then
      { states with
        xI := if pid.hasI then pid.clampIntegrator (e.integral + (pid.s - pid.q) * e.v) else states.xI
        xF := if pid.hasD then if pid.filtered then e.fOut + (pid.ts - pid.qF) * e.dOut else e.scaled else states.xF
        mode := false }
    else states
  { states with resetPrevious := (ports .reset).getD states.resetPrevious, initialized := true }

end Pid

end Operations

end LasecSimul.Kernels

/-!
## The implicit integrator equation

The output of the integrator stands on both sides of its equation. Its right side falls, so there is one solution, and
the search over the regions of the saturation finds it.
-/

namespace LasecSimul.Kernels.Pid

open Lib

variable {K : Type} [Field K] [LinearOrder K]

/-- The input of the integrator when its output is `Y`. -/
def feedback (pid : Pid K) (ports : PidPorts K) (A g TR Y : K) : K :=
  let sat := saturate (pid.lower ports) (pid.upper ports)
  g + pid.kb * (sat (A + Y) - (A + Y)) + pid.kt * (TR - sat (A + Y))

/-- `Y` is the output of the integrator. -/
def Solves (pid : Pid K) (ports : PidPorts K) (x A g TR Y : K) : Prop :=
  Y = pid.clampIntegrator (x + pid.q * pid.feedback ports A g TR Y)

/-- What the parameters promise to the search. -/
structure WellPosed (pid : Pid K) (ports : PidPorts K) : Prop where
  fraction : 0 < pid.q
  backCalculation : 0 ≤ pid.kb
  tracking : 0 ≤ pid.kt
  output : ∀ low ∈ pid.lower ports, ∀ high ∈ pid.upper ports, low ≤ high
  integrator : ∀ low ∈ pid.intLower, ∀ high ∈ pid.intUpper, low ≤ high

namespace WellPosed

variable {pid : Pid K} {ports : PidPorts K} (posed : pid.WellPosed ports) {x A g TR Y Z : K} {region : Region K}

/-- The output limits. -/
def limits : Limits K := ⟨pid.lower ports, pid.upper ports, posed.output⟩

def integratorLimits : Limits K := ⟨pid.intLower, pid.intUpper, posed.integrator⟩

theorem solves_iff : pid.Solves ports x A g TR Y ↔
    posed.integratorLimits.clamp (x + pid.q * pid.feedback ports A g TR Y) = Y := eq_comm

theorem feedback_eq (A g TR Y : K) : pid.feedback ports A g TR Y
    = g + pid.kb * (posed.limits.clamp (A + Y) - (A + Y)) + pid.kt * (TR - posed.limits.clamp (A + Y)) := rfl

variable [IsStrictOrderedRing K]

include posed

theorem feedback_antitone (A g TR : K) : Antitone (pid.feedback ports A g TR) := by
  intro y z less
  have shifted : A + y ≤ A + z := by linarith
  have apart := posed.limits.clamp_sub_antitone shifted
  have mono := posed.limits.clamp_mono shifted
  have back := mul_le_mul_of_nonneg_left apart posed.backCalculation
  have track := mul_le_mul_of_nonneg_left (sub_le_sub_left mono TR) posed.tracking
  rw [posed.feedback_eq, posed.feedback_eq]
  exact add_le_add (add_le_add_right back g) track

theorem right_antitone (x A g TR : K) : Antitone fun Y => x + pid.q * pid.feedback ports A g TR Y := by
  intro y z less
  have falls := mul_le_mul_of_nonneg_left (posed.feedback_antitone A g TR less) posed.fraction.le
  exact add_le_add_right falls x

/-- A region describes the feedback inside it. -/
theorem feedback_of_inside (member : region ∈ pid.regions ports A g TR) (inside : region.inside Y) :
    pid.feedback ports A g TR Y = region.alpha + region.beta * Y := by
  rw [posed.feedback_eq]
  rcases List.mem_cons.mp member with rfl | member
  · have within : posed.limits.Contains (A + Y) := by
      refine ⟨fun low lower => ?_, fun high upper => ?_⟩
      · have above := inside.1 (low - A) (Option.mem_map_of_mem _ lower)
        linarith
      · have below := inside.2 (high - A) (Option.mem_map_of_mem _ upper)
        linarith
    rw [Limits.clamp_of_contains within]
    ring
  · rcases List.mem_append.mp member with member | member
    · obtain ⟨low, lower, rfl⟩ := List.mem_map.mp member
      have below := inside.2 (low - A) rfl
      rw [Limits.clamp_eq_lower (Option.mem_toList.mp lower) (by linarith)]
      ring
    · obtain ⟨high, upper, rfl⟩ := List.mem_map.mp member
      have above := inside.1 (high - A) rfl
      rw [Limits.clamp_eq_upper (Option.mem_toList.mp upper) (by linarith)]
      ring

theorem exists_region (A g TR Y : K) : ∃ region ∈ pid.regions ports A g TR, region.inside Y := by
  obtain ⟨high, upper, less, -⟩ | ⟨low, lower, less, -⟩ | ⟨inside, -⟩ := posed.limits.clamp_cases (A + Y)
  · refine ⟨_, List.mem_cons_of_mem _ (List.mem_append_right _
      (List.mem_map_of_mem (Option.mem_toList.mpr upper))), ?_, ?_⟩
    · rintro start ⟨⟩
      linarith
    · rintro stop ⟨⟩
  · refine ⟨_, List.mem_cons_of_mem _ (List.mem_append_left _
      (List.mem_map_of_mem (Option.mem_toList.mpr lower))), ?_, ?_⟩
    · rintro start ⟨⟩
    · rintro stop ⟨⟩
      linarith
  · refine ⟨_, List.mem_cons_self, ?_, ?_⟩
    · intro start bound
      obtain ⟨low, lower, rfl⟩ := Option.mem_map.mp bound
      have := inside.1 low lower
      linarith
    · intro stop bound
      obtain ⟨high, upper, rfl⟩ := Option.mem_map.mp bound
      have := inside.2 high upper
      linarith

theorem beta_nonpos (member : region ∈ pid.regions ports A g TR) : region.beta ≤ 0 := by
  have back := posed.backCalculation
  have track := posed.tracking
  rcases List.mem_cons.mp member with rfl | member
  · exact neg_nonpos.mpr track
  · rcases List.mem_append.mp member with member | member
    all_goals
      obtain ⟨_, _, rfl⟩ := List.mem_map.mp member
      exact neg_nonpos.mpr back

theorem denominator_pos (member : region ∈ pid.regions ports A g TR) : 0 < 1 - pid.q * region.beta := by
  have := mul_nonneg posed.fraction.le (neg_nonneg.mpr (posed.beta_nonpos member))
  linarith

/-- What a round of the search returns solves the equation. -/
theorem solves_of_solution (member : region ∈ pid.regions ports A g TR)
    (found : region.solution pid.q x pid.intLower pid.intUpper = some Y) : pid.Solves ports x A g TR Y := by
  rw [posed.solves_iff]
  simp only [Region.solution] at found
  split at found
  · next line =>
    obtain ⟨nonzero, inside, above, below⟩ := line
    obtain rfl := Option.some.inj found
    rw [posed.feedback_of_inside member inside]
    have fixed : x + pid.q * (region.alpha + region.beta * ((x + pid.q * region.alpha) / (1 - pid.q * region.beta)))
        = (x + pid.q * region.alpha) / (1 - pid.q * region.beta) := by
      field_simp
      ring
    rw [fixed]
    exact Limits.clamp_of_contains ⟨above, below⟩
  · rcases Option.or_eq_some_iff.mp found with found | ⟨-, found⟩
    · obtain ⟨upper, test⟩ := Option.filter_eq_some_iff.mp found
      obtain ⟨inside, beyond⟩ := of_decide_eq_true test
      rw [posed.feedback_of_inside member inside]
      exact Limits.clamp_eq_upper upper beyond
    · obtain ⟨lower, test⟩ := Option.filter_eq_some_iff.mp found
      obtain ⟨inside, beyond⟩ := of_decide_eq_true test
      rw [posed.feedback_of_inside member inside]
      exact Limits.clamp_eq_lower lower beyond

/-- A round at the region of a solution returns something. -/
theorem solution_isSome (member : region ∈ pid.regions ports A g TR) (inside : region.inside Y)
    (solves : pid.Solves ports x A g TR Y) : (region.solution pid.q x pid.intLower pid.intUpper).isSome := by
  rw [posed.solves_iff, posed.feedback_of_inside member inside] at solves
  obtain ⟨within, upper, lower⟩ := Limits.clamp_eq_iff.mp solves
  have positive := posed.denominator_pos member
  simp only [Region.solution]
  split
  · rfl
  · next other =>
    rw [Option.isSome_or, Bool.or_eq_true]
    rcases lt_trichotomy Y (x + pid.q * (region.alpha + region.beta * Y)) with less | same | less
    · exact .inl (Option.isSome_iff_exists.mpr
        ⟨Y, Option.filter_eq_some_iff.mpr ⟨upper less, decide_eq_true ⟨inside, less.le⟩⟩⟩)
    · refine absurd ⟨positive.ne', ?_⟩ other
      have line : (x + pid.q * region.alpha) / (1 - pid.q * region.beta) = Y := by
        rw [div_eq_iff positive.ne']
        linarith
      rw [line]
      exact ⟨inside, within⟩
    · exact .inr (Option.isSome_iff_exists.mpr
        ⟨Y, Option.filter_eq_some_iff.mpr ⟨lower less, decide_eq_true ⟨inside, less.le⟩⟩⟩)

/-- Without integrator limits there is a solution in one of the regions. -/
theorem exists_fixed (x A g TR : K) : ∃ Y, x + pid.q * pid.feedback ports A g TR Y = Y := by
  have fixed {region : Region K} (member : region ∈ pid.regions ports A g TR)
      (inside : region.inside ((x + pid.q * region.alpha) / (1 - pid.q * region.beta))) :
      ∃ Y, x + pid.q * pid.feedback ports A g TR Y = Y := by
    refine ⟨(x + pid.q * region.alpha) / (1 - pid.q * region.beta), ?_⟩
    rw [posed.feedback_of_inside member inside]
    have positive := (posed.denominator_pos member).ne'
    field_simp
    ring
  let middle : Region K := ⟨(pid.lower ports).map (· - A), (pid.upper ports).map (· - A), g + pid.kt * (TR - A), -pid.kt⟩
  have member : middle ∈ pid.regions ports A g TR := List.mem_cons_self
  have positive := posed.denominator_pos member
  by_cases inside : middle.inside ((x + pid.q * middle.alpha) / (1 - pid.q * middle.beta))
  · exact fixed member inside
  · rw [Region.inside, not_and_or, not_forall₂, not_forall₂] at inside
    rcases inside with ⟨start, bound, below⟩ | ⟨stop, bound, above⟩
    · obtain ⟨low, lower, rfl⟩ := Option.mem_map.mp bound
      rw [not_le, div_lt_iff₀ positive] at below
      have member : (⟨none, some (low - A), g + pid.kb * (low - A) + pid.kt * (TR - low), -pid.kb⟩ : Region K) ∈
          pid.regions ports A g TR :=
        List.mem_cons_of_mem _ (List.mem_append_left _ (List.mem_map_of_mem (Option.mem_toList.mpr lower)))
      refine fixed member ⟨nofun, ?_⟩
      rintro stop ⟨⟩
      rw [div_le_iff₀ (posed.denominator_pos member)]
      have meet : x + pid.q * (g + pid.kb * (low - A) + pid.kt * (TR - low)) - (low - A) * (1 - pid.q * -pid.kb)
          = x + pid.q * middle.alpha - (low - A) * (1 - pid.q * middle.beta) := by
        ring
      linarith
    · obtain ⟨high, upper, rfl⟩ := Option.mem_map.mp bound
      rw [not_le, lt_div_iff₀ positive] at above
      have member : (⟨some (high - A), none, g + pid.kb * (high - A) + pid.kt * (TR - high), -pid.kb⟩ : Region K) ∈
          pid.regions ports A g TR :=
        List.mem_cons_of_mem _ (List.mem_append_right _ (List.mem_map_of_mem (Option.mem_toList.mpr upper)))
      refine fixed member ⟨?_, nofun⟩
      rintro start ⟨⟩
      rw [le_div_iff₀ (posed.denominator_pos member)]
      have meet : x + pid.q * (g + pid.kb * (high - A) + pid.kt * (TR - high)) - (high - A) * (1 - pid.q * -pid.kb)
          = x + pid.q * middle.alpha - (high - A) * (1 - pid.q * middle.beta) := by
        ring
      linarith

theorem exists_solves (x A g TR : K) : ∃ Y, pid.Solves ports x A g TR Y := by
  obtain ⟨Y, fixed⟩ := posed.exists_fixed x A g TR
  exact ⟨_, posed.solves_iff.mpr (Limits.fixed_clamp (posed.right_antitone x A g TR) fixed)⟩

theorem solves_unique (first : pid.Solves ports x A g TR Y) (second : pid.Solves ports x A g TR Z) : Y = Z :=
  Limits.fixed_unique (posed.right_antitone x A g TR) (posed.solves_iff.mp first) (posed.solves_iff.mp second)

/-- The search returns, and what it returns solves the equation. -/
theorem exists_solveRegions (x A g TR : K) :
    ∃ Y, pid.solveRegions ports x A g TR = some Y ∧ pid.Solves ports x A g TR Y := by
  obtain ⟨Y, solves⟩ := posed.exists_solves x A g TR
  obtain ⟨region, member, inside⟩ := posed.exists_region A g TR Y
  have found : (pid.solveRegions ports x A g TR).isSome :=
    List.findSome?_isSome_iff.mpr ⟨region, member, posed.solution_isSome member inside solves⟩
  obtain ⟨Z, search⟩ := Option.isSome_iff_exists.mp found
  obtain ⟨other, stands, result⟩ := List.exists_of_findSome?_eq_some search
  exact ⟨Z, search, posed.solves_of_solution stands result⟩

end WellPosed

variable [IsStrictOrderedRing K]

/-- The integrator output is the only solution of its equation, and the search over the regions finds it. -/
theorem solveIntegrator_exact (pid : Pid K) (ports : PidPorts K) (posed : pid.WellPosed ports) (x A g TR : K) :
    pid.Solves ports x A g TR (pid.solveIntegrator ports x A g TR) ∧
      (∀ Y, pid.Solves ports x A g TR Y → Y = pid.solveIntegrator ports x A g TR) ∧
      (pid.solveRegions ports x A g TR).isSome := by
  obtain ⟨Y, search, solves⟩ := posed.exists_solveRegions x A g TR
  have result : pid.solveIntegrator ports x A g TR = Y := by
    rw [solveIntegrator, search]
    rfl
  rw [result, search]
  exact ⟨solves, fun Z other => posed.solves_unique other solves, rfl⟩

/-- A controller with every limit, back-calculation and tracking. -/
def limitedPid : Pid ℚ where
  twoDof := false
  hasP := true
  hasI := true
  hasD := false
  ideal := false
  discrete := true
  intMethod := .backwardEuler
  filtMethod := .forwardEuler
  filtered := false
  useKiTs := false
  resetMode := .none
  icOutput := false
  limit := true
  antiWindup := .backCalculation
  tracking := true
  limitIntegrator := true
  ts := 1
  rp := fun _ => 1
  rpUpper := some 2
  rpLower := some (-2)
  rpIntUpper := some 3
  rpIntLower := none
  rpKb := 1
  rpKt := 1

theorem solveIntegrator_exact_limited :
    (limitedPid.WellPosed fun _ => none) ∧
      limitedPid.Solves (fun _ => none) 0 1 5 0 (limitedPid.solveIntegrator (fun _ => none) 0 1 5 0) ∧
        limitedPid.solveIntegrator (fun _ => none) 0 1 5 0 = 2 := by
  have posed : limitedPid.WellPosed fun _ => none :=
    { fraction := by decide +kernel
      backCalculation := by decide +kernel
      tracking := by decide +kernel
      output := by
        rintro low ⟨⟩ high ⟨⟩
        decide
      integrator := nofun }
  exact ⟨posed, (solveIntegrator_exact limitedPid _ posed 0 1 5 0).1, by decide +kernel⟩

end LasecSimul.Kernels.Pid
