import LasecSimul.Kernels.ResetEdge
import Mathlib.Tactic.Linarith

/-!
# Kernels with modes

Relay, backlash, hit crossing, the relational operator and the switch decide their mode at a major instant; a minor
stage of the integrator reads the mode of the last one. Ports and parameters hold one value for each element of the
block's width.
-/

namespace LasecSimul.Kernels

open Lib.Binary Double

abbrev Elements := ℕ → FloatValue

/-- What a kernel is called with. -/
structure Instant where
  tNs : ℕ
  majorNs : ℕ
  major : Bool
  input : ℕ → Elements

/-- `outputs` may write the state at a major instant. -/
structure ModeKernel where
  State : Type
  outputs : Instant → State → Elements × State
  update : Instant → State → State

/-- The outputs of a major instant, those of a minor stage at the same instant after `update`. -/
def ModeKernel.NoJump (kernel : ModeKernel) (d : kernel.State) (tNs majorNs : ℕ) (input : ℕ → Elements) : Prop :=
  let major : Instant := { tNs := tNs, majorNs := tNs, major := true, input := input }
  let minor : Instant := { tNs := tNs, majorNs := majorNs, major := false, input := input }
  let published := kernel.outputs major d
  (kernel.outputs minor (kernel.update major published.2)).1 = published.1

def nonzero (value : FloatValue) : Bool := !eq value 0

def logical (value : Bool) : FloatValue := if value then 1 else 0

structure Relay where
  on : Elements
  off : Elements
  onOut : Elements
  offOut : Elements

namespace Relay

variable (p : Relay)

def next (i : ℕ) (mode u : FloatValue) : FloatValue := if le (p.on i) u then 1 else if le u (p.off i) then 0 else mode

def outputs (k : Instant) (d : Elements) : Elements × Elements :=
  (fun i =>
    let mode := if k.major then p.next i (d i) (k.input 0 i) else d i
    if nonzero mode then p.onOut i else p.offOut i, d)

def update (k : Instant) (d : Elements) : Elements := fun i => p.next i (d i) (k.input 0 i)

def kernel : ModeKernel := { State := Elements, outputs := p.outputs, update := p.update }

end Relay

structure Backlash where
  width : Elements

namespace Backlash

structure State where
  y : Elements
  mode : Elements

variable (p : Backlash)

/-- The output and the mode. -/
def backlashStep (u previous halfWidth : FloatValue) : FloatValue × FloatValue :=
  if le (previous + halfWidth) u then (u - halfWidth, 1)
  else if le u (previous - halfWidth) then (u + halfWidth, -1)
  else (previous, 0)

def half (i : ℕ) : FloatValue := 0.5 * p.width i

def outputs (k : Instant) (d : State) : Elements × State :=
  (fun i =>
    let u := k.input 0 i
    if k.major then (backlashStep u (d.y i) (p.half i)).1
    else if lt 0 (d.mode i) then u - p.half i
    else if lt (d.mode i) 0 then u + p.half i
    else d.y i, d)

def update (k : Instant) (d : State) : State :=
  { y := fun i => (backlashStep (k.input 0 i) (d.y i) (p.half i)).1
    mode := fun i => (backlashStep (k.input 0 i) (d.y i) (p.half i)).2 }

def kernel : ModeKernel := { State := State, outputs := p.outputs, update := p.update }

end Backlash

inductive HitDirection where
  | either
  | rising
  | falling
  deriving DecidableEq

structure HitCrossing where
  direction : HitDirection
  offset : Elements

namespace HitCrossing

/-- `status` is 0 at first, 1 at the recorded initial instant, 2 after `update`. -/
structure State where
  previous : Elements
  y : Elements
  status : FloatValue
  initialNs : FloatValue

variable (p : HitCrossing)

def initialInstant (k : Instant) (d : State) : Bool :=
  eq d.status 0 || (eq d.status 1 && eq (ofUnsigned k.tNs) d.initialNs)

def signal (k : Instant) (i : ℕ) : FloatValue := k.input 0 i - p.offset i

def value (k : Instant) (d : State) (i : ℕ) : FloatValue :=
  let s := p.signal k i
  if initialInstant k d then logical (eq s 0 && p.direction == .either)
  else
    let rising := risingEdge (signOf (d.previous i)) (signOf s)
    let falling := fallingEdge (signOf (d.previous i)) (signOf s)
    let crossed :=
      match p.direction with
      | .rising => rising
      | .falling => falling
      | .either => rising || falling
    if crossed then 1 else logical (eq s 0 && nonzero (d.y i))

def outputs (k : Instant) (d : State) : Elements × State :=
  if !k.major && !initialInstant k d then (d.y, d)
  else
    let record := lt d.status 2.0 && k.tNs == k.majorNs && initialInstant k d
    (p.value k d,
      if record then { previous := p.signal k, y := p.value k d, status := 1, initialNs := ofUnsigned k.tNs } else d)

def update (k : Instant) (d : State) : State :=
  { d with previous := p.signal k, y := p.value k d, status := 2.0 }

def kernel : ModeKernel := { State := State, outputs := p.outputs, update := p.update }

end HitCrossing

inductive RelOp where
  | eq
  | ne
  | lt
  | le
  | ge
  | gt
  | isInf
  | isNaN
  | isFinite
  deriving DecidableEq

structure Relational where
  op : RelOp
  zeroCross : Bool
  constant : Option Elements

namespace Relational

variable (p : Relational)

def relational (op : RelOp) (a b : FloatValue) : FloatValue :=
  match op with
  | .eq => logical (Double.eq a b)
  | .ne => logical (!Double.eq a b)
  | .lt => logical (Double.lt a b)
  | .le => logical (Double.le a b)
  | .ge => logical (Double.le b a)
  | .gt => logical (Double.lt b a)
  | .isInf => logical (!Double.isFinite a && !Double.isNaN a)
  | .isNaN => logical (Double.isNaN a)
  | .isFinite => logical (Double.isFinite a)

def value (k : Instant) (i : ℕ) : FloatValue :=
  relational p.op (k.input 0 i) (match p.constant with
    | some constant => constant i
    | none => k.input 1 i)

def outputs (k : Instant) (d : Elements) : Elements × Elements :=
  (if !k.major && p.zeroCross then d else p.value k, d)

def update (k : Instant) (_d : Elements) : Elements := p.value k

def kernel : ModeKernel := { State := Elements, outputs := p.outputs, update := p.update }

end Relational

/-! ### Switch -/

inductive SwitchCriteria where
  | ge
  | gt
  | nonzero
  deriving DecidableEq

structure Switch where
  criteria : SwitchCriteria
  zeroCross : Bool
  threshold : Elements

namespace Switch

variable (p : Switch)

def passesFirst (k : Instant) (i : ℕ) : Bool :=
  let u2 := k.input 1 i
  match p.criteria with
  | .ge => le (p.threshold i) u2
  | .gt => lt (p.threshold i) u2
  | .nonzero => Kernels.nonzero u2

def outputs (k : Instant) (d : Elements) : Elements × Elements :=
  let d := if p.zeroCross && k.major then fun i => logical (p.passesFirst k i) else d
  (fun i =>
    let first := if p.zeroCross then Kernels.nonzero (d i) else p.passesFirst k i
    if first then k.input 0 i else k.input 2 i, d)

/-- The kernel has no `update`. -/
def kernel : ModeKernel := { State := Elements, outputs := p.outputs, update := fun _ d => d }

end Switch

end LasecSimul.Kernels

/-!
## Pulse-width modulation

`pwm`. With fixed intervals the major output and the committed one count the same samples; otherwise `update` rounds the
end of a pulse to a nanosecond and `outputs` does not.
-/

namespace LasecSimul.Kernels

open Lib.Binary Double

/-- `static_cast<double>` of an `int64_t`. -/
def ofInt (n : ℤ) : FloatValue := binary64.ofRat false n

/-- `static_cast<int64_t>`; beyond the range the language leaves the result open. -/
def toInt64 : FloatValue → ℤ
  | .finite negative magnitude => if negative then -⌊magnitude⌋ else ⌊magnitude⌋
  | _ => -2 ^ 63

/-- `std::round`. -/
def roundAway : FloatValue → FloatValue
  | .finite negative magnitude => .finite negative ⌊magnitude + 1 / 2⌋
  | value => value

structure Pwm where
  fixed : Bool
  disallowZero : Bool
  period : FloatValue
  initialDelay : FloatValue
  ts : FloatValue

namespace Pwm

/-- The next start, the end of the pulse and the committed output; the sample, the high samples and the output with
fixed intervals. -/
structure State where
  d0 : FloatValue
  d1 : FloatValue
  d2 : FloatValue

variable (p : Pwm)

def clampDuty (duty : FloatValue) : FloatValue := if isNaN duty then 0 else clamp duty 0 1

def periodNs : ℕ := Nat.max 1 (Double.round (p.period * 1e9)).toNat

/-- The start of the pulse that holds at an instant, unless it is an older one. -/
def pulseAt (d : State) (tNs : ℕ) : Option FloatValue :=
  let t : FloatValue := ofUnsigned tNs
  if lt t d.d0 then none
  else
    let period : FloatValue := ofUnsigned p.periodNs
    let skipped := floor ((t - d.d0) / period)
    some (d.d0 + skipped * period)

/-- The end of a pulse. -/
def pulseEnd (start duty : FloatValue) : FloatValue := start + clampDuty duty * ofUnsigned p.periodNs

/-- The position in the period and its samples. -/
def sample (d : State) : ℤ × ℤ :=
  let samples := toInt64 (floor (p.period / p.ts + 1e-9))
  let delay := toInt64 (floor (p.initialDelay / p.ts + 1e-9))
  let index := toInt64 d.d0
  if index < delay ∨ samples < 1 then (-1, max 1 samples) else ((index - delay).tmod samples, samples)

def highSamples (duty : FloatValue) (samples : ℤ) : ℤ :=
  let high := toInt64 (floor (clampDuty duty * p.period / p.ts + 1e-9))
  if high < 0 then 0 else if samples < high then samples else high

/-- The output with fixed intervals. -/
def fixedOutput (k : Instant) (d : State) : Bool :=
  let (position, samples) := p.sample d
  if position < 0 then false
  else
    let high := if position = 0 then p.highSamples (k.input 0 0) samples else toInt64 d.d1
    decide (position < high)

def continuousOutput (k : Instant) (d : State) : Bool :=
  match p.pulseAt d k.tNs with
  | none => lt (ofUnsigned k.tNs) d.d1
  | some start => p.disallowZero || lt (ofUnsigned k.tNs) (p.pulseEnd start (k.input 0 0))

def outputs (k : Instant) (d : State) : Elements × State :=
  if k.major then (fun _ => logical (if p.fixed then p.fixedOutput k d else p.continuousOutput k d), d)
  else (fun _ => d.d2, d)

def update (k : Instant) (d : State) : State :=
  if p.fixed then
    let (position, samples) := p.sample d
    let d1 := if position = 0 then ofInt (p.highSamples (k.input 0 0) samples) else d.d1
    { d0 := d.d0 + 1
      d1 := d1
      d2 := logical (!decide (position < 0) && decide (position < toInt64 d1)) }
  else
    match p.pulseAt d k.tNs with
    | some start =>
      let d1 := roundAway (p.pulseEnd start (k.input 0 0))
      { d0 := start + ofUnsigned p.periodNs
        d1 := d1
        d2 := logical (p.disallowZero || lt (ofUnsigned k.tNs) d1) }
    | none => { d with d2 := logical (lt (ofUnsigned k.tNs) d.d1) }

def kernel : ModeKernel := { State := State, outputs := p.outputs, update := p.update }

end Pwm

end LasecSimul.Kernels
