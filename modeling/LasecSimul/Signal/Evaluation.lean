import LasecSimul.Signal.Compiler

/-!
# One block at one instant

The numeric functions of `SignalEngine.cpp` that read vectors and return values. Vectors are functions
of the index; the compiler gives every block its own indices.
-/

namespace LasecSimul.Signal

open Double

variable {R : Type} [Double R]

instance : Inhabited (InputBinding R) := ⟨⟨{}, ⟨1.0, 0.0⟩⟩⟩

instance : Inhabited (CompiledBlock R) where
  default := {
    kind := .source, output := {}, outputUnit := "", inputs := [], realParameters := [], intParameters := []
    boolParameters := [], samplePeriod := 0.0 }

namespace CompiledBlock

def real (block : CompiledBlock R) (index : Nat) : R := block.realParameters.getD index 0.0

def int (block : CompiledBlock R) (index : Nat) : Int := block.intParameters.getD index 0

def input (block : CompiledBlock R) (port : Nat) : InputBinding R := block.inputs.getD port default

def stateIndex (block : CompiledBlock R) (element : Nat) : Nat := block.stateOffset.getD 0 + element

def outputIndex (block : CompiledBlock R) (element : Nat) : Nat := block.output.offset + element

end CompiledBlock

def CompiledSignalGraph.block (graph : CompiledSignalGraph R) (index : Nat) : CompiledBlock R :=
  graph.blocks.getD index default

/-- `readSlot` of a `double`; the other types are read as they are. -/
def readReal (values : Nat → R) (binding : InputBinding R) (element : Nat) : R :=
  values (binding.source.offset + element) * binding.conversion.scale + binding.conversion.offset

def readSlot {α : Type} (values : Nat → α) (binding : InputBinding R) (element : Nat) : α :=
  values (binding.source.offset + element)

def window (values : Nat → R) (offset width : Nat) : List R :=
  (List.range width).map fun index => values (offset + index)

/-- A window with new contents. -/
def store {α : Type} (values : Nat → α) (offset width : Nat) (contents : Nat → α) : Nat → α := fun index =>
  if offset ≤ index ∧ index < offset + width then contents (index - offset) else values index

theorem store_outside {α : Type} {values contents : Nat → α} {offset width index : Nat}
    (outside : ¬(offset ≤ index ∧ index < offset + width)) : store values offset width contents index = values index :=
  if_neg outside

theorem store_inside {α : Type} {values contents : Nat → α} {offset width element : Nat} (inside : element < width) :
    store values offset width contents (offset + element) = contents element := by
  unfold store
  rw [if_pos (by omega), Nat.add_sub_cancel_left]

def storeList (values : Nat → R) (offset width : Nat) (contents : List R) : Nat → R :=
  store values offset width fun index => contents.getD index (values (offset + index))

inductive AccumulatorElement where
  | state | inActual | outActual | overflow | unmet | cumIn | cumOut | cumOverflow | cumUnmet | cumSpill
  | upperContactTime | lowerContactTime | compState | compCumIn | compCumOut | compCumOverflow
  | compCumUnmet
  deriving DecidableEq

namespace AccumulatorElement

def index : AccumulatorElement → Nat
  | state => 0
  | inActual => 1
  | outActual => 2
  | overflow => 3
  | unmet => 4
  | cumIn => 5
  | cumOut => 6
  | cumOverflow => 7
  | cumUnmet => 8
  | cumSpill => 9
  | upperContactTime => 10
  | lowerContactTime => 11
  | compState => 12
  | compCumIn => 13
  | compCumOut => 14
  | compCumOverflow => 15
  | compCumUnmet => 16

def list : List AccumulatorElement :=
  [state, inActual, outActual, overflow, unmet, cumIn, cumOut, cumOverflow, cumUnmet, cumSpill,
    upperContactTime, lowerContactTime, compState, compCumIn, compCumOut, compCumOverflow, compCumUnmet]

end AccumulatorElement

def normalizeAccumulatorBounds (lower upper : R) : R × R :=
  let lower := if isNaN lower then -infinity else lower
  let upper := if isNaN upper || lt upper lower then lower else upper
  (lower, upper)

def accumulatorBounds (block : CompiledBlock R) (reals : Nat → R) : R × R :=
  let lowerInput := !eq (block.real 3) 0.0
  let upperInput := !eq (block.real 4) 0.0
  let lower := if lowerInput then readReal reals (block.input 2) 0 else block.real 1
  let upper := if upperInput then readReal reals (block.input (if lowerInput then 3 else 2)) 0
    else block.real 2
  normalizeAccumulatorBounds lower upper

def projectedAccumulator (block : CompiledBlock R) (reals : Nat → R) (element : Nat) : R :=
  let bounds := accumulatorBounds block reals
  let x := reals (block.outputIndex AccumulatorElement.state.index)
  let projected := clamp x bounds.1 bounds.2
  if element = AccumulatorElement.state.index then projected
  else if element = AccumulatorElement.cumSpill.index then
    reals (block.outputIndex AccumulatorElement.cumSpill.index) + (x - projected)
  else reals (block.outputIndex element)

/-- The sum and its compensation after one more term. -/
def neumaierAdd (sum compensation value : R) : R × R :=
  let total := sum + value
  (total, compensation + (if le (Double.abs value) (Double.abs sum) then (sum - total) + value
    else (value - total) + sum))

/-- What is published is the state with the compensated sums combined. -/
def publishAccumulator (state : AccumulatorElement → R) : AccumulatorElement → R
  | .state => state .state + state .compState
  | .cumIn => state .cumIn + state .compCumIn
  | .cumOut => state .cumOut + state .compCumOut
  | .cumOverflow => state .cumOverflow + state .compCumOverflow
  | .cumUnmet => state .cumUnmet + state .compCumUnmet
  | element => state element

/-- One step with held demands over `dt`; the result is the next state. -/
def stepAccumulator (state : AccumulatorElement → R) (demandIn demandOut lower upper startS dt : R) :
    AccumulatorElement → R := Id.run do
  let bounds := normalizeAccumulatorBounds lower upper
  let lower := bounds.1
  let upper := bounds.2
  let qIn := if isNaN demandIn then 0.0 else demandIn
  let qOut := if isNaN demandOut then 0.0 else demandOut
  let mut x := state .state + state .compState
  let mut xs := state .state
  let mut xc := state .compState
  let mut cumSpill := state .cumSpill
  let mut upperContactTime := state .upperContactTime
  let mut lowerContactTime := state .lowerContactTime
  if lt upper x then
    cumSpill := cumSpill + (x - upper)
    xs := upper
    xc := 0.0
    x := upper
  else if lt x lower then
    cumSpill := cumSpill - (lower - x)
    xs := lower
    xc := 0.0
    x := lower
  let net := qIn - qOut
  let mut overflowVolume : R := 0.0
  let mut unmetVolume : R := 0.0
  let mut contactRecorded := false
  if lt 0.0 net && isFinite upper then
    let contact := (upper - x) / net
    if lt x upper && le contact dt then
      upperContactTime := startS + contact
      contactRecorded := true
    if le contact dt then
      overflowVolume := net * (dt - Double.max contact 0.0)
      xs := upper
      xc := 0.0
    else
      let sum := neumaierAdd xs xc (net * dt)
      xs := sum.1
      xc := sum.2
  else if lt net 0.0 && isFinite lower then
    let contact := (x - lower) / -net
    if lt lower x && le contact dt then
      lowerContactTime := startS + contact
      contactRecorded := true
    if le contact dt then
      unmetVolume := -net * (dt - Double.max contact 0.0)
      xs := lower
      xc := 0.0
    else
      let sum := neumaierAdd xs xc (net * dt)
      xs := sum.1
      xc := sum.2
  else
    let sum := neumaierAdd xs xc (net * dt)
    xs := sum.1
    xc := sum.2
  let reached := xs + xc
  if lt upper reached then
    overflowVolume := overflowVolume + (reached - upper)
    if !contactRecorded && lt x upper then upperContactTime := startS + dt
    xs := upper
    xc := 0.0
  else if lt reached lower then
    unmetVolume := unmetVolume + (lower - reached)
    if !contactRecorded && lt lower x then lowerContactTime := startS + dt
    xs := lower
    xc := 0.0
  let cumIn := neumaierAdd (state .cumIn) (state .compCumIn) (qIn * dt)
  let cumOut := neumaierAdd (state .cumOut) (state .compCumOut) (qOut * dt - unmetVolume)
  let cumOverflow := neumaierAdd (state .cumOverflow) (state .compCumOverflow) overflowVolume
  let cumUnmet := neumaierAdd (state .cumUnmet) (state .compCumUnmet) unmetVolume
  let finalX := xs + xc
  let atUpper := le upper finalX && lt 0.0 net
  let atLower := le finalX lower && lt net 0.0
  return fun
    | .state => xs
    | .inActual => qIn
    | .outActual => if atLower then qIn else qOut
    | .overflow => if atUpper then net else 0.0
    | .unmet => if atLower then -net else 0.0
    | .cumIn => cumIn.1
    | .cumOut => cumOut.1
    | .cumOverflow => cumOverflow.1
    | .cumUnmet => cumUnmet.1
    | .cumSpill => cumSpill
    | .upperContactTime => upperContactTime
    | .lowerContactTime => lowerContactTime
    | .compState => xc
    | .compCumIn => cumIn.2
    | .compCumOut => cumOut.2
    | .compCumOverflow => cumOverflow.2
    | .compCumUnmet => cumUnmet.2

def wrapAdd (left right : Int) : Int := (left + right).bmod 18446744073709551616

def wrapMultiply (left right : Int) : Int := (left * right).bmod 18446744073709551616

/-- `vector::at`. -/
def vectorAt {α : Type} (values : List α) (index : Nat) : Except Exception α :=
  orThrow values[index]? (.outOfRange "vector::at")

/-- A scalar parameter stands for every element. -/
def sourceValue {α : Type} (parameters : List α) (element : Nat) : Except Exception α :=
  match parameters with
  | [value] => .ok value
  | _ => vectorAt parameters element

/-- The stack code of a calc expression; the parser has checked the depth of the stack. -/
def runExpression (block : CompiledBlock R) (reals : Nat → R) (element : Nat) :
    List (ExpressionInstruction R) → List R → R
  | [], stack => stack.getLastD 0.0
  | .constant value :: code, stack => runExpression block reals element code (value :: stack)
  | .input index :: code, stack =>
    runExpression block reals element code (readReal reals (block.input index) element :: stack)
  | .negate :: code, top :: stack => runExpression block reals element code (-top :: stack)
  | .add :: code, right :: left :: stack => runExpression block reals element code ((left + right) :: stack)
  | .subtract :: code, right :: left :: stack => runExpression block reals element code ((left - right) :: stack)
  | .multiply :: code, right :: left :: stack => runExpression block reals element code ((left * right) :: stack)
  | .divide :: code, right :: left :: stack => runExpression block reals element code ((left / right) :: stack)
  | .power :: code, right :: left :: stack => runExpression block reals element code ((pow left right) :: stack)
  | .greater :: code, right :: left :: stack =>
    runExpression block reals element code ((if lt right left then 1.0 else 0.0) :: stack)
  | .less :: code, right :: left :: stack =>
    runExpression block reals element code ((if lt left right then 1.0 else 0.0) :: stack)
  | _ :: code, stack => runExpression block reals element code stack

/-- The order of the state space of a block. -/
def stateOrder (block : CompiledBlock R) : Nat := (block.int 0).toNat

/-- `C x + d u` of a state-space block. -/
def stateSpaceOutput (block : CompiledBlock R) (state : Nat → R) (start input : R) : R :=
  let n := stateOrder block
  (List.range n).foldl (fun value row => value + block.real (n * n + n + row) * state row) start +
    block.real (n * n + 2 * n) * input

def evaluateReal (block : CompiledBlock R) (reals dynamicState : Nat → R) (bools : Nat → Bool)
    (element : Nat) : Except Exception R :=
  match block.kind with
  | .source => sourceValue block.realParameters element
  | .externalInput => .ok (reals (block.outputIndex element))
  | .gain =>
    .ok (readReal reals (block.input 0) element * if block.realParameters.isEmpty then 1.0 else block.real 0)
  | .sum => .ok (block.inputs.foldl (fun value input => value + readReal reals input element) 0.0)
  | .product => .ok (block.inputs.foldl (fun value input => value * readReal reals input element) 1.0)
  | .limiter => do
    let low ← vectorAt block.realParameters 0
    let high ← vectorAt block.realParameters 1
    return clamp (readReal reals (block.input 0) element) low high
  | .selector =>
    .ok (if readSlot bools (block.input 0) element then readReal reals (block.input 1) element
      else readReal reals (block.input 2) element)
  | .probe => .ok (readReal reals (block.input 0) element)
  | .valveCharacteristic =>
    .ok (block.real 0 * pow (Double.max 0.0 (readReal reals (block.input 0) element)) (block.real 1))
  | .saturation => .ok (clamp (readReal reals (block.input 0) element) (block.real 0) (block.real 1))
  | .deadband =>
    let input := readReal reals (block.input 0) element
    let halfWidth := block.real 0 * 0.5
    .ok (if le (Double.abs input) halfWidth then 0.0 else input - copysign halfWidth input)
  | .element => .ok (readReal reals (block.input 0) (toUnsigned (block.real 0)))
  | .accumulator => .ok (projectedAccumulator block reals element)
  | .integrator | .filteredDerivative | .unitDelay | .deadTime | .firstOrder | .secondOrder | .leadLag
  | .fopdt | .hysteresis | .stiction | .rateLimiter | .pid => .ok (reals (block.outputIndex element))
  | .stateSpaceContinuous | .stateSpaceDiscrete =>
    .ok (stateSpaceOutput block (fun row => dynamicState (block.stateIndex row)) 0.0
      (readReal reals (block.input 0) 0))
  | .calcExpression => .ok (runExpression block reals element block.expression [])
  | .discreteTransferFunction | .kernel => .ok 0.0

def evaluateInt (block : CompiledBlock R) (ints : Nat → Int) (bools : Nat → Bool) (element : Nat) :
    Except Exception Int :=
  match block.kind with
  | .source => sourceValue block.intParameters element
  | .externalInput => .ok (ints (block.outputIndex element))
  | .gain => .ok (wrapMultiply (readSlot ints (block.input 0) element) (block.int 0))
  | .sum => .ok (block.inputs.foldl (fun value input => wrapAdd value (readSlot ints input element)) 0)
  | .product => .ok (block.inputs.foldl (fun value input => wrapMultiply value (readSlot ints input element)) 1)
  | .limiter => do
    let low ← vectorAt block.intParameters 0
    let high ← vectorAt block.intParameters 1
    let value := readSlot ints (block.input 0) element
    return if value < low then low else if high < value then high else value
  | .selector =>
    .ok (if readSlot bools (block.input 0) element then readSlot ints (block.input 1) element
      else readSlot ints (block.input 2) element)
  | .probe => .ok (readSlot ints (block.input 0) element)
  | _ => .error (.logicError "operacao nao suportada para Int64")

def evaluateBool (block : CompiledBlock R) (bools : Nat → Bool) (element : Nat) : Except Exception Bool :=
  match block.kind with
  | .source => sourceValue block.boolParameters element
  | .externalInput => .ok (bools (block.outputIndex element))
  | .selector =>
    .ok (if readSlot bools (block.input 0) element then readSlot bools (block.input 1) element
      else readSlot bools (block.input 2) element)
  | .probe => .ok (readSlot bools (block.input 0) element)
  | _ => .error (.logicError "operacao nao suportada para Bool")

/-- The output of a discrete transfer function; its state is the past inputs and the past outputs. -/
def discreteTransferOutput (block : CompiledBlock R) (dynamicState : Nat → R) (input : R) : R :=
  let numeratorCount := (block.int 0).toNat
  let order := (block.int 1).toNat - 1
  let relativeDegree := (block.int 1).toNat - numeratorCount
  (List.range order).foldl (fun output j =>
      let numeratorIndex := if j + 1 ≥ relativeDegree then j + 1 - relativeDegree else numeratorCount
      let forward := if numeratorIndex < numeratorCount then
        output + block.real numeratorIndex * dynamicState (block.stateIndex j) else output
      forward - block.real (numeratorCount + j + 1) * dynamicState (block.stateIndex (order + j)))
    (if relativeDegree = 0 then block.real 0 * input else 0.0)

/-- The state of one PID element: integral, previous basis, filtered derivative, initialized. -/
structure PidState (R : Type) where
  integral : R
  previousBasis : R
  filteredDerivative : R
  initialized : R

/-- One activation of a PID element: its next state and its output. -/
def stepPid (block : CompiledBlock R) (reals : Nat → R) (element periodNs : Nat) (state : PidState R) :
    PidState R × R :=
  let remoteSp := readReal reals (block.input 0) element
  let pv := readReal reals (block.input 1) element
  let kc := block.real 0
  let ti := block.real 1
  let td := block.real 2
  let bias := block.real 3
  let filterTau := block.real 4
  let minimum := block.real 5
  let maximum := block.real 6
  let action := block.real 7
  let derivativeOnPv := !eq (block.real 8) 0.0
  let flag (index : Nat) : Bool := block.realParameters.length > index && !eq (block.real index) 0.0
  let manual := if block.inputs.length > 2 then lt (readReal reals (block.input 2) element) 0.5 else flag 10
  let manualOutput := if block.realParameters.length > 11 then block.real 11 else 0.0
  let localMode := if block.inputs.length > 3 then le 0.5 (readReal reals (block.input 3) element) else flag 12
  let sp := if localMode && block.realParameters.length > 13 then block.real 13 else remoteSp
  let error := action * (sp - pv)
  let basis := if derivativeOnPv then pv else error
  let sign : R := if derivativeOnPv then -1.0 else 1.0
  if manual then
    ({ integral := clamp manualOutput minimum maximum - bias - kc * action * (sp - pv)
       previousBasis := basis
       filteredDerivative := 0.0
       initialized := 1.0 }, clamp manualOutput minimum maximum)
  else
    let dt := ofUnsigned periodNs * 1e-9
    let started := !eq state.initialized 0.0
    let filteredDerivative :=
      if started && lt 0.0 td then
        state.filteredDerivative +
          dt / (filterTau + dt) * ((basis - state.previousBasis) / dt - state.filteredDerivative)
      else state.filteredDerivative
    let derivativeTerm := kc * td * filteredDerivative * sign
    let integralDelta := if lt 0.0 ti then kc * error * dt / ti else 0.0
    let integralCandidate := state.integral + integralDelta
    let unconstrained := bias + kc * error + integralCandidate + derivativeTerm
    let saturated := (lt maximum unconstrained && lt 0.0 integralDelta) ||
      (lt unconstrained minimum && lt integralDelta 0.0)
    let integral := if started && !saturated then integralCandidate else state.integral
    ({ integral, previousBasis := basis, filteredDerivative
       initialized := if started then state.initialized else 1.0 },
      clamp (bias + kc * error + integral + derivativeTerm) minimum maximum)

/-- The output of UnitDelay, Hysteresis and Stiction from the previous one. -/
def discreteOutput (block : CompiledBlock R) (previous input : R) : R :=
  match block.kind with
  | .hysteresis =>
    if le input (block.real 0) then block.real 2
    else if le (block.real 1) input then block.real 3
    else previous
  | .stiction =>
    let delta := input - previous
    if le (block.real 0) (Double.abs delta) then input - copysign (block.real 1) delta else previous
  | _ => previous

end LasecSimul.Signal
