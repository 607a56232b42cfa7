import LasecSimul.Lib.Limits
import Mathlib.Tactic.FieldSimp
import Mathlib.Tactic.Ring

/-!
# The accumulator

The block keeps its state in two places: the vector that continuous steps advance, and the published copy that activations
project onto their bounds and write back. Arithmetic is exact; a bound that is a NaN or infinite is absent.
-/

namespace LasecSimul.Signal.Accumulator

open Lib Extended

variable {K : Type}

/-- The elements of the vector of a block. -/
structure Vector (K : Type) where
  state : Extended K
  inActual : Extended K
  outActual : Extended K
  overflow : Extended K
  unmet : Extended K
  cumIn : Extended K
  cumOut : Extended K
  cumOverflow : Extended K
  cumUnmet : Extended K
  cumSpill : Extended K
  upperContactTime : Extended K
  lowerContactTime : Extended K
  compState : Extended K
  compCumIn : Extended K
  compCumOut : Extended K
  compCumOverflow : Extended K
  compCumUnmet : Extended K

/-- The compiled parameters; a configuration is refused unless the lower bound is below the upper one. -/
structure Config (K : Type) [Field K] [LinearOrder K] where
  initial : K
  lower : Extended K
  upper : Extended K
  lowerInput : Bool
  upperInput : Bool
  ordered : lt lower upper = true

/-- The values at the bound ports. -/
structure Sampled (K : Type) where
  lower : Extended K
  upper : Extended K

section Arithmetic

variable [Field K] [LinearOrder K]

def normalizeAccumulatorBounds (lower upper : Extended K) : Extended K × Extended K :=
  let lower := if isNaN lower then infinite true else lower
  (lower, if isNaN upper || lt upper lower then lower else upper)

variable (cfg : Config K)

/-- The bounds before they are normalised. -/
def rawBounds (sampled : Sampled K) : Extended K × Extended K :=
  (if cfg.lowerInput then sampled.lower else cfg.lower, if cfg.upperInput then sampled.upper else cfg.upper)

def accumulatorBounds (sampled : Sampled K) : Extended K × Extended K :=
  normalizeAccumulatorBounds (rawBounds cfg sampled).1 (rawBounds cfg sampled).2

/-- `projectedAccumulator` for all elements. -/
def projectedAccumulator (sampled : Sampled K) (reals : Vector K) : Vector K :=
  let (lower, upper) := accumulatorBounds cfg sampled
  let projected := clamp reals.state lower upper
  { reals with state := projected, cumSpill := reals.cumSpill + (reals.state - projected) }

/-- A sum and its compensation after a value. -/
def neumaierAdd (sum compensation value : Extended K) : Extended K × Extended K :=
  let total := sum + value
  (total, compensation + if le (abs value) (abs sum) then (sum - total) + value else (value - total) + sum)

def publishAccumulator (state : Vector K) : Vector K :=
  { state with
    state := state.state + state.compState
    cumIn := state.cumIn + state.compCumIn
    cumOut := state.cumOut + state.compCumOut
    cumOverflow := state.cumOverflow + state.compCumOverflow
    cumUnmet := state.cumUnmet + state.compCumUnmet }

/-- The state variable, the volumes and the contact times in the course of a step. -/
structure Course (K : Type) where
  xs : Extended K
  xc : Extended K
  overflowVolume : Extended K
  unmetVolume : Extended K
  contactRecorded : Bool
  upperContactTime : Extended K
  lowerContactTime : Extended K

/-- The spill of a bound that has moved into the state: the state and the spilled volume. -/
def spillAccumulator (xs xc lower upper : Extended K) : Extended K × Extended K × Extended K :=
  let x := xs + xc
  if lt upper x then (upper, 0, x - upper)
  else if lt x lower then (lower, 0, -(lower - x))
  else (xs, xc, 0)

/-- The flow of a step up to the contact with a bound. -/
def flowAccumulator (start : Course K) (net lower upper startS dt : Extended K) : Course K :=
  let x := start.xs + start.xc
  if lt 0 net && isFinite upper then
    let contact := (upper - x) / net
    let recorded := lt x upper && le contact dt
    let start := if recorded then { start with upperContactTime := startS + contact, contactRecorded := true } else start
    if le contact dt then { start with overflowVolume := net * (dt - max contact 0), xs := upper, xc := 0 }
    else
      let (xs, xc) := neumaierAdd start.xs start.xc (net * dt)
      { start with xs := xs, xc := xc }
  else if lt net 0 && isFinite lower then
    let contact := (x - lower) / -net
    let recorded := lt lower x && le contact dt
    let start := if recorded then { start with lowerContactTime := startS + contact, contactRecorded := true } else start
    if le contact dt then { start with unmetVolume := -net * (dt - max contact 0), xs := lower, xc := 0 }
    else
      let (xs, xc) := neumaierAdd start.xs start.xc (net * dt)
      { start with xs := xs, xc := xc }
  else
    let (xs, xc) := neumaierAdd start.xs start.xc (net * dt)
    { start with xs := xs, xc := xc }

/-- What rounding has carried over a bound. -/
def settleAccumulator (course : Course K) (x lower upper startS dt : Extended K) : Course K :=
  let reached := course.xs + course.xc
  if lt upper reached then
    { course with
      overflowVolume := course.overflowVolume + (reached - upper)
      upperContactTime := if !course.contactRecorded && lt x upper then startS + dt else course.upperContactTime
      xs := upper
      xc := 0 }
  else if lt reached lower then
    { course with
      unmetVolume := course.unmetVolume + (lower - reached)
      lowerContactTime := if !course.contactRecorded && lt lower x then startS + dt else course.lowerContactTime
      xs := lower
      xc := 0 }
  else course

/-- `stepAccumulator`; the output is `publishAccumulator` of the next state. -/
def stepAccumulator (state : Vector K) (demandIn demandOut lower upper startS dt : Extended K) : Vector K :=
  let (lower, upper) := normalizeAccumulatorBounds lower upper
  let qIn := if isNaN demandIn then 0 else demandIn
  let qOut := if isNaN demandOut then 0 else demandOut
  let (xs, xc, spilled) := spillAccumulator state.state state.compState lower upper
  let x := xs + xc
  let net := qIn - qOut
  let start : Course K :=
    { xs := xs, xc := xc, overflowVolume := 0, unmetVolume := 0, contactRecorded := false
      upperContactTime := state.upperContactTime, lowerContactTime := state.lowerContactTime }
  let course := settleAccumulator (flowAccumulator start net lower upper startS dt) x lower upper startS dt
  let (cumIn, compCumIn) := neumaierAdd state.cumIn state.compCumIn (qIn * dt)
  let (cumOut, compCumOut) := neumaierAdd state.cumOut state.compCumOut (qOut * dt - course.unmetVolume)
  let (cumOverflow, compCumOverflow) := neumaierAdd state.cumOverflow state.compCumOverflow course.overflowVolume
  let (cumUnmet, compCumUnmet) := neumaierAdd state.cumUnmet state.compCumUnmet course.unmetVolume
  let finalX := course.xs + course.xc
  let atUpper := le upper finalX && lt 0 net
  let atLower := le finalX lower && lt net 0
  { state := course.xs
    inActual := qIn
    outActual := if atLower then qIn else qOut
    overflow := if atUpper then net else 0
    unmet := if atLower then -net else 0
    cumIn := cumIn
    cumOut := cumOut
    cumOverflow := cumOverflow
    cumUnmet := cumUnmet
    cumSpill := state.cumSpill + spilled
    upperContactTime := course.upperContactTime
    lowerContactTime := course.lowerContactTime
    compState := course.xc
    compCumIn := compCumIn
    compCumOut := compCumOut
    compCumOverflow := compCumOverflow
    compCumUnmet := compCumUnmet }

/-! ### The engine -/

/-- A step that is neither accepted nor rejected yet, and the bounds it has read. -/
structure Pending (K : Type) where
  candidate : Vector K
  output : Vector K
  bounds : Extended K × Extended K

/-- `bounds` are those of the last committed step or activation. -/
structure Engine (K : Type) where
  dynamicState : Vector K
  reals : Vector K
  pending : Option (Pending K)
  bounds : Extended K × Extended K

inductive Event (K : Type) where
  | beginContinuousStep (demandIn demandOut : K) (sampled : Sampled K) (startS dt : K)
  | commitContinuousStep
  | rollbackContinuousStep
  /-- The evaluations of the block in an activation; an algebraic loop has several. -/
  | activateBatch (first : Sampled K) (more : List (Sampled K))

def init : Engine K :=
  let vector : Vector K :=
    { state := clamp (finite cfg.initial) cfg.lower cfg.upper, inActual := 0, outActual := 0, overflow := 0, unmet := 0
      cumIn := 0, cumOut := 0, cumOverflow := 0, cumUnmet := 0, cumSpill := 0, upperContactTime := -1
      lowerContactTime := -1, compState := 0, compCumIn := 0, compCumOut := 0, compCumOverflow := 0, compCumUnmet := 0 }
  { dynamicState := vector, reals := vector, pending := none, bounds := (cfg.lower, cfg.upper) }

/-- The published copy goes back into the state. -/
def writeBack (state reals : Vector K) : Vector K :=
  let moved := reals.state ≠ state.state + state.compState
  { state with
    state := if moved then reals.state else state.state
    compState := if moved then 0 else state.compState
    cumSpill := reals.cumSpill }

def step (engine : Engine K) : Event K → Engine K
  | .beginContinuousStep demandIn demandOut sampled startS dt =>
    if dt ≤ 0 ∨ engine.pending.isSome then engine
    else
      let (lower, upper) := accumulatorBounds cfg sampled
      let candidate :=
        stepAccumulator engine.dynamicState (finite demandIn) (finite demandOut) lower upper (finite startS) (finite dt)
      { engine with
        pending := some { candidate := candidate, output := publishAccumulator candidate, bounds := (lower, upper) } }
  | .commitContinuousStep =>
    match engine.pending with
    | none => engine
    | some pending =>
      { dynamicState := pending.candidate, reals := pending.output, pending := none, bounds := pending.bounds }
  | .rollbackContinuousStep => { engine with pending := none }
  | .activateBatch first more =>
    let reals := (first :: more).foldl (fun reals sampled => projectedAccumulator cfg sampled reals) engine.reals
    { engine with
      dynamicState := writeBack engine.dynamicState reals
      reals := reals
      bounds := accumulatorBounds cfg ((first :: more).getLast (List.cons_ne_nil _ _)) }

def run (events : List (Event K)) : Engine K := events.foldl (step cfg) (init cfg)

end Arithmetic

end LasecSimul.Signal.Accumulator

/-!
## Conservation in the accumulator

What has entered is in the state or has left it as outflow, overflow or spill, as long as the bounds leave the state a
number.
-/

namespace LasecSimul.Signal.Accumulator

open Lib Extended

variable {K : Type}

/-- The numbers of a vector. -/
structure Account (K : Type) where
  x : K
  cumIn : K
  cumOut : K
  cumOverflow : K
  cumUnmet : K
  cumSpill : K

section Balance

variable [Field K]

/-- A vector without infinities; exact sums need no compensation. -/
structure Vector.Holds (vector : Vector K) (account : Account K) : Prop where
  state : vector.state = finite account.x
  cumIn : vector.cumIn = finite account.cumIn
  cumOut : vector.cumOut = finite account.cumOut
  cumOverflow : vector.cumOverflow = finite account.cumOverflow
  cumUnmet : vector.cumUnmet = finite account.cumUnmet
  cumSpill : vector.cumSpill = finite account.cumSpill
  compState : vector.compState = 0
  compCumIn : vector.compCumIn = 0
  compCumOut : vector.compCumOut = 0
  compCumOverflow : vector.compCumOverflow = 0
  compCumUnmet : vector.compCumUnmet = 0

/-- Everything that has entered is accounted for once. -/
def Account.Balanced (x0 : K) (account : Account K) : Prop :=
  account.x - x0 = account.cumIn - account.cumOut - account.cumOverflow - account.cumSpill

/-- Only the state and the spill differ. -/
def Account.SameFlows (a b : Account K) : Prop :=
  a.cumIn = b.cumIn ∧ a.cumOut = b.cumOut ∧ a.cumOverflow = b.cumOverflow ∧ a.cumUnmet = b.cumUnmet

/-- Nothing is lost from one account to the next, and what has been refused is not taken back. -/
structure Account.Conserves [LinearOrder K] (a b : Account K) : Prop where
  balance : b.x - a.x =
    b.cumIn - a.cumIn - (b.cumOut - a.cumOut) - (b.cumOverflow - a.cumOverflow) - (b.cumSpill - a.cumSpill)
  overflow : a.cumOverflow ≤ b.cumOverflow
  unmet : a.cumUnmet ≤ b.cumUnmet

end Balance

section Bounds

/-- The bounds leave the state a number. -/
def Firm (raw : Extended K × Extended K) : Prop :=
  raw.1 ≠ infinite false ∧ (isFinite raw.1 = true ∨ raw.2 ≠ nan ∧ raw.2 ≠ infinite true)

def below (lower : Option K) : Extended K := lower.elim (infinite true) finite

def above (upper : Option K) : Extended K := upper.elim (infinite false) finite

variable [Field K] [LinearOrder K]

omit [Field K] in
theorem normalize_firm {raw : Extended K × Extended K} (firm : Firm raw) :
    ∃ limits : Limits K, normalizeAccumulatorBounds raw.1 raw.2 = (below limits.lower, above limits.upper) := by
  obtain ⟨lower, upper⟩ := raw
  obtain ⟨reachable, bounded⟩ := firm
  have collapse (low : K) : ∃ limits : Limits K, (finite low, finite low) = (below limits.lower, above limits.upper) :=
    ⟨⟨some low, some low, by simp⟩, rfl⟩
  have bottom (upper : Extended K) (bounded : upper ≠ nan ∧ upper ≠ infinite true) :
      ∃ limits : Limits K, normalizeAccumulatorBounds (infinite true) upper = (below limits.lower, above limits.upper) := by
    rcases upper with high | negative | _
    · exact ⟨⟨none, some high, by simp⟩, by simp [normalizeAccumulatorBounds, isNaN, lt, below, above]⟩
    · cases negative with
      | true => exact absurd rfl bounded.2
      | false => exact ⟨⟨none, none, by simp⟩, by simp [normalizeAccumulatorBounds, isNaN, lt, below, above]⟩
    · exact absurd rfl bounded.1
  rcases lower with low | negative | _
  · rcases upper with high | negative | _
    · rcases lt_or_ge high low with crossed | ordered
      · simpa [normalizeAccumulatorBounds, isNaN, crossed] using collapse low
      · refine ⟨⟨some low, some high, by simpa using ordered⟩, ?_⟩
        simp [normalizeAccumulatorBounds, isNaN, not_lt.mpr ordered, below, above]
    · cases negative with
      | true => simpa [normalizeAccumulatorBounds, isNaN, lt] using collapse low
      | false => exact ⟨⟨some low, none, by simp⟩, by simp [normalizeAccumulatorBounds, isNaN, lt, below, above]⟩
    · simpa [normalizeAccumulatorBounds, isNaN] using collapse low
  · cases negative with
    | true => exact bottom upper (by simpa [isFinite] using bounded)
    | false => exact absurd rfl reachable
  · simpa [normalizeAccumulatorBounds, isNaN] using bottom upper (by simpa [isFinite] using bounded)

omit [Field K] in
theorem normalize_limits (limits : Limits K) :
    normalizeAccumulatorBounds (below limits.lower) (above limits.upper) = (below limits.lower, above limits.upper) := by
  obtain ⟨_ | low, _ | high, ordered⟩ := limits
  · simp [normalizeAccumulatorBounds, below, above, isNaN, lt]
  · simp [normalizeAccumulatorBounds, below, above, isNaN, lt]
  · simp [normalizeAccumulatorBounds, below, above, isNaN, lt]
  · simp [normalizeAccumulatorBounds, below, above, isNaN, not_lt.mpr (ordered low rfl high rfl)]

omit [Field K] in
theorem lt_below (x : K) (lower : Option K) : lt (finite x) (below lower) = decide (∃ low ∈ lower, x < low) := by
  cases lower <;> simp [below, lt]

omit [Field K] in
theorem above_lt (x : K) (upper : Option K) : lt (above upper) (finite x) = decide (∃ high ∈ upper, high < x) := by
  cases upper <;> simp [above, lt]

omit [Field K] in
theorem clamp_limits (limits : Limits K) (x : K) :
    clamp (finite x) (below limits.lower) (above limits.upper) = finite (limits.clamp x) := by
  unfold clamp
  rw [lt_below, above_lt]
  rcases limits.clamp_cases x with ⟨high, member, more, same⟩ | ⟨low, member, less, same⟩ | ⟨inside, same⟩
  · have apart : ¬ ∃ low ∈ limits.lower, x < low := fun ⟨low, other, less⟩ =>
      absurd (limits.ordered low other high member) (more.trans less).not_ge
    rw [if_neg (by simpa using apart), if_pos (by simpa using ⟨high, member, more⟩), same, Option.mem_def.mp member]
    rfl
  · rw [if_pos (by simpa using ⟨low, member, less⟩), same, Option.mem_def.mp member]
    rfl
  · have within : (∀ low ∈ limits.lower, ¬ x < low) ∧ ∀ high ∈ limits.upper, ¬ high < x :=
      ⟨fun low member => not_lt.mpr (inside.1 low member), fun high member => not_lt.mpr (inside.2 high member)⟩
    rw [if_neg (by simpa using within.1), if_neg (by simpa using within.2), same]

end Bounds

section Step

variable [Field K] [LinearOrder K] [IsStrictOrderedRing K]

omit [IsStrictOrderedRing K] in
theorem neumaierAdd_finite (sum value : K) : neumaierAdd (finite sum) 0 (finite value) = (finite (sum + value), 0) := by
  unfold neumaierAdd
  dsimp only
  split
  · simp
  · simp

omit [IsStrictOrderedRing K] in
theorem spill_finite (limits : Limits K) (x : K) :
    spillAccumulator (finite x) 0 (below limits.lower) (above limits.upper) =
      (finite (limits.clamp x), 0, finite (x - limits.clamp x)) := by
  unfold spillAccumulator
  rw [zero_eq, finite_add, add_zero]
  dsimp only
  rw [lt_below, above_lt]
  rcases limits.clamp_cases x with ⟨high, member, more, same⟩ | ⟨low, member, less, same⟩ | ⟨inside, same⟩
  · rw [if_pos (by simpa using ⟨high, member, more⟩), same, Option.mem_def.mp member]
    simp [above]
  · have apart : ¬ ∃ high ∈ limits.upper, high < x := fun ⟨high, other, more⟩ =>
      absurd (limits.ordered low member high other) (more.trans less).not_ge
    rw [if_neg (by simpa using apart), if_pos (by simpa using ⟨low, member, less⟩), same, Option.mem_def.mp member]
    simp [below]
  · have within : (∀ low ∈ limits.lower, ¬ x < low) ∧ ∀ high ∈ limits.upper, ¬ high < x :=
      ⟨fun low member => not_lt.mpr (inside.1 low member), fun high member => not_lt.mpr (inside.2 high member)⟩
    rw [if_neg (by simpa using within.2), if_neg (by simpa using within.1), same, sub_self]

/-- What a flow leaves behind. -/
structure Flown (course : Course K) (x' overflow unmet : K) : Prop where
  xs : course.xs = finite x'
  xc : course.xc = 0
  overflowVolume : course.overflowVolume = finite overflow
  unmetVolume : course.unmetVolume = finite unmet

variable {limits : Limits K} {start : Course K} {x net dt startS : K}

/-- A step from a state within the bounds ends within them. -/
theorem flow_finite (net startS : K) (inside : limits.Contains x) (later : 0 ≤ dt) (ready : Flown start x 0 0) :
    ∃ x' overflow unmet, limits.Contains x' ∧ 0 ≤ overflow ∧ 0 ≤ unmet ∧ x' = x + net * dt - overflow + unmet ∧
      Flown (flowAccumulator start (finite net) (below limits.lower) (above limits.upper) (finite startS) (finite dt))
        x' overflow unmet := by
  obtain ⟨state, comp, dry, met⟩ := ready
  have free : Flown { start with
      xs := (neumaierAdd start.xs start.xc (finite net * finite dt)).1
      xc := (neumaierAdd start.xs start.xc (finite net * finite dt)).2 } (x + net * dt) 0 0 := by
    rw [state, comp, finite_mul, neumaierAdd_finite]
    exact ⟨rfl, rfl, dry, met⟩
  have steady (within : limits.Contains (x + net * dt)) : ∃ x' overflow unmet, limits.Contains x' ∧ 0 ≤ overflow ∧
      0 ≤ unmet ∧ x' = x + net * dt - overflow + unmet ∧ Flown { start with
        xs := (neumaierAdd start.xs start.xc (finite net * finite dt)).1
        xc := (neumaierAdd start.xs start.xc (finite net * finite dt)).2 } x' overflow unmet :=
    ⟨_, 0, 0, within, le_rfl, le_rfl, by ring, free⟩
  unfold flowAccumulator
  dsimp only
  have here : start.xs + start.xc = finite x := by rw [state, comp, zero_eq, finite_add, add_zero]
  rw [here]
  rcases lt_trichotomy 0 net with rising | rfl | falling
  · have upward : 0 ≤ net * dt := mul_nonneg rising.le later
    rcases top : limits.upper with _ | high
    · rw [if_neg (by simp [above, isFinite]), if_neg (by simp [rising.le])]
      exact steady ⟨fun low member => (inside.1 low member).trans (by linarith), fun high member => by simp [top] at member⟩
    have roof : x ≤ high := inside.2 high top
    rw [if_pos (by simp [above, isFinite, rising])]
    dsimp only [above, Option.elim]
    simp only [finite_sub, finite_div rising.ne', le_finite, lt_finite]
    by_cases reached : (high - x) / net ≤ dt
    · rw [if_pos (by simpa using reached)]
      have contact : 0 ≤ (high - x) / net := div_nonneg (sub_nonneg.mpr roof) rising.le
      refine ⟨high, net * (dt - (high - x) / net), 0, ⟨fun low member => limits.ordered low member high top,
        fun other member => (Option.mem_unique (Option.mem_def.mpr top) member).le⟩,
        mul_nonneg rising.le (sub_nonneg.mpr reached), le_rfl, ?_, ⟨rfl, rfl, ?_, ?_⟩⟩
      · field_simp
        ring
      · simp [Extended.max, not_lt.mpr contact]
      · dsimp only
        split <;> exact met
    · rw [if_neg (by simpa using reached), if_neg (by simp [reached])]
      have short : net * dt < high - x := by
        rwa [not_le, lt_div_iff₀ rising, mul_comm] at reached
      refine steady ⟨fun low member => (inside.1 low member).trans (by linarith), fun other member => ?_⟩
      rw [← Option.mem_unique (Option.mem_def.mpr top) member]
      linarith
  · rw [if_neg (by simp), if_neg (by simp)]
    exact steady (by rwa [zero_mul, add_zero])
  · have downward : net * dt ≤ 0 := mul_nonpos_of_nonpos_of_nonneg falling.le later
    rw [if_neg (by simp [falling.le])]
    rcases bottom : limits.lower with _ | low
    · rw [if_neg (by simp [below, isFinite])]
      exact steady ⟨fun low member => by simp [bottom] at member, fun high member => le_trans (by linarith) (inside.2 high member)⟩
    have floor : low ≤ x := inside.1 low bottom
    rw [if_pos (by simp [below, isFinite, falling])]
    dsimp only [below, Option.elim]
    have drain : 0 < -net := neg_pos.mpr falling
    simp only [finite_sub, finite_neg, finite_div drain.ne', le_finite, lt_finite]
    by_cases reached : (x - low) / -net ≤ dt
    · rw [if_pos (by simpa using reached)]
      have contact : 0 ≤ (x - low) / -net := div_nonneg (sub_nonneg.mpr floor) drain.le
      refine ⟨low, 0, -net * (dt - (x - low) / -net), ⟨fun other member =>
        (Option.mem_unique member (Option.mem_def.mpr bottom)).le, fun high member => limits.ordered low bottom high member⟩,
        le_rfl, mul_nonneg drain.le (sub_nonneg.mpr reached), ?_, ⟨rfl, rfl, ?_, ?_⟩⟩
      · have nonzero : net ≠ 0 := falling.ne
        field_simp
        ring
      · dsimp only
        split <;> exact dry
      · simp [Extended.max, not_lt.mpr contact]
    · rw [if_neg (by simpa using reached), if_neg (by simp [reached])]
      have short : -net * dt < x - low := by
        rwa [not_le, lt_div_iff₀ drain, mul_comm] at reached
      refine steady ⟨fun other member => ?_, fun high member => le_trans (by linarith) (inside.2 high member)⟩
      rw [Option.mem_unique member (Option.mem_def.mpr bottom)]
      linarith

omit [IsStrictOrderedRing K] in
theorem settle_finite {limits : Limits K} {course : Course K} {reached : K} (inside : limits.Contains reached)
    (state : course.xs = finite reached) (comp : course.xc = 0) (x startS dt : Extended K) :
    settleAccumulator course x (below limits.lower) (above limits.upper) startS dt = course := by
  have above' : ¬ ∃ high ∈ limits.upper, high < reached := fun ⟨high, member, more⟩ =>
    absurd (inside.2 high member) more.not_ge
  have below' : ¬ ∃ low ∈ limits.lower, reached < low := fun ⟨low, member, less⟩ =>
    absurd (inside.1 low member) less.not_ge
  unfold settleAccumulator
  rw [state, comp, zero_eq, finite_add, add_zero]
  dsimp only
  rw [above_lt, lt_below, if_neg (by simpa using above'), if_neg (by simpa using below')]

namespace Account

variable {a b c : Account K} {x0 : K}

theorem Conserves.trans (first : a.Conserves b) (second : b.Conserves c) : a.Conserves c :=
  ⟨by linarith [first.balance, second.balance], first.overflow.trans second.overflow, first.unmet.trans second.unmet⟩

theorem Conserves.balanced (conserves : a.Conserves b) (balanced : a.Balanced x0) : b.Balanced x0 := by
  have step := conserves.balance
  unfold Balanced at balanced ⊢
  linarith

end Account

theorem stepAccumulator_holds {state : Vector K} {a : Account K} (holds : state.Holds a) (limits : Limits K)
    (later : 0 ≤ dt) (demandIn demandOut : K) :
    ∃ b : Account K, (stepAccumulator state (finite demandIn) (finite demandOut) (below limits.lower)
      (above limits.upper) (finite startS) (finite dt)).Holds b ∧ a.Conserves b ∧ limits.Contains b.x := by
  unfold stepAccumulator
  rw [normalize_limits, holds.state, holds.compState]
  dsimp only
  rw [spill_finite]
  simp only [isNaN, Bool.false_eq_true, if_false, finite_sub]
  have started : Flown ⟨finite (limits.clamp a.x), 0, 0, 0, false, state.upperContactTime, state.lowerContactTime⟩
      (limits.clamp a.x) 0 0 := ⟨rfl, rfl, rfl, rfl⟩
  obtain ⟨x, overflow, unmet, within, dry, met, balance, flown⟩ :=
    flow_finite (demandIn - demandOut) startS (limits.contains_clamp a.x) later started
  rw [settle_finite within flown.xs flown.xc, flown.xs, flown.xc, flown.overflowVolume, flown.unmetVolume, holds.cumIn,
    holds.compCumIn, holds.cumOut, holds.compCumOut, holds.cumOverflow, holds.compCumOverflow, holds.cumUnmet,
    holds.compCumUnmet, holds.cumSpill, finite_mul, finite_mul, finite_sub, neumaierAdd_finite, neumaierAdd_finite,
    neumaierAdd_finite, neumaierAdd_finite]
  refine ⟨⟨x, a.cumIn + demandIn * dt, a.cumOut + (demandOut * dt - unmet), a.cumOverflow + overflow, a.cumUnmet + unmet,
    a.cumSpill + (a.x - limits.clamp a.x)⟩, ⟨rfl, rfl, rfl, rfl, rfl, rfl, rfl, rfl, rfl, rfl, rfl⟩,
    ⟨?_, le_add_of_nonneg_right dry, le_add_of_nonneg_right met⟩, within⟩
  rw [balance]
  ring

omit [LinearOrder K] [IsStrictOrderedRing K] in
theorem publish_holds {state : Vector K} {a : Account K} (holds : state.Holds a) : (publishAccumulator state).Holds a where
  state := by simp [publishAccumulator, holds.state, holds.compState]
  cumIn := by simp [publishAccumulator, holds.cumIn, holds.compCumIn]
  cumOut := by simp [publishAccumulator, holds.cumOut, holds.compCumOut]
  cumOverflow := by simp [publishAccumulator, holds.cumOverflow, holds.compCumOverflow]
  cumUnmet := by simp [publishAccumulator, holds.cumUnmet, holds.compCumUnmet]
  cumSpill := holds.cumSpill
  compState := holds.compState
  compCumIn := holds.compCumIn
  compCumOut := holds.compCumOut
  compCumOverflow := holds.compCumOverflow
  compCumUnmet := holds.compCumUnmet

omit [IsStrictOrderedRing K] in
theorem projected_holds {cfg : Config K} {reals : Vector K} {a : Account K} (holds : reals.Holds a) {sampled : Sampled K}
    (firm : Firm (rawBounds cfg sampled)) :
    ∃ (limits : Limits K) (b : Account K), accumulatorBounds cfg sampled = (below limits.lower, above limits.upper) ∧
      (projectedAccumulator cfg sampled reals).Holds b ∧ a.Conserves b ∧ a.SameFlows b ∧ limits.Contains b.x := by
  obtain ⟨limits, bounds⟩ := normalize_firm firm
  refine ⟨limits, { a with x := limits.clamp a.x, cumSpill := a.cumSpill + (a.x - limits.clamp a.x) }, bounds, ?_,
    ⟨by ring, le_rfl, le_rfl⟩, ⟨rfl, rfl, rfl, rfl⟩, limits.contains_clamp a.x⟩
  unfold projectedAccumulator accumulatorBounds
  rw [bounds, holds.state, holds.cumSpill]
  dsimp only
  rw [clamp_limits]
  exact { holds with state := rfl, cumSpill := by simp }

omit [IsStrictOrderedRing K] in
theorem writeBack_holds {state reals : Vector K} {a b : Account K} (old : state.Holds a) (new : reals.Holds b)
    (same : a.SameFlows b) : (writeBack state reals).Holds b := by
  obtain ⟨cumIn, cumOut, cumOverflow, cumUnmet⟩ := same
  have current : state.state + state.compState = finite a.x := by
    rw [old.state, old.compState, zero_eq, finite_add, add_zero]
  have moved : (writeBack state reals).state = finite b.x ∧ (writeBack state reals).compState = 0 := by
    unfold writeBack
    rw [current, new.state]
    by_cases still : b.x = a.x
    · rw [still]
      simp [old.state, old.compState]
    · simp [still]
  exact ⟨moved.1, old.cumIn.trans (by rw [cumIn]), old.cumOut.trans (by rw [cumOut]),
    old.cumOverflow.trans (by rw [cumOverflow]), old.cumUnmet.trans (by rw [cumUnmet]), new.cumSpill, moved.2,
    old.compCumIn, old.compCumOut, old.compCumOverflow, old.compCumUnmet⟩

/-- A state between the bounds. -/
def Within (bounds : Extended K × Extended K) (x : K) : Prop :=
  le bounds.1 (finite x) = true ∧ le (finite x) bounds.2 = true

omit [Field K] [IsStrictOrderedRing K] in
theorem within_limits {limits : Limits K} {x : K} (inside : limits.Contains x) :
    Within (below limits.lower, above limits.upper) x := by
  obtain ⟨_ | low, _ | high, ordered⟩ := limits
  · exact ⟨rfl, rfl⟩
  · exact ⟨rfl, by simpa [above] using inside.2 high rfl⟩
  · exact ⟨by simpa [below] using inside.1 low rfl, rfl⟩
  · exact ⟨by simpa [below] using inside.1 low rfl, by simpa [above] using inside.2 high rfl⟩

/-- Both copies of the state hold one account, which is balanced and within the current bounds. -/
structure Accounts (x0 : K) (engine : Engine K) (account : Account K) : Prop where
  state : engine.dynamicState.Holds account
  reals : engine.reals.Holds account
  balanced : account.Balanced x0
  within : Within engine.bounds account.x

/-- The bounds that an event reads leave the state a number. -/
def FirmEvent (cfg : Config K) : Event K → Prop
  | .beginContinuousStep _ _ sampled _ _ => Firm (rawBounds cfg sampled)
  | .activateBatch first more => ∀ sampled ∈ first :: more, Firm (rawBounds cfg sampled)
  | .commitContinuousStep | .rollbackContinuousStep => True

/-- The step that waits for its commit is accounted for as well. -/
structure Sound (x0 : K) (engine : Engine K) (a : Account K) : Prop where
  accounts : Accounts x0 engine a
  pending : ∀ step ∈ engine.pending, ∃ b : Account K, step.candidate.Holds b ∧ step.output.Holds b ∧ b.Balanced x0 ∧
    Within step.bounds b.x ∧ a.cumOverflow ≤ b.cumOverflow ∧ a.cumUnmet ≤ b.cumUnmet

theorem projections_hold {cfg : Config K} {first : Sampled K} {more : List (Sampled K)} {reals : Vector K}
    {a : Account K} (holds : reals.Holds a) (firm : ∀ sampled ∈ first :: more, Firm (rawBounds cfg sampled)) :
    ∃ b : Account K, ((first :: more).foldl (fun reals sampled => projectedAccumulator cfg sampled reals) reals).Holds b ∧
      a.Conserves b ∧ a.SameFlows b ∧
      Within (accumulatorBounds cfg ((first :: more).getLast (List.cons_ne_nil _ _))) b.x := by
  induction more generalizing first reals a with
  | nil =>
    obtain ⟨limits, b, bounds, projected, conserves, same, inside⟩ := projected_holds holds (firm first (by simp))
    refine ⟨b, projected, conserves, same, ?_⟩
    rw [List.getLast_singleton, bounds]
    exact within_limits inside
  | cons second more ih =>
    obtain ⟨limits, b, bounds, projected, conserves, same, inside⟩ := projected_holds holds (firm first (by simp))
    obtain ⟨c, last, onward, still, within⟩ := ih projected fun sampled member => firm sampled (List.mem_cons_of_mem _ member)
    refine ⟨c, last, conserves.trans onward, ⟨same.1.trans still.1, same.2.1.trans still.2.1,
      same.2.2.1.trans still.2.2.1, same.2.2.2.trans still.2.2.2⟩, ?_⟩
    rw [List.getLast_cons (List.cons_ne_nil _ _)]
    exact within

theorem Sound.step {cfg : Config K} {x0 : K} {engine : Engine K} {a : Account K} (sound : Sound x0 engine a)
    {event : Event K} (firm : FirmEvent cfg event) :
    ∃ b : Account K, Sound x0 (step cfg engine event) b ∧ a.cumOverflow ≤ b.cumOverflow ∧ a.cumUnmet ≤ b.cumUnmet := by
  obtain ⟨⟨state, reals, balanced, within⟩, pending⟩ := sound
  cases event with
  | beginContinuousStep demandIn demandOut sampled startS dt =>
    refine ⟨a, ?_, le_rfl, le_rfl⟩
    unfold Accumulator.step
    dsimp only
    split
    · exact ⟨⟨state, reals, balanced, within⟩, pending⟩
    · next allowed =>
      obtain ⟨limits, bounds⟩ := normalize_firm firm
      have later : 0 ≤ dt := (not_le.mp (not_or.mp allowed).1).le
      obtain ⟨b, candidate, conserves, inside⟩ := stepAccumulator_holds state limits later demandIn demandOut
      refine ⟨⟨state, reals, balanced, within⟩, ?_⟩
      rintro step here
      obtain rfl := Option.some.inj here
      rw [accumulatorBounds, bounds]
      exact ⟨b, candidate, publish_holds candidate, conserves.balanced balanced, within_limits inside,
        conserves.overflow, conserves.unmet⟩
  | commitContinuousStep =>
    unfold Accumulator.step
    cases waiting : engine.pending with
    | none => exact ⟨a, ⟨⟨state, reals, balanced, within⟩, by simp [waiting]⟩, le_rfl, le_rfl⟩
    | some step =>
      obtain ⟨b, candidate, output, settled, inside, overflow, unmet⟩ := pending step waiting
      exact ⟨b, ⟨⟨candidate, output, settled, inside⟩, by simp⟩, overflow, unmet⟩
  | rollbackContinuousStep => exact ⟨a, ⟨⟨state, reals, balanced, within⟩, by simp [Accumulator.step]⟩, le_rfl, le_rfl⟩
  | activateBatch first more =>
    have every : ∀ sampled ∈ first :: more, Firm (rawBounds cfg sampled) := firm
    obtain ⟨b, projected, conserves, same, inside⟩ := projections_hold reals every
    unfold Accumulator.step
    dsimp only
    generalize (first :: more).foldl (fun reals sampled => projectedAccumulator cfg sampled reals) engine.reals =
      published at projected ⊢
    generalize accumulatorBounds cfg ((first :: more).getLast (List.cons_ne_nil _ _)) = bounds at inside ⊢
    refine ⟨b, ⟨⟨writeBack_holds state projected same, projected, conserves.balanced balanced, inside⟩, ?_⟩,
      conserves.overflow, conserves.unmet⟩
    intro step waiting
    obtain ⟨c, candidate, output, settled, held, overflow, unmet⟩ := pending step waiting
    exact ⟨c, candidate, output, settled, held, same.2.2.1 ▸ overflow, same.2.2.2 ▸ unmet⟩

omit [Field K] [IsStrictOrderedRing K] in
theorem firm_ordered {lower upper : Extended K} (ordered : lt lower upper = true) :
    Firm (lower, upper) ∧ normalizeAccumulatorBounds lower upper = (lower, upper) := by
  rcases lower with low | (_ | _) | _ <;> rcases upper with high | (_ | _) | _ <;>
    simp_all [lt, Firm, normalizeAccumulatorBounds, isFinite, isNaN, le_of_lt]

omit [IsStrictOrderedRing K] in
theorem init_sound (cfg : Config K) : ∃ x0, (init cfg).reals.state = finite x0 ∧ Sound x0 (init cfg) ⟨x0, 0, 0, 0, 0, 0⟩ := by
  obtain ⟨firm, normal⟩ := firm_ordered cfg.ordered
  obtain ⟨limits, bounds⟩ := normalize_firm firm
  obtain ⟨lower, upper⟩ := Prod.mk.inj (normal.symm.trans bounds)
  have start : clamp (finite cfg.initial) cfg.lower cfg.upper = finite (limits.clamp cfg.initial) := by
    rw [lower, upper, clamp_limits]
  have vector : (init cfg).reals.Holds ⟨limits.clamp cfg.initial, 0, 0, 0, 0, 0⟩ :=
    ⟨start, rfl, rfl, rfl, rfl, rfl, rfl, rfl, rfl, rfl, rfl⟩
  refine ⟨limits.clamp cfg.initial, start, ⟨vector, vector, by simp [Account.Balanced], ?_⟩, by simp [init]⟩
  show Within (cfg.lower, cfg.upper) (limits.clamp cfg.initial)
  rw [lower, upper]
  exact within_limits (limits.contains_clamp _)

/-- In every run whose bounds leave the state a number, both copies are accounted for and the refused volumes grow. -/
theorem run_accounts (cfg : Config K) (before after : List (Event K))
    (firm : ∀ event ∈ before ++ after, FirmEvent cfg event) :
    ∃ x0, (init cfg).reals.state = finite x0 ∧ ∃ a b : Account K, Accounts x0 (run cfg before) a ∧
      Accounts x0 (run cfg (before ++ after)) b ∧ a.cumOverflow ≤ b.cumOverflow ∧ a.cumUnmet ≤ b.cumUnmet := by
  have onward (events : List (Event K)) (firm : ∀ event ∈ events, FirmEvent cfg event) (x0 : K) (engine : Engine K)
      (a : Account K) (sound : Sound x0 engine a) : ∃ b : Account K, Sound x0 (events.foldl (step cfg) engine) b ∧
        a.cumOverflow ≤ b.cumOverflow ∧ a.cumUnmet ≤ b.cumUnmet := by
    induction events generalizing engine a with
    | nil => exact ⟨a, sound, le_rfl, le_rfl⟩
    | cons event events ih =>
      obtain ⟨b, next, overflow, unmet⟩ := sound.step (firm event (by simp))
      obtain ⟨c, last, more, less⟩ := ih (fun other member => firm other (List.mem_cons_of_mem _ member)) _ b next
      exact ⟨c, last, overflow.trans more, unmet.trans less⟩
  obtain ⟨x0, initial, sound⟩ := init_sound cfg
  obtain ⟨a, first, -, -⟩ := onward before (fun event member => firm event (List.mem_append_left _ member)) x0 _ _ sound
  obtain ⟨b, second, overflow, unmet⟩ :=
    onward after (fun event member => firm event (List.mem_append_right _ member)) x0 _ a first
  rw [← List.foldl_append] at second
  exact ⟨x0, initial, a, b, first.accounts, second.accounts, overflow, unmet⟩

end Step

/-- A tank between 0 and 10. -/
def tank : Config ℚ :=
  { initial := 5, lower := finite 0, upper := finite 10, lowerInput := false, upperInput := false, ordered := by decide }

theorem run_accounts_tank :
    ∃ x0, (init tank).reals.state = finite x0 ∧ ∃ a b : Account ℚ,
      Accounts x0 (run tank [.beginContinuousStep 9 1 ⟨nan, nan⟩ 0 1, .commitContinuousStep]) a ∧
        Accounts x0 (run tank ([.beginContinuousStep 9 1 ⟨nan, nan⟩ 0 1, .commitContinuousStep] ++
          [.activateBatch ⟨nan, nan⟩ []])) b ∧ a.cumOverflow ≤ b.cumOverflow ∧ a.cumUnmet ≤ b.cumUnmet :=
  run_accounts tank _ _ (by
    have firm : Firm (finite (0 : ℚ), finite (10 : ℚ)) := ⟨by simp, .inl rfl⟩
    intro event member
    simp only [List.cons_append, List.nil_append, List.mem_cons, List.not_mem_nil, or_false] at member
    rcases member with rfl | rfl | rfl
    · exact firm
    · exact True.intro
    · intro sampled _
      exact firm)

/-- A tank without a bottom whose top is read from a port. -/
def bottomless : Config ℚ :=
  { initial := 5, lower := infinite true, upper := infinite false, lowerInput := false, upperInput := true
    ordered := rfl }

/-- An absent top is taken for a bottom at minus infinity. -/
theorem absentTop_empties :
    let engine := run bottomless [.activateBatch ⟨nan, nan⟩ [], .beginContinuousStep 1 0 ⟨nan, finite 10⟩ 0 1,
      .commitContinuousStep]
    engine.reals.state = nan ∧ ¬ ∃ a : Account ℚ, Accounts 5 engine a := by
  intro engine
  have lost : engine.reals.state = nan := by decide +kernel
  exact ⟨lost, fun ⟨a, accounts⟩ => by simpa [lost] using accounts.reals.state⟩

end LasecSimul.Signal.Accumulator
