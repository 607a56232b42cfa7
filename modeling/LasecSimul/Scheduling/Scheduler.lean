import LasecSimul.Lib.Trace
import Mathlib.Data.Finset.Basic
import Mathlib.Data.List.Sort

/-!
# The event queue and the clock (`Scheduler.hpp`, `Scheduler.cpp`)

The data the mutex protects and the functions that run under it. Times are below `2 ^ 64`; the one
sum that may wrap is the time of `scheduleEvent`. Tracing, profiling counters and real-time pacing
are left out.
-/

namespace LasecSimul.Scheduling

structure ScheduledEvent where
  timeNs : Nat
  componentIndex : Option Nat
  sequence : Nat
  callback : Bool
  soft : Bool
  deriving DecidableEq

/-- `ScheduledEventOrder`, read as "is served no later than". -/
def ScheduledEvent.NoLater (a b : ScheduledEvent) : Prop :=
  a.timeNs < b.timeNs ∨ a.timeNs = b.timeNs ∧ a.sequence ≤ b.sequence

instance : DecidableRel ScheduledEvent.NoLater := fun a b =>
  inferInstanceAs (Decidable (a.timeNs < b.timeNs ∨ a.timeNs = b.timeNs ∧ a.sequence ≤ b.sequence))

instance : Std.Total ScheduledEvent.NoLater where
  total a b := by unfold ScheduledEvent.NoLater; omega

instance : IsTrans ScheduledEvent ScheduledEvent.NoLater where
  trans a b c := by unfold ScheduledEvent.NoLater; omega

/-- The `priority_queue`, kept in the order in which it serves its events. -/
structure EventQueue where
  served : List ScheduledEvent
  ordered : served.Pairwise ScheduledEvent.NoLater

namespace EventQueue

def empty : EventQueue := ⟨[], .nil⟩

def push (queue : EventQueue) (event : ScheduledEvent) : EventQueue :=
  ⟨queue.served.orderedInsert ScheduledEvent.NoLater event, queue.ordered.orderedInsert event _⟩

def top (queue : EventQueue) : Option ScheduledEvent := queue.served.head?

def pop (queue : EventQueue) : EventQueue := ⟨queue.served.tail, queue.ordered.tail⟩

instance : Membership ScheduledEvent EventQueue := ⟨fun queue event => event ∈ queue.served⟩

@[simp] theorem mem_push {queue : EventQueue} {event e : ScheduledEvent} :
    e ∈ queue.push event ↔ e = event ∨ e ∈ queue :=
  List.mem_orderedInsert _

theorem top_mem {queue : EventQueue} {e : ScheduledEvent} (h : queue.top = some e) : e ∈ queue :=
  List.mem_of_head? h

theorem top_noLater {queue : EventQueue} {e other : ScheduledEvent} (h : queue.top = some e)
    (member : other ∈ queue) : e.NoLater other := by
  obtain ⟨rest, split⟩ := List.head?_eq_some_iff.mp h
  have ordered := queue.ordered
  have listed : other ∈ queue.served := member
  rw [split] at ordered listed
  rcases List.mem_cons.mp listed with rfl | later
  · exact Or.inr ⟨rfl, le_rfl⟩
  · exact List.rel_of_pairwise_cons ordered later

end EventQueue

/-- `UINT64_MAX`, the snapshot of an empty queue. -/
def noTime : Nat := UInt64.size - 1

/-- `hardEventTimes` is the multiset in its own order; `dirty` and `pendingDirty` are sets of
component indices. -/
structure Scheduler where
  nowNs : Nat := 0
  nowSnapshotNs : Nat := 0
  events : EventQueue := .empty
  nextSequence : Nat := 0
  pendingEventSnapshot : Nat := 0
  nextEventSnapshotNs : Nat := noTime
  hardEventTimes : List Nat := []
  nextHardEventSnapshotNs : Nat := noTime
  dirty : Finset Nat := ∅
  pendingDirty : Finset Nat := ∅
  maximumTimeStepNs : Nat := 0
  currentTimeStepNs : Nat := 0
  minimumTimeStepNs : Nat := 1
  adaptiveTimeStep : Bool := false
  maxNonLinearIterations : Nat := 0
  lastSettleConverged : Bool := true
  stopRequested : Bool := false
  paused : Bool := false

namespace Scheduler

def publishNextHardEventLocked (s : Scheduler) : Scheduler :=
  { s with nextHardEventSnapshotNs := s.hardEventTimes.head?.getD noTime }

def nextEvent (s : Scheduler) (timeNs : Nat) (componentIndex : Option Nat) (callback soft : Bool) :
    ScheduledEvent :=
  ⟨timeNs, componentIndex, s.nextSequence, callback, soft⟩

def pushEventLocked (s : Scheduler) (timeNs : Nat) (componentIndex : Option Nat) (callback soft : Bool) :
    Scheduler :=
  let events := s.events.push (s.nextEvent timeNs componentIndex callback soft)
  let pushed := { s with
    events
    nextSequence := s.nextSequence + 1
    pendingEventSnapshot := events.served.length
    nextEventSnapshotNs := (events.top.map (·.timeNs)).getD noTime }
  if soft then pushed
  else publishNextHardEventLocked { pushed with
    hardEventTimes := pushed.hardEventTimes.orderedInsert (· ≤ ·) timeNs }

/-- The time of `scheduleEvent` and `scheduleEventUnlocked`: `m_nowNs + delayNs` in `uint64_t`. -/
def delayed (s : Scheduler) (delayNs : Nat) : Nat := (s.nowNs + delayNs) % UInt64.size

def mergePendingDirtyLocked (s : Scheduler) : Scheduler :=
  { s with dirty := s.dirty ∪ s.pendingDirty, pendingDirty := ∅ }

/-- What `processNextEventUntilLocked` does with the event it takes from the queue, up to the
callback. -/
def takeEvent (s : Scheduler) (event : ScheduledEvent) : Scheduler :=
  let events := s.events.pop
  let popped :=
    if event.soft then { s with events }
    else publishNextHardEventLocked { s with
      events, hardEventTimes := s.hardEventTimes.erase event.timeNs }
  let nowNs := if event.timeNs > s.nowNs then event.timeNs else s.nowNs
  { popped with
    pendingEventSnapshot := events.served.length
    nextEventSnapshotNs := (events.top.map (·.timeNs)).getD noTime
    nowNs
    nowSnapshotNs := nowNs
    dirty := match event.componentIndex with
      | some componentIndex => insert componentIndex popped.dirty
      | none => popped.dirty }

/-- The event `processNextEventUntilLocked` takes, if there is one. -/
def dueEvent (s : Scheduler) (targetTimeNs : Nat) : Option ScheduledEvent :=
  s.events.top.filter fun event => event.timeNs ≤ targetTimeNs

/-! ### The next time step -/

def interrupted (s : Scheduler) : Bool := s.stopRequested || s.paused

def selectedStep (s : Scheduler) : Nat :=
  if s.adaptiveTimeStep ∧ s.currentTimeStepNs > 0 then min s.maximumTimeStepNs s.currentTimeStepNs
  else s.maximumTimeStepNs

def cappedTime (s : Scheduler) (targetTimeNs : Nat) : Nat :=
  if s.selectedStep > 0 ∧ targetTimeNs - s.nowNs > s.selectedStep then s.nowNs + s.selectedStep
  else targetTimeNs

/-- `nextTime`: the capped time, or an earlier event, but never before the clock. -/
def nextTime (s : Scheduler) (targetTimeNs : Nat) : Nat :=
  match s.events.top with
  | some event =>
    if event.timeNs < s.cappedTime targetTimeNs then max event.timeNs s.nowNs
    else s.cappedTime targetTimeNs
  | none => s.cappedTime targetTimeNs

def atEventBoundary (s : Scheduler) (nextTime : Nat) : Bool :=
  s.events.top.any fun event => event.timeNs = nextTime

def setNow (s : Scheduler) (nowNs : Nat) : Scheduler := { s with nowNs, nowSnapshotNs := nowNs }

/-- `std::clamp`. -/
def clamp (value low high : Nat) : Nat :=
  if value < low then low else if high < value then high else value

end Scheduler
end LasecSimul.Scheduling

/-!
## `runUntil` as a transition system

One thread runs `runUntil`; everything else happens between its steps. Other threads schedule events
and mark components while the mutex is free, which is between runs, inside an event callback and
between two settle iterations. Callbacks that run under the mutex schedule through
`scheduleEventUnlocked`. Flags, limits and marks for later may change at any time.
-/

namespace LasecSimul.Scheduling

/-- The locals of one turn of the loop of `runUntil`. -/
structure StepFrame where
  targetTimeNs : Nat
  previousTime : Nat
  nextTime : Nat
  eventBoundary : Bool
  maxStep : Nat
  deriving DecidableEq

/-- Where `settleUntilStableLocked` was called from. -/
inductive SettleSite where
  | entry (targetTimeNs : Nat)
  | afterEvents (frame : StepFrame)
  | afterCommit (frame : StepFrame)
  deriving DecidableEq

inductive SettlePhase where
  | drain
  | check (iterations : Nat) (hadWork : Bool)
  | iterate (iterations : Nat)
  | release (iterations : Nat)
  deriving DecidableEq

inductive Control where
  | idle
  | chosen (targetTimeNs : Nat)
  | settle (site : SettleSite) (phase : SettlePhase)
  | stable (targetTimeNs : Nat)
  | head (targetTimeNs : Nat)
  | dispatch (frame : StepFrame)
  | callback (frame : StepFrame) (event : ScheduledEvent)
  | commit (frame : StepFrame)
  deriving DecidableEq

/-- The mutex is free. -/
def Control.unlocked : Control → Bool
  | .idle | .chosen _ | .settle _ (.release _) | .callback _ _ => true
  | _ => false

/-- A callback of the session runs under the mutex: the command drain, the settle step, the commit
or the stable step. -/
def Control.inCallback : Control → Bool
  | .settle _ .drain | .settle _ (.iterate _) | .stable _ | .commit _ => true
  | _ => false

/-- The callbacks that are set, which does not change during a run. -/
structure Callbacks where
  settleStep : Bool
  beginTimeStep : Bool
  commitTimeStep : Bool
  stableStep : Bool

/-- `TimeStepDecision`, with the two step lengths the floating-point code derives from its error ratio
and the attempted length. -/
structure TimeStepDecision where
  accept : Bool
  reducedStepNs : Nat
  adaptedStepNs : Nat

inductive Label where
  | scheduled (event : ScheduledEvent)
  | executed (event : ScheduledEvent)
  | interrupt
  | began (frame : StepFrame)
  | rejected (frame : StepFrame)
  | returned
  | silent

structure System where
  scheduler : Scheduler := {}
  control : Control := .idle

namespace System

/-- The scheduler after `settleUntilStableLocked` has merged and recorded its outcome. -/
def settled (s : Scheduler) : Scheduler :=
  let merged := s.mergePendingDirtyLocked
  { merged with lastSettleConverged := merged.dirty = ∅ }

/-- Where `runUntil` goes on after a settle. -/
def afterSettle (callbacks : Callbacks) (converged hadWork : Bool) : SettleSite → Control
  | .entry targetTimeNs =>
    if hadWork ∧ converged ∧ callbacks.stableStep then .stable targetTimeNs else .head targetTimeNs
  | .afterEvents frame =>
    if callbacks.commitTimeStep ∧ frame.nextTime > frame.previousTime then .commit frame
    else .settle (.afterCommit frame) .drain
  | .afterCommit frame =>
    if converged ∧ callbacks.stableStep then .stable frame.targetTimeNs else .head frame.targetTimeNs

def finishSettle (callbacks : Callbacks) (s : Scheduler) (site : SettleSite) (hadWork : Bool) : System :=
  ⟨settled s, afterSettle callbacks (settled s).lastSettleConverged hadWork site⟩

/-- `settleUntilStableLocked` up to its first command drain. -/
def enterSettle (s : Scheduler) (site : SettleSite) : System :=
  ⟨s.mergePendingDirtyLocked, .settle site .drain⟩

/-- The loop of `settleUntilStableLocked` stops at its head. -/
def settleStops (callbacks : Callbacks) (s : Scheduler) (iterations : Nat) : Bool :=
  s.dirty = ∅ || (s.maxNonLinearIterations > 0 && iterations ≥ s.maxNonLinearIterations) ||
    s.interrupted || !callbacks.settleStep

/-- The locals of a turn that starts now. -/
def nextFrame (s : Scheduler) (targetTimeNs : Nat) : StepFrame where
  targetTimeNs
  previousTime := s.nowNs
  nextTime := s.nextTime targetTimeNs
  eventBoundary := s.atEventBoundary (s.nextTime targetTimeNs)
  maxStep := s.maximumTimeStepNs

/-- A commit that is not accepted is undone only away from events and above the minimum step. -/
def rejects (s : Scheduler) (frame : StepFrame) (decision : TimeStepDecision) : Bool :=
  !decision.accept && !frame.eventBoundary && frame.nextTime - frame.previousTime > s.minimumTimeStepNs

/-- The scheduler after a step that is rejected. -/
def rejectStep (s : Scheduler) (frame : StepFrame) (decision : TimeStepDecision) : Scheduler :=
  { s.setNow frame.previousTime with
    currentTimeStepNs := max s.minimumTimeStepNs decision.reducedStepNs }

/-- The scheduler after a step that stands. -/
def keepStep (s : Scheduler) (frame : StepFrame) (decision : TimeStepDecision) : Scheduler :=
  if s.adaptiveTimeStep then
    { s with
      currentTimeStepNs := Scheduler.clamp decision.adaptedStepNs s.minimumTimeStepNs frame.maxStep }
  else s

/-- What other threads and callbacks may do to the scheduler without the event queue or the clock. -/
inductive Tunes : Scheduler → Scheduler → Prop where
  | markDirtyLocked {s : Scheduler} (componentIndex : Nat) :
    Tunes s { s with pendingDirty := insert componentIndex s.pendingDirty }
  | setMaximumTimeStepNs {s : Scheduler} (ns : Nat) : Tunes s { s with maximumTimeStepNs := ns }
  | setMaxNonLinearIterations {s : Scheduler} (n : Nat) : Tunes s { s with maxNonLinearIterations := n }
  | configureAdaptiveTimeStep {s : Scheduler} (initialNs minimumNs : Nat) (adaptive : Bool) :
    Tunes s { s with
      currentTimeStepNs := initialNs, minimumTimeStepNs := minimumNs, adaptiveTimeStep := adaptive }
  | resume {s : Scheduler} : Tunes s { s with paused := false }
  | stopped {s : Scheduler} : Tunes s { s with stopRequested := false }

inductive Step (callbacks : Callbacks) : System → Label → System → Prop where
  /-- `scheduleAt` from any thread. -/
  | scheduleAt {s : Scheduler} {control : Control} (timeNs : Nat) (componentIndex : Option Nat)
      (callback soft : Bool) : control.unlocked → timeNs < UInt64.size →
    Step callbacks ⟨s, control⟩ (.scheduled (s.nextEvent timeNs componentIndex callback soft))
      ⟨s.pushEventLocked timeNs componentIndex callback soft, control⟩
  /-- `scheduleEvent` from any thread, `scheduleEventUnlocked` from a callback under the mutex. -/
  | scheduleEvent {s : Scheduler} {control : Control} (delayNs : Nat) (componentIndex : Option Nat)
      (callback soft : Bool) : control.unlocked ∨ control.inCallback →
    Step callbacks ⟨s, control⟩ (.scheduled (s.nextEvent (s.delayed delayNs) componentIndex callback soft))
      ⟨s.pushEventLocked (s.delayed delayNs) componentIndex callback soft, control⟩
  | markDirty {s : Scheduler} {control : Control} (componentIndex : Nat) : control.unlocked →
    Step callbacks ⟨s, control⟩ .silent ⟨{ s with dirty := insert componentIndex s.dirty }, control⟩
  | tune {s s' : Scheduler} {control : Control} : Tunes s s' →
    Step callbacks ⟨s, control⟩ .silent ⟨s', control⟩
  | pause {s : Scheduler} {control : Control} :
    Step callbacks ⟨s, control⟩ .interrupt ⟨{ s with paused := true }, control⟩
  | stop {s : Scheduler} {control : Control} :
    Step callbacks ⟨s, control⟩ .interrupt ⟨{ s with stopRequested := true }, control⟩
  /-- The dirty set as a callback under the mutex leaves it. -/
  | dirtySet {s : Scheduler} {control : Control} (dirty : Finset Nat) : control.inCallback →
    Step callbacks ⟨s, control⟩ .silent ⟨{ s with dirty }, control⟩
  /-- The worker reads its target from the queue when the time step is unlimited. -/
  | chooseTarget {s : Scheduler} {event : ScheduledEvent} :
    s.maximumTimeStepNs = 0 → s.events.top = some event →
    Step callbacks ⟨s, .idle⟩ .silent ⟨s.mergePendingDirtyLocked, .chosen event.timeNs⟩
  | runChosen {s : Scheduler} {targetTimeNs : Nat} :
    Step callbacks ⟨s, .chosen targetTimeNs⟩ .silent (enterSettle s (.entry targetTimeNs))
  | runUntil {s : Scheduler} (targetTimeNs : Nat) : targetTimeNs < UInt64.size →
    Step callbacks ⟨s, .idle⟩ .silent (enterSettle s (.entry targetTimeNs))
  | settleDrained {s : Scheduler} {site : SettleSite} :
    Step callbacks ⟨s, .settle site .drain⟩ .silent ⟨s, .settle site (.check 0 false)⟩
  | settleLeaves {s : Scheduler} {site : SettleSite} {iterations : Nat} {hadWork : Bool} :
    settleStops callbacks s iterations →
    Step callbacks ⟨s, .settle site (.check iterations hadWork)⟩ .silent
      (finishSettle callbacks s site
        (hadWork || (s.dirty ≠ ∅ && !s.interrupted && !callbacks.settleStep)))
  | settleEnters {s : Scheduler} {site : SettleSite} {iterations : Nat} {hadWork : Bool} :
    ¬settleStops callbacks s iterations →
    Step callbacks ⟨s, .settle site (.check iterations hadWork)⟩ .silent
      ⟨s, .settle site (.iterate (iterations + 1))⟩
  | settleConverges {s : Scheduler} {site : SettleSite} {iterations : Nat} :
    s.mergePendingDirtyLocked.dirty = ∅ →
    Step callbacks ⟨s, .settle site (.iterate iterations)⟩ .silent
      (finishSettle callbacks s.mergePendingDirtyLocked site true)
  | settleReleases {s : Scheduler} {site : SettleSite} {iterations : Nat} (again : Bool) :
    again ∨ s.mergePendingDirtyLocked.dirty ≠ ∅ →
    Step callbacks ⟨s, .settle site (.iterate iterations)⟩ .silent
      ⟨s.mergePendingDirtyLocked, .settle site (.release iterations)⟩
  | settleRelocks {s : Scheduler} {site : SettleSite} {iterations : Nat} :
    Step callbacks ⟨s, .settle site (.release iterations)⟩ .silent
      ⟨s.mergePendingDirtyLocked, .settle site (.check iterations true)⟩
  | stableReturns {s : Scheduler} {targetTimeNs : Nat} :
    Step callbacks ⟨s, .stable targetTimeNs⟩ .silent ⟨s, .head targetTimeNs⟩
  | finish {s : Scheduler} {targetTimeNs : Nat} : ¬s.nowNs < targetTimeNs ∨ s.interrupted →
    Step callbacks ⟨s, .head targetTimeNs⟩ .returned ⟨s, .idle⟩
  /-- A turn starts: the clock moves and the begin callback marks the reactive components. -/
  | begin {s : Scheduler} {targetTimeNs : Nat} (reactive : Finset Nat) :
    s.nowNs < targetTimeNs → ¬s.interrupted → callbacks.beginTimeStep ∨ reactive = ∅ →
    Step callbacks ⟨s, .head targetTimeNs⟩ (.began (nextFrame s targetTimeNs))
      ⟨{ s.setNow (s.nextTime targetTimeNs) with dirty := s.dirty ∪ reactive },
        .dispatch (nextFrame s targetTimeNs)⟩
  | execute {s : Scheduler} {frame : StepFrame} {event : ScheduledEvent} :
    s.dueEvent frame.nextTime = some event → ¬s.interrupted →
    Step callbacks ⟨s, .dispatch frame⟩ (.executed event)
      ⟨s.takeEvent event, if event.callback then .callback frame event else .dispatch frame⟩
  | callbackReturns {s : Scheduler} {frame : StepFrame} {event : ScheduledEvent} :
    Step callbacks ⟨s, .callback frame event⟩ .silent ⟨s, .dispatch frame⟩
  | eventsDone {s : Scheduler} {frame : StepFrame} :
    s.dueEvent frame.nextTime = none ∨ s.interrupted →
    Step callbacks ⟨s, .dispatch frame⟩ .silent (enterSettle s (.afterEvents frame))
  | reject {s : Scheduler} {frame : StepFrame} (decision : TimeStepDecision) :
    rejects s frame decision →
    Step callbacks ⟨s, .commit frame⟩ (.rejected frame)
      ⟨rejectStep s frame decision, .head frame.targetTimeNs⟩
  | keep {s : Scheduler} {frame : StepFrame} (decision : TimeStepDecision) :
    ¬rejects s frame decision →
    Step callbacks ⟨s, .commit frame⟩ .silent
      (if decision.accept then enterSettle (keepStep s frame decision) (.afterCommit frame)
        else ⟨keepStep s frame decision, .head frame.targetTimeNs⟩)

/-- A run of the scheduler from its construction. -/
abbrev Run (callbacks : Callbacks) := Lib.Trace.Run (Step callbacks)

end System
end LasecSimul.Scheduling
