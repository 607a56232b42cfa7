import Mathlib.Logic.Function.Basic
import LasecSimul.Vnext.Dispatch

/-!
# Wake-ups

A poll and the wake-ups of each module are single-flight: a due time and a generation on this side stand
for a callback in the queue of the Scheduler. `none` is the source's cleared flag or `kNoWakeup`.
-/

namespace LasecSimul.Vnext

open Lib.Trace

inductive WakeId where
  | poll
  | module (index : Nat)
  | hard (index : Nat)
  deriving DecidableEq, Repr

structure Wakeup where
  dueNs : Option Nat := none
  generation : Nat := 0
  deriving DecidableEq, Repr

structure Callback where
  id : WakeId
  generation : Nat
  timeNs : Nat
  deriving DecidableEq, Repr

/-- The branches of `schedulePollAt` and `postModuleWakeup`. -/
inductive Route where
  | deferred | lockHeld | direct
  deriving DecidableEq, Repr

/-- `deferred` are Scheduler calls made after a lock is released, `inFlight` callbacks taken from the
queue that have not locked yet. -/
structure WakeState (σ : Type) where
  nowNs : Nat
  resetGeneration : Nat := 0
  queue : List Callback := []
  deferred : List Callback := []
  inFlight : List Callback := []
  wakeups : WakeId → Wakeup := fun _ => {}
  pollResetGeneration : Nat := 0
  vnextBActive : Bool := false
  lanes : List (List Event) := []
  device : σ

namespace WakeState

variable {σ : Type}

def hand (s : WakeState σ) (route : Route) (callback : Callback) : WakeState σ :=
  match route with
  | .deferred => { s with deferred := s.deferred ++ [callback] }
  | .lockHeld | .direct => { s with queue := s.queue ++ [callback] }

def set (s : WakeState σ) (id : WakeId) (wakeup : Wakeup) : WakeState σ :=
  { s with wakeups := Function.update s.wakeups id wakeup }

def armPoll (s : WakeState σ) (timeNs generation : Nat) (route : Route) : WakeState σ :=
  let atNs := if route = .lockHeld then s.nowNs + (timeNs - s.nowNs) else timeNs
  (s.set .poll { dueNs := some timeNs, generation := generation }).hand route ⟨.poll, generation, atNs⟩

def schedulePollAt (s : WakeState σ) (timeNs : Nat) (route : Route) : WakeState σ :=
  match (s.wakeups .poll).dueNs with
  | some dueNs => if timeNs ≥ dueNs then s else s.armPoll timeNs ((s.wakeups .poll).generation + 1) route
  | none => s.armPoll timeNs (s.wakeups .poll).generation route

def scheduleNextPoll (s : WakeState σ) (route : Route) : WakeState σ := s.schedulePollAt (s.nowNs + 1) route

def earlier (wakeup : Wakeup) (dueNs : Nat) : Bool :=
  match wakeup.dueNs with
  | some pending => pending ≤ dueNs
  | none => false

/-- `scheduleModuleWakeup` and `scheduleModuleHardWakeup`. -/
def scheduleWakeup (s : WakeState σ) (id : WakeId) (nowNs : Nat) (delayNs : Option Nat) (route : Route) : WakeState σ :=
  let wakeup := s.wakeups id
  match delayNs with
  | none =>
    s.set id { dueNs := none, generation := if wakeup.dueNs.isSome then wakeup.generation + 1 else wakeup.generation }
  | some delayNs =>
    if earlier wakeup (nowNs + delayNs) then s
    else
      let atNs := if route = .deferred then nowNs + delayNs else s.nowNs + delayNs
      (s.set id { dueNs := some (nowNs + delayNs), generation := wakeup.generation + 1 }).hand route
        ⟨id, wakeup.generation + 1, atNs⟩

def scheduleModuleWakeup (s : WakeState σ) (index nowNs : Nat) (delayNs : Option Nat) (route : Route) : WakeState σ :=
  s.scheduleWakeup (.module index) nowNs delayNs route

def scheduleModuleHardWakeup (s : WakeState σ) (index nowNs : Nat) (dueNs : Option Nat) (route : Route) : WakeState σ :=
  s.scheduleWakeup (.hard index) nowNs (dueNs.map fun dueNs => max dueNs nowNs - nowNs) route

def resetModulesAndWakeups (s : WakeState σ) : WakeState σ :=
  { s with wakeups := fun
      | .poll => s.wakeups .poll
      | id => { dueNs := none, generation := (s.wakeups id).generation + 1 } }

def startPolling (s : WakeState σ) : WakeState σ :=
  if s.pollResetGeneration ≠ s.resetGeneration then
    let s := { s with pollResetGeneration := s.resetGeneration }
    (s.set .poll { dueNs := none, generation := (s.wakeups .poll).generation + 1 }).scheduleNextPoll .deferred
  else s.scheduleNextPoll .deferred

/-- `loadFirmwareLocked`, for an artifact with `laneCount` lanes. -/
def loadFirmware (s : WakeState σ) (vnextB : Bool) (laneCount : Nat) : WakeState σ :=
  let s := { s.resetModulesAndWakeups with vnextBActive := vnextB, lanes := List.replicate laneCount [] }
  if vnextB then s else s.startPolling

/-- `Scheduler::reset`. -/
def schedulerReset (s : WakeState σ) : WakeState σ :=
  { s with queue := [], resetGeneration := s.resetGeneration + 1, nowNs := 0 }

end WakeState

open WakeState

section

variable {σ : Type} (originNs : Nat) (dispatchOneEvent : σ → Nat → Event → σ × Bool)

/-- How the loop of a turn ended. -/
inductive TurnExit where
  | empty
  | future (timestampNs : Nat)
  | budgetExhausted
  | settle
  | diverged
  deriving DecidableEq, Repr

def lanePeeks (lanes : List (List Event)) : List VnextBLanePeek := lanes.map fun lane => lanePeek originNs lane.head?

/-- The loop with `budget` events left. -/
def drain (nowNs : Nat) : Nat → List (List Event) → σ → List (List Event) × σ × TurnExit
  | budget, lanes, device =>
    let decision := selectNextLaneEvent (lanePeeks originNs lanes) nowNs
    if ¬decision.hasCandidate then (lanes, device, .empty)
    else if ¬decision.ready then (lanes, device, .future decision.timestampNs)
    else
      match budget, lanes[decision.lane]? with
      | 0, _ => (lanes, device, .budgetExhausted)
      | budget + 1, some (event :: rest) =>
        let lanes := lanes.set decision.lane rest
        if eventTimeNs originNs event ≠ decision.timestampNs then (lanes, device, .diverged)
        else
          let (device, electricalChange) := dispatchOneEvent device decision.lane event
          if electricalChange then (lanes, device, .settle) else drain nowNs budget lanes device
      | _ + 1, _ => (lanes, device, .diverged)

/-- The re-arbitration after the acknowledge. -/
def rearm (s : WakeState σ) (route : Route) : WakeState σ :=
  match decidePostAckRearm (lanePeeks originNs s.lanes) s.nowNs false with
  | .none => s
  | .immediate => s.scheduleNextPoll route
  | .at timestampNs => s.schedulePollAt timestampNs route

def hasPendingLaneEvents (lanes : List (List Event)) : Bool := lanes.any fun lane => ¬lane.isEmpty

def WakeState.turn (s : WakeState σ) (route : Route) : WakeState σ :=
  match drain originNs dispatchOneEvent s.nowNs kMaxEventsPerTurn s.lanes s.device with
  | (lanes, device, exit) =>
    let s := { s with lanes := lanes, device := device }
    match exit with
    | .future timestampNs => rearm originNs (s.schedulePollAt timestampNs route) route
    | .empty | .diverged => rearm originNs s route
    | .budgetExhausted => s.scheduleNextPoll route
    | .settle => if hasPendingLaneEvents s.lanes then s.scheduleNextPoll route else s

/-- A callback runs. What the legacy poll and the modules then request are requests of their own. -/
def WakeState.run (s : WakeState σ) (callback : Callback) : WakeState σ :=
  let s := { s with inFlight := s.inFlight.erase callback }
  if (s.wakeups callback.id).generation ≠ callback.generation then s
  else
    let s := s.set callback.id { dueNs := none, generation := callback.generation }
    if callback.id = .poll ∧ s.vnextBActive then s.turn originNs dispatchOneEvent .deferred else s

inductive WakeLabel where
  | requestPoll (timeNs : Nat) (route : Route)
  | requestModule (index nowNs : Nat) (delayNs : Option Nat) (route : Route)
  | requestHard (index nowNs : Nat) (dueNs : Option Nat) (route : Route)
  | handOver (callback : Callback)
  | pop (callback : Callback)
  | run (callback : Callback)
  | turn (route : Route)
  | publish (lane : Nat) (event : Event)
  | elapse (nowNs : Nat)
  | resetModules
  | load (vnextB : Bool) (laneCount : Nat)
  | schedulerReset
  deriving DecidableEq, Repr

/-- With the Scheduler's lock held only `stamp` requests anything, and its `nowNs` is the current time. -/
def WakeLabel.Enabled (s : WakeState σ) : WakeLabel → Prop
  | .requestPoll _ route => route ≠ .lockHeld
  | .requestModule _ nowNs _ route | .requestHard _ nowNs _ route => route = .lockHeld → nowNs = s.nowNs
  | .handOver callback => callback ∈ s.deferred
  | .pop callback => callback ∈ s.queue
  | .run callback => callback ∈ s.inFlight
  | .turn _ => s.vnextBActive = true
  | .publish lane _ => lane < s.lanes.length
  | .elapse nowNs => s.nowNs ≤ nowNs
  | .resetModules | .load _ _ | .schedulerReset => True

def WakeState.perform (s : WakeState σ) : WakeLabel → WakeState σ
  | .requestPoll timeNs route => s.schedulePollAt timeNs route
  | .requestModule index nowNs delayNs route => s.scheduleModuleWakeup index nowNs delayNs route
  | .requestHard index nowNs dueNs route => s.scheduleModuleHardWakeup index nowNs dueNs route
  | .handOver callback => { s with deferred := s.deferred.erase callback, queue := s.queue ++ [callback] }
  | .pop callback =>
    { s with queue := s.queue.erase callback, inFlight := s.inFlight ++ [callback], nowNs := max s.nowNs callback.timeNs }
  | .run callback => s.run originNs dispatchOneEvent callback
  | .turn route => s.turn originNs dispatchOneEvent route
  | .publish lane event => { s with lanes := s.lanes.modify lane (· ++ [event]) }
  | .elapse nowNs => { s with nowNs := nowNs }
  | .resetModules => s.resetModulesAndWakeups
  | .load vnextB laneCount => s.loadFirmware vnextB laneCount
  | .schedulerReset => s.schedulerReset

def WakeStep (s : WakeState σ) (label : WakeLabel) (t : WakeState σ) : Prop :=
  label.Enabled s ∧ t = s.perform originNs dispatchOneEvent label

end

variable {σ : Type} {originNs : Nat} {dispatchOneEvent : σ → Nat → Event → σ × Bool} {s t start : WakeState σ}
  {label : WakeLabel} {labels : List WakeLabel}

/-- In the queue, on its way there, or taken from it and not run yet. -/
def Carried (s : WakeState σ) (callback : Callback) : Prop :=
  callback ∈ s.queue ∨ callback ∈ s.deferred ∨ callback ∈ s.inFlight

/-- Every pending wake-up has its live callback. -/
def Alive (s : WakeState σ) : Prop :=
  ∀ id dueNs, (s.wakeups id).dueNs = some dueNs → Carried s ⟨id, (s.wakeups id).generation, dueNs⟩

/-- A poll comes no later than the heads in the lanes, and the next nanosecond, ask for. -/
def Covered (originNs : Nat) (s : WakeState σ) : Prop :=
  ∀ (lane : Nat) (event : Event) (rest : List Event), s.lanes[lane]? = some (event :: rest) →
    ∃ dueNs, (s.wakeups .poll).dueNs = some dueNs ∧ dueNs ≤ max (s.nowNs + 1) (eventTimeNs originNs event)

def CompletesTurn (s : WakeState σ) : WakeLabel → Prop
  | .turn _ => True
  | .run callback =>
    callback.id = .poll ∧ callback.generation = (s.wakeups .poll).generation ∧ s.vnextBActive = true
  | _ => False

/-- The request posts a callback: nothing as early is pending. -/
def Posts (s : WakeState σ) (id : WakeId) (nowNs : Nat) (delayNs : Option Nat) : Prop :=
  ∃ delay, delayNs = some delay ∧ earlier (s.wakeups id) (nowNs + delay) = false

/-- `Scheduler::reset` finds every pending callback out of the queue, and a direct post is made at the
current time. -/
def Safe (s : WakeState σ) : WakeLabel → Prop
  | .schedulerReset => ∀ id dueNs, (s.wakeups id).dueNs = some dueNs →
      ⟨id, (s.wakeups id).generation, dueNs⟩ ∈ s.deferred ∨ ⟨id, (s.wakeups id).generation, dueNs⟩ ∈ s.inFlight
  | .requestModule index nowNs delayNs .direct => Posts s (.module index) nowNs delayNs → nowNs = s.nowNs
  | .requestHard index nowNs dueNs .direct =>
      Posts s (.hard index) nowNs (dueNs.map fun dueNs => max dueNs nowNs - nowNs) → nowNs = s.nowNs
  | _ => True

def Bounded (s : WakeState σ) : Prop :=
  ∀ callback, Carried s callback → callback.generation ≤ (s.wakeups callback.id).generation

structure Steady (s : WakeState σ) : Prop where
  alive : Alive s
  bounded : Bounded s

theorem carried_hand {route : Route} {callback other : Callback} :
    Carried (s.hand route callback) other ↔ Carried s other ∨ other = callback := by
  cases route <;> simp [Carried, hand] <;> tauto

@[simp] theorem hand_wakeups (s : WakeState σ) (route : Route) (callback : Callback) :
    (s.hand route callback).wakeups = s.wakeups := by
  cases route <;> rfl

@[simp] theorem hand_nowNs (s : WakeState σ) (route : Route) (callback : Callback) :
    (s.hand route callback).nowNs = s.nowNs := by
  cases route <;> rfl

@[simp] theorem hand_lanes (s : WakeState σ) (route : Route) (callback : Callback) :
    (s.hand route callback).lanes = s.lanes := by
  cases route <;> rfl

theorem set_same (s : WakeState σ) (id : WakeId) (wakeup : Wakeup) : (s.set id wakeup).wakeups id = wakeup :=
  Function.update_self ..

theorem set_other (s : WakeState σ) {id other : WakeId} (wakeup : Wakeup) (differ : other ≠ id) :
    (s.set id wakeup).wakeups other = s.wakeups other :=
  Function.update_of_ne differ ..

theorem Bounded.set (bounded : Bounded s) {id : WakeId} {wakeup : Wakeup}
    (grows : (s.wakeups id).generation ≤ wakeup.generation) : Bounded (s.set id wakeup) := by
  intro callback carried
  have old := bounded callback carried
  by_cases same : callback.id = id
  · rw [same, set_same]
    rw [same] at old
    omega
  · rwa [set_other s wakeup same]

theorem Bounded.hand (bounded : Bounded s) {route : Route} {callback : Callback}
    (known : callback.generation ≤ (s.wakeups callback.id).generation) : Bounded (s.hand route callback) := by
  intro other carried
  rw [hand_wakeups]
  rcases carried_hand.mp carried with old | rfl
  · exact bounded other old
  · exact known

theorem Steady.arm (steady : Steady s) {id : WakeId} {dueNs generation : Nat} (route : Route)
    (grows : (s.wakeups id).generation ≤ generation) :
    Steady ((s.set id { dueNs := some dueNs, generation := generation }).hand route ⟨id, generation, dueNs⟩) := by
  constructor
  · intro other due pending
    rw [hand_wakeups] at pending ⊢
    rw [carried_hand]
    by_cases same : other = id
    · subst same
      rw [set_same] at pending ⊢
      cases pending
      exact .inr rfl
    · rw [set_other s _ same] at pending ⊢
      exact .inl (steady.alive other due pending)
  · apply (steady.bounded.set grows).hand
    show generation ≤ ((s.set id _).wakeups id).generation
    rw [set_same]

theorem Steady.clear (steady : Steady s) {id : WakeId} {generation : Nat}
    (grows : (s.wakeups id).generation ≤ generation) :
    Steady (s.set id { dueNs := none, generation := generation }) := by
  refine ⟨fun other due pending => ?_, steady.bounded.set grows⟩
  by_cases same : other = id
  · subst same
    rw [set_same] at pending
    cases pending
  · rw [set_other s _ same] at pending ⊢
    exact steady.alive other due pending

theorem Steady.of (steady : Steady s) (carried : ∀ callback, Carried t callback ↔ Carried s callback)
    (wakeups : t.wakeups = s.wakeups) : Steady t := by
  constructor
  · intro id due pending
    rw [wakeups] at pending ⊢
    exact (carried _).mpr (steady.alive id due pending)
  · intro callback member
    rw [wakeups]
    exact steady.bounded callback ((carried callback).mp member)

theorem schedulePollAt_steady (steady : Steady s) {timeNs : Nat} {route : Route}
    (ahead : route = .lockHeld → s.nowNs ≤ timeNs) : Steady (s.schedulePollAt timeNs route) := by
  have at_time : (if route = .lockHeld then s.nowNs + (timeNs - s.nowNs) else timeNs) = timeNs := by
    split
    · have := ahead ‹_›
      omega
    · rfl
  unfold schedulePollAt armPoll
  dsimp only
  rw [at_time]
  split
  · split
    · exact steady
    · exact steady.arm route (Nat.le_succ _)
  · exact steady.arm route (Nat.le_refl _)

theorem schedulePollAt_due (s : WakeState σ) (timeNs : Nat) (route : Route) :
    ∃ dueNs, ((s.schedulePollAt timeNs route).wakeups .poll).dueNs = some dueNs ∧ dueNs ≤ timeNs := by
  unfold schedulePollAt armPoll
  dsimp only
  split
  · rename_i due pending
    split
    · rename_i late
      exact ⟨due, pending, late⟩
    · rw [hand_wakeups, set_same]
      exact ⟨timeNs, rfl, Nat.le_refl _⟩
  · rw [hand_wakeups, set_same]
    exact ⟨timeNs, rfl, Nat.le_refl _⟩

theorem schedulePollAt_frame (s : WakeState σ) (timeNs : Nat) (route : Route) :
    (s.schedulePollAt timeNs route).nowNs = s.nowNs ∧ (s.schedulePollAt timeNs route).lanes = s.lanes := by
  unfold schedulePollAt armPoll
  dsimp only
  split
  · split <;> simp [WakeState.set]
  · simp [WakeState.set]

theorem scheduleNextPoll_steady (steady : Steady s) (route : Route) : Steady (s.scheduleNextPoll route) :=
  schedulePollAt_steady steady fun _ => Nat.le_succ _

theorem scheduleNextPoll_covered (s : WakeState σ) (route : Route) : Covered originNs (s.scheduleNextPoll route) := by
  obtain ⟨due, pending, soon⟩ := schedulePollAt_due s (s.nowNs + 1) route
  intro lane event rest head
  refine ⟨due, pending, Nat.le_trans soon ?_⟩
  unfold scheduleNextPoll
  rw [(schedulePollAt_frame ..).1]
  exact Nat.le_max_left ..

theorem lanePeeks_head {lanes : List (List Event)} {lane : Nat} {event : Event} {rest : List Event}
    (head : lanes[lane]? = some (event :: rest)) :
    (lanePeeks originNs lanes)[lane]? = some { present := true, timestampNs := eventTimeNs originNs event } := by
  unfold lanePeeks
  rw [List.getElem?_map, head]
  rfl

theorem drain_future {nowNs budget timestampNs : Nat} {lanes after : List (List Event)} {device last : σ}
    (ends : drain originNs dispatchOneEvent nowNs budget lanes device = (after, last, .future timestampNs)) :
    nowNs < timestampNs := by
  fun_induction drain originNs dispatchOneEvent nowNs budget lanes device with
  | case2 budget lanes device decision candidate notReady =>
    cases ends
    exact selectNextLaneEvent_future (not_not.mp candidate) notReady
  | case6 budget lanes device decision candidate ready event rest head after same next change dispatched quiet ih =>
    exact ih ends
  | _ => simp_all

theorem rearm_steady (steady : Steady s) (route : Route) : Steady (rearm originNs s route) := by
  unfold rearm
  split
  · exact steady
  · exact scheduleNextPoll_steady steady route
  · rename_i timestampNs decided
    exact schedulePollAt_steady steady fun _ => Nat.le_of_lt (decidePostAckRearm_at decided).2.2

theorem rearm_covered (s : WakeState σ) (route : Route) : Covered originNs (rearm originNs s route) := by
  unfold rearm
  split
  · rename_i decided
    intro lane event rest head
    have absent := selectNextLaneEvent_none (decidePostAckRearm_none decided) _
      (List.mem_of_getElem? (lanePeeks_head head))
    cases absent
  · exact scheduleNextPoll_covered s route
  · rename_i timestampNs decided
    obtain ⟨found, same, _⟩ := decidePostAckRearm_at decided
    obtain ⟨due, pending, soon⟩ := schedulePollAt_due s timestampNs route
    intro lane event rest head
    rw [(schedulePollAt_frame ..).2] at head
    have least := (selectNextLaneEvent_some found).2 lane _ (lanePeeks_head head) rfl
    refine ⟨due, pending, Nat.le_trans soon (Nat.le_trans ?_ (Nat.le_max_right ..))⟩
    rw [← same]
    unfold NoLater at least
    dsimp only at least
    omega

theorem turn_steady (steady : Steady s) (route : Route) : Steady (s.turn originNs dispatchOneEvent route) := by
  unfold WakeState.turn
  rcases ends : drain originNs dispatchOneEvent s.nowNs kMaxEventsPerTurn s.lanes s.device with ⟨lanes, device, exit⟩
  have kept : Steady { s with lanes := lanes, device := device } := steady.of (fun _ => Iff.rfl) rfl
  cases exit with
  | empty => exact rearm_steady kept route
  | diverged => exact rearm_steady kept route
  | future timestampNs =>
    apply rearm_steady
    exact schedulePollAt_steady kept fun _ => Nat.le_of_lt (drain_future ends)
  | budgetExhausted => exact scheduleNextPoll_steady kept route
  | settle =>
    dsimp only
    split
    · exact scheduleNextPoll_steady kept route
    · exact kept

theorem turn_covered (s : WakeState σ) (route : Route) :
    Covered originNs (s.turn originNs dispatchOneEvent route) := by
  unfold WakeState.turn
  rcases ends : drain originNs dispatchOneEvent s.nowNs kMaxEventsPerTurn s.lanes s.device with ⟨lanes, device, exit⟩
  cases exit with
  | empty => exact rearm_covered _ route
  | diverged => exact rearm_covered _ route
  | future timestampNs => exact rearm_covered _ route
  | budgetExhausted => exact scheduleNextPoll_covered _ route
  | settle =>
    dsimp only
    split
    · exact scheduleNextPoll_covered _ route
    · rename_i drained
      intro lane event rest head
      exfalso
      apply drained
      unfold hasPendingLaneEvents
      exact List.any_eq_true.mpr ⟨event :: rest, List.mem_of_getElem? head, rfl⟩

/-! ### The steps -/

theorem carried_erase_inFlight {callback other : Callback} (carried : Carried s other) (differ : other ≠ callback) :
    Carried { s with inFlight := s.inFlight.erase callback } other := by
  unfold Carried at carried ⊢
  rcases carried with queued | deferred | inFlight
  · exact .inl queued
  · exact .inr (.inl deferred)
  · exact .inr (.inr ((List.mem_erase_of_ne differ).mpr inFlight))

theorem Bounded.erase_inFlight (bounded : Bounded s) (callback : Callback) :
    Bounded { s with inFlight := s.inFlight.erase callback } := by
  intro other carried
  apply bounded other
  rcases carried with queued | deferred | inFlight
  · exact .inl queued
  · exact .inr (.inl deferred)
  · exact .inr (.inr (List.mem_of_mem_erase inFlight))

/-- A stale callback is not the live one, and a live one leaves its wake-up cleared. -/
theorem run_steady (steady : Steady s) (callback : Callback) :
    Steady (s.run originNs dispatchOneEvent callback) := by
  have bounded := steady.bounded.erase_inFlight callback
  unfold WakeState.run
  dsimp only
  split
  · rename_i stale
    refine ⟨fun id due pending => ?_, bounded⟩
    apply carried_erase_inFlight (steady.alive id due pending)
    rintro rfl
    exact stale rfl
  · rename_i live
    have same : (s.wakeups callback.id).generation = callback.generation := not_not.mp live
    have cleared : Steady (({ s with inFlight := s.inFlight.erase callback } : WakeState σ).set callback.id
        { dueNs := none, generation := callback.generation }) := by
      refine ⟨fun id due pending => ?_, bounded.set (Nat.le_of_eq same)⟩
      by_cases ran : id = callback.id
      · subst ran
        rw [set_same] at pending
        cases pending
      · rw [set_other _ _ ran] at pending ⊢
        apply carried_erase_inFlight (steady.alive id due pending)
        rintro rfl
        exact ran rfl
    split
    · exact turn_steady cleared .deferred
    · exact cleared

theorem resetModulesAndWakeups_steady (steady : Steady s) : Steady s.resetModulesAndWakeups := by
  constructor
  · intro id due pending
    cases id with
    | poll => exact steady.alive .poll due pending
    | module => cases pending
    | hard => cases pending
  · intro callback carried
    have old := steady.bounded callback carried
    unfold resetModulesAndWakeups
    dsimp only
    split
    · rename_i same
      rwa [same] at old
    · exact Nat.le_succ_of_le old

theorem startPolling_steady (steady : Steady s) : Steady s.startPolling := by
  unfold startPolling
  dsimp only
  split
  · apply scheduleNextPoll_steady
    have kept : Steady { s with pollResetGeneration := s.resetGeneration } := steady.of (fun _ => Iff.rfl) rfl
    exact kept.clear (Nat.le_succ _)
  · exact scheduleNextPoll_steady steady .deferred

theorem loadFirmware_steady (steady : Steady s) (vnextB : Bool) (laneCount : Nat) :
    Steady (s.loadFirmware vnextB laneCount) := by
  unfold loadFirmware
  dsimp only
  have kept : Steady { s.resetModulesAndWakeups with vnextBActive := vnextB, lanes := List.replicate laneCount [] } :=
    (resetModulesAndWakeups_steady steady).of (fun _ => Iff.rfl) rfl
  split
  · exact kept
  · exact startPolling_steady kept

theorem scheduleWakeup_bounded (bounded : Bounded s) (id : WakeId) (nowNs : Nat) (delayNs : Option Nat)
    (route : Route) : Bounded (s.scheduleWakeup id nowNs delayNs route) := by
  unfold scheduleWakeup
  dsimp only
  split
  · apply bounded.set
    dsimp only
    split <;> omega
  · split
    · exact bounded
    · apply (bounded.set (Nat.le_succ _)).hand
      show (s.wakeups id).generation + 1 ≤ ((s.set id _).wakeups id).generation
      rw [set_same]

/-- A direct post carries the time of the Scheduler and records that of its caller. -/
theorem scheduleWakeup_alive (steady : Steady s) (id : WakeId) (nowNs : Nat) (delayNs : Option Nat) (route : Route)
    (locked : route = .lockHeld → nowNs = s.nowNs) :
    Alive (s.scheduleWakeup id nowNs delayNs route) ↔
      (route = .direct → Posts s id nowNs delayNs → nowNs = s.nowNs) := by
  unfold scheduleWakeup
  dsimp only
  split
  · apply iff_of_true
    · apply (steady.clear _).alive
      split <;> omega
    · rintro _ ⟨_, none, _⟩
      cases none
  · rename_i delay
    split
    · rename_i pending
      apply iff_of_true steady.alive
      rintro _ ⟨_, some, later⟩
      cases some
      rw [pending] at later
      cases later
    · rename_i later
      have posts : Posts s id nowNs (some delay) := ⟨delay, rfl, by simpa using later⟩
      constructor
      · intro alive direct _
        subst direct
        have live := alive id (nowNs + delay)
        rw [hand_wakeups, set_same] at live
        rcases carried_hand.mp (live rfl) with old | new
        · have := steady.bounded _ old
          dsimp only at this
          omega
        · have times := congrArg Callback.timeNs new
          simp only [reduceCtorEq, if_false] at times
          omega
      · intro current
        have same : (if route = .deferred then nowNs + delay else s.nowNs + delay) = nowNs + delay := by
          cases route with
          | deferred => rfl
          | lockHeld => rw [locked rfl]; rfl
          | direct => rw [current rfl posts]; rfl
        rw [same]
        exact (steady.arm route (Nat.le_succ _)).alive

theorem schedulerReset_bounded (bounded : Bounded s) : Bounded s.schedulerReset := by
  intro callback carried
  apply bounded callback
  rcases carried with queued | kept
  · cases queued
  · exact .inr kept

theorem schedulerReset_alive : Alive s.schedulerReset ↔ Safe s .schedulerReset := by
  apply forall_congr'
  intro id
  apply forall_congr'
  intro due
  simp [Carried, schedulerReset]

theorem carried_pop {callback : Callback} (queued : callback ∈ s.queue) (nowNs : Nat) (other : Callback) :
    Carried { s with queue := s.queue.erase callback, inFlight := s.inFlight ++ [callback], nowNs := nowNs } other ↔
      Carried s other := by
  unfold Carried
  dsimp only
  by_cases same : other = callback
  · subst same
    simp [queued]
  · rw [List.mem_erase_of_ne same]
    simp [same]

theorem carried_handOver {callback : Callback} (deferred : callback ∈ s.deferred) (other : Callback) :
    Carried { s with deferred := s.deferred.erase callback, queue := s.queue ++ [callback] } other ↔
      Carried s other := by
  unfold Carried
  dsimp only
  by_cases same : other = callback
  · subst same
    simp [deferred]
  · rw [List.mem_erase_of_ne same]
    simp [same]

theorem step_bounded (steady : Steady s) (step : WakeStep originNs dispatchOneEvent s label t) : Bounded t := by
  obtain ⟨enabled, rfl⟩ := step
  cases label with
  | requestPoll timeNs route => exact (schedulePollAt_steady steady fun held => absurd held enabled).bounded
  | requestModule index nowNs delayNs route => exact scheduleWakeup_bounded steady.bounded _ _ _ _
  | requestHard index nowNs dueNs route => exact scheduleWakeup_bounded steady.bounded _ _ _ _
  | handOver callback => exact (steady.of (carried_handOver enabled) rfl).bounded
  | pop callback => exact (steady.of (carried_pop enabled _) rfl).bounded
  | run callback => exact (run_steady steady callback).bounded
  | turn route => exact (turn_steady steady route).bounded
  | publish lane event => exact steady.bounded
  | elapse nowNs => exact steady.bounded
  | resetModules => exact (resetModulesAndWakeups_steady steady).bounded
  | load vnextB laneCount => exact (loadFirmware_steady steady vnextB laneCount).bounded
  | schedulerReset => exact schedulerReset_bounded steady.bounded

theorem step_alive (steady : Steady s) (step : WakeStep originNs dispatchOneEvent s label t) :
    Alive t ↔ Safe s label := by
  obtain ⟨enabled, rfl⟩ := step
  cases label with
  | requestPoll timeNs route =>
    exact iff_of_true (schedulePollAt_steady steady fun held => absurd held enabled).alive True.intro
  | requestModule index nowNs delayNs route =>
    refine (scheduleWakeup_alive steady (.module index) nowNs delayNs route enabled).trans ?_
    cases route <;> simp [Safe]
  | requestHard index nowNs dueNs route =>
    refine (scheduleWakeup_alive steady (.hard index) nowNs _ route enabled).trans ?_
    cases route <;> simp [Safe]
  | handOver callback => exact iff_of_true (steady.of (carried_handOver enabled) rfl).alive True.intro
  | pop callback => exact iff_of_true (steady.of (carried_pop enabled _) rfl).alive True.intro
  | run callback => exact iff_of_true (run_steady steady callback).alive True.intro
  | turn route => exact iff_of_true (turn_steady steady route).alive True.intro
  | publish lane event => exact iff_of_true steady.alive True.intro
  | elapse nowNs => exact iff_of_true steady.alive True.intro
  | resetModules => exact iff_of_true (resetModulesAndWakeups_steady steady).alive True.intro
  | load vnextB laneCount => exact iff_of_true (loadFirmware_steady steady vnextB laneCount).alive True.intro
  | schedulerReset => exact schedulerReset_alive

theorem step_covered (step : WakeStep originNs dispatchOneEvent s label t) (completes : CompletesTurn s label) :
    Covered originNs t := by
  obtain ⟨_, rfl⟩ := step
  cases label with
  | turn route => exact turn_covered s route
  | run callback =>
    obtain ⟨poll, live, active⟩ := completes
    have live : (s.wakeups callback.id).generation = callback.generation := by rw [poll, live]
    unfold WakeState.perform WakeState.run
    dsimp only
    rw [if_neg (not_not.mpr live), if_pos ⟨poll, active⟩]
    exact turn_covered _ .deferred
  | _ => exact completes.elim

/-- Nothing is scheduled. -/
structure Idle (s : WakeState σ) : Prop where
  cleared : ∀ id, (s.wakeups id).dueNs = none
  queue : s.queue = []
  deferred : s.deferred = []
  inFlight : s.inFlight = []

theorem Idle.steady (idle : Idle s) : Steady s := by
  constructor
  · intro id due pending
    rw [idle.cleared id] at pending
    cases pending
  · intro callback carried
    simp [Carried, idle.queue, idle.deferred, idle.inFlight] at carried

theorem wakeups_survive (idle : Idle start)
    (run : Run (fun s label t => WakeStep originNs dispatchOneEvent s label t ∧ Safe s label) start labels s) :
    Alive s ∧ ∀ label t, WakeStep originNs dispatchOneEvent s label t →
      (Alive t ↔ Safe s label) ∧ (CompletesTurn s label → Covered originNs t) := by
  have steady : Steady s := by
    apply run.invariant idle.steady
    rintro t label u steady ⟨step, safe⟩
    exact ⟨(step_alive steady step).mpr safe, step_bounded steady step⟩
  exact ⟨steady.alive, fun label t step => ⟨step_alive steady step, step_covered step⟩⟩

def quietMcu : WakeState Unit := { nowNs := 0, device := () }

theorem quietMcu_idle : Idle quietMcu := ⟨fun _ => rfl, rfl, rfl, rfl⟩

def dispatchNothing (device : Unit) (_ : Nat) (_ : Event) : Unit × Bool := (device, false)

def polledMcu : WakeState Unit := (quietMcu.loadFirmware true 1).schedulePollAt 5 .direct

theorem polledMcu_run : Run (fun s label t => WakeStep 0 dispatchNothing s label t ∧ Safe s label) quietMcu
    [.load true 1, .requestPoll 5 .direct] polledMcu :=
  .next (.next (.start _) ⟨⟨True.intro, rfl⟩, True.intro⟩) ⟨⟨nofun, rfl⟩, True.intro⟩

theorem wakeups_survive_request :
    Alive polledMcu ∧ ∀ label t, WakeStep 0 dispatchNothing polledMcu label t →
      (Alive t ↔ Safe polledMcu label) ∧ (CompletesTurn polledMcu label → Covered 0 t) :=
  wakeups_survive quietMcu_idle polledMcu_run

/-- After the reset the flag stays set without a callback, and suppresses every later poll. -/
theorem schedulerReset_losesPoll :
    ∃ s, Run (WakeStep 0 dispatchNothing) quietMcu [.load true 1, .requestPoll 5 .direct, .schedulerReset] s ∧
      ¬Alive s ∧ ∀ timeNs route, 5 ≤ timeNs → s.schedulePollAt timeNs route = s := by
  refine ⟨polledMcu.schedulerReset, ?_, ?_, ?_⟩
  · exact .next (.next (.next (.start _) ⟨True.intro, rfl⟩) ⟨nofun, rfl⟩) ⟨True.intro, rfl⟩
  · intro alive
    rcases alive .poll 5 rfl with queued | deferred | inFlight
    · cases queued
    · cases deferred
    · cases inFlight
  · intro timeNs route late
    exact if_pos late

end LasecSimul.Vnext
