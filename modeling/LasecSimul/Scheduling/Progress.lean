import LasecSimul.Scheduling.Discipline
import Mathlib.Data.Finset.Lattice.Lemmas

/-!
# Progress of the worker

A call of `runUntil` that returns by itself has served every event that was due by its target, provided
the clock was before the target when it started. With an unlimited time step the worker's target is the
time of the top event, so an event at or before the clock is not reached.
-/

namespace LasecSimul.Scheduling

open Lib.Trace

namespace System

variable {callbacks : Callbacks} {event : ScheduledEvent} {targetTimeNs : Nat}

/-! ### What a running call keeps -/

/-- Between two turns: if the event is pending, the target is still ahead. -/
def Ahead (event : ScheduledEvent) (targetTimeNs : Nat) (s : Scheduler) : Prop :=
  s.nowNs ≤ targetTimeNs ∧ (event ∈ s.events → s.nowNs < targetTimeNs)

/-- Within a turn: the clock stands at the end of the turn, which is no later than the target. -/
def Within (targetTimeNs : Nat) (frame : StepFrame) (s : Scheduler) : Prop :=
  frame.targetTimeNs = targetTimeNs ∧ frame.previousTime < targetTimeNs ∧
    frame.nextTime ≤ targetTimeNs ∧ s.nowNs = frame.nextTime

/-- After the dispatch loop of a turn: the event is served or due later than the turn. -/
def Passed (event : ScheduledEvent) (frame : StepFrame) (s : Scheduler) : Prop :=
  event ∈ s.events → frame.nextTime < event.timeNs

/-- A call of `runUntil` on its way to the target, as far as the event is concerned. -/
def Pursues (event : ScheduledEvent) (targetTimeNs : Nat) (s : Scheduler) : Control → Prop
  | .chosen target | .settle (.entry target) _ | .stable target | .head target =>
    target = targetTimeNs ∧ Ahead event targetTimeNs s
  | .dispatch frame | .callback frame _ => Within targetTimeNs frame s
  | .settle (.afterEvents frame) _ | .settle (.afterCommit frame) _ | .commit frame =>
    Within targetTimeNs frame s ∧ Passed event frame s
  | .idle => False

/-- `Pursues` reads the clock and whether the event is pending. -/
theorem Pursues.congr {s s' : Scheduler} {control : Control} (h : Pursues event targetTimeNs s control)
    (now : s'.nowNs = s.nowNs) (pending : event ∈ s'.events → event ∈ s.events) :
    Pursues event targetTimeNs s' control := by
  have ahead : Ahead event targetTimeNs s → Ahead event targetTimeNs s' := fun a =>
    ⟨now ▸ a.1, fun member => now ▸ a.2 (pending member)⟩
  have within : ∀ {frame}, Within targetTimeNs frame s → Within targetTimeNs frame s' := fun w =>
    ⟨w.1, w.2.1, w.2.2.1, now.trans w.2.2.2⟩
  have passed : ∀ {frame}, Passed event frame s → Passed event frame s' := fun p member =>
    p (pending member)
  cases control with
  | settle site phase =>
    cases site with
    | entry => exact ⟨h.1, ahead h.2⟩
    | afterEvents | afterCommit => exact ⟨within h.1, passed h.2⟩
  | chosen | stable | head => exact ⟨h.1, ahead h.2⟩
  | dispatch | callback => exact within h
  | commit => exact ⟨within h.1, passed h.2⟩
  | idle => exact h

theorem Passed.ahead {frame : StepFrame} {s : Scheduler} (due : event.timeNs ≤ targetTimeNs)
    (within : Within targetTimeNs frame s) (passed : Passed event frame s) :
    Ahead event targetTimeNs s := by
  obtain ⟨_, _, bound, now⟩ := within
  exact ⟨now ▸ bound, fun pending => now ▸ (passed pending).trans_le due⟩

theorem Pursues.afterSettle {s : Scheduler} {site : SettleSite} {phase : SettlePhase}
    (due : event.timeNs ≤ targetTimeNs) (h : Pursues event targetTimeNs s (.settle site phase))
    (converged hadWork : Bool) :
    Pursues event targetTimeNs s (afterSettle callbacks converged hadWork site) := by
  cases site with
  | entry target =>
    simp only [System.afterSettle]
    split
    · exact h
    · exact h
  | afterEvents frame =>
    simp only [System.afterSettle]
    split
    · exact h
    · exact h
  | afterCommit frame =>
    simp only [System.afterSettle]
    split
    · exact ⟨h.1.1, h.2.ahead due h.1⟩
    · exact ⟨h.1.1, h.2.ahead due h.1⟩

theorem nextTime_le {s : Scheduler} (before : s.nowNs < targetTimeNs) :
    s.nextTime targetTimeNs ≤ targetTimeNs := by
  have capped : s.cappedTime targetTimeNs ≤ targetTimeNs := by
    unfold Scheduler.cappedTime
    split <;> omega
  unfold Scheduler.nextTime
  split
  · split <;> omega
  · exact capped

theorem passed_of_none_due {s : Scheduler} {frame : StepFrame}
    (none : s.dueEvent frame.nextTime = none) : Passed event frame s :=
  lt_of_none_due none

/-- No flag is set and the event is older than any number still to be given. -/
structure Calm (event : ScheduledEvent) (s : Scheduler) : Prop where
  uninterrupted : s.interrupted = false
  numbered : event.sequence < s.nextSequence

theorem Calm.of_same {s s' : Scheduler} (h : Calm event s) (stop : s'.stopRequested = s.stopRequested)
    (pause : s'.paused = s.paused) (sequence : s'.nextSequence = s.nextSequence) : Calm event s' :=
  ⟨by rw [Scheduler.interrupted, stop, pause]; exact h.uninterrupted, sequence ▸ h.numbered⟩

theorem Calm.push {s : Scheduler} (h : Calm event s) (timeNs : Nat) (componentIndex : Option Nat)
    (callback soft : Bool) : Calm event (s.pushEventLocked timeNs componentIndex callback soft) ∧
      (event ∈ (s.pushEventLocked timeNs componentIndex callback soft).events → event ∈ s.events) := by
  refine ⟨⟨?_, ?_⟩, fun member => ?_⟩
  · cases soft <;> exact h.uninterrupted
  · rw [pushEventLocked_nextSequence]
    exact Nat.lt_succ_of_lt h.numbered
  · rw [pushEventLocked_events] at member
    rcases EventQueue.mem_push.mp member with same | old
    · have := congrArg ScheduledEvent.sequence same
      exact absurd h.numbered (by rw [this]; exact lt_irrefl _)
    · exact old

theorem Calm.tune {s s' : Scheduler} (h : Calm event s) (tunes : Tunes s s') :
    Calm event s' ∧ s'.nowNs = s.nowNs ∧ s'.events = s.events := by
  have flags := h.uninterrupted
  simp only [Scheduler.interrupted, Bool.or_eq_false_iff] at flags
  cases tunes with
  | resume => exact ⟨⟨by simp only [Scheduler.interrupted, flags.1]; rfl, h.numbered⟩, rfl, rfl⟩
  | stopped => exact ⟨⟨by simp only [Scheduler.interrupted, flags.2]; rfl, h.numbered⟩, rfl, rfl⟩
  | _ => exact ⟨⟨h.uninterrupted, h.numbered⟩, rfl, rfl⟩

theorem keepStep_spec (event : ScheduledEvent) (s : Scheduler) (frame : StepFrame)
    (decision : TimeStepDecision) :
    (keepStep s frame decision).events = s.events ∧ (keepStep s frame decision).nowNs = s.nowNs ∧
      (Calm event s → Calm event (keepStep s frame decision)) := by
  unfold keepStep
  split
  · exact ⟨rfl, rfl, fun h => h.of_same rfl rfl rfl⟩
  · exact ⟨rfl, rfl, id⟩

theorem takeEvent_calm {s : Scheduler} (h : Calm event s) (taken : ScheduledEvent) :
    Calm event (s.takeEvent taken) := by
  unfold Scheduler.takeEvent
  cases taken.soft <;> exact h.of_same rfl rfl rfl

/-- A step of a call that is not interrupted and does not return yet. -/
theorem Pursues.step {s t : System} {label : Label} (due : event.timeNs ≤ targetTimeNs)
    (h : Pursues event targetTimeNs s.scheduler s.control) (calm : Calm event s.scheduler)
    (step : Step callbacks s label t) (running : label ≠ .returned) (quiet : label ≠ .interrupt) :
    Calm event t.scheduler ∧ Pursues event targetTimeNs t.scheduler t.control := by
  cases step with
  | scheduleAt timeNs componentIndex callback soft _ _ =>
    obtain ⟨calm', pending⟩ := calm.push timeNs componentIndex callback soft
    exact ⟨calm', h.congr (pushEventLocked_nowNs _ _ _ _ _) pending⟩
  | @scheduleEvent s _ delayNs componentIndex callback soft _ =>
    obtain ⟨calm', pending⟩ := calm.push (s.delayed delayNs) componentIndex callback soft
    exact ⟨calm', h.congr (pushEventLocked_nowNs _ _ _ _ _) pending⟩
  | markDirty | dirtySet => exact ⟨calm.of_same rfl rfl rfl, h.congr rfl id⟩
  | tune tunes =>
    obtain ⟨calm', now, events⟩ := calm.tune tunes
    exact ⟨calm', h.congr now (by rw [events]; exact id)⟩
  | pause | stop => exact absurd rfl quiet
  | finish => exact absurd rfl running
  | chooseTarget | runUntil => cases h
  | runChosen => exact ⟨calm.of_same rfl rfl rfl, h.congr rfl id⟩
  | @settleDrained _ site | @settleEnters _ site | @settleReleases _ site | @settleRelocks _ site =>
    cases site <;> exact ⟨calm.of_same rfl rfl rfl, h.congr rfl id⟩
  | settleLeaves | settleConverges =>
    exact ⟨calm.of_same rfl rfl rfl, (h.congr rfl id).afterSettle due _ _⟩
  | stableReturns => exact ⟨calm, h⟩
  | @begin s target reactive before _ _ =>
    obtain ⟨rfl, _⟩ := h
    exact ⟨calm.of_same rfl rfl rfl, rfl, before, nextTime_le before, rfl⟩
  | @execute s frame taken dueNow _ =>
    obtain ⟨top, early⟩ := dueEvent_spec dueNow
    obtain ⟨events, _, now⟩ := takeEvent_spec s taken
    have within : Within targetTimeNs frame (s.takeEvent taken) := by
      obtain ⟨target, before, bound, clock⟩ := (h : Within targetTimeNs frame s)
      have clock : s.nowNs = frame.nextTime := clock
      exact ⟨target, before, bound, by omega⟩
    refine ⟨takeEvent_calm calm taken, ?_⟩
    dsimp only
    split
    · exact within
    · exact within
  | callbackReturns => exact ⟨calm, h⟩
  | @eventsDone s frame done =>
    refine ⟨calm.of_same rfl rfl rfl, h, ?_⟩
    rcases done with none | interrupted
    · exact passed_of_none_due none
    · rw [calm.uninterrupted] at interrupted
      cases interrupted
  | @reject s frame decision rejected =>
    obtain ⟨⟨target, before, _, _⟩, _⟩ := h
    exact ⟨calm.of_same rfl rfl rfl, target, before.le, fun _ => before⟩
  | @keep s frame decision _ =>
    obtain ⟨events, now, calm'⟩ := keepStep_spec event s frame decision
    have kept : Pursues event targetTimeNs (keepStep s frame decision) (.commit frame) :=
      h.congr now (by rw [events]; exact id)
    split
    · exact ⟨(calm' calm).of_same rfl rfl rfl, kept.congr rfl id⟩
    · exact ⟨calm' calm, kept.1.1, kept.2.ahead due kept.1⟩

/-- A run up to the first return, without a pause or stop request. -/
def Completes (callbacks : Callbacks) (s : System) (labels : List Label) (t : System) : Prop :=
  ∃ u, Run callbacks s labels u ∧ Label.returned ∉ labels ∧ Label.interrupt ∉ labels ∧
    Step callbacks u .returned t

theorem Pursues.run {s u : System} {labels : List Label} (due : event.timeNs ≤ targetTimeNs)
    (h : Pursues event targetTimeNs s.scheduler s.control) (calm : Calm event s.scheduler)
    (run : Run callbacks s labels u) (running : Label.returned ∉ labels)
    (quiet : Label.interrupt ∉ labels) :
    Calm event u.scheduler ∧ Pursues event targetTimeNs u.scheduler u.control := by
  induction run with
  | start => exact ⟨calm, h⟩
  | @next _ _ labels label _ last ih =>
    rw [List.mem_append, not_or, List.mem_singleton] at running quiet
    obtain ⟨calm', h'⟩ := ih running.1 quiet.1
    exact h'.step due calm' last (Ne.symm running.2) (Ne.symm quiet.2)

/-- The event is gone when a call that pursues it returns. -/
theorem Pursues.completes {s t : System} {labels : List Label} (due : event.timeNs ≤ targetTimeNs)
    (h : Pursues event targetTimeNs s.scheduler s.control) (calm : Calm event s.scheduler)
    (completes : Completes callbacks s labels t) : event ∉ t.scheduler.events := by
  obtain ⟨u, run, running, quiet, last⟩ := completes
  obtain ⟨calm', h'⟩ := h.run due calm run running quiet
  intro pending
  cases last with
  | @finish s target ends =>
    obtain ⟨rfl, _, ahead⟩ := h'
    rcases ends with reached | interrupted
    · exact reached (ahead pending)
    · rw [calm'.uninterrupted] at interrupted
      cases interrupted

/-! ### Ways to return -/

/-- A run without a return or an interruption. -/
def Reaches (callbacks : Callbacks) (s t : System) : Prop :=
  ∃ labels, Run callbacks s labels t ∧ Label.returned ∉ labels ∧ Label.interrupt ∉ labels

theorem Reaches.refl (s : System) : Reaches callbacks s s :=
  ⟨[], .start s, List.not_mem_nil, List.not_mem_nil⟩

theorem Reaches.trans {s t u : System} (first : Reaches callbacks s t) (second : Reaches callbacks t u) :
    Reaches callbacks s u := by
  obtain ⟨before, run, running, quiet⟩ := first
  obtain ⟨after, run', running', quiet'⟩ := second
  refine ⟨before ++ after, run.append run', ?_, ?_⟩
  · exact fun member => (List.mem_append.mp member).elim running running'
  · exact fun member => (List.mem_append.mp member).elim quiet quiet'

theorem Reaches.one {s t : System} {label : Label} (step : Step callbacks s label t)
    (running : label ≠ .returned) (quiet : label ≠ .interrupt) : Reaches callbacks s t :=
  ⟨[label], .one step, fun member => running (List.mem_singleton.mp member).symm,
    fun member => quiet (List.mem_singleton.mp member).symm⟩

theorem Reaches.silent {s t u : System} (run : Reaches callbacks s t)
    (last : Step callbacks t .silent u) : Reaches callbacks s u :=
  run.trans (.one last nofun nofun)

theorem Reaches.executed {s t : System} {event : ScheduledEvent} (step : Step callbacks s (.executed event) t) :
    Reaches callbacks s t :=
  .one step (fun same => Label.noConfusion same) (fun same => Label.noConfusion same)

/-- Two schedulers with one queue, one clock and no flag set. -/
structure Alike (s u : Scheduler) : Prop where
  events : u.events = s.events
  nowNs : u.nowNs = s.nowNs
  uninterrupted : s.interrupted = false → u.interrupted = false

theorem Alike.refl (s : Scheduler) : Alike s s := ⟨rfl, rfl, id⟩

theorem Alike.trans {s t u : Scheduler} (h : Alike s t) (h' : Alike t u) : Alike s u :=
  ⟨h'.events.trans h.events, h'.nowNs.trans h.nowNs, fun none => h'.uninterrupted (h.uninterrupted none)⟩

/-- The settle can end, whatever was marked meanwhile. -/
def Ends (callbacks : Callbacks) (s : Scheduler) (site : SettleSite) (phase : SettlePhase) : Prop :=
  ∃ u converged hadWork, Reaches callbacks ⟨s, .settle site phase⟩
    ⟨u, afterSettle callbacks converged hadWork site⟩ ∧ Alike s u

/-- A settle at the head of its loop can end: at once, or after one iteration that leaves nothing dirty. -/
theorem settle_ends_check (s : Scheduler) (site : SettleSite) (iterations : Nat) (hadWork : Bool)
    (merged : s.pendingDirty = ∅) : Ends callbacks s site (.check iterations hadWork) := by
  by_cases stops : settleStops callbacks s iterations
  · exact ⟨_, _, _, .one (.settleLeaves stops) nofun nofun, rfl, rfl, id⟩
  · have entered : Reaches callbacks ⟨s, .settle site (.check iterations hadWork)⟩
        ⟨s, .settle site (.iterate (iterations + 1))⟩ := .one (.settleEnters stops) nofun nofun
    have cleared := entered.silent (.dirtySet ∅ rfl)
    have clean : ({ s with dirty := ∅ } : Scheduler).mergePendingDirtyLocked.dirty = ∅ := by
      simp only [Scheduler.mergePendingDirtyLocked, merged, Finset.union_empty]
    exact ⟨_, _, _, cleared.silent (.settleConverges clean), rfl, rfl, id⟩

theorem Ends.before {s s' : Scheduler} {site : SettleSite} {phase phase' : SettlePhase}
    (step : Step callbacks ⟨s, .settle site phase⟩ .silent ⟨s', .settle site phase'⟩)
    (alike : Alike s s') (ends : Ends callbacks s' site phase') : Ends callbacks s site phase := by
  obtain ⟨u, converged, hadWork, run, same⟩ := ends
  exact ⟨u, converged, hadWork, (Reaches.one step nofun nofun).trans run, alike.trans same⟩

theorem settle_ends_release (s : Scheduler) (site : SettleSite) (iterations : Nat) :
    Ends callbacks s site (.release iterations) :=
  Ends.before .settleRelocks ⟨rfl, rfl, id⟩ (settle_ends_check _ site iterations true rfl)

theorem settle_ends_iterate (s : Scheduler) (site : SettleSite) (iterations : Nat) :
    Ends callbacks s site (.iterate iterations) := by
  by_cases clean : s.mergePendingDirtyLocked.dirty = ∅
  · exact ⟨_, _, _, .one (.settleConverges clean) nofun nofun, rfl, rfl, id⟩
  · exact Ends.before (.settleReleases false (Or.inr clean)) ⟨rfl, rfl, id⟩
      (settle_ends_release _ site iterations)

theorem settle_ends (callbacks : Callbacks) (s : Scheduler) (site : SettleSite) (phase : SettlePhase) :
    Ends callbacks s site phase := by
  have check : ∀ iterations hadWork, Ends callbacks s site (.check iterations hadWork) := by
    intro iterations hadWork
    by_cases stops : settleStops callbacks s iterations
    · exact ⟨_, _, _, .one (.settleLeaves stops) nofun nofun, rfl, rfl, id⟩
    · exact Ends.before (.settleEnters stops) (.refl s) (settle_ends_iterate s site _)
  cases phase with
  | drain => exact Ends.before .settleDrained (.refl s) (check 0 false)
  | check iterations hadWork => exact check iterations hadWork
  | iterate iterations => exact settle_ends_iterate s site iterations
  | release iterations => exact settle_ends_release s site iterations

theorem reaches_head_of_entry (callbacks : Callbacks) (targetTimeNs : Nat) (s : Scheduler)
    (phase : SettlePhase) : ∃ u,
    Reaches callbacks ⟨s, .settle (.entry targetTimeNs) phase⟩ ⟨u, .head targetTimeNs⟩ ∧ Alike s u := by
  obtain ⟨u, converged, hadWork, run, alike⟩ := settle_ends callbacks s (.entry targetTimeNs) phase
  simp only [afterSettle] at run
  split at run
  · exact ⟨u, run.silent .stableReturns, alike⟩
  · exact ⟨u, run, alike⟩

theorem reaches_head_of_afterCommit (callbacks : Callbacks) (s : Scheduler) (frame : StepFrame)
    (phase : SettlePhase) : ∃ u,
    Reaches callbacks ⟨s, .settle (.afterCommit frame) phase⟩ ⟨u, .head frame.targetTimeNs⟩ ∧
      Alike s u := by
  obtain ⟨u, converged, hadWork, run, alike⟩ := settle_ends callbacks s (.afterCommit frame) phase
  simp only [afterSettle] at run
  split at run
  · exact ⟨u, run.silent .stableReturns, alike⟩
  · exact ⟨u, run, alike⟩

/-- A commit can accept its step. -/
theorem reaches_head_of_commit (callbacks : Callbacks) (s : Scheduler) (frame : StepFrame) : ∃ u,
    Reaches callbacks ⟨s, .commit frame⟩ ⟨u, .head frame.targetTimeNs⟩ ∧ Alike s u := by
  have accepted : ¬rejects s frame ⟨true, 0, 0⟩ := nofun
  have kept : Alike s (keepStep s frame ⟨true, 0, 0⟩) := by
    unfold keepStep
    split
    · exact ⟨rfl, rfl, id⟩
    · exact .refl s
  obtain ⟨u, run, alike⟩ := reaches_head_of_afterCommit callbacks
    (keepStep s frame ⟨true, 0, 0⟩).mergePendingDirtyLocked frame .drain
  exact ⟨u, (Reaches.one (.keep ⟨true, 0, 0⟩ accepted) nofun nofun).trans run,
    kept.trans ⟨alike.events, alike.nowNs, alike.uninterrupted⟩⟩

theorem reaches_head_of_afterEvents (callbacks : Callbacks) (s : Scheduler) (frame : StepFrame)
    (phase : SettlePhase) : ∃ u,
    Reaches callbacks ⟨s, .settle (.afterEvents frame) phase⟩ ⟨u, .head frame.targetTimeNs⟩ ∧
      Alike s u := by
  obtain ⟨u, converged, hadWork, run, alike⟩ := settle_ends callbacks s (.afterEvents frame) phase
  simp only [afterSettle] at run
  split at run
  · obtain ⟨v, run', alike'⟩ := reaches_head_of_commit callbacks u frame
    exact ⟨v, run.trans run', alike.trans alike'⟩
  · obtain ⟨v, run', alike'⟩ := reaches_head_of_afterCommit callbacks u frame .drain
    exact ⟨v, run.trans run', alike.trans alike'⟩

/-- The dispatch loop can end with the clock at the end of the turn: it serves the due events one by one. -/
theorem reaches_head_of_dispatch (callbacks : Callbacks) (frame : StepFrame) (s : Scheduler)
    (uninterrupted : s.interrupted = false)
    (clock : s.nowNs = frame.nextTime) : ∃ u,
      Reaches callbacks ⟨s, .dispatch frame⟩ ⟨u, .head frame.targetTimeNs⟩ ∧ u.interrupted = false ∧
        u.nowNs = frame.nextTime ∧ u.events.served.length ≤ s.events.served.length ∧
          ((s.dueEvent frame.nextTime).isSome → u.events.served.length < s.events.served.length) := by
  induction size : s.events.served.length generalizing s with
  | zero =>
    have none : s.dueEvent frame.nextTime = none := by
      rw [Scheduler.dueEvent, EventQueue.top, List.length_eq_zero_iff.mp size]
      rfl
    obtain ⟨u, run, alike⟩ := reaches_head_of_afterEvents callbacks
      s.mergePendingDirtyLocked frame .drain
    refine ⟨u, ((Reaches.refl _).silent (.eventsDone (Or.inl none))).trans run,
      alike.uninterrupted uninterrupted, alike.nowNs.trans clock, ?_, ?_⟩
    · rw [alike.events]
      exact size.le
    · rw [none]
      exact fun found => absurd found Bool.false_ne_true
  | succ n ih =>
    cases due : s.dueEvent frame.nextTime with
    | none =>
      obtain ⟨u, run, alike⟩ := reaches_head_of_afterEvents callbacks
        s.mergePendingDirtyLocked frame .drain
      refine ⟨u, ((Reaches.refl _).silent (.eventsDone (Or.inl due))).trans run,
        alike.uninterrupted uninterrupted, alike.nowNs.trans clock, ?_,
        fun found => absurd found Bool.false_ne_true⟩
      rw [alike.events]
      exact size.le
    | some taken =>
      obtain ⟨top, early⟩ := dueEvent_spec due
      obtain ⟨events, _, now⟩ := takeEvent_spec s taken
      have shorter : (s.takeEvent taken).events.served.length = n := by
        rw [pop_served top, List.length_cons] at size
        rw [events]
        omega
      have flags : (s.takeEvent taken).interrupted = false := by
        unfold Scheduler.takeEvent
        cases taken.soft <;> exact uninterrupted
      obtain ⟨u, run, none, clock', bound, _⟩ := ih (s.takeEvent taken) flags (by omega) shorter
      have served : Reaches callbacks ⟨s, .dispatch frame⟩ ⟨s.takeEvent taken, .dispatch frame⟩ := by
        have taking : Step callbacks ⟨s, .dispatch frame⟩ (.executed taken) ⟨s.takeEvent taken, _⟩ :=
          .execute due (by rw [uninterrupted]; exact Bool.false_ne_true)
        by_cases called : taken.callback
        · rw [if_pos called] at taking
          exact (Reaches.executed taking).silent .callbackReturns
        · rw [if_neg called] at taking
          exact .executed taking
      exact ⟨u, served.trans run, none, clock', by omega, fun _ => by omega⟩

/-- Without a limit on the step a turn reaches the target or serves an event. -/
theorem unlimited_turn {s : Scheduler} (unlimited : s.maximumTimeStepNs = 0)
    (short : s.nextTime targetTimeNs < targetTimeNs) :
    (s.dueEvent (s.nextTime targetTimeNs)).isSome := by
  have capped : s.cappedTime targetTimeNs = targetTimeNs := by
    have none : s.selectedStep = 0 := by
      unfold Scheduler.selectedStep
      split
      · rw [unlimited, Nat.zero_min]
      · exact unlimited
    simp only [Scheduler.cappedTime, none, lt_irrefl, false_and, if_false]
  cases top : s.events.top with
  | none =>
    simp only [Scheduler.nextTime, top, capped, lt_irrefl] at short
  | some event =>
    simp only [Scheduler.nextTime, top, capped] at short ⊢
    by_cases early : event.timeNs < targetTimeNs
    · rw [if_pos early] at short ⊢
      simp only [Scheduler.dueEvent, top, Option.filter_some, le_sup_left, decide_true, if_true, Option.isSome_some]
    · rw [if_neg early] at short
      exact absurd short (lt_irrefl _)

/-- From the head of the loop a call can return, serving the queue as far as it has to. -/
theorem head_returns (callbacks : Callbacks) (targetTimeNs : Nat) (s : Scheduler) (uninterrupted : s.interrupted = false) :
    ∃ labels t, Completes callbacks ⟨s, .head targetTimeNs⟩ labels t := by
  induction size : s.events.served.length using Nat.strong_induction_on generalizing s with
  | _ n ih =>
    by_cases before : s.nowNs < targetTimeNs
    · let free : Scheduler := { s with maximumTimeStepNs := 0 }
      have freed : Reaches callbacks ⟨s, .head targetTimeNs⟩ ⟨free, .head targetTimeNs⟩ :=
        .one (.tune (.setMaximumTimeStepNs 0)) nofun nofun
      have begun := freed.trans (.one (.begin ∅ before (by rw [show free.interrupted = false from uninterrupted]; nofun)
        (Or.inr rfl)) nofun nofun)
      obtain ⟨u, run, calm, clock, bound, fewer⟩ := reaches_head_of_dispatch callbacks
        (nextFrame free targetTimeNs)
        { free.setNow (free.nextTime targetTimeNs) with dirty := free.dirty ∪ ∅ } uninterrupted rfl
      have arrived := begun.trans run
      by_cases short : free.nextTime targetTimeNs < targetTimeNs
      · have due := unlimited_turn (s := free) rfl short
        obtain ⟨labels, t, last, run', rest⟩ := ih _ (size ▸ fewer due) u calm rfl
        obtain ⟨labels', first, running, quiet⟩ := arrived
        exact ⟨labels' ++ labels, t, last, first.append run',
          fun member => (List.mem_append.mp member).elim running rest.1,
          fun member => (List.mem_append.mp member).elim quiet rest.2.1, rest.2.2⟩
      · obtain ⟨labels, first, running, quiet⟩ := arrived
        have reached : ¬u.nowNs < targetTimeNs := by
          rw [clock]
          exact short
        exact ⟨labels, _, _, first, running, quiet, .finish (Or.inl reached)⟩
    · exact ⟨[], _, _, .start _, List.not_mem_nil, List.not_mem_nil, .finish (Or.inl before)⟩

/-- A call that is not interrupted can return, wherever it stands. -/
theorem Pursues.returns {s : System} (h : Pursues event targetTimeNs s.scheduler s.control)
    (calm : Calm event s.scheduler) : ∃ labels t, Completes callbacks s labels t := by
  obtain ⟨s, control⟩ := s
  have arrives : ∃ u target, Reaches callbacks ⟨s, control⟩ ⟨u, .head target⟩ ∧ u.interrupted = false := by
    have alike : ∀ {target}, (∃ u, Reaches callbacks ⟨s, control⟩ ⟨u, .head target⟩ ∧ Alike s u) →
        ∃ u target, Reaches callbacks ⟨s, control⟩ ⟨u, .head target⟩ ∧ u.interrupted = false := by
      intro target ⟨u, run, alike⟩
      exact ⟨u, target, run, alike.uninterrupted calm.uninterrupted⟩
    have dispatched : ∀ {frame}, s.nowNs = frame.nextTime → ∃ u,
        Reaches callbacks ⟨s, .dispatch frame⟩ ⟨u, .head frame.targetTimeNs⟩ ∧ u.interrupted = false := by
      intro frame clock
      obtain ⟨u, run, none, _⟩ := reaches_head_of_dispatch callbacks _ s calm.uninterrupted clock
      exact ⟨u, run, none⟩
    cases control with
    | idle => cases h
    | chosen target =>
      obtain ⟨u, run, alike'⟩ := reaches_head_of_entry callbacks target s.mergePendingDirtyLocked .drain
      exact alike ⟨u, (Reaches.one .runChosen nofun nofun).trans run, alike'.1, alike'.2, alike'.3⟩
    | settle site phase =>
      cases site with
      | entry target => exact alike (reaches_head_of_entry callbacks target s phase)
      | afterEvents frame => exact alike (reaches_head_of_afterEvents callbacks s frame phase)
      | afterCommit frame => exact alike (reaches_head_of_afterCommit callbacks s frame phase)
    | stable target => exact alike ⟨s, .one .stableReturns nofun nofun, .refl s⟩
    | head target => exact alike ⟨s, .refl _, .refl s⟩
    | dispatch frame =>
      obtain ⟨u, run, none⟩ := dispatched h.2.2.2
      exact ⟨u, _, run, none⟩
    | callback frame taken =>
      obtain ⟨u, run, none⟩ := dispatched h.2.2.2
      exact ⟨u, _, (Reaches.one .callbackReturns nofun nofun).trans run, none⟩
    | commit frame => exact alike (reaches_head_of_commit callbacks s frame)
  obtain ⟨u, target, ⟨before, first, running, quiet⟩, none⟩ := arrives
  obtain ⟨after, t, last, second, running', quiet', returned⟩ := head_returns callbacks target
    u none
  exact ⟨before ++ after, t, last, first.append second,
    fun member => (List.mem_append.mp member).elim running running',
    fun member => (List.mem_append.mp member).elim quiet quiet', returned⟩

/-- Before the loop of a call, with the clock at the target or past it. -/
def Late (nowNs : Nat) : Control → Prop
  | .chosen target | .settle (.entry target) _ | .stable target | .head target => target ≤ nowNs
  | _ => False

theorem Late.afterSettle {nowNs : Nat} {site : SettleSite} {phase : SettlePhase}
    (h : Late nowNs (.settle site phase)) (converged hadWork : Bool) :
    Late nowNs (afterSettle callbacks converged hadWork site) := by
  cases site with
  | entry target =>
    simp only [System.afterSettle]
    split
    · exact h
    · exact h
  | afterEvents | afterCommit => cases h

/-- Such a call only gains events, and it never enters its loop. -/
theorem Late.step {s t : System} {label : Label} (h : Late s.scheduler.nowNs s.control)
    (step : Step callbacks s label t) (running : label ≠ .returned) :
    Late t.scheduler.nowNs t.control ∧ label.executed? = none ∧
      ∀ event ∈ s.scheduler.events, event ∈ t.scheduler.events := by
  have served : label.executed? = none ∧ t.scheduler.nowNs = s.scheduler.nowNs ∧
      ∀ event ∈ s.scheduler.events, event ∈ t.scheduler.events := by
    cases step.effect with
    | scheduled event _ events _ now _ _ =>
      refine ⟨rfl, now, fun other pending => ?_⟩
      rw [events]
      exact EventQueue.mem_push.mpr (Or.inr pending)
    | began target head before _ _ _ _ =>
      rw [head] at h
      exact absurd before (not_lt.mpr h)
    | executed _ _ dispatch _ _ _ _ _ _ =>
      rw [dispatch] at h
      cases h
    | rejected _ commit _ _ _ _ _ _ =>
      rw [commit] at h
      cases h
    | quiet executed _ _ events _ now _ => exact ⟨executed, now, fun _ => by rw [events]; exact id⟩
  refine ⟨?_, served.1, served.2.2⟩
  rw [served.2.1]
  cases step with
  | scheduleAt | scheduleEvent | markDirty | tune | pause | stop | dirtySet => exact h
  | chooseTarget | runUntil | execute | callbackReturns | eventsDone | reject | keep => cases h
  | runChosen | stableReturns => exact h
  | @settleDrained _ site | @settleEnters _ site | @settleReleases _ site | @settleRelocks _ site =>
    cases site <;> exact h
  | settleLeaves | settleConverges => exact h.afterSettle _ _
  | finish => exact absurd rfl running
  | begin _ before _ _ => exact absurd before (not_lt.mpr h)

theorem Late.completes {s t : System} {labels : List Label} (h : Late s.scheduler.nowNs s.control)
    (completes : Completes callbacks s labels t) :
    executions labels = [] ∧ ∀ event ∈ s.scheduler.events, event ∈ t.scheduler.events := by
  obtain ⟨u, run, running, quiet, last⟩ := completes
  have along : Late u.scheduler.nowNs u.control ∧ executions labels = [] ∧
      ∀ event ∈ s.scheduler.events, event ∈ u.scheduler.events := by
    clear last quiet
    induction run with
    | start => exact ⟨h, rfl, fun _ => id⟩
    | @next _ _ labels label _ last ih =>
      rw [List.mem_append, not_or, List.mem_singleton] at running
      obtain ⟨late, nothing, kept⟩ := ih running.1
      obtain ⟨late', quiet, kept'⟩ := late.step last (Ne.symm running.2)
      refine ⟨late', ?_, fun event pending => kept' event (kept event pending)⟩
      rw [executions_concat, nothing, quiet]
      rfl
  refine ⟨along.2.1, fun event pending => ?_⟩
  have same : t.scheduler = u.scheduler := by cases last; rfl
  rw [same]
  exact along.2.2 event pending

theorem late_returns (callbacks : Callbacks) {s : Scheduler} (phase : SettlePhase) (late : targetTimeNs ≤ s.nowNs) :
    ∃ labels t, Completes callbacks ⟨s, .settle (.entry targetTimeNs) phase⟩ labels t := by
  obtain ⟨u, ⟨labels, run, running, quiet⟩, alike⟩ := reaches_head_of_entry callbacks
    targetTimeNs s phase
  have reached : ¬u.nowNs < targetTimeNs := by
    rw [alike.nowNs]
    exact not_lt.mpr late
  exact ⟨labels, _, _, run, running, quiet, .finish (Or.inl reached)⟩

/-- Every call with this target that returns by itself has served what was due by the target. -/
def RunServes (callbacks : Callbacks) (s : Scheduler) (targetTimeNs : Nat) : Prop :=
  ∀ labels t, Completes callbacks (enterSettle s (.entry targetTimeNs)) labels t →
    ∀ event ∈ s.events, event.timeNs ≤ targetTimeNs → event ∉ t.scheduler.events

/-- A cycle of the worker takes its target from the event, can return from wherever it stands, and has
served the event when it returns. -/
structure CycleServes (callbacks : Callbacks) (s : Scheduler) (event : ScheduledEvent) : Prop where
  chooses : Step callbacks ⟨s, .idle⟩ .silent ⟨s.mergePendingDirtyLocked, .chosen event.timeNs⟩
  returns : ∀ u, Reaches callbacks ⟨s.mergePendingDirtyLocked, .chosen event.timeNs⟩ u →
    ∃ labels t, Completes callbacks u labels t
  serves : ∀ labels t, Completes callbacks ⟨s.mergePendingDirtyLocked, .chosen event.timeNs⟩ labels t →
    .executed event ∈ labels

theorem Orderly.calm {labels : List Label} {s : System} (h : Orderly labels s)
    (uninterrupted : s.scheduler.interrupted = false) (pending : event ∈ s.scheduler.events) :
    Calm event s.scheduler := by
  refine ⟨uninterrupted, ?_⟩
  have listed : event ∈ schedulings labels :=
    h.conserved.mem_iff.mp (List.mem_append_right _ pending)
  have counted := List.mem_map_of_mem (f := (·.sequence)) listed
  rw [h.numbered] at counted
  exact List.mem_range.mp counted

/-- An event that is pending at one point of a run and gone at a later one was served in between. -/
theorem executed_of_gone {s t : System} {before labels : List Label} (run : Run callbacks {} before s)
    (run' : Run callbacks s labels t) (pending : event ∈ s.scheduler.events)
    (gone : event ∉ t.scheduler.events) : .executed event ∈ labels := by
  have orderly := Orderly.run run
  have orderly' := Orderly.run (run.append run')
  have unserved : event ∉ executions before := fun served =>
    List.disjoint_of_nodup_append orderly.events_nodup served pending
  have listed : event ∈ schedulings (before ++ labels) := by
    unfold schedulings
    rw [List.filterMap_append]
    exact List.mem_append_left _ (orderly.conserved.mem_iff.mp (List.mem_append_right _ pending))
  rcases List.mem_append.mp (orderly'.conserved.mem_iff.mpr listed) with served | still
  · unfold executions at served unserved
    rw [List.filterMap_append, List.mem_append] at served
    obtain ⟨label, member, eq⟩ := List.mem_filterMap.mp (served.resolve_left unserved)
    cases label <;> cases eq
    exact member
  · exact absurd still gone

theorem not_cycleServes_of_late {s : Scheduler} (late : event.timeNs ≤ s.nowNs) :
    ¬CycleServes callbacks s event := by
  intro h
  obtain ⟨labels, t, completes⟩ := h.returns _ (.refl _)
  have served := h.serves labels t completes
  have nothing := (Late.completes (s := ⟨s.mergePendingDirtyLocked, .chosen event.timeNs⟩) late completes).1
  have listed : event ∈ executions labels := List.mem_filterMap.mpr ⟨_, served, rfl⟩
  rw [nothing] at listed
  cases listed

theorem not_runServes_of_late {s : Scheduler} (late : targetTimeNs ≤ s.nowNs) (pending : event ∈ s.events)
    (due : event.timeNs ≤ targetTimeNs) : ¬RunServes callbacks s targetTimeNs := by
  intro h
  obtain ⟨labels, t, completes⟩ := late_returns callbacks (s := s.mergePendingDirtyLocked) .drain late
  exact h labels t completes event pending due
    ((Late.completes (s := enterSettle s (.entry targetTimeNs)) late completes).2 event pending)

/-- A scheduler whose only event was scheduled at the clock. -/
def scheduledAtClock : Scheduler := Scheduler.pushEventLocked {} 0 none false false

theorem scheduledAtClock_starves :
    (∃ labels, Run ⟨true, true, true, true⟩ {} labels ⟨scheduledAtClock, .idle⟩) ∧
      scheduledAtClock.maximumTimeStepNs = 0 ∧ scheduledAtClock.interrupted = false ∧
        scheduledAtClock.events.top = some ⟨0, none, 0, false, false⟩ ∧
          ¬CycleServes ⟨true, true, true, true⟩ scheduledAtClock ⟨0, none, 0, false, false⟩ ∧
            ¬RunServes ⟨true, true, true, true⟩ scheduledAtClock 0 := by
  refine ⟨⟨_, .one (.scheduleAt 0 none false false rfl (by decide))⟩, rfl, rfl, rfl, ?_, ?_⟩
  · exact not_cycleServes_of_late le_rfl
  · have pending : (⟨0, none, 0, false, false⟩ : ScheduledEvent) ∈ scheduledAtClock.events :=
      EventQueue.top_mem rfl
    exact not_runServes_of_late le_rfl pending le_rfl

/-- Between runs, with no flag set: the cycle of the worker serves the top event exactly when that event
is later than the clock, and a call with a target at the clock or later serves everything due by the
target exactly when the target is later than the clock or nothing is due by it. -/
theorem worker_progress {labels : List Label} {s : Scheduler} (run : Run callbacks {} labels ⟨s, .idle⟩)
    (uninterrupted : s.interrupted = false) :
    (∀ event, s.maximumTimeStepNs = 0 → s.events.top = some event →
      (CycleServes callbacks s event ↔ s.nowNs < event.timeNs)) ∧
    ∀ targetTimeNs, s.nowNs ≤ targetTimeNs → (RunServes callbacks s targetTimeNs ↔
      s.nowNs < targetTimeNs ∨ ∀ event ∈ s.events, targetTimeNs < event.timeNs) := by
  have orderly := Orderly.run run
  refine ⟨fun event unlimited top => ⟨fun serves => ?_, fun later => ?_⟩,
    fun targetTimeNs ahead => ⟨fun serves => ?_, fun condition labels' t completes event pending due => ?_⟩⟩
  · by_contra late
    exact not_cycleServes_of_late (not_lt.mp late) serves
  · have pending := EventQueue.top_mem top
    have chooses : Step callbacks ⟨s, .idle⟩ .silent ⟨s.mergePendingDirtyLocked, .chosen event.timeNs⟩ :=
      .chooseTarget unlimited top
    have calm : Calm event s.mergePendingDirtyLocked :=
      (Orderly.calm orderly uninterrupted pending).of_same rfl rfl rfl
    have pursues : Pursues event event.timeNs s.mergePendingDirtyLocked (.chosen event.timeNs) :=
      ⟨rfl, later.le, fun _ => later⟩
    refine ⟨chooses, fun u reaches => ?_, fun labels' t completes => ?_⟩
    · obtain ⟨labels', run', running, quiet⟩ := reaches
      obtain ⟨calm', pursues'⟩ := Pursues.run le_rfl pursues calm run' running quiet
      exact pursues'.returns calm'
    · have gone := Pursues.completes le_rfl pursues calm completes
      obtain ⟨u, run', _, _, last⟩ := completes
      have executed := executed_of_gone (run.next chooses) (run'.next last) pending gone
      exact (List.mem_append.mp executed).resolve_right (by nofun)
  · by_contra fails
    rw [not_or, not_lt, not_forall] at fails
    obtain ⟨late, event, due⟩ := fails
    rw [Classical.not_imp, not_lt] at due
    exact not_runServes_of_late late due.1 due.2 serves
  · rcases condition with before | none
    · have calm : Calm event s.mergePendingDirtyLocked :=
        (Orderly.calm orderly uninterrupted pending).of_same rfl rfl rfl
      exact Pursues.completes (s := enterSettle s (.entry targetTimeNs)) due
        ⟨rfl, ahead, fun _ => before⟩ calm completes
    · exact absurd (none event pending) (not_lt.mpr due)

theorem worker_progress_oneEvent :
    CycleServes ⟨true, true, true, true⟩ (Scheduler.pushEventLocked {} 3 none false false)
      ⟨3, none, 0, false, false⟩ := by
  have run : Run ⟨true, true, true, true⟩ {} _ ⟨Scheduler.pushEventLocked {} 3 none false false, .idle⟩ :=
    .one (.scheduleAt 3 none false false rfl (by decide))
  exact ((worker_progress run rfl).1 _ rfl rfl).mpr (by decide)

end System
end LasecSimul.Scheduling
