import LasecSimul.Scheduling.Scheduler
import Mathlib.Data.List.Nodup
import Mathlib.Data.List.Range

/-!
# Event discipline

Events are served once, in order, and not early; the clock goes back only when a turn that served
nothing is rejected. `Effect` says once what a step can do to the queue, the clock and the turn.
-/

namespace LasecSimul.Scheduling

open Lib.Trace

def SettleSite.frame : SettleSite → Option StepFrame
  | .entry _ => none
  | .afterEvents frame | .afterCommit frame => some frame

/-- The turn of the loop the control is in, from the begin of the turn to its last settle. -/
def Control.frame : Control → Option StepFrame
  | .dispatch frame | .callback frame _ | .commit frame => some frame
  | .settle site _ => site.frame
  | _ => none

/-- A step that leaves queue and clock alone stays in its turn or leaves it, and comes back to the
dispatch loop only from a callback. -/
def Control.Continues (before after : Control) : Prop :=
  ∀ frame, after.frame = some frame → before.frame = some frame ∧
    (after = .dispatch frame → before = .dispatch frame ∨ ∃ event, before = .callback frame event) ∧
      ∀ event, after = .callback frame event → before = .callback frame event

def Label.executed? : Label → Option ScheduledEvent
  | .executed event => some event
  | _ => none

def Label.scheduled? : Label → Option ScheduledEvent
  | .scheduled event => some event
  | _ => none

def executions (labels : List Label) : List ScheduledEvent := labels.filterMap Label.executed?

def schedulings (labels : List Label) : List ScheduledEvent := labels.filterMap Label.scheduled?

namespace System

inductive Effect (s : System) : Label → System → Prop where
  | scheduled {t : System} (event : ScheduledEvent) : event.sequence = s.scheduler.nextSequence →
    t.scheduler.events = s.scheduler.events.push event →
    t.scheduler.nextSequence = s.scheduler.nextSequence + 1 → t.scheduler.nowNs = s.scheduler.nowNs →
    t.control = s.control → s.control.unlocked ∨ s.control.inCallback →
    Effect s (.scheduled event) t
  | began {t : System} (targetTimeNs : Nat) : s.control = .head targetTimeNs →
    s.scheduler.nowNs < targetTimeNs → t.scheduler.events = s.scheduler.events →
    t.scheduler.nextSequence = s.scheduler.nextSequence →
    t.scheduler.nowNs = s.scheduler.nextTime targetTimeNs →
    t.control = .dispatch (nextFrame s.scheduler targetTimeNs) →
    Effect s (.began (nextFrame s.scheduler targetTimeNs)) t
  | executed {t : System} (frame : StepFrame) (event : ScheduledEvent) :
    s.control = .dispatch frame → s.scheduler.events.top = some event →
    event.timeNs ≤ frame.nextTime → t.scheduler.events = s.scheduler.events.pop →
    t.scheduler.nextSequence = s.scheduler.nextSequence →
    t.scheduler.nowNs = max event.timeNs s.scheduler.nowNs →
    t.control = (if event.callback then .callback frame event else .dispatch frame) →
    Effect s (.executed event) t
  | rejected {t : System} (frame : StepFrame) : s.control = .commit frame →
    frame.eventBoundary = false → frame.previousTime < frame.nextTime →
    t.scheduler.events = s.scheduler.events →
    t.scheduler.nextSequence = s.scheduler.nextSequence → t.scheduler.nowNs = frame.previousTime →
    t.control = .head frame.targetTimeNs → Effect s (.rejected frame) t
  | quiet {t : System} {label : Label} : label.executed? = none → label.scheduled? = none →
    (∀ frame, label ≠ .began frame) → t.scheduler.events = s.scheduler.events →
    t.scheduler.nextSequence = s.scheduler.nextSequence → t.scheduler.nowNs = s.scheduler.nowNs →
    s.control.Continues t.control → Effect s label t

theorem pushEventLocked_events (s : Scheduler) (timeNs : Nat) (componentIndex : Option Nat)
    (callback soft : Bool) : (s.pushEventLocked timeNs componentIndex callback soft).events =
      s.events.push (s.nextEvent timeNs componentIndex callback soft) := by
  cases soft <;> rfl

theorem pushEventLocked_nextSequence (s : Scheduler) (timeNs : Nat) (componentIndex : Option Nat)
    (callback soft : Bool) :
    (s.pushEventLocked timeNs componentIndex callback soft).nextSequence = s.nextSequence + 1 := by
  cases soft <;> rfl

theorem pushEventLocked_nowNs (s : Scheduler) (timeNs : Nat) (componentIndex : Option Nat)
    (callback soft : Bool) :
    (s.pushEventLocked timeNs componentIndex callback soft).nowNs = s.nowNs := by
  cases soft <;> rfl

theorem takeEvent_spec (s : Scheduler) (event : ScheduledEvent) :
    (s.takeEvent event).events = s.events.pop ∧ (s.takeEvent event).nextSequence = s.nextSequence ∧
      (s.takeEvent event).nowNs = max event.timeNs s.nowNs := by
  refine ⟨?_, ?_, ?_⟩
  · unfold Scheduler.takeEvent
    cases event.soft <;> rfl
  · unfold Scheduler.takeEvent
    cases event.soft <;> rfl
  · show (if event.timeNs > s.nowNs then event.timeNs else s.nowNs) = _
    split <;> omega

theorem dueEvent_spec {s : Scheduler} {targetTimeNs : Nat} {event : ScheduledEvent}
    (due : s.dueEvent targetTimeNs = some event) :
    s.events.top = some event ∧ event.timeNs ≤ targetTimeNs := by
  obtain ⟨top, early⟩ := Option.filter_eq_some_iff.mp due
  exact ⟨top, of_decide_eq_true early⟩

/-- When the dispatch loop ends by itself, everything still pending is due after the turn. -/
theorem lt_of_none_due {s : Scheduler} {targetTimeNs : Nat} {event : ScheduledEvent}
    (none : s.dueEvent targetTimeNs = none) (pending : event ∈ s.events) : targetTimeNs < event.timeNs := by
  cases top : s.events.top with
  | none =>
    rw [EventQueue.top, List.head?_eq_none_iff] at top
    have listed : event ∈ s.events.served := pending
    rw [top] at listed
    cases listed
  | some first =>
    simp only [Scheduler.dueEvent, top, Option.filter_some, ite_eq_right_iff, decide_eq_true_eq] at none
    have later : targetTimeNs < first.timeNs := by
      by_contra early
      cases none (not_lt.mp early)
    rcases EventQueue.top_noLater top pending with h | ⟨h, _⟩
    · exact later.trans h
    · exact h ▸ later

theorem continues_refl (control : Control) : control.Continues control :=
  fun _ same => ⟨same, Or.inl, fun _ => id⟩

theorem settle_continues (site : SettleSite) (phase phase' : SettlePhase) :
    Control.Continues (.settle site phase) (.settle site phase') :=
  fun _ same => ⟨same, nofun, nofun⟩

/-- The control after a settle is in the turn of the settle or in none, and never in the dispatch loop. -/
theorem afterSettle_continues (callbacks : Callbacks) (converged hadWork : Bool) (site : SettleSite)
    (phase : SettlePhase) :
    Control.Continues (.settle site phase) (afterSettle callbacks converged hadWork site) := by
  cases site with
  | entry targetTimeNs =>
    simp only [afterSettle]
    split
    · nofun
    · nofun
  | afterEvents f =>
    simp only [afterSettle]
    split
    · exact fun _ same => ⟨same, nofun, nofun⟩
    · exact fun _ same => ⟨same, nofun, nofun⟩
  | afterCommit f =>
    simp only [afterSettle]
    split
    · nofun
    · nofun

/-- What a step can do. -/
theorem Step.effect {callbacks : Callbacks} {s t : System} {label : Label}
    (step : Step callbacks s label t) : Effect s label t := by
  cases step with
  | scheduleAt timeNs componentIndex callback soft free _ =>
    exact .scheduled _ rfl (pushEventLocked_events ..) (pushEventLocked_nextSequence ..)
      (pushEventLocked_nowNs ..) rfl (Or.inl free)
  | scheduleEvent delayNs componentIndex callback soft allowed =>
    exact .scheduled _ rfl (pushEventLocked_events ..) (pushEventLocked_nextSequence ..)
      (pushEventLocked_nowNs ..) rfl allowed
  | markDirty | pause | stop | dirtySet =>
    exact .quiet rfl rfl nofun rfl rfl rfl (continues_refl _)
  | tune tunes => cases tunes <;> exact .quiet rfl rfl nofun rfl rfl rfl (continues_refl _)
  | chooseTarget | runChosen | runUntil | stableReturns | finish =>
    exact .quiet rfl rfl nofun rfl rfl rfl nofun
  | settleDrained | settleEnters | settleReleases | settleRelocks =>
    exact .quiet rfl rfl nofun rfl rfl rfl (settle_continues _ _ _)
  | settleLeaves | settleConverges =>
    exact .quiet rfl rfl nofun rfl rfl rfl (afterSettle_continues _ _ _ _ _)
  | begin reactive before _ _ => exact .began _ rfl before rfl rfl rfl rfl
  | @execute s frame event due _ =>
    obtain ⟨top, early⟩ := dueEvent_spec due
    obtain ⟨events, sequence, now⟩ := takeEvent_spec s event
    exact .executed frame event rfl top early events sequence now rfl
  | @callbackReturns s frame event =>
    exact .quiet rfl rfl nofun rfl rfl rfl fun _ same =>
      ⟨same, fun eq => Or.inr ⟨event, by cases eq; rfl⟩, nofun⟩
  | eventsDone => exact .quiet rfl rfl nofun rfl rfl rfl fun _ same => ⟨same, nofun, nofun⟩
  | @reject s frame decision rejected =>
    simp only [rejects, Bool.and_eq_true, Bool.not_eq_true', decide_eq_true_eq] at rejected
    exact .rejected frame rfl rejected.1.2 (by omega) rfl rfl rfl rfl
  | @keep s frame decision _ =>
    have kept : (keepStep s frame decision).events = s.events ∧
        (keepStep s frame decision).nextSequence = s.nextSequence ∧
          (keepStep s frame decision).nowNs = s.nowNs := by
      unfold keepStep
      split <;> exact ⟨rfl, rfl, rfl⟩
    split
    · exact .quiet rfl rfl nofun kept.1 kept.2.1 kept.2.2 fun _ same => ⟨same, nofun, nofun⟩
    · exact .quiet rfl rfl nofun kept.1 kept.2.1 kept.2.2 nofun

theorem le_cappedTime {s : Scheduler} {targetTimeNs : Nat} (before : s.nowNs < targetTimeNs) :
    s.nowNs ≤ s.cappedTime targetTimeNs := by
  unfold Scheduler.cappedTime
  split <;> omega

theorem le_nextTime {s : Scheduler} {targetTimeNs : Nat} (before : s.nowNs < targetTimeNs) :
    s.nowNs ≤ s.nextTime targetTimeNs := by
  have capped := le_cappedTime before
  unfold Scheduler.nextTime
  split
  · split <;> omega
  · exact capped

/-- A turn that moves the clock to a time at which no event is due finds none due before it either. -/
theorem no_event_due {s : Scheduler} {targetTimeNs : Nat} (boundary : s.atEventBoundary (s.nextTime targetTimeNs) = false)
    (moves : s.nowNs < s.nextTime targetTimeNs) {event : ScheduledEvent}
    (top : s.events.top = some event) : s.nextTime targetTimeNs < event.timeNs := by
  simp only [Scheduler.atEventBoundary, top, Option.any_some, decide_eq_false_iff_not] at boundary
  simp only [Scheduler.nextTime, top] at boundary moves ⊢
  split at boundary <;> simp only [*, if_true, if_false] at moves ⊢ <;> omega

/-- What holds between steps: the queue lists distinct, numbered events, and during a turn the clock
stands at the time the turn moved it to. -/
structure Orderly (labels : List Label) (s : System) : Prop where
  numbered : (schedulings labels).map (·.sequence) = List.range s.scheduler.nextSequence
  conserved : (executions labels ++ s.scheduler.events.served).Perm (schedulings labels)
  clock : ∀ frame, s.control.frame = some frame →
    s.scheduler.nowNs = frame.nextTime ∧ frame.previousTime ≤ frame.nextTime

theorem push_perm (queue : EventQueue) (event : ScheduledEvent) :
    (queue.push event).served.Perm (event :: queue.served) :=
  List.perm_orderedInsert _ _ _

theorem pop_served {queue : EventQueue} {event : ScheduledEvent} (top : queue.top = some event) :
    queue.served = event :: queue.pop.served := by
  obtain ⟨rest, split⟩ := List.head?_eq_some_iff.mp top
  simp only [EventQueue.pop, split, List.tail_cons]

theorem executions_concat (labels : List Label) (label : Label) :
    executions (labels ++ [label]) = executions labels ++ label.executed?.toList := by
  unfold executions
  rw [List.filterMap_append]
  cases h : label.executed? <;> simp [h]

theorem schedulings_concat (labels : List Label) (label : Label) :
    schedulings (labels ++ [label]) = schedulings labels ++ label.scheduled?.toList := by
  unfold schedulings
  rw [List.filterMap_append]
  cases h : label.scheduled? <;> simp [h]

theorem Orderly.step {labels : List Label} {s t : System} {label : Label} (h : Orderly labels s)
    (effect : Effect s label t) : Orderly (labels ++ [label]) t := by
  cases effect with
  | scheduled event sequence events next now control _ =>
    refine ⟨?_, ?_, ?_⟩
    · rw [schedulings_concat, next, List.range_succ, List.map_append, h.numbered, ← sequence]
      rfl
    · rw [executions_concat, schedulings_concat, events]
      simp only [Label.executed?, Label.scheduled?, Option.toList_none, Option.toList_some, List.append_nil]
      have pushed := (push_perm s.scheduler.events event).append_left (executions labels)
      have moved := pushed.trans List.perm_middle
      exact moved.trans ((h.conserved.cons event).trans (List.perm_append_singleton _ _).symm)
    · intro frame inTurn
      rw [control] at inTurn
      rw [now]
      exact h.clock frame inTurn
  | began targetTimeNs head before events next now control =>
    refine ⟨?_, ?_, ?_⟩
    · rw [schedulings_concat, next, ← h.numbered]
      exact congrArg _ (List.append_nil _)
    · rw [executions_concat, schedulings_concat, events]
      simpa [Label.executed?, Label.scheduled?] using h.conserved
    · intro frame inTurn
      rw [control] at inTurn
      obtain rfl := Option.some.inj inTurn
      exact ⟨now, le_nextTime before⟩
  | executed frame event dispatch top early events next now control =>
    obtain ⟨clock, grows⟩ := h.clock frame (by rw [dispatch]; rfl)
    refine ⟨?_, ?_, ?_⟩
    · rw [schedulings_concat, next, ← h.numbered]
      exact congrArg _ (List.append_nil _)
    · rw [executions_concat, schedulings_concat, events]
      simp only [Label.executed?, Label.scheduled?, Option.toList_none, Option.toList_some, List.append_nil,
        List.append_assoc, List.singleton_append]
      rw [← pop_served top]
      exact h.conserved
    · intro other inTurn
      have same : frame = other := by
        rw [control] at inTurn
        split at inTurn <;> exact Option.some.inj inTurn
      subst same
      exact ⟨by omega, grows⟩
  | rejected frame commit _ _ events next now control =>
    refine ⟨?_, ?_, ?_⟩
    · rw [schedulings_concat, next, ← h.numbered]
      exact congrArg _ (List.append_nil _)
    · rw [executions_concat, schedulings_concat, events]
      simpa [Label.executed?, Label.scheduled?] using h.conserved
    · intro other inTurn
      rw [control] at inTurn
      cases inTurn
  | quiet executed scheduled _ events next now continues =>
    refine ⟨?_, ?_, ?_⟩
    · rw [schedulings_concat, next, ← h.numbered, scheduled]
      exact congrArg _ (List.append_nil _)
    · rw [executions_concat, schedulings_concat, events, executed, scheduled]
      simpa using h.conserved
    · intro frame inTurn
      rw [now]
      exact h.clock frame (continues frame inTurn).1

theorem orderly_init : Orderly [] {} :=
  ⟨rfl, .nil, nofun⟩

theorem Orderly.run {callbacks : Callbacks} {labels : List Label} {s : System}
    (run : Run callbacks {} labels s) : Orderly labels s :=
  Run.history (P := Orderly) run orderly_init fun _ _ _ _ _ h step => h.step step.effect

/-- The labels end in the turn `frame`, which started with the clock at its previous time and served
nothing yet. -/
def ServedNothing (callbacks : Callbacks) (labels : List Label) (frame : StepFrame) : Prop :=
  ∃ before within start, labels = before ++ .began frame :: within ∧ Run callbacks {} before start ∧
    start.scheduler.nowNs = frame.previousTime ∧ executions within = []

/-- During a turn that moves the clock and meets no event nothing is served and nothing is due. -/
def QuietTurn (callbacks : Callbacks) (labels : List Label) (s : System) : Prop :=
  ∀ frame, s.control.frame = some frame → frame.eventBoundary = false →
    frame.previousTime < frame.nextTime → ServedNothing callbacks labels frame ∧
      (∀ event, s.control ≠ .callback frame event) ∧
        (s.control = .dispatch frame → ∀ event, s.scheduler.events.top = some event →
          frame.nextTime < event.timeNs)

theorem ServedNothing.concat {callbacks : Callbacks} {labels : List Label} {frame : StepFrame}
    {label : Label} (h : ServedNothing callbacks labels frame) (quiet : label.executed? = none) :
    ServedNothing callbacks (labels ++ [label]) frame := by
  obtain ⟨before, within, start, rfl, run, clock, nothing⟩ := h
  refine ⟨before, within ++ [label], start, by simp, run, clock, ?_⟩
  rw [executions_concat, nothing, quiet]
  rfl

theorem QuietTurn.step {callbacks : Callbacks} {labels : List Label} {s t : System} {label : Label}
    (run : Run callbacks {} labels s) (h : QuietTurn callbacks labels s) (effect : Effect s label t) :
    QuietTurn callbacks (labels ++ [label]) t := by
  intro frame inTurn boundary moves
  cases effect with
  | scheduled event _ _ _ _ control allowed =>
    rw [control] at inTurn ⊢
    obtain ⟨nothing, noCallback, _⟩ := h frame inTurn boundary moves
    refine ⟨nothing.concat rfl, noCallback, fun dispatch => ?_⟩
    rw [dispatch] at allowed
    rcases allowed with h | h <;> cases h
  | began targetTimeNs _ _ events _ _ control =>
    rw [control] at inTurn ⊢
    obtain rfl := Option.some.inj inTurn
    refine ⟨⟨labels, [], s, rfl, run, rfl, rfl⟩, nofun, fun _ event top => ?_⟩
    rw [events] at top
    exact no_event_due boundary moves top
  | executed served event dispatch top early _ _ _ control =>
    have same : served = frame := by
      rw [control] at inTurn
      split at inTurn <;> exact Option.some.inj inTurn
    subst same
    obtain ⟨_, _, later⟩ := h served (by rw [dispatch]; rfl) boundary moves
    exact absurd (later dispatch event top) (not_lt.mpr early)
  | rejected _ _ _ _ _ _ _ control =>
    rw [control] at inTurn
    cases inTurn
  | quiet executed _ _ events _ _ continues =>
    obtain ⟨before, fromDispatch, fromCallback⟩ := continues frame inTurn
    obtain ⟨nothing, noCallback, later⟩ := h frame before boundary moves
    refine ⟨nothing.concat executed, ?_, ?_⟩
    · intro event callback
      exact noCallback event (fromCallback event callback)
    · intro dispatch event top
      rw [events] at top
      rcases fromDispatch dispatch with same | ⟨event', same⟩
      · exact later same event top
      · exact absurd same (noCallback event')

theorem QuietTurn.run {callbacks : Callbacks} {labels : List Label} {s : System}
    (run : Run callbacks {} labels s) : QuietTurn callbacks labels s :=
  Run.history (P := QuietTurn callbacks) run nofun fun _ _ _ _ run h step => h.step run step.effect

/-- The event is pending and comes before every other pending one: by time, then by number. -/
def ServedFirst (queue : EventQueue) (event : ScheduledEvent) : Prop :=
  event ∈ queue ∧ ∀ other ∈ queue, other ≠ event →
    event.timeNs < other.timeNs ∨ event.timeNs = other.timeNs ∧ event.sequence < other.sequence

theorem Orderly.sequences_nodup {labels : List Label} {s : System} (h : Orderly labels s) :
    ((schedulings labels).map (·.sequence)).Nodup := by
  rw [h.numbered]
  exact List.nodup_range

theorem Orderly.events_nodup {labels : List Label} {s : System} (h : Orderly labels s) :
    (executions labels ++ s.scheduler.events.served).Nodup :=
  h.conserved.nodup_iff.mpr h.sequences_nodup.of_map

theorem Orderly.servedFirst {labels : List Label} {s : System} (h : Orderly labels s)
    {event : ScheduledEvent} (top : s.scheduler.events.top = some event) :
    ServedFirst s.scheduler.events event := by
  refine ⟨EventQueue.top_mem top, fun other member ne => ?_⟩
  have scheduled : ∀ e ∈ s.scheduler.events, e ∈ schedulings labels := fun e pending =>
    h.conserved.mem_iff.mp (List.mem_append_right _ pending)
  have distinct : other.sequence ≠ event.sequence := fun same =>
    ne (List.inj_on_of_nodup_map h.sequences_nodup (scheduled other member)
      (scheduled event (EventQueue.top_mem top)) same)
  rcases EventQueue.top_noLater top member with earlier | ⟨same, lower⟩
  · exact Or.inl earlier
  · exact Or.inr ⟨same, by omega⟩

/-- In every run each scheduled event is served at most once, an event is served before every other
pending one and never before its time, and the clock goes back only to the start of a turn that is
rejected and served nothing. -/
theorem event_discipline {callbacks : Callbacks} {labels : List Label} {s : System}
    (run : Run callbacks {} labels s) :
    (executions labels).Nodup ∧ (∀ event ∈ executions labels, event ∈ schedulings labels) ∧
      ∀ label t, Step callbacks s label t →
        (∀ event, label = .executed event → ServedFirst s.scheduler.events event ∧
          event.timeNs ≤ s.scheduler.nowNs ∧ event ∉ t.scheduler.events ∧ event ∉ executions labels) ∧
        (t.scheduler.nowNs < s.scheduler.nowNs → ∃ frame, label = .rejected frame ∧
          t.scheduler.nowNs = frame.previousTime ∧ ServedNothing callbacks labels frame) := by
  have orderly := Orderly.run run
  have nodup := orderly.events_nodup
  refine ⟨nodup.of_append_left, fun event member => orderly.conserved.mem_iff.mp
    (List.mem_append_left _ member), fun label t step => ⟨?_, ?_⟩⟩
  · rintro event rfl
    cases step.effect with
    | executed frame _ dispatch top early events _ _ _ =>
      obtain ⟨clock, _⟩ := orderly.clock frame (by rw [dispatch]; rfl)
      have listed := pop_served top
      rw [listed] at nodup
      refine ⟨orderly.servedFirst top, clock ▸ early, ?_, ?_⟩
      · rw [events]
        exact (List.nodup_cons.mp nodup.of_append_right).1
      · exact fun served => List.disjoint_of_nodup_append nodup served List.mem_cons_self
    | quiet executed => cases executed
  · intro back
    cases step.effect with
    | scheduled _ _ _ _ now _ _ => omega
    | began targetTimeNs _ before _ _ now _ =>
      have := le_nextTime before
      omega
    | executed _ event _ _ _ _ _ now _ => omega
    | rejected frame commit boundary moves _ _ now _ =>
      obtain ⟨nothing, _⟩ := QuietTurn.run run frame (by rw [commit]; rfl) boundary moves
      exact ⟨frame, rfl, now, nothing⟩
    | quiet _ _ _ _ _ now _ => omega

/-- A scheduler with one event at 3 ns, at the first dispatch of `runUntil 5`. -/
def atFirstDispatch : System :=
  let s := Scheduler.pushEventLocked {} 3 none false false
  ⟨s.setNow 3, .dispatch (nextFrame s 5)⟩

theorem atFirstDispatch_run : ∃ labels, Run ⟨true, true, true, true⟩ {} labels atFirstDispatch := by
  refine ⟨_, Run.next (Run.next (Run.next (Run.next (Run.next (.start _)
    (.scheduleAt 3 none false false rfl (by decide))) (.runUntil 5 (by decide))) .settleDrained)
      (.settleLeaves (by decide))) (.begin ∅ (by decide) (by decide) (Or.inr rfl))⟩

theorem event_discipline_atFirstDispatch :
    ServedFirst atFirstDispatch.scheduler.events ⟨3, none, 0, false, false⟩ := by
  obtain ⟨labels, run⟩ := atFirstDispatch_run
  have step : Step ⟨true, true, true, true⟩ atFirstDispatch (.executed ⟨3, none, 0, false, false⟩) _ :=
    .execute rfl (by decide)
  exact (((event_discipline run).2.2 _ _ step).1 _ rfl).1

end System
end LasecSimul.Scheduling
