import LasecSimul.Scheduling.Call

/-!
# The budget of a call

A rejected step shrinks the next attempt, an accepted step moves the clock, and a turn of no duration serves
an event, so the moves of a call spend a budget that only scheduling refills.
-/

namespace LasecSimul.Scheduling

namespace System

variable {settings : TransientSettings} {targetTimeNs startNs : Nat} {s t : System} {label : Label}

/-- A turn of no duration that still has to serve an event. -/
def stalled (s : Scheduler) (frame : StepFrame) : Bool :=
  !decide (frame.previousTime < frame.nextTime) && (s.dueEvent frame.nextTime).isSome

/-- The moves of one turn, its events apart. -/
def turnWork (limit : Nat) : Nat := 6 * limit + 9

/-- The moves left to the turn. A stalled turn is paid for by the event it will serve. -/
def work (limit : Nat) (s : Scheduler) : Control → Nat
  | .idle | .chosen _ => 0
  | .head _ => 1
  | .stable _ => 2
  | .settle (.entry _) phase | .settle (.afterCommit _) phase => settleWork limit phase + 1
  | .commit _ => 3 * limit + 5
  | .settle (.afterEvents _) phase => settleWork limit phase + (3 * limit + 5)
  | .dispatch frame => if stalled s frame then 0 else turnWork limit
  | .callback frame _ => if stalled s frame then 1 else turnWork limit + 1

/-- A bound on the attempts still to come: the step length is the measure between two accepted steps. -/
def attempts (settings : TransientSettings) (targetTimeNs : Nat) (s : System) : Nat :=
  (targetTimeNs - reached s) * (settings.maximumStepNs + 1) + s.scheduler.currentTimeStepNs -
    (if s.control.forward then 1 else 0)

def budget (settings : TransientSettings) (targetTimeNs : Nat) (s : System) : Nat :=
  (turnWork settings.maximumNewtonIterations + 3) * s.scheduler.events.served.length +
    attempts settings targetTimeNs s * turnWork settings.maximumNewtonIterations +
      work settings.maximumNewtonIterations s.scheduler s.control

theorem work_congr {limit : Nat} {s t : Scheduler} (events : t.events = s.events) (control : Control) :
    work limit t control = work limit s control := by
  have same : ∀ frame, stalled t frame = stalled s frame := fun frame => by
    rw [stalled, stalled, Scheduler.dueEvent, Scheduler.dueEvent, events]
  cases control with
  | settle site => cases site <;> rfl
  | dispatch | callback => simp only [work, same]
  | _ => rfl

theorem Advances.forward {limit : Nat} {s : Scheduler} {control next : Control}
    (advances : Advances limit s control next) : next.forward = control.forward := by
  cases advances with
  | settles site => cases site <;> rfl
  | entered _ _ next | accepted _ _ next => obtain rfl | rfl := next <;> rfl
  | servedNow frame _ still => exact (decide_eq_false still).symm
  | served | stable | called | dispatched => rfl

/-- Every advance is work done, except within a settle that has no limit. -/
theorem Advances.works {limit : Nat} {s : Scheduler} {control next : Control}
    (advances : Advances limit s control next) : work limit s next ≤ work limit s control ∧
      (¬(limit = 0 ∧ ∃ site phase phase', control = .settle site phase ∧ next = .settle site phase') →
        work limit s next < work limit s control) := by
  have strictly : work limit s next < work limit s control → work limit s next ≤ work limit s control ∧
      (¬(limit = 0 ∧ ∃ site phase phase', control = .settle site phase ∧ next = .settle site phase') →
        work limit s next < work limit s control) := fun less => ⟨less.le, fun _ => less⟩
  cases advances with
  | @settles site phase phase' less strict =>
    refine ⟨?_, fun limited => ?_⟩
    · cases site <;> exact Nat.add_le_add_right less _
    · have less := strict fun none => limited ⟨none, site, phase, phase', rfl, rfl⟩
      cases site <;> exact Nat.add_lt_add_right less _
  | entered _ enough next | accepted _ enough next =>
    apply strictly
    obtain rfl | rfl := next <;> simp only [work] <;> omega
  | @served frame phase enough =>
    apply strictly
    show 3 * limit + 5 < settleWork limit phase + (3 * limit + 5)
    omega
  | @servedNow frame phase enough =>
    apply strictly
    show 3 * limit + 3 + 1 < settleWork limit phase + (3 * limit + 5)
    omega
  | stable =>
    apply strictly
    simp only [work]
    omega
  | called frame =>
    apply strictly
    simp only [work]
    split <;> omega
  | dispatched frame none =>
    apply strictly
    have free : stalled s frame = false := by rw [stalled, none, Option.isSome_none, Bool.and_false]
    show 3 * limit + 3 + (3 * limit + 5) < if stalled s frame then 0 else turnWork limit
    rw [if_neg (by rw [free]; exact Bool.false_ne_true), turnWork]
    omega

/-- A turn that does not move the clock has an event to serve. -/
theorem stalled_of_still {s : Scheduler} (before : s.nowNs < targetTimeNs)
    (still : ¬s.nowNs < s.nextTime targetTimeNs) : stalled s (nextFrame s targetTimeNs) = true := by
  have capped : s.nowNs < s.cappedTime targetTimeNs := by
    unfold Scheduler.cappedTime
    split <;> omega
  have due : (s.dueEvent (s.nextTime targetTimeNs)).isSome = true := by
    unfold Scheduler.nextTime at still ⊢
    cases top : s.events.top with
    | none =>
      rw [top] at still
      exact absurd capped still
    | some event =>
      rw [top] at still
      dsimp only at still ⊢
      by_cases early : event.timeNs < s.cappedTime targetTimeNs
      · rw [if_pos early] at still ⊢
        rw [Scheduler.dueEvent, top, Option.filter_some, if_pos (decide_eq_true (le_max_left _ _))]
        rfl
      · rw [if_neg early] at still
        exact absurd capped still
  rw [stalled, show (nextFrame s targetTimeNs).previousTime = s.nowNs from rfl,
    show (nextFrame s targetTimeNs).nextTime = s.nextTime targetTimeNs from rfl, decide_eq_false still, due]
  rfl

theorem attempts_congr {s t : System} (reach : reached t = reached s)
    (current : t.scheduler.currentTimeStepNs = s.scheduler.currentTimeStepNs)
    (forward : t.control.forward = s.control.forward) :
    attempts settings targetTimeNs t = attempts settings targetTimeNs s := by
  rw [attempts, attempts, reach, current, forward]

theorem stalled_push {s t : Scheduler} {event : ScheduledEvent} (events : t.events = s.events.push event)
    (frame : StepFrame) (stuck : stalled s frame = true) : stalled t frame = true := by
  unfold stalled at stuck ⊢
  rw [Bool.and_eq_true] at stuck ⊢
  refine ⟨stuck.1, ?_⟩
  obtain ⟨due, found⟩ := Option.isSome_iff_exists.mp stuck.2
  obtain ⟨top, early⟩ := dueEvent_spec found
  by_contra none
  rw [Option.not_isSome_iff_eq_none] at none
  have pending : due ∈ t.events := by
    rw [events]
    exact EventQueue.mem_push.mpr (Or.inr (EventQueue.top_mem top))
  have later := lt_of_none_due none pending
  omega

theorem work_push (limit : Nat) {s t : Scheduler} {event : ScheduledEvent}
    (events : t.events = s.events.push event) (control : Control) : work limit t control ≤ work limit s control := by
  have grows := stalled_push events
  cases control with
  | settle site => cases site <;> exact le_rfl
  | dispatch frame | callback frame =>
    simp only [work]
    by_cases stuck : stalled s frame = true
    · rw [if_pos stuck, if_pos (grows frame stuck)]
    · rw [if_neg stuck]
      split <;> omega
  | _ => exact le_rfl

/-- The begin of a turn spends from the attempts if it moves the clock, else from the event it will serve. -/
theorem budget_began (control : s.control = .head targetTimeNs) (before : s.scheduler.nowNs < targetTimeNs)
    (control' : t.control = .dispatch (nextFrame s.scheduler targetTimeNs))
    (same : SameSettings s.scheduler t.scheduler) (events : t.scheduler.events = s.scheduler.events) :
    budget settings targetTimeNs t < budget settings targetTimeNs s := by
  have reach : reached t = s.scheduler.nowNs := by
    rw [reached, control']
    rfl
  have ahead : settings.maximumStepNs + 1 ≤ (targetTimeNs - s.scheduler.nowNs) * (settings.maximumStepNs + 1) :=
    Nat.le_mul_of_pos_left _ (Nat.sub_pos_of_lt before)
  have tries : attempts settings targetTimeNs s =
      (targetTimeNs - s.scheduler.nowNs) * (settings.maximumStepNs + 1) + s.scheduler.currentTimeStepNs := by
    rw [attempts, reached, control]
    rfl
  have work_s : work settings.maximumNewtonIterations s.scheduler s.control = 1 := by rw [control]; rfl
  by_cases forward : s.scheduler.nowNs < s.scheduler.nextTime targetTimeNs
  · have tries' : attempts settings targetTimeNs t + 1 = attempts settings targetTimeNs s := by
      have moving : (Control.dispatch (nextFrame s.scheduler targetTimeNs)).forward = true := decide_eq_true forward
      rw [tries, attempts, reach, same.current, control', if_pos moving]
      omega
    have work_t : work settings.maximumNewtonIterations t.scheduler t.control =
        turnWork settings.maximumNewtonIterations := by
      have free : stalled t.scheduler (nextFrame s.scheduler targetTimeNs) = false := by
        have moving : decide ((nextFrame s.scheduler targetTimeNs).previousTime < (nextFrame s.scheduler targetTimeNs).nextTime) =
            true := decide_eq_true forward
        rw [stalled, moving]
        rfl
      rw [control']
      exact if_neg (by rw [free]; exact Bool.false_ne_true)
    have turn : (attempts settings targetTimeNs t + 1) * turnWork settings.maximumNewtonIterations =
        attempts settings targetTimeNs t * turnWork settings.maximumNewtonIterations +
          turnWork settings.maximumNewtonIterations := Nat.succ_mul _ _
    rw [budget, budget, ← tries', turn, work_s, work_t, events]
    omega
  · have tries' : attempts settings targetTimeNs t = attempts settings targetTimeNs s := by
      have still : (Control.dispatch (nextFrame s.scheduler targetTimeNs)).forward = false := decide_eq_false forward
      rw [tries, attempts, reach, same.current, control', still]
      rfl
    have work_t : work settings.maximumNewtonIterations t.scheduler t.control = 0 := by
      rw [control', work_congr events]
      exact if_pos (stalled_of_still before forward)
    rw [budget, budget, tries', work_s, work_t, events]
    omega

theorem budget_executed {frame : StepFrame} {event : ScheduledEvent} (control : s.control = .dispatch frame)
    (due : s.scheduler.dueEvent frame.nextTime = some event)
    (control' : t.control = (if event.callback then .callback frame event else .dispatch frame))
    (same : SameSettings s.scheduler t.scheduler) (events : t.scheduler.events = s.scheduler.events.pop) :
    budget settings targetTimeNs t < budget settings targetTimeNs s := by
  have length : s.scheduler.events.served.length = t.scheduler.events.served.length + 1 := by
    obtain ⟨rest, split⟩ := List.head?_eq_some_iff.mp (dueEvent_spec due).1
    rw [events]
    show _ = s.scheduler.events.served.tail.length + 1
    rw [split]
    rfl
  have tries : attempts settings targetTimeNs t = attempts settings targetTimeNs s := by
    refine attempts_congr ?_ same.current ?_
    · rw [reached, reached, control, control']
      split <;> rfl
    · rw [control, control']
      split <;> rfl
  have work_t : work settings.maximumNewtonIterations t.scheduler t.control ≤
      turnWork settings.maximumNewtonIterations + 1 := by
    rw [control']
    split
    · simp only [work]
      split <;> omega
    · simp only [work]
      split <;> omega
  rw [budget, budget, tries, length, Nat.mul_add]
  omega

/-- The end of a time step: the next attempt is shorter, or the clock has moved. -/
theorem budget_decided {frame : StepFrame} (control : s.control = .commit frame)
    (turning : Turning settings targetTimeNs frame s.scheduler) (forward : frame.previousTime < frame.nextTime)
    (events : t.scheduler.events = s.scheduler.events)
    (most : t.scheduler.currentTimeStepNs ≤ settings.maximumStepNs) (ending : StepEnds settings frame s.scheduler t) :
    budget settings targetTimeNs t < budget settings targetTimeNs s := by
  obtain ⟨target, before, bound, clock⟩ := turning.within
  have tries : attempts settings targetTimeNs s = (targetTimeNs - frame.previousTime) *
      (settings.maximumStepNs + 1) + s.scheduler.currentTimeStepNs - 1 := by
    have moving : (Control.commit frame).forward = true := decide_eq_true forward
    rw [attempts, reached, control, if_pos moving]
    rfl
  have work_s : work settings.maximumNewtonIterations s.scheduler s.control =
      3 * settings.maximumNewtonIterations + 5 := by rw [control]; rfl
  suffices less : attempts settings targetTimeNs t ≤ attempts settings targetTimeNs s ∧
      work settings.maximumNewtonIterations t.scheduler t.control ≤ 3 * settings.maximumNewtonIterations + 4 by
    have := Nat.mul_le_mul_right (turnWork settings.maximumNewtonIterations) less.1
    rw [budget, budget, events, work_s]
    omega
  cases ending with
  | rejected _ control' now shorter attempt =>
    refine ⟨?_, by rw [control']; simp only [work]; omega⟩
    rw [tries, attempts, reached, control']
    show (targetTimeNs - t.scheduler.nowNs) * _ + _ - 0 ≤ _
    rw [now]
    omega
  | accepted control' now =>
    refine ⟨?_, by rw [control']; simp only [work, settleWork]; omega⟩
    have fewer : (targetTimeNs - frame.nextTime + 1) * (settings.maximumStepNs + 1) ≤
        (targetTimeNs - frame.previousTime) * (settings.maximumStepNs + 1) :=
      Nat.mul_le_mul_right _ (by omega)
    rw [Nat.add_mul] at fewer
    rw [tries, attempts, reached, control']
    show (targetTimeNs - t.scheduler.nowNs) * _ + _ - 0 ≤ _
    rw [now, clock]
    omega

/-- What a step of a call does to its budget. -/
theorem Course.pays (h : Course settings targetTimeNs startNs s)
    (ordered : settings.minimumStepNs ≤ settings.maximumStepNs)
    (step : CallStep settings s label t) :
    ((∀ event, label ≠ .scheduled event) → budget settings targetTimeNs t ≤ budget settings targetTimeNs s ∧
      (Moves s label t → ¬(settings.maximumNewtonIterations = 0 ∧ Settles s t) →
        budget settings targetTimeNs t < budget settings targetTimeNs s)) ∧
    ((∃ event, label = .scheduled event) → ¬Moves s label t ∧ budget settings targetTimeNs t ≤
      budget settings targetTimeNs s + (turnWork settings.maximumNewtonIterations + 3)) := by
  obtain ⟨configured, uninterrupted, course⟩ := h
  cases step.effect course.calls configured uninterrupted with
  | others control same events now =>
    have unmoved : ¬Moves s .silent t := by
      rintro (other | ⟨_, ⟨⟩⟩)
      exact other control
    have even : budget settings targetTimeNs t = budget settings targetTimeNs s := by
      rw [budget, budget, attempts_congr (by rw [reached, reached, control, now]) same.current (by rw [control]),
        events, control, work_congr events]
    exact ⟨fun _ => ⟨even.le, fun moves => absurd moves unmoved⟩, by rintro ⟨_, ⟨⟩⟩⟩
  | scheduled event control same events now =>
    refine ⟨fun unscheduled => absurd rfl (unscheduled event), fun _ => ⟨?_, ?_⟩⟩
    · rintro (other | ⟨_, ⟨⟩⟩)
      exact other control
    · have length : t.scheduler.events.served.length = s.scheduler.events.served.length + 1 := by
        rw [events]
        exact List.orderedInsert_length _ _ _
      have less := work_push settings.maximumNewtonIterations events s.control
      rw [budget, budget, attempts_congr (by rw [reached, reached, control, now]) same.current (by rw [control]),
        length, control, Nat.mul_add]
      omega
  | advances moves same events now =>
    refine ⟨fun _ => ?_, by rintro ⟨_, ⟨⟩⟩⟩
    have tries : attempts settings targetTimeNs t = attempts settings targetTimeNs s :=
      attempts_congr ((reached_congr now).trans (course.reached_eq moves).symm) same.current moves.forward
    obtain ⟨le, lt⟩ := moves.works
    rw [budget, budget, tries, events, work_congr events]
    exact ⟨by omega, fun _ limited => by have := lt limited; omega⟩
  | began target control before control' same events now =>
    rw [control] at course
    obtain ⟨rfl, _, _⟩ := course
    have less : budget settings _ t < budget settings _ s := budget_began control before control' same events
    exact ⟨fun _ => ⟨less.le, fun _ _ => less⟩, by rintro ⟨_, ⟨⟩⟩⟩
  | executed frame event control due control' same events now =>
    have less : budget settings targetTimeNs t < budget settings targetTimeNs s :=
      budget_executed control due control' same events
    exact ⟨fun _ => ⟨less.le, fun _ _ => less⟩, by rintro ⟨_, ⟨⟩⟩⟩
  | decided frame decision label control answers ends =>
    rw [control] at course
    obtain ⟨⟨start, turning⟩, forward⟩ := course
    obtain ⟨configured', events, _, ending⟩ := endStep_spec configured ordered turning forward answers
    rw [← ends] at configured' events ending
    have less := budget_decided control turning forward events configured'.most ending
    refine ⟨fun _ => ⟨less.le, fun _ _ => less⟩, ?_⟩
    obtain rfl | ⟨rfl, _⟩ := label <;> rintro ⟨_, ⟨⟩⟩

end System
end LasecSimul.Scheduling
