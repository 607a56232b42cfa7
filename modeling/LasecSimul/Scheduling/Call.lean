import LasecSimul.Scheduling.Progress
import LasecSimul.Scheduling.TimeStep

/-!
# A call of `runUntil`

A call in a session whose settings stay as they are and that nobody pauses or stops. `CallEffect` says once
what a step of it does; a call stays on its course to the target.
-/

namespace LasecSimul.Scheduling

/-- The turn of a state in which the time step is not decided yet. -/
def Control.undecided : Control → Option StepFrame
  | .dispatch frame | .callback frame _ | .commit frame | .settle (.afterEvents frame) _ => some frame
  | _ => none

/-- The undecided time step moves the clock. -/
def Control.forward (control : Control) : Bool :=
  control.undecided.any fun frame => frame.previousTime < frame.nextTime

/-- A call of `runUntil` is under way. -/
def Control.Calls : Control → Prop
  | .idle | .chosen _ => False
  | _ => True

/-- Two schedulers with the same settings and the same step length. -/
structure SameSettings (s t : Scheduler) : Prop where
  maximum : t.maximumTimeStepNs = s.maximumTimeStepNs
  current : t.currentTimeStepNs = s.currentTimeStepNs
  minimum : t.minimumTimeStepNs = s.minimumTimeStepNs
  adaptive : t.adaptiveTimeStep = s.adaptiveTimeStep
  limit : t.maxNonLinearIterations = s.maxNonLinearIterations

/-- The scheduler of a session with these settings. -/
structure Configured (settings : TransientSettings) (s : Scheduler) : Prop where
  maximum : s.maximumTimeStepNs = settings.maximumStepNs
  minimum : s.minimumTimeStepNs = settings.minimumStepNs
  adaptive : s.adaptiveTimeStep = settings.adaptiveTimeStep
  limit : s.maxNonLinearIterations = settings.maximumNewtonIterations
  least : settings.minimumStepNs ≤ s.currentTimeStepNs
  most : s.currentTimeStepNs ≤ settings.maximumStepNs

theorem SameSettings.configured {settings : TransientSettings} {s t : Scheduler} (same : SameSettings s t)
    (h : Configured settings s) :
    Configured settings t :=
  ⟨same.maximum.trans h.maximum, same.minimum.trans h.minimum, same.adaptive.trans h.adaptive,
    same.limit.trans h.limit, same.current ▸ h.least, same.current ▸ h.most⟩

theorem setTransientSettings_configured {settings : TransientSettings} {s s' : Scheduler}
    (set : setTransientSettings settings s = some s') :
    Configured settings s' ∧ 0 < settings.minimumStepNs ∧ settings.minimumStepNs ≤ settings.maximumStepNs := by
  unfold setTransientSettings at set
  split at set
  · cases set
  · next accepted =>
    simp only [not_or, not_lt] at accepted
    obtain ⟨positive, ordered, least, most, _⟩ := accepted
    obtain rfl := Option.some_inj.mp set
    exact ⟨⟨rfl, rfl, rfl, rfl, least, most⟩, Nat.pos_of_ne_zero positive, ordered⟩

namespace System

variable {settings : TransientSettings} {targetTimeNs : Nat} {s t : System} {label : Label}

/-- The callbacks the session sets. -/
def sessionCallbacks : Callbacks := ⟨true, true, true, true⟩

/-- What `runUntil` does with the decision on a time step. -/
def endStep (s : Scheduler) (frame : StepFrame) (decision : TimeStepDecision) : System :=
  if rejects s frame decision then ⟨rejectStep s frame decision, .head frame.targetTimeNs⟩
  else if decision.accept then enterSettle (keepStep s frame decision) (.afterCommit frame)
  else ⟨keepStep s frame decision, .head frame.targetTimeNs⟩

/-- A step within a call: it does not return, nobody interrupts it or configures the scheduler meanwhile,
and the session answers at the end of a time step. -/
structure CallStep (settings : TransientSettings) (s : System) (label : Label) (t : System) : Prop where
  step : Step sessionCallbacks s label t
  running : label ≠ .returned
  quiet : label ≠ .interrupt
  configured : t.control = s.control → SameSettings s.scheduler t.scheduler
  answered : ∀ frame, s.control = .commit frame → t.control ≠ s.control →
    ∃ decision, Answers settings s.scheduler frame decision ∧ t = endStep s.scheduler frame decision

abbrev CallRun (settings : TransientSettings) := Lib.Trace.Run (CallStep settings)

/-- The time that the steps decided so far have reached. -/
def reached (s : System) : Nat := (s.control.undecided.map (·.previousTime)).getD s.scheduler.nowNs

/-- A step the thread of the call takes itself. -/
def Moves (s : System) (label : Label) (t : System) : Prop :=
  t.control ≠ s.control ∨ ∃ event, label = .executed event

/-- A step inside a settle. -/
def Settles (s t : System) : Prop :=
  ∃ site phase phase', s.control = .settle site phase ∧ t.control = .settle site phase'

/-- What is left of a settle with this limit on its iterations; without a limit the loop does not count. -/
def settleWork (limit : Nat) : SettlePhase → Nat
  | .drain => 3 * limit + 3
  | .check iterations _ => 3 * (limit - iterations) + 2
  | .iterate iterations => if limit = 0 then 2 else 3 * (limit - iterations) + 4
  | .release iterations => if limit = 0 then 2 else 3 * (limit - iterations) + 3

/-- The moves of the thread between the begin of a turn and its end that leave queue and clock alone. -/
inductive Advances (limit : Nat) (s : Scheduler) : Control → Control → Prop where
  | settles (site : SettleSite) {phase phase' : SettlePhase} : settleWork limit phase' ≤ settleWork limit phase →
    (limit ≠ 0 → settleWork limit phase' < settleWork limit phase) →
    Advances limit s (.settle site phase) (.settle site phase')
  | entered (targetTimeNs : Nat) {phase : SettlePhase} {next : Control} : 2 ≤ settleWork limit phase →
    next = .stable targetTimeNs ∨ next = .head targetTimeNs →
    Advances limit s (.settle (.entry targetTimeNs) phase) next
  | served (frame : StepFrame) {phase : SettlePhase} : 2 ≤ settleWork limit phase →
    frame.previousTime < frame.nextTime →
    Advances limit s (.settle (.afterEvents frame) phase) (.commit frame)
  | servedNow (frame : StepFrame) {phase : SettlePhase} : 2 ≤ settleWork limit phase →
    ¬frame.previousTime < frame.nextTime →
    Advances limit s (.settle (.afterEvents frame) phase) (.settle (.afterCommit frame) .drain)
  | accepted (frame : StepFrame) {phase : SettlePhase} {next : Control} : 2 ≤ settleWork limit phase →
    next = .stable frame.targetTimeNs ∨ next = .head frame.targetTimeNs →
    Advances limit s (.settle (.afterCommit frame) phase) next
  | stable (targetTimeNs : Nat) : Advances limit s (.stable targetTimeNs) (.head targetTimeNs)
  | called (frame : StepFrame) (event : ScheduledEvent) :
    Advances limit s (.callback frame event) (.dispatch frame)
  | dispatched (frame : StepFrame) : s.dueEvent frame.nextTime = none →
    Advances limit s (.dispatch frame) (.settle (.afterEvents frame) .drain)

inductive CallEffect (settings : TransientSettings) (s : System) : Label → System → Prop where
  | others {t : System} : t.control = s.control → SameSettings s.scheduler t.scheduler →
    t.scheduler.events = s.scheduler.events → t.scheduler.nowNs = s.scheduler.nowNs →
    CallEffect settings s .silent t
  | scheduled {t : System} (event : ScheduledEvent) : t.control = s.control →
    SameSettings s.scheduler t.scheduler → t.scheduler.events = s.scheduler.events.push event →
    t.scheduler.nowNs = s.scheduler.nowNs → CallEffect settings s (.scheduled event) t
  | advances {t : System} : Advances settings.maximumNewtonIterations s.scheduler s.control t.control →
    SameSettings s.scheduler t.scheduler → t.scheduler.events = s.scheduler.events →
    t.scheduler.nowNs = s.scheduler.nowNs → CallEffect settings s .silent t
  | began {t : System} (targetTimeNs : Nat) : s.control = .head targetTimeNs →
    s.scheduler.nowNs < targetTimeNs → t.control = .dispatch (nextFrame s.scheduler targetTimeNs) →
    SameSettings s.scheduler t.scheduler → t.scheduler.events = s.scheduler.events →
    t.scheduler.nowNs = s.scheduler.nextTime targetTimeNs →
    CallEffect settings s (.began (nextFrame s.scheduler targetTimeNs)) t
  | executed {t : System} (frame : StepFrame) (event : ScheduledEvent) : s.control = .dispatch frame →
    s.scheduler.dueEvent frame.nextTime = some event →
    t.control = (if event.callback then .callback frame event else .dispatch frame) →
    SameSettings s.scheduler t.scheduler → t.scheduler.events = s.scheduler.events.pop →
    t.scheduler.nowNs = max event.timeNs s.scheduler.nowNs → CallEffect settings s (.executed event) t
  | decided {t : System} {label : Label} (frame : StepFrame) (decision : TimeStepDecision) :
    label = .silent ∨ label = .rejected frame ∧ t.control = .head frame.targetTimeNs → s.control = .commit frame →
    Answers settings s.scheduler frame decision → t = endStep s.scheduler frame decision →
    CallEffect settings s label t

theorem settleWork_check {limit iterations : Nat} {hadWork : Bool} :
    2 ≤ settleWork limit (.check iterations hadWork) := Nat.le_add_left 2 _

theorem settleWork_iterate {limit iterations : Nat} : 2 ≤ settleWork limit (.iterate iterations) := by
  simp only [settleWork]
  split <;> omega

theorem Advances.left {limit : Nat} {s : Scheduler} {site : SettleSite} {phase : SettlePhase}
    (enough : 2 ≤ settleWork limit phase) (converged hadWork : Bool) :
    Advances limit s (.settle site phase) (afterSettle sessionCallbacks converged hadWork site) := by
  cases site with
  | entry targetTimeNs =>
    refine .entered targetTimeNs enough ?_
    simp only [afterSettle]
    split
    · exact Or.inl rfl
    · exact Or.inr rfl
  | afterEvents frame =>
    by_cases forward : frame.previousTime < frame.nextTime
    · rw [afterSettle, if_pos ⟨rfl, forward⟩]
      exact .served frame enough forward
    · rw [afterSettle, if_neg (fun both => forward both.2)]
      exact .servedNow frame enough forward
  | afterCommit frame =>
    refine .accepted frame enough ?_
    simp only [afterSettle]
    split
    · exact Or.inl rfl
    · exact Or.inr rfl

/-- The loop of a settle does not start another iteration at its limit. -/
theorem below_of_enters {s : Scheduler} {iterations : Nat}
    (enters : ¬settleStops sessionCallbacks s iterations = true) :
    s.maxNonLinearIterations = 0 ∨ iterations < s.maxNonLinearIterations := by
  by_contra stops
  push Not at stops
  apply enters
  have limited : (decide (s.maxNonLinearIterations > 0) && decide (iterations ≥ s.maxNonLinearIterations)) = true := by
    rw [Bool.and_eq_true]
    exact ⟨decide_eq_true (Nat.pos_of_ne_zero stops.1), decide_eq_true stops.2⟩
  simp only [settleStops, limited, Bool.or_true, Bool.true_or]

theorem endStep_control_ne (s : Scheduler) (frame : StepFrame) (decision : TimeStepDecision) :
    (endStep s frame decision).control ≠ .commit frame := by
  unfold endStep
  split
  · exact nofun
  · split <;> exact nofun

theorem CallStep.effect (h : CallStep settings s label t) (calls : s.control.Calls)
    (configured : Configured settings s.scheduler) (uninterrupted : s.scheduler.interrupted = false) :
    CallEffect settings s label t := by
  obtain ⟨step, running, quiet, same, answered⟩ := h
  cases step with
  | scheduleAt timeNs componentIndex callback soft _ _ =>
    exact .scheduled _ rfl (same rfl) (pushEventLocked_events ..) (pushEventLocked_nowNs ..)
  | scheduleEvent delayNs componentIndex callback soft _ =>
    exact .scheduled _ rfl (same rfl) (pushEventLocked_events ..) (pushEventLocked_nowNs ..)
  | markDirty | dirtySet => exact .others rfl (same rfl) rfl rfl
  | tune tunes => cases tunes <;> exact .others rfl (same rfl) rfl rfl
  | pause | stop => exact absurd rfl quiet
  | finish => exact absurd rfl running
  | chooseTarget | runChosen | runUntil => exact calls.elim
  | @settleDrained _ site =>
    refine .advances (.settles site ?_ fun _ => ?_) ⟨rfl, rfl, rfl, rfl, rfl⟩ rfl rfl
    · simp only [settleWork]
      omega
    · simp only [settleWork]
      omega
  | settleLeaves =>
    exact .advances (.left settleWork_check _ _) ⟨rfl, rfl, rfl, rfl, rfl⟩ rfl rfl
  | @settleEnters s site iterations hadWork enters =>
    have limit : s.maxNonLinearIterations = settings.maximumNewtonIterations := configured.limit
    have below := below_of_enters enters
    refine .advances (.settles site ?_ fun limited => ?_) ⟨rfl, rfl, rfl, rfl, rfl⟩ rfl rfl
    · simp only [settleWork]
      split <;> omega
    · simp only [settleWork, if_neg limited]
      omega
  | settleConverges =>
    exact .advances (.left settleWork_iterate _ _) ⟨rfl, rfl, rfl, rfl, rfl⟩ rfl rfl
  | @settleReleases _ site iterations =>
    refine .advances (.settles site ?_ fun limited => ?_) ⟨rfl, rfl, rfl, rfl, rfl⟩ rfl rfl
    · simp only [settleWork]
      split <;> omega
    · simp only [settleWork, if_neg limited]
      omega
  | @settleRelocks _ site iterations =>
    refine .advances (.settles site ?_ fun limited => ?_) ⟨rfl, rfl, rfl, rfl, rfl⟩ rfl rfl
    · simp only [settleWork]
      split <;> omega
    · simp only [settleWork, if_neg limited]
      omega
  | stableReturns => exact .advances (.stable _) ⟨rfl, rfl, rfl, rfl, rfl⟩ rfl rfl
  | begin reactive before _ _ => exact .began _ rfl before rfl ⟨rfl, rfl, rfl, rfl, rfl⟩ rfl rfl
  | @execute s frame event due _ =>
    obtain ⟨events, _, now⟩ := takeEvent_spec s event
    refine .executed frame event rfl due rfl ?_ events now
    unfold Scheduler.takeEvent
    cases event.soft <;> exact ⟨rfl, rfl, rfl, rfl, rfl⟩
  | callbackReturns => exact .advances (.called _ _) ⟨rfl, rfl, rfl, rfl, rfl⟩ rfl rfl
  | eventsDone done =>
    have none := done.resolve_right (by rw [uninterrupted]; exact Bool.false_ne_true)
    exact .advances (.dispatched _ none) ⟨rfl, rfl, rfl, rfl, rfl⟩ rfl rfl
  | @reject s frame decision rejected =>
    obtain ⟨answer, answers, same⟩ := answered frame rfl nofun
    exact .decided frame answer (Or.inr ⟨rfl, rfl⟩) rfl answers same
  | @keep s frame decision kept =>
    have ended : (if decision.accept then enterSettle (keepStep s frame decision) (.afterCommit frame)
        else ⟨keepStep s frame decision, .head frame.targetTimeNs⟩) = endStep s frame decision := by
      rw [endStep, if_neg kept]
    obtain ⟨answer, answers, same⟩ := answered frame rfl (ended ▸ endStep_control_ne s frame decision)
    exact .decided frame answer (Or.inl rfl) rfl answers same

/-! ### What a call keeps -/

theorem nextTime_le_cappedTime {s : Scheduler} (before : s.nowNs < targetTimeNs) :
    s.nextTime targetTimeNs ≤ s.cappedTime targetTimeNs := by
  have capped := le_cappedTime before
  unfold Scheduler.nextTime
  split
  · split <;> omega
  · exact le_rfl

theorem nextTime_attempt {s : Scheduler} (before : s.nowNs < targetTimeNs) (adaptive : s.adaptiveTimeStep = true)
    (positive : 0 < s.currentTimeStepNs) (maximum : 0 < s.maximumTimeStepNs) :
    s.nextTime targetTimeNs - s.nowNs ≤ s.currentTimeStepNs := by
  have capped := nextTime_le_cappedTime before
  have selected : s.selectedStep = min s.maximumTimeStepNs s.currentTimeStepNs := if_pos ⟨adaptive, positive⟩
  unfold Scheduler.cappedTime at capped
  rw [selected] at capped
  split at capped <;> omega

/-- A turn on its way to its end. -/
structure Turning (settings : TransientSettings) (targetTimeNs : Nat) (frame : StepFrame) (s : Scheduler) : Prop where
  within : Within targetTimeNs frame s
  ordered : frame.previousTime ≤ frame.nextTime
  maxStep : frame.maxStep = settings.maximumStepNs
  attempt : settings.adaptiveTimeStep = true → frame.nextTime - frame.previousTime ≤ s.currentTimeStepNs

/-- A call that was made at `startNs`, on its way to the target. -/
def OnCourse (settings : TransientSettings) (targetTimeNs startNs : Nat) (s : Scheduler) : Control → Prop
  | .settle (.entry target) _ | .stable target | .head target =>
    target = targetTimeNs ∧ startNs ≤ s.nowNs ∧ s.nowNs ≤ max targetTimeNs startNs
  | .settle (.afterCommit frame) _ =>
    frame.targetTimeNs = targetTimeNs ∧ startNs ≤ s.nowNs ∧ s.nowNs ≤ max targetTimeNs startNs
  | .dispatch frame | .callback frame _ | .settle (.afterEvents frame) _ =>
    startNs ≤ frame.previousTime ∧ Turning settings targetTimeNs frame s
  | .commit frame =>
    (startNs ≤ frame.previousTime ∧ Turning settings targetTimeNs frame s) ∧ frame.previousTime < frame.nextTime
  | .idle | .chosen _ => False

structure Course (settings : TransientSettings) (targetTimeNs startNs : Nat) (s : System) : Prop where
  configured : Configured settings s.scheduler
  uninterrupted : s.scheduler.interrupted = false
  course : OnCourse settings targetTimeNs startNs s.scheduler s.control

theorem OnCourse.calls {startNs : Nat} {s : Scheduler} {control : Control}
    (h : OnCourse settings targetTimeNs startNs s control) : control.Calls := by
  cases control with
  | idle | chosen => exact h
  | _ => trivial

theorem Turning.congr {frame : StepFrame} {s t : Scheduler} (h : Turning settings targetTimeNs frame s)
    (now : t.nowNs = s.nowNs) (current : t.currentTimeStepNs = s.currentTimeStepNs) :
    Turning settings targetTimeNs frame t := by
  obtain ⟨⟨target, before, bound, clock⟩, ordered, maxStep, attempt⟩ := h
  exact ⟨⟨target, before, bound, now.trans clock⟩, ordered, maxStep, by rw [current]; exact attempt⟩

theorem OnCourse.congr {startNs : Nat} {s t : Scheduler} {control : Control}
    (h : OnCourse settings targetTimeNs startNs s control) (now : t.nowNs = s.nowNs)
    (current : t.currentTimeStepNs = s.currentTimeStepNs) :
    OnCourse settings targetTimeNs startNs t control := by
  cases control with
  | settle site phase =>
    cases site with
    | entry | afterCommit => exact ⟨h.1, now ▸ h.2.1, now ▸ h.2.2⟩
    | afterEvents => exact ⟨h.1, h.2.congr now current⟩
  | stable | head => exact ⟨h.1, now ▸ h.2.1, now ▸ h.2.2⟩
  | dispatch | callback => exact ⟨h.1, h.2.congr now current⟩
  | commit => exact ⟨⟨h.1.1, h.1.2.congr now current⟩, h.2⟩
  | idle | chosen => exact h

theorem OnCourse.advances {startNs limit : Nat} {s : Scheduler} {control next : Control}
    (h : OnCourse settings targetTimeNs startNs s control) (advances : Advances limit s control next) :
    OnCourse settings targetTimeNs startNs s next := by
  cases advances with
  | settles site =>
    cases site <;> exact h
  | entered _ _ next => obtain rfl | rfl := next <;> exact h
  | served frame _ forward => exact ⟨h, forward⟩
  | servedNow frame =>
    obtain ⟨start, ⟨target, before, bound, clock⟩, ordered, _⟩ := h
    exact ⟨target, by omega, by omega⟩
  | accepted frame _ next => obtain rfl | rfl := next <;> exact h
  | stable | called | dispatched => exact h

theorem reached_congr {control : Control} {s t : Scheduler} (now : t.nowNs = s.nowNs) :
    reached ⟨t, control⟩ = reached ⟨s, control⟩ := by
  rw [reached, reached, now]

theorem OnCourse.reached_eq {startNs limit : Nat} {s : Scheduler} {control next : Control}
    (h : OnCourse settings targetTimeNs startNs s control) (advances : Advances limit s control next) :
    reached ⟨s, control⟩ = reached ⟨s, next⟩ := by
  cases advances with
  | settles site => cases site <;> rfl
  | entered _ _ next | accepted _ _ next => obtain rfl | rfl := next <;> rfl
  | servedNow frame =>
    obtain ⟨_, ⟨_, _, _, clock⟩, ordered, _⟩ := h
    show frame.previousTime = s.nowNs
    omega
  | served | stable | called | dispatched => rfl

/-- What the end of a time step comes to: the attempt is rejected and the next one will be shorter, or the
step is accepted. -/
inductive StepEnds (settings : TransientSettings) (frame : StepFrame) (s : Scheduler) (t : System) : Prop where
  | rejected : settings.adaptiveTimeStep = true → t.control = .head frame.targetTimeNs → t.scheduler.nowNs = frame.previousTime →
    t.scheduler.currentTimeStepNs < frame.nextTime - frame.previousTime →
    frame.nextTime - frame.previousTime ≤ s.currentTimeStepNs →
    s.minimumTimeStepNs < frame.nextTime - frame.previousTime → StepEnds settings frame s t
  | accepted : t.control = .settle (.afterCommit frame) .drain → t.scheduler.nowNs = s.nowNs →
    StepEnds settings frame s t

theorem clamp_bounds (value : Nat) {low high : Nat} (ordered : low ≤ high) :
    low ≤ Scheduler.clamp value low high ∧ Scheduler.clamp value low high ≤ high := by
  unfold Scheduler.clamp
  split
  · exact ⟨le_rfl, ordered⟩
  · split <;> omega

theorem keepStep_configured {s : Scheduler} {frame : StepFrame} (h : Configured settings s)
    (maxStep : frame.maxStep = settings.maximumStepNs) (ordered : settings.minimumStepNs ≤ settings.maximumStepNs)
    (decision : TimeStepDecision) : Configured settings (keepStep s frame decision) := by
  unfold keepStep
  split
  · obtain ⟨least, most⟩ := clamp_bounds decision.adaptedStepNs ordered
    rw [← h.minimum, ← maxStep] at least most
    exact ⟨h.maximum, h.minimum, h.adaptive, h.limit, h.minimum ▸ least, maxStep ▸ most⟩
  · exact h

/-- The end of a time step whose decision the session gives. -/
theorem endStep_spec {s : Scheduler} {frame : StepFrame} {decision : TimeStepDecision} (h : Configured settings s)
    (ordered : settings.minimumStepNs ≤ settings.maximumStepNs) (turning : Turning settings targetTimeNs frame s)
    (forward : frame.previousTime < frame.nextTime) (answers : Answers settings s frame decision) :
    Configured settings (endStep s frame decision).scheduler ∧
      (endStep s frame decision).scheduler.events = s.events ∧
        (endStep s frame decision).scheduler.interrupted = s.interrupted ∧
          StepEnds settings frame s (endStep s frame decision) := by
  unfold endStep
  split
  · next rejected =>
    simp only [rejects, Bool.and_eq_true, Bool.not_eq_true', decide_eq_true_eq] at rejected
    obtain ⟨⟨refused, _⟩, above⟩ := rejected
    have adaptive : settings.adaptiveTimeStep = true := by
      by_contra fixed
      rw [answers.accepts (Or.inr (Or.inr (by simpa using fixed)))] at refused
      cases refused
    have reduced := answers.reduced forward
    have attempt := turning.attempt adaptive
    have least := h.minimum
    have most := h.most
    refine ⟨⟨h.maximum, h.minimum, h.adaptive, h.limit, ?_, ?_⟩, rfl, rfl, .rejected adaptive rfl rfl ?_ attempt above⟩
    · show _ ≤ max s.minimumTimeStepNs decision.reducedStepNs
      omega
    · show max s.minimumTimeStepNs decision.reducedStepNs ≤ _
      omega
    · show max s.minimumTimeStepNs decision.reducedStepNs < _
      omega
  · next kept =>
    have accept : decision.accept = true := by
      by_contra refused
      rw [Bool.not_eq_true] at refused
      apply kept
      simp only [rejects, refused, Bool.not_false, Bool.true_and, Bool.and_eq_true, Bool.not_eq_true',
        decide_eq_true_eq]
      constructor
      · by_contra boundary
        rw [answers.accepts (Or.inl (by simpa using boundary))] at refused
        cases refused
      · by_contra small
        rw [answers.accepts (Or.inr (Or.inl (by rw [← h.minimum]; omega)))] at refused
        cases refused
    rw [if_pos accept]
    have configured := keepStep_configured h turning.maxStep ordered decision
    have same : (keepStep s frame decision).events = s.events ∧
        (keepStep s frame decision).interrupted = s.interrupted ∧ (keepStep s frame decision).nowNs = s.nowNs := by
      unfold keepStep
      split <;> exact ⟨rfl, rfl, rfl⟩
    exact ⟨⟨configured.maximum, configured.minimum, configured.adaptive, configured.limit, configured.least,
      configured.most⟩, same.1, same.2.1, .accepted rfl same.2.2⟩

theorem CallStep.uninterrupted (h : CallStep settings s label t) (none : s.scheduler.interrupted = false) :
    t.scheduler.interrupted = false := by
  obtain ⟨step, running, quiet, _, _⟩ := h
  cases step with
  | scheduleAt timeNs componentIndex callback soft | scheduleEvent delayNs componentIndex callback soft =>
    cases soft <;> exact none
  | pause | stop => exact absurd rfl quiet
  | finish => exact absurd rfl running
  | tune tunes =>
    have flags := none
    simp only [Scheduler.interrupted, Bool.or_eq_false_iff] at flags
    cases tunes with
    | resume => simp only [Scheduler.interrupted, flags.1]; rfl
    | stopped => simp only [Scheduler.interrupted, flags.2]; rfl
    | _ => exact none
  | @execute s frame event =>
    show (s.takeEvent event).interrupted = false
    unfold Scheduler.takeEvent
    cases event.soft <;> exact none
  | keep =>
    have kept : ∀ s frame decision, (keepStep s frame decision).interrupted = s.interrupted := by
      intro s frame decision
      unfold keepStep
      split <;> rfl
    split
    · exact (kept _ _ _).trans none
    · exact (kept _ _ _).trans none
  | _ => exact none

/-- A step of a call keeps it on its course and never takes back the time that was reached. -/
theorem Course.step {startNs : Nat} (h : Course settings targetTimeNs startNs s)
    (positive : 0 < settings.minimumStepNs) (ordered : settings.minimumStepNs ≤ settings.maximumStepNs)
    (step : CallStep settings s label t) : Course settings targetTimeNs startNs t ∧ reached s ≤ reached t := by
  obtain ⟨configured, uninterrupted, course⟩ := h
  have quiet := step.uninterrupted uninterrupted
  cases step.effect course.calls configured uninterrupted with
  | others control same _ now | scheduled _ control same _ now =>
    refine ⟨⟨same.configured configured, quiet, ?_⟩, ?_⟩
    · rw [control]
      exact course.congr now same.current
    · rw [reached, reached, control, now]
  | advances moves same _ now =>
    refine ⟨⟨same.configured configured, quiet, (course.advances moves).congr now same.current⟩, ?_⟩
    have same := course.reached_eq moves
    rw [reached, reached] at same ⊢
    rw [same, now]
  | began target control before control' same _ now =>
    rw [control] at course
    obtain ⟨rfl, start, _⟩ := course
    refine ⟨⟨same.configured configured, quiet, ?_⟩, ?_⟩
    · rw [control']
      refine ⟨start, ⟨rfl, before, nextTime_le before, now⟩, le_nextTime before, configured.maximum, fun adaptive => ?_⟩
      have least := configured.least
      have most := configured.most
      rw [same.current]
      exact nextTime_attempt before (configured.adaptive.trans adaptive) (by omega) (by rw [configured.maximum]; omega)
    · rw [reached, reached, control, control']
      exact le_rfl
  | executed frame event control due control' same _ now =>
    rw [control] at course
    obtain ⟨start, turning⟩ := course
    have clock : s.scheduler.nowNs = frame.nextTime := turning.within.2.2.2
    have early := (dueEvent_spec due).2
    have turning' := turning.congr (t := t.scheduler) (by omega) same.current
    refine ⟨⟨same.configured configured, quiet, ?_⟩, ?_⟩
    · rw [control']
      split <;> exact ⟨start, turning'⟩
    · rw [reached, reached, control, control']
      split <;> exact le_rfl
  | decided frame decision _ control answers ends =>
    rw [control] at course
    obtain ⟨⟨start, turning⟩, forward⟩ := course
    obtain ⟨configured', _, _, ending⟩ := endStep_spec configured ordered turning forward answers
    rw [← ends] at configured' ending
    obtain ⟨target, before, bound, clock⟩ := turning.within
    refine ⟨⟨configured', quiet, ?_⟩, ?_⟩
    · cases ending with
      | rejected _ control' now =>
        rw [control']
        exact ⟨target, by omega, by omega⟩
      | accepted control' now =>
        rw [control']
        exact ⟨target, by omega, by omega⟩
    · rw [reached, control]
      cases ending with
      | rejected _ control' now =>
        rw [reached, control']
        exact le_of_eq now.symm
      | accepted control' now =>
        rw [reached, control']
        show frame.previousTime ≤ t.scheduler.nowNs
        omega

end System
end LasecSimul.Scheduling
