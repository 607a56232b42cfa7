import LasecSimul.Lib.Rounds
import LasecSimul.Scheduling.CallBudget

/-!
# Termination of `runUntil`

A rejected attempt is retried with a shorter one down to the minimum, where it is accepted, so a call makes
finitely many moves if finitely many events are scheduled at each time it reaches. A settle without a limit
on its iterations is the exception.
-/

namespace LasecSimul.Scheduling

def Label.rejects : Label → Bool
  | .rejected _ => true
  | _ => false

namespace System

variable {settings : TransientSettings} {targetTimeNs startNs : Nat} {s t : System} {label : Label}

/-- Either time was reached, or the step length did not grow. -/
theorem Course.shrinks (h : Course settings targetTimeNs startNs s)
    (ordered : settings.minimumStepNs ≤ settings.maximumStepNs) (step : CallStep settings s label t) :
    reached s < reached t ∨ reached t = reached s ∧
      t.scheduler.currentTimeStepNs + (if label.rejects then 1 else 0) ≤ s.scheduler.currentTimeStepNs := by
  obtain ⟨configured, uninterrupted, course⟩ := h
  cases step.effect course.calls configured uninterrupted with
  | others control same _ now | scheduled _ control same _ now =>
    exact Or.inr ⟨by rw [reached, reached, control, now], le_of_eq same.current⟩
  | advances moves same _ now =>
    exact Or.inr ⟨(reached_congr now).trans (course.reached_eq moves).symm, le_of_eq same.current⟩
  | began target control before control' same _ now =>
    exact Or.inr ⟨by rw [reached, reached, control, control']; rfl, le_of_eq same.current⟩
  | executed frame event control due control' same _ now =>
    refine Or.inr ⟨?_, le_of_eq same.current⟩
    rw [reached, reached, control, control']
    split <;> rfl
  | decided frame decision label control answers ends =>
    rw [control] at course
    obtain ⟨⟨start, turning⟩, forward⟩ := course
    obtain ⟨_, _, _, ending⟩ := endStep_spec configured ordered turning forward answers
    rw [← ends] at ending
    obtain ⟨_, _, _, clock⟩ := turning.within
    have before : reached s = frame.previousTime := by rw [reached, control]; rfl
    cases ending with
    | rejected _ control' now shorter attempt =>
      refine Or.inr ⟨?_, ?_⟩
      · rw [before, reached, control']
        exact now
      · split <;> omega
    | accepted control' now =>
      refine Or.inl ?_
      rw [before, reached, control']
      show frame.previousTime < t.scheduler.nowNs
      omega

theorem Course.run {labels : List Label} (h : Course settings targetTimeNs startNs s)
    (positive : 0 < settings.minimumStepNs) (ordered : settings.minimumStepNs ≤ settings.maximumStepNs)
    (run : CallRun settings s labels t) : Course settings targetTimeNs startNs t ∧ reached s ≤ reached t := by
  induction run with
  | start => exact ⟨h, le_rfl⟩
  | next _ last ih =>
    obtain ⟨course, later⟩ := ih.1.step positive ordered last
    exact ⟨course, ih.2.trans later⟩

/-- The rejections before time is reached are paid for by the step length. -/
theorem Course.rejections_le {labels : List Label} (h : Course settings targetTimeNs startNs s)
    (positive : 0 < settings.minimumStepNs) (ordered : settings.minimumStepNs ≤ settings.maximumStepNs)
    (run : CallRun settings s labels t) : reached s < reached t ∨
      t.scheduler.currentTimeStepNs + labels.countP Label.rejects ≤ s.scheduler.currentTimeStepNs := by
  induction run with
  | start => exact Or.inr le_rfl
  | @next t u labels label run last ih =>
    obtain ⟨course, _⟩ := h.run positive ordered run
    obtain ⟨_, later⟩ := course.step positive ordered last
    rw [List.countP_append, List.countP_singleton]
    rcases ih with sooner | paid
    · exact Or.inl (sooner.trans_le later)
    · rcases course.shrinks ordered last with sooner | ⟨_, less⟩
      · exact Or.inl ((h.run positive ordered run).2.trans_lt sooner)
      · exact Or.inr (by omega)

/-- Another attempt from the time of a rejected one is shorter. -/
theorem Course.retried {u v : System} {frame frame' : StepFrame} {labels : List Label}
    (h : Course settings targetTimeNs startNs s) (positive : 0 < settings.minimumStepNs)
    (ordered : settings.minimumStepNs ≤ settings.maximumStepNs)
    (rejected : CallStep settings s (.rejected frame) t) (run : CallRun settings t labels u)
    (same : reached u = reached t) (began : CallStep settings u (.began frame') v) :
    frame'.nextTime - frame'.previousTime < frame.nextTime - frame.previousTime := by
  obtain ⟨after, _⟩ := h.step positive ordered rejected
  have paid := (after.rejections_le positive ordered run).resolve_left (by omega)
  obtain ⟨⟨configured', uninterrupted', course'⟩, _⟩ := after.run positive ordered run
  obtain ⟨configured, uninterrupted, course⟩ := h
  have shorter : settings.adaptiveTimeStep = true ∧
      t.scheduler.currentTimeStepNs < frame.nextTime - frame.previousTime := by
    cases rejected.effect course.calls configured uninterrupted with
    | decided other decision label control answers ends =>
      obtain none | ⟨same, control'⟩ := label
      · cases none
      · cases same
        rw [control] at course
        obtain ⟨⟨_, turning⟩, forward⟩ := course
        obtain ⟨_, _, _, ending⟩ := endStep_spec configured ordered turning forward answers
        rw [← ends] at ending
        cases ending with
        | rejected adaptive _ _ shorter => exact ⟨adaptive, shorter⟩
        | accepted control'' => rw [control'] at control''; cases control''
  have attempt : frame'.nextTime - frame'.previousTime ≤ u.scheduler.currentTimeStepNs := by
    have least := configured'.least
    have maximum := configured'.maximum
    cases began.effect course'.calls configured' uninterrupted' with
    | began target control before =>
      exact nextTime_attempt before (configured'.adaptive.trans shorter.1) (by omega) (by omega)
    | decided _ _ label => obtain none | ⟨none, _⟩ := label <;> cases none
  omega

/-- A step at the minimum stands, and what it commits is settled. -/
theorem Course.accepts {frame : StepFrame} (h : Course settings targetTimeNs startNs s)
    (ordered : settings.minimumStepNs ≤ settings.maximumStepNs) (control : s.control = .commit frame)
    (small : frame.nextTime - frame.previousTime ≤ settings.minimumStepNs) (step : CallStep settings s label t)
    (decided : t.control ≠ s.control) : t.control = .settle (.afterCommit frame) .drain := by
  obtain ⟨configured, uninterrupted, course⟩ := h
  rw [control] at course
  obtain ⟨⟨_, turning⟩, forward⟩ := course
  obtain ⟨decision, answers, ends⟩ := step.answered frame control decided
  obtain ⟨_, _, _, ending⟩ := endStep_spec configured ordered turning forward answers
  rw [← ends] at ending
  cases ending with
  | rejected _ _ _ _ _ above =>
    rw [configured.minimum] at above
    omega
  | accepted control' => exact control'

/-- The clock does not pass the time of an event while the event is pending. -/
theorem Course.not_passed {event : ScheduledEvent} (h : Course settings targetTimeNs startNs s)
    (ordered : settings.minimumStepNs ≤ settings.maximumStepNs) (step : CallStep settings s label t)
    (pending : event ∈ s.scheduler.events) (early : s.scheduler.nowNs ≤ event.timeNs) :
    t.scheduler.nowNs ≤ event.timeNs := by
  obtain ⟨configured, uninterrupted, course⟩ := h
  cases step.effect course.calls configured uninterrupted with
  | others _ _ _ now | scheduled _ _ _ _ now | advances _ _ _ now => exact now.le.trans early
  | began target control before _ _ _ now =>
    rw [now]
    have capped := le_cappedTime before
    unfold Scheduler.nextTime
    cases top : s.scheduler.events.top with
    | none =>
      rw [EventQueue.top, List.head?_eq_none_iff] at top
      exact absurd (top ▸ pending : event ∈ ([] : List ScheduledEvent)) List.not_mem_nil
    | some first =>
      have order : first.timeNs ≤ event.timeNs := by
        rcases EventQueue.top_noLater top pending with less | ⟨same, _⟩
        · exact less.le
        · exact same.le
      dsimp only
      split <;> omega
  | executed frame served control due _ _ _ now =>
    obtain ⟨top, _⟩ := dueEvent_spec due
    rcases EventQueue.top_noLater top pending with less | ⟨same, _⟩
    · omega
    · omega
  | decided frame decision label control answers ends =>
    rw [control] at course
    obtain ⟨⟨_, turning⟩, forward⟩ := course
    obtain ⟨_, _, _, ending⟩ := endStep_spec configured ordered turning forward answers
    rw [← ends] at ending
    have clock : s.scheduler.nowNs = frame.nextTime := turning.within.2.2.2
    cases ending with
    | rejected _ _ now => omega
    | accepted _ now => omega

/-- A call that returns has the clock at its target, or where it was if it was later. -/
theorem Course.returned (h : Course settings targetTimeNs startNs s)
    (step : Step sessionCallbacks s .returned t) : t.scheduler.nowNs = max targetTimeNs startNs := by
  obtain ⟨_, uninterrupted, course⟩ := h
  cases step with
  | @finish s target ends =>
    obtain ⟨rfl, start, bound⟩ : target = targetTimeNs ∧ startNs ≤ s.nowNs ∧ s.nowNs ≤ max targetTimeNs startNs := course
    have arrived := ends.resolve_right (by rw [uninterrupted]; exact Bool.false_ne_true)
    show s.nowNs = _
    omega

theorem own_move (step : Step sessionCallbacks s label t) (running : label ≠ .returned)
    (quiet : label ≠ .interrupt) (elsewhere : ∀ frame, s.control ≠ .commit frame) (moves : t.control ≠ s.control) :
    CallStep settings s label t ∧ Moves s label t :=
  ⟨⟨step, running, quiet, fun same => absurd same moves, fun frame control => absurd control (elsewhere frame)⟩,
    Or.inl moves⟩

theorem afterSettle_ne (converged hadWork : Bool) (site : SettleSite) (iterations : Nat) (worked : Bool) :
    afterSettle sessionCallbacks converged hadWork site ≠ .settle site (.check iterations worked) := by
  cases site with
  | entry | afterCommit =>
    simp only [afterSettle]
    split <;> rintro ⟨⟩
  | afterEvents =>
    simp only [afterSettle]
    split <;> rintro ⟨⟩

/-- The thread can always go on or return. -/
theorem Course.goes_on (h : Course settings targetTimeNs startNs s) :
    (∃ label t, CallStep settings s label t ∧ Moves s label t) ∨ ∃ t, Step sessionCallbacks s .returned t := by
  obtain ⟨s, control⟩ := s
  obtain ⟨configured, uninterrupted, course⟩ := h
  have free : ¬s.interrupted = true := Bool.not_eq_true _ ▸ (uninterrupted : s.interrupted = false)
  cases control with
  | idle | chosen => exact course.elim
  | head target =>
    by_cases before : s.nowNs < target
    · exact Or.inl ⟨_, _, own_move (.begin ∅ before free (Or.inl rfl)) nofun nofun nofun nofun⟩
    · exact Or.inr ⟨_, .finish (Or.inl before)⟩
  | stable => exact Or.inl ⟨_, _, own_move .stableReturns nofun nofun nofun nofun⟩
  | callback => exact Or.inl ⟨_, _, own_move .callbackReturns nofun nofun nofun nofun⟩
  | settle site phase =>
    cases phase with
    | drain => exact Or.inl ⟨_, _, own_move .settleDrained nofun nofun nofun nofun⟩
    | check iterations hadWork =>
      by_cases stops : settleStops sessionCallbacks s iterations = true
      · exact Or.inl ⟨_, _, own_move (.settleLeaves stops) nofun nofun nofun (afterSettle_ne _ _ _ _ _)⟩
      · exact Or.inl ⟨_, _, own_move (.settleEnters stops) nofun nofun nofun nofun⟩
    | iterate => exact Or.inl ⟨_, _, own_move (.settleReleases true (Or.inl rfl)) nofun nofun nofun nofun⟩
    | release => exact Or.inl ⟨_, _, own_move .settleRelocks nofun nofun nofun nofun⟩
  | dispatch frame =>
    cases due : s.dueEvent frame.nextTime with
    | none => exact Or.inl ⟨_, _, own_move (.eventsDone (Or.inl due)) nofun nofun nofun nofun⟩
    | some event =>
      refine Or.inl ⟨_, _, ⟨.execute due free, nofun, nofun, fun _ => ?_, nofun⟩, Or.inr ⟨event, rfl⟩⟩
      unfold Scheduler.takeEvent
      cases event.soft <;> exact ⟨rfl, rfl, rfl, rfl, rfl⟩
  | commit frame =>
    obtain ⟨decision, answers⟩ : ∃ decision, Answers settings s frame decision := ⟨_, .measured false [] []⟩
    have other := endStep_control_ne s frame decision
    have step : ∃ label, Step sessionCallbacks ⟨s, .commit frame⟩ label (endStep s frame decision) ∧
        label ≠ .returned ∧ label ≠ .interrupt := by
      unfold endStep
      by_cases rejected : rejects s frame decision = true
      · rw [if_pos rejected]
        exact ⟨_, .reject decision rejected, nofun, nofun⟩
      · rw [if_neg rejected]
        exact ⟨_, .keep decision rejected, nofun, nofun⟩
    obtain ⟨label, step, running, quiet⟩ := step
    refine Or.inl ⟨label, _, ⟨step, running, quiet, fun same => absurd same other, fun ended same _ => ?_⟩, Or.inl other⟩
    obtain rfl := Control.commit.inj same
    exact ⟨decision, answers, rfl⟩

theorem Course.reached_le (h : Course settings targetTimeNs startNs s) : reached s ≤ max targetTimeNs startNs := by
  obtain ⟨s, control⟩ := s
  have course : OnCourse settings targetTimeNs startNs s control := h.course
  have before : ∀ {frame}, Turning settings targetTimeNs frame s → frame.previousTime ≤ max targetTimeNs startNs :=
    fun turning => turning.within.2.1.le.trans (le_max_left _ _)
  cases control with
  | idle | chosen => exact course.elim
  | head | stable => exact course.2.2
  | settle site =>
    cases site with
    | entry | afterCommit => exact course.2.2
    | afterEvents => exact before course.2
  | dispatch | callback => exact before course.2
  | commit => exact before course.1.2

/-- If finitely many events are scheduled at each time that is reached, the thread makes finitely many moves,
those inside settles without a limit apart. -/
theorem Course.finite_moves {run : ℕ → System} {labels : ℕ → Label}
    (h : Course settings targetTimeNs startNs (run 0)) (positive : 0 < settings.minimumStepNs)
    (ordered : settings.minimumStepNs ≤ settings.maximumStepNs)
    (steps : ∀ k, CallStep settings (run k) (labels k) (run (k + 1)))
    (finite : ∀ time, {k | reached (run k) = time ∧ ∃ event, labels k = .scheduled event}.Finite) :
    {k | Moves (run k) (labels k) (run (k + 1)) ∧
      ¬(settings.maximumNewtonIterations = 0 ∧ Settles (run k) (run (k + 1)))}.Finite := by
  have course : ∀ k, Course settings targetTimeNs startNs (run k) := fun k => by
    induction k with
    | zero => exact h
    | succ k ih => exact (ih.step positive ordered (steps k)).1
  have scheduled : {k | ∃ event, labels k = .scheduled event}.Finite := by
    refine ((Set.finite_Iic (max targetTimeNs startNs)).biUnion fun time _ => finite time).subset fun k event => ?_
    exact Set.mem_biUnion (course k).reached_le ⟨rfl, event⟩
  have pays : ∀ k, Lib.Budget.Pays (fun k => budget settings targetTimeNs (run k))
      (fun k => Moves (run k) (labels k) (run (k + 1)) ∧
        ¬(settings.maximumNewtonIterations = 0 ∧ Settles (run k) (run (k + 1))))
      (fun k => ∃ event, labels k = .scheduled event) (turnWork settings.maximumNewtonIterations + 3) k := by
    intro k
    obtain ⟨unscheduled, more⟩ := (course k).pays ordered (steps k)
    refine ⟨fun none => ?_, fun none spends => ?_, fun some => ?_⟩
    · exact (unscheduled fun event same => none ⟨event, same⟩).1
    · exact (unscheduled fun event same => none ⟨event, same⟩).2 spends.1 spends.2
    · exact ⟨fun spends => (more some).1 spends.1, (more some).2⟩
  exact Lib.Budget.finite_spends pays scheduled

/-- A state of a call that was made on this scheduler. -/
def InCall (settings : TransientSettings) (s₀ : Scheduler) (targetTimeNs : Nat) (s : System) : Prop :=
  ∃ labels, CallRun settings (enterSettle s₀ (.entry targetTimeNs)) labels s

theorem course_entry {s₀ : Scheduler} (configured : Configured settings s₀)
    (uninterrupted : s₀.interrupted = false) (targetTimeNs : Nat) :
    Course settings targetTimeNs s₀.nowNs (enterSettle s₀ (.entry targetTimeNs)) :=
  ⟨⟨configured.maximum, configured.minimum, configured.adaptive, configured.limit, configured.least,
    configured.most⟩, uninterrupted, rfl, le_rfl, le_max_right _ _⟩

/-- What a call of `runUntil` comes to if nobody interrupts or configures it. -/
structure RunUntilEnds (settings : TransientSettings) (s₀ : Scheduler) (targetTimeNs : Nat) : Prop where
  /-- Another attempt from the time of a rejected one is shorter. -/
  retried : ∀ s t u v frame frame' labels, InCall settings s₀ targetTimeNs s →
    CallStep settings s (.rejected frame) t → CallRun settings t labels u → reached u = reached t →
    CallStep settings u (.began frame') v →
    frame'.nextTime - frame'.previousTime < frame.nextTime - frame.previousTime
  /-- An attempt at the minimum is accepted. -/
  least : ∀ s label t frame, InCall settings s₀ targetTimeNs s → s.control = .commit frame →
    frame.nextTime - frame.previousTime ≤ settings.minimumStepNs → CallStep settings s label t →
    t.control ≠ s.control → t.control = .settle (.afterCommit frame) .drain
  /-- After at most `maximumStepNs` rejections a step is accepted. -/
  accepted : ∀ s labels t, InCall settings s₀ targetTimeNs s → CallRun settings s labels t →
    settings.maximumStepNs ≤ labels.countP Label.rejects → reached s < reached t
  /-- The thread makes finitely many moves, unless a settle without a limit goes on. -/
  finite : ∀ (run : ℕ → System) (labels : ℕ → Label), run 0 = enterSettle s₀ (.entry targetTimeNs) →
    (∀ k, CallStep settings (run k) (labels k) (run (k + 1))) →
    (∀ time, {k | reached (run k) = time ∧ ∃ event, labels k = .scheduled event}.Finite) →
    {k | Moves (run k) (labels k) (run (k + 1)) ∧
      ¬(settings.maximumNewtonIterations = 0 ∧ Settles (run k) (run (k + 1)))}.Finite
  /-- The thread never waits. -/
  goesOn : ∀ s, InCall settings s₀ targetTimeNs s → (∃ label t, CallStep settings s label t ∧ Moves s label t) ∨
    ∃ t, Step sessionCallbacks s .returned t
  /-- The clock passes no pending event. -/
  notPassed : ∀ s label t event, InCall settings s₀ targetTimeNs s → CallStep settings s label t →
    event ∈ s.scheduler.events → s.scheduler.nowNs ≤ event.timeNs → t.scheduler.nowNs ≤ event.timeNs
  /-- The call returns at its target. -/
  returned : ∀ s t, InCall settings s₀ targetTimeNs s → Step sessionCallbacks s .returned t →
    t.scheduler.nowNs = max targetTimeNs s₀.nowNs

theorem run_until_ends {s₀ : Scheduler} (positive : 0 < settings.minimumStepNs)
    (ordered : settings.minimumStepNs ≤ settings.maximumStepNs) (configured : Configured settings s₀)
    (uninterrupted : s₀.interrupted = false) (targetTimeNs : Nat) : RunUntilEnds settings s₀ targetTimeNs := by
  have course : ∀ s, InCall settings s₀ targetTimeNs s → Course settings targetTimeNs s₀.nowNs s :=
    fun s ⟨labels, run⟩ => ((course_entry configured uninterrupted targetTimeNs).run positive ordered run).1
  constructor
  case retried =>
    intro s t u v frame frame' labels inCall rejected run same began
    exact (course s inCall).retried positive ordered rejected run same began
  case least =>
    intro s label t frame inCall control small step decided
    exact (course s inCall).accepts ordered control small step decided
  case accepted =>
    intro s labels t inCall run many
    rcases (course s inCall).rejections_le positive ordered run with later | paid
    · exact later
    · have after := ((course s inCall).run positive ordered run).1
      have least := after.configured.least
      have most := (course s inCall).configured.most
      omega
  case finite =>
    intro run labels begins steps finite
    have h := course_entry configured uninterrupted targetTimeNs
    rw [← begins] at h
    exact h.finite_moves positive ordered steps finite
  case goesOn => exact fun s inCall => (course s inCall).goes_on
  case notPassed =>
    exact fun s label t event inCall step pending early => (course s inCall).not_passed ordered step pending early
  case returned => exact fun s t inCall step => (course s inCall).returned step

/-- A scheduler with this iteration limit, the other default settings and one component to settle. -/
def defaultScheduler (maximumNewtonIterations : Nat) : Scheduler :=
  { maximumTimeStepNs := 100000, currentTimeStepNs := 100, minimumTimeStepNs := 1, adaptiveTimeStep := true,
    maxNonLinearIterations := maximumNewtonIterations, dirty := {0} }

theorem defaultScheduler_configured (maximumNewtonIterations : Nat) :
    Configured { maximumNewtonIterations } (defaultScheduler maximumNewtonIterations) :=
  ⟨rfl, rfl, rfl, rfl, Nat.le_of_ble_eq_true rfl, Nat.le_of_ble_eq_true rfl⟩

theorem run_until_ends_default : RunUntilEnds {} (defaultScheduler 20) 1000 :=
  run_until_ends (by decide) (by decide) (defaultScheduler_configured 20) rfl 1000

/-- What follows on a phase of a settle whose circuit never gets stable. -/
def unstablePhase : SettlePhase → SettlePhase
  | .drain => .check 0 false
  | .check iterations _ => .iterate (iterations + 1)
  | .iterate iterations => .release iterations
  | .release iterations => .check iterations true

def unstable (phase : SettlePhase) : System := ⟨defaultScheduler 0, .settle (.entry 1) phase⟩

theorem unstable_step (phase : SettlePhase) :
    CallStep { maximumNewtonIterations := 0 } (unstable phase) .silent (unstable (unstablePhase phase)) ∧
      Moves (unstable phase) .silent (unstable (unstablePhase phase)) := by
  have merged : (defaultScheduler 0).mergePendingDirtyLocked = defaultScheduler 0 := rfl
  have enters : ∀ iterations, ¬settleStops sessionCallbacks (defaultScheduler 0) iterations = true := fun _ => nofun
  cases phase with
  | drain => exact own_move .settleDrained nofun nofun nofun nofun
  | check iterations => exact own_move (.settleEnters (enters iterations)) nofun nofun nofun nofun
  | iterate iterations =>
    have step : Step sessionCallbacks (unstable (.iterate iterations)) .silent
        ⟨(defaultScheduler 0).mergePendingDirtyLocked, .settle (.entry 1) (.release iterations)⟩ :=
      .settleReleases true (Or.inl rfl)
    rw [merged] at step
    exact own_move step nofun nofun nofun nofun
  | release iterations =>
    have step : Step sessionCallbacks (unstable (.release iterations)) .silent
        ⟨(defaultScheduler 0).mergePendingDirtyLocked, .settle (.entry 1) (.check iterations true)⟩ := .settleRelocks
    rw [merged] at step
    exact own_move step nofun nofun nofun nofun

/-- Without a limit on its iterations a settle that never gets stable keeps a call forever: the thread moves at
every step, nothing is scheduled and the clock stands still. -/
theorem unlimited_settle_never_ends : ∃ (settings : TransientSettings) (s₀ : Scheduler) (run : ℕ → System)
    (labels : ℕ → Label), 0 < settings.minimumStepNs ∧ settings.minimumStepNs ≤ settings.maximumStepNs ∧
      Configured settings s₀ ∧ s₀.interrupted = false ∧ run 0 = enterSettle s₀ (.entry 1) ∧
      (∀ k, CallStep settings (run k) (labels k) (run (k + 1))) ∧
      (∀ k, Moves (run k) (labels k) (run (k + 1))) ∧
      ∀ k, (∀ event, labels k ≠ .scheduled event) ∧ (run k).scheduler.nowNs = 0 := by
  refine ⟨{ maximumNewtonIterations := 0 }, defaultScheduler 0, fun k => unstable (unstablePhase^[k] .drain),
    fun _ => .silent, by decide, by decide, defaultScheduler_configured 0, rfl, rfl, fun k => ?_, fun k => ?_,
    fun k => ⟨nofun, rfl⟩⟩
  · dsimp only
    rw [Function.iterate_succ_apply']
    exact (unstable_step _).1
  · dsimp only
    rw [Function.iterate_succ_apply']
    exact (unstable_step _).2

end System
end LasecSimul.Scheduling
