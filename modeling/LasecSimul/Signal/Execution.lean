import LasecSimul.Lib.Agenda
import LasecSimul.Signal.Runtime
import LasecSimul.Signal.Schedule

/-!
# `SignalRuntime::executeUntil` and `setTimeBase`

Times are in nanoseconds, at most `maxNs`. A group that has no later instant has its next activation at
`maxNs`.
-/

namespace LasecSimul.Signal

open Lib

variable {R : Type} [Double R]

/-- The greatest `uint64_t`. -/
def maxNs : Nat := 18446744073709551615

/-- What the loop of `executeUntil` changes. -/
structure Activations (R : Type) extends SignalStore R where
  nextActivationNs : Nat → Nat

structure SignalRuntime (R : Type) extends Activations R where
  constantGroupsDirty : Bool := false
  dynamicTimeNs : Nat := 0
  lastExecutionNs : Nat := 0
  pendingDynamicTimeNs : Nat := 0
  pendingDynamicStepNs : Nat := 0
  dynamicStepPending : Bool := false

section Groups

variable (graph : CompiledSignalGraph R)

def CompiledSignalGraph.rate (index : Nat) : SignalRate :=
  (graph.rateGroups[index]?.map (·.rate)).getD {}

omit [Double R] in
theorem rate_periodNs_pos (index : Nat) : 0 < (graph.rate index).periodNs := by
  unfold CompiledSignalGraph.rate
  cases graph.rateGroups[index]? with
  | none => exact Nat.one_pos
  | some group => exact group.period_pos

/-- A group of external inputs only is never activated. -/
def passiveGroup (index : Nat) : Bool :=
  graph.items.all fun item => item.blocks.all fun block =>
    (graph.block block).group ≠ .rate index || (graph.block block).kind = .externalInput

/-- The groups `executeUntil` looks at. -/
def activeGroups : List Nat := (List.range graph.rateGroups.length).filter fun index => !passiveGroup graph index

def constantGroup (index : Nat) : Bool := (graph.rate index).periodNs ≥ kConstantSamplePeriodNs

/-- The first instant of a rate that is not before `timestampNs`; constant groups run at once. -/
def firstActivation (rate : SignalRate) (timestampNs : Nat) : Nat :=
  if rate.periodNs ≥ kConstantSamplePeriodNs then timestampNs
  else if timestampNs ≤ rate.offsetNs then rate.offsetNs
  else
    let elapsed := timestampNs - rate.offsetNs
    let periods := elapsed / rate.periodNs + if elapsed % rate.periodNs ≠ 0 then 1 else 0
    if periods > (maxNs - rate.offsetNs) / rate.periodNs then maxNs else rate.offsetNs + periods * rate.periodNs

def setTimeBase (timestampNs : Nat) (s : SignalRuntime R) : Except Exception (SignalRuntime R) := do
  throwIf s.dynamicStepPending (.logicError "nao e permitido alterar tempo com passo dinamico pendente")
  return { s with
    dynamicTimeNs := timestampNs
    lastExecutionNs := timestampNs
    nextActivationNs := fun index => firstActivation (graph.rate index) timestampNs }

/-- After a parameter of a constant block changed, the constant groups run once more. -/
def redate (s : SignalRuntime R) : SignalRuntime R :=
  if s.constantGroupsDirty then
    { s with
      nextActivationNs := fun index =>
        if constantGroup graph index then min (s.nextActivationNs index) s.lastExecutionNs
        else s.nextActivationNs index
      constantGroupsDirty := false }
  else s

def nextBatch (timestampNs : Nat) (s : Activations R) : Option Periodic.Batch :=
  Periodic.batch (activeGroups graph) maxNs timestampNs s.nextActivationNs

def activate (batch : Periodic.Batch) (s : Activations R) : Except Exception (Activations R) := do
  let store ← activateBatch graph batch.due batch.time s.toSignalStore
  return {
    toSignalStore := store
    nextActivationNs := Periodic.advance (fun index => (graph.rate index).periodNs) maxNs batch s.nextActivationNs }

theorem activate_next {batch : Periodic.Batch} {s t : Activations R} (activated : activate graph batch s = .ok t) :
    t.nextActivationNs =
      Periodic.advance (fun index => (graph.rate index).periodNs) maxNs batch s.nextActivationNs := by
  obtain ⟨store, _, last⟩ := Fallible.bind_ok activated
  obtain rfl := Except.ok.inj last
  rfl

/-- The loop of `executeUntil`. -/
def activations : Agenda (Activations R) Periodic.Batch Exception where
  due := nextBatch graph
  handle := activate graph
  left s := Periodic.remaining (activeGroups graph) maxNs s.nextActivationNs
  due_of_le le found := Periodic.batch_of_le le found
  handle_left found activated := by
    rw [activate_next graph activated]
    exact Periodic.remaining_advance (fun index _ => rate_periodNs_pos graph index) found

def executeUntil (timestampNs : Nat) (s : SignalRuntime R) : Except Exception (SignalRuntime R) := do
  let dated := redate graph s
  let ended ← (activations graph).run timestampNs dated.toActivations
  return { dated with toActivations := ended, lastExecutionNs := max dated.lastExecutionNs timestampNs }

variable {graph} {s t : SignalRuntime R} {near far timestampNs : Nat}

theorem executeUntil_ended (ended : executeUntil graph timestampNs s = .ok t) :
    ∃ last, (activations graph).run timestampNs (redate graph s).toActivations = .ok last ∧
      t = { redate graph s with
        toActivations := last, lastExecutionNs := max (redate graph s).lastExecutionNs timestampNs } := by
  obtain ⟨last, run, done⟩ := Fallible.bind_ok ended
  exact ⟨last, run, (Except.ok.inj done).symm⟩

omit [Double R] in
theorem redate_clean (s : SignalRuntime R) : (redate graph s).constantGroupsDirty = false := by
  unfold redate
  split
  · rfl
  · rename_i clean
    exact eq_false_of_ne_true clean

omit [Double R] in
theorem redate_of_clean (clean : s.constantGroupsDirty = false) : redate graph s = s := by
  unfold redate
  rw [clean]
  rfl

omit [Double R] in
theorem redate_last (s : SignalRuntime R) : (redate graph s).lastExecutionNs = s.lastExecutionNs := by
  unfold redate
  split <;> rfl

theorem executeUntil_of_run {last : Activations R} (clean : s.constantGroupsDirty = false)
    (run : (activations graph).run timestampNs s.toActivations = .ok last) :
    executeUntil graph timestampNs s =
      .ok { s with toActivations := last, lastExecutionNs := max s.lastExecutionNs timestampNs } := by
  unfold executeUntil
  rw [redate_of_clean clean]
  dsimp only
  rw [run]
  rfl

omit [Double R] in
theorem redate_sampled {group : Nat} (sampled : constantGroup graph group = false) :
    (redate graph s).nextActivationNs group = s.nextActivationNs group := by
  unfold redate
  split
  · simp only [sampled, Bool.false_eq_true, if_false]
  · rfl

theorem executeUntil_trans (le : near ≤ far) (s : SignalRuntime R) :
    (executeUntil graph near s >>= executeUntil graph far) = executeUntil graph far s := by
  have whole := (activations graph).run_trans le (redate graph s).toActivations
  cases first : (activations graph).run near (redate graph s).toActivations with
  | error exception =>
    rw [first] at whole
    simp only [executeUntil, first, ← whole, bind, Except.bind]
  | ok mid =>
    rw [first] at whole
    have clean : redate graph { redate graph s with
        toActivations := mid, lastExecutionNs := max (redate graph s).lastExecutionNs near } = _ :=
      redate_of_clean (redate_clean s)
    simp only [executeUntil, first, ← whole, bind, Except.bind, pure, Except.pure, clean]
    rw [Nat.max_assoc, Nat.max_eq_right le]

/-- The states of a runtime between calls. `bind` sets the groups to their offsets; every other function
of the class leaves the activations and the last execution as they are. -/
inductive Reachable (graph : CompiledSignalGraph R) : SignalRuntime R → Prop where
  | bind (store : SignalStore R) :
    Reachable graph { toSignalStore := store, nextActivationNs := fun index => (graph.rate index).offsetNs }
  | setTimeBase {s t : SignalRuntime R} {timestampNs : Nat} : Reachable graph s → timestampNs ≤ maxNs →
    setTimeBase graph timestampNs s = .ok t → Reachable graph t
  | executeUntil {s t : SignalRuntime R} {timestampNs : Nat} : Reachable graph s → timestampNs ≤ maxNs →
    executeUntil graph timestampNs s = .ok t → Reachable graph t
  | other {s t : SignalRuntime R} : Reachable graph s → t.nextActivationNs = s.nextActivationNs →
    t.lastExecutionNs = s.lastExecutionNs → Reachable graph t

theorem activations_run {s t : Activations R} {batches : List Periodic.Batch}
    (run : Trace.Run ((activations graph).Step timestampNs) s batches t) :
    Trace.Run (Periodic.Step (activeGroups graph) (fun index => (graph.rate index).periodNs) maxNs timestampNs)
      s.nextActivationNs batches t.nextActivationNs :=
  run.map (·.nextActivationNs) fun _ _ _ step => ⟨step.1, activate_next graph step.2⟩

/-- `setTimeBase` aligns every group of which the rate is not constant. -/
theorem firstActivation_aligned {rate : SignalRate} (positive : 0 < rate.periodNs)
    (sampled : rate.periodNs < kConstantSamplePeriodNs) (bounded : timestampNs ≤ maxNs) :
    Periodic.Aligned rate.offsetNs rate.periodNs maxNs timestampNs (firstActivation rate timestampNs) := by
  unfold firstActivation
  rw [if_neg (by omega)]
  split
  · rename_i early
    exact ⟨early, Or.inr ⟨0, by omega⟩, fun k _ => Nat.le_add_right _ _⟩
  · rename_i late
    dsimp only
    have covers := Periodic.periods_le_iff (timestampNs - rate.offsetNs) positive
    generalize (timestampNs - rate.offsetNs) / rate.periodNs +
      (if (timestampNs - rate.offsetNs) % rate.periodNs ≠ 0 then 1 else 0) = periods at covers
    have least (k : Nat) (later : timestampNs < rate.offsetNs + k * rate.periodNs) : periods ≤ k :=
      (covers k).mpr (by omega)
    split
    · rename_i beyond
      refine ⟨bounded, Or.inl rfl, fun k later => ?_⟩
      have := (Nat.div_lt_iff_lt_mul positive).mp (Nat.lt_of_lt_of_le beyond (least k later))
      omega
    · have reached := (covers periods).mp (Nat.le_refl _)
      refine ⟨by omega, Or.inr ⟨periods, rfl⟩, fun k later => ?_⟩
      exact Nat.add_le_add_left (Nat.mul_le_mul_right _ (least k later)) _

theorem aligned (reachable : Reachable graph s) : s.lastExecutionNs ≤ maxNs ∧
    ∀ group ∈ activeGroups graph, constantGroup graph group = false →
      Periodic.Aligned (graph.rate group).offsetNs (graph.rate group).periodNs maxNs s.lastExecutionNs
        (s.nextActivationNs group) := by
  induction reachable with
  | bind =>
    refine ⟨Nat.zero_le _, fun group _ _ => ⟨Nat.zero_le _, Or.inr ⟨0, ?_⟩, fun k _ => Nat.le_add_right _ _⟩⟩
    rw [Nat.zero_mul]
    rfl
  | setTimeBase _ bounded set _ =>
    obtain ⟨_, _, done⟩ := Fallible.bind_ok set
    obtain rfl := Except.ok.inj done
    refine ⟨bounded, fun group _ sampled => ?_⟩
    exact firstActivation_aligned (rate_periodNs_pos graph group) (by simpa [constantGroup] using sampled) bounded
  | executeUntil _ bounded ended before =>
    obtain ⟨last, run, rfl⟩ := executeUntil_ended ended
    obtain ⟨batches, steps, idle⟩ := Agenda.run_steps run
    obtain ⟨done, aligned⟩ := before
    have latest : max (redate graph _).lastExecutionNs _ ≤ maxNs :=
      Nat.max_le.mpr ⟨(redate_last _).trans_le done, bounded⟩
    refine ⟨latest, fun group member sampled => ?_⟩
    refine Periodic.Aligned.run member latest ?_ (activations_run steps) idle
    rw [redate_last, redate_sampled sampled]
    exact aligned group member sampled
  | other _ next done before =>
    rw [next, done]
    exact before

/-- Cutting a horizon makes no difference, and a call activates every non-passive group at the multiples
of its period from its next activation, in increasing order of time. For the sampled groups of
a reachable state these are the instants of the rate after the last execution, and the last execution
itself where it is due. -/
theorem executeUntil_pathIndependent (graph : CompiledSignalGraph R) :
    (∀ (s : SignalRuntime R) (near far : Nat), near ≤ far →
      (executeUntil graph near s >>= executeUntil graph far) = executeUntil graph far s) ∧
    ∀ (s t : SignalRuntime R) (timestampNs : Nat), timestampNs < maxNs →
      executeUntil graph timestampNs s = .ok t →
      ∃ batches, Trace.Run ((activations graph).Step timestampNs) (redate graph s).toActivations batches
          t.toActivations ∧
        nextBatch graph timestampNs t.toActivations = none ∧
        batches.Pairwise (fun first second => first.time < second.time) ∧
        ∀ group ∈ activeGroups graph, ∀ time,
          ((∃ batch ∈ batches, batch.time = time ∧ batch.due group = true) ↔
            time ≤ timestampNs ∧
              ∃ k, time = (redate graph s).nextActivationNs group + k * (graph.rate group).periodNs) ∧
          (Reachable graph s → constantGroup graph group = false →
            ((∃ batch ∈ batches, batch.time = time ∧ batch.due group = true) ↔
              (∃ k, time = (graph.rate group).offsetNs + k * (graph.rate group).periodNs) ∧
              (s.lastExecutionNs < time ∧ time ≤ timestampNs ∨
                time = s.lastExecutionNs ∧ time ≤ timestampNs ∧ s.nextActivationNs group = time))) := by
  refine ⟨fun s near far le => executeUntil_trans le s, fun s t timestampNs below ended => ?_⟩
  obtain ⟨last, run, rfl⟩ := executeUntil_ended ended
  obtain ⟨batches, steps, idle⟩ := Agenda.run_steps run
  have clock := activations_run steps
  refine ⟨batches, steps, idle, (Periodic.increasing (fun group _ => rate_periodNs_pos graph group) clock).1, ?_⟩
  intro group member time
  have due := Periodic.due_iff member below clock idle time
  refine ⟨due, fun reachable sampled => due.trans ?_⟩
  have aligned := (aligned reachable).2 group member sampled
  rw [redate_sampled sampled]
  have before := aligned.notBefore
  constructor
  · rintro ⟨within, instant⟩
    obtain ⟨phase, later⟩ := (aligned.instants (rate_periodNs_pos graph group) (by omega)).mp instant
    exact ⟨phase, by omega⟩
  · rintro ⟨phase, later⟩
    refine ⟨by omega, (aligned.instants (rate_periodNs_pos graph group) (by omega)).mpr ⟨phase, by omega⟩⟩

end Groups

def heldConstant : SignalGraphDefinition Float where
  blocks := [{ id := "c", rate := { periodNs := kConstantSamplePeriodNs }, tolerance := 0.0, realParameters := [1.0] }]
  connections := []

def heldPlan : CompiledSignalGraph Float := (compile noKernels heldConstant).toOption.getD {}

/-- The plan moved to 5 ns before its first instant. -/
def heldAt5 : SignalRuntime Float where
  toSignalStore := .cleared
  nextActivationNs := fun index => firstActivation (heldPlan.rate index) 5
  dynamicTimeNs := 5
  lastExecutionNs := 5

def heldBatch : Periodic.Batch :=
  ⟨5, fun group => group ∈ activeGroups heldPlan ∧ heldAt5.nextActivationNs group = 5⟩

theorem heldConstant_skipsInstant : ∃ t,
    compile noKernels heldConstant = .ok heldPlan ∧ Reachable heldPlan heldAt5 ∧
      executeUntil heldPlan kConstantSamplePeriodNs heldAt5 = .ok t ∧
      Trace.Run ((activations heldPlan).Step kConstantSamplePeriodNs) heldAt5.toActivations [heldBatch]
        t.toActivations ∧
      nextBatch heldPlan kConstantSamplePeriodNs t.toActivations = none ∧
      0 ∈ activeGroups heldPlan ∧ heldAt5.lastExecutionNs < kConstantSamplePeriodNs ∧
      (heldPlan.rate 0).offsetNs + 1 * (heldPlan.rate 0).periodNs = kConstantSamplePeriodNs ∧
      heldBatch.time ≠ kConstantSamplePeriodNs := by
  obtain ⟨last, activated⟩ : ∃ last, activate heldPlan heldBatch heldAt5.toActivations = .ok last := ⟨_, rfl⟩
  have first : nextBatch heldPlan kConstantSamplePeriodNs heldAt5.toActivations = some heldBatch := rfl
  have idleLast : nextBatch heldPlan kConstantSamplePeriodNs last = none := by
    unfold nextBatch
    rw [activate_next heldPlan activated]
    rfl
  have run : (activations heldPlan).run kConstantSamplePeriodNs heldAt5.toActivations = .ok last := by
    rw [Agenda.run_some first, show (activations heldPlan).handle heldBatch heldAt5.toActivations = _ from activated]
    exact Agenda.run_none idleLast
  have reachable : Reachable heldPlan heldAt5 := .setTimeBase (.bind .cleared) (show 5 ≤ maxNs by decide) rfl
  refine ⟨{ heldAt5 with toActivations := last, lastExecutionNs := max 5 kConstantSamplePeriodNs }, rfl, reachable,
    ?_, Trace.Run.one ⟨first, activated⟩, idleLast, by decide, by decide, rfl, by decide⟩
  exact executeUntil_of_run rfl run

def delayedPlan : CompiledSignalGraph Float := (compile noKernels delayedLoop).toOption.getD {}

def delayedStart : SignalRuntime Float where
  toSignalStore := .cleared
  nextActivationNs := fun index => (delayedPlan.rate index).offsetNs

def delayedBatch (s : Activations Float) (time : Nat) : Periodic.Batch :=
  ⟨time, fun group => group ∈ activeGroups delayedPlan ∧ s.nextActivationNs group = time⟩

theorem delayedPlan_runs : ∃ mid last,
    activate delayedPlan (delayedBatch delayedStart.toActivations 0) delayedStart.toActivations = .ok mid ∧
      activate delayedPlan (delayedBatch mid 1) mid = .ok last := ⟨_, _, rfl, rfl⟩

/-- The delayed loop runs at 0 ns, where it is due, and at 1 ns, whether or not the horizon stops at 0 ns. -/
theorem executeUntil_pathIndependent_delayedLoop : ∃ t batches,
    compile noKernels delayedLoop = .ok delayedPlan ∧
      (executeUntil delayedPlan 0 delayedStart >>= executeUntil delayedPlan 1) = .ok t ∧
      Trace.Run ((activations delayedPlan).Step 1) delayedStart.toActivations batches t.toActivations ∧
      (∃ batch ∈ batches, batch.time = 0 ∧ batch.due 0 = true) ∧
      ∃ batch ∈ batches, batch.time = 1 ∧ batch.due 0 = true := by
  obtain ⟨mid, last, first, second⟩ := delayedPlan_runs
  have dueAt0 : nextBatch delayedPlan 1 delayedStart.toActivations = some (delayedBatch delayedStart.toActivations 0) :=
    rfl
  have dueAt1 : nextBatch delayedPlan 1 mid = some (delayedBatch mid 1) := by
    unfold nextBatch delayedBatch
    rw [activate_next delayedPlan first]
    rfl
  have idleLast : nextBatch delayedPlan 1 last = none := by
    unfold nextBatch
    rw [activate_next delayedPlan second]
    unfold delayedBatch
    rw [activate_next delayedPlan first]
    rfl
  have run : (activations delayedPlan).run 1 delayedStart.toActivations = .ok last := by
    rw [Agenda.run_some dueAt0, show (activations delayedPlan).handle _ _ = _ from first]
    show (activations delayedPlan).run 1 mid = _
    rw [Agenda.run_some dueAt1, show (activations delayedPlan).handle _ _ = _ from second]
    exact Agenda.run_none idleLast
  obtain ⟨cut, whole⟩ := executeUntil_pathIndependent delayedPlan
  have ended := executeUntil_of_run (s := delayedStart) rfl run
  obtain ⟨batches, steps, _, _, due⟩ := whole delayedStart _ 1 (by decide) ended
  have at0 := ((due 0 (by decide) 0).2 (.bind .cleared) rfl).mpr ⟨⟨0, rfl⟩, by decide⟩
  have at1 := ((due 0 (by decide) 1).2 (.bind .cleared) rfl).mpr ⟨⟨1, rfl⟩, by decide⟩
  exact ⟨_, batches, rfl, (cut delayedStart 0 1 (by decide)).trans ended, steps, at0, at1⟩

end LasecSimul.Signal
