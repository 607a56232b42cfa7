import LasecSimul.Hart.BuiltIn

/-!
# Synchronous actions over time

How often an armed action executes its command while the time advances, against its trigger instants: one
for a one-shot action, one each day for a recurring one.
-/

namespace LasecSimul.Hart

open Lib.Fallible HartEngine

variable {ρ σ : Type}

/-! ### One action -/

/-- What a device holds of one action. -/
structure ActionSlot where
  /-- The index is below the number of actions. -/
  listed : Bool
  action : HartSynchronousActionConfiguration
  command : HartSynchronousActionConfiguration
  fired : Bool
  deriving DecidableEq, Repr

def RuntimeDevice.actionSlot (i : Nat) (device : RuntimeDevice ρ) : ActionSlot where
  listed := i < device.plan.actionCount.toNat
  action := device.plan.synchronousActions.getD i {}
  command := device.plan.commandActions.getD i {}
  fired := device.actionFired.getD i false

namespace ActionSlot

variable (slot : ActionSlot)

def executes : Bool := slot.action.control &&& 0x01 != 0

def oneShot : Bool := slot.action.control &&& 0x10 != 0

def due (current : Nat) : Bool :=
  slot.listed && slot.action.control &&& 0x80 != 0 && !slot.fired && decide (slot.action.triggerSeconds ≤ current)

def complete : ActionSlot :=
  { slot with
    action :=
      if slot.action.control &&& 0x10 ≠ 0 then { slot.action with control := slot.action.control &&& ~~~0x80 }
      else { slot.action with triggerSeconds := slot.action.triggerSeconds + 86400 }
    fired := true }

def advance (current : Nat) : ActionSlot := if slot.due current then slot.complete else slot

/-- An action that waits for its trigger to execute a command. -/
structure Armed : Prop where
  listed : slot.listed = true
  enabled : (slot.action.control &&& 0x80 != 0) = true
  waits : slot.fired = false
  executes : slot.executes = true

/-- The trigger instants up to the time. -/
def instants (current : Nat) : Nat :=
  if current < slot.action.triggerSeconds then 0
  else if slot.oneShot then 1
  else (current - slot.action.triggerSeconds) / 86400 + 1

def execution (current : Nat) : Nat := if slot.due current && slot.executes then 1 else 0

/-- How often the command is executed at these times. -/
def executions (slot : ActionSlot) : List Nat → Nat
  | [] => 0
  | current :: times => slot.execution current + (slot.advance current).executions times

theorem due_of_fired {slot : ActionSlot} (fired : slot.fired = true) (current : Nat) : slot.due current = false := by
  unfold due
  rw [fired]
  simp

theorem executions_of_fired {slot : ActionSlot} (fired : slot.fired = true) (times : List Nat) :
    slot.executions times = 0 := by
  induction times with
  | nil => rfl
  | cons current times ih =>
    have idle := due_of_fired fired current
    unfold executions execution advance
    rw [idle]
    simpa using ih

theorem Armed.due {slot : ActionSlot} (armed : slot.Armed) (current : Nat) :
    slot.due current = decide (slot.action.triggerSeconds ≤ current) := by
  unfold ActionSlot.due
  rw [armed.listed, armed.enabled, armed.waits]
  simp

/-- An armed action executes its command at the first time that reaches the trigger, and never again. -/
theorem Armed.executions {slot : ActionSlot} (armed : slot.Armed) (times : List Nat) :
    slot.executions times = if ∃ current ∈ times, slot.action.triggerSeconds ≤ current then 1 else 0 := by
  induction times with
  | nil => simp [ActionSlot.executions]
  | cons current times ih =>
    unfold ActionSlot.executions execution advance
    rw [armed.due, armed.executes]
    by_cases reached : slot.action.triggerSeconds ≤ current
    · have later : slot.complete.executions times = 0 := executions_of_fired rfl times
      simp [reached, later]
    · simp [reached, ih]

/-- The trigger instants are all met by one execution when there is at most one of them. -/
theorem instants_eq (current : Nat) :
    (if slot.action.triggerSeconds ≤ current then 1 else 0) = slot.instants current ↔
      slot.oneShot = true ∨ current < slot.action.triggerSeconds + 86400 := by
  unfold instants
  by_cases early : current < slot.action.triggerSeconds
  · rw [if_neg (by omega), if_pos early]
    exact iff_of_true rfl (.inr (by omega))
  · rw [if_pos (by omega), if_neg early]
    cases slot.oneShot with
    | true => simp
    | false =>
      simp only [Bool.false_eq_true, if_false, false_or]
      omega

end ActionSlot

namespace HartEngine

/-- Whether the action executes its command when `runDueActions` comes to it. -/
def actionExecutions (ref : DeviceRef) (current i : Nat) (engine : HartEngine ρ σ) : Nat :=
  match engine.deref ref with
  | .ok device => if device.actionDue i current && device.actionExecutes i then 1 else 0
  | .error _ => 0

/-- The executions of the action `i` of the device at `index` while `advanceDevice` has its turn. -/
def turnExecutions (host : Host ρ σ) (index i previous current : Nat) (engine : HartEngine ρ σ) (ref : DeviceRef) :
    Nat :=
  if ref.index ≠ index then 0
  else
    match engine.deref ref >>= fun device => engine.store ref (device.advanceTrends previous current) with
    | .ok sampled =>
      tally (runDueAction host ref current) (fun acted j => if j = i then acted.actionExecutions ref current i else 0)
        sampled (List.range 4)
    | .error _ => 0

/-- The executions during one call of `setVirtualTimeSeconds`. -/
def callExecutions (host : Host ρ σ) (index i : Nat) (engine : HartEngine ρ σ) (seconds : Nat) : Nat :=
  let previous := engine.virtualTimeSeconds
  let engine := { engine with virtualTimeSeconds := seconds }
  if previous ≤ seconds then
    tally (advanceDevice host previous seconds) (turnExecutions host index i previous seconds) engine engine.references
  else 0

/-- The executions during calls of `setVirtualTimeSeconds` with these times. -/
def executions (host : Host ρ σ) (index i : Nat) (engine : HartEngine ρ σ) (times : List Nat) : Nat :=
  tally (setVirtualTimeSeconds host) (callExecutions host index i) engine times

end HartEngine

/-! ### The table of actions -/

namespace RuntimeDevice

theorem actionSlot_due (device : RuntimeDevice ρ) (i current : Nat) :
    (device.actionSlot i).due current = device.actionDue i current := rfl

theorem actionSlot_completeAction {i : Nat} (listed : i < 4) (device : RuntimeDevice ρ) :
    (device.completeAction i).actionSlot i = (device.actionSlot i).complete := by
  unfold actionSlot completeAction ActionSlot.complete
  simp only [getD_setIfInBounds, listed, and_self, if_true]

theorem actionSlot_completeAction_other {i j : Nat} (other : j ≠ i) (device : RuntimeDevice ρ) :
    (device.completeAction j).actionSlot i = device.actionSlot i := by
  unfold actionSlot completeAction
  simp only [getD_setIfInBounds, other, false_and, if_false]

theorem sampleTrend_rings (device : RuntimeDevice ρ) (trendIndex timestamp : Nat) :
    ∃ samples counts nexts, device.sampleTrend trendIndex timestamp =
      { device with trendSamples := samples, trendSampleCounts := counts, trendSampleNext := nexts } := by
  unfold sampleTrend
  dsimp only
  split
  · exact ⟨device.trendSamples, device.trendSampleCounts, device.trendSampleNext, rfl⟩
  · exact ⟨_, _, _, rfl⟩

theorem actionSlot_sampleTrend (i : Nat) (device : RuntimeDevice ρ) (trendIndex timestamp : Nat) :
    (device.sampleTrend trendIndex timestamp).actionSlot i = device.actionSlot i := by
  obtain ⟨samples, counts, nexts, same⟩ := sampleTrend_rings device trendIndex timestamp
  rw [same]
  rfl

theorem actionSlot_sampleDue (i trendIndex current guard : Nat) (device : RuntimeDevice ρ) :
    (sampleDue trendIndex current guard device).actionSlot i = device.actionSlot i := by
  induction guard generalizing device with
  | zero => rfl
  | succ guard ih =>
    unfold sampleDue
    dsimp only
    split
    · rfl
    · exact (ih _).trans (actionSlot_sampleTrend i device trendIndex _)

theorem actionSlot_advanceTrend (i previous current : Nat) (device : RuntimeDevice ρ) (trendIndex : Nat) :
    (advanceTrend previous current device trendIndex).actionSlot i = device.actionSlot i := by
  unfold advanceTrend
  dsimp only
  split
  · rfl
  · rw [actionSlot_sampleDue]
    split <;> rfl

theorem actionSlot_advanceTrends (i : Nat) (device : RuntimeDevice ρ) (previous current : Nat) :
    (device.advanceTrends previous current).actionSlot i = device.actionSlot i := by
  refine List.foldlRecOn (motive := fun advanced : RuntimeDevice ρ => advanced.actionSlot i = device.actionSlot i) _ _ rfl ?_
  exact fun before same trendIndex _ => (actionSlot_advanceTrend i previous current before trendIndex).trans same

theorem actionSlot_untimed (i : Nat) (before after : RuntimeDevice ρ) (untimed : Untimed before after) :
    after.actionSlot i = before.actionSlot i := by
  unfold actionSlot
  rw [untimed.actionCount, untimed.synchronousActions, untimed.commandActions, untimed.actionFired]

theorem actionSlot_free (i index : Nat) :
    BurstFree (Same (watched (actionSlot i) index : HartEngine ρ σ → Option ActionSlot)) :=
  burstFree_watched fun _ _ _ _ => rfl

end RuntimeDevice

section Runs

variable {host : Host ρ σ} {index i : Nat} {engine after : HartEngine ρ σ} {slot : ActionSlot}

theorem runDueAction_slot {ref : DeviceRef} {current : Nat} {start : HartEngine ρ σ} (listed : i < 4)
    (visited : Visits (runDueAction host ref current) (List.range 4) start i engine)
    (calls : ∀ engine' call, ActionIssues host ref current start engine' call →
      Leaves host (Same (watched (RuntimeDevice.actionSlot i) ref.index)) engine' call)
    (here : engine.watched (RuntimeDevice.actionSlot i) ref.index = some slot)
    (ran : runDueAction host ref current engine i = .ok after) :
    after.watched (RuntimeDevice.actionSlot i) ref.index = some (slot.advance current) ∧
      engine.actionExecutions ref current i = slot.execution current := by
  unfold runDueAction at ran
  obtain ⟨device, read, ran⟩ := bind_ok ran
  have same : device.actionSlot i = slot := Option.some.inj ((watched_deref read).symm.trans here)
  constructor
  · unfold ActionSlot.advance
    split at ran
    · rename_i idle
      cases ran
      rw [← same, device.actionSlot_due, if_neg idle, same, here]
    · rename_i due
      obtain ⟨acted, performed, ran⟩ := bind_ok ran
      obtain ⟨device', read', ran⟩ := bind_ok ran
      have kept := performAction_keeps (Same.chains _) visited read (not_not.mp due) calls performed
      have same' : device'.actionSlot i = slot :=
        Option.some.inj ((watched_deref read').symm.trans (Eq.trans kept here))
      rw [watched_store_self read' ran, RuntimeDevice.actionSlot_completeAction listed, same', ← same,
        device.actionSlot_due, if_pos (not_not.mp due)]
  · unfold actionExecutions ActionSlot.execution
    rw [read, ← same]
    rfl

/-- The turn of the device: its actions come one after another, the others unseen. -/
theorem advanceDevice_slot {ref : DeviceRef} {previous current : Nat} (listed : i < 4)
    (calls : ∀ engine' call, DeviceIssues host previous current engine ref engine' call →
      Leaves host (Same (watched (RuntimeDevice.actionSlot i) ref.index)) engine' call)
    (here : engine.watched (RuntimeDevice.actionSlot i) ref.index = some slot)
    (ran : advanceDevice host previous current engine ref = .ok after) :
    after.watched (RuntimeDevice.actionSlot i) ref.index = some (slot.advance current) ∧
      engine.turnExecutions host ref.index i previous current ref = slot.execution current := by
  unfold advanceDevice at ran
  obtain ⟨device, read, ran⟩ := bind_ok ran
  obtain ⟨sampled, stored, ran⟩ := bind_ok ran
  obtain ⟨acted, acts, ran⟩ := bind_ok ran
  have begun : sampled.watched (RuntimeDevice.actionSlot i) ref.index = some slot :=
    (writes_watched (fun _ => device.actionSlot_advanceTrends i previous current) _ _ read stored).trans here
  have issues : ∀ engine' call, ActionIssues host ref current sampled engine' call →
      Leaves host (Same (watched (RuntimeDevice.actionSlot i) ref.index)) engine' call :=
    fun engine' call issues => calls engine' call (.action read stored issues)
  have others : ∀ j before after, j ≠ i → Visits (runDueAction host ref current) (List.range 4) sampled j before →
      runDueAction host ref current before j = .ok after →
      after.watched (RuntimeDevice.actionSlot i) ref.index = before.watched (RuntimeDevice.actionSlot i) ref.index :=
    fun j before after other visited step => runDueAction_keeps (Same.chains _)
      (fun device => writes_watched fun _ => device.actionSlot_completeAction_other other) visited issues step
  obtain ⟨before, next, visited, step, kept, ends, counted⟩ :=
    foldlM_once List.nodup_range (List.mem_range.mpr listed) acts others
  obtain ⟨advanced, execution⟩ := runDueAction_slot listed visited issues (kept.trans begun) step
  constructor
  · have bursts := runDueBursts_keeps (Same.chains _) (RuntimeDevice.actionSlot_free i ref.index)
      (fun engine' call issues => calls engine' call (.burst read stored acts issues)) ran
    exact Eq.trans bursts (ends.trans advanced)
  · unfold turnExecutions
    rw [if_neg (not_not.mpr rfl), read]
    show (match engine.store ref (device.advanceTrends previous current) with
      | .ok sampled => tally (runDueAction host ref current)
          (fun acted j => if j = i then acted.actionExecutions ref current i else 0) sampled (List.range 4)
      | .error _ => 0) = _
    rw [stored]
    dsimp only
    rw [counted _ fun j _ acc other => if_neg other, if_pos rfl, execution]

/-- One call advances the action and counts its execution. -/
theorem setVirtualTimeSeconds_slot {seconds : Nat} (listed : i < 4) (forward : engine.virtualTimeSeconds ≤ seconds)
    (calls : ∀ engine' call, Issued host engine (.setVirtualTimeSeconds seconds) engine' call →
      Leaves host (Same (watched (RuntimeDevice.actionSlot i) index)) engine' call)
    (here : engine.watched (RuntimeDevice.actionSlot i) index = some slot)
    (ran : engine.setVirtualTimeSeconds host seconds = .ok after) :
    after.watched (RuntimeDevice.actionSlot i) index = some (slot.advance seconds) ∧
      engine.callExecutions host index i seconds = slot.execution seconds := by
  unfold setVirtualTimeSeconds at ran
  dsimp only at ran
  rw [if_pos forward] at ran
  have inside : index < ({ engine with virtualTimeSeconds := seconds } : HartEngine ρ σ).devices.length := by
    obtain ⟨device, found, _⟩ := Option.map_eq_some_iff.mp here
    exact (List.getElem?_eq_some_iff.mp found).1
  have issues : ∀ engine' call, AdvanceIssues host engine.virtualTimeSeconds seconds
      { engine with virtualTimeSeconds := seconds } engine' call →
      Leaves host (Same (watched (RuntimeDevice.actionSlot i) index)) engine' call :=
    fun engine' call issues => calls engine' call (.setVirtualTimeSeconds forward issues)
  obtain ⟨before, next, visited, step, kept, ends, counted⟩ :=
    advanceVirtualState_watched (RuntimeDevice.actionSlot_free i index) inside issues ran
  obtain ⟨advanced, execution⟩ := advanceDevice_slot listed
    (fun engine' call issued => issues engine' call ⟨_, before, visited, issued⟩) (kept.trans here) step
  refine ⟨ends.trans advanced, ?_⟩
  unfold callExecutions
  dsimp only
  rw [if_pos forward, counted _ fun ref acc other => ?_]
  · exact execution
  · unfold turnExecutions
    rw [if_pos other]

/-- The executions in a run are those of the one action. -/
theorem executions_slot {times : List Nat} (listed : i < 4)
    (here : engine.watched (RuntimeDevice.actionSlot i) index = some slot)
    (forward : (engine.virtualTimeSeconds :: times).Pairwise (· ≤ ·))
    (undisturbed : Undisturbed host (Same (watched (RuntimeDevice.actionSlot i) index)) engine times)
    (ran : times.foldlM (setVirtualTimeSeconds host) engine = .ok after) :
    engine.executions host index i times = slot.executions times := by
  induction times generalizing engine slot with
  | nil => rfl
  | cons seconds times ih =>
    rw [List.foldlM_cons] at ran
    obtain ⟨next, step, ran⟩ := bind_ok ran
    obtain ⟨first, later⟩ := List.pairwise_cons.mp forward
    obtain ⟨advanced, execution⟩ := setVirtualTimeSeconds_slot listed (first seconds List.mem_cons_self)
      undisturbed.head here step
    have rest := ih advanced (by rwa [setVirtualTimeSeconds_time step]) (undisturbed.tail step) ran
    unfold HartEngine.executions
    rw [tally, step, execution]
    exact congrArg (slot.execution seconds + ·) rest

/-- An armed action that nothing else writes has executed its command once for each of its trigger instants the time
reached if and only if it is a one-shot action or the time is before its second instant. -/
theorem actions_on_schedule {times : List Nat} {current : Nat} (listed : i < 4)
    (here : engine.watched (RuntimeDevice.actionSlot i) index = some slot) (armed : slot.Armed)
    (forward : (engine.virtualTimeSeconds :: (times ++ [current])).Pairwise (· ≤ ·))
    (undisturbed : Undisturbed host (Same (watched (RuntimeDevice.actionSlot i) index)) engine (times ++ [current]))
    (ran : (times ++ [current]).foldlM (setVirtualTimeSeconds host) engine = .ok after) :
    engine.executions host index i (times ++ [current]) = slot.instants current ↔
      slot.oneShot = true ∨ current < slot.action.triggerSeconds + 86400 := by
  rw [executions_slot listed here forward undisturbed ran, armed.executions]
  have last : (∃ time ∈ times ++ [current], slot.action.triggerSeconds ≤ time) ↔
      slot.action.triggerSeconds ≤ current := by
    constructor
    · rintro ⟨time, member, reached⟩
      rcases List.mem_append.mp member with earlier | now
      · have order := (List.pairwise_append.mp (List.pairwise_cons.mp forward).2).2.2
        exact Nat.le_trans reached (order time earlier current (List.mem_singleton.mpr rfl))
      · exact List.mem_singleton.mp now ▸ reached
    · exact fun reached => ⟨current, by simp, reached⟩
  simp only [last]
  exact slot.instants_eq current

end Runs

/-- The first action of the device, with an undeclared command. -/
def sampleSlot (control : UInt8) (trigger : Nat) : ActionSlot where
  listed := true
  action := { control := control, triggerSeconds := trigger }
  command := {}
  fired := false

def sampleEngine (control : UInt8) (trigger : Nat) : HartEngine Unit Unit where
  devices := [{
    profile := { id := "profile" }
    plan := {
      id := "device", profileId := "profile", actionCount := 1, rest := ()
      synchronousActions := (Vector.replicate 4 {}).setIfInBounds 0 (sampleSlot control trigger).action } }]
  handlers := ()

def sampleHost : Host Unit Unit where
  profiles _ := none
  handler _ := none
  programHook := none

/-- A one-shot action that the second call reaches. -/
theorem actions_on_schedule_one_shot :
    ((sampleEngine 0x91 10).executions sampleHost 0 0 ([4] ++ [100000]) = (sampleSlot 0x91 10).instants 100000 ↔
      (sampleSlot 0x91 10).oneShot = true ∨ 100000 < 10 + 86400) ∧
    (sampleSlot 0x91 10).instants 100000 = 1 := by
  have ran : ∃ after, ([4] ++ [100000]).foldlM (setVirtualTimeSeconds sampleHost) (sampleEngine 0x91 10) = .ok after :=
    ⟨_, rfl⟩
  obtain ⟨after, ran⟩ := ran
  have undisturbed : Undisturbed sampleHost (Same (watched (RuntimeDevice.actionSlot 0) 0)) (sampleEngine 0x91 10)
      ([4] ++ [100000]) :=
    undisturbed_without_programs rfl (RuntimeDevice.actionSlot_untimed 0) 0 _ _
  have here : (sampleEngine 0x91 10).watched (RuntimeDevice.actionSlot 0) 0 = some (sampleSlot 0x91 10) := rfl
  exact ⟨actions_on_schedule (by decide) here ⟨rfl, rfl, rfl, rfl⟩ (by decide) undisturbed ran, rfl⟩

/-- A recurring action is carried out on the first day only. -/
theorem actions_stop_recurring : (sampleSlot 0x81 10).Armed ∧ (sampleSlot 0x81 10).oneShot = false ∧
    (sampleEngine 0x81 10).watched (RuntimeDevice.actionSlot 0) 0 = some (sampleSlot 0x81 10) ∧
    (∃ after, [10, 86410].foldlM (setVirtualTimeSeconds sampleHost) (sampleEngine 0x81 10) = .ok after) ∧
    (sampleSlot 0x81 10).instants 86410 = 2 ∧ (sampleEngine 0x81 10).executions sampleHost 0 0 [10, 86410] = 1 :=
  ⟨⟨rfl, rfl, rfl, rfl⟩, rfl, rfl, ⟨_, rfl⟩, rfl, rfl⟩

end LasecSimul.Hart
