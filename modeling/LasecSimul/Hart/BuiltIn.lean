import LasecSimul.Hart.Operations

/-!
# What an engine keeps while the time advances

A relation between the engines before and after that all writes of bursts and all executed commands keep is
kept by the turn of a device, as long as its trends and actions keep it too. What is watched of one device
stays the same in the turns of all others.
-/

namespace LasecSimul.Hart

open Lib.Fallible HartEngine

variable {ρ σ γ : Type}

/-- A relation that any number of steps keep when each does. -/
structure Chains (K : HartEngine ρ σ → HartEngine ρ σ → Prop) : Prop where
  refl : ∀ engine, K engine engine
  trans : ∀ {a b c}, K a b → K b c → K a c

/-- The same is seen of both engines. -/
def Same (view : HartEngine ρ σ → γ) (before after : HartEngine ρ σ) : Prop := view after = view before

theorem Same.chains (view : HartEngine ρ σ → γ) : Chains (Same view) where
  refl _ := rfl
  trans first second := Eq.trans second first

/-- The call keeps `K`. -/
def Leaves (host : Host ρ σ) (K : HartEngine ρ σ → HartEngine ρ σ → Prop) (engine : HartEngine ρ σ) (call : Call) :
    Prop :=
  ∀ response outcome, execute host engine call response = .ok outcome → K engine outcome.engine

/-- Every command that `setVirtualTimeSeconds` executes at one of the times keeps `K`. -/
def Undisturbed (host : Host ρ σ) (K : HartEngine ρ σ → HartEngine ρ σ → Prop) (engine : HartEngine ρ σ)
    (times : List Nat) : Prop :=
  ∀ seconds before, Visits (setVirtualTimeSeconds host) times engine seconds before →
    ∀ engine' call, Issued host before (.setVirtualTimeSeconds seconds) engine' call → Leaves host K engine' call

theorem Undisturbed.head {host : Host ρ σ} {K : HartEngine ρ σ → HartEngine ρ σ → Prop} {seconds : Nat}
    {engine : HartEngine ρ σ} {times : List Nat} (undisturbed : Undisturbed host K engine (seconds :: times))
    (engine' : HartEngine ρ σ) (call : Call) (issued : Issued host engine (.setVirtualTimeSeconds seconds) engine' call) :
    Leaves host K engine' call :=
  undisturbed seconds engine ⟨[], times, rfl, rfl⟩ engine' call issued

theorem Undisturbed.tail {host : Host ρ σ} {K : HartEngine ρ σ → HartEngine ρ σ → Prop} {seconds : Nat}
    {engine next : HartEngine ρ σ} {times : List Nat} (undisturbed : Undisturbed host K engine (seconds :: times))
    (step : engine.setVirtualTimeSeconds host seconds = .ok next) : Undisturbed host K next times := by
  rintro later before ⟨done, rest, rfl, earlier⟩
  refine undisturbed later before ⟨seconds :: done, rest, rfl, ?_⟩
  rw [List.foldlM_cons, step]
  exact earlier

section References

variable {engine after : HartEngine ρ σ} {ref : DeviceRef} {device device' : RuntimeDevice ρ}

theorem deref_here (read : engine.deref ref = .ok device) : engine.devices[ref.index]? = some device := by
  unfold deref at read
  split at read
  · cases read
  · split at read
    · rename_i here
      cases read
      exact here
    · cases read

theorem store_ok (stored : engine.store ref device' = .ok after) :
    after = { engine with devices := engine.devices.set ref.index device' } := by
  unfold store at stored
  split at stored
  · cases stored
  · exact (Except.ok.inj stored).symm

end References

section Turns

variable {host : Host ρ σ} {K : HartEngine ρ σ → HartEngine ρ σ → Prop} {engine after : HartEngine ρ σ}
  {ref : DeviceRef}

/-- Writing the one device for the other keeps `K`. -/
def Writes (K : HartEngine ρ σ → HartEngine ρ σ → Prop) (ref : DeviceRef) (device device' : RuntimeDevice ρ) : Prop :=
  ∀ engine after, engine.deref ref = .ok device → engine.store ref device' = .ok after → K engine after

/-- What is written of bursts keeps `K`. -/
def BurstFree (K : HartEngine ρ σ → HartEngine ρ σ → Prop) : Prop :=
  ∀ ref device times events lasts,
    Writes K ref device
      { device with burstNextSampleTime := times, burstEvents := events, burstLastValues := lasts }

theorem startBurst_writes (free : BurstFree K) (device : RuntimeDevice ρ) (message previous : Nat) :
    Writes K ref device (device.startBurst message previous) := by
  unfold RuntimeDevice.startBurst
  split
  · exact free ref device _ _ _
  · exact free ref device device.burstNextSampleTime device.burstEvents device.burstLastValues

variable (chains : Chains K)

include chains

theorem emitBurst_keeps (free : BurstFree K) {message maximumPeriod : Nat} {device : RuntimeDevice ρ}
    (read : engine.deref ref = .ok device)
    (calls : ∀ source sender, engine.burstSender ref (device.burst message) = some source →
      engine.deref source = .ok sender → Leaves host K engine (sender.burstCall (device.burst message).command))
    (ran : engine.emitBurst host ref message maximumPeriod = .ok after) : K engine after := by
  unfold emitBurst at ran
  obtain ⟨device', again, ran⟩ := bind_ok ran
  cases read.symm.trans again
  dsimp only at ran
  split at ran
  · exact free ref device _ _ _ _ _ read ran
  · rename_i source found
    obtain ⟨sender, sends, ran⟩ := bind_ok ran
    obtain ⟨outcome, executed, ran⟩ := bind_ok ran
    obtain ⟨sender', _, ran⟩ := bind_ok ran
    obtain ⟨device', read', ran⟩ := bind_ok ran
    exact chains.trans (calls source sender found sends _ _ executed) (free ref device' _ _ _ _ _ read' ran)

theorem runBurst_keeps (free : BurstFree K) {message maximumPeriod current guard : Nat}
    (calls : ∀ engine' call, BurstIssues host ref message maximumPeriod current guard engine engine' call →
      Leaves host K engine' call)
    (ran : engine.runBurst host ref message maximumPeriod current guard = .ok after) : K engine after := by
  induction guard generalizing engine with
  | zero =>
    cases ran
    exact chains.refl _
  | succ guard ih =>
    unfold runBurst at ran
    obtain ⟨device, read, ran⟩ := bind_ok ran
    split at ran
    · cases ran
      exact chains.refl _
    · rename_i due
      obtain ⟨next, emitted, ran⟩ := bind_ok ran
      refine chains.trans ?_
        (ih (fun engine' call issues => calls engine' call (.later read due emitted issues)) ran)
      exact emitBurst_keeps chains free read (fun _ _ found sends => calls engine _ (.now read due found sends)) emitted

theorem runDueBursts_keeps (free : BurstFree K) {previous current : Nat}
    (calls : ∀ engine' call, DueBurstIssues host ref previous current engine engine' call →
      Leaves host K engine' call)
    (ran : engine.runDueBursts host ref previous current = .ok after) : K engine after := by
  have kept : Post True (engine.runDueBursts host ref previous current) (K engine) := by
    refine Post.foldlM (chains.refl engine) fun message before visited kept => Post.of_ok fun next step => ?_
    unfold runDueBurst at step
    obtain ⟨device, read, step⟩ := bind_ok step
    split at step
    · cases step
      exact kept
    · rename_i active
      obtain ⟨started, stored, step⟩ := bind_ok step
      refine chains.trans (chains.trans kept (startBurst_writes free device message previous _ _ read stored)) ?_
      exact runBurst_keeps chains free (fun engine' call issues => calls engine' call
        ⟨message, before, device, started, visited, read, Bool.eq_false_iff.mpr active, stored, issues⟩) step
  exact kept.elim ran

theorem performAction_keeps {current i : Nat} {device : RuntimeDevice ρ} {start : HartEngine ρ σ}
    (visited : Visits (runDueAction host ref current) (List.range 4) start i engine)
    (read : engine.deref ref = .ok device) (due : device.actionDue i current = true)
    (calls : ∀ engine' call, ActionIssues host ref current start engine' call → Leaves host K engine' call)
    (ran : engine.performAction host device i = .ok after) : K engine after := by
  unfold performAction at ran
  split at ran
  · rename_i executes
    cases executed : execute host engine (device.actionCall i) { capacity := 255 } with
    | error =>
      rw [executed] at ran
      cases ran
    | ok outcome =>
      rw [executed] at ran
      cases ran
      exact calls _ _ ⟨i, device, visited, read, due, executes, rfl⟩ _ _ executed
  · cases ran
    exact chains.refl _

theorem runDueAction_keeps {current i : Nat} {start : HartEngine ρ σ}
    (completes : ∀ device : RuntimeDevice ρ, Writes K ref device (device.completeAction i))
    (visited : Visits (runDueAction host ref current) (List.range 4) start i engine)
    (calls : ∀ engine' call, ActionIssues host ref current start engine' call → Leaves host K engine' call)
    (ran : runDueAction host ref current engine i = .ok after) : K engine after := by
  unfold runDueAction at ran
  obtain ⟨device, read, ran⟩ := bind_ok ran
  split at ran
  · cases ran
    exact chains.refl _
  · rename_i due
    obtain ⟨acted, performed, ran⟩ := bind_ok ran
    obtain ⟨device', read', ran⟩ := bind_ok ran
    exact chains.trans (performAction_keeps chains visited read (not_not.mp due) calls performed)
      (completes device' _ _ read' ran)

theorem runDueActions_keeps {current : Nat}
    (completes : ∀ i, ∀ device : RuntimeDevice ρ, Writes K ref device (device.completeAction i))
    (calls : ∀ engine' call, ActionIssues host ref current engine engine' call → Leaves host K engine' call)
    (ran : engine.runDueActions host ref current = .ok after) : K engine after := by
  have kept : Post True (engine.runDueActions host ref current) (K engine) := by
    refine Post.foldlM (chains.refl engine) fun i before visited kept => Post.of_ok fun next step => ?_
    exact chains.trans kept (runDueAction_keeps chains (completes i) visited calls step)
  exact kept.elim ran

theorem advanceDevice_keeps {previous current : Nat} (free : BurstFree K)
    (samples : ∀ device : RuntimeDevice ρ, Writes K ref device (device.advanceTrends previous current))
    (completes : ∀ i, ∀ device : RuntimeDevice ρ, Writes K ref device (device.completeAction i))
    (calls : ∀ engine' call, DeviceIssues host previous current engine ref engine' call → Leaves host K engine' call)
    (ran : advanceDevice host previous current engine ref = .ok after) : K engine after := by
  unfold advanceDevice at ran
  obtain ⟨device, read, ran⟩ := bind_ok ran
  obtain ⟨sampled, stored, ran⟩ := bind_ok ran
  obtain ⟨acted, acts, ran⟩ := bind_ok ran
  have actions := runDueActions_keeps chains completes
    (fun engine' call issues => calls engine' call (.action read stored issues)) acts
  have bursts := runDueBursts_keeps chains free
    (fun engine' call issues => calls engine' call (.burst read stored acts issues)) ran
  exact chains.trans (chains.trans (samples device _ _ read stored) actions) bursts

theorem advanceVirtualState_keeps {previous current : Nat} (free : BurstFree K)
    (samples : ∀ ref, ∀ device : RuntimeDevice ρ, Writes K ref device (device.advanceTrends previous current))
    (completes : ∀ ref i, ∀ device : RuntimeDevice ρ, Writes K ref device (device.completeAction i))
    (calls : ∀ engine' call, AdvanceIssues host previous current engine engine' call → Leaves host K engine' call)
    (ran : engine.advanceVirtualState host previous current = .ok after) : K engine after := by
  have kept : Post True (engine.advanceVirtualState host previous current) (K engine) := by
    refine Post.foldlM (chains.refl engine) fun ref before visited kept => Post.of_ok fun next step => ?_
    exact chains.trans kept <| advanceDevice_keeps chains free (samples ref) (completes ref)
      (fun engine' call issues => calls engine' call ⟨ref, before, visited, issues⟩) step
  exact kept.elim ran

end Turns

section Clock

variable {host : Host ρ σ} {engine after : HartEngine ρ σ}

theorem execute_virtualTimeSeconds {call : Call} {response : HartResponseBuilder} {outcome : Outcome ρ σ}
    (ran : execute host engine call response = .ok outcome) :
    outcome.engine.virtualTimeSeconds = engine.virtualTimeSeconds := by
  induction size : call.request.length using Nat.strongRecOn generalizing engine call response outcome with
  | _ n ih =>
    subst size
    rcases execute_cases ran with ⟨_, rfl⟩ | ⟨i, device, _, _, did⟩
    · rfl
    cases did with
    | answered | custom | refused | aggregated | overflowed | programmed => rfl
    | unanswered _ routes inner =>
      have kept := ih _ (RuntimeDevice.route_length routes) inner rfl
      exact kept
    | forwarded _ routes inner =>
      have kept := ih _ (RuntimeDevice.route_length routes) inner rfl
      exact kept

theorem writes_clock (ref : DeviceRef) (device device' : RuntimeDevice ρ) :
    Writes (Same (virtualTimeSeconds : HartEngine ρ σ → Nat)) ref device device' := by
  intro engine after _ stored
  rw [store_ok stored]
  rfl

theorem setVirtualTimeSeconds_time {seconds : Nat} (ran : engine.setVirtualTimeSeconds host seconds = .ok after) :
    after.virtualTimeSeconds = seconds := by
  unfold setVirtualTimeSeconds at ran
  dsimp only at ran
  split at ran
  · exact advanceVirtualState_keeps (Same.chains virtualTimeSeconds) (fun ref device _ _ _ => writes_clock ref device _)
      (fun ref device => writes_clock ref device _) (fun ref _ device => writes_clock ref device _)
      (fun _ _ _ _ _ executed => execute_virtualTimeSeconds executed) ran
  · cases ran
    rfl

end Clock

/-! ### One device -/

section Watched

variable {host : Host ρ σ} {watch : RuntimeDevice ρ → γ} {index : Nat} {engine after : HartEngine ρ σ}
  {ref : DeviceRef} {device device' : RuntimeDevice ρ}

/-- What is watched of the device at the index. -/
def HartEngine.watched (watch : RuntimeDevice ρ → γ) (index : Nat) (engine : HartEngine ρ σ) : Option γ :=
  engine.devices[index]?.map watch

theorem watched_deref (read : engine.deref ref = .ok device) :
    engine.watched watch ref.index = some (watch device) := by
  unfold watched
  rw [deref_here read]
  rfl

theorem watched_store_self (read : engine.deref ref = .ok device) (stored : engine.store ref device' = .ok after) :
    after.watched watch ref.index = some (watch device') := by
  rw [store_ok stored]
  unfold watched
  rw [List.getElem?_set_self (List.getElem?_eq_some_iff.mp (deref_here read)).1]
  rfl

theorem writes_watched (same : ref.index = index → watch device' = watch device) :
    Writes (Same (watched watch index : HartEngine ρ σ → Option γ)) ref device device' := by
  intro engine after read stored
  show after.watched watch index = engine.watched watch index
  by_cases here : ref.index = index
  · rw [← here, watched_store_self read stored, watched_deref read, same here]
  · rw [store_ok stored]
    unfold watched
    rw [List.getElem?_set_ne here]

theorem burstFree_watched
    (same : ∀ device times events lasts,
      watch { device with burstNextSampleTime := times, burstEvents := events, burstLastValues := lasts } = watch device) :
    BurstFree (Same (watched watch index : HartEngine ρ σ → Option γ)) :=
  fun _ device times events lasts => writes_watched fun _ => same device times events lasts

/-- The time advances by the turns of the devices, of which the watched device has one. -/
theorem advanceVirtualState_watched {previous current : Nat}
    (free : BurstFree (Same (watched watch index : HartEngine ρ σ → Option γ)))
    (inside : index < engine.devices.length)
    (calls : ∀ engine' call, AdvanceIssues host previous current engine engine' call →
      Leaves host (Same (watched watch index)) engine' call)
    (ran : engine.advanceVirtualState host previous current = .ok after) :
    ∃ before next, Visits (advanceDevice host previous current) engine.references engine ⟨engine.generation, index⟩
        before ∧
      advanceDevice host previous current before ⟨engine.generation, index⟩ = .ok next ∧
      before.watched watch index = engine.watched watch index ∧
      after.watched watch index = next.watched watch index ∧
      ∀ weight : HartEngine ρ σ → DeviceRef → Nat, (∀ ref acc, ref.index ≠ index → weight acc ref = 0) →
        tally (advanceDevice host previous current) weight engine engine.references =
          weight before ⟨engine.generation, index⟩ := by
  have once : engine.references.Nodup :=
    List.Pairwise.map _ (fun _ _ different same => different (DeviceRef.mk.inj same).2) List.nodup_range
  have member : (⟨engine.generation, index⟩ : DeviceRef) ∈ engine.references :=
    List.mem_map.mpr ⟨index, List.mem_range.mpr inside, rfl⟩
  have elsewhere : ∀ ref ∈ engine.references, ref ≠ ⟨engine.generation, index⟩ → ref.index ≠ index := by
    intro ref listed different same
    obtain ⟨i, -, rfl⟩ := List.mem_map.mp listed
    exact different (congrArg _ same)
  have others : ∀ ref before after, ref ≠ ⟨engine.generation, index⟩ →
      Visits (advanceDevice host previous current) engine.references engine ref before →
      advanceDevice host previous current before ref = .ok after →
      after.watched watch index = before.watched watch index := by
    intro ref before after different visited step
    have listed : ref ∈ engine.references := by
      obtain ⟨done, rest, split, _⟩ := visited
      rw [split]
      exact List.mem_append_right done List.mem_cons_self
    have other := elsewhere ref listed different
    exact advanceDevice_keeps (Same.chains _) free (fun _ => writes_watched fun here => absurd here other)
      (fun _ _ => writes_watched fun here => absurd here other)
      (fun engine' call issues => calls engine' call ⟨ref, before, visited, issues⟩) step
  obtain ⟨before, next, visited, step, kept, ends, counted⟩ := foldlM_once once member ran others
  refine ⟨before, next, visited, step, kept, ends, fun weight none => counted weight fun ref listed acc different => ?_⟩
  exact none ref acc (elsewhere ref listed different)

end Watched

theorem getD_setIfInBounds {α : Type} {n : Nat} (xs : Vector α n) (i j : Nat) (x d : α) :
    (xs.setIfInBounds i x).getD j d = if i = j ∧ j < n then x else xs.getD j d := by
  simp only [Vector.getD, Vector.toArray_setIfInBounds, Array.getD_eq_getD_getElem?, Array.getElem?_setIfInBounds,
    Vector.size_toArray]
  split
  · rename_i same
    subst same
    split
    · simp_all
    · rename_i out
      simp [out]
  · simp_all

theorem getD_replicate {α : Type} {n k : Nat} (small : k < n) (x d : α) : (Vector.replicate n x).getD k d = x := by
  unfold Vector.getD
  rw [Array.getD_eq_getD_getElem?]
  simp [small]

end LasecSimul.Hart

/-!
## What only command programs write

Trends, synchronous actions and variable values are written by command programs and by the advancing time.
Without command programs every executed command leaves them as they are.
-/

namespace LasecSimul.Hart

open Lib.Fallible HartEngine

variable {ρ σ γ : Type}

/-- Trends, synchronous actions and variable values are the same. -/
structure Untimed (before after : RuntimeDevice ρ) : Prop where
  actionCount : after.plan.actionCount = before.plan.actionCount
  synchronousActions : after.plan.synchronousActions = before.plan.synchronousActions
  commandActions : after.plan.commandActions = before.plan.commandActions
  actionFired : after.actionFired = before.actionFired
  trendCount : after.plan.trendCount = before.plan.trendCount
  trends : after.plan.trends = before.plan.trends
  trendSamples : after.trendSamples = before.trendSamples
  trendSampleCounts : after.trendSampleCounts = before.trendSampleCounts
  trendSampleNext : after.trendSampleNext = before.trendSampleNext
  trendNextSampleTime : after.trendNextSampleTime = before.trendNextSampleTime
  variableConfigurations : after.plan.variableConfigurations = before.plan.variableConfigurations
  primaryValue : after.plan.primaryValue = before.plan.primaryValue
  variableValues : after.variableValues = before.variableValues

namespace Untimed

theorem refl (device : RuntimeDevice ρ) : Untimed device device := by constructor <;> rfl

end Untimed

namespace RuntimeDevice

theorem begin_untimed (device : RuntimeDevice ρ) (call : Call) : Untimed device (device.begin call) := by
  unfold RuntimeDevice.begin prepare
  split <;> constructor <;> rfl

theorem countRouted_untimed (device : RuntimeDevice ρ) (route : Route) : Untimed device (device.countRouted route) := by
  constructor <;> rfl

theorem readTrend_untimed (device : RuntimeDevice ρ) (request : Bytes) (response : HartResponseBuilder) :
    Untimed device (device.readTrend request response).device := by
  unfold readTrend
  split
  · split
    · exact .refl device
    · dsimp only
      split
      · constructor <;> rfl
      · exact .refl device
  · exact .refl device

theorem answerEarly_untimed {device : RuntimeDevice ρ} {call : Call} {response : HartResponseBuilder}
    {answer : Answer ρ} (given : device.answerEarly call response = some answer) : Untimed device answer.device := by
  refine answerEarly_induct (P := fun answer => Untimed device answer.device) given (.refl device) (.refl device) ?_
    (readTrend_untimed device call.request response) ?_ ?_ fun _ _ => .refl device
  · constructor <;> rfl
  · unfold readClientCounters
    split <;> exact .refl device
  · unfold readDeviceCounters
    split <;> exact .refl device

theorem transferService_untimed (device : RuntimeDevice ρ) (request : Bytes) (response : HartResponseBuilder) :
    Untimed device (device.transferService request response).device := by
  unfold transferService
  split
  · split_ifs <;> constructor <;> rfl
  · exact .refl device

theorem transferSegment_untimed (device : RuntimeDevice ρ) (request : Bytes) (response : HartResponseBuilder) :
    Untimed device (device.transferSegment request response).device := by
  unfold transferSegment
  split
  · split_ifs <;> constructor <;> rfl
  · exact .refl device

theorem acknowledgeEvent_untimed (device : RuntimeDevice ρ) (request : Bytes) (response : HartResponseBuilder)
    (masterRole : UInt8) : Untimed device (device.acknowledgeEvent request response masterRole).device := by
  unfold acknowledgeEvent
  split
  · exact .refl device
  split
  · exact .refl device
  · dsimp only [Answer.reply]
    split <;> constructor <;> rfl

theorem withAssignments_untimed (device : RuntimeDevice ρ) (assignments : Vector HartSubDeviceAssignment 32)
    (count : UInt8) : Untimed device { device with plan := device.plan.withAssignments assignments count } := by
  constructor <;> rfl

theorem assign_untimed {devices : List (RuntimeDevice ρ)} {device : RuntimeDevice ρ}
    {request committed : HartSubDeviceAssignment} {plan : HartDevicePlan ρ}
    (assigned : assign devices device.plan request = some (plan, committed)) :
    Untimed device { device with plan := plan } := by
  unfold assign at assigned
  simp only [Option.ite_none_left_eq_some] at assigned
  obtain ⟨_, _, _, _, assigned⟩ := assigned
  split at assigned
  · split at assigned
    · cases assigned
    · cases assigned
      exact withAssignments_untimed device _ _
  · simp only [Option.ite_none_left_eq_some] at assigned
    obtain ⟨_, assigned⟩ := assigned
    cases assigned
    exact withAssignments_untimed device _ _

theorem assignmentCommand_untimed (devices : List (RuntimeDevice ρ)) (device : RuntimeDevice ρ)
    (command : HartCommandId) (request : Bytes) (response : HartResponseBuilder) :
    Untimed device (assignmentCommand devices device command request response).device := by
  unfold assignmentCommand
  dsimp only
  split
  · exact .refl device
  split
  · split <;> exact .refl device
  split
  · split
    · split
      · exact .refl device
      split
      · exact .refl device
      · exact withAssignments_untimed device _ _
    · exact .refl device
  split
  · exact .refl device
  split
  · split
    · exact .refl device
    · rename_i plan committed assigned
      obtain ⟨parsed, _, assigned⟩ := Option.bind_eq_some_iff.mp assigned
      exact assign_untimed assigned
  · split
    · split
      · exact .refl device
      split
      · exact .refl device
      · exact withAssignments_untimed device _ _
    · exact .refl device

/-- No answer writes trends, actions or variable values. -/
theorem Answers.untimed {devices : List (RuntimeDevice ρ)} {device : RuntimeDevice ρ} {call : Call}
    {response : HartResponseBuilder} {answer : Answer ρ} (given : device.Answers devices call response answer) :
    Untimed device answer.device := by
  cases given with
  | early given => exact answerEarly_untimed given
  | locked => exact .refl device
  | builtIn given =>
    refine answerBuiltIn_induct (P := fun answer => Untimed device answer.device) given (.refl device)
      (fun _ => transferService_untimed device call.request response)
      (fun _ => transferSegment_untimed device call.request response) ?_
      (acknowledgeEvent_untimed device call.request response call.masterRole)
      (fun _ => assignmentCommand_untimed devices device call.command call.request response) ?_ ?_ ?_
    · unfold readEventNotification
      split <;> exact .refl device
    · unfold readSubDeviceIdentity
      split
      · dsimp only
        split <;> exact .refl device
      · exact .refl device
    · unfold readChannelStatistics
      split
      · split <;> exact .refl device
      · exact .refl device
    · unfold readSubDeviceStatistics
      split
      · dsimp only
        split <;> exact .refl device
      · exact .refl device

end RuntimeDevice

/-- What trends, actions and variable values determine is left as it is by every command when there are no command
programs. -/
theorem leaves_without_programs {host : Host ρ σ} (unprogrammed : host.programHook = none)
    {watch : RuntimeDevice ρ → γ} (determined : ∀ before after, Untimed before after → watch after = watch before)
    (index : Nat) (engine : HartEngine ρ σ) (call : Call) : Leaves host (Same (watched watch index)) engine call := by
  intro response outcome ran
  have set : ∀ {devices : List (RuntimeDevice ρ)} {i : Nat} {device device' : RuntimeDevice ρ},
      devices[i]? = some device → Untimed device device' →
      ((devices.set i device')[index]?).map watch = (devices[index]?).map watch := by
    intro devices i device device' here untimed
    by_cases same : i = index
    · subst same
      rw [List.getElem?_set_self (List.getElem?_eq_some_iff.mp here).1, here, Option.map_some, Option.map_some,
        determined device device' untimed]
    · rw [List.getElem?_set_ne same]
  refine execute_keeps (I := fun devices => (devices[index]?).map watch = engine.watched watch index)
    (fun engine' call' _ => ?_) rfl ran
  constructor
  · exact fun _ here holds => (set here (RuntimeDevice.begin_untimed _ call')).trans holds
  · intro i device answer response _ here given holds
    have begun : (engine'.devices.set i (device.begin call'))[i]? = some (device.begin call') :=
      List.getElem?_set_self (List.getElem?_eq_some_iff.mp here).1
    have kept := (set begun given.untimed).trans holds
    rwa [List.set_set] at kept
  · intro i device programHook plan response response' _ _ hook
    rw [unprogrammed] at hook
    cases hook
  · exact fun _ here holds => (set here (RuntimeDevice.countRouted_untimed _ _)).trans holds

theorem undisturbed_without_programs {host : Host ρ σ} (unprogrammed : host.programHook = none)
    {watch : RuntimeDevice ρ → γ} (determined : ∀ before after, Untimed before after → watch after = watch before)
    (index : Nat) (engine : HartEngine ρ σ) (times : List Nat) :
    Undisturbed host (Same (watched watch index)) engine times :=
  fun _ _ _ engine' call _ => leaves_without_programs unprogrammed determined index engine' call

end LasecSimul.Hart
