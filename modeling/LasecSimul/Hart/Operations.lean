import LasecSimul.Hart.Steady

/-!
# What an operation does

The calls of `execute` an operation makes, with the engine each is made on, and the rule that a fact kept
by these calls, and untouched by what else an operation writes, is kept by the operation.
-/

namespace LasecSimul.Hart

open Lib.Fallible HartEngine

variable {ρ σ : Type}

/-- The calls of `runDueActions`. -/
def ActionIssues (host : Host ρ σ) (ref : DeviceRef) (current : Nat) (engine engine' : HartEngine ρ σ) (call : Call) :
    Prop :=
  ∃ i device, Visits (runDueAction host ref current) (List.range 4) engine i engine' ∧
    engine'.deref ref = .ok device ∧ device.actionDue i current = true ∧ device.actionExecutes i = true ∧
    call = device.actionCall i

/-- The calls of `runBurst`. -/
inductive BurstIssues (host : Host ρ σ) (ref : DeviceRef) (index maximumPeriod current : Nat) :
    Nat → HartEngine ρ σ → HartEngine ρ σ → Call → Prop
  | now {guard : Nat} {engine : HartEngine ρ σ} {device sender : RuntimeDevice ρ} {source : DeviceRef}
    (read : engine.deref ref = .ok device) (due : ¬current < device.burstTime index)
    (found : engine.burstSender ref (device.burst index) = some source) (sends : engine.deref source = .ok sender) :
    BurstIssues host ref index maximumPeriod current (guard + 1) engine engine
      (sender.burstCall (device.burst index).command)
  | later {guard : Nat} {engine engine' next : HartEngine ρ σ} {device : RuntimeDevice ρ} {call : Call}
    (read : engine.deref ref = .ok device) (due : ¬current < device.burstTime index)
    (emitted : engine.emitBurst host ref index maximumPeriod = .ok next)
    (issues : BurstIssues host ref index maximumPeriod current guard next engine' call) :
    BurstIssues host ref index maximumPeriod current (guard + 1) engine engine' call

/-- The calls of `runDueBursts`. -/
def DueBurstIssues (host : Host ρ σ) (ref : DeviceRef) (previous current : Nat) (engine engine' : HartEngine ρ σ)
    (call : Call) : Prop :=
  ∃ index before device started, Visits (runDueBurst host ref previous current) (List.range 3) engine index before ∧
    before.deref ref = .ok device ∧ device.burstIdle index = false ∧
    before.store ref (device.startBurst index previous) = .ok started ∧
    BurstIssues host ref index (device.maximumBurstPeriod index) current 64 started engine' call

/-- The calls of `advanceDevice`. -/
inductive DeviceIssues (host : Host ρ σ) (previous current : Nat) (engine : HartEngine ρ σ) (ref : DeviceRef)
    (engine' : HartEngine ρ σ) (call : Call) : Prop
  | action {device : RuntimeDevice ρ} {sampled : HartEngine ρ σ} (read : engine.deref ref = .ok device)
    (stored : engine.store ref (device.advanceTrends previous current) = .ok sampled)
    (issues : ActionIssues host ref current sampled engine' call)
  | burst {device : RuntimeDevice ρ} {sampled acted : HartEngine ρ σ} (read : engine.deref ref = .ok device)
    (stored : engine.store ref (device.advanceTrends previous current) = .ok sampled)
    (acts : sampled.runDueActions host ref current = .ok acted)
    (issues : DueBurstIssues host ref previous current acted engine' call)

/-- The calls of `advanceVirtualState`. -/
def AdvanceIssues (host : Host ρ σ) (previous current : Nat) (engine engine' : HartEngine ρ σ) (call : Call) : Prop :=
  ∃ ref before, Visits (advanceDevice host previous current) engine.references engine ref before ∧
    DeviceIssues host previous current before ref engine' call

/-- The operation, started on `engine`, calls `execute` on `engine'`. -/
inductive Issued (host : Host ρ σ) (engine : HartEngine ρ σ) : Operation ρ → HartEngine ρ σ → Call → Prop
  | execute {call : Call} {response : HartResponseBuilder} : Issued host engine (.execute call response) engine call
  | executeAddressed {bus : String} {address : HartFrameAddress} {command : HartCommandId} {request : Bytes}
    {response : HartResponseBuilder} {i : Nat} {device : RuntimeDevice ρ}
    (found : engine.lookupFrame bus address = some i) (here : engine.devices[i]? = some device)
    (takes : needsLongFrame device address command = false) :
    Issued host engine (.executeAddressed bus address command request response) engine
      (addressedCall device bus address command request)
  | setVirtualTimeSeconds {seconds : Nat} {engine' : HartEngine ρ σ} {call : Call}
    (advances : engine.virtualTimeSeconds ≤ seconds)
    (issues : AdvanceIssues host engine.virtualTimeSeconds seconds { engine with virtualTimeSeconds := seconds }
      engine' call) :
    Issued host engine (.setVirtualTimeSeconds seconds) engine' call

/-! ### Rules -/

/-- Kept by every write that leaves the device steady, and by the clock. -/
structure Stable (I : HartEngine ρ σ → Prop) : Prop where
  put : ∀ {engine i device device'}, engine.devices[i]? = some device → Steady device device' → I engine →
    I (engine.put i device')
  time : ∀ {engine} (seconds : Nat), I engine → I { engine with virtualTimeSeconds := seconds }

/-- The device table is neither replaced nor resized where `I` holds. -/
def Pinned (I : HartEngine ρ σ → Prop) : Prop :=
  ∃ generation count, ∀ engine, I engine → engine.generation = generation ∧ engine.devices.length = count

/-- A call of `execute` keeps `I`. -/
def CallKeeps (fails : Prop) (host : Host ρ σ) (I : HartEngine ρ σ → Prop) (engine : HartEngine ρ σ) (call : Call) :
    Prop :=
  I engine → ∀ response, Post fails (HartEngine.execute host engine call response) fun outcome => I outcome.engine

section Rules

variable {fails : Prop} {host : Host ρ σ} {I : HartEngine ρ σ → Prop} {ref : DeviceRef} {engine : HartEngine ρ σ}

/-- The reference was taken from an engine in which `I` held. -/
def Taken (I : HartEngine ρ σ → Prop) (ref : DeviceRef) : Prop :=
  ∃ engine, I engine ∧ ref.generation = engine.generation ∧ ref.index < engine.devices.length

theorem Pinned.current (pinned : Pinned I) (taken : Taken I ref) (holds : I engine) :
    ref.generation = engine.generation ∧ ref.index < engine.devices.length := by
  obtain ⟨generation, count, same⟩ := pinned
  obtain ⟨before, held, current, inside⟩ := taken
  obtain ⟨g₁, n₁⟩ := same before held
  obtain ⟨g₂, n₂⟩ := same engine holds
  exact ⟨current.trans (g₁.trans g₂.symm), by omega⟩

theorem deref_post (live : fails ∨ Pinned I) (taken : Taken I ref) (holds : I engine) :
    Post fails (engine.deref ref) fun device => engine.devices[ref.index]? = some device := by
  rcases live with fails | pinned
  · unfold deref
    split
    · exact fails
    · split
      · assumption
      · exact fails
  · obtain ⟨current, inside⟩ := pinned.current taken holds
    unfold deref
    rw [if_neg (not_not.mpr current), List.getElem?_eq_getElem inside]
    exact rfl

theorem store_post (live : fails ∨ Pinned I) (taken : Taken I ref) (stable : Stable I) (holds : I engine)
    {device device' : RuntimeDevice ρ} (here : engine.devices[ref.index]? = some device)
    (steady : Steady device device') : Post fails (engine.store ref device') I := by
  have kept := stable.put here steady holds
  unfold store
  rcases live with fails | pinned
  · split
    · exact fails
    · exact kept
  · rw [if_neg (not_not.mpr (pinned.current taken holds).1)]
    exact kept

namespace RuntimeDevice

theorem sampleTrend_steady (device : RuntimeDevice ρ) (trendIndex timestamp : Nat) :
    Steady device (device.sampleTrend trendIndex timestamp) := by
  unfold sampleTrend
  dsimp only
  split <;> exact .of_plan rfl rfl

theorem sampleDue_steady (trendIndex current guard : Nat) (device : RuntimeDevice ρ) :
    Steady device (sampleDue trendIndex current guard device) := by
  induction guard generalizing device with
  | zero => exact .refl device
  | succ guard ih =>
    unfold sampleDue
    dsimp only
    split
    · exact .refl device
    · refine .trans ?_ (ih _)
      exact .trans (sampleTrend_steady device trendIndex _) (.of_plan rfl rfl)

theorem advanceTrends_steady (device : RuntimeDevice ρ) (previous current : Nat) :
    Steady device (device.advanceTrends previous current) := by
  refine .foldl (fun device trendIndex => ?_) _ device
  unfold advanceTrend
  dsimp only
  split
  · exact .refl device
  · refine .trans ?_ (sampleDue_steady trendIndex current 64 _)
    split <;> exact .of_plan rfl rfl

theorem completeAction_steady (device : RuntimeDevice ρ) (i : Nat) : Steady device (device.completeAction i) :=
  ⟨rfl, rfl, rfl, rfl, rfl, rfl, rfl, rfl, rfl⟩

theorem startBurst_steady (device : RuntimeDevice ρ) (index previous : Nat) :
    Steady device (device.startBurst index previous) := by
  unfold startBurst
  split <;> exact .of_plan rfl rfl

theorem clearColdStart_steady (device : RuntimeDevice ρ) (command : HartCommandId) (masterBit : UInt8)
    (executed : Bool) : Steady device (device.clearColdStart command masterBit executed) :=
  ⟨rfl, rfl, rfl, rfl, rfl, rfl, rfl, rfl, rfl⟩

end RuntimeDevice

open RuntimeDevice

variable (live : fails ∨ Pinned I) (stable : Stable I)

include live stable

theorem runDueActions_post (taken : Taken I ref) {current : Nat}
    (calls : ∀ engine' call, ActionIssues host ref current engine engine' call → CallKeeps fails host I engine' call)
    (holds : I engine) : Post fails (engine.runDueActions host ref current) I := by
  refine Post.foldlM holds fun i before visited holds => ?_
  unfold runDueAction
  refine Post.bind (deref_post live taken holds) fun device read _ => ?_
  split
  · exact holds
  · rename_i due
    have acts : Post fails (before.performAction host device i) I := by
      unfold performAction
      split
      · rename_i executes
        exact Post.map (calls before _ ⟨i, device, visited, read, not_not.mp due, executes, rfl⟩ holds _)
      · exact holds
    refine Post.bind acts fun acted _ holds => ?_
    refine Post.bind (deref_post live taken holds) fun device _ here => ?_
    exact store_post live taken stable holds here (completeAction_steady device i)

theorem emitBurst_post (taken : Taken I ref) {index maximumPeriod : Nat} {device : RuntimeDevice ρ}
    (read : engine.deref ref = .ok device)
    (calls : ∀ source sender, engine.burstSender ref (device.burst index) = some source → engine.deref source = .ok sender →
      CallKeeps fails host I engine (sender.burstCall (device.burst index).command))
    (holds : I engine) : Post fails (engine.emitBurst host ref index maximumPeriod) I := by
  unfold emitBurst
  refine Post.bind (deref_post live taken holds) fun device' again here => ?_
  cases read.symm.trans again
  dsimp only
  split
  · exact store_post live taken stable holds here (.of_plan rfl rfl)
  · rename_i source found
    have takenSource : Taken I source := by
      unfold burstSender at found
      split at found
      · cases found
        exact taken
      · obtain ⟨i, at_i, rfl⟩ := Option.map_eq_some_iff.mp found
        exact ⟨engine, holds, rfl, (List.findIdx?_eq_some_iff_getElem.mp at_i).1⟩
    refine Post.bind (deref_post live takenSource holds) fun sender sends _ => ?_
    refine Post.bind (calls source sender found sends holds _) fun outcome _ holds => ?_
    refine Post.bind (deref_post live takenSource holds) fun sender _ _ => ?_
    refine Post.bind (deref_post live taken holds) fun device _ here => ?_
    exact store_post live taken stable holds here (.of_plan rfl rfl)

theorem runBurst_post (taken : Taken I ref) {index maximumPeriod current guard : Nat}
    (calls : ∀ engine' call, BurstIssues host ref index maximumPeriod current guard engine engine' call →
      CallKeeps fails host I engine' call)
    (holds : I engine) : Post fails (engine.runBurst host ref index maximumPeriod current guard) I := by
  induction guard generalizing engine with
  | zero => exact holds
  | succ guard ih =>
    unfold runBurst
    refine Post.bind (deref_post live taken holds) fun device read _ => ?_
    split
    · exact holds
    · rename_i due
      refine Post.bind (emitBurst_post live stable taken read ?_ holds) fun next emitted holds => ?_
      · exact fun source sender found sends => calls engine _ (.now read due found sends)
      · exact ih (fun engine' call issues => calls engine' call (.later read due emitted issues)) holds

theorem runDueBursts_post (taken : Taken I ref) {previous current : Nat}
    (calls : ∀ engine' call, DueBurstIssues host ref previous current engine engine' call →
      CallKeeps fails host I engine' call)
    (holds : I engine) : Post fails (engine.runDueBursts host ref previous current) I := by
  refine Post.foldlM holds fun index before visited holds => ?_
  unfold runDueBurst
  refine Post.bind (deref_post live taken holds) fun device read here => ?_
  split
  · exact holds
  · rename_i active
    refine Post.bind (store_post live taken stable holds here (startBurst_steady device index previous))
      fun started stored holds => ?_
    refine runBurst_post live stable taken (fun engine' call issues => calls engine' call ?_) holds
    exact ⟨index, before, device, started, visited, read, Bool.eq_false_iff.mpr active, stored, issues⟩

theorem advanceVirtualState_post {previous current : Nat}
    (calls : ∀ engine' call, AdvanceIssues host previous current engine engine' call → CallKeeps fails host I engine' call)
    (holds : I engine) : Post fails (engine.advanceVirtualState host previous current) I := by
  have start := holds
  refine Post.foldlM holds fun ref before visited holds => ?_
  have taken : Taken I ref := by
    obtain ⟨done, rest, split, _⟩ := visited
    have member : ref ∈ engine.references := split ▸ List.mem_append_right done List.mem_cons_self
    obtain ⟨i, inside, rfl⟩ := List.mem_map.mp member
    exact ⟨engine, start, rfl, List.mem_range.mp inside⟩
  unfold advanceDevice
  refine Post.bind (deref_post live taken holds) fun device read here => ?_
  refine Post.bind (store_post live taken stable holds here (advanceTrends_steady device previous current))
    fun sampled stored holds => ?_
  refine Post.bind (runDueActions_post live stable taken ?_ holds) fun acted acts holds => ?_
  · exact fun engine' call issues => calls engine' call ⟨ref, before, visited, .action read stored issues⟩
  · refine runDueBursts_post live stable taken (fun engine' call issues => ?_) holds
    exact calls engine' call ⟨ref, before, visited, .burst read stored acts issues⟩

theorem executeAddressed_post {bus : String} {address : HartFrameAddress} {command : HartCommandId} {request : Bytes}
    {response : HartResponseBuilder}
    (calls : ∀ i device, engine.lookupFrame bus address = some i → engine.devices[i]? = some device →
      needsLongFrame device address command = false →
      CallKeeps fails host I engine (addressedCall device bus address command request))
    (holds : I engine) :
    Post fails (engine.executeAddressed host bus address command request response) fun result => I result.2.1 := by
  unfold executeAddressed
  split
  · exact holds
  · rename_i i found
    have taken : Taken I ⟨engine.generation, i⟩ :=
      ⟨engine, holds, rfl, (List.findIdx?_eq_some_iff_getElem.mp found).1⟩
    refine Post.bind (deref_post live taken holds) fun device _ here => ?_
    split
    · exact holds
    · rename_i takes
      refine Post.bind (calls i device found here (Bool.eq_false_iff.mpr takes) holds _) fun outcome _ holds => ?_
      split
      · exact holds
      · refine Post.bind (deref_post live taken holds) fun device _ here => ?_
        refine Post.bind (store_post live taken stable holds here (clearColdStart_steady device command _ _)) ?_
        exact fun after _ holds => holds

omit live in
theorem updateDevice_keeps {deviceId : String} {write : RuntimeDevice ρ → Option (RuntimeDevice ρ)}
    (steady : ∀ device device', write device = some device' → Steady device device') (holds : I engine) :
    I (engine.updateDevice deviceId write).2 := by
  unfold updateDevice
  split
  · exact holds
  · split
    · exact holds
    · rename_i written
      obtain ⟨device, here, writes⟩ := Option.bind_eq_some_iff.mp written
      exact stable.put here (steady device _ writes) holds

omit live stable in
theorem writeVariable_steady {accepts : VariableConfiguration → Bool} {variableId : String} {value : Float}
    {device device' : RuntimeDevice ρ} (writes : writeVariable accepts variableId value device = some device') :
    Steady device device' := by
  unfold writeVariable at writes
  split at writes
  · cases writes
  · split at writes
    · cases writes
      exact .of_plan rfl rfl
    · cases writes

omit live stable in
theorem writeConfiguration_steady {command : HartCommandId} {change : CommandConfiguration → CommandConfiguration}
    {device device' : RuntimeDevice ρ} (writes : writeConfiguration command change device = some device') :
    Steady device device' := by
  obtain ⟨i, _, rfl⟩ := Option.map_eq_some_iff.mp writes
  exact ⟨rfl, rfl, rfl, rfl, rfl, rfl, rfl, rfl, rfl⟩

omit live stable in
theorem recordDiagnostic_steady (device : RuntimeDevice ρ) (status : UInt8) (time : Nat) :
    Steady device (recordDiagnostic device status time) := by
  unfold recordDiagnostic
  split
  · exact .refl device
  · dsimp only
    split <;> exact ⟨rfl, rfl, rfl, rfl, rfl, rfl, rfl, rfl, rfl⟩

/-- A stable fact that the calls of the operation keep, and a new plan has, is kept by the operation. -/
theorem perform_post {operation : Operation ρ}
    (calls : ∀ engine' call, Issued host engine operation engine' call → CallKeeps fails host I engine' call)
    (loads : ∀ plan, operation = .loadPlan plan → I (engine.loadPlan host plan).2)
    (clears : operation = .clear → I engine.clear) (holds : I engine) :
    Post fails (operation.perform host engine) I := by
  cases operation with
  | loadPlan plan => exact loads plan rfl
  | clear => exact clears rfl
  | execute call response => exact Post.map (calls engine call .execute holds response)
  | executeAddressed bus address command request response =>
    refine Post.map (executeAddressed_post live stable (fun i device found here takes => ?_) holds)
    exact calls engine _ (.executeAddressed found here takes)
  | setVirtualTimeSeconds seconds =>
    change Post fails (engine.setVirtualTimeSeconds host seconds) I
    unfold setVirtualTimeSeconds
    dsimp only
    split
    · rename_i advances
      refine advanceVirtualState_post live stable (fun engine' call issues => ?_) (stable.time seconds holds)
      exact calls engine' call (.setVirtualTimeSeconds advances issues)
    · exact stable.time seconds holds
  | setPrimaryValue deviceId value =>
    change I (engine.setPrimaryValue deviceId value).2
    unfold setPrimaryValue
    split
    · exact holds
    · refine updateDevice_keeps stable (fun device device' writes => ?_) holds
      cases writes
      exact ⟨rfl, rfl, rfl, rfl, rfl, rfl, rfl, rfl, rfl⟩
  | setVariableInput deviceId variableId value =>
    change I (engine.setVariableInput deviceId variableId value).2
    unfold setVariableInput
    split
    · exact holds
    · exact updateDevice_keeps stable (fun _ _ => writeVariable_steady) holds
  | setMeasuredVariable deviceId variableId value =>
    change I (engine.setMeasuredVariable deviceId variableId value).2
    unfold setMeasuredVariable
    split
    · exact holds
    · exact updateDevice_keeps stable (fun _ _ => writeVariable_steady) holds
  | setCommandEnabled deviceId command enabled =>
    exact updateDevice_keeps stable (fun _ _ => writeConfiguration_steady) holds
  | setCommandResponse deviceId command response =>
    change I (engine.setCommandResponse deviceId command response).2
    unfold setCommandResponse
    split
    · exact holds
    · exact updateDevice_keeps stable (fun _ _ => writeConfiguration_steady) holds
  | setDiagnosticStatus deviceId status =>
    refine updateDevice_keeps stable (fun device device' writes => ?_) holds
    cases writes
    exact recordDiagnostic_steady device status _
  | setSensorFault deviceId fault =>
    refine updateDevice_keeps stable (fun device device' writes => ?_) holds
    cases writes
    exact ⟨rfl, rfl, rfl, rfl, rfl, rfl, rfl, rfl, rfl⟩
  | takeBurstEvents deviceId =>
    refine updateDevice_keeps stable (fun device device' writes => ?_) holds
    cases writes
    exact .of_plan rfl rfl

end Rules

theorem checkDevice_ok {profiles : String → Option HartDeviceProfile} {accepted after : List (HartDevicePlan ρ)}
    {device : HartDevicePlan ρ} (passes : checkDevice profiles accepted device = .ok after) :
    after = accepted ++ [device] ∧ checkEach (fun _ prior => checkPrior device prior) [] accepted = .ok () := by
  unfold checkDevice at passes
  split at passes
  · cases passes
  split at passes
  · cases passes
  split at passes
  · cases passes
  split at passes
  · cases passes
  · obtain ⟨_, _, passes⟩ := bind_ok passes
    obtain ⟨_, _, passes⟩ := bind_ok passes
    obtain ⟨_, priors, passes⟩ := bind_ok passes
    cases passes
    exact ⟨rfl, priors⟩

theorem compile_ok {profiles : String → Option HartDeviceProfile} {devices plans : List (HartDevicePlan ρ)}
    (compiled : compile profiles devices = .ok plans) : plans = devices :=
  foldlM_history (P := fun done accepted => accepted = done) compiled rfl
    fun _ _ _ _ same step => by rw [(checkDevice_ok step).1, same]

/-- The runtime device of a plan, as `loadPlan` makes it. -/
def Resolves (host : Host ρ σ) (plan : HartDevicePlan ρ) (device : RuntimeDevice ρ) : Prop :=
  device.plan = plan ∧ host.profiles plan.profileId = some device.profile

theorem loadPlan_cases (host : Host ρ σ) (engine : HartEngine ρ σ) (plan : List (HartDevicePlan ρ)) :
    (loadPlan host engine plan).2 = engine ∨ ∃ devices, (loadPlan host engine plan).2 = engine.replaceDevices devices ∧
      compile host.profiles plan = .ok plan ∧ List.Forall₂ (Resolves host) plan devices := by
  unfold loadPlan
  dsimp only
  split
  · rename_i devices resolved
    obtain ⟨plans, compiled, built⟩ := Option.bind_eq_some_iff.mp resolved
    cases checked : compile host.profiles plan with
    | error message =>
      rw [checked] at compiled
      cases compiled
    | ok accepted =>
      rw [checked] at compiled
      cases compiled
      obtain rfl := compile_ok checked
      refine .inr ⟨devices, rfl, rfl, (mapM_some built).imp ?_⟩
      intro device runtime made
      obtain ⟨profile, found, rfl⟩ := Option.map_eq_some_iff.mp made
      exact ⟨rfl, found⟩
  · exact .inl rfl

theorem Closed.stable {I : List (RuntimeDevice ρ) → Prop} (closed : Closed I) :
    Stable fun engine : HartEngine ρ σ => I engine.devices where
  put here steady holds := closed _ _ (Steady.set here steady) holds
  time _ holds := holds

/-- A fact about identities, addresses and assignment tables, kept by what the performed commands write of
them, holds after every run. -/
theorem run_keeps {I : List (RuntimeDevice ρ) → Prop} (closed : Closed I) {engine after : HartEngine ρ σ}
    {operations : List (Host ρ σ × Operation ρ)} (holds : I engine.devices)
    (commits : ∀ host operation before,
      Visits (fun engine (step : Host ρ σ × Operation ρ) => step.2.perform step.1 engine) operations engine
        (host, operation) before →
      ∀ engine' call, Issued host before operation engine' call → Throughout host engine' call (Commits host I))
    (loads : ∀ host plan devices, (host, .loadPlan plan) ∈ operations → compile host.profiles plan = .ok plan →
      List.Forall₂ (Resolves host) plan devices → I devices)
    (clears : I []) (ran : run engine operations = .ok after) : I after.devices := by
  have kept : Post True (run engine operations) fun engine => I engine.devices := by
    refine Post.foldlM holds fun step before visited holds => ?_
    obtain ⟨host, operation⟩ := step
    refine perform_post (.inl trivial) closed.stable ?_ ?_ ?_ holds
    · intro engine' call issued held response
      refine Post.of_ok fun outcome result => ?_
      refine execute_keeps (fun engine'' call' performed => ?_) held result
      exact (commits host operation before visited engine' call issued engine'' call' performed).kept closed
    · intro plan loading
      subst loading
      obtain ⟨done, rest, split, _⟩ := visited
      rcases loadPlan_cases host before plan with same | ⟨devices, replaced, compiled, each⟩
      · rw [same]
        exact holds
      · rw [replaced]
        exact loads host plan devices (split ▸ List.mem_append_right done List.mem_cons_self) compiled each
    · exact fun _ => clears
  exact kept.elim ran

end LasecSimul.Hart
