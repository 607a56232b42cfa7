import LasecSimul.Hart.Effects

/-!
# Performed commands

One call of `execute` performs further commands: on sub-devices, and embedded ones on a staged copy. A
fact about the device table that each performed command keeps is kept by the call.
-/

namespace LasecSimul.Hart

open Lib.Fallible HartEngine

variable {ρ σ : Type}

/-- Executing `call` on `engine` executes `call'` on `engine'`. -/
inductive Performs (host : Host ρ σ) : HartEngine ρ σ → Call → HartEngine ρ σ → Call → Prop
  | self (engine : HartEngine ρ σ) (call : Call) : Performs host engine call engine call
  | routed {engine engine' : HartEngine ρ σ} {call call' : Call} {i : Nat} {device : RuntimeDevice ρ} {route : Route}
    (found : engine.lookup call.bus call.pollingAddress = some i) (here : engine.devices[i]? = some device)
    (nests : (device.begin call).Nests host call)
    (routes : (device.begin call).route (engine.put i (device.begin call)).devices call = some route)
    (later : Performs host (engine.put i (device.begin call)) route.call engine' call') :
    Performs host engine call engine' call'
  | embedded {engine engine' staged : HartEngine ρ σ} {call call' : Call} {i : Nat} {device : RuntimeDevice ρ}
    {done rest : List (HartCommandId × Bytes)} {command : HartCommandId} {request : Bytes}
    {results : List AggregateResult}
    (found : engine.lookup call.bus call.pollingAddress = some i) (here : engine.devices[i]? = some device)
    (nests : (device.begin call).Nests host call) (aggregate : call.command = 0x4E)
    (parsed : embeddedCommands call.request = some (done ++ (command, request) :: rest))
    (ran : runEmbedded (fun staged command request => execute host staged (embeddedCall call command request)
      { capacity := 255 }) (engine.put i (device.begin call)) done = .ok (staged, results))
    (later : Performs host staged (embeddedCall call command request) engine' call') :
    Performs host engine call engine' call'

theorem Performs.trans {host : Host ρ σ} {engine engine' engine'' : HartEngine ρ σ} {call call' call'' : Call}
    (first : Performs host engine call engine' call') (second : Performs host engine' call' engine'' call'') :
    Performs host engine call engine'' call'' := by
  induction first with
  | self => exact second
  | routed found here nests routes _ ih => exact .routed found here nests routes (ih second)
  | embedded found here nests aggregate parsed ran _ ih =>
    exact .embedded found here nests aggregate parsed ran (ih second)

theorem Performs.eq_self {host : Host ρ σ} {engine engine' : HartEngine ρ σ} {call call' : Call}
    (performed : Performs host engine call engine' call') (identity : call.command ≠ 0x4B)
    (routed : call.command ≠ 0x4D) (aggregate : call.command ≠ 0x4E) : engine' = engine ∧ call' = call := by
  cases performed with
  | self => exact ⟨rfl, rfl⟩
  | routed _ _ _ routes =>
    rw [RuntimeDevice.route, if_neg identity, if_neg routed] at routes
    cases routes
  | embedded _ _ _ aggregates => exact absurd aggregates aggregate

/-- Every command performed by the call meets `P`. -/
def Throughout (host : Host ρ σ) (engine : HartEngine ρ σ) (call : Call) (P : HartEngine ρ σ → Call → Prop) : Prop :=
  ∀ engine' call', Performs host engine call engine' call' → P engine' call'

theorem Throughout.nested {host : Host ρ σ} {engine engine' : HartEngine ρ σ} {call call' : Call}
    {P : HartEngine ρ σ → Call → Prop} (all : Throughout host engine call P)
    (performed : Performs host engine call engine' call') : Throughout host engine' call' P :=
  fun _ _ later => all _ _ (performed.trans later)

namespace HartEngine

theorem runEmbedded_cons {run : HartEngine ρ σ → HartCommandId → Bytes → Except Fault (Outcome ρ σ)}
    {staged last : HartEngine ρ σ} {command : HartCommandId} {request : Bytes} {rest : List (HartCommandId × Bytes)}
    {results : List AggregateResult} (ran : runEmbedded run staged ((command, request) :: rest) = .ok (last, results)) :
    ∃ outcome later, run staged command request = .ok outcome ∧
      runEmbedded run outcome.engine rest = .ok (last, later) ∧
      results = ⟨command, if outcome.executed then outcome.response.bytes else [], outcome.executed⟩ :: later := by
  obtain ⟨outcome, first, ran⟩ := bind_ok ran
  obtain ⟨⟨last', later⟩, tail, ran⟩ := bind_ok ran
  cases ran
  exact ⟨outcome, later, first, tail, rfl⟩

theorem runEmbedded_snoc {run : HartEngine ρ σ → HartCommandId → Bytes → Except Fault (Outcome ρ σ)}
    {staged middle : HartEngine ρ σ} {done : List (HartCommandId × Bytes)} {results : List AggregateResult}
    (ran : runEmbedded run staged done = .ok (middle, results)) {command : HartCommandId} {request : Bytes}
    {outcome : Outcome ρ σ} (next : run middle command request = .ok outcome) :
    ∃ results', runEmbedded run staged (done ++ [(command, request)]) = .ok (outcome.engine, results') := by
  induction done generalizing staged results with
  | nil =>
    cases ran
    exact ⟨_, by rw [List.nil_append, runEmbedded, next]; rfl⟩
  | cons item done ih =>
    obtain ⟨first, later, head, tail, rfl⟩ := runEmbedded_cons ran
    obtain ⟨results', all⟩ := ih tail
    exact ⟨_, by rw [List.cons_append, runEmbedded, head]; dsimp only [bind, Except.bind]; rw [all]; rfl⟩

/-- A fact that each embedded command keeps, given what ran before it, holds when they all ran. -/
theorem runEmbedded_induct {run : HartEngine ρ σ → HartCommandId → Bytes → Except Fault (Outcome ρ σ)}
    {first last : HartEngine ρ σ} {embedded : List (HartCommandId × Bytes)} {results : List AggregateResult}
    {I : HartEngine ρ σ → Prop}
    (keeps : ∀ done command request rest staged results outcome, embedded = done ++ (command, request) :: rest →
      runEmbedded run first done = .ok (staged, results) → I staged → run staged command request = .ok outcome →
      I outcome.engine)
    (starts : I first) (ran : runEmbedded run first embedded = .ok (last, results)) : I last := by
  have loop : ∀ (rest done : List (HartCommandId × Bytes)) (staged : HartEngine ρ σ)
      (before after : List AggregateResult), embedded = done ++ rest →
      runEmbedded run first done = .ok (staged, before) → I staged →
      runEmbedded run staged rest = .ok (last, after) → I last := by
    intro rest
    induction rest with
    | nil =>
      intro done staged before after _ _ holds ran
      cases ran
      exact holds
    | cons item rest ih =>
      obtain ⟨command, request⟩ := item
      intro done staged before after split earlier holds ran
      obtain ⟨outcome, later, next, tail, -⟩ := runEmbedded_cons ran
      obtain ⟨results', extended⟩ := runEmbedded_snoc earlier next
      exact ih (done ++ [(command, request)]) outcome.engine results' later (by simp [split]) extended
        (keeps done command request rest staged before outcome split earlier holds next) tail
  exact loop embedded [] first [] results rfl rfl starts ran

end HartEngine

/-- What one command on the device at index `i` may do to the table keeps `I`. -/
structure Kept (host : Host ρ σ) (I : List (RuntimeDevice ρ) → Prop) (engine : HartEngine ρ σ) (call : Call) :
    Prop where
  received : ∀ {i device}, engine.lookup call.bus call.pollingAddress = some i → engine.devices[i]? = some device →
    I engine.devices → I (engine.devices.set i (device.begin call))
  answered : ∀ {i device answer response}, engine.lookup call.bus call.pollingAddress = some i →
    engine.devices[i]? = some device →
    (device.begin call).Answers (engine.devices.set i (device.begin call)) call response answer →
    I (engine.devices.set i (device.begin call)) → I (engine.devices.set i answer.device)
  programmed : ∀ {i device programHook plan response response'}, engine.lookup call.bus call.pollingAddress = some i →
    engine.devices[i]? = some device → host.programHook = some programHook →
    programHook device.profile ((device.begin call).effectivePlan engine.virtualTimeSeconds)
      (device.begin call).evaluatePrimary call.command call.request response call.masterRole = (true, plan, response') →
    I (engine.devices.set i (device.begin call)) →
    I ((engine.put i ((device.begin call).commitPlan call.command plan)).observe call.command
        ((device.begin call).commitPlan call.command plan).plan.pollingAddress response'.bytes).devices
  counted : ∀ {i devices parent} {route : Route}, engine.lookup call.bus call.pollingAddress = some i →
    devices[i]? = some parent → I devices → I (devices.set i (parent.countRouted route))

theorem begin_profile (device : RuntimeDevice ρ) (call : Call) : (device.begin call).profile = device.profile := by
  unfold RuntimeDevice.begin RuntimeDevice.prepare
  split <;> rfl

theorem execute_keeps {host : Host ρ σ} {I : List (RuntimeDevice ρ) → Prop} {engine : HartEngine ρ σ} {call : Call}
    {response : HartResponseBuilder} {outcome : Outcome ρ σ} (kept : Throughout host engine call (Kept host I))
    (holds : I engine.devices) (ran : execute host engine call response = .ok outcome) : I outcome.engine.devices := by
  induction size : call.request.length using Nat.strongRecOn generalizing engine call response outcome with
  | _ n ih =>
    subst size
    have step := kept engine call (.self engine call)
    rcases execute_cases ran with ⟨_, rfl⟩ | ⟨i, device, found, here, did⟩
    · exact holds
    have received := step.received found here holds
    cases did with
    | answered given =>
      have := step.answered found here given received
      simpa only [put, List.set_set] using this
    | custom | refused | overflowed => exact received
    | unanswered nests routes inner =>
      have child := ih _ (RuntimeDevice.route_length routes)
        (kept.nested (.routed found here nests routes (.self ..))) received inner rfl
      exact child
    | forwarded nests routes inner _ _ there =>
      exact step.counted found there <| ih _ (RuntimeDevice.route_length routes)
        (kept.nested (.routed found here nests routes (.self ..))) received inner rfl
    | @aggregated embedded staged results _ nests aggregate parsed inner =>
      suffices ends : I staged.devices from ends
      refine runEmbedded_induct (I := fun engine => I engine.devices) ?_ received inner
      intro done command request rest staged results outcome split earlier holds next
      subst split
      refine ih _ ?_ (kept.nested (.embedded found here nests aggregate parsed earlier (.self ..))) holds next rfl
      exact embeddedCommands_length parsed (command, request) (by simp)
    | programmed hook accepted =>
      rw [begin_profile] at accepted
      have := step.programmed found here hook accepted received
      simpa only [put, List.set_set] using this

end LasecSimul.Hart

/-!
## What stays as it is

Identity, address and assignment table of a device are written by Commands 528 to 531 and by command
programs only. A fact about them is kept by every operation that does neither.
-/

namespace LasecSimul.Hart

open Lib.Fallible HartEngine

variable {ρ σ : Type}

/-- Identity, address and assignment table are the same. -/
structure Steady (before after : RuntimeDevice ρ) : Prop where
  profile : after.profile = before.profile
  id : after.plan.id = before.plan.id
  bus : after.plan.bus = before.plan.bus
  pollingAddress : after.plan.pollingAddress = before.plan.pollingAddress
  uniqueId : after.plan.uniqueId = before.plan.uniqueId
  longTag : after.plan.longTag = before.plan.longTag
  assignments : after.plan.assignments = before.plan.assignments
  assignmentCount : after.plan.assignmentCount = before.plan.assignmentCount
  assignmentCapacity : after.plan.assignmentCapacity = before.plan.assignmentCapacity

namespace Steady

theorem refl (device : RuntimeDevice ρ) : Steady device device := ⟨rfl, rfl, rfl, rfl, rfl, rfl, rfl, rfl, rfl⟩

theorem trans {a b c : RuntimeDevice ρ} (first : Steady a b) (second : Steady b c) : Steady a c :=
  ⟨second.profile.trans first.profile, second.id.trans first.id, second.bus.trans first.bus,
    second.pollingAddress.trans first.pollingAddress, second.uniqueId.trans first.uniqueId,
    second.longTag.trans first.longTag, second.assignments.trans first.assignments,
    second.assignmentCount.trans first.assignmentCount, second.assignmentCapacity.trans first.assignmentCapacity⟩

theorem of_plan {before after : RuntimeDevice ρ} (profile : after.profile = before.profile)
    (plan : after.plan = before.plan) : Steady before after := by
  constructor <;> first | exact profile | rw [plan]

theorem foldl {α : Type} {f : RuntimeDevice ρ → α → RuntimeDevice ρ} (step : ∀ device x, Steady device (f device x))
    (xs : List α) (device : RuntimeDevice ρ) : Steady device (xs.foldl f device) := by
  induction xs generalizing device with
  | nil => exact refl device
  | cons x xs ih => exact (step device x).trans (ih (f device x))

theorem same (devices : List (RuntimeDevice ρ)) : List.Forall₂ Steady devices devices :=
  List.forall₂_same.mpr fun device _ => refl device

theorem set {devices : List (RuntimeDevice ρ)} {i : Nat} {device device' : RuntimeDevice ρ}
    (here : devices[i]? = some device) (steady : Steady device device') :
    List.Forall₂ Steady devices (devices.set i device') := by
  induction devices generalizing i with
  | nil => cases here
  | cons first rest ih =>
    cases i with
    | zero =>
      cases here
      exact .cons steady (same rest)
    | succ i => exact .cons (refl first) (ih here)

theorem map {f : RuntimeDevice ρ → RuntimeDevice ρ} (steady : ∀ device, Steady device (f device))
    (devices : List (RuntimeDevice ρ)) : List.Forall₂ Steady devices (devices.map f) :=
  List.forall₂_map_right_iff.mpr (List.forall₂_same.mpr fun device _ => steady device)

end Steady

/-! ### Commands -/

namespace RuntimeDevice

theorem begin_steady (device : RuntimeDevice ρ) (call : Call) : Steady device (device.begin call) := by
  unfold RuntimeDevice.begin prepare
  split <;> exact ⟨rfl, rfl, rfl, rfl, rfl, rfl, rfl, rfl, rfl⟩

theorem countRouted_steady (device : RuntimeDevice ρ) (route : Route) : Steady device (device.countRouted route) :=
  ⟨rfl, rfl, rfl, rfl, rfl, rfl, rfl, rfl, rfl⟩

theorem catchInto_steady (command : HartCommandId) (pollingAddress : UInt8) (bytes : Bytes) (time : Nat)
    (receiver : RuntimeDevice ρ) (catchIndex : Nat) :
    Steady receiver (catchInto command pollingAddress bytes time receiver catchIndex) := by
  unfold catchInto
  dsimp only
  split <;> exact .of_plan rfl rfl

theorem observe_steady (receiver : RuntimeDevice ρ) (command : HartCommandId) (pollingAddress : UInt8) (bytes : Bytes)
    (time : Nat) : Steady receiver (receiver.observe command pollingAddress bytes time) :=
  .foldl (catchInto_steady command pollingAddress bytes time) _ _

theorem readTrend_steady (device : RuntimeDevice ρ) (request : Bytes) (response : HartResponseBuilder) :
    Steady device (device.readTrend request response).device := by
  unfold readTrend
  split
  · split
    · exact .refl device
    · dsimp only
      split
      · exact ⟨rfl, rfl, rfl, rfl, rfl, rfl, rfl, rfl, rfl⟩
      · exact .refl device
  · exact .refl device

theorem transferService_steady (device : RuntimeDevice ρ) (request : Bytes) (response : HartResponseBuilder) :
    Steady device (device.transferService request response).device := by
  unfold transferService
  split
  · split_ifs <;> exact .of_plan rfl rfl
  · exact .refl device

theorem transferSegment_steady (device : RuntimeDevice ρ) (request : Bytes) (response : HartResponseBuilder) :
    Steady device (device.transferSegment request response).device := by
  unfold transferSegment
  split
  · split_ifs <;> exact .of_plan rfl rfl
  · exact .refl device

theorem readEventNotification_steady (device : RuntimeDevice ρ) (request : Bytes) (response : HartResponseBuilder) :
    Steady device (device.readEventNotification request response).device := by
  unfold readEventNotification
  split <;> exact .refl device

theorem acknowledgeEvent_steady (device : RuntimeDevice ρ) (request : Bytes) (response : HartResponseBuilder)
    (masterRole : UInt8) : Steady device (device.acknowledgeEvent request response masterRole).device := by
  unfold acknowledgeEvent
  split
  · exact .refl device
  split
  · exact .refl device
  · dsimp only [Answer.reply]
    split <;> exact .of_plan rfl rfl

theorem readSubDeviceIdentity_steady (devices : List (RuntimeDevice ρ)) (device : RuntimeDevice ρ) (request : Bytes)
    (response : HartResponseBuilder) :
    Steady device (readSubDeviceIdentity devices device request response).device := by
  unfold readSubDeviceIdentity
  split
  · dsimp only
    split <;> exact .refl device
  · exact .refl device

theorem readChannelStatistics_steady (device : RuntimeDevice ρ) (request : Bytes) (response : HartResponseBuilder) :
    Steady device (device.readChannelStatistics request response).device := by
  unfold readChannelStatistics
  split
  · split <;> exact .refl device
  · exact .refl device

theorem readSubDeviceStatistics_steady (device : RuntimeDevice ρ) (request : Bytes) (response : HartResponseBuilder) :
    Steady device (device.readSubDeviceStatistics request response).device := by
  unfold readSubDeviceStatistics
  split
  · dsimp only
    split <;> exact .refl device
  · exact .refl device

theorem answerEarly_steady {device : RuntimeDevice ρ} {call : Call} {response : HartResponseBuilder} {answer : Answer ρ}
    (given : device.answerEarly call response = some answer) : Steady device answer.device := by
  refine answerEarly_induct (P := fun answer => Steady device answer.device) given (.refl device) (.refl device)
    (.of_plan rfl rfl) ?_ ?_ ?_ ?_
  · exact readTrend_steady device call.request response
  · unfold readClientCounters
    split <;> exact .refl device
  · unfold readDeviceCounters
    split <;> exact .refl device
  · exact fun _ _ => .refl device

/-- An answer leaves the device steady, unless it is one of Commands 528 to 531. -/
theorem Answers.steady {devices : List (RuntimeDevice ρ)} {device : RuntimeDevice ρ} {call : Call}
    {response : HartResponseBuilder} {answer : Answer ρ} (given : device.Answers devices call response answer) :
    Steady device answer.device ∨ (528 ≤ call.command ∧ call.command ≤ 531) ∧
      answer = assignmentCommand devices device call.command call.request response := by
  cases given with
  | early given => exact .inl (answerEarly_steady given)
  | locked => exact .inl (.refl device)
  | builtIn given =>
    refine answerBuiltIn_induct (P := fun answer => Steady device answer.device ∨ (528 ≤ call.command ∧ call.command ≤ 531) ∧
      answer = assignmentCommand devices device call.command call.request response) given (.inl (.refl device)) ?_ ?_ ?_ ?_ ?_ ?_ ?_ ?_
    · exact fun _ => .inl (transferService_steady device call.request response)
    · exact fun _ => .inl (transferSegment_steady device call.request response)
    · exact .inl (readEventNotification_steady device call.request response)
    · exact .inl (acknowledgeEvent_steady device call.request response call.masterRole)
    · exact fun inside => .inr ⟨inside, rfl⟩
    · exact .inl (readSubDeviceIdentity_steady devices device call.request response)
    · exact .inl (readChannelStatistics_steady device call.request response)
    · exact .inl (readSubDeviceStatistics_steady device call.request response)

/-- The committed plan is the one the program left, with the change recorded. -/
theorem commitPlan_plan (device : RuntimeDevice ρ) (command : HartCommandId) (plan : HartDevicePlan ρ) :
    ∃ masters entries, (device.commitPlan command plan).plan =
      { plan with configurationChangedMasters := masters, variableConfigurations := entries } := by
  have counted : ∀ (counters : List OperationCounter) (start : HartDevicePlan ρ), ∃ masters entries,
      counters.foldl (countOperation · command ·) start =
        { start with configurationChangedMasters := masters, variableConfigurations := entries } := by
    intro counters
    induction counters with
    | nil => exact fun start => ⟨start.configurationChangedMasters, start.variableConfigurations, rfl⟩
    | cons counter counters ih =>
      intro start
      obtain ⟨masters, entries, same⟩ := ih (countOperation start command counter)
      refine ⟨masters, entries, ?_⟩
      rw [List.foldl_cons, same]
      unfold countOperation
      split <;> rfl
  show ∃ masters entries, device.configurationChanged command plan = _
  unfold configurationChanged
  split
  · exact ⟨plan.configurationChangedMasters, plan.variableConfigurations, rfl⟩
  · obtain ⟨masters, entries, same⟩ := counted device.profile.operationCounters
      { plan with configurationChangedMasters := 0x03 }
    exact ⟨masters, entries, same⟩

end RuntimeDevice

/-- A fact about identities, addresses and assignment tables. -/
def Closed (I : List (RuntimeDevice ρ) → Prop) : Prop :=
  ∀ before after, List.Forall₂ Steady before after → I before → I after

/-- What the command writes of identity, address and assignment table keeps `I`. -/
structure Commits (host : Host ρ σ) (I : List (RuntimeDevice ρ) → Prop) (engine : HartEngine ρ σ) (call : Call) :
    Prop where
  assigned : ∀ {i device response}, engine.lookup call.bus call.pollingAddress = some i →
    engine.devices[i]? = some device → 528 ≤ call.command ∧ call.command ≤ 531 →
    I (engine.devices.set i (device.begin call)) →
    I (engine.devices.set i (RuntimeDevice.assignmentCommand (engine.devices.set i (device.begin call))
      (device.begin call) call.command call.request response).device)
  programmed : ∀ {i device programHook plan response response'}, engine.lookup call.bus call.pollingAddress = some i →
    engine.devices[i]? = some device → host.programHook = some programHook →
    programHook device.profile ((device.begin call).effectivePlan engine.virtualTimeSeconds)
      (device.begin call).evaluatePrimary call.command call.request response call.masterRole = (true, plan, response') →
    I (engine.devices.set i (device.begin call)) →
    I (engine.devices.set i ((device.begin call).commitPlan call.command plan))

theorem Commits.kept {host : Host ρ σ} {I : List (RuntimeDevice ρ) → Prop} {engine : HartEngine ρ σ} {call : Call}
    (closed : Closed I) (commits : Commits host I engine call) : Kept host I engine call where
  received _ here holds := closed _ _ (Steady.set here (RuntimeDevice.begin_steady _ call)) holds
  answered := by
    intro i device answer response found here given holds
    rcases given.steady with steady | ⟨inside, rfl⟩
    · have begun : (engine.devices.set i (device.begin call))[i]? = some (device.begin call) :=
        List.getElem?_set_self (List.getElem?_eq_some_iff.mp here).1
      have kept := closed _ _ (Steady.set begun steady) holds
      rwa [List.set_set] at kept
    · exact commits.assigned found here inside holds
  programmed := by
    intro i device programHook plan response response' found here hook accepted holds
    refine closed _ _ (Steady.map (fun receiver => ?_) _) (commits.programmed found here hook accepted holds)
    exact RuntimeDevice.observe_steady receiver ..
  counted _ here holds := closed _ _ (Steady.set here (RuntimeDevice.countRouted_steady _ _)) holds

end LasecSimul.Hart
