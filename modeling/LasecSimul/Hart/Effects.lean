import LasecSimul.Hart.Session
import LasecSimul.Lib.Fallible

/-!
# What an execution does

`execute` satisfies the equation of the source, without the depth that bounds the recursion. What one
execution can do is said once, and a fact every performed command keeps is kept by the whole execution.
-/

namespace LasecSimul.Hart

variable {ρ σ : Type}

theorem RoutedCommand.parse_length {request : Bytes} {routed : RoutedCommand}
    (parsed : RoutedCommand.parse request = some routed) : routed.request.length < request.length := by
  unfold RoutedCommand.parse at parsed
  split at parsed
  · rename_i card channel preambles delimiter rest
    simp only [Option.ite_none_left_eq_some] at parsed
    obtain ⟨_, parsed⟩ := parsed
    split at parsed
    · rename_i command count data tail
      split at parsed
      · have shorter := congrArg List.length tail
        cases parsed
        simp only [List.length_drop, List.length_cons] at shorter ⊢
        omega
      · cases parsed
    · cases parsed
  · cases parsed

theorem parseEmbedded_length {n : Nat} {bytes : Bytes} {embedded : List (HartCommandId × Bytes)}
    (parsed : parseEmbedded n bytes = some embedded) :
    ∀ item ∈ embedded, item.2.length ≤ bytes.length := by
  fun_induction parseEmbedded n bytes generalizing embedded with
  | case1 =>
    cases parsed
    simp
  | case2 | case4 => cases parsed
  | case3 n high low length rest inner accepted =>
    rename_i ih
    obtain ⟨later, found, rfl⟩ := Option.map_eq_some_iff.mp parsed
    intro item member
    rcases List.mem_cons.mp member with rfl | member
    · simp only [List.length_take, List.length_cons]
      omega
    · have := ih found item member
      simp only [List.length_drop, List.length_cons] at this ⊢
      omega

theorem embeddedCommands_length {request : Bytes} {embedded : List (HartCommandId × Bytes)}
    (parsed : embeddedCommands request = some embedded) :
    ∀ item ∈ embedded, item.2.length < request.length := by
  unfold embeddedCommands at parsed
  split at parsed
  · simp only [Option.ite_none_left_eq_some] at parsed
    intro item member
    have := parseEmbedded_length parsed.2 item member
    simp only [List.length_cons]
    omega
  · cases parsed

namespace RuntimeDevice

/-- The nested execution of Commands 75 and 77. -/
def route (devices : List (RuntimeDevice ρ)) (device : RuntimeDevice ρ) (call : Call) : Option Route :=
  if call.command = 0x4B then device.identityRoute devices call
  else if call.command = 0x4D then device.commandRoute devices call
  else none

theorem identityRoute_length {devices : List (RuntimeDevice ρ)} {device : RuntimeDevice ρ} {call : Call}
    {route : Route} (routes : device.identityRoute devices call = some route) :
    route.call.request.length < call.request.length := by
  unfold identityRoute at routes
  split at routes
  · rename_i request
    split at routes
    · cases routes
    · obtain ⟨child, _, rfl⟩ := Option.map_eq_some_iff.mp routes
      simp [request]
  · cases routes

theorem commandRoute_length {devices : List (RuntimeDevice ρ)} {device : RuntimeDevice ρ} {call : Call}
    {route : Route} (routes : device.commandRoute devices call = some route) :
    route.call.request.length < call.request.length := by
  unfold commandRoute at routes
  split at routes
  · cases routes
  · obtain ⟨routed, parsed, sent⟩ := Option.bind_eq_some_iff.mp routes
    obtain ⟨child, _, rfl⟩ := Option.map_eq_some_iff.mp sent
    exact RoutedCommand.parse_length parsed

theorem route_length {devices : List (RuntimeDevice ρ)} {device : RuntimeDevice ρ} {call : Call}
    {route : Route} (routes : device.route devices call = some route) :
    route.call.request.length < call.request.length := by
  unfold RuntimeDevice.route at routes
  split at routes
  · exact identityRoute_length routes
  · split at routes
    · exact commandRoute_length routes
    · cases routes

end RuntimeDevice

namespace HartEngine

theorem forward_congr {nested nested' : Execute ρ σ} {engine : HartEngine ρ σ} {selected : DeviceRef}
    {route : Option Route} {response : HartResponseBuilder} {bound : Nat}
    (agree : ∀ engine call response, call.request.length < bound → nested engine call response = nested' engine call response)
    (shorter : ∀ r, route = some r → r.call.request.length < bound) :
    engine.forward nested selected route response = engine.forward nested' selected route response := by
  cases route with
  | none => rfl
  | some route =>
    unfold forward
    dsimp only
    rw [agree engine route.call _ (shorter route rfl)]

theorem runEmbedded_congr {run run' : HartEngine ρ σ → HartCommandId → Bytes → Except Fault (Outcome ρ σ)}
    {embedded : List (HartCommandId × Bytes)}
    (agree : ∀ engine, ∀ item ∈ embedded, run engine item.1 item.2 = run' engine item.1 item.2) (staged : HartEngine ρ σ) :
    runEmbedded run staged embedded = runEmbedded run' staged embedded := by
  induction embedded generalizing staged with
  | nil => rfl
  | cons item rest ih =>
    obtain ⟨command, request⟩ := item
    unfold runEmbedded
    rw [agree staged (command, request) List.mem_cons_self]
    congr 1
    funext outcome
    rw [ih fun engine item member => agree engine item (List.mem_cons_of_mem _ member)]

theorem aggregateCommands_congr {nested nested' : Execute ρ σ} {engine : HartEngine ρ σ} {call : Call}
    {response : HartResponseBuilder}
    (agree : ∀ engine call' response, call'.request.length < call.request.length →
      nested engine call' response = nested' engine call' response) :
    engine.aggregateCommands nested call response = engine.aggregateCommands nested' call response := by
  unfold aggregateCommands
  split
  · rfl
  · rename_i embedded parsed
    rw [runEmbedded_congr]
    intro engine item member
    exact agree engine _ _ (embeddedCommands_length parsed item member)

theorem respond_congr {host : Host ρ σ} {nested nested' : Execute ρ σ} {engine : HartEngine ρ σ} {call : Call}
    (agree : ∀ engine call' response, call'.request.length < call.request.length →
      nested engine call' response = nested' engine call' response) (selected : DeviceRef)
    (device : RuntimeDevice ρ) (response : HartResponseBuilder) :
    respond host nested engine selected device call response =
      respond host nested' engine selected device call response := by
  unfold respond
  split
  · rfl
  split
  · rfl
  split
  · rfl
  split
  · rfl
  split
  · exact forward_congr agree fun _ routes => RuntimeDevice.identityRoute_length routes
  split
  · exact forward_congr agree fun _ routes => RuntimeDevice.commandRoute_length routes
  split
  · exact aggregateCommands_congr agree
  · rfl

theorem executeWith_congr {host : Host ρ σ} {nested nested' : Execute ρ σ} {engine : HartEngine ρ σ} {call : Call}
    (agree : ∀ engine call' response, call'.request.length < call.request.length →
      nested engine call' response = nested' engine call' response) (response : HartResponseBuilder) :
    executeWith host nested engine call response = executeWith host nested' engine call response := by
  unfold executeWith
  split
  · rfl
  · exact bind_congr fun device => bind_congr fun engine => respond_congr agree _ _ response

theorem executeNested_eq (host : Host ρ σ) {depth depth' : Nat} {engine : HartEngine ρ σ} {call : Call}
    {response : HartResponseBuilder} (deep : call.request.length < depth) (deep' : call.request.length < depth') :
    executeNested host depth engine call response = executeNested host depth' engine call response := by
  induction depth generalizing depth' engine call response with
  | zero => omega
  | succ depth ih =>
    obtain ⟨depth', rfl⟩ : ∃ d, depth' = d + 1 := ⟨depth' - 1, by omega⟩
    exact executeWith_congr (fun engine call' response shorter => ih (by omega) (by omega)) response

theorem execute_eq (host : Host ρ σ) (engine : HartEngine ρ σ) (call : Call) (response : HartResponseBuilder) :
    execute host engine call response = executeWith host (execute host) engine call response :=
  executeWith_congr (fun _ _ _ shorter => executeNested_eq host shorter (Nat.lt_succ_self _)) response

end HartEngine

/-! ### What one execution can do -/

open Lib.Fallible

/-- The device after a request was received for it. -/
def RuntimeDevice.begin (device : RuntimeDevice ρ) (call : Call) : RuntimeDevice ρ := device.receive.prepare call

/-- No earlier answer keeps a nested command from its device. -/
structure RuntimeDevice.Nests (host : Host ρ σ) (device : RuntimeDevice ρ) (call : Call) : Prop where
  early : ∀ response, device.answerEarly call response = none
  handler : host.handler call.command = none

/-- The answers given without a nested execution or a program. -/
inductive RuntimeDevice.Answers (devices : List (RuntimeDevice ρ)) (device : RuntimeDevice ρ) (call : Call)
    (response : HartResponseBuilder) : Answer ρ → Prop
  | early {answer : Answer ρ} (given : device.answerEarly call response = some answer) :
    Answers devices device call response answer
  | locked : Answers devices device call response
      (.reply device (response.fail HartResponseCodes.accessRestricted))
  | builtIn {answer : Answer ρ} (given : RuntimeDevice.answerBuiltIn devices device call response = some answer) :
    Answers devices device call response answer

theorem RuntimeDevice.answerEarly_none {device : RuntimeDevice ρ} {call : Call} {response : HartResponseBuilder}
    (free : device.answerEarly call response = none) (other : HartResponseBuilder) :
    device.answerEarly call other = none := by
  have overrides : device.override call.command response = none → device.override call.command other = none := by
    unfold override
    cases device.plan.commandConfigurations.find? (·.command == call.command) with
    | none => exact id
    | some configuration =>
      cases enabled : configuration.enabled <;> cases static : configuration.hasStaticResponse <;>
        simp [enabled, static]
  unfold answerEarly at free ⊢
  iterate 5
    split at free
    · first | cases free | (split at free <;> cases free)
  simp only [*, if_false, Option.map_eq_none_iff] at free ⊢
  exact overrides free

/-- Which command gave an answer after the lock. -/
theorem RuntimeDevice.answerBuiltIn_induct {devices : List (RuntimeDevice ρ)} {device : RuntimeDevice ρ} {call : Call}
    {response : HartResponseBuilder} {answer : Answer ρ} {P : Answer ρ → Prop}
    (given : RuntimeDevice.answerBuiltIn devices device call response = some answer)
    (status : P (device.readAdditionalStatus response))
    (service : call.command = 0x6F → P (device.transferService call.request response))
    (segment : call.command = 0x70 → P (device.transferSegment call.request response))
    (notification : P (device.readEventNotification call.request response))
    (acknowledge : P (device.acknowledgeEvent call.request response call.masterRole))
    (assignment : 528 ≤ call.command ∧ call.command ≤ 531 →
      P (assignmentCommand devices device call.command call.request response))
    (identity : P (readSubDeviceIdentity devices device call.request response))
    (channel : P (device.readChannelStatistics call.request response))
    (statistics : P (device.readSubDeviceStatistics call.request response)) : P answer := by
  rcases ite_some given with ⟨_, rfl⟩ | ⟨_, given⟩
  · exact status
  rcases ite_some given with ⟨here, rfl⟩ | ⟨_, given⟩
  · exact service here
  rcases ite_some given with ⟨here, rfl⟩ | ⟨_, given⟩
  · exact segment here
  rcases ite_some given with ⟨_, rfl⟩ | ⟨_, given⟩
  · exact notification
  rcases ite_some given with ⟨_, rfl⟩ | ⟨_, given⟩
  · exact acknowledge
  rcases ite_some given with ⟨here, rfl⟩ | ⟨_, given⟩
  · exact assignment here
  rcases ite_some given with ⟨_, rfl⟩ | ⟨_, given⟩
  · exact identity
  rcases ite_some given with ⟨_, rfl⟩ | ⟨_, given⟩
  · exact channel
  rcases ite_some given with ⟨_, rfl⟩ | ⟨_, given⟩
  · exact statistics
  · cases given

/-- Which command gave an answer before native handlers and the lock. -/
theorem RuntimeDevice.answerEarly_induct {device : RuntimeDevice ρ} {call : Call} {response : HartResponseBuilder}
    {answer : Answer ρ} {P : Answer ρ → Prop} (given : device.answerEarly call response = some answer)
    (undeclared : P (.reply device (response.fail HartResponseCodes.commandNotImplemented)))
    (refused : P (.refuse device response)) (flushed : P ⟨true, { device with burstEvents := [] }, response⟩)
    (trend : P (device.readTrend call.request response)) (clients : P (device.readClientCounters call.request response))
    (messages : P (device.readDeviceCounters call.request response))
    (overridden : ∀ written, device.override call.command response = some written → P (.reply device written)) :
    P answer := by
  rcases ite_some given with ⟨_, rfl⟩ | ⟨_, given⟩
  · exact undeclared
  by_cases flush : call.command = 0x6A
  · rw [if_pos flush] at given
    rcases ite_some given with ⟨_, rfl⟩ | ⟨_, given⟩
    · exact refused
    · cases given
      exact flushed
  rw [if_neg flush] at given
  rcases ite_some given with ⟨_, rfl⟩ | ⟨_, given⟩
  · exact trend
  rcases ite_some given with ⟨_, rfl⟩ | ⟨_, given⟩
  · exact clients
  rcases ite_some given with ⟨_, rfl⟩ | ⟨_, given⟩
  · exact messages
  · obtain ⟨written, found, rfl⟩ := Option.map_eq_some_iff.mp given
    exact overridden written found

namespace HartEngine

/-- The engine with another device at index `i`. -/
def put (engine : HartEngine ρ σ) (i : Nat) (device : RuntimeDevice ρ) : HartEngine ρ σ :=
  { engine with devices := engine.devices.set i device }

theorem deref_ok {engine : HartEngine ρ σ} {ref : DeviceRef} {device : RuntimeDevice ρ}
    (read : engine.deref ref = .ok device) :
    ref.generation = engine.generation ∧ engine.devices[ref.index]? = some device := by
  unfold deref at read
  split at read
  · cases read
  · rename_i current
    split at read
    · rename_i found
      cases read
      exact ⟨not_not.mp current, found⟩
    · cases read

theorem store_ok {engine after : HartEngine ρ σ} {ref : DeviceRef} {device : RuntimeDevice ρ}
    (written : engine.store ref device = .ok after) :
    ref.generation = engine.generation ∧ after = engine.put ref.index device := by
  unfold store at written
  split at written
  · cases written
  · rename_i current
    cases written
    exact ⟨not_not.mp current, rfl⟩

/-- What `dispatch` leaves of `engine`, in which `device` is the device at index `i`. -/
inductive Dispatched (host : Host ρ σ) (nested : Execute ρ σ) (engine : HartEngine ρ σ) (i : Nat)
    (device : RuntimeDevice ρ) (call : Call) (response : HartResponseBuilder) : Outcome ρ σ → Prop
  | answered {answer : Answer ρ} (given : device.Answers engine.devices call response answer) :
    Dispatched host nested engine i device call response
      ⟨answer.executed, engine.put i answer.device, answer.response⟩
  | custom {native : σ → HartCommandContext → HartResponseBuilder → σ × Bool × HartResponseBuilder} {handlers : σ}
    {executed : Bool} {response' : HartResponseBuilder} (registered : host.handler call.command = some native)
    (ran : native engine.handlers ⟨call.pollingAddress, call.command.toUInt8, call.request⟩ response =
      (handlers, executed, response')) :
    Dispatched host nested engine i device call response ⟨executed, { engine with handlers := handlers }, response'⟩
  | refused {response' : HartResponseBuilder} :
    Dispatched host nested engine i device call response ⟨false, engine, response'⟩
  | unanswered {route : Route} {child : Outcome ρ σ} (nests : device.Nests host call)
    (routes : device.route engine.devices call = some route)
    (ran : nested engine route.call { capacity := 255 } = .ok child) (failed : child.executed = false) :
    Dispatched host nested engine i device call response ⟨false, child.engine, response⟩
  | forwarded {route : Route} {child : Outcome ρ σ} {parent : RuntimeDevice ρ} (nests : device.Nests host call)
    (routes : device.route engine.devices call = some route)
    (ran : nested engine route.call { capacity := 255 } = .ok child) (executed : child.executed = true)
    (current : child.engine.generation = engine.generation) (found : child.engine.devices[i]? = some parent) :
    Dispatched host nested engine i device call response
      ⟨(response.write (route.envelope child.response.bytes)).1, child.engine.put i (parent.countRouted route),
        (response.write (route.envelope child.response.bytes)).2⟩
  | aggregated {embedded : List (HartCommandId × Bytes)} {staged : HartEngine ρ σ} {results : List AggregateResult}
    {response' : HartResponseBuilder} (nests : device.Nests host call) (aggregate : call.command = 0x4E)
    (parsed : embeddedCommands call.request = some embedded)
    (ran : runEmbedded (fun staged command request =>
      nested staged (embeddedCall call command request) { capacity := 255 }) engine embedded = .ok (staged, results))
    (fits : response.write ([[0], [call.request.headD 0]] ++ results.flatMap AggregateResult.fields) =
      (true, response')) :
    Dispatched host nested engine i device call response
      ⟨true, { engine with handlers := staged.handlers }.replaceDevices staged.devices, response'⟩
  | overflowed {embedded : List (HartCommandId × Bytes)} {staged : HartEngine ρ σ} {results : List AggregateResult}
    {response' : HartResponseBuilder} (nests : device.Nests host call) (aggregate : call.command = 0x4E)
    (parsed : embeddedCommands call.request = some embedded)
    (ran : runEmbedded (fun staged command request =>
      nested staged (embeddedCall call command request) { capacity := 255 }) engine embedded = .ok (staged, results)) :
    Dispatched host nested engine i device call response
      ⟨false, { engine with handlers := staged.handlers }, response'⟩
  | programmed {plan : HartDevicePlan ρ} {response' : HartResponseBuilder}
    {programHook : HartDeviceProfile → HartDevicePlan ρ → Float → HartCommandId → Bytes →
      HartResponseBuilder → UInt8 → Bool × HartDevicePlan ρ × HartResponseBuilder}
    (hook : host.programHook = some programHook)
    (accepted : programHook device.profile (device.effectivePlan engine.virtualTimeSeconds) device.evaluatePrimary
      call.command call.request response call.masterRole = (true, plan, response')) :
    Dispatched host nested engine i device call response
      ⟨true, (engine.put i (device.commitPlan call.command plan)).observe call.command
        (device.commitPlan call.command plan).plan.pollingAddress response'.bytes, response'⟩

theorem forward_cases {host : Host ρ σ} {nested : Execute ρ σ} {engine : HartEngine ρ σ} {i : Nat}
    {device : RuntimeDevice ρ} {call : Call} {response : HartResponseBuilder} {outcome : Outcome ρ σ}
    (nests : device.Nests host call)
    (ran : engine.forward nested ⟨engine.generation, i⟩ (device.route engine.devices call) response = .ok outcome) :
    Dispatched host nested engine i device call response outcome := by
  unfold forward at ran
  split at ran
  · cases ran
    exact .refused
  · rename_i route routes
    obtain ⟨child, inner, rest⟩ := bind_ok ran
    split at rest
    · rename_i failed
      cases rest
      exact .unanswered nests routes inner (Bool.eq_false_iff.mpr failed)
    · rename_i executed
      obtain ⟨parent, read, rest⟩ := bind_ok rest
      obtain ⟨after, written, rest⟩ := bind_ok rest
      obtain ⟨current, found⟩ := deref_ok read
      obtain ⟨_, rfl⟩ := store_ok written
      cases rest
      exact .forwarded nests routes inner (not_not.mp executed) current.symm found

theorem aggregateCommands_cases {host : Host ρ σ} {nested : Execute ρ σ} {engine : HartEngine ρ σ} {i : Nat}
    {device : RuntimeDevice ρ} {call : Call} {response : HartResponseBuilder} {outcome : Outcome ρ σ}
    (nests : device.Nests host call) (aggregate : call.command = 0x4E)
    (ran : engine.aggregateCommands nested call response = .ok outcome) :
    Dispatched host nested engine i device call response outcome := by
  unfold aggregateCommands at ran
  split at ran
  · cases ran
    exact .refused
  · rename_i embedded parsed
    obtain ⟨⟨staged, results⟩, inner, rest⟩ := bind_ok ran
    dsimp only at rest
    split at rest
    · rename_i fits
      cases rest
      exact .aggregated nests aggregate parsed inner fits
    · cases rest
      exact .overflowed nests aggregate parsed inner

theorem runProgram_cases {host : Host ρ σ} {nested : Execute ρ σ} {engine : HartEngine ρ σ} {i : Nat}
    {device : RuntimeDevice ρ} {call : Call} {response : HartResponseBuilder} {outcome : Outcome ρ σ}
    (found : engine.devices[i]? = some device)
    (ran : engine.runProgram host ⟨engine.generation, i⟩ call response = .ok outcome) :
    Dispatched host nested engine i device call response outcome := by
  unfold runProgram at ran
  split at ran
  · cases ran
    exact .refused
  · rename_i programHook hook
    obtain ⟨device', read, rest⟩ := bind_ok ran
    obtain rfl : device' = device := Option.some.inj ((deref_ok read).2.symm.trans found)
    dsimp only at rest
    split at rest
    · cases rest
      exact .refused
    · rename_i executed
      obtain ⟨after, written, rest⟩ := bind_ok rest
      obtain ⟨_, rfl⟩ := store_ok written
      cases rest
      exact .programmed hook (Prod.ext (not_not.mp executed) rfl)

theorem respond_cases {host : Host ρ σ} {nested : Execute ρ σ} {engine : HartEngine ρ σ} {i : Nat}
    {device : RuntimeDevice ρ} {call : Call} {response : HartResponseBuilder} {outcome : Outcome ρ σ}
    (found : engine.devices[i]? = some device)
    (ran : respond host nested engine ⟨engine.generation, i⟩ device call response = .ok outcome) :
    Dispatched host nested engine i device call response outcome := by
  have finished : ∀ answer, device.Answers engine.devices call response answer →
      engine.finish ⟨engine.generation, i⟩ answer = .ok outcome →
      Dispatched host nested engine i device call response outcome := by
    intro answer given ran
    obtain ⟨after, written, ran⟩ := bind_ok ran
    obtain ⟨_, rfl⟩ := store_ok written
    cases ran
    exact .answered given
  unfold respond at ran
  split at ran
  · rename_i answer early
    exact finished answer (.early early) ran
  rename_i early
  split at ran
  · rename_i native registered
    cases ran
    exact .custom registered rfl
  rename_i native
  have nests : device.Nests host call := ⟨RuntimeDevice.answerEarly_none early, native⟩
  split at ran
  · exact finished _ .locked ran
  split at ran
  · rename_i answer given
    exact finished answer (.builtIn given) ran
  split at ran
  · rename_i identity
    exact forward_cases nests (by rwa [RuntimeDevice.route, if_pos identity])
  rename_i identity
  split at ran
  · rename_i routed
    exact forward_cases nests (by rwa [RuntimeDevice.route, if_neg identity, if_pos routed])
  split at ran
  · rename_i aggregate
    exact aggregateCommands_cases nests aggregate ran
  · exact runProgram_cases found ran

theorem executeOn_cases {host : Host ρ σ} {nested : Execute ρ σ} {engine : HartEngine ρ σ} {i : Nat} {call : Call}
    {response : HartResponseBuilder} {outcome : Outcome ρ σ}
    (ran : executeOn host nested i engine call response = .ok outcome) :
    ∃ device, engine.devices[i]? = some device ∧
      Dispatched host nested (engine.put i (device.begin call)) i (device.begin call) call response outcome := by
  obtain ⟨device, read, ran⟩ := bind_ok ran
  obtain ⟨after, written, ran⟩ := bind_ok ran
  obtain ⟨_, found⟩ := deref_ok read
  obtain ⟨_, rfl⟩ := store_ok written
  have inside : i < engine.devices.length := (List.getElem?_eq_some_iff.mp found).1
  exact ⟨device, found, respond_cases (List.getElem?_set_self inside) ran⟩

/-- What `execute` leaves: nothing without the device, else what its device did. -/
theorem execute_cases {host : Host ρ σ} {engine : HartEngine ρ σ} {call : Call} {response : HartResponseBuilder}
    {outcome : Outcome ρ σ} (ran : execute host engine call response = .ok outcome) :
    (engine.lookup call.bus call.pollingAddress = none ∧ outcome = ⟨false, engine, response⟩) ∨
    ∃ i device, engine.lookup call.bus call.pollingAddress = some i ∧ engine.devices[i]? = some device ∧
      Dispatched host (execute host) (engine.put i (device.begin call)) i (device.begin call) call response outcome := by
  rw [execute_eq] at ran
  unfold executeWith at ran
  split at ran
  · rename_i absent
    cases ran
    exact .inl ⟨absent, rfl⟩
  · rename_i i found
    obtain ⟨device, here, did⟩ := executeOn_cases ran
    exact .inr ⟨i, device, found, here, did⟩

end HartEngine

end LasecSimul.Hart
