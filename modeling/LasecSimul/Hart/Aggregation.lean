import LasecSimul.Hart.Steady

/-!
# Aggregated commands

Command 78 leaves what its embedded commands leave one after another on its device, or nothing. It
finds the device anew for every embedded command, by the address of the request.
-/

namespace LasecSimul.Hart

open Lib.Fallible HartEngine

variable {ρ σ : Type} {host : Host ρ σ}

/-- The embedded commands one after another on the device at index `i`. -/
def HartEngine.runInOrder (host : Host ρ σ) (i : Nat) (call : Call) :
    HartEngine ρ σ → List (HartCommandId × Bytes) → Except Fault (HartEngine ρ σ × List AggregateResult) :=
  runEmbedded fun staged command request =>
    executeOn host (execute host) i staged (embeddedCall call command request) { capacity := 255 }

/-- Before each of the commands, the address of the request finds the device at index `i`. -/
def Stays (host : Host ρ σ) (i : Nat) (call : Call) (engine : HartEngine ρ σ)
    (embedded : List (HartCommandId × Bytes)) : Prop :=
  ∀ done command request rest staged results, embedded = done ++ (command, request) :: rest →
    engine.runInOrder host i call done = .ok (staged, results) →
    staged.lookup call.bus call.pollingAddress = some i

/-- The native handlers keep no state. -/
def Host.Stateless (host : Host ρ σ) : Prop :=
  ∀ command native, host.handler command = some native → ∀ state context response, (native state context response).1 = state

theorem runEmbedded_agree {run run' : HartEngine ρ σ → HartCommandId → Bytes → Except Fault (Outcome ρ σ)}
    {engine : HartEngine ρ σ} {embedded : List (HartCommandId × Bytes)}
    (agree : ∀ done command request rest staged results, embedded = done ++ (command, request) :: rest →
      runEmbedded run' engine done = .ok (staged, results) → run staged command request = run' staged command request) :
    runEmbedded run engine embedded = runEmbedded run' engine embedded := by
  have loop : ∀ (rest done : List (HartCommandId × Bytes)) (staged : HartEngine ρ σ) (before : List AggregateResult),
      embedded = done ++ rest → runEmbedded run' engine done = .ok (staged, before) →
      runEmbedded run staged rest = runEmbedded run' staged rest := by
    intro rest
    induction rest with
    | nil => exact fun _ _ _ _ _ => rfl
    | cons item rest ih =>
      obtain ⟨command, request⟩ := item
      intro done staged before split earlier
      rw [runEmbedded, runEmbedded, agree done command request rest staged before split earlier]
      cases next : run' staged command request with
      | error fault => rfl
      | ok outcome =>
        obtain ⟨results, extended⟩ := runEmbedded_snoc earlier next
        have later := ih (done ++ [(command, request)]) outcome.engine results (by simp [split]) extended
        dsimp only [bind, Except.bind]
        rw [later]
  exact loop embedded [] engine [] rfl rfl

theorem execute_at {engine : HartEngine ρ σ} {call : Call} {i : Nat}
    (found : engine.lookup call.bus call.pollingAddress = some i) (response : HartResponseBuilder) :
    execute host engine call response = executeOn host (execute host) i engine call response := by
  rw [execute_eq, executeWith, found]

theorem execute_respond {engine : HartEngine ρ σ} {call : Call} {i : Nat} {device : RuntimeDevice ρ}
    (found : engine.lookup call.bus call.pollingAddress = some i) (here : engine.devices[i]? = some device)
    (response : HartResponseBuilder) :
    execute host engine call response = respond host (execute host) (engine.put i (device.begin call))
      ⟨engine.generation, i⟩ (device.begin call) call response := by
  have read : engine.deref ⟨engine.generation, i⟩ = .ok device := by
    rw [deref, if_neg (not_not.mpr rfl), here]
  have written : engine.store ⟨engine.generation, i⟩ (device.begin call) = .ok (engine.put i (device.begin call)) := by
    rw [store, if_neg (not_not.mpr rfl)]
    rfl
  rw [execute_at found, executeOn, read]
  show (engine.store ⟨engine.generation, i⟩ (device.begin call) >>= _) = _
  rw [written]
  rfl

/-- Commands found by an address that stays are commands on the device. -/
theorem Stays.runInOrder {i : Nat} {call : Call} {engine : HartEngine ρ σ} {embedded : List (HartCommandId × Bytes)}
    (stays : Stays host i call engine embedded) :
    runEmbedded (fun staged command request => execute host staged (embeddedCall call command request) { capacity := 255 })
      engine embedded = engine.runInOrder host i call embedded :=
  runEmbedded_agree fun done command request rest staged results split earlier =>
    have found : staged.lookup (embeddedCall call command request).bus (embeddedCall call command request).pollingAddress =
      some i := stays done command request rest staged results split earlier
    execute_at found _

theorem execute_handlers (stateless : host.Stateless) {engine : HartEngine ρ σ} {call : Call}
    {response : HartResponseBuilder} {outcome : Outcome ρ σ} (ran : execute host engine call response = .ok outcome) :
    outcome.engine.handlers = engine.handlers := by
  induction size : call.request.length using Nat.strongRecOn generalizing engine call response outcome with
  | _ n ih =>
    subst size
    have embeds : ∀ {first staged : HartEngine ρ σ} {embedded results},
        embeddedCommands call.request = some embedded →
        runEmbedded (fun staged command request => execute host staged (embeddedCall call command request)
          { capacity := 255 }) first embedded = .ok (staged, results) → staged.handlers = first.handlers := by
      intro first staged embedded results parsed inner
      refine runEmbedded_induct (I := fun engine => engine.handlers = first.handlers) ?_ rfl inner
      intro done command request rest staged results outcome split earlier holds next
      subst split
      exact (ih _ (embeddedCommands_length parsed (command, request) (by simp)) next rfl).trans holds
    rcases execute_cases ran with ⟨_, rfl⟩ | ⟨i, device, found, here, did⟩
    · rfl
    cases did with
    | answered | refused | programmed => rfl
    | custom registered native =>
      have kept := stateless call.command _ registered (engine.put i (device.begin call)).handlers
        ⟨call.pollingAddress, call.command.toUInt8, call.request⟩ response
      rw [native] at kept
      exact kept
    | unanswered nests routes inner | forwarded nests routes inner =>
      have child := ih _ (RuntimeDevice.route_length routes) inner rfl
      exact child
    | aggregated nests aggregate parsed inner | overflowed nests aggregate parsed inner =>
      have staged := embeds parsed inner
      exact staged

theorem aggregate_cases {engine : HartEngine ρ σ} {call : Call} {response : HartResponseBuilder}
    {outcome : Outcome ρ σ} {embedded : List (HartCommandId × Bytes)} (parsed : embeddedCommands call.request = some embedded)
    (ran : engine.aggregateCommands (execute host) call response = .ok outcome) :
    ∃ staged results, runEmbedded (fun staged command request => execute host staged (embeddedCall call command request)
        { capacity := 255 }) engine embedded = .ok (staged, results) ∧
      outcome.engine.handlers = staged.handlers ∧
      (outcome.executed, outcome.response) =
        response.write ([[0], [call.request.headD 0]] ++ results.flatMap AggregateResult.fields) ∧
      (outcome.executed = true → outcome.engine.devices = staged.devices) ∧
      (outcome.executed = false → outcome.engine = { engine with handlers := staged.handlers }) := by
  unfold aggregateCommands at ran
  rw [parsed] at ran
  obtain ⟨⟨staged, results⟩, inner, rest⟩ := bind_ok ran
  refine ⟨staged, results, inner, ?_⟩
  dsimp only at rest
  split at rest <;> rename_i written <;> cases rest
  · exact ⟨rfl, written.symm, fun _ => rfl, nofun⟩
  · exact ⟨rfl, written.symm, nofun, fun _ => rfl⟩

theorem respond_aggregate {engine : HartEngine ρ σ} {selected : DeviceRef} {device : RuntimeDevice ρ} {call : Call}
    {response : HartResponseBuilder} (nests : device.Nests host call) (aggregate : call.command = 0x4E)
    (nested : Execute ρ σ) :
    respond host nested engine selected device call response = engine.aggregateCommands nested call response := by
  have unlocked : device.locked call.command call.masterRole = false := by
    rw [aggregate]
    simp [RuntimeDevice.locked]
  have other : device.answerBuiltIn engine.devices call response = none := by
    unfold RuntimeDevice.answerBuiltIn
    rw [aggregate]
    rfl
  unfold respond
  rw [nests.early, nests.handler]
  dsimp only
  rw [unlocked, other, aggregate]
  rfl

/-- An aggregate that succeeds leaves the devices and the responses of its embedded commands, one after another
on the device, where none but the last takes it from the address of the request; one that fails leaves nothing of
them, where the native handlers keep no state. -/
theorem aggregate_inOrder {engine : HartEngine ρ σ} {call : Call} {response : HartResponseBuilder}
    {outcome : Outcome ρ σ} {i : Nat} {device : RuntimeDevice ρ} {embedded : List (HartCommandId × Bytes)}
    (found : engine.lookup call.bus call.pollingAddress = some i) (here : engine.devices[i]? = some device)
    (nests : (device.begin call).Nests host call) (aggregate : call.command = 0x4E)
    (parsed : embeddedCommands call.request = some embedded)
    (ran : execute host engine call response = .ok outcome) :
    (outcome.executed = true → Stays host i call (engine.put i (device.begin call)) embedded →
      ∃ staged results, (engine.put i (device.begin call)).runInOrder host i call embedded = .ok (staged, results) ∧
        outcome.engine.devices = staged.devices ∧ outcome.engine.handlers = staged.handlers ∧
        response.write ([[0], [call.request.headD 0]] ++ results.flatMap AggregateResult.fields) =
          (true, outcome.response)) ∧
    (outcome.executed = false → outcome.engine.devices = (engine.put i (device.begin call)).devices ∧
      (host.Stateless → outcome.engine = engine.put i (device.begin call))) := by
  rw [execute_respond found here, respond_aggregate nests aggregate] at ran
  obtain ⟨staged, results, inner, handlers, answer, success, failure⟩ := aggregate_cases parsed ran
  constructor
  · intro executed stays
    refine ⟨staged, results, stays.runInOrder ▸ inner, success executed, handlers, ?_⟩
    rw [← answer, executed]
  · intro failed
    refine ⟨by rw [failure failed], fun stateless => ?_⟩
    have kept : staged.handlers = (engine.put i (device.begin call)).handlers := by
      refine runEmbedded_induct (I := fun staged => staged.handlers = _) ?_ rfl inner
      exact fun _ _ _ _ _ _ _ _ _ holds next => (execute_handlers stateless next).trans holds
    rw [failure failed, kept]

def movableProfile : HartDeviceProfile := { id := "movable", commands := [0, 6, 78] }

/-- Command 6 moves the device, Command 0 reports its address. -/
def movingHost : Host Unit Unit where
  profiles := fun _ => some movableProfile
  handler := fun _ => none
  programHook := some fun _ plan _ command request response _ =>
    if command = 6 then
      let moved := { plan with pollingAddress := request.headD 0 }
      (true, moved, (response.write [[moved.pollingAddress]]).2)
    else if command = 0 then (true, plan, (response.write [[254, plan.pollingAddress]]).2)
    else (false, plan, response)

def movableDevice : RuntimeDevice Unit :=
  { plan := { id := "movable", profileId := "movable", bus := "hart-1", pollingAddress := 1, rest := () }
    profile := movableProfile, variableValues := [] }

def movableEngine : HartEngine Unit Unit := { devices := [movableDevice], handlers := () }

def aggregateCall (request : Bytes) : Call :=
  { bus := "hart-1", pollingAddress := 1, command := 0x4E, request := request }

set_option maxRecDepth 4096 in
theorem aggregate_inOrder_movedLast :
    Post False (execute movingHost movableEngine (aggregateCall [2, 0, 0, 0, 0, 6, 1, 5]) { capacity := 255 })
      fun outcome => ∃ staged results,
        (movableEngine.put 0 (movableDevice.begin (aggregateCall [2, 0, 0, 0, 0, 6, 1, 5]))).runInOrder movingHost 0
          (aggregateCall [2, 0, 0, 0, 0, 6, 1, 5]) [(0, []), (6, [5])] = .ok (staged, results) ∧
        outcome.engine.devices = staged.devices ∧ outcome.engine.handlers = staged.handlers ∧
        HartResponseBuilder.write { capacity := 255 } ([[0], [2]] ++ results.flatMap AggregateResult.fields) =
          (true, outcome.response) := by
  have succeeds : (execute movingHost movableEngine (aggregateCall [2, 0, 0, 0, 0, 6, 1, 5])
      { capacity := 255 }).toOption.map (·.executed) = some true := by decide +kernel
  have reads : ((movableEngine.put 0 (movableDevice.begin (aggregateCall [2, 0, 0, 0, 0, 6, 1, 5]))).runInOrder
      movingHost 0 (aggregateCall [2, 0, 0, 0, 0, 6, 1, 5]) [(0, [])]).toOption.map (·.1.lookup "hart-1" 1) =
      some (some 0) := by decide +kernel
  obtain ⟨outcome, ran, executed⟩ := toOption_map succeeds
  have early : (movableDevice.begin (aggregateCall [2, 0, 0, 0, 0, 6, 1, 5])).answerEarly
      (aggregateCall [2, 0, 0, 0, 0, 6, 1, 5]) {} = none := rfl
  have here : movableEngine.devices[0]? = some movableDevice := rfl
  rw [ran]
  refine (aggregate_inOrder rfl here ⟨RuntimeDevice.answerEarly_none early, rfl⟩ rfl rfl ran).1 executed ?_
  intro done command request rest staged results split earlier
  match done with
  | [] =>
    cases earlier
    decide
  | [item] =>
    obtain ⟨rfl, -⟩ := List.cons.inj split
    obtain ⟨⟨_, _⟩, read, found⟩ := toOption_map reads
    cases earlier.symm.trans read
    exact found
  | _ :: _ :: done => simp at split

set_option maxRecDepth 4096 in
/-- Command 6 moves the device, and the address of the request finds it no more. -/
theorem aggregate_losesDevice :
    ∃ outcome staged results,
      execute movingHost movableEngine (aggregateCall [2, 0, 6, 1, 5, 0, 0, 0]) { capacity := 255 } = .ok outcome ∧
      (movableEngine.put 0 (movableDevice.begin (aggregateCall [2, 0, 6, 1, 5, 0, 0, 0]))).runInOrder movingHost 0
        (aggregateCall [2, 0, 6, 1, 5, 0, 0, 0]) [(6, [5]), (0, [])] = .ok (staged, results) ∧
      outcome.executed = true ∧ outcome.engine.devices ≠ staged.devices ∧
      HartResponseBuilder.write { capacity := 255 } ([[0], [2]] ++ results.flatMap AggregateResult.fields) ≠
        (true, outcome.response) := by
  have aggregated : (execute movingHost movableEngine (aggregateCall [2, 0, 6, 1, 5, 0, 0, 0])
      { capacity := 255 }).toOption.map (fun outcome =>
        (outcome.executed, outcome.engine.devices.map (·.plan.clientMessagesReceived), outcome.response.bytes)) =
      some (true, [2], [0, 2, 0, 6, 1, 0, 5, 0, 0, 0, 6]) := by decide +kernel
  have inOrder : ((movableEngine.put 0 (movableDevice.begin (aggregateCall [2, 0, 6, 1, 5, 0, 0, 0]))).runInOrder
      movingHost 0 (aggregateCall [2, 0, 6, 1, 5, 0, 0, 0]) [(6, [5]), (0, [])]).toOption.map (fun (staged, results) =>
        (staged.devices.map (·.plan.clientMessagesReceived),
          (HartResponseBuilder.write { capacity := 255 } ([[0], [2]] ++ results.flatMap AggregateResult.fields)).2.bytes)) =
      some ([3], [0, 2, 0, 6, 1, 0, 5, 0, 0, 2, 0, 254, 5]) := by decide +kernel
  obtain ⟨outcome, ran, observed⟩ := toOption_map aggregated
  obtain ⟨⟨staged, results⟩, ran', observed'⟩ := toOption_map inOrder
  obtain ⟨executed, counted, answered⟩ : _ ∧ _ ∧ _ := by simpa only [Prod.mk.injEq] using observed
  obtain ⟨counted', answered'⟩ : _ ∧ _ := by simpa only [Prod.mk.injEq] using observed'
  refine ⟨outcome, staged, results, ran, ran', executed, fun same => ?_, fun same => ?_⟩
  · rw [same, counted'] at counted
    exact absurd counted (by decide)
  · rw [same, answered] at answered'
    exact absurd answered' (by decide)

end LasecSimul.Hart
