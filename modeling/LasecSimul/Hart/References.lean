import LasecSimul.Hart.Aggregation
import LasecSimul.Hart.Operations

/-!
# References into the device table

Only a Command 78 replaces the table while references to it are held. A run in which it is never executed
through a frame, by a synchronous action or on a sub-device uses no reference of an earlier table.
-/

namespace LasecSimul.Hart

open Lib.Fallible HartEngine

variable {ρ σ : Type} {host : Host ρ σ}

/-- The call is a well-formed Command 78, which its device leaves to the engine. -/
def Aggregates (host : Host ρ σ) (engine : HartEngine ρ σ) (call : Call) : Prop :=
  call.command = 0x4E ∧ embeddedCommands call.request ≠ none ∧ ∃ i device,
    engine.lookup call.bus call.pollingAddress = some i ∧ engine.devices[i]? = some device ∧
    (device.begin call).Nests host call

/-- The call routes no such command to a sub-device. -/
def RoutesNoAggregate (host : Host ρ σ) (engine : HartEngine ρ σ) (call : Call) : Prop :=
  ∀ i device route, engine.lookup call.bus call.pollingAddress = some i → engine.devices[i]? = some device →
    (device.begin call).Nests host call →
    (device.begin call).route (engine.put i (device.begin call)).devices call = some route →
    ¬Aggregates host (engine.put i (device.begin call)) route.call

/-- The table has as many devices as before, and is the same one. -/
structure SameTable (engine after : HartEngine ρ σ) : Prop where
  length : after.devices.length = engine.devices.length
  generation : after.generation = engine.generation

theorem put_sameTable (engine : HartEngine ρ σ) (i : Nat) (device : RuntimeDevice ρ) :
    SameTable engine (engine.put i device) := ⟨List.length_set, rfl⟩

theorem deref_current {engine : HartEngine ρ σ} {i : Nat} (inside : i < engine.devices.length) :
    ∃ device, engine.devices[i]? = some device ∧ engine.deref ⟨engine.generation, i⟩ = .ok device := by
  refine ⟨_, List.getElem?_eq_getElem inside, ?_⟩
  rw [deref, if_neg (not_not.mpr rfl), List.getElem?_eq_getElem inside]

theorem store_current (engine : HartEngine ρ σ) (i : Nat) (device : RuntimeDevice ρ) :
    engine.store ⟨engine.generation, i⟩ device = .ok (engine.put i device) := by
  rw [store, if_neg (not_not.mpr rfl)]
  rfl

theorem finish_post (engine : HartEngine ρ σ) (i : Nat) (answer : Answer ρ) :
    Post False (engine.finish ⟨engine.generation, i⟩ answer) fun outcome => SameTable engine outcome.engine := by
  unfold finish
  rw [store_current]
  exact Post.ok (put_sameTable engine i answer.device)

theorem forward_post {nested : Execute ρ σ} {engine : HartEngine ρ σ} {i : Nat} {route : Option Route}
    {response : HartResponseBuilder} (inside : i < engine.devices.length)
    (routed : ∀ r, route = some r →
      Post False (nested engine r.call { capacity := 255 }) fun outcome => SameTable engine outcome.engine) :
    Post False (engine.forward nested ⟨engine.generation, i⟩ route response) fun outcome =>
      SameTable engine outcome.engine := by
  unfold forward
  split
  · exact Post.ok ⟨rfl, rfl⟩
  · rename_i route
    refine Post.bind (routed route rfl) fun child _ same => ?_
    split
    · exact same
    · obtain ⟨parent, _, read⟩ := deref_current (i := i) (same.length ▸ inside)
      rw [← same.generation, read]
      refine Post.bind (Post.ok (Q := fun _ => True) trivial) fun _ _ _ => ?_
      rw [store_current]
      exact ⟨(put_sameTable _ _ _).length.trans same.length, same.generation⟩

theorem runEmbedded_post {run : HartEngine ρ σ → HartCommandId → Bytes → Except Fault (Outcome ρ σ)}
    {engine : HartEngine ρ σ} {embedded : List (HartCommandId × Bytes)} {I : HartEngine ρ σ → Prop}
    (step : ∀ done command request rest staged results, embedded = done ++ (command, request) :: rest →
      runEmbedded run engine done = .ok (staged, results) → I staged →
      Post False (run staged command request) fun outcome => I outcome.engine)
    (starts : I engine) : Post False (runEmbedded run engine embedded) fun last => I last.1 := by
  have loop : ∀ (rest done : List (HartCommandId × Bytes)) (staged : HartEngine ρ σ) (before : List AggregateResult),
      embedded = done ++ rest → runEmbedded run engine done = .ok (staged, before) → I staged →
      Post False (runEmbedded run staged rest) fun last => I last.1 := by
    intro rest
    induction rest with
    | nil => exact fun _ staged _ _ _ holds => Post.ok holds
    | cons item rest ih =>
      obtain ⟨command, request⟩ := item
      intro done staged before split earlier holds
      refine Post.bind (step done command request rest staged before split earlier holds) fun outcome next kept => ?_
      obtain ⟨results, extended⟩ := runEmbedded_snoc earlier next
      refine Post.bind (ih (done ++ [(command, request)]) outcome.engine results (by simp [split]) extended kept) ?_
      exact fun last _ holds => Post.ok holds
  exact loop embedded [] engine [] rfl rfl starts

theorem runProgram_post {engine : HartEngine ρ σ} {i : Nat} {call : Call} {response : HartResponseBuilder}
    (inside : i < engine.devices.length) :
    Post False (engine.runProgram host ⟨engine.generation, i⟩ call response) fun outcome =>
      SameTable engine outcome.engine := by
  unfold runProgram
  split
  · exact Post.ok ⟨rfl, rfl⟩
  · obtain ⟨device, _, read⟩ := deref_current inside
    rw [read]
    refine Post.bind (Post.ok (Q := fun _ => True) trivial) fun _ _ _ => ?_
    dsimp only
    split
    · exact Post.ok ⟨rfl, rfl⟩
    · rw [store_current]
      exact Post.ok ⟨by simp [observe, put], rfl⟩

theorem aggregateCommands_post {nested : Execute ρ σ} {engine : HartEngine ρ σ} {call : Call}
    {response : HartResponseBuilder}
    (ran : ∀ embedded, embeddedCommands call.request = some embedded →
      Post False (runEmbedded (fun staged command request =>
        nested staged (embeddedCall call command request) { capacity := 255 }) engine embedded) fun last =>
          last.1.devices.length = engine.devices.length) :
    Post False (engine.aggregateCommands nested call response) fun outcome =>
      outcome.engine.devices.length = engine.devices.length ∧
      (embeddedCommands call.request = none → outcome.engine.generation = engine.generation) := by
  unfold aggregateCommands
  split
  · exact Post.ok ⟨rfl, fun _ => rfl⟩
  · rename_i embedded parsed
    refine Post.bind (ran embedded parsed) fun last _ length => ?_
    dsimp only
    split
    · exact Post.ok ⟨length, fun malformed => absurd malformed (by simp [parsed])⟩
    · exact Post.ok ⟨rfl, fun _ => rfl⟩

/-- A call that routes no aggregate uses no earlier reference, and keeps the table unless it is an aggregate. -/
theorem execute_post {engine : HartEngine ρ σ} {call : Call} {response : HartResponseBuilder}
    (unrouted : Throughout host engine call (RoutesNoAggregate host)) :
    Post False (execute host engine call response) fun outcome =>
      outcome.engine.devices.length = engine.devices.length ∧
      (¬Aggregates host engine call → outcome.engine.generation = engine.generation) := by
  induction size : call.request.length using Nat.strongRecOn generalizing engine call response with
  | _ n ih =>
    subst size
    cases found : engine.lookup call.bus call.pollingAddress with
    | none =>
      rw [execute_eq, executeWith, found]
      exact Post.ok ⟨rfl, fun _ => rfl⟩
    | some i =>
      have inside : i < engine.devices.length := (List.findIdx?_eq_some_iff_getElem.mp found).1
      obtain ⟨device, here, -⟩ := deref_current inside
      rw [execute_respond found here]
      set begun := engine.put i (device.begin call) with begun_def
      have same : SameTable engine begun := put_sameTable engine i _
      have settled : ∀ {outcome : Outcome ρ σ}, SameTable begun outcome.engine →
          outcome.engine.devices.length = engine.devices.length ∧
          (¬Aggregates host engine call → outcome.engine.generation = engine.generation) :=
        fun kept => ⟨kept.length.trans same.length, fun _ => kept.generation.trans same.generation⟩
      have within : i < begun.devices.length := same.length ▸ inside
      have routes : (device.begin call).Nests host call → ∀ route,
          (device.begin call).route begun.devices call = some route →
          Post False (execute host begun route.call { capacity := 255 }) fun child => SameTable begun child.engine := by
        intro nests route routes
        refine (ih _ (RuntimeDevice.route_length routes)
          (unrouted.nested (.routed found here nests routes (.self ..))) rfl).mono fun outcome kept => ⟨kept.1, kept.2 ?_⟩
        exact unrouted engine call (.self ..) i device route found here nests routes
      unfold respond
      split
      · exact (finish_post begun i _).mono fun _ => settled
      rename_i early
      split
      · exact Post.ok (settled ⟨rfl, rfl⟩)
      rename_i native
      have nests : (device.begin call).Nests host call := ⟨RuntimeDevice.answerEarly_none early, native⟩
      split
      · exact (finish_post begun i _).mono fun _ => settled
      split
      · exact (finish_post begun i _).mono fun _ => settled
      split
      · rename_i identity
        refine (forward_post within fun route found => routes nests route ?_).mono fun _ => settled
        rwa [RuntimeDevice.route, if_pos identity]
      rename_i identity
      split
      · rename_i routed
        refine (forward_post within fun route found => routes nests route ?_).mono fun _ => settled
        rwa [RuntimeDevice.route, if_neg identity, if_pos routed]
      split
      · rename_i aggregate
        have each : ∀ embedded, embeddedCommands call.request = some embedded →
            Post False (runEmbedded (fun staged command request => execute host staged (embeddedCall call command request)
              { capacity := 255 }) begun embedded) fun last => last.1.devices.length = begun.devices.length := by
          intro embedded parsed
          refine runEmbedded_post (I := fun staged => staged.devices.length = begun.devices.length) ?_ rfl
          intro done command request rest staged results split earlier length
          subst split
          refine (ih _ (embeddedCommands_length parsed (command, request) (by simp))
            (unrouted.nested (.embedded found here nests aggregate parsed earlier (.self ..))) rfl).mono ?_
          exact fun outcome kept => kept.1.trans length
        refine (aggregateCommands_post each).mono fun outcome kept => ⟨kept.1.trans same.length, fun none => ?_⟩
        refine (kept.2 ?_).trans same.generation
        by_contra wellFormed
        exact none ⟨aggregate, wellFormed, i, device, found, here, nests⟩
      · exact (runProgram_post within).mono fun _ => settled

/-- The reply to a frame is about a device of the table, which is the one whose Cold Start is cleared. -/
def ReportsLive (host : Host ρ σ) (engine : HartEngine ρ σ) : Operation ρ → Prop
  | .executeAddressed bus address command request response => ∀ reply after response',
    engine.executeAddressed host bus address command request response = .ok (reply, after, response') →
    reply.addressed = true → ∃ i device executed outcome,
      engine.lookupFrame bus address = some i ∧ engine.devices[i]? = some device ∧
      execute host engine (addressedCall device bus address command request)
        (response.setResponseCode HartResponseCodes.success) = .ok outcome ∧
      outcome.engine.devices[i]? = some executed ∧
      reply.deviceStatus = executed.fieldDeviceStatus (if address.primaryMaster then 0x01 else 0x02) ∧
      after = outcome.engine.put i
        (executed.clearColdStart command (if address.primaryMaster then 0x01 else 0x02) outcome.executed)
  | _ => True

theorem reportsLive (host : Host ρ σ) (engine : HartEngine ρ σ) (operation : Operation ρ) :
    ReportsLive host engine operation := by
  cases operation with
  | executeAddressed bus address command request response =>
    intro reply after response' ran addressed
    unfold executeAddressed at ran
    split at ran
    · cases ran
      cases addressed
    · rename_i i found
      obtain ⟨device, read, ran⟩ := bind_ok ran
      split at ran
      · cases ran
        cases addressed
      · obtain ⟨outcome, inner, ran⟩ := bind_ok ran
        split at ran
        · cases ran
          cases addressed
        · obtain ⟨executed, reads, ran⟩ := bind_ok ran
          obtain ⟨_, written, ran⟩ := bind_ok ran
          obtain ⟨_, rfl⟩ := store_ok written
          cases ran
          exact ⟨i, device, executed, outcome, found, (deref_ok read).2, inner, (deref_ok reads).2, rfl, rfl⟩
  | _ => trivial

theorem perform_live {engine : HartEngine ρ σ} {operation : Operation ρ}
    (unrouted : ∀ engine' call, Issued host engine operation engine' call →
      Throughout host engine' call (RoutesNoAggregate host))
    (frames : ∀ engine' call, Issued host engine operation engine' call →
      (∃ response, operation = .execute call response) ∨ ¬Aggregates host engine' call) :
    Post False (operation.perform host engine) fun _ => True := by
  have stable : Stable fun after : HartEngine ρ σ => SameTable engine after :=
    ⟨fun _ _ same => ⟨(put_sameTable _ _ _).length.trans same.length, same.generation⟩, fun _ same => ⟨same.1, same.2⟩⟩
  have pinned : Pinned fun after : HartEngine ρ σ => SameTable engine after :=
    ⟨engine.generation, engine.devices.length, fun _ same => ⟨same.generation, same.length⟩⟩
  have calls : (∀ call response, operation ≠ .execute call response) → ∀ engine' call,
      Issued host engine operation engine' call → CallKeeps False host (SameTable engine) engine' call := by
    intro other engine' call issued same response
    refine (execute_post (unrouted engine' call issued)).mono fun outcome kept => ?_
    refine ⟨kept.1.trans same.length, (kept.2 ?_).trans same.generation⟩
    rcases frames engine' call issued with ⟨response, direct⟩ | safe
    · exact absurd direct (other call response)
    · exact safe
  cases operation with
  | loadPlan | clear => exact Post.ok trivial
  | execute call response =>
    exact Post.map ((execute_post (unrouted engine call .execute)).mono fun _ _ => trivial)
  | _ =>
    refine (perform_post (.inr pinned) stable (calls (by simp)) ?_ ?_ ⟨rfl, rfl⟩).mono fun _ _ => trivial
    · intro plan loads
      cases loads
    · intro clears
      cases clears

/-- A run in which no frame and no synchronous action carries, and no Command 77 forwards, a Command 78 for the
engine reads and writes nothing through a reference taken from an earlier table, and reports live devices. -/
theorem references_current (engine : HartEngine ρ σ) (operations : List (Host ρ σ × Operation ρ))
    (unrouted : ∀ host operation before,
      Visits (fun engine (step : Host ρ σ × Operation ρ) => step.2.perform step.1 engine) operations engine
        (host, operation) before →
      ∀ engine' call, Issued host before operation engine' call → Throughout host engine' call (RoutesNoAggregate host))
    (frames : ∀ host operation before,
      Visits (fun engine (step : Host ρ σ × Operation ρ) => step.2.perform step.1 engine) operations engine
        (host, operation) before →
      ∀ engine' call, Issued host before operation engine' call →
        (∃ response, operation = .execute call response) ∨ ¬Aggregates host engine' call) :
    (∃ after, run engine operations = .ok after) ∧ ∀ host operation before,
      Visits (fun engine (step : Host ρ σ × Operation ρ) => step.2.perform step.1 engine) operations engine
        (host, operation) before → ReportsLive host before operation := by
  have live : Post False (run engine operations) fun _ => True := by
    refine Post.foldlM trivial fun step before visited _ => ?_
    obtain ⟨host, operation⟩ := step
    exact perform_live (unrouted host operation before visited) (frames host operation before visited)
  obtain ⟨after, ran, _⟩ := live.total
  exact ⟨⟨after, ran⟩, fun host operation before _ => reportsLive host before operation⟩

def frameOperation (command : HartCommandId) (request : Bytes) : Operation Unit :=
  .executeAddressed "hart-1" { longFrame := true } command request { capacity := 255 }

theorem references_current_poll :
    (∃ after, run { handlers := () } [(movingHost, .loadPlan [movableDevice.plan]), (movingHost, frameOperation 0 [])] =
      .ok after) ∧ ∀ host operation before,
      Visits (fun engine (step : Host Unit Unit × Operation Unit) => step.2.perform step.1 engine)
        [(movingHost, .loadPlan [movableDevice.plan]), (movingHost, frameOperation 0 [])] { handlers := () }
        (host, operation) before → ReportsLive host before operation := by
  have polls : ∀ host operation before engine' call,
      Visits (fun engine (step : Host Unit Unit × Operation Unit) => step.2.perform step.1 engine)
        [(movingHost, .loadPlan [movableDevice.plan]), (movingHost, frameOperation 0 [])] { handlers := () }
        (host, operation) before → Issued host before operation engine' call → call.command = 0 := by
    intro host operation before engine' call visited issued
    obtain ⟨done, rest, split, -⟩ := visited
    have member : (host, operation) ∈ done ++ (host, operation) :: rest :=
      List.mem_append_right done List.mem_cons_self
    rw [← split] at member
    simp only [List.mem_cons, Prod.mk.injEq, List.not_mem_nil, or_false] at member
    rcases member with ⟨rfl, rfl⟩ | ⟨rfl, rfl⟩
    · cases issued
    · cases issued
      rfl
  refine references_current { handlers := () } _ ?_ ?_
  · intro host operation before visited engine' call issued engine'' call' performed
    have zero := polls host operation before engine' call visited issued
    obtain ⟨rfl, rfl⟩ := performed.eq_self (by rw [zero]; decide) (by rw [zero]; decide) (by rw [zero]; decide)
    rintro i device route - - - routes aggregates
    rw [RuntimeDevice.route, zero, if_neg (by decide), if_neg (by decide)] at routes
    cases routes
  · intro host operation before visited engine' call issued
    refine .inr fun aggregates => ?_
    have zero := polls host operation before engine' call visited issued
    exact absurd (zero.symm.trans aggregates.1) (by decide)

/-- A frame with Command 78 goes on with the device of the table the command replaced. -/
theorem frame_outlivesTable :
    run { handlers := () } [(movingHost, .loadPlan [movableDevice.plan]), (movingHost, frameOperation 78 [1, 0, 0, 0])] =
      .error .staleReference := rfl

end LasecSimul.Hart
