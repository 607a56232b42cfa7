import LasecSimul.Hart.Aggregation
import LasecSimul.Hart.Operations

/-!
# Addresses on a bus

The polling addresses of a bus stay different while every command program writes a free one. A frame is then
executed on the device its address was looked up for, and the others change where a nested command reaches
them and in what their catch mappings take.
-/

namespace LasecSimul.Hart

open Lib.Fallible HartEngine

variable {ρ σ : Type} {host : Host ρ σ}

/-- No two devices of a bus share a polling address. -/
def Unambiguous (devices : List (RuntimeDevice ρ)) : Prop :=
  ∀ (i j : Nat) (a b : RuntimeDevice ρ), devices[i]? = some a → devices[j]? = some b → a.plan.bus = b.plan.bus →
    a.plan.pollingAddress = b.plan.pollingAddress → i = j

/-- The command program that runs leaves its device with an address no other device of its bus has. -/
def WritesFreeAddress (host : Host ρ σ) (engine : HartEngine ρ σ) (call : Call) : Prop :=
  ∀ i device programHook plan response response', engine.lookup call.bus call.pollingAddress = some i →
    engine.devices[i]? = some device → host.programHook = some programHook →
    programHook device.profile ((device.begin call).effectivePlan engine.virtualTimeSeconds)
      (device.begin call).evaluatePrimary call.command call.request response call.masterRole = (true, plan, response') →
    ∀ (j : Nat) (other : RuntimeDevice ρ), j ≠ i → engine.devices[j]? = some other → other.plan.bus = plan.bus →
      other.plan.pollingAddress ≠ plan.pollingAddress

/-- The frame is for the device. -/
def FrameMatches (bus : String) (address : HartFrameAddress) (device : RuntimeDevice ρ) : Prop :=
  device.plan.bus = bus ∧
    (if address.longFrame then device.ownsLongAddress address.longAddress
      else device.plan.pollingAddress == address.pollingAddress) = true

/-- Nothing but what the catch mappings take has changed. -/
def Overheard (device device' : RuntimeDevice ρ) : Prop :=
  ∃ values statuses timestamps valid live, device' = { device with
    caughtValues := values, caughtStatuses := statuses, caughtTimestamps := timestamps, caughtValid := valid
    variableValues := live }

theorem forall₂_getElem? {α β : Type} {R : α → β → Prop} {xs : List α} {ys : List β} (each : List.Forall₂ R xs ys)
    {i : Nat} {y : β} (here : ys[i]? = some y) : ∃ x, xs[i]? = some x ∧ R x y := by
  induction each generalizing i with
  | nil => cases here
  | cons first _ ih =>
    cases i with
    | zero =>
      cases here
      exact ⟨_, rfl, first⟩
    | succ i => exact ih here

theorem unambiguous_closed : Closed fun devices : List (RuntimeDevice ρ) => Unambiguous devices := by
  intro before after each distinct i j a' b' here there bus address
  obtain ⟨a, at_i, first⟩ := forall₂_getElem? each here
  obtain ⟨b, at_j, second⟩ := forall₂_getElem? each there
  refine distinct i j a b at_i at_j ?_ ?_
  · rw [← first.bus, ← second.bus, bus]
  · rw [← first.pollingAddress, ← second.pollingAddress, address]

/-- Another device at index `i` keeps the addresses different when its own is free. -/
theorem Unambiguous.set {devices : List (RuntimeDevice ρ)} {i : Nat} {device : RuntimeDevice ρ}
    (distinct : Unambiguous devices) (free : ∀ (j : Nat) (other : RuntimeDevice ρ), j ≠ i → devices[j]? = some other →
      other.plan.bus = device.plan.bus → other.plan.pollingAddress ≠ device.plan.pollingAddress) :
    Unambiguous (devices.set i device) := by
  intro j k a b here there bus address
  rw [List.getElem?_set] at here there
  split at here <;> split at there
  · omega
  · rename_i at_j at_k
    subst at_j
    split at here
    · cases here
      exact absurd address.symm (free k b (Ne.symm at_k) there bus.symm)
    · cases here
  · rename_i at_j at_k
    subst at_k
    split at there
    · cases there
      exact absurd address (free j a (Ne.symm at_j) here bus)
    · cases there
  · exact distinct j k a b here there bus address

theorem checkPrior_ok {device prior : HartDevicePlan ρ} (passes : checkPrior device prior = .ok ())
    (bus : prior.bus = device.bus) : prior.pollingAddress ≠ device.pollingAddress := by
  unfold checkPrior at passes
  intro same
  split at passes
  · cases passes
  · rw [if_pos ⟨bus, same⟩] at passes
    cases passes

theorem checkEach_ok {α : Type} {check : List α → α → Except String Unit} {before items : List α}
    (passes : checkEach check before items = .ok ()) : ∀ item ∈ items, ∃ earlier, check earlier item = .ok () := by
  induction items generalizing before with
  | nil => simp
  | cons first items ih =>
    obtain ⟨_, head, passes⟩ := bind_ok passes
    intro item member
    rcases List.mem_cons.mp member with rfl | member
    · exact ⟨before, head⟩
    · exact ih passes item member

theorem compile_distinct {profiles : String → Option HartDeviceProfile} {devices plans : List (HartDevicePlan ρ)}
    (compiled : compile profiles devices = .ok plans) :
    plans.Pairwise fun a b => a.bus = b.bus → a.pollingAddress ≠ b.pollingAddress := by
  refine (foldlM_history (P := fun _ accepted => accepted.Pairwise fun a b : HartDevicePlan ρ =>
    a.bus = b.bus → a.pollingAddress ≠ b.pollingAddress) compiled .nil ?_)
  intro done device accepted next distinct step
  obtain ⟨rfl, priors⟩ := checkDevice_ok step
  refine List.pairwise_append.mpr ⟨distinct, List.pairwise_singleton _ _, ?_⟩
  intro prior member last isLast bus
  obtain rfl := List.mem_singleton.mp isLast
  obtain ⟨_, passes⟩ := checkEach_ok priors prior member
  exact checkPrior_ok passes bus

theorem loaded_unambiguous {plans : List (HartDevicePlan ρ)} {devices : List (RuntimeDevice ρ)}
    (compiled : compile host.profiles plans = .ok plans) (each : List.Forall₂ (Resolves host) plans devices) :
    Unambiguous devices := by
  have distinct := compile_distinct compiled
  intro i j a b here there bus address
  obtain ⟨p, at_i, first⟩ := forall₂_getElem? each here
  obtain ⟨q, at_j, second⟩ := forall₂_getElem? each there
  rw [first.1, second.1] at bus address
  obtain ⟨inside, rfl⟩ := List.getElem?_eq_some_iff.mp at_i
  obtain ⟨inside', rfl⟩ := List.getElem?_eq_some_iff.mp at_j
  by_contra different
  rcases Nat.lt_or_gt_of_ne different with before | behind
  · exact List.pairwise_iff_getElem.mp distinct i j inside inside' before bus address
  · exact List.pairwise_iff_getElem.mp distinct j i inside' inside behind bus.symm address.symm

theorem assign_plan {devices : List (RuntimeDevice ρ)} {plan plan' : HartDevicePlan ρ}
    {request committed : HartSubDeviceAssignment}
    (assigned : RuntimeDevice.assign devices plan request = some (plan', committed)) :
    ∃ assignments count, plan' = plan.withAssignments assignments count := by
  unfold RuntimeDevice.assign at assigned
  simp only [Option.ite_none_left_eq_some] at assigned
  obtain ⟨_, _, _, _, assigned⟩ := assigned
  split at assigned
  · split at assigned
    · cases assigned
    · cases assigned
      exact ⟨_, _, rfl⟩
  · simp only [Option.ite_none_left_eq_some] at assigned
    obtain ⟨_, assigned⟩ := assigned
    cases assigned
    exact ⟨_, _, rfl⟩

/-- Commands 528 to 531 write the assignment table only. -/
theorem assignmentCommand_plan (devices : List (RuntimeDevice ρ)) (device : RuntimeDevice ρ) (command : HartCommandId)
    (request : Bytes) (response : HartResponseBuilder) :
    ∃ assignments count, (RuntimeDevice.assignmentCommand devices device command request response).device.plan =
      device.plan.withAssignments assignments count := by
  have same : ∃ assignments count, device.plan = device.plan.withAssignments assignments count :=
    ⟨device.plan.assignments, device.plan.assignmentCount, rfl⟩
  unfold RuntimeDevice.assignmentCommand
  dsimp only
  split
  · exact same
  split
  · split <;> exact same
  split
  · split
    · split
      · exact same
      split
      · exact same
      · exact ⟨_, _, rfl⟩
    · exact same
  split
  · exact same
  split
  · split
    · exact same
    · rename_i assigned
      obtain ⟨_, _, assigned⟩ := Option.bind_eq_some_iff.mp assigned
      exact assign_plan assigned
  · split
    · split
      · exact same
      · split
        · exact same
        · exact ⟨_, _, rfl⟩
    · exact same

theorem Unambiguous.set_same {devices : List (RuntimeDevice ρ)} {i : Nat} {before device : RuntimeDevice ρ}
    (distinct : Unambiguous (devices.set i before)) (bus : device.plan.bus = before.plan.bus)
    (address : device.plan.pollingAddress = before.plan.pollingAddress) : Unambiguous (devices.set i device) := by
  by_cases inside : i < devices.length
  · rw [← List.set_set (a := before)]
    refine distinct.set fun j other elsewhere there sameBus sameAddress => elsewhere ?_
    have here : (devices.set i before)[i]? = some before := List.getElem?_set_self inside
    exact distinct j i other before there here (sameBus.trans bus) (sameAddress.trans address)
  · rw [List.set_eq_of_length_le (by omega)] at distinct ⊢
    exact distinct

theorem unambiguous_commits {engine : HartEngine ρ σ} {call : Call} (free : WritesFreeAddress host engine call) :
    Commits host Unambiguous engine call := by
  constructor
  · intro i device response found here inside distinct
    obtain ⟨assignments, count, kept⟩ := assignmentCommand_plan (engine.devices.set i (device.begin call))
      (device.begin call) call.command call.request response
    exact distinct.set_same (by rw [kept]; rfl) (by rw [kept]; rfl)
  · intro i device programHook plan response response' found here hook accepted distinct
    obtain ⟨masters, entries, committed⟩ := RuntimeDevice.commitPlan_plan (device.begin call) call.command plan
    rw [← List.set_set (a := device.begin call)]
    refine distinct.set fun j other elsewhere there bus => ?_
    rw [List.getElem?_set_ne (Ne.symm elsewhere)] at there
    rw [committed] at bus ⊢
    exact free i device programHook plan response response' found here hook accepted j other elsewhere there bus

theorem Unambiguous.lookup {engine : HartEngine ρ σ} (distinct : Unambiguous engine.devices) {i : Nat}
    {device : RuntimeDevice ρ} (here : engine.devices[i]? = some device) :
    engine.lookup device.plan.bus device.plan.pollingAddress = some i := by
  cases found : engine.lookup device.plan.bus device.plan.pollingAddress with
  | none =>
    have := List.findIdx?_eq_none_iff.mp found device (List.mem_of_getElem? here)
    simp at this
  | some j =>
    obtain ⟨inside, matching, _⟩ := List.findIdx?_eq_some_iff_getElem.mp found
    rw [Bool.and_eq_true, beq_iff_eq, beq_iff_eq] at matching
    have there := List.getElem?_eq_getElem inside
    rw [distinct j i _ device there here matching.1 matching.2]

theorem lookupFrame_matches {engine : HartEngine ρ σ} {bus : String} {address : HartFrameAddress} {i : Nat}
    {device : RuntimeDevice ρ} (found : engine.lookupFrame bus address = some i)
    (here : engine.devices[i]? = some device) : FrameMatches bus address device := by
  obtain ⟨inside, matching, _⟩ := List.findIdx?_eq_some_iff_getElem.mp found
  obtain rfl := Option.some.inj ((List.getElem?_eq_getElem inside).symm.trans here)
  rw [Bool.and_eq_true, beq_iff_eq] at matching
  exact matching

theorem Overheard.refl (device : RuntimeDevice ρ) : Overheard device device := ⟨_, _, _, _, _, rfl⟩

theorem Overheard.trans {a b c : RuntimeDevice ρ} (first : Overheard a b) (second : Overheard b c) : Overheard a c := by
  obtain ⟨_, _, _, _, _, rfl⟩ := first
  obtain ⟨_, _, _, _, _, rfl⟩ := second
  exact ⟨_, _, _, _, _, rfl⟩

theorem overheard_observe (receiver : RuntimeDevice ρ) (command : HartCommandId) (pollingAddress : UInt8)
    (bytes : Bytes) (time : Nat) : Overheard receiver (receiver.observe command pollingAddress bytes time) := by
  have caught : ∀ (device : RuntimeDevice ρ) (catchIndex : Nat),
      Overheard device (RuntimeDevice.catchInto command pollingAddress bytes time device catchIndex) := by
    intro device catchIndex
    unfold RuntimeDevice.catchInto
    dsimp only
    split <;> exact ⟨_, _, _, _, _, rfl⟩
  have all : ∀ (indices : List Nat) (device : RuntimeDevice ρ),
      Overheard device (indices.foldl (RuntimeDevice.catchInto command pollingAddress bytes time) device) := by
    intro indices
    induction indices with
    | nil => exact Overheard.refl
    | cons index indices ih => exact fun device => (caught device index).trans (ih _)
  exact all (List.range 8) receiver

/-- The device at index `j` is the one it was, but for what it overheard. -/
def Untouched (j : Nat) (before : RuntimeDevice ρ) (devices : List (RuntimeDevice ρ)) : Prop :=
  ∃ after, devices[j]? = some after ∧ Overheard before after

theorem Untouched.set {j i : Nat} {before : RuntimeDevice ρ} {devices : List (RuntimeDevice ρ)} (elsewhere : i ≠ j)
    (same : Untouched j before devices) (device : RuntimeDevice ρ) : Untouched j before (devices.set i device) := by
  unfold Untouched
  rwa [List.getElem?_set_ne elsewhere]

/-- The call executes nothing on the device at index `j`. -/
def Avoids (host : Host ρ σ) (j : Nat) (engine : HartEngine ρ σ) (call : Call) : Prop :=
  Throughout host engine call fun engine' call' => engine'.lookup call'.bus call'.pollingAddress ≠ some j

theorem execute_avoids {engine : HartEngine ρ σ} {call : Call} {j : Nat} {device : RuntimeDevice ρ}
    {response : HartResponseBuilder} {outcome : Outcome ρ σ} (avoids : Avoids host j engine call)
    (here : engine.devices[j]? = some device) (ran : execute host engine call response = .ok outcome) :
    Untouched j device outcome.engine.devices := by
  refine execute_keeps (I := Untouched j device) (fun engine' call' performed => ?_) ⟨device, here, .refl device⟩ ran
  have other : ∀ {i}, engine'.lookup call'.bus call'.pollingAddress = some i → i ≠ j := by
    rintro i found rfl
    exact avoids engine' call' performed found
  constructor
  · exact fun found _ same => same.set (other found) _
  · intro i device' answer response found _ _ same
    have kept := same.set (other found) answer.device
    rwa [List.set_set] at kept
  · intro i device' programHook plan response response' found _ _ _ same
    obtain ⟨after, there, overheard⟩ := same.set (other found) ((device'.begin call').commitPlan call'.command plan)
    rw [List.set_set] at there
    have seen := overheard_observe after call'.command
      ((device'.begin call').commitPlan call'.command plan).plan.pollingAddress response'.bytes
      engine'.virtualTimeSeconds
    refine ⟨_, ?_, overheard.trans seen⟩
    simp only [observe, put, List.getElem?_map, there, Option.map_some]
  · exact fun found _ same => same.set (other found) _

theorem executeAddressed_avoids {engine later : HartEngine ρ σ} {bus : String} {address : HartFrameAddress}
    {command : HartCommandId} {request : Bytes} {response response' : HartResponseBuilder} {reply : HartAddressedReply}
    {i j : Nat} {device other : RuntimeDevice ρ} (found : engine.lookupFrame bus address = some i)
    (here : engine.devices[i]? = some device) (elsewhere : i ≠ j) (there : engine.devices[j]? = some other)
    (avoids : Avoids host j engine (addressedCall device bus address command request))
    (ran : engine.executeAddressed host bus address command request response = .ok (reply, later, response')) :
    Untouched j other later.devices := by
  unfold executeAddressed at ran
  rw [found] at ran
  obtain ⟨device', read, ran⟩ := bind_ok ran
  obtain rfl : device' = device := Option.some.inj ((deref_ok read).2.symm.trans here)
  split at ran
  · cases ran
    exact ⟨other, there, .refl other⟩
  · obtain ⟨outcome, inner, ran⟩ := bind_ok ran
    have kept := execute_avoids avoids there inner
    split at ran
    · cases ran
      exact kept
    · obtain ⟨executed, reads, ran⟩ := bind_ok ran
      obtain ⟨_, written, ran⟩ := bind_ok ran
      obtain ⟨_, rfl⟩ := store_ok written
      cases ran
      exact kept.set elsewhere _

/-- The frame executes on the device it was looked up for, and the devices its commands avoid are untouched. -/
structure FrameReaches (engine : HartEngine ρ σ) (bus : String) (address : HartFrameAddress) (i : Nat)
    (device : RuntimeDevice ρ) : Prop where
  addressed : FrameMatches bus address device
  only : address.longFrame = false → ∀ (j : Nat) (other : RuntimeDevice ρ), engine.devices[j]? = some other →
    FrameMatches bus address other → j = i
  executes : ∀ command request, engine.lookup (addressedCall device bus address command request).bus
    (addressedCall device bus address command request).pollingAddress = some i
  others : ∀ (host : Host ρ σ) command request response reply later response',
    engine.executeAddressed host bus address command request response = .ok (reply, later, response') →
    ∀ (j : Nat) (other : RuntimeDevice ρ), i ≠ j → engine.devices[j]? = some other →
      Avoids host j engine (addressedCall device bus address command request) → Untouched j other later.devices

theorem Unambiguous.frameReaches {engine : HartEngine ρ σ} (distinct : Unambiguous engine.devices) {bus : String}
    {address : HartFrameAddress} {i : Nat} {device : RuntimeDevice ρ}
    (found : engine.lookupFrame bus address = some i) (here : engine.devices[i]? = some device) :
    FrameReaches engine bus address i device := by
  have addressed := lookupFrame_matches found here
  constructor
  · exact addressed
  · intro short j other there others
    unfold FrameMatches at addressed others
    rw [short, if_neg Bool.false_ne_true, beq_iff_eq] at addressed others
    exact distinct j i other device there here (others.1.trans addressed.1.symm) (others.2.trans addressed.2.symm)
  · intro command request
    have reached := distinct.lookup here
    rwa [addressed.1] at reached
  · intro host command request response reply later response' ran j other elsewhere there avoids
    exact executeAddressed_avoids found here elsewhere there avoids ran

/-- In every run whose programs write free addresses, no two devices of a bus share a polling address, and a frame
executes on the device it matches. -/
theorem addressing_kept (handlers : σ) (operations : List (Host ρ σ × Operation ρ)) (after : HartEngine ρ σ)
    (free : ∀ host operation before,
      Visits (fun engine (step : Host ρ σ × Operation ρ) => step.2.perform step.1 engine) operations
        { handlers := handlers } (host, operation) before →
      ∀ engine call, Issued host before operation engine call → Throughout host engine call (WritesFreeAddress host))
    (ran : run { handlers := handlers } operations = .ok after) :
    Unambiguous after.devices ∧ ∀ bus address i device, after.lookupFrame bus address = some i →
      after.devices[i]? = some device → FrameReaches after bus address i device := by
  have empty : Unambiguous ([] : List (RuntimeDevice ρ)) := by
    intro i j a b here
    simp at here
  have kept : Unambiguous after.devices := by
    refine run_keeps unambiguous_closed empty ?_ ?_ empty ran
    · intro host operation before visited engine call issued engine' call' performed
      exact unambiguous_commits (free host operation before visited engine call issued engine' call' performed)
    · exact fun host plan devices _ compiled each => loaded_unambiguous compiled each
  exact ⟨kept, fun bus address i device found here => kept.frameReaches found here⟩

def twinPlan (id : String) (pollingAddress : UInt8) : HartDevicePlan Unit :=
  { id := id, profileId := "movable", uniqueId := "0000AB", pollingAddress := pollingAddress, rest := () }

def twinOperations : List (Host Unit Unit × Operation Unit) :=
  [(movingHost, .loadPlan [twinPlan "first" 1, twinPlan "second" 2]),
    (movingHost, .execute { bus := "hart-1", pollingAddress := 1, command := 6, request := [3] } { capacity := 255 })]

theorem addressing_kept_twinMoved :
    Post False (run { handlers := () } twinOperations) fun after =>
      Unambiguous after.devices ∧ ∀ bus address i device, after.lookupFrame bus address = some i →
        after.devices[i]? = some device → FrameReaches after bus address i device := by
  have ends : (run { handlers := () } twinOperations).toOption.map (fun _ => ()) = some () := by decide +kernel
  have loads : (run { handlers := () } (twinOperations.take 1)).toOption.map (fun loaded =>
      loaded.devices.all (·.plan.pollingAddress != 3)) = some true := by decide +kernel
  obtain ⟨after, ran, -⟩ := toOption_map ends
  obtain ⟨loaded, loading, others⟩ := toOption_map loads
  rw [ran]
  refine addressing_kept () twinOperations after ?_ ran
  intro host operation before visited engine call issued engine' call' performed
  obtain ⟨done, rest, split, earlier⟩ := visited
  match done with
  | [] =>
    obtain ⟨first, -⟩ := List.cons.inj split
    cases first
    cases issued
  | [step] =>
    obtain ⟨rfl, tail⟩ := List.cons.inj split
    obtain ⟨second, -⟩ := List.cons.inj tail
    cases second
    cases issued
    obtain ⟨rfl, rfl⟩ := performed.eq_self (by decide) (by decide) (by decide)
    cases earlier.symm.trans loading
    rintro i device programHook plan response response' - - hook accepted j other - there -
    cases hook
    cases accepted
    have differs := List.all_eq_true.mp others other (List.mem_of_getElem? there)
    exact bne_iff_ne.mp differs
  | _ :: _ :: done => simp [twinOperations] at split

/-- Two devices with one long address are loaded. -/
theorem twins_shareLongAddress :
    Post False (run { handlers := () } (twinOperations.take 1)) fun after => ∃ first second,
      after.devices[0]? = some first ∧ after.devices[1]? = some second ∧
      FrameMatches "hart-1" { longFrame := true, longAddress := #v[0, 0, 0, 0, 0xAB] } first ∧
      FrameMatches "hart-1" { longFrame := true, longAddress := #v[0, 0, 0, 0, 0xAB] } second := by
  have loads : (run { handlers := () } (twinOperations.take 1)).toOption.map (fun after =>
      after.devices.map fun device =>
        (device.plan.bus, device.ownsLongAddress #v[0, 0, 0, 0, 0xAB])) = some [("hart-1", true), ("hart-1", true)] := by
    decide +kernel
  obtain ⟨after, ran, owners⟩ := toOption_map loads
  rw [ran]
  match shape : after.devices with
  | [first, second] =>
    rw [shape] at owners
    simp only [List.map_cons, List.map_nil, List.cons.injEq, Prod.mk.injEq, and_true] at owners
    exact ⟨first, second, by rw [shape]; rfl, by rw [shape]; rfl, owners.1, owners.2⟩
  | [] | [_] | _ :: _ :: _ :: _ => simp [shape] at owners

end LasecSimul.Hart
