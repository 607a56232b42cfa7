import LasecSimul.Hart.Operations

/-!
# The assignment table of an I/O system

Commands 530 and 531 keep the table numbered by position and free of duplicates when the entry deleted
is the last one, a replacement repeats no other entry, and the transferred sub-devices differ. A deletion
in the middle moves the later entries down with their old numbers.
-/

namespace LasecSimul.Hart

open Lib.Fallible HartEngine

variable {ρ σ : Type}

/-- The table invariant. -/
structure AssignmentTable (plan : HartDevicePlan ρ) : Prop where
  count_le : plan.assignmentCount.toNat ≤ plan.assignmentCapacity.toNat
  capacity_le : plan.assignmentCapacity.toNat ≤ 32
  numbered : ∀ i entry, plan.liveAssignments[i]? = some entry → entry.index.toNat = i + 1
  distinct : ∀ (i j : Nat) (a b : HartSubDeviceAssignment), plan.liveAssignments[i]? = some a →
    plan.liveAssignments[j]? = some b → a.sameIdentity b = true → i = j

theorem HartSubDeviceAssignment.sameIdentity_comm (a b : HartSubDeviceAssignment) :
    a.sameIdentity b = b.sameIdentity a := by
  unfold sameIdentity
  by_cases tags : ¬a.tagEmpty ∧ ¬b.tagEmpty
  · rw [if_pos tags, if_pos tags.symm]
    exact BEq.comm
  · rw [if_neg tags, if_neg fun h => tags h.symm]
    by_cases kind : b.expandedDeviceType = a.expandedDeviceType
    · rw [kind, Bool.and_assoc, Bool.and_assoc, BEq.comm (a := b.deviceId)]
    · rw [show (b.expandedDeviceType == a.expandedDeviceType) = false from beq_eq_false_iff_ne.mpr kind,
        show (a.expandedDeviceType == b.expandedDeviceType) = false from beq_eq_false_iff_ne.mpr (Ne.symm kind)]
      simp

namespace HartDevicePlan

theorem live_iff {plan : HartDevicePlan ρ} {i : Nat} {entry : HartSubDeviceAssignment} :
    plan.liveAssignments[i]? = some entry ↔ i < plan.assignmentCount.toNat ∧ plan.assignments[i]? = some entry := by
  simp [liveAssignments, List.getElem?_take]

theorem live_withAssignments {plan : HartDevicePlan ρ} {assignments : Vector HartSubDeviceAssignment 32}
    {count : UInt8} {i : Nat} {entry : HartSubDeviceAssignment} :
    (plan.withAssignments assignments count).liveAssignments[i]? = some entry ↔
      i < count.toNat ∧ assignments[i]? = some entry :=
  live_iff

end HartDevicePlan

namespace AssignmentTable

theorem of_same {plan plan' : HartDevicePlan ρ} (table : AssignmentTable plan)
    (assignments : plan'.assignments = plan.assignments) (count : plan'.assignmentCount = plan.assignmentCount)
    (capacity : plan'.assignmentCapacity = plan.assignmentCapacity) : AssignmentTable plan' := by
  have live : plan'.liveAssignments = plan.liveAssignments := by
    rw [HartDevicePlan.liveAssignments, HartDevicePlan.liveAssignments, assignments, count]
  constructor
  · rw [count, capacity]
    exact table.count_le
  · rw [capacity]
    exact table.capacity_le
  · rw [live]
    exact table.numbered
  · rw [live]
    exact table.distinct

/-- An entry written at a live place or right after the live ones. -/
theorem put {plan : HartDevicePlan ρ} (table : AssignmentTable plan) {target : Nat} {staged : HartSubDeviceAssignment}
    (place : target ≤ plan.assignmentCount.toNat) (room : target < plan.assignmentCapacity.toNat)
    (number : staged.index.toNat = target + 1)
    (fresh : ∀ k entry, plan.liveAssignments[k]? = some entry → staged.sameIdentity entry = true → k = target) :
    AssignmentTable (plan.withAssignments (plan.assignments.setIfInBounds target staged)
      (if target = plan.assignmentCount.toNat then plan.assignmentCount + 1 else plan.assignmentCount)) := by
  have capacity := table.capacity_le
  have count : (if target = plan.assignmentCount.toNat then plan.assignmentCount + 1 else plan.assignmentCount).toNat =
      max plan.assignmentCount.toNat (target + 1) := by
    split
    · rw [UInt8.toNat_add, show (1 : UInt8).toNat = 1 from rfl]
      omega
    · omega
  have reads : ∀ i entry, (plan.withAssignments (plan.assignments.setIfInBounds target staged)
      (if target = plan.assignmentCount.toNat then plan.assignmentCount + 1 else plan.assignmentCount)).liveAssignments[i]? =
      some entry → (i = target ∧ entry = staged) ∨ (i ≠ target ∧ plan.liveAssignments[i]? = some entry) := by
    intro i entry here
    obtain ⟨inside, read⟩ := HartDevicePlan.live_withAssignments.mp here
    rw [count] at inside
    by_cases same : i = target
    · subst same
      rw [Vector.getElem?_setIfInBounds_self_of_lt (by omega)] at read
      exact .inl ⟨rfl, (Option.some.inj read).symm⟩
    · rw [Vector.getElem?_setIfInBounds_ne (Ne.symm same)] at read
      exact .inr ⟨same, HartDevicePlan.live_iff.mpr ⟨by omega, read⟩⟩
  constructor
  · dsimp only [HartDevicePlan.withAssignments]
    rw [count]
    have := table.count_le
    omega
  · exact capacity
  · intro i entry here
    rcases reads i entry here with ⟨rfl, rfl⟩ | ⟨_, before⟩
    · exact number
    · exact table.numbered i entry before
  · intro i j a b hereA hereB same
    rcases reads i a hereA with ⟨rfl, rfl⟩ | ⟨elsewhere, beforeA⟩
    · rcases reads j b hereB with ⟨rfl, -⟩ | ⟨_, beforeB⟩
      · rfl
      · exact (fresh j b beforeB same).symm
    · rcases reads j b hereB with ⟨rfl, rfl⟩ | ⟨_, beforeB⟩
      · exact fresh i a beforeA (by rwa [HartSubDeviceAssignment.sameIdentity_comm])
      · exact table.distinct i j a b beforeA beforeB same

/-- The last entry deleted. -/
theorem pop {plan : HartDevicePlan ρ} (table : AssignmentTable plan) {found : Nat}
    (last : found + 1 = plan.assignmentCount.toNat) :
    AssignmentTable (plan.withAssignments
      (HartDevicePlan.shiftDown plan.assignments found plan.assignmentCount.toNat) (plan.assignmentCount - 1)) := by
  have unmoved : HartDevicePlan.shiftDown plan.assignments found plan.assignmentCount.toNat = plan.assignments := by
    rw [HartDevicePlan.shiftDown, last, Nat.sub_self]
    rfl
  have count : (plan.assignmentCount - 1).toNat = found := by
    have nonempty : 1 ≤ plan.assignmentCount := by
      rw [UInt8.le_iff_toNat_le]
      show 1 ≤ plan.assignmentCount.toNat
      omega
    rw [UInt8.toNat_sub_of_le _ _ nonempty]
    show plan.assignmentCount.toNat - 1 = found
    omega
  have reads : ∀ (i : Nat) entry, (plan.withAssignments
      (HartDevicePlan.shiftDown plan.assignments found plan.assignmentCount.toNat)
      (plan.assignmentCount - 1)).liveAssignments[i]? = some entry → plan.liveAssignments[i]? = some entry := by
    intro i entry here
    obtain ⟨inside, read⟩ := HartDevicePlan.live_withAssignments.mp here
    rw [count] at inside
    rw [unmoved] at read
    exact HartDevicePlan.live_iff.mpr ⟨by omega, read⟩
  constructor
  · dsimp only [HartDevicePlan.withAssignments]
    have := table.count_le
    omega
  · exact table.capacity_le
  · exact fun i entry here => table.numbered i entry (reads i entry here)
  · exact fun i j a b hereA hereB => table.distinct i j a b (reads i a hereA) (reads j b hereB)

/-- The status of an entry written. -/
theorem status {plan : HartDevicePlan ρ} (table : AssignmentTable plan) (k : Nat) (status : UInt8) :
    AssignmentTable (plan.withAssignments
      (plan.assignments.setIfInBounds k { plan.assignments.getD k {} with status := status })
      plan.assignmentCount) := by
  have reads : ∀ (i : Nat) entry, (plan.withAssignments
      (plan.assignments.setIfInBounds k { plan.assignments.getD k {} with status := status })
      plan.assignmentCount).liveAssignments[i]? = some entry →
      ∃ before, plan.liveAssignments[i]? = some before ∧ entry = { before with status := entry.status } := by
    intro i entry here
    obtain ⟨inside, read⟩ := HartDevicePlan.live_withAssignments.mp here
    by_cases same : k = i
    · subst same
      have bound : k < 32 := by
        have := table.count_le
        have := table.capacity_le
        omega
      rw [Vector.getElem?_setIfInBounds_self_of_lt bound] at read
      obtain rfl := Option.some.inj read
      refine ⟨plan.assignments.getD k {}, HartDevicePlan.live_iff.mpr ⟨inside, ?_⟩, rfl⟩
      simp [Vector.getD, bound]
    · rw [Vector.getElem?_setIfInBounds_ne same] at read
      exact ⟨entry, HartDevicePlan.live_iff.mpr ⟨inside, read⟩, rfl⟩
  constructor
  · exact table.count_le
  · exact table.capacity_le
  · intro i entry here
    obtain ⟨before, read, same⟩ := reads i entry here
    rw [same]
    exact table.numbered i before read
  · intro i j a b hereA hereB recognised
    obtain ⟨a', readA, sameA⟩ := reads i a hereA
    obtain ⟨b', readB, sameB⟩ := reads j b hereB
    rw [sameA, sameB] at recognised
    exact table.distinct i j a' b' readA readB recognised

/-- The sub-devices transferred to an empty table. -/
theorem transferred {plan : HartDevicePlan ρ} {devices : List (RuntimeDevice ρ)} {staged : List HartSubDeviceAssignment}
    (capacity : plan.assignmentCapacity.toNat ≤ 32)
    (room : plan.subDevices.length ≤ plan.assignmentCapacity.toNat)
    (built : plan.transferredAssignments devices = some staged)
    (differ : ∀ (i j : Nat) (a b : HartSubDeviceAssignment), staged[i]? = some a → staged[j]? = some b →
      a.sameIdentity b = true → i = j) :
    AssignmentTable (plan.withAssignments (Vector.ofFn fun i => staged.getD i {})
      (UInt8.ofNat plan.subDevices.length)) := by
  have count : (UInt8.ofNat plan.subDevices.length).toNat = plan.subDevices.length := by
    rw [UInt8.toNat_ofNat']
    omega
  have each := mapM_some built
  have size : plan.subDevices.length = staged.length := by
    simpa using each.length_eq
  have reads : ∀ (i : Nat) entry, (plan.withAssignments (Vector.ofFn fun i => staged.getD i {})
      (UInt8.ofNat plan.subDevices.length)).liveAssignments[i]? = some entry → staged[i]? = some entry := by
    intro i entry here
    obtain ⟨inside, read⟩ := HartDevicePlan.live_withAssignments.mp here
    rw [count] at inside
    have bound : i < staged.length := by omega
    simp only [Vector.getElem?_ofFn, show i < 32 by omega, dite_true, List.getD_eq_getElem?_getD] at read
    rw [List.getElem?_eq_getElem bound] at read ⊢
    exact read
  constructor
  · dsimp only [HartDevicePlan.withAssignments]
    omega
  · exact capacity
  · intro i entry here
    have read := reads i entry here
    have bound := (List.getElem?_eq_some_iff.mp read).1
    have staging := each.get (by simpa [size] using bound) bound
    simp only [List.get_eq_getElem, List.getElem_zipIdx, Nat.zero_add] at staging
    obtain ⟨child, _, made⟩ := Option.map_eq_some_iff.mp staging
    rw [List.getElem?_eq_getElem bound] at read
    rw [← Option.some.inj read, ← made]
    show (UInt16.ofNat (i + 1)).toNat = i + 1
    rw [UInt16.toNat_ofNat']
    omega
  · exact fun i j a b hereA hereB => differ i j a b (reads i a hereA) (reads j b hereB)

end AssignmentTable

/-- The command deletes no entry but the last, repeats no other entry in a replacement, and transfers
sub-devices of different identities. -/
structure SoundAssignment (devices : List (RuntimeDevice ρ)) (plan : HartDevicePlan ρ) (command : HartCommandId)
    (bytes : Bytes) : Prop where
  deletes : command = 530 → ∀ request k, HartSubDeviceAssignment.parse bytes = some request →
    request.deleting = true → plan.liveAssignments.findIdx? request.sameIdentity = some k →
    k + 1 = plan.assignmentCount.toNat
  replaces : command = 530 → ∀ request (k : Nat) entry, HartSubDeviceAssignment.parse bytes = some request →
    request.deleting = false → request.index ≠ 0 → plan.liveAssignments[k]? = some entry →
    request.sameIdentity entry = true → k + 1 = request.index.toNat
  transfers : command = 531 → bytes.length = 1 → ∀ staged, plan.transferredAssignments devices = some staged →
    ∀ (i j : Nat) (a b : HartSubDeviceAssignment), staged[i]? = some a → staged[j]? = some b →
      a.sameIdentity b = true → i = j

theorem assign_table {devices : List (RuntimeDevice ρ)} {plan plan' : HartDevicePlan ρ} {bytes : Bytes}
    {request committed : HartSubDeviceAssignment} (table : AssignmentTable plan)
    (sound : SoundAssignment devices plan 530 bytes) (parsed : HartSubDeviceAssignment.parse bytes = some request)
    (assigned : RuntimeDevice.assign devices plan request = some (plan', committed)) : AssignmentTable plan' := by
  unfold RuntimeDevice.assign at assigned
  simp only [Option.ite_none_left_eq_some] at assigned
  obtain ⟨_, _, unique, inside, assigned⟩ := assigned
  split at assigned
  · rename_i deleting
    split at assigned
    · cases assigned
    · rename_i k found
      cases assigned
      exact table.pop (sound.deletes rfl request k parsed deleting found)
  · rename_i keeping
    have keeps : request.deleting = false := Bool.eq_false_iff.mpr keeping
    simp only [Option.ite_none_left_eq_some] at assigned
    obtain ⟨room, assigned⟩ := assigned
    cases assigned
    have place : (if request.index = 0 then plan.assignmentCount.toNat else request.index.toNat - 1) ≤
        plan.assignmentCount.toNat := by
      split <;> omega
    refine table.put place (by omega) ?_ ?_
    · show (UInt16.ofNat _).toNat = _
      rw [UInt16.toNat_ofNat']
      omega
    · intro k entry here same
      change request.sameIdentity entry = true at same
      split
      · rename_i appends
        refine absurd ⟨appends, keeping, ?_⟩ unique
        rw [List.findIdx?_isSome]
        exact List.any_eq_true.mpr ⟨entry, List.mem_of_getElem? here, same⟩
      · rename_i replaces
        have := sound.replaces rfl request k entry parsed keeps replaces here same
        omega

theorem assignmentCommand_table {devices : List (RuntimeDevice ρ)} {device : RuntimeDevice ρ} {command : HartCommandId}
    {request : Bytes} {response : HartResponseBuilder} (table : AssignmentTable device.plan)
    (sound : SoundAssignment devices device.plan command request) (inside : 528 ≤ command ∧ command ≤ 531) :
    AssignmentTable (RuntimeDevice.assignmentCommand devices device command request response).device.plan := by
  unfold RuntimeDevice.assignmentCommand
  dsimp only
  split
  · exact table
  split
  · split <;> exact table
  split
  · split
    · split
      · exact table
      split
      · exact table
      · exact table.status _ _
    · exact table
  split
  · exact table
  split
  · rename_i assigns
    subst assigns
    split
    · exact table
    · rename_i plan' committed assigned
      obtain ⟨parsed, reads, assigned⟩ := Option.bind_eq_some_iff.mp assigned
      exact assign_table table sound reads assigned
  · split
    · rename_i notAssign _ transferCode
      split
      · exact table
      · rename_i room
        split
        · exact table
        · rename_i staged built
          have transfers : command = 531 := by grind
          exact .transferred table.capacity_le (by omega) built (sound.transfers transfers rfl staged built)
    · exact table

/-! ### Runs -/

theorem childFor_steady {α : Type} {f : RuntimeDevice ρ → α}
    (factors : ∀ device device', Steady device device' → f device' = f device)
    {devices devices' : List (RuntimeDevice ρ)} (each : List.Forall₂ Steady devices devices') (id : String) :
    (childFor devices' id).map f = (childFor devices id).map f := by
  unfold childFor
  induction each with
  | nil => rfl
  | @cons device device' _ _ first _ ih =>
    rw [List.find?_cons, List.find?_cons, first.id]
    split
    · rw [Option.map_some, Option.map_some, factors device device' first]
    · exact ih

theorem transferredAssignments_steady {devices devices' : List (RuntimeDevice ρ)} {plan plan' : HartDevicePlan ρ}
    (each : List.Forall₂ Steady devices devices') (links : plan'.subDevices = plan.subDevices) :
    plan'.transferredAssignments devices' = plan.transferredAssignments devices := by
  unfold HartDevicePlan.transferredAssignments
  rw [links]
  congr 1
  funext ⟨link, i⟩
  refine childFor_steady (fun device device' steady => ?_) each _
  rw [steady.profile, steady.uniqueId, steady.longTag, steady.id]

/-- `SoundAssignment` of the device the call reaches. -/
def SoundCall (engine : HartEngine ρ σ) (call : Call) : Prop :=
  ∀ i device, engine.lookup call.bus call.pollingAddress = some i → engine.devices[i]? = some device →
    SoundAssignment engine.devices device.plan call.command call.request

/-- The command programs leave assignment tables alone. -/
def Host.KeepsAssignments (host : Host ρ σ) : Prop :=
  ∀ programHook, host.programHook = some programHook →
    ∀ profile plan primary command request response masterRole after response',
      programHook profile plan primary command request response masterRole = (true, after, response') →
      after.assignments = plan.assignments ∧ after.assignmentCount = plan.assignmentCount ∧
        after.assignmentCapacity = plan.assignmentCapacity

/-- Command 529 with the index of a live assignment reports the assignment that carries this index. -/
def QueriesByIndex (devices : List (RuntimeDevice ρ)) (device : RuntimeDevice ρ) : Prop :=
  ∀ high low response, device.plan.ioSystem = true → 1 ≤ (readU16 high low).toNat →
    (readU16 high low).toNat ≤ device.plan.assignmentCount.toNat →
    ∃ entry ∈ device.plan.liveAssignments, entry.index = readU16 high low ∧ ∃ status,
      (RuntimeDevice.assignmentCommand devices device 529 [high, low] response).executed =
        (response.write (entry.fields [[status]])).1 ∧
      (RuntimeDevice.assignmentCommand devices device 529 [high, low] response).response =
        (response.write (entry.fields [[status]])).2

theorem AssignmentTable.queries {devices : List (RuntimeDevice ρ)} {device : RuntimeDevice ρ}
    (table : AssignmentTable device.plan) : QueriesByIndex devices device := by
  intro high low response io first last
  have capacity := table.capacity_le
  have count := table.count_le
  have bound : (readU16 high low).toNat - 1 < 32 := by omega
  have live : device.plan.liveAssignments[(readU16 high low).toNat - 1]? =
      some (device.plan.assignments.getD ((readU16 high low).toNat - 1) {}) :=
    HartDevicePlan.live_iff.mpr ⟨by omega, by simp [Vector.getD, bound]⟩
  refine ⟨_, List.mem_of_getElem? live, ?_, device.plan.assignmentStatus devices
    (device.plan.assignments.getD ((readU16 high low).toNat - 1) {}), ?_⟩
  · rw [← UInt16.toNat_inj, table.numbered _ _ live]
    omega
  · have some : ¬device.plan.assignmentCapacity = 0 := by
      intro none
      rw [none] at count
      have : (0 : UInt8).toNat = 0 := rfl
      omega
    have within : ¬device.plan.assignmentCount.toUInt16 < readU16 high low := by
      rw [UInt16.lt_iff_toNat_lt, UInt8.toNat_toUInt16]
      omega
    have positive : ¬readU16 high low = 0 := by
      intro zero
      rw [zero] at first
      exact absurd first (by decide)
    simp only [RuntimeDevice.assignmentCommand, io, some, within, positive, not_true_eq_false, or_self, if_false,
      show ((529 : HartCommandId) = 528) = False from by decide, if_true]
    exact ⟨rfl, rfl⟩

theorem assignmentTable_closed :
    Closed fun devices : List (RuntimeDevice ρ) => ∀ device ∈ devices, AssignmentTable device.plan := by
  intro before after each holds device' member
  obtain ⟨device, mem, steady⟩ := mem_of_forall₂ each member
  exact (holds device mem).of_same steady.assignments steady.assignmentCount steady.assignmentCapacity

theorem begin_subDevices (device : RuntimeDevice ρ) (call : Call) :
    (device.begin call).plan.subDevices = device.plan.subDevices := by
  unfold RuntimeDevice.begin RuntimeDevice.prepare
  split <;> rfl

theorem forall_mem_set {α : Type} {P : α → Prop} {xs : List α} (i : Nat) {x y : α}
    (holds : ∀ z ∈ xs.set i x, P z) (new : P y) : ∀ z ∈ xs.set i y, P z := by
  intro z member
  rw [← List.set_set (a := x)] at member
  rcases List.mem_or_eq_of_mem_set member with before | rfl
  · exact holds z before
  · exact new

theorem SoundAssignment.begin {devices : List (RuntimeDevice ρ)} {device : RuntimeDevice ρ} {call : Call} {i : Nat}
    (sound : SoundAssignment devices device.plan call.command call.request) (here : devices[i]? = some device) :
    SoundAssignment (devices.set i (device.begin call)) (device.begin call).plan call.command call.request := by
  have steady := RuntimeDevice.begin_steady device call
  have live : (device.begin call).plan.liveAssignments = device.plan.liveAssignments := by
    rw [HartDevicePlan.liveAssignments, HartDevicePlan.liveAssignments, steady.assignments, steady.assignmentCount]
  have transferred : (device.begin call).plan.transferredAssignments (devices.set i (device.begin call)) =
      device.plan.transferredAssignments devices :=
    transferredAssignments_steady (Steady.set here steady) (begin_subDevices device call)
  constructor
  · rw [live, steady.assignmentCount]
    exact sound.deletes
  · rw [live]
    exact sound.replaces
  · rw [transferred]
    exact sound.transfers

theorem assignmentTable_commits {host : Host ρ σ} {engine : HartEngine ρ σ} {call : Call}
    (programs : host.KeepsAssignments) (sound : SoundCall engine call) :
    Commits host (fun devices => ∀ device ∈ devices, AssignmentTable device.plan) engine call := by
  have begun : ∀ {i device}, engine.devices[i]? = some device →
      (∀ device' ∈ engine.devices.set i (device.begin call), AssignmentTable device'.plan) →
      AssignmentTable (device.begin call).plan := fun here holds =>
    holds _ (List.mem_of_getElem? (List.getElem?_set_self (List.getElem?_eq_some_iff.mp here).1))
  constructor
  · intro i device response found here inside holds
    refine forall_mem_set i holds ?_
    exact assignmentCommand_table (begun here holds) ((sound i device found here).begin here) inside
  · intro i device programHook plan response response' found here hook accepted holds
    refine forall_mem_set i holds ?_
    obtain ⟨masters, entries, committed⟩ := RuntimeDevice.commitPlan_plan (device.begin call) call.command plan
    obtain ⟨assignments, count, capacity⟩ := programs programHook hook _ _ _ _ _ _ _ _ _ accepted
    rw [committed]
    exact (begun here holds).of_same assignments count capacity

/-- In every run that loads well-formed tables and whose commands are sound, every table stays well formed,
and a query of an index reports the assignment that carries it. -/
theorem assignmentTable_kept (handlers : σ) (operations : List (Host ρ σ × Operation ρ)) (after : HartEngine ρ σ)
    (programs : ∀ host operation, (host, operation) ∈ operations → host.KeepsAssignments)
    (loads : ∀ host plan, (host, .loadPlan plan) ∈ operations → ∀ device ∈ plan, AssignmentTable device)
    (sound : ∀ host operation before,
      Visits (fun engine (step : Host ρ σ × Operation ρ) => step.2.perform step.1 engine) operations
        { handlers := handlers } (host, operation) before →
      ∀ engine call, Issued host before operation engine call → Throughout host engine call SoundCall)
    (ran : run { handlers := handlers } operations = .ok after) :
    ∀ device ∈ after.devices, AssignmentTable device.plan ∧ QueriesByIndex after.devices device := by
  have kept : ∀ device ∈ after.devices, AssignmentTable device.plan := by
    have empty : ∀ device ∈ ([] : List (RuntimeDevice ρ)), AssignmentTable device.plan := by simp
    refine run_keeps assignmentTable_closed empty ?_ ?_ empty ran
    · intro host operation before visited engine call issued engine' call' performed
      refine assignmentTable_commits (programs host operation ?_) ?_
      · obtain ⟨done, rest, split, _⟩ := visited
        exact split ▸ List.mem_append_right done List.mem_cons_self
      · exact sound host operation before visited engine call issued engine' call' performed
    · intro host plan devices loading _ each device member
      obtain ⟨loaded, among, same, _⟩ := mem_of_forall₂ each member
      rw [same]
      exact loads host plan loading loaded among
  exact fun device member => ⟨kept device member, (kept device member).queries⟩

def ioProfile : HartDeviceProfile := { id := "io", commands := [529, 530] }

def ioPlan : HartDevicePlan Unit :=
  { id := "io", profileId := "io", ioSystem := true, assignmentCapacity := 3, rest := () }

def ioHost : Host Unit Unit :=
  { profiles := fun _ => some ioProfile, handler := fun _ => none, programHook := none }

/-- Command 530 without an index for a device of type 5; it deletes when `manufacturer` is 255. -/
def assignmentRequest (manufacturer deviceId : UInt8) : Bytes :=
  [0, 0, 0xFF, 0xFF, manufacturer, manufacturer, 0, 5, 0, 0, deviceId] ++ List.replicate 32 0 ++ [1]

def assignmentOperation (manufacturer deviceId : UInt8) : Operation Unit :=
  .execute { bus := "hart-1", pollingAddress := 0, command := 530, request := assignmentRequest manufacturer deviceId }
    { capacity := 255 }

theorem ioPlan_table : AssignmentTable ioPlan := by
  have empty : ioPlan.liveAssignments = [] := rfl
  constructor
  · decide
  · decide
  · intro i entry here
    simp [empty] at here
  · intro i j a b here
    simp [empty] at here

theorem assignmentRequest_parse (deviceId : UInt8) :
    (HartSubDeviceAssignment.parse (assignmentRequest 1 deviceId)).map (fun request =>
      (request.deleting, request.index)) = some (false, 0) := by
  simp [HartSubDeviceAssignment.parse, assignmentRequest, HartSubDeviceAssignment.deleting, readU16]
  decide

theorem assignmentRequest_sound {devices : List (RuntimeDevice Unit)} {plan : HartDevicePlan Unit} {deviceId : UInt8} :
    SoundAssignment devices plan 530 (assignmentRequest 1 deviceId) := by
  have adds : ∀ request, HartSubDeviceAssignment.parse (assignmentRequest 1 deviceId) = some request →
      request.deleting = false ∧ request.index = 0 := by
    intro request parsed
    have fields := assignmentRequest_parse deviceId
    rw [parsed] at fields
    exact Prod.mk.inj (Option.some.inj fields)
  constructor
  · intro _ request k parsed deleting _
    rw [(adds request parsed).1] at deleting
    cases deleting
  · intro _ request k entry parsed _ numbered _ _
    exact absurd (adds request parsed).2 numbered
  · intro transfers
    exact absurd transfers (by decide)

theorem assignmentTable_kept_twoAssignments :
    Post False (run { handlers := () } [(ioHost, .loadPlan [ioPlan]), (ioHost, assignmentOperation 1 1),
        (ioHost, assignmentOperation 1 2)]) fun after =>
      ∀ device ∈ after.devices, AssignmentTable device.plan ∧ QueriesByIndex after.devices device := by
  have ends : (run { handlers := () } [(ioHost, .loadPlan [ioPlan]), (ioHost, assignmentOperation 1 1),
      (ioHost, assignmentOperation 1 2)]).toOption.map (fun _ => ()) = some () := by decide
  obtain ⟨after, ran, -⟩ := toOption_map ends
  have programs : ioHost.KeepsAssignments := by
    intro programHook hook
    cases hook
  have sound : ∀ deviceId before engine call, Issued ioHost before (assignmentOperation 1 deviceId) engine call →
      Throughout ioHost engine call SoundCall := by
    rintro deviceId before engine call issued engine' call' performed
    cases issued
    have assigns : (530 : HartCommandId) ≠ 0x4B ∧ (530 : HartCommandId) ≠ 0x4D ∧ (530 : HartCommandId) ≠ 0x4E := by
      decide
    obtain ⟨rfl, rfl⟩ := performed.eq_self assigns.1 assigns.2.1 assigns.2.2
    exact fun _ _ _ _ => assignmentRequest_sound
  rw [ran]
  refine assignmentTable_kept () _ after ?_ ?_ ?_ ran
  · intro host operation member
    simp only [List.mem_cons, Prod.mk.injEq, List.not_mem_nil, or_false] at member
    rcases member with ⟨rfl, -⟩ | ⟨rfl, -⟩ | ⟨rfl, -⟩ <;> exact programs
  · intro host plan member device loaded
    simp only [List.mem_cons, Prod.mk.injEq, Operation.loadPlan.injEq, assignmentOperation, reduceCtorEq,
      and_false, List.not_mem_nil, or_false] at member
    obtain ⟨rfl, rfl⟩ := member
    obtain rfl := List.mem_singleton.mp loaded
    exact ioPlan_table
  · intro host operation before visited engine call issued
    obtain ⟨done, rest, split, -⟩ := visited
    have member : (host, operation) ∈ done ++ (host, operation) :: rest :=
      List.mem_append_right done List.mem_cons_self
    rw [← split] at member
    simp only [List.mem_cons, Prod.mk.injEq, List.not_mem_nil, or_false] at member
    rcases member with ⟨rfl, rfl⟩ | ⟨rfl, rfl⟩ | ⟨rfl, rfl⟩
    · cases issued
    · exact sound 1 before engine call issued
    · exact sound 2 before engine call issued

/-- The first of two assignments is deleted and the second keeps its number. -/
theorem deletion_keeps_number :
    Post False (run { handlers := () } [(ioHost, .loadPlan [ioPlan]), (ioHost, assignmentOperation 1 1),
        (ioHost, assignmentOperation 1 2), (ioHost, assignmentOperation 0xFF 1)]) fun after =>
      ∃ device ∈ after.devices, ¬AssignmentTable device.plan ∧ ¬QueriesByIndex after.devices device := by
  have left : (run { handlers := () } [(ioHost, .loadPlan [ioPlan]), (ioHost, assignmentOperation 1 1),
      (ioHost, assignmentOperation 1 2), (ioHost, assignmentOperation 0xFF 1)]).toOption.map (fun after =>
        after.devices.map fun device =>
          (device.plan.ioSystem, device.plan.assignmentCount, device.plan.liveAssignments.map (·.index))) =
      some [(true, 1, [2])] := by decide
  obtain ⟨after, ran, listed⟩ := toOption_map left
  rw [ran]
  have member : (true, 1, [2]) ∈ after.devices.map fun device =>
      (device.plan.ioSystem, device.plan.assignmentCount, device.plan.liveAssignments.map (·.index)) := by
    rw [listed]
    exact List.mem_singleton.mpr rfl
  obtain ⟨device, among, fields⟩ := List.mem_map.mp member
  obtain ⟨io, count, indices⟩ : device.plan.ioSystem = true ∧ device.plan.assignmentCount = 1 ∧
      device.plan.liveAssignments.map (·.index) = [2] := by simpa using fields
  have two : ∀ entry ∈ device.plan.liveAssignments, entry.index = 2 := by
    intro entry live
    have listed := List.mem_map_of_mem (f := HartSubDeviceAssignment.index) live
    rw [indices] at listed
    exact List.mem_singleton.mp listed
  have queried : ¬QueriesByIndex after.devices device := by
    intro queries
    obtain ⟨entry, live, same, -⟩ := queries 0 1 {} io (by decide) (by rw [count]; decide)
    rw [two entry live] at same
    exact absurd same (by decide)
  exact ⟨device, among, fun table => queried table.queries, queried⟩

end LasecSimul.Hart
