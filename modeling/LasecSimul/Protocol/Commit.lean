import LasecSimul.Lib.Fallible

/-!
# Protocol variables

`VariableRegistry` and the value types it stores. Handles are 32 bits wide, as in the source.
-/

namespace LasecSimul.Protocol

open Lib.Fallible

/-- `ProtocolValue`, `R` being the type of `double`. -/
inductive ProtocolValue (R : Type) where
  | boolean (value : Bool)
  | integer (value : Int)
  | real (value : R)
  deriving DecidableEq, Repr

abbrev VariableHandle := UInt32

inductive VariableType where
  | boolean | integer | real
  deriving DecidableEq, Repr

structure VariableDescriptor where
  namespaceId : String
  name : String
  type : VariableType := .real
  writable : Bool := true
  deriving DecidableEq, Repr

inductive ProtocolException where
  | invalidArgument (what : String)
  | outOfRange (what : String)
  | runtimeError (what : String)
  deriving DecidableEq, Repr

variable {R : Type}

def valueMatches (type : VariableType) (value : ProtocolValue R) : Bool :=
  match type, value with
  | .boolean, .boolean _ | .integer, .integer _ | .real, .real _ => true
  | _, _ => false

def keyOf (descriptor : VariableDescriptor) : String := descriptor.namespaceId ++ ":" ++ descriptor.name

structure RegistryEntry (R : Type) where
  descriptor : VariableDescriptor
  value : ProtocolValue R
  deriving DecidableEq, Repr

/-- The keys of `m_byQualifiedName` are those of the entries. -/
structure VariableRegistry (R : Type) where
  entries : List (RegistryEntry R) := []
  deriving DecidableEq, Repr

namespace VariableRegistry

def registerVariable (registry : VariableRegistry R) (descriptor : VariableDescriptor) (initialValue : ProtocolValue R) :
    Except ProtocolException (VariableHandle × VariableRegistry R) :=
  if descriptor.namespaceId = "" ∨ descriptor.name = "" then
    .error (.invalidArgument "protocol variable requires namespace and name")
  else if ¬valueMatches descriptor.type initialValue then
    .error (.invalidArgument "protocol variable initial type mismatch")
  else if registry.entries.any fun entry => keyOf entry.descriptor == keyOf descriptor then
    .error (.invalidArgument ("duplicate protocol variable: " ++ keyOf descriptor))
  else .ok (UInt32.ofNat registry.entries.length, { entries := registry.entries ++ [⟨descriptor, initialValue⟩] })

def entry (registry : VariableRegistry R) (handle : VariableHandle) : Except ProtocolException (RegistryEntry R) :=
  match registry.entries[handle.toNat]? with
  | some entry => .ok entry
  | none => .error (.outOfRange "invalid protocol variable handle")

def descriptor (registry : VariableRegistry R) (handle : VariableHandle) :
    Except ProtocolException VariableDescriptor :=
  (registry.entry handle).map (·.descriptor)

def read (registry : VariableRegistry R) (handle : VariableHandle) : Except ProtocolException (ProtocolValue R) :=
  (registry.entry handle).map (·.value)

def write (registry : VariableRegistry R) (handle : VariableHandle) (value : ProtocolValue R) :
    Except ProtocolException (VariableRegistry R) := do
  let entry ← registry.entry handle
  if ¬entry.descriptor.writable then .error (.runtimeError "protocol variable is read-only")
  else if ¬valueMatches entry.descriptor.type value then .error (.invalidArgument "protocol variable type mismatch")
  else return { entries := registry.entries.set handle.toNat { entry with value := value } }

/-! ### Entries -/

variable {registry after : VariableRegistry R} {handle : VariableHandle} {value : ProtocolValue R}

theorem entry_ok {entry : RegistryEntry R} :
    registry.entry handle = .ok entry ↔ registry.entries[handle.toNat]? = some entry := by
  unfold VariableRegistry.entry
  cases registry.entries[handle.toNat]? with
  | none => simp
  | some found => simp

theorem descriptor_ok {descriptor : VariableDescriptor}
    (found : registry.descriptor handle = .ok descriptor) :
    ∃ value, registry.entries[handle.toNat]? = some ⟨descriptor, value⟩ := by
  unfold VariableRegistry.descriptor at found
  cases here : registry.entry handle with
  | error e =>
    rw [here] at found
    cases found
  | ok entry =>
    rw [here] at found
    cases found
    exact ⟨entry.value, entry_ok.mp here⟩

theorem write_ok (written : registry.write handle value = .ok after) :
    ∃ entry, registry.entries[handle.toNat]? = some entry ∧ entry.descriptor.writable = true ∧
      after = { entries := registry.entries.set handle.toNat { entry with value := value } } := by
  obtain ⟨entry, here, written⟩ := bind_ok written
  split at written
  · cases written
  · rename_i writable
    split at written
    · cases written
    · cases written
      exact ⟨entry, entry_ok.mp here, not_not.mp writable, rfl⟩

theorem write_error {exception : ProtocolException} (failed : registry.write handle value = .error exception)
    {entry : RegistryEntry R} (here : registry.entries[handle.toNat]? = some entry)
    (fits : valueMatches entry.descriptor.type value = true) : entry.descriptor.writable = false := by
  unfold write at failed
  rw [entry_ok.mpr here] at failed
  cases writable : entry.descriptor.writable with
  | false => rfl
  | true => simp [bind, Except.bind, writable, fits, pure, Except.pure] at failed

end VariableRegistry

end LasecSimul.Protocol

/-!
## Semantic bindings

`SemanticBindingPlan::commit` stages every binding before it writes, but leaves the test for read-only
variables to the writes.
-/

namespace LasecSimul.Protocol

open Lib.Fallible VariableRegistry

variable {R : Type}

inductive BindingSourceKind where
  | signalSlot | plcSymbol
  deriving DecidableEq, Repr

structure ProtocolBinding where
  sourceKind : BindingSourceKind := .signalSlot
  sourceHandle : UInt32 := 0
  protocolVariable : VariableHandle := 0
  deriving DecidableEq, Repr

structure SemanticBindingPlan where
  bindings : List ProtocolBinding
  distinct : bindings.Pairwise fun a b => a.protocolVariable ≠ b.protocolVariable

namespace SemanticBindingPlan

def empty : SemanticBindingPlan := ⟨[], .nil⟩

def add (plan : SemanticBindingPlan) (binding : ProtocolBinding) : Except ProtocolException SemanticBindingPlan :=
  if free : ∀ existing ∈ plan.bindings, existing.protocolVariable ≠ binding.protocolVariable then
    .ok ⟨plan.bindings ++ [binding], List.pairwise_append.mpr ⟨plan.distinct, List.pairwise_singleton _ _, by simpa using free⟩⟩
  else .error (.invalidArgument "protocol variable has multiple binding sources")

def stageBinding (sourceValues : UInt32 → Option (ProtocolValue R)) (registry : VariableRegistry R)
    (binding : ProtocolBinding) : Except ProtocolException (VariableHandle × ProtocolValue R) :=
  match sourceValues binding.sourceHandle with
  | none => .error (.outOfRange "binding source handle has no value")
  | some value => do
    let descriptor ← registry.descriptor binding.protocolVariable
    if ¬valueMatches descriptor.type value then .error (.invalidArgument "binding type mismatch")
    else return (binding.protocolVariable, value)

/-- The first loop of `commit`. -/
def stage (plan : SemanticBindingPlan) (sourceValues : UInt32 → Option (ProtocolValue R))
    (registry : VariableRegistry R) : Except ProtocolException (List (VariableHandle × ProtocolValue R)) :=
  plan.bindings.mapM (stageBinding sourceValues registry)

def writeStaged (registry : VariableRegistry R) (staged : VariableHandle × ProtocolValue R) :
    Except ProtocolException (VariableRegistry R) :=
  registry.write staged.1 staged.2

/-- The registry after `commit`, and how `commit` ended. -/
def commit (plan : SemanticBindingPlan) (sourceValues : UInt32 → Option (ProtocolValue R))
    (registry : VariableRegistry R) : VariableRegistry R × Except ProtocolException Unit :=
  match plan.stage sourceValues registry with
  | .error exception => (registry, .error exception)
  | .ok staged => sweep writeStaged registry staged

end SemanticBindingPlan

open SemanticBindingPlan

variable {plan : SemanticBindingPlan} {sourceValues : UInt32 → Option (ProtocolValue R)}
  {registry before after : VariableRegistry R} {bindings : List ProtocolBinding}
  {items : List (VariableHandle × ProtocolValue R)}

structure Staged (sourceValues : UInt32 → Option (ProtocolValue R)) (registry : VariableRegistry R)
    (binding : ProtocolBinding) (item : VariableHandle × ProtocolValue R) : Prop where
  handle : item.1 = binding.protocolVariable
  value : sourceValues binding.sourceHandle = some item.2
  entry : ∃ entry, registry.entries[item.1.toNat]? = some entry ∧ valueMatches entry.descriptor.type item.2 = true

theorem stageBinding_ok {binding : ProtocolBinding} {item : VariableHandle × ProtocolValue R}
    (staged : stageBinding sourceValues registry binding = .ok item) : Staged sourceValues registry binding item := by
  unfold stageBinding at staged
  split at staged
  · cases staged
  · rename_i value found
    obtain ⟨descriptor, here, staged⟩ := bind_ok staged
    obtain ⟨stored, at_handle⟩ := descriptor_ok here
    split at staged
    · cases staged
    · rename_i fits
      cases staged
      exact ⟨rfl, found, _, at_handle, not_not.mp fits⟩

/-- The items are written over `before`, one after another. -/
structure Written (before : VariableRegistry R) (items : List (VariableHandle × ProtocolValue R))
    (after : VariableRegistry R) : Prop where
  length : after.entries.length = before.entries.length
  others : ∀ i, (∀ item ∈ items, item.1.toNat ≠ i) → after.entries[i]? = before.entries[i]?
  items : ∀ item ∈ items, ∃ entry, before.entries[item.1.toNat]? = some entry ∧ entry.descriptor.writable = true ∧
    after.entries[item.1.toNat]? = some { entry with value := item.2 }

theorem writes_ok (distinct : items.Pairwise fun a b => a.1 ≠ b.1) (run : items.foldlM writeStaged before = .ok after) :
    Written before items after := by
  refine foldlM_history (P := fun done after => done.Pairwise (fun a b => a.1 ≠ b.1) → Written before done after)
    run ?_ ?_ distinct
  · exact fun _ => ⟨rfl, fun _ _ => rfl, nofun⟩
  · intro done item middle next earlier step distinct
    obtain ⟨distinct, _, apart⟩ := List.pairwise_append.mp distinct
    have written := earlier distinct
    obtain ⟨entry, here, writable, rfl⟩ := write_ok step
    have away : ∀ other ∈ done, other.1.toNat ≠ item.1.toNat := fun other member same =>
      apart other member item (List.mem_singleton.mpr rfl) (UInt32.toNat_inj.mp same)
    have inside : item.1.toNat < middle.entries.length := (List.getElem?_eq_some_iff.mp here).1
    constructor
    · exact List.length_set.trans written.length
    · intro i untouched
      have differs : item.1.toNat ≠ i := untouched item (List.mem_append_right _ (List.mem_singleton.mpr rfl))
      rw [List.getElem?_set_ne differs]
      exact written.others i fun other member => untouched other (List.mem_append_left _ member)
    · intro other member
      rcases List.mem_append.mp member with member | last
      · obtain ⟨entry', before', writable', after'⟩ := written.items other member
        exact ⟨entry', before', writable', by rw [List.getElem?_set_ne (away other member).symm]; exact after'⟩
      · obtain rfl := List.mem_singleton.mp last
        exact ⟨entry, written.others _ away ▸ here, writable, List.getElem?_set_self inside⟩

theorem Written.eq_iff (written : Written before items after) :
    after = before ↔ ∀ item ∈ items, ∃ entry, before.entries[item.1.toNat]? = some entry ∧ entry.value = item.2 := by
  constructor
  · rintro rfl item member
    obtain ⟨entry, here, _, stored⟩ := written.items item member
    exact ⟨_, stored, rfl⟩
  · intro same
    have entries : after.entries = before.entries := by
      apply List.ext_getElem?
      intro i
      by_cases reached : ∃ item ∈ items, item.1.toNat = i
      · obtain ⟨item, member, rfl⟩ := reached
        obtain ⟨entry, here, _, stored⟩ := written.items item member
        obtain ⟨entry', here', value⟩ := same item member
        obtain rfl := Option.some.inj (here.symm.trans here')
        rw [stored, here, ← value]
      · exact written.others i fun item member at_i => reached ⟨item, member, at_i⟩
    cases after
    cases before
    exact congrArg VariableRegistry.mk entries

/-! ### What commit promises -/

/-- Every bound variable has the value of its source, and nothing else changed. -/
structure Applied (plan : SemanticBindingPlan) (sourceValues : UInt32 → Option (ProtocolValue R))
    (before after : VariableRegistry R) : Prop where
  length : after.entries.length = before.entries.length
  bound : ∀ binding ∈ plan.bindings, ∃ entry value, before.entries[binding.protocolVariable.toNat]? = some entry ∧
    sourceValues binding.sourceHandle = some value ∧
    after.entries[binding.protocolVariable.toNat]? = some { entry with value := value }
  others : ∀ i, (∀ binding ∈ plan.bindings, binding.protocolVariable.toNat ≠ i) → after.entries[i]? = before.entries[i]?

structure AllOrNothing (plan : SemanticBindingPlan) (sourceValues : UInt32 → Option (ProtocolValue R))
    (registry : VariableRegistry R) : Prop where
  throws : ∀ exception, (plan.commit sourceValues registry).2 = .error exception →
    (plan.commit sourceValues registry).1 = registry
  returns : (plan.commit sourceValues registry).2 = .ok () →
    Applied plan sourceValues registry (plan.commit sourceValues registry).1

/-- The source has a value, of the type of the variable. -/
def Fits (sourceValues : UInt32 → Option (ProtocolValue R)) (registry : VariableRegistry R) (binding : ProtocolBinding) :
    Prop :=
  ∃ entry value, registry.entries[binding.protocolVariable.toNat]? = some entry ∧
    sourceValues binding.sourceHandle = some value ∧ valueMatches entry.descriptor.type value = true

def ReadOnly (registry : VariableRegistry R) (binding : ProtocolBinding) : Prop :=
  ∃ entry, registry.entries[binding.protocolVariable.toNat]? = some entry ∧ entry.descriptor.writable = false

/-- The variable already has the value of its source. -/
def Current (sourceValues : UInt32 → Option (ProtocolValue R)) (registry : VariableRegistry R)
    (binding : ProtocolBinding) : Prop :=
  ∃ entry, registry.entries[binding.protocolVariable.toNat]? = some entry ∧
    sourceValues binding.sourceHandle = some entry.value

/-- Some binding does not fit, or those before the first read-only variable would change nothing. -/
def SafeToCommit (plan : SemanticBindingPlan) (sourceValues : UInt32 → Option (ProtocolValue R))
    (registry : VariableRegistry R) : Prop :=
  (∃ binding ∈ plan.bindings, ¬Fits sourceValues registry binding) ∨
  ∀ done binding rest, plan.bindings = done ++ binding :: rest → (∀ earlier ∈ done, ¬ReadOnly registry earlier) →
    ReadOnly registry binding → ∀ earlier ∈ done, Current sourceValues registry earlier

theorem Staged.fits {binding : ProtocolBinding} {item : VariableHandle × ProtocolValue R}
    (staged : Staged sourceValues registry binding item) : Fits sourceValues registry binding := by
  obtain ⟨entry, here, matching⟩ := staged.entry
  exact ⟨entry, item.2, staged.handle ▸ here, staged.value, matching⟩

theorem Fits.stages {binding : ProtocolBinding} (fits : Fits sourceValues registry binding) :
    ∃ item, stageBinding sourceValues registry binding = .ok item := by
  obtain ⟨entry, value, here, found, matching⟩ := fits
  refine ⟨(binding.protocolVariable, value), ?_⟩
  have described : registry.descriptor binding.protocolVariable = .ok entry.descriptor := by
    unfold descriptor
    rw [entry_ok.mpr here]
    rfl
  unfold stageBinding
  simp [found, described, matching, bind, Except.bind, pure, Except.pure]

theorem stage_ok (staged : plan.stage sourceValues registry = .ok items) :
    List.Forall₂ (Staged sourceValues registry) plan.bindings items :=
  (mapM_forall₂ staged).imp fun _ _ => stageBinding_ok

theorem stage_error {exception : ProtocolException}
    (failed : plan.stage sourceValues registry = .error exception) :
    ∃ binding ∈ plan.bindings, ¬Fits sourceValues registry binding := by
  by_contra fitting
  push Not at fitting
  obtain ⟨items, staged, _⟩ := mapM_exists plan.bindings (stageBinding sourceValues registry) fun binding member =>
    (fitting binding member).stages
  rw [stage, staged] at failed
  cases failed

theorem staged_distinct (staged : List.Forall₂ (Staged sourceValues registry) bindings items)
    (distinct : bindings.Pairwise fun a b => a.protocolVariable ≠ b.protocolVariable) :
    items.Pairwise fun a b => a.1 ≠ b.1 := by
  have handles : bindings.map (·.protocolVariable) = items.map (·.1) :=
    map_eq_of_forall₂ staged fun _ _ one => one.handle.symm
  rw [← List.pairwise_map (f := fun item : VariableHandle × ProtocolValue R => item.1), ← handles, List.pairwise_map]
  exact distinct

theorem Written.applied (written : Written before items after)
    (staged : List.Forall₂ (Staged sourceValues before) plan.bindings items) :
    Applied plan sourceValues before after := by
  refine ⟨written.length, fun binding member => ?_, fun i untouched => written.others i fun item member => ?_⟩
  · obtain ⟨item, member, one⟩ := exists_of_forall₂ staged member
    obtain ⟨entry, here, _, stored⟩ := written.items item member
    rw [one.handle] at here stored
    exact ⟨entry, item.2, here, one.value, stored⟩
  · obtain ⟨binding, member, one⟩ := mem_of_forall₂ staged member
    rw [one.handle]
    exact untouched binding member

theorem Written.not_readOnly (written : Written before items after)
    (staged : List.Forall₂ (Staged sourceValues before) bindings items) :
    ∀ binding ∈ bindings, ¬ReadOnly before binding := by
  rintro binding member ⟨entry, here, readOnly⟩
  obtain ⟨item, member, one⟩ := exists_of_forall₂ staged member
  obtain ⟨entry', here', writable, _⟩ := written.items item member
  rw [one.handle, here] at here'
  obtain rfl := Option.some.inj here'
  simp [readOnly] at writable

/-- The writes made before the one that fails are undone by nothing, so they must have changed nothing. -/
theorem Written.eq_iff_current (written : Written before items after)
    (staged : List.Forall₂ (Staged sourceValues before) bindings items) :
    after = before ↔ ∀ binding ∈ bindings, Current sourceValues before binding := by
  rw [written.eq_iff]
  constructor
  · intro same binding member
    obtain ⟨item, member, one⟩ := exists_of_forall₂ staged member
    obtain ⟨entry, here, value⟩ := same item member
    exact ⟨entry, one.handle ▸ here, value ▸ one.value⟩
  · intro current item member
    obtain ⟨binding, member, one⟩ := mem_of_forall₂ staged member
    obtain ⟨entry, here, value⟩ := current binding member
    rw [← one.handle] at here
    exact ⟨entry, here, Option.some.inj (value.symm.trans one.value)⟩

theorem commit_allOrNothing (plan : SemanticBindingPlan) (sourceValues : UInt32 → Option (ProtocolValue R))
    (registry : VariableRegistry R) :
    AllOrNothing plan sourceValues registry ↔ SafeToCommit plan sourceValues registry := by
  cases staging : plan.stage sourceValues registry with
  | error exception =>
    have ended : plan.commit sourceValues registry = (registry, .error exception) := by rw [commit, staging]
    refine iff_of_true ⟨fun _ _ => by rw [ended], ?_⟩ (.inl (stage_error staging))
    rw [ended]
    nofun
  | ok items =>
    have staged := stage_ok staging
    have distinct := staged_distinct staged plan.distinct
    have ended : plan.commit sourceValues registry = sweep writeStaged registry items := by rw [commit, staging]
    have fitting : ¬∃ binding ∈ plan.bindings, ¬Fits sourceValues registry binding := by
      rintro ⟨binding, member, unfit⟩
      obtain ⟨item, _, one⟩ := exists_of_forall₂ staged member
      exact unfit one.fits
    rcases sweep_cases writeStaged registry items with ⟨last, run, swept⟩ | ⟨done, item, rest, acc, e, split, run, stop, swept⟩
    · have written := writes_ok distinct run
      rw [swept] at ended
      refine iff_of_true ⟨?_, fun _ => ?_⟩ (.inr fun done binding rest split _ readOnly => ?_)
      · rw [ended]
        nofun
      · rw [ended]
        exact written.applied staged
      · exact absurd readOnly (written.not_readOnly staged binding (by simp [split]))
    · rw [swept] at ended
      subst split
      obtain ⟨doneBindings, lastBindings, earlier, later, split⟩ := forall₂_append_right staged
      cases later with
      | @cons binding _ restBindings _ one later =>
        have written := writes_ok (List.pairwise_append.mp distinct).1 run
        have fresh := written.not_readOnly earlier
        have apart : ∀ other ∈ done, other.1.toNat ≠ item.1.toNat := fun other member same =>
          (List.pairwise_append.mp distinct).2.2 other member item List.mem_cons_self (UInt32.toNat_inj.mp same)
        obtain ⟨entry, here, matching⟩ := one.entry
        have readOnly : ReadOnly registry binding :=
          ⟨entry, one.handle ▸ here, write_error stop ((written.others _ apart).trans here) matching⟩
        have unchanged : AllOrNothing plan sourceValues registry ↔ acc = registry := by
          constructor
          · intro kept
            have same := kept.throws e (by rw [ended])
            rwa [ended] at same
          · rintro rfl
            refine ⟨fun _ _ => by rw [ended], ?_⟩
            rw [ended]
            nofun
        rw [unchanged, written.eq_iff_current earlier]
        constructor
        · intro current
          refine .inr fun done' binding' rest' split' fresh' readOnly' => ?_
          rw [split] at split'
          rw [← first_unique split' fresh readOnly fresh' readOnly']
          exact current
        · rintro (unfit | safe)
          · exact absurd unfit fitting
          · exact safe doneBindings binding restBindings split fresh readOnly

/-- Two variables, the second read-only, and a source for each. -/
theorem commit_changes_half : ¬∀ (plan : SemanticBindingPlan) (sourceValues : UInt32 → Option (ProtocolValue Int))
    (registry : VariableRegistry Int), AllOrNothing plan sourceValues registry := by
  intro kept
  have half := (kept ⟨[{ sourceHandle := 0, protocolVariable := 0 }, { sourceHandle := 0, protocolVariable := 1 }],
    by simp⟩ (fun _ => some (.integer 5))
    { entries := [⟨{ namespaceId := "plc", name := "setpoint", type := .integer }, .integer 0⟩,
      ⟨{ namespaceId := "plc", name := "measured", type := .integer, writable := false }, .integer 0⟩] }).throws
      (.runtimeError "protocol variable is read-only") (by decide)
  revert half
  decide

end LasecSimul.Protocol
