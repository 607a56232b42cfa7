import LasecSimul.Base.Binary64
import LasecSimul.Protocol.Commit

/-!
# The Modbus endpoint

`ModbusSemanticEndpoint` maps addresses to protocol variables. The address of a register is the start address
plus an offset, cut to 16 bits.
-/

namespace LasecSimul.Protocol

open Lib.Fallible Lib.Binary VariableRegistry

inductive ModbusArea where
  | coil | discreteInput | inputRegister | holdingRegister
  deriving DecidableEq, Repr

structure ModbusMapping where
  unitId : UInt8 := 1
  area : ModbusArea := .holdingRegister
  address : UInt16 := 0
  variableHandle : VariableHandle := 0
  scale : FloatValue := 1
  offset : FloatValue := 0
  deriving DecidableEq

inductive ModbusException where
  | registry (exception : ProtocolException)
  | invalidArgument (what : String)
  | outOfRange (what : String)
  | runtimeError (what : String)
  | overflowError (what : String)
  | protocolTimeout (what : String)
  deriving DecidableEq

abbrev Registry := VariableRegistry FloatValue

/-- `read` and `write`; a read has no values. -/
inductive ModbusFunction where
  | read (quantity : UInt16)
  | write (values : List UInt16)
  deriving DecidableEq

structure ModbusRequest where
  unitId : UInt8
  area : ModbusArea
  address : UInt16
  function : ModbusFunction
  virtualNowNs : Nat
  virtualDeadlineNs : Nat
  deriving DecidableEq

namespace ModbusRequest

variable (mappings : List ModbusMapping) (registry : Registry) (request : ModbusRequest)

def quantity : Nat :=
  match request.function with
  | .read quantity => quantity.toNat
  | .write values => values.length

/-- `static_cast<uint16_t>(address + offset)`. -/
def addressAt (offset : Nat) : UInt16 := UInt16.ofNat (request.address.toNat + offset)

def enforceDeadline : Except ModbusException Unit :=
  if request.virtualDeadlineNs < request.virtualNowNs then
    .error (.protocolTimeout "Modbus virtual deadline exceeded")
  else .ok ()

def requireMapping (address : UInt16) : Except ModbusException ModbusMapping :=
  match mappings.find? fun mapping =>
    mapping.unitId = request.unitId && mapping.area = request.area && mapping.address = address with
  | some mapping => .ok mapping
  | none => .error (.outOfRange "unmapped Modbus address")

end ModbusRequest

def ofRegistry {α : Type} (result : Except ProtocolException α) : Except ModbusException α :=
  result.mapError .registry

def numeric : ProtocolValue FloatValue → FloatValue
  | .boolean value => if value then 1 else 0
  | .integer value => binary64.ofRat false value
  | .real value => value

def ModbusMapping.encode (mapping : ModbusMapping) (value : ProtocolValue FloatValue) :
    Except ModbusException UInt16 :=
  let encoded := (numeric value - mapping.offset) / mapping.scale
  if !Double.isFinite encoded || Double.lt encoded 0 || Double.lt 65535.0 encoded then
    .error (.overflowError "Modbus value out of range")
  else .ok (UInt16.ofNat (Double.round encoded).toNat)

def ModbusMapping.decode (mapping : ModbusMapping) (descriptor : VariableDescriptor) (value : UInt16) :
    ProtocolValue FloatValue :=
  let decoded := Double.ofUnsigned value.toNat * mapping.scale + mapping.offset
  match descriptor.type with
  | .boolean => .boolean (!Double.eq decoded 0)
  | .integer => .integer (Double.round decoded)
  | .real => .real decoded

namespace ModbusRequest

variable (mappings : List ModbusMapping) (registry : Registry) (request : ModbusRequest)

def readAt (offset : Nat) : Except ModbusException UInt16 := do
  let mapping ← request.requireMapping mappings (request.addressAt offset)
  let value ← ofRegistry (registry.read mapping.variableHandle)
  mapping.encode value

def stageAt (offset : Nat × UInt16) : Except ModbusException (VariableHandle × ProtocolValue FloatValue) := do
  let mapping ← request.requireMapping mappings (request.addressAt offset.1)
  let descriptor ← ofRegistry (registry.descriptor mapping.variableHandle)
  if !descriptor.writable then throw (.runtimeError "Modbus mapping targets read-only variable")
  return (mapping.variableHandle, mapping.decode descriptor offset.2)

def writeStaged (registry : Registry) (item : VariableHandle × ProtocolValue FloatValue) :
    Except ModbusException Registry :=
  ofRegistry (registry.write item.1 item.2)

def read (quantity : UInt16) : Except ModbusException (List UInt16) := do
  request.enforceDeadline
  if quantity = 0 then throw (.invalidArgument "Modbus quantity must be positive")
  (List.range quantity.toNat).mapM (request.readAt mappings registry)

/-- The first loop of `write`. -/
def stage (values : List UInt16) : Except ModbusException (List (VariableHandle × ProtocolValue FloatValue)) := do
  request.enforceDeadline
  if request.area ≠ .coil ∧ request.area ≠ .holdingRegister then
    throw (.invalidArgument "Modbus area is read-only")
  ((List.range values.length).zip values).mapM (request.stageAt mappings registry)

/-- The registry after `write`, and how it ended. -/
def write (values : List UInt16) : Registry × Except ModbusException Unit :=
  match request.stage mappings registry values with
  | .error exception => (registry, .error exception)
  | .ok staged => sweep writeStaged registry staged

/-- The registry after the request, and the values read. -/
def perform : Registry × Except ModbusException (List UInt16) :=
  match request.function with
  | .read quantity => (registry, request.read mappings registry quantity)
  | .write values => ((request.write mappings registry values).1, (request.write mappings registry values).2.map fun _ => [])

/-- The mappings of the addresses from the start address on, none above 65535. -/
structure Uses (used : List ModbusMapping) : Prop where
  inRange : request.address.toNat + request.quantity ≤ 65536
  addresses : used.map (·.address.toNat) = List.range' request.address.toNat request.quantity
  mapped : ∀ mapping ∈ used, mapping ∈ mappings ∧ mapping.unitId = request.unitId ∧ mapping.area = request.area

/-- The registry with a register's value in its variable. -/
def store (registry : Registry) (item : ModbusMapping × UInt16) : Registry :=
  match registry.entry item.1.variableHandle with
  | .ok entry =>
    ⟨registry.entries.set item.1.variableHandle.toNat ⟨entry.descriptor, item.1.decode entry.descriptor item.2⟩⟩
  | .error _ => registry

def Reads (registry : Registry) (mapping : ModbusMapping) (value : UInt16) : Prop :=
  ∃ stored, registry.read mapping.variableHandle = .ok stored ∧ mapping.encode stored = .ok value

/-- A successful request reads or writes its addresses in order, and a failed one changes nothing. -/
def InRange : Prop :=
  match request.perform mappings registry with
  | (after, .ok values) => ∃ used, request.Uses mappings used ∧
      match request.function with
      | .read _ => after = registry ∧ List.Forall₂ (Reads registry) used values
      | .write written => after = (used.zip written).foldl store registry
  | (after, .error _) => after = registry

/-- The checks of the request, at the addresses that it looks up. -/
def Admitted : Prop :=
  request.virtualNowNs ≤ request.virtualDeadlineNs ∧
    match request.function with
    | .read quantity => quantity ≠ 0 ∧
        ∀ offset ∈ List.range quantity.toNat, ∃ value, request.readAt mappings registry offset = .ok value
    | .write values => (request.area = .coil ∨ request.area = .holdingRegister) ∧
        ∀ offset ∈ (List.range values.length).zip values, ∃ item, request.stageAt mappings registry offset = .ok item

variable {mappings registry request}

theorem requireMapping_ok {address : UInt16} {mapping : ModbusMapping}
    (found : request.requireMapping mappings address = .ok mapping) :
    mapping ∈ mappings ∧ mapping.unitId = request.unitId ∧ mapping.area = request.area ∧ mapping.address = address := by
  unfold requireMapping at found
  split at found
  · rename_i here
    cases found
    have matching := List.find?_some here
    simp only [Bool.and_eq_true, decide_eq_true_eq] at matching
    exact ⟨List.mem_of_find?_eq_some here, matching.1.1, matching.1.2, matching.2⟩
  · cases found

theorem ofRegistry_ok {α : Type} {result : Except ProtocolException α} {value : α} :
    ofRegistry result = .ok value ↔ result = .ok value := by
  cases result <;> simp [ofRegistry, Except.mapError]

theorem readAt_ok {offset : Nat} {value : UInt16} (read : request.readAt mappings registry offset = .ok value) :
    ∃ mapping, request.requireMapping mappings (request.addressAt offset) = .ok mapping ∧
      Reads registry mapping value := by
  obtain ⟨mapping, found, read⟩ := bind_ok read
  obtain ⟨stored, here, encoded⟩ := bind_ok read
  exact ⟨mapping, found, stored, ofRegistry_ok.mp here, encoded⟩

/-- The value and the handle of a register that may be written. -/
structure Stages (registry : Registry) (mapping : ModbusMapping) (value : UInt16)
    (item : VariableHandle × ProtocolValue FloatValue) (entry : RegistryEntry FloatValue) : Prop where
  here : registry.entry mapping.variableHandle = .ok entry
  writable : entry.descriptor.writable = true
  item : item = (mapping.variableHandle, mapping.decode entry.descriptor value)

theorem stageAt_ok {offset : Nat × UInt16} {item : VariableHandle × ProtocolValue FloatValue}
    (staged : request.stageAt mappings registry offset = .ok item) :
    ∃ mapping entry, request.requireMapping mappings (request.addressAt offset.1) = .ok mapping ∧
      Stages registry mapping offset.2 item entry := by
  obtain ⟨mapping, found, staged⟩ := bind_ok staged
  obtain ⟨descriptor, described, staged⟩ := bind_ok staged
  rw [ofRegistry_ok] at described
  unfold VariableRegistry.descriptor at described
  cases here : registry.entry mapping.variableHandle with
  | error exception =>
    rw [here] at described
    cases described
  | ok entry =>
    rw [here] at described
    cases described
    cases writable : entry.descriptor.writable with
    | false =>
      rw [writable] at staged
      cases staged
    | true =>
      rw [writable] at staged
      cases staged
      exact ⟨mapping, entry, found, here, writable, rfl⟩

theorem toNat_addressAt {offset : Nat} (inRange : request.address.toNat + offset < 65536) :
    (request.addressAt offset).toNat = request.address.toNat + offset := by
  unfold addressAt
  rw [UInt16.toNat_ofNat']
  exact Nat.mod_eq_of_lt inRange

/-- The mappings that a loop over offsets looked up, if none of the addresses was cut. -/
theorem uses_of_offsets {offsets : List Nat} {used : List ModbusMapping}
    (each : List.Forall₂ (fun offset mapping =>
      request.requireMapping mappings (request.addressAt offset) = .ok mapping) offsets used)
    (all : offsets = List.range request.quantity) (inRange : request.address.toNat + request.quantity ≤ 65536) :
    request.Uses mappings used := by
  refine ⟨inRange, ?_, fun mapping member => ?_⟩
  · have cut : used.map (·.address.toNat) = offsets.map (request.address.toNat + ·) := by
      refine (map_eq_of_forall₂ (forall₂_mem each) fun offset mapping looked => ?_).symm
      have inside : offset < request.quantity := List.mem_range.mp (all ▸ looked.1)
      rw [(requireMapping_ok looked.2).2.2.2, toNat_addressAt (by omega)]
    rw [cut, all, List.range_eq_range', List.map_add_range', Nat.add_zero]
  · obtain ⟨offset, _, looked⟩ := mem_of_forall₂ each member
    obtain ⟨member, unit, area, _⟩ := requireMapping_ok looked
    exact ⟨member, unit, area⟩

theorem reads_of_values {offsets : List Nat} {values : List UInt16}
    (each : List.Forall₂ (fun offset value => request.readAt mappings registry offset = .ok value) offsets values) :
    ∃ used, List.Forall₂ (fun offset mapping =>
        request.requireMapping mappings (request.addressAt offset) = .ok mapping) offsets used ∧
      List.Forall₂ (Reads registry) used values := by
  induction each with
  | nil => exact ⟨[], .nil, .nil⟩
  | cons read _ ih =>
    obtain ⟨mapping, found, reads⟩ := readAt_ok read
    obtain ⟨used, lookups, rest⟩ := ih
    exact ⟨mapping :: used, .cons found lookups, .cons reads rest⟩

/-- Two registries with the same variables. -/
def SameVariables (a b : Registry) : Prop := a.entries.map (·.descriptor) = b.entries.map (·.descriptor)

theorem SameVariables.entry {a b : Registry} (same : SameVariables a b) {handle : VariableHandle}
    {entry : RegistryEntry FloatValue} (here : a.entry handle = .ok entry) :
    ∃ entry', b.entry handle = .ok entry' ∧ entry'.descriptor = entry.descriptor := by
  have descriptors := congrArg (·[handle.toNat]?) same
  simp only [List.getElem?_map, entry_ok.mp here, Option.map_some] at descriptors
  obtain ⟨entry', here', equal⟩ := Option.map_eq_some_iff.mp descriptors.symm
  exact ⟨entry', entry_ok.mpr here', equal⟩

theorem map_set_same {α β : Type} {f : α → β} {xs : List α} {i : Nat} {x y : α} (here : xs[i]? = some x)
    (same : f y = f x) : (xs.set i y).map f = xs.map f := by
  induction xs generalizing i with
  | nil => rfl
  | cons head xs ih =>
    cases i with
    | zero =>
      cases here
      rw [List.set_cons_zero, List.map_cons, List.map_cons, same]
    | succ i => rw [List.set_cons_succ, List.map_cons, List.map_cons, ih here]

theorem sameVariables_store (registry : Registry) (item : ModbusMapping × UInt16) :
    SameVariables registry (store registry item) := by
  unfold store SameVariables
  split
  · rename_i entry here
    symm
    apply map_set_same (entry_ok.mp here)
    rfl
  · rfl

/-- A staged value is stored; its checks hold whatever was stored before. -/
theorem writeStaged_store {before : Registry} {mapping : ModbusMapping} {value : UInt16}
    {item : VariableHandle × ProtocolValue FloatValue} {entry : RegistryEntry FloatValue}
    (staged : Stages registry mapping value item entry) (same : SameVariables registry before) :
    writeStaged before item = .ok (store before (mapping, value)) := by
  obtain ⟨entry', here, descriptor⟩ := same.entry staged.here
  have matching : valueMatches entry.descriptor.type (mapping.decode entry.descriptor value) = true := by
    unfold ModbusMapping.decode
    cases entry.descriptor.type <;> rfl
  unfold writeStaged
  rw [ofRegistry_ok, staged.item]
  unfold VariableRegistry.write store
  rw [here]
  simp only [bind, Except.bind, pure, Except.pure, descriptor, staged.writable, matching, not_true_eq_false, if_false]

theorem sweep_stored {items : List (VariableHandle × ProtocolValue FloatValue)} {pairs : List (ModbusMapping × UInt16)}
    (staged : List.Forall₂ (fun pair item => ∃ entry, Stages registry pair.1 pair.2 item entry) pairs items)
    {before : Registry} (same : SameVariables registry before) :
    sweep writeStaged before items = (pairs.foldl store before, .ok ()) := by
  induction staged generalizing before with
  | nil => rfl
  | cons first _ ih =>
    obtain ⟨entry, first⟩ := first
    rw [sweep, writeStaged_store first same]
    exact ih (same.trans (sameVariables_store before _))

theorem pairs_of_items {offsets : List (Nat × UInt16)} {items : List (VariableHandle × ProtocolValue FloatValue)}
    (each : List.Forall₂ (fun offset item => request.stageAt mappings registry offset = .ok item) offsets items) :
    ∃ used, List.Forall₂ (fun offset mapping =>
        request.requireMapping mappings (request.addressAt offset) = .ok mapping) (offsets.map (·.1)) used ∧
      List.Forall₂ (fun pair item => ∃ entry, Stages registry pair.1 pair.2 item entry)
        (used.zip (offsets.map (·.2))) items := by
  induction each with
  | nil => exact ⟨[], .nil, .nil⟩
  | cons staged _ ih =>
    obtain ⟨mapping, entry, found, stages⟩ := stageAt_ok staged
    obtain ⟨used, lookups, rest⟩ := ih
    exact ⟨mapping :: used, .cons found lookups, .cons ⟨entry, stages⟩ rest⟩

theorem range_zip (values : List UInt16) :
    ((List.range values.length).zip values).map (·.1) = List.range values.length ∧
      ((List.range values.length).zip values).map (·.2) = values := by
  exact ⟨List.map_fst_zip (by simp), List.map_snd_zip (by simp)⟩

/-- How a request ends: it is refused, or all its addresses were looked up. -/
inductive Ends (mappings : List ModbusMapping) (registry : Registry) (request : ModbusRequest) :
    Registry × Except ModbusException (List UInt16) → Prop
  | refused (not : ¬request.Admitted mappings registry) (exception : ModbusException) :
    Ends mappings registry request (registry, .error exception)
  | served (admitted : request.Admitted mappings registry) {after : Registry} {values : List UInt16}
    {used : List ModbusMapping}
    (lookups : List.Forall₂ (fun offset mapping =>
      request.requireMapping mappings (request.addressAt offset) = .ok mapping) (List.range request.quantity) used)
    (effect : match request.function with
      | .read _ => after = registry ∧ List.Forall₂ (Reads registry) used values
      | .write written => after = (used.zip written).foldl store registry) :
    Ends mappings registry request (after, .ok values)

theorem perform_late (late : request.virtualDeadlineNs < request.virtualNowNs) :
    request.Ends mappings registry (request.perform mappings registry) := by
  have expired : request.enforceDeadline = .error (.protocolTimeout "Modbus virtual deadline exceeded") := if_pos late
  have refused : ¬request.Admitted mappings registry := fun admitted => absurd admitted.1 (by omega)
  unfold perform
  cases request.function with
  | read quantity =>
    have read : request.read mappings registry quantity = .error (.protocolTimeout "Modbus virtual deadline exceeded") := by
      unfold ModbusRequest.read
      rw [expired]
      rfl
    dsimp only
    rw [read]
    exact .refused refused _
  | write values =>
    have stage : request.stage mappings registry values =
        .error (.protocolTimeout "Modbus virtual deadline exceeded") := by
      unfold ModbusRequest.stage
      rw [expired]
      rfl
    dsimp only
    unfold write
    rw [stage]
    exact .refused refused _

theorem perform_read {quantity : UInt16} (function : request.function = .read quantity)
    (intime : request.virtualNowNs ≤ request.virtualDeadlineNs) :
    request.Ends mappings registry (request.perform mappings registry) := by
  have deadline : request.enforceDeadline = .ok () := if_neg (by omega)
  have read : request.read mappings registry quantity =
      if quantity = 0 then .error (.invalidArgument "Modbus quantity must be positive")
      else (List.range quantity.toNat).mapM (request.readAt mappings registry) := by
    unfold ModbusRequest.read
    rw [deadline]
    split <;> rfl
  have admission : request.Admitted mappings registry ↔ request.virtualNowNs ≤ request.virtualDeadlineNs ∧
      quantity ≠ 0 ∧ ∀ offset ∈ List.range quantity.toNat, ∃ value, request.readAt mappings registry offset = .ok value := by
    unfold Admitted
    rw [function]
  unfold perform
  rw [function]
  dsimp only
  rw [read]
  by_cases none : quantity = 0
  · rw [if_pos none]
    exact .refused (fun admitted => (admission.mp admitted).2.1 none) _
  · rw [if_neg none]
    cases run : (List.range quantity.toNat).mapM (request.readAt mappings registry) with
    | error exception =>
      refine .refused (fun admitted => ?_) exception
      obtain ⟨values, ran, _⟩ := mapM_exists _ _ (admission.mp admitted).2.2
      rw [run] at ran
      cases ran
    | ok values =>
      have each := mapM_forall₂ run
      obtain ⟨used, lookups, reads⟩ := reads_of_values each
      have all : request.quantity = quantity.toNat := by
        unfold ModbusRequest.quantity
        rw [function]
      refine .served (admission.mpr ⟨intime, none, fun offset member => ?_⟩) (all ▸ lookups) ?_
      · exact (exists_of_forall₂ each member).imp fun _ found => found.2
      · rw [function]
        exact ⟨rfl, reads⟩

theorem perform_write {values : List UInt16} (function : request.function = .write values)
    (intime : request.virtualNowNs ≤ request.virtualDeadlineNs) :
    request.Ends mappings registry (request.perform mappings registry) := by
  have deadline : request.enforceDeadline = .ok () := if_neg (by omega)
  have staging : request.stage mappings registry values =
      if request.area ≠ .coil ∧ request.area ≠ .holdingRegister then
        .error (.invalidArgument "Modbus area is read-only")
      else ((List.range values.length).zip values).mapM (request.stageAt mappings registry) := by
    unfold stage
    rw [deadline]
    split <;> rfl
  have admission : request.Admitted mappings registry ↔ request.virtualNowNs ≤ request.virtualDeadlineNs ∧
      (request.area = .coil ∨ request.area = .holdingRegister) ∧
      ∀ offset ∈ (List.range values.length).zip values, ∃ item, request.stageAt mappings registry offset = .ok item := by
    unfold Admitted
    rw [function]
  unfold perform
  rw [function]
  dsimp only
  unfold write
  rw [staging]
  by_cases readOnly : request.area ≠ .coil ∧ request.area ≠ .holdingRegister
  · rw [if_pos readOnly]
    exact .refused (fun admitted => (admission.mp admitted).2.1.elim readOnly.1 readOnly.2) _
  · rw [if_neg readOnly]
    cases run : ((List.range values.length).zip values).mapM (request.stageAt mappings registry) with
    | error exception =>
      refine .refused (fun admitted => ?_) exception
      obtain ⟨items, ran, _⟩ := mapM_exists _ _ (admission.mp admitted).2.2
      rw [run] at ran
      cases ran
    | ok items =>
      have each := mapM_forall₂ run
      obtain ⟨used, lookups, staged⟩ := pairs_of_items each
      obtain ⟨offsets, kept⟩ := range_zip values
      rw [offsets] at lookups
      rw [kept] at staged
      have all : request.quantity = values.length := by
        unfold ModbusRequest.quantity
        rw [function]
      dsimp only
      rw [sweep_stored staged rfl]
      refine .served (admission.mpr ⟨intime, by tauto, fun offset member => ?_⟩) (all ▸ lookups) ?_
      · exact (exists_of_forall₂ each member).imp fun _ found => found.2
      · rw [function]

theorem perform_ends (mappings : List ModbusMapping) (registry : Registry) (request : ModbusRequest) :
    request.Ends mappings registry (request.perform mappings registry) := by
  by_cases late : request.virtualDeadlineNs < request.virtualNowNs
  · exact perform_late late
  · cases function : request.function with
    | read quantity => exact perform_read function (by omega)
    | write values => exact perform_write function (by omega)

/-- A request stays in range exactly if it is refused or ends before the address 65536. -/
theorem perform_inRange (mappings : List ModbusMapping) (registry : Registry) (request : ModbusRequest) :
    request.InRange mappings registry ↔
      request.address.toNat + request.quantity ≤ 65536 ∨ ¬request.Admitted mappings registry := by
  have ends := perform_ends mappings registry request
  unfold InRange
  generalize request.perform mappings registry = outcome at ends
  cases ends with
  | refused not exception => exact iff_of_true rfl (.inr not)
  | served admitted lookups effect =>
    constructor
    · rintro ⟨_, uses, _⟩
      exact .inl uses.inRange
    · rintro (inRange | refused)
      · exact ⟨_, uses_of_offsets lookups rfl inRange, effect⟩
      · exact absurd admitted refused

/-- The holding registers 65535 and 0 of a unit are the same variable. -/
theorem read_wraps : ¬∀ (mappings : List ModbusMapping) (registry : Registry) (request : ModbusRequest),
    request.InRange mappings registry := by
  intro always
  have kept := always [{ address := 65535 }, {}]
    { entries := [⟨{ namespaceId := "plant", name := "flow" }, .real 1⟩] }
    { unitId := 1, area := .holdingRegister, address := 65535, function := .read 2, virtualNowNs := 0,
      virtualDeadlineNs := 0 }
  have outcome : ModbusRequest.perform [{ address := 65535 }, {}]
      { entries := [⟨{ namespaceId := "plant", name := "flow" }, .real 1⟩] }
      { unitId := 1, area := .holdingRegister, address := 65535, function := .read 2, virtualNowNs := 0,
        virtualDeadlineNs := 0 } =
      ({ entries := [⟨{ namespaceId := "plant", name := "flow" }, .real 1⟩] }, .ok [1, 1]) := by
    decide +kernel
  unfold InRange at kept
  rw [outcome] at kept
  obtain ⟨_, uses, _⟩ := kept
  exact absurd uses.inRange (by decide)

end ModbusRequest

end LasecSimul.Protocol
