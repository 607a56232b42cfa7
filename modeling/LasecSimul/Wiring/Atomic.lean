import LasecSimul.Wiring.Netlist
import LasecSimul.Wiring.Refinement

/-!
# Edits that throw

A wire, a name or a bad component index is checked before anything is written. A bad pin id is found after
slots have been allocated, and after the old pins of the component are gone.
-/

namespace LasecSimul.Wiring

namespace Netlist

variable {net : Netlist} {operation : String} {owner : Nat} {known : PinSlots} {pinIds : List String}

/-- What an edit returns or throws. -/
def outcome (order : HashOrder) (net : Netlist) : Op → Except Exception Unit
  | .registerComponent componentIndex pinIds => (net.registerComponent componentIndex pinIds).2.map fun _ => ()
  | .removeComponent componentIndex => (net.removeComponent order componentIndex).2
  | .reregisterComponentPins componentIndex newPinIds =>
    (net.reregisterComponentPins order componentIndex newPinIds).2
  | .connectWire slotA slotB => (net.connectWire slotA slotB).2
  | .disconnectWire slotA slotB => (net.disconnectWire slotA slotB).2.map fun _ => ()
  | .setTunnelName slot newName => (net.setTunnelName slot newName).2
  | .setFallbackTunnelName slot newName => (net.setFallbackTunnelName slot newName).2

def Throws (order : HashOrder) (net : Netlist) (op : Op) : Prop := ∃ exception, net.outcome order op = .error exception

/-- A slot that `orphanSlot` leaves as it is. -/
structure Cleared (net : Netlist) (slot : Nat) : Prop where
  orphaned : net.slotOrphaned.getD slot true = true
  unnamed : net.tunnel.names.getD slot "" = ""
  withoutFallback : net.fallbackTunnel.names.getD slot "" = ""
  unwired : net.hasWire slot = false

/-- The calls that leave the netlist alone when they throw. -/
def AtomicAt (net : Netlist) : Op → Prop
  | .registerComponent componentIndex pinIds =>
    componentIndex = net.componentPinSlots.length → ValidPins pinIds
  | .reregisterComponentPins componentIndex newPinIds => ∀ pins, net.componentPinSlots[componentIndex]? = some pins →
    net.componentRemoved.getD componentIndex false = false →
    ValidPins newPinIds ∨
      (newPinIds.head? = some "" ∧
        net.firstSlotByComponent.getD componentIndex net.slotOwner.length = net.slotOwner.length ∧
        ∀ pin ∈ pins.entries, net.Cleared pin.2)
  | _ => True

theorem pushPins_fst (operation : String) (owner : Nat) (pinIds : List String) (known : PinSlots) (net : Netlist) :
    ∃ count, (pushPins operation owner pinIds known net).1 = pushSlots owner count net := by
  induction pinIds generalizing known net with
  | nil => exact ⟨0, rfl⟩
  | cons pinId rest ih =>
    unfold pushPins
    split
    · exact ⟨0, rfl⟩
    · split
      · exact ⟨0, rfl⟩
      · obtain ⟨count, grown⟩ := ih (known.insert pinId net.slotOwner.length) (net.pushSlot owner)
        exact ⟨count + 1, grown⟩

theorem pushPins_first (operation : String) (owner : Nat) (net : Netlist) {pinId : String} (rest : List String)
    (named : pinId ≠ "") :
    ∃ count, (pushPins operation owner (pinId :: rest) ∅ net).1 = pushSlots owner (count + 1) net := by
  rw [pushPins, if_neg named, if_neg (AList.notMem_empty pinId)]
  exact pushPins_fst operation owner rest _ (net.pushSlot owner)

theorem pushPins_ok {pins : PinSlots} (ok : (pushPins operation owner pinIds known net).2 = .ok pins) :
    ValidPins pinIds ∧ ∀ pinId ∈ pinIds, pinId ∉ known := by
  induction pinIds generalizing known net with
  | nil => exact ⟨⟨List.not_mem_nil, List.nodup_nil⟩, nofun⟩
  | cons pinId rest ih =>
    unfold pushPins at ok
    split at ok
    · cases ok
    · rename_i named
      split at ok
      · cases ok
      · rename_i unknown
        obtain ⟨⟨noEmpty, nodup⟩, fresh⟩ := ih ok
        have new : pinId ∉ rest := fun member => fresh pinId member (AList.mem_insert _ |>.mpr (Or.inl rfl))
        refine ⟨⟨?_, List.nodup_cons.mpr ⟨new, nodup⟩⟩, ?_⟩
        · intro empty
          rcases List.mem_cons.mp empty with same | later
          · exact named same.symm
          · exact noEmpty later
        · intro other member
          rcases List.mem_cons.mp member with rfl | later
          · exact unknown
          · exact fun isKnown => fresh other later (AList.mem_insert _ |>.mpr (Or.inr isKnown))

theorem pushPins_error (operation : String) (owner : Nat) (known : PinSlots) (net : Netlist)
    (invalid : ¬ValidPins pinIds) :
    ∃ exception, (pushPins operation owner pinIds known net).2 = .error exception := by
  cases result : (pushPins operation owner pinIds known net).2 with
  | error exception => exact ⟨exception, rfl⟩
  | ok pins => exact absurd (pushPins_ok result).1 invalid

theorem pushSlots_owner (owner count : Nat) (net : Netlist) :
    (pushSlots owner count net).slotOwner.length = net.slotOwner.length + count := by
  rw [pushSlots_eq, List.length_append, List.length_replicate]

theorem rename_unnamed {ix : NameIndex} {slot : Nat} (unnamed : ix.names.getD slot "" = "") : ix.rename slot "" = ix := by
  unfold NameIndex.rename
  split
  · rename_i valid
    rw [List.getD_eq_getElem?_getD, List.getElem?_eq_getElem valid, Option.getD_some] at unnamed
    exact if_pos unnamed
  · rfl

theorem set_getD_self {α : Type} {xs : List α} {index : Nat} {x : α} (same : xs.getD index x = x) :
    xs.set index x = xs := by
  rcases Nat.lt_or_ge index xs.length with lt | ge
  · rw [List.getD_eq_getElem?_getD, List.getElem?_eq_getElem lt, Option.getD_some] at same
    rw [← same]
    exact List.set_getElem_self lt
  · exact List.set_eq_of_length_le ge

theorem getD_of_set {α : Type} {xs : List α} {index : Nat} {x : α} (same : xs.set index x = xs) :
    xs.getD index x = x := by
  rcases Nat.lt_or_ge index xs.length with lt | ge
  · rw [← same, List.getD_eq_getElem?_getD, List.getElem?_set_self lt, Option.getD_some]
  · rw [List.getD_eq_getElem?_getD, List.getElem?_eq_none ge, Option.getD_none]

theorem Cleared.orphanSlot {slot : Nat} (cleared : net.Cleared slot) : net.orphanSlot slot = net := by
  have wires : (net.wireEdges.filter fun edge => !(edge.1 == slot || edge.2 == slot)) = net.wireEdges := by
    rw [List.filter_eq_self]
    intro edge member
    have unwired := List.any_eq_false.mp cleared.unwired edge member
    simpa using unwired
  have marks : net.slotOrphaned.set slot true = net.slotOrphaned := set_getD_self cleared.orphaned
  simp only [Netlist.orphanSlot, disconnectSlot, rename_unnamed cleared.unnamed,
    rename_unnamed cleared.withoutFallback, wires, marks]

theorem foldl_cleared {slots : List Nat} (cleared : ∀ slot ∈ slots, net.Cleared slot) :
    slots.foldl Netlist.orphanSlot net = net := by
  induction slots with
  | nil => rfl
  | cons slot rest ih =>
    rw [List.foldl_cons, (cleared slot List.mem_cons_self).orphanSlot]
    exact ih fun other member => cleared other (List.mem_cons_of_mem _ member)

theorem unnamed_of_clear {ix : NameIndex} {slots : List Nat} {slot : Nat} (same : ix.clear slots = ix)
    (member : slot ∈ slots) : ix.names.getD slot "" = "" := by
  have name := ix.clear_names slots slot
  simp only [same, if_pos member] at name
  rw [List.getD_eq_getElem?_getD, name]
  cases ix.names[slot]? <;> rfl

theorem cleared_of_foldl {slots : List Nat} (same : slots.foldl Netlist.orphanSlot net = net) :
    ∀ slot ∈ slots, net.Cleared slot := by
  intro slot member
  rw [foldl_orphanSlot] at same
  have contained := List.contains_iff_mem.mpr member
  have marks : slots.foldl (fun orphaned slot => orphaned.set slot true) net.slotOrphaned = net.slotOrphaned :=
    congrArg Netlist.slotOrphaned same
  have wires : net.wireEdges.filter (avoids slots) = net.wireEdges := congrArg Netlist.wireEdges same
  refine ⟨?_, unnamed_of_clear (congrArg Netlist.tunnel same) member,
    unnamed_of_clear (congrArg Netlist.fallbackTunnel same) member, ?_⟩
  · have mark := marked_getElem? slots net.slotOrphaned slot
    rw [marks] at mark
    rw [List.getD_eq_getElem?_getD, mark, contained]
    cases net.slotOrphaned[slot]? <;> simp
  · refine List.any_eq_false.mpr fun edge stored => ?_
    have avoided := List.filter_eq_self.mp wires edge stored
    simp only [avoids, Bool.not_eq_true', Bool.or_eq_false_iff] at avoided
    simp only [Bool.or_eq_true, beq_iff_eq, not_or]
    constructor
    · rintro rfl
      exact absurd contained (Bool.eq_false_iff.mp avoided.1)
    · rintro rfl
      exact absurd contained (Bool.eq_false_iff.mp avoided.2)

/-! ### The exact condition -/

theorem registerComponent_error (net : Netlist) (invalid : ¬ValidPins pinIds) :
    ∃ count exception, net.registerComponent net.componentPinSlots.length pinIds =
      (pushSlots net.componentPinSlots.length count { net with
        firstSlotByComponent := net.firstSlotByComponent ++ [net.slotOwner.length] }, .error exception) := by
  let opened := { net with firstSlotByComponent := net.firstSlotByComponent ++ [net.slotOwner.length] }
  obtain ⟨exception, failed⟩ := pushPins_error "Netlist::registerComponent" net.componentPinSlots.length ∅ opened invalid
  obtain ⟨count, grown⟩ := pushPins_fst "Netlist::registerComponent" net.componentPinSlots.length pinIds ∅ opened
  have pushed : pushPins "Netlist::registerComponent" net.componentPinSlots.length pinIds ∅ opened =
      (pushSlots net.componentPinSlots.length count opened, .error exception) := Prod.ext grown failed
  refine ⟨count, exception, ?_⟩
  rw [registerComponent, if_neg (not_not.mpr rfl)]
  simp only [opened] at pushed
  simp only [pushed]

theorem registerComponent_ok (valid : ValidPins pinIds) :
    ∃ pins, (net.registerComponent net.componentPinSlots.length pinIds).2 = .ok pins := by
  obtain ⟨pins, pushed, _⟩ := pushPins_lays "Netlist::registerComponent" net.componentPinSlots.length
    { net with firstSlotByComponent := net.firstSlotByComponent ++ [net.slotOwner.length] } valid
  refine ⟨pins, ?_⟩
  rw [registerComponent, if_neg (not_not.mpr rfl)]
  simp only [pushed]

theorem registerComponent_atomic_iff (order : HashOrder) (componentIndex : Nat) (pinIds : List String) :
    (net.Throws order (.registerComponent componentIndex pinIds) →
        net.step order (.registerComponent componentIndex pinIds) = net) ↔
      net.AtomicAt (.registerComponent componentIndex pinIds) := by
  simp only [Throws, outcome, step, AtomicAt]
  constructor
  · rintro atomic rfl
    by_contra invalid
    obtain ⟨count, exception, result⟩ := registerComponent_error net invalid
    rw [result] at atomic
    have first := congrArg (fun net => net.firstSlotByComponent.length) (atomic ⟨exception, rfl⟩)
    simp [pushSlots_eq] at first
  · rintro valid ⟨exception, failed⟩
    by_cases dense : componentIndex = net.componentPinSlots.length
    · subst dense
      obtain ⟨pins, ok⟩ := registerComponent_ok (valid rfl)
      rw [ok] at failed
      cases failed
    · rw [registerComponent, if_pos dense]

section Reregister

variable {componentIndex : Nat} {pins : PinSlots}

/-- The netlist in which `reregisterComponentPins` allocates the new pins. -/
def released (net : Netlist) (order : HashOrder) (componentIndex : Nat) (pins : PinSlots) : Netlist :=
  let cleared := ((order.arrange pins.entries).map (·.2)).foldl Netlist.orphanSlot net
  { cleared with
    firstSlotByComponent := cleared.firstSlotByComponent.set componentIndex cleared.slotOwner.length }

theorem reregisterComponentPins_eq (order : HashOrder) (stored : net.componentPinSlots[componentIndex]? = some pins)
    (kept : net.componentRemoved.getD componentIndex false = false) :
    (∀ grown exception, pushPins "Netlist::reregisterComponentPins" componentIndex pinIds ∅
        (net.released order componentIndex pins) = (grown, .error exception) →
      net.reregisterComponentPins order componentIndex pinIds = (grown, .error exception)) ∧
    ∀ grown newPins, pushPins "Netlist::reregisterComponentPins" componentIndex pinIds ∅
        (net.released order componentIndex pins) = (grown, .ok newPins) →
      (net.reregisterComponentPins order componentIndex pinIds).2 = .ok () := by
  simp only [released, List.foldl_map]
  constructor
  · intro grown exception pushed
    simp only [reregisterComponentPins, stored, kept, Bool.false_eq_true, if_false, pushed]
  · intro grown newPins pushed
    simp only [reregisterComponentPins, stored, kept, Bool.false_eq_true, if_false, pushed]

theorem released_owner (order : HashOrder) : (net.released order componentIndex pins).slotOwner = net.slotOwner := by
  simp only [released, foldl_orphanSlot]

theorem released_eq_iff (order : HashOrder) : net.released order componentIndex pins = net ↔
    net.firstSlotByComponent.getD componentIndex net.slotOwner.length = net.slotOwner.length ∧
      ∀ pin ∈ pins.entries, net.Cleared pin.2 := by
  constructor
  · intro same
    have first := congrArg Netlist.firstSlotByComponent same
    simp only [released, foldl_orphanSlot] at first
    refine ⟨getD_of_set first, ?_⟩
    have folded : ((order.arrange pins.entries).map (·.2)).foldl Netlist.orphanSlot net = net := by
      simp only [released, foldl_orphanSlot, first] at same
      rw [foldl_orphanSlot]
      exact same
    intro pin stored
    have member : pin.2 ∈ (order.arrange pins.entries).map (·.2) :=
      List.mem_map_of_mem ((order.perm pins.entries).mem_iff.mpr stored)
    exact cleared_of_foldl folded pin.2 member
  · rintro ⟨first, cleared⟩
    have folded : ((order.arrange pins.entries).map (·.2)).foldl Netlist.orphanSlot net = net := by
      refine foldl_cleared fun slot member => ?_
      obtain ⟨pin, stored, rfl⟩ := List.mem_map.mp member
      exact cleared pin ((order.perm pins.entries).mem_iff.mp stored)
    simp only [released, folded, set_getD_self first]

/-- The slots a failed call leaves allocated: none only if the first id is the bad one. -/
theorem pushPins_eq_iff (invalid : ¬ValidPins pinIds) :
    (pushPins operation owner pinIds ∅ net).1 = net ↔ pinIds.head? = some "" := by
  cases pinIds with
  | nil => exact absurd ⟨List.not_mem_nil, List.nodup_nil⟩ invalid
  | cons pinId rest =>
    rw [List.head?_cons, Option.some.injEq]
    constructor
    · intro same
      by_contra named
      obtain ⟨count, grown⟩ := pushPins_first operation owner net rest named
      have length := congrArg (fun net => net.slotOwner.length) (grown.symm.trans same)
      rw [pushSlots_owner] at length
      omega
    · intro empty
      rw [pushPins, if_pos empty]

theorem pushPins_released_eq_iff (order : HashOrder) (invalid : ¬ValidPins pinIds) :
    (pushPins operation owner pinIds ∅ (net.released order componentIndex pins)).1 = net ↔
      pinIds.head? = some "" ∧ net.released order componentIndex pins = net := by
  constructor
  · intro same
    obtain ⟨count, grown⟩ := pushPins_fst operation owner pinIds ∅ (net.released order componentIndex pins)
    rw [grown] at same
    have length := congrArg (fun net => net.slotOwner.length) same
    rw [pushSlots_owner, released_owner, Nat.add_eq_left] at length
    subst length
    have nothing : net.released order componentIndex pins = net := same
    rw [nothing] at grown ⊢
    exact ⟨(pushPins_eq_iff invalid).mp grown, rfl⟩
  · rintro ⟨empty, same⟩
    rw [same]
    exact (pushPins_eq_iff invalid).mpr empty

theorem reregisterComponentPins_error (order : HashOrder) (stored : net.componentPinSlots[componentIndex]? = some pins)
    (kept : net.componentRemoved.getD componentIndex false = false) (invalid : ¬ValidPins pinIds) :
    ∃ exception, net.reregisterComponentPins order componentIndex pinIds =
      ((pushPins "Netlist::reregisterComponentPins" componentIndex pinIds ∅
        (net.released order componentIndex pins)).1, .error exception) := by
  obtain ⟨exception, failed⟩ := pushPins_error "Netlist::reregisterComponentPins" componentIndex ∅
    (net.released order componentIndex pins) invalid
  exact ⟨exception, (reregisterComponentPins_eq order stored kept).1 _ exception (Prod.ext rfl failed)⟩

theorem reregisterComponentPins_ok (order : HashOrder) (stored : net.componentPinSlots[componentIndex]? = some pins)
    (kept : net.componentRemoved.getD componentIndex false = false) (valid : ValidPins pinIds) :
    (net.reregisterComponentPins order componentIndex pinIds).2 = .ok () := by
  obtain ⟨newPins, pushed, _⟩ := pushPins_lays "Netlist::reregisterComponentPins" componentIndex
    (net.released order componentIndex pins) valid
  exact (reregisterComponentPins_eq order stored kept).2 _ newPins pushed

theorem reregisterComponentPins_atomic_iff (order : HashOrder) (componentIndex : Nat) (newPinIds : List String) :
    (net.Throws order (.reregisterComponentPins componentIndex newPinIds) →
        net.step order (.reregisterComponentPins componentIndex newPinIds) = net) ↔
      net.AtomicAt (.reregisterComponentPins componentIndex newPinIds) := by
  simp only [Throws, outcome, step, AtomicAt]
  constructor
  · intro atomic pins stored kept
    by_cases valid : ValidPins newPinIds
    · exact .inl valid
    · obtain ⟨exception, result⟩ := reregisterComponentPins_error order stored kept valid
      rw [result] at atomic
      have unchanged := (pushPins_released_eq_iff order valid).mp (atomic ⟨exception, rfl⟩)
      exact .inr ⟨unchanged.1, (released_eq_iff order).mp unchanged.2⟩
  · rintro condition ⟨exception, failed⟩
    cases stored : net.componentPinSlots[componentIndex]? with
    | none => simp only [reregisterComponentPins, stored]
    | some pins =>
      cases kept : net.componentRemoved.getD componentIndex false with
      | true => simp only [reregisterComponentPins, stored, kept, if_true]
      | false =>
        by_cases valid : ValidPins newPinIds
        · rw [reregisterComponentPins_ok order stored kept valid] at failed
          cases failed
        · obtain ⟨exception, result⟩ := reregisterComponentPins_error order stored kept valid
          obtain ⟨empty, cleared⟩ := (condition pins stored kept).resolve_left valid
          rw [result]
          exact (pushPins_released_eq_iff order valid).mpr ⟨empty, (released_eq_iff order).mpr cleared⟩

end Reregister

theorem removeComponent_ok_or_unchanged (order : HashOrder) (componentIndex : Nat) :
    (net.removeComponent order componentIndex).2 = .ok () ∨ (net.removeComponent order componentIndex).1 = net := by
  unfold removeComponent
  split
  · exact .inr rfl
  · split
    · exact .inl rfl
    · exact .inl rfl

theorem atomic_iff (order : HashOrder) (op : Op) :
    (net.Throws order op → net.step order op = net) ↔ net.AtomicAt op := by
  cases op with
  | registerComponent componentIndex pinIds => exact registerComponent_atomic_iff order componentIndex pinIds
  | reregisterComponentPins componentIndex newPinIds =>
    exact reregisterComponentPins_atomic_iff order componentIndex newPinIds
  | removeComponent componentIndex =>
    refine iff_of_true ?_ trivial
    rintro ⟨exception, failed⟩
    rcases removeComponent_ok_or_unchanged order componentIndex with ok | unchanged
    · cases ok.symm.trans failed
    · exact unchanged
  | connectWire | disconnectWire | setTunnelName | setFallbackTunnelName =>
    refine iff_of_true ?_ trivial
    rintro ⟨exception, failed⟩
    simp only [outcome, connectWire, disconnectWire, setTunnelName, setFallbackTunnelName] at failed
    simp only [step, connectWire, disconnectWire, setTunnelName, setFallbackTunnelName]
    split at failed
    · rfl
    · cases failed

theorem failed_edit_unchanged (net : Netlist) (order : HashOrder) (op : Op) :
    (net.Throws order op → net.step order op = net ∧ ∀ later extraVarCountByComponent,
        (net.step order op).rebuildTopology later extraVarCountByComponent =
          net.rebuildTopology later extraVarCountByComponent) ↔ net.AtomicAt op := by
  rw [← atomic_iff order op]
  constructor
  · exact fun atomic failed => (atomic failed).1
  · intro atomic failed
    refine ⟨atomic failed, fun later extraVarCountByComponent => ?_⟩
    rw [atomic failed]

/-- The repeated id is found after the first pin has its slot, which no component owns. -/
theorem failed_register_leaves_slot :
    Throws .stored {} (.registerComponent 0 ["a", "a"]) ∧
      (step .stored {} (.registerComponent 0 ["a", "a"])).slotOwner = [0] ∧
      (step .stored {} (.registerComponent 0 ["a", "a"])).rebuildTopology .stored [] =
        .error (.undefinedBehavior "m_componentRemoved") := by
  refine ⟨⟨_, rfl⟩, rfl, ?_⟩
  rfl

end Netlist

end LasecSimul.Wiring
