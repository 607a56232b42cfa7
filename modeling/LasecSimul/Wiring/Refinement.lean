import LasecSimul.Wiring.Circuit

/-!
# The netlist refines the circuit

`Represents net c` says how the vectors and indexes of a netlist store a circuit. Every accepted edit
keeps it, so it holds along every accepted history.
-/

namespace LasecSimul.Wiring

open Lib

/-- The pin map lists the ids in order from slot `first` on. -/
def Lays (pins : PinSlots) (component : Component) : Prop :=
  ∀ pinId slot, pins.lookup pinId = some slot ↔
    ∃ k, component.pinIds[k]? = some pinId ∧ slot = component.first + k

theorem Lays.mem_slots {pins : PinSlots} {component : Component} (lays : Lays pins component)
    (slot : Nat) : slot ∈ pins.entries.map (·.2) ↔ component.Owns slot := by
  constructor
  · intro h
    obtain ⟨⟨pinId, s⟩, stored, rfl⟩ := List.mem_map.mp h
    obtain ⟨k, found, rfl⟩ := (lays pinId s).mp (AList.mem_lookup_iff.mpr stored)
    have bound := (List.getElem?_eq_some_iff.mp found).1
    exact ⟨Nat.le_add_right _ _, Nat.add_lt_add_left bound _⟩
  · rintro ⟨low, high⟩
    have bound : slot - component.first < component.pinIds.length := by omega
    have stored := (lays component.pinIds[slot - component.first] slot).mpr
      ⟨_, List.getElem?_eq_getElem bound, by omega⟩
    exact List.mem_map.mpr ⟨_, AList.mem_lookup_iff.mp stored, rfl⟩

structure Represents (net : Netlist) (c : Circuit) : Prop where
  owner_length : net.slotOwner.length = c.slotCount
  orphaned_length : net.slotOrphaned.length = c.slotCount
  names_length : net.tunnel.names.length = c.slotCount
  fallbacks_length : net.fallbackTunnel.names.length = c.slotCount
  pins_length : net.componentPinSlots.length = c.components.length
  first_length : net.firstSlotByComponent.length = c.components.length
  removed_length : net.componentRemoved.length = c.components.length
  wires : c.wires = (net.wireEdges.map fun edge => s(edge.1, edge.2) : List (Sym2 Nat))
  wired : ∀ edge ∈ net.wireEdges, edge.1 < c.slotCount ∧ edge.2 < c.slotCount
  name : ∀ slot, c.name slot = net.tunnel.names.getD slot ""
  fallback : ∀ slot, c.fallback slot = net.fallbackTunnel.names.getD slot ""
  removed : ∀ i : Nat, c.components[i]? = some none → net.componentRemoved[i]? = some true
  live : ∀ i component, c.Live i component → net.componentRemoved[i]? = some false ∧
    net.firstSlotByComponent[i]? = some component.first ∧
      ∃ pins, net.componentPinSlots[i]? = some pins ∧ Lays pins component
  fits : ∀ i component, c.Live i component →
    component.first + component.pinIds.length ≤ c.slotCount
  owned : ∀ i component slot, c.Live i component → component.Owns slot →
    net.slotOwner[slot]? = some i ∧ net.slotOrphaned[slot]? = some false
  owns : ∀ i component slot : _, c.Live i component → net.slotOwner[slot]? = some i →
    net.slotOrphaned[slot]? = some false → component.Owns slot
  owner_known : ∀ slot i : Nat, net.slotOwner[slot]? = some i → i < c.components.length

theorem represents_empty : Represents {} {} := by
  constructor <;> simp [Circuit.Live, NameIndex.empty]

namespace NameIndex

/-- `push` for each of `count` new slots. -/
def pushes (ix : NameIndex) : Nat → NameIndex
  | 0 => ix
  | count + 1 => ix.push.pushes count

theorem pushes_names (ix : NameIndex) (count : Nat) :
    (ix.pushes count).names = ix.names ++ List.replicate count "" := by
  induction count generalizing ix with
  | zero => simp [pushes]
  | succ count ih => simp [pushes, ih, List.replicate_succ]

/-- Takes the names of all the slots away. -/
def clear (ix : NameIndex) (slots : List Nat) : NameIndex :=
  slots.foldl (fun ix slot => ix.rename slot "") ix

theorem clear_names (ix : NameIndex) (slots : List Nat) (slot : Nat) :
    (ix.clear slots).names[slot]? =
      ix.names[slot]?.map fun name => if slot ∈ slots then "" else name := by
  unfold clear
  induction slots generalizing ix with
  | nil => simp
  | cons head rest ih =>
    rw [List.foldl_cons, ih, rename_names, List.getElem?_set]
    grind

theorem clear_length (ix : NameIndex) (slots : List Nat) :
    (ix.clear slots).names.length = ix.names.length := by
  unfold clear
  induction slots generalizing ix with
  | nil => rfl
  | cons head rest ih => rw [List.foldl_cons, ih, rename_names, List.length_set]

end NameIndex

namespace Netlist

/-- `pushSlot` for each of `count` new pins. -/
def pushSlots (owner : Nat) : Nat → Netlist → Netlist
  | 0, net => net
  | count + 1, net => pushSlots owner count (net.pushSlot owner)

theorem pushSlots_eq (owner count : Nat) (net : Netlist) : pushSlots owner count net =
    { net with
      slotOwner := net.slotOwner ++ List.replicate count owner
      slotOrphaned := net.slotOrphaned ++ List.replicate count false
      tunnel := net.tunnel.pushes count
      fallbackTunnel := net.fallbackTunnel.pushes count } := by
  induction count generalizing net with
  | zero => simp [pushSlots, NameIndex.pushes]
  | succ count ih => simp [pushSlots, ih, pushSlot, NameIndex.pushes, List.replicate_succ]

/-- Valid pin ids get consecutive slots and no exception. -/
theorem pushPins_valid (operation : String) (owner : Nat) {pinIds : List String} (known : PinSlots)
    (net : Netlist) (fresh : ∀ pinId ∈ pinIds, pinId ≠ "" ∧ pinId ∉ known) (nodup : pinIds.Nodup) :
    ∃ pins, pushPins operation owner pinIds known net =
        (pushSlots owner pinIds.length net, .ok pins) ∧
      ∀ pinId slot, pins.lookup pinId = some slot ↔ known.lookup pinId = some slot ∨
        ∃ k, pinIds[k]? = some pinId ∧ slot = net.slotOwner.length + k := by
  induction pinIds generalizing known net with
  | nil => exact ⟨known, rfl, by simp⟩
  | cons head rest ih =>
    obtain ⟨notEmpty, unknown⟩ := fresh head List.mem_cons_self
    obtain ⟨notMem, nodup⟩ := List.nodup_cons.mp nodup
    have fresh' : ∀ pinId ∈ rest, pinId ≠ "" ∧
        pinId ∉ known.insert head net.slotOwner.length := by
      intro pinId member
      obtain ⟨named, new⟩ := fresh pinId (List.mem_cons_of_mem _ member)
      refine ⟨named, fun h => ?_⟩
      rcases AList.mem_insert _ |>.mp h with rfl | h
      · exact notMem member
      · exact new h
    obtain ⟨pins, run, spec⟩ := ih _ (net.pushSlot owner) fresh' nodup
    refine ⟨pins, by rw [pushPins, if_neg notEmpty, if_neg unknown, run]; rfl, ?_⟩
    intro pinId slot
    have grown : (net.pushSlot owner).slotOwner.length = net.slotOwner.length + 1 := by
      simp [pushSlot]
    rw [spec, grown]
    by_cases same : pinId = head
    · subst same
      have absent : known.lookup pinId = none := AList.lookup_eq_none.mpr unknown
      rw [AList.lookup_insert, absent]
      constructor
      · rintro (h | ⟨k, found, _⟩)
        · exact .inr ⟨0, rfl, by simpa using h.symm⟩
        · exact (notMem (List.mem_of_getElem? found)).elim
      · rintro (h | ⟨k, found, rfl⟩)
        · cases h
        · cases k with
          | zero => exact .inl rfl
          | succ k => exact (notMem (List.mem_of_getElem? found)).elim
    · rw [AList.lookup_insert_ne same]
      refine or_congr_right ⟨?_, ?_⟩
      · rintro ⟨k, found, rfl⟩
        exact ⟨k + 1, found, by omega⟩
      · rintro ⟨k, found, rfl⟩
        cases k with
        | zero => exact (same (Option.some.inj found).symm).elim
        | succ k => exact ⟨k, found, by omega⟩

/-- No end of the wire is one of the slots. -/
def avoids (slots : List Nat) (edge : Nat × Nat) : Bool :=
  !(slots.contains edge.1 || slots.contains edge.2)

theorem foldl_disconnectSlot (net : Netlist) (slots : List Nat) : slots.foldl disconnectSlot net =
    { net with
      tunnel := net.tunnel.clear slots
      fallbackTunnel := net.fallbackTunnel.clear slots
      wireEdges := net.wireEdges.filter (avoids slots) } := by
  induction slots generalizing net with
  | nil =>
    have all : net.wireEdges.filter (avoids []) = net.wireEdges := List.filter_eq_self.mpr fun _ _ => rfl
    simp [NameIndex.clear, all]
  | cons slot rest ih =>
    have both : ∀ edge : Nat × Nat, (avoids rest edge && !(edge.1 == slot || edge.2 == slot)) =
        avoids (slot :: rest) edge := by
      intro edge
      simp only [avoids, List.contains_cons]
      grind
    rw [List.foldl_cons, ih]
    simp only [disconnectSlot, NameIndex.clear, List.foldl_cons, List.filter_filter, both]

theorem foldl_orphanSlot (net : Netlist) (slots : List Nat) : slots.foldl orphanSlot net =
    { net with
      slotOrphaned := slots.foldl (fun orphaned slot => orphaned.set slot true) net.slotOrphaned
      tunnel := net.tunnel.clear slots
      fallbackTunnel := net.fallbackTunnel.clear slots
      wireEdges := net.wireEdges.filter (avoids slots) } := by
  have split : ∀ (slots : List Nat) (net : Netlist), slots.foldl orphanSlot net =
      { slots.foldl disconnectSlot net with
        slotOrphaned := slots.foldl (fun orphaned slot => orphaned.set slot true) net.slotOrphaned } := by
    intro slots
    induction slots with
    | nil => intro net; rfl
    | cons slot rest ih =>
      intro net
      rw [List.foldl_cons, ih]
      simp only [foldl_disconnectSlot, orphanSlot, disconnectSlot, List.foldl_cons]
  rw [split, foldl_disconnectSlot]

theorem marked_getElem? (slots : List Nat) (orphaned : List Bool) (slot : Nat) :
    (slots.foldl (fun orphaned slot => orphaned.set slot true) orphaned)[slot]? =
      orphaned[slot]?.map fun old => old || slots.contains slot := by
  induction slots generalizing orphaned with
  | nil => simp
  | cons head rest ih =>
    rw [List.foldl_cons, ih, List.getElem?_set, List.contains_cons]
    grind

theorem marked_length (slots : List Nat) (orphaned : List Bool) :
    (slots.foldl (fun orphaned slot => orphaned.set slot true) orphaned).length = orphaned.length := by
  induction slots generalizing orphaned with
  | nil => rfl
  | cons head rest ih => rw [List.foldl_cons, ih, List.length_set]

theorem pushPins_lays (operation : String) (owner : Nat) {pinIds : List String} (net : Netlist)
    (valid : ValidPins pinIds) : ∃ pins, pushPins operation owner pinIds ∅ net =
        (pushSlots owner pinIds.length net, .ok pins) ∧ Lays pins ⟨net.slotOwner.length, pinIds⟩ := by
  obtain ⟨pins, run, spec⟩ := pushPins_valid operation owner ∅ net
    (fun pinId member => ⟨fun h => valid.1 (h ▸ member), by simp⟩) valid.2
  refine ⟨pins, run, fun pinId slot => ?_⟩
  rw [spec]
  simp

theorem registerComponent_valid {net : Netlist} {pinIds : List String} (valid : ValidPins pinIds) :
    ∃ pins, Lays pins ⟨net.slotOwner.length, pinIds⟩ ∧
      (net.registerComponent net.componentPinSlots.length pinIds).1 = { net with
        slotOwner := net.slotOwner ++ List.replicate pinIds.length net.componentPinSlots.length
        slotOrphaned := net.slotOrphaned ++ List.replicate pinIds.length false
        tunnel := net.tunnel.pushes pinIds.length
        fallbackTunnel := net.fallbackTunnel.pushes pinIds.length
        firstSlotByComponent := net.firstSlotByComponent ++ [net.slotOwner.length]
        componentPinSlots := net.componentPinSlots ++ [pins]
        componentRemoved := net.componentRemoved ++ [false] } := by
  obtain ⟨pins, run, lays⟩ := pushPins_lays "Netlist::registerComponent"
    net.componentPinSlots.length { net with
      firstSlotByComponent := net.firstSlotByComponent ++ [net.slotOwner.length] } valid
  refine ⟨pins, lays, ?_⟩
  rw [registerComponent, if_neg (not_not.mpr rfl)]
  simp only [run, pushSlots_eq]

theorem removeComponent_live {net : Netlist} {order : HashOrder} {i : Nat} {pins : PinSlots}
    (stored : net.componentPinSlots[i]? = some pins)
    (kept : net.componentRemoved.getD i false = false) :
    (net.removeComponent order i).1 =
      let slots := (order.arrange pins.entries).map (·.2)
      { net with
        tunnel := net.tunnel.clear slots
        fallbackTunnel := net.fallbackTunnel.clear slots
        wireEdges := net.wireEdges.filter (avoids slots)
        componentRemoved := net.componentRemoved.set i true } := by
  have fold := foldl_disconnectSlot net ((order.arrange pins.entries).map (·.2))
  rw [List.foldl_map] at fold
  simp only [removeComponent, stored, kept, Bool.false_eq_true, if_false, fold]

theorem reregisterComponentPins_valid {net : Netlist} (order : HashOrder) {i : Nat} {pins : PinSlots}
    {newPinIds : List String} (stored : net.componentPinSlots[i]? = some pins)
    (kept : net.componentRemoved.getD i false = false) (valid : ValidPins newPinIds) :
    ∃ newPins, Lays newPins ⟨net.slotOwner.length, newPinIds⟩ ∧
      (net.reregisterComponentPins order i newPinIds).1 =
        let slots := (order.arrange pins.entries).map (·.2)
        { net with
          slotOwner := net.slotOwner ++ List.replicate newPinIds.length i
          slotOrphaned := slots.foldl (fun orphaned slot => orphaned.set slot true) net.slotOrphaned ++
            List.replicate newPinIds.length false
          tunnel := (net.tunnel.clear slots).pushes newPinIds.length
          fallbackTunnel := (net.fallbackTunnel.clear slots).pushes newPinIds.length
          wireEdges := net.wireEdges.filter (avoids slots)
          firstSlotByComponent := net.firstSlotByComponent.set i net.slotOwner.length
          componentPinSlots := net.componentPinSlots.set i newPins } := by
  let slots := (order.arrange pins.entries).map (·.2)
  have fold := foldl_orphanSlot net slots
  rw [List.foldl_map] at fold
  obtain ⟨newPins, run, lays⟩ := pushPins_lays "Netlist::reregisterComponentPins"
    i { net with
      slotOrphaned := slots.foldl (fun orphaned slot => orphaned.set slot true) net.slotOrphaned
      tunnel := net.tunnel.clear slots
      fallbackTunnel := net.fallbackTunnel.clear slots
      wireEdges := net.wireEdges.filter (avoids slots)
      firstSlotByComponent := net.firstSlotByComponent.set i net.slotOwner.length } valid
  refine ⟨newPins, lays, ?_⟩
  simp only [reregisterComponentPins, stored, kept, Bool.false_eq_true, if_false, fold, run, pushSlots_eq]
  rfl

end Netlist

/-! ### Steps -/

namespace Represents

variable {net : Netlist} {c : Circuit}

theorem pins_of_live (rep : Represents net c) {i : Nat} {component : Component}
    (alive : c.Live i component) :
    ∃ pins, net.componentPinSlots[i]? = some pins ∧ net.componentRemoved.getD i false = false ∧
      Lays pins component := by
  obtain ⟨kept, _, pins, stored, lays⟩ := rep.live i component alive
  exact ⟨pins, stored, by simp [List.getD_eq_getElem?_getD, kept], lays⟩

/-- The pins and the removal flag of component `i`, by what the circuit says of it. -/
theorem cases_component (rep : Represents net c) (i : Nat) :
    (c.components[i]? = none ∧ net.componentPinSlots[i]? = none) ∨
      (c.components[i]? = some none ∧ (∃ pins, net.componentPinSlots[i]? = some pins) ∧
        net.componentRemoved.getD i false = true) ∨
      ∃ component, c.Live i component := by
  cases found : c.components[i]? with
  | none =>
    have bound := List.getElem?_eq_none_iff.mp found
    exact .inl ⟨rfl, List.getElem?_eq_none_iff.mpr (rep.pins_length ▸ bound)⟩
  | some entry =>
    cases entry with
    | none =>
      have bound := rep.pins_length ▸ (List.getElem?_eq_some_iff.mp found).1
      refine .inr (.inl ⟨rfl, ⟨_, List.getElem?_eq_getElem bound⟩, ?_⟩)
      simp [List.getD_eq_getElem?_getD, rep.removed i found]
    | some component => exact .inr (.inr ⟨component, found⟩)

theorem retired_wires (rep : Represents net c) {slots : List Nat} {old : Component}
    (owns : ∀ slot, slot ∈ slots ↔ old.Owns slot) : (c.retire old).wires =
      ((net.wireEdges.filter (Netlist.avoids slots)).map fun edge => s(edge.1, edge.2) :
        List (Sym2 Nat)) := by
  rw [Circuit.retire, rep.wires, Multiset.filter_coe, List.filter_map]
  refine congrArg _ (congrArg _ (List.filter_congr fun edge _ => ?_))
  simp only [Function.comp_apply, Netlist.avoids, Sym2.ball, ← owns]
  simp

theorem retired_name (rep : Represents net c) {slots : List Nat} {old : Component}
    (owns : ∀ slot, slot ∈ slots ↔ old.Owns slot) (slot : Nat) :
    (c.retire old).name slot = (net.tunnel.clear slots).names.getD slot "" := by
  rw [List.getD_eq_getElem?_getD, NameIndex.clear_names, Circuit.retire]
  simp only [rep.name slot, List.getD_eq_getElem?_getD, ← owns]
  cases net.tunnel.names[slot]? <;> simp

theorem retired_fallback (rep : Represents net c) {slots : List Nat} {old : Component}
    (owns : ∀ slot, slot ∈ slots ↔ old.Owns slot) (slot : Nat) :
    (c.retire old).fallback slot = (net.fallbackTunnel.clear slots).names.getD slot "" := by
  rw [List.getD_eq_getElem?_getD, NameIndex.clear_names, Circuit.retire]
  simp only [rep.fallback slot, List.getD_eq_getElem?_getD, ← owns]
  cases net.fallbackTunnel.names[slot]? <;> simp

theorem getElem?_grown {α : Type} {xs : List α} {count slot : Nat} {x y : α} :
    (xs ++ List.replicate count x)[slot]? = some y ↔
      xs[slot]? = some y ∨ xs.length ≤ slot ∧ slot < xs.length + count ∧ x = y := by
  rw [List.getElem?_append, List.getElem?_replicate]
  grind

theorem grown_name {names : List String} {slot : Nat} (count : Nat) :
    (names ++ List.replicate count "").getD slot "" = names.getD slot "" := by
  simp only [List.getD_eq_getElem?_getD, List.getElem?_append, List.getElem?_replicate]
  grind

theorem registerComponent (rep : Represents net c) {pinIds : List String} (valid : ValidPins pinIds) :
    Represents (net.registerComponent net.componentPinSlots.length pinIds).1
      { c with
        slotCount := c.slotCount + pinIds.length
        components := c.components ++ [some ⟨c.slotCount, pinIds⟩] } := by
  obtain ⟨pins, lays, result⟩ := Netlist.registerComponent_valid valid
  rw [result, rep.pins_length]
  rw [rep.owner_length] at lays ⊢
  have live : ∀ i component, (c.components ++ [some ⟨c.slotCount, pinIds⟩])[i]? = some (some component) →
      c.Live i component ∨ i = c.components.length ∧ component = ⟨c.slotCount, pinIds⟩ := by
    intro i component found
    rw [List.getElem?_append] at found
    split at found
    · exact .inl found
    · next old =>
      have last := (List.getElem?_eq_some_iff.mp found).1
      rw [List.length_singleton] at last
      have here : i = c.components.length := by omega
      subst here
      rw [Nat.sub_self] at found
      exact .inr ⟨rfl, (Option.some.inj (Option.some.inj found)).symm⟩
  have old_index : ∀ {i component}, c.Live i component → i < c.components.length :=
    fun found => (List.getElem?_eq_some_iff.mp found).1
  constructor
  case owner_length => simp [rep.owner_length]
  case orphaned_length => simp [rep.orphaned_length]
  case names_length => simp [NameIndex.pushes_names, rep.names_length]
  case fallbacks_length => simp [NameIndex.pushes_names, rep.fallbacks_length]
  case pins_length => simp [rep.pins_length]
  case first_length => simp [rep.first_length]
  case removed_length => simp [rep.removed_length]
  case wires => exact rep.wires
  case wired =>
    intro edge member
    have := rep.wired edge member
    exact ⟨by dsimp only; omega, by dsimp only; omega⟩
  case name => intro slot; rw [NameIndex.pushes_names, grown_name]; exact rep.name slot
  case fallback => intro slot; rw [NameIndex.pushes_names, grown_name]; exact rep.fallback slot
  case removed =>
    intro i found
    have := rep.removed i
    have := rep.removed_length
    grind
  case live =>
    intro i component found
    rcases live i component found with old | ⟨rfl, rfl⟩
    · obtain ⟨kept, first, old_pins, stored, old_lays⟩ := rep.live i component old
      have index := old_index old
      refine ⟨?_, ?_, old_pins, ?_, old_lays⟩
      · rw [List.getElem?_append_left (rep.removed_length ▸ index), kept]
      · rw [List.getElem?_append_left (rep.first_length ▸ index), first]
      · rw [List.getElem?_append_left (rep.pins_length ▸ index), stored]
    · refine ⟨?_, ?_, pins, ?_, lays⟩
      · rw [← rep.removed_length, List.getElem?_concat_length]
      · rw [← rep.first_length, List.getElem?_concat_length]
      · rw [← rep.pins_length, List.getElem?_concat_length]
  case fits =>
    intro i component found
    rcases live i component found with old | ⟨rfl, rfl⟩
    · have := rep.fits i component old
      dsimp only
      omega
    · exact le_rfl
  case owned =>
    intro i component slot found owns
    rcases live i component found with old | ⟨rfl, rfl⟩
    · obtain ⟨owner, alive⟩ := rep.owned i component slot old owns
      exact ⟨getElem?_grown.mpr (.inl owner), getElem?_grown.mpr (.inl alive)⟩
    · exact ⟨getElem?_grown.mpr (.inr ⟨rep.owner_length ▸ owns.1, rep.owner_length ▸ owns.2, rfl⟩),
        getElem?_grown.mpr (.inr ⟨rep.orphaned_length ▸ owns.1, rep.orphaned_length ▸ owns.2, rfl⟩)⟩
  case owns =>
    intro i component slot found owner alive
    rcases live i component found with old | ⟨rfl, rfl⟩
    · rcases getElem?_grown.mp owner with owner | ⟨_, _, rfl⟩
      · refine rep.owns i component slot old owner ?_
        have bound := (List.getElem?_eq_some_iff.mp owner).1
        rcases getElem?_grown.mp alive with alive | ⟨low, _⟩
        · exact alive
        · rw [rep.owner_length] at bound; rw [rep.orphaned_length] at low; omega
      · exact absurd (old_index old) (lt_irrefl _)
    · rcases getElem?_grown.mp owner with owner | ⟨low, high, _⟩
      · exact absurd (rep.owner_known slot _ owner) (lt_irrefl _)
      · rw [rep.owner_length] at low high
        exact ⟨low, high⟩
  case owner_known =>
    intro slot i owner
    rw [List.length_append, List.length_singleton]
    rcases getElem?_grown.mp owner with owner | ⟨_, _, rfl⟩
    · exact Nat.lt_succ_of_lt (rep.owner_known slot i owner)
    · exact Nat.lt_succ_self _

/-- The slots a retirement loop visits are those of the component, in any hash order. -/
theorem retired_slots {pins : PinSlots} {old : Component} (lays : Lays pins old) (order : HashOrder)
    (slot : Nat) : slot ∈ (order.arrange pins.entries).map (·.2) ↔ old.Owns slot := by
  rw [← lays.mem_slots]
  exact ((order.perm pins.entries).map _).mem_iff

theorem wired_filter (rep : Represents net c) {slots : List Nat} :
    ∀ edge ∈ net.wireEdges.filter (Netlist.avoids slots), edge.1 < c.slotCount ∧ edge.2 < c.slotCount :=
  fun edge member => rep.wired edge (List.mem_of_mem_filter member)

theorem removeComponent (rep : Represents net c) (order : HashOrder) {i : Nat} {old : Component}
    (alive : c.Live i old) :
    Represents (net.removeComponent order i).1
      { c.retire old with components := c.components.set i none } := by
  obtain ⟨pins, stored, kept, lays⟩ := rep.pins_of_live alive
  have slots := retired_slots lays order
  rw [Netlist.removeComponent_live stored kept]
  have live : ∀ j component, (c.components.set i none)[j]? = some (some component) →
      c.Live j component ∧ i ≠ j := by
    intro j component found
    rw [List.getElem?_set] at found
    unfold Circuit.Live
    grind
  constructor
  case owner_length => exact rep.owner_length
  case orphaned_length => exact rep.orphaned_length
  case names_length => exact (NameIndex.clear_length _ _).trans rep.names_length
  case fallbacks_length => exact (NameIndex.clear_length _ _).trans rep.fallbacks_length
  case pins_length => exact rep.pins_length.trans List.length_set.symm
  case first_length => exact rep.first_length.trans List.length_set.symm
  case removed_length => simp [rep.removed_length]
  case wires => exact rep.retired_wires slots
  case wired => exact rep.wired_filter
  case name => exact rep.retired_name slots
  case fallback => exact rep.retired_fallback slots
  case removed =>
    intro j found
    have bound := (List.getElem?_eq_some_iff.mp alive).1
    have lengths := rep.removed_length
    have before := rep.removed j
    dsimp only at found ⊢
    rw [List.getElem?_set] at found ⊢
    grind
  case live =>
    intro j component found
    obtain ⟨old, ne⟩ := live j component found
    dsimp only
    rw [List.getElem?_set_ne ne]
    exact rep.live j component old
  case fits => exact fun j component found => rep.fits j component (live j component found).1
  case owned => exact fun j component slot found => rep.owned j component slot (live j component found).1
  case owns => exact fun j component slot found => rep.owns j component slot (live j component found).1
  case owner_known =>
    intro slot j owner
    rw [List.length_set]
    exact rep.owner_known slot j owner

theorem reregisterComponentPins (rep : Represents net c) (order : HashOrder) {i : Nat} {old : Component}
    {newPinIds : List String} (alive : c.Live i old) (valid : ValidPins newPinIds) :
    Represents (net.reregisterComponentPins order i newPinIds).1
      { c.retire old with
        slotCount := c.slotCount + newPinIds.length
        components := c.components.set i (some ⟨c.slotCount, newPinIds⟩) } := by
  obtain ⟨pins, stored, kept, lays⟩ := rep.pins_of_live alive
  have slots := retired_slots lays order
  obtain ⟨newPins, newLays, result⟩ :=
    Netlist.reregisterComponentPins_valid order stored kept valid
  rw [result]
  rw [rep.owner_length] at newLays ⊢
  have bound := (List.getElem?_eq_some_iff.mp alive).1
  have live : ∀ j component,
      (c.components.set i (some ⟨c.slotCount, newPinIds⟩))[j]? = some (some component) →
      (c.Live j component ∧ i ≠ j) ∨ j = i ∧ component = ⟨c.slotCount, newPinIds⟩ := by
    intro j component found
    rw [List.getElem?_set] at found
    unfold Circuit.Live
    grind
  have orphaned : ∀ slot, (((order.arrange pins.entries).map (·.2)).foldl
      (fun orphaned slot => orphaned.set slot true) net.slotOrphaned)[slot]? = some false ↔
      net.slotOrphaned[slot]? = some false ∧ ¬old.Owns slot := by
    intro slot
    rw [Netlist.marked_getElem?, ← slots slot]
    cases net.slotOrphaned[slot]? <;> simp
  have marked_length := (Netlist.marked_length ((order.arrange pins.entries).map (·.2))
    net.slotOrphaned).trans rep.orphaned_length
  constructor
  case owner_length => simp [rep.owner_length]
  case orphaned_length => simp only [List.length_append, marked_length, List.length_replicate]
  case names_length =>
    simp only [NameIndex.pushes_names, List.length_append, NameIndex.clear_length, rep.names_length,
      List.length_replicate]
  case fallbacks_length =>
    simp only [NameIndex.pushes_names, List.length_append, NameIndex.clear_length,
      rep.fallbacks_length, List.length_replicate]
  case pins_length => simp [rep.pins_length]
  case first_length => simp [rep.first_length]
  case removed_length => simp [rep.removed_length]
  case wires => exact rep.retired_wires slots
  case wired =>
    intro edge member
    have := rep.wired_filter edge member
    exact ⟨by dsimp only; omega, by dsimp only; omega⟩
  case name =>
    intro slot
    rw [NameIndex.pushes_names, grown_name]
    exact rep.retired_name slots slot
  case fallback =>
    intro slot
    rw [NameIndex.pushes_names, grown_name]
    exact rep.retired_fallback slots slot
  case removed =>
    intro j found
    refine rep.removed j ?_
    dsimp only at found
    rw [List.getElem?_set] at found
    grind
  case live =>
    intro j component found
    dsimp only
    rcases live j component found with ⟨other, ne⟩ | ⟨rfl, rfl⟩
    · rw [List.getElem?_set_ne ne, List.getElem?_set_ne ne]
      exact rep.live j component other
    · rw [List.getElem?_set_self (rep.first_length ▸ bound), List.getElem?_set_self (rep.pins_length ▸ bound)]
      exact ⟨(rep.live j old alive).1, rfl, newPins, rfl, newLays⟩
  case fits =>
    intro j component found
    rcases live j component found with ⟨other, _⟩ | ⟨rfl, rfl⟩
    · have := rep.fits j component other
      dsimp only
      omega
    · exact le_rfl
  case owned =>
    intro j component slot found owns
    rcases live j component found with ⟨other, ne⟩ | ⟨rfl, rfl⟩
    · obtain ⟨owner, kept⟩ := rep.owned j component slot other owns
      refine ⟨getElem?_grown.mpr (.inl owner), getElem?_grown.mpr (.inl ((orphaned slot).mpr ⟨kept, ?_⟩))⟩
      intro retired
      rw [(rep.owned i old slot alive retired).1] at owner
      exact ne (Option.some.inj owner)
    · refine ⟨getElem?_grown.mpr (.inr ⟨rep.owner_length ▸ owns.1, rep.owner_length ▸ owns.2, rfl⟩),
        getElem?_grown.mpr (.inr ?_)⟩
      rw [marked_length]
      exact ⟨owns.1, owns.2, rfl⟩
  case owns =>
    intro j component slot found owner kept
    have spent : net.slotOwner[slot]? = some j → net.slotOrphaned[slot]? = some false ∧ ¬old.Owns slot := by
      intro owner
      have low := (List.getElem?_eq_some_iff.mp owner).1
      rcases getElem?_grown.mp kept with kept | ⟨high, _⟩
      · exact (orphaned slot).mp kept
      · rw [rep.owner_length] at low; rw [marked_length] at high; omega
    rcases live j component found with ⟨other, ne⟩ | ⟨rfl, rfl⟩
    · rcases getElem?_grown.mp owner with owner | ⟨_, _, rfl⟩
      · exact rep.owns j component slot other owner (spent owner).1
      · exact absurd rfl ne
    · rcases getElem?_grown.mp owner with owner | ⟨low, high, _⟩
      · exact absurd (rep.owns j old slot alive owner (spent owner).1) (spent owner).2
      · rw [rep.owner_length] at low high
        exact ⟨low, high⟩
  case owner_known =>
    intro slot j owner
    rw [List.length_set]
    rcases getElem?_grown.mp owner with owner | ⟨_, _, rfl⟩
    · exact rep.owner_known slot j owner
    · exact bound

theorem validateSlot_eq (rep : Represents net c) (slot : Nat) (operation : String) :
    net.validateSlot slot operation =
      if slot < c.slotCount then .ok () else .error (.outOfRange (operation ++ ": invalid pin slot")) := by
  rw [Netlist.validateSlot, rep.owner_length]

theorem validateSlots_cases (rep : Represents net c) (slotA slotB : Nat) (operation : String) :
    (slotA < c.slotCount ∧ slotB < c.slotCount ∧
        net.validateSlots slotA slotB operation = .ok ()) ∨
      (¬(slotA < c.slotCount ∧ slotB < c.slotCount) ∧
        ∃ e, net.validateSlots slotA slotB operation = .error e) := by
  simp only [Netlist.validateSlots, rep.validateSlot_eq]
  by_cases a : slotA < c.slotCount
  · by_cases b : slotB < c.slotCount
    · exact .inl ⟨a, b, by simp only [a, b, if_true]; rfl⟩
    · exact .inr ⟨fun h => b h.2, _, by simp only [a, b, if_true, if_false]; rfl⟩
  · exact .inr ⟨fun h => a h.1, _, by simp only [a, if_false]; rfl⟩

theorem connectWire (rep : Represents net c) (slotA slotB : Nat) :
    Represents (net.connectWire slotA slotB).1 (c.step (.connectWire slotA slotB)) := by
  rcases rep.validateSlots_cases slotA slotB "Netlist::connectWire" with ⟨a, b, ok⟩ | ⟨bad, e, error⟩
  · simp only [Netlist.connectWire, Circuit.step, ok, a, b, and_self, if_true]
    refine { rep with wires := ?_, wired := ?_ }
    · dsimp only
      rw [rep.wires, List.map_append, Multiset.cons_coe]
      exact Multiset.coe_eq_coe.mpr (List.perm_append_singleton _ _).symm
    · intro edge member
      rcases List.mem_append.mp member with member | member
      · exact rep.wired edge member
      · rw [List.mem_singleton.mp member]
        exact ⟨a, b⟩
  · simp only [Netlist.connectWire, Circuit.step, error, bad, if_false]
    exact rep

theorem matchesWire_eq (slotA slotB : Nat) : Netlist.matchesWire slotA slotB =
    (fun wire => decide (wire = s(slotA, slotB))) ∘ fun edge : Nat × Nat => s(edge.1, edge.2) := by
  funext edge
  simp only [Netlist.matchesWire, Function.comp_apply, Sym2.eq_iff]
  grind

theorem disconnectWire (rep : Represents net c) (slotA slotB : Nat) :
    Represents (net.disconnectWire slotA slotB).1 (c.step (.disconnectWire slotA slotB)) := by
  rcases rep.validateSlots_cases slotA slotB "Netlist::disconnectWire" with ⟨a, b, ok⟩ | ⟨bad, e, error⟩
  · simp only [Netlist.disconnectWire, Circuit.step, ok, a, b, and_self, if_true]
    refine { rep with wires := ?_, wired := ?_ }
    · dsimp only
      rw [rep.wires, Multiset.coe_erase, List.erase_eq_eraseP', matchesWire_eq, ← List.eraseP_map]
      rfl
    · exact fun edge member => rep.wired edge (List.mem_of_mem_eraseP member)
  · simp only [Netlist.disconnectWire, Circuit.step, error, bad, if_false]
    exact rep

theorem setTunnelName (rep : Represents net c) (slot : Nat) (newName : String) :
    Represents (net.setTunnelName slot newName).1 (c.step (.setTunnelName slot newName)) := by
  by_cases valid : slot < c.slotCount
  · simp only [Netlist.setTunnelName, rep.validateSlot_eq, Circuit.step, valid, if_true]
    refine { rep with names_length := ?_, name := ?_ }
    · simp [rep.names_length]
    · intro s
      have := rep.names_length
      simp only [Function.update_apply, NameIndex.rename_names, List.getD_eq_getElem?_getD,
        List.getElem?_set, rep.name s]
      grind
  · simp only [Netlist.setTunnelName, rep.validateSlot_eq, Circuit.step, valid, if_false]
    exact rep

theorem setFallbackTunnelName (rep : Represents net c) (slot : Nat) (newName : String) :
    Represents (net.setFallbackTunnelName slot newName).1
      (c.step (.setFallbackTunnelName slot newName)) := by
  by_cases valid : slot < c.slotCount
  · simp only [Netlist.setFallbackTunnelName, rep.validateSlot_eq, Circuit.step, valid, if_true]
    refine { rep with fallbacks_length := ?_, fallback := ?_ }
    · simp [rep.fallbacks_length]
    · intro s
      have := rep.fallbacks_length
      simp only [Function.update_apply, NameIndex.rename_names, List.getD_eq_getElem?_getD,
        List.getElem?_set, rep.fallback s]
      grind
  · simp only [Netlist.setFallbackTunnelName, rep.validateSlot_eq, Circuit.step, valid, if_false]
    exact rep

/-- An accepted edit of the netlist is the edit of the circuit. -/
theorem step (rep : Represents net c) (order : HashOrder) {op : Netlist.Op} (accepted : c.Accepts op) :
    Represents (net.step order op) (c.step op) := by
  cases op with
  | registerComponent i pinIds =>
    by_cases dense : i = c.components.length
    · have valid := accepted dense
      subst dense
      simp only [Netlist.step, Circuit.step, valid, ne_eq, not_true_eq_false, if_true, if_false]
      rw [← rep.pins_length]
      exact rep.registerComponent valid
    · simp only [Netlist.step, Circuit.step, Netlist.registerComponent, rep.pins_length, ne_eq, dense,
        not_false_eq_true, if_true]
      exact rep
  | removeComponent i =>
    rcases rep.cases_component i with ⟨gone, none⟩ | ⟨gone, ⟨pins, stored⟩, removed⟩ | ⟨old, alive⟩
    · simp only [Netlist.step, Circuit.step, Netlist.removeComponent, none, gone]
      exact rep
    · simp only [Netlist.step, Circuit.step, Netlist.removeComponent, stored, removed, gone, if_true]
      exact rep
    · simp only [Netlist.step, Circuit.step, show c.components[i]? = some (some old) from alive]
      exact rep.removeComponent order alive
  | reregisterComponentPins i newPinIds =>
    rcases rep.cases_component i with ⟨gone, none⟩ | ⟨gone, ⟨pins, stored⟩, removed⟩ | ⟨old, alive⟩
    · simp only [Netlist.step, Circuit.step, Netlist.reregisterComponentPins, none, gone]
      exact rep
    · simp only [Netlist.step, Circuit.step, Netlist.reregisterComponentPins, stored, removed, gone,
        if_true]
      exact rep
    · have valid := accepted ⟨old, alive⟩
      simp only [Netlist.step, Circuit.step, show c.components[i]? = some (some old) from alive, valid,
        if_true]
      exact rep.reregisterComponentPins order alive valid
  | connectWire slotA slotB => exact rep.connectWire slotA slotB
  | disconnectWire slotA slotB => exact rep.disconnectWire slotA slotB
  | setTunnelName slot newName => exact rep.setTunnelName slot newName
  | setFallbackTunnelName slot newName => exact rep.setFallbackTunnelName slot newName

theorem run {history : Netlist.History} {net : Netlist} {c : Circuit} (rep : Represents net c)
    (accepted : c.AcceptsAll (history.map (·.2))) :
    Represents (net.run history) (c.run (history.map (·.2))) := by
  induction history generalizing net c with
  | nil => exact rep
  | cons edit rest ih => exact ih (rep.step edit.1 accepted.1) accepted.2

end Represents
end LasecSimul.Wiring
