import LasecSimul.Lib.Fallible
import LasecSimul.Wiring.Netlist
import LasecSimul.Wiring.Refinement

/-!
# Exact connectivity

A rebuild of a netlist that represents a circuit succeeds, and its nodes, groups and pin references
are those of the circuit, whatever order the hash maps are walked in.
-/

namespace LasecSimul.Wiring

open Lib Lib.Closure Lib.Fallible Relation

/-- Some group lists both nodes. -/
def Topology.SameGroup (t : Topology) (p q : Nat) : Prop :=
  ∃ group ∈ t.groups, p ∈ group.nodes ∧ q ∈ group.nodes

/-- The topology is the one of the circuit. -/
structure Exact (c : Circuit) (t : Topology) : Prop where
  slots : t.slotToNode.length = c.slotCount
  node_iff : ∀ a b, a < c.slotCount → b < c.slotCount →
    (t.slotToNode[a]? = t.slotToNode[b]? ↔ EqvGen c.Joins a b)
  group_iff : ∀ p q, p ∈ t.slotToNode → q ∈ t.slotToNode →
    (t.SameGroup p q ↔ EqvGen (c.Shares fun slot => t.slotToNode[slot]?) p q)
  pin_once : ∀ i component k, c.Live i component → k < component.pinIds.length →
    ∃ node refs, t.slotToNode[component.first + k]? = some node ∧
      t.pinRefsByNode[node]? = some refs ∧ refs.count ⟨i, k⟩ = 1 ∧
        ∀ other refs', other ≠ node → t.pinRefsByNode[other]? = some refs' → ⟨i, k⟩ ∉ refs'
  pin_live : ∀ node refs ref, t.pinRefsByNode[node]? = some refs → ref ∈ refs →
    ∃ component, c.Live ref.componentIndex component ∧
      ref.localPinIndex < component.pinIds.length ∧
        t.slotToNode[component.first + ref.localPinIndex]? = some node

/-! ### Slots to nodes -/

/-- The wires and the names of the circuit are those of the netlist. -/
structure Drawn (net : Netlist) (c : Circuit) : Prop where
  wires : c.wires = (net.wireEdges.map fun edge => s(edge.1, edge.2) : List (Sym2 Nat))
  name : ∀ slot, c.name slot = net.tunnel.names.getD slot ""
  fallback : ∀ slot, c.fallback slot = net.fallbackTunnel.names.getD slot ""

theorem Represents.drawn {net : Netlist} {c : Circuit} (rep : Represents net c) : Drawn net c :=
  ⟨rep.wires, rep.name, rep.fallback⟩

namespace Drawn

variable {net : Netlist} {c : Circuit} {order : HashOrder}

theorem mem_group_iff {ix : NameIndex} {name : String} (named : name ≠ "") (slot : Nat) :
    slot ∈ ListIndex.entries ix.groups name ↔ ix.names.getD slot "" = name := by
  rw [ix.inverse, List.getD_eq_getElem?_getD]
  cases ix.names[slot]? with
  | none => simp [Ne.symm named]
  | some other => simp [named]

theorem hasWire_iff (drawn : Drawn net c) (slot : Nat) :
    net.hasWire slot = true ↔ ∃ wire ∈ c.wires, slot ∈ wire := by
  rw [Netlist.hasWire, List.any_eq_true, drawn.wires]
  simp only [Multiset.mem_coe, List.mem_map, exists_exists_and_eq_and, Sym2.mem_iff]
  refine exists_congr fun edge => and_congr_right fun _ => ?_
  rw [Bool.or_eq_true, beq_iff_eq, beq_iff_eq, eq_comm (a := slot), eq_comm (a := slot)]

theorem mem_tunnel_iff (drawn : Drawn net c) {name : String} (named : name ≠ "") (slot : Nat) :
    slot ∈ ListIndex.entries net.tunnel.groups name ↔ c.name slot = name := by
  rw [mem_group_iff named, drawn.name]

theorem mem_fallback_iff (drawn : Drawn net c) {name : String} (named : name ≠ "") (slot : Nat) :
    slot ∈ ListIndex.entries net.fallbackTunnel.groups name ↔ c.fallback slot = name := by
  rw [mem_group_iff named, drawn.fallback]

theorem stored_group (drawn : Drawn net c) {name : String} {slots : List Nat}
    (stored : ⟨name, slots⟩ ∈ net.tunnel.groups.entries) :
    name ≠ "" ∧ ∀ slot, slot ∈ slots ↔ c.name slot = name := by
  have found := AList.mem_lookup_iff.mpr stored
  have same := ListIndex.entries_of_lookup found
  obtain ⟨first, member⟩ := List.exists_mem_of_ne_nil _ (net.tunnel.nonempty _ _ found)
  have named := ((net.tunnel.inverse name first).mp (same ▸ member)).1
  exact ⟨named, fun slot => by rw [← same]; exact drawn.mem_tunnel_iff named slot⟩

theorem tunnelPairs_joined (drawn : Drawn net c) {name : String} {slots : List Nat}
    (stored : ⟨name, slots⟩ ∈ net.tunnel.groups.entries) {a b : Nat}
    (member : (a, b) ∈ net.tunnelPairs name slots) : EqvGen c.Joins a b := by
  obtain ⟨named, groups⟩ := drawn.stored_group stored
  cases slots with
  | nil => cases member
  | cons first rest =>
    have firstName := (groups first).mp List.mem_cons_self
    rcases List.mem_append.mp member with member | member
    · obtain ⟨slot, inGroup, same⟩ := List.mem_map.mp member
      obtain ⟨rfl, rfl⟩ := Prod.mk.inj same
      refine .rel _ _ (.tunnel (firstName ▸ named) (firstName.trans ((groups slot).mp inGroup).symm))
    · obtain ⟨slot, listed, same⟩ := List.mem_map.mp member
      obtain ⟨rfl, rfl⟩ := Prod.mk.inj same
      obtain ⟨listed, free⟩ := List.mem_filter.mp listed
      have fallbackName := (drawn.mem_fallback_iff named slot).mp listed
      refine .symm _ _ (.rel _ _ (.fallback ?_ (firstName ▸ named) (fallbackName.trans firstName.symm)))
      intro wire laid touches
      rw [(drawn.hasWire_iff slot).mpr ⟨wire, laid, touches⟩] at free
      cases free

theorem slotPairs_joined (drawn : Drawn net c) {a b : Nat}
    (member : (a, b) ∈ net.slotPairs order) : EqvGen c.Joins a b := by
  rcases List.mem_append.mp member with wired | named
  · refine .rel _ _ (.wire ?_)
    rw [drawn.wires]
    exact Multiset.mem_coe.mpr (List.mem_map.mpr ⟨(a, b), wired, rfl⟩)
  · obtain ⟨⟨name, slots⟩, stored, member⟩ := List.mem_flatMap.mp named
    exact drawn.tunnelPairs_joined ((order.perm _).mem_iff.mp stored) member

theorem group_of_name (drawn : Drawn net c) {name : String} (named : name ≠ "") {slot : Nat}
    (hasName : c.name slot = name) : ∃ first rest,
      ⟨name, first :: rest⟩ ∈ net.tunnel.groups.entries ∧
        ∀ slot, slot ∈ first :: rest ↔ c.name slot = name := by
  obtain ⟨slots, stored, member⟩ := ListIndex.exists_mem_entries.mpr
    ((drawn.mem_tunnel_iff named slot).mpr hasName)
  cases slots with
  | nil => cases member
  | cons first rest => exact ⟨first, rest, stored, (drawn.stored_group stored).2⟩

theorem mem_slotPairs_of_group {name : String} {slots : List Nat} {pair : Nat × Nat}
    (stored : ⟨name, slots⟩ ∈ net.tunnel.groups.entries)
    (member : pair ∈ net.tunnelPairs name slots) : pair ∈ net.slotPairs order :=
  List.mem_append_right _ (List.mem_flatMap.mpr ⟨_, (order.perm _).mem_iff.mpr stored, member⟩)

theorem joins_slotPairs (drawn : Drawn net c) {a b : Nat} (joins : c.Joins a b) :
    Joined (net.slotPairs order) a b := by
  have toFirst : ∀ {name first rest slot}, ⟨name, first :: rest⟩ ∈ net.tunnel.groups.entries →
      slot ∈ first :: rest → Joined (net.slotPairs order) first slot := by
    intro name first rest slot stored member
    exact .pair (mem_slotPairs_of_group stored
      (List.mem_append_left _ (List.mem_map.mpr ⟨slot, member, rfl⟩)))
  cases joins with
  | wire laid =>
    rw [drawn.wires] at laid
    obtain ⟨edge, stored, same⟩ := List.mem_map.mp (Multiset.mem_coe.mp laid)
    rcases Sym2.eq_iff.mp same with ⟨rfl, rfl⟩ | ⟨rfl, rfl⟩
    · exact .pair (List.mem_append_left _ stored)
    · exact (Joined.pair (List.mem_append_left _ stored)).symm
  | tunnel named same =>
    obtain ⟨first, rest, stored, group⟩ := drawn.group_of_name named rfl
    exact (toFirst stored ((group a).mpr rfl)).symm.trans (toFirst stored ((group b).mpr same.symm))
  | fallback free named same =>
    obtain ⟨first, rest, stored, group⟩ := drawn.group_of_name named rfl
    have listed := (drawn.mem_fallback_iff named a).mpr same
    have unwired : net.hasWire a = false := by
      rw [Bool.eq_false_iff]
      intro wired
      obtain ⟨wire, laid, touches⟩ := (drawn.hasWire_iff a).mp wired
      exact free wire laid touches
    have reached : Joined (net.slotPairs order) first a := .pair (mem_slotPairs_of_group stored
      (List.mem_append_right _ (List.mem_map.mpr ⟨a, List.mem_filter.mpr ⟨listed, by simp [unwired]⟩, rfl⟩)))
    exact reached.symm.trans (toFirst stored ((group b).mpr rfl))

theorem joined_iff (drawn : Drawn net c) (order : HashOrder) {a b : Nat} :
    Joined (net.slotPairs order) a b ↔ EqvGen c.Joins a b :=
  (eqvGen_iff (fun _ _ joins => drawn.joins_slotPairs joins) fun _ _ listed => drawn.slotPairs_joined listed).symm

end Drawn

namespace Netlist

theorem validated_spec {count : Nat} {operation : String} {pairs : List (Nat × Nat)} {valid : List (Fin count × Fin count)}
    (run : validated count operation pairs = .ok valid) : valid.map (fun pair => (pair.1.val, pair.2.val)) = pairs := by
  induction pairs generalizing valid with
  | nil =>
    cases run
    rfl
  | cons pair rest ih =>
    obtain ⟨a, b⟩ := pair
    unfold validated at run
    split at run
    · split at run
      · obtain ⟨later, tail, made⟩ := bind_ok run
        obtain rfl := Except.ok.inj made
        rw [List.map_cons, ih tail]
      · cases run
    · cases run

/-- The sets of pass 1 are the classes of the slots that the pairs join. -/
theorem pinUnion_same {net : Netlist} {order : HashOrder} {pins : UnionFind net.slotOwner.length}
    (run : net.pinUnion order = .ok pins) (a b : Fin net.slotOwner.length) :
    pins.Same a b ↔ Joined (net.slotPairs order) a.val b.val := by
  obtain ⟨valid, validRun, made⟩ := bind_ok run
  obtain rfl := Except.ok.inj made
  have same := validated_spec validRun
  rw [UnionFind.uniteAll_same]
  refine (eqvGen_map_iff Fin.val_injective ?_ ?_).symm
  · intro u v listed
    refine .rel _ _ ?_
    rw [← same]
    exact List.mem_map.mpr ⟨(u, v), listed, rfl⟩
  · intro u v listed
    rw [← same] at listed
    obtain ⟨⟨x, y⟩, stored, eq⟩ := List.mem_map.mp listed
    obtain ⟨rfl, rfl⟩ := Prod.mk.inj eq
    exact ⟨x, y, rfl, rfl, .rel _ _ stored⟩

end Netlist

namespace Represents

variable {net : Netlist} {c : Circuit} {order : HashOrder}

theorem name_bound (rep : Represents net c) {slot : Nat} (named : c.name slot ≠ "") :
    slot < c.slotCount := by
  by_contra beyond
  rw [rep.name, List.getD_eq_getElem?_getD,
      List.getElem?_eq_none (by rw [rep.names_length]; omega)] at named
  exact named rfl

theorem fallback_bound (rep : Represents net c) {slot : Nat} (named : c.fallback slot ≠ "") :
    slot < c.slotCount := by
  by_contra beyond
  rw [rep.fallback, List.getD_eq_getElem?_getD,
      List.getElem?_eq_none (by rw [rep.fallbacks_length]; omega)] at named
  exact named rfl

theorem slotPairs_bound (rep : Represents net c) {pair : Nat × Nat}
    (member : pair ∈ net.slotPairs order) : pair.1 < c.slotCount ∧ pair.2 < c.slotCount := by
  rcases List.mem_append.mp member with wired | grouped
  · exact rep.wired pair wired
  · obtain ⟨⟨name, slots⟩, stored, member⟩ := List.mem_flatMap.mp grouped
    obtain ⟨named, groups⟩ := rep.drawn.stored_group ((order.perm _).mem_iff.mp stored)
    have inRange : ∀ slot ∈ slots, slot < c.slotCount := fun slot inGroup =>
      rep.name_bound (((groups slot).mp inGroup).trans_ne named)
    cases slots with
    | nil => cases member
    | cons first rest =>
      rcases List.mem_append.mp member with member | member
      · obtain ⟨slot, inGroup, rfl⟩ := List.mem_map.mp member
        exact ⟨inRange first List.mem_cons_self, inRange slot inGroup⟩
      · obtain ⟨slot, listed, rfl⟩ := List.mem_map.mp member
        have fallbackName := (rep.drawn.mem_fallback_iff named slot).mp (List.mem_of_mem_filter listed)
        exact ⟨inRange first List.mem_cons_self, rep.fallback_bound (fallbackName.trans_ne named)⟩

theorem validated_ok (count : Nat) (operation : String) {pairs : List (Nat × Nat)}
    (bound : ∀ pair ∈ pairs, pair.1 < count ∧ pair.2 < count) :
    ∃ valid, Netlist.validated count operation pairs = .ok valid := by
  induction pairs with
  | nil => exact ⟨[], rfl⟩
  | cons pair rest ih =>
    obtain ⟨a, b⟩ := pair
    obtain ⟨valid, run⟩ := ih fun p member => bound p (List.mem_cons_of_mem _ member)
    obtain ⟨ha, hb⟩ := bound (a, b) List.mem_cons_self
    refine ⟨(⟨a, ha⟩, ⟨b, hb⟩) :: valid, ?_⟩
    simp only [Netlist.validated, ha, hb, dif_pos, run]
    rfl

/-- Pass 1 succeeds and its sets are the classes of directly joined slots. -/
theorem pinUnion_ok (rep : Represents net c) (order : HashOrder) :
    ∃ pins, net.pinUnion order = .ok pins ∧ ∀ a b, pins.Same a b ↔ EqvGen c.Joins a.val b.val := by
  obtain ⟨valid, run⟩ := validated_ok net.slotOwner.length "Netlist::rebuildTopology"
    fun pair (member : pair ∈ net.slotPairs order) => rep.owner_length ▸ rep.slotPairs_bound member
  have united : net.pinUnion order = .ok ((UnionFind.init _).uniteAll valid) := by
    rw [Netlist.pinUnion, run]
    rfl
  exact ⟨_, united, fun a b => (Netlist.pinUnion_same united a b).trans (rep.drawn.joined_iff order)⟩

/-! ### Nodes to groups -/

theorem mem_liveComponents (rep : Represents net c) {i : Nat} {pins : PinSlots} :
    (i, pins) ∈ net.liveComponents ↔
      ∃ component, c.Live i component ∧ net.componentPinSlots[i]? = some pins := by
  rw [Netlist.liveComponents, List.mem_filter]
  have indexed : (i, pins) ∈ net.componentPinSlots.zipIdx.map Prod.swap ↔
      net.componentPinSlots[i]? = some pins := by
    constructor
    · intro member
      obtain ⟨entry, zipped, eq⟩ := List.mem_map.mp member
      obtain ⟨rfl, rfl⟩ := Prod.mk.inj eq
      exact List.mem_zipIdx_iff_getElem?.mp zipped
    · intro stored
      exact List.mem_map.mpr ⟨(pins, i), List.mem_zipIdx_iff_getElem?.mpr stored, rfl⟩
  rw [indexed]
  rcases rep.cases_component i with ⟨_, none⟩ | ⟨gone, _, removed⟩ | ⟨old, alive⟩
  · simp [none]
  · simp only [removed, Circuit.Live, gone]
    simp
  · obtain ⟨pins', stored, kept, _⟩ := rep.pins_of_live alive
    simp only [kept, Bool.not_false, and_true]
    constructor
    · intro found
      exact ⟨old, alive, found⟩
    · intro held
      obtain ⟨_, _, found⟩ := held
      exact found

theorem lays_of_live (rep : Represents net c) {i : Nat} {component : Component} {pins : PinSlots}
    (alive : c.Live i component) (stored : net.componentPinSlots[i]? = some pins) :
    Lays pins component := by
  obtain ⟨pins', stored', _, lays⟩ := rep.pins_of_live alive
  rw [stored] at stored'
  exact Option.some.inj stored' ▸ lays

end Represents

namespace Netlist

theorem chainPairs_joined {α : Type} {xs : List α} {x y : α} (hx : x ∈ xs) (hy : y ∈ xs) :
    Joined (chainPairs xs) x y := by
  cases xs with
  | nil => cases hx
  | cons first rest =>
    have reach : ∀ z ∈ first :: rest, Joined (chainPairs (first :: rest)) first z := by
      intro z hz
      rcases List.mem_cons.mp hz with rfl | hz
      · exact .refl _
      · exact .pair (List.mem_map.mpr ⟨z, hz, rfl⟩)
    exact (reach x hx).symm.trans (reach y hy)

theorem mem_of_chainPairs {α : Type} {xs : List α} {x y : α} (member : (x, y) ∈ chainPairs xs) :
    x ∈ xs ∧ y ∈ xs := by
  cases xs with
  | nil => cases member
  | cons first rest =>
    obtain ⟨z, hz, same⟩ := List.mem_map.mp member
    obtain ⟨rfl, rfl⟩ := Prod.mk.inj same
    exact ⟨List.mem_cons_self, List.mem_cons_of_mem _ hz⟩

theorem read_spec {α : Type} {xs : List α} {index : Nat} {what : String} {x : α} :
    read xs index what = .ok x ↔ xs[index]? = some x := by
  unfold read
  cases xs[index]? with
  | none => exact ⟨nofun, nofun⟩
  | some y => rw [Except.ok.injEq, Option.some.injEq]

/-- A pin of the component is on the node. -/
def OnPins {nodeCount : Nat} (slotToNode : List (Fin nodeCount)) (pins : PinSlots) (node : Fin nodeCount) : Prop :=
  ∃ pin ∈ pins.entries, slotToNode[pin.2]? = some node

theorem mem_pinNodes {nodeCount : Nat} {order : HashOrder} {slotToNode nodes : List (Fin nodeCount)} {pins : PinSlots}
    (run : pinNodes order slotToNode pins = .ok nodes) {node : Fin nodeCount} :
    node ∈ nodes ↔ OnPins slotToNode pins node := by
  have each := mapM_forall₂ run
  constructor
  · intro member
    obtain ⟨pin, listed, found⟩ := mem_of_forall₂ each member
    exact ⟨pin, (order.perm _).mem_iff.mp listed, read_spec.mp found⟩
  · rintro ⟨pin, listed, found⟩
    obtain ⟨other, member, found'⟩ := exists_of_forall₂ each ((order.perm _).mem_iff.mpr listed)
    rwa [Option.some.inj (found.symm.trans (read_spec.mp found'))]

/-- The sets of pass 2 are the classes of the nodes that share a component. -/
theorem groupUnion_same {net : Netlist} {order : HashOrder} {nodeCount : Nat} {slotToNode : List (Fin nodeCount)}
    {groups : UnionFind nodeCount} (run : net.groupUnion order slotToNode = .ok groups) (p q : Fin nodeCount) :
    groups.Same p q ↔ EqvGen (fun p q => ∃ entry ∈ net.liveComponents,
      OnPins slotToNode entry.2 p ∧ OnPins slotToNode entry.2 q) p q := by
  obtain ⟨lists, mapRun, made⟩ := bind_ok run
  obtain rfl := Except.ok.inj made
  have paired := mapM_forall₂ mapRun
  rw [UnionFind.uniteAll_same]
  refine eqvGen_iff ?_ ?_
  · intro x y listed
    obtain ⟨nodes, member, pair⟩ := List.mem_flatMap.mp listed
    obtain ⟨entry, inLive, found⟩ := mem_of_forall₂ paired member
    obtain ⟨hx, hy⟩ := mem_of_chainPairs pair
    exact .rel _ _ ⟨entry, inLive, (mem_pinNodes found).mp hx, (mem_pinNodes found).mp hy⟩
  · rintro x y ⟨entry, inLive, hx, hy⟩
    obtain ⟨nodes, member, found⟩ := exists_of_forall₂ paired inLive
    refine (chainPairs_joined ((mem_pinNodes found).mpr hx) ((mem_pinNodes found).mpr hy)).mono fun pair inPairs => ?_
    exact List.mem_flatMap.mpr ⟨nodes, member, inPairs⟩

end Netlist

namespace Represents

variable {net : Netlist} {c : Circuit} {order : HashOrder}

theorem pin_bound (rep : Represents net c) (order : HashOrder) {i : Nat} {component : Component} {pins : PinSlots}
    (alive : c.Live i component) (lays : Lays pins component) {pin : Sigma fun _ : String => Nat}
    (member : pin ∈ order.arrange pins.entries) : pin.2 < c.slotCount := by
  have owns := (retired_slots lays order pin.2).mp (List.mem_map.mpr ⟨pin, member, rfl⟩)
  exact lt_of_lt_of_le owns.2 (rep.fits i component alive)

theorem read_ok {α : Type} {xs : List α} {index : Nat} (what : String) (bound : index < xs.length) :
    ∃ x, Netlist.read xs index what = .ok x :=
  ⟨xs[index], by rw [Netlist.read, List.getElem?_eq_getElem bound]⟩

theorem onPins_iff {count nodeCount : Nat} {nodeOf : Fin count → Fin nodeCount} {pins : PinSlots}
    {component : Component} (lays : Lays pins component) {node : Fin nodeCount} :
    Netlist.OnPins ((List.finRange count).map nodeOf) pins node ↔
      ∃ slot, component.Owns slot.val ∧ nodeOf slot = node := by
  constructor
  · rintro ⟨pin, listed, found⟩
    rw [List.getElem?_map, Option.map_eq_some_iff] at found
    obtain ⟨slot, found, same⟩ := found
    obtain ⟨_, rfl⟩ := List.getElem?_eq_some_iff.mp found
    refine ⟨_, ?_, same⟩
    rw [List.getElem_finRange]
    exact (lays.mem_slots pin.2).mp (List.mem_map.mpr ⟨pin, listed, rfl⟩)
  · rintro ⟨slot, owns, rfl⟩
    obtain ⟨pin, listed, same⟩ := List.mem_map.mp ((lays.mem_slots slot.val).mpr owns)
    refine ⟨pin, listed, ?_⟩
    rw [same]
    simp

/-- Pass 2 succeeds and its sets are the classes of nodes that share a component. -/
theorem groupUnion_ok (rep : Represents net c) (order : HashOrder) {nodeCount : Nat}
    (nodeOf : Fin net.slotOwner.length → Fin nodeCount) :
    ∃ groups, net.groupUnion order ((List.finRange _).map nodeOf) = .ok groups ∧
      ∀ p q, groups.Same p q ↔ EqvGen (fun p q => ∃ i component, c.Live i component ∧
        (∃ slot, component.Owns slot.val ∧ nodeOf slot = p) ∧
          ∃ slot, component.Owns slot.val ∧ nodeOf slot = q) p q := by
  have each : ∀ entry ∈ net.liveComponents,
      ∃ nodes, Netlist.pinNodes order ((List.finRange _).map nodeOf) entry.2 = .ok nodes := by
    rintro ⟨i, pins⟩ member
    obtain ⟨component, alive, stored⟩ := rep.mem_liveComponents.mp member
    have bound : ∀ pin ∈ order.arrange pins.entries, pin.2 < ((List.finRange _).map nodeOf).length := by
      intro pin listed
      rw [List.length_map, List.length_finRange, rep.owner_length]
      exact rep.pin_bound order alive (rep.lays_of_live alive stored) listed
    obtain ⟨nodes, run, _⟩ := mapM_exists (order.arrange pins.entries)
      (fun pin => Netlist.read ((List.finRange _).map nodeOf) pin.2 "slotToNode")
      fun pin listed => read_ok "slotToNode" (bound pin listed)
    exact ⟨nodes, run⟩
  obtain ⟨lists, run, _⟩ := mapM_exists net.liveComponents
    (fun entry => Netlist.pinNodes order ((List.finRange _).map nodeOf) entry.2) each
  have united : net.groupUnion order ((List.finRange _).map nodeOf) =
      .ok ((UnionFind.init _).uniteAll (lists.flatMap Netlist.chainPairs)) := by
    rw [Netlist.groupUnion, run]
    rfl
  refine ⟨_, united, fun p q => (Netlist.groupUnion_same united p q).trans (eqvGen_iff ?_ ?_)⟩
  · rintro x y ⟨⟨i, pins⟩, inLive, hx, hy⟩
    obtain ⟨component, alive, stored⟩ := rep.mem_liveComponents.mp inLive
    have lays := rep.lays_of_live alive stored
    exact .rel _ _ ⟨i, component, alive, (onPins_iff lays).mp hx, (onPins_iff lays).mp hy⟩
  · rintro x y ⟨i, component, alive, hx, hy⟩
    obtain ⟨pins, stored, _, lays⟩ := rep.pins_of_live alive
    exact .rel _ _ ⟨(i, pins), rep.mem_liveComponents.mpr ⟨component, alive, stored⟩,
      (onPins_iff lays).mpr hx, (onPins_iff lays).mpr hy⟩

/-- Reserving extra variables never fails and keeps one count for each group. -/
theorem reserveExtra_ok (rep : Represents net c) (order : HashOrder) {nodeCount : Nat} {slotToNode : List (Fin nodeCount)}
    (length : slotToNode.length = c.slotCount) (nodeToGroup : Fin nodeCount → Nat)
    (nodesPerGroup : List (List Nat)) (extraVarCountByComponent : List Nat) (start : Netlist.ExtraLayout) :
    ∃ layout, net.liveComponents.foldlM (Netlist.reserveExtra order slotToNode nodeToGroup nodesPerGroup
        extraVarCountByComponent) start = .ok layout ∧
      layout.extraCountPerGroup.length = start.extraCountPerGroup.length := by
  refine foldlM_ok (fun layout : Netlist.ExtraLayout => layout.extraCountPerGroup.length = start.extraCountPerGroup.length) rfl ?_
  rintro layout kept ⟨i, pins⟩ member
  obtain ⟨component, alive, stored⟩ := rep.mem_liveComponents.mp member
  have lays := rep.lays_of_live alive stored
  unfold Netlist.reserveExtra
  dsimp only
  split
  · exact ⟨layout, rfl, kept⟩
  · cases walked : order.arrange pins.entries with
    | nil => exact ⟨layout, rfl, kept⟩
    | cons pin rest =>
      obtain ⟨node, found⟩ := read_ok "slotToNode"
        (length ▸ rep.pin_bound order alive lays (walked ▸ List.mem_cons_self))
      dsimp only
      rw [found]
      exact ⟨_, rfl, by rw [List.length_set, kept]⟩

theorem stampPins_ok {resolutionBySlot : List PinSlotResolution} {pins : List (Sigma fun _ : String => Nat)}
    (bound : ∀ pin ∈ pins, pin.2 < resolutionBySlot.length) (stamp : ComponentStampResolution) :
    ∃ result, Netlist.stampPins resolutionBySlot pins stamp = .ok result := by
  induction pins generalizing stamp with
  | nil => exact ⟨stamp, rfl⟩
  | cons pin rest ih =>
    obtain ⟨resolution, found⟩ := read_ok "resolutionBySlot" (bound pin List.mem_cons_self)
    obtain ⟨result, run⟩ := ih (fun p member => bound p (List.mem_cons_of_mem _ member)) {
      groupIndex := resolution.groupIndex
      localIndexByPinId := stamp.localIndexByPinId.insert pin.1 resolution.localIndex }
    exact ⟨result, by rw [Netlist.stampPins, found]; exact run⟩

theorem stampResolutions_ok (rep : Represents net c) (resolutionBySlot : List PinSlotResolution)
    (length : resolutionBySlot.length = c.slotCount) (order : HashOrder) :
    ∃ stamps, net.stampResolutions order resolutionBySlot = .ok stamps := by
  obtain ⟨stamps, run, _⟩ := mapM_exists net.componentPinSlots.zipIdx
    (fun entry => if net.componentRemoved.getD entry.2 false then .ok {}
      else Netlist.stampPins resolutionBySlot (order.arrange entry.1.entries) {}) (by
    intro entry member
    have stored := List.mem_zipIdx_iff_getElem?.mp member
    rcases rep.cases_component entry.2 with ⟨_, none⟩ | ⟨_, _, removed⟩ | ⟨component, alive⟩
    · rw [none] at stored; cases stored
    · exact ⟨{}, by rw [if_pos removed]⟩
    · obtain ⟨_, _, kept, _⟩ := rep.pins_of_live alive
      have lays := rep.lays_of_live alive stored
      rw [if_neg (by rw [kept]; exact Bool.false_ne_true)]
      exact stampPins_ok (fun pin walked => length ▸ rep.pin_bound order alive lays walked) _)
  exact ⟨stamps, run⟩

/-- The slot stands for a pin of a live component. -/
def Alive (net : Netlist) (slot : Nat) : Bool :=
  !(net.componentRemoved.getD (net.slotOwner.getD slot 0) false || net.slotOrphaned.getD slot false)

theorem liveSlots_ok (rep : Represents net c) :
    net.liveSlots = .ok ((List.range net.slotOwner.length).filter (Alive net)) := by
  refine filterM_ok fun slot member => ?_
  have bound := List.mem_range.mp member
  have owner : net.slotOwner[slot]? = some (net.slotOwner.getD slot 0) := by
    rw [List.getD_eq_getElem?_getD, List.getElem?_eq_getElem bound, Option.getD_some]
  have known := rep.removed_length ▸ rep.owner_known slot _ owner
  have found : Netlist.read net.componentRemoved (net.slotOwner.getD slot 0) "m_componentRemoved" =
      .ok (net.componentRemoved.getD (net.slotOwner.getD slot 0) false) := by
    rw [Netlist.read, List.getD_eq_getElem?_getD (l := net.componentRemoved),
      List.getElem?_eq_getElem known, Option.getD_some]
  rw [found]
  rfl

/-- The live slots are the pins of the live components, and `pinRef` names each by its position. -/
theorem alive_iff (rep : Represents net c) {slot : Nat} (bound : slot < c.slotCount) :
    Alive net slot = true ↔ ∃ i component, c.Live i component ∧ component.Owns slot ∧
      net.pinRef slot = ⟨i, slot - component.first⟩ := by
  have ownerBound := rep.owner_length ▸ bound
  have orphanedBound := rep.orphaned_length ▸ bound
  obtain ⟨owner, isOwner⟩ : ∃ owner, net.slotOwner[slot]? = some owner :=
    ⟨_, List.getElem?_eq_getElem ownerBound⟩
  obtain ⟨orphaned, isOrphaned⟩ : ∃ orphaned, net.slotOrphaned[slot]? = some orphaned :=
    ⟨_, List.getElem?_eq_getElem orphanedBound⟩
  have ref : ∀ component, c.Live owner component →
      net.pinRef slot = ⟨owner, slot - component.first⟩ := by
    intro component alive
    obtain ⟨_, first, _⟩ := rep.live owner component alive
    simp only [Netlist.pinRef, List.getD_eq_getElem?_getD, isOwner, Option.getD_some, first]
  have reads : Alive net slot = !(net.componentRemoved.getD owner false || orphaned) := by
    simp only [Alive, List.getD_eq_getElem?_getD, isOwner, isOrphaned, Option.getD_some]
  rw [reads]
  constructor
  · intro alive
    simp only [Bool.not_eq_true', Bool.or_eq_false_iff] at alive
    obtain ⟨kept, rfl⟩ := alive
    rcases rep.cases_component owner with ⟨unknown, _⟩ | ⟨_, _, removed⟩ | ⟨component, live⟩
    · exact absurd (rep.owner_known slot owner isOwner) (by rw [List.getElem?_eq_none_iff] at unknown; omega)
    · rw [kept] at removed; cases removed
    · exact ⟨owner, component, live, rep.owns owner component slot live isOwner isOrphaned, ref component live⟩
  · rintro ⟨i, component, live, owns, _⟩
    obtain ⟨isOwner', isOrphaned'⟩ := rep.owned i component slot live owns
    obtain rfl : owner = i := Option.some.inj (isOwner.symm.trans isOwner')
    obtain rfl : orphaned = false := Option.some.inj (isOrphaned.symm.trans isOrphaned')
    obtain ⟨_, _, kept, _⟩ := rep.pins_of_live live
    rw [kept]
    rfl

theorem pinRef_slot (rep : Represents net c) {slot : Nat} (bound : slot < c.slotCount)
    (alive : Alive net slot = true) : ∃ component,
      c.Live (net.pinRef slot).componentIndex component ∧
        (net.pinRef slot).localPinIndex < component.pinIds.length ∧
          slot = component.first + (net.pinRef slot).localPinIndex := by
  obtain ⟨i, component, live, ⟨low, high⟩, ref⟩ := (rep.alive_iff bound).mp alive
  exact ⟨component, by rw [ref]; exact live, by rw [ref]; dsimp only; omega, by rw [ref]; dsimp only; omega⟩

theorem slot_of_pinRef (rep : Represents net c) {i k : Nat} {component : Component}
    (live : c.Live i component) (bound : k < component.pinIds.length) :
    component.first + k < c.slotCount ∧ Alive net (component.first + k) = true ∧
      net.pinRef (component.first + k) = ⟨i, k⟩ := by
  have fits := rep.fits i component live
  have inRange : component.first + k < c.slotCount := by omega
  have owns : component.Owns (component.first + k) := ⟨by omega, by omega⟩
  obtain ⟨owner, orphaned⟩ := rep.owned i component _ live owns
  obtain ⟨_, first, _⟩ := rep.live i component live
  have ref : net.pinRef (component.first + k) = ⟨i, k⟩ := by
    simp only [Netlist.pinRef, List.getD_eq_getElem?_getD, owner, Option.getD_some, first,
      Nat.add_sub_cancel_left]
  refine ⟨inRange, (rep.alive_iff inRange).mpr ⟨i, component, live, owns, ?_⟩, ref⟩
  rw [ref, Nat.add_sub_cancel_left]

theorem pinRef_injective (rep : Represents net c) {a b : Nat} (ha : a < c.slotCount)
    (hb : b < c.slotCount) (aliveA : Alive net a = true) (aliveB : Alive net b = true)
    (same : net.pinRef a = net.pinRef b) : a = b := by
  obtain ⟨first, liveA, _, eqA⟩ := rep.pinRef_slot ha aliveA
  obtain ⟨second, liveB, _, eqB⟩ := rep.pinRef_slot hb aliveB
  rw [same] at liveA eqA
  obtain rfl : first = second := Option.some.inj (Option.some.inj (liveA.symm.trans liveB))
  exact eqA.trans eqB.symm

end Represents

theorem buckets_getElem? {α : Type*} {count : Nat} {key : α → Nat} {xs : List α} {bucket : Nat}
    {values : List α} : (buckets count key xs)[bucket]? = some values ↔
      bucket < count ∧ values = xs.filter fun x => key x = bucket := by
  rw [buckets, List.getElem?_map, Option.map_eq_some_iff]
  constructor
  · rintro ⟨k, found, rfl⟩
    obtain ⟨bound, rfl⟩ := List.getElem?_eq_some_iff.mp found
    rw [List.length_range] at bound
    rw [List.getElem_range]
    exact ⟨bound, rfl⟩
  · rintro ⟨bound, rfl⟩
    exact ⟨bucket, List.getElem?_range bound, rfl⟩

theorem zipWith_nodes {nodes : List (List Nat)} {counts : List Nat} (length : counts.length = nodes.length) :
    (nodes.zipWith CircuitGroup.mk counts).map CircuitGroup.nodes = nodes := by
  induction nodes generalizing counts with
  | nil => simp
  | cons first rest ih =>
    cases counts with
    | nil => cases length
    | cons count counts =>
      rw [List.zipWith_cons_cons, List.map_cons, ih (Nat.succ.inj length)]

namespace Represents

variable {net : Netlist} {c : Circuit} {order : HashOrder}

/-- A topology whose parts are those the passes computed is exact. -/
theorem exact_of_parts (rep : Represents net c) {nodeCount groupCount : Nat} {t : Topology}
    {nodeOf : Fin net.slotOwner.length → Fin nodeCount} {groupOf : Fin nodeCount → Fin groupCount}
    (nodeSame : ∀ a b, nodeOf a = nodeOf b ↔ EqvGen c.Joins a.val b.val)
    (groupSame : ∀ p q, groupOf p = groupOf q ↔ EqvGen (fun p q => ∃ i component, c.Live i component ∧
      (∃ slot, component.Owns slot.val ∧ nodeOf slot = p) ∧
        ∃ slot, component.Owns slot.val ∧ nodeOf slot = q) p q)
    (slotToNode : t.slotToNode = ((List.finRange _).map nodeOf).map Fin.val)
    (groups : t.groups.map CircuitGroup.nodes = (buckets groupCount (fun node => (groupOf node).val)
      (List.finRange nodeCount)).map (List.map Fin.val))
    (pinRefs : t.pinRefsByNode = (buckets nodeCount (fun slot => t.slotToNode.getD slot 0)
      ((List.range net.slotOwner.length).filter (Alive net))).map (List.map net.pinRef)) :
    Exact c t := by
  have nodeAt : ∀ slot : Fin net.slotOwner.length,
      t.slotToNode[slot.val]? = some (nodeOf slot).val := by
    intro slot
    rw [slotToNode]
    simp
  have nodeAt_iff : ∀ slot node, t.slotToNode[slot]? = some node ↔
      ∃ bound : slot < net.slotOwner.length, (nodeOf ⟨slot, bound⟩).val = node := by
    intro slot node
    constructor
    · intro found
      have bound := (List.getElem?_eq_some_iff.mp found).1
      rw [slotToNode, List.length_map, List.length_map, List.length_finRange] at bound
      exact ⟨bound, Option.some.inj ((nodeAt ⟨slot, bound⟩).symm.trans found)⟩
    · rintro ⟨bound, rfl⟩
      exact nodeAt ⟨slot, bound⟩
  have refsAt : ∀ node refs, t.pinRefsByNode[node]? = some refs ↔ node < nodeCount ∧
      refs = (((List.range net.slotOwner.length).filter (Alive net)).filter
        fun slot => t.slotToNode.getD slot 0 = node).map net.pinRef := by
    intro node refs
    rw [pinRefs, List.getElem?_map, Option.map_eq_some_iff]
    constructor
    · rintro ⟨slots, found, rfl⟩
      obtain ⟨bound, rfl⟩ := buckets_getElem?.mp found
      exact ⟨bound, rfl⟩
    · rintro ⟨bound, rfl⟩
      exact ⟨_, buckets_getElem?.mpr ⟨bound, rfl⟩, rfl⟩
  have mem_refs : ∀ node refs ref, t.pinRefsByNode[node]? = some refs → (ref ∈ refs ↔
      ∃ slot, Alive net slot = true ∧ t.slotToNode[slot]? = some node ∧ net.pinRef slot = ref) := by
    intro node refs ref found
    obtain ⟨_, rfl⟩ := (refsAt node refs).mp found
    rw [List.mem_map]
    refine exists_congr fun slot => ?_
    rw [List.mem_filter, List.mem_filter, List.mem_range, decide_eq_true_iff, nodeAt_iff]
    constructor
    · rintro ⟨⟨⟨bound, alive⟩, same⟩, ref⟩
      rw [List.getD_eq_getElem?_getD, nodeAt ⟨slot, bound⟩] at same
      exact ⟨alive, ⟨bound, same⟩, ref⟩
    · rintro ⟨alive, ⟨bound, same⟩, ref⟩
      refine ⟨⟨⟨bound, alive⟩, ?_⟩, ref⟩
      rw [List.getD_eq_getElem?_getD, nodeAt ⟨slot, bound⟩]
      exact same
  constructor
  case slots => rw [slotToNode, List.length_map, List.length_map, List.length_finRange, rep.owner_length]
  case node_iff =>
    intro a b ha hb
    rw [← rep.owner_length] at ha hb
    rw [nodeAt ⟨a, ha⟩, nodeAt ⟨b, hb⟩, Option.some_inj, Fin.val_inj]
    exact nodeSame ⟨a, ha⟩ ⟨b, hb⟩
  case group_iff =>
    intro p q hp hq
    rw [slotToNode, List.map_map] at hp hq
    obtain ⟨a, _, rfl⟩ := List.mem_map.mp hp
    obtain ⟨b, _, rfl⟩ := List.mem_map.mp hq
    have listed : t.SameGroup (nodeOf a).val (nodeOf b).val ↔ groupOf (nodeOf a) = groupOf (nodeOf b) := by
      have inGroups : t.SameGroup (nodeOf a).val (nodeOf b).val ↔
          ∃ nodes ∈ t.groups.map CircuitGroup.nodes, (nodeOf a).val ∈ nodes ∧ (nodeOf b).val ∈ nodes := by
        simp only [Topology.SameGroup, List.mem_map, exists_exists_and_eq_and]
      rw [inGroups, groups]
      have inBucket : ∀ (node : Fin nodeCount) (k : Nat), node.val ∈
          ((List.finRange nodeCount).filter fun node => (groupOf node).val = k).map Fin.val ↔
            (groupOf node).val = k := by
        intro node k
        simp [Fin.val_inj]
      constructor
      · rintro ⟨nodes, member, ha, hb⟩
        obtain ⟨bucket, stored, rfl⟩ := List.mem_map.mp member
        obtain ⟨k, found⟩ := List.mem_iff_getElem?.mp stored
        obtain ⟨_, rfl⟩ := buckets_getElem?.mp found
        exact Fin.ext (((inBucket _ k).mp ha).trans ((inBucket _ k).mp hb).symm)
      · intro same
        refine ⟨_, List.mem_map.mpr ⟨_, List.mem_of_getElem? (buckets_getElem?.mpr
          ⟨(groupOf (nodeOf a)).isLt, rfl⟩), rfl⟩, (inBucket _ _).mpr rfl, (inBucket _ _).mpr ?_⟩
        rw [same]
    rw [Function.comp_apply, Function.comp_apply, listed, groupSame]
    refine (eqvGen_map_iff Fin.val_injective ?_ ?_).symm
    · rintro x y ⟨i, component, live, ⟨u, hu, rfl⟩, ⟨v, hv, rfl⟩⟩
      exact .rel _ _ ⟨i, component, live, ⟨u, hu, nodeAt u⟩, ⟨v, hv, nodeAt v⟩⟩
    · rintro x y ⟨i, component, live, ⟨u, hu, foundU⟩, ⟨v, hv, foundV⟩⟩
      obtain ⟨boundU, rfl⟩ := (nodeAt_iff u x).mp foundU
      obtain ⟨boundV, rfl⟩ := (nodeAt_iff v y).mp foundV
      exact ⟨_, _, rfl, rfl, .rel _ _ ⟨i, component, live, ⟨⟨u, boundU⟩, hu, rfl⟩, ⟨⟨v, boundV⟩, hv, rfl⟩⟩⟩
  case pin_once =>
    intro i component k live bound
    obtain ⟨inRange, alive, ref⟩ := rep.slot_of_pinRef live bound
    have slot : component.first + k < net.slotOwner.length := rep.owner_length ▸ inRange
    have found := nodeAt ⟨_, slot⟩
    have stored := (refsAt (nodeOf ⟨_, slot⟩).val _).mpr ⟨(nodeOf ⟨_, slot⟩).isLt, rfl⟩
    refine ⟨_, _, found, stored, ?_, ?_⟩
    · refine List.count_eq_one_of_mem ?_ ((mem_refs _ _ _ stored).mpr ⟨_, alive, found, ref⟩)
      refine List.Nodup.map_on ?_ ((List.nodup_range.filter _).filter _)
      intro x hx y hy same
      obtain ⟨hx, aliveX⟩ := List.mem_filter.mp (List.mem_filter.mp hx).1
      obtain ⟨hy, aliveY⟩ := List.mem_filter.mp (List.mem_filter.mp hy).1
      exact rep.pinRef_injective (rep.owner_length ▸ List.mem_range.mp hx)
        (rep.owner_length ▸ List.mem_range.mp hy) aliveX aliveY same
    · intro other refs' ne stored' member
      obtain ⟨slot', alive', found', ref'⟩ := (mem_refs _ _ _ stored').mp member
      have bound' := rep.owner_length ▸ ((nodeAt_iff _ _).mp found').1
      obtain rfl := rep.pinRef_injective bound' inRange alive' alive (ref'.trans ref.symm)
      exact ne (Option.some.inj (found'.symm.trans found))
  case pin_live =>
    intro node refs ref stored member
    obtain ⟨slot, alive, found, rfl⟩ := (mem_refs _ _ _ stored).mp member
    have bound := rep.owner_length ▸ ((nodeAt_iff _ _).mp found).1
    obtain ⟨component, live, position, same⟩ := rep.pinRef_slot bound alive
    exact ⟨component, live, position, same ▸ found⟩

theorem rebuildTopology_ok (rep : Represents net c) (order : HashOrder)
    (extraVarCountByComponent : List Nat) :
    ∃ t, net.rebuildTopology order extraVarCountByComponent = .ok t ∧ Exact c t := by
  obtain ⟨pins, pinsRun, pinsSame⟩ := rep.pinUnion_ok order
  obtain ⟨groups, groupsRun, groupsSame⟩ := rep.groupUnion_ok order pins.compress.id
  have slotToNode_length : ((List.finRange net.slotOwner.length).map pins.compress.id).length =
      c.slotCount := by simp [rep.owner_length]
  let nodeToGroup := fun node => (groups.compress.id node).val
  let nodesPerGroup := (buckets groups.compress.idCount nodeToGroup
    (List.finRange pins.compress.idCount)).map (List.map Fin.val)
  obtain ⟨extra, extraRun, extraLength⟩ := rep.reserveExtra_ok order slotToNode_length
    nodeToGroup nodesPerGroup extraVarCountByComponent
    ⟨List.replicate groups.compress.idCount 0, List.replicate net.componentPinSlots.length ⟨0, 0⟩⟩
  let resolutionByNode := fun node : Fin pins.compress.idCount => PinSlotResolution.mk (nodeToGroup node)
    ((nodesPerGroup.getD (nodeToGroup node) []).idxOf node.val)
  obtain ⟨stamps, stampsRun⟩ := rep.stampResolutions_ok
    (((List.finRange net.slotOwner.length).map pins.compress.id).map resolutionByNode)
    (by rw [List.length_map]; exact slotToNode_length) order
  refine ⟨_, by
    simp only [Netlist.rebuildTopology, pinsRun, groupsRun, bind, Except.bind]
    rw [extraRun]
    dsimp only
    rw [stampsRun, rep.liveSlots_ok]
    rfl, ?_⟩
  refine rep.exact_of_parts (fun a b => UnionFind.compress_id_eq_iff.trans (pinsSame a b))
    (fun p q => UnionFind.compress_id_eq_iff.trans (groupsSame p q)) rfl ?_ rfl
  refine zipWith_nodes ?_
  simp [extraLength, buckets]

end Represents
end LasecSimul.Wiring
