import LasecSimul.Wiring.Connectivity

/-!
# A topology without a past

Netlists that agree on slots, pins, wires and names are laid out alike. How the wires are turned, the
order in which they were laid and the order in which the hash maps are walked make no difference.
-/

namespace LasecSimul.Wiring

open Lib Lib.Closure Lib.Fallible Relation

/-- The wires as a bag, without order and without direction. -/
def Netlist.wires (net : Netlist) : Multiset (Sym2 Nat) :=
  (net.wireEdges.map fun edge => s(edge.1, edge.2) : List (Sym2 Nat))

/-- Same components with the same pin slots, same wires, same names. -/
structure SameDesign (net net' : Netlist) : Prop where
  components : net.componentPinSlots.length = net'.componentPinSlots.length
  removed : ∀ i, net.componentRemoved.getD i false = net'.componentRemoved.getD i false
  pins : ∀ (i : Nat) (pins pins' : PinSlots), net.componentPinSlots[i]? = some pins → net'.componentPinSlots[i]? = some pins' →
    net.componentRemoved.getD i false = false → ∀ pinId, pins.lookup pinId = pins'.lookup pinId
  wires : net.wires = net'.wires
  names : ∀ slot, net.tunnel.names.getD slot "" = net'.tunnel.names.getD slot ""
  fallbackNames : ∀ slot, net.fallbackTunnel.names.getD slot "" = net'.fallbackTunnel.names.getD slot ""

/-- Equal as maps from pin ids. -/
structure ComponentStampResolution.Agrees (stamp stamp' : ComponentStampResolution) : Prop where
  groupIndex : stamp.groupIndex = stamp'.groupIndex
  localIndex : ∀ pinId, stamp.localIndexByPinId.lookup pinId = stamp'.localIndexByPinId.lookup pinId

/-- Same nodes, same groups, same local indices, same extra rows. -/
structure SameNumbering (t t' : Topology) : Prop where
  slotToNode : t.slotToNode = t'.slotToNode
  groups : t.groups = t'.groups
  resolutionBySlot : t.resolutionBySlot = t'.resolutionBySlot
  extraVariablesByComponent : t.extraVariablesByComponent = t'.extraVariablesByComponent
  stampResolutionByComponent :
    List.Forall₂ ComponentStampResolution.Agrees t.stampResolutionByComponent t'.stampResolutionByComponent

namespace Netlist

variable {net net' : Netlist} {order order' : HashOrder} {extraVarCountByComponent : List Nat}

/-- What `rebuildTopology` does once it knows the node of every slot. -/
def arranged (net : Netlist) (order : HashOrder) (extraVarCountByComponent : List Nat)
    (slotToNode : Σ nodeCount : Nat, List (Fin nodeCount)) : Except Exception Topology := do
  let groupSets ← net.groupUnion order slotToNode.2
  let groups := groupSets.compress
  let nodeToGroup := fun node => (groups.id node).val
  let nodesPerGroup := (buckets groups.idCount nodeToGroup (List.finRange slotToNode.1)).map
    (List.map Fin.val)
  let extra ← net.liveComponents.foldlM
    (reserveExtra order slotToNode.2 nodeToGroup nodesPerGroup extraVarCountByComponent)
    ⟨List.replicate groups.idCount 0, List.replicate net.componentPinSlots.length ⟨0, 0⟩⟩
  let resolutionByNode := fun node : Fin slotToNode.1 => PinSlotResolution.mk (nodeToGroup node)
    ((nodesPerGroup.getD (nodeToGroup node) []).idxOf node.val)
  let resolutionBySlot := slotToNode.2.map resolutionByNode
  let stamps ← net.stampResolutions order resolutionBySlot
  let live ← net.liveSlots
  let nodeOfSlot := fun slot => (slotToNode.2.map Fin.val).getD slot 0
  let slotsByNode := buckets slotToNode.1 nodeOfSlot live
  return {
    groups := nodesPerGroup.zipWith CircuitGroup.mk extra.extraCountPerGroup
    resolutionBySlot
    listenersByNode := slotsByNode.map fun slots =>
      ((slots.map fun slot => net.slotOwner.getD slot 0).mergeSort).dedup
    pinRefsByNode := slotsByNode.map (List.map net.pinRef)
    slotToNode := slotToNode.2.map Fin.val
    extraVariablesByComponent := extra.byComponent
    stampResolutionByComponent := stamps }

def nodesOfSlots {n : Nat} (pins : UnionFind n) : Σ nodeCount : Nat, List (Fin nodeCount) :=
  ⟨pins.compress.idCount, (List.finRange n).map pins.compress.id⟩

theorem rebuildTopology_eq (net : Netlist) (order : HashOrder) (extraVarCountByComponent : List Nat) :
    net.rebuildTopology order extraVarCountByComponent =
      net.pinUnion order >>= fun pins => net.arranged order extraVarCountByComponent (nodesOfSlots pins) := rfl

theorem nodesOfSlots_eq {n n' : Nat} (slots : n = n') {u : UnionFind n} {u' : UnionFind n'}
    (same : ∀ a b (ha : a < n) (hb : b < n) (ha' : a < n') (hb' : b < n'),
      u.Same ⟨a, ha⟩ ⟨b, hb⟩ ↔ u'.Same ⟨a, ha'⟩ ⟨b, hb'⟩) : nodesOfSlots u = nodesOfSlots u' := by
  subst slots
  have equal := UnionFind.compress_eq fun x y => same x.val y.val x.isLt y.isLt x.isLt y.isLt
  rw [nodesOfSlots, nodesOfSlots, equal]

def drawing (net : Netlist) : Circuit where
  wires := net.wires
  name := fun slot => net.tunnel.names.getD slot ""
  fallback := fun slot => net.fallbackTunnel.names.getD slot ""

theorem drawn_self (net : Netlist) : Drawn net net.drawing := ⟨rfl, fun _ => rfl, fun _ => rfl⟩

end Netlist

namespace SameDesign

variable {net net' : Netlist} {order order' : HashOrder} {extraVarCountByComponent : List Nat}

theorem drawn (same : SameDesign net net') : Drawn net' net.drawing :=
  ⟨same.wires, same.names, same.fallbackNames⟩

theorem nodes_eq (same : SameDesign net net') (slots : net.slotOwner.length = net'.slotOwner.length)
    {pins : UnionFind net.slotOwner.length} {pins' : UnionFind net'.slotOwner.length}
    (run : net.pinUnion order = .ok pins) (run' : net'.pinUnion order' = .ok pins') :
    Netlist.nodesOfSlots pins = Netlist.nodesOfSlots pins' := by
  refine Netlist.nodesOfSlots_eq slots fun a b ha hb ha' hb' => ?_
  rw [Netlist.pinUnion_same run, Netlist.pinUnion_same run', net.drawn_self.joined_iff, same.drawn.joined_iff]

theorem pins_perm {pins pins' : PinSlots} (lookup : ∀ pinId, pins.lookup pinId = pins'.lookup pinId) :
    pins.entries.Perm pins'.entries :=
  List.lookup_ext pins.nodupKeys pins'.nodupKeys fun pinId slot => by
    show slot ∈ pins.lookup pinId ↔ slot ∈ pins'.lookup pinId
    rw [lookup]

/-- Two entries of the component tables at one index. -/
structure Twin (net net' : Netlist) (entry entry' : PinSlots × Nat) : Prop where
  index : entry.2 = entry'.2
  removed : net.componentRemoved.getD entry.2 false = net'.componentRemoved.getD entry'.2 false
  pins : net.componentRemoved.getD entry.2 false = false → entry.1.entries.Perm entry'.1.entries

theorem twins (same : SameDesign net net') :
    List.Forall₂ (Twin net net') net.componentPinSlots.zipIdx net'.componentPinSlots.zipIdx := by
  rw [List.forall₂_iff_get]
  refine ⟨by simp only [List.length_zipIdx, same.components], fun i bound bound' => ?_⟩
  rw [List.length_zipIdx] at bound bound'
  simp only [List.get_eq_getElem, List.getElem_zipIdx, Nat.zero_add]
  exact ⟨rfl, same.removed i, fun kept => pins_perm (same.pins i _ _ (List.getElem?_eq_getElem bound)
    (List.getElem?_eq_getElem bound') kept)⟩

theorem live_twins (same : SameDesign net net') :
    List.Forall₂ (fun entry entry' : Nat × PinSlots => entry.1 = entry'.1 ∧ entry.2.entries.Perm entry'.2.entries)
      net.liveComponents net'.liveComponents := by
  have swapped : List.Forall₂ (fun entry entry' => Twin net net' entry.swap entry'.swap)
      (net.componentPinSlots.zipIdx.map Prod.swap) (net'.componentPinSlots.zipIdx.map Prod.swap) := by
    rw [List.forall₂_map_left_iff, List.forall₂_map_right_iff]
    exact same.twins
  refine forall₂_filter swapped (fun x y twin => ?_) fun x y twin kept => ⟨twin.index, twin.pins ?_⟩
  · rw [show net.componentRemoved.getD x.1 false = net'.componentRemoved.getD y.1 false from twin.removed]
  · simpa using kept

end SameDesign

namespace Netlist

variable {net net' : Netlist} {order order' : HashOrder} {nodeCount : Nat} {slotToNode : List (Fin nodeCount)}

theorem OnPins.perm {pins pins' : PinSlots} (perm : pins.entries.Perm pins'.entries) {node : Fin nodeCount} :
    OnPins slotToNode pins node ↔ OnPins slotToNode pins' node :=
  exists_congr fun _ => and_congr_left' perm.mem_iff

theorem groups_eq (same : SameDesign net net') {groups groups' : UnionFind nodeCount}
    (run : net.groupUnion order slotToNode = .ok groups) (run' : net'.groupUnion order' slotToNode = .ok groups') :
    groups.compress = groups'.compress := by
  refine UnionFind.compress_eq fun p q => ?_
  rw [groupUnion_same run, groupUnion_same run']
  refine eqvGen_iff ?_ ?_
  · rintro x y ⟨entry, inLive, hx, hy⟩
    obtain ⟨entry', inLive', _, perm⟩ := exists_of_forall₂ same.live_twins inLive
    exact .rel _ _ ⟨entry', inLive', (OnPins.perm perm).mp hx, (OnPins.perm perm).mp hy⟩
  · rintro x y ⟨entry', inLive', hx, hy⟩
    obtain ⟨entry, inLive, _, perm⟩ := mem_of_forall₂ same.live_twins inLive'
    exact .rel _ _ ⟨entry, inLive, (OnPins.perm perm).mpr hx, (OnPins.perm perm).mpr hy⟩

theorem one_group {groups : UnionFind nodeCount} (run : net.groupUnion order slotToNode = .ok groups)
    {entry : Nat × PinSlots} (inLive : entry ∈ net.liveComponents) {p q : Fin nodeCount}
    (onP : OnPins slotToNode entry.2 p) (onQ : OnPins slotToNode entry.2 q) :
    groups.compress.id p = groups.compress.id q :=
  UnionFind.compress_id_eq_iff.mpr ((groupUnion_same run p q).mpr (.rel _ _ ⟨entry, inLive, onP, onQ⟩))

variable {nodeToGroup : Fin nodeCount → Nat} {nodesPerGroup : List (List Nat)} {extraVarCountByComponent : List Nat}

/-- Which pin of a component comes up first does not matter when they are all in one group. -/
theorem reserveExtra_eq {entry entry' : Nat × PinSlots} (index : entry.1 = entry'.1)
    (perm : entry.2.entries.Perm entry'.2.entries)
    (oneGroup : ∀ p q, OnPins slotToNode entry.2 p → OnPins slotToNode entry.2 q → nodeToGroup p = nodeToGroup q)
    {layout next next' : ExtraLayout}
    (run : reserveExtra order slotToNode nodeToGroup nodesPerGroup extraVarCountByComponent layout entry = .ok next)
    (run' : reserveExtra order' slotToNode nodeToGroup nodesPerGroup extraVarCountByComponent layout entry' = .ok next') :
    next = next' := by
  unfold reserveExtra at run run'
  rw [← index] at run'
  dsimp only at run run'
  split at run
  · rename_i nothing
    rw [if_pos nothing] at run'
    exact Except.ok.inj (run.symm.trans run')
  · rename_i needed
    rw [if_neg needed] at run'
    have walked := (order.perm entry.2.entries).trans (perm.trans (order'.perm entry'.2.entries).symm)
    cases left : order.arrange entry.2.entries with
    | nil =>
      rw [left] at walked run
      rw [walked.symm.eq_nil] at run'
      exact Except.ok.inj (run.symm.trans run')
    | cons pin rest =>
      cases right : order'.arrange entry'.2.entries with
      | nil =>
        rw [right, left] at walked
        cases walked.eq_nil
      | cons pin' rest' =>
        rw [left] at run
        rw [right] at run'
        obtain ⟨node, found, made⟩ := bind_ok run
        obtain ⟨node', found', made'⟩ := bind_ok run'
        have listed : pin ∈ entry.2.entries := (order.perm _).mem_iff.mp (left ▸ List.mem_cons_self)
        have listed' : pin' ∈ entry.2.entries :=
          perm.mem_iff.mpr ((order'.perm _).mem_iff.mp (right ▸ List.mem_cons_self))
        rw [oneGroup node node' ⟨pin, listed, read_spec.mp found⟩ ⟨pin', listed', read_spec.mp found'⟩] at made
        exact Except.ok.inj (made.symm.trans made')

theorem stampPins_spec {resolutionBySlot : List PinSlotResolution} {pins : List (Sigma fun _ : String => Nat)}
    {stamp result : ComponentStampResolution} (run : stampPins resolutionBySlot pins stamp = .ok result)
    (nodup : pins.NodupKeys) :
    (∀ pin ∈ pins, ∃ resolution, resolutionBySlot[pin.2]? = some resolution ∧
        result.localIndexByPinId.lookup pin.1 = some resolution.localIndex) ∧
      (∀ pinId, pinId ∉ pins.keys → result.localIndexByPinId.lookup pinId = stamp.localIndexByPinId.lookup pinId) ∧
      ((pins = [] ∧ result.groupIndex = stamp.groupIndex) ∨ ∃ pin ∈ pins, ∃ resolution,
        resolutionBySlot[pin.2]? = some resolution ∧ result.groupIndex = resolution.groupIndex) := by
  induction pins generalizing stamp with
  | nil =>
    obtain rfl := Except.ok.inj run
    exact ⟨nofun, fun _ _ => rfl, .inl ⟨rfl, rfl⟩⟩
  | cons pin rest ih =>
    obtain ⟨resolution, found, tail⟩ := bind_ok run
    obtain ⟨fresh, nodup⟩ := List.nodupKeys_cons.mp nodup
    obtain ⟨known, others, group⟩ := ih tail nodup
    have stored := read_spec.mp found
    refine ⟨?_, ?_, .inr ?_⟩
    · intro other member
      rcases List.mem_cons.mp member with rfl | later
      · exact ⟨resolution, stored, (others _ fresh).trans (AList.lookup_insert _)⟩
      · exact known other later
    · intro pinId absent
      rw [List.keys_cons, List.mem_cons, not_or] at absent
      exact (others pinId absent.2).trans (AList.lookup_insert_ne absent.1)
    · rcases group with ⟨_, same⟩ | ⟨other, later, resolution', stored', same⟩
      · exact ⟨pin, List.mem_cons_self, resolution, stored, same⟩
      · exact ⟨other, List.mem_cons_of_mem _ later, resolution', stored', same⟩

theorem stampPins_agree {resolutionBySlot : List PinSlotResolution} {pins pins' : PinSlots}
    (perm : pins.entries.Perm pins'.entries)
    (oneGroup : ∀ pin ∈ pins.entries, ∀ pin' ∈ pins.entries, ∀ r r', resolutionBySlot[pin.2]? = some r →
      resolutionBySlot[pin'.2]? = some r' → r.groupIndex = r'.groupIndex)
    {stamp result result' : ComponentStampResolution}
    (run : stampPins resolutionBySlot (order.arrange pins.entries) stamp = .ok result)
    (run' : stampPins resolutionBySlot (order'.arrange pins'.entries) stamp = .ok result') : result.Agrees result' := by
  have shuffled := order.perm pins.entries
  have shuffled' := order'.perm pins'.entries
  obtain ⟨known, others, group⟩ := stampPins_spec run ((List.perm_nodupKeys shuffled).mpr pins.nodupKeys)
  obtain ⟨known', others', group'⟩ := stampPins_spec run' ((List.perm_nodupKeys shuffled').mpr pins'.nodupKeys)
  have both := shuffled.trans (perm.trans shuffled'.symm)
  constructor
  · rcases group with ⟨empty, same⟩ | ⟨pin, listed, r, found, same⟩
    · rw [empty] at both
      rcases group' with ⟨_, same'⟩ | ⟨pin', listed', _⟩
      · exact same.trans same'.symm
      · exact absurd (both.mem_iff.mpr listed') List.not_mem_nil
    · rcases group' with ⟨empty', _⟩ | ⟨pin', listed', r', found', same'⟩
      · exact absurd (empty' ▸ both.mem_iff.mp listed) List.not_mem_nil
      · rw [same, same']
        exact oneGroup pin (shuffled.mem_iff.mp listed) pin' (shuffled.mem_iff.mp (both.mem_iff.mpr listed'))
          r r' found found'
  · intro pinId
    by_cases listed : pinId ∈ (order.arrange pins.entries).keys
    · obtain ⟨slot, member⟩ := List.exists_of_mem_keys listed
      obtain ⟨r, found, looked⟩ := known _ member
      obtain ⟨r', found', looked'⟩ := known' _ (both.mem_iff.mp member)
      rw [looked, looked', Option.some.inj (found.symm.trans found')]
    · have absent : pinId ∉ (order'.arrange pins'.entries).keys := fun member =>
        listed ((both.map Sigma.fst).mem_iff.mpr member)
      rw [others pinId listed, others' pinId absent]

theorem mem_live_of_zipIdx {entry : PinSlots × Nat} (listed : entry ∈ net.componentPinSlots.zipIdx)
    (kept : net.componentRemoved.getD entry.2 false = false) : entry.swap ∈ net.liveComponents :=
  List.mem_filter.mpr ⟨List.mem_map_of_mem listed, by
    rw [show net.componentRemoved.getD entry.swap.1 false = false from kept]
    rfl⟩

theorem stampResolutions_agree (same : SameDesign net net') {resolutionBySlot : List PinSlotResolution}
    (oneGroup : ∀ entry ∈ net.liveComponents, ∀ pin ∈ entry.2.entries, ∀ pin' ∈ entry.2.entries, ∀ r r',
      resolutionBySlot[pin.2]? = some r → resolutionBySlot[pin'.2]? = some r' → r.groupIndex = r'.groupIndex)
    {stamps stamps' : List ComponentStampResolution}
    (run : net.stampResolutions order resolutionBySlot = .ok stamps)
    (run' : net'.stampResolutions order' resolutionBySlot = .ok stamps') :
    List.Forall₂ ComponentStampResolution.Agrees stamps stamps' := by
  refine forall₂_square (mapM_forall₂ run) (mapM_forall₂ run') (forall₂_mem same.twins) ?_
  rintro entry entry' stamp stamp' made made' ⟨listed, twin⟩
  rw [← twin.removed] at made'
  cases kept : net.componentRemoved.getD entry.2 false with
  | true =>
    rw [if_pos kept] at made made'
    cases made
    cases made'
    exact ⟨rfl, fun _ => rfl⟩
  | false =>
    rw [if_neg (Bool.eq_false_iff.mp kept)] at made made'
    exact stampPins_agree (twin.pins kept) (oneGroup entry.swap (mem_live_of_zipIdx listed kept)) made made'

theorem arranged_agree (same : SameDesign net net') {slotToNode : Σ nodeCount : Nat, List (Fin nodeCount)}
    {extraVarCountByComponent : List Nat} {t t' : Topology}
    (run : net.arranged order extraVarCountByComponent slotToNode = .ok t)
    (run' : net'.arranged order' extraVarCountByComponent slotToNode = .ok t') : SameNumbering t t' := by
  obtain ⟨groups, grouped, run⟩ := bind_ok run
  obtain ⟨groups', grouped', run'⟩ := bind_ok run'
  have numbered := groups_eq same grouped grouped'
  have oneGroup := fun entry (inLive : entry ∈ net.liveComponents) p q => one_group grouped inLive (p := p) (q := q)
  dsimp only at run run'
  rw [← numbered, ← same.components] at run'
  generalize groups.compress = numbering at run run' oneGroup
  obtain ⟨extra, reserved, run⟩ := bind_ok run
  obtain ⟨extra', reserved', run'⟩ := bind_ok run'
  obtain rfl : extra = extra' := by
    refine foldlM_eq same.live_twins ?_ reserved reserved'
    rintro entry inLive entry' layout next next' ⟨index, perm⟩ made made'
    refine reserveExtra_eq index perm (fun p q onP onQ => ?_) made made'
    rw [oneGroup entry inLive p q onP onQ]
  obtain ⟨stamps, stamped, run⟩ := bind_ok run
  obtain ⟨stamps', stamped', run'⟩ := bind_ok run'
  have agree := stampResolutions_agree same (fun entry inLive pin listed pin' listed' r r' found found' => by
    rw [List.getElem?_map, Option.map_eq_some_iff] at found found'
    obtain ⟨node, onNode, rfl⟩ := found
    obtain ⟨node', onNode', rfl⟩ := found'
    dsimp only
    rw [oneGroup entry inLive node node' ⟨pin, listed, onNode⟩ ⟨pin', listed', onNode'⟩]) stamped stamped'
  obtain ⟨live, _, run⟩ := bind_ok run
  obtain ⟨live', _, run'⟩ := bind_ok run'
  obtain rfl := Except.ok.inj run
  obtain rfl := Except.ok.inj run'
  exact ⟨rfl, rfl, rfl, rfl, agree⟩

theorem arranged_of_rebuild (slots : net.slotOwner.length = net'.slotOwner.length) (same : SameDesign net net')
    {extraVarCountByComponent : List Nat} {t t' : Topology}
    (run : net.rebuildTopology order extraVarCountByComponent = .ok t)
    (run' : net'.rebuildTopology order' extraVarCountByComponent = .ok t') :
    ∃ slotToNode, net.arranged order extraVarCountByComponent slotToNode = .ok t ∧
      net'.arranged order' extraVarCountByComponent slotToNode = .ok t' := by
  rw [rebuildTopology_eq] at run run'
  obtain ⟨pins, united, run⟩ := bind_ok run
  obtain ⟨pins', united', run'⟩ := bind_ok run'
  rw [← same.nodes_eq slots united united'] at run'
  exact ⟨nodesOfSlots pins, run, run'⟩

/-! ### Live slots -/

theorem arranged_slots {slotToNode : Σ nodeCount : Nat, List (Fin nodeCount)} {extraVarCountByComponent live : List Nat}
    {t : Topology} (run : net.arranged order extraVarCountByComponent slotToNode = .ok t)
    (found : net.liveSlots = .ok live) :
    let slotsByNode := buckets slotToNode.1 (fun slot => (slotToNode.2.map Fin.val).getD slot 0) live
    t.listenersByNode = slotsByNode.map (fun slots =>
      ((slots.map fun slot => net.slotOwner.getD slot 0).mergeSort).dedup) ∧
      t.pinRefsByNode = slotsByNode.map (List.map net.pinRef) := by
  obtain ⟨groups, _, run⟩ := bind_ok run
  obtain ⟨extra, _, run⟩ := bind_ok run
  obtain ⟨stamps, _, run⟩ := bind_ok run
  obtain ⟨live', found', run⟩ := bind_ok run
  obtain rfl := Except.ok.inj run
  obtain rfl := Except.ok.inj (found.symm.trans found')
  exact ⟨rfl, rfl⟩

theorem mem_of_buckets {α : Type} {count : Nat} {key : α → Nat} {xs bucket : List α} {x : α}
    (stored : bucket ∈ buckets count key xs) (member : x ∈ bucket) : x ∈ xs := by
  obtain ⟨k, _, rfl⟩ := List.mem_map.mp stored
  exact List.mem_of_mem_filter member

end Netlist

namespace SameDesign

variable {net net' : Netlist} {c c' : Circuit}

theorem symm (same : SameDesign net net') : SameDesign net' net where
  components := same.components.symm
  removed := fun i => (same.removed i).symm
  pins := fun i pins pins' stored stored' kept pinId =>
    (same.pins i pins' pins stored' stored ((same.removed i).trans kept) pinId).symm
  wires := same.wires.symm
  names := fun slot => (same.names slot).symm
  fallbackNames := fun slot => (same.fallbackNames slot).symm

theorem live_of_live (same : SameDesign net net') (rep : Represents net c) (rep' : Represents net' c') {i : Nat}
    {component : Component} (live : c.Live i component) :
    ∃ component', c'.Live i component' ∧ ∀ slot, component.Owns slot ↔ component'.Owns slot := by
  obtain ⟨pins, stored, kept, lays⟩ := rep.pins_of_live live
  have bound : i < net'.componentPinSlots.length := same.components ▸ (List.getElem?_eq_some_iff.mp stored).1
  have kept' : net'.componentRemoved.getD i false = false := (same.removed i).symm.trans kept
  rcases rep'.cases_component i with ⟨_, unknown⟩ | ⟨_, _, removed⟩ | ⟨component', live'⟩
  · rw [List.getElem?_eq_getElem bound] at unknown
    cases unknown
  · rw [kept'] at removed
    cases removed
  · obtain ⟨pins', stored', _, lays'⟩ := rep'.pins_of_live live'
    have perm := pins_perm (same.pins i pins pins' stored stored' kept)
    refine ⟨component', live', fun slot => ?_⟩
    rw [← lays.mem_slots, ← lays'.mem_slots]
    exact (perm.map _).mem_iff

theorem first_eq {component component' : Component} (owns : ∀ slot, component.Owns slot ↔ component'.Owns slot)
    {slot : Nat} (owned : component.Owns slot) : component.first = component'.first := by
  have owned' := (owns slot).mp owned
  have low := (owns component.first).mp ⟨le_rfl, by have := owned.1; have := owned.2; omega⟩
  have high := (owns component'.first).mpr ⟨le_rfl, by have := owned'.1; have := owned'.2; omega⟩
  exact le_antisymm high.1 low.1

/-- A slot that stands for a pin in one netlist stands for the same pin in the other. -/
theorem alive_of_alive (same : SameDesign net net') (rep : Represents net c) (rep' : Represents net' c') {slot : Nat}
    (bound : slot < c.slotCount) (bound' : slot < c'.slotCount) (alive : Represents.Alive net slot = true) :
    Represents.Alive net' slot = true ∧ net.pinRef slot = net'.pinRef slot := by
  obtain ⟨i, component, live, owned, ref⟩ := (rep.alive_iff bound).mp alive
  obtain ⟨component', live', owns⟩ := same.live_of_live rep rep' live
  have owned' := (owns slot).mp owned
  obtain ⟨isOwner, isOrphaned⟩ := rep'.owned i component' slot live' owned'
  obtain ⟨isFirst, _⟩ := (rep'.live i component' live').2
  have ref' : net'.pinRef slot = ⟨i, slot - component'.first⟩ := by
    simp only [Netlist.pinRef, List.getD_eq_getElem?_getD, isOwner, Option.getD_some, isFirst]
  refine ⟨(rep'.alive_iff bound').mpr ⟨i, component', live', owned', ref'⟩, ?_⟩
  rw [ref, ref', first_eq owns owned]

theorem live_slots_eq (slots : net.slotOwner.length = net'.slotOwner.length) (same : SameDesign net net')
    (rep : Represents net c) (rep' : Represents net' c') :
    (List.range net.slotOwner.length).filter (Represents.Alive net) =
      (List.range net'.slotOwner.length).filter (Represents.Alive net') := by
  rw [← slots]
  refine List.filter_congr fun slot member => ?_
  have bound : slot < c.slotCount := rep.owner_length ▸ List.mem_range.mp member
  have bound' : slot < c'.slotCount := rep'.owner_length ▸ slots ▸ List.mem_range.mp member
  rw [Bool.eq_iff_iff]
  exact ⟨fun alive => (same.alive_of_alive rep rep' bound bound' alive).1,
    fun alive => (same.symm.alive_of_alive rep' rep bound' bound alive).1⟩

theorem listeners_eq {order order' : HashOrder} {extraVarCountByComponent : List Nat} {t t' : Topology}
    (slots : net.slotOwner.length = net'.slotOwner.length) (same : SameDesign net net')
    (rep : Represents net c) (rep' : Represents net' c')
    (run : net.rebuildTopology order extraVarCountByComponent = .ok t)
    (run' : net'.rebuildTopology order' extraVarCountByComponent = .ok t') :
    t.listenersByNode = t'.listenersByNode ∧ t.pinRefsByNode = t'.pinRefsByNode := by
  obtain ⟨slotToNode, run, run'⟩ := Netlist.arranged_of_rebuild slots same run run'
  obtain ⟨listeners, refs⟩ := Netlist.arranged_slots run rep.liveSlots_ok
  obtain ⟨listeners', refs'⟩ := Netlist.arranged_slots run' rep'.liveSlots_ok
  rw [← live_slots_eq slots same rep rep'] at listeners' refs'
  have ref_eq : ∀ bucket ∈ buckets slotToNode.1 (fun slot => (slotToNode.2.map Fin.val).getD slot 0)
      ((List.range net.slotOwner.length).filter (Represents.Alive net)), ∀ slot ∈ bucket,
        net.pinRef slot = net'.pinRef slot := by
    intro bucket stored slot member
    obtain ⟨inRange, alive⟩ := List.mem_filter.mp (Netlist.mem_of_buckets stored member)
    have bound : slot < c.slotCount := rep.owner_length ▸ List.mem_range.mp inRange
    have bound' : slot < c'.slotCount := rep'.owner_length ▸ slots ▸ List.mem_range.mp inRange
    exact (same.alive_of_alive rep rep' bound bound' alive).2
  constructor
  · rw [listeners, listeners']
    refine List.map_congr_left fun bucket stored => ?_
    have owners : (bucket.map fun slot => net.slotOwner.getD slot 0) = bucket.map fun slot => net'.slotOwner.getD slot 0 :=
      List.map_congr_left fun slot member => congrArg NodePinRef.componentIndex (ref_eq bucket stored slot member)
    rw [owners]
  · rw [refs, refs']
    exact List.map_congr_left fun bucket stored => List.map_congr_left (ref_eq bucket stored)

end SameDesign

/-- Histories that end in one design with as many slots end in one topology. -/
theorem topology_canonical (history history' : Netlist.History) (order order' : HashOrder)
    (extraVarCountByComponent : List Nat)
    (slots : (Netlist.run {} history).slotOwner.length = (Netlist.run {} history').slotOwner.length)
    (same : SameDesign (Netlist.run {} history) (Netlist.run {} history')) :
    (∀ t t', (Netlist.run {} history).rebuildTopology order extraVarCountByComponent = .ok t →
        (Netlist.run {} history').rebuildTopology order' extraVarCountByComponent = .ok t' → SameNumbering t t') ∧
      (Circuit.AcceptsAll {} (history.map (·.2)) → Circuit.AcceptsAll {} (history'.map (·.2)) →
        ∃ t t', (Netlist.run {} history).rebuildTopology order extraVarCountByComponent = .ok t ∧
          (Netlist.run {} history').rebuildTopology order' extraVarCountByComponent = .ok t' ∧ SameNumbering t t' ∧
            t.listenersByNode = t'.listenersByNode ∧ t.pinRefsByNode = t'.pinRefsByNode) := by
  have agree : ∀ t t', (Netlist.run {} history).rebuildTopology order extraVarCountByComponent = .ok t →
      (Netlist.run {} history').rebuildTopology order' extraVarCountByComponent = .ok t' → SameNumbering t t' := by
    intro t t' run run'
    obtain ⟨slotToNode, run, run'⟩ := Netlist.arranged_of_rebuild slots same run run'
    exact Netlist.arranged_agree same run run'
  refine ⟨agree, fun accepted accepted' => ?_⟩
  have rep := represents_empty.run accepted
  have rep' := represents_empty.run accepted'
  obtain ⟨t, run, _⟩ := rep.rebuildTopology_ok order extraVarCountByComponent
  obtain ⟨t', run', _⟩ := rep'.rebuildTopology_ok order' extraVarCountByComponent
  exact ⟨t, t', run, run', agree t t' run run', SameDesign.listeners_eq slots same rep rep' run run'⟩

/-- The same two wires, laid in another order and turned round. -/
def drawnTwice : Netlist.History × Netlist.History :=
  ([(.stored, .registerComponent 0 ["p", "n"]), (.stored, .registerComponent 1 ["in", "out"]),
      (.stored, .connectWire 0 2), (.stored, .connectWire 1 3)],
    [(.stored, .registerComponent 0 ["p", "n"]), (.stored, .registerComponent 1 ["in", "out"]),
      (.stored, .connectWire 3 1), (.stored, .connectWire 2 0)])

theorem topology_canonical_drawnTwice : ∃ t t',
    (Netlist.run {} drawnTwice.1).rebuildTopology .stored [1] = .ok t ∧
      (Netlist.run {} drawnTwice.2).rebuildTopology .stored [1] = .ok t' ∧ t.slotToNode = t'.slotToNode := by
  have same : SameDesign (Netlist.run {} drawnTwice.1) (Netlist.run {} drawnTwice.2) :=
    { components := rfl
      removed := fun _ => rfl
      pins := fun i pins pins' stored stored' _ _ => by
        obtain rfl : pins = pins' := Option.some.inj (stored.symm.trans stored')
        rfl
      wires := by decide
      names := fun _ => rfl
      fallbackNames := fun _ => rfl }
  obtain ⟨t, t', run, run', numbering, _⟩ := (topology_canonical drawnTwice.1 drawnTwice.2 .stored .stored [1] rfl same).2
    ⟨fun _ => by decide, fun _ => by decide, trivial, trivial, trivial⟩
    ⟨fun _ => by decide, fun _ => by decide, trivial, trivial, trivial⟩
  exact ⟨t, t', run, run', numbering.slotToNode⟩

/-- A component without pins. -/
def pinless : Netlist.History := [(.stored, .registerComponent 0 [])]

/-- A component whose only pin was taken away again. -/
def madePinless : Netlist.History :=
  [(.stored, .registerComponent 0 ["a"]), (.stored, .reregisterComponentPins 0 [])]

theorem orphaned_slot_gets_node :
    Circuit.AcceptsAll {} (pinless.map (·.2)) ∧ Circuit.AcceptsAll {} (madePinless.map (·.2)) ∧
      SameDesign (Netlist.run {} pinless) (Netlist.run {} madePinless) ∧
      ((Netlist.run {} pinless).rebuildTopology .stored []).map Topology.groups = .ok [] ∧
      ((Netlist.run {} madePinless).rebuildTopology .stored []).map Topology.groups = .ok [⟨[0], 0⟩] := by
  refine ⟨⟨fun _ => by decide, trivial⟩, ⟨fun _ => by decide, fun _ => by decide, trivial⟩,
    ⟨rfl, fun _ => rfl, ?_, rfl, ?_, ?_⟩, by decide, by decide⟩
  · intro i pins pins' stored stored' _ pinId
    obtain rfl : pins = pins' := Option.some.inj (stored.symm.trans stored')
    rfl
  · rintro (_ | slot)
    · rfl
    · rfl
  · rintro (_ | slot)
    · rfl
    · rfl

end LasecSimul.Wiring
