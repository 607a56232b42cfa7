import LasecSimul.Wiring.Canonical

/-!
# The unknowns of a group (`Netlist::rebuildTopology`, `CircuitGroup`)

The rows of a group are its nodes and then the extra variables of its components, one range after another.
-/

namespace LasecSimul.Wiring

open Lib Lib.Fallible

namespace CircuitGroup

def size (group : CircuitGroup) : Nat := group.nodes.length

def totalSize (group : CircuitGroup) : Nat := group.nodes.length + group.extraVariableCount

end CircuitGroup

namespace Topology

/-- The row of the node a pin of the component is on. -/
def PinUnknown (net : Netlist) (t : Topology) (componentIndex : Nat) (row : PinSlotResolution) : Prop :=
  ∃ pins, (componentIndex, pins) ∈ net.liveComponents ∧ ∃ pin ∈ pins.entries, t.resolutionBySlot[pin.2]? = some row

/-- A row of an extra variable of the component; a component without pins has none. -/
def ExtraUnknown (net : Netlist) (extraVarCountByComponent : List Nat) (t : Topology) (componentIndex : Nat)
    (row : PinSlotResolution) : Prop :=
  ∃ pins range, (componentIndex, pins) ∈ net.liveComponents ∧ pins.entries ≠ [] ∧
    t.extraVariablesByComponent[componentIndex]? = some range ∧ row.groupIndex = range.groupIndex ∧
      range.baseLocalIndex ≤ row.localIndex ∧
        row.localIndex < range.baseLocalIndex + extraVarCountByComponent.getD componentIndex 0

/-- The component declares the unknown of the row. -/
def Declares (net : Netlist) (extraVarCountByComponent : List Nat) (t : Topology) (componentIndex : Nat)
    (row : PinSlotResolution) : Prop :=
  t.PinUnknown net componentIndex row ∨ t.ExtraUnknown net extraVarCountByComponent componentIndex row

structure Tiled (net : Netlist) (extraVarCountByComponent : List Nat) (t : Topology) : Prop where
  /-- Local indices are below the size of their group. -/
  node_bound : ∀ (slot : Nat) (row : PinSlotResolution), t.resolutionBySlot[slot]? = some row →
    ∃ group, t.groups[row.groupIndex]? = some group ∧ row.localIndex < group.size
  /-- Every index below the size is the local index of a node. -/
  node_onto : ∀ (g : Nat) (group : CircuitGroup) (l : Nat), t.groups[g]? = some group → l < group.size →
    ∃ slot : Nat, t.resolutionBySlot[slot]? = some ⟨g, l⟩
  /-- Different nodes have different rows. -/
  node_inj : ∀ (a b : Nat) (row : PinSlotResolution), t.resolutionBySlot[a]? = some row →
    (t.resolutionBySlot[b]? = some row ↔ t.slotToNode[a]? = t.slotToNode[b]?)
  extra_bound : ∀ (i : Nat) (row : PinSlotResolution), t.ExtraUnknown net extraVarCountByComponent i row →
    ∃ group, t.groups[row.groupIndex]? = some group ∧ group.size ≤ row.localIndex ∧ row.localIndex < group.totalSize
  extra_onto : ∀ (g : Nat) (group : CircuitGroup) (l : Nat), t.groups[g]? = some group → group.size ≤ l →
    l < group.totalSize → ∃ i, t.ExtraUnknown net extraVarCountByComponent i ⟨g, l⟩
  extra_inj : ∀ (i j : Nat) (row : PinSlotResolution), t.ExtraUnknown net extraVarCountByComponent i row →
    t.ExtraUnknown net extraVarCountByComponent j row → i = j
  one_group : ∀ (i : Nat) (row row' : PinSlotResolution), t.Declares net extraVarCountByComponent i row →
    t.Declares net extraVarCountByComponent i row' → row.groupIndex = row'.groupIndex

/-- A row that two components declare is a node with a pin of each. -/
theorem Tiled.shared {net : Netlist} {extraVarCountByComponent : List Nat} {t : Topology}
    (tiled : Tiled net extraVarCountByComponent t) {i j : Nat} (differ : i ≠ j) {row : PinSlotResolution}
    (declaresI : t.Declares net extraVarCountByComponent i row)
    (declaresJ : t.Declares net extraVarCountByComponent j row) :
    t.PinUnknown net i row ∧ t.PinUnknown net j row := by
  have apart : ∀ i j, t.PinUnknown net i row → ¬t.ExtraUnknown net extraVarCountByComponent j row := by
    rintro i j ⟨pins, _, pin, _, found⟩ extra
    obtain ⟨group, stored, below⟩ := tiled.node_bound _ _ found
    obtain ⟨group', stored', above, _⟩ := tiled.extra_bound _ _ extra
    obtain rfl := Option.some.inj (stored.symm.trans stored')
    omega
  rcases declaresI with nodeI | extraI
  · rcases declaresJ with nodeJ | extraJ
    · exact ⟨nodeI, nodeJ⟩
    · exact absurd extraJ (apart i j nodeI)
  · rcases declaresJ with nodeJ | extraJ
    · exact absurd extraI (apart j i nodeJ)
    · exact absurd (tiled.extra_inj i j row extraI extraJ) differ

end Topology

namespace Netlist

variable {net : Netlist} {order : HashOrder} {nodeCount : Nat} {slotToNode : List (Fin nodeCount)}
  {nodeToGroup : Fin nodeCount → Nat} {nodesPerGroup : List (List Nat)} {extraVarCountByComponent : List Nat}

theorem liveComponents_nodup (net : Netlist) : (net.liveComponents.map Prod.fst).Nodup := by
  refine List.Nodup.sublist (List.Sublist.map _ List.filter_sublist) ?_
  rw [List.map_map]
  show (net.componentPinSlots.zipIdx.map Prod.snd).Nodup
  rw [List.zipIdx_map_snd]
  exact List.nodup_range'

theorem liveComponents_bound {entry : Nat × PinSlots} (inLive : entry ∈ net.liveComponents) :
    entry.1 < net.componentPinSlots.length := by
  obtain ⟨pair, listed, rfl⟩ := List.mem_map.mp (List.mem_of_mem_filter inLive)
  exact List.snd_lt_of_mem_zipIdx listed

/-- The component has a range of extra variables. -/
def HasRange (extraVarCountByComponent : List Nat) (done : List (Nat × PinSlots)) (layout : ExtraLayout) (i : Nat)
    (range : ExtraVariableResolution) : Prop :=
  ∃ pins, (i, pins) ∈ done ∧ pins.entries ≠ [] ∧ extraVarCountByComponent.getD i 0 ≠ 0 ∧
    layout.byComponent[i]? = some range

/-- What the loop over the components `done` has reserved. -/
structure Reserved (slotToNode : List (Fin nodeCount)) (nodeToGroup : Fin nodeCount → Nat)
    (nodesPerGroup : List (List Nat)) (extraVarCountByComponent : List Nat) (componentCount : Nat)
    (done : List (Nat × PinSlots)) (layout : ExtraLayout) : Prop where
  groupCount : layout.extraCountPerGroup.length = nodesPerGroup.length
  components : layout.byComponent.length = componentCount
  sited : ∀ i range, HasRange extraVarCountByComponent done layout i range →
    ∃ pins, (i, pins) ∈ done ∧ ∃ node, OnPins slotToNode pins node ∧ range.groupIndex = nodeToGroup node
  bound : ∀ i range, HasRange extraVarCountByComponent done layout i range →
    (nodesPerGroup.getD range.groupIndex []).length ≤ range.baseLocalIndex ∧
      range.baseLocalIndex + extraVarCountByComponent.getD i 0 ≤
        (nodesPerGroup.getD range.groupIndex []).length + layout.extraCountPerGroup.getD range.groupIndex 0
  onto : ∀ g l, g < nodesPerGroup.length → (nodesPerGroup.getD g []).length ≤ l →
    l < (nodesPerGroup.getD g []).length + layout.extraCountPerGroup.getD g 0 →
      ∃ i range, HasRange extraVarCountByComponent done layout i range ∧ range.groupIndex = g ∧
        range.baseLocalIndex ≤ l ∧ l < range.baseLocalIndex + extraVarCountByComponent.getD i 0
  inj : ∀ i j range range' l, HasRange extraVarCountByComponent done layout i range →
    HasRange extraVarCountByComponent done layout j range' → range.groupIndex = range'.groupIndex →
      range.baseLocalIndex ≤ l → l < range.baseLocalIndex + extraVarCountByComponent.getD i 0 →
        range'.baseLocalIndex ≤ l → l < range'.baseLocalIndex + extraVarCountByComponent.getD j 0 → i = j

theorem reserveExtra_cases {layout next : ExtraLayout} {entry : Nat × PinSlots}
    (run : reserveExtra order slotToNode nodeToGroup nodesPerGroup extraVarCountByComponent layout entry = .ok next) :
    ((extraVarCountByComponent.getD entry.1 0 = 0 ∨ entry.2.entries = []) ∧ next = layout) ∨
      extraVarCountByComponent.getD entry.1 0 ≠ 0 ∧ entry.2.entries ≠ [] ∧
        ∃ node, OnPins slotToNode entry.2 node ∧ next = {
          extraCountPerGroup := layout.extraCountPerGroup.set (nodeToGroup node)
            (layout.extraCountPerGroup.getD (nodeToGroup node) 0 + extraVarCountByComponent.getD entry.1 0)
          byComponent := layout.byComponent.set entry.1 ⟨nodeToGroup node,
            (nodesPerGroup.getD (nodeToGroup node) []).length +
              layout.extraCountPerGroup.getD (nodeToGroup node) 0⟩ } := by
  unfold reserveExtra at run
  dsimp only at run
  split at run
  · next none => exact .inl ⟨.inl none, (Except.ok.inj run).symm⟩
  · next needed =>
    cases walked : order.arrange entry.2.entries with
    | nil =>
      rw [walked] at run
      have empty := (order.perm entry.2.entries).symm
      rw [walked] at empty
      exact .inl ⟨.inr empty.eq_nil, (Except.ok.inj run).symm⟩
    | cons pin rest =>
      rw [walked] at run
      obtain ⟨node, found, made⟩ := bind_ok run
      have listed : pin ∈ entry.2.entries := (order.perm _).mem_iff.mp (walked ▸ List.mem_cons_self)
      exact .inr ⟨needed, List.ne_nil_of_mem listed, node, ⟨pin, listed, read_spec.mp found⟩, (Except.ok.inj made).symm⟩

theorem reserved_start {groupCount componentCount : Nat} (groups : nodesPerGroup.length = groupCount) :
    Reserved slotToNode nodeToGroup nodesPerGroup extraVarCountByComponent componentCount []
      ⟨List.replicate groupCount 0, List.replicate componentCount ⟨0, 0⟩⟩ where
  groupCount := by simp [groups]
  components := by simp
  sited := by
    rintro i range ⟨pins, listed, _⟩
    cases listed
  bound := by
    rintro i range ⟨pins, listed, _⟩
    cases listed
  onto g l _ above below := by
    have none : (List.replicate groupCount 0).getD g 0 = 0 := by
      simp only [List.getD_eq_getElem?_getD, List.getElem?_replicate]
      split
      · rfl
      · rfl
    rw [none] at below
    omega
  inj := by
    rintro i j range range' l ⟨pins, listed, _⟩
    cases listed

variable {componentCount : Nat} {done : List (Nat × PinSlots)} {layout : ExtraLayout} {entry : Nat × PinSlots}

/-- A component without extra variables, or without pins, reserves nothing. -/
theorem hasRange_skip (nothing : extraVarCountByComponent.getD entry.1 0 = 0 ∨ entry.2.entries = []) {i : Nat}
    {range : ExtraVariableResolution} :
    HasRange extraVarCountByComponent (done ++ [entry]) layout i range ↔
      HasRange extraVarCountByComponent done layout i range := by
  constructor
  · rintro ⟨pins, listed, pinned, needed, found⟩
    rcases List.mem_append.mp listed with earlier | last
    · exact ⟨pins, earlier, pinned, needed, found⟩
    · obtain rfl := List.mem_singleton.mp last
      exact absurd nothing (not_or.mpr ⟨needed, pinned⟩)
  · rintro ⟨pins, listed, rest⟩
    exact ⟨pins, List.mem_append_left _ listed, rest⟩

theorem hasRange_next (fresh : entry.1 ∉ done.map Prod.fst) (inRange : entry.1 < layout.byComponent.length)
    (needed : extraVarCountByComponent.getD entry.1 0 ≠ 0) (pinned : entry.2.entries ≠ []) (counts : List Nat)
    (range : ExtraVariableResolution) {i : Nat} {range' : ExtraVariableResolution} :
    HasRange extraVarCountByComponent (done ++ [entry]) ⟨counts, layout.byComponent.set entry.1 range⟩ i range' ↔
      HasRange extraVarCountByComponent done layout i range' ∨ i = entry.1 ∧ range' = range := by
  constructor
  · rintro ⟨pins, listed, pinned', needed', found⟩
    rcases List.mem_append.mp listed with earlier | last
    · have other : entry.1 ≠ i := by
        rintro rfl
        exact fresh (List.mem_map.mpr ⟨_, earlier, rfl⟩)
      rw [List.getElem?_set_ne other] at found
      exact .inl ⟨pins, earlier, pinned', needed', found⟩
    · obtain rfl := List.mem_singleton.mp last
      rw [List.getElem?_set_self inRange] at found
      exact .inr ⟨rfl, (Option.some.inj found).symm⟩
  · rintro (⟨pins, listed, pinned', needed', found⟩ | ⟨rfl, rfl⟩)
    · have other : entry.1 ≠ i := by
        rintro rfl
        exact fresh (List.mem_map.mpr ⟨_, listed, rfl⟩)
      exact ⟨pins, List.mem_append_left _ listed, pinned', needed', by rw [List.getElem?_set_ne other]; exact found⟩
    · exact ⟨entry.2, List.mem_append_right _ (List.mem_singleton_self _), pinned, needed,
        List.getElem?_set_self inRange⟩

theorem Reserved.skip (reserved : Reserved slotToNode nodeToGroup nodesPerGroup extraVarCountByComponent
      componentCount done layout)
    (nothing : extraVarCountByComponent.getD entry.1 0 = 0 ∨ entry.2.entries = []) :
    Reserved slotToNode nodeToGroup nodesPerGroup extraVarCountByComponent componentCount (done ++ [entry])
      layout where
  groupCount := reserved.groupCount
  components := reserved.components
  sited i range has := by
    obtain ⟨pins, listed, rest⟩ := reserved.sited i range ((hasRange_skip nothing).mp has)
    exact ⟨pins, List.mem_append_left _ listed, rest⟩
  bound i range has := reserved.bound i range ((hasRange_skip nothing).mp has)
  onto g l inGroups above below := by
    obtain ⟨i, range, has, rest⟩ := reserved.onto g l inGroups above below
    exact ⟨i, range, (hasRange_skip nothing).mpr has, rest⟩
  inj i j range range' l has has' :=
    reserved.inj i j range range' l ((hasRange_skip nothing).mp has) ((hasRange_skip nothing).mp has')

theorem Reserved.next (reserved : Reserved slotToNode nodeToGroup nodesPerGroup extraVarCountByComponent
      componentCount done layout)
    (inGroups : ∀ node, nodeToGroup node < nodesPerGroup.length) (fresh : entry.1 ∉ done.map Prod.fst)
    (inRange : entry.1 < componentCount) (needed : extraVarCountByComponent.getD entry.1 0 ≠ 0)
    (pinned : entry.2.entries ≠ []) {node : Fin nodeCount} (onPins : OnPins slotToNode entry.2 node) :
    Reserved slotToNode nodeToGroup nodesPerGroup extraVarCountByComponent componentCount (done ++ [entry]) {
      extraCountPerGroup := layout.extraCountPerGroup.set (nodeToGroup node)
        (layout.extraCountPerGroup.getD (nodeToGroup node) 0 + extraVarCountByComponent.getD entry.1 0)
      byComponent := layout.byComponent.set entry.1 ⟨nodeToGroup node,
        (nodesPerGroup.getD (nodeToGroup node) []).length +
          layout.extraCountPerGroup.getD (nodeToGroup node) 0⟩ } := by
  have has_iff := @hasRange_next _ _ _ _ fresh (reserved.components ▸ inRange) needed pinned
  have here : (layout.extraCountPerGroup.set (nodeToGroup node) (layout.extraCountPerGroup.getD (nodeToGroup node) 0 +
      extraVarCountByComponent.getD entry.1 0)).getD (nodeToGroup node) 0 =
        layout.extraCountPerGroup.getD (nodeToGroup node) 0 + extraVarCountByComponent.getD entry.1 0 := by
    rw [List.getD_eq_getElem?_getD, List.getElem?_set_self (reserved.groupCount ▸ inGroups node), Option.getD_some]
  have there : ∀ g ≠ nodeToGroup node, (layout.extraCountPerGroup.set (nodeToGroup node)
      (layout.extraCountPerGroup.getD (nodeToGroup node) 0 + extraVarCountByComponent.getD entry.1 0)).getD g 0 =
        layout.extraCountPerGroup.getD g 0 := by
    intro g other
    rw [List.getD_eq_getElem?_getD, List.getElem?_set_ne other.symm, List.getD_eq_getElem?_getD]
  constructor
  case groupCount => rw [List.length_set, reserved.groupCount]
  case components => rw [List.length_set, reserved.components]
  case sited =>
    intro i range has
    rcases (has_iff _ _).mp has with old | ⟨rfl, rfl⟩
    · obtain ⟨pins, listed, rest⟩ := reserved.sited i range old
      exact ⟨pins, List.mem_append_left _ listed, rest⟩
    · exact ⟨entry.2, List.mem_append_right _ (List.mem_singleton_self _), node, onPins, rfl⟩
  case bound =>
    intro i range has
    rcases (has_iff _ _).mp has with old | ⟨rfl, rfl⟩
    · obtain ⟨above, below⟩ := reserved.bound i range old
      refine ⟨above, ?_⟩
      by_cases same : range.groupIndex = nodeToGroup node
      · rw [same] at below ⊢
        rw [here]
        omega
      · rwa [there _ same]
    · rw [here]
      exact ⟨Nat.le_add_right _ _, by rw [Nat.add_assoc]⟩
  case onto =>
    intro g l inside above below
    by_cases old : l < (nodesPerGroup.getD g []).length + layout.extraCountPerGroup.getD g 0
    · obtain ⟨i, range, has, rest⟩ := reserved.onto g l inside above old
      exact ⟨i, range, (has_iff _ _).mpr (.inl has), rest⟩
    · by_cases same : g = nodeToGroup node
      · subst same
        rw [here] at below
        exact ⟨entry.1, _, (has_iff _ _).mpr (.inr ⟨rfl, rfl⟩), rfl, Nat.le_of_not_lt old, by dsimp only; omega⟩
      · rw [there g same] at below
        exact absurd below old
  case inj =>
    intro i j range range' l has has' same above below above' below'
    rcases (has_iff _ _).mp has with old | ⟨rfl, rfl⟩
    · rcases (has_iff _ _).mp has' with old' | ⟨rfl, rfl⟩
      · exact reserved.inj i j range range' l old old' same above below above' below'
      · have bound := (reserved.bound i range old).2
        rw [same] at bound
        dsimp only at above' bound
        omega
    · rcases (has_iff _ _).mp has' with old' | ⟨rfl, rfl⟩
      · have bound := (reserved.bound j range' old').2
        rw [← same] at bound
        dsimp only at above bound
        omega
      · rfl

theorem reserveExtra_reserved {groupCount : Nat} (groups : nodesPerGroup.length = groupCount)
    (inGroups : ∀ node, nodeToGroup node < nodesPerGroup.length) {extra : ExtraLayout}
    (run : net.liveComponents.foldlM
      (reserveExtra order slotToNode nodeToGroup nodesPerGroup extraVarCountByComponent)
      ⟨List.replicate groupCount 0, List.replicate net.componentPinSlots.length ⟨0, 0⟩⟩ = .ok extra) :
    Reserved slotToNode nodeToGroup nodesPerGroup extraVarCountByComponent net.componentPinSlots.length
      net.liveComponents extra := by
  refine foldlM_history (P := fun done layout => (done.map Prod.fst).Nodup →
    (∀ entry ∈ done, entry.1 < net.componentPinSlots.length) → Reserved slotToNode nodeToGroup nodesPerGroup
      extraVarCountByComponent net.componentPinSlots.length done layout) run
    (fun _ _ => reserved_start groups) ?_ net.liveComponents_nodup fun entry => liveComponents_bound
  intro done entry layout next ih made nodup bounded
  rw [List.map_append, List.nodup_append] at nodup
  have reserved := ih nodup.1 fun earlier listed => bounded earlier (List.mem_append_left _ listed)
  have fresh : entry.1 ∉ done.map Prod.fst := fun listed =>
    nodup.2.2 entry.1 listed entry.1 (List.mem_singleton_self _) rfl
  rcases reserveExtra_cases made with ⟨nothing, rfl⟩ | ⟨needed, pinned, node, onPins, rfl⟩
  · exact reserved.skip nothing
  · exact reserved.next inGroups fresh (bounded entry (List.mem_append_right _ (List.mem_singleton_self _))) needed
      pinned onPins

section Nodes

variable {groupCount : Nat} (groupOf : Fin nodeCount → Fin groupCount)

def nodesOfGroups : List (List Nat) :=
  (buckets groupCount (fun node => (groupOf node).val) (List.finRange nodeCount)).map (List.map Fin.val)

def rowOfNode (node : Fin nodeCount) : PinSlotResolution :=
  ⟨(groupOf node).val, ((nodesOfGroups groupOf).getD (groupOf node).val []).idxOf node.val⟩

variable {groupOf}

theorem nodesOfGroups_getD {g : Nat} (inside : g < groupCount) : (nodesOfGroups groupOf).getD g [] =
    ((List.finRange nodeCount).filter fun node => (groupOf node).val = g).map Fin.val := by
  rw [nodesOfGroups, List.getD_eq_getElem?_getD, List.getElem?_map, buckets_getElem?.mpr ⟨inside, rfl⟩]
  rfl

theorem mem_nodesOfGroups {g n : Nat} (inside : g < groupCount) :
    n ∈ (nodesOfGroups groupOf).getD g [] ↔ ∃ node, (groupOf node).val = g ∧ node.val = n := by
  rw [nodesOfGroups_getD inside]
  simp

theorem nodesOfGroups_nodup {g : Nat} (inside : g < groupCount) : ((nodesOfGroups groupOf).getD g []).Nodup := by
  rw [nodesOfGroups_getD inside]
  exact ((List.nodup_finRange _).filter _).map Fin.val_injective

theorem rowOfNode_found (node : Fin nodeCount) :
    ((nodesOfGroups groupOf).getD (groupOf node).val [])[(rowOfNode groupOf node).localIndex]? = some node.val :=
  List.getElem?_idxOf ((mem_nodesOfGroups (groupOf node).isLt).mpr ⟨node, rfl, rfl⟩)

theorem rowOfNode_bound (node : Fin nodeCount) :
    (rowOfNode groupOf node).localIndex < ((nodesOfGroups groupOf).getD (groupOf node).val []).length :=
  (List.getElem?_eq_some_iff.mp (rowOfNode_found node)).1

theorem rowOfNode_injective : Function.Injective (rowOfNode groupOf) := by
  intro a b same
  have foundA : ((nodesOfGroups groupOf).getD (groupOf a).val [])[(rowOfNode groupOf a).localIndex]? = some a.val :=
    rowOfNode_found a
  have foundB : ((nodesOfGroups groupOf).getD (groupOf b).val [])[(rowOfNode groupOf b).localIndex]? = some b.val :=
    rowOfNode_found b
  have group : (groupOf a).val = (groupOf b).val := congrArg PinSlotResolution.groupIndex same
  rw [same, group] at foundA
  exact Fin.ext (Option.some.inj (foundA.symm.trans foundB))

theorem rowOfNode_onto {g l : Nat} (inside : g < groupCount) (below : l < ((nodesOfGroups groupOf).getD g []).length) :
    ∃ node, rowOfNode groupOf node = ⟨g, l⟩ := by
  obtain ⟨node, rfl, found⟩ := (mem_nodesOfGroups inside).mp (List.getElem_mem below)
  refine ⟨node, ?_⟩
  rw [rowOfNode, found, List.Nodup.idxOf_getElem (nodesOfGroups_nodup inside)]

theorem group_found {counts : List Nat} (length : counts.length = (nodesOfGroups groupOf).length) {g : Nat}
    {group : CircuitGroup} : ((nodesOfGroups groupOf).zipWith CircuitGroup.mk counts)[g]? = some group ↔
      g < groupCount ∧ group = ⟨(nodesOfGroups groupOf).getD g [], counts.getD g 0⟩ := by
  have groups : (nodesOfGroups groupOf).length = groupCount := by simp [nodesOfGroups, buckets]
  constructor
  · intro found
    obtain ⟨nodes, count, stored, counted, rfl⟩ := List.getElem?_zipWith_eq_some.mp found
    refine ⟨by rw [← groups]; exact (List.getElem?_eq_some_iff.mp stored).1, ?_⟩
    rw [List.getD_eq_getElem?_getD, stored, List.getD_eq_getElem?_getD, counted]
    rfl
  · rintro ⟨inside, rfl⟩
    rw [← groups] at inside
    refine List.getElem?_zipWith_eq_some.mpr ⟨_, _, ?_, ?_, rfl⟩
    · rw [List.getD_eq_getElem?_getD, List.getElem?_eq_getElem inside, Option.getD_some]
    · rw [List.getD_eq_getElem?_getD, List.getElem?_eq_getElem (length ▸ inside), Option.getD_some]

end Nodes

section Parts

variable {groupCount : Nat} {groupOf : Fin nodeCount → Fin groupCount} {extra : ExtraLayout} {t : Topology}

/-- A topology whose parts are those the passes computed is tiled. -/
theorem tiled_of_parts (onto : ∀ node, node ∈ slotToNode)
    (oneGroup : ∀ entry ∈ net.liveComponents, ∀ p q, OnPins slotToNode entry.2 p → OnPins slotToNode entry.2 q →
      groupOf p = groupOf q)
    (reserved : Reserved slotToNode (fun node => (groupOf node).val) (nodesOfGroups groupOf)
      extraVarCountByComponent net.componentPinSlots.length net.liveComponents extra)
    (groups : t.groups = (nodesOfGroups groupOf).zipWith CircuitGroup.mk extra.extraCountPerGroup)
    (resolutions : t.resolutionBySlot = slotToNode.map (rowOfNode groupOf))
    (nodes : t.slotToNode = slotToNode.map Fin.val) (ranges : t.extraVariablesByComponent = extra.byComponent) :
    t.Tiled net extraVarCountByComponent := by
  have length := reserved.groupCount
  have group_iff := fun g group => (groups ▸ group_found length :
    t.groups[g]? = some group ↔ g < groupCount ∧ group = ⟨_, extra.extraCountPerGroup.getD g 0⟩)
  have row_iff : ∀ (slot : Nat) row, t.resolutionBySlot[slot]? = some row ↔
      ∃ node, slotToNode[slot]? = some node ∧ rowOfNode groupOf node = row := by
    intro slot row
    rw [resolutions, List.getElem?_map, Option.map_eq_some_iff]
  have extra_iff : ∀ i row, t.ExtraUnknown net extraVarCountByComponent i row ↔
      ∃ range, HasRange extraVarCountByComponent net.liveComponents extra i range ∧
        row.groupIndex = range.groupIndex ∧ range.baseLocalIndex ≤ row.localIndex ∧
          row.localIndex < range.baseLocalIndex + extraVarCountByComponent.getD i 0 := by
    intro i row
    constructor
    · rintro ⟨pins, range, live, pinned, found, group, above, below⟩
      exact ⟨range, ⟨pins, live, pinned, by omega, ranges ▸ found⟩, group, above, below⟩
    · rintro ⟨range, ⟨pins, live, pinned, _, found⟩, rest⟩
      exact ⟨pins, range, live, pinned, ranges ▸ found, rest⟩
  have declares_node : ∀ i row, t.Declares net extraVarCountByComponent i row →
      ∃ pins node, (i, pins) ∈ net.liveComponents ∧ OnPins slotToNode pins node ∧
        row.groupIndex = (groupOf node).val := by
    rintro i row (⟨pins, live, pin, listed, found⟩ | isExtra)
    · obtain ⟨node, stored, rfl⟩ := (row_iff _ _).mp found
      exact ⟨pins, node, live, ⟨pin, listed, stored⟩, rfl⟩
    · obtain ⟨range, has, group, _⟩ := (extra_iff i row).mp isExtra
      obtain ⟨pins, live, node, onPins, sited⟩ := reserved.sited i range has
      exact ⟨pins, node, live, onPins, group.trans sited⟩
  constructor
  case node_bound =>
    intro slot row found
    obtain ⟨node, _, rfl⟩ := (row_iff _ _).mp found
    exact ⟨_, (group_iff _ _).mpr ⟨(groupOf node).isLt, rfl⟩, rowOfNode_bound node⟩
  case node_onto =>
    intro g group l found below
    obtain ⟨inside, rfl⟩ := (group_iff _ _).mp found
    obtain ⟨node, row⟩ := rowOfNode_onto inside below
    obtain ⟨slot, stored⟩ := List.mem_iff_getElem?.mp (onto node)
    exact ⟨slot, (row_iff _ _).mpr ⟨node, stored, row⟩⟩
  case node_inj =>
    intro a b row found
    obtain ⟨node, stored, rfl⟩ := (row_iff _ _).mp found
    rw [row_iff, nodes, List.getElem?_map, List.getElem?_map, stored]
    constructor
    · rintro ⟨other, stored', same⟩
      rw [stored', rowOfNode_injective same]
    · intro same
      obtain ⟨other, stored', value⟩ := Option.map_eq_some_iff.mp same.symm
      exact ⟨other, stored', congrArg _ (Fin.ext value)⟩
  case extra_bound =>
    intro i row isExtra
    obtain ⟨range, has, group, above, below⟩ := (extra_iff i row).mp isExtra
    obtain ⟨bound, bound'⟩ := reserved.bound i range has
    obtain ⟨_, _, node, _, sited⟩ := reserved.sited i range has
    refine ⟨_, (group_iff _ _).mpr ⟨by rw [group, sited]; exact (groupOf node).isLt, rfl⟩, ?_, ?_⟩
    · rw [group]
      exact bound.trans above
    · rw [group]
      exact below.trans_le bound'
  case extra_onto =>
    intro g group l found above below
    obtain ⟨inside, rfl⟩ := (group_iff _ _).mp found
    obtain ⟨i, range, has, rfl, rest⟩ := reserved.onto g l (by simpa [nodesOfGroups, buckets] using inside) above below
    exact ⟨i, (extra_iff i _).mpr ⟨range, has, rfl, rest⟩⟩
  case extra_inj =>
    intro i j row isExtra isExtra'
    obtain ⟨range, has, group, above, below⟩ := (extra_iff i row).mp isExtra
    obtain ⟨range', has', group', above', below'⟩ := (extra_iff j row).mp isExtra'
    exact reserved.inj i j range range' row.localIndex has has' (group.symm.trans group') above below above' below'
  case one_group =>
    intro i row row' declares declares'
    obtain ⟨pins, node, live, onPins, group⟩ := declares_node i row declares
    obtain ⟨pins', node', live', onPins', group'⟩ := declares_node i row' declares'
    obtain rfl : pins = pins' := congrArg Prod.snd
      (List.inj_on_of_nodup_map net.liveComponents_nodup live live' rfl : (i, pins) = (i, pins'))
    rw [group, group', oneGroup _ live node node' onPins onPins']

end Parts

theorem arranged_tiled {slotToNode : Σ nodeCount : Nat, List (Fin nodeCount)} {t : Topology}
    (onto : ∀ node, node ∈ slotToNode.2)
    (run : net.arranged order extraVarCountByComponent slotToNode = .ok t) :
    t.Tiled net extraVarCountByComponent := by
  obtain ⟨groups, grouped, run⟩ := bind_ok run
  obtain ⟨extra, reservedRun, run⟩ := bind_ok run
  obtain ⟨stamps, _, run⟩ := bind_ok run
  obtain ⟨live, _, run⟩ := bind_ok run
  obtain rfl := Except.ok.inj run
  have length : (nodesOfGroups groups.compress.id).length = groups.compress.idCount := by
    simp [nodesOfGroups, buckets]
  have reserved : Reserved slotToNode.2 (fun node => (groups.compress.id node).val)
      (nodesOfGroups groups.compress.id) extraVarCountByComponent net.componentPinSlots.length net.liveComponents
      extra :=
    reserveExtra_reserved length (fun node => by rw [length]; exact (groups.compress.id node).isLt) reservedRun
  exact tiled_of_parts onto (fun entry inLive p q => one_group grouped inLive) reserved rfl rfl rfl rfl

/-- A source and a load on one wire. -/
def sourceAndLoad : Netlist.History :=
  [(.stored, .registerComponent 0 ["p", "n"]), (.stored, .registerComponent 1 ["in", "out"]),
    (.stored, .connectWire 1 2)]

end Netlist

end LasecSimul.Wiring
