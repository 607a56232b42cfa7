import LasecSimul.Base.Exception
import LasecSimul.Lib.ListIndex
import LasecSimul.Wiring.UnionFind

/-!
# The netlist (`Netlist.hpp`)

Slots are append-only: a component owns one contiguous run of slots for its current pins, and the
slots of removed components and replaced pin sets stay behind. An operation that throws keeps what
it wrote before the exception, so an edit returns the netlist together with its outcome.
-/

namespace LasecSimul.Wiring

open Lib

/-- The iteration order of an `unordered_map`: some arrangement of its entries. -/
structure HashOrder where
  arrange : {α : Type} → List α → List α
  perm : ∀ {α : Type} (l : List α), (arrange l).Perm l

/-- Entries in the order in which the model stores them. -/
def HashOrder.stored : HashOrder := ⟨fun l => l, fun _ => .refl _⟩

/-- `m_tunnelNameBySlot` with `m_tunnelGroups`, or the two fallback members: the name of every slot
and the slots of every name in use. Each side is the inverse of the other. -/
structure NameIndex where
  names : List String
  groups : ListIndex.Index String Nat
  inverse : ∀ name slot, slot ∈ ListIndex.entries groups name ↔ name ≠ "" ∧ names[slot]? = some name
  nonempty : ListIndex.Nonempty groups

namespace NameIndex

def empty : NameIndex where
  names := []
  groups := ∅
  inverse := by simp [ListIndex.entries]
  nonempty := by intro _ _ h; simp at h

/-- `emplace_back()` for a new slot, which has no name. -/
def push (ix : NameIndex) : NameIndex where
  names := ix.names ++ [""]
  groups := ix.groups
  inverse := by
    intro name slot
    rw [ix.inverse]
    refine and_congr_right fun named => ?_
    rw [List.getElem?_append]
    split
    · rfl
    · next old =>
      rw [List.getElem?_eq_none (by omega)]
      simp only [reduceCtorEq, false_iff]
      intro h
      exact named (List.mem_singleton.mp (List.mem_of_getElem? h))
  nonempty := ix.nonempty

/-- The groups after `slot` leaves the name `currentName`. -/
def leftGroups (groups : ListIndex.Index String Nat) (slot : Nat) (currentName : String) :
    ListIndex.Index String Nat :=
  if currentName = "" then groups else ListIndex.drop groups currentName slot

/-- The groups after `slot` leaves the name `currentName` for `newName`. -/
def movedGroups (groups : ListIndex.Index String Nat) (slot : Nat) (currentName newName : String) :
    ListIndex.Index String Nat :=
  if newName = "" then leftGroups groups slot currentName
  else ListIndex.add (leftGroups groups slot currentName) newName slot

theorem leftGroups_inverse (ix : NameIndex) {slot : Nat} {currentName : String}
    (current : ix.names[slot]? = some currentName) (name : String) (s : Nat) :
    s ∈ ListIndex.entries (leftGroups ix.groups slot currentName) name ↔
      (name ≠ "" ∧ ix.names[s]? = some name) ∧ s ≠ slot := by
  have old := ix.inverse name s
  unfold leftGroups
  split
  · rw [old]; grind
  · rw [ListIndex.mem_entries_drop, old]; grind

theorem movedGroups_inverse (ix : NameIndex) {slot : Nat} {currentName : String}
    (current : ix.names[slot]? = some currentName) (newName name : String) (s : Nat) :
    s ∈ ListIndex.entries (movedGroups ix.groups slot currentName newName) name ↔
      name ≠ "" ∧ (ix.names.set slot newName)[s]? = some name := by
  have bound := (List.getElem?_eq_some_iff.mp current).1
  have left := ix.leftGroups_inverse current name s
  unfold movedGroups
  rw [List.getElem?_set]
  split
  · rw [left]; grind
  · rw [ListIndex.mem_entries_add, left]; grind

theorem movedGroups_nonempty {groups : ListIndex.Index String Nat} (nonempty : ListIndex.Nonempty groups)
    (slot : Nat) (currentName newName : String) :
    ListIndex.Nonempty (movedGroups groups slot currentName newName) := by
  have left : ListIndex.Nonempty (leftGroups groups slot currentName) := by
    unfold leftGroups
    split
    · exact nonempty
    · exact nonempty.drop
  unfold movedGroups
  split
  · exact left
  · exact left.add

/-- The body of `setTunnelName` and `setFallbackTunnelName` after `validateSlot`. -/
def rename (ix : NameIndex) (slot : Nat) (newName : String) : NameIndex :=
  if valid : slot < ix.names.length then
    let currentName := ix.names.get ⟨slot, valid⟩
    if currentName = newName then ix
    else
      { names := ix.names.set slot newName
        groups := movedGroups ix.groups slot currentName newName
        inverse := ix.movedGroups_inverse (List.getElem?_eq_getElem valid) newName
        nonempty := movedGroups_nonempty ix.nonempty slot currentName newName }
  else ix

@[simp] theorem rename_names (ix : NameIndex) (slot : Nat) (newName : String) :
    (ix.rename slot newName).names = ix.names.set slot newName := by
  unfold rename
  split
  · next valid =>
    dsimp only
    split
    · next unchanged => rw [← unchanged]; simp
    · rfl
  · next invalid => rw [List.set_eq_of_length_le (by omega)]

@[simp] theorem push_names (ix : NameIndex) : ix.push.names = ix.names ++ [""] := rfl

end NameIndex

/-- `unordered_map<string, uint32_t>` from the pin ids of a component to their slots. -/
abbrev PinSlots := AList fun _ : String => Nat

structure Netlist where
  slotOwner : List Nat := []
  slotOrphaned : List Bool := []
  firstSlotByComponent : List Nat := []
  componentPinSlots : List PinSlots := []
  wireEdges : List (Nat × Nat) := []
  tunnel : NameIndex := .empty
  fallbackTunnel : NameIndex := .empty
  componentRemoved : List Bool := []

/-- The netlist an operation leaves, with what it returned or threw. -/
abbrev Edit (α : Type) := Netlist × Except Exception α

namespace Netlist

def validateSlot (net : Netlist) (slot : Nat) (operation : String) : Except Exception Unit :=
  if slot < net.slotOwner.length then .ok () else .error (.outOfRange (operation ++ ": invalid pin slot"))

/-- Both ends of a wire, the first one first. -/
def validateSlots (net : Netlist) (slotA slotB : Nat) (operation : String) : Except Exception Unit := do
  net.validateSlot slotA operation
  net.validateSlot slotB operation

def hasWire (net : Netlist) (slot : Nat) : Bool :=
  net.wireEdges.any fun edge => edge.1 == slot || edge.2 == slot

/-! ### Edits -/

/-- The five pushes that allocate the next slot for `owner`. -/
def pushSlot (net : Netlist) (owner : Nat) : Netlist :=
  { net with
    slotOwner := net.slotOwner ++ [owner]
    slotOrphaned := net.slotOrphaned ++ [false]
    tunnel := net.tunnel.push
    fallbackTunnel := net.fallbackTunnel.push }

/-- The loop over the pin ids shared by `registerComponent` and `reregisterComponentPins`: it
allocates one slot for each id and stops at the first bad one, keeping the slots before it. -/
def pushPins (operation : String) (owner : Nat) :
    List String → PinSlots → Netlist → Edit PinSlots
  | [], slotsByPinId, net => (net, .ok slotsByPinId)
  | pinId :: rest, slotsByPinId, net =>
    if pinId = "" then (net, .error (.invalidArgument (operation ++ ": empty pin id")))
    else if pinId ∈ slotsByPinId then
      (net, .error (.invalidArgument (operation ++ ": duplicate pin id")))
    else
      pushPins operation owner rest (slotsByPinId.insert pinId net.slotOwner.length)
        (net.pushSlot owner)

def registerComponent (net : Netlist) (componentIndex : Nat) (pinIds : List String) :
    Edit PinSlots :=
  if componentIndex ≠ net.componentPinSlots.length then
    (net, .error (.invalidArgument "Netlist::registerComponent: componentIndex must be dense"))
  else
    let opened := { net with
      firstSlotByComponent := net.firstSlotByComponent ++ [net.slotOwner.length] }
    match pushPins "Netlist::registerComponent" componentIndex pinIds ∅ opened with
    | (grown, .error e) => (grown, .error e)
    | (grown, .ok slotsByPinId) =>
      ({ grown with
        componentPinSlots := grown.componentPinSlots ++ [slotsByPinId]
        componentRemoved := grown.componentRemoved ++ [false] }, .ok slotsByPinId)

/-- Clears the names and the wires of one slot. -/
def disconnectSlot (net : Netlist) (slot : Nat) : Netlist :=
  { net with
    tunnel := net.tunnel.rename slot ""
    fallbackTunnel := net.fallbackTunnel.rename slot ""
    wireEdges := net.wireEdges.filter fun edge => !(edge.1 == slot || edge.2 == slot) }

def removeComponent (net : Netlist) (order : HashOrder) (componentIndex : Nat) : Edit Unit :=
  match net.componentPinSlots[componentIndex]? with
  | none => (net, .error (.outOfRange "Netlist::removeComponent: invalid component index"))
  | some pins =>
    if net.componentRemoved.getD componentIndex false then (net, .ok ())
    else
      let cleared := (order.arrange pins.entries).foldl (fun net pin => net.disconnectSlot pin.2) net
      ({ cleared with componentRemoved := cleared.componentRemoved.set componentIndex true }, .ok ())

/-- The body of the loop of `reregisterComponentPins` over the old pins. -/
def orphanSlot (net : Netlist) (slot : Nat) : Netlist :=
  let cleared := net.disconnectSlot slot
  { cleared with slotOrphaned := cleared.slotOrphaned.set slot true }

def reregisterComponentPins (net : Netlist) (order : HashOrder) (componentIndex : Nat)
    (newPinIds : List String) : Edit Unit :=
  match net.componentPinSlots[componentIndex]? with
  | none => (net, .error (.outOfRange "Netlist::reregisterComponentPins: invalid component index"))
  | some pins =>
    if net.componentRemoved.getD componentIndex false then
      (net, .error (.invalidArgument "Netlist::reregisterComponentPins: componente removido"))
    else
      let cleared := (order.arrange pins.entries).foldl (fun net pin => net.orphanSlot pin.2) net
      let opened := { cleared with
        firstSlotByComponent := cleared.firstSlotByComponent.set componentIndex cleared.slotOwner.length }
      match pushPins "Netlist::reregisterComponentPins" componentIndex newPinIds ∅ opened with
      | (grown, .error e) => (grown, .error e)
      | (grown, .ok slotsByPinId) =>
        ({ grown with
          componentPinSlots := grown.componentPinSlots.set componentIndex slotsByPinId }, .ok ())

def connectWire (net : Netlist) (slotA slotB : Nat) : Edit Unit :=
  match net.validateSlots slotA slotB "Netlist::connectWire" with
  | .error e => (net, .error e)
  | .ok () => ({ net with wireEdges := net.wireEdges ++ [(slotA, slotB)] }, .ok ())

/-- Whether `edge` joins the two slots, in either direction. -/
def matchesWire (slotA slotB : Nat) (edge : Nat × Nat) : Bool :=
  (edge.1 == slotA && edge.2 == slotB) || (edge.1 == slotB && edge.2 == slotA)

/-- Erases the first matching wire and says whether there was one. -/
def disconnectWire (net : Netlist) (slotA slotB : Nat) : Edit Bool :=
  match net.validateSlots slotA slotB "Netlist::disconnectWire" with
  | .error e => (net, .error e)
  | .ok () => ({ net with wireEdges := net.wireEdges.eraseP (matchesWire slotA slotB) },
      .ok (net.wireEdges.any (matchesWire slotA slotB)))

def setTunnelName (net : Netlist) (slot : Nat) (newName : String) : Edit Unit :=
  match net.validateSlot slot "Netlist::setTunnelName" with
  | .error e => (net, .error e)
  | .ok () => ({ net with tunnel := net.tunnel.rename slot newName }, .ok ())

def setFallbackTunnelName (net : Netlist) (slot : Nat) (newName : String) : Edit Unit :=
  match net.validateSlot slot "Netlist::setFallbackTunnelName" with
  | .error e => (net, .error e)
  | .ok () => ({ net with fallbackTunnel := net.fallbackTunnel.rename slot newName }, .ok ())

inductive Op where
  | registerComponent (componentIndex : Nat) (pinIds : List String)
  | removeComponent (componentIndex : Nat)
  | reregisterComponentPins (componentIndex : Nat) (newPinIds : List String)
  | connectWire (slotA slotB : Nat)
  | disconnectWire (slotA slotB : Nat)
  | setTunnelName (slot : Nat) (newName : String)
  | setFallbackTunnelName (slot : Nat) (newName : String)
  deriving DecidableEq

/-- The netlist after one operation, whether it returned or threw. -/
def step (order : HashOrder) (net : Netlist) : Op → Netlist
  | .registerComponent componentIndex pinIds => (net.registerComponent componentIndex pinIds).1
  | .removeComponent componentIndex => (net.removeComponent order componentIndex).1
  | .reregisterComponentPins componentIndex newPinIds =>
    (net.reregisterComponentPins order componentIndex newPinIds).1
  | .connectWire slotA slotB => (net.connectWire slotA slotB).1
  | .disconnectWire slotA slotB => (net.disconnectWire slotA slotB).1
  | .setTunnelName slot newName => (net.setTunnelName slot newName).1
  | .setFallbackTunnelName slot newName => (net.setFallbackTunnelName slot newName).1

/-- A session's edits, each with the hash order its loops happened to see. -/
abbrev History := List (HashOrder × Op)

def run (net : Netlist) : History → Netlist
  | [] => net
  | (order, op) :: rest => run (net.step order op) rest

end Netlist
end LasecSimul.Wiring

/-!
## Rebuilding the topology (`Netlist::rebuildTopology`)

Pass 1 joins slots into nodes by wires and names. Pass 2 joins nodes into groups by components. The
rest lays the result out: group systems, local indices, extra variables, listeners and pin references.
-/

namespace LasecSimul.Wiring

open Lib

structure PinSlotResolution where
  groupIndex : Nat
  localIndex : Nat
  deriving DecidableEq

structure ExtraVariableResolution where
  groupIndex : Nat
  baseLocalIndex : Nat
  deriving DecidableEq

structure ComponentStampResolution where
  groupIndex : Nat := 2 ^ 32 - 1
  localIndexByPinId : AList fun _ : String => Nat := ∅

structure NodePinRef where
  componentIndex : Nat
  localPinIndex : Nat
  deriving DecidableEq

/-- The part of `CircuitGroup` that the rebuild fills in. -/
structure CircuitGroup where
  nodes : List Nat
  extraVariableCount : Nat
  deriving DecidableEq

structure Topology where
  groups : List CircuitGroup
  resolutionBySlot : List PinSlotResolution
  listenersByNode : List (List Nat)
  pinRefsByNode : List (List NodePinRef)
  slotToNode : List Nat
  extraVariablesByComponent : List ExtraVariableResolution
  stampResolutionByComponent : List ComponentStampResolution

/-- `push_back` of every element, in order, into the bucket of its key. -/
def buckets {α : Type*} (count : Nat) (key : α → Nat) (xs : List α) : List (List α) :=
  (List.range count).map fun bucket => xs.filter fun x => key x = bucket

namespace Netlist

/-- `validateSlot` on both ends of every pair, which turns slots into elements of the disjoint sets. -/
def validated (slotCount : Nat) (operation : String) :
    List (Nat × Nat) → Except Exception (List (Fin slotCount × Fin slotCount))
  | [] => .ok []
  | (a, b) :: rest =>
    if ha : a < slotCount then
      if hb : b < slotCount then do
        let pairs ← validated slotCount operation rest
        return (⟨a, ha⟩, ⟨b, hb⟩) :: pairs
      else .error (.outOfRange (operation ++ ": invalid pin slot"))
    else .error (.outOfRange (operation ++ ": invalid pin slot"))

/-- The pairs one tunnel group unites: its first slot with itself (the source only validates it) and
with every other slot, then with the wireless fallback slots of the same name. -/
def tunnelPairs (net : Netlist) (name : String) : List Nat → List (Nat × Nat)
  | [] => []
  | first :: rest =>
    (first :: rest).map (fun slot => (first, slot)) ++
      ((ListIndex.entries net.fallbackTunnel.groups name).filter fun slot => !net.hasWire slot).map
        fun slot => (first, slot)

def slotPairs (net : Netlist) (order : HashOrder) : List (Nat × Nat) :=
  net.wireEdges ++
    (order.arrange net.tunnel.groups.entries).flatMap fun group => net.tunnelPairs group.1 group.2

def pinUnion (net : Netlist) (order : HashOrder) :
    Except Exception (UnionFind net.slotOwner.length) := do
  let pairs ← validated net.slotOwner.length "Netlist::rebuildTopology" (net.slotPairs order)
  return (UnionFind.init _).uniteAll pairs

/-- An unchecked `vector` read. -/
def read {α : Type} (xs : List α) (index : Nat) (what : String) : Except Exception α :=
  match xs[index]? with
  | some x => .ok x
  | none => .error (.undefinedBehavior what)

/-- The nodes of the pins of a component, in hash order. -/
def pinNodes {nodeCount : Nat} (order : HashOrder) (slotToNode : List (Fin nodeCount))
    (pins : PinSlots) : Except Exception (List (Fin nodeCount)) :=
  (order.arrange pins.entries).mapM fun pin => read slotToNode pin.2 "slotToNode"

/-- The first node with every node after it. -/
def chainPairs {α : Type} : List α → List (α × α)
  | [] => []
  | first :: rest => rest.map fun node => (first, node)

/-- The components that still take part, with their index and pins. -/
def liveComponents (net : Netlist) : List (Nat × PinSlots) :=
  (net.componentPinSlots.zipIdx.map Prod.swap).filter fun entry =>
    !net.componentRemoved.getD entry.1 false

def groupUnion {nodeCount : Nat} (net : Netlist) (order : HashOrder)
    (slotToNode : List (Fin nodeCount)) : Except Exception (UnionFind nodeCount) := do
  let nodes ← net.liveComponents.mapM fun entry => pinNodes order slotToNode entry.2
  return (UnionFind.init _).uniteAll (nodes.flatMap chainPairs)

/-- The state of the loop that reserves extra variables: the count per group and the results. -/
structure ExtraLayout where
  extraCountPerGroup : List Nat
  byComponent : List ExtraVariableResolution

/-- One component of the extra-variable loop. -/
def reserveExtra {nodeCount : Nat} (order : HashOrder) (slotToNode : List (Fin nodeCount))
    (nodeToGroup : Fin nodeCount → Nat) (nodesPerGroup : List (List Nat))
    (extraVarCountByComponent : List Nat) (layout : ExtraLayout) (component : Nat × PinSlots) :
    Except Exception ExtraLayout := do
  let needed := extraVarCountByComponent.getD component.1 0
  if needed = 0 then return layout
  match order.arrange component.2.entries with
  | [] => return layout
  | pin :: _ =>
    let anyNode ← read slotToNode pin.2 "slotToNode"
    let group := nodeToGroup anyNode
    let reserved := layout.extraCountPerGroup.getD group 0
    return {
      extraCountPerGroup := layout.extraCountPerGroup.set group (reserved + needed)
      byComponent := layout.byComponent.set component.1
        ⟨group, (nodesPerGroup.getD group []).length + reserved⟩ }

/-- The pins of one component in `stampResolutionByComponent`. -/
def stampPins (resolutionBySlot : List PinSlotResolution) :
    List (Sigma fun _ : String => Nat) → ComponentStampResolution →
      Except Exception ComponentStampResolution
  | [], stamp => .ok stamp
  | pin :: rest, stamp => do
    let resolution ← read resolutionBySlot pin.2 "resolutionBySlot"
    stampPins resolutionBySlot rest {
      groupIndex := resolution.groupIndex
      localIndexByPinId := stamp.localIndexByPinId.insert pin.1 resolution.localIndex }

def stampResolutions (net : Netlist) (order : HashOrder) (resolutionBySlot : List PinSlotResolution) :
    Except Exception (List ComponentStampResolution) :=
  net.componentPinSlots.zipIdx.mapM fun entry =>
    if net.componentRemoved.getD entry.2 false then return {}
    else stampPins resolutionBySlot (order.arrange entry.1.entries) {}

/-- The slots that still stand for a pin: not orphaned, owned by a component that is not removed. -/
def liveSlots (net : Netlist) : Except Exception (List Nat) :=
  (List.range net.slotOwner.length).filterM fun slot => do
    let removed ← read net.componentRemoved (net.slotOwner.getD slot 0) "m_componentRemoved"
    return !(removed || net.slotOrphaned.getD slot false)

/-- The pin a live slot stands for. -/
def pinRef (net : Netlist) (slot : Nat) : NodePinRef :=
  let owner := net.slotOwner.getD slot 0
  ⟨owner, slot - net.firstSlotByComponent.getD owner 0⟩

def rebuildTopology (net : Netlist) (order : HashOrder) (extraVarCountByComponent : List Nat) :
    Except Exception Topology := do
  let pins ← net.pinUnion order
  let nodes := pins.compress
  let slotToNode := (List.finRange _).map nodes.id
  let groupSets ← net.groupUnion order slotToNode
  let groups := groupSets.compress
  let nodeToGroup := fun node => (groups.id node).val
  let nodesPerGroup := (buckets groups.idCount nodeToGroup (List.finRange nodes.idCount)).map
    (List.map Fin.val)
  let extra ← net.liveComponents.foldlM
    (reserveExtra order slotToNode nodeToGroup nodesPerGroup extraVarCountByComponent)
    ⟨List.replicate groups.idCount 0, List.replicate net.componentPinSlots.length ⟨0, 0⟩⟩
  let resolutionByNode := fun node : Fin nodes.idCount => PinSlotResolution.mk (nodeToGroup node)
    ((nodesPerGroup.getD (nodeToGroup node) []).idxOf node.val)
  let resolutionBySlot := slotToNode.map resolutionByNode
  let stamps ← net.stampResolutions order resolutionBySlot
  let live ← net.liveSlots
  let nodeOfSlot := fun slot => (slotToNode.map Fin.val).getD slot 0
  let slotsByNode := buckets nodes.idCount nodeOfSlot live
  return {
    groups := nodesPerGroup.zipWith CircuitGroup.mk extra.extraCountPerGroup
    resolutionBySlot
    -- sorted, without the repetitions `std::unique` drops
    listenersByNode := slotsByNode.map fun slots =>
      ((slots.map fun slot => net.slotOwner.getD slot 0).mergeSort).dedup
    pinRefsByNode := slotsByNode.map (List.map net.pinRef)
    slotToNode := slotToNode.map Fin.val
    extraVariablesByComponent := extra.byComponent
    stampResolutionByComponent := stamps }

end Netlist
end LasecSimul.Wiring
