import LasecSimul.Wiring.Netlist
import Mathlib.Data.Multiset.Filter
import Mathlib.Data.Sym.Sym2

/-!
# The circuit a netlist stands for

What the edits mean: components with their current pins, a bag of wires, and a name for every slot.
A retired pin takes its wires and names with it. An edit that throws changes none of that.
-/

namespace LasecSimul.Wiring

/-- A component that is in the circuit: its pins, in order, are slots from `first` on. -/
structure Component where
  first : Nat
  pinIds : List String
  deriving DecidableEq

def Component.Owns (component : Component) (slot : Nat) : Prop :=
  component.first ≤ slot ∧ slot < component.first + component.pinIds.length

instance (component : Component) : DecidablePred component.Owns :=
  fun slot => inferInstanceAs (Decidable (component.first ≤ slot ∧ slot < _))

/-- The pin ids a component may have. -/
def ValidPins (pinIds : List String) : Prop := "" ∉ pinIds ∧ pinIds.Nodup

instance (pinIds : List String) : Decidable (ValidPins pinIds) :=
  inferInstanceAs (Decidable (_ ∧ _))

/-- The slots spent before the first pin id that is empty or repeats one of `seen`. -/
def spentSlots (seen : List String) : List String → Nat
  | [] => 0
  | pinId :: rest => if pinId = "" ∨ pinId ∈ seen then 0 else spentSlots (pinId :: seen) rest + 1

/-- `components` holds `none` for a component that was removed. -/
structure Circuit where
  slotCount : Nat := 0
  components : List (Option Component) := []
  wires : Multiset (Sym2 Nat) := 0
  name : Nat → String := fun _ => ""
  fallback : Nat → String := fun _ => ""

namespace Circuit

def Live (c : Circuit) (componentIndex : Nat) (component : Component) : Prop :=
  c.components[componentIndex]? = some (some component)

open Classical in
/-- The circuit after the pins of `old` are gone, with their wires and names. -/
noncomputable def retire (c : Circuit) (old : Component) : Circuit :=
  { c with
    wires := c.wires.filter fun wire => ∀ slot ∈ wire, ¬old.Owns slot
    name := fun slot => if old.Owns slot then "" else c.name slot
    fallback := fun slot => if old.Owns slot then "" else c.fallback slot }

/-- The circuit after one edit. A call with a bad pin id throws and only spends slots; any other
call that throws, and the removal of a removed component, leaves no trace. -/
noncomputable def step (c : Circuit) : Netlist.Op → Circuit
  | .registerComponent componentIndex pinIds =>
    if componentIndex ≠ c.components.length then c
    else if ValidPins pinIds then
      { c with
        slotCount := c.slotCount + pinIds.length
        components := c.components ++ [some ⟨c.slotCount, pinIds⟩] }
    else { c with slotCount := c.slotCount + spentSlots [] pinIds }
  | .removeComponent componentIndex =>
    match c.components[componentIndex]? with
    | some (some old) => { c.retire old with components := c.components.set componentIndex none }
    | _ => c
  | .reregisterComponentPins componentIndex newPinIds =>
    match c.components[componentIndex]? with
    | some (some old) =>
      if ValidPins newPinIds then
        { c.retire old with
          slotCount := c.slotCount + newPinIds.length
          components := c.components.set componentIndex (some ⟨c.slotCount, newPinIds⟩) }
      else { c with slotCount := c.slotCount + spentSlots [] newPinIds }
    | _ => c
  | .connectWire slotA slotB =>
    if slotA < c.slotCount ∧ slotB < c.slotCount then { c with wires := s(slotA, slotB) ::ₘ c.wires }
    else c
  | .disconnectWire slotA slotB =>
    if slotA < c.slotCount ∧ slotB < c.slotCount then
      { c with wires := c.wires.erase s(slotA, slotB) }
    else c
  | .setTunnelName slot newName =>
    if slot < c.slotCount then { c with name := Function.update c.name slot newName } else c
  | .setFallbackTunnelName slot newName =>
    if slot < c.slotCount then { c with fallback := Function.update c.fallback slot newName } else c

/-- The edit does not fail on a pin id: any pins it is to allocate are valid. -/
def Accepts (c : Circuit) : Netlist.Op → Prop
  | .registerComponent componentIndex pinIds =>
    componentIndex = c.components.length → ValidPins pinIds
  | .reregisterComponentPins componentIndex newPinIds =>
    (∃ old, c.Live componentIndex old) → ValidPins newPinIds
  | _ => True

noncomputable def run (c : Circuit) : List Netlist.Op → Circuit
  | [] => c
  | op :: rest => run (c.step op) rest

/-- Every edit of the history is accepted when its turn comes. -/
def AcceptsAll (c : Circuit) : List Netlist.Op → Prop
  | [] => True
  | op :: rest => c.Accepts op ∧ AcceptsAll (c.step op) rest

/-- The three ways in which two slots are joined directly. -/
inductive Joins (c : Circuit) : Nat → Nat → Prop where
  | wire {a b : Nat} : s(a, b) ∈ c.wires → Joins c a b
  | tunnel {a b : Nat} : c.name a ≠ "" → c.name a = c.name b → Joins c a b
  | fallback {a b : Nat} :
    (∀ wire ∈ c.wires, a ∉ wire) → c.name b ≠ "" → c.fallback a = c.name b → Joins c a b

/-- One live component has a pin on each of the two nodes. -/
def Shares (c : Circuit) (nodeOf : Nat → Option Nat) (p q : Nat) : Prop :=
  ∃ (componentIndex : Nat) (component : Component), c.Live componentIndex component ∧
    (∃ slot, component.Owns slot ∧ nodeOf slot = some p) ∧
      ∃ slot, component.Owns slot ∧ nodeOf slot = some q

end Circuit
end LasecSimul.Wiring
