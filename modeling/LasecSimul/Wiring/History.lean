import LasecSimul.Wiring.Connectivity

/-!
# Edit histories

Connectivity over whole sessions: the edits of a history fold into one circuit, and the topology
rebuilt at its end is exact. A pin that an edit retired joins nothing from then on, unless a later
edit names its slot again.
-/

namespace LasecSimul.Wiring

open Relation

/-- The edit gives the slot a wire or a name. -/
def Netlist.Op.Names (slot : Nat) : Netlist.Op → Prop
  | .connectWire slotA slotB => slot = slotA ∨ slot = slotB
  | .setTunnelName named _ => slot = named
  | .setFallbackTunnelName named _ => slot = named
  | _ => False

namespace Circuit

/-- Nothing touches the slot and no component owns it. -/
structure Idle (c : Circuit) (slot : Nat) : Prop where
  spent : slot < c.slotCount
  unwired : ∀ wire ∈ c.wires, slot ∉ wire
  unnamed : c.name slot = ""
  noFallback : c.fallback slot = ""
  unowned : ∀ i component, c.Live i component → ¬component.Owns slot

variable {c : Circuit} {slot : Nat}

theorem mem_retire_wires {old : Component} {wire : Sym2 Nat} :
    wire ∈ (c.retire old).wires ↔ wire ∈ c.wires ∧ ∀ slot ∈ wire, ¬old.Owns slot := by
  simp only [Circuit.retire, Multiset.mem_filter]

theorem Idle.retire (idle : c.Idle slot) (old : Component) : (c.retire old).Idle slot where
  spent := idle.spent
  unwired := fun wire member => idle.unwired wire (mem_retire_wires.mp member).1
  unnamed := by simp only [Circuit.retire, idle.unnamed, ite_self]
  noFallback := by simp only [Circuit.retire, idle.noFallback, ite_self]
  unowned := idle.unowned

theorem Idle.withComponents (idle : c.Idle slot) {slotCount : Nat} {components : List (Option Component)}
    (grows : c.slotCount ≤ slotCount)
    (unowned : ∀ (i : Nat) (component : Component),
      components[i]? = some (some component) → ¬component.Owns slot) :
    Idle { c with slotCount, components } slot :=
  ⟨lt_of_lt_of_le idle.spent grows, idle.unwired, idle.unnamed, idle.noFallback, unowned⟩

theorem Idle.not_owns_new (idle : c.Idle slot) (pinIds : List String) :
    ¬(Component.mk c.slotCount pinIds).Owns slot :=
  fun owns => absurd idle.spent (not_lt.mpr owns.1)

theorem Idle.step (idle : c.Idle slot) {op : Netlist.Op} (unnamed : ¬op.Names slot) :
    (c.step op).Idle slot := by
  cases op with
  | registerComponent i pinIds =>
    simp only [Circuit.step]
    split
    · exact idle
    · split
      · refine idle.withComponents (Nat.le_add_right _ _) fun j component found => ?_
        rcases List.mem_append.mp (List.mem_of_getElem? found) with old | new
        · obtain ⟨k, found⟩ := List.mem_iff_getElem?.mp old
          exact idle.unowned k component found
        · rw [Option.some.inj (List.mem_singleton.mp new)]
          exact idle.not_owns_new pinIds
      · exact idle.withComponents (Nat.le_add_right _ _) idle.unowned
  | removeComponent i =>
    simp only [Circuit.step]
    split
    · refine (idle.retire _).withComponents le_rfl fun j component found => ?_
      rcases List.mem_or_eq_of_mem_set (List.mem_of_getElem? found) with old | new
      · obtain ⟨k, found⟩ := List.mem_iff_getElem?.mp old
        exact idle.unowned k component found
      · cases new
    · exact idle
  | reregisterComponentPins i newPinIds =>
    simp only [Circuit.step]
    split
    · split
      · refine (idle.retire _).withComponents (Nat.le_add_right _ _) fun j component found => ?_
        rcases List.mem_or_eq_of_mem_set (List.mem_of_getElem? found) with old | new
        · obtain ⟨k, found⟩ := List.mem_iff_getElem?.mp old
          exact idle.unowned k component found
        · rw [Option.some.inj new]
          exact idle.not_owns_new newPinIds
      · exact idle.withComponents (Nat.le_add_right _ _) idle.unowned
    · exact idle
  | connectWire slotA slotB =>
    simp only [Circuit.step]
    split
    · refine { idle with unwired := fun wire member => ?_ }
      rcases Multiset.mem_cons.mp member with rfl | member
      · exact fun touches => unnamed (Sym2.mem_iff.mp touches)
      · exact idle.unwired wire member
    · exact idle
  | disconnectWire slotA slotB =>
    simp only [Circuit.step]
    split
    · exact { idle with unwired := fun wire member => idle.unwired wire (Multiset.mem_of_mem_erase member) }
    · exact idle
  | setTunnelName named newName =>
    simp only [Circuit.step]
    split
    · exact { idle with unnamed := (Function.update_of_ne unnamed _ _).trans idle.unnamed }
    · exact idle
  | setFallbackTunnelName named newName =>
    simp only [Circuit.step]
    split
    · exact { idle with noFallback := (Function.update_of_ne unnamed _ _).trans idle.noFallback }
    · exact idle

theorem Idle.run (idle : c.Idle slot) {ops : List Netlist.Op} (unnamed : ∀ op ∈ ops, ¬op.Names slot) :
    (c.run ops).Idle slot := by
  induction ops generalizing c with
  | nil => exact idle
  | cons op rest ih =>
    exact ih (idle.step (unnamed op List.mem_cons_self)) fun later member =>
      unnamed later (List.mem_cons_of_mem _ member)

theorem Idle.not_joins (idle : c.Idle slot) {a b : Nat} (joins : c.Joins a b) : slot ≠ a ∧ slot ≠ b := by
  cases joins with
  | wire laid =>
    exact ⟨fun same => idle.unwired _ laid (same ▸ Sym2.mem_mk_left _ _),
      fun same => idle.unwired _ laid (same ▸ Sym2.mem_mk_right _ _)⟩
  | tunnel named same =>
    exact ⟨fun eq => named (eq ▸ idle.unnamed), fun eq => named (same.trans (eq ▸ idle.unnamed))⟩
  | fallback _ named same =>
    exact ⟨fun eq => named (same.symm.trans (eq ▸ idle.noFallback)), fun eq => named (eq ▸ idle.unnamed)⟩

/-- The edit retires the pins of component `i`: it removes the component or replaces its pins. -/
def Retires (i : Nat) (op : Netlist.Op) : Prop :=
  op = .removeComponent i ∨ ∃ newPinIds, op = .reregisterComponentPins i newPinIds

/-- A pin is idle once its component is removed or has its pins replaced. -/
theorem idle_of_retires {net : Netlist} (rep : Represents net c) {i : Nat} {old : Component}
    {op : Netlist.Op} (live : c.Live i old) (owns : old.Owns slot) (retires : Retires i op)
    (accepted : c.Accepts op) : (c.step op).Idle slot := by
  have spent : slot < c.slotCount := lt_of_lt_of_le owns.2 (rep.fits i old live)
  have others : ∀ j component, j ≠ i → c.Live j component → ¬component.Owns slot := by
    intro j component ne other owns'
    have owner := (rep.owned i old slot live owns).1
    rw [(rep.owned j component slot other owns').1] at owner
    exact ne (Option.some.inj owner)
  have unwired : ∀ wire ∈ (c.retire old).wires, slot ∉ wire := fun wire member touches =>
    (mem_retire_wires.mp member).2 slot touches owns
  have unnamed : (c.retire old).name slot = "" := if_pos owns
  have noFallback : (c.retire old).fallback slot = "" := if_pos owns
  have found : c.components[i]? = some (some old) := live
  rcases retires with rfl | ⟨newPinIds, rfl⟩
  · simp only [Circuit.step, found]
    refine ⟨spent, unwired, unnamed, noFallback, fun j component member => ?_⟩
    simp only [Live, List.getElem?_set] at member
    by_cases same : i = j
    · rw [if_pos same] at member
      split at member <;> cases member
    · rw [if_neg same] at member
      exact others j component (Ne.symm same) member
  · simp only [Circuit.step, found, accepted ⟨old, live⟩, if_true]
    refine ⟨lt_of_lt_of_le spent (Nat.le_add_right _ _), unwired, unnamed, noFallback,
      fun j component member => ?_⟩
    simp only [Live, List.getElem?_set] at member
    by_cases same : i = j
    · rw [if_pos same] at member
      split at member
      · rw [← Option.some.inj (Option.some.inj member)]
        exact fun fresh => absurd spent (not_lt.mpr fresh.1)
      · cases member
    · rw [if_neg same] at member
      exact others j component (Ne.symm same) member

/-- The slot was a pin that the history retired and did not name again. -/
def Retired (history : List Netlist.Op) (slot : Nat) : Prop :=
  ∃ before op after i old, history = before ++ op :: after ∧ (Circuit.run {} before).Live i old ∧
    old.Owns slot ∧ Retires i op ∧ ∀ later ∈ after, ¬later.Names slot

theorem run_append (c : Circuit) (before after : List Netlist.Op) :
    c.run (before ++ after) = (c.run before).run after := by
  induction before generalizing c with
  | nil => rfl
  | cons op rest ih => exact ih (c.step op)

theorem acceptsAll_append {before after : List Netlist.Op} :
    c.AcceptsAll (before ++ after) ↔ c.AcceptsAll before ∧ (c.run before).AcceptsAll after := by
  induction before generalizing c with
  | nil => simp [AcceptsAll, run]
  | cons op rest ih => simp only [List.cons_append, AcceptsAll, run, ih, and_assoc]

theorem idle_of_retired {history : Netlist.History} (accepted : Circuit.AcceptsAll {} (history.map (·.2)))
    (retired : Retired (history.map (·.2)) slot) : (Circuit.run {} (history.map (·.2))).Idle slot := by
  obtain ⟨before, op, after, i, old, split, live, owns, retires, unnamed⟩ := retired
  obtain ⟨first, rest, rfl, rfl, last⟩ := List.map_eq_append_iff.mp split
  rw [List.map_append, last] at accepted ⊢
  obtain ⟨acceptedBefore, acceptedOp, _⟩ := acceptsAll_append.mp accepted
  rw [run_append]
  have rep := represents_empty.run acceptedBefore
  exact (idle_of_retires rep live owns retires acceptedOp).run unnamed

end Circuit

/-- The node of an idle slot holds no other slot, and its group no other node. -/
theorem Exact.isolated {c : Circuit} {t : Topology} (exact_ : Exact c t) {slot : Nat} (idle : c.Idle slot) :
    (∀ other, other < c.slotCount → t.slotToNode[slot]? = t.slotToNode[other]? → slot = other) ∧
      ∀ node other, t.slotToNode[slot]? = some node → other ∈ t.slotToNode →
        t.SameGroup node other → node = other := by
  have alone : ∀ other, other < c.slotCount → t.slotToNode[slot]? = t.slotToNode[other]? → slot = other :=
    fun other bound same => Lib.Closure.eqvGen_eq_of_isolated (fun _ _ joins => idle.not_joins joins)
      ((exact_.node_iff slot other idle.spent bound).mp same)
  refine ⟨alone, fun node other found member same => ?_⟩
  refine Lib.Closure.eqvGen_eq_of_isolated ?_
    ((exact_.group_iff node other (List.mem_of_getElem? found) member).mp same)
  have unshared : ∀ s component i, c.Live i component → component.Owns s →
      t.slotToNode[s]? ≠ some node := by
    intro s component i live owns foundS
    have bound := exact_.slots ▸ (List.getElem?_eq_some_iff.mp foundS).1
    obtain rfl := alone s bound (found.trans foundS.symm)
    exact idle.unowned i component live owns
  rintro x y ⟨i, component, live, ⟨u, hu, foundU⟩, ⟨v, hv, foundV⟩⟩
  exact ⟨fun eq => unshared u component i live hu (eq ▸ foundU),
    fun eq => unshared v component i live hv (eq ▸ foundV)⟩

/-- After every accepted history the rebuilt topology is exact and retired pins are isolated. -/
theorem connectivity_exact (history : Netlist.History) (order : HashOrder)
    (extraVarCountByComponent : List Nat) (accepted : Circuit.AcceptsAll {} (history.map (·.2))) :
    ∃ t, (Netlist.run {} history).rebuildTopology order extraVarCountByComponent = .ok t ∧
      Exact (Circuit.run {} (history.map (·.2))) t ∧
        ∀ slot, Circuit.Retired (history.map (·.2)) slot →
          (∀ other, other < t.slotToNode.length → t.slotToNode[slot]? = t.slotToNode[other]? →
            slot = other) ∧
          ∀ node other, t.slotToNode[slot]? = some node → other ∈ t.slotToNode →
            t.SameGroup node other → node = other := by
  obtain ⟨t, run, exact_⟩ := (represents_empty.run accepted).rebuildTopology_ok order
    extraVarCountByComponent
  refine ⟨t, run, exact_, fun slot retired => ?_⟩
  rw [exact_.slots]
  exact exact_.isolated (Circuit.idle_of_retired accepted retired)

/-- Two components on one wire, one of which then gets another set of pins. -/
def repinnedPair : Netlist.History :=
  [(.stored, .registerComponent 0 ["p", "n"]), (.stored, .registerComponent 1 ["in"]),
    (.stored, .connectWire 1 2), (.stored, .reregisterComponentPins 1 ["in", "out"])]

theorem connectivity_exact_repinnedPair : ∃ t,
    (Netlist.run {} repinnedPair).rebuildTopology .stored [1, 0] = .ok t ∧ t.slotToNode = [0, 1, 2, 3, 4] := by
  obtain ⟨t, run, _⟩ := connectivity_exact repinnedPair .stored [1, 0]
    ⟨fun _ => by decide, fun _ => by decide, trivial, fun _ => by decide, trivial⟩
  have computed : (Except.ok t.slotToNode : Except Exception _) = .ok [0, 1, 2, 3, 4] :=
    (congrArg (Except.map Topology.slotToNode) run).symm.trans (by decide)
  exact ⟨t, run, Except.ok.inj computed⟩

/-- A registration that throws on a repeated pin id, then the same component with a good list. -/
def retriedRegistration : Netlist.History :=
  [(.stored, .registerComponent 0 ["a", "a"]), (.stored, .registerComponent 0 ["a"])]

/-- The failed call left an offset behind, so the pin of the component is listed as its pin 1. -/
theorem retriedRegistration_not_exact :
    ¬∀ (history : Netlist.History) (order : HashOrder) (extraVarCountByComponent : List Nat),
      ∃ t, (Netlist.run {} history).rebuildTopology order extraVarCountByComponent = .ok t ∧
        Exact (Circuit.run {} (history.map (·.2))) t := by
  intro claim
  obtain ⟨t, run, exact_⟩ := claim retriedRegistration .stored []
  have refs : t.pinRefsByNode = [[⟨0, 0⟩], [⟨0, 1⟩]] := by
    have computed : (Except.ok t.pinRefsByNode : Except Exception _) = .ok [[⟨0, 0⟩], [⟨0, 1⟩]] :=
      (congrArg (Except.map Topology.pinRefsByNode) run).symm.trans (by decide)
    exact Except.ok.inj computed
  have live : (Circuit.run {} (retriedRegistration.map (·.2))).Live 0 ⟨1, ["a"]⟩ := by
    simp [retriedRegistration, Circuit.run, Circuit.step, Circuit.Live, ValidPins, spentSlots]
  obtain ⟨component, alive, position, _⟩ := exact_.pin_live 1 [⟨0, 1⟩] ⟨0, 1⟩ (by rw [refs]; rfl)
    List.mem_cons_self
  obtain rfl : component = ⟨1, ["a"]⟩ := Option.some.inj (Option.some.inj (alive.symm.trans live))
  exact absurd position (by decide)

end LasecSimul.Wiring
