import LasecSimul.Dsl.Document
import LasecSimul.Lib.Components
import LasecSimul.Lib.OrderedMap
import Mathlib.Data.Sym.Sym2

/-!
# The Core's wires

The drawing joins ports by wires and topology nodes. `electricalEdgesForProject` flattens every net into a star of
port pairs, and `diffElectricalEdges` compares two flattened drawings by a text for each pair.
-/

namespace LasecSimul.Drawing

open Dsl (Text units quote natText CanonicalEndpoint TopologyNode WebviewWireModel)
open Lib
open Lib.Closure hiding Joined
open Lib.Components

def endpointId : CanonicalEndpoint → Text
  | .node nodeId => nodeId
  | .port componentId _ => componentId

def endpointPinId : CanonicalEndpoint → Text
  | .node _ => units "pin-1"
  | .port _ pinId => pinId

def isPort : CanonicalEndpoint → Bool
  | .port _ _ => true
  | .node _ => false

/-- The ends that some wire has. -/
def Mentioned (wires : List WebviewWireModel) (endpoint : CanonicalEndpoint) : Prop :=
  ∃ wire ∈ wires, endpoint = wire.fromEnd ∨ endpoint = wire.toEnd

/-- A wire without corners. -/
def plainWire (id : Text) (fromEnd toEnd : CanonicalEndpoint) : WebviewWireModel where
  id := id
  fromEnd := fromEnd
  toEnd := toEnd
  points := none
  lineClass := none
  isHidden := none

/-- Wires connect their two ends. -/
def Connected (wires : List WebviewWireModel) : CanonicalEndpoint → CanonicalEndpoint → Prop :=
  Closure.Joined (wires.map fun wire => (wire.fromEnd, wire.toEnd))

structure ElectricalProject where
  wires : List WebviewWireModel
  topologyNodes : List TopologyNode

/-- `JSON.stringify` keeps the two ids of a port apart. -/
def keyOf : CanonicalEndpoint → Text
  | .node nodeId => units "n:" ++ nodeId
  | .port componentId pinId => units "p:[" ++ (quote componentId ++ units "," ++ quote pinId ++ units "]")

structure ElectricalGraph where
  vertices : OrderedMap Text CanonicalEndpoint
  adjacency : OrderedMap Text (List Text)

def add (set : List Text) (key : Text) : List Text := if key ∈ set then set else set ++ [key]

def neighbours (adjacency : OrderedMap Text (List Text)) (key : Text) : List Text := (adjacency.get key).getD []

def link (adjacency : OrderedMap Text (List Text)) (a b : Text) : OrderedMap Text (List Text) :=
  adjacency.set a (add (neighbours adjacency a) b)

def addWire (graph : ElectricalGraph) (wire : WebviewWireModel) : ElectricalGraph where
  vertices := (graph.vertices.set (keyOf wire.fromEnd) wire.fromEnd).set (keyOf wire.toEnd) wire.toEnd
  adjacency := link (link graph.adjacency (keyOf wire.fromEnd) (keyOf wire.toEnd)) (keyOf wire.toEnd) (keyOf wire.fromEnd)

def electricalGraph (wires : List WebviewWireModel) : ElectricalGraph := wires.foldl addWire ⟨.empty, .empty⟩

/-- The ports of each net, in the order of the search. -/
def portsOfNets (wires : List WebviewWireModel) : List (List CanonicalEndpoint) :=
  let graph := electricalGraph wires
  let groups := components (neighbours graph.adjacency) graph.vertices.keys.length [] graph.vertices.keys
  groups.map fun group => (group.filterMap graph.vertices.get).filter isPort

def electricalEdge (edgeIndex : Nat) (pair : CanonicalEndpoint × CanonicalEndpoint) : WebviewWireModel :=
  plainWire (units "electrical-" ++ natText edgeIndex) pair.1 pair.2

def electricalEdgesForProject (project : ElectricalProject) : List WebviewWireModel :=
  ((portsOfNets project.wires).flatMap spokes).mapIdx electricalEdge

def edgeKey (a b : CanonicalEndpoint) : Text :=
  let a := endpointId a ++ units "::" ++ endpointPinId a
  let b := endpointId b ++ units "::" ++ endpointPinId b
  if a < b then a ++ units "|" ++ b else b ++ units "|" ++ a

def electricalEdgeKey (wire : WebviewWireModel) : Text := edgeKey wire.fromEnd wire.toEnd

def byKey (wires : List WebviewWireModel) : OrderedMap Text WebviewWireModel :=
  .ofList (wires.map fun wire => (electricalEdgeKey wire, wire))

structure EdgeDiff where
  connect : List WebviewWireModel
  disconnect : List WebviewWireModel

/-- The wires whose key the other map does not have. -/
def only (these others : OrderedMap Text WebviewWireModel) : List WebviewWireModel :=
  (these.entries.filter fun entry => !others.has entry.1).map Prod.snd

def diffElectricalEdges (before after : List WebviewWireModel) : EdgeDiff where
  connect := only (byKey after) (byKey before)
  disconnect := only (byKey before) (byKey after)

inductive OperationKind where
  | connect
  | disconnect

structure Operation where
  kind : OperationKind
  wire : WebviewWireModel

def electricalOperationsDiff (before after : ElectricalProject) : List Operation :=
  let edgeDiff := diffElectricalEdges (electricalEdgesForProject before) (electricalEdgesForProject after)
  edgeDiff.disconnect.map (⟨.disconnect, ·⟩) ++ edgeDiff.connect.map (⟨.connect, ·⟩)

/-- The unordered port pair of an edge. -/
def pairOf (wire : WebviewWireModel) : Sym2 CanonicalEndpoint := s(wire.fromEnd, wire.toEnd)

def pairsOf (wires : List WebviewWireModel) : Set (Sym2 CanonicalEndpoint) := {pair | ∃ wire ∈ wires, pairOf wire = pair}

def applyOperation (core : Set (Sym2 CanonicalEndpoint)) (operation : Operation) : Set (Sym2 CanonicalEndpoint) :=
  match operation.kind with
  | .connect => insert (pairOf operation.wire) core
  | .disconnect => core \ {pairOf operation.wire}

def applyOperations (core : Set (Sym2 CanonicalEndpoint)) (operations : List Operation) :
    Set (Sym2 CanonicalEndpoint) :=
  operations.foldl applyOperation core

end LasecSimul.Drawing

/-!
## The flattened drawing

The search runs over the texts of the endpoints, which tell endpoints apart. Its groups are the nets, so the stars of
their ports join what the wires join, with one edge less than ports in every net.
-/

namespace LasecSimul.Drawing

open Relation
open Dsl (Text CodeUnit units quote quoteUnits CanonicalEndpoint WebviewWireModel)
open Lib
open Lib.Closure hiding Joined
open Lib.Components

variable {wires : List WebviewWireModel} {wire : WebviewWireModel} {a b : CanonicalEndpoint}

theorem quote_append_inj {text text' rest rest' : Text} (same : quote text ++ rest = quote text' ++ rest') :
    text = text' ∧ rest = rest' := by
  have both := congrArg Dsl.matchString same
  rw [Dsl.matchString_quote, Dsl.matchString_quote] at both
  obtain ⟨quoted, rest⟩ := Prod.mk.inj (Option.some.inj both)
  have unquoted := congrArg Dsl.unquote quoted
  rw [Dsl.unquote_quote, Dsl.unquote_quote] at unquoted
  exact ⟨Option.some.inj unquoted, rest⟩

theorem keyOf_injective : Function.Injective keyOf := by
  intro a b same
  cases a with
  | node a =>
    cases b with
    | node b => exact congrArg _ (List.append_cancel_left same)
    | port c p => exact absurd (Option.some.inj (congrArg List.head? same)) (by decide)
  | port c p =>
    cases b with
    | node b => exact absurd (Option.some.inj (congrArg List.head? same)) (by decide)
    | port c' p' =>
      have inner : quote c ++ units "," ++ quote p ++ units "]" = quote c' ++ units "," ++ quote p' ++ units "]" :=
        List.append_cancel_left same
      simp only [List.append_assoc] at inner
      obtain ⟨rfl, rest⟩ := quote_append_inj inner
      obtain ⟨rfl, _⟩ := quote_append_inj (List.append_cancel_left rest)
      rfl

theorem mem_add {set : List Text} {key x : Text} : x ∈ add set key ↔ x ∈ set ∨ x = key := by
  unfold add
  split
  · next inside =>
    constructor
    · exact .inl
    · rintro (member | rfl)
      · exact member
      · exact inside
  · rw [List.mem_append, List.mem_singleton]

theorem mem_neighbours_link {adjacency : OrderedMap Text (List Text)} {p q x y : Text} :
    y ∈ neighbours (link adjacency p q) x ↔ y ∈ neighbours adjacency x ∨ (x = p ∧ y = q) := by
  unfold link
  by_cases same : x = p
  · subst same
    rw [show neighbours (adjacency.set x _) x = _ from congrArg (Option.getD · []) OrderedMap.get_set_self]
    exact mem_add.trans (or_congr_right (by simp))
  · rw [show neighbours (adjacency.set p _) x = neighbours adjacency x from
      congrArg (Option.getD · []) (OrderedMap.get_set_of_ne same)]
    simp [same]

theorem electricalGraph_concat : electricalGraph (wires ++ [wire]) = addWire (electricalGraph wires) wire :=
  List.foldl_concat ..

theorem mem_neighbours_graph {x y : Text} : y ∈ neighbours (electricalGraph wires).adjacency x ↔
    ∃ wire ∈ wires, (x = keyOf wire.fromEnd ∧ y = keyOf wire.toEnd) ∨ (x = keyOf wire.toEnd ∧ y = keyOf wire.fromEnd) := by
  induction wires using List.reverseRecOn with
  | nil => simp [electricalGraph, neighbours]
  | append_singleton wires wire ih =>
    rw [electricalGraph_concat]
    unfold addWire
    rw [mem_neighbours_link, mem_neighbours_link, ih, or_assoc]
    simp only [List.mem_append, List.mem_singleton, or_and_right, exists_or, exists_eq_left]

theorem get_vertices {key : Text} : (electricalGraph wires).vertices.get key = some a ↔ key = keyOf a ∧ Mentioned wires a := by
  induction wires using List.reverseRecOn with
  | nil => simp [electricalGraph, Mentioned]
  | append_singleton wires wire ih =>
    rw [electricalGraph_concat]
    unfold addWire
    have mentioned : Mentioned (wires ++ [wire]) a ↔ Mentioned wires a ∨ a = wire.fromEnd ∨ a = wire.toEnd := by
      simp only [Mentioned, List.mem_append, List.mem_singleton, or_and_right, exists_or, exists_eq_left]
    have named : ∀ end', key = keyOf end' → (key = keyOf a ↔ a = end') := by
      rintro end' rfl
      exact ⟨fun same => (keyOf_injective same).symm, fun same => same ▸ rfl⟩
    rw [mentioned, OrderedMap.get_set, OrderedMap.get_set]
    by_cases last : key = keyOf wire.toEnd
    · rw [if_pos last, named _ last, Option.some_inj, eq_comm]
      exact ⟨fun same => ⟨same, .inr (.inr same)⟩, And.left⟩
    · rw [if_neg last]
      by_cases first : key = keyOf wire.fromEnd
      · rw [if_pos first, named _ first, Option.some_inj, eq_comm]
        exact ⟨fun same => ⟨same, .inr (.inl same)⟩, And.left⟩
      · rw [if_neg first, ih]
        refine and_congr_right fun same => ⟨.inl, ?_⟩
        rintro (old | rfl | rfl)
        · exact old
        · exact absurd same first
        · exact absurd same last

theorem mem_vertices {key : Text} : key ∈ (electricalGraph wires).vertices.keys ↔ ∃ a, key = keyOf a ∧ Mentioned wires a := by
  rw [OrderedMap.mem_keys_iff]
  exact exists_congr fun _ => get_vertices

theorem graph_graph : Graph (neighbours (electricalGraph wires).adjacency) (electricalGraph wires).vertices.keys where
  symm := by
    intro x y next
    obtain ⟨wire, member, forth | back⟩ := mem_neighbours_graph.mp next
    · exact mem_neighbours_graph.mpr ⟨wire, member, .inr ⟨forth.2, forth.1⟩⟩
    · exact mem_neighbours_graph.mpr ⟨wire, member, .inl ⟨back.2, back.1⟩⟩
  inside := by
    intro x y next
    obtain ⟨wire, member, forth | back⟩ := mem_neighbours_graph.mp next
    · exact mem_vertices.mpr ⟨_, forth.2, wire, member, .inr rfl⟩
    · exact mem_vertices.mpr ⟨_, back.2, wire, member, .inl rfl⟩

theorem linked_iff : Linked (neighbours (electricalGraph wires).adjacency) (keyOf a) (keyOf b) ↔ Connected wires a b := by
  unfold Linked Connected Closure.Joined
  refine eqvGen_map_iff keyOf_injective (fun a b pair => ?_) fun x y next => ?_
  · obtain ⟨wire, member, same⟩ := List.mem_map.mp pair
    obtain ⟨rfl, rfl⟩ := Prod.mk.inj same
    exact .rel _ _ (mem_neighbours_graph.mpr ⟨wire, member, .inl ⟨rfl, rfl⟩⟩)
  · obtain ⟨wire, member, ⟨rfl, rfl⟩ | ⟨rfl, rfl⟩⟩ := mem_neighbours_graph.mp next
    · exact ⟨_, _, rfl, rfl, .rel _ _ (List.mem_map.mpr ⟨wire, member, rfl⟩)⟩
    · exact ⟨_, _, rfl, rfl, .symm _ _ (.rel _ _ (List.mem_map.mpr ⟨wire, member, rfl⟩))⟩

theorem Connected.mentioned (connected : Connected wires a b) : a = b ∨ (Mentioned wires a ∧ Mentioned wires b) := by
  induction connected with
  | rel a b pair =>
    obtain ⟨wire, member, same⟩ := List.mem_map.mp pair
    obtain ⟨rfl, rfl⟩ := Prod.mk.inj same
    exact .inr ⟨⟨wire, member, .inl rfl⟩, wire, member, .inr rfl⟩
  | refl a => exact .inl rfl
  | symm a b _ ih => exact ih.imp Eq.symm And.symm
  | trans a b c _ _ ih ih' =>
    rcases ih with rfl | ⟨ha, hb⟩
    · exact ih'
    · rcases ih' with rfl | ⟨_, hc⟩
      · exact .inr ⟨ha, hb⟩
      · exact .inr ⟨ha, hc⟩

/-- The groups hold every port once, and the ports of a group are those of one net. -/
structure PortsOfNets (wires : List WebviewWireModel) (groups : List (List CanonicalEndpoint)) : Prop where
  nodup : groups.flatten.Nodup
  mem : ∀ a, a ∈ groups.flatten ↔ isPort a = true ∧ Mentioned wires a
  net : ∀ a ∈ groups.flatten, ∀ b ∈ groups.flatten, Connected wires a b ↔ ∃ group ∈ groups, a ∈ group ∧ b ∈ group

theorem portsOfNets_spec (wires : List WebviewWireModel) : PortsOfNets wires (portsOfNets wires) := by
  have partition := components_partition graph_graph (Nat.le_refl (electricalGraph wires).vertices.keys.length)
    (fun _ member => absurd member List.not_mem_nil) (electricalGraph wires).vertices.keys fun _ member => member
  unfold portsOfNets
  dsimp only
  generalize components (neighbours (electricalGraph wires).adjacency) _ _ _ = groups at partition
  obtain ⟨nodup, mem, linked⟩ := partition
  have inGroup : ∀ {group : List Text} {a}, a ∈ (group.filterMap (electricalGraph wires).vertices.get).filter isPort ↔
      keyOf a ∈ group ∧ isPort a = true ∧ Mentioned wires a := by
    intro group a
    rw [List.mem_filter, List.mem_filterMap]
    constructor
    · rintro ⟨⟨key, member, found⟩, port⟩
      obtain ⟨rfl, mentioned⟩ := get_vertices.mp found
      exact ⟨member, port, mentioned⟩
    · rintro ⟨member, port, mentioned⟩
      exact ⟨⟨_, member, get_vertices.mpr ⟨rfl, mentioned⟩⟩, port⟩
  have every : ∀ a, a ∈ (groups.map fun group => (group.filterMap (electricalGraph wires).vertices.get).filter isPort).flatten ↔
      isPort a = true ∧ Mentioned wires a := by
    intro a
    rw [List.mem_flatten]
    constructor
    · rintro ⟨_, listed, member⟩
      obtain ⟨group, _, rfl⟩ := List.mem_map.mp listed
      exact (inGroup.mp member).2
    · rintro ⟨port, mentioned⟩
      have visited : keyOf a ∈ groups.flatten :=
        (mem _).mpr ⟨List.not_mem_nil, _, mem_vertices.mpr ⟨a, rfl, mentioned⟩, .refl _⟩
      obtain ⟨group, listed, member⟩ := List.mem_flatten.mp visited
      exact ⟨_, List.mem_map.mpr ⟨group, listed, rfl⟩, inGroup.mpr ⟨member, port, mentioned⟩⟩
  refine ⟨?_, every, fun a ha b hb => ?_⟩
  · have flat : ∀ groups : List (List Text),
        (groups.map fun group => (group.filterMap (electricalGraph wires).vertices.get).filter isPort).flatten =
          (groups.flatten.filterMap (electricalGraph wires).vertices.get).filter isPort := by
      intro groups
      induction groups with
      | nil => rfl
      | cons group groups ih =>
        rw [List.map_cons, List.flatten_cons, ih, List.flatten_cons, List.filterMap_append, List.filter_append]
    rw [flat]
    refine (nodup.filterMap fun x y a hx hy => ?_).filter _
    rw [(get_vertices.mp hx).1, (get_vertices.mp hy).1]
  · obtain ⟨portA, mentionedA⟩ := (every a).mp ha
    obtain ⟨portB, mentionedB⟩ := (every b).mp hb
    rw [← linked_iff]
    constructor
    · intro link
      have visited : keyOf a ∈ groups.flatten :=
        (mem _).mpr ⟨List.not_mem_nil, _, mem_vertices.mpr ⟨a, rfl, mentionedA⟩, .refl _⟩
      obtain ⟨group, listed, member⟩ := List.mem_flatten.mp visited
      obtain ⟨start, _, joins⟩ := linked group listed
      have memberB : keyOf b ∈ group := (joins _).mpr (.trans _ _ _ ((joins _).mp member) link)
      exact ⟨_, List.mem_map.mpr ⟨group, listed, rfl⟩, inGroup.mpr ⟨member, portA, mentionedA⟩,
        inGroup.mpr ⟨memberB, portB, mentionedB⟩⟩
    · rintro ⟨_, listed, memberA, memberB⟩
      obtain ⟨group, visited, rfl⟩ := List.mem_map.mp listed
      obtain ⟨start, _, joins⟩ := linked group visited
      exact .trans _ _ _ (.symm _ _ ((joins _).mp (inGroup.mp memberA).1)) ((joins _).mp (inGroup.mp memberB).1)

/-- The ports that some wire has as an end. -/
def portsOf (wires : List WebviewWireModel) : Set CanonicalEndpoint := {a | isPort a = true ∧ Mentioned wires a}

/-- The nets that contain a port. -/
def netsOf (wires : List WebviewWireModel) : Set (Set CanonicalEndpoint) :=
  {net | ∃ port ∈ portsOf wires, net = {endpoint | Connected wires port endpoint}}

theorem edges_pairs (project : ElectricalProject) :
    ((electricalEdgesForProject project).map fun wire => (wire.fromEnd, wire.toEnd)) =
      (portsOfNets project.wires).flatMap spokes := by
  unfold electricalEdgesForProject
  refine List.ext_getElem? fun i => ?_
  rw [List.getElem?_map, List.getElem?_mapIdx, Option.map_map]
  exact congrFun Option.map_id _

theorem edges_join (project : ElectricalProject) (portA : isPort a = true) (portB : isPort b = true) :
    Connected (electricalEdgesForProject project) a b ↔ Connected project.wires a b := by
  have spec := portsOfNets_spec project.wires
  unfold Connected
  rw [edges_pairs, joined_stars spec.nodup]
  constructor
  · rintro (rfl | ⟨group, listed, ha, hb⟩)
    · exact .refl _
    · have flat : ∀ c ∈ group, c ∈ (portsOfNets project.wires).flatten := fun c member =>
        List.mem_flatten.mpr ⟨group, listed, member⟩
      exact (spec.net a (flat a ha) b (flat b hb)).mpr ⟨group, listed, ha, hb⟩
  · intro connected
    rcases Connected.mentioned connected with same | ⟨mentionedA, mentionedB⟩
    · exact .inl same
    · exact .inr ((spec.net a ((spec.mem a).mpr ⟨portA, mentionedA⟩) b ((spec.mem b).mpr ⟨portB, mentionedB⟩)).mp connected)

theorem connected_equivalence (wires : List WebviewWireModel) : Equivalence (Connected wires) :=
  ⟨Closure.Joined.refl, Closure.Joined.symm, Closure.Joined.trans⟩

/-- One edge less than ports in every net that contains a port. -/
theorem edges_count (project : ElectricalProject) :
    (electricalEdgesForProject project).length + (netsOf project.wires).ncard = (portsOf project.wires).ncard := by
  have spec := portsOfNets_spec project.wires
  let groups := (portsOfNets project.wires).filter fun group => !group.isEmpty
  have flat : groups.flatten = (portsOfNets project.wires).flatten := List.flatten_filter_not_isEmpty
  have nonempty : ∀ group ∈ groups, group ≠ [] := fun group member => by simpa using (List.mem_filter.mp member).2
  have kept : ∀ group a, a ∈ group → (group ∈ groups ↔ group ∈ portsOfNets project.wires) := by
    intro group a inside
    have filled : group ≠ [] := List.ne_nil_of_mem inside
    exact ⟨fun member => (List.mem_filter.mp member).1, fun member => List.mem_filter.mpr ⟨member, by simpa using filled⟩⟩
  have edges : (electricalEdgesForProject project).length = (groups.flatMap spokes).length := by
    rw [← List.length_map (fun wire : WebviewWireModel => (wire.fromEnd, wire.toEnd)), edges_pairs]
    exact congrArg List.length (flatMap_spokes_filter _).symm
  have nets : netsOf project.wires = {net | ∃ a ∈ groups.flatten, net = {b | Connected project.wires a b}} := by
    unfold netsOf portsOf
    rw [flat]
    simp only [spec.mem, Set.mem_ofPred_eq]
  have classes : (netsOf project.wires).ncard = groups.length := by
    rw [nets]
    refine ncard_classes (connected_equivalence _) nonempty (flat ▸ spec.nodup) fun a ha b hb => ?_
    rw [spec.net a (flat ▸ ha) b (flat ▸ hb)]
    exact exists_congr fun group => and_congr_left fun both => (kept group a both.1).symm
  have ports : portsOf project.wires = ((portsOfNets project.wires).flatten.toFinset : Set CanonicalEndpoint) := by
    ext a
    rw [List.coe_toFinset]
    exact (spec.mem a).symm
  rw [edges, classes, length_stars nonempty, flat, ports, Set.ncard_coe_finset, List.toFinset_card_of_nodup spec.nodup]

end LasecSimul.Drawing
