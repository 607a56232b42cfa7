import LasecSimul.Drawing.Topology

/-!
# Loading a drawing

Removing an orphan node and joining two wires at a node leave the ports joined as they were. Merging coincident nodes
does not: a wire at a merged node is cut, because its ends are checked before they are redirected.
-/

namespace LasecSimul.Drawing

open Relation
open Dsl (Text units CanonicalEndpoint TopologyNode WebviewComponentModel WebviewWireModel)
open Lib
open Lib.Closure hiding Joined

variable {Others : Type} {symbols : Symbols Others} {components : List (WebviewComponentModel Others)}
  {wires : List WebviewWireModel} {sweep : Sweep} {a b : CanonicalEndpoint}

def ends (wire : WebviewWireModel) : CanonicalEndpoint × CanonicalEndpoint := (wire.fromEnd, wire.toEnd)

/-! ### Sweeps -/

/-- Wires have distinct ids, and their ports belong to no node. -/
structure Sound (sweep : Sweep) : Prop where
  ids : (sweep.wires.map WebviewWireModel.id).Nodup
  apart : ∀ wire ∈ sweep.wires, ∀ endpoint, endpoint = wire.fromEnd ∨ endpoint = wire.toEnd → isPort endpoint = true →
    endpointId endpoint ∉ sweep.nodes.map TopologyNode.id

/-- The ports are joined as before. -/
structure Keeps (before after : Sweep) : Prop where
  sound : Sound after
  ports : ∀ a b, isPort a = true → isPort b = true → (Connected after.wires a b ↔ Connected before.wires a b)

theorem Keeps.refl (sound : Sound sweep) : Keeps sweep sweep := ⟨sound, fun _ _ _ _ => .rfl⟩

theorem Keeps.trans {first second third : Sweep} (keeps : Keeps first second) (keeps' : Keeps second third) :
    Keeps first third :=
  ⟨keeps'.sound, fun a b portA portB => (keeps'.ports a b portA portB).trans (keeps.ports a b portA portB)⟩

theorem endpoint_cases (endpoint : CanonicalEndpoint) :
    isPort endpoint = true ∨ endpoint = .node (endpointId endpoint) := by
  cases endpoint with
  | port c p => exact .inl rfl
  | node id => exact .inr rfl

theorem isPort_ne_node {id : Text} (port : isPort a = true) : a ≠ .node id := by
  rintro rfl
  cases port

/-- Only a wire with an end at the node touches it. -/
theorem Sound.touches_iff (sound : Sound sweep) {wire : WebviewWireModel} (member : wire ∈ sweep.wires) {nodeId : Text}
    (known : nodeId ∈ sweep.nodes.map TopologyNode.id) :
    touches nodeId wire = true ↔ wire.fromEnd = .node nodeId ∨ wire.toEnd = .node nodeId := by
  have exact : ∀ endpoint, endpoint = wire.fromEnd ∨ endpoint = wire.toEnd →
      (endpointId endpoint = nodeId ↔ endpoint = .node nodeId) := by
    intro endpoint place
    constructor
    · rintro rfl
      exact (endpoint_cases endpoint).resolve_left fun port => sound.apart wire member endpoint place port known
    · rintro rfl
      rfl
  unfold touches
  rw [decide_eq_true_iff, exact _ (.inl rfl), exact _ (.inr rfl)]

theorem eq_of_id (ids : (wires.map WebviewWireModel.id).Nodup) {wire wire' : WebviewWireModel} (member : wire ∈ wires)
    (member' : wire' ∈ wires) (same : wire.id = wire'.id) : wire = wire' :=
  List.inj_on_of_nodup_map ids member member' same

theorem mem_removeNode {nodes : List TopologyNode} {nodeId id : Text}
    (member : id ∈ (removeNode nodes nodeId).map TopologyNode.id) : id ∈ nodes.map TopologyNode.id := by
  obtain ⟨node, kept, rfl⟩ := List.mem_map.mp member
  exact List.mem_map.mpr ⟨node, (List.mem_filter.mp kept).1, rfl⟩

/-- The other end of a wire at a node. -/
def outerEnd (nodeId : Text) (wire : WebviewWireModel) : CanonicalEndpoint :=
  if endpointId wire.toEnd = nodeId then wire.fromEnd else wire.toEnd

/-- A wire at a node runs between the node and its outer end. -/
theorem Sound.outerEnd (sound : Sound sweep) {wire : WebviewWireModel} (member : wire ∈ sweep.wires) {nodeId : Text}
    (known : nodeId ∈ sweep.nodes.map TopologyNode.id) (touching : touches nodeId wire = true) :
    ends wire = (outerEnd nodeId wire, .node nodeId) ∨ ends wire = (.node nodeId, outerEnd nodeId wire) := by
  have placed := (sound.touches_iff member known).mp touching
  unfold Drawing.outerEnd ends
  by_cases last : endpointId wire.toEnd = nodeId
  · rw [if_pos last]
    rcases endpoint_cases wire.toEnd with port | node
    · exact absurd (last ▸ known) (sound.apart wire member _ (.inr rfl) port)
    · exact .inl (by rw [← last, ← node])
  · rw [if_neg last]
    rcases placed with first | second
    · exact .inr (by rw [first])
    · exact absurd (by rw [second]; rfl) last

theorem mem_ends {wire : WebviewWireModel} (member : wire ∈ wires) : ends wire ∈ wires.map ends :=
  List.mem_map.mpr ⟨wire, member, rfl⟩

theorem connected_ends : Connected wires = Closure.Joined (wires.map ends) := rfl

variable {nodeId : Text}

/-- The node is moved to `target`; ports stay where they are. -/
def moveNode (nodeId : Text) (target endpoint : CanonicalEndpoint) : CanonicalEndpoint :=
  if endpoint = .node nodeId then target else endpoint

@[simp] theorem moveNode_self {target : CanonicalEndpoint} : moveNode nodeId target (.node nodeId) = target := if_pos rfl

theorem moveNode_of_ne {target endpoint : CanonicalEndpoint} (other : endpoint ≠ .node nodeId) :
    moveNode nodeId target endpoint = endpoint := if_neg other

theorem moveNode_target {target : CanonicalEndpoint} : moveNode nodeId target target = target := by
  unfold moveNode
  split <;> rfl

theorem moveNode_ends (sound : Sound sweep) (known : nodeId ∈ sweep.nodes.map TopologyNode.id) {wire : WebviewWireModel}
    (member : wire ∈ sweep.wires) (apart : ¬ touches nodeId wire = true) (target : CanonicalEndpoint) :
    moveNode nodeId target wire.fromEnd = wire.fromEnd ∧ moveNode nodeId target wire.toEnd = wire.toEnd := by
  rw [sound.touches_iff member known, not_or] at apart
  exact ⟨moveNode_of_ne apart.1, moveNode_of_ne apart.2⟩

theorem Sound.fewerNodes (sound : Sound sweep) {changed : Bool} :
    Sound { sweep with nodes := removeNode sweep.nodes nodeId, changed := changed } :=
  ⟨sound.ids, fun wire member endpoint place port inside =>
    sound.apart wire member endpoint place port (mem_removeNode inside)⟩

/-- A dead branch joins no ports. -/
theorem keeps_dead (sound : Sound sweep) (known : nodeId ∈ sweep.nodes.map TopologyNode.id) {wire : WebviewWireModel}
    (touching : sweep.wires.filter (touches nodeId) = [wire]) {changed : Bool} :
    Keeps sweep { wires := sweep.wires.filter fun other => other.id ≠ wire.id
                  nodes := removeNode sweep.nodes nodeId
                  changed := changed } := by
  have at' : wire ∈ sweep.wires.filter (touches nodeId) := touching ▸ List.mem_singleton_self wire
  obtain ⟨member, touch⟩ := List.mem_filter.mp at'
  refine ⟨⟨sound.ids.sublist (List.filter_sublist.map _), fun other kept endpoint place port inside =>
    sound.apart other (List.mem_filter.mp kept).1 endpoint place port (mem_removeNode inside)⟩, fun a b portA portB => ?_⟩
  rw [connected_ends, connected_ends]
  refine (joined_of_retract (f := moveNode nodeId (outerEnd nodeId wire)) ?_ ?_ (moveNode_of_ne (isPort_ne_node portA))
    (moveNode_of_ne (isPort_ne_node portB))).symm
  · intro pair inside
    obtain ⟨other, listed, rfl⟩ := List.mem_map.mp inside
    by_cases same : other.id = wire.id
    · obtain rfl := eq_of_id sound.ids listed member same
      rcases sound.outerEnd member known touch with shape | shape <;>
        rw [shape, moveNode_self, moveNode_target] <;> exact .refl _
    · have apart : ¬ touches nodeId other = true := fun touch' => by
        have only : other ∈ [wire] := touching ▸ List.mem_filter.mpr ⟨listed, touch'⟩
        exact same (List.mem_singleton.mp only ▸ rfl)
      obtain ⟨first, second⟩ := moveNode_ends sound known listed apart (outerEnd nodeId wire)
      show Closure.Joined _ (moveNode nodeId _ other.fromEnd) (moveNode nodeId _ other.toEnd)
      rw [first, second]
      exact .pair (mem_ends (List.mem_filter.mpr ⟨listed, by simpa using same⟩))
  · intro pair inside
    obtain ⟨other, kept, rfl⟩ := List.mem_map.mp inside
    exact .pair (mem_ends (List.mem_filter.mp kept).1)

/-- Two wires at a node are one wire between their outer ends. -/
theorem keeps_merged (sound : Sound sweep) {node : TopologyNode} (known : node.id ∈ sweep.nodes.map TopologyNode.id)
    {wireA wireB : WebviewWireModel} (touching : sweep.wires.filter (touches node.id) = [wireA, wireB]) {changed : Bool} :
    Keeps sweep { wires := mergedWire symbols components sweep.nodes node wireA wireB ::
                    sweep.wires.filter fun other => other.id ≠ wireA.id ∧ other.id ≠ wireB.id
                  nodes := removeNode sweep.nodes node.id
                  changed := changed } := by
  have inside : ∀ wire ∈ [wireA, wireB], wire ∈ sweep.wires ∧ touches node.id wire = true := fun wire member =>
    List.mem_filter.mp (touching ▸ member)
  obtain ⟨memberA, touchA⟩ := inside wireA List.mem_cons_self
  obtain ⟨memberB, touchB⟩ := inside wireB (List.mem_cons_of_mem _ (List.mem_singleton_self _))
  have merged : ends (mergedWire symbols components sweep.nodes node wireA wireB) =
      (outerEnd node.id wireA, outerEnd node.id wireB) := rfl
  have kept : ∀ other, (other ∈ sweep.wires.filter fun other => other.id ≠ wireA.id ∧ other.id ≠ wireB.id) ↔
      other ∈ sweep.wires ∧ other.id ≠ wireA.id ∧ other.id ≠ wireB.id := fun other => by
    rw [List.mem_filter, decide_eq_true_iff]
  have outer : ∀ wire, outerEnd node.id wire = wire.fromEnd ∨ outerEnd node.id wire = wire.toEnd := by
    intro wire
    unfold outerEnd
    split
    · exact .inl rfl
    · exact .inr rfl
  refine ⟨⟨?_, fun other member endpoint place port within => ?_⟩, fun a b portA portB => ?_⟩
  · rw [List.map_cons, List.nodup_cons]
    refine ⟨fun member => ?_, sound.ids.sublist (List.filter_sublist.map _)⟩
    obtain ⟨other, listed, same⟩ := List.mem_map.mp member
    exact ((kept other).mp listed).2.1 same
  · rcases List.mem_cons.mp member with rfl | member
    · rcases place with rfl | rfl
      · exact sound.apart wireA memberA _ (outer wireA) port (mem_removeNode within)
      · exact sound.apart wireB memberB _ (outer wireB) port (mem_removeNode within)
    · exact sound.apart other ((kept other).mp member).1 endpoint place port (mem_removeNode within)
  · rw [connected_ends, connected_ends]
    refine (joined_of_retract (f := moveNode node.id (outerEnd node.id wireA)) ?_ ?_ (moveNode_of_ne (isPort_ne_node portA))
      (moveNode_of_ne (isPort_ne_node portB))).symm
    · intro pair image
      obtain ⟨other, listed, rfl⟩ := List.mem_map.mp image
      by_cases first : other = wireA
      · subst first
        rcases sound.outerEnd memberA known touchA with shape | shape <;>
          rw [shape, moveNode_self, moveNode_target] <;> exact .refl _
      · by_cases second : other = wireB
        · subst second
          have bridge : Closure.Joined ((mergedWire symbols components sweep.nodes node wireA other ::
              sweep.wires.filter fun wire => wire.id ≠ wireA.id ∧ wire.id ≠ other.id).map ends)
              (outerEnd node.id wireA) (moveNode node.id (outerEnd node.id wireA) (outerEnd node.id other)) := by
            by_cases loop : outerEnd node.id other = .node node.id
            · rw [loop, moveNode_self]
              exact .refl _
            · rw [moveNode_of_ne loop]
              exact .pair (List.mem_map.mpr ⟨_, List.mem_cons_self, merged⟩)
          rcases sound.outerEnd memberB known touchB with shape | shape <;> rw [shape, moveNode_self]
          · exact bridge.symm
          · exact bridge
        · have apart : ¬ touches node.id other = true := fun touch => by
            have both : other ∈ [wireA, wireB] := touching ▸ List.mem_filter.mpr ⟨listed, touch⟩
            rcases List.mem_cons.mp both with same | same
            · exact first same
            · exact second (List.mem_singleton.mp same)
          obtain ⟨left, right⟩ := moveNode_ends sound known listed apart (outerEnd node.id wireA)
          show Closure.Joined _ (moveNode node.id _ other.fromEnd) (moveNode node.id _ other.toEnd)
          rw [left, right]
          refine .pair (mem_ends (List.mem_cons_of_mem _ ((kept other).mpr ⟨listed, fun same => ?_, fun same => ?_⟩)))
          · exact first (eq_of_id sound.ids listed memberA same)
          · exact second (eq_of_id sound.ids listed memberB same)
    · intro pair image
      obtain ⟨other, listed, rfl⟩ := List.mem_map.mp image
      rcases List.mem_cons.mp listed with rfl | listed
      · rw [merged]
        have half : ∀ wire ∈ sweep.wires, touches node.id wire = true →
            Closure.Joined (sweep.wires.map ends) (outerEnd node.id wire) (.node node.id) := by
          intro wire member touch
          have pair := mem_ends member
          rcases sound.outerEnd member known touch with shape | shape
          · exact .pair (shape ▸ pair)
          · exact (Closure.Joined.pair (shape ▸ pair)).symm
        exact (half wireA memberA touchA).trans (half wireB memberB touchB).symm
      · exact .pair (mem_ends ((kept other).mp listed).1)

theorem sweepNode_keeps (symbols : Symbols Others) (components : List (WebviewComponentModel Others))
    (sound : Sound sweep) (nodeId : Text) : Keeps sweep (sweepNode symbols components sweep nodeId) := by
  unfold sweepNode
  split
  · exact .refl sound
  · next node found =>
    have same := List.find?_some found
    obtain rfl : node.id = nodeId := of_decide_eq_true same
    have known : node.id ∈ sweep.nodes.map TopologyNode.id :=
      List.mem_map.mpr ⟨node, List.mem_of_find?_eq_some found, rfl⟩
    split
    · exact ⟨sound.fewerNodes, fun _ _ _ _ => .rfl⟩
    · next wire touching => exact keeps_dead sound known touching
    · next wireA wireB touching =>
      split
      · exact .refl sound
      · exact keeps_merged sound known touching
    · exact .refl sound

theorem sweepNodes_keeps (symbols : Symbols Others) (components : List (WebviewComponentModel Others))
    (sound : Sound sweep) : Keeps sweep (sweepNodes symbols components sweep) := by
  unfold sweepNodes
  have start : Keeps sweep { sweep with changed := false } := ⟨⟨sound.ids, sound.apart⟩, fun _ _ _ _ => .rfl⟩
  generalize sweep.nodes.map TopologyNode.id = nodeIds
  generalize { sweep with changed := false } = current at start
  induction nodeIds generalizing current with
  | nil => exact start
  | cons nodeId nodeIds ih => exact ih _ (start.trans (sweepNode_keeps symbols components start.sound nodeId))

theorem sweeps_keeps (symbols : Symbols Others) (components : List (WebviewComponentModel Others)) (fuel guard : Nat)
    (sound : Sound sweep) : Keeps sweep (sweeps symbols components fuel guard sweep) := by
  induction fuel generalizing guard sweep with
  | zero => exact .refl sound
  | succ fuel ih =>
    have step := sweepNodes_keeps symbols components sound
    unfold sweeps
    split
    · dsimp only
      split
      · exact step.trans (ih (guard + 1) step.sound)
      · exact step
    · exact .refl sound

variable {nodes : List TopologyNode} {node : TopologyNode}

/-- An earlier node has the same rounded position; one with the empty id does not count. -/
def Duplicate (nodes : List TopologyNode) (nodeId : Text) : Prop :=
  ∃ before node after, nodes = before ++ node :: after ∧ node.id = nodeId ∧
    ∃ first ∈ before, posKey first = posKey node ∧ first.id ≠ []

theorem duplicate_concat : Duplicate (nodes ++ [node]) nodeId ↔
    Duplicate nodes nodeId ∨ (node.id = nodeId ∧ ∃ first ∈ nodes, posKey first = posKey node ∧ first.id ≠ []) := by
  constructor
  · rintro ⟨before, found, after, split, same, first, member, shared⟩
    rcases List.eq_nil_or_concat after with rfl | ⟨after, last, rfl⟩
    · obtain ⟨rfl, tail⟩ := List.append_inj' split rfl
      obtain rfl := List.head_eq_of_cons_eq tail
      exact .inr ⟨same, first, member, shared⟩
    · have shape : nodes ++ [node] = (before ++ found :: after) ++ [last] := by simpa using split
      obtain ⟨rfl, _⟩ := List.append_inj' shape rfl
      exact .inl ⟨before, found, after, rfl, same, first, member, shared⟩
  · rintro (⟨before, found, after, rfl, same, first, member, shared⟩ | ⟨same, first, member, shared⟩)
    · exact ⟨before, found, after ++ [node], by simp, same, first, member, shared⟩
    · exact ⟨nodes, node, [], rfl, same, first, member, shared⟩

/-- What the loop has found out about the nodes so far. -/
structure Deduped (nodes : List TopologyNode) (state : Deduplication) : Prop where
  canonical : ∀ key, truthy (state.canonicalNodeIdByPosition.get key) ≠ none ↔
    ∃ first ∈ nodes, posKey first = key ∧ first.id ≠ []
  remapped : ∀ nodeId, nodeId ∈ state.nodeIdRemap.keys ↔ Duplicate nodes nodeId
  kept : ∀ nodeId, nodeId ∈ state.dedupedNodes.map TopologyNode.id →
    nodeId ∈ nodes.map TopologyNode.id
  covered : ∀ nodeId ∈ nodes.map TopologyNode.id, nodeId ∈ state.dedupedNodes.map TopologyNode.id ∨ Duplicate nodes nodeId
  apart : (nodes.map TopologyNode.id).Nodup → ∀ nodeId ∈ state.dedupedNodes.map TopologyNode.id, ¬ Duplicate nodes nodeId

theorem Duplicate.mem (duplicate : Duplicate nodes nodeId) : nodeId ∈ nodes.map TopologyNode.id := by
  obtain ⟨before, found, after, rfl, rfl, _⟩ := duplicate
  simp

theorem dedupe_spec (nodes : List TopologyNode) : Deduped nodes (dedupe nodes) := by
  induction nodes using List.reverseRecOn with
  | nil =>
    refine ⟨?_, ?_, nofun, nofun, fun _ => nofun⟩
    · simp [dedupe, truthy]
    · intro nodeId
      constructor
      · intro member
        exact absurd member List.not_mem_nil
      · intro duplicate
        exact absurd duplicate.mem List.not_mem_nil
  | append_singleton nodes node ih =>
    have last : dedupe (nodes ++ [node]) = dedupeNode (dedupe nodes) node := List.foldl_concat ..
    have ids : ∀ nodeId, nodeId ∈ (nodes ++ [node]).map TopologyNode.id ↔
        nodeId ∈ nodes.map TopologyNode.id ∨ node.id = nodeId := fun nodeId => by
      rw [List.map_append, List.mem_append, List.map_singleton, List.mem_singleton, eq_comm]
    have early : ∀ key, (∃ first ∈ nodes ++ [node], posKey first = key ∧ first.id ≠ []) ↔
        (∃ first ∈ nodes, posKey first = key ∧ first.id ≠ []) ∨ (posKey node = key ∧ node.id ≠ []) := fun key => by
      simp only [List.mem_append, List.mem_singleton, or_and_right, exists_or, exists_eq_left]
    obtain ⟨canonical, remapped, kept, covered, apart⟩ := ih
    rw [last]
    unfold dedupeNode
    have known := canonical (posKey node)
    split
    · next canonicalId found =>
      have earlier := known.mp (found ▸ Option.some_ne_none _)
      refine ⟨fun key => ?_, fun nodeId => ?_, fun nodeId member => (ids nodeId).mpr (.inl (kept nodeId member)),
        fun nodeId member => ?_, fun nodup nodeId member => ?_⟩
      · rw [early]
        refine (canonical key).trans ⟨.inl, ?_⟩
        rintro (before | ⟨rfl, _⟩)
        · exact before
        · exact earlier
      · rw [OrderedMap.mem_keys_set, remapped, duplicate_concat, eq_comm, or_comm]
        exact or_congr_right ⟨fun same => ⟨same, earlier⟩, And.left⟩
      · rw [duplicate_concat]
        rcases (ids nodeId).mp member with member | same
        · exact (covered nodeId member).imp_right .inl
        · exact .inr (.inr ⟨same, earlier⟩)
      · rw [duplicate_concat, not_or]
        rw [List.map_append, List.nodup_append'] at nodup
        refine ⟨apart nodup.1 nodeId member, ?_⟩
        rintro ⟨rfl, _⟩
        exact nodup.2.2 (kept _ member) (by simp)
    · next found =>
      have first : ¬ ∃ first ∈ nodes, posKey first = posKey node ∧ first.id ≠ [] := fun earlier => known.mpr earlier found
      have fresh : ∀ nodeId, Duplicate (nodes ++ [node]) nodeId ↔ Duplicate nodes nodeId := fun nodeId => by
        rw [duplicate_concat]
        exact ⟨fun either => either.resolve_right fun found => first found.2, .inl⟩
      have listed : ∀ nodeId, nodeId ∈ ((dedupe nodes).dedupedNodes ++ [node]).map TopologyNode.id ↔
          nodeId ∈ (dedupe nodes).dedupedNodes.map TopologyNode.id ∨ node.id = nodeId := fun nodeId => by
        rw [List.map_append, List.mem_append, List.map_singleton, List.mem_singleton, eq_comm]
      refine ⟨fun key => ?_, fun nodeId => (remapped nodeId).trans (fresh nodeId).symm, fun nodeId member => ?_,
        fun nodeId member => ?_, fun nodup nodeId member => ?_⟩
      · rw [early, OrderedMap.get_set]
        by_cases same : key = posKey node
        · rw [if_pos same, same]
          have plain : truthy (some node.id) ≠ none ↔ node.id ≠ [] := by
            cases shape : node.id <;> simp [truthy]
          exact plain.trans ⟨fun filled => .inr ⟨rfl, filled⟩, fun either => (either.resolve_left first).2⟩
        · rw [if_neg same, canonical]
          exact ⟨.inl, fun either => either.resolve_right fun here => same here.1.symm⟩
      · exact (ids nodeId).mpr (((listed nodeId).mp member).imp_left (kept nodeId))
      · rw [fresh, listed]
        rcases (ids nodeId).mp member with member | same
        · exact (covered nodeId member).imp_left .inl
        · exact .inl (.inr same)
      · rw [fresh]
        rw [List.map_append, List.nodup_append'] at nodup
        rcases (listed nodeId).mp member with member | rfl
        · exact apart nodup.1 nodeId member
        · exact fun duplicate => nodup.2.2 duplicate.mem (by simp)

/-! ### Nets of a drawing -/

variable {snapshot : TopologySnapshot Others}

/-- Ids are not shared, neither by a component and a node. -/
structure DistinctIds (snapshot : TopologySnapshot Others) : Prop where
  wires : (snapshot.wires.map WebviewWireModel.id).Nodup
  places : (snapshot.components.map WebviewComponentModel.id ++ snapshot.nodes.map TopologyNode.id).Nodup

def EndExists (snapshot : TopologySnapshot Others) (endpoint : CanonicalEndpoint) : Prop :=
  endpointStillValid snapshot.components snapshot.nodes endpoint = true

instance (snapshot : TopologySnapshot Others) (endpoint : CanonicalEndpoint) : Decidable (EndExists snapshot endpoint) :=
  inferInstanceAs (Decidable (_ = true))

/-- A wire joins its ends when both exist, and nodes at one rounded position are one node. -/
inductive Draws (snapshot : TopologySnapshot Others) : CanonicalEndpoint → CanonicalEndpoint → Prop where
  | wire {wire} : wire ∈ snapshot.wires → EndExists snapshot wire.fromEnd → EndExists snapshot wire.toEnd →
      Draws snapshot wire.fromEnd wire.toEnd
  | coincident {first second} : first ∈ snapshot.nodes → second ∈ snapshot.nodes → posKey first = posKey second →
      Draws snapshot (.node first.id) (.node second.id)

def Drawn (snapshot : TopologySnapshot Others) : CanonicalEndpoint → CanonicalEndpoint → Prop := EqvGen (Draws snapshot)

def AtDuplicate (snapshot : TopologySnapshot Others) (endpoint : CanonicalEndpoint) : Prop :=
  ∃ nodeId, endpoint = .node nodeId ∧ Duplicate snapshot.nodes nodeId

/-- The wires that do not end at a merged node, with nodes told apart by their ids. -/
inductive DrawsAway (snapshot : TopologySnapshot Others) : CanonicalEndpoint → CanonicalEndpoint → Prop where
  | wire {wire} : wire ∈ snapshot.wires → EndExists snapshot wire.fromEnd → EndExists snapshot wire.toEnd →
      ¬ AtDuplicate snapshot wire.fromEnd → ¬ AtDuplicate snapshot wire.toEnd →
      DrawsAway snapshot wire.fromEnd wire.toEnd

def DrawnAway (snapshot : TopologySnapshot Others) : CanonicalEndpoint → CanonicalEndpoint → Prop :=
  EqvGen (DrawsAway snapshot)

theorem DrawnAway.drawn (away : DrawnAway snapshot a b) : Drawn snapshot a b := by
  refine eqvGen_le (fun x y draws => ?_) away
  cases draws with
  | wire member fromExists toExists _ _ => exact .rel _ _ (.wire member fromExists toExists)

theorem valid_iff (distinct : DistinctIds snapshot) (endpoint : CanonicalEndpoint) :
    endpointStillValid snapshot.components (dedupe snapshot.nodes).dedupedNodes endpoint = true ↔
      EndExists snapshot endpoint ∧ ¬ AtDuplicate snapshot endpoint := by
  have spec := dedupe_spec snapshot.nodes
  have nodup : (snapshot.nodes.map TopologyNode.id).Nodup := (List.nodup_append'.mp distinct.places).2.1
  unfold EndExists AtDuplicate
  cases endpoint with
  | port c p => simp [endpointStillValid]
  | node id =>
    simp only [endpointStillValid, decide_eq_true_iff, CanonicalEndpoint.node.injEq, exists_eq_left']
    exact ⟨fun kept => ⟨spec.kept id kept, spec.apart nodup id kept⟩,
      fun found => (spec.covered id found.1).resolve_right found.2⟩

theorem remap_valid (distinct : DistinctIds snapshot) {endpoint : CanonicalEndpoint}
    (valid : endpointStillValid snapshot.components (dedupe snapshot.nodes).dedupedNodes endpoint = true) :
    remapEndpointRef (dedupe snapshot.nodes).nodeIdRemap endpoint = endpoint := by
  have apart := ((valid_iff distinct endpoint).mp valid).2
  cases endpoint with
  | port c p => rfl
  | node id =>
    have absent : (dedupe snapshot.nodes).nodeIdRemap.get id = none := by
      rw [OrderedMap.get_eq_none_iff, (dedupe_spec snapshot.nodes).remapped]
      exact fun duplicate => apart ⟨id, rfl, duplicate⟩
    unfold remapEndpointRef
    dsimp only
    rw [absent]
    rfl

/-- A wire is kept when its ends exist, none is a merged node, and they differ. -/
theorem cleanWire_eq_some (distinct : DistinctIds snapshot) {wire clean : WebviewWireModel}
    (cleaned : cleanWire snapshot.components (dedupe snapshot.nodes) wire = some clean) :
    ends clean = ends wire ∧ clean.id = wire.id ∧
      (EndExists snapshot wire.fromEnd ∧ ¬ AtDuplicate snapshot wire.fromEnd) ∧
      EndExists snapshot wire.toEnd ∧ ¬ AtDuplicate snapshot wire.toEnd := by
  unfold cleanWire at cleaned
  dsimp only at cleaned
  split at cleaned
  · cases cleaned
  · next valid =>
    simp only [Bool.or_eq_true, Bool.not_eq_true', not_or, Bool.not_eq_false] at valid
    rw [remap_valid distinct valid.1, remap_valid distinct valid.2] at cleaned
    split at cleaned
    · cases cleaned
    · split at cleaned
      · cases cleaned
      · cases cleaned
        exact ⟨rfl, rfl, (valid_iff distinct _).mp valid.1, (valid_iff distinct _).mp valid.2⟩

theorem exists_cleanWire (distinct : DistinctIds snapshot) {wire : WebviewWireModel}
    (fromValid : EndExists snapshot wire.fromEnd ∧ ¬ AtDuplicate snapshot wire.fromEnd)
    (toValid : EndExists snapshot wire.toEnd ∧ ¬ AtDuplicate snapshot wire.toEnd) (different : wire.fromEnd ≠ wire.toEnd) :
    ∃ clean, cleanWire snapshot.components (dedupe snapshot.nodes) wire = some clean := by
  have first := (valid_iff distinct _).mpr fromValid
  have second := (valid_iff distinct _).mpr toValid
  unfold cleanWire
  dsimp only
  rw [remap_valid distinct first, remap_valid distinct second, first, second, if_neg different]
  exact ⟨_, rfl⟩

/-- The snapshot after the merge. -/
def cleanedSnapshot (snapshot : TopologySnapshot Others) : TopologySnapshot Others where
  components := snapshot.components
  wires := snapshot.wires.filterMap (cleanWire snapshot.components (dedupe snapshot.nodes))
  nodes := (dedupe snapshot.nodes).dedupedNodes

theorem connected_cleaned (distinct : DistinctIds snapshot) :
    Connected (cleanedSnapshot snapshot).wires a b ↔ DrawnAway snapshot a b := by
  refine eqvGen_iff (fun x y pair => ?_) fun x y draws => ?_
  · obtain ⟨clean, listed, same⟩ := List.mem_map.mp pair
    obtain ⟨wire, member, cleaned⟩ := List.mem_filterMap.mp listed
    obtain ⟨kept, _, fromValid, toValid⟩ := cleanWire_eq_some distinct cleaned
    obtain ⟨rfl, rfl⟩ := Prod.mk.inj (same.symm.trans kept)
    exact .rel _ _ (.wire member fromValid.1 toValid.1 fromValid.2 toValid.2)
  · cases draws with
    | @wire wire member fromExists toExists fromApart toApart =>
      by_cases same : wire.fromEnd = wire.toEnd
      · exact same ▸ .refl _
      · obtain ⟨clean, cleaned⟩ := exists_cleanWire distinct ⟨fromExists, fromApart⟩ ⟨toExists, toApart⟩ same
        exact .rel _ _ (List.mem_map.mpr ⟨clean, List.mem_filterMap.mpr ⟨wire, member, cleaned⟩,
          (cleanWire_eq_some distinct cleaned).1⟩)

theorem mergeCollinearWire_ends (wire : WebviewWireModel) :
    ends (mergeCollinearWire symbols snapshot wire) = ends wire ∧
      (mergeCollinearWire symbols snapshot wire).id = wire.id := by
  unfold mergeCollinearWire
  dsimp only
  split
  · exact ⟨rfl, rfl⟩
  · split <;> exact ⟨rfl, rfl⟩

theorem map_mergeCollinear {α : Type} (f : WebviewWireModel → α)
    (kept : ∀ wire, f (mergeCollinearWire symbols snapshot wire) = f wire) :
    (mergeCollinearSegments symbols snapshot).wires.map f = snapshot.wires.map f := by
  unfold mergeCollinearSegments
  rw [List.map_map]
  exact List.map_congr_left fun wire _ => kept wire

theorem cleaned_sound (symbols : Symbols Others) (distinct : DistinctIds snapshot) (changed : Bool) :
    Sound { wires := (mergeCollinearSegments symbols (cleanedSnapshot snapshot)).wires
            nodes := (cleanedSnapshot snapshot).nodes
            changed := changed } := by
  have ids : ((cleanedSnapshot snapshot).wires.map WebviewWireModel.id).Nodup := by
    have sub : ((cleanedSnapshot snapshot).wires.map WebviewWireModel.id).Sublist (snapshot.wires.map WebviewWireModel.id) := by
      unfold cleanedSnapshot
      dsimp only
      generalize snapshot.wires = wires
      induction wires with
      | nil => exact .slnil
      | cons wire wires ih =>
        rw [List.filterMap_cons]
        cases cleaned : cleanWire snapshot.components (dedupe snapshot.nodes) wire with
        | none => exact ih.cons _
        | some clean =>
          rw [List.map_cons, List.map_cons, (cleanWire_eq_some distinct cleaned).2.1]
          exact ih.cons_cons _
    exact distinct.wires.sublist sub
  refine ⟨?_, fun wire member endpoint place port within => ?_⟩
  · rw [map_mergeCollinear _ fun wire => (mergeCollinearWire_ends wire).2]
    exact ids
  · have listed : ends wire ∈ (mergeCollinearSegments symbols (cleanedSnapshot snapshot)).wires.map ends := mem_ends member
    rw [map_mergeCollinear _ fun wire => (mergeCollinearWire_ends wire).1] at listed
    obtain ⟨clean, inside, same⟩ := List.mem_map.mp listed
    obtain ⟨wire', _, cleaned⟩ := List.mem_filterMap.mp inside
    obtain ⟨kept, _, fromValid, toValid⟩ := cleanWire_eq_some distinct cleaned
    obtain ⟨first, second⟩ := Prod.mk.inj (same.symm.trans kept)
    have real : EndExists snapshot endpoint := by
      rcases place with rfl | rfl
      · exact first ▸ fromValid.1
      · exact second ▸ toValid.1
    cases endpoint with
    | node id => cases port
    | port c p =>
      have component : c ∈ snapshot.components.map WebviewComponentModel.id := of_decide_eq_true real
      exact (List.nodup_append'.mp distinct.places).2.2 component ((dedupe_spec snapshot.nodes).kept c within)

theorem normalized_connected (distinct : DistinctIds snapshot) (portA : isPort a = true) (portB : isPort b = true) :
    Connected (normalizeWireGeometry symbols snapshot).wires a b ↔ DrawnAway snapshot a b := by
  have swept := (sweeps_keeps symbols snapshot.components ((cleanedSnapshot snapshot).nodes.length + 1) 0
    (cleaned_sound symbols distinct true)).ports a b portA portB
  rw [← connected_cleaned distinct]
  refine swept.trans ?_
  rw [connected_ends, connected_ends, map_mergeCollinear _ fun wire => (mergeCollinearWire_ends wire).1]

/-- Loading keeps the nets exactly when the wires at merged nodes are redundant. -/
theorem loading_keeps_nets_iff (symbols : Symbols Others) (snapshot : TopologySnapshot Others)
    (distinct : DistinctIds snapshot) :
    (∀ a b, isPort a = true → isPort b = true →
      (Connected (normalizeWireGeometry symbols snapshot).wires a b ↔ Drawn snapshot a b)) ↔
    ∀ a b, isPort a = true → isPort b = true → Drawn snapshot a b → DrawnAway snapshot a b := by
  constructor
  · intro keeps a b portA portB drawn
    exact (normalized_connected distinct portA portB).mp ((keeps a b portA portB).mpr drawn)
  · intro redundant a b portA portB
    rw [normalized_connected distinct portA portB]
    exact ⟨DrawnAway.drawn, redundant a b portA portB⟩

/-- Two resistors of the default size. -/
def plainSymbols : Symbols Unit where
  pinPlace component index := ⟨component.x + .ofRat (if index % 2 = 0 then 6 else 64), component.y + .ofRat 20⟩
  pinSide _ index := if index % 2 = 0 then .left else .right
  hypot x y := Lib.EcmaNumber.Number.max x.abs y.abs

def plainResistor (id : Text) (x : ℚ) : WebviewComponentModel Unit where
  id := id
  typeId := units "passives.resistor"
  x := .ofRat x
  y := .ofRat 0
  rotation := .none
  label := id
  pins := [⟨units "pin-1", .ofRat 0, .ofRat 0⟩, ⟨units "pin-2", .ofRat 0, .ofRat 0⟩]
  properties := ∅
  others := none

def junctionAt (id : Text) (x y : ℚ) : TopologyNode := ⟨id, .ofRat x, .ofRat y⟩

/-- Each resistor is wired to its own one of two coincident nodes. -/
def twoJunctions : TopologySnapshot Unit where
  components := [plainResistor (units "a") 0, plainResistor (units "b") 100]
  wires := [plainWire (units "w1") (.port (units "a") (units "pin-1")) (.node (units "j1")),
    plainWire (units "w2") (.node (units "j2")) (.port (units "b") (units "pin-1"))]
  nodes := [junctionAt (units "j1") 50 0, junctionAt (units "j2") 50 0]

theorem twoJunctions_distinct : DistinctIds twoJunctions := ⟨by decide +kernel, by decide +kernel⟩

theorem loading_keeps_nets_iff_twoJunctions :
    (∀ a b, isPort a = true → isPort b = true →
      (Connected (normalizeWireGeometry plainSymbols twoJunctions).wires a b ↔ Drawn twoJunctions a b)) ↔
    ∀ a b, isPort a = true → isPort b = true → Drawn twoJunctions a b → DrawnAway twoJunctions a b :=
  loading_keeps_nets_iff plainSymbols twoJunctions twoJunctions_distinct

theorem twoJunctions_torn : ¬ ∀ snapshot : TopologySnapshot Unit, DistinctIds snapshot → ∀ a b, isPort a = true →
    isPort b = true → (Connected (normalizeWireGeometry plainSymbols snapshot).wires a b ↔ Drawn snapshot a b) := by
  intro always
  have kept := (always twoJunctions twoJunctions_distinct (.port (units "b") (units "pin-1"))
    (.port (units "a") (units "pin-1")) rfl rfl).mpr
  have merged : AtDuplicate twoJunctions (.node (units "j2")) :=
    ⟨_, rfl, [junctionAt (units "j1") 50 0], junctionAt (units "j2") 50 0, [], rfl, rfl, junctionAt (units "j1") 50 0,
      List.mem_singleton_self _, by decide +kernel, by decide +kernel⟩
  have drawn : Drawn twoJunctions (.port (units "b") (units "pin-1")) (.port (units "a") (units "pin-1")) := by
    have first : Draws twoJunctions (.port (units "a") (units "pin-1")) (.node (units "j1")) :=
      @Draws.wire Unit twoJunctions (plainWire _ _ _) List.mem_cons_self (by decide +kernel) (by decide +kernel)
    have second : Draws twoJunctions (.node (units "j1")) (.node (units "j2")) :=
      @Draws.coincident Unit twoJunctions (junctionAt _ 50 0) (junctionAt _ 50 0) List.mem_cons_self
        (List.mem_cons_of_mem _ List.mem_cons_self) (by decide +kernel)
    have third : Draws twoJunctions (.node (units "j2")) (.port (units "b") (units "pin-1")) :=
      @Draws.wire Unit twoJunctions (plainWire _ _ _) (List.mem_cons_of_mem _ List.mem_cons_self) (by decide +kernel)
        (by decide +kernel)
    exact .symm _ _ (.trans _ _ _ (.trans _ _ _ (.rel _ _ first) (.rel _ _ second)) (.rel _ _ third))
  have away := (normalized_connected twoJunctions_distinct rfl rfl).mp (kept drawn)
  have alone := eqvGen_eq_of_isolated (fun x y draws => ?_) away
  · exact absurd alone (by decide +kernel)
  · cases draws with
    | @wire wire member _ _ fromApart _ =>
      rcases List.mem_cons.mp member with rfl | member
      · exact ⟨by decide +kernel, by decide +kernel⟩
      · obtain rfl := List.mem_singleton.mp member
        exact absurd merged fromApart

end LasecSimul.Drawing
