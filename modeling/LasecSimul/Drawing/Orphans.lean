import LasecSimul.Drawing.Loading
import LasecSimul.Lib.Rounds

/-!
# Orphan nodes (`removeOrphanNodes`)

A visit leaves a node alone, removes it with its wire, or makes one wire of its two. The passes settle unless more of
them were made than nodes are left; the ends of the wires stay known unless a node is removed at which a wire begins
and ends.
-/

namespace LasecSimul.Drawing

open Dsl (Text CanonicalEndpoint TopologyNode WebviewComponentModel WebviewWireModel)
open Lib.Rounds (Shrinks)

variable {Others : Type} {symbols : Symbols Others} {components : List (WebviewComponentModel Others)}
  {snapshot : TopologySnapshot Others} {sweep : Sweep} {nodeId : Text}

/-- Three wires meet at the node, or two of different line classes. -/
def Joint (wires : List WebviewWireModel) (nodeId : Text) : Prop :=
  3 ≤ (wires.filter (touches nodeId)).length ∨
    ∃ wireA wireB, wires.filter (touches nodeId) = [wireA, wireB] ∧ wireA.lineClass ≠ wireB.lineClass

def Settled (nodes : List TopologyNode) (wires : List WebviewWireModel) : Prop := ∀ node ∈ nodes, Joint wires node.id

/-- The wires `wireA` and `wireB` are made one at the node. -/
structure Merges (sweep : Sweep) (nodeId : Text) (node : TopologyNode) (wireA wireB : WebviewWireModel) : Prop where
  found : sweep.nodes.find? (fun node => node.id = nodeId) = some node
  touching : sweep.wires.filter (touches nodeId) = [wireA, wireB]
  class_eq : wireA.lineClass = wireB.lineClass

/-- The wires after the removal of a node. -/
inductive Rewired (symbols : Symbols Others) (components : List (WebviewComponentModel Others)) (sweep : Sweep)
    (nodeId : Text) : List WebviewWireModel → Prop where
  | dead {wires} : wires.Sublist sweep.wires → (∀ wire ∈ wires, touches nodeId wire = false) →
      Rewired symbols components sweep nodeId wires
  | joined {node wireA wireB wires} : Merges sweep nodeId node wireA wireB → wires.Sublist sweep.wires →
      (∀ wire ∈ wires, touches nodeId wire = false) →
      Rewired symbols components sweep nodeId (mergedWire symbols components sweep.nodes node wireA wireB :: wires)

theorem Merges.not_joint {node : TopologyNode} {wireA wireB : WebviewWireModel}
    (merges : Merges sweep nodeId node wireA wireB) : ¬ Joint sweep.wires nodeId := by
  rintro (three | ⟨wireA, wireB, touching, differ⟩)
  · rw [merges.touching] at three
    simp at three
  · rw [merges.touching] at touching
    cases touching
    exact differ merges.class_eq

theorem touches_of_filter {wires touching : List WebviewWireModel} {p : WebviewWireModel → Bool}
    (shape : wires.filter (touches nodeId) = touching) (cut : ∀ wire ∈ touching, p wire = false) :
    ∀ wire ∈ wires.filter p, touches nodeId wire = false := by
  intro wire member
  obtain ⟨listed, kept⟩ := List.mem_filter.mp member
  by_contra touched
  have cut := cut wire (shape ▸ List.mem_filter.mpr ⟨listed, by simpa using touched⟩)
  rw [kept] at cut
  cases cut

/-- A visit leaves a joint alone and removes every other node. -/
theorem sweepNode_spec (symbols : Symbols Others) (components : List (WebviewComponentModel Others)) (sweep : Sweep)
    (nodeId : Text) :
    (sweepNode symbols components sweep nodeId = sweep ∧
        (nodeId ∈ sweep.nodes.map TopologyNode.id → Joint sweep.wires nodeId)) ∨
      nodeId ∈ sweep.nodes.map TopologyNode.id ∧ ¬ Joint sweep.wires nodeId ∧
        ∃ wires, Rewired symbols components sweep nodeId wires ∧
          sweepNode symbols components sweep nodeId = ⟨wires, removeNode sweep.nodes nodeId, true⟩ := by
  unfold sweepNode
  split
  · next missing =>
    refine .inl ⟨rfl, fun known => ?_⟩
    obtain ⟨node, member, same⟩ := List.mem_map.mp known
    exact absurd same (by simpa using List.find?_eq_none.mp missing node member)
  · next node found =>
    have same : node.id = nodeId := by simpa using List.find?_some found
    have known : nodeId ∈ sweep.nodes.map TopologyNode.id :=
      List.mem_map.mpr ⟨node, List.mem_of_find?_eq_some found, same⟩
    split
    · next touching =>
      refine .inr ⟨known, ?_, _, .dead (.refl _) fun wire member => ?_, rfl⟩
      · simp [Joint, touching]
      · simpa using List.filter_eq_nil_iff.mp touching wire member
    · next wire touching =>
      refine .inr ⟨known, by simp [Joint, touching], _, .dead List.filter_sublist ?_, rfl⟩
      exact touches_of_filter touching (by simp)
    · next wireA wireB touching =>
      split
      · next differ => exact .inl ⟨rfl, fun _ => .inr ⟨wireA, wireB, touching, differ⟩⟩
      · next same =>
        have merges : Merges sweep nodeId node wireA wireB := ⟨found, touching, not_not.mp same⟩
        refine .inr ⟨known, merges.not_joint, _, .joined merges List.filter_sublist ?_, rfl⟩
        exact touches_of_filter touching (by simp)
    · next none one two =>
      refine .inl ⟨rfl, fun _ => .inl ?_⟩
      match shape : sweep.wires.filter (touches nodeId) with
      | [] => exact absurd shape none
      | [wire] => exact absurd shape (one wire)
      | [wireA, wireB] => exact absurd shape (two wireA wireB)
      | _ :: _ :: _ :: _ => simp

theorem length_removeNode_lt {nodes : List TopologyNode} (known : nodeId ∈ nodes.map TopologyNode.id) :
    (removeNode nodes nodeId).length < nodes.length := by
  obtain ⟨node, member, same⟩ := List.mem_map.mp known
  exact List.length_filter_lt_length_iff_exists.mpr ⟨node, member, by simp [same]⟩

/-! ### Passes -/

/-- The visits of a pass change nothing, or they leave fewer nodes. -/
theorem visits_spec (symbols : Symbols Others) (components : List (WebviewComponentModel Others)) (nodeIds : List Text)
    (sweep : Sweep) :
    (nodeIds.foldl (sweepNode symbols components) sweep = sweep ∧
        ∀ nodeId ∈ nodeIds, nodeId ∈ sweep.nodes.map TopologyNode.id → Joint sweep.wires nodeId) ∨
      (nodeIds.foldl (sweepNode symbols components) sweep).changed = true ∧
        (nodeIds.foldl (sweepNode symbols components) sweep).nodes.length < sweep.nodes.length ∧
        ∃ nodeId ∈ sweep.nodes.map TopologyNode.id, ¬ Joint sweep.wires nodeId := by
  induction nodeIds generalizing sweep with
  | nil => exact .inl ⟨rfl, nofun⟩
  | cons nodeId nodeIds ih =>
    rw [List.foldl_cons]
    rcases sweepNode_spec symbols components sweep nodeId with ⟨same, joint⟩ | ⟨known, orphan, wires, _, result⟩
    · rw [same]
      refine (ih sweep).imp_left fun ⟨unchanged, joints⟩ => ⟨unchanged, fun other member known => ?_⟩
      rcases List.mem_cons.mp member with rfl | member
      · exact joint known
      · exact joints other member known
    · have fewer := length_removeNode_lt known
      rw [result]
      refine .inr ?_
      rcases ih ⟨wires, removeNode sweep.nodes nodeId, true⟩ with ⟨unchanged, _⟩ | ⟨changed, fewer', _⟩
      · rw [unchanged]
        exact ⟨rfl, fewer, nodeId, known, orphan⟩
      · exact ⟨changed, fewer'.trans fewer, nodeId, known, orphan⟩

theorem sweepNodes_settled (settled : Settled sweep.nodes sweep.wires) :
    sweepNodes symbols components sweep = { sweep with changed := false } := by
  refine (visits_spec symbols components _ _).elim And.left fun ⟨_, _, nodeId, known, orphan⟩ => ?_
  obtain ⟨node, member, rfl⟩ := List.mem_map.mp known
  exact absurd (settled node member) orphan

theorem sweepNodes_unsettled (unsettled : ¬ Settled sweep.nodes sweep.wires) :
    (sweepNodes symbols components sweep).changed = true ∧
      (sweepNodes symbols components sweep).nodes.length < sweep.nodes.length := by
  refine (visits_spec symbols components _ _).elim (fun ⟨_, joints⟩ => absurd (fun node member => ?_) unsettled)
    fun ⟨changed, fewer, _⟩ => ⟨changed, fewer⟩
  exact joints node.id (List.mem_map_of_mem member) (List.mem_map_of_mem member)

def nodeCount (sweep : Sweep) : Nat := sweep.nodes.length

theorem passes_shrink (symbols : Symbols Others) (components : List (WebviewComponentModel Others)) :
    Shrinks (sweepNodes symbols components) Sweep.changed nodeCount (fun sweep => Settled sweep.nodes sweep.wires) where
  rest settled := by
    rw [sweepNodes_settled settled]
    exact ⟨settled, rfl, rfl⟩
  shrink := sweepNodes_unsettled

theorem sweeps_eq_rounds (symbols : Symbols Others) (components : List (WebviewComponentModel Others))
    (fuel guard : Nat) (sweep : Sweep) : sweeps symbols components fuel guard sweep =
      Lib.Rounds.rounds (sweepNodes symbols components) Sweep.changed nodeCount fuel guard sweep := by
  induction fuel generalizing guard sweep with
  | zero => rfl
  | succ fuel ih =>
    unfold sweeps Lib.Rounds.rounds
    simp only [ih]
    rfl

def startSweep (snapshot : TopologySnapshot Others) : Sweep := ⟨snapshot.wires, snapshot.nodes, true⟩

/-- The wires and nodes after so many passes. -/
def afterPasses (symbols : Symbols Others) (snapshot : TopologySnapshot Others) (passes : Nat) : Sweep :=
  (sweepNodes symbols snapshot.components)^[passes] (startSweep snapshot)

/-- While a pass still finds a node to remove, no more passes were made than nodes are left. -/
def InTime (symbols : Symbols Others) (snapshot : TopologySnapshot Others) : Prop :=
  ∀ passes, ¬ Settled (afterPasses symbols snapshot passes).nodes (afterPasses symbols snapshot passes).wires →
    passes ≤ (afterPasses symbols snapshot passes).nodes.length

theorem settled_removeOrphanNodes_iff (symbols : Symbols Others) (snapshot : TopologySnapshot Others) :
    Settled (removeOrphanNodes symbols snapshot).nodes (removeOrphanNodes symbols snapshot).wires ↔
      InTime symbols snapshot := by
  have settles := (passes_shrink symbols snapshot.components).settled_rounds_iff (snapshot.nodes.length + 1) 0
    (startSweep snapshot) (Nat.lt_succ_self _)
  rw [← sweeps_eq_rounds] at settles
  refine settles.trans (forall_congr' fun passes => ?_)
  rw [Nat.zero_add]
  rfl

theorem length_removeOrphanNodes_lt (symbols : Symbols Others) (snapshot : TopologySnapshot Others)
    (unsettled : ¬ Settled snapshot.nodes snapshot.wires) :
    (removeOrphanNodes symbols snapshot).nodes.length < snapshot.nodes.length := by
  have fewer := (passes_shrink symbols snapshot.components).size_rounds_lt (snapshot.nodes.length + 1)
    (startSweep snapshot) (Nat.lt_succ_self _) unsettled
  rwa [← sweeps_eq_rounds] at fewer

theorem removeOrphanNodes_eq_iff (symbols : Symbols Others) (snapshot : TopologySnapshot Others) :
    removeOrphanNodes symbols snapshot = snapshot ↔ Settled snapshot.nodes snapshot.wires := by
  constructor
  · intro same
    by_contra unsettled
    have fewer := length_removeOrphanNodes_lt symbols snapshot unsettled
    rw [same] at fewer
    exact Nat.lt_irrefl _ fewer
  · intro settled
    have once := (passes_shrink symbols snapshot.components).rounds_settled snapshot.nodes.length 0
      (startSweep snapshot) settled (Nat.zero_le _)
    rw [← sweeps_eq_rounds, sweepNodes_settled settled] at once
    unfold removeOrphanNodes
    change { snapshot with wires := (sweeps _ _ _ _ (startSweep snapshot)).wires
                           nodes := (sweeps _ _ _ _ (startSweep snapshot)).nodes } = snapshot
    rw [once]
    rfl

/-- The result is the state after some number of passes. -/
theorem removeOrphanNodes_eq_afterPasses (symbols : Symbols Others) (snapshot : TopologySnapshot Others) :
    ∃ passes, removeOrphanNodes symbols snapshot = { snapshot with
      wires := (afterPasses symbols snapshot passes).wires, nodes := (afterPasses symbols snapshot passes).nodes } := by
  obtain ⟨passes, result, _⟩ := (passes_shrink symbols snapshot.components).rounds_spec (snapshot.nodes.length + 1) 0
    (startSweep snapshot) (Nat.lt_succ_self _)
  refine ⟨passes, ?_⟩
  unfold removeOrphanNodes afterPasses
  dsimp only
  rw [sweeps_eq_rounds, ← result]
  rfl

/-- A pass visits the node in the state `sweep`. -/
def Visited (symbols : Symbols Others) (snapshot : TopologySnapshot Others) (sweep : Sweep) (nodeId : Text) : Prop :=
  ∃ passes before after, (afterPasses symbols snapshot passes).nodes.map TopologyNode.id = before ++ nodeId :: after ∧
    sweep = before.foldl (sweepNode symbols snapshot.components)
      { afterPasses symbols snapshot passes with changed := false }

/-- What every removal keeps holds after any number of passes. -/
theorem afterPasses_keeps {P : List TopologyNode → List WebviewWireModel → Prop}
    (start : P snapshot.nodes snapshot.wires)
    (step : ∀ sweep nodeId wires, Visited symbols snapshot sweep nodeId → P sweep.nodes sweep.wires →
      Rewired symbols snapshot.components sweep nodeId wires → P (removeNode sweep.nodes nodeId) wires) (passes : Nat) :
    P (afterPasses symbols snapshot passes).nodes (afterPasses symbols snapshot passes).wires := by
  induction passes with
  | zero => exact start
  | succ passes ih =>
    have visits : ∀ after before, (afterPasses symbols snapshot passes).nodes.map TopologyNode.id = before ++ after →
        ∀ sweep, sweep = before.foldl (sweepNode symbols snapshot.components)
            { afterPasses symbols snapshot passes with changed := false } → P sweep.nodes sweep.wires →
          P (after.foldl (sweepNode symbols snapshot.components) sweep).nodes
            (after.foldl (sweepNode symbols snapshot.components) sweep).wires := by
      intro after
      induction after with
      | nil => exact fun _ _ _ _ holds => holds
      | cons nodeId after ih =>
        intro before split sweep reached holds
        refine ih (before ++ [nodeId]) (by simpa using split) _ (by rw [reached, List.foldl_concat]) ?_
        rcases sweepNode_spec symbols snapshot.components sweep nodeId with ⟨same, _⟩ | ⟨_, _, wires, rewired, result⟩
        · rwa [same]
        · rw [result]
          exact step sweep nodeId wires ⟨passes, before, after, split, reached⟩ holds rewired
    unfold afterPasses
    rw [Function.iterate_succ_apply']
    exact visits _ [] rfl _ rfl ih

def EndsExist (components : List (WebviewComponentModel Others)) (nodes : List TopologyNode)
    (wires : List WebviewWireModel) : Prop :=
  ∀ wire ∈ wires, endpointStillValid components nodes wire.fromEnd = true ∧
    endpointStillValid components nodes wire.toEnd = true

/-- No wire is left with an end at the node that is removed. -/
def KeepsEnds (symbols : Symbols Others) (snapshot : TopologySnapshot Others) : Prop :=
  ∀ sweep nodeId node wireA wireB, Visited symbols snapshot sweep nodeId → Merges sweep nodeId node wireA wireB →
    outerEnd nodeId wireA ≠ .node nodeId ∧ outerEnd nodeId wireB ≠ .node nodeId

theorem mem_ids_removeNode {nodes : List TopologyNode} {id : Text} :
    id ∈ (removeNode nodes nodeId).map TopologyNode.id ↔ id ∈ nodes.map TopologyNode.id ∧ id ≠ nodeId := by
  unfold removeNode
  simp only [List.mem_map, List.mem_filter, decide_eq_true_iff]
  constructor
  · rintro ⟨node, ⟨member, other⟩, rfl⟩
    exact ⟨⟨node, member, rfl⟩, other⟩
  · rintro ⟨⟨node, member, rfl⟩, other⟩
    exact ⟨node, ⟨member, other⟩, rfl⟩

theorem still_valid {nodes : List TopologyNode} {endpoint : CanonicalEndpoint}
    (valid : endpointStillValid components nodes endpoint = true) (other : endpoint ≠ .node nodeId) :
    endpointStillValid components (removeNode nodes nodeId) endpoint = true := by
  cases endpoint with
  | port componentId pinId => exact valid
  | node id =>
    unfold endpointStillValid at valid ⊢
    rw [decide_eq_true_iff] at valid ⊢
    exact mem_ids_removeNode.mpr ⟨valid, fun same => other (congrArg _ same)⟩

theorem ne_node_of_touches {wire : WebviewWireModel} (apart : touches nodeId wire = false) :
    wire.fromEnd ≠ .node nodeId ∧ wire.toEnd ≠ .node nodeId := by
  simp only [touches, decide_eq_false_iff_not, not_or] at apart
  exact ⟨fun same => apart.1 (by rw [same]; rfl), fun same => apart.2 (by rw [same]; rfl)⟩

theorem Merges.node_id {node : TopologyNode} {wireA wireB : WebviewWireModel}
    (merges : Merges sweep nodeId node wireA wireB) : node.id = nodeId := by
  simpa using List.find?_some merges.found

theorem Merges.mem {node : TopologyNode} {wireA wireB : WebviewWireModel}
    (merges : Merges sweep nodeId node wireA wireB) : wireA ∈ sweep.wires ∧ wireB ∈ sweep.wires := by
  have listed : ∀ wire, wire ∈ [wireA, wireB] → wire ∈ sweep.wires := fun wire member =>
    (List.mem_filter.mp (merges.touching ▸ member : wire ∈ sweep.wires.filter (touches nodeId))).1
  exact ⟨listed wireA (by simp), listed wireB (by simp)⟩

theorem mergedWire_ends (symbols : Symbols Others) (components : List (WebviewComponentModel Others))
    (nodes : List TopologyNode) {node : TopologyNode} (wireA wireB : WebviewWireModel) (same : node.id = nodeId) :
    ends (mergedWire symbols components nodes node wireA wireB) =
      (outerEnd nodeId wireA, outerEnd nodeId wireB) := by
  subst same
  rfl

theorem outerEnd_valid {nodes : List TopologyNode} {wire : WebviewWireModel} (nodeId : Text)
    (valid : endpointStillValid components nodes wire.fromEnd = true ∧
      endpointStillValid components nodes wire.toEnd = true) :
    endpointStillValid components nodes (outerEnd nodeId wire) = true := by
  unfold outerEnd
  split
  · exact valid.1
  · exact valid.2

theorem Rewired.endsExist {wires : List WebviewWireModel} (rewired : Rewired symbols components sweep nodeId wires)
    (exist : EndsExist components sweep.nodes sweep.wires)
    (kept : ∀ node wireA wireB, Merges sweep nodeId node wireA wireB →
      outerEnd nodeId wireA ≠ .node nodeId ∧ outerEnd nodeId wireB ≠ .node nodeId) :
    EndsExist components (removeNode sweep.nodes nodeId) wires := by
  have others : ∀ {wires : List WebviewWireModel}, wires.Sublist sweep.wires →
      (∀ wire ∈ wires, touches nodeId wire = false) → EndsExist components (removeNode sweep.nodes nodeId) wires := by
    intro wires sub apart wire member
    obtain ⟨fromValid, toValid⟩ := exist wire (sub.subset member)
    obtain ⟨fromOther, toOther⟩ := ne_node_of_touches (apart wire member)
    exact ⟨still_valid fromValid fromOther, still_valid toValid toOther⟩
  cases rewired with
  | dead sub apart => exact others sub apart
  | @joined node wireA wireB wires merges sub apart =>
    intro wire member
    rcases List.mem_cons.mp member with rfl | member
    · obtain ⟨fromEnd, toEnd⟩ :=
        Prod.mk.inj (mergedWire_ends symbols components sweep.nodes wireA wireB merges.node_id)
      obtain ⟨fromOther, toOther⟩ := kept node wireA wireB merges
      rw [fromEnd, toEnd]
      exact ⟨still_valid (outerEnd_valid nodeId (exist wireA merges.mem.1)) fromOther,
        still_valid (outerEnd_valid nodeId (exist wireB merges.mem.2)) toOther⟩
    · exact others sub apart wire member

theorem endsExist_afterPasses (exist : EndsExist snapshot.components snapshot.nodes snapshot.wires)
    (keepsEnds : KeepsEnds symbols snapshot) (passes : Nat) :
    EndsExist snapshot.components (afterPasses symbols snapshot passes).nodes
      (afterPasses symbols snapshot passes).wires :=
  afterPasses_keeps exist (fun sweep nodeId _ visited holds rewired =>
    rewired.endsExist holds fun node wireA wireB => keepsEnds sweep nodeId node wireA wireB visited) passes

end LasecSimul.Drawing
