import LasecSimul.Drawing.Connecting
import LasecSimul.Drawing.Loading
import LasecSimul.Lib.Fallible

/-!
# What a connection joins

A split hangs its topology node on the wire and changes nothing else, whether the node is new or was there before.
-/

namespace LasecSimul.Drawing

open Dsl (Text units CanonicalEndpoint TopologyNode WebviewComponentModel WebviewWireModel)
open Lib
open Lib.Closure hiding Joined
open Lib.Fallible (bind_ok)

variable {Others : Type} {symbols : Symbols Others} {snapshot : TopologySnapshot Others} {ids : ConnectEndpointIds}
  {state state' : Connecting Others} {wires : List WebviewWireModel} {a b : CanonicalEndpoint}

/-- A node end names a node that is there. -/
def Attached (nodes : List TopologyNode) (endpoint : CanonicalEndpoint) : Prop :=
  ∀ nodeId, endpoint = .node nodeId → nodeId ∈ nodes.map TopologyNode.id

def AllAttached (nodes : List TopologyNode) (wires : List WebviewWireModel) : Prop :=
  ∀ wire ∈ wires, Attached nodes wire.fromEnd ∧ Attached nodes wire.toEnd

structure WellFormed (snapshot : TopologySnapshot Others) : Prop where
  ids : (snapshot.wires.map WebviewWireModel.id).Nodup
  attached : AllAttached snapshot.nodes snapshot.wires

/-- The ids made for wires are new. -/
structure FreshIds (ids : ConnectEndpointIds) (snapshot : TopologySnapshot Others) : Prop where
  halves : ∀ i, ids.nextWireId i ∉ snapshot.wires.map WebviewWireModel.id
  distinct : Function.Injective ids.nextWireId
  newWire : ids.newWireId ∉ snapshot.wires.map WebviewWireModel.id
  apart : ∀ i, ids.nextWireId i ≠ ids.newWireId

/-- The pairs that resolving an end joins, and the place the new wire starts or ends at. -/
structure Landing where
  joins : List (CanonicalEndpoint × CanonicalEndpoint)
  place : CanonicalEndpoint

/-- A split hangs its node on the wire; an end that splits nothing is the node at the point, or an end of the wire. -/
def landing (symbols : Symbols Others) (ids : SplitSegmentIds) (working : TopologySnapshot Others) :
    ConnectionEndpoint → Option Landing
  | .pin componentId pinId => some ⟨[], .port componentId pinId⟩
  | .wire wireId point =>
    let wireId := targetWireId symbols working wireId point
    match splitSegmentAtPoint symbols working wireId point ids with
    | some split => some ⟨[ends split.firstWire], split.firstWire.toEnd⟩
    | none => (resolveUnsplit symbols working wireId point).toOption.map (⟨[], ·⟩)

/-- Where a wire is split at a node that was there before, the clicked point is at that node, too. -/
def FoundAgain (symbols : Symbols Others) (ids : SplitSegmentIds) (working : TopologySnapshot Others) :
    ConnectionEndpoint → Prop
  | .pin _ _ => True
  | .wire wireId point =>
    ∀ split, splitSegmentAtPoint symbols working (targetWireId symbols working wireId point) point ids = some split →
      split.node = none → (findExistingJunctionAt working.nodes point).map CanonicalEndpoint.node = some split.firstWire.toEnd

/-! ### A split -/

/-- The node at the split point and the two halves. -/
structure Splits (working : TopologySnapshot Others) (wireId : Text) (ids : SplitSegmentIds) (split : SplitSegmentResult) :
    Prop where
  exists_wire : ∃ wire ∈ working.wires, wire.id = wireId ∧ split.firstWire.fromEnd = wire.fromEnd ∧
    split.secondWire.toEnd = wire.toEnd
  first : split.firstWire.id = ids.firstWireId
  second : split.secondWire.id = ids.secondWireId
  joint : split.secondWire.fromEnd = split.firstWire.toEnd
  made : ∀ node, split.node = some node → split.firstWire.toEnd = .node node.id
  attached : Attached (working.nodes ++ split.node.toList) split.firstWire.toEnd

theorem mem_of_findExisting {nodes : List TopologyNode} {point : Point} {nodeId : Text}
    (found : findExistingJunctionAt nodes point = some nodeId) : nodeId ∈ nodes.map TopologyNode.id := by
  obtain ⟨node, hit, rfl⟩ := Option.map_eq_some_iff.mp found
  exact List.mem_map.mpr ⟨node, List.mem_of_find?_eq_some hit, rfl⟩

theorem findWire_some {wireId : Text} {wire : WebviewWireModel} (found : findWire wires wireId = some wire) :
    wire ∈ wires ∧ wire.id = wireId :=
  ⟨List.mem_of_find?_eq_some found, by simpa using List.find?_some found⟩

theorem splitSegmentAtPoint_spec {working : TopologySnapshot Others} {wireId : Text} {point : Point} {ids : SplitSegmentIds}
    {split : SplitSegmentResult} (found : splitSegmentAtPoint symbols working wireId point ids = some split) :
    Splits working wireId ids split := by
  unfold splitSegmentAtPoint at found
  obtain ⟨wire, hit, found⟩ := Option.bind_eq_some_iff.mp found
  obtain ⟨member, named⟩ := findWire_some hit
  dsimp only at found
  split at found
  · split at found
    · cases found
    · obtain ⟨splitPoint, _, found⟩ := Option.bind_eq_some_iff.mp found
      split at found
      · cases found
      · cases found
        refine ⟨⟨wire, member, named, rfl, rfl⟩, rfl, rfl, rfl, fun node made => ?_, fun nodeId same => ?_⟩
        · unfold splitWire at made ⊢
          dsimp only at made ⊢
          split at made <;> cases made
          rfl
        · unfold splitWire at same ⊢
          dsimp only [halfWire] at same ⊢
          cases same
          cases existing : findExistingJunctionAt working.nodes splitPoint with
          | none => simp [truthy]
          | some nodeId =>
            rw [List.map_append]
            exact List.mem_append_left _ (mem_of_findExisting existing)
  · cases found

/-- What the state of a connection says about the drawing. -/
structure Progress (snapshot : TopologySnapshot Others) (ids : ConnectEndpointIds) (turn : Nat) (state : Connecting Others)
    (joins : List (CanonicalEndpoint × CanonicalEndpoint)) : Prop where
  nodes : state.working.nodes = snapshot.nodes ++ state.newNodes
  wires : ∀ wire, wire ∈ state.working.wires ↔
    (wire ∈ snapshot.wires ∧ wire.id ∉ state.replacedWireIds) ∨ wire ∈ state.newWires
  nodup : (state.working.wires.map WebviewWireModel.id).Nodup
  newIds : (state.newWires.map WebviewWireModel.id).Nodup
  made : ∀ wire ∈ state.newWires, ∃ i < 2 * turn, wire.id = ids.nextWireId i
  replaced : ∀ id ∈ state.replacedWireIds, id ∈ snapshot.wires.map WebviewWireModel.id
  attached : AllAttached state.working.nodes state.working.wires
  connected : ∀ a b, Connected state.working.wires a b ↔ Closure.Joined (snapshot.wires.map ends ++ joins) a b

theorem Progress.start (sound : WellFormed snapshot) : Progress snapshot ids 0 ⟨[], [], [], snapshot⟩ [] where
  nodes := (List.append_nil _).symm
  wires := by simp
  nodup := sound.ids
  newIds := List.nodup_nil
  made := nofun
  replaced := nofun
  attached := sound.attached
  connected := by
    intro a b
    rw [List.append_nil]
    rfl

theorem Attached.mono {nodes nodes' : List TopologyNode} {endpoint : CanonicalEndpoint} (attached : Attached nodes endpoint) :
    Attached (nodes ++ nodes') endpoint := by
  intro nodeId same
  rw [List.map_append]
  exact List.mem_append_left _ (attached nodeId same)

variable {turn : Nat} {joins : List (CanonicalEndpoint × CanonicalEndpoint)} {split : SplitSegmentResult} {wireId : Text}

/-- Halving a wire at a node joins the wire's net with the node. -/
theorem connected_split {wire : WebviewWireModel} {working : TopologySnapshot Others}
    (nodup : (working.wires.map WebviewWireModel.id).Nodup) (member : wire ∈ working.wires) (named : wire.id = wireId)
    (first : split.firstWire.fromEnd = wire.fromEnd) (second : split.secondWire.toEnd = wire.toEnd)
    (joint : split.secondWire.fromEnd = split.firstWire.toEnd) :
    Connected ((working.wires.filter fun wire => wire.id ≠ wireId) ++ [split.firstWire, split.secondWire]) a b ↔
      Closure.Joined (working.wires.map ends ++ [ends split.firstWire]) a b := by
  have old : (wire.fromEnd, wire.toEnd) ∈ working.wires.map ends ++ [ends split.firstWire] :=
    List.mem_append_left _ (mem_ends member)
  have hung : (split.firstWire.fromEnd, split.firstWire.toEnd) ∈ working.wires.map ends ++ [ends split.firstWire] :=
    List.mem_append_right _ (List.mem_singleton_self _)
  rw [connected_ends, List.map_append]
  constructor
  · intro joined
    refine joined.map (f := id) fun pair inside => ?_
    rcases List.mem_append.mp inside with inside | inside
    · obtain ⟨other, kept, rfl⟩ := List.mem_map.mp inside
      exact .pair (List.mem_append_left _ (mem_ends (List.mem_filter.mp kept).1))
    · simp only [List.map_cons, List.map_nil, List.mem_cons, List.not_mem_nil, or_false] at inside
      rcases inside with rfl | rfl
      · exact .pair hung
      · show Closure.Joined _ split.secondWire.fromEnd split.secondWire.toEnd
        rw [joint, second]
        exact (Closure.Joined.pair (first ▸ hung)).symm.trans (.pair old)
  · intro joined
    refine joined.map (f := id) fun pair inside => ?_
    have halves : Closure.Joined ((working.wires.filter fun wire => wire.id ≠ wireId).map ends ++
        [split.firstWire, split.secondWire].map ends) split.firstWire.fromEnd split.firstWire.toEnd :=
      .pair (List.mem_append_right _ List.mem_cons_self)
    rcases List.mem_append.mp inside with inside | inside
    · obtain ⟨other, listed, rfl⟩ := List.mem_map.mp inside
      by_cases same : other.id = wireId
      · obtain rfl := eq_of_id nodup listed member (same.trans named.symm)
        show Closure.Joined _ other.fromEnd other.toEnd
        rw [← first, ← second]
        refine halves.trans (.pair (List.mem_append_right _ ?_))
        rw [← joint]
        exact List.mem_cons_of_mem _ List.mem_cons_self
      · exact .pair (List.mem_append_left _ (mem_ends (List.mem_filter.mpr ⟨listed, by simpa using same⟩)))
    · rw [List.mem_singleton.mp inside]
      exact halves

/-- A pair more in one of two lists with one closure. -/
theorem joined_append {α : Type} {ps qs : List (α × α)} {x y : α} (rs : List (α × α))
    (same : ∀ x y, Closure.Joined ps x y ↔ Closure.Joined qs x y) :
    Closure.Joined (ps ++ rs) x y ↔ Closure.Joined (qs ++ rs) x y := by
  have half : ∀ {ps qs : List (α × α)}, (∀ x y, Closure.Joined ps x y → Closure.Joined qs x y) →
      Closure.Joined (ps ++ rs) x y → Closure.Joined (qs ++ rs) x y := by
    intro ps qs sub joined
    refine joined.map (f := id) fun pair inside => ?_
    rcases List.mem_append.mp inside with inside | inside
    · exact (sub _ _ (.pair inside)).mono (List.subset_append_left qs rs)
    · exact .pair (List.mem_append_right _ inside)
  exact ⟨half fun x y => (same x y).mp, half fun x y => (same x y).mpr⟩

theorem Progress.halved (progress : Progress snapshot ids turn state joins) (fresh : FreshIds ids snapshot)
    (splits : Splits state.working wireId (splitIds ids turn) split) :
    Progress snapshot ids (turn + 1) (afterSplit state wireId split) (joins ++ [ends split.firstWire]) := by
  obtain ⟨⟨wire, member, named, first, second⟩, firstId, secondId, joint, made, attached⟩ := splits
  have unused : ∀ i, 2 * turn ≤ i → ∀ other ∈ state.working.wires, other.id ≠ ids.nextWireId i := by
    intro i late other listed same
    rcases (progress.wires other).mp listed with ⟨old, _⟩ | new
    · exact fresh.halves i (same ▸ List.mem_map.mpr ⟨other, old, rfl⟩)
    · obtain ⟨j, early, made⟩ := progress.made other new
      have := fresh.distinct (made.symm.trans same)
      omega
  have firstNew : ∀ other ∈ state.working.wires, other.id ≠ split.firstWire.id := fun other listed => by
    rw [firstId]
    exact unused (2 * turn) (by omega) other listed
  have secondNew : ∀ other ∈ state.working.wires, other.id ≠ split.secondWire.id := fun other listed => by
    rw [secondId]
    exact unused (2 * turn + 1) (by omega) other listed
  have halves : split.firstWire.id ≠ split.secondWire.id := by
    rw [firstId, secondId]
    intro same
    have := fresh.distinct same
    omega
  have inWorking : ∀ other ∈ state.newWires, other ∈ state.working.wires := fun other new =>
    (progress.wires other).mpr (.inr new)
  have erased : ∀ other, other ∈ state.newWires.eraseP (fun wire => wire.id = wireId) ↔
      other ∈ state.newWires ∧ other.id ≠ wireId := by
    intro other
    constructor
    · intro kept
      have listed := List.mem_of_mem_eraseP kept
      refine ⟨listed, fun same => ?_⟩
      have nodup : (state.newWires.map WebviewWireModel.id).Nodup := progress.newIds
      obtain ⟨gone, before, after, absent, hit, split, rest⟩ :=
        List.exists_of_eraseP (p := fun wire => wire.id = wireId) listed (by simpa using same)
      rw [rest] at kept
      rw [split, List.map_append, List.map_cons, List.nodup_append', List.nodup_cons] at nodup
      have hit : gone.id = wireId := by simpa using hit
      rcases List.mem_append.mp kept with kept | kept
      · exact absent other kept (by simpa using same)
      · exact nodup.2.1.1 (hit ▸ same ▸ List.mem_map.mpr ⟨other, kept, rfl⟩)
    · rintro ⟨listed, other'⟩
      exact (List.mem_eraseP_of_neg (by simpa using other')).mpr listed
  have pairNew : ∀ list : List WebviewWireModel, (∀ other ∈ list, other ∈ state.working.wires) →
      (list.map WebviewWireModel.id).Nodup →
      ((list ++ [split.firstWire, split.secondWire]).map WebviewWireModel.id).Nodup := by
    intro list sub nodup
    rw [List.map_append, List.nodup_append']
    refine ⟨nodup, by simpa using halves, fun id left right => ?_⟩
    obtain ⟨other, listed, rfl⟩ := List.mem_map.mp left
    simp only [List.map_cons, List.map_nil, List.mem_cons, List.not_mem_nil, or_false] at right
    exact right.elim (firstNew other (sub other listed)) (secondNew other (sub other listed))
  have splitNew : (∃ other ∈ state.newWires, other.id = wireId) → ∀ other ∈ snapshot.wires, other.id ≠ wireId := by
    rintro ⟨new, listed, rfl⟩ other old same
    obtain ⟨i, _, made⟩ := progress.made new listed
    exact fresh.halves i (made ▸ same ▸ List.mem_map.mpr ⟨other, old, rfl⟩)
  have anyNew : (state.newWires.any fun wire => wire.id = wireId) = true ↔ ∃ other ∈ state.newWires, other.id = wireId := by
    simp
  have listedHalf : ∀ {other}, other ∈ [split.firstWire, split.secondWire] ↔
      other = split.firstWire ∨ other = split.secondWire := by simp
  refine ⟨?_, fun other => ?_, ?_, ?_, fun other listed => ?_, fun id listed => ?_, fun other listed => ?_, fun a b => ?_⟩
  · simp [afterSplit, progress.nodes]
  · unfold afterSplit
    dsimp only
    rw [List.mem_append, List.mem_append, List.mem_filter, progress.wires, erased, decide_eq_true_iff]
    by_cases new : ∃ other ∈ state.newWires, other.id = wireId
    · rw [if_pos (anyNew.mpr new)]
      constructor
      · rintro (⟨old | listed, other'⟩ | half)
        · exact .inl old
        · exact .inr (.inl ⟨listed, other'⟩)
        · exact .inr (.inr half)
      · rintro (old | ⟨listed, other'⟩ | half)
        · exact .inl ⟨.inl old, splitNew new other old.1⟩
        · exact .inl ⟨.inr listed, other'⟩
        · exact .inr half
    · rw [if_neg (new ∘ anyNew.mp), List.mem_append, List.mem_singleton, not_or]
      constructor
      · rintro (⟨old | listed, other'⟩ | half)
        · exact .inl ⟨old.1, old.2, other'⟩
        · exact .inr (.inl ⟨listed, other'⟩)
        · exact .inr (.inr half)
      · rintro (old | ⟨listed, other'⟩ | half)
        · exact .inl ⟨.inl ⟨old.1, old.2.1⟩, old.2.2⟩
        · exact .inl ⟨.inr listed, other'⟩
        · exact .inr half
  · exact pairNew _ (fun other kept => (List.mem_filter.mp kept).1) (progress.nodup.sublist (List.filter_sublist.map _))
  · exact pairNew _ (fun other kept => inWorking other ((erased other).mp kept).1)
      (progress.newIds.sublist ((List.eraseP_sublist).map _))
  · rcases List.mem_append.mp listed with listed | listed
    · obtain ⟨i, early, same⟩ := progress.made other ((erased other).mp listed).1
      exact ⟨i, by omega, same⟩
    · rcases listedHalf.mp listed with rfl | rfl
      · exact ⟨2 * turn, by omega, firstId⟩
      · exact ⟨2 * turn + 1, by omega, secondId⟩
  · unfold afterSplit at listed
    dsimp only at listed
    by_cases new : ∃ other ∈ state.newWires, other.id = wireId
    · rw [if_pos (anyNew.mpr new)] at listed
      exact progress.replaced id listed
    · rw [if_neg (new ∘ anyNew.mp)] at listed
      rcases List.mem_append.mp listed with listed | listed
      · exact progress.replaced id listed
      · have old := ((progress.wires wire).mp member).resolve_right fun inside => new ⟨wire, inside, named⟩
        rw [List.mem_singleton.mp listed, ← named]
        exact List.mem_map.mpr ⟨wire, old.1, rfl⟩
  · have kept := progress.attached wire member
    rcases List.mem_append.mp listed with listed | listed
    · have old := progress.attached other (List.mem_filter.mp listed).1
      exact ⟨old.1.mono, old.2.mono⟩
    · rcases listedHalf.mp listed with rfl | rfl
      · exact ⟨first ▸ kept.1.mono, attached⟩
      · exact ⟨joint ▸ attached, second ▸ kept.2.mono⟩
  · rw [← List.append_assoc]
    exact (connected_split progress.nodup member named first second joint).trans (joined_append _ progress.connected)

theorem Progress.later (progress : Progress snapshot ids turn state joins) :
    Progress snapshot ids (turn + 1) state (joins ++ []) := by
  rw [List.append_nil]
  refine { progress with made := fun wire listed => ?_ }
  obtain ⟨i, early, same⟩ := progress.made wire listed
  exact ⟨i, by omega, same⟩

/-- The end that was found, and the joins of finding it. -/
structure Resolved (symbols : Symbols Others) (snapshot : TopologySnapshot Others) (ids : ConnectEndpointIds) (turn : Nat)
    (state state' : Connecting Others) (joins : List (CanonicalEndpoint × CanonicalEndpoint))
    (endpoint : ConnectionEndpoint) (found : Option CanonicalEndpoint) (landed : Landing) : Prop where
  landing : landing symbols (splitIds ids turn) state.working endpoint = some landed
  progress : Progress snapshot ids (turn + turnsOf endpoint) state' (joins ++ landed.joins)
  found : FoundAgain symbols (splitIds ids turn) state.working endpoint → found = some landed.place
  attached : Attached state'.working.nodes landed.place
  grows : ∀ place, Attached state.working.nodes place → Attached state'.working.nodes place

theorem resolveUnsplit_attached (progress : Progress snapshot ids turn state joins) {point : Point}
    {endpoint : CanonicalEndpoint} (resolved : resolveUnsplit symbols state.working wireId point = .ok endpoint) :
    Attached state.working.nodes endpoint := by
  unfold resolveUnsplit at resolved
  split at resolved
  · next existing found =>
    cases resolved
    rintro nodeId ⟨⟩
    apply @mem_of_findExisting _ point
    cases looked : findExistingJunctionAt state.working.nodes point with
    | none => simp [looked, truthy] at found
    | some id =>
      cases id with
      | nil => simp [looked, truthy] at found
      | cons unit rest => simpa [looked, truthy] using found
  · split at resolved
    · cases resolved
    · next wire hit =>
      have kept := progress.attached wire (findWire_some hit).1
      split at resolved
      · cases resolved
        exact kept.1
      · split at resolved
        · cases resolved
          exact kept.2
        · cases resolved

theorem resolveEndpoint_spec (progress : Progress snapshot ids turn state joins) (fresh : FreshIds ids snapshot)
    {endpoint : ConnectionEndpoint} {found : Option CanonicalEndpoint}
    (resolved : resolveEndpoint symbols (splitIds ids turn) state endpoint = .ok (found, state')) :
    ∃ landed, Resolved symbols snapshot ids turn state state' joins endpoint found landed := by
  cases endpoint with
  | pin componentId pinId =>
    cases resolved
    exact ⟨⟨[], .port componentId pinId⟩, rfl, (List.append_nil joins).symm ▸ progress, fun _ => rfl, nofun, fun _ => id⟩
  | wire wireId point =>
    unfold resolveEndpoint at resolved
    dsimp only at resolved
    cases splitting : splitSegmentAtPoint symbols state.working (targetWireId symbols state.working wireId point) point
      (splitIds ids turn) with
    | none =>
      rw [splitting] at resolved
      cases unsplit : resolveUnsplit symbols state.working (targetWireId symbols state.working wireId point) point with
      | error e =>
        rw [unsplit] at resolved
        cases resolved
      | ok place =>
        rw [unsplit] at resolved
        cases resolved
        refine ⟨⟨[], place⟩, ?_, ?_, fun _ => rfl, resolveUnsplit_attached progress unsplit, fun _ => id⟩
        · simp [landing, splitting, unsplit, Except.toOption]
        · exact progress.later
    | some split =>
      rw [splitting] at resolved
      cases resolved
      have splits := splitSegmentAtPoint_spec splitting
      refine ⟨⟨[ends split.firstWire], split.firstWire.toEnd⟩, ?_, progress.halved fresh splits, fun again => ?_,
        splits.attached, fun place attached => attached.mono⟩
      · simp [landing, splitting]
      · cases made : split.node with
        | some node => simp [splits.made node made]
        | none => simpa using again split splitting made

/-- The working copy once the first end is resolved. -/
def workingAfter (symbols : Symbols Others) (ids : ConnectEndpointIds) (snapshot : TopologySnapshot Others)
    (start : ConnectionEndpoint) : TopologySnapshot Others :=
  match resolveEndpoint symbols (splitIds ids 0) ⟨[], [], [], snapshot⟩ start with
  | .ok (_, state) => state.working
  | .error _ => snapshot

/-- The new drawing: every end is attached, no wire is kept and replaced, and the two places are joined. -/
structure Connects (snapshot : TopologySnapshot Others) (result : ConnectEndpointResult) (first second : Landing) : Prop where
  drawn : result.connectingWire.model.isSome = true
  attached : AllAttached (drawingAfter snapshot result).nodes (drawingAfter snapshot result).wires
  nodup : ((drawingAfter snapshot result).wires.map WebviewWireModel.id).Nodup
  replaced : ∀ id ∈ result.replacedWireIds, id ∉ (drawingAfter snapshot result).wires.map WebviewWireModel.id
  connected : ∀ a b, Connected (drawingAfter snapshot result).wires a b ↔
    Closure.Joined (snapshot.wires.map ends ++ first.joins ++ second.joins ++ [(first.place, second.place)]) a b

theorem joined_congr {α : Type} {ps qs : List (α × α)} {x y : α} (same : ∀ pair, pair ∈ ps ↔ pair ∈ qs) :
    Closure.Joined ps x y ↔ Closure.Joined qs x y :=
  ⟨fun joined => joined.mono fun pair => (same pair).mp, fun joined => joined.mono fun pair => (same pair).mpr⟩

theorem connects_of_progress (sound : WellFormed snapshot) (progress : Progress snapshot ids turn state joins) (fresh : FreshIds ids snapshot)
    {first second : Landing} (split : joins = first.joins ++ second.joins)
    (attached : Attached state.working.nodes first.place) (attached' : Attached state.working.nodes second.place)
    (points : Option (List Point)) :
    Connects snapshot
      { newNodes := state.newNodes
        newWires := state.newWires
        connectingWire := ⟨ids.newWireId, some first.place, some second.place, points⟩
        replacedWireIds := state.replacedWireIds } first second := by
  have wires : ∀ wire, wire ∈ (snapshot.wires.filter fun wire => wire.id ∉ state.replacedWireIds) ++ state.newWires ↔
      wire ∈ state.working.wires := by
    intro wire
    rw [List.mem_append, List.mem_filter, progress.wires, decide_eq_true_iff]
  refine ⟨rfl, ?_, ?_, ?_, fun a b => ?_⟩
  · show AllAttached (snapshot.nodes ++ state.newNodes) _
    rw [← progress.nodes]
    intro wire listed
    rcases List.mem_append.mp listed with listed | listed
    · exact progress.attached wire ((wires wire).mp listed)
    · rw [List.mem_singleton.mp listed]
      exact ⟨attached, attached'⟩
  · show List.Nodup (List.map _ (_ ++ _ ++ _))
    rw [List.map_append, List.map_append, List.nodup_append', List.nodup_append']
    refine ⟨⟨?_, progress.newIds, fun id left right => ?_⟩, List.nodup_singleton _, fun id left right => ?_⟩
    · exact sound.ids.sublist (List.filter_sublist.map _)
    · obtain ⟨old, listed, rfl⟩ := List.mem_map.mp left
      obtain ⟨new, made, same⟩ := List.mem_map.mp right
      obtain ⟨i, _, named⟩ := progress.made new made
      exact fresh.halves i (named ▸ same ▸ List.mem_map.mpr ⟨old, (List.mem_filter.mp listed).1, rfl⟩)
    · obtain rfl : id = ids.newWireId := List.mem_singleton.mp right
      rw [← List.map_append] at left
      obtain ⟨wire, listed, same⟩ := List.mem_map.mp left
      rcases (progress.wires wire).mp ((wires wire).mp listed) with ⟨old, _⟩ | new
      · exact fresh.newWire (same ▸ List.mem_map.mpr ⟨wire, old, rfl⟩)
      · obtain ⟨i, _, named⟩ := progress.made wire new
        exact fresh.apart i (named.symm.trans same)
  · intro id gone inside
    obtain ⟨wire, listed, rfl⟩ := List.mem_map.mp inside
    rcases List.mem_append.mp listed with listed | listed
    · rcases List.mem_append.mp listed with listed | listed
      · exact of_decide_eq_true (List.mem_filter.mp listed).2 gone
      · obtain ⟨i, _, named⟩ := progress.made wire listed
        exact fresh.halves i (named ▸ progress.replaced _ gone)
    · rw [List.mem_singleton.mp listed] at gone
      exact fresh.newWire (progress.replaced _ gone)
  · rw [connected_ends, List.append_assoc (snapshot.wires.map ends), ← split]
    refine Iff.trans (joined_congr fun pair => ?_) (joined_append [(first.place, second.place)] progress.connected)
    show pair ∈ List.map ends (_ ++ [_]) ↔ pair ∈ List.map ends state.working.wires ++ _
    rw [List.map_append, List.mem_append, List.mem_append]
    refine or_congr_left ?_
    rw [List.mem_map, List.mem_map]
    exact exists_congr fun wire => and_congr_left fun _ => wires wire

/-- The net an endpoint stands for: the pin's, or the wire's. -/
inductive Denotes (snapshot : TopologySnapshot Others) : ConnectionEndpoint → CanonicalEndpoint → Prop where
  | pin {componentId pinId} : Denotes snapshot (.pin componentId pinId) (.port componentId pinId)
  | wire {wire point} : wire ∈ snapshot.wires → Denotes snapshot (.wire wire.id point) wire.fromEnd

/-- A wire from `a` runs over the node of `c` without being joined to it. -/
def crossedNode : TopologySnapshot Unit where
  components := [plainResistor (units "a") (-100), plainResistor (units "c") 0, plainResistor (units "d") 100]
  wires := [plainWire (units "w") (.node (units "n1")) (.node (units "n2")),
    plainWire (units "wa") (.port (units "a") (units "pin-1")) (.node (units "n1")),
    plainWire (units "wc") (.port (units "c") (units "pin-1")) (.node (units "j"))]
  nodes := [junctionAt (units "n1") 0 0, junctionAt (units "n2") 80 0, junctionAt (units "j") 40 0]

def numberedIds : ConnectEndpointIds where
  newWireId := units "new"
  nextJunctionId i := units "junction-" ++ List.replicate i 48
  nextWireId i := units "wire-" ++ List.replicate i 48

/-- From the pin of `d` to the middle of the wire. -/
def dToWire (symbols : Symbols Unit) : Except ConnectError ConnectEndpointResult :=
  connectEndpointToNode symbols crossedNode (.pin (units "d") (units "pin-1"))
    (.wire (units "w") ⟨.ofRat 40, .ofRat 0⟩) none numberedIds

def dToWireEnds : List (CanonicalEndpoint × CanonicalEndpoint) :=
  [(.port (units "a") (units "pin-1"), .node (units "n1")), (.port (units "c") (units "pin-1"), .node (units "j")),
    (.node (units "n1"), .node (units "j")), (.node (units "j"), .node (units "n2")),
    (.port (units "d") (units "pin-1"), .node (units "j"))]

theorem crossedNode_evaluated :
    ((crossedNode.wires.map WebviewWireModel.id).Nodup ∧ ∀ wire ∈ crossedNode.wires, ∀ endpoint ∈ [wire.fromEnd, wire.toEnd],
      isPort endpoint = true ∨ endpointId endpoint ∈ crossedNode.nodes.map TopologyNode.id) ∧
    ((∀ id ∈ crossedNode.wires.map WebviewWireModel.id, id.take 5 ≠ units "wire-") ∧
      numberedIds.newWireId ∉ crossedNode.wires.map WebviewWireModel.id ∧
      numberedIds.newWireId.take 5 ≠ units "wire-") ∧
    ((splitSegmentAtPoint plainSymbols crossedNode
        (targetWireId plainSymbols crossedNode (units "w") ⟨.ofRat 40, .ofRat 0⟩) ⟨.ofRat 40, .ofRat 0⟩
        (splitIds numberedIds 0)).map (fun split => split.firstWire.toEnd) = some (.node (units "j")) ∧
      (findExistingJunctionAt crossedNode.nodes ⟨.ofRat 40, .ofRat 0⟩).map CanonicalEndpoint.node =
        some (.node (units "j"))) ∧
    (dToWire plainSymbols).toOption.map (fun result => (drawingAfter crossedNode result).wires.map ends) =
      some dToWireEnds := by
  decide +kernel

theorem crossedNode_wellFormed : WellFormed crossedNode where
  ids := by
    obtain ⟨⟨ids, _⟩, _⟩ := crossedNode_evaluated
    exact ids
  attached := by
    obtain ⟨⟨_, listed⟩, _⟩ := crossedNode_evaluated
    have attached : ∀ wire ∈ crossedNode.wires, ∀ endpoint ∈ [wire.fromEnd, wire.toEnd], Attached crossedNode.nodes endpoint := by
      rintro wire member endpoint inside nodeId rfl
      exact (listed wire member _ inside).resolve_left nofun
    exact fun wire member => ⟨attached wire member _ List.mem_cons_self,
      attached wire member _ (List.mem_cons_of_mem _ List.mem_cons_self)⟩

theorem numberedIds_fresh : FreshIds numberedIds crossedNode := by
  obtain ⟨_, ⟨other, new, apart⟩, _⟩ := crossedNode_evaluated
  have front : ∀ i, (numberedIds.nextWireId i).take 5 = units "wire-" := fun i => rfl
  refine ⟨fun i member => other _ member (front i), fun i j same => ?_, new, fun i same => ?_⟩
  · have lengths := congrArg List.length same
    simpa [numberedIds] using lengths
  · have heads := congrArg (List.take 5) same
    rw [front] at heads
    exact apart heads.symm

theorem dToWire_ends : (dToWire plainSymbols).toOption.map (fun result => (drawingAfter crossedNode result).wires.map ends) =
    some dToWireEnds := by
  obtain ⟨_, _, _, ended⟩ := crossedNode_evaluated
  exact ended

theorem dToWire_ok : ∃ result, dToWire plainSymbols = .ok result := by
  have ended := dToWire_ends
  cases ran : dToWire plainSymbols with
  | error e =>
    rw [ran] at ended
    cases ended
  | ok result => exact ⟨result, rfl⟩

theorem dToWire_again : FoundAgain plainSymbols (splitIds numberedIds 0) crossedNode
    (.wire (units "w") ⟨.ofRat 40, .ofRat 0⟩) := by
  obtain ⟨_, _, ⟨reused, looked⟩, _⟩ := crossedNode_evaluated
  intro split found _
  rw [found] at reused
  exact looked.trans reused.symm

end LasecSimul.Drawing
