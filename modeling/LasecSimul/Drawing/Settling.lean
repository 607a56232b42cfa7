import LasecSimul.Drawing.Lines
import LasecSimul.Drawing.Orphans

/-!
# Loading twice (`normalizeWireGeometry`)

Loading a drawing that was loaded changes nothing when the passes settle, the wires keep their ends and their line runs
through horizontal and vertical segments.
-/

namespace LasecSimul.Drawing

open Dsl (Text CanonicalEndpoint TopologyNode WebviewComponentModel WebviewWireModel)
open Lib (OrderedMap)

variable {Others : Type} {symbols : Symbols Others} {components : List (WebviewComponentModel Others)}
  {snapshot : TopologySnapshot Others} {nodes : List TopologyNode} {wires : List WebviewWireModel}
  {wire : WebviewWireModel} {sweep : Sweep} {nodeId : Text} {start stop : Point} {path : List Point}

/-- No later node has the rounded position of a node with an id. -/
def NodesApart (nodes : List TopologyNode) : Prop :=
  nodes.Pairwise fun first later => posKey first = posKey later → first.id = []

theorem dedupe_concat (nodes : List TopologyNode) (node : TopologyNode) :
    dedupe (nodes ++ [node]) = dedupeNode (dedupe nodes) node := List.foldl_concat ..

theorem dedupe_sublist (nodes : List TopologyNode) : (dedupe nodes).dedupedNodes.Sublist nodes := by
  induction nodes using List.reverseRecOn with
  | nil => exact .refl _
  | append_singleton nodes node ih =>
    rw [dedupe_concat]
    unfold dedupeNode
    split
    · exact ih.trans (List.sublist_append_left ..)
    · exact ih.append (.refl _)

theorem dedupe_apart (nodes : List TopologyNode) : NodesApart (dedupe nodes).dedupedNodes := by
  induction nodes using List.reverseRecOn with
  | nil => exact .nil
  | append_singleton nodes node ih =>
    have known := (dedupe_spec nodes).canonical (posKey node)
    rw [dedupe_concat]
    unfold dedupeNode
    split
    · exact ih
    · next fresh =>
      refine List.pairwise_append.mpr ⟨ih, List.pairwise_singleton .., fun first member later last same => ?_⟩
      obtain rfl := List.mem_singleton.mp last
      by_contra named
      exact known.mpr ⟨first, (dedupe_sublist nodes).subset member, same, named⟩ fresh

theorem dedupe_of_apart (apart : NodesApart nodes) :
    (dedupe nodes).dedupedNodes = nodes ∧ ∀ nodeId, (dedupe nodes).nodeIdRemap.get nodeId = none := by
  induction nodes using List.reverseRecOn with
  | nil => exact ⟨rfl, fun _ => rfl⟩
  | append_singleton nodes node ih =>
    obtain ⟨before, _, cross⟩ := List.pairwise_append.mp apart
    obtain ⟨kept, unmapped⟩ := ih before
    have known := (dedupe_spec nodes).canonical (posKey node)
    rw [dedupe_concat]
    unfold dedupeNode
    split
    · next found =>
      obtain ⟨first, member, same, named⟩ := known.mp (found ▸ Option.some_ne_none _)
      exact absurd (cross first member node (List.mem_singleton_self _) same) named
    · exact ⟨congrArg (· ++ [node]) kept, unmapped⟩

/-- The passes over single wires leave the corners of the wire as they are. -/
structure Steady (symbols : Symbols Others) (components : List (WebviewComponentModel Others))
    (nodes : List TopologyNode) (wire : WebviewWireModel) : Prop where
  corners : (wire.points.bind fun points => orUndefined (normalizeOrthogonalPath points)) = wire.points
  redrawn : mergeCollinearWire symbols ⟨components, [], nodes⟩ wire = wire

/-- A drawn wire runs on a line between the places of its ends. -/
theorem wirePolylinePoints_line (long : 2 ≤ (wirePolylinePoints symbols components wire nodes).length) :
    ∃ start stop, endpointScenePosition symbols components wire.fromEnd nodes = some start ∧
      endpointScenePosition symbols components wire.toEnd nodes = some stop ∧
      Line start stop (wirePolylinePoints symbols components wire nodes) := by
  unfold wirePolylinePoints at long ⊢
  split at long
  · next start stop fromPlace toPlace =>
    refine ⟨start, stop, fromPlace, toPlace, ?_⟩
    split at long
    · exact resolveWirePath_line long
    · exact resolveWirePath_line long
  · simp at long

theorem orUndefined_cons (corner : Point) (rest : List Point) :
    orUndefined (corner :: rest) = some (corner :: rest) := rfl

/-- A wire whose corners are those of an orthogonal line is steady. -/
theorem steady_of_corners {corners : List Point}
    (fromPlace : endpointScenePosition symbols components wire.fromEnd nodes = some start)
    (toPlace : endpointScenePosition symbols components wire.toEnd nodes = some stop)
    (recorded : wire.points = orUndefined corners) (orthogonal : isOrthogonalPath (start :: (corners ++ [stop])) = true)
    (simple : corners = [] ∨ Simple (start :: (corners ++ [stop]))) : Steady symbols components nodes wire := by
  cases corners with
  | nil =>
    have straight : aligned start stop = true := by simpa [isOrthogonalPath, aligned] using orthogonal
    have drawn : wirePolylinePoints symbols components wire nodes = [start, stop] := by
      unfold wirePolylinePoints
      rw [fromPlace, toPlace, recorded]
      dsimp only [orUndefined, List.isEmpty_nil, if_true]
      rw [if_pos straight]
      exact if_pos straight
    refine ⟨by rw [recorded]; rfl, ?_⟩
    unfold mergeCollinearWire
    dsimp only
    rw [drawn, recorded]
    rfl
  | cons corner rest =>
    have simple := simple.resolve_left (List.cons_ne_nil _ _)
    have line : Line start stop (start :: ((corner :: rest) ++ [stop])) :=
      ⟨rfl, @List.getLast?_concat _ (start :: corner :: rest) stop, by simp, .inr simple⟩
    have corners : inner (start :: ((corner :: rest) ++ [stop])) = corner :: rest :=
      @List.dropLast_concat _ (corner :: rest) stop
    have drawn : wirePolylinePoints symbols components wire nodes = start :: ((corner :: rest) ++ [stop]) := by
      unfold wirePolylinePoints
      rw [fromPlace, toPlace, recorded, orUndefined_cons]
      have again := line.drawn_again orthogonal (by rw [corners]; exact List.cons_ne_nil _ _) none
      rwa [corners] at again
    constructor
    · have normal := simple.inner.normalized
      rw [corners] at normal
      rw [recorded, orUndefined_cons, Option.bind_some, normal, orUndefined_cons]
    · unfold mergeCollinearWire
      dsimp only
      rw [drawn, line.normalized, corners, if_neg (by simp)]
      split
      · rfl
      · rw [← recorded]

/-- A wire gets the corners of its line. -/
def redraws (symbols : Symbols Others) (snapshot : TopologySnapshot Others) (wire : WebviewWireModel) : Bool :=
  let full := wirePolylinePoints symbols snapshot.components wire snapshot.nodes
  2 ≤ full.length && !sameCorners (inner (normalizeOrthogonalPath full)) (wire.points.getD [])

/-- The line of a wire that gets new corners is orthogonal, and the corners of any other are normalized. -/
def Drawable (symbols : Symbols Others) (snapshot : TopologySnapshot Others) (wire : WebviewWireModel) : Prop :=
  if redraws symbols snapshot wire then
    isOrthogonalPath (wirePolylinePoints symbols snapshot.components wire snapshot.nodes) = true
  else normalizeOrthogonalPath (wire.points.getD []) = wire.points.getD []

theorem mergeCollinearWire_steady (drawable : Drawable symbols snapshot wire) (cornered : wire.points ≠ some []) :
    Steady symbols snapshot.components snapshot.nodes (mergeCollinearWire symbols snapshot wire) := by
  unfold Drawable at drawable
  split at drawable
  · next redrawn =>
    simp only [redraws, Bool.and_eq_true, decide_eq_true_iff, Bool.not_eq_true'] at redrawn
    obtain ⟨start, stop, fromPlace, toPlace, line⟩ := wirePolylinePoints_line redrawn.1
    unfold mergeCollinearWire
    dsimp only
    rw [if_neg (Nat.not_lt.mpr redrawn.1), redrawn.2, if_neg Bool.false_ne_true, line.normalized]
    rw [line.eq] at drawable
    refine steady_of_corners fromPlace toPlace rfl drawable ?_
    refine line.calm.imp (fun two => List.length_eq_zero_iff.mp ?_) fun simple => line.eq ▸ simple
    unfold inner
    rw [List.length_dropLast, List.length_tail]
    omega
  · next kept =>
    have same : mergeCollinearWire symbols snapshot wire = wire := by
      simp only [redraws, Bool.and_eq_true, decide_eq_true_iff, Bool.not_eq_true', not_and, Bool.not_eq_false] at kept
      unfold mergeCollinearWire
      dsimp only
      split
      · rfl
      · next long => rw [if_pos (kept (Nat.le_of_not_lt long))]
    rw [same]
    refine ⟨?_, same⟩
    cases shape : wire.points with
    | none => rfl
    | some points =>
      rw [shape] at drawable cornered
      cases points with
      | nil => exact absurd rfl cornered
      | cons corner rest =>
        rw [Option.getD_some] at drawable
        rw [Option.bind_some, drawable, orUndefined_cons]

end LasecSimul.Drawing

/-!
## Orphan removal and loading settle

In the run of the passes the wires stay steady, and a wire from a node to itself is the only one there. So the loaded
drawing is one that loading leaves as it is.
-/

namespace LasecSimul.Drawing

open Dsl (Text units CanonicalEndpoint TopologyNode WebviewComponentModel WebviewWireModel)

variable {Others : Type} {symbols : Symbols Others} {components : List (WebviewComponentModel Others)}
  {snapshot : TopologySnapshot Others} {nodes : List TopologyNode} {wires : List WebviewWireModel}
  {wire wireA wireB : WebviewWireModel} {node : TopologyNode} {sweep : Sweep} {nodeId : Text} {start stop : Point}
  {path : List Point}

theorem find_removeNode {id : Text} (other : id ≠ nodeId) :
    (removeNode nodes nodeId).find? (fun node => node.id = id) = nodes.find? fun node => node.id = id := by
  unfold removeNode
  rw [List.find?_filter]
  refine congrArg (List.find? · nodes) (funext fun node => ?_)
  by_cases same : node.id = id
  · simp [same, other]
  · simp [same]

/-- An end that stays known stays where it was. -/
theorem endpointScenePosition_removeNode {endpoint : CanonicalEndpoint}
    (valid : endpointStillValid components nodes endpoint = true) (other : endpoint ≠ .node nodeId) :
    endpointScenePosition symbols components endpoint (removeNode nodes nodeId) =
      endpointScenePosition symbols components endpoint nodes := by
  unfold endpointScenePosition pinScenePosition
  cases endpoint with
  | node id =>
    have kept : (removeNode nodes nodeId).find? (fun node => node.id = endpointId (.node id)) =
        nodes.find? fun node => node.id = endpointId (.node id) :=
      find_removeNode fun same => other (congrArg _ same)
    rw [kept]
  | port componentId pinId =>
    cases found : findComponent components componentId with
    | some component => simp only [endpointId, found]
    | none =>
      unfold endpointStillValid at valid
      obtain ⟨component, member, same⟩ := List.mem_map.mp (of_decide_eq_true valid)
      exact absurd same (by simpa using List.find?_eq_none.mp found component member)

theorem wirePolylinePoints_removeNode
    (valid : endpointStillValid components nodes wire.fromEnd = true ∧
      endpointStillValid components nodes wire.toEnd = true)
    (other : wire.fromEnd ≠ .node nodeId ∧ wire.toEnd ≠ .node nodeId) :
    wirePolylinePoints symbols components wire (removeNode nodes nodeId) =
      wirePolylinePoints symbols components wire nodes := by
  unfold wirePolylinePoints
  rw [endpointScenePosition_removeNode valid.1 other.1, endpointScenePosition_removeNode valid.2 other.2]

theorem Steady.removeNode (steady : Steady symbols components nodes wire)
    (valid : endpointStillValid components nodes wire.fromEnd = true ∧
      endpointStillValid components nodes wire.toEnd = true)
    (other : wire.fromEnd ≠ .node nodeId ∧ wire.toEnd ≠ .node nodeId) :
    Steady symbols components (removeNode nodes nodeId) wire := by
  refine ⟨steady.corners, ?_⟩
  have redrawn := steady.redrawn
  unfold mergeCollinearWire at redrawn ⊢
  dsimp only at redrawn ⊢
  rwa [wirePolylinePoints_removeNode valid other]

/-- The wires are drawn before they are joined. -/
def BothDrawn (symbols : Symbols Others) (components : List (WebviewComponentModel Others)) (sweep : Sweep)
    (wireA wireB : WebviewWireModel) : Prop :=
  2 ≤ (wirePolylinePoints symbols components wireA sweep.nodes).length ∧
    2 ≤ (wirePolylinePoints symbols components wireB sweep.nodes).length

/-- The line through the corners of the joined wire is orthogonal; where no line is drawn, its corners are those that
the passes over single wires leave. -/
def JoinsDrawn (symbols : Symbols Others) (components : List (WebviewComponentModel Others)) (sweep : Sweep)
    (node : TopologyNode) (wireA wireB : WebviewWireModel) : Prop :=
  (BothDrawn symbols components sweep wireA wireB → ∀ start stop,
    endpointScenePosition symbols components (outerEnd node.id wireA) sweep.nodes = some start →
    endpointScenePosition symbols components (outerEnd node.id wireB) sweep.nodes = some stop →
    isOrthogonalPath (start :: (mergedPoints symbols components sweep.nodes node wireA wireB ++ [stop])) = true) ∧
  (¬ BothDrawn symbols components sweep wireA wireB → Steady symbols components (removeNode sweep.nodes node.id)
    (mergedWire symbols components sweep.nodes node wireA wireB))

/-- The polyline of a drawn wire runs from its outer end to the node, and back when it is reversed. -/
theorem outer_line (drawn : 2 ≤ (wirePolylinePoints symbols components wire nodes).length) (nodeId : Text) :
    ∃ start, endpointScenePosition symbols components (outerEnd nodeId wire) nodes = some start ∧
      (if endpointId wire.toEnd = nodeId then wirePolylinePoints symbols components wire nodes
        else (wirePolylinePoints symbols components wire nodes).reverse).head? = some start := by
  obtain ⟨start, stop, fromPlace, toPlace, line⟩ := wirePolylinePoints_line drawn
  unfold outerEnd
  split
  · exact ⟨start, fromPlace, line.head⟩
  · exact ⟨stop, toPlace, by rw [List.head?_reverse, line.last]⟩

theorem inner_short (short : path.length < 2) : inner path = [] := by
  match path with
  | [] | [_] => rfl
  | _ :: _ :: _ => simp at short

/-- A joined path runs from the start of the first to the end of the second. -/
theorem interiorOfPath_joined {toward away : List Point} (head : toward.head? = some start)
    (last : away.getLast? = some stop) (long : 2 ≤ away.length) :
    interiorOfPath (toward ++ away.tail) = [] ∨
      Simple (start :: (interiorOfPath (toward ++ away.tail) ++ [stop])) := by
  obtain ⟨rest, rfl⟩ : ∃ rest, toward = start :: rest := by
    cases toward with
    | nil => cases head
    | cons first rest => exact ⟨rest, by cases head; rfl⟩
  have ends : (start :: (rest ++ away.tail)).getLast? = some stop := by
    match away with
    | [] | [_] => simp at long
    | first :: second :: others =>
      rw [List.getLast?_cons_cons] at last
      rw [List.tail_cons, ← List.cons_append, List.getLast?_append, last]
      rfl
  unfold interiorOfPath
  rw [List.cons_append]
  by_cases collapsed : (simplifyWirePath (start :: (rest ++ away.tail))).length < 2
  · exact .inl (inner_short collapsed)
  · have line := simplifyWirePath_line ends (Nat.le_of_not_lt collapsed)
    refine line.calm.imp (fun two => List.length_eq_zero_iff.mp ?_) fun simple => line.eq ▸ simple
    unfold inner
    rw [List.length_dropLast, List.length_tail]
    omega

theorem mergedPoints_simple (drawn : BothDrawn symbols components sweep wireA wireB)
    (fromPlace : endpointScenePosition symbols components (outerEnd node.id wireA) sweep.nodes = some start)
    (toPlace : endpointScenePosition symbols components (outerEnd node.id wireB) sweep.nodes = some stop) :
    mergedPoints symbols components sweep.nodes node wireA wireB = [] ∨
      Simple (start :: (mergedPoints symbols components sweep.nodes node wireA wireB ++ [stop])) := by
  obtain ⟨startA, placeA, head⟩ := outer_line drawn.1 node.id
  obtain ⟨startB, placeB, last⟩ := outer_line drawn.2 node.id
  obtain rfl := Option.some.inj (placeA.symm.trans fromPlace)
  obtain rfl := Option.some.inj (placeB.symm.trans toPlace)
  unfold mergedPoints
  dsimp only
  rw [if_pos (And.intro drawn.1 drawn.2)]
  refine interiorOfPath_joined head ?_ ?_
  · split at last
    · next atNode => rw [if_pos atNode, List.getLast?_reverse, last]
    · next atOther => rwa [if_neg atOther, ← List.head?_reverse]
  · split
    · rw [List.length_reverse]
      exact drawn.2
    · exact drawn.2

theorem mergedWire_steady (merges : Merges sweep nodeId node wireA wireB)
    (exist : EndsExist components sweep.nodes sweep.wires)
    (kept : outerEnd nodeId wireA ≠ .node nodeId ∧ outerEnd nodeId wireB ≠ .node nodeId)
    (joins : JoinsDrawn symbols components sweep node wireA wireB) :
    Steady symbols components (removeNode sweep.nodes nodeId)
      (mergedWire symbols components sweep.nodes node wireA wireB) := by
  obtain rfl := merges.node_id
  by_cases drawn : BothDrawn symbols components sweep wireA wireB
  · obtain ⟨start, fromPlace, _⟩ := outer_line drawn.1 node.id
    obtain ⟨stop, toPlace, _⟩ := outer_line drawn.2 node.id
    have validA := outerEnd_valid node.id (exist wireA merges.mem.1)
    have validB := outerEnd_valid node.id (exist wireB merges.mem.2)
    refine steady_of_corners ?_ ?_ rfl (joins.1 drawn start stop fromPlace toPlace)
      (mergedPoints_simple drawn fromPlace toPlace)
    · exact (endpointScenePosition_removeNode validA kept.1).trans fromPlace
    · exact (endpointScenePosition_removeNode validB kept.2).trans toPlace
  · exact joins.2 drawn

/-- Only nodes have such wires, and no other wire is there. -/
def LoopsAlone (wires : List WebviewWireModel) : Prop :=
  ∀ wire ∈ wires, wire.fromEnd = wire.toEnd → ∃ id, wire.fromEnd = .node id ∧ wires.filter (touches id) = [wire]

/-- The outer ends of the two wires differ, or are a node that only these two wires touch. -/
def MergesApart (sweep : Sweep) (nodeId : Text) (wireA wireB : WebviewWireModel) : Prop :=
  outerEnd nodeId wireA = outerEnd nodeId wireB → ∃ id, outerEnd nodeId wireA = .node id ∧
    ∀ wire ∈ sweep.wires, touches id wire = true → touches nodeId wire = true

theorem touches_outerEnd {id : Text} (outer : endpointId (outerEnd nodeId wire) = id) : touches id wire = true := by
  unfold outerEnd at outer
  simp only [touches, decide_eq_true_iff]
  split at outer
  · exact .inl outer
  · exact .inr outer

theorem touches_of_ends (id : Text) {a b : CanonicalEndpoint} (shape : ends wire = (a, b)) :
    touches id wire = true ↔ endpointId a = id ∨ endpointId b = id := by
  obtain ⟨rfl, rfl⟩ := Prod.mk.inj shape
  simp [touches]

theorem filter_touches_sub {id : Text} (sub : wires.Sublist sweep.wires) (member : wire ∈ wires)
    (there : touches id wire = true) (alone : sweep.wires.filter (touches id) = [wire]) :
    wires.filter (touches id) = [wire] := by
  have listed : wire ∈ wires.filter (touches id) := List.mem_filter.mpr ⟨member, there⟩
  rcases List.sublist_singleton.mp (alone ▸ sub.filter (touches id)) with none | one
  · rw [none] at listed
    exact absurd listed List.not_mem_nil
  · exact one

theorem Rewired.loopsAlone (rewired : Rewired symbols components sweep nodeId wires) (alone : LoopsAlone sweep.wires)
    (apart : ∀ node wireA wireB, Merges sweep nodeId node wireA wireB → MergesApart sweep nodeId wireA wireB) :
    LoopsAlone wires := by
  cases rewired with
  | dead sub untouched =>
    intro wire member loop
    obtain ⟨id, place, only⟩ := alone wire (sub.subset member) loop
    exact ⟨id, place, filter_touches_sub sub member (by simp [touches, place, endpointId]) only⟩
  | @joined node wireA wireB rest merges sub untouched =>
    have shape := mergedWire_ends symbols components sweep.nodes wireA wireB merges.node_id
    obtain ⟨fromEnd, toEnd⟩ := Prod.mk.inj shape
    intro wire member loop
    rcases List.mem_cons.mp member with rfl | member
    · rw [fromEnd, toEnd] at loop
      obtain ⟨id, place, only⟩ := apart node wireA wireB merges loop
      refine ⟨id, fromEnd.trans place, ?_⟩
      have there := (touches_of_ends id shape).mpr (.inl (congrArg endpointId place))
      rw [List.filter_cons_of_pos there, List.filter_eq_nil_iff.mpr fun other listed touched => ?_]
      have cut := untouched other listed
      rw [only other (sub.subset listed) touched] at cut
      cases cut
    · obtain ⟨id, place, only⟩ := alone wire (sub.subset member) loop
      have away : ∀ other ∈ [wireA, wireB], endpointId (outerEnd nodeId other) ≠ id := by
        intro other listed outer
        have touching : other ∈ sweep.wires.filter (touches nodeId) := merges.touching ▸ listed
        have here : other ∈ sweep.wires.filter (touches id) :=
          List.mem_filter.mpr ⟨(List.mem_filter.mp touching).1, touches_outerEnd outer⟩
        rw [only, List.mem_singleton] at here
        have cut := untouched wire member
        rw [← here, (List.mem_filter.mp touching).2] at cut
        cases cut
      have absent : ¬ touches id (mergedWire symbols components sweep.nodes node wireA wireB) = true := by
        rw [touches_of_ends id shape, not_or]
        exact ⟨away wireA (by simp), away wireB (by simp)⟩
      refine ⟨id, place, ?_⟩
      rw [List.filter_cons_of_neg absent]
      exact filter_touches_sub sub member (by simp [touches, place, endpointId]) only

/-- In a settled drawing no wire begins and ends at the same place. -/
theorem ends_differ (settled : Settled nodes wires) (exist : EndsExist components nodes wires)
    (alone : LoopsAlone wires) (member : wire ∈ wires) : wire.fromEnd ≠ wire.toEnd := by
  intro loop
  obtain ⟨id, place, only⟩ := alone wire member loop
  have known := (exist wire member).1
  rw [place] at known
  obtain ⟨node, listed, rfl⟩ := List.mem_map.mp (of_decide_eq_true known)
  rcases settled node listed with three | ⟨wireA, wireB, two, _⟩
  · rw [only] at three
    simp at three
  · rw [only] at two
    cases two

/-- The drawing whose orphan nodes are removed. -/
def loadedSnapshot (symbols : Symbols Others) (snapshot : TopologySnapshot Others) : TopologySnapshot Others :=
  mergeCollinearSegments symbols (cleanedSnapshot snapshot)

structure LoadsCleanly (symbols : Symbols Others) (snapshot : TopologySnapshot Others) : Prop where
  inTime : InTime symbols (loadedSnapshot symbols snapshot)
  keepsEnds : KeepsEnds symbols (loadedSnapshot symbols snapshot)
  drawable : ∀ wire ∈ (cleanedSnapshot snapshot).wires, Drawable symbols (cleanedSnapshot snapshot) wire
  merges : ∀ sweep nodeId node wireA wireB, Visited symbols (loadedSnapshot symbols snapshot) sweep nodeId →
    Merges sweep nodeId node wireA wireB →
      MergesApart sweep nodeId wireA wireB ∧ JoinsDrawn symbols snapshot.components sweep node wireA wireB

/-- What the passes keep of a loaded drawing. -/
structure Loaded (symbols : Symbols Others) (components : List (WebviewComponentModel Others))
    (nodes : List TopologyNode) (wires : List WebviewWireModel) : Prop where
  exist : EndsExist components nodes wires
  alone : LoopsAlone wires
  steady : ∀ wire ∈ wires, Steady symbols components nodes wire
  apart : NodesApart nodes

theorem Loaded.rewired (loaded : Loaded symbols components sweep.nodes sweep.wires)
    (rewired : Rewired symbols components sweep nodeId wires)
    (kept : ∀ node wireA wireB, Merges sweep nodeId node wireA wireB →
      outerEnd nodeId wireA ≠ .node nodeId ∧ outerEnd nodeId wireB ≠ .node nodeId)
    (merges : ∀ node wireA wireB, Merges sweep nodeId node wireA wireB →
      MergesApart sweep nodeId wireA wireB ∧ JoinsDrawn symbols components sweep node wireA wireB) :
    Loaded symbols components (removeNode sweep.nodes nodeId) wires := by
  have others : ∀ {wires : List WebviewWireModel}, wires.Sublist sweep.wires →
      (∀ wire ∈ wires, touches nodeId wire = false) →
      ∀ wire ∈ wires, Steady symbols components (removeNode sweep.nodes nodeId) wire :=
    fun sub untouched wire member => (loaded.steady wire (sub.subset member)).removeNode
      (loaded.exist wire (sub.subset member)) (ne_node_of_touches (untouched wire member))
  refine ⟨rewired.endsExist loaded.exist kept,
    rewired.loopsAlone loaded.alone fun node wireA wireB joined => (merges node wireA wireB joined).1, ?_,
    loaded.apart.sublist List.filter_sublist⟩
  cases rewired with
  | dead sub untouched => exact others sub untouched
  | joined joined sub untouched =>
    intro wire member
    rcases List.mem_cons.mp member with rfl | member
    · exact mergedWire_steady joined loaded.exist (kept _ _ _ joined) (merges _ _ _ joined).2
    · exact others sub untouched wire member

theorem orUndefined_ne (points : List Point) : orUndefined points ≠ some [] := by
  cases points with
  | nil => exact nofun
  | cons point points => exact fun same => List.cons_ne_nil _ _ (Option.some.inj same)

theorem cleanWire_spec {state : Deduplication} {clean : WebviewWireModel}
    (cleaned : cleanWire components state wire = some clean) :
    (endpointStillValid components state.dedupedNodes clean.fromEnd = true ∧
        endpointStillValid components state.dedupedNodes clean.toEnd = true) ∧
      clean.fromEnd ≠ clean.toEnd ∧ clean.points ≠ some [] := by
  unfold cleanWire at cleaned
  dsimp only at cleaned
  split at cleaned
  · cases cleaned
  · split at cleaned
    · cases cleaned
    · next valid =>
      split at cleaned
      · cases cleaned
      · next differ =>
        cases cleaned
        simp only [Bool.or_eq_true, Bool.not_eq_true', not_or, Bool.not_eq_false] at valid
        refine ⟨valid, differ, ?_⟩
        cases wire.points with
        | none => exact nofun
        | some points => exact orUndefined_ne _

theorem loaded_start (symbols : Symbols Others) (snapshot : TopologySnapshot Others)
    (drawable : ∀ wire ∈ (cleanedSnapshot snapshot).wires, Drawable symbols (cleanedSnapshot snapshot) wire) :
    Loaded symbols snapshot.components (loadedSnapshot symbols snapshot).nodes
      (loadedSnapshot symbols snapshot).wires := by
  have origin : ∀ wire ∈ (loadedSnapshot symbols snapshot).wires, ∃ clean ∈ (cleanedSnapshot snapshot).wires,
      mergeCollinearWire symbols (cleanedSnapshot snapshot) clean = wire ∧ ends wire = ends clean := by
    intro wire member
    obtain ⟨clean, listed, rfl⟩ := List.mem_map.mp member
    exact ⟨clean, listed, rfl, (mergeCollinearWire_ends clean).1⟩
  have cleaned : ∀ clean ∈ (cleanedSnapshot snapshot).wires,
      (endpointStillValid snapshot.components (loadedSnapshot symbols snapshot).nodes clean.fromEnd = true ∧
        endpointStillValid snapshot.components (loadedSnapshot symbols snapshot).nodes clean.toEnd = true) ∧
      clean.fromEnd ≠ clean.toEnd ∧ clean.points ≠ some [] := by
    intro clean listed
    obtain ⟨wire, _, cleaned⟩ := List.mem_filterMap.mp listed
    exact cleanWire_spec cleaned
  refine ⟨fun wire member => ?_, fun wire member loop => ?_, fun wire member => ?_, dedupe_apart snapshot.nodes⟩
  · obtain ⟨clean, listed, _, same⟩ := origin wire member
    obtain ⟨fromEnd, toEnd⟩ := Prod.mk.inj same
    rw [fromEnd, toEnd]
    exact (cleaned clean listed).1
  · obtain ⟨clean, listed, _, same⟩ := origin wire member
    obtain ⟨fromEnd, toEnd⟩ := Prod.mk.inj same
    rw [fromEnd, toEnd] at loop
    exact absurd loop (cleaned clean listed).2.1
  · obtain ⟨clean, listed, rfl, _⟩ := origin wire member
    exact mergeCollinearWire_steady (drawable clean listed) (cleaned clean listed).2.2

/-- Loading leaves a settled drawing alone whose wires are steady and join different ends. -/
theorem normalizeWireGeometry_loaded (settled : Settled snapshot.nodes snapshot.wires)
    (loaded : Loaded symbols snapshot.components snapshot.nodes snapshot.wires) :
    normalizeWireGeometry symbols snapshot = snapshot := by
  obtain ⟨kept, unmapped⟩ := dedupe_of_apart loaded.apart
  have remapped : ∀ endpoint, remapEndpointRef (dedupe snapshot.nodes).nodeIdRemap endpoint = endpoint := by
    intro endpoint
    cases endpoint with
    | port componentId pinId => rfl
    | node id =>
      unfold remapEndpointRef
      dsimp only
      rw [unmapped]
      rfl
  have cleaned : ∀ wire ∈ snapshot.wires, cleanWire snapshot.components (dedupe snapshot.nodes) wire = some wire := by
    intro wire member
    obtain ⟨fromValid, toValid⟩ := loaded.exist wire member
    unfold cleanWire
    dsimp only
    rw [remapped, remapped, kept, fromValid, toValid, if_neg (ends_differ settled loaded.exist loaded.alone member),
      (loaded.steady wire member).corners]
    rfl
  have whole : cleanedSnapshot snapshot = snapshot := by
    unfold cleanedSnapshot
    rw [kept, List.filterMap_congr cleaned, List.filterMap_some]
  have collinear : mergeCollinearSegments symbols snapshot = snapshot := by
    unfold mergeCollinearSegments
    have same : snapshot.wires.map (mergeCollinearWire symbols snapshot) = snapshot.wires :=
      (List.map_congr_left fun wire member => (loaded.steady wire member).redrawn).trans (List.map_id' _)
    rw [same]
  change removeOrphanNodes symbols (mergeCollinearSegments symbols (cleanedSnapshot snapshot)) = snapshot
  rw [whole, collinear]
  exact (removeOrphanNodes_eq_iff symbols snapshot).mpr settled

theorem normalizeWireGeometry_again (clean : LoadsCleanly symbols snapshot) :
    normalizeWireGeometry symbols (normalizeWireGeometry symbols snapshot) =
      normalizeWireGeometry symbols snapshot := by
  have settled := (settled_removeOrphanNodes_iff symbols (loadedSnapshot symbols snapshot)).mpr clean.inTime
  have loaded := @afterPasses_keeps _ symbols _ _ (loaded_start symbols snapshot clean.drawable)
    fun sweep nodeId wires visited holds rewired => holds.rewired rewired
      (fun node wireA wireB => clean.keepsEnds sweep nodeId node wireA wireB visited)
      fun node wireA wireB => clean.merges sweep nodeId node wireA wireB visited
  obtain ⟨passes, result⟩ := removeOrphanNodes_eq_afterPasses symbols (loadedSnapshot symbols snapshot)
  refine normalizeWireGeometry_loaded settled ?_
  change Loaded symbols snapshot.components (removeOrphanNodes symbols (loadedSnapshot symbols snapshot)).nodes
    (removeOrphanNodes symbols (loadedSnapshot symbols snapshot)).wires
  rw [result]
  exact loaded passes

/-- A drawing that loading leaves alone is settled. -/
theorem settled_of_normalized (symbols : Symbols Others) (apart : NodesApart snapshot.nodes)
    (same : normalizeWireGeometry symbols snapshot = snapshot) : Settled snapshot.nodes snapshot.wires := by
  have result : removeOrphanNodes symbols (loadedSnapshot symbols snapshot) = snapshot := same
  have nodes : (loadedSnapshot symbols snapshot).nodes = snapshot.nodes := (dedupe_of_apart apart).1
  have settled : Settled (loadedSnapshot symbols snapshot).nodes (loadedSnapshot symbols snapshot).wires := by
    by_contra unsettled
    have fewer := length_removeOrphanNodes_lt symbols _ unsettled
    rw [result, nodes] at fewer
    exact Nat.lt_irrefl _ fewer
  rw [(removeOrphanNodes_eq_iff symbols _).mpr settled] at result
  rwa [result] at settled

/-- Removing orphan nodes reaches its fixed point, and so does loading. -/
structure Reaches (symbols : Symbols Others) (snapshot : TopologySnapshot Others) : Prop where
  settled : Settled (removeOrphanNodes symbols snapshot).nodes (removeOrphanNodes symbols snapshot).wires
  exist : EndsExist snapshot.components (removeOrphanNodes symbols snapshot).nodes
    (removeOrphanNodes symbols snapshot).wires
  again : removeOrphanNodes symbols (removeOrphanNodes symbols snapshot) = removeOrphanNodes symbols snapshot
  normalized : normalizeWireGeometry symbols (normalizeWireGeometry symbols snapshot) =
    normalizeWireGeometry symbols snapshot

theorem removeOrphanNodes_sublist (symbols : Symbols Others) (snapshot : TopologySnapshot Others) :
    (removeOrphanNodes symbols snapshot).nodes.Sublist snapshot.nodes := by
  obtain ⟨passes, result⟩ := removeOrphanNodes_eq_afterPasses symbols snapshot
  rw [result]
  exact @afterPasses_keeps _ symbols snapshot (fun nodes _ => nodes.Sublist snapshot.nodes) (.refl _)
    (fun _ _ _ _ fewer _ => List.filter_sublist.trans fewer) passes

theorem removal_reaches (symbols : Symbols Others) (snapshot : TopologySnapshot Others)
    (exist : EndsExist snapshot.components snapshot.nodes snapshot.wires) :
    (InTime symbols snapshot → KeepsEnds symbols snapshot → LoadsCleanly symbols snapshot → Reaches symbols snapshot) ∧
      (Reaches symbols snapshot → InTime symbols snapshot ∧ InTime symbols (loadedSnapshot symbols snapshot)) := by
  constructor
  · intro inTime keepsEnds clean
    have settled := (settled_removeOrphanNodes_iff symbols snapshot).mpr inTime
    refine ⟨settled, ?_, (removeOrphanNodes_eq_iff symbols _).mpr settled, normalizeWireGeometry_again clean⟩
    obtain ⟨passes, result⟩ := removeOrphanNodes_eq_afterPasses symbols snapshot
    rw [result]
    exact endsExist_afterPasses exist keepsEnds passes
  · intro reaches
    refine ⟨(settled_removeOrphanNodes_iff symbols snapshot).mp reaches.settled,
      (settled_removeOrphanNodes_iff symbols _).mp (settled_of_normalized symbols ?_ reaches.normalized)⟩
    exact (dedupe_apart snapshot.nodes).sublist (removeOrphanNodes_sublist symbols _)

/-! ### A tee and a pair -/

instance : DecidableEq Lib.EcmaNumber.Number := fun a b =>
  decidable_of_iff (a.value = b.value) ⟨fun same => by cases a; cases b; cases same; rfl, congrArg _⟩

deriving instance DecidableEq for Dsl.WebviewPoint, WebviewWireModel, TopologyNode

instance (components : List (WebviewComponentModel Others)) (nodes : List TopologyNode)
    (wires : List WebviewWireModel) : Decidable (EndsExist components nodes wires) :=
  inferInstanceAs (Decidable (∀ wire ∈ wires, _))

/-- A drawing is settled after its first pass, so only that pass merges wires. -/
theorem InTime.of_first
    (settled : Settled (afterPasses symbols snapshot 1).nodes (afterPasses symbols snapshot 1).wires) :
    InTime symbols snapshot := by
  intro passes unsettled
  cases passes with
  | zero => exact Nat.zero_le _
  | succ passes =>
    refine absurd ?_ unsettled
    unfold afterPasses at settled ⊢
    rw [Function.iterate_add_apply]
    exact (passes_shrink symbols snapshot.components).settled_iterate settled passes

theorem Visited.first (settled : Settled (afterPasses symbols snapshot 1).nodes (afterPasses symbols snapshot 1).wires)
    (visited : Visited symbols snapshot sweep nodeId) (merges : Merges sweep nodeId node wireA wireB) :
    ∃ before after, snapshot.nodes.map TopologyNode.id = before ++ nodeId :: after ∧
      sweep = before.foldl (sweepNode symbols snapshot.components) { startSweep snapshot with changed := false } := by
  obtain ⟨passes, before, after, split, reached⟩ := visited
  cases passes with
  | zero => exact ⟨before, after, split, reached⟩
  | succ passes =>
    have still : Settled (afterPasses symbols snapshot (passes + 1)).nodes
        (afterPasses symbols snapshot (passes + 1)).wires := by
      unfold afterPasses at settled ⊢
      rw [Function.iterate_add_apply]
      exact (passes_shrink symbols snapshot.components).settled_iterate settled passes
    have same : sweep = { afterPasses symbols snapshot (passes + 1) with changed := false } := by
      rw [reached]
      refine (visits_spec symbols _ before _).elim And.left fun ⟨_, _, nodeId, known, orphan⟩ => ?_
      obtain ⟨node, member, rfl⟩ := List.mem_map.mp known
      exact absurd (still node member) orphan
    have member := List.mem_of_find?_eq_some merges.found
    have joint := still node (by rw [same] at member; exact member)
    rw [merges.node_id] at joint
    exact absurd (by rw [same]; exact joint) merges.not_joint

/-- Two wires meet at `j` and three at `k`. -/
def tee : TopologySnapshot Unit where
  components := [plainResistor (units "a") 0, plainResistor (units "b") 300]
  wires := [plainWire (units "w1") (.port (units "a") (units "pin-2")) (.node (units "j")),
    plainWire (units "w2") (.node (units "j")) (.node (units "k")),
    plainWire (units "w3") (.node (units "k")) (.port (units "b") (units "pin-1")),
    plainWire (units "w4") (.node (units "k")) (.port (units "b") (units "pin-2"))]
  nodes := [junctionAt (units "j") 100 20, junctionAt (units "k") 200 20]

theorem tee_evaluated :
    ((afterPasses plainSymbols tee 1).nodes = [junctionAt (units "k") 200 20] ∧
      ((afterPasses plainSymbols tee 1).wires.filter (touches (units "k"))).length = 3) ∧
    (tee.nodes.find? (fun node => node.id = units "j") = some (junctionAt (units "j") 100 20) ∧
      tee.wires.filter (touches (units "j")) = tee.wires.take 2 ∧
      ((sweepNode plainSymbols tee.components { startSweep tee with changed := false } (units "j")).wires.filter
        (touches (units "k"))).length = 3) ∧
    ((loadedSnapshot plainSymbols tee).wires = tee.wires ∧ (loadedSnapshot plainSymbols tee).nodes = tee.nodes) ∧
    (cleanedSnapshot tee).wires = tee.wires ∧
      ∀ wire ∈ tee.wires, redraws plainSymbols (cleanedSnapshot tee) wire = false ∧ wire.points = none := by
  decide +kernel

theorem tee_settled : Settled (afterPasses plainSymbols tee 1).nodes (afterPasses plainSymbols tee 1).wires := by
  obtain ⟨⟨nodes, three⟩, _⟩ := tee_evaluated
  intro node member
  rw [nodes, List.mem_singleton] at member
  subst member
  exact .inl (Nat.le_of_eq three.symm)

theorem tee_merges (visited : Visited plainSymbols tee sweep nodeId) (merges : Merges sweep nodeId node wireA wireB) :
    nodeId = units "j" ∧ node = junctionAt (units "j") 100 20 ∧ sweep = { startSweep tee with changed := false } ∧
      tee.wires = wireA :: wireB :: tee.wires.drop 2 := by
  obtain ⟨_, ⟨found, touching, three⟩, _⟩ := tee_evaluated
  obtain ⟨before, after, split, reached⟩ := visited.first tee_settled merges
  match before with
  | [] =>
    obtain rfl : units "j" = nodeId := (List.cons.inj split).1
    have first := merges.found
    have both := merges.touching
    rw [reached] at first both
    exact ⟨rfl, Option.some.inj (first.symm.trans found), reached,
      congrArg (· ++ tee.wires.drop 2) (touching.symm.trans both)⟩
  | [first] =>
    obtain ⟨rfl, rest⟩ := List.cons.inj split
    obtain rfl : units "k" = nodeId := (List.cons.inj rest).1
    have both := merges.touching
    rw [reached] at both
    exact absurd (three.symm.trans (congrArg List.length both)) (by simp)
  | _ :: _ :: before =>
    have long := congrArg List.length split
    simp [tee] at long

theorem tee_loaded : loadedSnapshot plainSymbols tee = tee := by
  obtain ⟨_, _, ⟨wires, nodes⟩, _⟩ := tee_evaluated
  calc loadedSnapshot plainSymbols tee
      = ⟨tee.components, (loadedSnapshot plainSymbols tee).wires, (loadedSnapshot plainSymbols tee).nodes⟩ := rfl
    _ = tee := by rw [wires, nodes]

theorem tee_keepsEnds : KeepsEnds plainSymbols tee := by
  intro sweep nodeId node wireA wireB visited merges
  obtain ⟨rfl, rfl, rfl, wires⟩ := tee_merges visited merges
  obtain ⟨rfl, rest⟩ := List.cons.inj wires
  obtain ⟨rfl, _⟩ := List.cons.inj rest
  decide +kernel

theorem tee_loadsCleanly : LoadsCleanly plainSymbols tee where
  inTime := by
    rw [tee_loaded]
    exact .of_first tee_settled
  keepsEnds := by
    rw [tee_loaded]
    exact tee_keepsEnds
  drawable := by
    obtain ⟨_, _, _, wires, flat⟩ := tee_evaluated
    intro wire member
    rw [wires] at member
    unfold Drawable
    rw [(flat wire member).1, (flat wire member).2, if_neg Bool.false_ne_true]
    rfl
  merges := by
    rw [tee_loaded]
    intro sweep nodeId node wireA wireB visited merges
    obtain ⟨rfl, rfl, rfl, wires⟩ := tee_merges visited merges
    obtain ⟨rfl, rest⟩ := List.cons.inj wires
    obtain ⟨rfl, _⟩ := List.cons.inj rest
    refine ⟨fun same => absurd same (by decide +kernel), ⟨fun _ start stop fromPlace toPlace => ?_, fun undrawn => ?_⟩⟩
    · have first := fromPlace.symm.trans (by decide +kernel : _ = some (⟨.ofRat 64, .ofRat 20⟩ : Point))
      have last := toPlace.symm.trans (by decide +kernel : _ = some (⟨.ofRat 200, .ofRat 20⟩ : Point))
      obtain rfl := Option.some.inj first
      obtain rfl := Option.some.inj last
      decide +kernel
    · exact absurd ⟨by decide +kernel, by decide +kernel⟩ undrawn

theorem removal_reaches_tee : Reaches plainSymbols tee :=
  (removal_reaches plainSymbols tee (by decide +kernel)).1 (.of_first tee_settled) tee_keepsEnds tee_loadsCleanly

/-- Two wires join `n` and `m`, and one joins `m` and a pin. -/
def pair : TopologySnapshot Unit where
  components := [plainResistor (units "a") 0]
  wires := [plainWire (units "w1") (.node (units "n")) (.node (units "m")),
    plainWire (units "w2") (.node (units "n")) (.node (units "m")),
    plainWire (units "w3") (.node (units "m")) (.port (units "a") (units "pin-1"))]
  nodes := [junctionAt (units "n") 100 20, junctionAt (units "m") 200 20]

theorem pair_detached : ¬ ∀ snapshot : TopologySnapshot Unit,
    EndsExist snapshot.components snapshot.nodes snapshot.wires → Reaches plainSymbols snapshot := by
  intro always
  have exist := (always pair (by decide +kernel)).exist
  revert exist
  decide +kernel

end LasecSimul.Drawing
