import LasecSimul.Drawing.Electrical
import LasecSimul.Dsl.Document
import LasecSimul.Lib.EcmaNumber

/-!
# Geometry of orthogonal wires (`wireGeometry.ts`, `wireRouting.ts`)

Points are compared with a tolerance of half a pixel. A route is resolved from its two ends and its recorded corners.
-/

namespace LasecSimul.Drawing

open Dsl (WebviewPoint)
open Lib.EcmaNumber (Number)

abbrev Point := WebviewPoint

def half : Number := .ofRat (1 / 2)

def wireGridSize : Number := .ofRat 8

/-- `Math.abs(a - b) < 0.5`. -/
def near (a b : Number) : Bool := (a - b).abs.lt half

def sameX (a b : Point) : Bool := near a.x b.x

def sameY (a b : Point) : Bool := near a.y b.y

def samePoint (a b : Point) : Bool := sameX a b && sameY a b

/-! ### Paths of one wire -/

/-- The points are held last first. -/
def appendPoint (points : List Point) (point : Point) : List Point :=
  match points with
  | [] => [point]
  | last :: _ => if samePoint last point then points else point :: points

/-- The corners that turn, last first; `normalized` starts with the first point. -/
def dropStraight (normalized : List Point) : List Point → List Point
  | [] => normalized
  | [last] => last :: normalized
  | current :: next :: rest =>
    match normalized with
    | [] => dropStraight [current] (next :: rest)
    | prev :: _ =>
      if (sameX prev current && sameX current next) || (sameY prev current && sameY current next) then
        dropStraight normalized (next :: rest)
      else dropStraight (current :: normalized) (next :: rest)

def normalizeOrthogonalPath (points : List Point) : List Point :=
  if points.length ≤ 2 then points
  else
    let deduped := (points.foldl appendPoint []).reverse
    if deduped.length ≤ 2 then deduped else (dropStraight [] deduped).reverse

def isOrthogonalPath : List Point → Bool
  | [] | [_] => true
  | a :: b :: rest => (sameX a b || sameY a b) && isOrthogonalPath (b :: rest)

/-- Repeated points are dropped, but the last point keeps its coordinates; `deduped` is held last first. -/
def dropRepeated (deduped : List Point) : List Point → List Point
  | [] => deduped
  | point :: rest =>
    match deduped with
    | [] => dropRepeated [point] rest
    | previous :: before =>
      if samePoint previous point then dropRepeated (if rest.isEmpty then point :: before else deduped) rest
      else dropRepeated (point :: deduped) rest

def simplifyRound (current : List Point) : List Point := (dropStraight [] (dropRepeated [] current).reverse).reverse

def simplifyRounds : Nat → List Point → List Point
  | 0, current => current
  | guard + 1, current =>
    let next := simplifyRound current
    if next.length = current.length then next else simplifyRounds guard next

def simplifyWirePath (points : List Point) : List Point := simplifyRounds (points.length + 1) points

inductive LegAxis where
  | h
  | v
  deriving DecidableEq

def defaultWirePath (start stop : Point) (firstAxis : Option LegAxis) : List Point :=
  if sameX start stop || sameY start stop then [start, stop]
  else
    let dominant := if (stop.y - start.y).abs.le (stop.x - start.x).abs then LegAxis.h else .v
    match firstAxis.getD dominant with
    | .h => [start, ⟨stop.x, start.y⟩, stop]
    | .v => [start, ⟨start.x, stop.y⟩, stop]

def slideCornerToward (stop corner beyond : Point) : Point :=
  if sameX corner beyond && !sameY corner beyond then ⟨corner.x, stop.y⟩
  else if sameY corner beyond && !sameX corner beyond then ⟨stop.x, corner.y⟩
  else if (corner.y - stop.y).abs.le (corner.x - stop.x).abs then ⟨corner.x, stop.y⟩
  else ⟨stop.x, corner.y⟩

def aligned (a b : Point) : Bool := sameX a b || sameY a b

/-- An elbow for every diagonal between recorded corners; `full` is held last first. -/
def insertElbows (full : List Point) : List Point → List Point
  | [] => full
  | point :: rest =>
    match full with
    | [] => insertElbows [point] rest
    | previous :: _ =>
      if aligned previous point then insertElbows (point :: full) rest
      else insertElbows (point :: ⟨point.x, previous.y⟩ :: full) rest

/-- The first corner slides along the second leg when the start is not aligned with it. -/
def slideFirst (start : Point) : List Point → List Point
  | first :: second :: rest =>
    (if aligned start first then first else slideCornerToward start first second) :: second :: rest
  | points => points

def resolveWirePath (start : Point) (interior : Option (List Point)) (stop : Point) (firstAxis : Option LegAxis) :
    List Point :=
  match interior.getD [] with
  | [] => defaultWirePath start stop firstAxis
  | corner :: rest =>
    let points := corner :: rest
    let direct := start :: points ++ [stop]
    if isOrthogonalPath direct then simplifyWirePath direct
    else if rest.isEmpty then
      if samePoint corner start || samePoint corner stop then defaultWirePath start stop firstAxis
      else
        let horizontalFirst := sameY start corner || sameX corner stop
        let verticalFirst := sameX start corner || sameY corner stop
        let axis :=
          if horizontalFirst != verticalFirst then if horizontalFirst then LegAxis.h else .v
          else if (corner.y - start.y).abs.le (corner.x - start.x).abs then .h else .v
        simplifyWirePath (defaultWirePath start stop (some axis))
    else
      let slid := (slideFirst stop (slideFirst start points).reverse).reverse
      simplifyWirePath (insertElbows [start] (slid ++ [stop])).reverse

/-- `slice(1, -1)`. -/
def inner (points : List Point) : List Point := points.tail.dropLast

def interiorOfPath (full : List Point) : List Point := inner (simplifyWirePath full)

end LasecSimul.Drawing

/-!
## Topology of a drawing (`wireTopology.ts`)

Wires join pins and topology nodes. Loading a drawing merges coincident nodes, cuts wires with a missing end, and
removes the nodes that join nothing. Where a pin of a symbol lies is a parameter.
-/

namespace LasecSimul.Drawing

open Dsl (Text units CanonicalEndpoint TopologyNode WebviewComponentModel WebviewWireModel)
open Lib (OrderedMap)
open Lib.EcmaNumber (Number numberText)

structure TopologySnapshot (Others : Type) where
  components : List (WebviewComponentModel Others)
  wires : List WebviewWireModel
  nodes : List TopologyNode

inductive ConnectionDirection where
  | left
  | right
  | top
  | bottom
  deriving DecidableEq

/-- The scene position of a pin by its index, the side it leaves its symbol, and `Math.hypot`. -/
structure Symbols (Others : Type) where
  pinPlace : WebviewComponentModel Others → Nat → Point
  pinSide : WebviewComponentModel Others → Nat → ConnectionDirection
  hypot : Number → Number → Number

variable {Others : Type} (symbols : Symbols Others)

def pinIndex (component : WebviewComponentModel Others) (pinId : Text) : Option Nat :=
  component.pins.findIdx? fun pin => pin.id = pinId

def findComponent (components : List (WebviewComponentModel Others)) (id : Text) : Option (WebviewComponentModel Others) :=
  components.find? fun component => component.id = id

def pinScenePosition (components : List (WebviewComponentModel Others)) (componentId pinId : Text)
    (nodes : List TopologyNode) : Option Point :=
  match findComponent components componentId with
  | some component => (pinIndex component pinId).map (symbols.pinPlace component)
  | none =>
    match nodes.find? fun node => node.id = componentId with
    | some node => if pinId = units "pin-1" then some node.position else none
    | none => none

def endpointScenePosition (components : List (WebviewComponentModel Others)) (endpoint : CanonicalEndpoint)
    (nodes : List TopologyNode) : Option Point :=
  pinScenePosition symbols components (endpointId endpoint) (endpointPinId endpoint) nodes

def directionOf (components : List (WebviewComponentModel Others)) : CanonicalEndpoint → Option ConnectionDirection
  | .node _ => none
  | .port componentId pinId =>
    (findComponent components componentId).bind fun component =>
      (pinIndex component pinId).map (symbols.pinSide component)

def isSideways : ConnectionDirection → Bool
  | .left | .right => true
  | .top | .bottom => false

def defaultFirstAxis (components : List (WebviewComponentModel Others)) (wire : WebviewWireModel) : Option LegAxis :=
  match directionOf symbols components wire.fromEnd with
  | some direction => some (if isSideways direction then .h else .v)
  | none => (directionOf symbols components wire.toEnd).map fun direction => if isSideways direction then .v else .h

/-- The polyline of a wire; none when an end has no position. -/
def wirePolylinePoints (components : List (WebviewComponentModel Others)) (wire : WebviewWireModel)
    (nodes : List TopologyNode) : List Point :=
  match endpointScenePosition symbols components wire.fromEnd nodes,
    endpointScenePosition symbols components wire.toEnd nodes with
  | some fromPos, some toPos =>
    match wire.points with
    | some (corner :: rest) => resolveWirePath fromPos (some (corner :: rest)) toPos none
    | _ => resolveWirePath fromPos none toPos
        (if aligned fromPos toPos then none else defaultFirstAxis symbols components wire)
  | _, _ => []

/-- `points.length > 0 ? points : undefined`. -/
def orUndefined (points : List Point) : Option (List Point) := if points.isEmpty then none else some points

def sameCorners (first second : List Point) : Bool :=
  first.length == second.length && (first.zip second).all fun pair => samePoint pair.1 pair.2

def mergeCollinearWire (snapshot : TopologySnapshot Others) (wire : WebviewWireModel) : WebviewWireModel :=
  let full := wirePolylinePoints symbols snapshot.components wire snapshot.nodes
  if full.length < 2 then wire
  else
    let internal := inner (normalizeOrthogonalPath full)
    if sameCorners internal (wire.points.getD []) then wire else { wire with points := orUndefined internal }

def mergeCollinearSegments (snapshot : TopologySnapshot Others) : TopologySnapshot Others :=
  { snapshot with wires := snapshot.wires.map (mergeCollinearWire symbols snapshot) }

def touches (nodeId : Text) (wire : WebviewWireModel) : Bool :=
  endpointId wire.fromEnd = nodeId ∨ endpointId wire.toEnd = nodeId

/-- The class of a wire that is kept: `lineClass ? { lineClass } : {}`. -/
def shownClass : Option Text → Option Text
  | some (unit :: rest) => some (unit :: rest)
  | _ => none

/-- The corners of two wires joined at a node. -/
def mergedPoints (components : List (WebviewComponentModel Others)) (nodes : List TopologyNode) (node : TopologyNode)
    (wireA wireB : WebviewWireModel) : List Point :=
  let aEndsAtNode := endpointId wireA.toEnd = node.id
  let bEndsAtNode := endpointId wireB.toEnd = node.id
  let fullA := wirePolylinePoints symbols components wireA nodes
  let fullB := wirePolylinePoints symbols components wireB nodes
  if 2 ≤ fullA.length ∧ 2 ≤ fullB.length then
    let towardNode := if aEndsAtNode then fullA else fullA.reverse
    let awayFromNode := if bEndsAtNode then fullB.reverse else fullB
    interiorOfPath (towardNode ++ awayFromNode.tail)
  else
    let pointsA := if aEndsAtNode then wireA.points.getD [] else (wireA.points.getD []).reverse
    let pointsB := if bEndsAtNode then (wireB.points.getD []).reverse else wireB.points.getD []
    normalizeOrthogonalPath (pointsA ++ node.position :: pointsB)

/-- One wire for the two wires at a node. -/
def mergedWire (components : List (WebviewComponentModel Others)) (nodes : List TopologyNode) (node : TopologyNode)
    (wireA wireB : WebviewWireModel) : WebviewWireModel where
  id := wireA.id
  fromEnd := if endpointId wireA.toEnd = node.id then wireA.fromEnd else wireA.toEnd
  toEnd := if endpointId wireB.toEnd = node.id then wireB.fromEnd else wireB.toEnd
  points := orUndefined (mergedPoints symbols components nodes node wireA wireB)
  lineClass := shownClass wireA.lineClass
  isHidden := if wireA.isHidden = some true ∧ wireB.isHidden = some true then some true else none

/-- The wires and nodes of a pass, and whether it has changed them. -/
structure Sweep where
  wires : List WebviewWireModel
  nodes : List TopologyNode
  changed : Bool

def removeNode (nodes : List TopologyNode) (nodeId : Text) : List TopologyNode := nodes.filter fun node => node.id ≠ nodeId

/-- One node of a pass. -/
def sweepNode (components : List (WebviewComponentModel Others)) (sweep : Sweep) (nodeId : Text) : Sweep :=
  match sweep.nodes.find? fun node => node.id = nodeId with
  | none => sweep
  | some node =>
    match sweep.wires.filter (touches nodeId) with
    | [] => { sweep with nodes := removeNode sweep.nodes nodeId, changed := true }
    | [wire] =>
      { wires := sweep.wires.filter fun other => other.id ≠ wire.id
        nodes := removeNode sweep.nodes nodeId
        changed := true }
    | [wireA, wireB] =>
      -- a node between two line classes is a visible change of style
      if wireA.lineClass ≠ wireB.lineClass then sweep
      else
        { wires := mergedWire symbols components sweep.nodes node wireA wireB ::
            sweep.wires.filter fun other => other.id ≠ wireA.id ∧ other.id ≠ wireB.id
          nodes := removeNode sweep.nodes nodeId
          changed := true }
    | _ => sweep

def sweepNodes (components : List (WebviewComponentModel Others)) (sweep : Sweep) : Sweep :=
  (sweep.nodes.map TopologyNode.id).foldl (sweepNode symbols components) { sweep with changed := false }

/-- The passes; the bound on their number shrinks with the nodes. -/
def sweeps (components : List (WebviewComponentModel Others)) : Nat → Nat → Sweep → Sweep
  | 0, _, sweep => sweep
  | fuel + 1, guard, sweep =>
    if guard < sweep.nodes.length + 1 then
      let next := sweepNodes symbols components sweep
      if next.changed then sweeps components fuel (guard + 1) next else next
    else sweep

def removeOrphanNodes (snapshot : TopologySnapshot Others) : TopologySnapshot Others :=
  let swept := sweeps symbols snapshot.components (snapshot.nodes.length + 1) 0
    { wires := snapshot.wires, nodes := snapshot.nodes, changed := true }
  { snapshot with wires := swept.wires, nodes := swept.nodes }

/-- The text of the rounded position. -/
def posKey (node : TopologyNode) : Text :=
  Dsl.ofChars (numberText node.position.x.round.value) ++ units ":" ++
    Dsl.ofChars (numberText node.position.y.round.value)

structure Deduplication where
  canonicalNodeIdByPosition : OrderedMap Text Text
  nodeIdRemap : OrderedMap Text Text
  dedupedNodes : List TopologyNode

/-- An empty id counts as none. -/
def truthy : Option Text → Option Text
  | some [] => none
  | found => found

def dedupeNode (state : Deduplication) (node : TopologyNode) : Deduplication :=
  match truthy (state.canonicalNodeIdByPosition.get (posKey node)) with
  | some canonicalId => { state with nodeIdRemap := state.nodeIdRemap.set node.id canonicalId }
  | none =>
    { state with
      canonicalNodeIdByPosition := state.canonicalNodeIdByPosition.set (posKey node) node.id
      dedupedNodes := state.dedupedNodes ++ [node] }

def dedupe (nodes : List TopologyNode) : Deduplication := nodes.foldl dedupeNode ⟨.empty, .empty, []⟩

def remapEndpointRef (nodeIdRemap : OrderedMap Text Text) : CanonicalEndpoint → CanonicalEndpoint
  | .port componentId pinId => .port componentId pinId
  | .node nodeId =>
    match truthy (nodeIdRemap.get nodeId) with
    | some canonical => .node canonical
    | none => .node nodeId

def endpointStillValid (components : List (WebviewComponentModel Others)) (nodes : List TopologyNode) :
    CanonicalEndpoint → Bool
  | .node nodeId => nodeId ∈ nodes.map TopologyNode.id
  | .port componentId _ => componentId ∈ components.map WebviewComponentModel.id

def cleanWire (components : List (WebviewComponentModel Others)) (state : Deduplication) (wire : WebviewWireModel) :
    Option WebviewWireModel :=
  let valid := endpointStillValid components state.dedupedNodes
  let fromEnd := remapEndpointRef state.nodeIdRemap wire.fromEnd
  let toEnd := remapEndpointRef state.nodeIdRemap wire.toEnd
  -- the ends are checked before they are redirected, too
  if !valid wire.fromEnd || !valid wire.toEnd then none
  else if !valid fromEnd || !valid toEnd then none
  else if fromEnd = toEnd then none
  else some { wire with fromEnd, toEnd, points := wire.points.bind fun points => orUndefined (normalizeOrthogonalPath points) }

def normalizeWireGeometry (snapshot : TopologySnapshot Others) : TopologySnapshot Others :=
  let deduplication := dedupe snapshot.nodes
  let cleaned : TopologySnapshot Others :=
    { components := snapshot.components
      wires := snapshot.wires.filterMap (cleanWire snapshot.components deduplication)
      nodes := deduplication.dedupedNodes }
  removeOrphanNodes symbols (mergeCollinearSegments symbols cleaned)

end LasecSimul.Drawing
