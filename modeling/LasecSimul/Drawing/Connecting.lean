import LasecSimul.Drawing.Topology

/-!
# Connecting two endpoints (`connectEndpointToNode`)

A connection may start and end on a wire, which is then split. Both ends are resolved one after the other on a working
copy of the drawing.
-/

namespace LasecSimul.Drawing

open Dsl (Text CanonicalEndpoint TopologyNode WebviewComponentModel WebviewWireModel)
open Lib.EcmaNumber (Number)

variable {Others : Type} (symbols : Symbols Others)

def clamp (value a b : Number) : Number := Number.max (Number.min value (Number.max a b)) (Number.min a b)

def nearestPointOnOrthogonalSegment (point start stop : Point) : Point :=
  if sameX start stop then ⟨start.x, clamp point.y start.y stop.y⟩ else ⟨clamp point.x start.x stop.x, start.y⟩

def snapCoordinate (value step : Number) : Number := (value / step).round * step

def nearestSnappedPointOnOrthogonalSegment (point start stop : Point) (step : Number) : Point :=
  let nearest := nearestPointOnOrthogonalSegment point start stop
  if sameX start stop then ⟨start.x, clamp (snapCoordinate nearest.y step) start.y stop.y⟩
  else ⟨clamp (snapCoordinate nearest.x step) start.x stop.x, start.y⟩

def distance (a b : Point) : Number := symbols.hypot (a.x - b.x) (a.y - b.y)

def squaredDistance (a b : Point) : Number :=
  let dx := a.x - b.x
  let dy := a.y - b.y
  dx * dx + dy * dy

/-- The point with the split point put in; `withSplit` is held last first. -/
def insertSplit (splitPoint : Point) (inserted : Bool) (withSplit : List Point) : List Point → List Point
  | [] => withSplit
  | stop :: rest =>
    match withSplit with
    | [] => insertSplit splitPoint inserted [stop] rest
    | start :: _ =>
      let nearest := nearestPointOnOrthogonalSegment splitPoint start stop
      if !inserted && (squaredDistance nearest splitPoint).lt (.ofRat 1) then
        let withNearest := appendPoint withSplit nearest
        insertSplit splitPoint true (if samePoint nearest stop then withNearest else appendPoint withNearest stop) rest
      else insertSplit splitPoint inserted (appendPoint withSplit stop) rest

structure RouteSplit where
  first : List Point
  second : List Point

def splitWireRouteAtPoint (fullPoints : List Point) (splitPoint : Point) : RouteSplit :=
  match fullPoints with
  | [] | [_] => ⟨[], []⟩
  | start :: rest =>
    let withSplit := (insertSplit splitPoint false [start] rest).reverse
    match withSplit.findIdx? fun point => samePoint point splitPoint with
    | none => ⟨[], []⟩
    | some splitIndex =>
      if splitIndex = 0 ∨ withSplit.length ≤ splitIndex + 1 then ⟨[], []⟩
      else ⟨(withSplit.take splitIndex).tail, (withSplit.drop (splitIndex + 1)).dropLast⟩

/-- An id is `undefined` where there is no node. -/
def findExistingJunctionAt (nodes : List TopologyNode) (point : Point) : Option Text :=
  (nodes.find? fun node => samePoint node.position point).map TopologyNode.id

structure SplitSegmentIds where
  junctionId : Text
  firstWireId : Text
  secondWireId : Text

structure SplitSegmentResult where
  node : Option TopologyNode
  firstWire : WebviewWireModel
  secondWire : WebviewWireModel

/-- The first segment whose snapped projection is close enough. -/
def findSplitPoint (rawPoint : Point) : List Point → Option Point
  | start :: stop :: rest =>
    let projected := nearestSnappedPointOnOrthogonalSegment rawPoint start stop wireGridSize
    if (sameY start stop || sameX start stop) && (distance symbols projected rawPoint).le wireGridSize then some projected
    else findSplitPoint rawPoint (stop :: rest)
  | _ => none

def findWire (wires : List WebviewWireModel) (wireId : Text) : Option WebviewWireModel :=
  wires.find? fun wire => wire.id = wireId

/-- One half of a wire; `hidden` and `lineClass` are inherited. -/
def halfWire (wire : WebviewWireModel) (id : Text) (fromEnd toEnd : CanonicalEndpoint) (points : List Point) :
    WebviewWireModel where
  id := id
  fromEnd := fromEnd
  toEnd := toEnd
  points := orUndefined points
  lineClass := shownClass wire.lineClass
  isHidden := if wire.isHidden = some true then some true else none

def splitWire (nodes : List TopologyNode) (wire : WebviewWireModel) (split : RouteSplit) (splitPoint : Point)
    (ids : SplitSegmentIds) : SplitSegmentResult :=
  let existingJunctionId := findExistingJunctionAt nodes splitPoint
  let junctionId := existingJunctionId.getD ids.junctionId
  { node := if (truthy existingJunctionId).isSome then none else some ⟨junctionId, splitPoint⟩
    firstWire := halfWire wire ids.firstWireId wire.fromEnd (.node junctionId) split.first
    secondWire := halfWire wire ids.secondWireId (.node junctionId) wire.toEnd split.second }

def splitSegmentAtPoint (snapshot : TopologySnapshot Others) (wireId : Text) (rawPoint : Point) (ids : SplitSegmentIds) :
    Option SplitSegmentResult :=
  (findWire snapshot.wires wireId).bind fun wire =>
    let fullPoints := wirePolylinePoints symbols snapshot.components wire snapshot.nodes
    match fullPoints.head?, fullPoints.getLast? with
    | some first, some last =>
      if fullPoints.length < 2 then none
      else
        (findSplitPoint symbols rawPoint fullPoints).bind fun splitPoint =>
          if samePoint splitPoint first || samePoint splitPoint last then none
          else some (splitWire snapshot.nodes wire (splitWireRouteAtPoint fullPoints splitPoint) splitPoint ids)
    | _, _ => none

/-- Whether a segment of the polyline passes the point at half a pixel. -/
def passes (point : Point) : List Point → Bool
  | start :: stop :: rest =>
    let vertical := sameX start stop
    let nearest : Point :=
      if vertical then ⟨start.x, clamp point.y start.y stop.y⟩ else ⟨clamp point.x start.x stop.x, start.y⟩
    ((sameY start stop || vertical) && (distance symbols nearest point).le half) || passes point (stop :: rest)
  | _ => false

def findWireAtPoint (snapshot : TopologySnapshot Others) (point : Point) : Option Text :=
  (snapshot.wires.find? fun wire =>
    passes symbols point (wirePolylinePoints symbols snapshot.components wire snapshot.nodes)).map WebviewWireModel.id

/-! ### Connecting -/

inductive ConnectionEndpoint where
  | pin (componentId pinId : Text)
  | wire (wireId : Text) (point : Point)

/-- The ids the caller makes, in the order it makes them. -/
structure ConnectEndpointIds where
  newWireId : Text
  nextJunctionId : Nat → Text
  nextWireId : Nat → Text

/-- The new wire. An end is `none` when it is a node whose id is `undefined`. -/
structure ConnectingWire where
  id : Text
  fromEnd : Option CanonicalEndpoint
  toEnd : Option CanonicalEndpoint
  points : Option (List Point)

/-- `connectingWire` is the last of the source's `newWires`. -/
structure ConnectEndpointResult where
  newNodes : List TopologyNode
  newWires : List WebviewWireModel
  connectingWire : ConnectingWire
  replacedWireIds : List Text

structure Connecting (Others : Type) where
  newNodes : List TopologyNode
  newWires : List WebviewWireModel
  replacedWireIds : List Text
  working : TopologySnapshot Others

inductive ConnectError where
  | noSegment

/-- The wire an endpoint names, or the one at the point when a split has replaced it. -/
def targetWireId (working : TopologySnapshot Others) (wireId : Text) (point : Point) : Text :=
  if (working.wires.any fun wire => wire.id = wireId) then wireId
  else (findWireAtPoint symbols working point).getD wireId

def closeTo (position : Option Point) (point : Point) : Bool :=
  position.elim false fun position => (distance symbols position point).le (wireGridSize / .ofRat 2)

/-- An end that splits nothing: the node at the point, or an end of the wire. -/
def resolveUnsplit (working : TopologySnapshot Others) (wireId : Text) (point : Point) :
    Except ConnectError CanonicalEndpoint :=
  match truthy (findExistingJunctionAt working.nodes point) with
  | some existing => .ok (.node existing)
  | none =>
    match findWire working.wires wireId with
    | none => .error .noSegment
    | some wire =>
      if closeTo symbols (endpointScenePosition symbols working.components wire.fromEnd working.nodes) point then
        .ok wire.fromEnd
      else if closeTo symbols (endpointScenePosition symbols working.components wire.toEnd working.nodes) point then
        .ok wire.toEnd
      else .error .noSegment

/-- The state after a split: the halves take the place of the wire. -/
def afterSplit (state : Connecting Others) (wireId : Text) (split : SplitSegmentResult) : Connecting Others where
  newNodes := state.newNodes ++ split.node.toList
  newWires := (state.newWires.eraseP fun wire => wire.id = wireId) ++ [split.firstWire, split.secondWire]
  replacedWireIds :=
    if state.newWires.any fun wire => wire.id = wireId then state.replacedWireIds else state.replacedWireIds ++ [wireId]
  working :=
    { state.working with
      wires := (state.working.wires.filter fun wire => wire.id ≠ wireId) ++ [split.firstWire, split.secondWire]
      nodes := state.working.nodes ++ split.node.toList }

/-- `turn` counts the ends on wires before this one. -/
def splitIds (ids : ConnectEndpointIds) (turn : Nat) : SplitSegmentIds where
  junctionId := ids.nextJunctionId turn
  firstWireId := ids.nextWireId (2 * turn)
  secondWireId := ids.nextWireId (2 * turn + 1)

def resolveEndpoint (ids : SplitSegmentIds) (state : Connecting Others) (endpoint : ConnectionEndpoint) :
    Except ConnectError (Option CanonicalEndpoint × Connecting Others) :=
  match endpoint with
  | .pin componentId pinId => .ok (some (.port componentId pinId), state)
  | .wire wireId point =>
    let wireId := targetWireId symbols state.working wireId point
    match splitSegmentAtPoint symbols state.working wireId point ids with
    | none => (resolveUnsplit symbols state.working wireId point).map fun found => (some found, state)
    | some split =>
      -- a reused node is looked up at the clicked point, not at the split point
      let nodeId := (split.node.map TopologyNode.id).or (findExistingJunctionAt state.working.nodes point)
      .ok (nodeId.map .node, afterSplit state wireId split)

def turnsOf : ConnectionEndpoint → Nat
  | .pin _ _ => 0
  | .wire _ _ => 1

def connectEndpointToNode (snapshot : TopologySnapshot Others) (start stop : ConnectionEndpoint)
    (routePoints : Option (List Point)) (ids : ConnectEndpointIds) : Except ConnectError ConnectEndpointResult :=
  do
    let (fromRef, state) ← resolveEndpoint symbols (splitIds ids 0) ⟨[], [], [], snapshot⟩ start
    let (toRef, state) ← resolveEndpoint symbols (splitIds ids (turnsOf start)) state stop
    return { newNodes := state.newNodes
             newWires := state.newWires
             connectingWire := ⟨ids.newWireId, fromRef, toRef, routePoints⟩
             replacedWireIds := state.replacedWireIds }

def ConnectingWire.model (wire : ConnectingWire) : Option WebviewWireModel :=
  match wire.fromEnd, wire.toEnd with
  | some fromEnd, some toEnd => some { plainWire wire.id fromEnd toEnd with points := wire.points }
  | _, _ => none

/-- The replaced wires are deleted, the new nodes and wires added. -/
def drawingAfter (snapshot : TopologySnapshot Others) (result : ConnectEndpointResult) : TopologySnapshot Others where
  components := snapshot.components
  wires := (snapshot.wires.filter fun wire => wire.id ∉ result.replacedWireIds) ++ result.newWires ++
    result.connectingWire.model.toList
  nodes := snapshot.nodes ++ result.newNodes

end LasecSimul.Drawing
