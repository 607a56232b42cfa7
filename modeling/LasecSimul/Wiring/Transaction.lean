import LasecSimul.Base.Conversions
import LasecSimul.Lib.Fallible
import LasecSimul.Plan.PlanCompiler
import LasecSimul.Wiring.Netlist

/-!
# Wire topology transactions (`applyWireTopologyTransactionUnlocked`)

A transaction runs its operations one after the other on the session and puts back what it saved when one of
them throws. An operation that throws keeps what it wrote before the exception.
-/

namespace LasecSimul.Wiring

open Lib.Numeral Plan

inductive SignalPortDirection where
  | input | output
  deriving DecidableEq

inductive SignalValueKind where
  | analog | digital | unsigned
  deriving DecidableEq

structure SignalPortDescriptor where
  id : String
  direction : SignalPortDirection := .input
  kind : SignalValueKind := .analog
  deriving DecidableEq

/-- What the wiring reads of a component instance. -/
structure ComponentInstance where
  typeId : String
  signalPorts : List SignalPortDescriptor
  pins : List String
  busEndpointPinIds : String → Option (List String)

structure SignalWireDefinition where
  sourceComponent : Nat
  sourcePort : String
  targetComponent : Nat
  targetPort : String
  deriving DecidableEq

structure WireEndpoint where
  component : Nat
  pinId : String
  deriving DecidableEq

inductive WireTopologyOperationKind where
  | connect | disconnect
  deriving DecidableEq

structure WireTopologyOperation where
  kind : WireTopologyOperationKind
  source : WireEndpoint
  target : WireEndpoint
  deriving DecidableEq

/-- The part of `SimulationSession` that wiring reads and writes. `observed` says whether there are signal
subscribers or pause conditions. -/
structure WireSession where
  running : Bool := false
  componentInstances : List (Option ComponentInstance)
  observed : Bool := false
  netlist : Netlist
  signalWires : List SignalWireDefinition := []
  topologyDirty : Bool := false
  topologyReuseSafe : Bool := false
  wireTopologyRevision : UInt64 := 0
  bridgeTopologyRevision : UInt64 := 0
  signalRoutesDirty : Bool := false
  authoringRevision : UInt64 := 0
  electricalPlanRevision : UInt64 := 0
  planInvalidation : PlanInvalidation := ∅

/-- The session a call leaves, with what it returned or threw. -/
abbrev SessionEdit (α : Type) := WireSession × Except Exception α

namespace WireSession

variable (long : LongWidth) (s : WireSession)

/-- Only called with one domain. -/
def invalidatePlan (domain : PlanDomain) : WireSession :=
  let domains : PlanInvalidation := if domain = .electrical ∧ s.observed then {domain, .signal} else {domain}
  { s with
    signalRoutesDirty := s.signalRoutesDirty || decide (.signal ∈ domains)
    authoringRevision := s.authoringRevision + 1
    electricalPlanRevision := s.electricalPlanRevision + if .electrical ∈ domains then 1 else 0
    planInvalidation := s.planInvalidation ∪ domains }

def isComponentRemoved (component : Nat) : Except Exception Bool :=
  orThrow s.netlist.componentRemoved[component]? (.outOfRange "vector<bool>::at")

def pinSlotsOf (component : Nat) : Except Exception PinSlots :=
  orThrow s.netlist.componentPinSlots[component]? (.outOfRange "vector::at")

/-- The slot of a pin with exactly this id. -/
def slotAt (slots : PinSlots) (pinId : String) : Except Exception Nat :=
  orThrow (slots.lookup pinId) (.outOfRange "unordered_map::at")

/-- The number of a pin id `pin-N`: `std::stoul` that reads the whole text. -/
def oneBased (pinId : String) : Option Nat := do
  let scanned ← scanInteger 10 (pinId.toList.drop "pin-".length)
  if "pin-".toList.isPrefixOf pinId.toList ∧ scanned.magnitude < 2 ^ long.bits ∧ scanned.rest = [] then
    some (wrapUnsigned long.bits scanned.value).toNat
  else none

/-- The exact id first, then the position that `pin-N` names. -/
def resolveSlot (inst : ComponentInstance) (component : Nat) (pinId : String) : Except Exception Nat := do
  let slots ← s.pinSlotsOf component
  match slots.lookup pinId with
  | some slot => .ok slot
  | none =>
    let position ← orThrow (oneBased long pinId) (.outOfRange ("pin inexistente: " ++ pinId))
    throwIf (position = 0) (.outOfRange ("pin inexistente: " ++ pinId))
    let positional ← orThrow inst.pins[position - 1]? (.outOfRange ("pin inexistente: " ++ pinId))
    slotAt slots positional

/-- The slots a wire is connected to: one, or one for each bit of a bus. -/
def resolveEndpoint (inst : ComponentInstance) (endpoint : WireEndpoint) : Except Exception (List Nat) :=
  match inst.busEndpointPinIds endpoint.pinId with
  | some busPins => busPins.mapM (s.resolveSlot long inst endpoint.component)
  | none => (s.resolveSlot long inst endpoint.component endpoint.pinId).map fun slot => [slot]

def instanceAt (component : Nat) : Option ComponentInstance := s.componentInstances[component]?.join

def findSignalPort (endpoint : WireEndpoint) : Option SignalPortDescriptor := do
  let inst ← s.instanceAt endpoint.component
  inst.signalPorts.find? fun port => port.id = endpoint.pinId

def isRelayTunnel (component : Nat) : Bool :=
  (s.instanceAt component).any fun inst => inst.typeId = "connectors.signal_tunnel"

def SignalPortDirection.complement : SignalPortDirection → SignalPortDirection
  | .output => .input
  | .input => .output

/-- The directions the two ends of a wire have; a relay takes the one that the other end leaves to it. -/
def effectiveDirections (componentA : Nat) (portA : SignalPortDescriptor) (componentB : Nat)
    (portB : SignalPortDescriptor) : SignalPortDirection × SignalPortDirection :=
  if s.isRelayTunnel componentA ∧ ¬s.isRelayTunnel componentB then
    (SignalPortDirection.complement portB.direction, portB.direction)
  else if s.isRelayTunnel componentB ∧ ¬s.isRelayTunnel componentA then
    (portA.direction, SignalPortDirection.complement portA.direction)
  else if s.isRelayTunnel componentA ∧ s.isRelayTunnel componentB ∧ portA.direction = portB.direction then
    (.output, .input)
  else (portA.direction, portB.direction)

/-- The wire between two signal ports, from its source to its target. -/
def orientedWire (componentA : Nat) (portA : SignalPortDescriptor) (componentB : Nat) (portB : SignalPortDescriptor) :
    Except Exception SignalWireDefinition := do
  let (effectiveA, effectiveB) := s.effectiveDirections componentA portA componentB portB
  throwIf (effectiveA = effectiveB) (.invalidArgument (
    if effectiveA = .output then
      "SimulationSession::connectWire: não é possível ligar duas portas Signal Graph Output"
    else "SimulationSession::connectWire: não é possível ligar duas portas Signal Graph Input"))
  let wire : SignalWireDefinition :=
    if effectiveA = .output then ⟨componentA, portA.id, componentB, portB.id⟩
    else ⟨componentB, portB.id, componentA, portA.id⟩
  throwIf (portA.kind ≠ portB.kind) (.invalidArgument (
    "SimulationSession::connectWire: tipos de sinal incompatíveis entre " ++ wire.sourcePort ++ " e " ++ wire.targetPort))
  return wire

def connectSignalWire (componentA : Nat) (portA : SignalPortDescriptor) (componentB : Nat)
    (portB : SignalPortDescriptor) : SessionEdit Unit :=
  match s.orientedWire componentA portA componentB portB with
  | .error e => (s, .error e)
  | .ok wire =>
    if s.signalWires.any fun existing =>
        existing.targetComponent = wire.targetComponent ∧ existing.targetPort = wire.targetPort then
      (s, .error (.invalidArgument (
        "SimulationSession::connectWire: porta Signal Graph de entrada já possui um fio conectado: " ++ wire.targetPort)))
    else
      ({ s with
          signalWires := s.signalWires ++ [wire]
          bridgeTopologyRevision := s.bridgeTopologyRevision + 1
          wireTopologyRevision := s.wireTopologyRevision + 1 }.invalidatePlan .signal, .ok ())

/-- The wire joins the two ends, in either direction. -/
def matchesSignalWire (a b : WireEndpoint) (wire : SignalWireDefinition) : Bool :=
  wire = ⟨a.component, a.pinId, b.component, b.pinId⟩ || wire = ⟨b.component, b.pinId, a.component, a.pinId⟩

def disconnectSignalWire (a b : WireEndpoint) : WireSession × Bool :=
  if s.signalWires.any (matchesSignalWire a b) then
    ({ s with
        signalWires := s.signalWires.eraseP (matchesSignalWire a b)
        bridgeTopologyRevision := s.bridgeTopologyRevision + 1
        wireTopologyRevision := s.wireTopologyRevision + 1 }.invalidatePlan .signal, true)
  else (s, false)

def connectSlots : List (Nat × Nat) → Netlist → Edit Unit
  | [], net => (net, .ok ())
  | (slotA, slotB) :: rest, net =>
    match net.connectWire slotA slotB with
    | (connected, .ok ()) => connectSlots rest connected
    | (stopped, .error e) => (stopped, .error e)

/-- Whether one of the wires was there. -/
def disconnectSlots : List (Nat × Nat) → Bool → Netlist → Edit Bool
  | [], removed, net => (net, .ok removed)
  | (slotA, slotB) :: rest, removed, net =>
    match net.disconnectWire slotA slotB with
    | (disconnected, .ok found) => disconnectSlots rest (found || removed) disconnected
    | (stopped, .error e) => (stopped, .error e)

def connectElectricalWire (pairs : List (Nat × Nat)) : SessionEdit Unit :=
  match connectSlots pairs s.netlist with
  | (netlist, .error e) => ({ s with netlist }, .error e)
  | (netlist, .ok ()) =>
    ({ s with
        netlist
        topologyDirty := true
        topologyReuseSafe := if s.topologyDirty then s.topologyReuseSafe else true
        wireTopologyRevision := s.wireTopologyRevision + 1 }.invalidatePlan .electrical, .ok ())

def disconnectElectricalWire (pairs : List (Nat × Nat)) : SessionEdit Bool :=
  match disconnectSlots pairs false s.netlist with
  | (netlist, .error e) => ({ s with netlist }, .error e)
  | (netlist, .ok false) => ({ s with netlist }, .ok false)
  | (netlist, .ok true) =>
    ({ s with
        netlist
        topologyDirty := true
        topologyReuseSafe := false
        wireTopologyRevision := s.wireTopologyRevision + 1 }.invalidatePlan .electrical, .ok true)

/-- The checks of `connectWireUnlocked` on one end. -/
def checkEndpoint (endpoint : WireEndpoint) : Except Exception Unit := do
  throwIf (endpoint.component.testBit 31) (.invalidArgument (
    "SimulationSession::connectWire: o pino \"" ++ endpoint.pinId ++
      "\" não existe na interface do subcircuito (instância " ++ toString endpoint.component ++ ")"))
  throwIf (s.componentInstances.length ≤ endpoint.component) (.invalidArgument (
    "SimulationSession::connectWire: componente inexistente: " ++ toString endpoint.component))

/-- The instances of both ends, when neither is removed. -/
def connectable (a b : WireEndpoint) : Except Exception (ComponentInstance × ComponentInstance) := do
  throwIf s.running (.runtimeError "connectWire requer simulacao parada para publicar ElectricalPlan")
  s.checkEndpoint a
  s.checkEndpoint b
  throwIf (← s.isComponentRemoved a.component) (.invalidArgument "SimulationSession::connectWire: componente removido")
  throwIf (← s.isComponentRemoved b.component) (.invalidArgument "SimulationSession::connectWire: componente removido")
  let instA ← orThrow (s.instanceAt a.component) (.invalidArgument "SimulationSession::connectWire: componente removido")
  let instB ← orThrow (s.instanceAt b.component) (.invalidArgument "SimulationSession::connectWire: componente removido")
  return (instA, instB)

/-- The exception of a wire between a signal port and another pin, by whether the other pin exists. -/
def mixedDomains (inst : ComponentInstance) (other a b : WireEndpoint) : Exception :=
  match s.resolveEndpoint long inst other with
  | .error (.outOfRange _) => .invalidArgument ("SimulationSession::connectWire: o componente " ++ inst.typeId ++
      " não tem o pino \"" ++ other.pinId ++ "\"")
  | .error e => e
  | .ok _ => .invalidArgument (
      "SimulationSession::connectWire: não é possível ligar uma porta Signal Graph a um pino elétrico (" ++
        a.pinId ++ " / " ++ b.pinId ++ ")")

/-- The pairs of slots a wire joins. -/
def wirePairs (slotsA slotsB : List Nat) (what : String) : Except Exception (List (Nat × Nat)) :=
  if slotsA.length ≠ slotsB.length then .error (.invalidArgument what) else .ok (slotsA.zip slotsB)

def connectWire (a b : WireEndpoint) : SessionEdit Unit :=
  match s.connectable a b with
  | .error e => (s, .error e)
  | .ok (instA, instB) =>
    match s.findSignalPort a, s.findSignalPort b with
    | some portA, some portB => s.connectSignalWire a.component portA b.component portB
    | some _, none => (s, .error (s.mixedDomains long instB b a b))
    | none, some _ => (s, .error (s.mixedDomains long instA a a b))
    | none, none =>
      match (do
        let slotsA ← s.resolveEndpoint long instA a
        let slotsB ← s.resolveEndpoint long instB b
        wirePairs slotsA slotsB ("larguras de barramento incompatíveis: " ++ toString slotsA.length ++ " e " ++
          toString slotsB.length) : Except Exception (List (Nat × Nat))) with
      | .error e => (s, .error e)
      | .ok pairs => s.connectElectricalWire pairs

/-- An instance that is null and not removed is not checked for; `removeComponent` clears both. -/
def liveInstance (component : Nat) : Except Exception ComponentInstance := do
  let found ← orThrow s.componentInstances[component]? (.outOfRange "vector::at")
  orThrow found (.undefinedBehavior "null component")

/-- The slots a wire is disconnected from, by exact ids. -/
def endpointSlots (endpoint : WireEndpoint) : Except Exception (List Nat) := do
  let slots ← s.pinSlotsOf endpoint.component
  let inst ← s.liveInstance endpoint.component
  match inst.busEndpointPinIds endpoint.pinId with
  | some busPins => busPins.mapM (slotAt slots)
  | none => (slotAt slots endpoint.pinId).map fun slot => [slot]

def disconnectWire (a b : WireEndpoint) : SessionEdit Bool :=
  match (do
    throwIf s.running (.runtimeError "disconnectWire requer simulacao parada para publicar ElectricalPlan")
    throwIf (← s.isComponentRemoved a.component) (.invalidArgument "SimulationSession::disconnectWire: componente removido")
    throwIf (← s.isComponentRemoved b.component) (.invalidArgument "SimulationSession::disconnectWire: componente removido")
    : Except Exception Unit) with
  | .error e => (s, .error e)
  | .ok () =>
    match s.findSignalPort a, s.findSignalPort b with
    | some _, some _ => ((s.disconnectSignalWire a b).1, .ok (s.disconnectSignalWire a b).2)
    | none, none =>
      match (do
        let slotsA ← s.endpointSlots a
        let slotsB ← s.endpointSlots b
        wirePairs slotsA slotsB "larguras de barramento incompatíveis ao desconectar"
        : Except Exception (List (Nat × Nat))) with
      | .error e => (s, .error e)
      | .ok pairs => s.disconnectElectricalWire pairs
    | _, _ => (s, .error (.invalidArgument (
        "SimulationSession::disconnectWire: não é possível desligar uma porta Signal Graph de um pino elétrico (" ++
          a.pinId ++ " / " ++ b.pinId ++ ")")))

/-- The body of the loop of the transaction. -/
def applyOperation (operation : WireTopologyOperation) : SessionEdit Unit :=
  match operation.kind with
  | .connect => s.connectWire long operation.source operation.target
  | .disconnect =>
    ((s.disconnectWire operation.source operation.target).1,
      (s.disconnectWire operation.source operation.target).2.map fun _ => ())

def applyOperations : List WireTopologyOperation → WireSession → SessionEdit Unit
  | [], s => (s, .ok ())
  | operation :: rest, s =>
    match s.applyOperation long operation with
    | (applied, .ok ()) => applyOperations rest applied
    | (stopped, .error e) => (stopped, .error e)

def applyWireTopologyTransaction (baseRevision : UInt64) (operations : List WireTopologyOperation) :
    SessionEdit UInt64 :=
  if baseRevision ≠ s.wireTopologyRevision then
    (s, .error (.runtimeError ("topology_revision_conflict: esperado " ++ toString s.wireTopologyRevision ++
      ", recebido " ++ toString baseRevision)))
  else
    match applyOperations long operations s with
    | (failed, .error e) =>
      ({ failed with
          netlist := s.netlist
          signalWires := s.signalWires
          bridgeTopologyRevision := failed.bridgeTopologyRevision + 1
          topologyDirty := s.topologyDirty
          topologyReuseSafe := s.topologyReuseSafe
          wireTopologyRevision := s.wireTopologyRevision
          authoringRevision := s.authoringRevision
          electricalPlanRevision := s.electricalPlanRevision
          planInvalidation := s.planInvalidation }, .error e)
    | (applied, .ok ()) =>
      ({ applied with wireTopologyRevision := s.wireTopologyRevision + 1 }, .ok (s.wireTopologyRevision + 1))

end WireSession

/-! ### What the operations of a transaction mean -/

structure Wires where
  electrical : List (Nat × Nat)
  signal : List SignalWireDefinition

/-- The change of the wires that an operation asks for. -/
inductive WireEdit where
  | connect (pairs : List (Nat × Nat))
  | disconnect (pairs : List (Nat × Nat))
  | connectSignal (wire : SignalWireDefinition)
  | disconnectSignal (a b : WireEndpoint)

def WireEdit.apply (wires : Wires) : WireEdit → Wires
  | .connect pairs => { wires with electrical := wires.electrical ++ pairs }
  | .disconnect pairs => { wires with
      electrical := pairs.foldl (fun edges pair => edges.eraseP (Netlist.matchesWire pair.1 pair.2)) wires.electrical }
  | .connectSignal wire => { wires with signal := wires.signal ++ [wire] }
  | .disconnectSignal a b => { wires with signal := wires.signal.eraseP (WireSession.matchesSignalWire a b) }

namespace WireSession

variable {long : LongWidth} {s t u : WireSession} {operation : WireTopologyOperation} {edit : WireEdit}

def wires (s : WireSession) : Wires := ⟨s.netlist.wireEdges, s.signalWires⟩

/-- The edit an operation stands for, from the pins and the ports of the components alone. -/
inductive Denotes (long : LongWidth) (s : WireSession) : WireTopologyOperation → WireEdit → Prop where
  | connect {a b : WireEndpoint} {instA instB : ComponentInstance} {slotsA slotsB : List Nat} :
    s.instanceAt a.component = some instA → s.instanceAt b.component = some instB →
    s.findSignalPort a = none → s.findSignalPort b = none →
    s.resolveEndpoint long instA a = .ok slotsA → s.resolveEndpoint long instB b = .ok slotsB →
    slotsA.length = slotsB.length → Denotes long s ⟨.connect, a, b⟩ (.connect (slotsA.zip slotsB))
  | disconnect {a b : WireEndpoint} {slotsA slotsB : List Nat} :
    s.findSignalPort a = none → s.findSignalPort b = none →
    s.endpointSlots a = .ok slotsA → s.endpointSlots b = .ok slotsB →
    slotsA.length = slotsB.length → Denotes long s ⟨.disconnect, a, b⟩ (.disconnect (slotsA.zip slotsB))
  | connectSignal {a b : WireEndpoint} {portA portB : SignalPortDescriptor} {wire : SignalWireDefinition} :
    s.findSignalPort a = some portA → s.findSignalPort b = some portB →
    s.orientedWire a.component portA b.component portB = .ok wire →
    Denotes long s ⟨.connect, a, b⟩ (.connectSignal wire)
  | disconnectSignal {a b : WireEndpoint} {portA portB : SignalPortDescriptor} :
    s.findSignalPort a = some portA → s.findSignalPort b = some portB →
    Denotes long s ⟨.disconnect, a, b⟩ (.disconnectSignal a b)

/-- Nothing but wires and what is kept about them has changed. -/
structure Rewires (s t : WireSession) : Prop where
  running : t.running = s.running
  componentInstances : t.componentInstances = s.componentInstances
  observed : t.observed = s.observed
  netlist : t.netlist = { s.netlist with wireEdges := t.netlist.wireEdges }

theorem Rewires.refl (s : WireSession) : s.Rewires s := ⟨rfl, rfl, rfl, rfl⟩

theorem Rewires.trans (first : s.Rewires t) (second : t.Rewires u) : s.Rewires u := by
  refine ⟨second.running.trans first.running, second.componentInstances.trans first.componentInstances,
    second.observed.trans first.observed, ?_⟩
  rw [second.netlist, first.netlist]

theorem Rewires.instanceAt (rewires : s.Rewires t) : t.instanceAt = s.instanceAt := by
  funext component
  unfold WireSession.instanceAt
  rw [rewires.componentInstances]

theorem Rewires.pinSlotsOf (rewires : s.Rewires t) : t.pinSlotsOf = s.pinSlotsOf := by
  funext component
  unfold WireSession.pinSlotsOf
  rw [rewires.netlist]

theorem Rewires.findSignalPort (rewires : s.Rewires t) : t.findSignalPort = s.findSignalPort := by
  funext endpoint
  unfold WireSession.findSignalPort
  rw [rewires.instanceAt]

theorem Rewires.resolveEndpoint (rewires : s.Rewires t) : t.resolveEndpoint long = s.resolveEndpoint long := by
  funext inst endpoint
  unfold WireSession.resolveEndpoint WireSession.resolveSlot
  rw [rewires.pinSlotsOf]

theorem Rewires.endpointSlots (rewires : s.Rewires t) : t.endpointSlots = s.endpointSlots := by
  funext endpoint
  unfold WireSession.endpointSlots liveInstance
  rw [rewires.pinSlotsOf, rewires.componentInstances]

theorem Rewires.orientedWire (rewires : s.Rewires t) : t.orientedWire = s.orientedWire := by
  funext componentA portA componentB portB
  unfold WireSession.orientedWire effectiveDirections isRelayTunnel
  rw [rewires.instanceAt]

/-- The meaning of an operation does not depend on the wires. -/
theorem Rewires.denotes (rewires : s.Rewires t) (denotes : t.Denotes long operation edit) :
    s.Denotes long operation edit := by
  cases denotes with
  | connect instA instB portA portB slotsA slotsB same =>
    rw [rewires.instanceAt] at instA instB
    rw [rewires.findSignalPort] at portA portB
    rw [rewires.resolveEndpoint] at slotsA slotsB
    exact .connect instA instB portA portB slotsA slotsB same
  | disconnect portA portB slotsA slotsB same =>
    rw [rewires.findSignalPort] at portA portB
    rw [rewires.endpointSlots] at slotsA slotsB
    exact .disconnect portA portB slotsA slotsB same
  | connectSignal portA portB oriented =>
    rw [rewires.findSignalPort] at portA portB
    rw [rewires.orientedWire] at oriented
    exact .connectSignal portA portB oriented
  | disconnectSignal portA portB =>
    rw [rewires.findSignalPort] at portA portB
    exact .disconnectSignal portA portB

/-! ### One operation -/

/-- What an operation leaves when it returns. -/
def Performs (long : LongWidth) (s : WireSession) (operation : WireTopologyOperation) (t : WireSession) : Prop :=
  ∃ edit, s.Denotes long operation edit ∧ t.wires = edit.apply s.wires

theorem connectSlots_spec (pairs : List (Nat × Nat)) (net : Netlist) :
    (connectSlots pairs net).1 = { net with wireEdges := (connectSlots pairs net).1.wireEdges } ∧
    ((connectSlots pairs net).2 = .ok () → (connectSlots pairs net).1.wireEdges = net.wireEdges ++ pairs) := by
  induction pairs generalizing net with
  | nil => exact ⟨rfl, fun _ => (List.append_nil _).symm⟩
  | cons pair rest ih =>
    unfold connectSlots Netlist.connectWire
    cases net.validateSlots pair.1 pair.2 "Netlist::connectWire" with
    | error e => exact ⟨rfl, nofun⟩
    | ok =>
      obtain ⟨frame, edges⟩ := ih { net with wireEdges := net.wireEdges ++ [pair] }
      refine ⟨frame, fun fine => ?_⟩
      rw [edges fine]
      exact (List.append_cons ..).symm

theorem disconnectSlots_spec (pairs : List (Nat × Nat)) (removed : Bool) (net : Netlist) :
    (disconnectSlots pairs removed net).1 = { net with wireEdges := (disconnectSlots pairs removed net).1.wireEdges } ∧
    ∀ found, (disconnectSlots pairs removed net).2 = .ok found → (disconnectSlots pairs removed net).1.wireEdges =
      pairs.foldl (fun edges pair => edges.eraseP (Netlist.matchesWire pair.1 pair.2)) net.wireEdges := by
  induction pairs generalizing removed net with
  | nil => exact ⟨rfl, fun _ _ => rfl⟩
  | cons pair rest ih =>
    unfold disconnectSlots Netlist.disconnectWire
    cases net.validateSlots pair.1 pair.2 "Netlist::disconnectWire" with
    | error e => exact ⟨rfl, nofun⟩
    | ok =>
      obtain ⟨frame, edges⟩ := ih (net.wireEdges.any (Netlist.matchesWire pair.1 pair.2) || removed)
        { net with wireEdges := net.wireEdges.eraseP (Netlist.matchesWire pair.1 pair.2) }
      exact ⟨frame, edges⟩

theorem connectElectricalWire_spec (s : WireSession) (pairs : List (Nat × Nat)) :
    s.Rewires (s.connectElectricalWire pairs).1 ∧
    ((s.connectElectricalWire pairs).2 = .ok () →
      (s.connectElectricalWire pairs).1.wires = (WireEdit.connect pairs).apply s.wires) := by
  obtain ⟨frame, edges⟩ := connectSlots_spec pairs s.netlist
  unfold connectElectricalWire
  cases slots : connectSlots pairs s.netlist with
  | mk netlist outcome =>
    rw [slots] at frame edges
    cases outcome with
    | error e => exact ⟨⟨rfl, rfl, rfl, frame⟩, nofun⟩
    | ok => exact ⟨⟨rfl, rfl, rfl, frame⟩, fun _ => congrArg (Wires.mk · s.signalWires) (edges rfl)⟩

theorem disconnectElectricalWire_spec (s : WireSession) (pairs : List (Nat × Nat)) :
    s.Rewires (s.disconnectElectricalWire pairs).1 ∧
    ∀ found, (s.disconnectElectricalWire pairs).2 = .ok found →
      (s.disconnectElectricalWire pairs).1.wires = (WireEdit.disconnect pairs).apply s.wires := by
  obtain ⟨frame, edges⟩ := disconnectSlots_spec pairs false s.netlist
  unfold disconnectElectricalWire
  cases slots : disconnectSlots pairs false s.netlist with
  | mk netlist outcome =>
    rw [slots] at frame edges
    cases outcome with
    | error e => exact ⟨⟨rfl, rfl, rfl, frame⟩, nofun⟩
    | ok removed =>
      have same := congrArg (Wires.mk · s.signalWires) (edges removed rfl)
      cases removed with
      | false => exact ⟨⟨rfl, rfl, rfl, frame⟩, fun _ _ => same⟩
      | true => exact ⟨⟨rfl, rfl, rfl, frame⟩, fun _ _ => same⟩

theorem connectSignalWire_spec (s : WireSession) (componentA : Nat) (portA : SignalPortDescriptor) (componentB : Nat)
    (portB : SignalPortDescriptor) :
    s.Rewires (s.connectSignalWire componentA portA componentB portB).1 ∧
    ((s.connectSignalWire componentA portA componentB portB).2 = .ok () →
      ∃ wire, s.orientedWire componentA portA componentB portB = .ok wire ∧
        (s.connectSignalWire componentA portA componentB portB).1.wires = (WireEdit.connectSignal wire).apply s.wires) := by
  unfold connectSignalWire
  cases s.orientedWire componentA portA componentB portB with
  | error e => exact ⟨.refl s, nofun⟩
  | ok wire =>
    dsimp only
    split
    · exact ⟨.refl s, nofun⟩
    · exact ⟨⟨rfl, rfl, rfl, rfl⟩, fun _ => ⟨wire, rfl, rfl⟩⟩

theorem disconnectSignalWire_spec (s : WireSession) (a b : WireEndpoint) :
    s.Rewires (s.disconnectSignalWire a b).1 ∧
    (s.disconnectSignalWire a b).1.wires = (WireEdit.disconnectSignal a b).apply s.wires := by
  unfold disconnectSignalWire
  split
  · exact ⟨⟨rfl, rfl, rfl, rfl⟩, rfl⟩
  · rename_i absent
    refine ⟨.refl s, ?_⟩
    have same : s.signalWires.eraseP (matchesSignalWire a b) = s.signalWires := by
      apply List.eraseP_of_forall_not
      simpa using absent
    exact congrArg (Wires.mk s.netlist.wireEdges) same.symm

theorem connectable_ok {a b : WireEndpoint} {instA instB : ComponentInstance}
    (fine : s.connectable a b = .ok (instA, instB)) :
    s.instanceAt a.component = some instA ∧ s.instanceAt b.component = some instB := by
  unfold connectable at fine
  iterate 7 obtain ⟨_, _, fine⟩ := Lib.Fallible.bind_ok fine
  obtain ⟨foundA, first, fine⟩ := Lib.Fallible.bind_ok fine
  obtain ⟨foundB, second, fine⟩ := Lib.Fallible.bind_ok fine
  cases fine
  exact ⟨orThrow_ok first, orThrow_ok second⟩

theorem wirePairs_ok {slotsA slotsB : List Nat} {what : String} {pairs : List (Nat × Nat)}
    (fine : wirePairs slotsA slotsB what = .ok pairs) : slotsA.length = slotsB.length ∧ pairs = slotsA.zip slotsB := by
  unfold wirePairs at fine
  split at fine
  · cases fine
  · rename_i same
    exact ⟨not_not.mp same, (Except.ok.inj fine).symm⟩

theorem connectWire_spec (long : LongWidth) (s : WireSession) (a b : WireEndpoint) :
    s.Rewires (s.connectWire long a b).1 ∧
    ((s.connectWire long a b).2 = .ok () → s.Performs long ⟨.connect, a, b⟩ (s.connectWire long a b).1) := by
  unfold connectWire
  cases ends : s.connectable a b with
  | error e => exact ⟨.refl s, nofun⟩
  | ok instances =>
    obtain ⟨instA, instB⟩ := connectable_ok ends
    dsimp only
    cases portA : s.findSignalPort a with
    | some portA' =>
      cases portB : s.findSignalPort b with
      | some portB' =>
        obtain ⟨rewires, performs⟩ := s.connectSignalWire_spec a.component portA' b.component portB'
        refine ⟨rewires, fun fine => ?_⟩
        obtain ⟨wire, oriented, wires⟩ := performs fine
        exact ⟨_, .connectSignal portA portB oriented, wires⟩
      | none => exact ⟨.refl s, nofun⟩
    | none =>
      cases portB : s.findSignalPort b with
      | some portB' => exact ⟨.refl s, nofun⟩
      | none =>
        dsimp only
        split
        · exact ⟨.refl s, nofun⟩
        · rename_i pairs resolved
          obtain ⟨slotsA, first, resolved⟩ := Lib.Fallible.bind_ok resolved
          obtain ⟨slotsB, second, resolved⟩ := Lib.Fallible.bind_ok resolved
          obtain ⟨same, rfl⟩ := wirePairs_ok resolved
          obtain ⟨rewires, performs⟩ := s.connectElectricalWire_spec (slotsA.zip slotsB)
          exact ⟨rewires, fun fine => ⟨_, .connect instA instB portA portB first second same, performs fine⟩⟩

theorem disconnectWire_spec (long : LongWidth) (s : WireSession) (a b : WireEndpoint) :
    s.Rewires (s.disconnectWire a b).1 ∧
    ∀ found, (s.disconnectWire a b).2 = .ok found → s.Performs long ⟨.disconnect, a, b⟩ (s.disconnectWire a b).1 := by
  unfold disconnectWire
  split
  · exact ⟨.refl s, nofun⟩
  · split
    · rename_i portA' portB' portA portB
      obtain ⟨rewires, performs⟩ := s.disconnectSignalWire_spec a b
      exact ⟨rewires, fun _ _ => ⟨_, .disconnectSignal portA portB, performs⟩⟩
    · rename_i portA portB
      split
      · exact ⟨.refl s, nofun⟩
      · rename_i pairs resolved
        obtain ⟨slotsA, first, resolved⟩ := Lib.Fallible.bind_ok resolved
        obtain ⟨slotsB, second, resolved⟩ := Lib.Fallible.bind_ok resolved
        obtain ⟨same, rfl⟩ := wirePairs_ok resolved
        obtain ⟨rewires, performs⟩ := s.disconnectElectricalWire_spec (slotsA.zip slotsB)
        exact ⟨rewires, fun found fine => ⟨_, .disconnect portA portB first second same, performs found fine⟩⟩
    · exact ⟨.refl s, nofun⟩

theorem applyOperation_spec (long : LongWidth) (s : WireSession) (operation : WireTopologyOperation) :
    s.Rewires (s.applyOperation long operation).1 ∧
    ((s.applyOperation long operation).2 = .ok () → s.Performs long operation (s.applyOperation long operation).1) := by
  obtain ⟨kind, a, b⟩ := operation
  cases kind with
  | connect => exact s.connectWire_spec long a b
  | disconnect =>
    obtain ⟨rewires, performs⟩ := s.disconnectWire_spec long a b
    refine ⟨rewires, fun fine => ?_⟩
    obtain ⟨found, outcome⟩ : ∃ found, (s.disconnectWire a b).2 = .ok found := by
      cases outcome : (s.disconnectWire a b).2 with
      | error e =>
        unfold applyOperation at fine
        dsimp only at fine
        rw [outcome] at fine
        cases fine
      | ok found => exact ⟨found, rfl⟩
    exact performs found outcome

theorem applyOperations_spec (long : LongWidth) (operations : List WireTopologyOperation) (s : WireSession) :
    s.Rewires (applyOperations long operations s).1 ∧
    ((applyOperations long operations s).2 = .ok () →
      ∃ edits, List.Forall₂ (s.Denotes long) operations edits ∧
        (applyOperations long operations s).1.wires = edits.foldl WireEdit.apply s.wires) := by
  induction operations generalizing s with
  | nil => exact ⟨.refl s, fun _ => ⟨[], .nil, rfl⟩⟩
  | cons operation rest ih =>
    obtain ⟨first, performs⟩ := s.applyOperation_spec long operation
    unfold applyOperations
    cases applied : s.applyOperation long operation with
    | mk middle outcome =>
      rw [applied] at first performs
      cases outcome with
      | error e => exact ⟨first, nofun⟩
      | ok =>
        obtain ⟨later, wires⟩ := ih middle
        refine ⟨first.trans later, fun fine => ?_⟩
        obtain ⟨edit, denotes, changed⟩ := performs rfl
        obtain ⟨edits, each, last⟩ := wires fine
        refine ⟨edit :: edits, .cons denotes (each.imp fun _ _ denotes => first.denotes denotes), ?_⟩
        rw [last, changed, List.foldl_cons]

/-- A transaction that throws leaves the wires, the flags, the revisions and the validity of the plans as they were; one
that returns has applied all its operations in order and counts as one revision. -/
theorem applyWireTopologyTransaction_atomic (long : LongWidth) (s : WireSession) (baseRevision : UInt64)
    (operations : List WireTopologyOperation) :
    match s.applyWireTopologyTransaction long baseRevision operations with
    | (after, .error _) => ∃ bridgeTopologyRevision signalRoutesDirty,
        after = { s with bridgeTopologyRevision, signalRoutesDirty }
    | (after, .ok revision) =>
        baseRevision = s.wireTopologyRevision ∧ revision = baseRevision + 1 ∧ after.wireTopologyRevision = revision ∧
        s.Rewires after ∧ ∃ edits, List.Forall₂ (s.Denotes long) operations edits ∧
          after.wires = edits.foldl WireEdit.apply s.wires := by
  obtain ⟨rewires, wires⟩ := applyOperations_spec long operations s
  unfold applyWireTopologyTransaction
  by_cases conflict : baseRevision ≠ s.wireTopologyRevision
  · rw [if_pos conflict]
    exact ⟨_, _, rfl⟩
  · rw [if_neg conflict]
    have base : baseRevision = s.wireTopologyRevision := not_not.mp conflict
    cases applied : applyOperations long operations s with
    | mk last outcome =>
      rw [applied] at rewires wires
      cases outcome with
      | error e =>
        refine ⟨last.bridgeTopologyRevision + 1, last.signalRoutesDirty, ?_⟩
        rw [← rewires.running, ← rewires.componentInstances, ← rewires.observed]
      | ok =>
        obtain ⟨edits, each, changed⟩ := wires rfl
        exact ⟨base, by rw [base], rfl, ⟨rewires.running, rewires.componentInstances, rewires.observed, rewires.netlist⟩,
          edits, each, changed⟩

end WireSession

end LasecSimul.Wiring
