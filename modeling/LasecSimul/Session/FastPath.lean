import LasecSimul.Wiring.Connectivity
import Mathlib.Data.List.TakeWhile

/-!
# Bus transfers without edges (`SimulationSession.cpp`)

An I2C transfer, or a byte on an SPI bus, goes to the devices themselves when nothing else on the wires could see its
edges. An I2C transfer that falls back runs again on the wires, so no device may have moved.
-/

namespace LasecSimul.Session

open Wiring (NodePinRef Topology)

structure I2cTransfer where
  address : UInt8 := 0
  read : Bool := false
  start : Bool := true
  stop : Bool := true
  txData : List UInt8 := []
  rxSize : Nat := 0
  periodNs : Nat := 0

structure I2cTransferResult where
  handled : Bool := false
  addressAck : Bool := false
  firstNack : Nat := UInt32.size - 1
  rxSize : Nat := 0
  stretchNs : Nat := 0
  deriving DecidableEq

/-- What a device makes of a transfer; `rx` is what it writes to the start of the buffer. -/
structure I2cReply (σ : Type) where
  state : σ
  result : I2cTransferResult
  rx : List UInt8 := []

structure SpiInputPins where
  clock : Nat
  data : Nat

/-- What a session asks of a component (`IComponentModel`) in its current state. -/
structure BusComponent (σ : Type) where
  typeId : String
  pins : List String
  resolveI2cPinIndex : Option (Nat → Bool → Option Nat) := none
  supportsI2cTransfer : σ → Bool := fun _ => false
  i2cPinIndex : Bool → Option Nat := fun _ => none
  transferI2c : σ → I2cTransfer → I2cReply σ := fun state _ => ⟨state, {}, []⟩
  spiInputPins : σ → Option SpiInputPins := fun _ => none
  spiOutputPin : σ → Option Nat := fun _ => none
  spiOutputPins : σ → List Nat := fun state => (spiOutputPin state).toList
  exchangeSpiByte : σ → UInt8 → σ × UInt8 := fun state _ => (state, 0xFF)
  /-- "All outputs" (`device_abi.h`) are more than the one of `spiOutputPin`. -/
  output_listed : ∀ state pin, spiOutputPin state = some pin → pin ∈ spiOutputPins state := by simp

/-- The components of a session and the topology of its netlist. -/
structure BusSession (σ : Type) where
  componentInstances : List (Option (BusComponent σ))
  pinSlotsOf : Nat → String → Option Nat
  topology : Topology
  refs_nodup : ∀ refs ∈ topology.pinRefsByNode, refs.Nodup

/-- The topology of a rebuilt netlist is one of these. -/
theorem refs_nodup_of_exact {c : Wiring.Circuit} {t : Topology} (exact : Wiring.Exact c t) :
    ∀ refs ∈ t.pinRefsByNode, refs.Nodup := by
  intro refs member
  obtain ⟨node, stored⟩ := List.mem_iff_getElem?.mp member
  refine List.nodup_iff_count_le_one.mpr fun ref => ?_
  by_cases listed : ref ∈ refs
  · obtain ⟨component, live, bound, here⟩ := exact.pin_live node refs ref stored listed
    obtain ⟨node', refs', here', stored', once, -⟩ := exact.pin_once _ component _ live bound
    obtain rfl := Option.some.inj (here.symm.trans here')
    obtain rfl := Option.some.inj (stored.symm.trans stored')
    exact once.le
  · exact (List.count_eq_zero_of_not_mem listed).le.trans (Nat.zero_le 1)

/-- The state of every component. -/
abbrev DeviceStates (σ : Type) := Nat → σ

/-- `isI2cFastPathTransparentUnlocked`. -/
def BusComponent.isI2cFastPathTransparent {σ : Type} (component : BusComponent σ) : Bool :=
  component.typeId == "passive.resistor" || component.typeId == "connectors.tunnel"

namespace BusSession

variable {σ : Type} (net : BusSession σ)

def component (index : Nat) : Option (BusComponent σ) :=
  net.componentInstances[index]?.join

def pinRefs (node : Nat) : List NodePinRef :=
  net.topology.pinRefsByNode.getD node []

def nodeOf (componentIndex localPinIndex : Nat) : Option Nat := do
  let component ← net.component componentIndex
  let id ← component.pins[localPinIndex]?
  let slot ← net.pinSlotsOf componentIndex id
  let node ← net.topology.slotToNode[slot]?
  if node < net.topology.pinRefsByNode.length then some node else none

def i2cNodes (mcuIndex bus : Nat) : Option (Nat × Nat) := do
  let mcu ← net.component mcuIndex
  let resolve ← mcu.resolveI2cPinIndex
  let sda ← resolve bus true
  let scl ← resolve bus false
  return (← net.nodeOf mcuIndex sda, ← net.nodeOf mcuIndex scl)

/-- The walk along SDA at one pin. -/
def sdaStep (s : DeviceStates σ) (mcuIndex sclNode : Nat) (targets : List Nat) (ref : NodePinRef) :
    Option (List Nat) :=
  if ref.componentIndex = mcuIndex then some targets
  else
    match net.component ref.componentIndex with
    | none => some targets
    | some candidate =>
      if candidate.supportsI2cTransfer (s ref.componentIndex) then
        match candidate.i2cPinIndex true, candidate.i2cPinIndex false with
        | some sda, some scl =>
          if ref.localPinIndex ≠ sda then none
          else if ⟨ref.componentIndex, scl⟩ ∈ net.pinRefs sclNode then
            some (if ref.componentIndex ∈ targets then targets else targets ++ [ref.componentIndex])
          else none
        | _, _ => none
      else if candidate.isI2cFastPathTransparent then some targets
      else none

/-- The walk along SCL at one pin. -/
def sclAllows (s : DeviceStates σ) (mcuIndex : Nat) (targets : List Nat) (ref : NodePinRef) : Bool :=
  if ref.componentIndex = mcuIndex then true
  else
    match net.component ref.componentIndex with
    | none => true
    | some candidate =>
      if candidate.supportsI2cTransfer (s ref.componentIndex) then
        candidate.i2cPinIndex false == some ref.localPinIndex && targets.contains ref.componentIndex
      else candidate.isI2cFastPathTransparent

def i2cTargets (s : DeviceStates σ) (mcuIndex bus : Nat) : Option (List Nat) := do
  let (sdaNode, sclNode) ← net.i2cNodes mcuIndex bus
  let targets ← (net.pinRefs sdaNode).foldlM (net.sdaStep s mcuIndex sclNode) []
  if (net.pinRefs sclNode).all (net.sclAllows s mcuIndex targets) then some targets else none

/-- The loop over the targets. -/
structure Asked (σ : Type) where
  states : DeviceStates σ
  combined : I2cTransferResult
  readResponders : Nat
  rx : List UInt8

def combine (transfer : I2cTransfer) (asked : Asked σ) (result : I2cTransferResult) : Asked σ :=
  { asked with
    combined :=
      { asked.combined with
        addressAck := true
        firstNack := min asked.combined.firstNack result.firstNack
        stretchNs := max asked.combined.stretchNs result.stretchNs
        rxSize := if transfer.read then result.rxSize else asked.combined.rxSize }
    readResponders := if transfer.read then asked.readResponders + 1 else asked.readResponders }

/-- `false` is for a target that refuses. -/
def askTargets (transfer : I2cTransfer) : List Nat → Asked σ → Asked σ × Bool
  | [], asked => (asked, true)
  | target :: targets, asked =>
    match net.component target with
    | none => askTargets transfer targets asked
    | some device =>
      let reply := device.transferI2c (asked.states target) transfer
      let asked := { asked with
        states := Function.update asked.states target reply.state
        rx := reply.rx ++ asked.rx.drop reply.rx.length }
      if !reply.result.handled then (asked, false)
      else if !reply.result.addressAck then askTargets transfer targets asked
      else askTargets transfer targets (combine transfer asked reply.result)

def resolveI2cTransfer (s : DeviceStates σ) (mcuIndex bus : Nat) (transfer : I2cTransfer) (rx : List UInt8) :
    I2cTransferResult × DeviceStates σ × List UInt8 :=
  match net.i2cTargets s mcuIndex bus with
  | none => ({}, s, rx)
  | some [] => ({ handled := true, firstNack := 0 }, s, rx)
  | some targets =>
    let (asked, accepted) := net.askTargets transfer targets ⟨s, { handled := true }, 0, rx⟩
    if !accepted then ({}, asked.states, asked.rx)
    else if transfer.read && asked.readResponders > 1 then ({}, asked.states, asked.rx)
    else (asked.combined, asked.states, asked.rx)

/-! ### SPI -/

structure SpiBytePair where
  clockPin : Nat
  dataPin : Nat
  miso : Option (Nat × Nat)
  devices : List Nat

/-- What `spiSlavesOn` makes of one pin: a slave, nothing that matters, or something that needs the edges. -/
def spiSlaveAt (s : DeviceStates σ) (mcuIndex mcuPin : Nat) (clockRole : Bool) (ref : NodePinRef) :
    Option (Option Nat) :=
  if ref = ⟨mcuIndex, mcuPin⟩ then some none
  else
    match net.component ref.componentIndex with
    | none => none
    | some other =>
      if other.isI2cFastPathTransparent then some none
      else
        match other.spiInputPins (s ref.componentIndex) with
        | none => none
        | some spi =>
          if ref.localPinIndex = (if clockRole then spi.clock else spi.data) then some (some ref.componentIndex)
          else none

def spiSlavesOn (s : DeviceStates σ) (node mcuIndex mcuPin : Nat) (clockRole : Bool) : Option (List Nat) := do
  let found ← (net.pinRefs node).mapM (net.spiSlaveAt s mcuIndex mcuPin clockRole)
  return (found.filterMap id).mergeSort

/-- All slaves have their data pins on one node. -/
def dataNodeStep (s : DeviceStates σ) (dataNode : Option Nat) (slave : Nat) : Option (Option Nat) := do
  let device ← net.component slave
  let spi ← device.spiInputPins (s slave)
  let node ← net.nodeOf slave spi.data
  if dataNode.all (· == node) then some (some node) else none

/-- The pin of the MCU on a node, when it is the only one. -/
def onlyMcuPin (mcuIndex node : Nat) : Option Nat :=
  match (net.pinRefs node).filter (·.componentIndex = mcuIndex) with
  | [ref] => some ref.localPinIndex
  | _ => none

def spiOutputPin (s : DeviceStates σ) (slave : Nat) : Option Nat := do
  let device ← net.component slave
  device.spiOutputPin (s slave)

structure SpiObservedOutput where
  device : Nat
  pin : Nat
  node : Nat

def observedOutputs (s : DeviceStates σ) (slave : Nat) : Option (List SpiObservedOutput) := do
  let device ← net.component slave
  (device.spiOutputPins (s slave)).mapM fun pin => do
    let node ← net.nodeOf slave pin
    return ⟨slave, pin, node⟩

/-- Nothing on the node of an output needs its edges. -/
def outputEligible (mcuIndex misoPin misoNode : Nat) (output : SpiObservedOutput) : Bool :=
  (net.pinRefs output.node).all fun ref =>
    ref = ⟨output.device, output.pin⟩ || (output.node = misoNode && ref = ⟨mcuIndex, misoPin⟩) ||
      match net.component ref.componentIndex with
      | none => false
      | some other => other.isI2cFastPathTransparent

/-- The MISO pin of the MCU and its node, or none of them for slaves without an output. -/
def misoOf (s : DeviceStates σ) (mcuIndex : Nat) (slaves : List Nat) : Option (Option (Nat × Nat)) :=
  if slaves.all fun slave => (net.spiOutputPin s slave).isNone then some none
  else do
    let misoNodes ← slaves.mapM fun slave => do
      let output ← net.spiOutputPin s slave
      net.nodeOf slave output
    let observed ← slaves.mapM (net.observedOutputs s)
    let front ← misoNodes.head?
    let misoPin ← net.onlyMcuPin mcuIndex front
    let misoNode ← net.nodeOf mcuIndex misoPin
    if misoNodes.all (· == misoNode) && observed.flatten.all (net.outputEligible mcuIndex misoPin misoNode) then
      some (some (misoPin, misoNode))
    else none

def spiBytePairAt (s : DeviceStates σ) (mcuIndex clockPin : Nat) : Option SpiBytePair := do
  let clockNode ← net.nodeOf mcuIndex clockPin
  let slaves ← net.spiSlavesOn s clockNode mcuIndex clockPin true
  let dataNode ← (← slaves.foldlM (net.dataNodeStep s) none)
  if dataNode = clockNode then none
  else
    let dataPin ← net.onlyMcuPin mcuIndex dataNode
    let dataSlaves ← net.spiSlavesOn s dataNode mcuIndex dataPin false
    if dataSlaves ≠ slaves then none
    else
      let miso ← net.misoOf s mcuIndex slaves
      return ⟨clockPin, dataPin, miso, slaves⟩

def mcuSpiBytePairs (s : DeviceStates σ) (mcuIndex : Nat) : List SpiBytePair :=
  let pinCount := ((net.component mcuIndex).map fun mcu => mcu.pins.length).getD 0
  (List.range pinCount).filterMap (net.spiBytePairAt s mcuIndex)

structure SpiExchange (σ : Type) where
  states : DeviceStates σ
  miso : UInt8 := 0xFF
  hasMiso : Bool := false

def exchangeStep (byte : UInt8) (exchange : SpiExchange σ) (slave : Nat) : SpiExchange σ :=
  match net.component slave with
  | none => exchange
  | some device =>
    let output := device.spiOutputPin (exchange.states slave)
    let (state, response) := device.exchangeSpiByte (exchange.states slave) byte
    { states := Function.update exchange.states slave state
      miso := if output.isSome then exchange.miso &&& response else exchange.miso
      hasMiso := exchange.hasMiso || output.isSome }

def deliverSpiByte (pairs : List SpiBytePair) (s : DeviceStates σ) (clockPin dataPin : Nat) (byte : UInt8) :
    Option UInt8 × DeviceStates σ :=
  match pairs.find? fun pair => pair.clockPin == clockPin && pair.dataPin == dataPin with
  | none => (none, s)
  | some pair =>
    let exchange := pair.devices.foldl (net.exchangeStep byte) { states := s }
    (if exchange.hasMiso then some exchange.miso else none, exchange.states)

/-! ### What the fast path is for -/

/-- A device after one transfer. -/
def transferred (transfer : I2cTransfer) (index : Nat) (state : σ) : σ :=
  match net.component index with
  | none => state
  | some device => (device.transferI2c state transfer).state

def accepts (s : DeviceStates σ) (transfer : I2cTransfer) (index : Nat) : Bool :=
  match net.component index with
  | none => true
  | some device => (device.transferI2c (s index) transfer).result.handled

def acknowledges (s : DeviceStates σ) (transfer : I2cTransfer) (index : Nat) : Bool :=
  match net.component index with
  | none => false
  | some device => (device.transferI2c (s index) transfer).result.addressAck

/-- A device that takes transfers, with its SDA and its SCL on the two nodes. -/
def Matching (s : DeviceStates σ) (sdaNode sclNode index : Nat) : Prop :=
  ∃ device sda scl, net.component index = some device ∧ device.supportsI2cTransfer (s index) = true ∧
    device.i2cPinIndex true = some sda ∧ device.i2cPinIndex false = some scl ∧
    ⟨index, sda⟩ ∈ net.pinRefs sdaNode ∧ ⟨index, scl⟩ ∈ net.pinRefs sclNode

def Transparent (index : Nat) : Prop :=
  ∃ component, net.component index = some component ∧ component.isI2cFastPathTransparent = true

/-- A transfer that is handled went once to every matching device of a bus on which everything else is transparent,
and one that is not handled moved nothing. -/
structure I2cSound (s : DeviceStates σ) (mcuIndex bus : Nat) (transfer : I2cTransfer) (rx : List UInt8) : Prop where
  handled : (net.resolveI2cTransfer s mcuIndex bus transfer rx).1.handled = true →
    ∃ sdaNode sclNode, net.i2cNodes mcuIndex bus = some (sdaNode, sclNode) ∧
      (∀ ref ∈ net.pinRefs sdaNode ++ net.pinRefs sclNode, ref.componentIndex ≠ mcuIndex →
        net.component ref.componentIndex = none ∨ net.Transparent ref.componentIndex ∨
          net.Matching s sdaNode sclNode ref.componentIndex) ∧
      (∀ index, index ≠ mcuIndex → net.Matching s sdaNode sclNode index →
        (net.resolveI2cTransfer s mcuIndex bus transfer rx).2.1 index = net.transferred transfer index (s index)) ∧
      ∀ index, ¬ (index ≠ mcuIndex ∧ net.Matching s sdaNode sclNode index) →
        (net.resolveI2cTransfer s mcuIndex bus transfer rx).2.1 index = s index
  fallback : (net.resolveI2cTransfer s mcuIndex bus transfer rx).1.handled = false →
    (net.resolveI2cTransfer s mcuIndex bus transfer rx).2.1 = s

/-- A slave by its clock pin or by its data pin. -/
def SlavePin (published : DeviceStates σ) (clockRole : Bool) (ref : NodePinRef) : Prop :=
  ∃ device spi, net.component ref.componentIndex = some device ∧
    device.spiInputPins (published ref.componentIndex) = some spi ∧
    ref.localPinIndex = if clockRole then spi.clock else spi.data

/-- All that hangs on the wires of a pair is transparent, a slave by the pin of that wire, or the MCU. -/
structure SpiClean (published : DeviceStates σ) (mcuIndex : Nat) (pair : SpiBytePair) : Prop where
  devices : pair.devices.Nodup
  clock : ∃ node, net.nodeOf mcuIndex pair.clockPin = some node ∧ ∀ ref ∈ net.pinRefs node,
    ref = ⟨mcuIndex, pair.clockPin⟩ ∨ net.Transparent ref.componentIndex ∨
      (ref.componentIndex ∈ pair.devices ∧ net.SlavePin published true ref)
  data : ∃ node, ⟨mcuIndex, pair.dataPin⟩ ∈ net.pinRefs node ∧ ∀ ref ∈ net.pinRefs node,
    ref = ⟨mcuIndex, pair.dataPin⟩ ∨ net.Transparent ref.componentIndex ∨
      (ref.componentIndex ∈ pair.devices ∧ net.SlavePin published false ref)
  miso : ∀ misoPin misoNode, pair.miso = some (misoPin, misoNode) → ∀ ref ∈ net.pinRefs misoNode,
    ref = ⟨mcuIndex, misoPin⟩ ∨ net.Transparent ref.componentIndex ∨
      (ref.componentIndex ∈ pair.devices ∧
        net.spiOutputPin published ref.componentIndex = some ref.localPinIndex)

def exchanged (byte : UInt8) (index : Nat) (state : σ) : σ :=
  match net.component index with
  | none => state
  | some device => (device.exchangeSpiByte state byte).1

/-- Bytes go without edges on clean pairs only, once to each slave, and on other pins to nobody. -/
structure SpiSound (mcuIndex : Nat) : Prop where
  clean : ∀ published, ∀ pair ∈ net.mcuSpiBytePairs published mcuIndex, net.SpiClean published mcuIndex pair
  delivered : ∀ published s byte, ∀ pair ∈ net.mcuSpiBytePairs published mcuIndex,
    (net.deliverSpiByte (net.mcuSpiBytePairs published mcuIndex) s pair.clockPin pair.dataPin byte).2
      = fun index => if index ∈ pair.devices then net.exchanged byte index (s index) else s index
  withheld : ∀ published s clockPin dataPin byte,
    (∀ pair ∈ net.mcuSpiBytePairs published mcuIndex, ¬ (pair.clockPin = clockPin ∧ pair.dataPin = dataPin)) →
    net.deliverSpiByte (net.mcuSpiBytePairs published mcuIndex) s clockPin dataPin byte = (none, s)

/-- Every pin on the two nodes is one that both walks let pass. -/
structure Eligible (s : DeviceStates σ) (mcuIndex sdaNode sclNode : Nat) : Prop where
  sda : ∀ ref ∈ net.pinRefs sdaNode, ref.componentIndex ≠ mcuIndex →
    ∀ device, net.component ref.componentIndex = some device →
      if device.supportsI2cTransfer (s ref.componentIndex) then
        device.i2cPinIndex true = some ref.localPinIndex ∧
          ∃ scl, device.i2cPinIndex false = some scl ∧ ⟨ref.componentIndex, scl⟩ ∈ net.pinRefs sclNode
      else device.isI2cFastPathTransparent = true
  scl : ∀ ref ∈ net.pinRefs sclNode, ref.componentIndex ≠ mcuIndex →
    ∀ device, net.component ref.componentIndex = some device →
      if device.supportsI2cTransfer (s ref.componentIndex) then
        device.i2cPinIndex false = some ref.localPinIndex ∧
          ∃ other ∈ net.pinRefs sdaNode, other.componentIndex = ref.componentIndex
      else device.isI2cFastPathTransparent = true

def takesTransfers (s : DeviceStates σ) (mcuIndex index : Nat) : Bool :=
  index ≠ mcuIndex && (net.component index).any fun device => device.supportsI2cTransfer (s index)

/-- The devices on a node, in the order of their pins. -/
def targetsOn (s : DeviceStates σ) (mcuIndex sdaNode : Nat) : List Nat :=
  ((net.pinRefs sdaNode).map (·.componentIndex)).filter (net.takesTransfers s mcuIndex)

/-- The devices up to the first that refuses. -/
def askedOf (s : DeviceStates σ) (transfer : I2cTransfer) (targets : List Nat) : List Nat :=
  targets.takeWhile (net.accepts s transfer) ++ (targets.dropWhile (net.accepts s transfer)).take 1

/-- On an eligible bus every device accepts the transfer and not two acknowledge a read, or else no device that is
asked moves. -/
def Undisturbed (s : DeviceStates σ) (mcuIndex bus : Nat) (transfer : I2cTransfer) : Prop :=
  ∀ sdaNode sclNode, net.i2cNodes mcuIndex bus = some (sdaNode, sclNode) → net.Eligible s mcuIndex sdaNode sclNode →
    ((∀ target ∈ net.targetsOn s mcuIndex sdaNode, net.accepts s transfer target = true) ∧
      (transfer.read = true →
        ((net.targetsOn s mcuIndex sdaNode).filter (net.acknowledges s transfer)).length ≤ 1)) ∨
    ∀ target ∈ net.askedOf s transfer (net.targetsOn s mcuIndex sdaNode),
      net.transferred transfer target (s target) = s target

variable {net} {s : DeviceStates σ} {mcuIndex sdaNode sclNode : Nat} {transfer : I2cTransfer}

theorem pinRefs_nodup (node : Nat) : (net.pinRefs node).Nodup := by
  unfold pinRefs
  rw [List.getD_eq_getElem?_getD]
  cases found : net.topology.pinRefsByNode[node]? with
  | none => exact List.nodup_nil
  | some refs => exact net.refs_nodup refs (List.mem_of_getElem? found)

/-- What `Eligible.sda` says of one pin. -/
def SdaAllows (net : BusSession σ) (s : DeviceStates σ) (mcuIndex sclNode : Nat) (ref : NodePinRef) : Prop :=
  ref.componentIndex ≠ mcuIndex → ∀ device, net.component ref.componentIndex = some device →
    if device.supportsI2cTransfer (s ref.componentIndex) then
      device.i2cPinIndex true = some ref.localPinIndex ∧
        ∃ scl, device.i2cPinIndex false = some scl ∧ ⟨ref.componentIndex, scl⟩ ∈ net.pinRefs sclNode
    else device.isI2cFastPathTransparent = true

/-- `push_back` of a target that is new. -/
def pushTarget (net : BusSession σ) (s : DeviceStates σ) (mcuIndex : Nat) (targets : List Nat) (ref : NodePinRef) :
    List Nat :=
  if net.takesTransfers s mcuIndex ref.componentIndex && !targets.contains ref.componentIndex then
    targets ++ [ref.componentIndex]
  else targets

theorem sdaStep_eq_some {targets next : List Nat} {ref : NodePinRef} :
    net.sdaStep s mcuIndex sclNode targets ref = some next ↔
      net.SdaAllows s mcuIndex sclNode ref ∧ net.pushTarget s mcuIndex targets ref = next := by
  unfold sdaStep SdaAllows pushTarget takesTransfers
  by_cases own : ref.componentIndex = mcuIndex
  · simp [own]
  · cases found : net.component ref.componentIndex with
    | none => simp [own]
    | some device =>
      by_cases supports : device.supportsI2cTransfer (s ref.componentIndex) = true
      · cases sda : device.i2cPinIndex true with
        | none => simp [own, supports, sda]
        | some sda' =>
          cases scl : device.i2cPinIndex false with
          | none => simp [own, supports, sda, scl]
          | some scl' =>
            by_cases here : ref.localPinIndex = sda'
            · by_cases wired : (⟨ref.componentIndex, scl'⟩ : NodePinRef) ∈ net.pinRefs sclNode
              · by_cases known : ref.componentIndex ∈ targets
                · simp [own, supports, sda, scl, here, wired, known]
                · simp [own, supports, sda, scl, here, wired, known]
              · simp [own, supports, sda, scl, here, wired]
            · simp [own, supports, sda, scl, here, Ne.symm here]
      · simp only [Bool.not_eq_true] at supports
        by_cases clear : device.isI2cFastPathTransparent = true
        · simp [own, supports, clear]
        · simp [own, supports, clear]

theorem foldlM_sdaStep {refs : List NodePinRef} {targets next : List Nat} :
    refs.foldlM (net.sdaStep s mcuIndex sclNode) targets = some next ↔
      (∀ ref ∈ refs, net.SdaAllows s mcuIndex sclNode ref) ∧
        refs.foldl (net.pushTarget s mcuIndex) targets = next := by
  induction refs generalizing targets with
  | nil => simp
  | cons ref refs ih =>
    rw [List.foldlM_cons, Option.bind_eq_bind, Option.bind_eq_some_iff]
    simp only [sdaStep_eq_some, ih, List.forall_mem_cons, List.foldl_cons]
    constructor
    · rintro ⟨_, ⟨first, rfl⟩, rest, rfl⟩
      exact ⟨⟨first, rest⟩, rfl⟩
    · rintro ⟨⟨first, rest⟩, rfl⟩
      exact ⟨_, ⟨first, rfl⟩, rest, rfl⟩

theorem foldl_pushTarget {refs : List NodePinRef} {targets : List Nat}
    (nodup : (targets ++ (refs.map (·.componentIndex)).filter (net.takesTransfers s mcuIndex)).Nodup) :
    refs.foldl (net.pushTarget s mcuIndex) targets
      = targets ++ (refs.map (·.componentIndex)).filter (net.takesTransfers s mcuIndex) := by
  induction refs generalizing targets with
  | nil => simp
  | cons ref refs ih =>
    rw [List.foldl_cons]
    by_cases takes : net.takesTransfers s mcuIndex ref.componentIndex = true
    · rw [List.map_cons, List.filter_cons_of_pos takes] at nodup ⊢
      have fresh : ref.componentIndex ∉ targets := by
        intro member
        exact (List.nodup_append.mp nodup).2.2 _ member _ List.mem_cons_self rfl
      have pushed : net.pushTarget s mcuIndex targets ref = targets ++ [ref.componentIndex] := by
        simp [pushTarget, takes, fresh]
      rw [pushed, ih (by simpa using nodup), List.append_assoc, List.singleton_append]
    · rw [List.map_cons, List.filter_cons_of_neg takes] at nodup ⊢
      have kept : net.pushTarget s mcuIndex targets ref = targets := by
        simp [pushTarget, takes]
      rw [kept, ih nodup]

theorem takesTransfers_iff {index : Nat} : net.takesTransfers s mcuIndex index = true ↔
    index ≠ mcuIndex ∧ ∃ device, net.component index = some device ∧ device.supportsI2cTransfer (s index) = true := by
  simp [takesTransfers, Option.any_eq_true]

theorem targetsOn_nodup (allows : ∀ ref ∈ net.pinRefs sdaNode, net.SdaAllows s mcuIndex sclNode ref) :
    (net.targetsOn s mcuIndex sdaNode).Nodup := by
  unfold targetsOn
  rw [List.filter_map]
  refine List.Nodup.map_on ?_ ((pinRefs_nodup sdaNode).filter _)
  intro x hx y hy same
  obtain ⟨memberX, takes⟩ := List.mem_filter.mp hx
  obtain ⟨memberY, -⟩ := List.mem_filter.mp hy
  rw [Function.comp_apply, takesTransfers_iff] at takes
  obtain ⟨other, device, found, supports⟩ := takes
  have first := allows x memberX other device found
  rw [if_pos supports] at first
  have second := allows y memberY (same ▸ other) device (same ▸ found)
  rw [if_pos (same ▸ supports)] at second
  have pins := Option.some.inj (first.1.symm.trans second.1)
  cases x
  cases y
  simp_all

theorem mem_targetsOn {index : Nat} : index ∈ net.targetsOn s mcuIndex sdaNode ↔
    (∃ ref ∈ net.pinRefs sdaNode, ref.componentIndex = index) ∧ net.takesTransfers s mcuIndex index = true := by
  rw [targetsOn, List.mem_filter, List.mem_map]

theorem all_sclAllows : (net.pinRefs sclNode).all (net.sclAllows s mcuIndex (net.targetsOn s mcuIndex sdaNode)) = true ↔
    ∀ ref ∈ net.pinRefs sclNode, ref.componentIndex ≠ mcuIndex →
      ∀ device, net.component ref.componentIndex = some device →
        if device.supportsI2cTransfer (s ref.componentIndex) then
          device.i2cPinIndex false = some ref.localPinIndex ∧
            ∃ other ∈ net.pinRefs sdaNode, other.componentIndex = ref.componentIndex
        else device.isI2cFastPathTransparent = true := by
  rw [List.all_eq_true]
  refine forall₂_congr fun ref _ => ?_
  unfold sclAllows
  by_cases own : ref.componentIndex = mcuIndex
  · simp [own]
  · cases found : net.component ref.componentIndex with
    | none => simp [own]
    | some device =>
      by_cases supports : device.supportsI2cTransfer (s ref.componentIndex) = true
      · have takes : net.takesTransfers s mcuIndex ref.componentIndex = true := by
          rw [takesTransfers_iff]
          exact ⟨own, device, found, supports⟩
        simp [own, supports, mem_targetsOn, takes]
      · simp [own, supports]

theorem i2cTargets_eq_some {bus : Nat} {targets : List Nat} : net.i2cTargets s mcuIndex bus = some targets ↔
    ∃ sdaNode sclNode, net.i2cNodes mcuIndex bus = some (sdaNode, sclNode) ∧
      net.Eligible s mcuIndex sdaNode sclNode ∧ targets = net.targetsOn s mcuIndex sdaNode := by
  unfold i2cTargets
  rw [Option.bind_eq_bind, Option.bind_eq_some_iff]
  constructor
  · rintro ⟨⟨sdaNode, sclNode⟩, nodes, walked⟩
    obtain ⟨found, sda, scl⟩ := Option.bind_eq_some_iff.mp walked
    obtain ⟨allows, rfl⟩ := foldlM_sdaStep.mp sda
    have order : (net.pinRefs sdaNode).foldl (net.pushTarget s mcuIndex) [] = net.targetsOn s mcuIndex sdaNode :=
      foldl_pushTarget (targetsOn_nodup allows)
    rw [order] at scl
    split at scl
    · rename_i passes
      obtain rfl := Option.some.inj scl
      exact ⟨sdaNode, sclNode, nodes, ⟨allows, all_sclAllows.mp passes⟩, rfl⟩
    · cases scl
  · rintro ⟨sdaNode, sclNode, nodes, ⟨sda, scl⟩, rfl⟩
    refine ⟨(sdaNode, sclNode), nodes, Option.bind_eq_some_iff.mpr ⟨net.targetsOn s mcuIndex sdaNode, ?_, ?_⟩⟩
    · exact foldlM_sdaStep.mpr ⟨sda, foldl_pushTarget (targetsOn_nodup sda)⟩
    · exact if_pos (all_sclAllows.mpr scl)

theorem askTargets_combined (targets : List Nat) (asked : Asked σ) :
    (net.askTargets transfer targets asked).1.combined.handled = asked.combined.handled := by
  induction targets generalizing asked with
  | nil => rfl
  | cons target targets ih =>
    rw [askTargets]
    split
    · exact ih asked
    · dsimp only
      split
      · rfl
      · split
        · exact ih _
        · exact ih _

theorem askTargets_cons_accepts {target : Nat} (targets : List Nat) {asked : Asked σ}
    (accepted : net.accepts asked.states transfer target = true) :
    ∃ next, net.askTargets transfer (target :: targets) asked = net.askTargets transfer targets next ∧
      next.states = Function.update asked.states target (net.transferred transfer target (asked.states target)) ∧
      (transfer.read = true → next.readResponders
        = asked.readResponders + if net.acknowledges asked.states transfer target then 1 else 0) := by
  unfold accepts at accepted
  unfold transferred acknowledges
  simp only [askTargets]
  cases found : net.component target with
  | none => exact ⟨asked, rfl, (Function.update_eq_self target _).symm, fun _ => rfl⟩
  | some device =>
    rw [found] at accepted
    dsimp only at accepted ⊢
    rw [if_neg (by simp [accepted])]
    by_cases acknowledged : (device.transferI2c (asked.states target) transfer).result.addressAck = true
    · rw [if_neg (by simp [acknowledged])]
      exact ⟨_, rfl, rfl, fun read => by simp [combine, read, acknowledged]⟩
    · rw [if_pos (by simp [acknowledged])]
      exact ⟨_, rfl, rfl, fun _ => by simp [acknowledged]⟩

theorem askTargets_cons_refuses {target : Nat} (targets : List Nat) {asked : Asked σ}
    (refused : net.accepts asked.states transfer target = false) :
    (net.askTargets transfer (target :: targets) asked).2 = false ∧
      (net.askTargets transfer (target :: targets) asked).1.states
        = Function.update asked.states target (net.transferred transfer target (asked.states target)) := by
  unfold accepts at refused
  unfold transferred
  simp only [askTargets]
  cases found : net.component target with
  | none => simp [found] at refused
  | some device =>
    rw [found] at refused
    dsimp only at refused ⊢
    rw [refused]
    exact ⟨rfl, rfl⟩

theorem mem_askedOf_cons {target index : Nat} {targets : List Nat} :
    index ∈ net.askedOf s transfer (target :: targets) ↔
      index = target ∨ (net.accepts s transfer target = true ∧ index ∈ net.askedOf s transfer targets) := by
  unfold askedOf
  cases accepted : net.accepts s transfer target with
  | true => simp [List.takeWhile_cons_of_pos accepted, List.dropWhile_cons_of_pos accepted]
  | false => simp [accepted]

/-- What the loop does from any point on: the devices that it still asks are as they were at the start. -/
theorem askTargets_spec {targets : List Nat} {asked : Asked σ} (nodup : targets.Nodup)
    (fresh : ∀ target ∈ targets, asked.states target = s target) :
    ((net.askTargets transfer targets asked).2 = targets.all (net.accepts s transfer)) ∧
    (∀ index, (net.askTargets transfer targets asked).1.states index
      = if index ∈ net.askedOf s transfer targets then net.transferred transfer index (s index)
        else asked.states index) ∧
    (targets.all (net.accepts s transfer) = true → transfer.read = true →
      (net.askTargets transfer targets asked).1.readResponders
        = asked.readResponders + (targets.filter (net.acknowledges s transfer)).length) := by
  induction targets generalizing asked with
  | nil => simp [askTargets, askedOf]
  | cons target targets ih =>
    obtain ⟨apart, nodup⟩ := List.nodup_cons.mp nodup
    have here := fresh target List.mem_cons_self
    have sameReply : net.accepts asked.states transfer target = net.accepts s transfer target := by
      simp only [accepts, here]
    have sameAck : net.acknowledges asked.states transfer target = net.acknowledges s transfer target := by
      simp only [acknowledges, here]
    have moved (index : Nat) : Function.update asked.states target
        (net.transferred transfer target (asked.states target)) index
          = if index = target then net.transferred transfer target (s target) else asked.states index := by
      rw [Function.update_apply, here]
    cases accepted : net.accepts s transfer target with
    | false =>
      obtain ⟨flag, states⟩ := askTargets_cons_refuses targets (sameReply.trans accepted)
      refine ⟨by simp [flag, accepted], fun index => ?_, fun all => ?_⟩
      · rw [states, moved]
        by_cases same : index = target
        · subst same
          simp [mem_askedOf_cons]
        · simp [mem_askedOf_cons, same, accepted]
      · simp [accepted] at all
    | true =>
      obtain ⟨next, step, states, count⟩ := askTargets_cons_accepts targets (sameReply.trans accepted)
      have still : ∀ other ∈ targets, next.states other = s other := by
        intro other member
        have different : other ≠ target := fun equal => apart (equal ▸ member)
        rw [states, moved, if_neg different]
        exact fresh other (List.mem_cons_of_mem _ member)
      obtain ⟨flag, rest, responders⟩ := ih nodup still
      rw [step]
      refine ⟨by simp [flag, accepted], fun index => ?_, fun all read => ?_⟩
      · rw [rest index, states, moved]
        by_cases same : index = target
        · subst same
          simp [mem_askedOf_cons]
        · simp [mem_askedOf_cons, same, accepted]
      · rw [responders (by simpa [accepted] using all) read, count read, sameAck]
        cases acknowledged : net.acknowledges s transfer target with
        | false => simp [acknowledged]
        | true => simp [acknowledged, Nat.add_comm 1, Nat.add_assoc]

theorem mem_targetsOn_iff (eligible : net.Eligible s mcuIndex sdaNode sclNode) {index : Nat} :
    index ∈ net.targetsOn s mcuIndex sdaNode ↔ index ≠ mcuIndex ∧ net.Matching s sdaNode sclNode index := by
  rw [mem_targetsOn, takesTransfers_iff]
  constructor
  · rintro ⟨⟨ref, member, rfl⟩, other, device, found, supports⟩
    have allowed := eligible.sda ref member other device found
    rw [if_pos supports] at allowed
    obtain ⟨sda, scl, sclPin, wired⟩ := allowed
    exact ⟨other, device, ref.localPinIndex, scl, found, supports, sda, sclPin, member, wired⟩
  · rintro ⟨other, device, sda, scl, found, supports, -, -, member, -⟩
    exact ⟨⟨_, member, rfl⟩, other, device, found, supports⟩

/-- On an eligible bus everything is transparent or a matching device. -/
theorem Eligible.all (eligible : net.Eligible s mcuIndex sdaNode sclNode) :
    ∀ ref ∈ net.pinRefs sdaNode ++ net.pinRefs sclNode, ref.componentIndex ≠ mcuIndex →
      net.component ref.componentIndex = none ∨ net.Transparent ref.componentIndex ∨
        net.Matching s sdaNode sclNode ref.componentIndex := by
  intro ref member other
  cases found : net.component ref.componentIndex with
  | none => exact .inl rfl
  | some device =>
    right
    by_cases supports : device.supportsI2cTransfer (s ref.componentIndex) = true
    · right
      apply ((mem_targetsOn_iff eligible).mp _).2
      rw [mem_targetsOn, takesTransfers_iff]
      refine ⟨?_, other, device, found, supports⟩
      rcases List.mem_append.mp member with onSda | onScl
      · exact ⟨ref, onSda, rfl⟩
      · have allowed := eligible.scl ref onScl other device found
        rw [if_pos supports] at allowed
        exact allowed.2
    · left
      rcases List.mem_append.mp member with onSda | onScl
      · have allowed := eligible.sda ref onSda other device found
        rw [if_neg supports] at allowed
        exact ⟨device, found, allowed⟩
      · have allowed := eligible.scl ref onScl other device found
        rw [if_neg supports] at allowed
        exact ⟨device, found, allowed⟩

theorem resolve_none {bus : Nat} (transfer : I2cTransfer) (rx : List UInt8) (none : net.i2cTargets s mcuIndex bus = none) :
    net.resolveI2cTransfer s mcuIndex bus transfer rx = ({}, s, rx) := by
  rw [resolveI2cTransfer, none]

/-- The transfer is settled by the answers of the devices. -/
def Settled (net : BusSession σ) (s : DeviceStates σ) (transfer : I2cTransfer) (targets : List Nat) : Prop :=
  (∀ target ∈ targets, net.accepts s transfer target = true) ∧
    (transfer.read = true → (targets.filter (net.acknowledges s transfer)).length ≤ 1)

theorem askedOf_of_all {targets : List Nat} (all : ∀ target ∈ targets, net.accepts s transfer target = true) :
    net.askedOf s transfer targets = targets := by
  rw [askedOf, List.takeWhile_eq_self_iff.mpr all, List.dropWhile_eq_nil_iff.mpr all, List.take_nil, List.append_nil]

theorem resolve_some {bus : Nat} (transfer : I2cTransfer) (rx : List UInt8) {targets : List Nat} (nodup : targets.Nodup)
    (found : net.i2cTargets s mcuIndex bus = some targets) :
    ((net.resolveI2cTransfer s mcuIndex bus transfer rx).1.handled = true ↔ net.Settled s transfer targets) ∧
      ∀ index, (net.resolveI2cTransfer s mcuIndex bus transfer rx).2.1 index
        = if index ∈ net.askedOf s transfer targets then net.transferred transfer index (s index) else s index := by
  cases targets with
  | nil =>
    rw [resolveI2cTransfer, found]
    exact ⟨by simp [Settled], fun index => by simp [askedOf]⟩
  | cons target targets =>
    let start : Asked σ := ⟨s, { handled := true }, 0, rx⟩
    obtain ⟨flag, states, count⟩ := @askTargets_spec σ net s transfer (target :: targets) start nodup fun _ _ => rfl
    have handled := @askTargets_combined σ net transfer (target :: targets) start
    rw [resolveI2cTransfer, found]
    dsimp only
    dsimp only [start] at *
    generalize net.askTargets transfer (target :: targets) ⟨s, { handled := true }, 0, rx⟩ = outcome at *
    obtain ⟨asked, accepted⟩ := outcome
    dsimp only at *
    subst flag
    by_cases all : (target :: targets).all (net.accepts s transfer) = true
    · have each := List.all_eq_true.mp all
      rw [if_neg (by simp [all])]
      by_cases read : transfer.read = true
      · have responders := count all read
        rw [Nat.zero_add] at responders
        by_cases many : ((target :: targets).filter (net.acknowledges s transfer)).length ≤ 1
        · rw [if_neg (by simp only [read, responders, Bool.true_and, decide_eq_true_eq]; omega)]
          exact ⟨iff_of_true handled ⟨each, fun _ => many⟩, states⟩
        · rw [if_pos (by simp only [read, responders, Bool.true_and, decide_eq_true_eq]; omega)]
          exact ⟨iff_of_false Bool.false_ne_true fun settled => many (settled.2 read), states⟩
      · rw [if_neg (by simp [read])]
        exact ⟨iff_of_true handled ⟨each, fun isRead => absurd isRead read⟩, states⟩
    · rw [if_pos (by rw [Bool.eq_false_iff.mpr all]; rfl)]
      exact ⟨iff_of_false Bool.false_ne_true fun settled => all (List.all_eq_true.mpr settled.1), states⟩

theorem i2cSound_iff {bus : Nat} (rx : List UInt8) :
    net.I2cSound s mcuIndex bus transfer rx ↔ net.Undisturbed s mcuIndex bus transfer := by
  constructor
  · intro sound sdaNode sclNode nodes eligible
    have found := i2cTargets_eq_some.mpr ⟨sdaNode, sclNode, nodes, eligible, rfl⟩
    obtain ⟨settled, states⟩ := resolve_some transfer rx (targetsOn_nodup eligible.sda) found
    by_cases done : net.Settled s transfer (net.targetsOn s mcuIndex sdaNode)
    · exact .inl done
    · right
      intro target asked
      have still := sound.fallback (Bool.eq_false_iff.mpr (mt settled.mp done))
      have moved := states target
      rw [if_pos asked, still] at moved
      exact moved.symm
  · intro undisturbed
    cases found : net.i2cTargets s mcuIndex bus with
    | none =>
      have outcome := resolve_none transfer rx found
      refine ⟨fun handled => ?_, fun _ => by rw [outcome]⟩
      rw [outcome] at handled
      cases handled
    | some targets =>
      obtain ⟨sdaNode, sclNode, nodes, eligible, rfl⟩ := i2cTargets_eq_some.mp found
      obtain ⟨settled, states⟩ := resolve_some transfer rx (targetsOn_nodup eligible.sda) found
      refine ⟨fun handled => ⟨sdaNode, sclNode, nodes, eligible.all, fun index other matching => ?_,
        fun index outside => ?_⟩, fun fallback => ?_⟩
      · rw [states, askedOf_of_all (settled.mp handled).1,
          if_pos ((mem_targetsOn_iff eligible).mpr ⟨other, matching⟩)]
      · rw [states, askedOf_of_all (settled.mp handled).1, if_neg fun member =>
          outside ((mem_targetsOn_iff eligible).mp member)]
      · funext index
        rw [states]
        split
        · rename_i asked
          refine ((undisturbed sdaNode sclNode nodes eligible).resolve_left fun done => ?_) index asked
          exact Bool.false_ne_true (fallback.symm.trans (settled.mpr done))
        · rfl

/-! ### Bytes on an SPI bus -/

theorem mapM_each {α β : Type} {f : α → Option β} {xs : List α} {ys : List β} (h : xs.mapM f = some ys) :
    (∀ x ∈ xs, ∃ y ∈ ys, f x = some y) ∧ ys.map some = xs.map f := by
  have each := Lib.Fallible.mapM_some h
  refine ⟨fun _ member => Lib.Fallible.exists_of_forall₂ each member, ?_⟩
  clear h
  induction each with
  | nil => rfl
  | cons first _ ih => rw [List.map_cons, List.map_cons, first, ih]

theorem spiSlaveAt_some {mcuPin : Nat} {role : Bool} {ref : NodePinRef} {found : Option Nat}
    (h : net.spiSlaveAt s mcuIndex mcuPin role ref = some found) :
    (found = none ∧ (ref = ⟨mcuIndex, mcuPin⟩ ∨ net.Transparent ref.componentIndex)) ∨
      (found = some ref.componentIndex ∧ net.SlavePin s role ref) := by
  unfold spiSlaveAt at h
  split at h
  · rename_i own
    exact .inl ⟨(Option.some.inj h).symm, .inl own⟩
  · split at h
    · cases h
    · rename_i other component
      split at h
      · rename_i transparent
        exact .inl ⟨(Option.some.inj h).symm, .inr ⟨other, component, transparent⟩⟩
      · split at h
        · cases h
        · rename_i spi inputs
          by_cases pin : ref.localPinIndex = if role then spi.clock else spi.data
          · rw [if_pos pin] at h
            exact .inr ⟨(Option.some.inj h).symm, other, spi, component, inputs, pin⟩
          · rw [if_neg pin] at h
            cases h

theorem SlavePin.unique {role : Bool} {x y : NodePinRef} (hx : net.SlavePin s role x) (hy : net.SlavePin s role y)
    (same : x.componentIndex = y.componentIndex) : x = y := by
  obtain ⟨device, spi, found, inputs, pin⟩ := hx
  obtain ⟨device', spi', found', inputs', pin'⟩ := hy
  rw [same, found'] at found
  obtain rfl := Option.some.inj found
  rw [same, inputs'] at inputs
  obtain rfl := Option.some.inj inputs
  cases x
  cases y
  simp_all

theorem spiSlavesOn_some {node mcuPin : Nat} {role : Bool} {slaves : List Nat}
    (h : net.spiSlavesOn s node mcuIndex mcuPin role = some slaves) :
    slaves.Nodup ∧ ∀ ref ∈ net.pinRefs node, ref = ⟨mcuIndex, mcuPin⟩ ∨ net.Transparent ref.componentIndex ∨
      (ref.componentIndex ∈ slaves ∧ net.SlavePin s role ref) := by
  obtain ⟨found, walked, sorted⟩ := Option.bind_eq_some_iff.mp h
  obtain rfl := Option.some.inj sorted
  obtain ⟨each, mapped⟩ := mapM_each walked
  have collected : found.filterMap id
      = (net.pinRefs node).filterMap fun ref => (net.spiSlaveAt s mcuIndex mcuPin role ref).join := by
    have joined := congrArg (List.filterMap Option.join) mapped
    simpa [List.filterMap_map, Function.comp_def] using joined
  refine ⟨(List.mergeSort_perm _ _).nodup_iff.mpr ?_, fun ref member => ?_⟩
  · rw [collected]
    refine List.Nodup.filterMap (fun x y index hx hy => ?_) (pinRefs_nodup node)
    have slave (ref : NodePinRef) (h : index ∈ (net.spiSlaveAt s mcuIndex mcuPin role ref).join) :
        ref.componentIndex = index ∧ net.SlavePin s role ref := by
      rcases spiSlaveAt_some (Option.join_eq_some_iff.mp h) with ⟨none, -⟩ | ⟨same, pin⟩
      · cases none
      · exact ⟨(Option.some.inj same).symm, pin⟩
    exact (slave x hx).2.unique (slave y hy).2 ((slave x hx).1.trans (slave y hy).1.symm)
  · obtain ⟨slave, listed, walked⟩ := each ref member
    rcases spiSlaveAt_some walked with ⟨-, own | transparent⟩ | ⟨rfl, pin⟩
    · exact .inl own
    · exact .inr (.inl transparent)
    · exact .inr (.inr ⟨(List.mergeSort_perm _ _).mem_iff.mpr (List.mem_filterMap.mpr ⟨_, listed, rfl⟩), pin⟩)

theorem onlyMcuPin_some {node pin : Nat} (h : net.onlyMcuPin mcuIndex node = some pin) :
    ⟨mcuIndex, pin⟩ ∈ net.pinRefs node := by
  unfold onlyMcuPin at h
  split at h
  · rename_i ref only
    obtain rfl := Option.some.inj h
    have member : ref ∈ (net.pinRefs node).filter (·.componentIndex = mcuIndex) := by
      rw [only]
      exact List.mem_singleton_self ref
    obtain ⟨listed, own⟩ := List.mem_filter.mp member
    rwa [← of_decide_eq_true own]
  · cases h

theorem misoOf_some {slaves : List Nat} {misoPin misoNode : Nat}
    (h : net.misoOf s mcuIndex slaves = some (some (misoPin, misoNode))) :
    ∀ ref ∈ net.pinRefs misoNode, ref = ⟨mcuIndex, misoPin⟩ ∨ net.Transparent ref.componentIndex ∨
      (ref.componentIndex ∈ slaves ∧ net.spiOutputPin s ref.componentIndex = some ref.localPinIndex) := by
  unfold misoOf at h
  split at h
  · cases Option.some.inj h
  · obtain ⟨misoNodes, outputs, h⟩ := Option.bind_eq_some_iff.mp h
    obtain ⟨observed, watched, h⟩ := Option.bind_eq_some_iff.mp h
    obtain ⟨front, first, h⟩ := Option.bind_eq_some_iff.mp h
    obtain ⟨mcuPin, -, h⟩ := Option.bind_eq_some_iff.mp h
    obtain ⟨mcuNode, -, h⟩ := Option.bind_eq_some_iff.mp h
    split at h
    · rename_i checks
      obtain ⟨rfl, rfl⟩ := Prod.mk.inj (Option.some.inj (Option.some.inj h))
      obtain ⟨together, eligible⟩ := Bool.and_eq_true_iff.mp checks
      cases slaves with
      | nil =>
        obtain rfl := Option.some.inj outputs
        cases first
      | cons slave slaves =>
        obtain ⟨node, nodeListed, output⟩ := (mapM_each outputs).1 slave List.mem_cons_self
        obtain ⟨output, outputPin, outputNode⟩ := Option.bind_eq_some_iff.mp output
        obtain ⟨device, found, declared⟩ := Option.bind_eq_some_iff.mp outputPin
        obtain ⟨outputs', outputsListed, watchedHere⟩ := (mapM_each watched).1 slave List.mem_cons_self
        obtain ⟨device', found', watchedHere⟩ := Option.bind_eq_some_iff.mp watchedHere
        obtain rfl := Option.some.inj (found.symm.trans found')
        obtain ⟨seen, seenListed, seenHere⟩ := (mapM_each watchedHere).1 output (device.output_listed _ _ declared)
        obtain ⟨node', seenNode, same⟩ := Option.bind_eq_some_iff.mp seenHere
        obtain rfl := Option.some.inj same
        obtain rfl := Option.some.inj (outputNode.symm.trans seenNode)
        have here : node = mcuNode := eq_of_beq (List.all_eq_true.mp together node nodeListed)
        subst here
        have clean := List.all_eq_true.mp eligible _ (List.mem_flatten.mpr ⟨outputs', outputsListed, seenListed⟩)
        intro ref member
        have passes := List.all_eq_true.mp clean ref member
        simp only [Bool.or_eq_true, Bool.and_eq_true, decide_eq_true_eq] at passes
        rcases passes with (own | ⟨-, mcu⟩) | transparent
        · rw [own]
          exact .inr (.inr ⟨List.mem_cons_self, outputPin⟩)
        · exact .inl mcu
        · right
          left
          split at transparent
          · cases transparent
          · rename_i other component
            exact ⟨other, component, transparent⟩
    · cases h

theorem spiBytePairAt_some {published : DeviceStates σ} {clockPin : Nat} {pair : SpiBytePair}
    (h : net.spiBytePairAt published mcuIndex clockPin = some pair) :
    pair.clockPin = clockPin ∧ net.SpiClean published mcuIndex pair := by
  obtain ⟨clockNode, clock, h⟩ := Option.bind_eq_some_iff.mp h
  obtain ⟨slaves, onClock, h⟩ := Option.bind_eq_some_iff.mp h
  obtain ⟨joined, -, h⟩ := Option.bind_eq_some_iff.mp h
  obtain ⟨dataNode, -, h⟩ := Option.bind_eq_some_iff.mp h
  split at h
  · cases h
  · obtain ⟨dataPin, only, h⟩ := Option.bind_eq_some_iff.mp h
    obtain ⟨dataSlaves, onData, h⟩ := Option.bind_eq_some_iff.mp h
    split at h
    · cases h
    · rename_i same
      obtain rfl : dataSlaves = slaves := not_not.mp same
      obtain ⟨miso, output, h⟩ := Option.bind_eq_some_iff.mp h
      obtain rfl := Option.some.inj h
      obtain ⟨nodup, clockClean⟩ := spiSlavesOn_some onClock
      refine ⟨rfl, nodup, ⟨clockNode, clock, clockClean⟩,
        ⟨dataNode, onlyMcuPin_some only, (spiSlavesOn_some onData).2⟩, ?_⟩
      intro misoPin misoNode isMiso
      dsimp only at isMiso
      subst isMiso
      exact misoOf_some output

theorem mem_mcuSpiBytePairs {published : DeviceStates σ} {pair : SpiBytePair}
    (member : pair ∈ net.mcuSpiBytePairs published mcuIndex) :
    net.spiBytePairAt published mcuIndex pair.clockPin = some pair := by
  obtain ⟨clockPin, -, found⟩ := List.mem_filterMap.mp member
  rw [(spiBytePairAt_some found).1]
  exact found

theorem foldl_exchangeStep {byte : UInt8} {devices : List Nat} (nodup : devices.Nodup) (exchange : SpiExchange σ) :
    (devices.foldl (net.exchangeStep byte) exchange).states
      = fun index => if index ∈ devices then net.exchanged byte index (exchange.states index)
          else exchange.states index := by
  induction devices generalizing exchange with
  | nil => simp
  | cons device devices ih =>
    obtain ⟨apart, nodup⟩ := List.nodup_cons.mp nodup
    rw [List.foldl_cons, ih nodup]
    have step : (net.exchangeStep byte exchange device).states
        = Function.update exchange.states device (net.exchanged byte device (exchange.states device)) := by
      unfold exchangeStep exchanged
      cases net.component device with
      | none => exact (Function.update_eq_self device _).symm
      | some component => rfl
    funext index
    rw [step, Function.update_apply]
    by_cases same : index = device
    · subst same
      simp [apart]
    · simp [same]

theorem spiSound : net.SpiSound mcuIndex := by
  refine ⟨fun published pair member => (spiBytePairAt_some (mem_mcuSpiBytePairs member)).2,
    fun published s byte pair member => ?_, fun published s clockPin dataPin byte missing => ?_⟩
  · have nodup := (spiBytePairAt_some (mem_mcuSpiBytePairs member)).2.devices
    have first : (net.mcuSpiBytePairs published mcuIndex).find?
        (fun other => other.clockPin == pair.clockPin && other.dataPin == pair.dataPin) = some pair := by
      cases found : (net.mcuSpiBytePairs published mcuIndex).find?
          (fun other => other.clockPin == pair.clockPin && other.dataPin == pair.dataPin) with
      | none => exact absurd (List.find?_eq_none.mp found pair member) (by simp)
      | some other =>
        have pins := List.find?_some found
        simp only [Bool.and_eq_true, beq_iff_eq] at pins
        have at' := mem_mcuSpiBytePairs (List.mem_of_find?_eq_some found)
        rw [pins.1, mem_mcuSpiBytePairs member] at at'
        exact at'.symm
    rw [deliverSpiByte, first]
    exact foldl_exchangeStep nodup _
  · have absent : (net.mcuSpiBytePairs published mcuIndex).find?
        (fun pair => pair.clockPin == clockPin && pair.dataPin == dataPin) = none := by
      apply List.find?_eq_none.mpr
      intro pair member found
      simp only [Bool.and_eq_true, beq_iff_eq] at found
      exact missing pair member found
    rw [deliverSpiByte, absent]

/-- The fast path goes only where nothing could see the difference, once to each device. Its fallbacks leave every
device as it was if and only if the transfer is undisturbed. -/
theorem fastPath_sound_iff (net : BusSession σ) (s : DeviceStates σ) (mcuIndex bus : Nat) (transfer : I2cTransfer)
    (rx : List UInt8) :
    (net.I2cSound s mcuIndex bus transfer rx ∧ net.SpiSound mcuIndex) ↔ net.Undisturbed s mcuIndex bus transfer :=
  (and_iff_left spiSound).trans (i2cSound_iff rx)

/-- A memory that keeps what is written to it. -/
def i2cRam : BusComponent (List UInt8) where
  typeId := "logic.i2c_ram"
  pins := ["sda", "scl"]
  supportsI2cTransfer := fun _ => true
  i2cPinIndex := fun sda => some (if sda then 0 else 1)
  transferI2c := fun state transfer =>
    if transfer.address = 0x50 then ⟨state ++ transfer.txData, { handled := true, addressAck := true }, []⟩
    else ⟨state, { handled := true }, []⟩

/-- A port expander of the same plugin, which refuses every transfer. -/
def i2cToParallel : BusComponent (List UInt8) where
  typeId := "logic.i2c_to_parallel"
  pins := ["sda", "scl"]
  supportsI2cTransfer := fun _ => true
  i2cPinIndex := fun sda => some (if sda then 0 else 1)

def i2cMaster : BusComponent (List UInt8) where
  typeId := "mcu"
  pins := ["sda", "scl"]
  resolveI2cPinIndex := some fun _ sda => some (if sda then 0 else 1)

/-- The three of them on one bus. -/
def sharedBus : BusSession (List UInt8) where
  componentInstances := [some i2cMaster, some i2cRam, some i2cToParallel]
  pinSlotsOf := fun index pin => some (2 * index + if pin = "sda" then 0 else 1)
  topology :=
    { groups := [], resolutionBySlot := [], listenersByNode := [], extraVariablesByComponent := []
      stampResolutionByComponent := []
      slotToNode := [0, 1, 0, 1, 0, 1]
      pinRefsByNode := [[⟨0, 0⟩, ⟨1, 0⟩, ⟨2, 0⟩], [⟨0, 1⟩, ⟨1, 1⟩, ⟨2, 1⟩]] }
  refs_nodup := by decide

/-- The memory has taken the byte, and the bus is left to carry it once more. -/
theorem fastPath_writesTwice :
    let transfer : I2cTransfer := { address := 0x50, txData := [7] }
    let outcome := sharedBus.resolveI2cTransfer (fun _ => []) 0 0 transfer []
    outcome.1.handled = false ∧ outcome.2.1 1 = [7] ∧
      ¬ (sharedBus.I2cSound (fun _ => []) 0 0 transfer [] ∧ sharedBus.SpiSound 0) := by
  have fallback : (sharedBus.resolveI2cTransfer (fun _ => []) 0 0 { address := 0x50, txData := [7] } []).1.handled
      = false := rfl
  have moved : (sharedBus.resolveI2cTransfer (fun _ => []) 0 0 { address := 0x50, txData := [7] } []).2.1 1
      = [7] := rfl
  refine ⟨fallback, moved, fun sound => ?_⟩
  have still := congrFun (sound.1.fallback fallback) 1
  rw [moved] at still
  cases still

end BusSession

end LasecSimul.Session
