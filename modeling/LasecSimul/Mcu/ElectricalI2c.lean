import Mathlib.Logic.Function.Basic
import LasecSimul.Mcu.I2cEngine

/-!
# The queue of electrical I2C transactions

One transaction at a time is on the wires and the others wait for it. A module advances at its wake-ups, which resets
cancel; that a transaction is over is seen at a wake-up.
-/

namespace LasecSimul.Mcu

inductive I2cBus where
  | i2c0 | i2c1
  deriving DecidableEq, Repr

/-- The operation of a BATCH envelope; `address` is `tx[0]` and `tx` what follows it. -/
structure I2cBatch where
  bus : I2cBus
  start : Bool
  stop : Bool
  lastReadNack : Bool
  address : UInt8
  tx : List UInt8
  rxBytes : Nat
  periodNs : UInt64
  deriving DecidableEq, Repr

structure VnextBElectricalI2c where
  lane : Nat
  requestSeq : Nat
  op : I2cBatch
  deriving DecidableEq, Repr

/-- `UINT32_MAX` in `firstNack`. -/
def noNack : Nat := UInt32.size - 1

structure I2cTransferResult where
  handled : Bool := false
  addressAck : Bool := false
  firstNack : Nat := noNack
  rx : List UInt8 := []
  deriving DecidableEq, Repr

structure Response where
  lane : Nat
  requestSeq : Nat
  result : I2cTransferResult
  deriving DecidableEq, Repr

def Response.id (response : Response) : Nat × Nat := (response.lane, response.requestSeq)

namespace VnextBElectricalI2c

/-- What identifies a request: its lane and its sequence number. -/
def id (transaction : VnextBElectricalI2c) : Nat × Nat := (transaction.lane, transaction.requestSeq)

def writeOp (byte : UInt8) : I2cOp := { kind := .write, byte, record := true, abortOnNack := true }

/-- The operations that a transaction puts on the wires. Without START the address only routes the batch. -/
def ops (transaction : VnextBElectricalI2c) : List I2cOp :=
  let op := transaction.op
  (if op.start then [{ kind := .restart }, writeOp op.address] else []) ++ op.tx.map writeOp ++
    (List.range op.rxBytes).map (fun i =>
      { kind := .read, nack := op.lastReadNack && i + 1 == op.rxBytes, record := true }) ++
    if op.stop then [{ kind := .stop }] else []

/-- Hand a transaction to the engine of its bus. -/
def load (transaction : VnextBElectricalI2c) (engine : I2cState) (nowNs : Nat) : I2cState :=
  transaction.ops.foldl (fun engine op => engine.writeCoreOp op nowNs)
    (if 0 < transaction.op.periodNs then engine.writeLowPeriod transaction.op.periodNs else engine)

/-- The accumulators of the loop over the results of the engine. -/
structure Collected where
  result : I2cTransferResult
  writes : Nat := 0

def Collected.take (start : Bool) (collected : Collected) (word : CoreResult) : Collected :=
  let result := collected.result
  if word.kind = .write then
    { result :=
        if start && collected.writes == 0 then { result with addressAck := word.ack }
        else if !word.ack && result.firstNack == noNack then
          { result with firstNack := collected.writes - if start then 1 else 0 }
        else result
      writes := collected.writes + 1 }
  else if result.rx.length < 32 then { collected with result := { result with rx := result.rx ++ [word.byte] } }
  else collected

def result (transaction : VnextBElectricalI2c) (words : List CoreResult) : I2cTransferResult :=
  let start := transaction.op.start
  (words.foldl (Collected.take start) { result := { handled := true, addressAck := !start } }).result

end VnextBElectricalI2c

/-- `m_vnextBElectricalI2c`, the queue behind it, the engines of the modules that exist and the response slots of the
lanes. `submitted` and `answered` are the history. -/
structure I2cQueue where
  engines : I2cBus → Option I2cState
  requests : Nat → Nat := fun _ => 0
  responses : Nat → Nat := fun _ => 0
  current : Option VnextBElectricalI2c := none
  queue : List VnextBElectricalI2c := []
  submitted : List VnextBElectricalI2c := []
  answered : List Response := []

namespace I2cQueue

def respondToI2c (s : I2cQueue) (transaction : VnextBElectricalI2c) (result : I2cTransferResult) : I2cQueue :=
  if transaction.requestSeq = 0 ∨ s.requests transaction.lane ≠ transaction.requestSeq then s
  else
    { s with
      responses := Function.update s.responses transaction.lane transaction.requestSeq
      answered := s.answered ++ [⟨transaction.lane, transaction.requestSeq, result⟩] }

def setEngine (s : I2cQueue) (bus : I2cBus) (engine : I2cState) : I2cQueue :=
  { s with engines := Function.update s.engines bus (some engine) }

/-- Put a transaction that was taken from the queue on the wires. -/
def begin (s : I2cQueue) (transaction : VnextBElectricalI2c) (engine : I2cState) (nowNs : Nat) : I2cQueue :=
  { s.setEngine transaction.op.bus (transaction.load engine nowNs) with current := some transaction }

/-- What the MCU answers for a module that does not exist. -/
def noModule : I2cTransferResult := { handled := true, firstNack := 0 }

def startQueue (nowNs : Nat) : List VnextBElectricalI2c → I2cQueue → I2cQueue
  | [], s => s
  | transaction :: rest, s =>
    let taken := { s with queue := rest }
    match taken.engines transaction.op.bus with
    | none => startQueue nowNs rest (taken.respondToI2c transaction noModule)
    | some engine => taken.begin transaction engine nowNs

def start (s : I2cQueue) (nowNs : Nat) : I2cQueue :=
  match s.current with
  | none => startQueue nowNs s.queue s
  | some _ => s

/-- Answer the current transaction with the results of its engine. -/
def finish (s : I2cQueue) (transaction : VnextBElectricalI2c) (engine : I2cState) : I2cQueue :=
  { (s.setEngine transaction.op.bus { engine with coreResults := [] }).respondToI2c transaction
      (transaction.result engine.coreResults) with current := none }

def completeIfDone (nowNs : Nat) : Nat → I2cQueue → I2cQueue
  | 0, s => s
  | fuel + 1, s =>
    match s.current with
    | none => s
    | some transaction =>
      match s.engines transaction.op.bus with
      | none => s
      | some engine =>
        if engine.busy then s else completeIfDone nowNs fuel ((s.finish transaction engine).start nowNs)

/-- Each transaction that is over shortens the queue, so its length bounds the recursion. -/
def complete (s : I2cQueue) (nowNs : Nat) : I2cQueue := completeIfDone nowNs (s.queue.length + 1) s

def startOrQueue (s : I2cQueue) (transaction : VnextBElectricalI2c) (nowNs : Nat) : I2cQueue :=
  let pushed := { s with queue := s.queue ++ [transaction] }
  if s.current.isSome then pushed else (pushed.start nowNs).complete nowNs

def dueNs (s : I2cQueue) (bus : I2cBus) : Option Nat := (s.engines bus).bind I2cState.dueNs

def pending (s : I2cQueue) : List VnextBElectricalI2c := s.current.toList ++ s.queue

end I2cQueue

/-- `m_moduleWakeupDueNs` and `m_moduleWakeupGeneration` of a module. -/
structure Wakeup where
  dueNs : Option Nat := none
  generation : Nat := 0

/-- The event of a module in the scheduler. -/
structure WakeupEvent where
  bus : I2cBus
  generation : Nat
  timeNs : Nat
  deriving DecidableEq, Repr

/-- The I2C part of the MCU and of the scheduler. `dirty` asks for a settle, and `delivered` counts the wake-ups that
took effect. -/
structure McuI2c where
  i2c : I2cQueue
  wakeups : I2cBus → Wakeup := fun _ => {}
  scheduled : List WakeupEvent := []
  dirty : Bool := false
  delivered : Nat := 0

inductive I2cStep where
  | submit (transaction : VnextBElectricalI2c) (nowNs : Nat)
  | settle (nowNs : Nat)
  /-- `changed`: the wake-up changes the electrical outputs. -/
  | wakeup (event : WakeupEvent) (nowNs : Nat) (changed : Bool)
  | peripheralReset (bus : I2cBus)
  | socDigitalReset
  deriving DecidableEq, Repr

namespace McuI2c

def setWakeup (s : McuI2c) (bus : I2cBus) (wakeup : Wakeup) : McuI2c :=
  { s with wakeups := Function.update s.wakeups bus wakeup }

def scheduleModuleWakeup (s : McuI2c) (bus : I2cBus) (nowNs : Nat) : McuI2c :=
  let wakeup := s.wakeups bus
  match s.i2c.dueNs bus with
  | none => if wakeup.dueNs = none then s else s.setWakeup bus { generation := wakeup.generation + 1 }
  | some dueNs =>
    let atNs := max dueNs nowNs
    if wakeup.dueNs.any (· ≤ atNs) then s
    else
      { s.setWakeup bus { dueNs := some atNs, generation := wakeup.generation + 1 } with
        scheduled := ⟨bus, wakeup.generation + 1, atNs⟩ :: s.scheduled }

def scheduleWakeupsForAllModules (s : McuI2c) (nowNs : Nat) : McuI2c :=
  (s.scheduleModuleWakeup .i2c0 nowNs).scheduleModuleWakeup .i2c1 nowNs

/-- The engine of a module after its wake-up, and then the queue. -/
def onWakeup (s : I2cQueue) (bus : I2cBus) (nowNs : Nat) : I2cQueue :=
  match s.engines bus with
  | none => s
  | some engine => (s.setEngine bus (engine.onWakeup nowNs)).complete nowNs

/-- The solver stamps the MCU, which looks at the wake-up of every module. -/
def settle (s : McuI2c) (nowNs : Nat) : McuI2c := { s.scheduleWakeupsForAllModules nowNs with dirty := false }

def takeEvent (s : McuI2c) (event : WakeupEvent) : McuI2c := { s with scheduled := s.scheduled.erase event }

def woken (s : McuI2c) (event : WakeupEvent) (nowNs : Nat) : McuI2c :=
  { (s.takeEvent event).setWakeup event.bus { generation := event.generation } with
    i2c := onWakeup s.i2c event.bus nowNs
    delivered := s.delivered + 1 }

/-- The callback of an event; that of an old generation does nothing. -/
def runModuleWakeup (s : McuI2c) (event : WakeupEvent) (nowNs : Nat) (changed : Bool) : McuI2c :=
  if (s.wakeups event.bus).generation ≠ event.generation then s.takeEvent event
  else { (s.woken event nowNs).scheduleModuleWakeup event.bus nowNs with dirty := s.dirty || changed }

def resetEngine (engine : Option I2cState) : Option I2cState := engine.map fun _ => {}

/-- A write of `DPORT_PERIP_RST_EN` that resets one controller. -/
def peripheralReset (s : McuI2c) (bus : I2cBus) : McuI2c :=
  { s with
    i2c := { s.i2c with engines := Function.update s.i2c.engines bus (resetEngine (s.i2c.engines bus)) }
    dirty := true }

/-- The adapter resets every controller, and the wake-ups that are scheduled fall. -/
def socDigitalReset (s : McuI2c) : McuI2c :=
  { s with
    i2c := { s.i2c with engines := fun bus => resetEngine (s.i2c.engines bus) }
    wakeups := fun bus => { generation := (s.wakeups bus).generation + 1 }
    dirty := true }

/-- One request per lane: the processor of a lane waits for its response. -/
def Accepts (s : McuI2c) (transaction : VnextBElectricalI2c) : Prop :=
  transaction.requestSeq ≠ 0 ∧ s.i2c.requests transaction.lane = s.i2c.responses transaction.lane ∧
    s.i2c.responses transaction.lane ≠ transaction.requestSeq

instance decidableAccepts (s : McuI2c) (transaction : VnextBElectricalI2c) : Decidable (s.Accepts transaction) :=
  inferInstanceAs (Decidable (_ ∧ _ ∧ _))

def submit (s : McuI2c) (transaction : VnextBElectricalI2c) (nowNs : Nat) : McuI2c :=
  let received : I2cQueue :=
    { s.i2c with
      requests := Function.update s.i2c.requests transaction.lane transaction.requestSeq
      submitted := s.i2c.submitted ++ [transaction] }
  { s with i2c := received.startOrQueue transaction nowNs, dirty := true }

def step (s : McuI2c) : I2cStep → Option McuI2c
  | .submit transaction nowNs => if s.Accepts transaction then some (s.submit transaction nowNs) else none
  | .settle nowNs => some (s.settle nowNs)
  | .wakeup event nowNs changed =>
    if event ∈ s.scheduled ∧ event.timeNs ≤ nowNs then some (s.runModuleWakeup event nowNs changed) else none
  | .peripheralReset bus => some (s.peripheralReset bus)
  | .socDigitalReset => some s.socDigitalReset

end McuI2c

end LasecSimul.Mcu
