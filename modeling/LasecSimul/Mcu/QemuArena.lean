import LasecSimul.Lib.Spsc

/-!
# The arena that QEMU and the Core share

QEMU publishes writes and heartbeats in a ring, and reads in one slot, where it waits for the answer. A turn of the
Core looks at both and serves one event at most: it copies the event, may leave it for later, and once it has been
dispatched acknowledges it where it came from. QEMU may act between any two accesses of the Core.
-/

namespace LasecSimul.Mcu

open Lib

inductive SimAction where
  | none | read | write | freq | interrupt | i2c | spi | usart | timer | gpioIn | event
  deriving DecidableEq, Repr

/-- `LsdnQemuQueueEntry`, and the fields of the slot. -/
structure QueueEntry where
  regAddr : UInt64
  regData : UInt64
  simuAction : SimAction
  simuTime : Nat
  deriving DecidableEq, Repr

structure QemuArenaEvent where
  entry : QueueEntry
  fromQueue : Bool
  deriving DecidableEq, Repr

/-- `LSDN_QEMU_ARENA_QUEUE_DEPTH`. -/
def queueDepth : Spsc.Depth := ⟨32, 5, rfl⟩

/-- What QEMU is doing with the slot. -/
inductive SlotClient where
  | idle
  | filled (request : QueueEntry)
  | waiting (request : QueueEntry)
  deriving DecidableEq, Repr

/-- The slot. Its `simuTime` is 0 while nobody asks. `requested` and `acknowledged` are the history. -/
structure ReadSlot where
  slot : QueueEntry
  qemuAction : SimAction := .none
  client : SlotClient := .idle
  requested : List QueueEntry := []
  acknowledged : List QueueEntry := []
  deriving DecidableEq, Repr

/-- Where the Core is in a turn. -/
inductive Turn where
  | idle
  /-- The queue was not empty. -/
  | head
  /-- The queue was empty. -/
  | slot
  /-- The slot has a request. -/
  | asked
  | polled (event : QemuArenaEvent)
  | dispatched (event : QemuArenaEvent) (readValue : UInt64)
  /-- The value of a read is in the slot. -/
  | answered (event : QemuArenaEvent)
  /-- The request of a read is cleared. -/
  | cleared (event : QemuArenaEvent)
  deriving DecidableEq, Repr

/-- The modules of the chip, as the dispatch uses them. -/
structure Chip (Modules : Type*) where
  findModule : UInt64 → Bool
  writeRegisterAt : Modules → UInt64 → UInt64 → Nat → Modules
  readRegister : Modules → UInt64 → Modules × UInt64
  socDigitalReset : Modules → UInt64 → Nat → Modules

/-- `log` is what was dispatched and `published` what QEMU put in the ring. -/
structure ArenaState (Modules : Type*) where
  ring : Spsc.State QueueEntry
  reads : ReadSlot
  turn : Turn := .idle
  modules : Modules
  log : List QemuArenaEvent := []
  published : List QueueEntry := []

/-- `kQemuSocPeriphResetAddress`. -/
def kQemuSocPeriphResetAddress : UInt64 := 0x3FF48FFC

def qemuEventTimeNs (originNs virtualTimePs : Nat) : Nat :=
  let deltaNs := virtualTimePs / 1000 + if virtualTimePs % 1000 ≠ 0 then 1 else 0
  if UInt64.size - 1 - originNs < deltaNs then UInt64.size - 1 else originNs + deltaNs

section

variable {Modules : Type*} (chip : Chip Modules) (originNs : Nat)

/-- What the dispatch of an event does to the modules, and the value that a read gives. -/
def dispatchEvent (modules : Modules) (event : QemuArenaEvent) : Modules × UInt64 :=
  let entry := event.entry
  let eventTimeNs := qemuEventTimeNs originNs entry.simuTime
  match entry.simuAction with
  | .write =>
    if entry.regAddr = kQemuSocPeriphResetAddress then (chip.socDigitalReset modules entry.regAddr eventTimeNs, 0)
    else if chip.findModule entry.regAddr then
      (chip.writeRegisterAt modules entry.regAddr entry.regData eventTimeNs, 0)
    else (modules, 0)
  | .read => if chip.findModule entry.regAddr then chip.readRegister modules entry.regAddr else (modules, 0)
  | _ => (modules, 0)

namespace ArenaState

variable (s : ArenaState Modules)

def acknowledgeWrite : ArenaState Modules :=
  { s with
    ring := { s.ring with
      readSeq := if s.ring.readSeq = s.ring.writeSeq then s.ring.readSeq else s.ring.readSeq + 1
      consumer := .idle }
    turn := .idle }

/-- The last store of an acknowledgement in the slot. -/
def acknowledgeSlot (event : QemuArenaEvent) (slot : QueueEntry) (qemuAction : SimAction) : ArenaState Modules :=
  { s with
    reads := { s.reads with slot, qemuAction, acknowledged := s.reads.acknowledged ++ [event.entry] }
    turn := .idle }

/-- One access of the Core to the arena, or the dispatch between two of them. -/
def coreStep (nowNs : Nat) : ArenaState Modules :=
  match s.turn with
  | .idle =>
    if s.ring.readSeq = s.ring.writeSeq then { s with turn := .slot }
    else { s with ring := { s.ring with consumer := .loaded s.ring.readSeq }, turn := .head }
  | .head =>
    match s.ring.cells[Spsc.slot queueDepth.val s.ring.readSeq]? with
    | none => s
    | some entry =>
      { s with ring := { s.ring with consumer := .copied s.ring.readSeq entry }, turn := .polled ⟨entry, true⟩ }
  | .slot => { s with turn := if s.reads.slot.simuTime = 0 then .idle else .asked }
  | .asked => { s with turn := .polled ⟨s.reads.slot, false⟩ }
  | .polled event =>
    if nowNs < qemuEventTimeNs originNs event.entry.simuTime then
      -- The event stays where it is, for a later turn.
      { s with ring := { s.ring with consumer := .idle }, turn := .idle }
    else
      let (modules, readValue) := dispatchEvent chip originNs s.modules event
      { s with modules, log := s.log ++ [event], turn := .dispatched event readValue }
  | .dispatched event readValue =>
    if event.fromQueue then s.acknowledgeWrite
    else if event.entry.simuAction = .read then
      { s with reads := { s.reads with slot := { s.reads.slot with regData := readValue } }, turn := .answered event }
    else s.acknowledgeSlot event { s.reads.slot with simuTime := 0 } s.reads.qemuAction
  | .answered event =>
    { s with reads := { s.reads with slot := { s.reads.slot with simuTime := 0 } }, turn := .cleared event }
  | .cleared event => s.acknowledgeSlot event s.reads.slot .read

end ArenaState

end

/-- What one access to the arena is. -/
inductive ArenaStep where
  /-- QEMU sees room in the ring for an entry. -/
  | begin (entry : QueueEntry)
  /-- QEMU writes a field of the cell. -/
  | scrawl (cell : QueueEntry)
  | fill
  | publish
  /-- QEMU fills the slot, all but the time. -/
  | request (entry : QueueEntry)
  /-- QEMU stores the time of its request, and with it asks. -/
  | ask
  /-- QEMU sees that its request has been served. -/
  | take
  | core (nowNs : Nat)
  deriving DecidableEq, Repr

def ArenaStep.isCore : ArenaStep → Bool
  | .core _ => true
  | _ => false

namespace ReadSlot

variable (reads : ReadSlot)

/-- QEMU asks for one thing at a time. -/
def request (entry : QueueEntry) : Option ReadSlot :=
  if reads.client = .idle ∧ entry.simuTime ≠ 0 then
    some { reads with slot := { entry with simuTime := 0 }, qemuAction := .none, client := .filled entry }
  else none

def ask : Option ReadSlot :=
  match reads.client with
  | .filled entry =>
    some { reads with
      slot := { reads.slot with simuTime := entry.simuTime }
      client := .waiting entry
      requested := reads.requested ++ [entry] }
  | _ => none

/-- The answer of a read is in `qemuAction`, that of another request is the time that is cleared. -/
def take : Option ReadSlot :=
  match reads.client with
  | .waiting entry =>
    if (if entry.simuAction = .read then reads.qemuAction = .read else reads.slot.simuTime = 0) then
      some { reads with client := .idle }
    else none
  | _ => none

end ReadSlot

namespace ArenaState

variable {Modules : Type*} (chip : Chip Modules) (originNs : Nat) (s : ArenaState Modules)

def withRing (ring : Spsc.State QueueEntry) : ArenaState Modules := { s with ring }

def withReads (reads : ReadSlot) : ArenaState Modules := { s with reads }

def step : ArenaStep → Option (ArenaState Modules)
  | .begin entry =>
    if s.ring.producer = .idle ∧ s.ring.writeSeq - s.ring.readSeq < queueDepth.val.toUInt64 then
      some (s.withRing { s.ring with producer := .filling s.ring.writeSeq entry })
    else none
  | .scrawl cell =>
    match s.ring.producer with
    | .filling write _ =>
      some (s.withRing { s.ring with cells := s.ring.cells.set (Spsc.slot queueDepth.val write) cell })
    | _ => none
  | .fill =>
    match s.ring.producer with
    | .filling write entry =>
      some (s.withRing { s.ring with
        cells := s.ring.cells.set (Spsc.slot queueDepth.val write) entry
        producer := .filled write entry })
    | _ => none
  | .publish =>
    match s.ring.producer with
    | .filled write entry =>
      some { s.withRing { s.ring with writeSeq := write + 1, producer := .idle } with
        published := s.published ++ [entry] }
    | _ => none
  | .request entry => (s.reads.request entry).map s.withReads
  | .ask => s.reads.ask.map s.withReads
  | .take => s.reads.take.map s.withReads
  | .core nowNs => some (s.coreStep chip originNs nowNs)

end ArenaState

end LasecSimul.Mcu
