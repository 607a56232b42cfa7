import LasecSimul.Base.Exception
import LasecSimul.Lib.Trace

/-!
# The notification queue

Producers push reliable control messages and lossy telemetry under one byte budget, and the writer
thread pops them, control first. Every method is one critical section; a control message that finds no
room waits for a later one.
-/

namespace LasecSimul.Ipc

/-- The contents of a `std::string`. -/
abbrev Bytes := List UInt8

inductive NotificationLane where
  | reliableControl
  | lossyTelemetry
  deriving DecidableEq, Repr

structure QueuedNotification where
  lane : NotificationLane
  key : Bytes
  serialized : Bytes
  deriving DecidableEq, Repr

/-- `bytes` is an integer, so that a counter below zero would show. -/
structure NotificationQueue where
  capacityBytes : Nat
  control : List QueuedNotification := []
  telemetry : List QueuedNotification := []
  bytes : Int := 0
  maxDepth : Nat := 0
  coalescedTelemetryFrames : Nat := 0
  coalescedTelemetryBytes : Nat := 0
  droppedTelemetryFrames : Nat := 0
  droppedTelemetryBytes : Nat := 0
  rejectedControlNotifications : Nat := 0
  stopped : Bool := false
  deriving DecidableEq, Repr

namespace NotificationQueue

def create (capacityBytes : Nat) : Except Exception NotificationQueue := do
  throwIf (capacityBytes = 0) (.invalidArgument "fila de notificacoes exige capacidade positiva")
  return { capacityBytes }

def Fits (q : NotificationQueue) (serialized : Bytes) : Prop := q.bytes + serialized.length ≤ q.capacityBytes

instance (q : NotificationQueue) (serialized : Bytes) : Decidable (q.Fits serialized) :=
  inferInstanceAs (Decidable (_ ≤ _))

def updateDepthLocked (q : NotificationQueue) : NotificationQueue :=
  { q with maxDepth := max q.maxDepth (q.control.length + q.telemetry.length) }

def dropOldestTelemetryLocked (q : NotificationQueue) : NotificationQueue :=
  match q.telemetry with
  | [] => q
  | front :: rest =>
    { q with
      bytes := q.bytes - front.serialized.length
      telemetry := rest
      droppedTelemetryFrames := q.droppedTelemetryFrames + 1
      droppedTelemetryBytes := q.droppedTelemetryBytes + front.serialized.length }

def evictFor (serialized : Bytes) : Nat → NotificationQueue → NotificationQueue
  | 0, q => q
  | frames + 1, q => if q.Fits serialized then q else evictFor serialized frames q.dropOldestTelemetryLocked

/-- The loop that drops the oldest telemetry while there is some and the message does not fit. -/
def makeRoom (q : NotificationQueue) (serialized : Bytes) : NotificationQueue :=
  evictFor serialized q.telemetry.length q

/-- `pushControl` from its wait on: `none` while the condition of the wait does not hold. -/
def resumeControl (q : NotificationQueue) (serialized : Bytes) : NotificationQueue × Option Bool :=
  if q.stopped then (q, some false)
  else if q.Fits serialized then
    (updateDepthLocked
      { q with
        bytes := q.bytes + serialized.length
        control := q.control ++ [⟨.reliableControl, [], serialized⟩] }, some true)
  else (q, none)

def pushControl (q : NotificationQueue) (serialized : Bytes) : NotificationQueue × Option Bool :=
  if q.stopped then (q, some false)
  else if q.capacityBytes < serialized.length then
    ({ q with rejectedControlNotifications := q.rejectedControlNotifications + 1 }, some false)
  else (q.makeRoom serialized).resumeControl serialized

def coalesce (q : NotificationQueue) (key : Bytes) : NotificationQueue :=
  match q.telemetry.find? (·.key == key) with
  | none => q
  | some existing =>
    { q with
      coalescedTelemetryFrames := q.coalescedTelemetryFrames + 1
      coalescedTelemetryBytes := q.coalescedTelemetryBytes + existing.serialized.length
      droppedTelemetryFrames := q.droppedTelemetryFrames + 1
      droppedTelemetryBytes := q.droppedTelemetryBytes + existing.serialized.length
      bytes := q.bytes - existing.serialized.length
      telemetry := q.telemetry.eraseP (·.key == key) }

def dropFrame (q : NotificationQueue) (serialized : Bytes) : NotificationQueue :=
  { q with
    droppedTelemetryFrames := q.droppedTelemetryFrames + 1
    droppedTelemetryBytes := q.droppedTelemetryBytes + serialized.length }

/-- `pushTelemetry` after the entry it replaces is gone. -/
def appendTelemetry (q : NotificationQueue) (key serialized : Bytes) : NotificationQueue × Bool :=
  if q.capacityBytes < serialized.length then (q.dropFrame serialized, false)
  else
    let roomy := q.makeRoom serialized
    if roomy.Fits serialized then
      (updateDepthLocked
        { roomy with
          bytes := roomy.bytes + serialized.length
          telemetry := roomy.telemetry ++ [⟨.lossyTelemetry, key, serialized⟩] }, true)
    else (roomy.dropFrame serialized, false)

def pushTelemetry (q : NotificationQueue) (key serialized : Bytes) :
    NotificationQueue × Except Exception Bool :=
  if q.stopped then (q, .ok false)
  else if key = [] then (q, .error (.invalidArgument "telemetria exige chave de stream"))
  else
    let (appended, answer) := (q.coalesce key).appendTelemetry key serialized
    (appended, .ok answer)

/-- The outer `none` is a consumer that goes on waiting. -/
def waitPop (q : NotificationQueue) : Option (NotificationQueue × Option QueuedNotification) :=
  if q.stopped then some (q, none)
  else
    match q.control, q.telemetry with
    | front :: rest, _ =>
      some ({ q with bytes := q.bytes - front.serialized.length, control := rest }, some front)
    | [], front :: rest =>
      some ({ q with bytes := q.bytes - front.serialized.length, telemetry := rest }, some front)
    | [], [] => none

def stop (q : NotificationQueue) : NotificationQueue :=
  { q with stopped := true, control := [], telemetry := [], bytes := 0 }

def resetMetrics (q : NotificationQueue) : NotificationQueue :=
  { q with
    maxDepth := q.control.length + q.telemetry.length
    coalescedTelemetryFrames := 0
    coalescedTelemetryBytes := 0
    droppedTelemetryFrames := 0
    droppedTelemetryBytes := 0
    rejectedControlNotifications := 0 }

end NotificationQueue

/-- The queue and the messages of the `pushControl` calls that wait for room. -/
structure System where
  queue : NotificationQueue
  waiting : List Bytes
  deriving DecidableEq, Repr

/-- What the callers see; `pushControl` without an answer goes on waiting. -/
inductive Label where
  | pushControl (serialized : Bytes) (answer : Option Bool)
  | resumed (serialized : Bytes) (answer : Bool)
  | pushTelemetry (key serialized : Bytes) (answer : Except Exception Bool)
  | popped (result : Option QueuedNotification)
  | stop
  | resetMetrics

def blocked (serialized : Bytes) : Option Bool → List Bytes
  | none => [serialized]
  | some _ => []

inductive Step : System → Label → System → Prop where
  | pushControl (q : NotificationQueue) (waiting : List Bytes) (serialized : Bytes) :
    Step ⟨q, waiting⟩ (.pushControl serialized (q.pushControl serialized).2)
      ⟨(q.pushControl serialized).1, waiting ++ blocked serialized (q.pushControl serialized).2⟩
  | resumed {q r : NotificationQueue} (before after : List Bytes) {serialized : Bytes} {answer : Bool} :
    q.resumeControl serialized = (r, some answer) →
    Step ⟨q, before ++ serialized :: after⟩ (.resumed serialized answer) ⟨r, before ++ after⟩
  | pushTelemetry (q : NotificationQueue) (waiting : List Bytes) (key serialized : Bytes) :
    Step ⟨q, waiting⟩ (.pushTelemetry key serialized (q.pushTelemetry key serialized).2)
      ⟨(q.pushTelemetry key serialized).1, waiting⟩
  | popped {q r : NotificationQueue} (waiting : List Bytes) {result : Option QueuedNotification} :
    q.waitPop = some (r, result) → Step ⟨q, waiting⟩ (.popped result) ⟨r, waiting⟩
  | stop (q : NotificationQueue) (waiting : List Bytes) : Step ⟨q, waiting⟩ .stop ⟨q.stop, waiting⟩
  | resetMetrics (q : NotificationQueue) (waiting : List Bytes) :
    Step ⟨q, waiting⟩ .resetMetrics ⟨q.resetMetrics, waiting⟩

end LasecSimul.Ipc
