import LasecSimul.Lib.Trace
import Mathlib.Logic.Function.Basic

/-!
# The command queue of a session

Callers hand commands to the worker of the Scheduler: `enqueueCommand` runs a command itself while no worker
runs and queues it otherwise. A critical section is one step, since what a lock-free read of `m_hasPending`
sees inside of one it also sees before or after it. `start` and `stop` are called from one thread.
-/

namespace LasecSimul.Scheduling.Commands

/-- `runViaCommandQueue` catches what its function throws and waits for the promise; a command given to
`enqueueCommand` as it is does neither. -/
inductive Kind where
  | waited
  | plain (throws : Bool)
  deriving DecidableEq, Repr

/-- The caller `none` is the worker. -/
structure Command where
  caller : Option Nat
  number : Nat
  kind : Kind
  deriving DecidableEq, Repr

def Command.throws (command : Command) : Bool := command.kind = .plain true

/-- Where a caller is in `enqueueCommand` or `runViaCommandQueue`. -/
inductive Calling where
  | idle
  | entering (command : Command)
  | direct (command : Command)
  | queuing (command : Command)
  | notifying (command : Command)
  | awaiting (command : Command)
  deriving DecidableEq, Repr

/-- `batch` is the rest of what `takeAll` gave to the drain, `seen` the work generation read before it. -/
inductive Worker where
  | absent
  | active (seen : Option Nat) (batch : List Command)
  | waiting (seen : Nat)
  | terminated
  deriving DecidableEq, Repr

/-- The thread of `start` and `stop`. -/
inductive Control where
  | idle
  | starting
  | cleared
  | signalled
  | joined
  | draining (batch : List Command)
  deriving DecidableEq, Repr

/-- `handed` are the commands whose enqueue did not throw, `refused` the ones it refused as full. -/
structure Session where
  running : Bool := false
  worker : Worker := .absent
  control : Control := .idle
  workGeneration : Nat := 0
  commands : List Command := []
  hasPending : Bool := false
  callers : Nat → Calling := fun _ => .idle
  issued : Option Nat → Nat := fun _ => 0
  handed : List Command := []
  refused : List Command := []
  executed : List Command := []

inductive Action where
  | enqueue (caller : Nat) (kind : Kind)
  | check (caller : Nat)
  | direct (caller : Nat)
  | push (caller : Nat)
  | notify (caller : Nat)
  | resume (caller : Nat)
  | workerCommand (kind : Kind)
  | observe
  | take
  | run
  | park
  | wake
  | exit
  | start
  | spawn
  | stop
  | signal
  | join
  | finalTake
  | finalRun
  | finalEnd
  deriving DecidableEq, Repr

def Worker.batch : Worker → List Command
  | .active _ batch => batch
  | _ => []

def Control.batch : Control → List Command
  | .draining batch => batch
  | _ => []

/-- The drain of `stop` has still to look at the queue. -/
def Control.drains : Control → Bool
  | .cleared | .signalled | .joined => true
  | _ => false

namespace Session

/-- Taken from the queue and not run yet. -/
def inFlight (s : Session) : List Command := s.worker.batch ++ s.control.batch

def pipeline (s : Session) : List Command := s.executed ++ s.inFlight ++ s.commands

end Session

/-- The command is numbered, as handed over or as refused. -/
def Command.count (command : Command) (issued : Option Nat → Nat) : Option Nat → Nat :=
  Function.update issued command.caller (command.number + 1)

/-- What a caller does after its command is in the queue. -/
def Command.queued (command : Command) : Calling :=
  match command.kind with
  | .waited => .awaiting command
  | .plain _ => .idle

section

variable (capacity : Nat)

inductive Move : Session → Action → Session → Prop where
  | enqueue {s : Session} (caller : Nat) (kind : Kind) (free : s.callers caller = .idle) :
    Move s (.enqueue caller kind)
      { s with callers := Function.update s.callers caller (.entering ⟨some caller, s.issued (some caller), kind⟩) }
  | checkRunning {s : Session} {caller : Nat} {command : Command} (entering : s.callers caller = .entering command)
    (running : s.running = true) :
    Move s (.check caller) { s with callers := Function.update s.callers caller (.queuing command) }
  | checkStopped {s : Session} {caller : Nat} {command : Command} (entering : s.callers caller = .entering command)
    (stopped : s.running = false) :
    Move s (.check caller) { s with callers := Function.update s.callers caller (.direct command) }
  | direct {s : Session} {caller : Nat} {command : Command} (direct : s.callers caller = .direct command) :
    Move s (.direct caller)
      { s with
        callers := Function.update s.callers caller .idle
        issued := command.count s.issued
        handed := s.handed ++ [command]
        executed := s.executed ++ [command] }
  | pushFull {s : Session} {caller : Nat} {command : Command} (queuing : s.callers caller = .queuing command)
    (full : capacity ≤ s.commands.length) :
    Move s (.push caller)
      { s with
        callers := Function.update s.callers caller .idle
        issued := command.count s.issued
        refused := s.refused ++ [command] }
  | pushFirst {s : Session} {caller : Nat} {command : Command} (queuing : s.callers caller = .queuing command)
    (room : s.commands.length < capacity) (empty : s.commands = []) :
    Move s (.push caller)
      { s with
        callers := Function.update s.callers caller (.notifying command)
        issued := command.count s.issued
        handed := s.handed ++ [command]
        commands := s.commands ++ [command]
        hasPending := true }
  | pushQueued {s : Session} {caller : Nat} {command : Command} (queuing : s.callers caller = .queuing command)
    (room : s.commands.length < capacity) (nonempty : s.commands ≠ []) :
    Move s (.push caller)
      { s with
        callers := Function.update s.callers caller command.queued
        issued := command.count s.issued
        handed := s.handed ++ [command]
        commands := s.commands ++ [command]
        hasPending := true }
  | notify {s : Session} {caller : Nat} {command : Command} (notifying : s.callers caller = .notifying command) :
    Move s (.notify caller)
      { s with
        callers := Function.update s.callers caller command.queued
        workGeneration := s.workGeneration + 1 }
  | resume {s : Session} {caller : Nat} {command : Command} (awaiting : s.callers caller = .awaiting command)
    (ready : command ∈ s.executed) :
    Move s (.resume caller) { s with callers := Function.update s.callers caller .idle }
  | workerCommand {s : Session} {seen : Option Nat} {batch : List Command} (kind : Kind)
    (active : s.worker = .active seen batch) :
    Move s (.workerCommand kind)
      { s with
        issued := Command.count ⟨none, s.issued none, kind⟩ s.issued
        handed := s.handed ++ [⟨none, s.issued none, kind⟩]
        executed := s.executed ++ [⟨none, s.issued none, kind⟩] }
  | observe {s : Session} {seen : Option Nat} (active : s.worker = .active seen []) :
    Move s .observe { s with worker := .active (some s.workGeneration) [] }
  | take {s : Session} {seen : Option Nat} (active : s.worker = .active seen []) (pending : s.hasPending = true) :
    Move s .take { s with worker := .active seen s.commands, commands := [], hasPending := false }
  | run {s : Session} {seen : Option Nat} {command : Command} {rest : List Command}
    (active : s.worker = .active seen (command :: rest)) (returns : command.throws = false) :
    Move s .run { s with worker := .active seen rest, executed := s.executed ++ [command] }
  | runThrows {s : Session} {seen : Option Nat} {command : Command} {rest : List Command}
    (active : s.worker = .active seen (command :: rest)) (throws : command.throws = true) :
    Move s .run { s with worker := .terminated, executed := s.executed ++ [command] }
  | park {s : Session} {seen : Nat} (active : s.worker = .active (some seen) []) (running : s.running = true)
    (idle : s.hasPending = false) : Move s .park { s with worker := .waiting seen }
  | wake {s : Session} {seen : Nat} (waiting : s.worker = .waiting seen) (signalled : s.workGeneration ≠ seen) :
    Move s .wake { s with worker := .active none [] }
  | exit {s : Session} {seen : Option Nat} (active : s.worker = .active seen []) (stopped : s.running = false) :
    Move s .exit { s with worker := .absent }
  | start {s : Session} (free : s.control = .idle) (stopped : s.running = false) :
    Move s .start { s with running := true, control := .starting }
  | startRunning {s : Session} (free : s.control = .idle) (running : s.running = true) : Move s .start s
  | spawn {s : Session} (starting : s.control = .starting) :
    Move s .spawn { s with worker := .active none [], control := .idle }
  | stop {s : Session} (free : s.control = .idle) : Move s .stop { s with running := false, control := .cleared }
  | signal {s : Session} (cleared : s.control = .cleared) :
    Move s .signal { s with workGeneration := s.workGeneration + 1, control := .signalled }
  | join {s : Session} (signalled : s.control = .signalled) (ended : s.worker = .absent) :
    Move s .join { s with control := .joined }
  | finalTake {s : Session} (joined : s.control = .joined) (pending : s.hasPending = true) :
    Move s .finalTake { s with control := .draining s.commands, commands := [], hasPending := false }
  | finalNone {s : Session} (joined : s.control = .joined) (none : s.hasPending = false) :
    Move s .finalTake { s with control := .idle }
  | finalRun {s : Session} {command : Command} {rest : List Command}
    (draining : s.control = .draining (command :: rest)) (returns : command.throws = false) :
    Move s .finalRun { s with control := .draining rest, executed := s.executed ++ [command] }
  | finalThrows {s : Session} {command : Command} {rest : List Command}
    (draining : s.control = .draining (command :: rest)) (throws : command.throws = true) :
    Move s .finalRun { s with control := .idle, executed := s.executed ++ [command] }
  | finalEnd {s : Session} (drained : s.control = .draining []) : Move s .finalEnd { s with control := .idle }

/-- An exception that leaves the worker ends the process. -/
def Step (s : Session) (action : Action) (t : Session) : Prop := s.worker ≠ .terminated ∧ Move capacity s action t

end

/-- A push finds the drain of `stop` ahead, a direct run none of the caller's own commands before it, and no
command throws out of a drain. -/
def Allowed (s : Session) : Action → Prop
  | .push _ => s.running = true ∨ s.control.drains = true
  | .direct caller => ∀ command ∈ s.inFlight ++ s.commands, command.caller ≠ some caller
  | .run | .finalRun => ∀ command ∈ s.inFlight.head?, command.throws = false
  | _ => True

end LasecSimul.Scheduling.Commands
