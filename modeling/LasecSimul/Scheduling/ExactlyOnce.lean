import Mathlib.Data.List.Nodup
import LasecSimul.Scheduling.CommandQueue

/-!
# Commands are executed exactly once

While every step is allowed, the commands that were handed over are in order in what was executed, what a
drain has taken and what is queued, and whatever is queued has someone who comes for it.
-/

namespace LasecSimul.Scheduling.Commands

open Lib.Trace

variable {capacity : Nat} {s t : Session} {action : Action} {command : Command} {caller : Nat}

/-! ### Numbers -/

/-- The command a caller has not handed over yet. -/
def Calling.unhanded : Calling → Option Command
  | .entering command | .direct command | .queuing command => some command
  | _ => none

/-- The command a caller has handed over and still attends to. -/
def Calling.attended : Calling → Option Command
  | .notifying command | .awaiting command => some command
  | _ => none

structure Numbered (callers : Nat → Calling) (issued : Option Nat → Nat) (handed refused : List Command) : Prop where
  next : ∀ caller, ∀ command ∈ (callers caller).unhanded,
    command.caller = some caller ∧ command.number = issued (some caller)
  attended : ∀ caller, ∀ command ∈ (callers caller).attended, command ∈ handed
  handed_lt : ∀ command ∈ handed, command.number < issued command.caller
  refused_lt : ∀ command ∈ refused, command.number < issued command.caller
  nodup : handed.Nodup
  refused : ∀ command ∈ refused, command ∉ handed

section

variable {callers : Nat → Calling} {issued : Option Nat → Nat} {handed refused : List Command} {phase : Calling}

theorem Numbered.calling (numbered : Numbered callers issued handed refused)
    (next : ∀ command ∈ phase.unhanded, command.caller = some caller ∧ command.number = issued (some caller))
    (attended : ∀ command ∈ phase.attended, command ∈ handed) :
    Numbered (Function.update callers caller phase) issued handed refused where
  next other := by
    by_cases same : other = caller
    · subst same
      rwa [Function.update_self]
    · rw [Function.update_of_ne same]
      exact numbered.next other
  attended other := by
    by_cases same : other = caller
    · subst same
      rwa [Function.update_self]
    · rw [Function.update_of_ne same]
      exact numbered.attended other
  handed_lt := numbered.handed_lt
  refused_lt := numbered.refused_lt
  nodup := numbered.nodup
  refused := numbered.refused

theorem lt_update (lt : command.number < issued command.caller) {other : Command}
    (last : other.number = issued other.caller) :
    command.number < Function.update issued other.caller (other.number + 1) command.caller := by
  by_cases same : command.caller = other.caller
  · rw [same, Function.update_self, last, ← same]
    omega
  · rwa [Function.update_of_ne same]

theorem Numbered.next_update (numbered : Numbered callers issued handed refused) {other : Nat}
    (different : some other ≠ command.caller) : ∀ mine ∈ (callers other).unhanded, mine.caller = some other ∧
      mine.number = Function.update issued command.caller (command.number + 1) (some other) := by
  rw [Function.update_of_ne different]
  exact numbered.next other

theorem Numbered.fresh (numbered : Numbered callers issued handed refused)
    (last : command.number = issued command.caller) :
    command ∉ handed ∧ command ∉ refused := by
  constructor
  · intro member
    have := numbered.handed_lt command member
    omega
  · intro member
    have := numbered.refused_lt command member
    omega

theorem Numbered.hand (numbered : Numbered callers issued handed refused)
    (last : command.number = issued command.caller)
    (others : ∀ other, some other = command.caller → (callers other).unhanded = none) :
    Numbered callers (Function.update issued command.caller (command.number + 1)) (handed ++ [command]) refused where
  next other := by
    by_cases same : some other = command.caller
    · rw [others other same]
      rintro _ ⟨⟩
    · exact numbered.next_update same
  attended other mine member := List.mem_append_left _ (numbered.attended other mine member)
  handed_lt mine member := by
    rcases List.mem_append.mp member with earlier | here
    · exact lt_update (numbered.handed_lt mine earlier) last
    · rw [List.mem_singleton.mp here, Function.update_self]
      omega
  refused_lt mine member := lt_update (numbered.refused_lt mine member) last
  nodup := List.nodup_append.mpr ⟨numbered.nodup, List.nodup_singleton _, by
    rintro mine member _ here rfl
    rw [List.mem_singleton.mp here] at member
    exact (numbered.fresh last).1 member⟩
  refused mine member := by
    rw [List.mem_append, List.mem_singleton]
    rintro (earlier | rfl)
    · exact numbered.refused mine member earlier
    · exact (numbered.fresh last).2 member

theorem Numbered.refuse (numbered : Numbered callers issued handed refused)
    (last : command.number = issued command.caller)
    (others : ∀ other, some other = command.caller → (callers other).unhanded = none) :
    Numbered callers (Function.update issued command.caller (command.number + 1)) handed (refused ++ [command]) where
  next other := by
    by_cases same : some other = command.caller
    · rw [others other same]
      rintro _ ⟨⟩
    · exact numbered.next_update same
  attended := numbered.attended
  handed_lt mine member := lt_update (numbered.handed_lt mine member) last
  refused_lt mine member := by
    rcases List.mem_append.mp member with earlier | here
    · exact lt_update (numbered.refused_lt mine earlier) last
    · rw [List.mem_singleton.mp here, Function.update_self]
      omega
  nodup := numbered.nodup
  refused mine member := by
    rcases List.mem_append.mp member with earlier | here
    · exact numbered.refused mine earlier
    · rw [List.mem_singleton.mp here]
      exact (numbered.fresh last).1

theorem Numbered.idle (numbered : Numbered callers issued handed refused) (caller : Nat) :
    Numbered (Function.update callers caller .idle) issued handed refused :=
  numbered.calling (fun _ none => nomatch none) fun _ none => nomatch none

theorem Numbered.handOver (numbered : Numbered callers issued handed refused)
    (mine : (callers caller).unhanded = some command) (done : phase.unhanded = none)
    (attended : ∀ other ∈ phase.attended, other = command) :
    Numbered (Function.update callers caller phase) (Function.update issued command.caller (command.number + 1))
      (handed ++ [command]) refused := by
  obtain ⟨owner, last⟩ := numbered.next caller command mine
  rw [← owner] at last
  have left := (numbered.idle caller).hand last fun other same => by
    obtain rfl := Option.some.inj (same.trans owner)
    rw [Function.update_self]
    rfl
  have settled : Numbered (Function.update (Function.update callers caller .idle) caller phase)
      (Function.update issued command.caller (command.number + 1)) (handed ++ [command]) refused := by
    apply left.calling
    · rw [done]
      rintro _ ⟨⟩
    · intro other member
      rw [attended other member]
      exact List.mem_append_right _ List.mem_cons_self
  rwa [Function.update_idem] at settled

theorem Numbered.turnAway (numbered : Numbered callers issued handed refused)
    (mine : (callers caller).unhanded = some command) :
    Numbered (Function.update callers caller .idle) (Function.update issued command.caller (command.number + 1))
      handed (refused ++ [command]) := by
  obtain ⟨owner, last⟩ := numbered.next caller command mine
  rw [← owner] at last
  apply (numbered.idle caller).refuse last
  intro other same
  obtain rfl := Option.some.inj (same.trans owner)
  rw [Function.update_self]
  rfl

end

def Session.Numbered (s : Session) : Prop := Commands.Numbered s.callers s.issued s.handed s.refused

theorem queued_unhanded (command : Command) : command.queued.unhanded = none := by
  unfold Command.queued
  split <;> rfl

theorem queued_attended {other : Command} (member : other ∈ command.queued.attended) : other = command := by
  unfold Command.queued at member
  split at member
  · exact (Option.some.inj member).symm
  · cases member

theorem Move.numbered (move : Move capacity s action t) (numbered : s.Numbered) : t.Numbered := by
  cases move with
  | enqueue caller kind free =>
    apply numbered.calling
    · rintro _ ⟨⟩
      exact ⟨rfl, rfl⟩
    · rintro _ ⟨⟩
  | checkRunning entering running =>
    apply numbered.calling
    · rintro _ ⟨⟩
      exact numbered.next _ _ (by rw [entering]; rfl)
    · rintro _ ⟨⟩
  | checkStopped entering stopped =>
    apply numbered.calling
    · rintro _ ⟨⟩
      exact numbered.next _ _ (by rw [entering]; rfl)
    · rintro _ ⟨⟩
  | direct direct => exact numbered.handOver (by rw [direct]; rfl) rfl fun _ none => nomatch none
  | pushFull queuing full => exact numbered.turnAway (by rw [queuing]; rfl)
  | pushFirst queuing room empty =>
    exact numbered.handOver (by rw [queuing]; rfl) rfl fun _ same => (Option.some.inj same).symm
  | pushQueued queuing room nonempty =>
    exact numbered.handOver (by rw [queuing]; rfl) (queued_unhanded _) fun _ => queued_attended
  | @notify caller command notifying =>
    apply numbered.calling
    · rw [queued_unhanded]
      rintro _ ⟨⟩
    · intro other member
      rw [queued_attended member]
      exact numbered.attended caller command (by rw [notifying]; rfl)
  | resume awaiting ready => exact numbered.idle _
  | workerCommand kind active => exact numbered.hand rfl fun _ same => nomatch same
  | _ => exact numbered

def ofCaller (caller : Option Nat) (commands : List Command) : List Command :=
  commands.filter fun command => command.caller = caller

@[simp] theorem ofCaller_append (caller : Option Nat) (front back : List Command) :
    ofCaller caller (front ++ back) = ofCaller caller front ++ ofCaller caller back := List.filter_append ..

structure Session.Ordered (s : Session) : Prop where
  inOrder : ∀ caller, ofCaller caller s.pipeline = ofCaller caller s.handed
  queued : ∀ command ∈ s.inFlight ++ s.commands, command.caller ≠ none

theorem Session.Ordered.moved (ordered : s.Ordered) (pipeline : t.pipeline = s.pipeline)
    (handed : t.handed = s.handed)
    (queued : t.inFlight ++ t.commands ⊆ s.inFlight ++ s.commands) : t.Ordered where
  inOrder caller := by
    rw [pipeline, handed]
    exact ordered.inOrder caller
  queued command member := ordered.queued command (queued member)

theorem Session.Ordered.still (ordered : s.Ordered) (worker : t.worker.batch = s.worker.batch)
    (control : t.control.batch = s.control.batch) (executed : t.executed = s.executed)
    (commands : t.commands = s.commands) (handed : t.handed = s.handed) : t.Ordered := by
  have inFlight : t.inFlight = s.inFlight := by rw [Session.inFlight, worker, control, Session.inFlight]
  apply ordered.moved
  · rw [Session.pipeline, executed, inFlight, commands, Session.pipeline]
  · exact handed
  · rw [inFlight, commands]
    exact List.Subset.refl _

theorem Session.Ordered.appended (ordered : s.Ordered) (owner : command.caller ≠ none)
    (executed : t.executed = s.executed) (inFlight : t.inFlight = s.inFlight)
    (commands : t.commands = s.commands ++ [command]) (handed : t.handed = s.handed ++ [command]) : t.Ordered where
  inOrder caller := by
    have pipeline : t.pipeline = s.pipeline ++ [command] := by
      rw [Session.pipeline, executed, inFlight, commands, ← List.append_assoc]
      rfl
    rw [pipeline, handed, ofCaller_append, ofCaller_append, ordered.inOrder]
  queued other member := by
    rw [inFlight, commands, ← List.append_assoc] at member
    rcases List.mem_append.mp member with earlier | here
    · exact ordered.queued other earlier
    · rwa [List.mem_singleton.mp here]

/-- A command that is run at once overtakes none of its caller's. -/
theorem Session.Ordered.overtaken (ordered : s.Ordered)
    (own : ∀ other ∈ s.inFlight ++ s.commands, other.caller ≠ command.caller)
    (executed : t.executed = s.executed ++ [command]) (inFlight : t.inFlight = s.inFlight)
    (commands : t.commands = s.commands) (handed : t.handed = s.handed ++ [command]) : t.Ordered where
  inOrder caller := by
    have before := ordered.inOrder caller
    rw [Session.pipeline, List.append_assoc, ofCaller_append] at before
    have now : t.pipeline = s.executed ++ ([command] ++ (s.inFlight ++ s.commands)) := by
      rw [Session.pipeline, executed, inFlight, commands, List.append_assoc, List.append_assoc]
    rw [now, handed, ofCaller_append, ofCaller_append caller s.handed, ← before, ofCaller_append caller [command]]
    by_cases mine : command.caller = caller
    · have none : ofCaller caller (s.inFlight ++ s.commands) = [] := by
        apply List.filter_eq_nil_iff.mpr
        intro other member same
        exact own other member ((of_decide_eq_true same).trans mine.symm)
      rw [none, List.append_nil, List.append_nil]
    · have other : ofCaller caller [command] = [] := by simp [ofCaller, mine]
      rw [other, List.nil_append, List.append_nil]
  queued other member := by
    rw [inFlight, commands] at member
    exact ordered.queued other member

/-- What the thread of `start` and `stop` knows about the worker and the queue. -/
def Phase (control : Control) (running : Bool) (worker : Worker) (commands : List Command) : Prop :=
  match control with
  | .idle => if running then worker ≠ .absent else worker = .absent ∧ commands = []
  | .starting => running = true ∧ worker = .absent
  | .cleared | .signalled => running = false
  | .joined => running = false ∧ worker = .absent
  | .draining _ => running = false ∧ worker = .absent ∧ commands = []

section

variable {control : Control} {running : Bool} {worker worker' : Worker} {commands commands' : List Command}

theorem Phase.at_work (phase : Phase control running worker commands) (alive : worker ≠ .absent) :
    control.batch = [] ∧ (control = .idle → running = true) := by
  cases control with
  | idle =>
    cases running with
    | true => exact ⟨rfl, fun _ => rfl⟩
    | false => exact absurd phase.1 alive
  | starting => exact absurd phase.2 alive
  | cleared => exact ⟨rfl, nofun⟩
  | signalled => exact ⟨rfl, nofun⟩
  | joined => exact absurd phase.2 alive
  | draining batch => exact absurd phase.2.1 alive

/-- The worker goes on, and may take the queue. -/
theorem Phase.works (phase : Phase control running worker commands) (alive : worker ≠ .absent)
    (alive' : worker' ≠ .absent) :
    Phase control running worker' commands' := by
  cases control with
  | idle =>
    cases running with
    | true => exact alive'
    | false => exact absurd phase.1 alive
  | starting => exact absurd phase.2 alive
  | cleared => exact phase
  | signalled => exact phase
  | joined => exact absurd phase.2 alive
  | draining batch => exact absurd phase.2.1 alive

theorem Phase.ends (phase : Phase control false worker commands) (alive : worker ≠ .absent) :
    Phase control false .absent commands := by
  cases control with
  | idle => exact absurd phase.1 alive
  | starting => exact absurd phase.1 Bool.false_ne_true
  | cleared => exact rfl
  | signalled => exact rfl
  | joined => exact ⟨rfl, rfl⟩
  | draining batch => exact ⟨rfl, rfl, phase.2.2⟩

theorem Phase.pushed (phase : Phase control running worker commands)
    (ahead : running = true ∨ control.drains = true) :
    Phase control running worker commands' := by
  cases control with
  | idle =>
    obtain rfl : running = true := ahead.resolve_right nofun
    exact phase
  | draining batch =>
    obtain rfl : running = true := ahead.resolve_right nofun
    exact absurd phase.1.symm Bool.false_ne_true
  | _ => exact phase

end

structure Session.Lifecycle (s : Session) : Prop where
  flag : s.hasPending = true ↔ s.commands ≠ []
  phase : Phase s.control s.running s.worker s.commands

theorem Move.lifecycle (move : Move capacity s action t) (allowed : Allowed s action) (lifecycle : s.Lifecycle) :
    t.Lifecycle := by
  obtain ⟨flag, phase⟩ := lifecycle
  cases move with
  | pushFirst queuing room empty => exact ⟨by simp, phase.pushed allowed⟩
  | pushQueued queuing room nonempty => exact ⟨by simp, phase.pushed allowed⟩
  | observe active => exact ⟨flag, phase.works (by rw [active]; nofun) nofun⟩
  | take active pending => exact ⟨by simp, phase.works (by rw [active]; nofun) nofun⟩
  | run active returns => exact ⟨flag, phase.works (by rw [active]; nofun) nofun⟩
  | runThrows active throws => exact ⟨flag, phase.works (by rw [active]; nofun) nofun⟩
  | park active running idle => exact ⟨flag, phase.works (by rw [active]; nofun) nofun⟩
  | wake waiting signalled => exact ⟨flag, phase.works (by rw [waiting]; nofun) nofun⟩
  | exit active stopped =>
    rw [stopped] at phase
    have ended := phase.ends (by rw [active]; nofun)
    refine ⟨flag, ?_⟩
    show Phase s.control s.running .absent s.commands
    rwa [stopped]
  | start free stopped =>
    rw [free, stopped] at phase
    exact ⟨flag, rfl, phase.1⟩
  | spawn starting =>
    rw [starting] at phase
    refine ⟨flag, ?_⟩
    show if s.running then _ else _
    rw [phase.1]
    nofun
  | stop free => exact ⟨flag, rfl⟩
  | signal cleared =>
    rw [cleared] at phase
    exact ⟨flag, phase⟩
  | join signalled ended =>
    rw [signalled] at phase
    exact ⟨flag, phase, ended⟩
  | finalTake joined pending =>
    rw [joined] at phase
    exact ⟨by simp, phase.1, phase.2, rfl⟩
  | finalNone joined none =>
    rw [joined] at phase
    refine ⟨flag, ?_⟩
    show if s.running then _ else _
    rw [phase.1]
    refine ⟨phase.2, ?_⟩
    by_contra some
    rw [flag.mpr some] at none
    cases none
  | finalRun draining returns =>
    rw [draining] at phase
    exact ⟨flag, phase⟩
  | finalThrows draining throws =>
    rw [draining] at phase
    refine ⟨flag, ?_⟩
    show if s.running then _ else _
    rw [phase.1]
    exact phase.2
  | finalEnd drained =>
    rw [drained] at phase
    refine ⟨flag, ?_⟩
    show if s.running then _ else _
    rw [phase.1]
    exact phase.2
  | _ => exact ⟨flag, phase⟩

theorem Move.ordered (move : Move capacity s action t) (allowed : Allowed s action) (numbered : s.Numbered)
    (lifecycle : s.Lifecycle) (ordered : s.Ordered) : t.Ordered := by
  have phase := lifecycle.phase
  cases move with
  | @direct caller command direct =>
    have owner := (numbered.next caller command (by rw [direct]; rfl)).1
    exact ordered.overtaken (by rw [owner]; exact allowed) rfl rfl rfl rfl
  | @pushFirst caller command queuing room empty =>
    have owner := (numbered.next caller command (by rw [queuing]; rfl)).1
    exact ordered.appended (by rw [owner]; nofun) rfl rfl rfl rfl
  | @pushQueued caller command queuing room nonempty =>
    have owner := (numbered.next caller command (by rw [queuing]; rfl)).1
    exact ordered.appended (by rw [owner]; nofun) rfl rfl rfl rfl
  | workerCommand kind active => exact ordered.overtaken ordered.queued rfl rfl rfl rfl
  | observe active => exact ordered.still (by rw [active]; rfl) rfl rfl rfl rfl
  | @take seen active pending =>
    have none := (phase.at_work (by rw [active]; nofun)).1
    have before : s.inFlight = [] := by
      rw [Session.inFlight, active, none]
      rfl
    have after : Session.inFlight { s with worker := .active seen s.commands, commands := [], hasPending := false } =
        s.commands := by
      show s.commands ++ s.control.batch = _
      rw [none, List.append_nil]
    apply ordered.moved
    · rw [Session.pipeline, Session.pipeline, before, after]
      show s.executed ++ s.commands ++ [] = _
      simp
    · rfl
    · rw [before, after]
      show s.commands ++ [] ⊆ _
      simp
  | @run seen command rest active returns =>
    have before : s.inFlight = command :: (rest ++ s.control.batch) := by
      rw [Session.inFlight, active]
      rfl
    have after : Session.inFlight { s with worker := .active seen rest, executed := s.executed ++ [command] } =
        rest ++ s.control.batch := rfl
    apply ordered.moved
    · rw [Session.pipeline, Session.pipeline, before, after]
      show s.executed ++ [command] ++ _ ++ s.commands = _
      simp
    · rfl
    · rw [before, after]
      exact List.subset_cons_self _ _
  | @runThrows seen command rest active throws =>
    have head : command ∈ s.inFlight.head? := by
      rw [Session.inFlight, active]
      rfl
    rw [allowed command head] at throws
    cases throws
  | park active running idle => exact ordered.still (by rw [active]; rfl) rfl rfl rfl rfl
  | wake waiting signalled => exact ordered.still (by rw [waiting]; rfl) rfl rfl rfl rfl
  | exit active stopped => exact ordered.still (by rw [active]; rfl) rfl rfl rfl rfl
  | start free stopped => exact ordered.still rfl (by rw [free]; rfl) rfl rfl rfl
  | spawn starting =>
    rw [starting] at phase
    exact ordered.still (by rw [phase.2]; rfl) (by rw [starting]; rfl) rfl rfl rfl
  | stop free => exact ordered.still rfl (by rw [free]; rfl) rfl rfl rfl
  | signal cleared => exact ordered.still rfl (by rw [cleared]; rfl) rfl rfl rfl
  | join signalled ended => exact ordered.still rfl (by rw [signalled]; rfl) rfl rfl rfl
  | finalTake joined pending =>
    rw [joined] at phase
    have before : s.inFlight = [] := by
      rw [Session.inFlight, joined, phase.2]
      rfl
    have after : Session.inFlight { s with control := .draining s.commands, commands := [], hasPending := false } =
        s.commands := by
      show s.worker.batch ++ s.commands = _
      rw [phase.2]
      rfl
    apply ordered.moved
    · rw [Session.pipeline, Session.pipeline, before, after]
      show s.executed ++ s.commands ++ [] = _
      simp
    · rfl
    · rw [before, after]
      show s.commands ++ [] ⊆ _
      simp
  | finalNone joined none => exact ordered.still rfl (by rw [joined]; rfl) rfl rfl rfl
  | @finalRun command rest draining returns =>
    rw [draining] at phase
    have before : s.inFlight = command :: rest := by
      rw [Session.inFlight, draining, phase.2.1]
      rfl
    have after : Session.inFlight { s with control := .draining rest, executed := s.executed ++ [command] } =
        rest := by
      show s.worker.batch ++ rest = _
      rw [phase.2.1]
      rfl
    apply ordered.moved
    · rw [Session.pipeline, Session.pipeline, before, after]
      show s.executed ++ [command] ++ rest ++ s.commands = _
      simp
    · rfl
    · rw [before, after]
      exact List.subset_cons_self _ _
  | @finalThrows command rest draining throws =>
    rw [draining] at phase
    have head : command ∈ s.inFlight.head? := by
      rw [Session.inFlight, draining, phase.2.1]
      rfl
    rw [allowed command head] at throws
    cases throws
  | finalEnd drained => exact ordered.still rfl (by rw [drained]; rfl) rfl rfl rfl
  | _ => exact ordered.still rfl rfl rfl rfl rfl

def Notifies (callers : Nat → Calling) : Prop := ∃ caller command, callers caller = .notifying command

/-- A worker that sleeps on the present generation has nothing to run, or someone is about to wake it. -/
def Heard (worker : Worker) (workGeneration : Nat) (commands : List Command) (callers : Nat → Calling)
    (running : Bool) (control : Control) : Prop :=
  match worker with
  | .active (some seen) _ => seen ≤ workGeneration
  | .waiting seen => seen ≤ workGeneration ∧
      (workGeneration = seen → (commands = [] ∨ Notifies callers) ∧ (running = true ∨ control = .cleared))
  | _ => True

def Session.Heard (s : Session) : Prop :=
  Commands.Heard s.worker s.workGeneration s.commands s.callers s.running s.control

section

variable {worker : Worker} {workGeneration : Nat} {commands commands' : List Command}
  {callers callers' : Nat → Calling} {running running' : Bool} {control control' : Control}

theorem Heard.changed (heard : Heard worker workGeneration commands callers running control)
    (queue : commands = [] ∨ Notifies callers → commands' = [] ∨ Notifies callers')
    (stopping : running = true ∨ control = .cleared → running' = true ∨ control' = .cleared) :
    Heard worker workGeneration commands' callers' running' control' := by
  unfold Heard at heard ⊢
  split
  · exact heard
  · exact ⟨heard.1, fun same => ⟨queue (heard.2 same).1, stopping (heard.2 same).2⟩⟩
  · trivial

/-- A new generation is a wake-up. -/
theorem Heard.signalled (heard : Heard worker workGeneration commands callers running control) :
    Heard worker (workGeneration + 1) commands' callers' running' control' := by
  unfold Heard at heard ⊢
  split
  · exact Nat.le_succ_of_le heard
  · next seen =>
    refine ⟨Nat.le_succ_of_le heard.1, fun same => ?_⟩
    have := heard.1
    omega
  · trivial

theorem Notifies.update {phase : Calling} (notifies : Notifies callers)
    (other : ∀ command, callers caller ≠ .notifying command) :
    Notifies (Function.update callers caller phase) := by
  obtain ⟨notifier, command, notifying⟩ := notifies
  refine ⟨notifier, command, ?_⟩
  rwa [Function.update_of_ne]
  rintro rfl
  exact other command notifying

theorem Heard.calling {phase : Calling} (heard : Heard worker workGeneration commands callers running control)
    (other : ∀ command, callers caller ≠ .notifying command) :
    Heard worker workGeneration commands (Function.update callers caller phase) running control :=
  heard.changed (fun queue => queue.imp_right fun notifies => notifies.update other) id

end

theorem Move.heard (move : Move capacity s action t) (lifecycle : s.Lifecycle) (heard : s.Heard) : t.Heard := by
  have phase := lifecycle.phase
  unfold Session.Heard at heard
  cases move with
  | enqueue caller kind free => exact heard.calling (by rw [free]; nofun)
  | checkRunning entering running => exact heard.calling (by rw [entering]; nofun)
  | checkStopped entering stopped => exact heard.calling (by rw [entering]; nofun)
  | direct direct => exact heard.calling (by rw [direct]; nofun)
  | pushFull queuing full => exact heard.calling (by rw [queuing]; nofun)
  | pushFirst queuing room empty =>
    exact heard.changed (fun _ => .inr ⟨_, _, Function.update_self ..⟩) id
  | pushQueued queuing room nonempty =>
    exact heard.changed
      (fun queue => .inr ((queue.resolve_left nonempty).update (by rw [queuing]; nofun))) id
  | notify notifying => exact heard.signalled
  | resume awaiting ready => exact heard.calling (by rw [awaiting]; nofun)
  | workerCommand kind active => exact heard
  | observe active => exact Nat.le_refl s.workGeneration
  | @take seen active pending =>
    rw [active] at heard
    cases seen <;> exact heard
  | @run seen command rest active returns =>
    rw [active] at heard
    cases seen <;> exact heard
  | runThrows active throws => trivial
  | park active running idle =>
    rw [active] at heard
    refine ⟨heard, fun _ => ⟨.inl ?_, .inl running⟩⟩
    by_contra some
    rw [lifecycle.flag.mpr some] at idle
    cases idle
  | wake waiting signalled => trivial
  | exit active stopped => trivial
  | start free stopped => exact heard.changed id fun _ => .inl rfl
  | startRunning free running => exact heard
  | spawn starting => trivial
  | stop free => exact heard.changed id fun _ => .inr rfl
  | signal cleared => exact heard.signalled
  | join signalled ended =>
    show Heard s.worker _ _ _ _ _
    rw [ended]
    trivial
  | finalTake joined pending =>
    rw [joined] at phase
    show Heard s.worker _ _ _ _ _
    rw [phase.2]
    trivial
  | finalNone joined none =>
    rw [joined] at phase
    show Heard s.worker _ _ _ _ _
    rw [phase.2]
    trivial
  | finalRun draining returns =>
    rw [draining] at phase
    show Heard s.worker _ _ _ _ _
    rw [phase.2.1]
    trivial
  | finalThrows draining throws =>
    rw [draining] at phase
    show Heard s.worker _ _ _ _ _
    rw [phase.2.1]
    trivial
  | finalEnd drained =>
    rw [drained] at phase
    show Heard s.worker _ _ _ _ _
    rw [phase.2.1]
    trivial

/-! ### Runs -/

theorem Move.alive (move : Move capacity s action t) (allowed : Allowed s action) (alive : s.worker ≠ .terminated) :
    t.worker ≠ .terminated := by
  cases move with
  | @runThrows seen command rest active throws =>
    have head : command ∈ s.inFlight.head? := by
      rw [Session.inFlight, active]
      rfl
    rw [allowed command head] at throws
    cases throws
  | observe | take | run | park | wake | exit | spawn => nofun
  | _ => exact alive

structure Invariant (s : Session) : Prop where
  alive : s.worker ≠ .terminated
  numbered : s.Numbered
  lifecycle : s.Lifecycle
  ordered : s.Ordered
  heard : s.Heard

theorem invariant_start : Invariant {} where
  alive := nofun
  numbered := ⟨nofun, nofun, nofun, nofun, List.nodup_nil, nofun⟩
  lifecycle := ⟨by simp, rfl, rfl⟩
  ordered := ⟨fun _ => rfl, nofun⟩
  heard := trivial

theorem Move.invariant (move : Move capacity s action t) (allowed : Allowed s action) (invariant : Invariant s) :
    Invariant t where
  alive := move.alive allowed invariant.alive
  numbered := move.numbered invariant.numbered
  lifecycle := move.lifecycle allowed invariant.lifecycle
  ordered := move.ordered allowed invariant.numbered invariant.lifecycle invariant.ordered
  heard := move.heard invariant.lifecycle invariant.heard

/-- Someone can take the next step towards running what is queued or taken. -/
inductive Session.Attended (s : Session) : Prop where
  | working {seen : Option Nat} {batch : List Command} : s.worker = .active seen batch → s.Attended
  | woken {seen : Nat} : s.worker = .waiting seen → s.workGeneration ≠ seen ∨ Notifies s.callers → s.Attended
  | control : s.worker = .absent → s.control ≠ .idle → s.Attended

/-- What a session owes to the callers of `enqueueCommand` and `runViaCommandQueue`. -/
structure Faithful (s : Session) : Prop where
  once : ∀ command ∈ s.handed, s.pipeline.count command = 1
  only : ∀ command ∈ s.pipeline, command ∈ s.handed
  inOrder : ∀ caller, ofCaller caller s.executed <+: ofCaller caller s.handed
  refused : ∀ command ∈ s.refused, command ∉ s.pipeline
  awaited : ∀ caller command, s.callers caller = .awaiting command → command ∈ s.handed
  stopped : s.control = .idle → s.running = false → s.pipeline = s.executed
  attended : s.pipeline ≠ s.executed → s.Attended
  stops : ∀ seen, s.worker = .waiting seen → s.running = false → s.workGeneration ≠ seen ∨ s.control = .cleared

theorem Invariant.mem_pipeline (invariant : Invariant s) : command ∈ s.pipeline ↔ command ∈ s.handed := by
  have same := invariant.ordered.inOrder command.caller
  have mem : ∀ commands, command ∈ ofCaller command.caller commands ↔ command ∈ commands := by simp [ofCaller]
  rw [← mem s.pipeline, same, mem]

theorem Invariant.count_pipeline (invariant : Invariant s) (command : Command) :
    s.pipeline.count command = s.handed.count command := by
  have count : ∀ commands, (ofCaller command.caller commands).count command = commands.count command :=
    fun commands => List.count_filter (by simp)
  rw [← count s.pipeline, invariant.ordered.inOrder, count]

theorem Invariant.stopped (invariant : Invariant s) (idle : s.control = .idle) (halted : s.running = false) :
    s.worker = .absent ∧ s.pipeline = s.executed := by
  have phase := invariant.lifecycle.phase
  rw [idle, halted] at phase
  refine ⟨phase.1, ?_⟩
  rw [Session.pipeline, Session.inFlight, phase.1, phase.2, idle]
  show s.executed ++ [] ++ [] = _
  simp

theorem Invariant.asleep (invariant : Invariant s) {seen : Nat} (waiting : s.worker = .waiting seen)
    (same : s.workGeneration = seen) :
    (s.pipeline = s.executed ∨ Notifies s.callers) ∧ (s.running = true ∨ s.control = .cleared) := by
  have heard := invariant.heard
  unfold Session.Heard at heard
  rw [waiting] at heard
  obtain ⟨queue, halting⟩ := heard.2 same
  refine ⟨queue.imp_left fun empty => ?_, halting⟩
  have none := (invariant.lifecycle.phase.at_work (by rw [waiting]; nofun)).1
  rw [Session.pipeline, Session.inFlight, waiting, none, empty]
  show s.executed ++ [] ++ [] = _
  simp

theorem Invariant.attended (invariant : Invariant s) (pending : s.pipeline ≠ s.executed) : s.Attended := by
  cases worker : s.worker with
  | active seen batch => exact .working worker
  | waiting seen =>
    refine .woken worker ?_
    by_cases same : s.workGeneration = seen
    · exact .inr ((invariant.asleep worker same).1.resolve_left pending)
    · exact .inl same
  | terminated => exact absurd worker invariant.alive
  | absent =>
    refine .control worker fun idle => ?_
    have phase := invariant.lifecycle.phase
    rw [idle, worker] at phase
    cases running : s.running with
    | true =>
      rw [running] at phase
      exact phase rfl
    | false => exact pending (invariant.stopped idle running).2

theorem Invariant.faithful (invariant : Invariant s) : Faithful s where
  once command member := by
    rw [invariant.count_pipeline]
    exact List.count_eq_one_of_mem invariant.numbered.nodup member
  only command := invariant.mem_pipeline.mp
  inOrder caller := by
    rw [← invariant.ordered.inOrder caller, Session.pipeline, List.append_assoc, ofCaller_append]
    exact List.prefix_append _ _
  refused command member := by
    rw [invariant.mem_pipeline]
    exact invariant.numbered.refused command member
  awaited caller command awaiting := invariant.numbered.attended caller command (by rw [awaiting]; rfl)
  stopped idle halted := (invariant.stopped idle halted).2
  attended := invariant.attended
  stops seen waiting halted := by
    by_cases same : s.workGeneration = seen
    · exact .inr ((invariant.asleep waiting same).2.resolve_left (by rw [halted]; nofun))
    · exact .inl same

/-- A push that hands nothing over was refused as full, and leaves the queue and what the worker sees alone. -/
theorem Move.push_refused (move : Move capacity s (.push caller) t) (refused : t.handed = s.handed) :
    capacity ≤ s.commands.length ∧ t.pipeline = s.pipeline ∧ t.commands = s.commands ∧ t.hasPending = s.hasPending ∧
      t.workGeneration = s.workGeneration := by
  cases move with
  | pushFull queuing full => exact ⟨full, rfl, rfl, rfl, rfl⟩
  | pushFirst queuing room empty => cases List.append_right_eq_self.mp refused
  | pushQueued queuing room nonempty => cases List.append_right_eq_self.mp refused

/-- Steps that meet the condition. -/
def AllowedStep (capacity : Nat) (s : Session) (action : Action) (t : Session) : Prop :=
  Step capacity s action t ∧ Allowed s action

theorem invariant_run {actions : List Action} (run : Run (AllowedStep capacity) {} actions s) : Invariant s :=
  run.invariant invariant_start fun _ _ _ invariant step => step.1.2.invariant step.2 invariant

theorem commands_execute_once {actions : List Action} (run : Run (AllowedStep capacity) {} actions s) :
    Faithful s ∧ ∀ caller t, Step capacity s (.push caller) t → t.handed = s.handed →
      capacity ≤ s.commands.length ∧ t.pipeline = s.pipeline ∧ t.commands = s.commands ∧ t.hasPending = s.hasPending ∧
        t.workGeneration = s.workGeneration :=
  ⟨(invariant_run run).faithful, fun _ _ step => step.2.push_refused⟩

/-- A command that goes through the queue to the worker. -/
theorem commands_execute_once_queued :
    ∃ s : Session, s.executed = [⟨some 0, 0, .waited⟩] ∧ Faithful s := by
  have started : Run (AllowedStep 1024) {} _ _ := .one ⟨⟨nofun, .start rfl rfl⟩, trivial⟩
  have spawned := started.next ⟨⟨nofun, .spawn rfl⟩, trivial⟩
  have entered := spawned.next ⟨⟨nofun, .enqueue 0 .waited rfl⟩, trivial⟩
  have checked := entered.next ⟨⟨nofun, @Move.checkRunning _ _ 0 _ rfl rfl⟩, trivial⟩
  have pushed := checked.next ⟨⟨nofun, @Move.pushFirst _ _ 0 _ rfl (by decide) rfl⟩, .inl rfl⟩
  have taken := pushed.next ⟨⟨nofun, .take rfl rfl⟩, trivial⟩
  have ran := taken.next ⟨⟨nofun, .run rfl rfl⟩, by rintro _ ⟨⟩; rfl⟩
  exact ⟨_, rfl, (commands_execute_once ran).1⟩

/-- The drain of `stop` comes between a caller's look at `isRunning` and its push. -/
theorem late_push_lost : ∃ (actions : List Action) (s : Session) (command : Command),
    Run (Step 1024) {} actions s ∧ s.control = .idle ∧ s.worker = .absent ∧ s.callers 0 = .awaiting command ∧
      command ∉ s.executed ∧ ¬Faithful s := by
  have started : Run (Step 1024) {} _ _ := .one ⟨nofun, .start rfl rfl⟩
  have spawned := started.next ⟨nofun, .spawn rfl⟩
  have entered := spawned.next ⟨nofun, .enqueue 0 .waited rfl⟩
  have checked := entered.next ⟨nofun, @Move.checkRunning _ _ 0 _ rfl rfl⟩
  have cleared := checked.next ⟨nofun, .stop rfl⟩
  have signalled := cleared.next ⟨nofun, .signal rfl⟩
  have ended := signalled.next ⟨nofun, .exit rfl rfl⟩
  have joined := ended.next ⟨nofun, .join rfl rfl⟩
  have drained := joined.next ⟨nofun, .finalNone rfl rfl⟩
  have pushed := drained.next ⟨nofun, @Move.pushFirst _ _ 0 _ rfl (by decide) rfl⟩
  have notified := pushed.next ⟨nofun, @Move.notify _ _ 0 _ rfl⟩
  exact ⟨_, _, _, notified, rfl, rfl, rfl, nofun, fun faithful => nomatch faithful.stopped rfl rfl⟩

end LasecSimul.Scheduling.Commands
