import Mathlib.Data.Multiset.Filter
import LasecSimul.Scheduling.Discipline

/-!
# The mirrors of the event queue

`m_hardEventTimes` and the two published times are kept beside the queue, by every function that pushes, pops or
clears it.
-/

namespace LasecSimul.Scheduling

/-- The times of the events that are not soft, in the order in which the queue serves them. -/
def EventQueue.hardTimes (queue : EventQueue) : List Nat := (queue.served.filter fun event => !event.soft).map (·.timeNs)

namespace EventQueue

variable {queue : EventQueue} {event : ScheduledEvent}

theorem hardTimes_sorted (queue : EventQueue) : queue.hardTimes.Pairwise (· ≤ ·) := by
  unfold hardTimes
  rw [List.pairwise_map]
  refine List.Pairwise.imp ?_ (queue.ordered.sublist List.filter_sublist)
  rintro a b (earlier | ⟨same, _⟩)
  · exact Nat.le_of_lt earlier
  · exact Nat.le_of_eq same

theorem hardTimes_push_soft (soft : event.soft = true) : (queue.push event).hardTimes.Perm queue.hardTimes := by
  have inserted := (List.perm_orderedInsert ScheduledEvent.NoLater event queue.served).filter fun event => !event.soft
  rw [List.filter_cons_of_neg (by simp [soft])] at inserted
  exact inserted.map _

theorem hardTimes_push_hard (hard : event.soft = false) :
    (queue.push event).hardTimes.Perm (event.timeNs :: queue.hardTimes) := by
  have inserted := (List.perm_orderedInsert ScheduledEvent.NoLater event queue.served).filter fun event => !event.soft
  rw [List.filter_cons_of_pos (by simp [hard])] at inserted
  exact inserted.map _

theorem hardTimes_pop (top : queue.top = some event) :
    queue.hardTimes = if event.soft then queue.pop.hardTimes else event.timeNs :: queue.pop.hardTimes := by
  obtain ⟨rest, served⟩ := List.head?_eq_some_iff.mp top
  have tail : queue.pop.served = rest := by
    show queue.served.tail = rest
    rw [served, List.tail_cons]
  unfold hardTimes
  rw [tail, served]
  cases soft : event.soft with
  | true => rw [List.filter_cons_of_neg (by simp [soft]), if_pos rfl]
  | false => rw [List.filter_cons_of_pos (by simp [soft]), List.map_cons, if_neg (by simp)]

end EventQueue

/-- What the scheduler keeps beside its queue agrees with the queue. -/
structure Mirrored (s : Scheduler) : Prop where
  hard : s.hardEventTimes = s.events.hardTimes
  nextHard : s.nextHardEventSnapshotNs = s.events.hardTimes.head?.getD noTime
  next : s.nextEventSnapshotNs = (s.events.top.map (·.timeNs)).getD noTime

namespace Scheduler

/-- `reset`, which has joined the worker before it takes the mutex. -/
def reset (s : Scheduler) : Scheduler :=
  let cleared := publishNextHardEventLocked { s with dirty := ∅, pendingDirty := ∅, events := .empty, hardEventTimes := [] }
  { cleared with
    pendingEventSnapshot := 0
    nextEventSnapshotNs := noTime
    nowNs := 0
    nowSnapshotNs := 0
    nextSequence := 0
    paused := false }

variable {s s' : Scheduler} {event : ScheduledEvent}

theorem mirrored_init : Mirrored {} := ⟨rfl, rfl, rfl⟩

theorem mirrored_reset (s : Scheduler) : Mirrored s.reset := ⟨rfl, rfl, rfl⟩

end Scheduler

namespace Mirrored

variable {s s' : Scheduler} {event : ScheduledEvent}

theorem of_same (mirrored : Mirrored s) (events : s'.events = s.events) (hard : s'.hardEventTimes = s.hardEventTimes)
    (nextHard : s'.nextHardEventSnapshotNs = s.nextHardEventSnapshotNs)
    (next : s'.nextEventSnapshotNs = s.nextEventSnapshotNs) : Mirrored s' := by
  constructor
  · rw [hard, events, mirrored.hard]
  · rw [nextHard, events, mirrored.nextHard]
  · rw [next, events, mirrored.next]

theorem push (mirrored : Mirrored s) (timeNs : Nat) (componentIndex : Option Nat) (callback soft : Bool) :
    Mirrored (s.pushEventLocked timeNs componentIndex callback soft) := by
  cases soft with
  | true =>
    have same : (s.events.push (s.nextEvent timeNs componentIndex callback true)).hardTimes = s.events.hardTimes :=
      (EventQueue.hardTimes_push_soft rfl).eq_of_pairwise (fun _ _ _ _ => Nat.le_antisymm)
        (EventQueue.hardTimes_sorted _) (EventQueue.hardTimes_sorted _)
    refine ⟨?_, ?_, rfl⟩
    · exact mirrored.hard.trans same.symm
    · show s.nextHardEventSnapshotNs = (s.events.push (s.nextEvent timeNs componentIndex callback true)).hardTimes.head?.getD _
      rw [same, mirrored.nextHard]
  | false =>
    have same : s.hardEventTimes.orderedInsert (· ≤ ·) timeNs =
        (s.events.push (s.nextEvent timeNs componentIndex callback false)).hardTimes := by
      have inserted : (s.hardEventTimes.orderedInsert (· ≤ ·) timeNs).Perm (timeNs :: s.events.hardTimes) := by
        rw [mirrored.hard]
        exact List.perm_orderedInsert ..
      have sorted : (s.hardEventTimes.orderedInsert (· ≤ ·) timeNs).Pairwise (· ≤ ·) := by
        rw [mirrored.hard]
        exact (EventQueue.hardTimes_sorted s.events).orderedInsert timeNs _
      have pushed : (s.events.push (s.nextEvent timeNs componentIndex callback false)).hardTimes.Perm
          (timeNs :: s.events.hardTimes) := EventQueue.hardTimes_push_hard rfl
      exact (inserted.trans pushed.symm).eq_of_pairwise (fun _ _ _ _ => Nat.le_antisymm) sorted
        (EventQueue.hardTimes_sorted _)
    refine ⟨same, ?_, rfl⟩
    show (s.hardEventTimes.orderedInsert (· ≤ ·) timeNs).head?.getD noTime = _
    rw [same]
    rfl

theorem take (mirrored : Mirrored s) (top : s.events.top = some event) : Mirrored (s.takeEvent event) := by
  have popped := EventQueue.hardTimes_pop top
  unfold Scheduler.takeEvent
  cases soft : event.soft with
  | true =>
    rw [soft, if_pos rfl] at popped
    refine ⟨mirrored.hard.trans popped, ?_, rfl⟩
    show s.nextHardEventSnapshotNs = s.events.pop.hardTimes.head?.getD noTime
    rw [← popped, mirrored.nextHard]
  | false =>
    rw [soft, if_neg (by simp)] at popped
    have erased : s.hardEventTimes.erase event.timeNs = s.events.pop.hardTimes := by
      rw [mirrored.hard, popped, List.erase_cons_head]
    refine ⟨erased, ?_, rfl⟩
    show (s.hardEventTimes.erase event.timeNs).head?.getD noTime = _
    rw [erased]
    rfl

end Mirrored

namespace System

/-- A step, or a reset by a thread that finds the mutex free. -/
inductive Operation (callbacks : Callbacks) : System → Label → System → Prop where
  | step {s t : System} {label : Label} : Step callbacks s label t → Operation callbacks s label t
  | reset {s : Scheduler} {control : Control} : control.unlocked →
    Operation callbacks ⟨s, control⟩ .silent ⟨s.reset, control⟩

variable {callbacks : Callbacks} {s t : System} {label : Label} {labels : List Label}

theorem Step.mirrored (step : Step callbacks s label t) (mirrored : Mirrored s.scheduler) : Mirrored t.scheduler := by
  cases step with
  | scheduleAt timeNs componentIndex callback soft unlocked small => exact mirrored.push ..
  | scheduleEvent delayNs componentIndex callback soft unlocked => exact mirrored.push ..
  | execute due running =>
    have taken := mirrored.take (dueEvent_spec due).1
    exact taken
  | tune tunes =>
    cases tunes with
    | _ => exact mirrored.of_same rfl rfl rfl rfl
  | keep decision stands =>
    have kept : ∀ s : Scheduler, ∀ frame, Mirrored s → Mirrored (keepStep s frame decision) := by
      intro s frame mirrored
      unfold keepStep
      split
      · exact mirrored.of_same rfl rfl rfl rfl
      · exact mirrored
    split
    · exact (kept _ _ mirrored).of_same rfl rfl rfl rfl
    · exact kept _ _ mirrored
  | _ => exact mirrored.of_same rfl rfl rfl rfl

theorem Operation.mirrored (operation : Operation callbacks s label t) (mirrored : Mirrored s.scheduler) :
    Mirrored t.scheduler := by
  cases operation with
  | step step => exact step.mirrored mirrored
  | reset unlocked => exact Scheduler.mirrored_reset _

/-- The mirrors as the rest of the simulator reads them. -/
structure Agrees (s : Scheduler) : Prop where
  hard : (s.hardEventTimes : Multiset Nat) =
    ((s.events.served : Multiset ScheduledEvent).filter fun event => event.soft = false).map (·.timeNs)
  nextHard : (s.hardEventTimes = [] ∧ s.nextHardEventSnapshotNs = noTime) ∨
    (s.nextHardEventSnapshotNs ∈ s.hardEventTimes ∧ ∀ timeNs ∈ s.hardEventTimes, s.nextHardEventSnapshotNs ≤ timeNs)
  next : (s.events.top = none ∧ s.nextEventSnapshotNs = noTime) ∨
    ∃ event, s.events.top = some event ∧ s.nextEventSnapshotNs = event.timeNs

theorem agrees_of_mirrored {s : Scheduler} (mirrored : Mirrored s) : Agrees s := by
  refine ⟨?_, ?_, ?_⟩
  · have hard : s.events.served.filter (fun event => !event.soft) =
        s.events.served.filter fun event => decide (event.soft = false) :=
      List.filter_congr fun event _ => by cases event.soft <;> rfl
    rw [mirrored.hard, EventQueue.hardTimes, hard]
    rfl
  · have sorted := EventQueue.hardTimes_sorted s.events
    rw [mirrored.nextHard, mirrored.hard]
    cases times : s.events.hardTimes with
    | nil => exact .inl ⟨rfl, rfl⟩
    | cons first rest =>
      rw [times] at sorted
      refine .inr ⟨List.mem_cons_self, fun timeNs member => ?_⟩
      rcases List.mem_cons.mp member with rfl | later
      · exact Nat.le_refl _
      · exact List.rel_of_pairwise_cons sorted later
  · rw [mirrored.next]
    cases top : s.events.top with
    | none => exact .inl ⟨rfl, rfl⟩
    | some event => exact .inr ⟨event, rfl, rfl⟩

/-- The mirrors agree with the queue after every operation. -/
theorem hard_events_mirrored (run : Lib.Trace.Run (Operation callbacks) {} labels s) : Agrees s.scheduler :=
  agrees_of_mirrored (run.invariant Scheduler.mirrored_init fun _ _ _ mirrored operation => operation.mirrored mirrored)

/-- A hard and a soft event, and then a reset. -/
theorem hard_events_mirrored_reset : ∃ labels, Lib.Trace.Run (Operation ⟨false, false, false, false⟩) {} labels
    ⟨((Scheduler.pushEventLocked {} 5 none false false).pushEventLocked 3 none false true).reset, .idle⟩ ∧
      Agrees ((Scheduler.pushEventLocked {} 5 none false false).pushEventLocked 3 none false true).reset := by
  have run : Lib.Trace.Run (Operation ⟨false, false, false, false⟩) {} _
      ⟨((Scheduler.pushEventLocked {} 5 none false false).pushEventLocked 3 none false true).reset, .idle⟩ :=
    .next (.next (.next (.start _) (.step (.scheduleAt 5 none false false rfl (by decide))))
      (.step (.scheduleAt 3 none false true rfl (by decide)))) (.reset rfl)
  exact ⟨_, run, hard_events_mirrored run⟩

end System

end LasecSimul.Scheduling
