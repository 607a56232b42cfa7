import LasecSimul.Mcu.QemuArena

/-!
# The arena loses and repeats nothing

The ring is that of `Lib.Spsc`, with the Core as its consumer. An acknowledgement goes where the event came from, so
that none of them covers an event that has not been dispatched.
-/

namespace LasecSimul.Mcu

open Lib Lib.Trace

namespace Turn

/-- The turn has to do with the request in the slot. -/
def serving : Turn → Bool
  | .asked | .answered _ | .cleared _ => true
  | .polled event | .dispatched event _ => !event.fromQueue
  | _ => false

/-- What the turn knows of the ring. -/
def consumer (readSeq : UInt64) : Turn → Spsc.Consumer QueueEntry
  | .head => .loaded readSeq
  | .polled event | .dispatched event _ => if event.fromQueue then .copied readSeq event.entry else .idle
  | _ => .idle

end Turn

/-- How far the request in the slot is. -/
inductive SlotPhase (reads : ReadSlot) (log : List QueueEntry) (turn : Turn) : Prop where
  | closed (client : ∀ request, reads.client ≠ .waiting request) (quiet : turn.serving = false)
      (time : reads.slot.simuTime = 0)
      (filled : ∀ request, reads.client = .filled request → reads.qemuAction = .none ∧ request.simuTime ≠ 0 ∧
        { reads.slot with simuTime := request.simuTime } = request)
      (logged : log = reads.requested) (acknowledged : reads.acknowledged = reads.requested)
  | waits (request : QueueEntry) (client : reads.client = .waiting request) (slot : reads.slot = request)
      (time : request.simuTime ≠ 0) (action : reads.qemuAction = .none)
      (requested : reads.requested = reads.acknowledged ++ [request]) (logged : log = reads.acknowledged)
      (turn : turn.serving = false ∨ turn = .asked ∨ turn = .polled ⟨request, false⟩)
  | serves (request : QueueEntry) (readValue : UInt64) (client : reads.client = .waiting request)
      (time : reads.slot.simuTime ≠ 0) (action : reads.qemuAction = .none)
      (requested : reads.requested = reads.acknowledged ++ [request]) (logged : log = reads.requested)
      (turn : turn = .dispatched ⟨request, false⟩ readValue)
  | answers (request : QueueEntry) (client : reads.client = .waiting request) (read : request.simuAction = .read)
      (action : reads.qemuAction = .none) (requested : reads.requested = reads.acknowledged ++ [request])
      (logged : log = reads.requested) (turn : turn = .answered ⟨request, false⟩)
  | clears (request : QueueEntry) (client : reads.client = .waiting request) (read : request.simuAction = .read)
      (time : reads.slot.simuTime = 0) (action : reads.qemuAction = .none)
      (requested : reads.requested = reads.acknowledged ++ [request]) (logged : log = reads.requested)
      (turn : turn = .cleared ⟨request, false⟩)
  | served (request : QueueEntry) (client : reads.client = .waiting request) (quiet : turn.serving = false)
      (time : reads.slot.simuTime = 0) (logged : log = reads.requested)
      (acknowledged : reads.acknowledged = reads.requested)

namespace SlotPhase

variable {reads reads' : ReadSlot} {log : List QueueEntry} {turn turn' : Turn}

/-- A turn that does not touch the slot goes on. -/
theorem quiet (phase : SlotPhase reads log turn) (before : turn.serving = false) (after : turn'.serving = false) :
    SlotPhase reads log turn' := by
  cases phase with
  | closed client _ time filled logged acknowledged => exact .closed client after time filled logged acknowledged
  | waits request client slot time action requested logged _ =>
    exact .waits request client slot time action requested logged (.inl after)
  | serves request readValue client time action requested logged same =>
    rw [same] at before
    exact absurd before.symm Bool.false_ne_true
  | answers request client read action requested logged same =>
    rw [same] at before
    exact absurd before.symm Bool.false_ne_true
  | clears request client read time action requested logged same =>
    rw [same] at before
    exact absurd before.symm Bool.false_ne_true
  | served request client _ time logged acknowledged => exact .served request client after time logged acknowledged

theorem request {entry : QueueEntry} (phase : SlotPhase reads log turn) (step : reads.request entry = some reads') :
    SlotPhase reads' log turn := by
  obtain ⟨⟨idle, positive⟩, same⟩ := Option.ite_none_right_eq_some.mp step
  obtain rfl := Option.some.inj same
  cases phase with
  | closed client quiet time filled logged acknowledged =>
    refine .closed (fun _ => SlotClient.noConfusion) quiet rfl ?_ logged acknowledged
    intro request same
    obtain rfl := SlotClient.filled.inj same
    exact ⟨rfl, positive, rfl⟩
  | waits request client | serves request _ client | answers request client | clears request client
  | served request client => exact absurd (idle.symm.trans client) SlotClient.noConfusion

theorem ask (phase : SlotPhase reads log turn) (step : reads.ask = some reads') : SlotPhase reads' log turn := by
  unfold ReadSlot.ask at step
  cases phase with
  | closed client quiet time filled logged acknowledged =>
    split at step
    · next entry same =>
      obtain rfl := Option.some.inj step
      obtain ⟨action, positive, whole⟩ := filled entry same
      refine .waits entry rfl whole positive action ?_ (logged.trans acknowledged.symm) (.inl quiet)
      rw [acknowledged]
    · exact absurd step.symm (Option.some_ne_none _)
  | waits request client | serves request _ client | answers request client | clears request client
  | served request client =>
    rw [client] at step
    exact absurd step.symm (Option.some_ne_none _)

theorem take (phase : SlotPhase reads log turn) (step : reads.take = some reads') : SlotPhase reads' log turn := by
  have answered : ∀ request, reads.client = .waiting request →
      if request.simuAction = .read then reads.qemuAction = .read else reads.slot.simuTime = 0 := by
    intro request client
    unfold ReadSlot.take at step
    rw [client] at step
    exact (Option.ite_none_right_eq_some.mp step).1
  have unanswered : ∀ request, reads.client = .waiting request → request.simuAction = .read →
      reads.qemuAction = .none → False := by
    intro request client read action
    have answered := answered request client
    rw [if_pos read, action] at answered
    exact SimAction.noConfusion answered
  have uncleared : ∀ request, reads.client = .waiting request → reads.slot.simuTime ≠ 0 →
      reads.qemuAction = .none → False := by
    intro request client time action
    by_cases read : request.simuAction = .read
    · exact unanswered request client read action
    · have answered := answered request client
      rw [if_neg read] at answered
      exact time answered
  cases phase with
  | closed client quiet time filled logged acknowledged =>
    unfold ReadSlot.take at step
    split at step
    · next request same => exact absurd same (client request)
    · exact absurd step.symm (Option.some_ne_none _)
  | waits request client slot time action => exact (uncleared request client (slot ▸ time) action).elim
  | serves request _ client time action => exact (uncleared request client time action).elim
  | answers request client read action => exact (unanswered request client read action).elim
  | clears request client read _ action => exact (unanswered request client read action).elim
  | served request client quiet time logged acknowledged =>
    unfold ReadSlot.take at step
    rw [client] at step
    obtain ⟨_, same⟩ := Option.ite_none_right_eq_some.mp step
    obtain rfl := Option.some.inj same
    refine .closed (fun _ => SlotClient.noConfusion) quiet time ?_ logged acknowledged
    exact fun _ => SlotClient.noConfusion

theorem dispatch {event : QemuArenaEvent} {readValue : UInt64} (phase : SlotPhase reads log (.polled event))
    (fromSlot : event.fromQueue = false) :
    SlotPhase reads (log ++ [event.entry]) (.dispatched event readValue) := by
  cases phase with
  | closed _ quiet | served _ _ quiet => simp [Turn.serving, fromSlot] at quiet
  | waits request client slot time action requested logged same =>
    obtain quiet | asked | same := same
    · simp [Turn.serving, fromSlot] at quiet
    · exact absurd asked Turn.noConfusion
    · obtain rfl := Turn.polled.inj same
      refine .serves request _ client (slot ▸ time) action requested ?_ rfl
      rw [logged, requested]
  | serves _ _ _ _ _ _ _ same | answers _ _ _ _ _ _ same | clears _ _ _ _ _ _ _ same =>
    exact absurd same Turn.noConfusion

/-- The request whose dispatch has just ended is in the slot. -/
theorem dispatched {event : QemuArenaEvent} {readValue : UInt64} (phase : SlotPhase reads log (.dispatched event readValue))
    (fromSlot : event.fromQueue = false) :
    ∃ request, event = ⟨request, false⟩ ∧ reads.client = .waiting request ∧ reads.qemuAction = .none ∧
      reads.requested = reads.acknowledged ++ [request] ∧ log = reads.requested := by
  cases phase with
  | closed _ quiet | served _ _ quiet => simp [Turn.serving, fromSlot] at quiet
  | waits _ _ _ _ _ _ _ same =>
    obtain quiet | same | same := same
    · simp [Turn.serving, fromSlot] at quiet
    · exact absurd same Turn.noConfusion
    · exact absurd same Turn.noConfusion
  | serves request _ client _ action requested logged same =>
    exact ⟨request, (Turn.dispatched.inj same).1, client, action, requested, logged⟩
  | answers _ _ _ _ _ _ same | clears _ _ _ _ _ _ _ same => exact absurd same Turn.noConfusion

theorem acknowledge {event : QemuArenaEvent} {readValue : UInt64}
    (phase : SlotPhase reads log (.dispatched event readValue)) (fromSlot : event.fromQueue = false) :
    SlotPhase { reads with
      slot := { reads.slot with simuTime := 0 }, acknowledged := reads.acknowledged ++ [event.entry] } log .idle := by
  obtain ⟨request, rfl, client, _, requested, logged⟩ := phase.dispatched fromSlot
  exact .served request client rfl rfl logged requested.symm

theorem answer {event : QemuArenaEvent} {readValue : UInt64} (phase : SlotPhase reads log (.dispatched event readValue))
    (fromSlot : event.fromQueue = false) (read : event.entry.simuAction = .read) :
    SlotPhase { reads with slot := { reads.slot with regData := readValue } } log (.answered event) := by
  obtain ⟨request, rfl, client, action, requested, logged⟩ := phase.dispatched fromSlot
  exact .answers request client read action requested logged rfl

theorem clear {event : QemuArenaEvent} (phase : SlotPhase reads log (.answered event)) :
    SlotPhase { reads with slot := { reads.slot with simuTime := 0 } } log (.cleared event) := by
  cases phase with
  | closed _ quiet | served _ _ quiet => exact absurd quiet Bool.noConfusion
  | waits _ _ _ _ _ _ _ same =>
    obtain quiet | same | same := same
    · exact absurd quiet Bool.noConfusion
    · exact absurd same Turn.noConfusion
    · exact absurd same Turn.noConfusion
  | answers request client read action requested logged same =>
    obtain rfl := Turn.answered.inj same
    exact .clears request client read rfl action requested logged rfl
  | serves _ _ _ _ _ _ _ same | clears _ _ _ _ _ _ _ same => exact absurd same Turn.noConfusion

theorem reply {event : QemuArenaEvent} (phase : SlotPhase reads log (.cleared event)) :
    SlotPhase { reads with qemuAction := .read, acknowledged := reads.acknowledged ++ [event.entry] } log .idle := by
  cases phase with
  | closed _ quiet | served _ _ quiet => exact absurd quiet Bool.noConfusion
  | waits _ _ _ _ _ _ _ same =>
    obtain quiet | same | same := same
    · exact absurd quiet Bool.noConfusion
    · exact absurd same Turn.noConfusion
    · exact absurd same Turn.noConfusion
  | clears request client _ time _ requested logged same =>
    obtain rfl := Turn.cleared.inj same
    exact .served request client rfl time logged requested.symm
  | serves _ _ _ _ _ _ _ same | answers _ _ _ _ _ _ same => exact absurd same Turn.noConfusion

/-- The Core looks at the slot. -/
theorem seen (phase : SlotPhase reads log .slot) :
    SlotPhase reads log (if reads.slot.simuTime = 0 then .idle else .asked) := by
  split
  · exact phase.quiet rfl rfl
  · next asked =>
    cases phase with
    | closed _ _ time | served _ _ _ time => exact absurd time asked
    | waits request client slot time action requested logged =>
      exact .waits request client slot time action requested logged (.inr (.inl rfl))
    | serves _ _ _ _ _ _ _ same | answers _ _ _ _ _ _ same | clears _ _ _ _ _ _ _ same =>
      exact absurd same Turn.noConfusion

theorem copy (phase : SlotPhase reads log .asked) : SlotPhase reads log (.polled ⟨reads.slot, false⟩) := by
  cases phase with
  | closed _ quiet | served _ _ quiet => exact absurd quiet Bool.noConfusion
  | waits request client slot time action requested logged =>
    refine .waits request client slot time action requested logged (.inr (.inr ?_))
    rw [slot]
  | serves _ _ _ _ _ _ _ same | answers _ _ _ _ _ _ same | clears _ _ _ _ _ _ _ same =>
    exact absurd same Turn.noConfusion

theorem defer {event : QemuArenaEvent} (phase : SlotPhase reads log (.polled event)) : SlotPhase reads log .idle := by
  cases phase with
  | closed client _ time filled logged acknowledged => exact .closed client rfl time filled logged acknowledged
  | waits request client slot time action requested logged =>
    exact .waits request client slot time action requested logged (.inl rfl)
  | served request client _ time logged acknowledged => exact .served request client rfl time logged acknowledged
  | serves _ _ _ _ _ _ _ same | answers _ _ _ _ _ _ same | clears _ _ _ _ _ _ _ same =>
    exact absurd same Turn.noConfusion

end SlotPhase

/-- The entries of one origin. -/
def entries (fromQueue : Bool) (log : List QemuArenaEvent) : List QueueEntry :=
  (log.filter fun event => event.fromQueue == fromQueue).map (·.entry)

theorem entries_append (log : List QemuArenaEvent) {event : QemuArenaEvent} {fromQueue : Bool}
    (origin : event.fromQueue = fromQueue) :
    entries fromQueue (log ++ [event]) = entries fromQueue log ++ [event.entry] := by
  simp [entries, origin]

theorem entries_append_other (log : List QemuArenaEvent) {event : QemuArenaEvent} {fromQueue : Bool}
    (origin : event.fromQueue ≠ fromQueue) : entries fromQueue (log ++ [event]) = entries fromQueue log := by
  simp [entries, origin]

namespace ArenaState

variable {Modules : Type*} (chip : Chip Modules) (originNs : Nat)

/-- The entries of the queue that were dispatched. -/
def queueLog (s : ArenaState Modules) : List QueueEntry := entries true s.log

/-- The requests of the slot that were dispatched. -/
def slotLog (s : ArenaState Modules) : List QueueEntry := entries false s.log

/-- The entries that QEMU published and the Core has not acknowledged. -/
def pending (s : ArenaState Modules) : List QueueEntry := Spsc.pending queueDepth s.ring

/-- The entries that wait for their dispatch. -/
def undispatched (s : ArenaState Modules) : List QueueEntry :=
  match s.turn with
  | .dispatched event _ => if event.fromQueue then s.pending.tail else s.pending
  | _ => s.pending

/-- The modules after a sequence of dispatches. -/
def replay (modules : Modules) (log : List QemuArenaEvent) : Modules :=
  log.foldl (fun modules event => (dispatchEvent chip originNs modules event).1) modules

structure Invariant (start : Modules) (s : ArenaState Modules) : Prop where
  counted : ∃ read count, Spsc.Counted queueDepth s.ring read count
  consumer : s.ring.consumer = s.turn.consumer s.ring.readSeq
  queue : s.queueLog ++ s.undispatched = s.published
  slot : SlotPhase s.reads s.slotLog s.turn
  modules : s.modules = replay chip originNs start s.log

variable {chip originNs} {start : Modules} {s t : ArenaState Modules}

theorem Invariant.pending_ne_nil (invariant : Invariant chip originNs start s) {event : QemuArenaEvent}
    {readValue : UInt64} (turn : s.turn = .dispatched event readValue) (fromQueue : event.fromQueue = true) :
    s.pending ≠ [] := by
  obtain ⟨read, count, counted⟩ := invariant.counted
  have copied : s.ring.consumer = .copied s.ring.readSeq event.entry := by
    rw [invariant.consumer, turn]
    exact if_pos fromQueue
  have head := counted.head copied
  rw [← counted.pending] at head
  intro none
  rw [pending] at none
  rw [none] at head
  exact absurd head.symm (Option.some_ne_none _)

/-- QEMU works on the ring. -/
theorem Invariant.produce (invariant : Invariant chip originNs start s) {ring : Spsc.State QueueEntry}
    {label : Spsc.Label QueueEntry} (step : Spsc.Step queueDepth (fun _ => True) s.ring label ring)
    (consumer : ring.consumer = s.ring.consumer) (readSeq : ring.readSeq = s.ring.readSeq)
    (unread : Spsc.consumed [label] = []) :
    Invariant chip originNs start { s with ring, published := s.published ++ Spsc.published [label] } := by
  obtain ⟨read, count, counted⟩ := invariant.counted
  obtain ⟨read', count', counted', moved⟩ := step.pending counted
  rw [unread, List.nil_append] at moved
  refine ⟨⟨read', count', counted'⟩, ?_, ?_, invariant.slot, invariant.modules⟩
  · rw [consumer, readSeq]
    exact invariant.consumer
  · have grows :
        ({ s with ring, published := s.published ++ Spsc.published [label] } : ArenaState Modules).undispatched =
          s.undispatched ++ Spsc.published [label] := by
      have nonempty : ∀ event readValue, s.turn = .dispatched event readValue → event.fromQueue = true →
          s.pending ≠ [] := fun _ _ => invariant.pending_ne_nil
      unfold undispatched pending at *
      dsimp only
      rw [← moved]
      split
      · next event readValue turn =>
        split
        · next fromQueue => exact List.tail_append_of_ne_nil (nonempty event readValue turn fromQueue)
        · rfl
      · rfl
    rw [grows, ← List.append_assoc]
    exact congrArg (· ++ Spsc.published [label]) invariant.queue

theorem Invariant.withReads (invariant : Invariant chip originNs start s) {reads : ReadSlot}
    (phase : SlotPhase reads s.slotLog s.turn) : Invariant chip originNs start (s.withReads reads) :=
  ⟨invariant.counted, invariant.consumer, invariant.queue, phase, invariant.modules⟩

theorem undispatched_eq (quiet : ∀ event readValue, s.turn = .dispatched event readValue → event.fromQueue = false) :
    s.undispatched = s.pending := by
  unfold undispatched
  split
  · next event readValue turn => rw [if_neg (quiet event readValue turn ▸ Bool.false_ne_true)]
  · rfl

/-- The Core moves on in its turn and takes nothing out of the ring. -/
theorem Invariant.look (invariant : Invariant chip originNs start s) {ring : Spsc.State QueueEntry} {turn : Turn}
    {reads : ReadSlot} (counted : ∃ read count, Spsc.Counted queueDepth ring read count)
    (pending : Spsc.pending queueDepth ring = s.pending) (consumer : ring.consumer = turn.consumer ring.readSeq)
    (before : ∀ event readValue, s.turn = .dispatched event readValue → event.fromQueue = false)
    (after : ∀ event readValue, turn = .dispatched event readValue → event.fromQueue = false)
    (phase : SlotPhase reads s.slotLog turn) : Invariant chip originNs start { s with ring, turn, reads } := by
  refine ⟨counted, consumer, ?_, phase, invariant.modules⟩
  rw [undispatched_eq after]
  show s.queueLog ++ Spsc.pending queueDepth ring = s.published
  rw [pending, ← undispatched_eq before]
  exact invariant.queue

theorem Invariant.dispatch (invariant : Invariant chip originNs start s) {event : QemuArenaEvent}
    (turn : s.turn = .polled event) :
    Invariant chip originNs start
      { s with
        modules := (dispatchEvent chip originNs s.modules event).1
        log := s.log ++ [event]
        turn := .dispatched event (dispatchEvent chip originNs s.modules event).2 } := by
  obtain ⟨read, count, counted⟩ := invariant.counted
  have consumer := invariant.consumer
  have before : s.undispatched = s.pending := by
    unfold undispatched
    rw [turn]
  have queue := invariant.queue
  rw [before] at queue
  rw [turn] at consumer
  have phase := invariant.slot
  rw [turn] at phase
  refine ⟨⟨read, count, counted⟩, consumer, ?_, ?_, ?_⟩
  · unfold queueLog undispatched at *
    dsimp only at *
    cases fromQueue : event.fromQueue with
    | false =>
      rw [entries_append_other _ (fromQueue ▸ Bool.false_ne_true)]
      exact queue
    | true =>
      have copied : s.ring.consumer = .copied s.ring.readSeq event.entry := consumer.trans (if_pos fromQueue)
      have head := counted.head copied
      rw [← counted.pending] at head
      have split : s.pending = event.entry :: s.pending.tail := (List.cons_head?_tail head).symm
      rw [entries_append _ fromQueue, List.append_assoc]
      show _ ++ event.entry :: s.pending.tail = _
      rw [← split]
      exact queue
  · unfold slotLog at *
    dsimp only
    cases fromQueue : event.fromQueue with
    | false =>
      rw [entries_append _ fromQueue]
      exact phase.dispatch fromQueue
    | true =>
      rw [entries_append_other _ (by simp [fromQueue])]
      exact phase.quiet (by simp [Turn.serving, fromQueue]) (by simp [Turn.serving, fromQueue])
  · rw [invariant.modules]
    unfold replay
    rw [List.foldl_append]
    rfl

theorem Invariant.acknowledgeWrite (invariant : Invariant chip originNs start s) {event : QemuArenaEvent}
    {readValue : UInt64} (turn : s.turn = .dispatched event readValue) (fromQueue : event.fromQueue = true) :
    Invariant chip originNs start s.acknowledgeWrite := by
  obtain ⟨read, count, counted⟩ := invariant.counted
  have nonempty := invariant.pending_ne_nil turn fromQueue
  have copied : s.ring.consumer = .copied s.ring.readSeq event.entry := by
    rw [invariant.consumer, turn]
    exact if_pos fromQueue
  have unread : s.ring.readSeq ≠ s.ring.writeSeq := fun same => nonempty (counted.pending_eq_nil.mpr same)
  have acknowledges : s.acknowledgeWrite =
      { s with ring := { s.ring with readSeq := s.ring.readSeq + 1, consumer := .idle }, turn := .idle } := by
    unfold ArenaState.acknowledgeWrite
    rw [if_neg unread]
  have step : Spsc.Step queueDepth (fun _ => True) s.ring (.consume event.entry) _ := .consume copied
  obtain ⟨read', count', counted', moved⟩ := step.pending counted
  have rest : s.pending = event.entry :: Spsc.pending queueDepth s.acknowledgeWrite.ring := by
    rw [acknowledges]
    simpa [Spsc.published, Spsc.consumed, pending] using moved
  have queue := invariant.queue
  unfold undispatched at queue
  rw [turn] at queue
  dsimp only at queue
  rw [if_pos fromQueue, rest, List.tail_cons] at queue
  rw [acknowledges] at queue ⊢
  refine ⟨⟨read', count', counted'⟩, rfl, queue, ?_, invariant.modules⟩
  have phase := invariant.slot
  rw [turn] at phase
  exact phase.quiet (by simp [Turn.serving, fromQueue]) rfl

/-- The Core moves on in the ring. -/
theorem Invariant.lookRing (invariant : Invariant chip originNs start s) {ring : Spsc.State QueueEntry} {turn : Turn}
    {label : Spsc.Label QueueEntry} (step : Spsc.Step queueDepth (fun _ => True) s.ring label ring)
    (unpublished : Spsc.published [label] = []) (unread : Spsc.consumed [label] = [])
    (consumer : ring.consumer = turn.consumer ring.readSeq)
    (before : ∀ event readValue, s.turn ≠ .dispatched event readValue)
    (after : ∀ event readValue, turn ≠ .dispatched event readValue) (phase : SlotPhase s.reads s.slotLog turn) :
    Invariant chip originNs start { s with ring, turn } := by
  obtain ⟨read, count, counted⟩ := invariant.counted
  obtain ⟨read', count', counted', moved⟩ := step.pending counted
  refine invariant.look ⟨read', count', counted'⟩ ?_ consumer (fun _ _ same => absurd same (before _ _))
    (fun _ _ same => absurd same (after _ _)) phase
  rw [unpublished, unread, List.append_nil, List.nil_append] at moved
  exact moved.symm

/-- The Core moves on with the slot. -/
theorem Invariant.lookSlot (invariant : Invariant chip originNs start s) {turn : Turn} {reads : ReadSlot}
    (idle : s.turn.consumer s.ring.readSeq = .idle) (still : turn.consumer s.ring.readSeq = .idle)
    (after : ∀ event readValue, turn ≠ .dispatched event readValue) (phase : SlotPhase reads s.slotLog turn) :
    Invariant chip originNs start { s with turn, reads } := by
  refine invariant.look invariant.counted rfl (invariant.consumer.trans (idle.trans still.symm)) ?_
    (fun _ _ same => absurd same (after _ _)) phase
  intro event readValue turn
  rw [turn] at idle
  unfold Turn.consumer at idle
  cases fromQueue : event.fromQueue with
  | false => rfl
  | true =>
    dsimp only at idle
    rw [if_pos fromQueue] at idle
    cases idle

theorem Invariant.coreStep (invariant : Invariant chip originNs start s) (nowNs : Nat) :
    Invariant chip originNs start (s.coreStep chip originNs nowNs) := by
  have phase := invariant.slot
  have consumer := invariant.consumer
  have counted := invariant.counted
  unfold ArenaState.coreStep
  cases turn : s.turn with
  | idle =>
    rw [turn] at phase consumer
    dsimp only
    split
    · exact invariant.lookSlot (by rw [turn]; rfl) rfl (fun _ _ => Turn.noConfusion) (phase.quiet rfl rfl)
    · next pending =>
      refine invariant.lookRing (.load consumer pending) rfl rfl rfl ?_ (fun _ _ => Turn.noConfusion) ?_
      · exact fun _ _ same => absurd (turn.symm.trans same) Turn.noConfusion
      · exact phase.quiet rfl rfl
  | head =>
    rw [turn] at phase consumer
    dsimp only
    split
    · exact invariant
    · next entry here =>
      refine invariant.lookRing (.copy consumer here) rfl rfl rfl ?_ (fun _ _ => Turn.noConfusion) (phase.quiet rfl rfl)
      exact fun _ _ same => absurd (turn.symm.trans same) Turn.noConfusion
  | slot =>
    rw [turn] at phase
    refine invariant.lookSlot (by rw [turn]; rfl) ?_ ?_ phase.seen
    · split <;> rfl
    · split <;> exact fun _ _ => Turn.noConfusion
  | asked =>
    rw [turn] at phase
    exact invariant.lookSlot (by rw [turn]; rfl) rfl (fun _ _ => Turn.noConfusion) phase.copy
  | polled event =>
    dsimp only
    split
    · rw [turn] at phase consumer
      have before : ∀ event readValue, s.turn ≠ .dispatched event readValue :=
        fun _ _ same => absurd (turn.symm.trans same) Turn.noConfusion
      cases fromQueue : event.fromQueue with
      | true =>
        have copied : s.ring.consumer = .copied s.ring.readSeq event.entry := consumer.trans (if_pos fromQueue)
        exact invariant.lookRing (.peek copied) rfl rfl rfl before (fun _ _ => Turn.noConfusion) phase.defer
      | false =>
        have idle : s.ring.consumer = .idle := consumer.trans (if_neg (fromQueue ▸ Bool.false_ne_true))
        have same : ({ s.ring with consumer := .idle } : Spsc.State QueueEntry) = s.ring := by rw [← idle]
        rw [same]
        refine invariant.lookSlot ?_ rfl (fun _ _ => Turn.noConfusion) phase.defer
        rw [← invariant.consumer, idle]
    · exact invariant.dispatch turn
  | dispatched event readValue =>
    rw [turn] at phase
    dsimp only
    split
    · next fromQueue => exact invariant.acknowledgeWrite turn fromQueue
    · next fromSlot =>
      have fromSlot : event.fromQueue = false := by simpa using fromSlot
      have idle : s.turn.consumer s.ring.readSeq = .idle := by
        rw [turn]
        exact if_neg (fromSlot ▸ Bool.false_ne_true)
      split
      · next read => exact invariant.lookSlot idle rfl (fun _ _ => Turn.noConfusion) (phase.answer fromSlot read)
      · exact invariant.lookSlot idle rfl (fun _ _ => Turn.noConfusion) (phase.acknowledge fromSlot)
  | answered event =>
    rw [turn] at phase
    exact invariant.lookSlot (by rw [turn]; rfl) rfl (fun _ _ => Turn.noConfusion) phase.clear
  | cleared event =>
    rw [turn] at phase
    exact invariant.lookSlot (by rw [turn]; rfl) rfl (fun _ _ => Turn.noConfusion) phase.reply

/-- QEMU works on the ring, and publishes what the label says. -/
structure Produces (s : ArenaState Modules) (ring : Spsc.State QueueEntry) (label : Spsc.Label QueueEntry) : Prop where
  step : Spsc.Step queueDepth (fun _ => True) s.ring label ring
  consumer : ring.consumer = s.ring.consumer
  readSeq : ring.readSeq = s.ring.readSeq
  unread : Spsc.consumed [label] = []

/-- A step of QEMU works on the ring or on the slot. -/
theorem step_cases {action : ArenaStep} (step : s.step chip originNs action = some t) (qemu : action.isCore = false) :
    (∃ ring label, s.Produces ring label ∧ (action ≠ .publish → Spsc.published [label] = []) ∧
      t = { s with ring, published := s.published ++ Spsc.published [label] }) ∨
    ∃ reads, t = s.withReads reads ∧
      ((∃ entry, s.reads.request entry = some reads) ∨ s.reads.ask = some reads ∨ s.reads.take = some reads) := by
  have quiet : ∀ ring, s.withRing ring =
      { s with ring, published := s.published ++ Spsc.published [Spsc.Label.quiet] } := by
    intro ring
    rw [show Spsc.published [Spsc.Label.quiet] = ([] : List QueueEntry) from rfl, List.append_nil]
    rfl
  cases action with
  | core => exact absurd qemu Bool.noConfusion
  | begin entry =>
    obtain ⟨⟨idle, room⟩, same⟩ := Option.ite_none_right_eq_some.mp step
    obtain rfl := Option.some.inj same
    exact .inl ⟨_, _, ⟨@Spsc.Step.begin _ _ _ _ (fun _ => entry) idle room trivial, rfl, rfl, rfl⟩, fun _ => rfl, quiet _⟩
  | scrawl | fill | publish =>
    unfold ArenaState.step at step
    dsimp only at step
    split at step
    · next write entry producer =>
      obtain rfl := Option.some.inj step
      first
        | exact .inl ⟨_, _, ⟨.scrawl _ producer, rfl, rfl, rfl⟩, fun _ => rfl, quiet _⟩
        | exact .inl ⟨_, _, ⟨.fill producer, rfl, rfl, rfl⟩, fun _ => rfl, quiet _⟩
        | exact .inl ⟨_, _, ⟨.publish producer, rfl, rfl, rfl⟩, absurd rfl, rfl⟩
    · exact absurd step.symm (Option.some_ne_none _)
  | request entry =>
    obtain ⟨reads, requested, rfl⟩ := Option.map_eq_some_iff.mp step
    exact .inr ⟨reads, rfl, .inl ⟨entry, requested⟩⟩
  | ask =>
    obtain ⟨reads, asked, rfl⟩ := Option.map_eq_some_iff.mp step
    exact .inr ⟨reads, rfl, .inr (.inl asked)⟩
  | take =>
    obtain ⟨reads, taken, rfl⟩ := Option.map_eq_some_iff.mp step
    exact .inr ⟨reads, rfl, .inr (.inr taken)⟩

theorem Invariant.step (invariant : Invariant chip originNs start s) {action : ArenaStep}
    (step : s.step chip originNs action = some t) : Invariant chip originNs start t := by
  cases isCore : action.isCore with
  | true =>
    cases action with
    | core nowNs =>
      obtain rfl := Option.some.inj step
      exact invariant.coreStep nowNs
    | _ => exact absurd isCore Bool.noConfusion
  | false =>
    obtain ⟨ring, label, produces, _, rfl⟩ | ⟨reads, rfl, ⟨entry, requested⟩ | asked | taken⟩ := step_cases step isCore
    · exact invariant.produce produces.step produces.consumer produces.readSeq produces.unread
    · exact invariant.withReads (invariant.slot.request requested)
    · exact invariant.withReads (invariant.slot.ask asked)
    · exact invariant.withReads (invariant.slot.take taken)

section

variable (chip originNs)

/-- A step of QEMU or of the Core. -/
def Steps (s : ArenaState Modules) (action : ArenaStep) (t : ArenaState Modules) : Prop :=
  s.step chip originNs action = some t

/-- The arena is opened zeroed. -/
def initial (modules : Modules) : ArenaState Modules :=
  let zero : QueueEntry := ⟨0, 0, .none, 0⟩
  { ring := { cells := List.replicate 32 zero, writeSeq := 0, readSeq := 0 }, reads := { slot := zero }, modules }

/-- What was dispatched is what QEMU published, in order, and then what it asked, and nothing is acknowledged before
its dispatch. -/
structure Lossless (start : Modules) (s : ArenaState Modules) : Prop where
  queue : s.queueLog ++ s.undispatched = s.published
  unacknowledged : s.undispatched <:+ s.pending ∧ s.pending.length ≤ s.undispatched.length + 1
  slot : s.reads.acknowledged <+: s.slotLog ∧ s.slotLog <+: s.reads.requested ∧
    s.reads.requested.length ≤ s.reads.acknowledged.length + 1
  served : (∀ request, s.reads.client ≠ .waiting request) → s.reads.acknowledged = s.reads.requested
  modules : s.modules = replay chip originNs start s.log

/-- The times at which the Core moves. -/
def coreTimes (labels : List ArenaStep) : List Nat := labels.filterMap fun | .core nowNs => some nowNs | _ => none

end

theorem initial_invariant (modules : Modules) : Invariant chip originNs modules (initial modules) := by
  have empty : Spsc.Empty queueDepth (initial modules).ring := ⟨List.length_replicate, rfl, rfl, rfl⟩
  refine ⟨⟨0, 0, empty.counted⟩, rfl, ?_, ?_, rfl⟩
  · exact empty.counted.pending_eq_nil.mpr rfl
  · exact .closed (fun _ => SlotClient.noConfusion) rfl rfl (fun _ => SlotClient.noConfusion) rfl rfl

theorem Invariant.lossless (invariant : Invariant chip originNs start s) : Lossless chip originNs start s := by
  refine ⟨invariant.queue, ?_, ?_, ?_, invariant.modules⟩
  · unfold undispatched
    split
    · split
      · exact ⟨List.tail_suffix _, by rw [List.length_tail]; omega⟩
      · exact ⟨List.suffix_refl _, Nat.le_succ _⟩
    · exact ⟨List.suffix_refl _, Nat.le_succ _⟩
  · cases invariant.slot with
    | closed _ _ _ _ logged acknowledged | served _ _ _ _ logged acknowledged =>
      rw [logged, acknowledged]
      exact ⟨List.prefix_refl _, List.prefix_refl _, Nat.le_succ _⟩
    | waits request _ _ _ _ requested logged =>
      rw [logged, requested]
      exact ⟨List.prefix_refl _, List.prefix_append _ _, List.length_append.le⟩
    | serves request _ _ _ _ requested logged | answers request _ _ _ requested logged
    | clears request _ _ _ _ requested logged =>
      rw [logged, requested]
      exact ⟨List.prefix_append _ _, List.prefix_refl _, List.length_append.le⟩
  · intro client
    cases invariant.slot with
    | closed _ _ _ _ _ acknowledged => exact acknowledged
    | waits request same | serves request _ same | answers request same | clears request same | served request same =>
      exact absurd same (client request)

/-- Where the steps of QEMU keep `P k` and those of the Core lead from `P k` to `P (k + 1)`, a run leads to `P k` for
the number of its steps of the Core. -/
theorem run_cores (P : Nat → ArenaState Modules → Prop) (allowed : ArenaStep → Prop) (nowNs n : Nat)
    {labels : List ArenaStep}
    (quiet : ∀ k u action v, action.isCore = false → allowed action → P k u → Steps chip originNs u action v → P k v)
    (core : ∀ k u, k < n → P k u → P (k + 1) (u.coreStep chip originNs nowNs))
    (run : Run (Steps chip originNs) s labels t) (begins : P 0 s) (all : ∀ action ∈ labels, allowed action)
    (times : ∀ atNs ∈ coreTimes labels, atNs = nowNs) (count : (coreTimes labels).length ≤ n) :
    P (coreTimes labels).length t := by
  induction run with
  | start => exact begins
  | @next t u labels action _ last ih =>
    have split : coreTimes (labels ++ [action]) = coreTimes labels ++ coreTimes [action] := List.filterMap_append
    rw [split, List.length_append] at count
    rw [split] at times
    have before : P (coreTimes labels).length t :=
      ih (fun action member => all action (List.mem_append_left _ member))
        (fun atNs member => times atNs (List.mem_append_left _ member)) (Nat.le_of_add_right_le count)
    rw [split, List.length_append]
    cases isCore : action.isCore with
    | false =>
      have none : coreTimes [action] = [] := by
        cases action <;> first | rfl | exact absurd isCore Bool.noConfusion
      rw [none]
      exact quiet _ _ action _ isCore (all action (List.mem_append_right _ List.mem_cons_self)) before last
    | true =>
      cases action with
      | core atNs =>
        obtain rfl : atNs = nowNs := times atNs (List.mem_append_right _ List.mem_cons_self)
        obtain rfl := Option.some.inj last
        exact core _ _ count before
      | _ => exact absurd isCore Bool.noConfusion

/-! ### A turn serves what is due -/

/-- QEMU leaves the turn of the Core and what it has done, and only adds to the ring. -/
theorem step_qemu {action : ArenaStep} (step : Steps chip originNs s action t) (qemu : action.isCore = false) :
    t.turn = s.turn ∧ t.log = s.log ∧ t.reads.acknowledged = s.reads.acknowledged ∧ s.published <+: t.published := by
  obtain ⟨ring, label, _, _, rfl⟩ | ⟨reads, rfl, ⟨entry, same⟩ | same | same⟩ := step_cases step qemu
  · exact ⟨rfl, rfl, rfl, List.prefix_append _ _⟩
  · obtain ⟨_, same⟩ := Option.ite_none_right_eq_some.mp same
    obtain rfl := Option.some.inj same
    exact ⟨rfl, rfl, rfl, List.prefix_refl _⟩
  · unfold ReadSlot.ask at same
    split at same
    · obtain rfl := Option.some.inj same
      exact ⟨rfl, rfl, rfl, List.prefix_refl _⟩
    · exact absurd same.symm (Option.some_ne_none _)
  · unfold ReadSlot.take at same
    split at same
    · obtain ⟨_, same⟩ := Option.ite_none_right_eq_some.mp same
      obtain rfl := Option.some.inj same
      exact ⟨rfl, rfl, rfl, List.prefix_refl _⟩
    · exact absurd same.symm (Option.some_ne_none _)

/-- The turn that serves the entry at the head of the queue, after `k` steps of the Core. -/
def HeadTurn (s : ArenaState Modules) (head : QueueEntry) : Nat → ArenaState Modules → Prop
  | 0, u => u.turn = .idle ∧ u.log = s.log
  | 1, u => u.turn = .head ∧ u.log = s.log
  | 2, u => u.turn = .polled ⟨head, true⟩ ∧ u.log = s.log
  | 3, u => (∃ readValue, u.turn = .dispatched ⟨head, true⟩ readValue) ∧ u.log = s.log ++ [⟨head, true⟩]
  | _, u => u.turn = .idle ∧ u.log = s.log ++ [⟨head, true⟩]

theorem HeadTurn.of_eq {head : QueueEntry} {k : Nat} {u v : ArenaState Modules} (stage : HeadTurn s head k u)
    (turn : v.turn = u.turn) (log : v.log = u.log) : HeadTurn s head k v := by
  unfold HeadTurn at *
  split at stage <;> rw [turn, log] <;> exact stage

/-- The head of the queue stays while it is not dispatched. -/
theorem Invariant.pending_head (invariant : Invariant chip originNs start s) {u : ArenaState Modules}
    (later : Invariant chip originNs start u) {head : QueueEntry} {rest : List QueueEntry}
    (queue : s.undispatched = head :: rest) (published : s.published <+: u.published) (log : u.log = s.log)
    (quiet : ∀ event readValue, u.turn ≠ .dispatched event readValue) : u.pending.head? = some head := by
  have before := invariant.queue
  have after := later.queue
  rw [undispatched_eq fun _ _ same => absurd same (quiet _ _)] at after
  obtain ⟨new, published⟩ := published
  have same : u.queueLog = s.queueLog := congrArg (entries true) log
  rw [← published, ← before, queue, same, List.append_assoc] at after
  rw [List.append_cancel_left after]
  rfl

theorem coreStep_published (s : ArenaState Modules) (nowNs : Nat) :
    (s.coreStep chip originNs nowNs).published = s.published := by
  unfold ArenaState.coreStep
  split <;> first | rfl | (split <;> first | rfl | (split <;> rfl))

theorem HeadTurn.core {head : QueueEntry} {rest : List QueueEntry} {nowNs k : Nat} {u : ArenaState Modules}
    (invariant : Invariant chip originNs start s) (queue : s.undispatched = head :: rest)
    (due : qemuEventTimeNs originNs head.simuTime ≤ nowNs) (lt : k < 4) (later : Invariant chip originNs start u)
    (published : s.published <+: u.published) (stage : HeadTurn s head k u) :
    HeadTurn s head (k + 1) (u.coreStep chip originNs nowNs) := by
  have front : u.log = s.log → (∀ event readValue, u.turn ≠ .dispatched event readValue) →
      u.pending.head? = some head := invariant.pending_head later queue published
  obtain ⟨read, count, counted⟩ := later.counted
  match k, lt with
  | 0, _ =>
    obtain ⟨turn, log⟩ := stage
    have front := front log fun _ _ same => absurd (turn.symm.trans same) Turn.noConfusion
    have unread : u.ring.readSeq ≠ u.ring.writeSeq := by
      intro same
      rw [pending, counted.pending_eq_nil.mpr same] at front
      exact absurd front.symm (Option.some_ne_none _)
    unfold ArenaState.coreStep
    rw [turn]
    dsimp only
    rw [if_neg unread]
    exact ⟨rfl, log⟩
  | 1, _ =>
    obtain ⟨turn, log⟩ := stage
    have front := front log fun _ _ same => absurd (turn.symm.trans same) Turn.noConfusion
    have inside : Spsc.slot queueDepth.val u.ring.readSeq < u.ring.cells.length :=
      counted.size ▸ Spsc.slot_lt queueDepth u.ring.readSeq
    have here := List.getElem?_eq_getElem inside
    have filled : Spsc.pending queueDepth u.ring ≠ [] := by
      intro none
      rw [pending, none] at front
      exact absurd front.symm (Option.some_ne_none _)
    have same : u.ring.cells[Spsc.slot queueDepth.val u.ring.readSeq] = head :=
      Option.some.inj ((counted.cell filled here).symm.trans front)
    rw [same] at here
    unfold ArenaState.coreStep
    rw [turn]
    dsimp only
    rw [here]
    exact ⟨rfl, log⟩
  | 2, _ =>
    obtain ⟨turn, log⟩ := stage
    unfold ArenaState.coreStep
    rw [turn]
    dsimp only
    rw [if_neg (Nat.not_lt_of_le due), log]
    exact ⟨⟨_, rfl⟩, rfl⟩
  | 3, _ =>
    obtain ⟨⟨readValue, turn⟩, log⟩ := stage
    unfold ArenaState.coreStep
    rw [turn]
    exact ⟨rfl, log⟩

/-- A turn of the Core dispatches and acknowledges the entry at the head of the queue, once its time has come. -/
theorem Invariant.headTurn {labels : List ArenaStep} {head : QueueEntry} {rest : List QueueEntry} {nowNs : Nat}
    (invariant : Invariant chip originNs start s) (idle : s.turn = .idle) (queue : s.undispatched = head :: rest)
    (due : qemuEventTimeNs originNs head.simuTime ≤ nowNs) (run : Run (Steps chip originNs) s labels t)
    (times : coreTimes labels = List.replicate 4 nowNs) : t.turn = .idle ∧ t.log = s.log ++ [⟨head, true⟩] := by
  have after : Invariant chip originNs start t ∧ s.published <+: t.published ∧
      HeadTurn s head (coreTimes labels).length t := by
    refine run_cores (fun k u => Invariant chip originNs start u ∧ s.published <+: u.published ∧ HeadTurn s head k u)
      (fun _ => True) nowNs 4 ?_ ?_ run ⟨invariant, List.prefix_refl _, idle, rfl⟩ (fun _ _ => trivial) ?_ ?_
    · intro k u action v qemu _ holds step
      obtain ⟨later, published, stage⟩ := holds
      obtain ⟨turn, log, _, more⟩ := step_qemu step qemu
      exact ⟨later.step step, published.trans more, stage.of_eq turn log⟩
    · intro k u lt holds
      obtain ⟨later, published, stage⟩ := holds
      refine ⟨later.coreStep nowNs, ?_, stage.core invariant queue due lt later published⟩
      rw [coreStep_published]
      exact published
    · intro atNs member
      rw [times] at member
      exact List.eq_of_mem_replicate member
    · rw [times, List.length_replicate]
  rw [times, List.length_replicate] at after
  exact after.2.2

/-- QEMU waits for a request that the Core has not acknowledged. -/
def Asked (s : ArenaState Modules) (request : QueueEntry) : Prop :=
  s.reads.client = .waiting request ∧ s.reads.requested = s.reads.acknowledged ++ [request]

/-- While its request is not acknowledged, QEMU leaves the slot. -/
theorem Invariant.asked_step (invariant : Invariant chip originNs start s) {action : ArenaStep} {request : QueueEntry}
    (asked : s.Asked request) (qemu : action.isCore = false) (step : Steps chip originNs s action t) :
    t.reads = s.reads := by
  obtain ⟨client, requested⟩ := asked
  obtain ⟨ring, label, _, _, rfl⟩ | ⟨reads, rfl, ⟨entry, same⟩ | same | same⟩ := step_cases step qemu
  · rfl
  · obtain ⟨⟨idle, _⟩, _⟩ := Option.ite_none_right_eq_some.mp same
    exact absurd (idle.symm.trans client) SlotClient.noConfusion
  · unfold ReadSlot.ask at same
    rw [client] at same
    exact absurd same.symm (Option.some_ne_none _)
  · have phase := invariant.slot.take same
    unfold ReadSlot.take at same
    rw [client] at same
    obtain ⟨_, same⟩ := Option.ite_none_right_eq_some.mp same
    obtain rfl := Option.some.inj same
    cases phase with
    | closed _ _ _ _ _ acknowledged =>
      rw [requested] at acknowledged
      exact absurd (List.self_eq_append_right.mp acknowledged) (List.cons_ne_nil _ _)
    | waits _ client | serves _ _ client | answers _ client | clears _ client | served _ client =>
      exact absurd client SlotClient.noConfusion

/-- A request that waits for its dispatch is in the slot. -/
theorem Invariant.slot_eq (invariant : Invariant chip originNs start s) {request : QueueEntry}
    (asked : s.Asked request) (undone : s.slotLog = s.reads.acknowledged) :
    s.reads.slot = request ∧ request.simuTime ≠ 0 := by
  obtain ⟨client, requested⟩ := asked
  have open' : s.slotLog ≠ s.reads.requested := by
    rw [undone, requested]
    exact fun same => absurd (List.self_eq_append_right.mp same) (List.cons_ne_nil _ _)
  cases invariant.slot with
  | closed idle => exact absurd client (idle request)
  | waits request' client' slot time =>
    obtain rfl := SlotClient.waiting.inj (client.symm.trans client')
    exact ⟨slot, time⟩
  | serves _ _ _ _ _ _ logged | answers _ _ _ _ _ logged | clears _ _ _ _ _ _ logged | served _ _ _ _ logged =>
    exact absurd logged open'

/-- How many steps of the Core serve a request. -/
def turnLength (request : QueueEntry) : Nat := if request.simuAction = .read then 7 else 5

/-- The turn that serves the request in the slot, after `k` steps of the Core. -/
def SlotTurn (s : ArenaState Modules) (request : QueueEntry) (k : Nat) (u : ArenaState Modules) : Prop :=
  if k = turnLength request then
    u.turn = .idle ∧ u.log = s.log ++ [⟨request, false⟩] ∧ u.reads.acknowledged = s.reads.acknowledged ++ [request]
  else
    u.Asked request ∧ u.reads.acknowledged = s.reads.acknowledged ∧
      match k with
      | 0 => u.turn = .idle ∧ u.log = s.log
      | 1 => u.turn = .slot ∧ u.log = s.log
      | 2 => u.turn = .asked ∧ u.log = s.log
      | 3 => u.turn = .polled ⟨request, false⟩ ∧ u.log = s.log
      | 4 => (∃ readValue, u.turn = .dispatched ⟨request, false⟩ readValue) ∧ u.log = s.log ++ [⟨request, false⟩]
      | 5 => u.turn = .answered ⟨request, false⟩ ∧ u.log = s.log ++ [⟨request, false⟩]
      | _ => u.turn = .cleared ⟨request, false⟩ ∧ u.log = s.log ++ [⟨request, false⟩]

theorem SlotTurn.step {request : QueueEntry} {k : Nat} {u v : ArenaState Modules} {action : ArenaStep}
    (invariant : Invariant chip originNs start u) (stage : SlotTurn s request k u) (qemu : action.isCore = false)
    (step : Steps chip originNs u action v) : SlotTurn s request k v := by
  obtain ⟨turn, log, acknowledged, _⟩ := step_qemu step qemu
  unfold SlotTurn at *
  split at stage
  · next last =>
    rw [if_pos last, turn, log, acknowledged]
    exact stage
  · next more =>
    have reads := invariant.asked_step stage.1 qemu step
    rw [if_neg more]
    unfold Asked
    rw [reads, turn, log]
    exact stage

theorem SlotTurn.core {request : QueueEntry} {k nowNs : Nat} {u : ArenaState Modules}
    (quiet : s.slotLog = s.reads.acknowledged) (due : qemuEventTimeNs originNs request.simuTime ≤ nowNs)
    (lt : k < turnLength request) (later : Invariant chip originNs start u)
    (empty : u.turn = .idle → u.log = s.log → u.pending = []) (stage : SlotTurn s request k u) :
    SlotTurn s request (k + 1) (u.coreStep chip originNs nowNs) := by
  unfold SlotTurn at stage
  rw [if_neg (Nat.ne_of_lt lt)] at stage
  obtain ⟨asked, acknowledged, stage⟩ := stage
  obtain ⟨read, count, counted⟩ := later.counted
  have waits : u.log = s.log → u.reads.slot = request ∧ request.simuTime ≠ 0 := by
    intro log
    refine later.slot_eq asked ?_
    rw [acknowledged, ← quiet]
    exact congrArg (entries false) log
  have five : 5 ≤ turnLength request := by
    unfold turnLength
    split <;> decide
  unfold SlotTurn
  match k with
  | 0 =>
    rw [if_neg (by omega)]
    obtain ⟨turn, log⟩ := stage
    unfold ArenaState.coreStep
    rw [turn]
    dsimp only
    rw [if_pos (counted.pending_eq_nil.mp (empty turn log))]
    exact ⟨asked, acknowledged, rfl, log⟩
  | 1 =>
    rw [if_neg (by omega)]
    obtain ⟨turn, log⟩ := stage
    obtain ⟨slot, time⟩ := waits log
    unfold ArenaState.coreStep
    rw [turn]
    dsimp only
    rw [slot, if_neg time]
    exact ⟨asked, acknowledged, rfl, log⟩
  | 2 =>
    rw [if_neg (by omega)]
    obtain ⟨turn, log⟩ := stage
    unfold ArenaState.coreStep
    rw [turn]
    dsimp only
    rw [(waits log).1]
    exact ⟨asked, acknowledged, rfl, log⟩
  | 3 =>
    rw [if_neg (by omega)]
    obtain ⟨turn, log⟩ := stage
    unfold ArenaState.coreStep
    rw [turn]
    dsimp only
    rw [if_neg (Nat.not_lt_of_le due), log]
    exact ⟨asked, acknowledged, ⟨_, rfl⟩, rfl⟩
  | 4 =>
    obtain ⟨⟨readValue, turn⟩, log⟩ := stage
    unfold ArenaState.coreStep
    rw [turn]
    dsimp only
    rw [if_neg Bool.false_ne_true]
    by_cases read : request.simuAction = .read
    · rw [if_pos read, if_neg (by unfold turnLength; rw [if_pos read]; decide)]
      exact ⟨asked, acknowledged, rfl, log⟩
    · rw [if_neg read, if_pos (by unfold turnLength; rw [if_neg read])]
      exact ⟨rfl, log, congrArg (· ++ [request]) acknowledged⟩
  | 5 =>
    have seven : turnLength request = 7 := by
      unfold turnLength at lt ⊢
      split at lt
      · next read => exact if_pos read
      · exact absurd lt (Nat.lt_irrefl 5)
    rw [if_neg (by omega)]
    obtain ⟨turn, log⟩ := stage
    unfold ArenaState.coreStep
    rw [turn]
    exact ⟨asked, acknowledged, rfl, log⟩
  | k + 6 =>
    have seven : k + 6 + 1 = turnLength request := by
      unfold turnLength at lt ⊢
      split at lt <;> split <;> omega
    rw [if_pos seven]
    obtain ⟨turn, log⟩ := stage
    unfold ArenaState.coreStep
    rw [turn]
    exact ⟨rfl, log, congrArg (· ++ [request]) acknowledged⟩

theorem step_unpublished {action : ArenaStep} (step : Steps chip originNs s action t) (still : action ≠ .publish) :
    t.published = s.published := by
  cases isCore : action.isCore with
  | true =>
    cases action with
    | core nowNs =>
      obtain rfl := Option.some.inj step
      exact coreStep_published s nowNs
    | _ => exact absurd isCore Bool.noConfusion
  | false =>
    obtain ⟨ring, label, _, unpublished, rfl⟩ | ⟨reads, rfl, _⟩ := step_cases step isCore
    · exact (congrArg (s.published ++ ·) (unpublished still)).trans (List.append_nil _)
    · rfl

/-- A turn of the Core dispatches and acknowledges the request in the slot, once its time has come and the queue is
and stays empty. -/
theorem Invariant.slotTurn {labels : List ArenaStep} {request : QueueEntry} {nowNs : Nat}
    (invariant : Invariant chip originNs start s) (idle : s.turn = .idle) (empty : s.undispatched = [])
    (asked : s.Asked request) (due : qemuEventTimeNs originNs request.simuTime ≤ nowNs)
    (run : Run (Steps chip originNs) s labels t) (still : ∀ action ∈ labels, action ≠ .publish)
    (times : coreTimes labels = List.replicate (turnLength request) nowNs) :
    t.turn = .idle ∧ t.log = s.log ++ [⟨request, false⟩] ∧
      t.reads.acknowledged = s.reads.acknowledged ++ [request] := by
  have positive : 0 ≠ turnLength request := by
    unfold turnLength
    split <;> decide
  have quiet : s.slotLog = s.reads.acknowledged := by
    cases invariant.slot with
    | closed client => exact absurd asked.1 (client request)
    | waits _ _ _ _ _ _ logged => exact logged
    | serves _ _ _ _ _ _ _ turn | answers _ _ _ _ _ _ turn | clears _ _ _ _ _ _ _ turn =>
      exact absurd (idle.symm.trans turn) Turn.noConfusion
    | served _ _ _ _ _ acknowledged =>
      exact absurd (List.self_eq_append_right.mp (acknowledged.trans asked.2)) (List.cons_ne_nil _ _)
  have begins : SlotTurn s request 0 s := by
    unfold SlotTurn
    rw [if_neg positive]
    exact ⟨asked, rfl, idle, rfl⟩
  have after : Invariant chip originNs start t ∧ t.published = s.published ∧
      SlotTurn s request (coreTimes labels).length t := by
    refine run_cores (fun k u => Invariant chip originNs start u ∧ u.published = s.published ∧ SlotTurn s request k u)
      (· ≠ .publish) nowNs (turnLength request) ?_ ?_ run ⟨invariant, rfl, begins⟩ still ?_ ?_
    · intro k u action v qemu allowed holds step
      obtain ⟨later, published, stage⟩ := holds
      exact ⟨later.step step, (step_unpublished step allowed).trans published, stage.step later qemu step⟩
    · intro k u lt holds
      obtain ⟨later, published, stage⟩ := holds
      refine ⟨later.coreStep nowNs, (coreStep_published u nowNs).trans published, stage.core quiet due lt later ?_⟩
      intro turn log
      have before := invariant.queue
      have now := later.queue
      rw [undispatched_eq fun _ _ same => absurd (turn.symm.trans same) Turn.noConfusion, published, ← before, empty,
        List.append_nil, show u.queueLog = s.queueLog from congrArg (entries true) log] at now
      exact List.append_right_eq_self.mp now
    · intro atNs member
      rw [times] at member
      exact List.eq_of_mem_replicate member
    · rw [times, List.length_replicate]
  rw [times, List.length_replicate] at after
  obtain ⟨_, _, stage⟩ := after
  unfold SlotTurn at stage
  rw [if_pos rfl] at stage
  exact stage

theorem run_invariant {modules : Modules} {labels : List ArenaStep}
    (run : Run (Steps chip originNs) (initial modules) labels s) : Invariant chip originNs modules s :=
  run.invariant (initial_invariant modules) fun _ _ _ invariant step => invariant.step step

/-- In every run the entries that QEMU publishes are dispatched once and in order, the requests of the slot are
dispatched and acknowledged once and in order, and nothing is acknowledged before its dispatch. A turn of the Core
serves what is due, whatever QEMU does meanwhile. -/
theorem arena_lossless {modules : Modules} {labels : List ArenaStep}
    (run : Run (Steps chip originNs) (initial modules) labels s) :
    Lossless chip originNs modules s ∧
      (∀ head rest nowNs more t, s.turn = .idle → s.undispatched = head :: rest →
        qemuEventTimeNs originNs head.simuTime ≤ nowNs → Run (Steps chip originNs) s more t →
          coreTimes more = List.replicate 4 nowNs → t.turn = .idle ∧ t.log = s.log ++ [⟨head, true⟩]) ∧
      ∀ request nowNs more t, s.turn = .idle → s.undispatched = [] → s.Asked request →
        qemuEventTimeNs originNs request.simuTime ≤ nowNs → Run (Steps chip originNs) s more t →
          (∀ action ∈ more, action ≠ .publish) → coreTimes more = List.replicate (turnLength request) nowNs →
            t.turn = .idle ∧ t.log = s.log ++ [⟨request, false⟩] ∧
              t.reads.acknowledged = s.reads.acknowledged ++ [request] := by
  have invariant := run_invariant run
  refine ⟨invariant.lossless, ?_, ?_⟩
  · intro head rest nowNs more t idle queue due later times
    exact invariant.headTurn idle queue due later times
  · intro request nowNs more t idle empty asked due later still times
    exact invariant.slotTurn idle empty asked due later still times

/-- One register at every address. -/
def register : Chip UInt64 where
  findModule _ := true
  writeRegisterAt _ _ data _ := data
  readRegister modules _ := (modules, modules)
  socDigitalReset _ _ _ := 0

/-- QEMU asks for the register while its write is on the way, and the Core takes a turn. -/
def readBehindWrite : List ArenaStep :=
  [.begin ⟨0, 7, .write, 1000⟩, .request ⟨0, 0, .read, 2000⟩, .fill, .ask, .publish, .core 5, .core 5, .core 5, .core 5]

theorem arena_lossless_readBehindWrite :
    ∃ s, Run (Steps register 0) (initial 0) readBehindWrite s ∧ s.undispatched = [] ∧
      s.Asked ⟨0, 0, .read, 2000⟩ ∧ Lossless register 0 0 s ∧
        ∀ more t, Run (Steps register 0) s more t → (∀ action ∈ more, action ≠ .publish) →
          coreTimes more = List.replicate 7 5 →
            t.reads.acknowledged = s.reads.acknowledged ++ [⟨0, 0, .read, 2000⟩] := by
  have fold : readBehindWrite.foldlM (fun s action => s.step register 0 action) (initial 0) = some _ := rfl
  have run := Run.of_foldlM fold
  obtain ⟨lossless, _, slot⟩ := arena_lossless run
  refine ⟨_, run, by decide, ⟨rfl, rfl⟩, lossless, ?_⟩
  intro more t later still times
  exact (slot _ 5 more t rfl (by decide) ⟨rfl, rfl⟩ (by decide) later still times).2.2

end ArenaState

end LasecSimul.Mcu
