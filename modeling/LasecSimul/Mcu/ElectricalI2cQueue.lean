import Mathlib.Data.List.Nodup
import Mathlib.Algebra.BigOperators.Group.List.Basic
import LasecSimul.Mcu.ElectricalI2c

/-!
# What the electrical I2C queue keeps

Starting, completing and queueing transactions come down to three moves. What each of them keeps, they keep: the
history of the requests, the engines, and a bound on the wake-ups that are left.
-/

namespace LasecSimul.Mcu

open I2cState (Fits)

namespace VnextBElectricalI2c

theorem foldl_writeCoreOp {P : I2cState → Prop} {nowNs : Nat}
    (step : ∀ engine op, P engine → P (engine.writeCoreOp op nowNs)) (ops : List I2cOp) {engine : I2cState}
    (holds : P engine) :
    P (ops.foldl (fun engine op => engine.writeCoreOp op nowNs) engine) := by
  induction ops generalizing engine with
  | nil => exact holds
  | cons op ops ih => exact ih (step engine op holds)

theorem load_cases {P : I2cState → Prop} {nowNs : Nat}
    (step : ∀ engine op, P engine → P (engine.writeCoreOp op nowNs))
    (period : ∀ engine periodNs, P engine → P (engine.writeLowPeriod periodNs)) (transaction : VnextBElectricalI2c)
    {engine : I2cState} (holds : P engine) : P (transaction.load engine nowNs) := by
  unfold load
  split
  · exact foldl_writeCoreOp step _ (period _ _ holds)
  · exact foldl_writeCoreOp step _ holds

theorem load_settled (transaction : VnextBElectricalI2c) {engine : I2cState} {nowNs : Nat} (settled : engine.Settled)
    (fits : Fits nowNs) : (transaction.load engine nowNs).Settled :=
  load_cases (fun _ op settled => I2cState.writeCoreOp_settled op settled fits)
    (fun _ periodNs settled => I2cState.writeLowPeriod_settled periodNs settled) transaction settled

/-- An engine that waits for a phase goes on waiting for it. -/
theorem load_dueNs (transaction : VnextBElectricalI2c) {engine : I2cState} {nowNs dueNs : Nat}
    (due : engine.dueNs = some dueNs) : (transaction.load engine nowNs).dueNs = some dueNs := by
  refine load_cases (P := fun engine => engine.dueNs = some dueNs) ?_ ?_ transaction due
  · intro engine op due
    unfold I2cState.writeCoreOp I2cState.kick
    rw [if_neg]
    · exact due
    · rintro ⟨_, none⟩
      exact Option.some_ne_none _ (due.symm.trans none)
  · intro engine periodNs due
    unfold I2cState.writeLowPeriod
    split <;> exact due

def rank (transaction : VnextBElectricalI2c) : Nat := I2cState.pendingRank transaction.ops

theorem foldl_writeCoreOp_rank_le (ops : List I2cOp) (engine : I2cState) (nowNs : Nat) :
    (ops.foldl (fun engine op => engine.writeCoreOp op nowNs) engine).rank ≤
      engine.rank + I2cState.pendingRank ops := by
  induction ops generalizing engine with
  | nil => exact le_rfl
  | cons op ops ih =>
    have step : (engine.writeCoreOp op nowNs).rank ≤ engine.rank + I2cState.opRank op := by
      refine (I2cState.kick_rank_le _ _).trans ?_
      unfold I2cState.rank
      dsimp only
      rw [I2cState.pendingRank_append]
      have one : I2cState.pendingRank [op] = I2cState.opRank op := Nat.add_zero _
      omega
    have cons : I2cState.pendingRank (op :: ops) = I2cState.opRank op + I2cState.pendingRank ops := List.sum_cons
    have rest := ih (engine.writeCoreOp op nowNs)
    rw [List.foldl_cons]
    omega

theorem load_rank_le (transaction : VnextBElectricalI2c) (engine : I2cState) (nowNs : Nat) :
    (transaction.load engine nowNs).rank ≤ engine.rank + transaction.rank := by
  have period : ∀ periodNs, (engine.writeLowPeriod periodNs).rank = engine.rank := by
    intro periodNs
    unfold I2cState.writeLowPeriod
    split <;> rfl
  refine (foldl_writeCoreOp_rank_le _ _ _).trans (Nat.add_le_add_right ?_ _)
  split
  · exact (period _).le
  · exact le_rfl

end VnextBElectricalI2c

namespace I2cQueue

variable {s : I2cQueue} {nowNs : Nat}

theorem respondToI2c_same (s : I2cQueue) (transaction : VnextBElectricalI2c) (result : I2cTransferResult) :
    (s.respondToI2c transaction result).queue = s.queue ∧ (s.respondToI2c transaction result).current = s.current ∧
      (s.respondToI2c transaction result).engines = s.engines := by
  unfold respondToI2c
  split <;> exact ⟨rfl, rfl, rfl⟩

/-- What starting a transaction keeps: taking one whose module does not exist, and putting one on the wires. -/
structure Starts (P : I2cQueue → Prop) (nowNs : Nat) : Prop where
  skip : ∀ {s transaction rest}, s.current = none → s.queue = transaction :: rest →
    s.engines transaction.op.bus = none → P s →
      P (({ s with queue := rest } : I2cQueue).respondToI2c transaction noModule)
  start : ∀ {s transaction rest engine}, s.current = none → s.queue = transaction :: rest →
    s.engines transaction.op.bus = some engine → P s →
      P (({ s with queue := rest } : I2cQueue).begin transaction engine nowNs)

/-- What completing a transaction keeps too. -/
structure Completes (P : I2cQueue → Prop) (nowNs : Nat) : Prop extends Starts P nowNs where
  finish : ∀ {s transaction engine}, s.current = some transaction → s.engines transaction.op.bus = some engine →
    engine.busy = false → P s → P (s.finish transaction engine)

theorem startQueue_none {transaction : VnextBElectricalI2c} {rest : List VnextBElectricalI2c}
    (missing : s.engines transaction.op.bus = none) :
    startQueue nowNs (transaction :: rest) s =
      startQueue nowNs rest (({ s with queue := rest } : I2cQueue).respondToI2c transaction noModule) := by
  rw [startQueue]
  dsimp only
  rw [missing]

theorem startQueue_some {transaction : VnextBElectricalI2c} {rest : List VnextBElectricalI2c} {engine : I2cState}
    (found : s.engines transaction.op.bus = some engine) :
    startQueue nowNs (transaction :: rest) s =
      ({ s with queue := rest } : I2cQueue).begin transaction engine nowNs := by
  rw [startQueue]
  dsimp only
  rw [found]

theorem start_none (idle : s.current = none) : s.start nowNs = startQueue nowNs s.queue s := by
  unfold start
  rw [idle]

theorem startQueue_keeps {P : I2cQueue → Prop} (starts : Starts P nowNs) (queue : List VnextBElectricalI2c)
    (queued : s.queue = queue) (idle : s.current = none) (holds : P s) : P (startQueue nowNs queue s) := by
  induction queue generalizing s with
  | nil => exact holds
  | cons transaction rest ih =>
    cases found : s.engines transaction.op.bus with
    | none =>
      obtain ⟨queue, current, _⟩ := respondToI2c_same { s with queue := rest } transaction noModule
      rw [startQueue_none found]
      exact ih queue (current.trans idle) (starts.skip idle queued found holds)
    | some engine =>
      rw [startQueue_some found]
      exact starts.start idle queued found holds

theorem start_keeps {P : I2cQueue → Prop} (starts : Starts P nowNs) (holds : P s) : P (s.start nowNs) := by
  unfold start
  split
  · next idle => exact startQueue_keeps starts s.queue rfl idle holds
  · exact holds

theorem completeIfDone_keeps {P : I2cQueue → Prop} (completes : Completes P nowNs) (fuel : Nat) (holds : P s) :
    P (completeIfDone nowNs fuel s) := by
  induction fuel generalizing s with
  | zero => exact holds
  | succ fuel ih =>
    unfold completeIfDone
    split
    · exact holds
    · next transaction current =>
      split
      · exact holds
      · next engine found =>
        split
        · exact holds
        · next ended =>
          have finished := completes.finish current found (Bool.not_eq_true _ ▸ ended) holds
          exact ih (start_keeps completes.toStarts finished)

theorem complete_keeps {P : I2cQueue → Prop} (completes : Completes P nowNs) (holds : P s) : P (s.complete nowNs) :=
  completeIfDone_keeps completes _ holds

theorem startQueue_idle (queue : List VnextBElectricalI2c) (queued : s.queue = queue)
    (idle : (startQueue nowNs queue s).current = none) : (startQueue nowNs queue s).queue = [] := by
  induction queue generalizing s with
  | nil => exact queued
  | cons transaction rest ih =>
    cases found : s.engines transaction.op.bus with
    | none =>
      rw [startQueue_none found] at idle ⊢
      exact ih (respondToI2c_same { s with queue := rest } transaction noModule).1 idle
    | some engine =>
      rw [startQueue_some found] at idle
      exact absurd idle (Option.some_ne_none _)

theorem startQueue_length (queue : List VnextBElectricalI2c) (idle : s.current = none)
    (started : (startQueue nowNs queue s).current ≠ none) : (startQueue nowNs queue s).queue.length < queue.length := by
  induction queue generalizing s with
  | nil => exact absurd idle started
  | cons transaction rest ih =>
    cases found : s.engines transaction.op.bus with
    | none =>
      rw [startQueue_none found] at started ⊢
      have idle := (respondToI2c_same { s with queue := rest } transaction noModule).2.1.trans idle
      exact (ih idle started).trans (Nat.lt_succ_self _)
    | some engine =>
      rw [startQueue_some found]
      exact Nat.lt_succ_self _

/-- Whatever is current is not over, once the module of a current transaction exists. -/
structure Busy (s : I2cQueue) : Prop where
  queue : s.current = none → s.queue = []
  busy : ∀ transaction, s.current = some transaction →
    ∃ engine, s.engines transaction.op.bus = some engine ∧ engine.busy = true

/-- The module of the current transaction exists. -/
def Present (s : I2cQueue) : Prop :=
  ∀ transaction, s.current = some transaction → ∃ engine, s.engines transaction.op.bus = some engine

theorem present_starts : Starts Present nowNs where
  skip {s transaction rest} idle _ _ _ := by
    intro transaction' current
    rw [(respondToI2c_same _ _ _).2.1] at current
    exact absurd (idle.symm.trans current) (Option.some_ne_none _).symm
  start {s transaction rest engine} _ _ _ _ := by
    intro transaction' current
    obtain rfl : transaction = transaction' := Option.some.inj current
    exact ⟨_, Function.update_self _ _ _⟩

theorem completeIfDone_none (idle : s.current = none) (fuel : Nat) : completeIfDone nowNs fuel s = s := by
  cases fuel with
  | zero => rfl
  | succ fuel =>
    unfold completeIfDone
    rw [idle]

theorem completeIfDone_busy (fuel : Nat) (enough : s.queue.length < fuel) (present : s.Present)
    (queue : s.current = none → s.queue = []) : (completeIfDone nowNs fuel s).Busy := by
  induction fuel generalizing s with
  | zero => exact absurd enough (Nat.not_lt_zero _)
  | succ fuel ih =>
    cases current : s.current with
    | none =>
      rw [completeIfDone_none current]
      refine ⟨queue, fun transaction found => ?_⟩
      exact absurd (current.symm.trans found) (Option.some_ne_none _).symm
    | some transaction =>
      obtain ⟨engine, found⟩ := present transaction current
      unfold completeIfDone
      rw [current]
      dsimp only
      rw [found]
      dsimp only
      split
      · next busy =>
        refine ⟨queue, fun transaction' current' => ?_⟩
        obtain rfl : transaction = transaction' := Option.some.inj (current.symm.trans current')
        exact ⟨engine, found, busy⟩
      · have idle : (s.finish transaction engine).current = none := rfl
        have same : (s.finish transaction engine).queue = s.queue := (respondToI2c_same _ _ _).1
        rw [start_none idle]
        generalize s.finish transaction engine = finished at idle same ⊢
        cases started : (startQueue nowNs finished.queue finished).current with
        | none =>
          rw [completeIfDone_none started]
          refine ⟨startQueue_idle _ rfl, fun transaction found => ?_⟩
          exact absurd (started.symm.trans found) (Option.some_ne_none _).symm
        | some next =>
          have shorter : (startQueue nowNs finished.queue finished).queue.length < finished.queue.length := by
            apply startQueue_length _ idle
            rw [started]
            exact Option.some_ne_none _
          refine ih ?_ (startQueue_keeps present_starts _ rfl idle ?_) (startQueue_idle _ rfl)
          · rw [same] at shorter ⊢
            omega
          · exact fun transaction found => absurd (idle.symm.trans found) (Option.some_ne_none _).symm

theorem complete_of_busy {transaction : VnextBElectricalI2c} {engine : I2cState}
    (current : s.current = some transaction) (found : s.engines transaction.op.bus = some engine)
    (busy : engine.busy = true) : s.complete nowNs = s := by
  unfold complete completeIfDone
  rw [current]
  dsimp only
  rw [found]
  exact if_pos busy

theorem complete_busy (present : s.Present) (queue : s.current = none → s.queue = []) : (s.complete nowNs).Busy :=
  completeIfDone_busy _ (Nat.lt_succ_self _) present queue

theorem Busy.present (busy : s.Busy) : s.Present := by
  intro transaction current
  obtain ⟨engine, found, _⟩ := busy.busy transaction current
  exact ⟨engine, found⟩

theorem respondToI2c_pending (s : I2cQueue) (transaction : VnextBElectricalI2c) (result : I2cTransferResult) :
    (s.respondToI2c transaction result).pending = s.pending := by
  unfold respondToI2c
  split <;> rfl

theorem finish_eq (s : I2cQueue) (transaction : VnextBElectricalI2c) (engine : I2cState) :
    s.finish transaction engine =
      I2cQueue.respondToI2c { s.setEngine transaction.op.bus { engine with coreResults := [] } with current := none }
        transaction (transaction.result engine.coreResults) := by
  unfold finish respondToI2c
  split <;> rfl

/-- What was submitted is what was answered and then what is pending, and the slot of a pending request waits for it. -/
structure History (s : I2cQueue) : Prop where
  once : s.answered.map Response.id ++ s.pending.map VnextBElectricalI2c.id = s.submitted.map VnextBElectricalI2c.id
  slots : ∀ transaction ∈ s.pending, transaction.requestSeq ≠ 0 ∧
    s.requests transaction.lane = transaction.requestSeq ∧ s.responses transaction.lane ≠ transaction.requestSeq
  lanes : (s.pending.map VnextBElectricalI2c.lane).Nodup

/-- Two queues with the same slots and the same history. -/
structure SameHistory (s t : I2cQueue) : Prop where
  requests : t.requests = s.requests
  responses : t.responses = s.responses
  submitted : t.submitted = s.submitted
  answered : t.answered = s.answered

theorem History.keep {s t : I2cQueue} (history : s.History) (same : SameHistory s t) (pending : t.pending = s.pending) :
    t.History := by
  refine ⟨?_, ?_, ?_⟩
  · rw [same.answered, same.submitted, pending]
    exact history.once
  · rw [same.requests, same.responses, pending]
    exact history.slots
  · rw [pending]
    exact history.lanes

theorem History.respond {s t : I2cQueue} {transaction : VnextBElectricalI2c} (history : s.History)
    (same : SameHistory s t) (pending : s.pending = transaction :: t.pending) (result : I2cTransferResult) :
    (t.respondToI2c transaction result).History := by
  obtain ⟨once, slots, lanes⟩ := history
  rw [pending] at once slots lanes
  obtain ⟨positive, slot, _⟩ := slots transaction List.mem_cons_self
  rw [List.map_cons, List.nodup_cons] at lanes
  have answers : t.respondToI2c transaction result =
      { t with
        responses := Function.update t.responses transaction.lane transaction.requestSeq
        answered := t.answered ++ [⟨transaction.lane, transaction.requestSeq, result⟩] } := by
    unfold respondToI2c
    rw [same.requests, if_neg]
    rintro (zero | other)
    · exact positive zero
    · exact other slot
  have pending : (t.respondToI2c transaction result).pending = t.pending := respondToI2c_pending _ _ _
  refine ⟨?_, ?_, ?_⟩
  · rw [pending, answers]
    show (t.answered ++ [_]).map Response.id ++ _ = t.submitted.map _
    rw [same.answered, same.submitted, ← once, List.map_append, List.append_assoc]
    rfl
  · rw [pending]
    intro waiting member
    have other : waiting.lane ≠ transaction.lane := fun same => lanes.1 (same ▸ List.mem_map_of_mem member)
    obtain ⟨positive, slot, open'⟩ := slots waiting (List.mem_cons_of_mem _ member)
    rw [answers]
    refine ⟨positive, same.requests ▸ slot, ?_⟩
    show Function.update t.responses _ _ waiting.lane ≠ _
    rw [Function.update_of_ne other, same.responses]
    exact open'
  · rw [pending]
    exact lanes.2

theorem history_completes (nowNs : Nat) : Completes History nowNs where
  skip {s transaction rest} idle queued _ history := by
    refine history.respond ?_ ?_ _
    · exact ⟨rfl, rfl, rfl, rfl⟩
    · unfold pending
      rw [idle, queued]
      rfl
  start {s transaction rest engine} idle queued _ history := by
    refine history.keep ?_ ?_
    · exact ⟨rfl, rfl, rfl, rfl⟩
    · unfold pending
      rw [idle, queued]
      rfl
  finish {s transaction engine} current _ _ history := by
    rw [finish_eq]
    refine history.respond ?_ ?_ _
    · exact ⟨rfl, rfl, rfl, rfl⟩
    · unfold pending
      rw [current]
      rfl

theorem setEngine_same (s : I2cQueue) (bus : I2cBus) (engine : I2cState) :
    (s.setEngine bus engine).engines bus = some engine := Function.update_self _ _ _

theorem setEngine_other (s : I2cQueue) {bus other : I2cBus} (engine : I2cState) (different : other ≠ bus) :
    (s.setEngine bus engine).engines other = s.engines other := Function.update_of_ne different _ _

theorem forall_setEngine {P : I2cState → Prop} {bus : I2cBus} {engine : I2cState} (holds : P engine)
    (all : ∀ bus engine, s.engines bus = some engine → P engine) :
    ∀ other engine', (s.setEngine bus engine).engines other = some engine' → P engine' := by
  intro other engine' found
  by_cases same : other = bus
  · rw [same, setEngine_same] at found
    exact Option.some.inj found ▸ holds
  · rw [setEngine_other s engine same] at found
    exact all other engine' found

/-- Every engine waits for its next phase or has nothing to do. -/
def Settled (s : I2cQueue) : Prop := ∀ bus engine, s.engines bus = some engine → engine.Settled

theorem settled_completes (fits : Fits nowNs) : Completes Settled nowNs where
  skip {s transaction rest} _ _ _ settled := by
    unfold Settled
    rw [(respondToI2c_same _ _ _).2.2]
    exact settled
  start {s transaction rest engine} _ _ found settled :=
    forall_setEngine (transaction.load_settled (settled _ _ found) fits) settled
  finish {s transaction engine} _ found _ settled := by
    unfold Settled
    rw [finish_eq, (respondToI2c_same _ _ _).2.2]
    have cleared : ({ engine with coreResults := [] } : I2cState).Settled :=
      ⟨(settled _ _ found).phase, (settled _ _ found).pending, (settled _ _ found).half⟩
    exact forall_setEngine cleared settled

theorem dueNs_setEngine {bus other : I2cBus} {engine engine' : I2cState} {dueNs : Nat}
    (keeps : ∀ dueNs, engine.dueNs = some dueNs → engine'.dueNs = some dueNs) (found : s.engines bus = some engine)
    (due : s.dueNs other = some dueNs) : (s.setEngine bus engine').dueNs other = some dueNs := by
  unfold I2cQueue.dueNs at *
  by_cases same : other = bus
  · rw [same, found] at due
    rw [same, setEngine_same]
    exact keeps dueNs due
  · rw [setEngine_other s engine' same]
    exact due

theorem respondToI2c_dueNs (s : I2cQueue) (transaction : VnextBElectricalI2c) (result : I2cTransferResult)
    (bus : I2cBus) : (s.respondToI2c transaction result).dueNs bus = s.dueNs bus := by
  unfold I2cQueue.dueNs
  rw [(respondToI2c_same _ _ _).2.2]

theorem dueNs_completes (bus : I2cBus) (dueNs : Nat) : Completes (fun s => s.dueNs bus = some dueNs) nowNs where
  skip {s transaction rest} _ _ _ due := (respondToI2c_dueNs _ _ _ _).trans due
  start {s transaction rest engine} _ _ found due := dueNs_setEngine (fun _ => transaction.load_dueNs) found due
  finish {s transaction engine} _ found _ due := by
    rw [finish_eq, respondToI2c_dueNs]
    refine dueNs_setEngine ?_ found due
    exact fun _ same => same

/-- Transactions of one bus leave the engine of the other as it is. -/
theorem other_completes (bus other : I2cBus) (different : other ≠ bus) (engine : Option I2cState) :
    Completes (fun s => (∀ transaction ∈ s.pending, transaction.op.bus = bus) ∧ s.engines other = engine) nowNs where
  skip {s transaction rest} idle queued _ holds := by
    rw [respondToI2c_pending, (respondToI2c_same _ _ _).2.2]
    refine ⟨fun transaction' member => holds.1 transaction' ?_, holds.2⟩
    unfold pending at *
    rw [queued]
    exact List.mem_append.mpr ((List.mem_append.mp member).imp_right (List.mem_cons_of_mem _))
  start {s transaction rest engine} idle queued _ holds := by
    have first : transaction.op.bus = bus := holds.1 transaction (by simp [pending, queued])
    refine ⟨fun transaction' member => holds.1 transaction' ?_, ?_⟩
    · unfold pending at *
      rw [idle, queued]
      exact member
    · exact (setEngine_other _ _ (first ▸ different)).trans holds.2
  finish {s transaction engine} current _ _ holds := by
    have first : transaction.op.bus = bus := holds.1 transaction (by simp [pending, current])
    rw [finish_eq, respondToI2c_pending, (respondToI2c_same _ _ _).2.2]
    refine ⟨fun transaction' member => holds.1 transaction' ?_, ?_⟩
    · exact List.mem_append_right _ member
    · exact (setEngine_other _ _ (first ▸ different)).trans holds.2

theorem startOrQueue_keeps {P : I2cQueue → Prop} (completes : Completes P nowNs) (transaction : VnextBElectricalI2c)
    (holds : P { s with queue := s.queue ++ [transaction] }) : P (s.startOrQueue transaction nowNs) := by
  unfold startOrQueue
  dsimp only
  split
  · exact holds
  · exact complete_keeps completes (start_keeps completes.toStarts holds)

theorem start_complete_busy (idle : s.current = none) : ((s.start nowNs).complete nowNs).Busy := by
  rw [start_none idle]
  refine complete_busy (startQueue_keeps present_starts _ rfl idle ?_) (startQueue_idle _ rfl)
  exact fun transaction found => absurd (idle.symm.trans found) (Option.some_ne_none _).symm

theorem startOrQueue_busy (busy : s.Busy) (transaction : VnextBElectricalI2c) (nowNs : Nat) :
    (s.startOrQueue transaction nowNs).Busy := by
  unfold startOrQueue
  dsimp only
  split
  · next some =>
    obtain ⟨current, found⟩ := Option.isSome_iff_exists.mp some
    exact ⟨fun none => absurd (found.symm.trans none) (Option.some_ne_none _), busy.busy⟩
  · next none => exact start_complete_busy (Option.not_isSome_iff_eq_none.mp none)

theorem History.push (history : s.History) {transaction : VnextBElectricalI2c} (positive : transaction.requestSeq ≠ 0)
    (waits : s.requests transaction.lane = s.responses transaction.lane)
    (fresh : s.responses transaction.lane ≠ transaction.requestSeq) :
    ({ s with
      requests := Function.update s.requests transaction.lane transaction.requestSeq
      submitted := s.submitted ++ [transaction]
      queue := s.queue ++ [transaction] } : I2cQueue).History := by
  have other : ∀ waiting ∈ s.pending, waiting.lane ≠ transaction.lane := by
    intro waiting member same
    obtain ⟨_, slot, open'⟩ := history.slots waiting member
    rw [same] at slot open'
    exact open' (waits.symm.trans slot)
  have pending : ∀ requests submitted,
      (⟨s.engines, requests, s.responses, s.current, s.queue ++ [transaction], submitted, s.answered⟩ :
        I2cQueue).pending = s.pending ++ [transaction] := fun _ _ => (List.append_assoc _ _ _).symm
  refine ⟨?_, ?_, ?_⟩
  · rw [pending, List.map_append, List.map_append, ← List.append_assoc, history.once]
  · rw [pending]
    intro waiting member
    obtain member | member := List.mem_append.mp member
    · obtain ⟨positive, slot, open'⟩ := history.slots waiting member
      refine ⟨positive, ?_, open'⟩
      exact (Function.update_of_ne (other waiting member) _ _).trans slot
    · rw [List.mem_singleton.mp member]
      exact ⟨positive, Function.update_self _ _ _, fresh⟩
  · rw [pending, List.map_append]
    refine List.Nodup.append history.lanes (List.nodup_singleton _) ?_
    intro lane member new
    obtain ⟨waiting, pending, rfl⟩ := List.mem_map.mp member
    exact other waiting pending (List.mem_singleton.mp new)

def engineRank (s : I2cQueue) (bus : I2cBus) : Nat := ((s.engines bus).map I2cState.rank).getD 0

def rank (s : I2cQueue) : Nat :=
  s.engineRank .i2c0 + s.engineRank .i2c1 + (s.queue.map VnextBElectricalI2c.rank).sum

theorem setEngine_rank {bus : I2cBus} {engine engine' : I2cState} (found : s.engines bus = some engine) :
    (s.setEngine bus engine').rank + engine.rank = s.rank + engine'.rank := by
  unfold rank engineRank setEngine
  cases bus <;> simp [Function.update, found] <;> omega

theorem rank_of_engines {t : I2cQueue} (engines : t.engines = s.engines) (queue : t.queue = s.queue) :
    t.rank = s.rank := by
  unfold rank engineRank
  rw [engines, queue]

theorem rank_completes (bound : Nat) : Completes (fun s => s.rank ≤ bound) nowNs where
  skip {s transaction rest} _ queued _ le := by
    obtain ⟨queue, _, engines⟩ := respondToI2c_same { s with queue := rest } transaction noModule
    rw [rank_of_engines engines queue]
    refine le_trans ?_ le
    unfold rank engineRank
    rw [queued]
    simp
  start {s transaction rest engine} _ queued found le := by
    have load := transaction.load_rank_le engine nowNs
    have put : (({ s with queue := rest } : I2cQueue).begin transaction engine nowNs).rank + engine.rank =
        ({ s with queue := rest } : I2cQueue).rank + (transaction.load engine nowNs).rank :=
      setEngine_rank (s := { s with queue := rest }) found
    have taken : ({ s with queue := rest } : I2cQueue).rank + transaction.rank = s.rank := by
      unfold rank engineRank
      rw [queued, List.map_cons, List.sum_cons]
      dsimp only
      omega
    omega
  finish {s transaction engine} _ found _ le := by
    obtain ⟨queue, _, engines⟩ := respondToI2c_same
      ({ s.setEngine transaction.op.bus { engine with coreResults := [] } with current := none } : I2cQueue) transaction
      (transaction.result engine.coreResults)
    have put : (s.setEngine transaction.op.bus { engine with coreResults := [] }).rank + engine.rank =
        s.rank + engine.rank := setEngine_rank found
    rw [finish_eq, rank_of_engines engines queue]
    exact le_trans (Nat.add_right_cancel put).le le

end I2cQueue

end LasecSimul.Mcu
