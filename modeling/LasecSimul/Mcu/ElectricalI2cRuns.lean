import LasecSimul.Lib.Trace
import LasecSimul.Mcu.ElectricalI2cQueue

/-!
# Every electrical I2C request is answered

Nothing is lost or answered twice in any run. The queue advances in the runs whose resets find no transaction on the
controller that they reset, and in which a transaction that starts at the wake-up of the other controller is seen by
the circuit.
-/

namespace LasecSimul.Mcu

open I2cState (Fits)

namespace McuI2c

variable {s : McuI2c} {nowNs : Nat}

/-- The wake-up that is scheduled for a module will take effect. -/
def Live (s : McuI2c) (bus : I2cBus) : Prop :=
  ∃ dueNs, (s.wakeups bus).dueNs = some dueNs ∧ ⟨bus, (s.wakeups bus).generation, dueNs⟩ ∈ s.scheduled

/-- Every request is answered once and in its turn. A current transaction is on the wires, and its module is going to
wake up, at the latest after the settle that the MCU has asked for. -/
structure Serves (s : McuI2c) : Prop where
  once : s.i2c.answered.map Response.id ++ s.i2c.pending.map VnextBElectricalI2c.id =
    s.i2c.submitted.map VnextBElectricalI2c.id
  queue : s.i2c.current = none → s.i2c.queue = []
  busy : ∀ transaction, s.i2c.current = some transaction →
    ∃ engine, s.i2c.engines transaction.op.bus = some engine ∧ engine.busy = true
  live : s.dirty = false → ∀ transaction, s.i2c.current = some transaction → s.Live transaction.op.bus

/-- A module whose engine waits for a phase has a wake-up. -/
def Covered (s : McuI2c) (bus : I2cBus) : Prop := s.i2c.dueNs bus ≠ none → (s.wakeups bus).dueNs ≠ none

/-- A wake-up that is set has its event, which is the only one of its generation. -/
structure Scheduled (s : McuI2c) : Prop where
  set : ∀ bus dueNs, (s.wakeups bus).dueNs = some dueNs → ⟨bus, (s.wakeups bus).generation, dueNs⟩ ∈ s.scheduled
  old : ∀ event ∈ s.scheduled, event.generation ≤ (s.wakeups event.bus).generation
  current : ∀ event ∈ s.scheduled, event.generation = (s.wakeups event.bus).generation →
    (s.wakeups event.bus).dueNs = some event.timeNs
  nodup : s.scheduled.Nodup

theorem Scheduled.of_eq {t : McuI2c} (holds : s.Scheduled) (wakeups : t.wakeups = s.wakeups)
    (events : t.scheduled = s.scheduled) : t.Scheduled := by
  refine ⟨?_, ?_, ?_, events ▸ holds.nodup⟩ <;> rw [events, wakeups]
  · exact holds.set
  · exact holds.old
  · exact holds.current

structure Invariant (s : McuI2c) : Prop where
  history : s.i2c.History
  settled : s.i2c.Settled
  busy : s.i2c.Busy
  scheduled : s.Scheduled
  covered : s.dirty = false → ∀ bus, s.Covered bus

theorem Invariant.serves (invariant : s.Invariant) : s.Serves := by
  refine ⟨invariant.history.once, invariant.busy.queue, invariant.busy.busy, ?_⟩
  intro clean transaction current
  obtain ⟨engine, found, busy⟩ := invariant.busy.busy transaction current
  have due : s.i2c.dueNs transaction.op.bus ≠ none := by
    unfold I2cQueue.dueNs
    rw [found]
    exact (invariant.settled _ _ found).due busy
  obtain ⟨dueNs, wakes⟩ := Option.ne_none_iff_exists'.mp (invariant.covered clean _ due)
  exact ⟨dueNs, wakes, invariant.scheduled.set _ _ wakes⟩

theorem setWakeup_same (s : McuI2c) (bus : I2cBus) (wakeup : Wakeup) : (s.setWakeup bus wakeup).wakeups bus = wakeup :=
  Function.update_self _ _ _

theorem setWakeup_other (s : McuI2c) {bus other : I2cBus} (wakeup : Wakeup) (different : other ≠ bus) :
    (s.setWakeup bus wakeup).wakeups other = s.wakeups other := Function.update_of_ne different _ _

theorem scheduleModuleWakeup_cases (s : McuI2c) (bus : I2cBus) (nowNs : Nat) :
    (s.scheduleModuleWakeup bus nowNs = s ∧
      ((s.i2c.dueNs bus = none ∧ (s.wakeups bus).dueNs = none) ∨
        ∃ dueNs wakesNs, s.i2c.dueNs bus = some dueNs ∧ (s.wakeups bus).dueNs = some wakesNs)) ∨
    (s.i2c.dueNs bus = none ∧
      s.scheduleModuleWakeup bus nowNs = s.setWakeup bus { generation := (s.wakeups bus).generation + 1 }) ∨
    ∃ dueNs, s.i2c.dueNs bus = some dueNs ∧
      s.scheduleModuleWakeup bus nowNs =
        { s.setWakeup bus { dueNs := some (max dueNs nowNs), generation := (s.wakeups bus).generation + 1 } with
          scheduled := ⟨bus, (s.wakeups bus).generation + 1, max dueNs nowNs⟩ :: s.scheduled } := by
  unfold scheduleModuleWakeup
  cases due : s.i2c.dueNs bus with
  | none =>
    dsimp only
    split
    · next unset => exact .inl ⟨rfl, .inl ⟨rfl, unset⟩⟩
    · exact .inr (.inl ⟨rfl, rfl⟩)
  | some dueNs =>
    dsimp only
    split
    · next earlier =>
      obtain ⟨wakesNs, wakes, _⟩ := (Option.any_eq_true _ _).mp earlier
      exact .inl ⟨rfl, .inr ⟨dueNs, wakesNs, rfl, wakes⟩⟩
    · exact .inr (.inr ⟨dueNs, rfl, rfl⟩)

theorem scheduleModuleWakeup_same (s : McuI2c) (bus : I2cBus) (nowNs : Nat) :
    (s.scheduleModuleWakeup bus nowNs).i2c = s.i2c ∧ (s.scheduleModuleWakeup bus nowNs).dirty = s.dirty ∧
      (s.scheduleModuleWakeup bus nowNs).delivered = s.delivered := by
  obtain ⟨same, _⟩ | ⟨_, same⟩ | ⟨_, _, same⟩ := s.scheduleModuleWakeup_cases bus nowNs <;> rw [same] <;>
    exact ⟨rfl, rfl, rfl⟩

theorem scheduleModuleWakeup_other (s : McuI2c) {bus other : I2cBus} (nowNs : Nat) (different : other ≠ bus) :
    (s.scheduleModuleWakeup bus nowNs).wakeups other = s.wakeups other := by
  obtain ⟨same, _⟩ | ⟨_, same⟩ | ⟨_, _, same⟩ := s.scheduleModuleWakeup_cases bus nowNs <;> rw [same]
  · exact s.setWakeup_other _ different
  · exact s.setWakeup_other _ different

theorem scheduleModuleWakeup_covered (s : McuI2c) (bus : I2cBus) (nowNs : Nat) :
    (s.scheduleModuleWakeup bus nowNs).Covered bus := by
  intro due
  rw [(s.scheduleModuleWakeup_same bus nowNs).1] at due
  obtain ⟨same, ⟨none, _⟩ | ⟨_, wakesNs, _, wakes⟩⟩ | ⟨none, _⟩ | ⟨dueNs, _, same⟩ :=
    s.scheduleModuleWakeup_cases bus nowNs
  · exact absurd none due
  · rw [same, wakes]
    exact Option.some_ne_none _
  · exact absurd none due
  · rw [same]
    show ((s.setWakeup bus _).wakeups bus).dueNs ≠ none
    rw [setWakeup_same]
    exact Option.some_ne_none _

/-- The generation of a module goes up, and with it the wake-up that was set falls. -/
theorem Scheduled.cancel (scheduled : s.Scheduled) (bus : I2cBus) :
    (s.setWakeup bus { generation := (s.wakeups bus).generation + 1 }).Scheduled := by
  refine ⟨?_, ?_, ?_, scheduled.nodup⟩
  · intro other dueNs wakes
    by_cases equal : other = bus
    · rw [equal, setWakeup_same] at wakes
      exact absurd wakes.symm (Option.some_ne_none _)
    · rw [s.setWakeup_other _ equal] at wakes ⊢
      exact scheduled.set other dueNs wakes
  · intro event member
    have old := scheduled.old event member
    by_cases equal : event.bus = bus
    · rw [equal] at old ⊢
      rw [setWakeup_same]
      exact Nat.le_succ_of_le old
    · rw [s.setWakeup_other _ equal]
      exact old
  · intro event member same
    have old := scheduled.old event member
    by_cases equal : event.bus = bus
    · rw [equal] at old same
      rw [setWakeup_same] at same
      exact absurd (same ▸ old) (Nat.not_succ_le_self _)
    · rw [s.setWakeup_other _ equal] at same ⊢
      exact scheduled.current event member same

/-- A new generation with its event. -/
theorem Scheduled.renew (scheduled : s.Scheduled) (bus : I2cBus) (atNs : Nat) :
    ({ s.setWakeup bus { dueNs := some atNs, generation := (s.wakeups bus).generation + 1 } with
        scheduled := ⟨bus, (s.wakeups bus).generation + 1, atNs⟩ :: s.scheduled } : McuI2c).Scheduled := by
  have before : ∀ event ∈ s.scheduled, event.bus = bus → event.generation ≤ (s.wakeups bus).generation := by
    intro event member equal
    have old := scheduled.old event member
    rwa [equal] at old
  refine ⟨?_, ?_, ?_, ?_⟩
  · intro other wakesNs wakes
    replace wakes : ((s.setWakeup bus _).wakeups other).dueNs = _ := wakes
    show ⟨other, ((s.setWakeup bus _).wakeups other).generation, wakesNs⟩ ∈ _ :: s.scheduled
    by_cases equal : other = bus
    · rw [equal, setWakeup_same] at wakes ⊢
      rw [← Option.some.inj wakes]
      exact List.mem_cons_self
    · rw [s.setWakeup_other _ equal] at wakes ⊢
      exact List.mem_cons_of_mem _ (scheduled.set other wakesNs wakes)
  · intro event member
    show event.generation ≤ ((s.setWakeup bus _).wakeups event.bus).generation
    obtain rfl | member := List.mem_cons.mp member
    · rw [setWakeup_same]
    · by_cases equal : event.bus = bus
      · rw [equal, setWakeup_same]
        exact Nat.le_succ_of_le (before event member equal)
      · rw [s.setWakeup_other _ equal]
        exact scheduled.old event member
  · intro event member same
    replace same : event.generation = ((s.setWakeup bus _).wakeups event.bus).generation := same
    show ((s.setWakeup bus _).wakeups event.bus).dueNs = _
    obtain rfl | member := List.mem_cons.mp member
    · rw [setWakeup_same]
    · by_cases equal : event.bus = bus
      · rw [equal, setWakeup_same] at same
        exact absurd (same ▸ before event member equal) (Nat.not_succ_le_self _)
      · rw [s.setWakeup_other _ equal] at same ⊢
        exact scheduled.current event member same
  · refine List.nodup_cons.mpr ⟨fun member => ?_, scheduled.nodup⟩
    exact Nat.not_succ_le_self _ (before _ member rfl)

theorem scheduleModuleWakeup_scheduled (bus : I2cBus) (nowNs : Nat) (scheduled : s.Scheduled) :
    (s.scheduleModuleWakeup bus nowNs).Scheduled := by
  obtain ⟨same, _⟩ | ⟨_, same⟩ | ⟨dueNs, _, same⟩ := s.scheduleModuleWakeup_cases bus nowNs <;> rw [same]
  · exact scheduled
  · exact scheduled.cancel bus
  · exact scheduled.renew bus _

theorem scheduleWakeupsForAllModules_scheduled (nowNs : Nat) (scheduled : s.Scheduled) :
    (s.scheduleWakeupsForAllModules nowNs).Scheduled :=
  scheduleModuleWakeup_scheduled _ _ (scheduleModuleWakeup_scheduled _ _ scheduled)

theorem scheduleWakeupsForAllModules_covered (s : McuI2c) (nowNs : Nat) (bus : I2cBus) :
    (s.scheduleWakeupsForAllModules nowNs).Covered bus := by
  unfold scheduleWakeupsForAllModules
  cases bus with
  | i2c1 => exact scheduleModuleWakeup_covered _ _ _
  | i2c0 =>
    intro due
    have different : I2cBus.i2c0 ≠ I2cBus.i2c1 := I2cBus.noConfusion
    rw [scheduleModuleWakeup_other _ nowNs different]
    rw [(scheduleModuleWakeup_same _ _ _).1] at due
    exact scheduleModuleWakeup_covered _ _ _ due

/-- When a step does what the queue needs. Times leave room for the longest delay of an engine. The wake-up of a
module that ends its transaction either changes the outputs, or a settle is due, or what is queued is for the same
controller. A reset finds no transaction on a controller that it resets. -/
def Meets (s : McuI2c) : I2cStep → Prop
  | .submit _ nowNs => Fits nowNs
  | .settle _ => True
  | .wakeup event nowNs changed =>
    Fits nowNs ∧ (s.dirty = true ∨ changed = true ∨
      (∀ engine, s.i2c.engines event.bus = some engine → (engine.onWakeup nowNs).busy = true) ∨
        ∀ transaction ∈ s.i2c.queue, transaction.op.bus = event.bus)
  | .peripheralReset bus => ∀ transaction, s.i2c.current = some transaction → transaction.op.bus ≠ bus
  | .socDigitalReset => s.i2c.current = none

/-- Nothing has been submitted, and the modules that exist are in reset. -/
def initial (modules : I2cBus → Bool) : McuI2c where
  i2c := { engines := fun bus => if modules bus then some {} else none }

theorem initial_engine {modules : I2cBus → Bool} {bus : I2cBus} {engine : I2cState}
    (found : (initial modules).i2c.engines bus = some engine) : engine = {} := by
  unfold initial at found
  dsimp only at found
  split at found
  · exact (Option.some.inj found).symm
  · exact absurd found.symm (Option.some_ne_none _)

theorem initial_invariant (modules : I2cBus → Bool) : (initial modules).Invariant where
  history := ⟨rfl, fun _ member => absurd member List.not_mem_nil, List.nodup_nil⟩
  settled bus engine found := initial_engine found ▸ I2cState.settled_reset
  busy := ⟨fun _ => rfl, fun _ current => absurd current.symm (Option.some_ne_none _)⟩
  scheduled :=
    ⟨fun _ _ wakes => absurd wakes.symm (Option.some_ne_none _), fun _ member => absurd member List.not_mem_nil,
      fun _ member => absurd member List.not_mem_nil, List.nodup_nil⟩
  covered _ bus due := by
    obtain ⟨dueNs, due⟩ := Option.ne_none_iff_exists'.mp due
    obtain ⟨engine, found, due⟩ := Option.bind_eq_some_iff.mp due
    rw [initial_engine found] at due
    exact absurd due.symm (Option.some_ne_none _)

theorem settle_invariant (invariant : s.Invariant) (nowNs : Nat) :
    (s.settle nowNs).Invariant := by
  have same : (s.scheduleWakeupsForAllModules nowNs).i2c = s.i2c :=
    (scheduleModuleWakeup_same _ _ _).1.trans (scheduleModuleWakeup_same _ _ _).1
  refine ⟨?_, ?_, ?_, ?_, fun _ => s.scheduleWakeupsForAllModules_covered nowNs⟩
  · exact same ▸ invariant.history
  · exact same ▸ invariant.settled
  · exact same ▸ invariant.busy
  · exact (scheduleWakeupsForAllModules_scheduled nowNs invariant.scheduled).of_eq rfl rfl

theorem submit_invariant (invariant : s.Invariant) {transaction : VnextBElectricalI2c} (accepts : s.Accepts transaction)
    (fits : Fits nowNs) : (s.submit transaction nowNs).Invariant := by
  obtain ⟨positive, waits, fresh⟩ := accepts
  refine ⟨?_, ?_, ?_, invariant.scheduled.of_eq rfl rfl, fun clean => absurd clean.symm Bool.false_ne_true⟩
  · exact I2cQueue.startOrQueue_keeps (I2cQueue.history_completes nowNs) transaction
      (invariant.history.push positive waits fresh)
  · exact I2cQueue.startOrQueue_keeps (I2cQueue.settled_completes fits) transaction invariant.settled
  · refine I2cQueue.startOrQueue_busy ?_ transaction nowNs
    exact ⟨invariant.busy.queue, invariant.busy.busy⟩

theorem peripheralReset_invariant (invariant : s.Invariant) {bus : I2cBus}
    (other : ∀ transaction, s.i2c.current = some transaction → transaction.op.bus ≠ bus) :
    (s.peripheralReset bus).Invariant := by
  refine ⟨?_, ?_, ⟨invariant.busy.queue, ?_⟩, invariant.scheduled.of_eq rfl rfl,
    fun clean => absurd clean.symm Bool.false_ne_true⟩
  · refine invariant.history.keep ?_ rfl
    exact ⟨rfl, rfl, rfl, rfl⟩
  · intro bus' engine found
    replace found : Function.update s.i2c.engines bus (resetEngine (s.i2c.engines bus)) bus' = some engine := found
    by_cases same : bus' = bus
    · rw [same, Function.update_self] at found
      obtain ⟨before, _, rfl⟩ := Option.map_eq_some_iff.mp found
      exact I2cState.settled_reset
    · rw [Function.update_of_ne same] at found
      exact invariant.settled _ _ found
  · intro transaction current
    obtain ⟨engine, found, busy⟩ := invariant.busy.busy transaction current
    exact ⟨engine, (Function.update_of_ne (other transaction current) _ _).trans found, busy⟩

theorem socDigitalReset_invariant (invariant : s.Invariant) (idle : s.i2c.current = none) :
    s.socDigitalReset.Invariant := by
  refine ⟨?_, ?_, ⟨invariant.busy.queue, ?_⟩, ?_, fun clean => absurd clean.symm Bool.false_ne_true⟩
  · refine invariant.history.keep ?_ rfl
    exact ⟨rfl, rfl, rfl, rfl⟩
  · intro bus engine found
    obtain ⟨before, _, rfl⟩ := Option.map_eq_some_iff.mp found
    exact I2cState.settled_reset
  · exact fun transaction current => absurd (idle.symm.trans current) (Option.some_ne_none _).symm
  · refine ⟨fun bus dueNs wakes => absurd wakes.symm (Option.some_ne_none _), ?_, ?_, invariant.scheduled.nodup⟩
    · exact fun event member => Nat.le_succ_of_le (invariant.scheduled.old event member)
    · intro event member same
      replace same : event.generation = (s.wakeups event.bus).generation + 1 := same
      exact absurd (same ▸ invariant.scheduled.old event member) (Nat.not_succ_le_self _)

theorem onWakeup_keeps {P : I2cQueue → Prop} {q : I2cQueue} {bus : I2cBus} (completes : I2cQueue.Completes P nowNs)
    (missing : P q) (found : ∀ engine, q.engines bus = some engine → P (q.setEngine bus (engine.onWakeup nowNs))) :
    P (onWakeup q bus nowNs) := by
  unfold onWakeup
  split
  · exact missing
  · next engine engineAt => exact I2cQueue.complete_keeps completes (found engine engineAt)

theorem onWakeup_history {q : I2cQueue} (bus : I2cBus) (nowNs : Nat) (history : q.History) :
    (onWakeup q bus nowNs).History := by
  refine onWakeup_keeps (I2cQueue.history_completes nowNs) history fun engine _ => history.keep ?_ rfl
  exact ⟨rfl, rfl, rfl, rfl⟩

theorem onWakeup_settled {q : I2cQueue} (bus : I2cBus) (settled : q.Settled) (fits : Fits nowNs) :
    (onWakeup q bus nowNs).Settled := by
  refine onWakeup_keeps (I2cQueue.settled_completes fits) settled fun engine found => ?_
  exact I2cQueue.forall_setEngine (I2cState.onWakeup_settled (settled _ _ found) fits) settled

theorem onWakeup_busy {q : I2cQueue} (bus : I2cBus) (nowNs : Nat) (busy : q.Busy) : (onWakeup q bus nowNs).Busy := by
  unfold onWakeup
  split
  · exact busy
  · next engine _ =>
    refine I2cQueue.complete_busy ?_ busy.queue
    intro transaction current
    by_cases same : transaction.op.bus = bus
    · rw [same]
      exact ⟨_, I2cQueue.setEngine_same _ _ _⟩
    · obtain ⟨engine, found⟩ := busy.present transaction current
      exact ⟨engine, (I2cQueue.setEngine_other _ _ same).trans found⟩

/-- Unless the transaction of the module is over and the next one is for the other controller, that one stays. -/
theorem onWakeup_other {q : I2cQueue} {bus other : I2cBus} (busy : q.Busy) (different : other ≠ bus)
    (meets : (∀ engine, q.engines bus = some engine → (engine.onWakeup nowNs).busy = true) ∨
      ∀ transaction ∈ q.queue, transaction.op.bus = bus) :
    (onWakeup q bus nowNs).engines other = q.engines other := by
  unfold onWakeup
  cases found : q.engines bus with
  | none => rfl
  | some engine =>
    dsimp only
    have kept : (q.setEngine bus (engine.onWakeup nowNs)).engines other = q.engines other :=
      q.setEngine_other _ different
    cases current : (q.setEngine bus (engine.onWakeup nowNs)).current with
    | none =>
      unfold I2cQueue.complete
      rw [I2cQueue.completeIfDone_none current]
      exact kept
    | some transaction =>
      by_cases same : transaction.op.bus = bus
      · have engineAt : (q.setEngine bus (engine.onWakeup nowNs)).engines transaction.op.bus =
            some (engine.onWakeup nowNs) := by
          rw [same]
          exact q.setEngine_same bus _
        obtain goesOn | queued := meets
        · rw [I2cQueue.complete_of_busy current engineAt (goesOn engine found)]
          exact kept
        · refine (I2cQueue.complete_keeps (I2cQueue.other_completes bus other different _) ⟨?_, kept⟩).2
          intro waiting member
          obtain first | rest := List.mem_append.mp member
          · rw [current] at first
            exact List.mem_singleton.mp first ▸ same
          · exact queued waiting rest
      · obtain ⟨working, engineAt, busy⟩ := busy.busy transaction current
        rw [I2cQueue.complete_of_busy current ((q.setEngine_other _ same).trans engineAt) busy]
        exact kept

/-- An event of an old generation goes. -/
theorem Scheduled.drop {event : WakeupEvent} (scheduled : s.Scheduled)
    (stale : (s.wakeups event.bus).generation ≠ event.generation) :
    (s.takeEvent event).Scheduled := by
  refine ⟨?_, ?_, ?_, scheduled.nodup.erase event⟩
  · intro bus dueNs wakes
    refine (List.mem_erase_of_ne ?_).mpr (scheduled.set bus dueNs wakes)
    intro same
    apply stale
    rw [← same]
    rfl
  · exact fun other member => scheduled.old other (List.mem_of_mem_erase member)
  · exact fun other member => scheduled.current other (List.mem_of_mem_erase member)

/-- The event of the current generation goes, and with it the wake-up. -/
theorem Scheduled.fire {event : WakeupEvent} (scheduled : s.Scheduled) (member : event ∈ s.scheduled)
    (current : (s.wakeups event.bus).generation = event.generation) :
    ((s.takeEvent event).setWakeup event.bus { generation := event.generation }).Scheduled := by
  have wakes := scheduled.current event member current.symm
  refine ⟨?_, ?_, ?_, scheduled.nodup.erase event⟩
  · intro bus dueNs set
    by_cases equal : bus = event.bus
    · rw [equal, setWakeup_same] at set
      exact absurd set.symm (Option.some_ne_none _)
    · rw [setWakeup_other _ _ equal] at set ⊢
      refine (List.mem_erase_of_ne ?_).mpr (scheduled.set bus dueNs set)
      exact fun same => equal (congrArg WakeupEvent.bus same)
  · intro other otherAt
    have old := scheduled.old other (List.mem_of_mem_erase otherAt)
    by_cases equal : other.bus = event.bus
    · rw [equal] at old ⊢
      rw [setWakeup_same]
      exact current ▸ old
    · rw [setWakeup_other _ _ equal]
      exact old
  · intro other otherAt same
    have otherAt' := List.mem_of_mem_erase otherAt
    by_cases equal : other.bus = event.bus
    · rw [equal, setWakeup_same] at same
      have time := scheduled.current other otherAt' (by rw [equal, current]; exact same)
      rw [equal, wakes] at time
      have this : other = event := by
        cases other
        cases event
        simp_all
      rw [this] at otherAt
      exact absurd otherAt scheduled.nodup.not_mem_erase
    · rw [setWakeup_other _ _ equal] at same ⊢
      exact scheduled.current other otherAt' same

theorem woken_scheduled {event : WakeupEvent} (scheduled : s.Scheduled) (member : event ∈ s.scheduled)
    (current : (s.wakeups event.bus).generation = event.generation) : (s.woken event nowNs).Scheduled :=
  (scheduled.fire member current).of_eq rfl rfl

theorem woken_other (s : McuI2c) (event : WakeupEvent) (nowNs : Nat) {bus : I2cBus} (different : bus ≠ event.bus) :
    (s.woken event nowNs).wakeups bus = s.wakeups bus := (s.takeEvent event).setWakeup_other _ different

theorem runModuleWakeup_invariant (invariant : s.Invariant) {event : WakeupEvent} {changed : Bool}
    (member : event ∈ s.scheduled) (meets : s.Meets (.wakeup event nowNs changed)) :
    (s.runModuleWakeup event nowNs changed).Invariant := by
  obtain ⟨fits, meets⟩ := meets
  unfold runModuleWakeup
  split
  · next stale =>
    exact ⟨invariant.history, invariant.settled, invariant.busy, invariant.scheduled.drop stale, invariant.covered⟩
  · next current =>
    have scheduled : (s.woken event nowNs).Scheduled := woken_scheduled invariant.scheduled member (not_not.mp current)
    have same : ((s.woken event nowNs).scheduleModuleWakeup event.bus nowNs).i2c = onWakeup s.i2c event.bus nowNs :=
      (scheduleModuleWakeup_same _ _ _).1
    refine ⟨?_, ?_, ?_, (scheduleModuleWakeup_scheduled event.bus nowNs scheduled).of_eq rfl rfl, ?_⟩
    · exact same ▸ onWakeup_history event.bus nowNs invariant.history
    · exact same ▸ onWakeup_settled event.bus invariant.settled fits
    · exact same ▸ onWakeup_busy event.bus nowNs invariant.busy
    · intro clean bus
      obtain ⟨clean, still⟩ := Bool.or_eq_false_iff.mp clean
      by_cases this : bus = event.bus
      · rw [this]
        exact scheduleModuleWakeup_covered _ _ _
      · intro due
        replace due : ((s.woken event nowNs).scheduleModuleWakeup event.bus nowNs).i2c.dueNs bus ≠ none := due
        show (((s.woken event nowNs).scheduleModuleWakeup event.bus nowNs).wakeups bus).dueNs ≠ none
        rw [scheduleModuleWakeup_other _ nowNs this, s.woken_other event nowNs this]
        have kept : (onWakeup s.i2c event.bus nowNs).engines bus = s.i2c.engines bus := by
          refine onWakeup_other invariant.busy this ?_
          obtain dirty | changes | meets := meets
          · exact absurd (clean.symm.trans dirty) Bool.false_ne_true
          · exact absurd (still.symm.trans changes) Bool.false_ne_true
          · exact meets
        refine invariant.covered clean bus ?_
        unfold I2cQueue.dueNs at due ⊢
        rw [← kept, ← same]
        exact due

theorem step_invariant {label : I2cStep} {t : McuI2c} (invariant : s.Invariant) (step : s.step label = some t)
    (meets : s.Meets label) : t.Invariant := by
  cases label with
  | submit transaction nowNs =>
    obtain ⟨accepts, same⟩ := Option.ite_none_right_eq_some.mp step
    obtain rfl := Option.some.inj same
    exact submit_invariant invariant accepts meets
  | settle nowNs =>
    obtain rfl := Option.some.inj step
    exact settle_invariant invariant nowNs
  | wakeup event nowNs changed =>
    obtain ⟨⟨member, _⟩, same⟩ := Option.ite_none_right_eq_some.mp step
    obtain rfl := Option.some.inj same
    exact runModuleWakeup_invariant invariant member meets
  | peripheralReset bus =>
    obtain rfl := Option.some.inj step
    exact peripheralReset_invariant invariant meets
  | socDigitalReset =>
    obtain rfl := Option.some.inj step
    exact socDigitalReset_invariant invariant meets

/-! ### The queue advances -/

/-- A wake-up that comes before the engine has anything to do. -/
def early (s : McuI2c) (bus : I2cBus) : Nat :=
  match (s.wakeups bus).dueNs, s.i2c.dueNs bus with
  | some wakesNs, some dueNs => if wakesNs < dueNs then 1 else 0
  | some _, none => 1
  | none, _ => 0

/-- A bound on the wake-ups that take effect before nothing is left to do. -/
def rank (s : McuI2c) : Nat := 2 * s.i2c.rank + (s.early .i2c0 + s.early .i2c1)

theorem early_le_one (s : McuI2c) (bus : I2cBus) : s.early bus ≤ 1 := by
  unfold early
  split
  · split <;> decide
  · exact le_rfl
  · exact Nat.zero_le 1

theorem early_of_none {bus : I2cBus} (unset : (s.wakeups bus).dueNs = none) : s.early bus = 0 := by
  unfold early
  rw [unset]

theorem early_le {t : McuI2c} {bus : I2cBus} (wakeups : t.wakeups bus = s.wakeups bus)
    (keeps : ∀ dueNs, s.i2c.dueNs bus = some dueNs → t.i2c.dueNs bus = some dueNs) : t.early bus ≤ s.early bus := by
  cases wakes : (s.wakeups bus).dueNs with
  | none => exact (early_of_none ((congrArg Wakeup.dueNs wakeups).trans wakes)).trans_le (Nat.zero_le _)
  | some wakesNs =>
    cases due : s.i2c.dueNs bus with
    | none =>
      refine (t.early_le_one bus).trans (le_of_eq ?_)
      unfold early
      rw [wakes, due]
    | some dueNs =>
      unfold early
      rw [wakeups, wakes, due, keeps dueNs due]

theorem scheduleModuleWakeup_early (s : McuI2c) (bus : I2cBus) (nowNs : Nat) :
    (s.scheduleModuleWakeup bus nowNs).early bus ≤ s.early bus := by
  obtain ⟨same, _⟩ | ⟨_, same⟩ | ⟨dueNs, due, same⟩ := s.scheduleModuleWakeup_cases bus nowNs <;> rw [same]
  · rw [early_of_none]
    · exact Nat.zero_le _
    · rw [setWakeup_same]
  · unfold early
    rw [show ((s.setWakeup bus _).wakeups bus) = _ from s.setWakeup_same bus _]
    show (match some (max dueNs nowNs), s.i2c.dueNs bus with
      | some wakesNs, some dueNs => if wakesNs < dueNs then 1 else 0
      | some _, none => 1
      | none, _ => 0) ≤ _
    rw [due]
    dsimp only
    rw [if_neg (Nat.not_lt_of_le (Nat.le_max_left _ _))]
    exact Nat.zero_le _

theorem scheduleModuleWakeup_rank_le (s : McuI2c) (bus : I2cBus) (nowNs : Nat) :
    (s.scheduleModuleWakeup bus nowNs).rank ≤ s.rank := by
  have own := s.scheduleModuleWakeup_early bus nowNs
  have same := (s.scheduleModuleWakeup_same bus nowNs).1
  have other : ∀ other, other ≠ bus → (s.scheduleModuleWakeup bus nowNs).early other ≤ s.early other := by
    intro other different
    refine early_le (s.scheduleModuleWakeup_other nowNs different) fun dueNs due => ?_
    rw [same]
    exact due
  unfold rank
  rw [same]
  cases bus with
  | i2c0 => exact Nat.add_le_add_left (Nat.add_le_add own (other .i2c1 I2cBus.noConfusion)) _
  | i2c1 => exact Nat.add_le_add_left (Nat.add_le_add (other .i2c0 I2cBus.noConfusion) own) _

theorem onWakeup_rank_le {q : I2cQueue} (bus : I2cBus) (nowNs : Nat) : (onWakeup q bus nowNs).rank ≤ q.rank := by
  refine onWakeup_keeps (I2cQueue.rank_completes q.rank) le_rfl fun engine found => ?_
  have put : (q.setEngine bus (engine.onWakeup nowNs)).rank + engine.rank = q.rank + (engine.onWakeup nowNs).rank :=
    I2cQueue.setEngine_rank found
  have le := engine.onWakeup_rank_le nowNs
  omega

theorem onWakeup_rank_lt {q : I2cQueue} {bus : I2cBus} {nowNs dueNs : Nat} (due : q.dueNs bus = some dueNs)
    (passed : dueNs ≤ nowNs) : (onWakeup q bus nowNs).rank < q.rank := by
  obtain ⟨engine, found, due⟩ := Option.bind_eq_some_iff.mp due
  have put : (q.setEngine bus (engine.onWakeup nowNs)).rank + engine.rank = q.rank + (engine.onWakeup nowNs).rank :=
    I2cQueue.setEngine_rank found
  have lt := I2cState.onWakeup_rank_lt due passed
  unfold onWakeup
  rw [found]
  refine Nat.lt_of_le_of_lt (I2cQueue.complete_keeps (I2cQueue.rank_completes _) le_rfl) ?_
  omega

theorem onWakeup_dueNs {q : I2cQueue} {bus other : I2cBus} {nowNs dueNs : Nat} (different : other ≠ bus)
    (due : q.dueNs other = some dueNs) : (onWakeup q bus nowNs).dueNs other = some dueNs := by
  refine onWakeup_keeps (I2cQueue.dueNs_completes other dueNs) due fun engine _ => ?_
  unfold I2cQueue.dueNs
  rw [q.setEngine_other _ different]
  exact due

theorem woken_rank_lt {event : WakeupEvent} (scheduled : s.Scheduled) (member : event ∈ s.scheduled)
    (current : (s.wakeups event.bus).generation = event.generation) (passed : event.timeNs ≤ nowNs) :
    (s.woken event nowNs).rank < s.rank := by
  have wakes : (s.wakeups event.bus).dueNs = some event.timeNs := scheduled.current event member current.symm
  have own : (s.woken event nowNs).early event.bus = 0 := by
    apply early_of_none
    show (Function.update s.wakeups event.bus _ event.bus).dueNs = none
    rw [Function.update_self]
  have other : ∀ bus, bus ≠ event.bus → (s.woken event nowNs).early bus ≤ s.early bus := fun bus different =>
    early_le (s.woken_other event nowNs different) fun _ due => onWakeup_dueNs different due
  -- Either the engine advances, or the wake-up came too early and the next one does not.
  have less : 2 * (onWakeup s.i2c event.bus nowNs).rank < 2 * s.i2c.rank + s.early event.bus := by
    have le : (onWakeup s.i2c event.bus nowNs).rank ≤ s.i2c.rank := onWakeup_rank_le event.bus nowNs
    cases due : s.i2c.dueNs event.bus with
    | none =>
      have one : s.early event.bus = 1 := by
        unfold early
        rw [wakes, due]
      omega
    | some dueNs =>
      by_cases before : event.timeNs < dueNs
      · have one : s.early event.bus = 1 := by
          unfold early
          rw [wakes, due]
          exact if_pos before
        omega
      · have lt := onWakeup_rank_lt due ((Nat.le_of_not_lt before).trans passed)
        omega
  unfold rank
  show 2 * (onWakeup s.i2c event.bus nowNs).rank + _ < _
  cases bus : event.bus with
  | i2c0 =>
    have rest := other .i2c1 (by rw [bus]; exact I2cBus.noConfusion)
    rw [bus] at own less
    omega
  | i2c1 =>
    have rest := other .i2c0 (by rw [bus]; exact I2cBus.noConfusion)
    rw [bus] at own less
    omega

theorem runModuleWakeup_rank_le {event : WakeupEvent} {changed : Bool} (scheduled : s.Scheduled)
    (member : event ∈ s.scheduled) (passed : event.timeNs ≤ nowNs) :
    (s.runModuleWakeup event nowNs changed).delivered + (s.runModuleWakeup event nowNs changed).rank ≤
      s.delivered + s.rank := by
  unfold runModuleWakeup
  split
  · exact le_rfl
  · next current =>
    have woken := woken_rank_lt scheduled member (not_not.mp current) passed
    have set := (s.woken event nowNs).scheduleModuleWakeup_rank_le event.bus nowNs
    have count : ((s.woken event nowNs).scheduleModuleWakeup event.bus nowNs).delivered = s.delivered + 1 :=
      (scheduleModuleWakeup_same _ _ _).2.2
    show ((s.woken event nowNs).scheduleModuleWakeup event.bus nowNs).delivered +
      ((s.woken event nowNs).scheduleModuleWakeup event.bus nowNs).rank ≤ _
    omega

theorem settle_rank_le (s : McuI2c) (nowNs : Nat) : (s.scheduleWakeupsForAllModules nowNs).rank ≤ s.rank :=
  (scheduleModuleWakeup_rank_le _ _ _).trans (scheduleModuleWakeup_rank_le _ _ _)

theorem settle_delivered (s : McuI2c) (nowNs : Nat) : (s.scheduleWakeupsForAllModules nowNs).delivered = s.delivered :=
  (scheduleModuleWakeup_same _ _ _).2.2.trans (scheduleModuleWakeup_same _ _ _).2.2

theorem peripheralReset_rank_le (s : McuI2c) (bus : I2cBus) : (s.peripheralReset bus).rank ≤ s.rank := by
  have other : ∀ other, other ≠ bus → (s.peripheralReset bus).early other ≤ s.early other := by
    intro other different
    refine early_le rfl fun dueNs due => ?_
    unfold I2cQueue.dueNs
    show (Function.update s.i2c.engines bus _ other).bind _ = _
    rw [Function.update_of_ne different]
    exact due
  have own : 2 * (s.peripheralReset bus).i2c.rank + (s.peripheralReset bus).early bus ≤
      2 * s.i2c.rank + s.early bus := by
    cases found : s.i2c.engines bus with
    | none =>
      have same : (s.peripheralReset bus).i2c = s.i2c := by
        unfold peripheralReset
        dsimp only
        rw [found, resetEngine, Option.map_none, ← found, Function.update_eq_self]
      have early : (s.peripheralReset bus).early bus ≤ s.early bus := early_le rfl fun dueNs due => same ▸ due
      rw [same]
      exact Nat.add_le_add_left early _
    | some engine =>
      have same : (s.peripheralReset bus).i2c = s.i2c.setEngine bus {} := by
        unfold peripheralReset
        rw [found]
        rfl
      have put : (s.i2c.setEngine bus {}).rank + engine.rank = s.i2c.rank + ({} : I2cState).rank :=
        I2cQueue.setEngine_rank found
      have zero : ({} : I2cState).rank = 0 := rfl
      rw [same]
      cases due : engine.dueNs with
      | none =>
        have early : (s.peripheralReset bus).early bus ≤ s.early bus := by
          refine early_le rfl fun dueNs set => ?_
          unfold I2cQueue.dueNs at set
          rw [found] at set
          exact absurd (due.symm.trans set) (Option.some_ne_none _).symm
        omega
      | some dueNs =>
        have one : 1 ≤ engine.rank := by
          unfold I2cState.rank
          rw [due]
          exact Nat.le_add_left _ _
        have early := (s.peripheralReset bus).early_le_one bus
        omega
  unfold rank
  cases bus with
  | i2c0 =>
    have rest := other .i2c1 I2cBus.noConfusion
    omega
  | i2c1 =>
    have rest := other .i2c0 I2cBus.noConfusion
    omega

theorem socDigitalReset_rank_le (s : McuI2c) : s.socDigitalReset.rank ≤ s.rank := by
  have zero : ∀ bus, s.socDigitalReset.i2c.engineRank bus = 0 := by
    intro bus
    unfold I2cQueue.engineRank
    show ((resetEngine (s.i2c.engines bus)).map I2cState.rank).getD 0 = 0
    cases s.i2c.engines bus <;> rfl
  have unset : ∀ bus, s.socDigitalReset.early bus = 0 := fun bus => early_of_none rfl
  unfold rank I2cQueue.rank
  rw [zero, zero, unset, unset]
  show 2 * (0 + 0 + (s.i2c.queue.map VnextBElectricalI2c.rank).sum) + _ ≤ _
  omega

end McuI2c

def I2cStep.isSubmit : I2cStep → Bool
  | .submit _ _ => true
  | _ => false

namespace McuI2c

variable {s t : McuI2c} {label : I2cStep}

theorem step_rank_le (invariant : s.Invariant) (step : s.step label = some t) (quiet : label.isSubmit = false) :
    t.delivered + t.rank ≤ s.delivered + s.rank := by
  cases label with
  | submit transaction nowNs => exact absurd quiet.symm Bool.false_ne_true
  | settle nowNs =>
    obtain rfl := Option.some.inj step
    have le := s.settle_rank_le nowNs
    have same := s.settle_delivered nowNs
    show (s.scheduleWakeupsForAllModules nowNs).delivered + (s.scheduleWakeupsForAllModules nowNs).rank ≤ _
    omega
  | wakeup event nowNs changed =>
    obtain ⟨⟨member, passed⟩, same⟩ := Option.ite_none_right_eq_some.mp step
    obtain rfl := Option.some.inj same
    exact runModuleWakeup_rank_le invariant.scheduled member passed
  | peripheralReset bus =>
    obtain rfl := Option.some.inj step
    exact Nat.add_le_add_left (s.peripheralReset_rank_le bus) _
  | socDigitalReset =>
    obtain rfl := Option.some.inj step
    exact Nat.add_le_add_left s.socDigitalReset_rank_le _

/-- A step of the MCU. -/
def Stepped (s : McuI2c) (label : I2cStep) (t : McuI2c) : Prop := s.step label = some t

/-- A step that does what the queue needs. -/
def Served (s : McuI2c) (label : I2cStep) (t : McuI2c) : Prop := s.step label = some t ∧ s.Meets label

/-- Such a step without a new request. -/
def Drained (s : McuI2c) (label : I2cStep) (t : McuI2c) : Prop := s.Served label t ∧ label.isSubmit = false

theorem served_invariant {labels : List I2cStep} (run : Lib.Trace.Run Served s labels t) (invariant : s.Invariant) :
    t.Invariant :=
  run.invariant invariant fun _ _ _ invariant ⟨step, meets⟩ => step_invariant invariant step meets

theorem drained_rank_le {labels : List I2cStep} (run : Lib.Trace.Run Drained s labels t) (invariant : s.Invariant) :
    t.delivered + t.rank ≤ s.delivered + s.rank := by
  have both : t.Invariant ∧ t.delivered + t.rank ≤ s.delivered + s.rank := by
    refine run.invariant (P := fun u => u.Invariant ∧ u.delivered + u.rank ≤ s.delivered + s.rank)
      ⟨invariant, le_rfl⟩ fun u label v holds drained => ?_
    obtain ⟨⟨step, meets⟩, quiet⟩ := drained
    exact ⟨step_invariant holds.1 step meets, (step_rank_le holds.1 step quiet).trans holds.2⟩
  exact both.2

/-- A request to write one byte to the device at the address 0x50 of the first controller. -/
def probe : VnextBElectricalI2c :=
  { lane := 0
    requestSeq := 1
    op :=
      { bus := .i2c0, start := true, stop := true, lastReadNack := false, address := 0xa0, tx := [], rxBytes := 0,
        periodNs := 0 } }

end McuI2c

end LasecSimul.Mcu
