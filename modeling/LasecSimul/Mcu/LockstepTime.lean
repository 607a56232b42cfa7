import Mathlib.Algebra.GroupWithZero.Nat
import LasecSimul.Scheduling.HardEvents

/-!
# The time a lockstep MCU is told

`publishLockstepTime` tells the artifact up to where the core has processed everything, and two horizons ahead of
it. All of it is arithmetic on `uint64_t`, in which `UINT64_MAX` stands for "none".
-/

namespace LasecSimul.Mcu

open Scheduling

/-- The subtractions are recorded, first operand and second. -/
abbrev Logged := StateM (List (UInt64 × UInt64))

def subtract (a b : UInt64) : Logged UInt64 := fun made => (a - b, made ++ [(a, b)])

/-- No subtraction of `m` underflows, and its result has the property `Q`. -/
def Yields {α : Type} (m : Logged α) (Q : α → Prop) : Prop :=
  ∀ made, ∃ more, (m made).2 = made ++ more ∧ (∀ operands ∈ more, operands.2 ≤ operands.1) ∧ Q (m made).1

namespace Yields

variable {α β : Type} {m : Logged α} {f : α → Logged β} {Q Q' : α → Prop} {S : β → Prop}

theorem pure {a : α} (holds : Q a) : Yields (Pure.pure a : Logged α) Q :=
  fun made => ⟨[], (List.append_nil made).symm, List.forall_mem_nil _, holds⟩

theorem bind (first : Yields m Q) (second : ∀ a, Q a → Yields (f a) S) : Yields (m >>= f) S := by
  intro made
  obtain ⟨more, made', fine, holds⟩ := first made
  obtain ⟨more', made'', fine', holds'⟩ := second _ holds (m made).2
  refine ⟨more ++ more', ?_, List.forall_mem_append.mpr ⟨fine, fine'⟩, holds'⟩
  rw [← List.append_assoc, ← made']
  exact made''

theorem mono (yields : Yields m Q) (weaker : ∀ a, Q a → Q' a) : Yields m Q' := by
  intro made
  obtain ⟨more, made', fine, holds⟩ := yields made
  exact ⟨more, made', fine, weaker _ holds⟩

theorem subtract {a b : UInt64} (le : b ≤ a) : Yields (Mcu.subtract a b) fun c => c.toNat = a.toNat - b.toNat :=
  fun _ => ⟨[(a, b)], rfl, List.forall_mem_singleton.mpr le, UInt64.toNat_sub_of_le _ _ le⟩

end Yields

/-! ### The code -/

def maxTimeNs : UInt64 := 0xFFFFFFFFFFFFFFFF

def kLockstepQuantumNs : UInt64 := 1000000

def kLockstepPeerLookaheadNs : UInt64 := 10000

def vnextEventTimeNs (originNs timestampNs : UInt64) : Logged UInt64 := do
  let room ← subtract maxTimeNs originNs
  return if timestampNs > room then maxTimeNs else originNs + timestampNs

/-- What the scheduler reports at the end of a cycle. A hard event is an event. -/
structure Settled where
  nowNs : UInt64
  nextEventNs : UInt64
  nextHardEventNs : UInt64
  ordered : nextEventNs ≤ nextHardEventNs

/-- What was published last. -/
structure Published where
  seq : UInt64
  timeNs : UInt64
  horizonNs : UInt64
  inputHorizonNs : UInt64
  satisfiedSeq : UInt64
  deriving DecidableEq

structure McuLockstep where
  lockstep : Bool
  vnextBActive : Bool
  qemuTimeOriginNs : UInt64
  heartbeatWatermarkNs : UInt64
  prefetchNs : UInt64
  gpioInterruptArmed : Bool
  softEventsEnabled : Bool
  /-- `m_lockstepObservedSyncSeq` before the limit is read, and after the horizons are computed. -/
  seqBeforeLimit : UInt64
  syncSeq : UInt64

/-- The arguments of `publishCoreTime`. -/
structure CoreTime where
  syncSeq : UInt64
  timeNs : UInt64
  horizonNs : UInt64
  inputHorizonNs : UInt64
  scheduleNs : UInt64
  signal : Bool
  deriving DecidableEq

def lockstepProvenNs (mcu : McuLockstep) : UInt64 := max mcu.heartbeatWatermarkNs mcu.prefetchNs

/-- The instant up to which everything is processed, unless the next event is before the origin. -/
def doneNs (originNs limitNs : UInt64) (settled : Settled) : Logged (Option UInt64) :=
  if settled.nextEventNs ≤ min settled.nowNs limitNs then
    if settled.nextEventNs ≤ originNs then return none else some <$> subtract settled.nextEventNs 1
  else return some (min settled.nowNs limitNs)

def capNs (originNs timeNs peersProvenNs : UInt64) : Logged UInt64 :=
  if peersProvenNs ≠ maxTimeNs ∧ originNs ≤ peersProvenNs then do
    let ahead ← subtract peersProvenNs originNs
    return min (timeNs + kLockstepQuantumNs) (max ahead timeNs + kLockstepPeerLookaheadNs)
  else return timeNs + kLockstepQuantumNs

def toArtifact (originNs capNs coreNs : UInt64) : Logged UInt64 :=
  if coreNs = maxTimeNs then return capNs
  else do
    let artifactNs ← subtract coreNs originNs
    return min artifactNs capNs

def scheduleArtifactNs (originNs : UInt64) : Option UInt64 → Logged UInt64
  | none => return 0
  | some scheduleNs => if originNs < scheduleNs then subtract scheduleNs originNs else return 0

/-- `publishLockstepTime` from the instant `doneNs` on. -/
def publishAt (mcu : McuLockstep) (published : Published) (settled : Settled) (peersProvenNs limitNs doneNs : UInt64)
    (scheduleNs : Option UInt64) : Logged (Option CoreTime × Published) := do
  let originNs := mcu.qemuTimeOriginNs
  let timeNs ← subtract doneNs originNs
  let cap ← capNs originNs timeNs peersProvenNs
  let inputHorizonNs ← toArtifact originNs cap settled.nextEventNs
  let horizonNs ← toArtifact originNs cap
    (if !mcu.softEventsEnabled || mcu.gpioInterruptArmed then settled.nextEventNs
      else max settled.nextHardEventNs settled.nextEventNs)
  if mcu.syncSeq = published.seq ∧ timeNs = published.timeNs ∧ horizonNs = published.horizonNs ∧
      inputHorizonNs = published.inputHorizonNs then
    return (none, published)
  let schedule ← scheduleArtifactNs originNs scheduleNs
  let signal := mcu.syncSeq != published.satisfiedSeq
  let satisfiedSeq :=
    if limitNs ≤ doneNs ∧ mcu.syncSeq = mcu.seqBeforeLimit then mcu.syncSeq else published.satisfiedSeq
  return (some ⟨mcu.syncSeq, timeNs, horizonNs, inputHorizonNs, schedule, signal⟩,
    ⟨mcu.syncSeq, timeNs, horizonNs, inputHorizonNs, satisfiedSeq⟩)

def publishLockstepTime (mcu : McuLockstep) (published : Published) (settled : Settled) (peersProvenNs : UInt64)
    (scheduleNs : Option UInt64) : Logged (Option CoreTime × Published) :=
  if !mcu.lockstep || !mcu.vnextBActive then return (none, published)
  else do
    let limitNs ← vnextEventTimeNs mcu.qemuTimeOriginNs (lockstepProvenNs mcu)
    match ← doneNs mcu.qemuTimeOriginNs limitNs settled with
    | none => return (none, published)
    | some doneNs =>
      if doneNs < mcu.qemuTimeOriginNs then return (none, published)
      else publishAt mcu published settled peersProvenNs limitNs doneNs scheduleNs

/-- The snapshot of the next event is no later than the one of the next hard event. -/
theorem next_le_nextHard {s : Scheduler} (mirrored : Mirrored s)
    (fits : ∀ event ∈ s.events, event.timeNs ≤ noTime) :
    s.nextEventSnapshotNs ≤ s.nextHardEventSnapshotNs := by
  have first : ∀ event ∈ s.events.served, s.nextEventSnapshotNs ≤ event.timeNs := by
    intro event member
    rw [mirrored.next]
    have ordered := s.events.ordered
    unfold EventQueue.top
    cases served : s.events.served with
    | nil =>
      rw [served] at member
      cases member
    | cons top rest =>
      rw [served] at member ordered
      rcases List.mem_cons.mp member with rfl | member
      · exact Nat.le_refl _
      · rcases (List.pairwise_cons.mp ordered).1 event member with earlier | ⟨same, _⟩
        · exact Nat.le_of_lt earlier
        · exact Nat.le_of_eq same
  rw [mirrored.nextHard]
  cases hard : s.events.hardTimes with
  | nil =>
    rw [mirrored.next]
    show (s.events.served.head?.map (·.timeNs)).getD noTime ≤ noTime
    cases served : s.events.served with
    | nil => exact Nat.le_refl _
    | cons top rest => exact fits top (show top ∈ s.events.served from served ▸ List.mem_cons_self)
  | cons time rest =>
    have member : time ∈ s.events.hardTimes := hard ▸ List.mem_cons_self
    obtain ⟨event, inside, rfl⟩ := List.mem_map.mp member
    exact first event (List.mem_of_mem_filter inside)

/-- The instant that the artifact has proven. -/
def provenNs (mcu : McuLockstep) : Nat :=
  min (mcu.qemuTimeOriginNs.toNat + (lockstepProvenNs mcu).toNat) (2 ^ 64 - 1)

/-- The last instant that is processed. -/
def instantNs (mcu : McuLockstep) (settled : Settled) : Nat :=
  min (min settled.nowNs.toNat (provenNs mcu)) (settled.nextEventNs.toNat - 1)

/-- How far the other MCUs in lockstep have come, if there are any. -/
def peersNs (mcu : McuLockstep) (peersProvenNs : UInt64) : Option Nat :=
  if peersProvenNs ≠ maxTimeNs ∧ mcu.qemuTimeOriginNs ≤ peersProvenNs then
    some (peersProvenNs.toNat - mcu.qemuTimeOriginNs.toNat)
  else none

/-- The quantum after an instant, and no more than the lookahead after the other MCUs. -/
def limitOfCap (mcu : McuLockstep) (peersProvenNs : UInt64) (timeNs : Nat) : Nat :=
  match peersNs mcu peersProvenNs with
  | none => timeNs + 1000000
  | some peers => min (timeNs + 1000000) (max peers timeNs + 10000)

structure InTime (mcu : McuLockstep) (settled : Settled) (peersProvenNs : UInt64) (told : CoreTime) : Prop where
  now : mcu.qemuTimeOriginNs.toNat + told.timeNs.toNat ≤ settled.nowNs.toNat
  proven : mcu.qemuTimeOriginNs.toNat + told.timeNs.toNat ≤ provenNs mcu
  event : mcu.qemuTimeOriginNs.toNat + told.timeNs.toNat < settled.nextEventNs.toNat
  ahead : told.timeNs < told.inputHorizonNs
  input : told.inputHorizonNs ≤ told.horizonNs
  cap : told.inputHorizonNs.toNat ≤ limitOfCap mcu peersProvenNs told.timeNs.toNat
  hard : settled.nextHardEventNs ≠ maxTimeNs →
    mcu.qemuTimeOriginNs.toNat + told.horizonNs.toNat ≤ settled.nextHardEventNs.toNat

/-- No subtraction underflows, and what is published is in time. -/
def NeverOutruns (mcu : McuLockstep) (published : Published) (settled : Settled) (peersProvenNs : UInt64)
    (scheduleNs : Option UInt64) : Prop :=
  Yields (publishLockstepTime mcu published settled peersProvenNs scheduleNs) fun result =>
    ∀ told, result.1 = some told → InTime mcu settled peersProvenNs told

/-- Something is to be published. -/
structure Due (mcu : McuLockstep) (settled : Settled) : Prop where
  lockstep : mcu.lockstep = true
  active : mcu.vnextBActive = true
  event : mcu.qemuTimeOriginNs < settled.nextEventNs
  started : mcu.qemuTimeOriginNs ≤ settled.nowNs

/-- The quantum after an instant is a `uint64_t`, and so is the lookahead after the other MCUs, unless what is left of
it is after the instant all the same. -/
structure Fits (mcu : McuLockstep) (peersProvenNs : UInt64) (timeNs : Nat) : Prop where
  quantum : timeNs + 1000000 < 2 ^ 64
  lookahead : ∀ peers, peersNs mcu peersProvenNs = some peers →
    max peers timeNs + 10000 < 2 ^ 64 ∨ timeNs + 2 ^ 64 < max peers timeNs + 10000

theorem toNat_min (a b : UInt64) : (min a b).toNat = min a.toNat b.toNat := by
  show (if a ≤ b then a else b).toNat = _
  simp only [UInt64.le_iff_toNat_le]
  split <;> omega

theorem toNat_max (a b : UInt64) : (max a b).toNat = max a.toNat b.toNat := by
  show (if a ≤ b then b else a).toNat = _
  simp only [UInt64.le_iff_toNat_le]
  split <;> omega

theorem toNat_maxTimeNs : maxTimeNs.toNat = 2 ^ 64 - 1 := rfl

theorem le_maxTimeNs (a : UInt64) : a ≤ maxTimeNs := by
  rw [UInt64.le_iff_toNat_le, toNat_maxTimeNs]
  have := a.toNat_lt
  omega

variable {mcu : McuLockstep} {settled : Settled} {peersProvenNs : UInt64}

theorem vnextEventTimeNs_yields (mcu : McuLockstep) :
    Yields (vnextEventTimeNs mcu.qemuTimeOriginNs (lockstepProvenNs mcu)) fun limit => limit.toNat = provenNs mcu := by
  refine .bind (.subtract (le_maxTimeNs _)) fun room is => .pure ?_
  unfold provenNs
  rw [toNat_maxTimeNs] at is
  have := (lockstepProvenNs mcu).toNat_lt
  have := mcu.qemuTimeOriginNs.toNat_lt
  split
  · next exceeds =>
    have exceeds := UInt64.lt_iff_toNat_lt.mp exceeds
    rw [toNat_maxTimeNs]
    omega
  · next fits =>
    have fits := UInt64.not_lt.mp fits
    rw [UInt64.le_iff_toNat_le] at fits
    rw [UInt64.toNat_add]
    omega

/-- The instant, if the next event is after the origin. -/
theorem doneNs_yields {limitNs : UInt64} (limit : limitNs.toNat = provenNs mcu) :
    Yields (doneNs mcu.qemuTimeOriginNs limitNs settled) fun done =>
      if mcu.qemuTimeOriginNs < settled.nextEventNs then ∃ instant, done = some instant ∧
        instant.toNat = instantNs mcu settled
      else ∀ instant, done = some instant → instant < mcu.qemuTimeOriginNs := by
  unfold doneNs instantNs
  simp only [UInt64.le_iff_toNat_le, UInt64.lt_iff_toNat_lt, toNat_min, limit]
  split
  · next reached =>
    split
    · next before =>
      refine .pure ?_
      rw [if_neg (by omega)]
      rintro instant ⟨⟩
    · next after_ =>
      have one : (1 : UInt64).toNat = 1 := rfl
      refine .bind (.subtract (UInt64.le_iff_toNat_le.mpr (by omega))) fun instant is => .pure ?_
      rw [if_pos (by omega)]
      exact ⟨instant, rfl, by omega⟩
  · next ahead =>
    refine .pure ?_
    split
    · exact ⟨_, rfl, by rw [toNat_min, limit]; omega⟩
    · rintro instant ⟨⟩
      rw [toNat_min, limit]
      omega

theorem toNat_quantum : kLockstepQuantumNs.toNat = 1000000 := by decide +kernel

theorem toNat_lookahead : kLockstepPeerLookaheadNs.toNat = 10000 := by decide +kernel

theorem capNs_yields (mcu : McuLockstep) (timeNs peersProvenNs : UInt64) :
    Yields (capNs mcu.qemuTimeOriginNs timeNs peersProvenNs) fun cap =>
      cap.toNat ≤ limitOfCap mcu peersProvenNs timeNs.toNat ∧
        (timeNs < cap ↔ Fits mcu peersProvenNs timeNs.toNat) := by
  have quantum : (timeNs + kLockstepQuantumNs).toNat = (timeNs.toNat + 1000000) % 2 ^ 64 := by
    rw [UInt64.toNat_add, toNat_quantum]
  have := timeNs.toNat_lt
  unfold capNs limitOfCap peersNs
  split
  · next peers =>
    refine .bind (.subtract peers.2) fun ahead is => .pure ?_
    have lookahead : (max ahead timeNs + kLockstepPeerLookaheadNs).toNat =
        (max (peersProvenNs.toNat - mcu.qemuTimeOriginNs.toNat) timeNs.toNat + 10000) % 2 ^ 64 := by
      rw [UInt64.toNat_add, toNat_max, is, toNat_lookahead]
    have := peersProvenNs.toNat_lt
    rw [toNat_min, quantum, lookahead, UInt64.lt_iff_toNat_lt, toNat_min, quantum, lookahead]
    refine ⟨min_le_min (Nat.mod_le _ _) (Nat.mod_le _ _), ?_, ?_⟩
    · intro ahead
      refine ⟨by omega, ?_⟩
      unfold peersNs
      rw [if_pos peers]
      rintro _ ⟨⟩
      omega
    · rintro ⟨fits, fits'⟩
      unfold peersNs at fits'
      have fits' := fits' _ (if_pos peers)
      omega
  · next alone =>
    refine .pure ?_
    rw [quantum, UInt64.lt_iff_toNat_lt, quantum]
    refine ⟨Nat.mod_le _ _, ?_, ?_⟩
    · intro ahead
      refine ⟨by omega, ?_⟩
      unfold peersNs
      rw [if_neg alone]
      rintro _ ⟨⟩
    · rintro ⟨fits, _⟩
      omega

/-- A core time on the time line of the artifact, or the cap. -/
def horizonOf (originNs capNs coreNs : UInt64) : Nat :=
  if coreNs = maxTimeNs then capNs.toNat else min (coreNs.toNat - originNs.toNat) capNs.toNat

theorem toArtifact_yields {originNs capNs coreNs : UInt64} (after_ : originNs ≤ coreNs) :
    Yields (toArtifact originNs capNs coreNs) fun horizon => horizon.toNat = horizonOf originNs capNs coreNs := by
  unfold toArtifact horizonOf
  split
  · exact .pure rfl
  · refine .bind (.subtract after_) fun artifact is => .pure ?_
    rw [toNat_min, is]

theorem scheduleArtifactNs_yields (originNs : UInt64) (scheduleNs : Option UInt64) :
    Yields (scheduleArtifactNs originNs scheduleNs) fun _ => True := by
  unfold scheduleArtifactNs
  split
  · exact .pure trivial
  · split
    · next later => exact (Yields.subtract (UInt64.le_of_lt later)).mono fun _ _ => trivial
    · exact .pure trivial

/-- The event that the artifact does not pass. -/
def rigidEventNs (mcu : McuLockstep) (settled : Settled) : UInt64 :=
  if !mcu.softEventsEnabled || mcu.gpioInterruptArmed then settled.nextEventNs
  else max settled.nextHardEventNs settled.nextEventNs

theorem le_rigidEventNs (mcu : McuLockstep) (settled : Settled) :
    settled.nextEventNs ≤ rigidEventNs mcu settled ∧ rigidEventNs mcu settled ≤ settled.nextHardEventNs := by
  have ordered := UInt64.le_iff_toNat_le.mp settled.ordered
  unfold rigidEventNs
  simp only [UInt64.le_iff_toNat_le]
  split
  · omega
  · rw [toNat_max]
    omega

/-- What is published at an instant. -/
structure Told (mcu : McuLockstep) (settled : Settled) (peersProvenNs : UInt64) (timeNs : Nat) (told : CoreTime) :
    Prop where
  time : told.timeNs.toNat = timeNs
  horizons : ∃ cap, cap.toNat ≤ limitOfCap mcu peersProvenNs timeNs ∧
    (timeNs < cap.toNat ↔ Fits mcu peersProvenNs timeNs) ∧
    told.inputHorizonNs.toNat = horizonOf mcu.qemuTimeOriginNs cap settled.nextEventNs ∧
    told.horizonNs.toNat = horizonOf mcu.qemuTimeOriginNs cap (rigidEventNs mcu settled)

theorem publishAt_yields (published : Published) (limitNs : UInt64) (scheduleNs : Option UInt64) {doneNs : UInt64}
    (started : mcu.qemuTimeOriginNs ≤ doneNs) (event : doneNs < settled.nextEventNs) :
    Yields (publishAt mcu published settled peersProvenNs limitNs doneNs scheduleNs) fun result =>
      (∀ told, result.1 = some told →
        Told mcu settled peersProvenNs (doneNs.toNat - mcu.qemuTimeOriginNs.toNat) told) ∧
      (mcu.syncSeq ≠ published.seq → ∃ told, result.1 = some told) := by
  have next := UInt64.le_trans started (UInt64.le_of_lt event)
  have rigid := UInt64.le_trans next (le_rigidEventNs mcu settled).1
  refine .bind (.subtract started) fun timeNs time => ?_
  refine .bind (capNs_yields mcu timeNs peersProvenNs) fun cap bounds => ?_
  refine .bind (toArtifact_yields next) fun inputHorizonNs input => ?_
  refine .bind (toArtifact_yields rigid) fun horizonNs horizon => ?_
  rw [UInt64.lt_iff_toNat_lt, time] at bounds
  split
  · next same =>
    refine .pure ⟨?_, fun other => absurd same.1 other⟩
    rintro told ⟨⟩
  · refine .bind (scheduleArtifactNs_yields _ _) fun schedule _ => .pure ⟨?_, fun _ => ⟨_, rfl⟩⟩
    rintro told ⟨⟩
    exact ⟨time, cap, bounds.1, bounds.2, input, horizon⟩

theorem origin_le_provenNs (mcu : McuLockstep) : mcu.qemuTimeOriginNs.toNat ≤ provenNs mcu := by
  have := mcu.qemuTimeOriginNs.toNat_lt
  unfold provenNs
  omega

theorem Due.instant (due : Due mcu settled) :
    mcu.qemuTimeOriginNs.toNat ≤ instantNs mcu settled ∧ instantNs mcu settled ≤ settled.nowNs.toNat ∧
      instantNs mcu settled ≤ provenNs mcu ∧ instantNs mcu settled < settled.nextEventNs.toNat := by
  have event := UInt64.lt_iff_toNat_lt.mp due.event
  have started := UInt64.le_iff_toNat_le.mp due.started
  have proven := origin_le_provenNs mcu
  unfold instantNs
  omega

theorem publishLockstepTime_yields (published : Published) (scheduleNs : Option UInt64) :
    Yields (publishLockstepTime mcu published settled peersProvenNs scheduleNs) fun result =>
      (∀ told, result.1 = some told → Due mcu settled ∧
        Told mcu settled peersProvenNs (instantNs mcu settled - mcu.qemuTimeOriginNs.toNat) told) ∧
      (Due mcu settled → mcu.syncSeq ≠ published.seq → ∃ told, result.1 = some told) := by
  unfold publishLockstepTime
  split
  · next off =>
    refine .pure ⟨by rintro told ⟨⟩, fun due => ?_⟩
    rw [due.lockstep, due.active] at off
    cases off
  · next on =>
    simp only [Bool.or_eq_true, Bool.not_eq_true', not_or, Bool.not_eq_false] at on
    refine .bind (vnextEventTimeNs_yields mcu) fun limitNs limit => ?_
    refine .bind (doneNs_yields limit) fun done is => ?_
    cases done with
    | none =>
      refine .pure ⟨by rintro told ⟨⟩, fun due => ?_⟩
      rw [if_pos due.event] at is
      obtain ⟨_, ⟨⟩, _⟩ := is
    | some doneNs =>
      dsimp only
      split
      · next before =>
        refine .pure ⟨by rintro told ⟨⟩, fun due => ?_⟩
        rw [if_pos due.event] at is
        obtain ⟨_, ⟨⟩, same⟩ := is
        have before := UInt64.lt_iff_toNat_lt.mp before
        have := due.instant.1
        omega
      · next started =>
        have started := UInt64.not_lt.mp started
        by_cases event : mcu.qemuTimeOriginNs < settled.nextEventNs
        · rw [if_pos event] at is
          obtain ⟨_, ⟨⟩, same⟩ := is
          have instant := UInt64.le_iff_toNat_le.mp started
          have next := UInt64.lt_iff_toNat_lt.mp event
          rw [same] at instant
          have due : Due mcu settled := ⟨on.1, on.2, event, UInt64.le_iff_toNat_le.mpr (by
            unfold instantNs at instant
            omega)⟩
          have before : doneNs < settled.nextEventNs := UInt64.lt_iff_toNat_lt.mpr (same ▸ due.instant.2.2.2)
          refine (publishAt_yields published limitNs scheduleNs started before).mono fun result is => ?_
          rw [same] at is
          exact ⟨fun told published => ⟨due, is.1 told published⟩, fun _ => is.2⟩
        · rw [if_neg event] at is
          exact absurd (is doneNs rfl) (UInt64.not_lt.mpr started)

/-- What is told is in time exactly if the cap does not wrap to the instant or before it. -/
theorem Told.inTime_iff {told : CoreTime} (due : Due mcu settled)
    (is : Told mcu settled peersProvenNs (instantNs mcu settled - mcu.qemuTimeOriginNs.toNat) told) :
    InTime mcu settled peersProvenNs told ↔
      Fits mcu peersProvenNs (instantNs mcu settled - mcu.qemuTimeOriginNs.toNat) := by
  obtain ⟨time, cap, bounded, fits, input, horizon⟩ := is
  obtain ⟨started, now, proven, event⟩ := due.instant
  obtain ⟨first, second⟩ := le_rigidEventNs mcu settled
  have first := UInt64.le_iff_toNat_le.mp first
  have second := UInt64.le_iff_toNat_le.mp second
  have none : rigidEventNs mcu settled = maxTimeNs → settled.nextHardEventNs = maxTimeNs := fun same =>
    UInt64.le_antisymm (le_maxTimeNs _) (same ▸ UInt64.le_iff_toNat_le.mpr second)
  have none' : settled.nextEventNs = maxTimeNs → rigidEventNs mcu settled = maxTimeNs := fun same =>
    UInt64.le_antisymm (le_maxTimeNs _) (same ▸ UInt64.le_iff_toNat_le.mpr first)
  rw [← fits]
  unfold horizonOf at input horizon
  constructor
  · intro inTime
    have ahead := UInt64.lt_iff_toNat_lt.mp inTime.ahead
    split at input <;> omega
  · intro ahead
    constructor
    · omega
    · omega
    · omega
    · rw [UInt64.lt_iff_toNat_lt]
      split at input <;> omega
    · rw [UInt64.le_iff_toNat_le]
      by_cases same : settled.nextEventNs = maxTimeNs
      · rw [if_pos same] at input
        rw [if_pos (none' same)] at horizon
        omega
      · rw [if_neg same] at input
        split at horizon <;> omega
    · rw [time]
      split at input <;> omega
    · intro hard
      rw [if_neg (fun same => hard (none same))] at horizon
      omega

/-- The MCU is never told a time that outruns the simulation exactly if, where something is to be published, the cap
fits. -/
theorem publishLockstepTime_neverOutruns_iff (mcu : McuLockstep) (settled : Settled) (peersProvenNs : UInt64)
    (scheduleNs : Option UInt64) :
    (∀ published, NeverOutruns mcu published settled peersProvenNs scheduleNs) ↔
      (Due mcu settled → Fits mcu peersProvenNs (instantNs mcu settled - mcu.qemuTimeOriginNs.toNat)) := by
  constructor
  · intro never due
    have fresh : mcu.syncSeq ≠ mcu.syncSeq + 1 := by
      intro same
      have := congrArg UInt64.toNat same
      rw [UInt64.toNat_add, UInt64.toNat_one] at this
      have := mcu.syncSeq.toNat_lt
      omega
    obtain ⟨_, _, _, inTime⟩ := never ⟨mcu.syncSeq + 1, 0, 0, 0, 0⟩ []
    have yields : Yields (publishLockstepTime mcu ⟨mcu.syncSeq + 1, 0, 0, 0, 0⟩ settled peersProvenNs scheduleNs) _ :=
      publishLockstepTime_yields _ _
    obtain ⟨_, _, _, is, published⟩ := yields []
    obtain ⟨told, here⟩ := published due fresh
    exact ((is told here).2.inTime_iff due).mp (inTime told here)
  · intro fits published
    refine (publishLockstepTime_yields published scheduleNs).mono fun result is told here => ?_
    obtain ⟨due, is⟩ := is.1 told here
    exact (is.inTime_iff due).mpr (fits due)

/-- Another MCU that has proven an instant close to `UINT64_MAX` makes the cap wrap, and the input horizon is before the
time that is published with it. -/
theorem publishLockstepTime_wraps : ¬∀ mcu published settled peersProvenNs scheduleNs,
    NeverOutruns mcu published settled peersProvenNs scheduleNs := by
  intro always
  obtain ⟨_, _, _, inTime⟩ := always
    { lockstep := true, vnextBActive := true, qemuTimeOriginNs := 0, heartbeatWatermarkNs := 20000, prefetchNs := 0
      gpioInterruptArmed := false, softEventsEnabled := true, seqBeforeLimit := 1, syncSeq := 1 }
    ⟨0, 0, 0, 0, 0⟩ ⟨20000, maxTimeNs, maxTimeNs, UInt64.le_refl _⟩ 0xFFFFFFFFFFFFFFFE none []
  have ahead := (inTime ⟨1, 20000, 9998, 9998, 0, true⟩ (by decide +kernel)).ahead
  exact absurd ahead (by decide)

end LasecSimul.Mcu
