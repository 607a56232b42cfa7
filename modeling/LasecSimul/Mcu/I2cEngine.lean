import Mathlib.Data.UInt

/-!
# The electrical I2C master

Each operation on the bus is a sequence of phases, and each phase ends at `dueNs`. Between two wake-ups the engine
waits; it is busy while an operation is under way or pending.
-/

namespace LasecSimul.Mcu

inductive I2cPhase where
  | idle
  | restartRelease | restartDataHigh | restartClockHigh | startFall | startSettle
  | writeBitSetup | writeBitHold | writeBitChange | writeAckSetup | writeAckHold | writeAckRelease
  | readBitSetup | readBitHold | readAckDrive | readAckSetup | readAckHold | readAckRelease
  | stopSetup | stopRise
  deriving DecidableEq, Repr

inductive I2cOpKind where
  | restart | write | read | stop
  deriving DecidableEq, Repr

structure I2cOp where
  kind : I2cOpKind
  byte : UInt8 := 0
  nack : Bool := false
  record : Bool := false
  abortOnNack : Bool := false
  deriving DecidableEq, Repr

/-- An entry of `coreResults`. -/
structure CoreResult where
  kind : I2cOpKind
  byte : UInt8
  ack : Bool
  deriving DecidableEq, Repr

/-- `LSDN_QEMU_MODULE_NO_WAKEUP`, as a time; as a value of `dueNs` it is `none`. -/
def noWakeupNs : Nat := UInt64.size - 1

structure I2cState where
  sdaInput : Bool := true
  sclOutputLevel : Bool := true
  sdaOutputLevel : Bool := true
  sclOutputEnabled : Bool := false
  sdaOutputEnabled : Bool := false
  pendingOps : List I2cOp := []
  phase : I2cPhase := .idle
  bitIndex : Nat := 0
  shiftByte : UInt8 := 0
  pendingNack : Bool := false
  lastAck : Bool := false
  lastReadByte : UInt8 := 0
  halfPeriodNs : Nat := 1250
  dueNs : Option Nat := none
  currentOp : I2cOp := { kind := .stop }
  coreResults : List CoreResult := []
  deriving DecidableEq, Repr

def addDelayNs (nowNs delayNs : Nat) : Option Nat :=
  if noWakeupNs ≤ nowNs + delayNs then none else some (nowNs + delayNs)

namespace I2cState

def edgeSettleNs (i2c : I2cState) : Nat := max 1 (i2c.halfPeriodNs / 4)

def lowRemainderNs (i2c : I2cState) : Nat :=
  if i2c.edgeSettleNs < i2c.halfPeriodNs then i2c.halfPeriodNs - i2c.edgeSettleNs else 1

/-- The bit of a byte that is on the wire at `bitIndex`, the most significant first. -/
def wireBit (byte : UInt8) (bitIndex : Nat) : Bool := byte.toNat.testBit (7 - bitIndex)

/-- Enter a phase that ends after a delay. -/
def enter (i2c : I2cState) (phase : I2cPhase) (nowNs delayNs : Nat) : I2cState :=
  { i2c with phase, dueNs := addDelayNs nowNs delayNs }

def recordResult (i2c : I2cState) (result : CoreResult) : I2cState :=
  if i2c.currentOp.record then { i2c with coreResults := i2c.coreResults ++ [result] } else i2c

def advance (i2c : I2cState) (nowNs : Nat) : I2cState :=
  match i2c.phase with
  | .idle => i2c
  | .restartRelease =>
    { i2c with sclOutputLevel := false }.enter .restartDataHigh nowNs i2c.edgeSettleNs
  | .restartDataHigh =>
    { i2c with sdaOutputEnabled := true, sdaOutputLevel := true }.enter .restartClockHigh nowNs i2c.lowRemainderNs
  | .restartClockHigh => { i2c with sclOutputLevel := true }.enter .startFall nowNs i2c.halfPeriodNs
  | .startFall => { i2c with sdaOutputLevel := false }.enter .startSettle nowNs i2c.halfPeriodNs
  | .startSettle => { i2c with sclOutputLevel := false }.enter .idle nowNs i2c.halfPeriodNs
  | .writeBitSetup => { i2c with sclOutputLevel := true }.enter .writeBitHold nowNs i2c.halfPeriodNs
  | .writeBitHold =>
    { i2c with sclOutputLevel := false, bitIndex := i2c.bitIndex + 1 }.enter .writeBitChange nowNs i2c.edgeSettleNs
  | .writeBitChange =>
    if i2c.bitIndex < 8 then
      { i2c with sdaOutputLevel := wireBit i2c.shiftByte i2c.bitIndex }.enter .writeBitSetup nowNs i2c.lowRemainderNs
    else { i2c with sdaOutputEnabled := false }.enter .writeAckSetup nowNs i2c.lowRemainderNs
  | .writeAckSetup => { i2c with sclOutputLevel := true }.enter .writeAckHold nowNs i2c.halfPeriodNs
  | .writeAckHold =>
    let ack := !i2c.sdaInput
    let held := { i2c with lastAck := ack, sclOutputLevel := false }.enter .writeAckRelease nowNs i2c.edgeSettleNs
    let held := held.recordResult ⟨.write, 0, ack⟩
    -- A NACK with ACK_CHECK_EN: the bus is released instead of sending what nobody acknowledges.
    if !ack && i2c.currentOp.abortOnNack then { held with pendingOps := [{ kind := .stop }] } else held
  | .writeAckRelease =>
    { i2c with sdaOutputEnabled := true, sdaOutputLevel := true }.enter .idle nowNs i2c.lowRemainderNs
  | .readBitSetup =>
    { i2c with
      sclOutputLevel := true
      shiftByte := (i2c.shiftByte <<< 1) ||| (if i2c.sdaInput then 1 else 0) }.enter .readBitHold nowNs i2c.halfPeriodNs
  | .readBitHold =>
    let held := { i2c with sclOutputLevel := false, bitIndex := i2c.bitIndex + 1 }
    if held.bitIndex < 8 then held.enter .readBitSetup nowNs i2c.halfPeriodNs
    else held.enter .readAckDrive nowNs i2c.edgeSettleNs
  | .readAckDrive =>
    let driven := if i2c.pendingNack then { i2c with sdaOutputEnabled := false }
      else { i2c with sdaOutputEnabled := true, sdaOutputLevel := false }
    driven.enter .readAckSetup nowNs i2c.lowRemainderNs
  | .readAckSetup => { i2c with sclOutputLevel := true }.enter .readAckHold nowNs i2c.halfPeriodNs
  | .readAckHold => { i2c with sclOutputLevel := false }.enter .readAckRelease nowNs i2c.edgeSettleNs
  | .readAckRelease =>
    let released := { i2c with sdaOutputEnabled := true, sdaOutputLevel := true, lastReadByte := i2c.shiftByte }
    (released.recordResult ⟨.read, i2c.shiftByte, !i2c.pendingNack⟩).enter .idle nowNs i2c.lowRemainderNs
  | .stopSetup => { i2c with sclOutputLevel := true }.enter .stopRise nowNs i2c.halfPeriodNs
  | .stopRise =>
    { i2c with
      sdaOutputLevel := true
      sclOutputEnabled := false
      sdaOutputEnabled := false
      phase := .idle
      dueNs := none }

/-- Begin an operation that was taken from the queue. -/
def beginOp (i2c : I2cState) (op : I2cOp) (nowNs : Nat) : I2cState :=
  match op.kind with
  | .restart =>
    { i2c with
      sclOutputEnabled := true
      sclOutputLevel := false
      sdaOutputEnabled := true
      sdaOutputLevel := true }.enter .restartRelease nowNs i2c.halfPeriodNs
  | .write =>
    { i2c with
      shiftByte := op.byte
      bitIndex := 0
      sdaOutputEnabled := true
      sdaOutputLevel := wireBit op.byte 0 }.enter .writeBitSetup nowNs i2c.halfPeriodNs
  | .read =>
    { i2c with shiftByte := 0, bitIndex := 0, pendingNack := op.nack, sdaOutputEnabled := false }.enter .readBitSetup
      nowNs i2c.halfPeriodNs
  | .stop => { i2c with sdaOutputEnabled := true, sdaOutputLevel := false }.enter .stopSetup nowNs i2c.halfPeriodNs

def kick (i2c : I2cState) (nowNs : Nat) : I2cState :=
  if i2c.phase = .idle ∧ i2c.dueNs = none then
    match i2c.pendingOps with
    | [] => i2c
    | op :: rest => { i2c with pendingOps := rest, currentOp := op }.beginOp op nowNs
  else i2c

/-- A write of `kI2cCoreOpOffset`. -/
def writeCoreOp (i2c : I2cState) (op : I2cOp) (nowNs : Nat) : I2cState :=
  { i2c with pendingOps := i2c.pendingOps ++ [op] }.kick nowNs

/-- A write of `kI2cLowPeriodOffset`, whose low 32 bits are the period. -/
def writeLowPeriod (i2c : I2cState) (periodNs : UInt64) : I2cState :=
  if periodNs.toUInt32 = 0 then i2c else { i2c with halfPeriodNs := max 1 (periodNs.toUInt32.toNat / 2) }

def onWakeup (i2c : I2cState) (nowNs : Nat) : I2cState :=
  match i2c.dueNs with
  | none => i2c.kick nowNs
  | some dueNs => if dueNs ≤ nowNs then ({ i2c with dueNs := none }.advance nowNs).kick nowNs else i2c.kick nowNs

/-- The bit BUS_BUSY of the status. -/
def busy (i2c : I2cState) : Bool := !i2c.pendingOps.isEmpty || i2c.phase != .idle

/-! ### An engine that is busy is going to wake up -/

/-- The longest half period, that of a period of 32 bits. -/
def maxHalfPeriodNs : Nat := 2147483648

/-- Every delay of the engine fits in the clock. -/
def Fits (nowNs : Nat) : Prop := nowNs + maxHalfPeriodNs < noWakeupNs

/-- The engine waits for its next phase, or has nothing to do. -/
structure Settled (i2c : I2cState) : Prop where
  phase : i2c.phase ≠ .idle → i2c.dueNs ≠ none
  pending : i2c.dueNs = none → i2c.pendingOps = []
  half : i2c.halfPeriodNs ≤ maxHalfPeriodNs

theorem Settled.due {i2c : I2cState} (settled : i2c.Settled) (busy : i2c.busy = true) : i2c.dueNs ≠ none := by
  intro none
  unfold I2cState.busy at busy
  rw [settled.pending none] at busy
  have idle : i2c.phase ≠ .idle := by simpa using busy
  exact settled.phase idle none

theorem settled_reset : ({} : I2cState).Settled := ⟨fun busy => absurd rfl busy, fun _ => rfl, by decide⟩

theorem edgeSettleNs_le {i2c : I2cState} (half : i2c.halfPeriodNs ≤ maxHalfPeriodNs) :
    i2c.edgeSettleNs ≤ maxHalfPeriodNs := by
  unfold edgeSettleNs maxHalfPeriodNs at *
  omega

theorem lowRemainderNs_le {i2c : I2cState} (half : i2c.halfPeriodNs ≤ maxHalfPeriodNs) :
    i2c.lowRemainderNs ≤ maxHalfPeriodNs := by
  unfold lowRemainderNs maxHalfPeriodNs at *
  split <;> omega

theorem Fits.add_lt {nowNs delayNs : Nat} (fits : Fits nowNs) (le : delayNs ≤ maxHalfPeriodNs) :
    nowNs + delayNs < noWakeupNs := by
  unfold Fits at fits
  omega

theorem enter_due (i2c : I2cState) (phase : I2cPhase) {nowNs delayNs : Nat}
    (fits : nowNs + delayNs < noWakeupNs) : (i2c.enter phase nowNs delayNs).dueNs ≠ none := by
  unfold enter addDelayNs
  dsimp only
  rw [if_neg (Nat.not_le_of_lt fits)]
  exact Option.some_ne_none _

theorem beginOp_due {i2c : I2cState} (op : I2cOp) {nowNs : Nat} (fits : Fits nowNs)
    (half : i2c.halfPeriodNs ≤ maxHalfPeriodNs) : (i2c.beginOp op nowNs).dueNs ≠ none := by
  have fits : nowNs + i2c.halfPeriodNs < noWakeupNs := fits.add_lt half
  unfold beginOp
  split <;> exact enter_due _ _ fits

theorem beginOp_halfPeriodNs (i2c : I2cState) (op : I2cOp) (nowNs : Nat) :
    (i2c.beginOp op nowNs).halfPeriodNs = i2c.halfPeriodNs := by
  unfold beginOp
  split <;> rfl

theorem kick_halfPeriodNs (i2c : I2cState) (nowNs : Nat) : (i2c.kick nowNs).halfPeriodNs = i2c.halfPeriodNs := by
  unfold kick
  split
  · split
    · rfl
    · exact beginOp_halfPeriodNs _ _ _
  · rfl

theorem kick_settled {i2c : I2cState} {nowNs : Nat} (phase : i2c.phase ≠ .idle → i2c.dueNs ≠ none)
    (half : i2c.halfPeriodNs ≤ maxHalfPeriodNs) (fits : Fits nowNs) : (i2c.kick nowNs).Settled := by
  refine ⟨?_, ?_, (i2c.kick_halfPeriodNs nowNs).trans_le half⟩ <;> unfold kick
  · split
    · split
      · exact phase
      · exact fun _ => beginOp_due _ fits half
    · exact phase
  · split
    · split
      · next none => exact fun _ => none
      · exact fun none => absurd none (beginOp_due _ fits half)
    · next works =>
      intro none
      have idle : i2c.phase = .idle := by
        by_contra active
        exact phase active none
      exact absurd ⟨idle, none⟩ works

theorem recordResult_dueNs (i2c : I2cState) (result : CoreResult) : (i2c.recordResult result).dueNs = i2c.dueNs := by
  unfold recordResult
  split <;> rfl

theorem recordResult_halfPeriodNs (i2c : I2cState) (result : CoreResult) :
    (i2c.recordResult result).halfPeriodNs = i2c.halfPeriodNs := by
  unfold recordResult
  split <;> rfl

theorem advance_due {i2c : I2cState} {nowNs : Nat} (fits : Fits nowNs) (half : i2c.halfPeriodNs ≤ maxHalfPeriodNs)
    (active : (i2c.advance nowNs).phase ≠ .idle) : (i2c.advance nowNs).dueNs ≠ none := by
  have settle : nowNs + i2c.edgeSettleNs < noWakeupNs := fits.add_lt (edgeSettleNs_le half)
  have low : nowNs + i2c.lowRemainderNs < noWakeupNs := fits.add_lt (lowRemainderNs_le half)
  have half : nowNs + i2c.halfPeriodNs < noWakeupNs := fits.add_lt half
  unfold advance at active ⊢
  cases phase : i2c.phase with
  | idle =>
    rw [phase] at active
    exact absurd phase active
  | stopRise =>
    rw [phase] at active
    exact absurd rfl active
  | restartRelease | writeBitHold | readAckHold => exact enter_due _ _ settle
  | restartDataHigh | writeAckRelease | readAckDrive | readAckRelease => exact enter_due _ _ low
  | restartClockHigh | startFall | startSettle | writeBitSetup | writeAckSetup | readBitSetup | readAckSetup
  | stopSetup => exact enter_due _ _ half
  | writeBitChange =>
    dsimp only
    split <;> exact enter_due _ _ low
  | readBitHold =>
    dsimp only
    split
    · exact enter_due _ _ half
    · exact enter_due _ _ settle
  | writeAckHold =>
    dsimp only
    split <;> simp only [recordResult_dueNs] <;> exact enter_due _ _ settle

theorem advance_halfPeriodNs (i2c : I2cState) (nowNs : Nat) :
    (i2c.advance nowNs).halfPeriodNs = i2c.halfPeriodNs := by
  unfold advance
  cases i2c.phase with
  | writeBitChange | readBitHold | readAckDrive =>
    dsimp only
    split <;> rfl
  | writeAckHold =>
    dsimp only
    split <;> simp only [recordResult_halfPeriodNs] <;> rfl
  | readAckRelease => exact recordResult_halfPeriodNs _ _
  | _ => rfl

theorem onWakeup_settled {i2c : I2cState} {nowNs : Nat} (settled : i2c.Settled) (fits : Fits nowNs) :
    (i2c.onWakeup nowNs).Settled := by
  unfold onWakeup
  split
  · exact kick_settled settled.phase settled.half fits
  · split
    · have half : ({ i2c with dueNs := none }.advance nowNs).halfPeriodNs ≤ maxHalfPeriodNs :=
        (advance_halfPeriodNs _ _).trans_le settled.half
      exact kick_settled (advance_due fits settled.half) half fits
    · exact kick_settled settled.phase settled.half fits

theorem writeCoreOp_settled {i2c : I2cState} (op : I2cOp) {nowNs : Nat} (settled : i2c.Settled) (fits : Fits nowNs) :
    (i2c.writeCoreOp op nowNs).Settled := by
  unfold writeCoreOp
  exact kick_settled settled.phase settled.half fits

theorem writeLowPeriod_settled {i2c : I2cState} (periodNs : UInt64) (settled : i2c.Settled) :
    (i2c.writeLowPeriod periodNs).Settled := by
  unfold writeLowPeriod
  split
  · exact settled
  · refine ⟨settled.phase, settled.pending, ?_⟩
    have small : periodNs.toUInt32.toNat < 4294967296 := periodNs.toUInt32.toNat_lt
    unfold maxHalfPeriodNs
    dsimp only
    omega

/-! ### Every wake-up brings the engine closer to its end -/

/-- A bound on the wake-ups of an operation from a phase on, less the last one. -/
def phaseRank (bitIndex : Nat) : I2cPhase → Nat
  | .idle | .stopRise => 0
  | .restartRelease => 5
  | .restartDataHigh => 4
  | .restartClockHigh => 3
  | .startFall => 2
  | .startSettle | .stopSetup => 1
  | .writeBitSetup => 3 * (8 - bitIndex) + 8
  | .writeBitHold => 3 * (8 - bitIndex) + 7
  | .writeBitChange => if bitIndex < 8 then 3 * (8 - bitIndex) + 9 else 6
  | .writeAckSetup => 5
  -- Two more than the phases that follow: a NACK may put a STOP in place of what is pending.
  | .writeAckHold => 4
  | .writeAckRelease => 1
  | .readBitSetup => 2 * (8 - bitIndex) + 6
  | .readBitHold => 2 * (8 - bitIndex) + 5
  | .readAckDrive => 4
  | .readAckSetup => 3
  | .readAckHold => 2
  | .readAckRelease => 1

def opRank (op : I2cOp) : Nat :=
  match op.kind with
  | .restart => 6
  | .write => 33
  | .read => 23
  | .stop => 2

def pendingRank (ops : List I2cOp) : Nat := (ops.map opRank).sum

/-- A bound on the wake-ups before the engine has nothing left to do. -/
def rank (i2c : I2cState) : Nat :=
  pendingRank i2c.pendingOps + phaseRank i2c.bitIndex i2c.phase + if i2c.dueNs = none then 0 else 1

theorem pendingRank_append (ops rest : List I2cOp) :
    pendingRank (ops ++ rest) = pendingRank ops + pendingRank rest := by
  unfold pendingRank
  rw [List.map_append, List.sum_append]

theorem due_le_one (dueNs : Option Nat) : (if dueNs = none then 0 else 1) ≤ 1 := by
  split <;> decide

theorem enter_rank_le (i2c : I2cState) (phase : I2cPhase) (nowNs delayNs : Nat) :
    (i2c.enter phase nowNs delayNs).rank ≤ pendingRank i2c.pendingOps + phaseRank i2c.bitIndex phase + 1 :=
  Nat.add_le_add_left (due_le_one _) _

theorem beginOp_rank_le (i2c : I2cState) (op : I2cOp) (nowNs : Nat) :
    (i2c.beginOp op nowNs).rank ≤ pendingRank i2c.pendingOps + opRank op := by
  unfold beginOp opRank
  cases op.kind <;> exact enter_rank_le _ _ _ _

theorem kick_rank_le (i2c : I2cState) (nowNs : Nat) : (i2c.kick nowNs).rank ≤ i2c.rank := by
  unfold kick
  split
  · split
    · exact le_rfl
    · next waits op rest pending =>
      refine (beginOp_rank_le _ _ _).trans ?_
      unfold rank pendingRank
      rw [pending, List.map_cons, List.sum_cons]
      dsimp only
      omega
  · exact le_rfl

theorem recordResult_phase (i2c : I2cState) (result : CoreResult) : (i2c.recordResult result).phase = i2c.phase := by
  unfold recordResult
  split <;> rfl

theorem recordResult_pendingOps (i2c : I2cState) (result : CoreResult) :
    (i2c.recordResult result).pendingOps = i2c.pendingOps := by
  unfold recordResult
  split <;> rfl

theorem recordResult_rank (i2c : I2cState) (result : CoreResult) : (i2c.recordResult result).rank = i2c.rank := by
  unfold recordResult
  split <;> rfl

theorem advance_rank_lt {i2c : I2cState} (nowNs : Nat) (active : i2c.phase ≠ .idle) :
    (i2c.advance nowNs).rank ≤ pendingRank i2c.pendingOps + phaseRank i2c.bitIndex i2c.phase := by
  unfold advance
  cases phase : i2c.phase with
  | idle => exact absurd phase active
  | stopRise => exact le_rfl
  | writeBitHold =>
    refine (enter_rank_le _ _ _ _).trans ?_
    simp only [phaseRank]
    split <;> omega
  | writeBitChange =>
    dsimp only
    split
    · next more =>
      refine (enter_rank_le _ _ _ _).trans ?_
      simp only [phaseRank, if_pos more]
      omega
    · next last =>
      refine (enter_rank_le _ _ _ _).trans ?_
      simp only [phaseRank, if_neg last]
      omega
  | writeAckHold =>
    dsimp only
    split
    · have stop : pendingRank [{ kind := .stop }] = 2 := rfl
      have released : ∀ held : I2cState, held.phase = .writeAckRelease →
          ({ held with pendingOps := [{ kind := .stop }] } : I2cState).rank ≤ 4 := by
        intro held phase
        unfold rank
        rw [phase, stop]
        exact Nat.add_le_add_left (due_le_one _) 3
      refine (released _ ?_).trans (Nat.le_add_left 4 _)
      rw [recordResult_phase]
      rfl
    · rw [recordResult_rank]
      refine (enter_rank_le _ _ _ _).trans ?_
      simp only [phaseRank]
      omega
  | readBitHold =>
    dsimp only
    split
    · refine (enter_rank_le _ _ _ _).trans ?_
      simp only [phaseRank]
      omega
    · refine (enter_rank_le _ _ _ _).trans ?_
      simp only [phaseRank]
      omega
  | readAckDrive =>
    dsimp only
    refine (enter_rank_le _ _ _ _).trans ?_
    split <;> exact le_rfl
  | readAckRelease =>
    refine (enter_rank_le _ _ _ _).trans ?_
    rw [recordResult_pendingOps]
    exact le_rfl
  | _ => exact enter_rank_le _ _ _ _

theorem advance_idle {i2c : I2cState} (nowNs : Nat) (idle : i2c.phase = .idle) : i2c.advance nowNs = i2c := by
  unfold advance
  rw [idle]

theorem onWakeup_due_rank_le (i2c : I2cState) (nowNs : Nat) :
    (({ i2c with dueNs := none } : I2cState).advance nowNs).rank ≤
      pendingRank i2c.pendingOps + phaseRank i2c.bitIndex i2c.phase := by
  by_cases active : ({ i2c with dueNs := none } : I2cState).phase = .idle
  · rw [advance_idle nowNs active]
    exact le_rfl
  · exact advance_rank_lt nowNs active

theorem onWakeup_rank_le (i2c : I2cState) (nowNs : Nat) : (i2c.onWakeup nowNs).rank ≤ i2c.rank := by
  unfold onWakeup
  split
  · exact kick_rank_le _ _
  · split
    · exact (kick_rank_le _ _).trans ((onWakeup_due_rank_le _ _).trans (Nat.le_add_right _ _))
    · exact kick_rank_le _ _

theorem onWakeup_rank_lt {i2c : I2cState} {nowNs dueNs : Nat} (due : i2c.dueNs = some dueNs) (passed : dueNs ≤ nowNs) :
    (i2c.onWakeup nowNs).rank < i2c.rank := by
  have rank : i2c.rank = pendingRank i2c.pendingOps + phaseRank i2c.bitIndex i2c.phase + 1 := by
    unfold I2cState.rank
    rw [due]
    rfl
  have wakes : i2c.onWakeup nowNs = (({ i2c with dueNs := none } : I2cState).advance nowNs).kick nowNs := by
    unfold onWakeup
    rw [due]
    exact if_pos passed
  rw [rank, wakes]
  exact Nat.lt_succ_of_le ((kick_rank_le _ _).trans (onWakeup_due_rank_le _ _))

end I2cState

end LasecSimul.Mcu
