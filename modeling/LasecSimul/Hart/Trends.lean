import Mathlib.Logic.Function.Iterate
import LasecSimul.Hart.BuiltIn

/-!
# Trends over time

The samples of a trend while the time advances in one call or in several: the call catches up with the
instants that are due, with at most 64 samples.
-/

namespace LasecSimul.Hart

open Lib.Fallible HartEngine

variable {ρ σ : Type}

/-! ### One trend -/

structure TrendRing where
  samples : Vector TrendSample 12
  count : UInt8
  next : UInt8
  nextTime : Nat

/-- What a device holds of one trend, with the value that is traced. -/
structure TrendState where
  /-- The index is below the number of trends. -/
  listed : Bool
  configuration : HartTrendConfiguration
  value : Float32
  ring : TrendRing

namespace TrendRing

def newest (ring : TrendRing) : TrendSample := ring.samples.getD ((ring.next.toNat + 11) % 12) {}

/-- A sample at the time that was planned. -/
def sample (value : Float32) (period : Nat) (ring : TrendRing) : TrendRing where
  samples := ring.samples.setIfInBounds ring.next.toNat {
    timestamp := ring.nextTime, value, status := if value.isFinite then 0 else 0x30 }
  count := if ring.count < 12 then ring.count + 1 else ring.count
  next := (ring.next + 1) % 12
  nextTime := ring.nextTime + period

def start (ring : TrendRing) (previous period : Nat) : TrendRing :=
  if ring.nextTime = 0 then { ring with nextTime := previous + period } else ring

/-- The samples due by `current`, at most as many as `guard`. -/
def catchUp (value : Float32) (period current : Nat) : Nat → TrendRing → TrendRing
  | 0, ring => ring
  | guard + 1, ring =>
    if current < ring.nextTime then ring else catchUp value period current guard (ring.sample value period)

/-- How many instants are due by `current`. -/
def due (ring : TrendRing) (period current : Nat) : Nat :=
  if current < ring.nextTime then 0 else (current - ring.nextTime) / period + 1

variable {ring : TrendRing} {value : Float32} {period current : Nat}

theorem due_sample (positive : 0 < period) (ring : TrendRing) (value : Float32) (current : Nat) :
    (ring.sample value period).due period current = ring.due period current - 1 := by
  show (if current < ring.nextTime + period then 0 else (current - (ring.nextTime + period)) / period + 1) = _
  unfold due
  by_cases early : current < ring.nextTime
  · rw [if_pos early, if_pos (by omega)]
  · rw [if_neg early]
    by_cases last : current < ring.nextTime + period
    · rw [if_pos last, Nat.div_eq_of_lt (by omega)]
    · have step : (current - ring.nextTime) / period = (current - (ring.nextTime + period)) / period + 1 := by
        rw [← Nat.add_div_right _ positive]
        congr 1
        omega
      rw [if_neg last, step]
      rfl

theorem due_iterate (positive : 0 < period) (ring : TrendRing) (value : Float32) (current n : Nat) :
    ((sample value period)^[n] ring).due period current = ring.due period current - n := by
  induction n generalizing ring with
  | zero => rfl
  | succ n ih =>
    rw [Function.iterate_succ_apply, ih, due_sample positive]
    omega

/-- The loop takes the samples that are due, unless there are more than it may take. -/
theorem catchUp_eq (positive : 0 < period) {guard : Nat} (few : ring.due period current ≤ guard) :
    catchUp value period current guard ring =
      (sample value period)^[ring.due period current] ring := by
  induction guard generalizing ring with
  | zero =>
    rw [Nat.le_zero.mp few]
    rfl
  | succ guard ih =>
    unfold catchUp
    by_cases early : current < ring.nextTime
    · have none : ring.due period current = 0 := if_pos early
      rw [if_pos early, none]
      rfl
    · have some : 0 < ring.due period current := by
        unfold due
        rw [if_neg early]
        exact Nat.succ_pos _
      rw [if_neg early, ih (by rw [due_sample positive]; omega), due_sample positive, ← Function.iterate_succ_apply,
        Nat.succ_eq_add_one, Nat.sub_add_cancel some]

theorem due_mono {earlier : Nat} (before : earlier ≤ current) : ring.due period earlier ≤ ring.due period current := by
  unfold due
  by_cases early : earlier < ring.nextTime
  · rw [if_pos early]
    exact Nat.zero_le _
  · rw [if_neg early, if_neg (by omega)]
    exact Nat.succ_le_succ (Nat.div_le_div_right (by omega))

theorem lt_nextTime (none : ring.due period current = 0) : current < ring.nextTime := by
  by_contra late
  unfold due at none
  rw [if_neg late] at none
  exact absurd none (Nat.succ_ne_zero _)

theorem start_pos (positive : 0 < period) (previous : Nat) : (ring.start previous period).nextTime ≠ 0 := by
  unfold start
  split
  · show previous + period ≠ 0
    omega
  · assumption

theorem start_started (started : ring.nextTime ≠ 0) (previous : Nat) : ring.start previous period = ring :=
  if_neg started

theorem nextTime_iterate (n : Nat) (ring : TrendRing) :
    ((sample value period)^[n] ring).nextTime = ring.nextTime + n * period := by
  induction n generalizing ring with
  | zero => rw [Nat.zero_mul]; rfl
  | succ n ih =>
    rw [Function.iterate_succ_apply, ih, Nat.succ_mul]
    show ring.nextTime + period + n * period = _
    omega

/-- What every session keeps of a ring. -/
structure Consistent (period : Nat) (ring : TrendRing) : Prop where
  slot : ring.next.toNat < 12
  newest : ring.count ≠ 0 → ring.newest.timestamp + period = ring.nextTime
  unstarted : ring.nextTime = 0 → ring.count = 0

namespace Consistent

theorem start (consistent : Consistent period ring) (previous : Nat) :
    Consistent period (ring.start previous period) := by
  unfold TrendRing.start
  split
  · rename_i unstarted
    have empty := consistent.unstarted unstarted
    exact ⟨consistent.slot, fun some => absurd empty some, fun _ => empty⟩
  · exact consistent

theorem sample (consistent : Consistent period ring) (positive : 0 < period) (value : Float32) :
    Consistent period (ring.sample value period) := by
  have slot := consistent.slot
  have next : (ring.sample value period).next.toNat = (ring.next.toNat + 1) % 12 := by
    show ((ring.next + 1) % 12).toNat = _
    rw [UInt8.toNat_mod, UInt8.toNat_add]
    show (ring.next.toNat + 1) % 2 ^ 8 % 12 = _
    omega
  refine ⟨by omega, fun _ => ?_, fun never => ?_⟩
  · have here : ((ring.next.toNat + 1) % 12 + 11) % 12 = ring.next.toNat := by omega
    unfold TrendRing.newest
    rw [next, here]
    unfold TrendRing.sample
    dsimp only
    rw [getD_setIfInBounds, if_pos ⟨rfl, slot⟩]
  · have : ring.nextTime + period = 0 := never
    omega

theorem iterate (consistent : Consistent period ring) (positive : 0 < period) (value : Float32) (n : Nat) :
    Consistent period ((TrendRing.sample value period)^[n] ring) := by
  induction n generalizing ring with
  | zero => exact consistent
  | succ n ih =>
    rw [Function.iterate_succ_apply]
    exact ih (consistent.sample positive value)

theorem catchUp (consistent : Consistent period ring) (positive : 0 < period) (guard : Nat) :
    Consistent period (TrendRing.catchUp value period current guard ring) := by
  induction guard generalizing ring with
  | zero => exact consistent
  | succ guard ih =>
    unfold TrendRing.catchUp
    split
    · exact consistent
    · exact ih (consistent.sample positive value)

end Consistent

end TrendRing

namespace TrendState

def period (trend : TrendState) : Nat := trend.configuration.samplePeriodSeconds.toNat

/-- The trend is sampled at all. -/
def active (trend : TrendState) : Bool :=
  trend.listed && trend.configuration.control != 0 && trend.configuration.samplePeriodSeconds != 0

/-- The trend after the time went from `previous` to `current`. -/
def advance (trend : TrendState) (previous current : Nat) : TrendState :=
  if trend.active then
    { trend with
      ring := (trend.ring.start previous trend.period).catchUp trend.value trend.period current 64 }
  else trend

/-- The trend after the time went from `previous` through the times. -/
def follow (previous : Nat) : List Nat → TrendState → TrendState
  | [], trend => trend
  | current :: times, trend => follow current times (trend.advance previous current)

/-- At most 64 samples are due by `current`. -/
def Few (trend : TrendState) (previous current : Nat) : Prop :=
  trend.active = true → (trend.ring.start previous trend.period).due trend.period current ≤ 64

theorem period_pos {trend : TrendState} (active : trend.active = true) : 0 < trend.period := by
  unfold TrendState.active at active
  simp only [Bool.and_eq_true, bne_iff_ne, ne_eq, ← UInt32.toNat_inj] at active
  exact Nat.pos_of_ne_zero active.2

theorem active_advance (trend : TrendState) (previous current : Nat) :
    (trend.advance previous current).active = trend.active := by
  unfold advance
  split <;> rfl

theorem period_advance (trend : TrendState) (previous current : Nat) :
    (trend.advance previous current).period = trend.period := by
  unfold advance
  split <;> rfl

theorem advance_active {trend : TrendState} {previous current : Nat} (active : trend.active = true)
    (few : trend.Few previous current) : trend.advance previous current =
      { trend with
        ring := (TrendRing.sample trend.value trend.period)^[(trend.ring.start previous trend.period).due trend.period
          current] (trend.ring.start previous trend.period) } := by
  unfold advance
  rw [if_pos active, TrendRing.catchUp_eq (period_pos active) (few active)]

theorem Few.earlier {trend : TrendState} {previous middle current : Nat} (few : trend.Few previous current)
    (before : middle ≤ current) : trend.Few previous middle :=
  fun active => Nat.le_trans (TrendRing.due_mono before) (few active)

/-- A stop on the way changes nothing. -/
theorem advance_advance {trend : TrendState} {previous middle current : Nat} (few : trend.Few previous current)
    (before : middle ≤ current) :
    (trend.advance previous middle).advance middle current = trend.advance previous current ∧
      (trend.advance previous middle).Few middle current := by
  cases active : trend.active with
  | false =>
    have still : ∀ previous current, trend.advance previous current = trend := by
      intro previous current
      unfold advance
      rw [if_neg (by rw [active]; exact Bool.false_ne_true)]
    rw [still, still, still]
    refine ⟨rfl, fun on => ?_⟩
    rw [active] at on
    cases on
  | true =>
    have positive := period_pos active
    have bound := few active
    have order : (trend.ring.start previous trend.period).due trend.period middle ≤
        (trend.ring.start previous trend.period).due trend.period current := TrendRing.due_mono before
    have first := advance_active active (few.earlier before)
    have resumed : (trend.advance previous middle).ring.start middle trend.period =
        (trend.advance previous middle).ring := by
      rw [first]
      refine TrendRing.start_started ?_ middle
      rw [TrendRing.nextTime_iterate]
      have started : (trend.ring.start previous trend.period).nextTime ≠ 0 := TrendRing.start_pos positive previous
      omega
    have rest : (trend.advance previous middle).ring.due trend.period current =
        (trend.ring.start previous trend.period).due trend.period current -
          (trend.ring.start previous trend.period).due trend.period middle := by
      rw [first]
      exact TrendRing.due_iterate positive _ _ _ _
    have few' : (trend.advance previous middle).Few middle current := by
      intro _
      rw [period_advance, resumed, rest]
      omega
    refine ⟨?_, few'⟩
    rw [advance_active ((active_advance trend previous middle).trans active) few', period_advance, resumed, rest,
      advance_active active few]
    rw [first]
    dsimp only
    rw [← Function.iterate_add_apply, Nat.sub_add_cancel order]

theorem follow_eq {trend : TrendState} {previous current : Nat} {times : List Nat}
    (forward : (times ++ [current]).Pairwise (· ≤ ·)) (few : trend.Few previous current) :
    trend.follow previous (times ++ [current]) = trend.advance previous current := by
  induction times generalizing trend previous with
  | nil => rfl
  | cons middle times ih =>
    obtain ⟨first, later⟩ := List.pairwise_cons.mp forward
    obtain ⟨same, few'⟩ := advance_advance few (first current (by simp))
    exact (ih later few').trans same

/-- After the samples due were taken, the newest one is not a period old. -/
theorem fresh {trend : TrendState} {previous current : Nat} (active : trend.active = true)
    (few : trend.Few previous current) (consistent : trend.ring.Consistent trend.period) :
    current < (trend.advance previous current).ring.nextTime ∧
      ((trend.advance previous current).ring.count ≠ 0 →
        current < (trend.advance previous current).ring.newest.timestamp + trend.period) := by
  have positive := period_pos active
  rw [advance_active active few]
  dsimp only
  have kept := (consistent.start previous).iterate positive trend.value
    ((trend.ring.start previous trend.period).due trend.period current)
  have none := (TrendRing.due_iterate positive (trend.ring.start previous trend.period) trend.value current
    ((trend.ring.start previous trend.period).due trend.period current)).trans (Nat.sub_self _)
  have next := TrendRing.lt_nextTime none
  exact ⟨next, fun some => by rw [kept.newest some]; exact next⟩

end TrendState

/-! ### The trends of a device -/

namespace RuntimeDevice

def ring (k : Nat) (device : RuntimeDevice ρ) : TrendRing where
  samples := device.trendSamples.getD k (Vector.replicate 12 {})
  count := device.trendSampleCounts.getD k 0
  next := device.trendSampleNext.getD k 0
  nextTime := device.trendNextSampleTime.getD k 0

def trend (k : Nat) (device : RuntimeDevice ρ) : TrendState where
  listed := k < device.plan.trendCount.toNat
  configuration := device.plan.trends.getD k {}
  value := device.trendValue (device.plan.trends.getD k {}).deviceVariableCode
  ring := device.ring k

theorem trend_untimed (k : Nat) (before after : RuntimeDevice ρ) (untimed : Untimed before after) :
    after.trend k = before.trend k := by
  unfold trend ring trendValue evaluatePrimary
  rw [untimed.trendCount, untimed.trends, untimed.trendSamples, untimed.trendSampleCounts, untimed.trendSampleNext,
    untimed.trendNextSampleTime, untimed.variableConfigurations, untimed.primaryValue, untimed.variableValues]

/-- One iteration of the loop. -/
def sampleStep (device : RuntimeDevice ρ) (k : Nat) : RuntimeDevice ρ :=
  let sampled := device.sampleTrend k (device.trendNextSampleTime.getD k 0)
  { sampled with
    trendNextSampleTime := sampled.trendNextSampleTime.setIfInBounds k
      (device.trendNextSampleTime.getD k 0 + (device.plan.trends.getD k {}).samplePeriodSeconds.toNat) }

theorem sampleDue_succ (k current guard : Nat) (device : RuntimeDevice ρ) :
    sampleDue k current (guard + 1) device =
      if current < device.trendNextSampleTime.getD k 0 then device
      else sampleDue k current guard (device.sampleStep k) := rfl

theorem trend_sampleStep {k : Nat} (small : k < 4) {device : RuntimeDevice ρ}
    (active : (device.trend k).active = true) : (device.sampleStep k).trend k =
      { device.trend k with
        ring := TrendRing.sample (device.trend k).value (device.trend k).period (device.trend k).ring } := by
  unfold TrendState.active trend at active
  simp only [Bool.and_eq_true, decide_eq_true_eq, bne_iff_ne, ne_eq] at active
  obtain ⟨⟨listed, controlled⟩, -⟩ := active
  have sampled : ¬(device.plan.trendCount.toNat ≤ k ∨ 4 ≤ k ∨ (device.plan.trends.getD k {}).control = 0) := by
    rintro (above | above | off)
    · omega
    · omega
    · exact controlled off
  unfold sampleStep sampleTrend
  dsimp only
  rw [if_neg sampled]
  unfold trend ring TrendRing.sample TrendState.period
  dsimp only
  simp only [getD_setIfInBounds, small, and_self, if_true]
  rfl

theorem trend_sampleDue {k : Nat} (small : k < 4) (current guard : Nat) {device : RuntimeDevice ρ}
    (active : (device.trend k).active = true) : (sampleDue k current guard device).trend k =
      { device.trend k with
        ring := (device.trend k).ring.catchUp (device.trend k).value (device.trend k).period current guard } := by
  induction guard generalizing device with
  | zero => rfl
  | succ guard ih =>
    have step := trend_sampleStep small active
    rw [sampleDue_succ]
    unfold TrendRing.catchUp
    by_cases early : current < device.trendNextSampleTime.getD k 0
    · rw [if_pos early, if_pos (show current < (device.trend k).ring.nextTime from early)]
    · rw [if_neg early, if_neg (show ¬current < (device.trend k).ring.nextTime from early), ih (by rw [step]; exact active),
        step]
      rfl

theorem active_iff (device : RuntimeDevice ρ) (k : Nat) : (device.trend k).active = true ↔
    ¬(device.plan.trendCount.toNat ≤ k ∨ (device.plan.trends.getD k {}).control = 0 ∨
      (device.plan.trends.getD k {}).samplePeriodSeconds = 0) := by
  unfold TrendState.active trend
  simp only [Bool.and_eq_true, decide_eq_true_eq, bne_iff_ne, ne_eq, not_or, Nat.not_le, and_assoc]

theorem trend_advanceTrend {k : Nat} (small : k < 4) (previous current : Nat) (device : RuntimeDevice ρ) :
    (advanceTrend previous current device k).trend k = (device.trend k).advance previous current := by
  unfold advanceTrend TrendState.advance
  dsimp only
  by_cases active : (device.trend k).active = true
  · rw [if_neg ((device.active_iff k).mp active), if_pos active]
    by_cases unstarted : device.trendNextSampleTime.getD k 0 = 0
    · have started : ({ device with
          trendNextSampleTime := device.trendNextSampleTime.setIfInBounds k
            (previous + (device.plan.trends.getD k {}).samplePeriodSeconds.toNat) } : RuntimeDevice ρ).trend k =
          { device.trend k with ring := (device.trend k).ring.start previous (device.trend k).period } := by
        unfold TrendRing.start
        rw [if_pos (show (device.trend k).ring.nextTime = 0 from unstarted)]
        unfold trend ring TrendState.period
        dsimp only
        simp only [getD_setIfInBounds, small, and_self, if_true]
        rfl
      rw [if_pos unstarted, trend_sampleDue small _ _ (by rw [started]; exact active), started]
      rfl
    · rw [if_neg unstarted, trend_sampleDue small _ _ active,
        TrendRing.start_started (show (device.trend k).ring.nextTime ≠ 0 from unstarted)]
  · have idle := not_not.mp (mt (device.active_iff k).mpr active)
    rw [if_pos idle, if_neg active]

theorem ring_sampleTrend_other {j k : Nat} (other : j ≠ k) (device : RuntimeDevice ρ) (timestamp : Nat) :
    (device.sampleTrend j timestamp).trend k = device.trend k := by
  unfold sampleTrend
  dsimp only
  split
  · rfl
  · unfold trend ring
    simp only [getD_setIfInBounds, other, false_and, if_false]
    rfl

theorem trend_sampleDue_other {j k : Nat} (other : j ≠ k) (current guard : Nat) (device : RuntimeDevice ρ) :
    (sampleDue j current guard device).trend k = device.trend k := by
  induction guard generalizing device with
  | zero => rfl
  | succ guard ih =>
    rw [sampleDue_succ]
    split
    · rfl
    · refine (ih _).trans (Eq.trans ?_ (ring_sampleTrend_other other device (device.trendNextSampleTime.getD j 0)))
      unfold sampleStep trend ring
      simp only [getD_setIfInBounds, other, false_and, if_false]
      rfl

theorem trend_advanceTrend_other {j k : Nat} (other : j ≠ k) (previous current : Nat) (device : RuntimeDevice ρ) :
    (advanceTrend previous current device j).trend k = device.trend k := by
  unfold advanceTrend
  dsimp only
  split
  · rfl
  · rw [trend_sampleDue_other other]
    split
    · unfold trend ring
      simp only [getD_setIfInBounds, other, false_and, if_false]
      rfl
    · rfl

theorem trend_advanceTrends {k : Nat} (small : k < 4) (previous current : Nat) (device : RuntimeDevice ρ) :
    (device.advanceTrends previous current).trend k = (device.trend k).advance previous current := by
  have others : ∀ (trends : List Nat) (device : RuntimeDevice ρ), k ∉ trends →
      (trends.foldl (advanceTrend previous current) device).trend k = device.trend k := by
    intro trends
    induction trends with
    | nil => exact fun _ _ => rfl
    | cons j trends ih =>
      intro device absent
      rw [List.foldl_cons, ih _ fun later => absent (List.mem_cons_of_mem _ later)]
      exact trend_advanceTrend_other (fun same => absent (List.mem_cons.mpr (.inl same.symm))) previous current device
  obtain ⟨done, rest, split⟩ := List.append_of_mem (List.mem_range.mpr small)
  have once : (List.range 4).Nodup := List.nodup_range
  rw [split] at once
  obtain ⟨-, late, apart⟩ := List.nodup_append.mp once
  unfold advanceTrends
  rw [split, List.foldl_append, List.foldl_cons, others rest _ (List.nodup_cons.mp late).1,
    trend_advanceTrend small, others done _ fun early => apart k early k List.mem_cons_self rfl]

end RuntimeDevice

section Runs

variable {host : Host ρ σ} {index k : Nat} {engine after : HartEngine ρ σ} {trend : TrendState}

theorem trend_free (k index : Nat) :
    BurstFree (Same (watched (RuntimeDevice.trend k) index : HartEngine ρ σ → Option TrendState)) :=
  burstFree_watched fun _ _ _ _ => rfl

theorem setVirtualTimeSeconds_trend {seconds : Nat} (small : k < 4) (forward : engine.virtualTimeSeconds ≤ seconds)
    (calls : ∀ engine' call, Issued host engine (.setVirtualTimeSeconds seconds) engine' call →
      Leaves host (Same (watched (RuntimeDevice.trend k) index)) engine' call)
    (here : engine.watched (RuntimeDevice.trend k) index = some trend)
    (ran : engine.setVirtualTimeSeconds host seconds = .ok after) :
    after.watched (RuntimeDevice.trend k) index = some (trend.advance engine.virtualTimeSeconds seconds) := by
  unfold setVirtualTimeSeconds at ran
  dsimp only at ran
  rw [if_pos forward] at ran
  have inside : index < ({ engine with virtualTimeSeconds := seconds } : HartEngine ρ σ).devices.length := by
    obtain ⟨device, found, _⟩ := Option.map_eq_some_iff.mp here
    exact (List.getElem?_eq_some_iff.mp found).1
  have issues : ∀ engine' call, AdvanceIssues host engine.virtualTimeSeconds seconds
      { engine with virtualTimeSeconds := seconds } engine' call →
      Leaves host (Same (watched (RuntimeDevice.trend k) index)) engine' call :=
    fun engine' call issues => calls engine' call (.setVirtualTimeSeconds forward issues)
  obtain ⟨before, next, visited, step, kept, ends, -⟩ :=
    advanceVirtualState_watched (trend_free k index) inside issues ran
  have issued : ∀ engine' call, DeviceIssues host engine.virtualTimeSeconds seconds before _ engine' call →
      Leaves host (Same (watched (RuntimeDevice.trend k) index)) engine' call :=
    fun engine' call issued => issues engine' call ⟨_, before, visited, issued⟩
  unfold advanceDevice at step
  obtain ⟨device, read, step⟩ := bind_ok step
  obtain ⟨sampled, stored, step⟩ := bind_ok step
  obtain ⟨acted, acts, step⟩ := bind_ok step
  have same : device.trend k = trend :=
    Option.some.inj ((watched_deref read).symm.trans (Eq.trans kept here))
  have begun : sampled.watched (RuntimeDevice.trend k) index =
      some ((device.advanceTrends engine.virtualTimeSeconds seconds).trend k) := watched_store_self read stored
  rw [RuntimeDevice.trend_advanceTrends small, same] at begun
  have actions := runDueActions_keeps (Same.chains _) (fun _ _ => writes_watched fun _ => rfl)
    (fun engine' call issues => issued engine' call (.action read stored issues)) acts
  have bursts := runDueBursts_keeps (Same.chains _) (trend_free k index)
    (fun engine' call issues => issued engine' call (.burst read stored acts issues)) step
  exact ends.trans (Eq.trans bursts (Eq.trans actions begun))

theorem run_trend {times : List Nat} (small : k < 4)
    (forward : (engine.virtualTimeSeconds :: times).Pairwise (· ≤ ·))
    (undisturbed : Undisturbed host (Same (watched (RuntimeDevice.trend k) index)) engine times)
    (here : engine.watched (RuntimeDevice.trend k) index = some trend)
    (ran : times.foldlM (setVirtualTimeSeconds host) engine = .ok after) :
    after.watched (RuntimeDevice.trend k) index = some (trend.follow engine.virtualTimeSeconds times) := by
  induction times generalizing engine trend with
  | nil =>
    cases ran
    exact here
  | cons seconds times ih =>
    rw [List.foldlM_cons] at ran
    obtain ⟨next, step, ran⟩ := bind_ok ran
    obtain ⟨first, later⟩ := List.pairwise_cons.mp forward
    have advanced := setVirtualTimeSeconds_trend small (first seconds List.mem_cons_self) undisturbed.head here step
    have time := setVirtualTimeSeconds_time step
    have rest := ih (by rwa [time]) (undisturbed.tail step) advanced ran
    rw [time] at rest
    exact rest

end Runs

/-! ### Every session -/

/-- The rings of a device agree with the periods of its trends. -/
def Paced (device : RuntimeDevice ρ) : Prop :=
  ∀ k < 4, (device.ring k).Consistent (device.plan.trends.getD k {}).samplePeriodSeconds.toNat

def AllPaced (devices : List (RuntimeDevice ρ)) : Prop := ∀ device ∈ devices, Paced device

theorem Paced.of_rings {device device' : RuntimeDevice ρ} (paced : Paced device)
    (rings : ∀ k, device'.ring k = device.ring k) (trends : device'.plan.trends = device.plan.trends) :
    Paced device' := by
  intro k small
  rw [rings, trends]
  exact paced k small

theorem Paced.untimed {before after : RuntimeDevice ρ} (paced : Paced before) (untimed : Untimed before after) :
    Paced after := by
  refine paced.of_rings (fun k => ?_) untimed.trends
  unfold RuntimeDevice.ring
  rw [untimed.trendSamples, untimed.trendSampleCounts, untimed.trendSampleNext, untimed.trendNextSampleTime]

theorem Paced.advanceTrends {device : RuntimeDevice ρ} (paced : Paced device) (previous current : Nat) :
    Paced (device.advanceTrends previous current) := by
  intro k small
  have advanced := RuntimeDevice.trend_advanceTrends small previous current device
  have consistent : (device.trend k).ring.Consistent (device.trend k).period := paced k small
  have kept : ((device.trend k).advance previous current).ring.Consistent
      ((device.trend k).advance previous current).period := by
    rw [TrendState.period_advance]
    unfold TrendState.advance
    split
    · rename_i active
      exact (consistent.start previous).catchUp (TrendState.period_pos active) 64
    · exact consistent
  rw [← advanced] at kept
  exact kept

theorem consistent_empty (samples : Vector TrendSample 12) (period : Nat) :
    TrendRing.Consistent period { samples := samples, count := 0, next := 0, nextTime := 0 } :=
  ⟨show (0 : UInt8).toNat < 12 by decide, fun some => absurd rfl some, fun _ => rfl⟩

/-- A new configuration of the trends comes with empty rings. -/
theorem Paced.commitPlan {device : RuntimeDevice ρ} (paced : Paced device) (command : HartCommandId)
    (plan : HartDevicePlan ρ) : Paced (device.commitPlan command plan) := by
  intro k small
  cases changed : RuntimeDevice.trendChanged device.plan (device.configurationChanged command plan) with
  | true =>
    have empty : (device.commitPlan command plan).ring k =
        { samples := device.trendSamples.getD k (Vector.replicate 12 {}), count := 0, next := 0, nextTime := 0 } := by
      unfold RuntimeDevice.commitPlan RuntimeDevice.ring
      dsimp only
      rw [changed]
      simp only [if_true, getD_replicate small]
    rw [empty]
    exact consistent_empty _ _
  | false =>
    have trends : (device.configurationChanged command plan).trends = device.plan.trends := by
      unfold RuntimeDevice.trendChanged at changed
      simp only [Bool.or_eq_false_iff, bne_eq_false_iff_eq] at changed
      exact changed.2.symm
    have same : (device.commitPlan command plan).ring k = device.ring k := by
      unfold RuntimeDevice.commitPlan RuntimeDevice.ring
      dsimp only
      rw [changed]
      rfl
    rw [same, show (device.commitPlan command plan).plan.trends = device.plan.trends from trends]
    exact paced k small

theorem Paced.observe {receiver : RuntimeDevice ρ} (paced : Paced receiver) (command : HartCommandId)
    (pollingAddress : UInt8) (bytes : Bytes) (time : Nat) :
    Paced (receiver.observe command pollingAddress bytes time) := by
  refine List.foldlRecOn (motive := fun device : RuntimeDevice ρ => Paced device) _ _ paced ?_
  intro device paced catchIndex _
  unfold RuntimeDevice.catchInto
  dsimp only
  split
  · exact paced
  · exact paced.of_rings (fun _ => rfl) rfl

theorem AllPaced.set {devices : List (RuntimeDevice ρ)} (all : AllPaced devices) (i : Nat) {device : RuntimeDevice ρ}
    (paced : Paced device) : AllPaced (devices.set i device) := by
  intro other member
  rcases List.mem_or_eq_of_mem_set member with old | rfl
  · exact all other old
  · exact paced

theorem execute_paced {host : Host ρ σ} {engine : HartEngine ρ σ} {call : Call} {response : HartResponseBuilder}
    {outcome : Outcome ρ σ} (ran : execute host engine call response = .ok outcome) (all : AllPaced engine.devices) :
    AllPaced outcome.engine.devices := by
  refine execute_keeps (fun engine' call' _ => ?_) all ran
  constructor
  · exact fun _ here all => all.set _ ((all _ (List.mem_of_getElem? here)).untimed (RuntimeDevice.begin_untimed _ call'))
  · intro i device answer response _ here given all
    have begun : device.begin call' ∈ engine'.devices.set i (device.begin call') :=
      List.mem_set (List.getElem?_eq_some_iff.mp here).1 _
    have kept := all.set i ((all _ begun).untimed given.untimed)
    rwa [List.set_set] at kept
  · intro i device programHook plan response response' _ here _ _ all
    have begun : device.begin call' ∈ engine'.devices.set i (device.begin call') :=
      List.mem_set (List.getElem?_eq_some_iff.mp here).1 _
    have committed := all.set i ((all _ begun).commitPlan call'.command plan)
    rw [List.set_set] at committed
    intro other member
    obtain ⟨receiver, listed, rfl⟩ := List.mem_map.mp member
    exact (committed receiver listed).observe _ _ _ _
  · exact fun _ there all => all.set _ ((all _ (List.mem_of_getElem? there)).untimed
      (RuntimeDevice.countRouted_untimed _ _))

/-- The rings stay in agreement. -/
def KeepsPaced (before after : HartEngine ρ σ) : Prop := AllPaced before.devices → AllPaced after.devices

theorem KeepsPaced.chains : Chains (KeepsPaced : HartEngine ρ σ → HartEngine ρ σ → Prop) where
  refl _ := id
  trans first second all := second (first all)

theorem writes_paced {ref : DeviceRef} {device device' : RuntimeDevice ρ} (keeps : Paced device → Paced device') :
    Writes (KeepsPaced : HartEngine ρ σ → HartEngine ρ σ → Prop) ref device device' := by
  intro engine after read stored all
  rw [store_ok stored]
  exact all.set _ (keeps (all _ (List.mem_of_getElem? (deref_here read))))

theorem updateDevice_paced {engine : HartEngine ρ σ} {deviceId : String}
    {write : RuntimeDevice ρ → Option (RuntimeDevice ρ)}
    (keeps : ∀ device device', write device = some device' → Paced device → Paced device')
    (all : AllPaced engine.devices) : AllPaced (engine.updateDevice deviceId write).2.devices := by
  unfold updateDevice
  split
  · exact all
  · split
    · exact all
    · rename_i written
      obtain ⟨device, here, writes⟩ := Option.bind_eq_some_iff.mp written
      exact all.set _ (keeps device _ writes (all _ (List.mem_of_getElem? here)))

theorem writeVariable_paced {accepts : VariableConfiguration → Bool} {variableId : String} {value : Float}
    {device device' : RuntimeDevice ρ} (writes : writeVariable accepts variableId value device = some device')
    (paced : Paced device) : Paced device' := by
  unfold writeVariable at writes
  split at writes
  · cases writes
  · split at writes
    · cases writes
      exact paced.of_rings (fun _ => rfl) rfl
    · cases writes

theorem writeConfiguration_paced {command : HartCommandId} {change : CommandConfiguration → CommandConfiguration}
    {device device' : RuntimeDevice ρ} (writes : writeConfiguration command change device = some device')
    (paced : Paced device) : Paced device' := by
  obtain ⟨i, _, rfl⟩ := Option.map_eq_some_iff.mp writes
  exact paced.of_rings (fun _ => rfl) rfl

theorem executeAddressed_paced {host : Host ρ σ} {engine : HartEngine ρ σ} (all : AllPaced engine.devices)
    (bus : String) (address : HartFrameAddress) (command : HartCommandId) (request : Bytes)
    (response : HartResponseBuilder) :
    Post True (engine.executeAddressed host bus address command request response)
      fun result => AllPaced result.2.1.devices := by
  unfold executeAddressed
  split
  · exact all
  · refine Post.bind (Post.of_ok fun device read => read) fun device _ read => ?_
    split
    · exact all
    · refine Post.bind (Post.of_ok fun outcome executed => execute_paced executed all) fun outcome _ all => ?_
      split
      · exact all
      · refine Post.bind (Post.of_ok fun device read => read) fun device _ read => ?_
        refine Post.bind (Q := fun after => AllPaced after.devices) (Post.of_ok fun after stored => ?_)
          fun after _ all => Post.ok all
        have cleared : ∀ masterBit, Paced (device.clearColdStart command masterBit outcome.executed) :=
          fun masterBit => (all _ (List.mem_of_getElem? (deref_here read))).of_rings (fun _ => rfl) rfl
        rw [store_ok stored]
        exact all.set _ (cleared _)

/-- A loaded device has empty rings. -/
theorem loadPlan_paced (host : Host ρ σ) {engine : HartEngine ρ σ} (all : AllPaced engine.devices)
    (plan : List (HartDevicePlan ρ)) : AllPaced (loadPlan host engine plan).2.devices := by
  unfold loadPlan
  dsimp only
  split
  · rename_i devices resolved
    obtain ⟨plans, -, built⟩ := Option.bind_eq_some_iff.mp resolved
    intro device member
    obtain ⟨loaded, -, made⟩ := mem_of_forall₂ (mapM_some built) member
    obtain ⟨profile, -, rfl⟩ := Option.map_eq_some_iff.mp made
    intro k small
    have empty : RuntimeDevice.ring k ({
        plan := loaded, profile := profile, variableValues := loaded.variableConfigurations.map (·.value) } :
          RuntimeDevice ρ) =
        { samples := Vector.replicate 12 {}, count := 0, next := 0, nextTime := 0 } := by
      unfold RuntimeDevice.ring
      simp only [getD_replicate small]
    rw [empty]
    exact consistent_empty _ _
  · exact all

theorem perform_paced {host : Host ρ σ} {engine after : HartEngine ρ σ} {operation : Operation ρ}
    (ran : operation.perform host engine = .ok after) (all : AllPaced engine.devices) : AllPaced after.devices := by
  cases operation with
  | loadPlan plan =>
    cases ran
    exact loadPlan_paced host all plan
  | clear =>
    cases ran
    exact fun device member => nomatch member
  | execute call response =>
    have kept : Post True ((HartEngine.execute host engine call response).map (·.engine))
        fun after => AllPaced after.devices :=
      Post.map (Post.of_ok fun outcome executed => execute_paced executed all)
    exact kept.elim ran
  | executeAddressed bus address command request response =>
    have kept : Post True ((HartEngine.executeAddressed host engine bus address command request response).map (·.2.1))
        fun after => AllPaced after.devices :=
      Post.map (executeAddressed_paced all bus address command request response)
    exact kept.elim ran
  | setVirtualTimeSeconds seconds =>
    change engine.setVirtualTimeSeconds host seconds = .ok after at ran
    unfold setVirtualTimeSeconds at ran
    dsimp only at ran
    split at ran
    · exact advanceVirtualState_keeps KeepsPaced.chains
        (fun ref device _ _ _ => writes_paced fun paced => paced.of_rings (fun _ => rfl) rfl)
        (fun ref device => writes_paced fun paced => paced.advanceTrends _ _)
        (fun ref i device => writes_paced fun paced => paced.of_rings (fun _ => rfl) rfl)
        (fun _ _ _ _ _ executed all => execute_paced executed all) ran all
    · cases ran
      exact all
  | setPrimaryValue deviceId value =>
    cases ran
    unfold setPrimaryValue
    split
    · exact all
    · refine updateDevice_paced (fun device device' writes paced => ?_) all
      cases writes
      exact paced.of_rings (fun _ => rfl) rfl
  | setVariableInput deviceId variableId value =>
    cases ran
    unfold setVariableInput
    split
    · exact all
    · exact updateDevice_paced (fun device device' writes paced => writeVariable_paced writes paced) all
  | setMeasuredVariable deviceId variableId value =>
    cases ran
    unfold setMeasuredVariable
    split
    · exact all
    · exact updateDevice_paced (fun device device' writes paced => writeVariable_paced writes paced) all
  | setCommandEnabled deviceId command enabled =>
    cases ran
    exact updateDevice_paced (fun device device' writes paced => writeConfiguration_paced writes paced) all
  | setCommandResponse deviceId command response =>
    cases ran
    unfold setCommandResponse
    split
    · exact all
    · exact updateDevice_paced (fun device device' writes paced => writeConfiguration_paced writes paced) all
  | setDiagnosticStatus deviceId status =>
    cases ran
    refine updateDevice_paced (fun device device' writes paced => ?_) all
    cases writes
    unfold recordDiagnostic
    split
    · exact paced
    · dsimp only
      split <;> exact paced.of_rings (fun _ => rfl) rfl
  | setSensorFault deviceId fault =>
    cases ran
    refine updateDevice_paced (fun device device' writes paced => ?_) all
    cases writes
    exact paced.of_rings (fun _ => rfl) rfl
  | takeBurstEvents deviceId =>
    cases ran
    refine updateDevice_paced (fun device device' writes paced => ?_) all
    cases writes
    exact paced.of_rings (fun _ => rfl) rfl

theorem run_paced {engine after : HartEngine ρ σ} {operations : List (Host ρ σ × Operation ρ)}
    (all : AllPaced engine.devices) (ran : run engine operations = .ok after) : AllPaced after.devices := by
  have kept : Post True (run engine operations) fun engine => AllPaced engine.devices :=
    Post.foldlM all fun step before _ all => Post.of_ok fun next performed => perform_paced performed all
  exact kept.elim ran

section Paths

variable {host : Host ρ σ} {index k : Nat} {engine direct after : HartEngine ρ σ} {times : List Nat} {current : Nat}

/-- In a session, as long as no executed command writes the trend or its traced value and at most 64 samples are due:
the time of a call is reached through any times with the same ring, and the newest sample is not a period old. -/
theorem trend_path_independent {operations : List (Host ρ σ × Operation ρ)} {handlers : σ}
    (session : run { handlers := handlers } operations = .ok engine) (small : k < 4)
    {trend : TrendState} (here : engine.watched (RuntimeDevice.trend k) index = some trend)
    (few : trend.Few engine.virtualTimeSeconds current)
    (forward : (engine.virtualTimeSeconds :: (times ++ [current])).Pairwise (· ≤ ·))
    (undisturbed : Undisturbed host (Same (watched (RuntimeDevice.trend k) index)) engine [current])
    (undisturbed' : Undisturbed host (Same (watched (RuntimeDevice.trend k) index)) engine (times ++ [current]))
    (called : engine.setVirtualTimeSeconds host current = .ok direct)
    (ran : (times ++ [current]).foldlM (setVirtualTimeSeconds host) engine = .ok after) :
    ∃ reached, direct.watched (RuntimeDevice.trend k) index = some reached ∧
      after.watched (RuntimeDevice.trend k) index = some reached ∧
      (trend.active = true → current < reached.ring.nextTime ∧
        (reached.ring.count ≠ 0 → current < reached.ring.newest.timestamp + reached.period)) := by
  obtain ⟨first, later⟩ := List.pairwise_cons.mp forward
  have reaches := setVirtualTimeSeconds_trend small (first current (by simp)) undisturbed.head here called
  have arrives := run_trend small forward undisturbed' here ran
  rw [TrendState.follow_eq later few] at arrives
  refine ⟨_, reaches, arrives, fun active => ?_⟩
  rw [TrendState.period_advance]
  obtain ⟨device, found, rfl⟩ := Option.map_eq_some_iff.mp here
  have paced := run_paced (fun device member => absurd member List.not_mem_nil) session device (List.mem_of_getElem? found)
  exact TrendState.fresh active few (paced k small)

end Paths

/-- One trend with a period of one second. -/
def trendPlan : HartDevicePlan Unit where
  id := "device"
  profileId := "profile"
  rest := ()
  trendCount := 1
  trends := (Vector.replicate 4 {}).setIfInBounds 0 { control := 1, samplePeriodSeconds := 1 }

def trendHost : Host Unit Unit where
  profiles _ := some { id := "profile" }
  handler _ := none
  programHook := none

def trendEngine : HartEngine Unit Unit := (loadPlan trendHost { handlers := () } [trendPlan]).2

theorem trendEngine_loaded : run { handlers := () } [(trendHost, .loadPlan [trendPlan])] = .ok trendEngine := rfl

theorem trendHost_undisturbed (times : List Nat) :
    Undisturbed trendHost (Same (watched (RuntimeDevice.trend 0) 0)) trendEngine times :=
  undisturbed_without_programs rfl (RuntimeDevice.trend_untimed 0) 0 _ _

/-- Over 60 periods: in one call, and in two. -/
theorem trend_path_independent_minute : ∃ direct after reached,
    trendEngine.setVirtualTimeSeconds trendHost 60 = .ok direct ∧
      ([25] ++ [60]).foldlM (setVirtualTimeSeconds trendHost) trendEngine = .ok after ∧
      direct.watched (RuntimeDevice.trend 0) 0 = some reached ∧ after.watched (RuntimeDevice.trend 0) 0 = some reached := by
  have called : ∃ direct, trendEngine.setVirtualTimeSeconds trendHost 60 = .ok direct := ⟨_, rfl⟩
  have ran : ∃ after, ([25] ++ [60]).foldlM (setVirtualTimeSeconds trendHost) trendEngine = .ok after := ⟨_, rfl⟩
  obtain ⟨direct, called⟩ := called
  obtain ⟨after, ran⟩ := ran
  obtain ⟨reached, reaches, arrives, -⟩ := trend_path_independent trendEngine_loaded (by decide) rfl
    (fun _ => by decide) (by decide) (trendHost_undisturbed [60]) (trendHost_undisturbed ([25] ++ [60])) called ran
  exact ⟨direct, after, reached, called, ran, reaches, arrives⟩

/-- Over 100 periods one call stops after 64 samples, and two calls do not. -/
theorem trend_path_cut :
    Undisturbed trendHost (Same (watched (RuntimeDevice.trend 0) 0)) trendEngine [100] ∧
    Undisturbed trendHost (Same (watched (RuntimeDevice.trend 0) 0)) trendEngine [50, 100] ∧
    ∃ direct after lagging caught, trendEngine.setVirtualTimeSeconds trendHost 100 = .ok direct ∧
      [50, 100].foldlM (setVirtualTimeSeconds trendHost) trendEngine = .ok after ∧
      direct.watched (RuntimeDevice.trend 0) 0 = some lagging ∧ after.watched (RuntimeDevice.trend 0) 0 = some caught ∧
      lagging.ring.nextTime = 65 ∧ lagging.ring.newest.timestamp = 64 ∧ caught.ring.nextTime = 101 := by
  have called : ∃ direct, trendEngine.setVirtualTimeSeconds trendHost 100 = .ok direct := ⟨_, rfl⟩
  have ran : ∃ after, [50, 100].foldlM (setVirtualTimeSeconds trendHost) trendEngine = .ok after := ⟨_, rfl⟩
  obtain ⟨direct, called⟩ := called
  obtain ⟨after, ran⟩ := ran
  have lags := setVirtualTimeSeconds_trend (by decide) (Nat.zero_le 100) (trendHost_undisturbed [100]).head rfl called
  have catches := run_trend (by decide) (by decide) (trendHost_undisturbed [50, 100]) rfl ran
  refine ⟨trendHost_undisturbed [100], trendHost_undisturbed [50, 100], direct, after, _, _, called, ran, lags, catches,
    ?_, ?_, ?_⟩
  · decide +kernel
  · decide +kernel
  · decide +kernel

end LasecSimul.Hart
