import LasecSimul.Kernels.ResetEdge
import LasecSimul.Lib.Ring
import Mathlib.Data.List.Chain

/-!
# Delays by whole numbers of samples

`unit_delay`, `delay`, `tapped_delay` and `delay_general`. A value of `V` is what a port of the block's width holds; the
heads of the rings are doubles.
-/

namespace LasecSimul.Kernels

open Lib.Binary

variable {V : Type}

/-- A ring of samples and the place that is written next. -/
structure Buffer (V : Type) where
  head : FloatValue
  ring : List V

namespace Buffer

variable (d : Buffer V) (n : ℕ)

def index : ℕ := Double.toUnsigned d.head

/-- The sample `lag` places behind the head. -/
def past [Zero V] (lag : ℕ) : V := d.ring.getD ((d.index + n - lag) % n) 0

def write (u : V) : Buffer V :=
  { head := Double.ofUnsigned ((d.index + 1) % n)
    ring := d.ring.set d.index u }

end Buffer

/-! ### Kernels -/

namespace UnitDelay

def init (ic : V) : V := ic

def outputs (d : V) : V := d

def update (_d u : V) : V := u

end UnitDelay

namespace Delay

structure Config (V : Type) where
  n : ℕ
  ic : V
  bounded : n ≤ 1000000

variable (cfg : Config V)

def init : Buffer V := { head := 0, ring := List.replicate cfg.n cfg.ic }

def outputs [Zero V] (d : Buffer V) (u : V) : V := if cfg.n = 0 then u else d.ring.getD d.index 0

def update (d : Buffer V) (u : V) : Buffer V := if cfg.n = 0 then d else d.write cfg.n u

end Delay

namespace TappedDelay

structure Config (V : Type) where
  n : ℕ
  newest : Bool
  current : Bool
  ic : V
  positive : 1 ≤ n
  bounded : n + current.toNat < 2 ^ 16

variable (cfg : Config V)

def init : Buffer V := { head := 0, ring := List.replicate cfg.n cfg.ic }

def outputs [Zero V] (d : Buffer V) (u : V) : List V :=
  let total := cfg.n + cfg.current.toNat
  (List.range total).map fun m =>
    let oldestIndex := if cfg.newest then total - 1 - m else m
    let lag := cfg.n - oldestIndex
    if lag = 0 then u else d.past cfg.n lag

def update (d : Buffer V) (u : V) : Buffer V := d.write cfg.n u

end TappedDelay

/-- `std::trunc`. -/
def trunc : FloatValue → FloatValue
  | .finite negative magnitude => .finite negative ⌊magnitude⌋
  | value => value

namespace DelayGeneral

structure Config (V : Type) where
  L : ℕ
  fromPort : Bool
  lower : ℕ
  icExternal : Bool
  enable : Bool
  reset : ResetMode
  offset : ℕ
  N : ℕ
  ic : V
  bounded : L ≤ 1000000
  fits : N ≤ L
  limits : lower ≤ L

/-- The ports of the block at an activation; those that the block lacks are not read. -/
structure Ports (V : Type) where
  tNs : ℕ
  u : V
  d : FloatValue
  enable : FloatValue
  reset : FloatValue
  x0 : V
  magnitude_nonneg : ∀ negative magnitude, d = .finite negative magnitude → 0 ≤ magnitude

structure State (V : Type) where
  initialized : Bool
  everEnabled : Bool
  previousReset : FloatValue
  lastOut : V
  buffer : Buffer V

variable (cfg : Config V)

def enabled (ports : Ports V) : Bool := !cfg.enable || !Double.eq ports.enable 0

def resets (previous current : FloatValue) : Bool :=
  cfg.reset != .none && resetTriggered cfg.reset (signOf previous) (signOf current)

def icAt (ports : Ports V) : V := if cfg.icExternal then ports.x0 else cfg.ic

def length (ports : Ports V) : ℕ :=
  if cfg.fromPort then
    let lower : FloatValue := Double.ofUnsigned cfg.lower
    if Double.isFinite ports.d then
      Double.toUnsigned (Double.clamp (trunc ports.d) lower (Double.ofUnsigned cfg.L))
    else if Double.lt 0 ports.d then cfg.L
    else Double.toUnsigned lower
  else cfg.N

variable [Zero V]

def init : State V :=
  { initialized := false
    everEnabled := false
    previousReset := 0
    lastOut := 0
    buffer := { head := 0, ring := List.replicate cfg.L 0 } }

def outputs (d : State V) (ports : Ports V) : V :=
  if ports.tNs < cfg.offset then 0
  else if !enabled cfg ports then if d.everEnabled then d.lastOut else 0
  else
    let fresh := !d.initialized || resets cfg d.previousReset ports.reset
    let len := length cfg ports
    if len = 0 then ports.u
    else if fresh then icAt cfg ports
    else d.buffer.past cfg.L len

omit [Zero V] in
/-- `out` is what `outputs` has published. -/
def update (d : State V) (ports : Ports V) (out : V) : State V :=
  if ports.tNs < cfg.offset ∨ enabled cfg ports = false then d
  else
    let buffer :=
      if !d.initialized || resets cfg d.previousReset ports.reset then
        { d.buffer with ring := List.replicate cfg.L (icAt cfg ports) }
      else d.buffer
    { initialized := true
      everEnabled := true
      previousReset := if cfg.reset != .none then ports.reset else d.previousReset
      lastOut := out
      buffer := if 0 < cfg.L then buffer.write cfg.L ports.u else buffer }

/-- One activation. -/
def step (d : State V) (ports : Ports V) : State V := update cfg d ports (outputs cfg d ports)

def run (activations : List (Ports V)) : State V := activations.foldl (step cfg) (init cfg)

end DelayGeneral

/-- The sample `lag` places back, or the initial condition. -/
def earlier (ic : V) (past : List V) (lag : ℕ) : V := if lag ≤ past.length then past.getD (past.length - lag) ic else ic

/-- The ring holds the end of a log. -/
structure Buffer.Keeps (d : Buffer V) (n : ℕ) (log : List V) : Prop where
  size : d.ring.length = n
  head : d.head = Double.ofUnsigned (log.length % n)
  full : n ≤ log.length
  holds : Lib.Ring.Holds d.ring log

namespace Buffer

variable {d : Buffer V} {n : ℕ} {log : List V}

theorem Keeps.fill {head : FloatValue} {turned : ℕ} (here : head = Double.ofUnsigned (turned % n)) (ic : V) :
    Keeps ⟨head, List.replicate n ic⟩ n (List.replicate (n + turned) ic) where
  size := List.length_replicate
  head := by rw [here, List.length_replicate, Nat.add_mod_left]
  full := by rw [List.length_replicate]; exact Nat.le_add_right n turned
  holds := Lib.Ring.Holds.fill n (n + turned) ic

variable (keeps : d.Keeps n log) (positive : 0 < n) (small : n < 2 ^ 53)
include keeps positive small

theorem Keeps.index : d.index = log.length % n := by
  rw [Buffer.index, keeps.head]
  exact Binary64.toUnsigned_ofUnsigned ((Nat.mod_lt _ positive).trans small)

theorem Keeps.write (u : V) : (d.write n u).Keeps n (log ++ [u]) where
  size := (List.length_set ..).trans keeps.size
  head := by
    rw [Buffer.write, keeps.index positive small, Nat.mod_add_mod, List.length_append, List.length_singleton]
  full := by
    rw [List.length_append]
    exact keeps.full.trans (Nat.le_add_right _ _)
  holds := by
    have next := keeps.holds.write (keeps.size ▸ positive) u
    rw [keeps.size] at next
    rw [Buffer.write, keeps.index positive small]
    exact next

theorem Keeps.past [Zero V] {lag : ℕ} (back : 0 < lag) (bound : lag ≤ n) (fallback : V) :
    d.past n lag = log.getD (log.length - lag) fallback := by
  have full := keeps.full
  have behind := keeps.holds.behind (keeps.size ▸ full) back (keeps.size ▸ bound)
  rw [keeps.size] at behind
  rw [Buffer.past, keeps.index positive small, List.getD_eq_getElem?_getD, behind, List.getD_eq_getElem?_getD,
    List.getElem?_eq_getElem (by omega)]
  rfl

end Buffer

theorem earlier_eq {ic : V} {past : List V} {count lag : ℕ} (bound : lag ≤ count) :
    (List.replicate count ic ++ past).getD ((List.replicate count ic ++ past).length - lag) ic =
      earlier ic past lag := by
  rw [List.length_append, List.length_replicate, earlier, List.getD_eq_getElem?_getD]
  split
  · next within =>
    have place : count + past.length - lag - count = past.length - lag := by omega
    rw [List.getElem?_append_right (by rw [List.length_replicate]; omega), List.length_replicate, place,
      List.getD_eq_getElem?_getD]
  · next short =>
    rw [List.getElem?_append_left (by rw [List.length_replicate]; omega),
      List.getElem?_replicate_of_lt (by omega)]
    rfl

theorem head_zero : (0 : FloatValue) = Double.ofUnsigned 0 := by decide +kernel

theorem million_small {n : ℕ} (bounded : n ≤ 1000000) : n < 2 ^ 53 := by omega

theorem UnitDelay.outputs_run (ic : V) (past : List V) :
    UnitDelay.outputs (past.foldl UnitDelay.update (UnitDelay.init ic)) = earlier ic past 1 := by
  induction past using List.reverseRecOn with
  | nil => rfl
  | append_singleton past u _ =>
    rw [List.foldl_append, earlier, if_pos (by simp)]
    simp [UnitDelay.update, UnitDelay.outputs]

theorem Buffer.Keeps.run {d : Buffer V} {n : ℕ} {log : List V} (keeps : d.Keeps n log) (positive : 0 < n)
    (small : n < 2 ^ 53) (past : List V) : (past.foldl (fun d u => d.write n u) d).Keeps n (log ++ past) := by
  induction past generalizing d log with
  | nil => simpa using keeps
  | cons u past ih => simpa using ih (keeps.write positive small u)

theorem Buffer.Keeps.start (n : ℕ) (ic : V) : Buffer.Keeps ⟨0, List.replicate n ic⟩ n (List.replicate n ic) :=
  @Buffer.Keeps.fill V n (.finite false 0) 0 (by rw [Nat.zero_mod]; exact head_zero) ic

theorem Delay.outputs_run [Zero V] (cfg : Delay.Config V) (past : List V) (u : V) :
    Delay.outputs cfg (past.foldl (Delay.update cfg) (Delay.init cfg)) u =
      if cfg.n = 0 then u else earlier cfg.ic past cfg.n := by
  unfold Delay.outputs
  split
  · rfl
  next lasting =>
  have positive := Nat.pos_of_ne_zero lasting
  have small := million_small cfg.bounded
  have steps : Delay.update cfg = fun d u => d.write cfg.n u := by
    funext d u
    exact if_neg lasting
  have keeps := (Buffer.Keeps.start cfg.n cfg.ic).run positive small past
  have read := keeps.past positive small positive le_rfl cfg.ic
  rw [Buffer.past, Nat.add_sub_cancel, keeps.index positive small, Nat.mod_mod, ← keeps.index positive small] at read
  rw [steps, Delay.init, read]
  exact earlier_eq le_rfl

/-- The lags of the taps in the order of the outputs. -/
def TappedDelay.Config.lags (cfg : TappedDelay.Config V) : List ℕ :=
  let newestFirst := List.range' (1 - cfg.current.toNat) (cfg.n + cfg.current.toNat)
  if cfg.newest then newestFirst else newestFirst.reverse

theorem TappedDelay.outputs_run [Zero V] (cfg : TappedDelay.Config V) (past : List V) (u : V) :
    TappedDelay.outputs cfg (past.foldl (TappedDelay.update cfg) (TappedDelay.init cfg)) u =
      cfg.lags.map fun lag => if lag = 0 then u else earlier cfg.ic past lag := by
  have positive : 0 < cfg.n := cfg.positive
  have small : cfg.n < 2 ^ 53 := by have := cfg.bounded; omega
  have keeps := (Buffer.Keeps.start cfg.n cfg.ic).run positive small past
  have tap (lag : ℕ) (bound : lag ≤ cfg.n) :
      (if lag = 0 then u else (past.foldl (TappedDelay.update cfg) (TappedDelay.init cfg)).past cfg.n lag) =
        if lag = 0 then u else earlier cfg.ic past lag := by
    split
    · rfl
    · next back =>
      exact (keeps.past positive small (Nat.pos_of_ne_zero back) bound cfg.ic).trans (earlier_eq bound)
  have order : (List.range (cfg.n + cfg.current.toNat)).map
      (fun m => cfg.n - if cfg.newest then cfg.n + cfg.current.toNat - 1 - m else m) = cfg.lags := by
    have bit := cfg.current.toNat_le
    unfold TappedDelay.Config.lags
    cases cfg.newest with
    | true =>
      refine List.ext_getElem (by simp) fun m inside within => ?_
      have range : m < cfg.n + cfg.current.toNat := by simpa using inside
      simp only [List.getElem_map, List.getElem_range, if_true, List.getElem_range']
      omega
    | false =>
      refine List.ext_getElem (by simp) fun m inside within => ?_
      have range : m < cfg.n + cfg.current.toNat := by simpa using inside
      simp [List.getElem_reverse]
      omega
  rw [← order, List.map_map]
  exact List.map_congr_left fun m _ => tap _ (Nat.sub_le ..)

/-! ### Variable lengths -/

namespace DelayGeneral

variable (cfg : Config V)

/-- The length of the dialog, or the port's value without its fraction, between the limits. -/
def lengthSpec (ports : Ports V) : ℕ :=
  if cfg.fromPort then
    match ports.d with
    | .finite false magnitude => max cfg.lower (min ⌊magnitude⌋.toNat cfg.L)
    | .infinity false => cfg.L
    | _ => cfg.lower
  else cfg.N

theorem length_eq (ports : Ports V) : length cfg ports = lengthSpec cfg ports := by
  have bounded := cfg.bounded
  have limits := cfg.limits
  unfold length lengthSpec
  split
  · next fromPort =>
    have lower := Binary64.ofUnsigned_eq (by omega : cfg.lower < 2 ^ 53)
    have upper := Binary64.ofUnsigned_eq (by omega : cfg.L < 2 ^ 53)
    have low := Binary64.toUnsigned_ofUnsigned (by omega : cfg.lower < 2 ^ 53)
    have high := Binary64.toUnsigned_ofUnsigned (by omega : cfg.L < 2 ^ 53)
    rcases port : ports.d with ⟨negative, magnitude⟩ | negative | _
    · have nonneg := ports.magnitude_nonneg _ _ port
      have whole : 0 ≤ ⌊magnitude⌋ := Int.floor_nonneg.mpr nonneg
      have finite : Double.isFinite (FloatValue.finite negative magnitude) = true := rfl
      rw [if_pos finite, Double.clamp, lower, upper, trunc, Binary64.lt_finite, Binary64.lt_finite]
      rw [lower] at low
      rw [upper] at high
      cases negative with
      | true =>
        simp only [FloatValue.signed, Bool.false_eq_true, if_true, if_false, decide_eq_true_eq]
        have bottom : -(⌊magnitude⌋ : ℚ) ≤ 0 := by exact_mod_cast Int.neg_nonpos_of_nonneg whole
        have positive : (0 : ℚ) ≤ cfg.lower := Nat.cast_nonneg _
        split
        · exact low
        · next above =>
          rw [if_neg (not_lt.mpr (bottom.trans (Nat.cast_nonneg _)))]
          have none : (cfg.lower : ℚ) = 0 := le_antisymm ((not_lt.mp above).trans bottom) positive
          exact (Nat.cast_eq_zero.mp none).symm
      | false =>
        simp only [FloatValue.signed, Bool.false_eq_true, if_false, decide_eq_true_eq]
        obtain ⟨n, natural⟩ := Int.eq_ofNat_of_zero_le whole
        rw [natural, Int.toNat_natCast]
        simp only [Int.cast_natCast, Nat.cast_lt]
        split
        · rw [low]
          omega
        · split
          · rw [high]
            omega
          · have self : Double.toUnsigned (FloatValue.finite false n) = n := by
              show ⌊(n : ℚ)⌋.toNat = n
              rw [Int.floor_natCast, Int.toNat_natCast]
            rw [self]
            omega
    · have infinite : ¬ Double.isFinite (FloatValue.infinity negative) = true := by simp [Double.isFinite]
      rw [if_neg infinite, low]
      cases negative <;> rfl
    · exact low
  · rfl

/-- The enabled samples. -/
def active (ports : Ports V) : Bool := cfg.offset ≤ ports.tNs && enabled cfg ports

/-- The samples from the last reset or, without one, from the first. -/
structure Since (samples : List (Ports V)) (first : Ports V) (rest : List (Ports V)) : Prop where
  fresh : ∃ prior, samples = prior ++ first :: rest ∧
    ∀ previous ∈ prior.getLast?, resets cfg previous.reset first.reset = true
  chained : List.IsChain (fun previous current => resets cfg previous.reset current.reset = false) (first :: rest)

/-- What the state says of the enabled samples so far. -/
inductive Tracks [Zero V] : List (Ports V) → State V → Prop where
  | start : Tracks [] (init cfg)
  | since {samples first rest d} (since : Since cfg samples first rest) (initialized : d.initialized = true)
      (ever : d.everEnabled = true)
      (previous : ∀ last ∈ (first :: rest).getLast?, cfg.reset ≠ .none → d.previousReset = last.reset)
      (ring : 0 < cfg.L → ∃ count, cfg.L ≤ count ∧
        d.buffer.Keeps cfg.L (List.replicate count (icAt cfg first) ++ (first :: rest).map (·.u))) :
      Tracks samples d

variable {cfg} {samples : List (Ports V)} {d : State V} {ports : Ports V}

theorem resets_congr {previous other current : FloatValue} (same : cfg.reset ≠ .none → previous = other) :
    resets cfg previous current = resets cfg other current := by
  by_cases mode : cfg.reset = .none
  · simp [resets, mode]
  · rw [same mode]

theorem active_iff : active cfg ports = true ↔ ¬ (ports.tNs < cfg.offset ∨ enabled cfg ports = false) := by
  simp [active]

variable [Zero V]

theorem step_inactive (inactive : active cfg ports = false) : step cfg d ports = d := by
  rw [step, update, if_pos]
  by_contra sampled
  simp [active_iff.mpr sampled] at inactive

theorem step_active (act : active cfg ports = true) :
    step cfg d ports =
      { initialized := true
        everEnabled := true
        previousReset := if cfg.reset != .none then ports.reset else d.previousReset
        lastOut := outputs cfg d ports
        buffer :=
          let buffer :=
            if !d.initialized || resets cfg d.previousReset ports.reset then
              { d.buffer with ring := List.replicate cfg.L (icAt cfg ports) }
            else d.buffer
          if 0 < cfg.L then buffer.write cfg.L ports.u else buffer } :=
  if_neg (active_iff.mp act)

theorem previous_step (act : active cfg ports = true) (mode : cfg.reset ≠ .none) :
    (step cfg d ports).previousReset = ports.reset := by
  rw [step_active act]
  exact if_pos (by simpa using mode)

theorem Tracks.restart (tracks : Tracks cfg samples d) (act : active cfg ports = true)
    (fresh : (!d.initialized || resets cfg d.previousReset ports.reset) = true) :
    Since cfg (samples ++ [ports]) ports [] ∧ Tracks cfg (samples ++ [ports]) (step cfg d ports) := by
  have since : Since cfg (samples ++ [ports]) ports [] := by
    refine ⟨⟨samples, rfl, fun last member => ?_⟩, List.isChain_singleton _⟩
    cases tracks with
    | start => cases member
    | since since initialized ever previous ring =>
      obtain ⟨prior, rfl, -⟩ := since.fresh
      rw [List.getLast?_append_cons] at member
      rw [initialized, Bool.not_true, Bool.false_or, resets_congr (previous last member)] at fresh
      exact fresh
  have turned (positive : 0 < cfg.L) : ∃ turned, d.buffer.head = Double.ofUnsigned (turned % cfg.L) := by
    cases tracks with
    | start => exact ⟨0, by rw [Nat.zero_mod]; exact head_zero⟩
    | since since initialized ever previous ring =>
      obtain ⟨count, -, keeps⟩ := ring positive
      exact ⟨_, keeps.head⟩
  refine ⟨since, .since since (by rw [step_active act]) (by rw [step_active act]) ?_ fun positive => ?_⟩
  · rintro last member mode
    obtain rfl : ports = last := by simpa using member
    exact previous_step act mode
  · obtain ⟨turned, here⟩ := turned positive
    refine ⟨cfg.L + turned, Nat.le_add_right _ _, ?_⟩
    rw [step_active act]
    dsimp only
    rw [if_pos fresh, if_pos positive]
    exact (Buffer.Keeps.fill here _).write positive (million_small cfg.bounded) ports.u

theorem Tracks.advance (tracks : Tracks cfg samples d) (act : active cfg ports = true)
    (stale : (!d.initialized || resets cfg d.previousReset ports.reset) = false) :
    ∃ first rest, Since cfg (samples ++ [ports]) first (rest ++ [ports]) ∧
      (0 < cfg.L → ∃ count, cfg.L ≤ count ∧
        d.buffer.Keeps cfg.L (List.replicate count (icAt cfg first) ++ (first :: rest).map (·.u))) ∧
      Tracks cfg (samples ++ [ports]) (step cfg d ports) := by
  cases tracks with
  | start => cases stale
  | @since _ first rest _ since initialized ever previous ring =>
    have next : Since cfg (samples ++ [ports]) first (rest ++ [ports]) := by
      obtain ⟨prior, rfl, starts⟩ := since.fresh
      refine ⟨⟨prior, by simp, starts⟩, ?_⟩
      rw [← List.cons_append]
      refine List.isChain_append.mpr ⟨since.chained, List.isChain_singleton _, ?_⟩
      intro last member current only
      obtain rfl : ports = current := Option.some.inj only
      rw [initialized, Bool.not_true, Bool.false_or, resets_congr (previous last member)] at stale
      exact stale
    refine ⟨first, rest, next, ring, .since next (by rw [step_active act]) (by rw [step_active act]) ?_ ?_⟩
    · rintro last member mode
      have end' : (first :: rest ++ [ports]).getLast? = some ports := List.getLast?_concat
      obtain rfl : last = ports := Option.some.inj (Eq.trans (Eq.symm member) end')
      exact previous_step act mode
    · intro positive
      obtain ⟨count, full, keeps⟩ := ring positive
      refine ⟨count, full, ?_⟩
      rw [step_active act]
      dsimp only
      rw [stale, if_neg Bool.false_ne_true, if_pos positive, ← List.cons_append, List.map_append, ← List.append_assoc]
      exact keeps.write positive (million_small cfg.bounded) ports.u

theorem tracks_run (activations : List (Ports V)) : Tracks cfg (activations.filter (active cfg)) (run cfg activations) := by
  induction activations using List.reverseRecOn with
  | nil => exact .start
  | append_singleton activations ports ih =>
    have last : run cfg (activations ++ [ports]) = step cfg (run cfg activations) ports := by
      rw [run, List.foldl_append]
      rfl
    rw [last, List.filter_append]
    by_cases act : active cfg ports = true
    · rw [List.filter_cons_of_pos act, List.filter_nil]
      by_cases fresh : (!(run cfg activations).initialized ||
          resets cfg (run cfg activations).previousReset ports.reset) = true
      · exact (ih.restart act fresh).2
      · obtain ⟨_, _, _, _, tracks⟩ := ih.advance act (by simpa using fresh)
        exact tracks
    · rw [List.filter_cons_of_neg act, List.filter_nil, List.append_nil, step_inactive (by simpa using act)]
      exact ih

theorem outputs_active (act : active cfg ports = true) :
    outputs cfg d ports =
      if lengthSpec cfg ports = 0 then ports.u
      else if (!d.initialized || resets cfg d.previousReset ports.reset) = true then icAt cfg ports
      else d.buffer.past cfg.L (lengthSpec cfg ports) := by
  have sampled := not_or.mp (active_iff.mp act)
  rw [outputs, if_neg sampled.1, if_neg (by simpa using sampled.2), ← length_eq]

omit [Zero V] in
theorem lengthSpec_le (ports : Ports V) : lengthSpec cfg ports ≤ cfg.L := by
  have limits := cfg.limits
  have fits := cfg.fits
  unfold lengthSpec
  split
  · split <;> omega
  · exact fits

/-- An enabled sample gives the input of as many enabled samples before. -/
theorem outputs_run (before : List (Ports V)) (act : active cfg ports = true) :
    ∃ first rest, Since cfg ((before ++ [ports]).filter (active cfg)) first rest ∧
      outputs cfg (run cfg before) ports =
        if lengthSpec cfg ports = 0 then ports.u
        else earlier (icAt cfg first) ((first :: rest).dropLast.map (·.u)) (lengthSpec cfg ports) := by
  have tracks : Tracks cfg (before.filter (active cfg)) (run cfg before) := tracks_run before
  rw [List.filter_append, List.filter_cons_of_pos act, List.filter_nil, outputs_active act]
  by_cases fresh : (!(run cfg before).initialized || resets cfg (run cfg before).previousReset ports.reset) = true
  · refine ⟨ports, [], (tracks.restart act fresh).1, ?_⟩
    split
    · rfl
    · next lasting =>
      exact (if_neg (by simpa using lasting)).symm
  · obtain ⟨first, rest, since, ring, -⟩ := tracks.advance act (by simpa using fresh)
    refine ⟨first, rest ++ [ports], since, ?_⟩
    split
    · rfl
    · next lasting =>
      have back := Nat.pos_of_ne_zero lasting
      have bound : lengthSpec cfg ports ≤ cfg.L := lengthSpec_le ports
      obtain ⟨count, full, keeps⟩ := ring (back.trans_le bound)
      rw [keeps.past (back.trans_le bound) (million_small cfg.bounded) back bound (icAt cfg first),
        ← List.cons_append, List.dropLast_concat]
      exact earlier_eq (bound.trans full)

/-- An activation at or behind the first sample. -/
def Sampled (cfg : Config V) (ports : Ports V) : Prop := cfg.offset ≤ ports.tNs

theorem run_unsampled {before after : List (Ports V)} (skipped : ∀ ports ∈ after, ¬ Sampled cfg ports) :
    run cfg (before ++ after) = run cfg before := by
  rw [run, List.foldl_append]
  show after.foldl (step cfg) (run cfg before) = run cfg before
  generalize run cfg before = d
  induction after with
  | nil => rfl
  | cons ports after ih =>
    have early := skipped ports List.mem_cons_self
    rw [List.foldl_cons, step_inactive (by simp [active, show ¬ cfg.offset ≤ ports.tNs from early])]
    exact ih fun other member => skipped other (List.mem_cons_of_mem _ member)

theorem outputs_disabled (sampled : Sampled cfg ports) (disabled : enabled cfg ports = false) :
    outputs cfg d ports = if d.everEnabled then d.lastOut else 0 := by
  rw [outputs, if_neg (Nat.not_lt.mpr sampled), disabled]
  rfl

/-- A disabled sample gives what the sample before it has given. -/
theorem outputs_held {current : Ports V} (sampled : Sampled cfg current) (disabled : enabled cfg current = false)
    {before after : List (Ports V)} (latest : Sampled cfg ports) (skipped : ∀ ports ∈ after, ¬ Sampled cfg ports) :
    outputs cfg (run cfg (before ++ ports :: after)) current = outputs cfg (run cfg before) ports := by
  have last : run cfg (before ++ [ports]) = step cfg (run cfg before) ports := by
    rw [run, List.foldl_append]
    rfl
  rw [List.append_cons, run_unsampled skipped, last, outputs_disabled sampled disabled]
  by_cases act : enabled cfg ports = true
  · have sample : active cfg ports = true := by
      simp [active, act, show cfg.offset ≤ ports.tNs from latest]
    rw [step_active sample]
    rfl
  · rw [step_inactive (by simp [active, act]), outputs_disabled latest (by simpa using act)]

theorem outputs_never {current : Ports V} (sampled : Sampled cfg current) (disabled : enabled cfg current = false)
    {before : List (Ports V)} (skipped : ∀ ports ∈ before, ¬ Sampled cfg ports) :
    outputs cfg (run cfg before) current = 0 := by
  have start : run cfg ([] ++ before) = run cfg [] := run_unsampled skipped
  rw [List.nil_append] at start
  rw [start, outputs_disabled sampled disabled]
  rfl

variable (cfg) in
/-- What a sample gives behind some activations. -/
structure Delays (before : List (Ports V)) (ports : Ports V) : Prop where
  delayed : enabled cfg ports = true →
    ∃ first rest, Since cfg ((before ++ [ports]).filter (active cfg)) first rest ∧
      outputs cfg (run cfg before) ports =
        if lengthSpec cfg ports = 0 then ports.u
        else earlier (icAt cfg first) ((first :: rest).dropLast.map (·.u)) (lengthSpec cfg ports)
  frozen : enabled cfg ports = false → step cfg (run cfg before) ports = run cfg before
  held : enabled cfg ports = false → ∀ prior latest after, before = prior ++ latest :: after →
    Sampled cfg latest → (∀ other ∈ after, ¬ Sampled cfg other) →
    outputs cfg (run cfg before) ports = outputs cfg (run cfg prior) latest
  never : enabled cfg ports = false → (∀ other ∈ before, ¬ Sampled cfg other) → outputs cfg (run cfg before) ports = 0

theorem delays (before : List (Ports V)) (sampled : Sampled cfg ports) : Delays cfg before ports where
  delayed enabled := outputs_run before (by simp [active, enabled, show cfg.offset ≤ ports.tNs from sampled])
  frozen disabled := step_inactive (by simp [active, disabled])
  held disabled := by
    rintro prior latest after rfl sample skipped
    exact outputs_held sampled disabled sample skipped
  never disabled skipped := outputs_never sampled disabled skipped

end DelayGeneral

/-- The kernels delay by whole numbers of enabled samples, and a disabled sample changes nothing. -/
theorem integerDelay_delays [Zero V] :
    (∀ (ic : V) (past : List V),
      UnitDelay.outputs (past.foldl UnitDelay.update (UnitDelay.init ic)) = earlier ic past 1) ∧
    (∀ (cfg : Delay.Config V) (past : List V) (u : V),
      Delay.outputs cfg (past.foldl (Delay.update cfg) (Delay.init cfg)) u =
        if cfg.n = 0 then u else earlier cfg.ic past cfg.n) ∧
    (∀ (cfg : TappedDelay.Config V) (past : List V) (u : V),
      TappedDelay.outputs cfg (past.foldl (TappedDelay.update cfg) (TappedDelay.init cfg)) u =
        cfg.lags.map fun lag => if lag = 0 then u else earlier cfg.ic past lag) ∧
    ∀ (cfg : DelayGeneral.Config V) (before : List (DelayGeneral.Ports V)) (ports : DelayGeneral.Ports V),
      DelayGeneral.Sampled cfg ports → DelayGeneral.Delays cfg before ports :=
  ⟨UnitDelay.outputs_run, Delay.outputs_run, TappedDelay.outputs_run, fun _ before _ => DelayGeneral.delays before⟩

end LasecSimul.Kernels
