import LasecSimul.Kernels.Pid
import LasecSimul.Lib.Recurrence

/-!
# The `iir_filter` and `fir_filter` kernels

Exact arithmetic. The scratch is written before it is read in every pass, so it is no state.
-/

namespace LasecSimul.Kernels

open Function

inductive IirStructure where
  | directForm2
  | directForm2Transposed
  | directForm1
  | directForm1Transposed
  deriving DecidableEq

/-- Where the coefficients of a port stand among those of the filter. -/
structure NumPort where
  width : ℕ
  front : Bool

structure DenPort where
  width : ℕ
  front : Bool
  noLead : Bool

structure Iir (K : Type) where
  w : ℕ
  L : ℕ
  r : ℕ
  form : IirStructure
  numPort : Option NumPort
  denPort : Option DenPort
  icPort : Option ℕ
  resetMode : ResetMode
  rpB : ℕ → ℕ → K
  rpA : ℕ → K
  a0div : K
  icNum : ℕ → ℕ → K
  icDen : ℕ → ℕ → K

/-- The values at the ports, by element. -/
structure IirPorts (K : Type) where
  u : ℕ → K
  num : ℕ → K
  den : ℕ → K
  reset : K
  x0 : ℕ → K

structure IirStates (K : Type) where
  initialized : Bool
  resetPrevious : K
  /-- By channel. -/
  states : ℕ → ℕ → K

inductive FirStructure where
  | direct
  | symmetric
  | antisymmetric
  | transposed
  | lattice
  deriving DecidableEq

structure Fir (K : Type) where
  w : ℕ
  M : ℕ
  r : ℕ
  form : FirStructure
  coefPort : Bool
  resetMode : ResetMode
  enable : Bool
  rpB : ℕ → ℕ → K
  ic : ℕ → ℕ → K

structure FirPorts (K : Type) where
  u : ℕ → K
  num : ℕ → K
  reset : K
  enable : K

structure FirStates (K : Type) where
  resetPrevious : K
  everEnabled : Bool
  initialized : Bool
  /-- By channel and row. -/
  lastOut : ℕ → ℕ → K
  states : ℕ → ℕ → K

section Operations

variable {K : Type} [Field K] [LinearOrder K]

namespace Iir

variable (iir : Iir K) (ports : IirPorts K) (states : IirStates K)

def b (row j : ℕ) : K :=
  match iir.numPort with
  | none => iir.rpB row j
  | some port =>
    let index : ℤ := if port.front then j - (iir.L - port.width : ℤ) else j
    if 0 ≤ index ∧ index < port.width then ports.num index.toNat / iir.a0div else 0

def a (j : ℕ) : K :=
  match iir.denPort with
  | none => iir.rpA j
  | some port =>
    if j = 0 then 1
    else
      let index : ℤ := if port.noLead then j - 1 else if port.front then j - (iir.L - port.width : ℤ) else j
      if 0 ≤ index ∧ index < port.width then ports.den index.toNat else 0

def fresh : Bool :=
  !states.initialized ||
    (iir.resetMode != .none && resetTriggered iir.resetMode (exactSign states.resetPrevious) (exactSign ports.reset))

def initial (channel j : ℕ) : K :=
  let n := iir.L - 1
  match iir.icPort with
  | some width =>
    ports.x0 (if width = iir.w * n then channel * n + j else if width = n then j else if width = iir.w then channel else 0)
  | none => if j < n then iir.icNum channel j else iir.icDen channel (j - n)

/-- The states that a pass starts from. -/
def scratch (channel j : ℕ) : K :=
  if iir.fresh ports states then iir.initial ports channel j else states.states channel j

/-- One step of a channel from the states `s`: its outputs by row, and its next states. -/
def channel (channel : ℕ) (s : ℕ → K) : (ℕ → K) × (ℕ → K) :=
  let n := iir.L - 1
  let a := iir.a ports
  let b := iir.b ports
  let u := ports.u channel
  match iir.form with
  | .directForm2 =>
    let w0 := (List.range' 1 n).foldl (fun w0 j => w0 - a j * s (j - 1)) u
    (fun row => (List.range' 1 n).foldl (fun y j => y + b row j * s (j - 1)) (b row 0 * w0),
      fun j => if j = 0 then w0 else s (j - 1))
  | .directForm2Transposed =>
    let y := b 0 0 * u + if 0 < n then s 0 else 0
    (fun _ => y, fun j => (if j + 1 < n then s (j + 1) else 0) + b 0 (j + 1) * u - a (j + 1) * y)
  | .directForm1 =>
    let y := (List.range' 1 n).foldl (fun y j => y + (b 0 j * s (j - 1) - a j * s (n + j - 1))) (b 0 0 * u)
    (fun _ => y, fun j => if j = 0 then u else if j = n then y else s (j - 1))
  | .directForm1Transposed =>
    let vin := u + if 0 < n then s n else 0
    let y := b 0 0 * vin + if 0 < n then s 0 else 0
    (fun _ => y,
      fun i =>
        if i < n then (if i + 1 < n then s (i + 1) else 0) + b 0 (i + 1) * vin
        else
          let j := i - n
          (if j + 1 < n then s (n + j + 1) else 0) - a (j + 1) * vin)

/-- `iirOutputs`, by channel and row. -/
def outputs (channel row : ℕ) : K := (iir.channel ports channel (iir.scratch ports states channel)).1 row

/-- `iirUpdate`. -/
def update : IirStates K where
  initialized := true
  resetPrevious := if iir.resetMode = .none then states.resetPrevious else ports.reset
  states := fun channel => (iir.channel ports channel (iir.scratch ports states channel)).2

/-- The states before each sample. -/
def statesAt (inputs : ℕ → IirPorts K) : ℕ → IirStates K
  | 0 => { initialized := false, resetPrevious := 0, states := fun _ _ => 0 }
  | k + 1 => iir.update (inputs k) (statesAt inputs k)

def outputAt (inputs : ℕ → IirPorts K) (channel row k : ℕ) : K :=
  iir.outputs (inputs k) (iir.statesAt inputs k) channel row

end Iir

namespace Fir

variable (fir : Fir K) (ports : FirPorts K) (states : FirStates K)

def S : ℕ := if fir.form = .lattice then fir.M else fir.M - 1

def raw (row j : ℕ) : K := if fir.coefPort then ports.num j else fir.rpB row j

def b (row j : ℕ) : K :=
  let half := (fir.M + 1) / 2
  if fir.form = .symmetric ∧ half ≤ j then fir.raw ports row (fir.M - 1 - j)
  else if fir.form = .antisymmetric ∧ half ≤ j then -fir.raw ports row (fir.M - 1 - j)
  else fir.raw ports row j

def enabled : Bool := !fir.enable || ports.enable ≠ 0

def fresh : Bool :=
  !states.initialized ||
    (fir.resetMode != .none && resetTriggered fir.resetMode (exactSign states.resetPrevious) (exactSign ports.reset))

def scratch (channel j : ℕ) : K := if fir.fresh ports states then fir.ic channel j else states.states channel j

/-- The loop of the lattice: `f`, `g` and the stored states. -/
def lattice (s : ℕ → K) (u : K) : K × K × (ℕ → K) :=
  (List.range fir.M).foldl
    (fun (f, g, stored) i => (f + fir.b ports 0 i * s i, fir.b ports 0 i * f + s i, update stored i g)) (u, u, s)

def channel (channel : ℕ) (s : ℕ → K) : (ℕ → K) × (ℕ → K) :=
  let b := fir.b ports
  let u := ports.u channel
  match fir.form with
  | .transposed =>
    (fun _ => b 0 0 * u + if 0 < fir.S then s 0 else 0,
      fun j => (if j + 1 < fir.S then s (j + 1) else 0) + b 0 (j + 1) * u)
  | .lattice =>
    let (f, _, stored) := fir.lattice ports s u
    (fun _ => f, stored)
  | _ =>
    (fun row => (List.range' 1 (fir.M - 1)).foldl (fun y j => y + b row j * s (j - 1)) (b row 0 * u),
      fun j => if j = 0 then u else s (j - 1))

/-- `firOutputs`. -/
def outputs (channel row : ℕ) : K :=
  if fir.enabled ports then (fir.channel ports channel (fir.scratch ports states channel)).1 row
  else if states.everEnabled then states.lastOut channel row
  else 0

/-- `firUpdate`. -/
def update : FirStates K :=
  if fir.enabled ports then
    { resetPrevious := if fir.resetMode = .none then states.resetPrevious else ports.reset
      everEnabled := true
      initialized := true
      lastOut := fir.outputs ports states
      states := fun channel => (fir.channel ports channel (fir.scratch ports states channel)).2 }
  else states

def statesAt (inputs : ℕ → FirPorts K) : ℕ → FirStates K
  | 0 =>
    { resetPrevious := 0
      everEnabled := false
      initialized := false
      lastOut := fun _ _ => 0
      states := fun _ _ => 0 }
  | k + 1 => fir.update (inputs k) (statesAt inputs k)

def outputAt (inputs : ℕ → FirPorts K) (channel row k : ℕ) : K :=
  fir.outputs (inputs k) (fir.statesAt inputs k) channel row

end Fir

end Operations

end LasecSimul.Kernels

/-!
## Responses of filters

With zero initial states and no reset every structure computes the same difference equation.
-/

namespace LasecSimul.Kernels

open Lib.Recurrence Finset

variable {K : Type} [Field K] [LinearOrder K]

/-- Constant coefficients, zero initial states and no reset. -/
structure Iir.Plain (iir : Iir K) (inputs : ℕ → IirPorts K) (b : ℕ → ℕ → K) (a : ℕ → K) : Prop where
  order : 0 < iir.L
  rows : iir.r = 1 ∨ iir.form = .directForm2
  numerator : ∀ k row j, iir.b (inputs k) row j = b row j
  denominator : ∀ k j, iir.a (inputs k) j = a j
  leading : a 0 = 1
  initial : ∀ channel j, iir.initial (inputs 0) channel j = 0
  noReset : iir.resetMode = .none

namespace Iir.Plain

variable {iir : Iir K} {inputs : ℕ → IirPorts K} {b : ℕ → ℕ → K} {a : ℕ → K} (plain : iir.Plain inputs b a)
  (channel : ℕ)

/-- The states that the pass at a sample starts from. -/
def scratchAt (iir : Iir K) (inputs : ℕ → IirPorts K) (channel k : ℕ) : ℕ → K :=
  iir.scratch (inputs k) (iir.statesAt inputs k) channel

include plain

theorem scratch_start (j : ℕ) : scratchAt iir inputs channel 0 j = 0 := by
  have first : iir.fresh (inputs 0) (iir.statesAt inputs 0) = true := rfl
  rw [scratchAt, scratch, if_pos first]
  exact plain.initial channel j

theorem scratch_succ (k : ℕ) : scratchAt iir inputs channel (k + 1) =
    (iir.channel (inputs k) channel (scratchAt iir inputs channel k)).2 := by
  have later : iir.fresh (inputs (k + 1)) (iir.statesAt inputs (k + 1)) = false := by
    rw [fresh, plain.noReset]
    rfl
  funext j
  rw [scratchAt, scratch, later]
  rfl

omit plain in
theorem outputAt_eq (row k : ℕ) : iir.outputAt inputs channel row k =
    (iir.channel (inputs k) channel (scratchAt iir inputs channel k)).1 row := rfl

omit [LinearOrder K] in
theorem coefficients (k : ℕ) : iir.a (inputs k) = a ∧ iir.b (inputs k) = b :=
  ⟨funext (plain.denominator k), funext fun row => funext (plain.numerator k row)⟩

theorem directForm2 (form : iir.form = .directForm2) (row : ℕ) :
    IsResponse (iir.L - 1) (b row) a (fun k => (inputs k).u channel) (iir.outputAt inputs channel row) := by
  let s := scratchAt iir inputs channel
  let inner k := (inputs k).u channel - ∑ j ∈ range (iir.L - 1), a (j + 1) * s k j
  have step (k : ℕ) : iir.channel (inputs k) channel (s k) =
      (fun row => b row 0 * inner k + ∑ j ∈ range (iir.L - 1), b row (j + 1) * s k j,
        fun j => if j = 0 then inner k else s k (j - 1)) := by
    obtain ⟨den, num⟩ := plain.coefficients k
    simp only [Iir.channel, form, den, num, foldl_sub_eq fun j => a j * s k (j - 1),
      foldl_add_eq fun j => b _ j * s k (j - 1), Nat.add_sub_cancel, inner]
  have line (k j : ℕ) (inside : j < iir.L - 1) : s k j = past inner k (j + 1) := by
    refine line_eq (n := iir.L - 1) (fun j _ => plain.scratch_start channel j) (fun k _ => ?_) (fun k j _ => ?_) inside
    · show scratchAt iir inputs channel (k + 1) 0 = _
      rw [plain.scratch_succ, step]
      rfl
    · show scratchAt iir inputs channel (k + 1) (j + 1) = _
      rw [plain.scratch_succ, step]
      rfl
  refine isResponse_of_inner plain.leading (z := inner) (fun k => ?_) (funext fun k => ?_)
  · show _ - _ = _
    exact congrArg (_ - ·) (sum_congr rfl fun j member => by rw [line k j (mem_range.mp member)])
  · rw [outputAt_eq, convolve_succ]
    show (iir.channel (inputs k) channel (s k)).1 row = _
    rw [step]
    exact congrArg (_ + ·) (sum_congr rfl fun j member => by rw [line k j (mem_range.mp member)])

theorem directForm2Transposed (form : iir.form = .directForm2Transposed) :
    IsResponse (iir.L - 1) (b 0) a (fun k => (inputs k).u channel) (iir.outputAt inputs channel 0) := by
  let s := scratchAt iir inputs channel
  let u k := (inputs k).u channel
  let y := iir.outputAt inputs channel 0
  have output (k : ℕ) : y k = b 0 0 * u k + if 0 < iir.L - 1 then s k 0 else 0 := by
    obtain ⟨den, num⟩ := plain.coefficients k
    show (iir.channel (inputs k) channel (s k)).1 0 = _
    simp only [Iir.channel, form, num, u]
  have shift (k j : ℕ) : s (k + 1) j =
      (if j + 1 < iir.L - 1 then s k (j + 1) else 0) + (b 0 (j + 1) * u k - a (j + 1) * y k) := by
    obtain ⟨den, num⟩ := plain.coefficients k
    show scratchAt iir inputs channel (k + 1) j = _
    rw [plain.scratch_succ, output, ← add_sub_assoc]
    simp only [Iir.channel, form, den, num, u, s]
  have head (k : ℕ) := transposed_head (n := iir.L - 1) (fun j _ => plain.scratch_start channel j)
    (fun k j _ => shift k j) k
  intro k
  rw [convolve_succ, add_sub_assoc, ← sum_sub_distrib]
  refine (output k).trans (congrArg (_ + ·) ((head k).trans (sum_congr rfl fun m _ => ?_)))
  rw [past_sub, past_mul, past_mul]

theorem directForm1 (form : iir.form = .directForm1) :
    IsResponse (iir.L - 1) (b 0) a (fun k => (inputs k).u channel) (iir.outputAt inputs channel 0) := by
  let n := iir.L - 1
  let s := scratchAt iir inputs channel
  let u k := (inputs k).u channel
  let y := iir.outputAt inputs channel 0
  have output (k : ℕ) : y k = b 0 0 * u k + ∑ j ∈ range n, (b 0 (j + 1) * s k j - a (j + 1) * s k (n + j)) := by
    obtain ⟨den, num⟩ := plain.coefficients k
    show (iir.channel (inputs k) channel (s k)).1 0 = _
    simp only [Iir.channel, form, den, num,
      foldl_add_eq fun j => b 0 j * s k (j - 1) - a j * s k (iir.L - 1 + j - 1), Nat.add_sub_cancel, u, n,
      ← Nat.add_assoc]
  have shift (k j : ℕ) : s (k + 1) j = if j = 0 then u k else if j = n then y k else s k (j - 1) := by
    obtain ⟨den, num⟩ := plain.coefficients k
    have result : y k = (iir.channel (inputs k) channel (s k)).1 0 := rfl
    show scratchAt iir inputs channel (k + 1) j = _
    rw [plain.scratch_succ, result]
    simp only [Iir.channel, form, u, n, s]
  have inputLine (k j : ℕ) (inside : j < n) : s k j = past u k (j + 1) := by
    refine line_eq (n := n) (fun j _ => plain.scratch_start channel j) (fun k _ => ?_) (fun k j more => ?_) inside
    · rw [shift, if_pos rfl]
    · rw [shift, if_neg (Nat.succ_ne_zero j), if_neg more.ne, Nat.add_sub_cancel]
  have outputLine (k j : ℕ) (inside : j < n) : s k (n + j) = past y k (j + 1) := by
    refine line_eq (n := n) (s := fun k j => s k (n + j)) (fun j _ => plain.scratch_start channel _) (fun k some => ?_)
      (fun k j more => ?_) inside
    · show s (k + 1) n = _
      rw [shift, if_neg some.ne', if_pos rfl]
    · show s (k + 1) (n + (j + 1)) = _
      rw [shift, if_neg (by omega : n + (j + 1) ≠ 0), if_neg (by omega : n + (j + 1) ≠ n)]
      rfl
  intro k
  rw [convolve_succ, add_sub_assoc, ← sum_sub_distrib]
  refine (output k).trans (congrArg (_ + ·) (sum_congr rfl fun j member => ?_))
  rw [inputLine k j (mem_range.mp member), outputLine k j (mem_range.mp member)]

theorem directForm1Transposed (form : iir.form = .directForm1Transposed) :
    IsResponse (iir.L - 1) (b 0) a (fun k => (inputs k).u channel) (iir.outputAt inputs channel 0) := by
  let n := iir.L - 1
  let s := scratchAt iir inputs channel
  let u k := (inputs k).u channel
  let vin k := u k + if 0 < n then s k n else 0
  have output (k : ℕ) : iir.outputAt inputs channel 0 k = b 0 0 * vin k + if 0 < n then s k 0 else 0 := by
    obtain ⟨den, num⟩ := plain.coefficients k
    show (iir.channel (inputs k) channel (s k)).1 0 = _
    simp only [Iir.channel, form, num, u, vin, n, s]
  have shift (k i : ℕ) : s (k + 1) i =
      if i < n then (if i + 1 < n then s k (i + 1) else 0) + b 0 (i + 1) * vin k
      else (if i - n + 1 < n then s k (n + (i - n) + 1) else 0) - a (i - n + 1) * vin k := by
    obtain ⟨den, num⟩ := plain.coefficients k
    show scratchAt iir inputs channel (k + 1) i = _
    rw [plain.scratch_succ]
    simp only [Iir.channel, form, den, num, u, vin, n, s]
  have numerator (k : ℕ) := transposed_head (n := n) (s := s) (d := fun k j => b 0 (j + 1) * vin k)
    (fun j _ => plain.scratch_start channel j) (fun k j inside => by rw [shift, if_pos inside]) k
  have denominator (k : ℕ) := transposed_head (n := n) (s := fun k j => s k (n + j))
    (d := fun k j => -a (j + 1) * vin k) (fun j _ => plain.scratch_start channel _) (fun k j inside => by
      show s (k + 1) (n + j) = _
      rw [shift, if_neg (by omega), Nat.add_sub_cancel_left, sub_eq_add_neg, neg_mul]
      rfl) k
  refine isResponse_of_inner plain.leading (z := vin) (fun k => ?_) (funext fun k => ?_)
  · rw [sub_eq_add_neg, ← sum_neg_distrib]
    refine congrArg (u k + ·) ((denominator k).trans (sum_congr rfl fun m _ => ?_))
    rw [past_mul, neg_mul]
  · rw [output, convolve_succ]
    refine congrArg (_ + ·) ((numerator k).trans (sum_congr rfl fun m _ => ?_))
    rw [past_mul]

omit [LinearOrder K] in
theorem row_eq_zero {row : ℕ} (inside : row < iir.r) (form : iir.form ≠ .directForm2) : row = 0 := by
  rcases plain.rows with one | other
  · omega
  · exact absurd other form

theorem isResponse {row : ℕ} (inside : row < iir.r) :
    IsResponse (iir.L - 1) (b row) a (fun k => (inputs k).u channel) (iir.outputAt inputs channel row) := by
  cases form : iir.form with
  | directForm2 => exact plain.directForm2 channel form row
  | directForm2Transposed =>
    obtain rfl := plain.row_eq_zero inside (by rw [form]; decide)
    exact plain.directForm2Transposed channel form
  | directForm1 =>
    obtain rfl := plain.row_eq_zero inside (by rw [form]; decide)
    exact plain.directForm1 channel form
  | directForm1Transposed =>
    obtain rfl := plain.row_eq_zero inside (by rw [form]; decide)
    exact plain.directForm1Transposed channel form

end Iir.Plain

/-- Constant coefficients, zero initial states, and no reset and no enable port. -/
structure Fir.Plain (fir : Fir K) (inputs : ℕ → FirPorts K) (b : ℕ → ℕ → K) : Prop where
  order : 0 < fir.M
  form : fir.form ≠ .lattice
  rows : fir.r = 1 ∨ fir.form = .direct
  coefficients : ∀ k row j, fir.b (inputs k) row j = b row j
  initial : ∀ channel j, fir.ic channel j = 0
  noReset : fir.resetMode = .none
  noEnable : fir.enable = false

namespace Fir.Plain

variable {fir : Fir K} {inputs : ℕ → FirPorts K} {b : ℕ → ℕ → K} (plain : fir.Plain inputs b) (channel : ℕ)

def scratchAt (fir : Fir K) (inputs : ℕ → FirPorts K) (channel k : ℕ) : ℕ → K :=
  fir.scratch (inputs k) (fir.statesAt inputs k) channel

include plain

theorem enabled (k : ℕ) : fir.enabled (inputs k) = true := by
  rw [Fir.enabled, plain.noEnable]
  rfl

theorem scratch_start (j : ℕ) : scratchAt fir inputs channel 0 j = 0 := by
  have first : fir.fresh (inputs 0) (fir.statesAt inputs 0) = true := rfl
  rw [scratchAt, scratch, if_pos first]
  exact plain.initial channel j

theorem scratch_succ (k : ℕ) : scratchAt fir inputs channel (k + 1) =
    (fir.channel (inputs k) channel (scratchAt fir inputs channel k)).2 := by
  have stepped : fir.statesAt inputs (k + 1) = _ := if_pos (plain.enabled k)
  have later : fir.fresh (inputs (k + 1)) (fir.statesAt inputs (k + 1)) = false := by
    rw [fresh, plain.noReset, stepped]
    rfl
  funext j
  rw [scratchAt, scratch, later, stepped]
  rfl

theorem outputAt_eq (row k : ℕ) : fir.outputAt inputs channel row k =
    (fir.channel (inputs k) channel (scratchAt fir inputs channel k)).1 row := if_pos (plain.enabled k)

theorem transposed (form : fir.form = .transposed) :
    fir.outputAt inputs channel 0 = convolve (b 0) (fir.M - 1 + 1) fun k => (inputs k).u channel := by
  let s := scratchAt fir inputs channel
  let u k := (inputs k).u channel
  have places : fir.S = fir.M - 1 := if_neg (by rw [form]; decide)
  have num (k : ℕ) : fir.b (inputs k) = b := funext fun row => funext (plain.coefficients k row)
  have head (k : ℕ) := transposed_head (n := fir.M - 1) (s := s) (d := fun k j => b 0 (j + 1) * u k)
    (fun j _ => plain.scratch_start channel j) (fun k j _ => by
      show scratchAt fir inputs channel (k + 1) j = _
      rw [plain.scratch_succ]
      simp only [Fir.channel, form, num, places, u, s]) k
  funext k
  rw [plain.outputAt_eq, convolve_succ]
  simp only [Fir.channel, form, num, places]
  refine congrArg (_ + ·) ((head k).trans (sum_congr rfl fun m _ => ?_))
  rw [past_mul]

theorem direct (form : fir.form ≠ .transposed) (row : ℕ) :
    fir.outputAt inputs channel row = convolve (b row) (fir.M - 1 + 1) fun k => (inputs k).u channel := by
  let s := scratchAt fir inputs channel
  let u k := (inputs k).u channel
  have step (k : ℕ) : fir.channel (inputs k) channel (s k) =
      (fun row => b row 0 * u k + ∑ j ∈ range (fir.M - 1), b row (j + 1) * s k j,
        fun j => if j = 0 then u k else s k (j - 1)) := by
    have num : fir.b (inputs k) = b := funext fun row => funext (plain.coefficients k row)
    have lattice := plain.form
    cases kind : fir.form with
    | transposed => exact absurd kind form
    | lattice => exact absurd kind lattice
    | _ => simp only [Fir.channel, kind, num, foldl_add_eq fun j => b _ j * s k (j - 1), Nat.add_sub_cancel, u]
  have line (k j : ℕ) (inside : j < fir.M - 1) : s k j = past u k (j + 1) := by
    refine line_eq (n := fir.M - 1) (fun j _ => plain.scratch_start channel j) (fun k _ => ?_) (fun k j _ => ?_) inside
    · show scratchAt fir inputs channel (k + 1) 0 = _
      rw [plain.scratch_succ, step]
      rfl
    · show scratchAt fir inputs channel (k + 1) (j + 1) = _
      rw [plain.scratch_succ, step]
      rfl
  funext k
  rw [plain.outputAt_eq, convolve_succ]
  show (fir.channel (inputs k) channel (s k)).1 row = _
  rw [step]
  exact congrArg (_ + ·) (sum_congr rfl fun j member => by rw [line k j (mem_range.mp member)])

theorem response {row : ℕ} (inside : row < fir.r) :
    fir.outputAt inputs channel row = convolve (b row) fir.M fun k => (inputs k).u channel := by
  have order : fir.M - 1 + 1 = fir.M := Nat.sub_add_cancel plain.order
  rw [← order]
  by_cases form : fir.form = .transposed
  · obtain rfl : row = 0 := by
      rcases plain.rows with one | other
      · omega
      · rw [form] at other
        cases other
    exact plain.transposed channel form
  · exact plain.direct channel form row

end Fir.Plain

/-- The structures of a filter give one output, that of its difference equation. -/
theorem filter_structures_agree {iir other : Iir K} {fir : Fir K} {inputs : ℕ → IirPorts K} {firInputs : ℕ → FirPorts K}
    {b c : ℕ → ℕ → K} {a : ℕ → K} (plain : iir.Plain inputs b a) (otherPlain : other.Plain inputs b a)
    (order : other.L = iir.L) (firPlain : fir.Plain firInputs c) (channel : ℕ) :
    (∀ row < iir.r,
        IsResponse (iir.L - 1) (b row) a (fun k => (inputs k).u channel) (iir.outputAt inputs channel row)) ∧
      (∀ row < iir.r, row < other.r → iir.outputAt inputs channel row = other.outputAt inputs channel row) ∧
      ∀ row < fir.r,
        fir.outputAt firInputs channel row = convolve (c row) fir.M fun k => (firInputs k).u channel := by
  refine ⟨fun row inside => plain.isResponse channel inside, fun row inside also => ?_,
    fun row inside => firPlain.response channel inside⟩
  have second := otherPlain.isResponse channel also
  rw [order] at second
  exact (plain.isResponse channel inside).unique second

/-- A second-order filter in each structure. -/
def biquad (form : IirStructure) : Iir ℚ where
  w := 1
  L := 3
  r := 1
  form := form
  numPort := none
  denPort := none
  icPort := none
  resetMode := .none
  rpB := fun _ j => j + 1
  rpA := fun j => if j = 0 then 1 else 1 / (j + 1)
  a0div := 1
  icNum := fun _ _ => 0
  icDen := fun _ _ => 0

theorem biquad_plain (form : IirStructure) (inputs : ℕ → IirPorts ℚ) :
    (biquad form).Plain inputs (biquad form).rpB (biquad form).rpA where
  order := Nat.succ_pos 2
  rows := .inl rfl
  numerator := fun _ _ _ => rfl
  denominator := fun _ _ => rfl
  leading := rfl
  initial := fun channel j => by
    show (if j < 2 then (0 : ℚ) else 0) = 0
    rw [ite_self]
  noReset := rfl

/-- A filter that adds its last two samples. -/
def pairSum (form : FirStructure) : Fir ℚ where
  w := 1
  M := 2
  r := 1
  form := form
  coefPort := false
  resetMode := .none
  enable := false
  rpB := fun _ _ => 1
  ic := fun _ _ => 0

theorem pairSum_plain (inputs : ℕ → FirPorts ℚ) : (pairSum .transposed).Plain inputs fun _ _ => 1 where
  order := by decide
  form := by decide
  rows := .inl rfl
  coefficients := fun _ _ _ => rfl
  initial := fun _ _ => rfl
  noReset := rfl
  noEnable := rfl

/-- A rising input. -/
def ramp (k : ℕ) : IirPorts ℚ := ⟨fun _ => k, fun _ => 0, fun _ => 0, 0, fun _ => 0⟩

theorem filter_structures_agree_biquad :
    (biquad .directForm2).outputAt ramp 0 0 = (biquad .directForm1Transposed).outputAt ramp 0 0 :=
  (filter_structures_agree (biquad_plain .directForm2 ramp) (biquad_plain .directForm1Transposed ramp) rfl
    (pairSum_plain fun k => ⟨fun _ => k, fun _ => 0, 0, 0⟩) 0).2.1 0 (by decide) (by decide)

end LasecSimul.Kernels
