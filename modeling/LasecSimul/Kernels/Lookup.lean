import Mathlib.Algebra.Order.Field.Basic
import Mathlib.Algebra.Order.Floor.Ring
import Mathlib.Tactic.FieldSimp
import Mathlib.Tactic.Linarith
import Mathlib.Tactic.Ring

/-!
# Lookup tables

`lookup_nd`, `prelookup` and `interpolation_prelookup` in exact arithmetic, for the flat, nearest and linear methods. A
table stands in the linear order of its first dimension first.
-/

namespace LasecSimul.Kernels

inductive Interp where
  | flat
  | nearest
  | linear
  | lagrange
  deriving DecidableEq

inductive Extrap where
  | clip
  | linear
  deriving DecidableEq

/-- An interval of the breakpoints and the place in it. -/
structure Cell (K : Type) where
  k : ℕ
  f : K

section Search

variable {K : Type} [Field K] [LinearOrder K]

/-- The loop of `locate` between `lo` and `hi`. -/
def bisect (bp : ℕ → K) (x : K) (lo hi : ℕ) : ℕ :=
  if 1 < hi - lo then
    let mid := (lo + hi) / 2
    if bp mid ≤ x then bisect bp x mid hi else bisect bp x lo mid
  else lo
termination_by hi - lo

def locate (bp : ℕ → K) (n : ℕ) (x : K) : Cell K :=
  let k := if bp (n - 1) ≤ x then n - 2 else if bp 0 ≤ x then bisect bp x 0 (n - 1) else 0
  ⟨k, (x - bp k) / (bp (k + 1) - bp k)⟩

def indexBelow (bp : ℕ → K) (n : ℕ) (x : K) : ℕ :=
  if bp (n - 1) ≤ x then n - 1 else if ¬ bp 0 ≤ x then 0 else (locate bp n x).k

def indexNearest (bp : ℕ → K) (n : ℕ) (x : K) : ℕ :=
  if bp (n - 1) ≤ x then n - 1
  else if ¬ bp 0 < x then 0
  else
    let k := (locate bp n x).k
    if bp (k + 1) - x ≤ x - bp k then k + 1 else k

def clipCell (cell : Cell K) : Cell K :=
  if cell.f < 0 then { cell with f := 0 } else if 1 < cell.f then { cell with f := 1 } else cell

/-- `combine`. -/
def combine (a b f : K) (lagrange : Bool) : K := if lagrange then (1 - f) * a + f * b else a + f * (b - a)

/-- The place of a corner in the table. -/
def cornerOffset (strides : ℕ → ℕ) (cells : ℕ → Cell K) (dims corner : ℕ) : ℕ :=
  (List.range dims).foldl (fun offset d => offset + ((cells d).k + (corner.testBit d).toNat) * strides d) 0

/-- The inner loop from dimension `d` on, for as many dimensions as remain. -/
def carry (cells : ℕ → Cell K) (lagrange : Bool) (pending : ℕ → K) (corner : ℕ) : ℕ → ℕ → K → ℕ × K
  | 0, d, value => (d, value)
  | remaining + 1, d, value =>
    if corner.testBit d then
      carry cells lagrange pending corner remaining (d + 1) (combine (pending d) value (cells d).f lagrange)
    else (d, value)

/-- One corner. -/
def visitCorner (table : ℕ → K) (strides : ℕ → ℕ) (cells : ℕ → Cell K) (dims : ℕ) (lagrange : Bool)
    (state : (ℕ → K) × K) (corner : ℕ) : (ℕ → K) × K :=
  let (pending, result) := state
  let (d, value) := carry cells lagrange pending corner dims 0 (table (cornerOffset strides cells dims corner))
  if d < dims then (Function.update pending d value, result) else (pending, value)

def multilinear (table : ℕ → K) (strides : ℕ → ℕ) (cells : ℕ → Cell K) (dims : ℕ) (lagrange : Bool) : K :=
  ((List.range (2 ^ dims)).foldl (visitCorner table strides cells dims lagrange) (fun _ => 0, 0)).2

end Search

/-! ### Kernels -/

/-- The strides of a table with `n d` places in dimension `d`. -/
def stridesOf (n : ℕ → ℕ) : ℕ → ℕ
  | 0 => 1
  | d + 1 => stridesOf n d * n d

structure LookupNd (K : Type) where
  dims : ℕ
  interp : Interp
  extrap : Extrap
  single : Bool
  tablePort : Bool
  n : ℕ → ℕ
  bpPort : ℕ → Bool
  rpBreakpoints : ℕ → ℕ → K
  rpTable : ℕ → K

/-- The values at the ports; the coordinates by port and element. -/
structure LookupPorts (K : Type) where
  coordinate : ℕ → ℕ → K
  table : ℕ → K
  breakpoints : ℕ → ℕ → K

structure Prelookup (K : Type) where
  linear : Bool
  useLast : Bool
  indexOnly : Bool
  bpPort : Bool
  n : ℕ
  rp : ℕ → K

/-- What `prelookup` publishes for an element. -/
structure PrelookupOutput (K : Type) where
  k : K
  f : Option K

structure Interpolation (K : Type) where
  dims : ℕ
  interp : Interp
  linear : Bool
  tablePort : Bool
  n : ℕ → ℕ
  rpTable : ℕ → K

section Operations

variable {K : Type} [Field K] [LinearOrder K]

namespace LookupNd

variable (nd : LookupNd K) (ports : LookupPorts K)

def bp (d : ℕ) : ℕ → K := if nd.bpPort d then ports.breakpoints d else nd.rpBreakpoints d

def table : ℕ → K := if nd.tablePort then ports.table else nd.rpTable

/-- The coordinate of an element in a dimension; a single port holds all of them. -/
def x (e d : ℕ) : K := if nd.single then ports.coordinate 0 d else ports.coordinate d e

def cell (e d : ℕ) : Cell K :=
  let cell := locate (nd.bp ports d) (nd.n d) (nd.x ports e d)
  if nd.extrap = .clip then clipCell cell else cell

/-- `lookupNdOutputs`. -/
def outputs (e : ℕ) : K :=
  match nd.interp with
  | .flat =>
    nd.table ports ((List.range nd.dims).foldl (fun index d =>
      index + indexBelow (nd.bp ports d) (nd.n d) (nd.x ports e d) * stridesOf nd.n d) 0)
  | .nearest =>
    nd.table ports ((List.range nd.dims).foldl (fun index d =>
      index + indexNearest (nd.bp ports d) (nd.n d) (nd.x ports e d) * stridesOf nd.n d) 0)
  | .linear => multilinear (nd.table ports) (stridesOf nd.n) (nd.cell ports e) nd.dims false
  | .lagrange => multilinear (nd.table ports) (stridesOf nd.n) (nd.cell ports e) nd.dims true

end LookupNd

namespace Prelookup

variable (pre : Prelookup K)

def cell (bp : ℕ → K) (u : K) : Cell K :=
  let cell := locate bp pre.n u
  if pre.linear then cell else if bp (pre.n - 1) ≤ u ∧ pre.useLast then ⟨pre.n - 1, 0⟩ else clipCell cell

/-- `prelookupOutputs` for an element, with the values at the port of breakpoints. -/
def outputs (u : K) (breakpoints : ℕ → K) : PrelookupOutput K :=
  let cell := pre.cell (if pre.bpPort then breakpoints else pre.rp) u
  { k := cell.k, f := if pre.indexOnly then none else some cell.f }

end Prelookup

namespace Interpolation

local instance two : Nat.AtLeastTwo 2 := inferInstance

variable [FloorRing K] (iup : Interpolation K)

/-- The index that a port holds, within the dimension. -/
def index (d : ℕ) (kIn : K) : ℕ := (min ⌊kIn⌋ (iup.n d - 1)).toNat

def cell (d : ℕ) (kIn f : K) : Cell K :=
  let i := iup.index d kIn
  let cell := if i = iup.n d - 1 then ⟨iup.n d - 2, f + 1⟩ else ⟨i, f⟩
  if iup.linear then cell else clipCell cell

/-- `interpolationOutputs` for an element, with the values at the ports. -/
def outputs (k f : ℕ → K) (tableIn : ℕ → K) : K :=
  let table := if iup.tablePort then tableIn else iup.rpTable
  match iup.interp with
  | .flat => table ((List.range iup.dims).foldl (fun index d => index + iup.index d (k d) * stridesOf iup.n d) 0)
  | .nearest =>
    table ((List.range iup.dims).foldl (fun index d =>
      let i := iup.index d (k d)
      index + min (if 1 / 2 ≤ f d then i + 1 else i) (iup.n d - 1) * stridesOf iup.n d) 0)
  | .linear => multilinear table (stridesOf iup.n) (fun d => iup.cell d (k d) (f d)) iup.dims false
  | .lagrange => multilinear table (stridesOf iup.n) (fun d => iup.cell d (k d) (f d)) iup.dims true

end Interpolation

end Operations

end LasecSimul.Kernels

/-!
## Multilinear interpolation

The walk over the corners keeps one value for each dimension that waits for its upper neighbour. A block of `2 ^ m`
corners leaves what one corner with the nested value of its first `m` dimensions would leave.
-/

namespace LasecSimul.Kernels

variable {K : Type} (table : ℕ → K) (strides : ℕ → ℕ) (cells : ℕ → Cell K) (lagrange : Bool)

/-- The part of a corner's place that its dimensions from `d` on make. -/
def offsetFrom (corner : ℕ) : ℕ → ℕ → ℕ
  | 0, _ => 0
  | remaining + 1, d =>
    ((cells d).k + (corner.testBit d).toNat) * strides d + offsetFrom corner remaining (d + 1)

variable {strides cells lagrange} {corner other d remaining dims m c : ℕ}

theorem offsetFrom_congr (same : ∀ i, d ≤ i → corner.testBit i = other.testBit i) :
    offsetFrom strides cells corner remaining d = offsetFrom strides cells other remaining d := by
  induction remaining generalizing d with
  | zero => rfl
  | succ remaining ih =>
    rw [offsetFrom, offsetFrom, same d (Nat.le_refl d), ih fun i above => same i (by omega)]

theorem cornerOffset_eq (dims corner : ℕ) :
    cornerOffset strides cells dims corner = offsetFrom strides cells corner dims 0 := by
  have from' (remaining d start : ℕ) :
      (List.range' d remaining).foldl (fun offset d => offset + ((cells d).k + (corner.testBit d).toNat) * strides d)
        start = start + offsetFrom strides cells corner remaining d := by
    induction remaining generalizing d start with
    | zero => rfl
    | succ remaining ih => rw [List.range'_succ, List.foldl_cons, ih, offsetFrom, Nat.add_assoc]
  rw [cornerOffset, List.range_eq_range', from', Nat.zero_add]

theorem even_bit (m c : ℕ) : (2 ^ m * (2 * c)).testBit m = false := by
  rw [Nat.testBit_two_pow_mul]
  simp

theorem odd_bit (m c : ℕ) : (2 ^ m * (2 * c + 1)).testBit m = true := by
  rw [Nat.testBit_two_pow_mul]
  simp

theorem upper_bits (m c : ℕ) {bit : ℕ} (small : bit < 2) {i : ℕ} (above : m + 1 ≤ i) :
    (2 ^ m * (2 * c + bit)).testBit i = (2 ^ (m + 1) * c).testBit i := by
  obtain ⟨j, rfl⟩ : ∃ j, i = m + (j + 1) := ⟨i - m - 1, by omega⟩
  rw [Nat.testBit_two_pow_mul, Nat.testBit_two_pow_mul]
  have half : (2 * c + bit) / 2 = c := by omega
  simp [Nat.testBit_succ, half, show m + (j + 1) - (m + 1) = j by omega, show m + 1 ≤ m + (j + 1) by omega]

variable [Field K]

variable (strides cells lagrange) in
/-- One-dimensional interpolation of some values in a cell. -/
def interpolate (cell : Cell K) (values : ℕ → K) : K := combine (values cell.k) (values (cell.k + 1)) cell.f lagrange

variable (strides cells lagrange) in
/-- Interpolation dimension by dimension, from a place in the table on. -/
def nested : ℕ → ℕ → K
  | 0, offset => table offset
  | d + 1, offset => interpolate lagrange (cells d) fun i => nested d (i * strides d + offset)

variable (strides cells lagrange) in
/-- The state after a corner whose first dimensions have been combined to `value`. -/
def Settled (dims corner remaining d : ℕ) (value : K) (before after : (ℕ → K) × K) : Prop :=
  let settled := carry cells lagrange before.1 corner remaining d value
  (∀ i, d ≤ i → i < dims → after.1 i = if i = settled.1 then settled.2 else before.1 i) ∧
    after.2 = if settled.1 < dims then before.2 else settled.2

theorem carry_congr {pending later : ℕ → K} {value : K} (kept : ∀ i, d ≤ i → i < d + remaining → pending i = later i)
    (same : ∀ i, d ≤ i → corner.testBit i = other.testBit i) :
    carry cells lagrange pending corner remaining d value = carry cells lagrange later other remaining d value := by
  induction remaining generalizing d value with
  | zero => rfl
  | succ remaining ih =>
    rw [carry, carry, same d (Nat.le_refl d), kept d (Nat.le_refl d) (by omega)]
    split
    · exact ih (fun i above below => kept i (by omega) (by omega)) fun i above => same i (by omega)
    · rfl

theorem settled_corner (state : (ℕ → K) × K) :
    Settled cells lagrange dims corner dims 0 (table (offsetFrom strides cells corner dims 0)) state
      (visitCorner table strides cells dims lagrange state corner) := by
  unfold Settled visitCorner
  rw [cornerOffset_eq]
  rcases settled : carry cells lagrange state.1 corner dims 0 (table (offsetFrom strides cells corner dims 0))
    with ⟨d, value⟩
  simp only [settled]
  by_cases inside : d < dims
  · rw [if_pos inside, if_pos inside]
    exact ⟨fun i _ _ => Function.update_apply state.1 d value i, rfl⟩
  · rw [if_neg inside, if_neg inside]
    exact ⟨fun i _ below => (if_neg (by omega)).symm, rfl⟩

theorem Settled.join {before between after : (ℕ → K) × K} {low high : K} (total : remaining + (m + 1) = dims)
    (first : Settled cells lagrange dims (2 ^ m * (2 * c)) (remaining + 1) m low before between)
    (second : Settled cells lagrange dims (2 ^ m * (2 * c + 1)) (remaining + 1) m high between after) :
    Settled cells lagrange dims (2 ^ (m + 1) * c) remaining (m + 1) (combine low high (cells m).f lagrange) before
      after := by
  unfold Settled at first second ⊢
  rw [carry, even_bit] at first
  rw [carry, odd_bit, if_pos rfl] at second
  simp only [Bool.false_eq_true, if_false] at first
  have waiting : between.1 m = low := by
    rw [first.1 m (Nat.le_refl m) (by omega), if_pos rfl]
  have kept (i : ℕ) (above : m + 1 ≤ i) (below : i < dims) : between.1 i = before.1 i := by
    rw [first.1 i (by omega) below, if_neg (by omega)]
  have unchanged : between.2 = before.2 := by
    rw [first.2, if_pos (by omega)]
  have onward : carry cells lagrange between.1 (2 ^ m * (2 * c + 1)) remaining (m + 1)
      (combine low high (cells m).f lagrange) =
      carry cells lagrange before.1 (2 ^ (m + 1) * c) remaining (m + 1) (combine low high (cells m).f lagrange) :=
    carry_congr (fun i above below => kept i above (by omega)) fun i above => upper_bits m c Nat.one_lt_two above
  rw [waiting, onward, unchanged] at second
  refine ⟨fun i above below => ?_, second.2⟩
  rw [second.1 i (by omega) below, kept i above below]

theorem settled_block (m : ℕ) : ∀ remaining c state, remaining + m = dims →
    Settled cells lagrange dims (2 ^ m * c) remaining m
      (nested table strides cells lagrange m (offsetFrom strides cells (2 ^ m * c) remaining m)) state
      ((List.range' (2 ^ m * c) (2 ^ m)).foldl (visitCorner table strides cells dims lagrange) state) := by
  induction m with
  | zero =>
    intro remaining c state total
    obtain rfl : remaining = dims := total
    rw [Nat.pow_zero, Nat.one_mul]
    exact settled_corner table state
  | succ m ih =>
    intro remaining c state total
    have first := ih (remaining + 1) (2 * c) state (by omega)
    have second := ih (remaining + 1) (2 * c + 1)
      ((List.range' (2 ^ m * (2 * c)) (2 ^ m)).foldl (visitCorner table strides cells dims lagrange) state) (by omega)
    have halves : List.range' (2 ^ (m + 1) * c) (2 ^ (m + 1)) =
        List.range' (2 ^ m * (2 * c)) (2 ^ m) ++ List.range' (2 ^ m * (2 * c + 1)) (2 ^ m) := by
      have start : 2 ^ (m + 1) * c = 2 ^ m * (2 * c) := by ring
      have middle : 2 ^ m * (2 * c + 1) = 2 ^ m * (2 * c) + 2 ^ m := by ring
      rw [start, middle, List.range'_append_1, Nat.pow_succ, Nat.mul_two]
    have even (i : ℕ) (above : m + 1 ≤ i) : (2 ^ m * (2 * c)).testBit i = (2 ^ (m + 1) * c).testBit i :=
      upper_bits m c Nat.zero_lt_two above
    have odd (i : ℕ) (above : m + 1 ≤ i) : (2 ^ m * (2 * c + 1)).testBit i = (2 ^ (m + 1) * c).testBit i :=
      upper_bits m c Nat.one_lt_two above
    have lower : offsetFrom strides cells (2 ^ m * (2 * c)) (remaining + 1) m =
        (cells m).k * strides m + offsetFrom strides cells (2 ^ (m + 1) * c) remaining (m + 1) := by
      rw [offsetFrom, even_bit, offsetFrom_congr even]
      rfl
    have upper : offsetFrom strides cells (2 ^ m * (2 * c + 1)) (remaining + 1) m =
        ((cells m).k + 1) * strides m + offsetFrom strides cells (2 ^ (m + 1) * c) remaining (m + 1) := by
      rw [offsetFrom, odd_bit, offsetFrom_congr odd]
      rfl
    rw [lower] at first
    rw [upper] at second
    rw [halves, List.foldl_append]
    exact first.join total second

/-- The walk over the corners interpolates dimension by dimension. -/
theorem multilinear_eq_nested (dims : ℕ) :
    multilinear table strides cells dims lagrange = nested table strides cells lagrange dims 0 := by
  have block := @settled_block K table strides cells lagrange dims _ dims 0 0 (fun _ => 0, 0) (Nat.zero_add dims)
  rw [Nat.mul_zero, ← List.range_eq_range'] at block
  obtain ⟨-, result⟩ := block
  rw [multilinear, result]
  exact if_neg (Nat.lt_irrefl dims)

end LasecSimul.Kernels
