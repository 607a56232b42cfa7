import LasecSimul.Kernels.Lookup
import Mathlib.Data.Rat.Floor
import Mathlib.Order.Interval.Finset.Nat

/-!
# Prelookup and interpolation

`interpolation_prelookup` behind one `prelookup` for each dimension against `lookup_nd` with the same data, and linear
interpolation against the interpolation of one dimension after the other.
-/

namespace LasecSimul.Kernels

variable {K : Type} [Field K] [LinearOrder K]

/-- The interval of a place: as many inner breakpoints lie at or below it. -/
def segment (bp : ℕ → K) (n : ℕ) (x : K) : ℕ := ((Finset.Icc 1 (n - 2)).filter (bp · ≤ x)).card

/-- The chord of the interval; clipping moves the place to the nearest end first. -/
def piecewise (bp : ℕ → K) (n : ℕ) (extrap : Extrap) (x : K) (values : ℕ → K) : K :=
  let x := if extrap = .clip then max (bp 0) (min x (bp (n - 1))) else x
  let k := segment bp n x
  values k + (x - bp k) / (bp (k + 1) - bp k) * (values (k + 1) - values k)

/-- One-dimensional interpolation in each dimension, from a place in the table on. -/
def LookupNd.interpolated (nd : LookupNd K) (ports : LookupPorts K) (e : ℕ) : ℕ → ℕ → K
  | 0, offset => nd.table ports offset
  | d + 1, offset =>
    piecewise (nd.bp ports d) (nd.n d) nd.extrap (nd.x ports e d) fun i =>
      nd.interpolated ports e d (i * stridesOf nd.n d + offset)

/-- Breakpoints that a table accepts. -/
structure Increasing (bp : ℕ → K) (n : ℕ) : Prop where
  two : 2 ≤ n
  strict : StrictMonoOn bp (Set.Iio n)

structure Bracket (bp : ℕ → K) (n : ℕ) (x : K) (k : ℕ) : Prop where
  inside : k + 2 ≤ n
  below : 0 < k → bp k ≤ x
  above : k + 2 < n → x < bp (k + 1)

variable {bp : ℕ → K} {n : ℕ} {x : K} {i j k : ℕ}

omit [Field K] in
theorem Increasing.lt (increasing : Increasing bp n) (before : i < j) (inside : j < n) : bp i < bp j :=
  increasing.strict (Set.mem_Iio.mpr (by omega)) (Set.mem_Iio.mpr inside) before

omit [Field K] in
theorem Increasing.le (increasing : Increasing bp n) (before : i ≤ j) (inside : j < n) : bp i ≤ bp j := by
  rcases before.eq_or_lt with rfl | before
  · exact le_refl _
  · exact (increasing.lt before inside).le

omit [Field K] in
theorem bisect_spec (lo hi : ℕ) (ordered : lo < hi) (below : bp lo ≤ x) (above : x < bp hi) :
    bisect bp x lo hi < hi ∧ bp (bisect bp x lo hi) ≤ x ∧ x < bp (bisect bp x lo hi + 1) := by
  fun_induction bisect bp x lo hi with
  | case1 lo hi apart mid upper ih => exact ih (by omega) upper above
  | case2 lo hi apart mid lower ih =>
    obtain ⟨inside, rest⟩ := ih (by omega) below (not_le.mp lower)
    exact ⟨by omega, rest⟩
  | case3 lo hi apart =>
    obtain rfl : hi = lo + 1 := by omega
    exact ⟨by omega, below, above⟩

theorem locate_bracket (increasing : Increasing bp n) (x : K) : Bracket bp n x (locate bp n x).k := by
  have two := increasing.two
  unfold locate
  by_cases last : bp (n - 1) ≤ x
  · rw [if_pos last]
    have whole : n - 2 + 2 = n := Nat.sub_add_cancel two
    exact ⟨whole.le, fun _ => (increasing.le (show n - 2 ≤ n - 1 by omega) (by omega)).trans last, fun short =>
      absurd short (Nat.not_lt.mpr whole.ge)⟩
  rw [if_neg last]
  by_cases first : bp 0 ≤ x
  · rw [if_pos first]
    obtain ⟨inside, below, above⟩ := bisect_spec 0 (n - 1) (by omega) first (not_le.mp last)
    exact ⟨show bisect bp x 0 (n - 1) + 2 ≤ n by omega, fun _ => below, fun _ => above⟩
  · rw [if_neg first]
    exact ⟨two, fun impossible => absurd impossible (Nat.lt_irrefl 0), fun _ =>
      (not_le.mp first).trans (increasing.lt Nat.zero_lt_one two)⟩

omit [Field K] in
theorem Bracket.segment (increasing : Increasing bp n) (bracket : Bracket bp n x k) : segment bp n x = k := by
  have inside := bracket.inside
  have inner : (Finset.Icc 1 (n - 2)).filter (bp · ≤ x) = Finset.Icc 1 k := by
    ext i
    simp only [Finset.mem_filter, Finset.mem_Icc]
    constructor
    · rintro ⟨⟨positive, bound⟩, below⟩
      refine ⟨positive, not_lt.mp fun beyond => ?_⟩
      have above := bracket.above (by omega)
      exact absurd (below.trans_lt above) (not_lt.mpr (increasing.le (by omega) (by omega)))
    · rintro ⟨positive, bound⟩
      exact ⟨⟨positive, by omega⟩, (increasing.le bound (by omega)).trans (bracket.below (by omega))⟩
  rw [Kernels.segment, inner, Nat.card_Icc, Nat.add_sub_cancel]

variable [IsStrictOrderedRing K]

namespace Bracket

variable (increasing : Increasing bp n) (bracket : Bracket bp n x k)
include increasing bracket

theorem width : 0 < bp (k + 1) - bp k := by
  have inside := bracket.inside
  exact sub_pos.mpr (increasing.lt (by omega) (by omega))

theorem one_le : 1 ≤ (x - bp k) / (bp (k + 1) - bp k) ↔ bp (n - 1) ≤ x := by
  have inside := bracket.inside
  rw [one_le_div (bracket.width increasing), sub_le_sub_iff_right]
  constructor
  · intro upper
    have last : k + 2 = n := by
      by_contra short
      exact absurd (bracket.above (by omega)) (not_lt.mpr upper)
    rwa [show n - 1 = k + 1 by omega]
  · exact (increasing.le (by omega) (by omega)).trans

theorem neg : (x - bp k) / (bp (k + 1) - bp k) < 0 ↔ x < bp 0 := by
  have inside := bracket.inside
  rw [div_lt_iff₀ (bracket.width increasing), zero_mul, sub_neg]
  rcases Nat.eq_zero_or_pos k with rfl | positive
  · rfl
  · have below := bracket.below positive
    exact iff_of_false (not_lt.mpr below) (not_lt.mpr ((increasing.le (by omega) (by omega)).trans below))

theorem half_le : 1 / 2 ≤ (x - bp k) / (bp (k + 1) - bp k) ↔ bp (k + 1) - x ≤ x - bp k := by
  rw [div_le_div_iff₀ two_pos (bracket.width increasing)]
  constructor <;> intro bound <;> linarith

omit [Field K] [IsStrictOrderedRing K] in
theorem clamp : Bracket bp n (max (bp 0) (min x (bp (n - 1)))) k := by
  have inside := bracket.inside
  refine ⟨inside, fun positive => ?_, fun short => ?_⟩
  · exact le_max_of_le_right (le_min (bracket.below positive) (increasing.le (by omega) (by omega)))
  · exact max_lt (increasing.lt (by omega) (by omega)) (min_lt_of_left_lt (bracket.above short))

end Bracket

section Cells

variable (increasing : Increasing bp n)
include increasing

theorem clipCell_locate (x : K) :
    clipCell (locate bp n x) = ⟨(locate bp n x).k,
      (max (bp 0) (min x (bp (n - 1))) - bp (locate bp n x).k) /
        (bp ((locate bp n x).k + 1) - bp (locate bp n x).k)⟩ := by
  have bracket := locate_bracket increasing x
  have width := bracket.width increasing
  have ends : bp 0 ≤ bp (n - 1) := increasing.le (Nat.zero_le _) (by have := increasing.two; omega)
  have outside := bracket.one_le increasing
  have before := bracket.neg increasing
  have fraction : (locate bp n x).f =
      (x - bp (locate bp n x).k) / (bp ((locate bp n x).k + 1) - bp (locate bp n x).k) := rfl
  rw [← fraction] at outside before
  unfold clipCell
  by_cases low : (locate bp n x).f < 0
  · rw [if_pos low]
    have first := before.mp low
    have same : (locate bp n x).k = 0 := by
      by_contra later
      have inside := bracket.inside
      have above := bracket.below (Nat.pos_of_ne_zero later)
      exact absurd (above.trans_lt first) (not_lt.mpr (increasing.le (by omega) (by omega)))
    rw [max_eq_left ((min_le_left _ _).trans first.le), same, sub_self, zero_div]
  rw [if_neg low]
  have first : bp 0 ≤ x := not_lt.mp fun first => low (before.mpr first)
  by_cases last : bp (n - 1) ≤ x
  · have full : (bp (n - 1) - bp (locate bp n x).k) / (bp ((locate bp n x).k + 1) - bp (locate bp n x).k) = 1 := by
      have inside := bracket.inside
      have whole : n - 1 = (locate bp n x).k + 1 := by
        by_contra short
        have above := bracket.above (by omega)
        exact absurd (last.trans_lt above) (not_lt.mpr (increasing.le (by omega) (by omega)))
      rw [whole, div_self width.ne']
    rw [min_eq_right last, max_eq_right ends, full]
    split
    · rfl
    · rename_i bound
      rw [← le_antisymm (not_lt.mp bound) (outside.mpr last)]
  · have short : ¬ 1 < (locate bp n x).f := fun above => last (outside.mp above.le)
    rw [if_neg short, min_eq_left (not_le.mp last).le, max_eq_right first]
    rfl

theorem interpolate_locate (extrap : Extrap) (x : K) (values : ℕ → K) :
    interpolate false (if extrap = .clip then clipCell (locate bp n x) else locate bp n x) values =
      piecewise bp n extrap x values := by
  have bracket := locate_bracket increasing x
  unfold piecewise
  dsimp only
  by_cases clip : extrap = .clip
  · rw [if_pos clip, if_pos clip, clipCell_locate increasing, (bracket.clamp increasing).segment increasing]
    rfl
  · rw [if_neg clip, if_neg clip, bracket.segment increasing]
    rfl

end Cells

/-! ### The chain -/

/-- The three kernels hold the same data and follow the same rules. -/
structure SameTable (nd : LookupNd K) (pre : ℕ → Prelookup K) (iup : Interpolation K) (ports : LookupPorts K)
    (breakpointsIn : ℕ → ℕ → K) (tableIn : ℕ → K) : Prop where
  dims : iup.dims = nd.dims
  interp : iup.interp = nd.interp
  linear : iup.linear = decide (nd.extrap = .linear)
  table : (if iup.tablePort then tableIn else iup.rpTable) = nd.table ports
  sizes : ∀ d < nd.dims, (pre d).n = nd.n d ∧ iup.n d = nd.n d
  extrap : ∀ d < nd.dims, (pre d).linear = decide (nd.extrap = .linear)
  breakpoints : ∀ d < nd.dims, (if (pre d).bpPort then breakpointsIn d else (pre d).rp) = nd.bp ports d

/-- The flat method agrees with clipping and the last breakpoint enabled. -/
def Covered (nd : LookupNd K) (pre : ℕ → Prelookup K) : Prop :=
  nd.interp = .flat → nd.extrap = .clip ∧ ∀ d < nd.dims, (pre d).useLast

omit [IsStrictOrderedRing K] in
theorem clipCell_k (cell : Cell K) : (clipCell cell).k = cell.k := by
  unfold clipCell
  split
  · rfl
  · split <;> rfl

theorem clipCell_clipCell (cell : Cell K) : clipCell (clipCell cell) = clipCell cell := by
  unfold clipCell
  by_cases low : cell.f < 0
  · simp [low]
  · by_cases high : 1 < cell.f
    · simp [low, high]
    · simp [low, high]

theorem half_clipCell (cell : Cell K) : 1 / 2 ≤ (clipCell cell).f ↔ 1 / 2 ≤ cell.f := by
  unfold clipCell
  by_cases low : cell.f < 0
  · rw [if_pos low]
    exact iff_of_false (by simp) (not_le.mpr (low.trans (by simp)))
  · rw [if_neg low]
    by_cases high : 1 < cell.f
    · rw [if_pos high]
      exact iff_of_true (by linarith) (by linarith)
    · rw [if_neg high]

omit [IsStrictOrderedRing K] in
theorem locate_last (last : bp (n - 1) ≤ x) : (locate bp n x).k = n - 2 := by
  unfold locate
  rw [if_pos last]

namespace Prelookup

variable {pre : Prelookup K} (size : pre.n = n)
include size

omit [IsStrictOrderedRing K] in
theorem cell_linear (linear : pre.linear = true) : pre.cell bp x = locate bp n x := by
  rw [cell, size, if_pos linear]

omit [IsStrictOrderedRing K] in
variable (bp x) in
theorem cell_clip (clip : pre.linear = false) :
    (bp (n - 1) ≤ x ∧ pre.cell bp x = ⟨n - 1, 0⟩) ∨
      ((bp (n - 1) ≤ x → pre.useLast = false) ∧ pre.cell bp x = clipCell (locate bp n x)) := by
  rw [cell, size, if_neg (by simp [clip])]
  by_cases last : bp (n - 1) ≤ x ∧ pre.useLast = true
  · exact .inl ⟨last.1, if_pos last⟩
  · exact .inr ⟨fun above => by simpa [above] using last, if_neg last⟩

end Prelookup

section Index

variable [FloorRing K] {iup : Interpolation K} {d : ℕ}

theorem Interpolation.index_cast (size : iup.n d = n) (bound : i + 1 ≤ n) : iup.index d (i : K) = i := by
  unfold Interpolation.index
  rw [Int.floor_natCast, size]
  omega

theorem Interpolation.cell_inner (size : iup.n d = n) {cell : Cell K} (inner : cell.k + 2 ≤ n) :
    iup.cell d (cell.k : K) cell.f = if iup.linear then cell else clipCell cell := by
  rw [Interpolation.cell, Interpolation.index_cast size (by omega : cell.k + 1 ≤ n), size,
    if_neg (by omega : ¬ cell.k = n - 1)]

variable {pre : Prelookup K} (increasing : Increasing bp n) (sizes : pre.n = n ∧ iup.n d = n)
include increasing

theorem nearest_locate {f : K} (half : 1 / 2 ≤ f ↔ 1 / 2 ≤ (locate bp n x).f) :
    min (if 1 / 2 ≤ f then (locate bp n x).k + 1 else (locate bp n x).k) (n - 1) = indexNearest bp n x := by
  have bracket := locate_bracket increasing x
  have inside := bracket.inside
  unfold indexNearest
  by_cases last : bp (n - 1) ≤ x
  · have full : 1 ≤ (locate bp n x).f := (bracket.one_le increasing).mpr last
    rw [if_pos last, if_pos (half.mpr (by linarith))]
    have upper := locate_last last
    omega
  rw [if_neg last]
  by_cases first : bp 0 < x
  · rw [if_neg (not_not.mpr first)]
    dsimp only
    have nearer : 1 / 2 ≤ (locate bp n x).f ↔ _ := bracket.half_le increasing
    by_cases upper : bp ((locate bp n x).k + 1) - x ≤ x - bp (locate bp n x).k
    · rw [if_pos upper, if_pos (half.mpr (nearer.mpr upper))]
      omega
    · rw [if_neg upper, if_neg fun above => upper (nearer.mp (half.mp above))]
      omega
  · have same : (locate bp n x).k = 0 := by
      by_contra later
      have above := bracket.below (Nat.pos_of_ne_zero later)
      exact first ((increasing.lt (by omega) (by omega)).trans_le above)
    have lower : (locate bp n x).f ≤ 0 := by
      have width := bracket.width increasing
      have fraction : (locate bp n x).f =
          (x - bp (locate bp n x).k) / (bp ((locate bp n x).k + 1) - bp (locate bp n x).k) := rfl
      rw [fraction, div_le_iff₀ width, zero_mul, same]
      exact sub_nonpos.mpr (not_lt.mp first)
    rw [if_pos first, if_neg fun above => absurd (half.mp above) (by linarith), same]
    omega

include sizes

/-- The index and the fraction of an interpolation are those of the table. -/
theorem cell_prelookup {extrap : Extrap} (linear : iup.linear = decide (extrap = .linear))
    (same : pre.linear = decide (extrap = .linear)) :
    iup.cell d ((pre.cell bp x).k : K) (pre.cell bp x).f =
      if extrap = .clip then clipCell (locate bp n x) else locate bp n x := by
  have bracket := locate_bracket increasing x
  cases extrap with
  | linear =>
    rw [Prelookup.cell_linear sizes.1 same, Interpolation.cell_inner sizes.2 bracket.inside, linear]
    rfl
  | clip =>
    rw [if_pos rfl]
    rcases Prelookup.cell_clip bp x sizes.1 same with ⟨last, held⟩ | ⟨-, clipped⟩
    · have two := increasing.two
      have full : 1 ≤ (locate bp n x).f := (bracket.one_le increasing).mpr last
      have fraction : (clipCell (locate bp n x)).f = 1 := by
        unfold clipCell
        rw [if_neg (not_lt.mpr (zero_le_one.trans full))]
        split
        · rfl
        · rename_i bound
          exact le_antisymm (not_lt.mp bound) full
      have position : clipCell (locate bp n x) = ⟨n - 2, 1⟩ := by
        rw [← fraction, ← locate_last last, ← clipCell_k (locate bp n x)]
      rw [held, position, Interpolation.cell, Interpolation.index_cast sizes.2 (by omega : n - 1 + 1 ≤ n), sizes.2,
        if_pos rfl, linear, zero_add]
      simp [clipCell]
    · rw [clipped, Interpolation.cell_inner sizes.2 (by rw [clipCell_k]; exact bracket.inside), linear]
      exact clipCell_clipCell _

theorem index_flat (clip : pre.linear = false) (useLast : pre.useLast) :
    iup.index d ((pre.cell bp x).k : K) = indexBelow bp n x := by
  have two := increasing.two
  have bracket := locate_bracket increasing x
  have inside := bracket.inside
  unfold indexBelow
  rcases Prelookup.cell_clip bp x sizes.1 clip with ⟨last, held⟩ | ⟨short, clipped⟩
  · rw [held, Interpolation.index_cast sizes.2 (by omega : n - 1 + 1 ≤ n), if_pos last]
  · have before : ¬ bp (n - 1) ≤ x := fun last => by simp [short last] at useLast
    rw [clipped, clipCell_k, Interpolation.index_cast sizes.2 (by omega : _ + 1 ≤ n), if_neg before]
    split
    · rename_i first
      rw [locate, if_neg before, if_neg first]
    · rfl

theorem index_nearest :
    (let i := iup.index d ((pre.cell bp x).k : K)
     min (if 1 / 2 ≤ (pre.cell bp x).f then i + 1 else i) (iup.n d - 1)) = indexNearest bp n x := by
  have two := increasing.two
  have inside := (locate_bracket increasing x).inside
  dsimp only
  rw [sizes.2]
  by_cases linear : pre.linear = true
  · rw [Prelookup.cell_linear sizes.1 linear, Interpolation.index_cast sizes.2 (by omega : _ + 1 ≤ n)]
    exact nearest_locate increasing Iff.rfl
  · rcases Prelookup.cell_clip bp x sizes.1 (Bool.not_eq_true _ ▸ linear) with ⟨last, held⟩ | ⟨-, clipped⟩
    · rw [held, Interpolation.index_cast sizes.2 (by omega : n - 1 + 1 ≤ n), indexNearest, if_pos last]
      split <;> omega
    · rw [clipped, clipCell_k, Interpolation.index_cast sizes.2 (by omega : _ + 1 ≤ n)]
      exact nearest_locate increasing (half_clipCell _)

end Index

variable [FloorRing K] {nd : LookupNd K} {pre : ℕ → Prelookup K} {iup : Interpolation K} {ports : LookupPorts K}
  {breakpointsIn : ℕ → ℕ → K} {tableIn : ℕ → K}

omit [LinearOrder K] [IsStrictOrderedRing K] [FloorRing K] in
theorem nested_congr {table : ℕ → K} {strides others : ℕ → ℕ} {cells later : ℕ → Cell K} {lagrange : Bool} {dims : ℕ}
    (same : ∀ d < dims, strides d = others d ∧ cells d = later d) (offset : ℕ) :
    nested table strides cells lagrange dims offset = nested table others later lagrange dims offset := by
  induction dims generalizing offset with
  | zero => rfl
  | succ d ih =>
    obtain ⟨stride, cell⟩ := same d (Nat.lt_succ_self d)
    rw [nested, nested, stride, cell]
    simp only [ih fun d inside => same d (by omega)]

theorem stridesOf_congr {sizes others : ℕ → ℕ} {d : ℕ} (same : ∀ i < d, sizes i = others i) :
    stridesOf sizes d = stridesOf others d := by
  induction d with
  | zero => rfl
  | succ d ih => rw [stridesOf, stridesOf, ih fun i inside => same i (by omega), same d (Nat.lt_succ_self d)]

namespace LookupNd

variable (increasing : ∀ d < nd.dims, Increasing (nd.bp ports d) (nd.n d)) (e : ℕ)
include increasing

omit [FloorRing K] in
theorem nested_eq_interpolated {d : ℕ} (inside : d ≤ nd.dims) (offset : ℕ) :
    nested (nd.table ports) (stridesOf nd.n) (nd.cell ports e) false d offset = nd.interpolated ports e d offset := by
  induction d generalizing offset with
  | zero => rfl
  | succ d ih =>
    rw [nested, interpolated, cell, interpolate_locate (increasing d (by omega))]
    simp only [ih (by omega)]

end LookupNd

/-- What the ports of an interpolation hold behind the prelookups. -/
def Published (nd : LookupNd K) (pre : ℕ → Prelookup K) (ports : LookupPorts K) (breakpointsIn : ℕ → ℕ → K) (e : ℕ)
    (k f : ℕ → K) : Prop :=
  ∀ d < nd.dims, k d = ((pre d).outputs (nd.x ports e d) (breakpointsIn d)).k ∧
    (nd.interp = .flat ∨ some (f d) = ((pre d).outputs (nd.x ports e d) (breakpointsIn d)).f)

/-- One `prelookup` for each dimension and the interpolation give what the table gives. -/
theorem interpolation_eq_lookupNd (same : SameTable nd pre iup ports breakpointsIn tableIn) (covered : Covered nd pre)
    (increasing : ∀ d < nd.dims, Increasing (nd.bp ports d) (nd.n d)) (e : ℕ) (k f : ℕ → K)
    (published : Published nd pre ports breakpointsIn e k f) :
    iup.outputs k f tableIn = nd.outputs ports e ∧
      (nd.interp = .linear → iup.outputs k f tableIn = nd.interpolated ports e nd.dims 0) := by
  have strides (d : ℕ) (inside : d < nd.dims) : stridesOf iup.n d = stridesOf nd.n d :=
    stridesOf_congr fun i before => (same.sizes i (by omega)).2
  have index (d : ℕ) (inside : d < nd.dims) : k d = (((pre d).cell (nd.bp ports d) (nd.x ports e d)).k : K) := by
    rw [(published d inside).1, Prelookup.outputs, same.breakpoints d inside]
  have fraction (d : ℕ) (inside : d < nd.dims) (fractional : nd.interp ≠ .flat) :
      f d = ((pre d).cell (nd.bp ports d) (nd.x ports e d)).f := by
    have held := (published d inside).2.resolve_left fractional
    rw [Prelookup.outputs, same.breakpoints d inside] at held
    dsimp only at held
    split at held
    · cases held
    · exact Option.some.inj held
  have cells (d : ℕ) (inside : d < nd.dims) (fractional : nd.interp ≠ .flat) :
      iup.cell d (k d) (f d) = nd.cell ports e d := by
    rw [index d inside, fraction d inside fractional]
    exact cell_prelookup (increasing d inside) (same.sizes d inside) same.linear (same.extrap d inside)
  have walk (fractional : nd.interp ≠ .flat) (lagrange : Bool) :
      multilinear (nd.table ports) (stridesOf iup.n) (fun d => iup.cell d (k d) (f d)) nd.dims lagrange =
        multilinear (nd.table ports) (stridesOf nd.n) (nd.cell ports e) nd.dims lagrange := by
    rw [multilinear_eq_nested, multilinear_eq_nested]
    exact nested_congr (fun d inside => ⟨strides d inside, cells d inside fractional⟩) 0
  have agree : iup.outputs k f tableIn = nd.outputs ports e := by
    unfold Interpolation.outputs LookupNd.outputs
    rw [same.interp, same.table, same.dims]
    cases method : nd.interp with
    | flat =>
      obtain ⟨clip, useLast⟩ := covered method
      refine congrArg (nd.table ports) (List.foldl_ext _ _ _ fun index' d member => ?_)
      have inside := List.mem_range.mp member
      have clipped : (pre d).linear = false := by simp [same.extrap d inside, clip]
      rw [index d inside, strides d inside,
        index_flat (increasing d inside) (same.sizes d inside) clipped (useLast d inside)]
    | nearest =>
      refine congrArg (nd.table ports) (List.foldl_ext _ _ _ fun index' d member => ?_)
      have inside := List.mem_range.mp member
      rw [index d inside, fraction d inside (by simp [method]), strides d inside,
        ← index_nearest (increasing d inside) (same.sizes d inside)]
    | linear => exact walk (by simp [method]) false
    | lagrange => exact walk (by simp [method]) true
  refine ⟨agree, fun linear => ?_⟩
  rw [agree, LookupNd.outputs, linear]
  exact (multilinear_eq_nested _ nd.dims).trans (LookupNd.nested_eq_interpolated increasing e le_rfl 0)

/-- Two dimensions with three breakpoints each. -/
def plane : LookupNd ℚ where
  dims := 2
  interp := .linear
  extrap := .clip
  single := false
  tablePort := false
  n _ := 3
  bpPort _ := false
  rpBreakpoints _ i := i
  rpTable i := i * i

def planePorts : LookupPorts ℚ := { coordinate := fun d _ => d + 3 / 2, table := 0, breakpoints := 0 }

def planePrelookup : Prelookup ℚ :=
  { linear := false, useLast := true, indexOnly := false, bpPort := false, n := 3, rp := (↑) }

def planeInterpolation : Interpolation ℚ :=
  { dims := 2, interp := .linear, linear := false, tablePort := false, n := fun _ => 3, rpTable := fun i => i * i }

theorem interpolation_eq_lookupNd_plane :
    let outputs := fun d => planePrelookup.outputs (plane.x planePorts 0 d) 0
    let result := planeInterpolation.outputs (fun d => (outputs d).k) (fun d => (outputs d).f.getD 0) 0
    result = plane.outputs planePorts 0 ∧
      (plane.interp = .linear → result = plane.interpolated planePorts 0 plane.dims 0) :=
  @interpolation_eq_lookupNd ℚ _ _ _ _ plane (fun _ => planePrelookup) planeInterpolation planePorts 0 0
    ⟨rfl, rfl, rfl, rfl, fun _ _ => ⟨rfl, rfl⟩, fun _ _ => rfl, fun _ _ => rfl⟩ (fun flat => nomatch flat)
    (fun _ _ => ⟨Nat.le_succ 2, fun _ _ _ _ before => Nat.cast_lt.mpr before⟩) 0 _ _ fun _ _ => ⟨rfl, .inr rfl⟩

end LasecSimul.Kernels
