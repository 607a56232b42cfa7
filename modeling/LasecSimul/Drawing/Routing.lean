import LasecSimul.Drawing.Lines
import Mathlib.Tactic.Linarith

/-!
# Stable routes

Between multiples of one half the tolerance of half a pixel is equality, so alignment is transitive: simplifying keeps
a path orthogonal, and it cannot collapse to one point when its ends differ.
-/

namespace LasecSimul.Lib.EcmaNumber.Number

open Binary

def HalfMultiple (a : Number) : Prop := ∃ negative, ∃ k : ℕ, a.value = .finite negative (k / 2)

/-- The exact value of a finite number. -/
def exactValue (a : Number) : ℚ :=
  match a.value with
  | .finite negative magnitude => FloatValue.signed negative magnitude
  | _ => 0

theorem HalfMultiple.twice {a : Number} (multiple : a.HalfMultiple) : ∃ n : ℤ, 2 * a.exactValue = n := by
  obtain ⟨negative, k, shape⟩ := multiple
  unfold exactValue
  rw [shape]
  cases negative with
  | false => exact ⟨k, by simp [FloatValue.signed]; ring⟩
  | true => exact ⟨-k, by simp [FloatValue.signed]; ring⟩

theorem nearest_zero : binary64.nearest 0 = 0 := Format.nearest_multiple (n := 0) (by simp)

theorem half_le_nearest {x : ℚ} (large : x = 1 / 2 ∨ 1 ≤ x) : 1 / 2 ≤ binary64.nearest x := by
  rcases large with rfl | large
  · decide +kernel
  · have log : 0 ≤ Int.log 2 x := 
      (Int.zpow_le_iff_le_log one_lt_two (by linarith)).mp (by simpa using large)
    have normal : binary64.minExponent ≤ Int.log 2 x - (binary64.precision - 1) := by
      show (-1074 : ℤ) ≤ Int.log 2 x - (53 - 1)
      omega
    have step := Format.spacing_le (by linarith) normal
    have below : binary64.nearest x ≥ x - binary64.spacing x := Format.le_nearest x
    have small : (2 : ℚ) ^ (1 - (binary64.precision : ℤ)) ≤ 1 / 2 := by decide +kernel
    have scaled : x * 2 ^ (1 - (binary64.precision : ℤ)) ≤ x * (1 / 2) :=
      mul_le_mul_of_nonneg_left small (by linarith)
    linarith

theorem rounded_convert {negative : Bool} {x : ℚ} (nonneg : 0 ≤ x) :
    (rounded (binary64.convert (.finite negative x))).value = binary64.convert (.finite negative x) := by
  have twice : binary64.convert (binary64.convert (.finite negative x)) = binary64.convert (.finite negative x) :=
    Format.convert_convert (by decide) nonneg
  by_cases exceeds : binary64.overflows x = true
  · rw [show binary64.convert (.finite negative x) = .infinity negative from if_pos exceeds]
    rfl
  · have value : binary64.convert (.finite negative x) = .finite negative (binary64.nearest x) := if_neg exceeds
    rw [value] at twice ⊢
    show binary64.convert (.finite negative |binary64.nearest x|) = _
    rw [abs_of_nonneg (Format.nearest_nonneg nonneg), twice]

theorem abs_convert {a : Number} {negative : Bool} {x : ℚ} (nonneg : 0 ≤ x)
    (value : a.value = binary64.convert (.finite negative x)) : a.abs.value = binary64.convert (.finite false x) := by
  have unsigned : a.value.withSign false = binary64.convert (.finite false x) := by
    rw [value]
    unfold Format.convert
    dsimp only
    split <;> rfl
  show (rounded (a.value.withSign false)).value = _
  rw [unsigned, rounded_convert nonneg]

/-- The distance of two finite numbers is rounded once. -/
theorem distance_value {a b : Number} {left right : Bool} {x y : ℚ} (first : a.value = .finite left x)
    (second : b.value = .finite right y) :
    (a - b).abs.value = binary64.convert (.finite false |a.exactValue - b.exactValue|) := by
  have opposite : FloatValue.signed (!right) y = -FloatValue.signed right y := by
    cases right <;> simp [FloatValue.signed]
  have difference : binary64.sub a.value b.value = binary64.convert
      (.finite (if a.exactValue - b.exactValue = 0 then left && !right else decide (a.exactValue - b.exactValue < 0))
        |a.exactValue - b.exactValue|) := by
    unfold exactValue
    rw [first, second]
    show binary64.ofRat (left && !right) (FloatValue.signed left x + FloatValue.signed (!right) y) = _
    rw [opposite, ← sub_eq_add_neg]
    rfl
  have value : (a - b).value = _ := (congrArg (fun value => (rounded value).value) difference).trans
    (rounded_convert (abs_nonneg _))
  exact abs_convert (abs_nonneg _) value

end LasecSimul.Lib.EcmaNumber.Number

namespace LasecSimul.Drawing

open Lib.EcmaNumber (Number)
open Lib.Binary

theorem half_value : half.value = .finite false (1 / 2) := by decide +kernel

theorem near_iff {a b : Number} (first : a.HalfMultiple) (second : b.HalfMultiple) :
    near a b = true ↔ a.exactValue = b.exactValue := by
  obtain ⟨m, twice⟩ := first.twice
  obtain ⟨n, twice'⟩ := second.twice
  obtain ⟨left, j, shape⟩ := first
  obtain ⟨right, k, shape'⟩ := second
  have compared : near a b = (binary64.convert (.finite false |a.exactValue - b.exactValue|)).lt (.finite false (1 / 2)) := by
    show (a - b).abs.value.lt half.value = _
    rw [Number.distance_value shape shape', half_value]
  rw [compared]
  by_cases same : a.exactValue = b.exactValue
  · have small : ¬binary64.overflows 0 = true := by
      unfold Format.overflows
      rw [Number.nearest_zero]
      decide +kernel
    rw [same, sub_self, abs_zero, Format.convert, if_neg small, Number.nearest_zero]
    exact iff_of_true (by decide +kernel) rfl
  · refine iff_of_false (fun below => ?_) same
    have apart : |a.exactValue - b.exactValue| = 1 / 2 ∨ 1 ≤ |a.exactValue - b.exactValue| := by
      have whole : 2 * |a.exactValue - b.exactValue| = ((|m - n| : ℤ) : ℚ) := by
        rw [Int.cast_abs, Int.cast_sub, ← twice, ← twice', ← mul_sub, abs_mul, abs_two]
      have positive : |m - n| ≠ 0 := by
        rw [ne_eq, abs_eq_zero, sub_eq_zero]
        rintro rfl
        exact same (by linarith)
      rcases (show |m - n| = 1 ∨ 2 ≤ |m - n| by have := abs_nonneg (m - n); omega) with one | more
      · left
        rw [one] at whole
        push_cast at whole
        linarith
      · right
        have more' : (2 : ℚ) ≤ ((|m - n| : ℤ) : ℚ) := by exact_mod_cast more
        linarith
    have large := Number.half_le_nearest apart
    unfold Format.convert at below
    dsimp only at below
    split at below
    · exact absurd below (by simp [FloatValue.lt, FloatValue.extended])
    · have strict : binary64.nearest |a.exactValue - b.exactValue| < 1 / 2 := by
        simpa [FloatValue.lt, FloatValue.extended, FloatValue.signed] using below
      linarith

/-! ### Points on the grid of one half -/

structure OnGrid (point : Point) : Prop where
  x : point.x.HalfMultiple
  y : point.y.HalfMultiple

variable {a b c start stop previous : Point} {path before rest : List Point}

theorem sameX_iff (first : OnGrid a) (second : OnGrid b) :
    sameX a b = true ↔ a.x.exactValue = b.x.exactValue := near_iff first.x second.x

theorem sameY_iff (first : OnGrid a) (second : OnGrid b) :
    sameY a b = true ↔ a.y.exactValue = b.y.exactValue := near_iff first.y second.y

theorem samePoint_iff (first : OnGrid a) (second : OnGrid b) : samePoint a b = true ↔
    a.x.exactValue = b.x.exactValue ∧ a.y.exactValue = b.y.exactValue := by
  rw [samePoint, Bool.and_eq_true, sameX_iff first second, sameY_iff first second]

theorem aligned_iff (first : OnGrid a) (second : OnGrid b) : aligned a b = true ↔
    a.x.exactValue = b.x.exactValue ∨ a.y.exactValue = b.y.exactValue := by
  rw [aligned, Bool.or_eq_true, sameX_iff first second, sameY_iff first second]

theorem aligned_comm (first : OnGrid a) (second : OnGrid b) : aligned a b = true ↔ aligned b a = true := by
  rw [aligned_iff first second, aligned_iff second first]
  exact or_congr eq_comm eq_comm

theorem orthogonal_iff : isOrthogonalPath path = true ↔ path.IsChain fun a b => aligned a b = true := by
  induction path with
  | nil => simp [isOrthogonalPath]
  | cons a path ih =>
    cases path with
    | nil => simp [isOrthogonalPath]
    | cons b path =>
      rw [isOrthogonalPath, Bool.and_eq_true, ih, List.isChain_cons_cons]
      rfl

/-- Every point is on the grid, and every one is aligned with the next. -/
structure Square (path : List Point) : Prop where
  onGrid : ∀ point ∈ path, OnGrid point
  chain : path.IsChain fun a b => aligned a b = true

theorem Square.tail (square : Square (a :: path)) : Square path :=
  ⟨fun point member => square.onGrid point (List.mem_cons_of_mem _ member), square.chain.tail⟩

theorem Square.head (square : Square (a :: path)) : OnGrid a := square.onGrid a List.mem_cons_self

theorem Square.cons (square : Square (b :: path)) (first : OnGrid a) (next : aligned a b = true) :
    Square (a :: b :: path) where
  onGrid point member := by
    rcases List.mem_cons.mp member with rfl | member
    · exact first
    · exact square.onGrid point member
  chain := List.isChain_cons_cons.mpr ⟨next, square.chain⟩

theorem Square.second (square : Square (a :: b :: path)) : aligned a b = true :=
  (List.isChain_cons_cons.mp square.chain).1

theorem Square.reverse (square : Square path) : Square path.reverse where
  onGrid point member := square.onGrid point (List.mem_reverse.mp member)
  chain := by
    rw [List.isChain_reverse]
    refine square.chain.imp_of_mem_imp fun {a b} first second next => ?_
    exact (aligned_comm (square.onGrid a first) (square.onGrid b second)).mp next

theorem Square.replace (square : Square (a :: path)) (grid : OnGrid b) (same : samePoint a b = true) :
    Square (b :: path) := by
  cases path with
  | nil => exact ⟨fun point member => List.mem_singleton.mp member ▸ grid, .singleton _⟩
  | cons c path =>
    obtain ⟨x, y⟩ := (samePoint_iff square.head grid).mp same
    have next := (aligned_iff square.head square.tail.head).mp square.second
    rw [x, y] at next
    exact square.tail.cons grid ((aligned_iff grid square.tail.head).mpr next)

theorem dropRepeated_square (after : Square (previous :: rest)) (done : Square (previous :: before)) :
    Square (dropRepeated (previous :: before) rest) := by
  induction rest generalizing previous before with
  | nil => exact done
  | cons point rest ih =>
    unfold dropRepeated
    dsimp only
    split
    · next same =>
      cases rest with
      | nil => exact done.replace after.tail.head same
      | cons next rest =>
        have back : samePoint point previous = true := by
          rw [samePoint_iff after.tail.head after.head]
          exact ((samePoint_iff after.head after.tail.head).mp same).imp Eq.symm Eq.symm
        exact ih (after.tail.replace after.head back) done
    · refine ih after.tail (done.cons after.tail.head ?_)
      exact (aligned_comm after.head after.tail.head).mp after.second

theorem aligned_of_straight (first : OnGrid a) (second : OnGrid b) (third : OnGrid c)
    (level : straight a b c = true) : aligned a c = true := by
  rw [straight, Bool.or_eq_true, Bool.and_eq_true, Bool.and_eq_true, sameX_iff first second, sameX_iff second third,
    sameY_iff first second, sameY_iff second third] at level
  rw [aligned_iff first third]
  exact level.imp (fun both => both.1.trans both.2) fun both => both.1.trans both.2

theorem dropStraight_square (after : Square (previous :: rest)) (done : Square (previous :: before)) :
    Square (dropStraight (previous :: before) rest) := by
  induction rest generalizing previous before with
  | nil => exact done
  | cons current rest ih =>
    have turned : Square (current :: previous :: before) :=
      done.cons after.tail.head ((aligned_comm after.head after.tail.head).mp after.second)
    cases rest with
    | nil => exact turned
    | cons next rest =>
      unfold dropStraight
      dsimp only
      split
      · next level =>
        exact ih (after.tail.tail.cons after.head
          (aligned_of_straight after.head after.tail.head after.tail.tail.head level)) done
      · exact ih after.tail turned

theorem length_le_dropRepeated (previous : Point) (before rest : List Point) :
    before.length + 1 ≤ (dropRepeated (previous :: before) rest).length := by
  induction rest generalizing previous before with
  | nil => exact Nat.le_refl _
  | cons point rest ih =>
    unfold dropRepeated
    dsimp only
    split
    · split
      · exact ih point before
      · exact ih previous before
    · have longer := ih point (previous :: before)
      rw [List.length_cons] at longer
      omega

/-- A path collapses only where all of it is at its first point. -/
theorem dropRepeated_collapsed (short : (dropRepeated [start] rest).length ≤ 1) :
    ∀ point ∈ rest, samePoint start point = true := by
  induction rest with
  | nil => simp
  | cons point rest ih =>
    unfold dropRepeated at short
    dsimp only at short
    split at short
    · next same =>
      intro other member
      rcases List.mem_cons.mp member with rfl | member
      · exact same
      · cases rest with
        | nil => cases member
        | cons next rest => exact ih short other member
    · have longer := length_le_dropRepeated point [start] rest
      rw [List.length_singleton] at longer
      omega

theorem length_lt_dropStraight (previous : Point) (before : List Point) (some : rest ≠ []) :
    before.length + 2 ≤ (dropStraight (previous :: before) rest).length := by
  induction rest generalizing previous before with
  | nil => exact absurd rfl some
  | cons current rest ih =>
    cases rest with
    | nil => exact Nat.le_refl _
    | cons next rest =>
      unfold dropStraight
      dsimp only
      split
      · exact ih previous before (List.cons_ne_nil _ _)
      · have longer := ih current (previous :: before) (List.cons_ne_nil _ _)
        rw [List.length_cons] at longer
        omega

theorem simplifyRound_square (square : Square (start :: rest)) (last : (start :: rest).getLast? = some stop)
    (differ : samePoint start stop = false) :
    2 ≤ (simplifyRound (start :: rest)).length ∧ Square (simplifyRound (start :: rest)) := by
  have head : OnGrid start := square.head
  have deduped : Square (dropRepeated [start] rest) :=
    dropRepeated_square square ⟨fun point member => by simp_all, .singleton _⟩
  have long : 2 ≤ (dropRepeated [start] rest).length := by
    by_contra short
    have all := dropRepeated_collapsed (by omega : (dropRepeated [start] rest).length ≤ 1)
    cases rest with
    | nil =>
      obtain rfl : start = stop := by simpa using last
      have self : samePoint start start = true := (samePoint_iff head head).mpr ⟨rfl, rfl⟩
      rw [self] at differ
      cases differ
    | cons point rest =>
      rw [List.getLast?_cons_cons] at last
      rw [all stop (List.mem_of_getLast? last)] at differ
      cases differ
  rw [simplifyRound_cons]
  cases shape : (dropRepeated [start] rest).reverse with
  | nil =>
    rw [List.reverse_eq_nil_iff] at shape
    rw [shape] at long
    exact absurd long (by simp)
  | cons first others =>
    have straightened : Square (first :: others) := shape ▸ deduped.reverse
    have some : others ≠ [] := by
      rintro rfl
      rw [← List.length_reverse, shape] at long
      exact absurd long (by simp)
    rw [dropStraight_cons, List.length_reverse]
    exact ⟨length_lt_dropStraight first [] some,
      (dropStraight_square straightened ⟨fun point member => List.mem_singleton.mp member ▸ straightened.head,
        .singleton _⟩).reverse⟩

theorem simplifyRounds_square (rounds : Nat) {rest : List Point} (square : Square (start :: rest))
    (last : (start :: rest).getLast? = some stop) (differ : samePoint start stop = false) :
    2 ≤ (simplifyRounds rounds (start :: rest)).length ∧ Square (simplifyRounds rounds (start :: rest)) := by
  induction rounds generalizing rest with
  | zero =>
    refine ⟨?_, square⟩
    cases rest with
    | nil =>
      obtain rfl : start = stop := by simpa using last
      have self : samePoint start start = true := (samePoint_iff square.head square.head).mpr ⟨rfl, rfl⟩
      rw [self] at differ
      cases differ
    | cons point rest => simp [simplifyRounds]
  | succ rounds ih =>
    obtain ⟨long, round⟩ := simplifyRound_square square last differ
    obtain ⟨ends, -, head, -⟩ := simplifyRound_spec start rest
    unfold simplifyRounds
    dsimp only
    split
    · exact ⟨long, round⟩
    · have first := head long
      cases shape : simplifyRound (start :: rest) with
      | nil =>
        rw [shape] at first
        cases first
      | cons point others =>
        rw [shape] at first round ends
        obtain rfl : point = start := by simpa using first
        exact ih round (ends.trans last)

theorem simplifyWirePath_square (square : Square (start :: rest)) (last : (start :: rest).getLast? = some stop)
    (differ : samePoint start stop = false) :
    2 ≤ (simplifyWirePath (start :: rest)).length ∧ Square (simplifyWirePath (start :: rest)) :=
  simplifyRounds_square _ square last differ

theorem defaultWirePath_square (first : OnGrid start) (last : OnGrid stop) (firstAxis : Option LegAxis) :
    Square (defaultWirePath start stop firstAxis) := by
  have single : Square [stop] := ⟨fun point member => List.mem_singleton.mp member ▸ last, .singleton _⟩
  unfold defaultWirePath
  split
  · next level => exact single.cons first level
  · dsimp only
    split
    · have corner : OnGrid ⟨stop.x, start.y⟩ := ⟨last.x, first.y⟩
      exact (single.cons corner ((aligned_iff corner last).mpr (.inl rfl))).cons first
        ((aligned_iff first corner).mpr (.inr rfl))
    · have corner : OnGrid ⟨start.x, stop.y⟩ := ⟨first.x, last.y⟩
      exact (single.cons corner ((aligned_iff corner last).mpr (.inr rfl))).cons first
        ((aligned_iff first corner).mpr (.inl rfl))

theorem slideCornerToward_onGrid (first : OnGrid a) (second : OnGrid b) : OnGrid (slideCornerToward a b c) := by
  unfold slideCornerToward
  split
  · exact ⟨second.x, first.y⟩
  · split
    · exact ⟨first.x, second.y⟩
    · split
      · exact ⟨second.x, first.y⟩
      · exact ⟨first.x, second.y⟩

theorem slideFirst_onGrid (first : OnGrid start) (grid : ∀ point ∈ path, OnGrid point) :
    ∀ point ∈ slideFirst start path, OnGrid point := by
  match path with
  | [] | [_] => exact grid
  | corner :: second :: rest =>
    intro point member
    rcases List.mem_cons.mp member with rfl | member
    · split
      · exact grid corner List.mem_cons_self
      · exact slideCornerToward_onGrid first (grid corner List.mem_cons_self)
    · exact grid point (List.mem_cons_of_mem _ member)

theorem insertElbows_square (grid : ∀ point ∈ rest, OnGrid point) (done : Square (previous :: before)) :
    Square (insertElbows (previous :: before) rest) := by
  induction rest generalizing previous before with
  | nil => exact done
  | cons point rest ih =>
    obtain ⟨first, later⟩ := List.forall_mem_cons.mp grid
    unfold insertElbows
    dsimp only
    split
    · next level => exact ih later (done.cons first ((aligned_comm done.head first).mp level))
    · have elbow : OnGrid ⟨point.x, previous.y⟩ := ⟨first.x, done.head.y⟩
      exact ih later ((done.cons elbow ((aligned_iff elbow done.head).mpr (.inr rfl))).cons first
        ((aligned_iff first elbow).mpr (.inl rfl)))

theorem simplified_default_square (first : OnGrid start) (last : OnGrid stop) (differ : samePoint start stop = false)
    (firstAxis : Option LegAxis) : 2 ≤ (simplifyWirePath (defaultWirePath start stop firstAxis)).length ∧
      Square (simplifyWirePath (defaultWirePath start stop firstAxis)) := by
  have line := defaultWirePath_line start stop firstAxis
  have square := defaultWirePath_square first last firstAxis
  obtain ⟨rest, shape⟩ : ∃ rest, defaultWirePath start stop firstAxis = start :: rest := ⟨_, line.eq⟩
  have ends := line.last
  rw [shape] at square ends ⊢
  exact simplifyWirePath_square square ends differ

theorem resolveWirePath_square (first : OnGrid start) (last : OnGrid stop) (differ : samePoint start stop = false)
    {interior : Option (List Point)} (corners : ∀ corner ∈ interior.getD [], OnGrid corner)
    (firstAxis : Option LegAxis) :
    2 ≤ (resolveWirePath start interior stop firstAxis).length ∧
      Square (resolveWirePath start interior stop firstAxis) := by
  unfold resolveWirePath
  split
  · exact ⟨(defaultWirePath_line start stop firstAxis).long, defaultWirePath_square first last firstAxis⟩
  · next corner rest recorded =>
    rw [recorded] at corners
    dsimp only
    split
    · next orthogonal =>
      refine simplifyWirePath_square ⟨fun point member => ?_, orthogonal_iff.mp orthogonal⟩
        (@List.getLast?_concat _ (start :: corner :: rest) stop) differ
      have member : point ∈ (start :: corner :: rest) ++ [stop] := member
      rcases List.mem_append.mp member with member | member
      · rcases List.mem_cons.mp member with rfl | member
        · exact first
        · exact corners point member
      · exact List.mem_singleton.mp member ▸ last
    · split
      · split
        · exact ⟨(defaultWirePath_line start stop firstAxis).long, defaultWirePath_square first last firstAxis⟩
        · exact simplified_default_square first last differ _
      · have slid := slideFirst_onGrid last
          (fun point member => slideFirst_onGrid first corners point (List.mem_reverse.mp member))
        have single : Square [start] := ⟨fun point member => List.mem_singleton.mp member ▸ first, .singleton _⟩
        have ends : ∀ point ∈ (slideFirst stop (slideFirst start (corner :: rest)).reverse).reverse ++ [stop],
            OnGrid point := by
          intro point member
          rcases List.mem_append.mp member with member | member
          · exact slid point (List.mem_reverse.mp member)
          · exact List.mem_singleton.mp member ▸ last
        have full := (insertElbows_square ends single).reverse
        obtain ⟨others, shape, ends⟩ := elbows_shape start
          (slideFirst stop (slideFirst start (corner :: rest)).reverse).reverse stop
        rw [shape] at full ⊢
        exact simplifyWirePath_square full ends differ

def SameSpot (a b : Point) : Prop := a.x.exactValue = b.x.exactValue ∧ a.y.exactValue = b.y.exactValue

def Collinear (a b c : Point) : Prop :=
  (b.x.exactValue - a.x.exactValue) * (c.y.exactValue - b.y.exactValue) =
    (b.y.exactValue - a.y.exactValue) * (c.x.exactValue - b.x.exactValue)

structure Routed (start stop : Point) (path : List Point) : Prop where
  starts : path.head? = some start
  stops : path.getLast? = some stop
  distinct : path.IsChain fun a b => ¬SameSpot a b
  aligned : path.IsChain fun a b => a.x.exactValue = b.x.exactValue ∨ a.y.exactValue = b.y.exactValue
  turns : ∀ a b c, [a, b, c] <:+: path → ¬Collinear a b c

theorem Turning.corner (turning : Turning path) (part : [a, b, c] <:+: path) : straight a b c = false := by
  obtain ⟨front, back, rfl⟩ := part
  induction front with
  | nil => exact turning.1
  | cons point front ih => exact ih turning.tail

theorem Square.turns (square : Square [a, b, c]) (first : samePoint a b = false)
    (turning : straight a b c = false) : ¬Collinear a b c := by
  have gridA := square.head
  have gridB := square.tail.head
  have gridC := square.tail.tail.head
  rw [Bool.eq_false_iff, ne_eq, samePoint_iff gridA gridB] at first
  rw [straight, Bool.eq_false_iff, ne_eq, Bool.or_eq_true, Bool.and_eq_true, Bool.and_eq_true, sameX_iff gridA gridB,
    sameX_iff gridB gridC, sameY_iff gridA gridB, sameY_iff gridB gridC] at turning
  intro level
  unfold Collinear at level
  rcases (aligned_iff gridA gridB).mp square.second with x | y
  · rw [← x, sub_self, zero_mul, eq_comm, mul_eq_zero, sub_eq_zero, sub_eq_zero] at level
    rcases level with y | x'
    · exact first ⟨x, y.symm⟩
    · exact turning (.inl ⟨x, x.symm.trans x'.symm⟩)
  · rw [← y, sub_self, zero_mul, mul_eq_zero, sub_eq_zero, sub_eq_zero] at level
    rcases level with x | y'
    · exact first ⟨x.symm, y⟩
    · exact turning (.inr ⟨y, y.symm.trans y'.symm⟩)

theorem routed_of_square (square : Square path) (line : Line start stop path)
    (simple : Simple path) : Routed start stop path where
  starts := line.head
  stops := line.last
  distinct := simple.apart.imp_of_mem_imp fun {a b} first second differ same => by
    rw [(samePoint_iff (square.onGrid a first) (square.onGrid b second)).mpr same] at differ
    cases differ
  aligned := square.chain.imp_of_mem_imp fun {a b} first second =>
    (aligned_iff (square.onGrid a first) (square.onGrid b second)).mp
  turns a b c part := by
    have inside : Square [a, b, c] := ⟨fun point member => square.onGrid point (part.subset member),
      square.chain.infix part⟩
    have apart : Apart [a, b, c] := simple.apart.infix part
    exact inside.turns (List.isChain_cons_cons.mp apart).1 (simple.turning.corner part)

/-- A resolved route is an orthogonal polyline without repeated or straight points, and its corners draw it again. -/
theorem resolveWirePath_stable (start stop : Point) (interior : Option (List Point)) (firstAxis : Option LegAxis)
    (first : OnGrid start) (last : OnGrid stop) (corners : ∀ corner ∈ interior.getD [], OnGrid corner)
    (differ : ¬SameSpot start stop) :
    Routed start stop (resolveWirePath start interior stop firstAxis) ∧
      ∀ hint, resolveWirePath start (some (interiorOfPath (resolveWirePath start interior stop firstAxis))) stop hint =
        resolveWirePath start interior stop firstAxis := by
  have apart : samePoint start stop = false := Bool.eq_false_iff.mpr (mt (samePoint_iff first last).mp differ)
  obtain ⟨long, square⟩ := resolveWirePath_square first last apart corners firstAxis
  have line := resolveWirePath_line long
  generalize resolveWirePath start interior stop firstAxis = path at long square line
  have simple : Simple path := by
    refine line.calm.elim (fun two => ?_) id
    have shape := line.eq
    have none : inner path = [] := by
      rw [shape] at two
      simpa using two
    rw [shape, none]
    exact ⟨List.isChain_cons_cons.mpr ⟨apart, .singleton _⟩, trivial⟩
  refine ⟨routed_of_square square line simple, fun hint => ?_⟩
  rw [interiorOfPath, simple.wirePath]
  by_cases none : inner path = []
  · have shape := line.eq
    rw [none] at shape ⊢
    have level : (sameX start stop || sameY start stop) = true := (shape ▸ square : Square [start, stop]).second
    show defaultWirePath start stop hint = path
    rw [defaultWirePath, if_pos level, shape]
    rfl
  · exact line.drawn_again (orthogonal_iff.mpr square.chain) none hint

/-- The point at so many halves. -/
def atHalves (x y : ℕ) : Point := ⟨.ofRat (x / 2), .ofRat (y / 2)⟩

/-- A corner that repeats and two that lie askew. -/
theorem resolveWirePath_stable_skew :
    Routed (atHalves 0 0) (atHalves 41 20)
        (resolveWirePath (atHalves 0 0) (some [atHalves 7 9, atHalves 7 9, atHalves 2 31]) (atHalves 41 20) none) ∧
      ∀ hint, resolveWirePath (atHalves 0 0) (some (interiorOfPath (resolveWirePath (atHalves 0 0)
        (some [atHalves 7 9, atHalves 7 9, atHalves 2 31]) (atHalves 41 20) none))) (atHalves 41 20) hint =
        resolveWirePath (atHalves 0 0) (some [atHalves 7 9, atHalves 7 9, atHalves 2 31]) (atHalves 41 20) none := by
  refine resolveWirePath_stable _ _ _ none ⟨⟨false, 0, by decide +kernel⟩, ⟨false, 0, by decide +kernel⟩⟩
    ⟨⟨false, 41, by decide +kernel⟩, ⟨false, 20, by decide +kernel⟩⟩ ?_ (by unfold SameSpot; decide +kernel)
  intro corner member
  have cases : corner = atHalves 7 9 ∨ corner = atHalves 2 31 := by
    simpa [or_comm, or_left_comm] using member
  rcases cases with rfl | rfl
  · exact ⟨⟨false, 7, by decide +kernel⟩, ⟨false, 9, by decide +kernel⟩⟩
  · exact ⟨⟨false, 2, by decide +kernel⟩, ⟨false, 31, by decide +kernel⟩⟩

end LasecSimul.Drawing
