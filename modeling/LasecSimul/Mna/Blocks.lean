import LasecSimul.Lib.Closure
import Mathlib.Data.Fin.Basic
import Mathlib.Data.Fintype.Basic

/-!
# Blocks of a matrix (`applyFloatingGauge`)

The disjoint sets of `GaugeWorkspace::parent`. The smaller index becomes the root, so the root of a block is its
lowest index.
-/

namespace LasecSimul.Mna

open Lib.Forest Lib.Closure

structure Blocks (n : Nat) where
  parent : Fin n → Fin n
  below : ∀ x, parent x ≤ x

namespace Blocks

variable {n : Nat} {u : Blocks n} {x y r a b : Fin n}

def init (n : Nat) : Blocks n where
  parent := id
  below _ := le_rfl

/-- `parent[x] = parent[parent[x]]`. -/
def halve (u : Blocks n) (x : Fin n) : Blocks n where
  parent := Function.update u.parent x (u.parent (u.parent x))
  below y := by
    by_cases same : y = x
    · rw [same, Function.update_self]
      exact (u.below _).trans (u.below x)
    · rw [Function.update_of_ne same]
      exact u.below y

/-- The loop of `find`; indices fall, so the index itself is enough fuel. -/
def findLoop : Nat → Blocks n → Fin n → Blocks n × Fin n
  | 0, u, x => (u, x)
  | fuel + 1, u, x =>
    if u.parent x = x then (u, x)
    else findLoop fuel (u.halve x) (u.parent (u.parent x))

def find (u : Blocks n) (x : Fin n) : Blocks n × Fin n := findLoop (x.val + 1) u x

def link (u : Blocks n) (a b : Fin n) (lt : a < b) : Blocks n where
  parent := Function.update u.parent b a
  below y := by
    by_cases same : y = b
    · rw [same, Function.update_self]
      exact lt.le
    · rw [Function.update_of_ne same]
      exact u.below y

/-- `parent[max(a, b)] = min(a, b)` for the roots of the two indices. -/
def join (u : Blocks n) (row column : Fin n) : Blocks n :=
  let first := u.find row
  let second := first.1.find column
  if lt : first.2 < second.2 then second.1.link first.2 second.2 lt
  else if gt : second.2 < first.2 then second.1.link second.2 first.2 gt
  else second.1

theorem exists_root (u : Blocks n) (x : Fin n) : ∃ r, RootOf u.parent x r := by
  refine exists_rootOf (fun y => n - y.val) n (fun y moved => ?_) (fun y => Nat.sub_le _ _) x
  have lower := lt_of_le_of_ne (u.below y) moved
  have := y.isLt
  rw [Fin.lt_def] at lower
  omega

theorem root_le (h : RootOf u.parent x r) : r ≤ x := by
  induction h with
  | root => exact le_rfl
  | @step x _ _ _ ih => exact ih.trans (u.below x)

theorem findLoop_rootOf {fuel : Nat} (h : RootOf u.parent y r) : RootOf (findLoop fuel u x).1.parent y r := by
  induction fuel generalizing u x with
  | zero => exact h
  | succ fuel ih =>
    rw [findLoop]
    split
    · exact h
    · exact ih (h.halve x)

theorem findLoop_root {fuel : Nat} (enough : x.val < fuel) (h : RootOf u.parent x r) : (findLoop fuel u x).2 = r := by
  induction fuel generalizing u x with
  | zero => omega
  | succ fuel ih =>
    rw [findLoop]
    split
    · next fixed => exact h.eq_of_fixed fixed
    · next moved =>
      have lower := lt_of_le_of_ne (u.below x) moved
      have lower' := u.below (u.parent x)
      rw [Fin.lt_def] at lower
      rw [Fin.le_def] at lower'
      exact ih (by omega) (h.parent.parent.halve x)

theorem find_snd (h : RootOf u.parent x r) : (u.find x).2 = r := findLoop_root (Nat.lt_succ_self _) h

theorem find_root (u : Blocks n) (x : Fin n) : RootOf u.parent x (u.find x).2 := by
  obtain ⟨r, h⟩ := u.exists_root x
  rwa [find_snd h]

theorem find_rootOf : RootOf (u.find x).1.parent y r ↔ RootOf u.parent y r := by
  constructor
  · intro h
    obtain ⟨s, hs⟩ := u.exists_root y
    rwa [h.unique (findLoop_rootOf hs)]
  · exact findLoop_rootOf

theorem sameTree_init : SameTree (init n).parent x y ↔ x = y := sameTree_iff (.root rfl) (.root rfl)

/-- `join` merges the blocks of its arguments and leaves the others apart. -/
theorem join_same : SameTree (u.join a b).parent x y ↔ Merged (SameTree u.parent) a b x y := by
  obtain ⟨r, hx⟩ := u.exists_root x
  obtain ⟨s, hy⟩ := u.exists_root y
  have rootA := u.find_root a
  have rootB := find_rootOf.mp ((u.find a).1.find_root b)
  have kept : ∀ {y t : Fin n}, RootOf ((u.find a).1.find b).1.parent y t ↔ RootOf u.parent y t :=
    find_rootOf.trans find_rootOf
  have fixedA := (kept.mpr rootA).fixed
  have fixedB := (kept.mpr rootB).fixed
  rw [merged_sameTree_iff hx hy rootA rootB, join]
  split
  · next lt =>
    show SameTree (Function.update _ _ _) x y ↔ _
    rw [sameTree_link (exists_root _) fixedA fixedB lt.ne,
      merged_sameTree_iff (kept.mpr hx) (kept.mpr hy) (.root fixedA) (.root fixedB)]
  · split
    · next gt =>
      show SameTree (Function.update _ _ _) x y ↔ _
      rw [sameTree_link (exists_root _) fixedB fixedA gt.ne,
        merged_sameTree_iff (kept.mpr hx) (kept.mpr hy) (.root fixedB) (.root fixedA)]
      tauto
    · next notLt notGt =>
      have same : (u.find a).2 = ((u.find a).1.find b).2 := le_antisymm (not_lt.mp notGt) (not_lt.mp notLt)
      rw [sameTree_iff (kept.mpr hx) (kept.mpr hy), same]
      constructor
      · exact .inl
      · rintro (equal | ⟨left, right⟩ | ⟨left, right⟩)
        · exact equal
        · rw [left, right]
        · rw [left, right]

end Blocks

end LasecSimul.Mna
