import Mathlib.Data.Finset.Insert
import Mathlib.Data.Finset.Dedup
import Mathlib.Data.List.Nodup

/-!
# Sparse sets (`SparseSet.hpp`)

`dense` lists the members and `sparse` gives each its position there. The two agree in every value of the
type. Indices are unbounded, and `none` is `kInvalid`.
-/

namespace LasecSimul.Scheduling

/-- The position the sparse array gives an index. -/
def positionIn (sparse : List (Option Nat)) (index : Nat) : Option Nat := sparse[index]?.join

theorem positionIn_set_self {sparse : List (Option Nat)} {index : Nat} (inside : index < sparse.length)
    (position : Option Nat) : positionIn (sparse.set index position) index = position := by
  rw [positionIn, List.getElem?_set_self inside, Option.join_some]

theorem positionIn_set_ne {sparse : List (Option Nat)} {index other : Nat} (differs : index ≠ other)
    (position : Option Nat) : positionIn (sparse.set index position) other = positionIn sparse other := by
  rw [positionIn, positionIn, List.getElem?_set_ne differs]

theorem positionIn_set_none (sparse : List (Option Nat)) (index other : Nat) :
    positionIn (sparse.set index none) other = if index = other then none else positionIn sparse other := by
  split
  · rename_i same
    subst same
    rw [positionIn, List.getElem?_set]
    split
    · split <;> rfl
    · contradiction
  · rename_i differs
    exact positionIn_set_ne differs none

theorem positionIn_lt {sparse : List (Option Nat)} {index position : Nat}
    (h : positionIn sparse index = some position) : index < sparse.length := by
  rw [positionIn, Option.join_eq_some_iff] at h
  exact (List.getElem?_eq_some_iff.mp h).1

theorem positionIn_replicate (sparse : List (Option Nat)) (n index : Nat) :
    positionIn (sparse ++ List.replicate n none) index = positionIn sparse index := by
  rw [positionIn, positionIn, List.getElem?_append]
  split
  · rfl
  · rename_i outside
    rw [List.getElem?_eq_none (Nat.not_lt.mp outside), List.getElem?_replicate]
    split <;> rfl

structure SparseSet where
  sparse : List (Option Nat)
  dense : List Nat
  sound : ∀ index position, positionIn sparse index = some position ↔ dense[position]? = some index

namespace SparseSet

def create (capacity : Nat) : SparseSet where
  sparse := List.replicate capacity none
  dense := []
  sound index position := by
    have unset := positionIn_replicate [] capacity index
    rw [List.nil_append] at unset
    rw [unset]
    exact ⟨nofun, nofun⟩

def capacity (set : SparseSet) : Nat := set.sparse.length

def grow (set : SparseSet) (newCapacity : Nat) : SparseSet where
  sparse := set.sparse ++ List.replicate (newCapacity - set.sparse.length) none
  dense := set.dense
  sound index position := by rw [positionIn_replicate]; exact set.sound index position

def contains (set : SparseSet) (index : Nat) : Bool := (positionIn set.sparse index).isSome

theorem contains_iff (set : SparseSet) (index : Nat) : set.contains index = true ↔ index ∈ set.dense := by
  rw [contains, Option.isSome_iff_exists, List.mem_iff_getElem?]
  exact exists_congr (set.sound index)

theorem nodup (set : SparseSet) : set.dense.Nodup := by
  rw [List.nodup_iff_getElem?_ne_getElem?]
  intro i j lt inside same
  have first : set.dense[i]? = some (set.dense[j]) := by
    rw [same, List.getElem?_eq_getElem inside]
  have one := (set.sound _ i).mpr first
  have two := (set.sound _ j).mpr (List.getElem?_eq_getElem inside)
  rw [one] at two
  have := Option.some.inj two
  omega

/-- `insert` of an index that is not in the set, within the capacity. -/
def append (set : SparseSet) (index : Nat) (inside : index < set.sparse.length)
    (absent : positionIn set.sparse index = none) : SparseSet where
  sparse := set.sparse.set index (some set.dense.length)
  dense := set.dense ++ [index]
  sound other position := by
    by_cases same : index = other
    · subst same
      rw [positionIn_set_self inside]
      constructor
      · rintro ⟨⟩
        exact List.getElem?_concat_length
      · intro found
        rcases Nat.lt_trichotomy position set.dense.length with lt | eq | gt
        · rw [List.getElem?_append_left lt] at found
          rw [(set.sound index position).mpr found] at absent
          cases absent
        · rw [eq]
        · rw [List.getElem?_eq_none (by rw [List.length_append, List.length_singleton]; exact gt)] at found
          cases found
    · rw [positionIn_set_ne same, set.sound other position]
      rcases Nat.lt_or_ge position set.dense.length with lt | ge
      · rw [List.getElem?_append_left lt]
      · rw [List.getElem?_eq_none ge, List.getElem?_append_right ge, List.getElem?_singleton]
        constructor
        · exact nofun
        · intro found
          split at found
          · exact absurd (Option.some.inj found) same
          · cases found

def grownFor (set : SparseSet) (index : Nat) : SparseSet :=
  if set.sparse.length ≤ index then set.grow (index + 1) else set

theorem grownFor_inside (set : SparseSet) (index : Nat) : index < (set.grownFor index).sparse.length := by
  unfold grownFor
  split
  · show index < (set.sparse ++ List.replicate _ none).length
    rw [List.length_append, List.length_replicate]
    omega
  · omega

theorem grownFor_dense (set : SparseSet) (index : Nat) : (set.grownFor index).dense = set.dense := by
  unfold grownFor
  split <;> rfl

def insert (set : SparseSet) (index : Nat) : Bool × SparseSet :=
  if absent : positionIn (set.grownFor index).sparse index = none then
    (true, (set.grownFor index).append index (set.grownFor_inside index) absent)
  else (false, set.grownFor index)

theorem insert_spec (set : SparseSet) (index : Nat) :
    ((set.insert index).1 = true ↔ index ∉ set.dense) ∧
      ∀ other, other ∈ (set.insert index).2.dense ↔ other = index ∨ other ∈ set.dense := by
  have dense := set.grownFor_dense index
  unfold insert
  split
  · rename_i absent
    constructor
    · rw [← dense, ← contains_iff, contains, absent]
      simp
    · intro other
      show other ∈ _ ++ [index] ↔ _
      rw [dense, List.mem_append, List.mem_singleton, or_comm]
  · rename_i present
    obtain ⟨position, found⟩ := Option.ne_none_iff_exists'.mp present
    have member := List.mem_of_getElem? ((SparseSet.sound _ _ _).mp found)
    rw [dense] at member
    refine ⟨by simp [member], fun other => ?_⟩
    rw [dense]
    exact ⟨Or.inr, fun either => either.elim (fun same => same ▸ member) id⟩

/-- `remove` of the index at `position`: the last member takes its place. -/
def swapRemove (set : SparseSet) (index position last : Nat) (here : set.dense[position]? = some index)
    (isLast : set.dense.getLast? = some last) : SparseSet where
  sparse := (set.sparse.set last (some position)).set index none
  dense := (set.dense.set position last).dropLast
  sound other place := by
    have lastAt : set.dense[set.dense.length - 1]? = some last := List.getLast?_eq_getElem? ▸ isLast
    have unique {a b member : Nat} (first : set.dense[a]? = some member) (second : set.dense[b]? = some member) :
        a = b := Option.some.inj (((set.sound member a).mpr first).symm.trans ((set.sound member b).mpr second))
    have bound := (List.getElem?_eq_some_iff.mp here).1
    rw [positionIn_set_none, List.getElem?_dropLast, List.length_set, List.getElem?_set, if_pos bound]
    by_cases isIndex : index = other
    · subst isIndex
      rw [if_pos rfl]
      refine ⟨nofun, fun found => ?_⟩
      split at found
      · rename_i inner
        split at found
        · rename_i same
          obtain rfl := Option.some.inj found
          have := unique here lastAt
          omega
        · rename_i differs
          exact absurd (unique here found) differs
      · cases found
    · rw [if_neg isIndex]
      by_cases isLastMember : last = other
      · subst isLastMember
        rw [positionIn_set_self (positionIn_lt ((set.sound last _).mpr lastAt))]
        have moved : position ≠ set.dense.length - 1 := by
          intro same
          rw [← same, here] at lastAt
          exact isIndex (Option.some.inj lastAt)
        constructor
        · rintro ⟨⟩
          rw [if_pos (by omega), if_pos rfl]
        · intro found
          split at found
          · rename_i inner
            split at found
            · rename_i same
              rw [same]
            · have := unique found lastAt
              omega
          · cases found
      · rw [positionIn_set_ne isLastMember, set.sound other place]
        constructor
        · intro found
          have differs : position ≠ place := by
            rintro rfl
            exact isIndex (Option.some.inj (here.symm.trans found))
          have inside := (List.getElem?_eq_some_iff.mp found).1
          have notEnd : place ≠ set.dense.length - 1 := by
            rintro rfl
            exact isLastMember (Option.some.inj (lastAt.symm.trans found))
          rw [if_pos (by omega), if_neg differs]
          exact found
        · intro found
          split at found
          · split at found
            · exact absurd (Option.some.inj found) isLastMember
            · exact found
          · cases found

def remove (set : SparseSet) (index : Nat) : Bool × SparseSet :=
  match here : positionIn set.sparse index, isLast : set.dense.getLast? with
  | some position, some last => (true, set.swapRemove index position last ((set.sound index position).mp here) isLast)
  | _, _ => (false, set)

theorem mem_swapRemove {set : SparseSet} {index position last : Nat} (here : set.dense[position]? = some index)
    (isLast : set.dense.getLast? = some last) (other : Nat) :
    other ∈ (set.swapRemove index position last here isLast).dense ↔ other ∈ set.dense ∧ other ≠ index := by
  have gone : positionIn (set.swapRemove index position last here isLast).sparse other =
      if index = other then none else positionIn (set.sparse.set last (some position)) other :=
    positionIn_set_none _ _ _
  rw [← contains_iff, ← contains_iff, contains, contains, gone]
  split
  · rename_i same
    simp [same]
  · rename_i differs
    rw [and_iff_left (Ne.symm differs)]
    by_cases isLastMember : last = other
    · subst isLastMember
      have lastAt : set.dense[set.dense.length - 1]? = some last := List.getLast?_eq_getElem? ▸ isLast
      have lastPlace := (set.sound last _).mpr lastAt
      rw [positionIn_set_self (positionIn_lt lastPlace), lastPlace]
      simp
    · rw [positionIn_set_ne isLastMember]

theorem mem_remove (set : SparseSet) (index other : Nat) :
    other ∈ (set.remove index).2.dense ↔ other ∈ set.dense ∧ other ≠ index := by
  unfold remove
  split
  · exact mem_swapRemove ((set.sound index _).mp ‹_›) ‹_› other
  · rename_i none
    show other ∈ set.dense ↔ _
    refine ⟨fun member => ⟨member, ?_⟩, And.left⟩
    rintro rfl
    obtain ⟨position, here⟩ := List.mem_iff_getElem?.mp member
    obtain ⟨last, isLast⟩ := Option.ne_none_iff_exists'.mp
      (mt List.getLast?_eq_none_iff.mp (List.ne_nil_of_mem member))
    exact none position last ((set.sound other position).mpr here) isLast

theorem foldl_unset (members : List Nat) (sparse : List (Option Nat)) (index : Nat) :
    positionIn (members.foldl (fun sparse member => sparse.set member none) sparse) index =
      if index ∈ members then none else positionIn sparse index := by
  induction members generalizing sparse with
  | nil => rfl
  | cons member members ih =>
    rw [List.foldl_cons, ih, positionIn_set_none]
    by_cases first : member = index
    · simp [first]
    · simp [first, Ne.symm first]

def clear (set : SparseSet) : SparseSet where
  sparse := set.dense.foldl (fun sparse member => sparse.set member none) set.sparse
  dense := []
  sound index position := by
    rw [foldl_unset]
    refine ⟨fun found => ?_, nofun⟩
    split at found
    · cases found
    · rename_i absent
      exact absurd (List.mem_of_getElem? ((set.sound index position).mp found)) absent

def empty (set : SparseSet) : Bool := set.dense.isEmpty

def size (set : SparseSet) : Nat := set.dense.length

/-- The members as a finite set. -/
def toFinset (set : SparseSet) : Finset Nat := set.dense.toFinset

theorem toFinset_insert (set : SparseSet) (index : Nat) :
    (set.insert index).2.toFinset = Insert.insert index set.toFinset := by
  ext other
  rw [toFinset, List.mem_toFinset, (set.insert_spec index).2, Finset.mem_insert, toFinset, List.mem_toFinset]

end SparseSet

end LasecSimul.Scheduling
