import Mathlib.Data.List.Nodup

/-!
# Maps in insertion order

Keys keep the place of their first insertion and the value of their last one, as the maps of ECMAScript do.
-/

namespace LasecSimul.Lib

structure OrderedMap (κ α : Type*) where
  entries : List (κ × α)
  nodup : (entries.map Prod.fst).Nodup

namespace OrderedMap

variable {κ α : Type*} [DecidableEq κ] {m : OrderedMap κ α} {key key' : κ} {value value' : α}

def setEntry (key : κ) (value : α) : List (κ × α) → List (κ × α)
  | [] => [(key, value)]
  | entry :: rest => if entry.1 = key then (key, value) :: rest else entry :: setEntry key value rest

theorem setEntry_keys (entries : List (κ × α)) : (setEntry key value entries).map Prod.fst =
    if key ∈ entries.map Prod.fst then entries.map Prod.fst else entries.map Prod.fst ++ [key] := by
  induction entries with
  | nil => simp [setEntry]
  | cons entry rest ih =>
    unfold setEntry
    by_cases same : entry.1 = key
    · simp [same]
    · rw [if_neg same, List.map_cons, ih, List.map_cons]
      by_cases inside : key ∈ rest.map Prod.fst
      · rw [if_pos inside, if_pos (List.mem_cons_of_mem _ inside)]
      · have outside : key ∉ entry.1 :: rest.map Prod.fst := by
          rw [List.mem_cons]
          exact fun member => member.elim (fun eq => same eq.symm) inside
        rw [if_neg inside, if_neg outside, List.cons_append]

theorem setEntry_lookup (entries : List (κ × α)) : (setEntry key value entries).lookup key' =
    if key' = key then some value else entries.lookup key' := by
  induction entries with
  | nil =>
    by_cases same : key' = key
    · simp [setEntry, same]
    · simp [setEntry, same, List.lookup_cons, beq_eq_false_iff_ne.mpr same]
  | cons entry rest ih =>
    unfold setEntry
    by_cases first : entry.1 = key
    · rw [if_pos first, List.lookup_cons, List.lookup_cons, first]
      by_cases same : key' = key
      · simp [same]
      · simp [same, beq_eq_false_iff_ne.mpr same]
    · rw [if_neg first, List.lookup_cons, List.lookup_cons, ih]
      by_cases here : key' = entry.1
      · simp [here, first]
      · simp [beq_eq_false_iff_ne.mpr here]

/-! ### The map -/

def empty : OrderedMap κ α where
  entries := []
  nodup := List.nodup_nil

def set (m : OrderedMap κ α) (key : κ) (value : α) : OrderedMap κ α where
  entries := setEntry key value m.entries
  nodup := by
    rw [setEntry_keys]
    split
    · exact m.nodup
    · next outside => exact List.concat_eq_append ▸ m.nodup.concat outside

def get (m : OrderedMap κ α) (key : κ) : Option α := m.entries.lookup key

def keys (m : OrderedMap κ α) : List κ := m.entries.map Prod.fst

/-- `new Map(entries)`. -/
def ofList (entries : List (κ × α)) : OrderedMap κ α :=
  entries.foldl (fun m entry => m.set entry.1 entry.2) empty

def has (m : OrderedMap κ α) (key : κ) : Bool := decide (key ∈ m.keys)

@[simp] theorem has_iff : m.has key = true ↔ key ∈ m.keys := decide_eq_true_iff

@[simp] theorem get_empty : (empty : OrderedMap κ α).get key = none := rfl

theorem get_set : (m.set key value).get key' = if key' = key then some value else m.get key' :=
  setEntry_lookup m.entries

@[simp] theorem get_set_self : (m.set key value).get key = some value := by
  rw [get_set, if_pos rfl]

theorem get_set_of_ne (different : key' ≠ key) : (m.set key value).get key' = m.get key' := by
  rw [get_set, if_neg different]

theorem keys_set : (m.set key value).keys = if key ∈ m.keys then m.keys else m.keys ++ [key] :=
  setEntry_keys m.entries

@[simp] theorem mem_keys_set : key' ∈ (m.set key value).keys ↔ key' = key ∨ key' ∈ m.keys := by
  rw [keys_set]
  split
  · next inside =>
    constructor
    · exact .inr
    · rintro (rfl | member)
      · exact inside
      · exact member
  · rw [List.mem_append, List.mem_singleton, or_comm]

theorem mem_keys_iff : key ∈ m.keys ↔ ∃ value, m.get key = some value := by
  unfold keys get
  induction m.entries with
  | nil => simp
  | cons entry rest ih =>
    rw [List.map_cons, List.mem_cons, ih, List.lookup_cons]
    by_cases same : key = entry.1
    · simp [same]
    · simp [same, beq_eq_false_iff_ne.mpr same]

theorem get_eq_none_iff : m.get key = none ↔ key ∉ m.keys := by
  rw [mem_keys_iff, ← Option.isSome_iff_exists, Option.not_isSome_iff_eq_none]

theorem lookup_eq_some_of_nodup {entries : List (κ × α)} (nodup : (entries.map Prod.fst).Nodup) :
    entries.lookup key = some value ↔ (key, value) ∈ entries := by
  induction entries with
  | nil => simp
  | cons entry rest ih =>
    obtain ⟨first, value'⟩ := entry
    rw [List.map_cons, List.nodup_cons] at nodup
    rw [List.lookup_cons, List.mem_cons]
    by_cases same : key = first
    · subst same
      have outside : (key, value) ∉ rest := fun member => nodup.1 (List.mem_map.mpr ⟨_, member, rfl⟩)
      simp [outside, eq_comm]
    · rw [beq_eq_false_iff_ne.mpr same]
      simpa [same] using ih nodup.2

theorem mem_entries_iff : (key, value) ∈ m.entries ↔ m.get key = some value :=
  (lookup_eq_some_of_nodup m.nodup).symm

/-- What a map keeps of a list: the last value of each key. -/
theorem get_foldl_set (entries : List (κ × α)) :
    (entries.foldl (fun m entry => m.set entry.1 entry.2) m).get key =
      (entries.reverse.lookup key).or (m.get key) := by
  induction entries generalizing m with
  | nil => rfl
  | cons entry rest ih =>
    obtain ⟨first, value⟩ := entry
    rw [List.foldl_cons, ih, get_set, List.reverse_cons, List.lookup_append, List.lookup_cons, List.lookup_nil]
    by_cases same : key = first
    · rw [if_pos same, beq_iff_eq.mpr same, Option.or_assoc, Option.some_or]
    · rw [if_neg same, beq_eq_false_iff_ne.mpr same, Option.or_none]

theorem get_ofList (entries : List (κ × α)) : (ofList entries).get key = entries.reverse.lookup key := by
  unfold ofList
  rw [get_foldl_set, get_empty, Option.or_none]

theorem mem_of_get_ofList {entries : List (κ × α)} (found : (ofList entries).get key = some value) :
    (key, value) ∈ entries := by
  rw [get_ofList] at found
  obtain ⟨before, after, split, _⟩ := List.lookup_eq_some_iff.mp found
  exact List.mem_reverse.mp (split ▸ by simp)

theorem mem_keys_ofList {entries : List (κ × α)} : key ∈ (ofList entries).keys ↔ key ∈ entries.map Prod.fst := by
  rw [mem_keys_iff, get_ofList]
  constructor
  · rintro ⟨value, found⟩
    exact List.mem_map.mpr ⟨_, mem_of_get_ofList ((get_ofList entries).trans found), rfl⟩
  · intro member
    obtain ⟨entry, listed, rfl⟩ := List.mem_map.mp member
    cases found : entries.reverse.lookup entry.1 with
    | some value => exact ⟨value, rfl⟩
    | none =>
      have apart := List.lookup_eq_none_iff.mp found entry (List.mem_reverse.mpr listed)
      exact absurd rfl (bne_iff_ne.mp apart)

end OrderedMap

end LasecSimul.Lib
