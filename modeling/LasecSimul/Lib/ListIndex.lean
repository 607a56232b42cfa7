import Mathlib.Data.List.AList

/-!
# Maps from keys to non-empty lists

An index that lists values under keys and erases a key when its list becomes empty. `entries` reads
a missing key as the empty list; the other lemmas say what one insertion or removal changes.
-/

namespace LasecSimul.Lib.ListIndex

variable {κ α : Type*} [DecidableEq κ] [DecidableEq α]

abbrev Index (κ α : Type*) := AList fun _ : κ => List α

/-- The values under `key`. -/
def entries (m : Index κ α) (key : κ) : List α := (m.lookup key).getD []

/-- Every key in the index lists a value. -/
def Nonempty (m : Index κ α) : Prop := ∀ key values, m.lookup key = some values → values ≠ []

/-- Append a value to the list of `key`. -/
def add (m : Index κ α) (key : κ) (value : α) : Index κ α :=
  m.insert key (entries m key ++ [value])

/-- Remove a value from the list of `key`, and the key with its last value. -/
def drop (m : Index κ α) (key : κ) (value : α) : Index κ α :=
  match m.lookup key with
  | none => m
  | some values =>
    if values.filter (· ≠ value) = [] then m.erase key else m.insert key (values.filter (· ≠ value))

variable {m : Index κ α} {key other : κ} {value v : α} {values : List α}

omit [DecidableEq α] in
theorem entries_of_lookup (h : m.lookup key = some values) : entries m key = values := by
  simp [entries, h]

omit [DecidableEq α] in
theorem entries_add_self : entries (add m key value) key = entries m key ++ [value] := by
  simp [entries, add]

omit [DecidableEq α] in
theorem entries_add_ne (ne : other ≠ key) : entries (add m key value) other = entries m other := by
  simp [entries, add, AList.lookup_insert_ne ne]

theorem entries_drop_self : entries (drop m key value) key = (entries m key).filter (· ≠ value) := by
  unfold drop
  cases found : m.lookup key with
  | none => simp [entries, found]
  | some values =>
    rw [entries_of_lookup found]
    dsimp only
    split
    · next left => rw [left]; simp [entries]
    · simp [entries]

theorem entries_drop_ne (ne : other ≠ key) : entries (drop m key value) other = entries m other := by
  unfold drop
  split
  · rfl
  · split
    · simp [entries, AList.lookup_erase_ne ne]
    · simp [entries, AList.lookup_insert_ne ne]

omit [DecidableEq α] in
theorem mem_entries_add : v ∈ entries (add m key value) other ↔
    v ∈ entries m other ∨ (other = key ∧ v = value) := by
  by_cases same : other = key
  · subst same; simp [entries_add_self]
  · simp [entries_add_ne same, same]

theorem mem_entries_drop : v ∈ entries (drop m key value) other ↔
    v ∈ entries m other ∧ ¬(other = key ∧ v = value) := by
  by_cases same : other = key
  · subst same; simp [entries_drop_self]
  · simp [entries_drop_ne same, same]

omit [DecidableEq α] in
theorem Nonempty.add (h : Nonempty m) : Nonempty (add m key value) := by
  intro other values found
  by_cases same : other = key
  · subst same
    rw [ListIndex.add, AList.lookup_insert] at found
    rw [← Option.some.inj found]
    simp
  · exact h other values (by rwa [ListIndex.add, AList.lookup_insert_ne same] at found)

theorem Nonempty.drop (h : Nonempty m) : Nonempty (drop m key value) := by
  intro other values found
  unfold ListIndex.drop at found
  split at found
  · exact h other values found
  · split at found
    · by_cases same : other = key
      · subst same; simp at found
      · exact h other values (by rwa [AList.lookup_erase_ne same] at found)
    · next left =>
      by_cases same : other = key
      · subst same
        rw [AList.lookup_insert] at found
        exact Option.some.inj found ▸ left
      · exact h other values (by rwa [AList.lookup_insert_ne same] at found)

omit [DecidableEq α] in
/-- The stored lists are the entries of their keys. -/
theorem exists_mem_entries : (∃ values, ⟨key, values⟩ ∈ m.entries ∧ value ∈ values) ↔
    value ∈ entries m key := by
  constructor
  · rintro ⟨values, stored, member⟩
    rwa [entries_of_lookup (AList.mem_lookup_iff.mpr stored)]
  · intro member
    cases found : m.lookup key with
    | none => simp [entries, found] at member
    | some values =>
      rw [entries_of_lookup found] at member
      exact ⟨values, AList.mem_lookup_iff.mp found, member⟩

end LasecSimul.Lib.ListIndex
