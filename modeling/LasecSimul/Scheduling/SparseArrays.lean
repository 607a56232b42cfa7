import LasecSimul.Scheduling.SparseSet
import Mathlib

/-!
# The arrays of a sparse set (`SparseSet.hpp`)

`SparseSet<IndexT>` for an index type of `bits` bits, narrower than `size_t`. A position is stored in the index type,
so the last one reads as `kInvalid`. As long as it is not used, the arrays are those of the unbounded set.
-/

namespace LasecSimul.Scheduling

structure SparseArrays (bits : Nat) where
  sparse : List (BitVec bits)
  dense : List (BitVec bits)

def kInvalid (bits : Nat) : BitVec bits := BitVec.allOnes bits

inductive SparseArrays.Operation (bits : Nat) where
  | insert (index : BitVec bits)
  | remove (index : BitVec bits)
  | clear
  | grow (newCapacity : Nat)

namespace SparseArrays

variable {bits : Nat}

def create (bits capacity : Nat) : SparseArrays bits where
  sparse := List.replicate capacity (kInvalid bits)
  dense := []

def grow (set : SparseArrays bits) (newCapacity : Nat) : SparseArrays bits :=
  if set.sparse.length < newCapacity then
    { set with sparse := set.sparse ++ List.replicate (newCapacity - set.sparse.length) (kInvalid bits) }
  else set

def contains (set : SparseArrays bits) (index : BitVec bits) : Bool :=
  set.sparse[index.toNat]?.any (· ≠ kInvalid bits)

def insert (set : SparseArrays bits) (index : BitVec bits) : Bool × SparseArrays bits :=
  let set := if set.sparse.length ≤ index.toNat then set.grow (index.toNat + 1) else set
  if set.contains index then (false, set)
  else
    (true,
      { sparse := set.sparse.set index.toNat (BitVec.ofNat bits set.dense.length)
        dense := set.dense ++ [index] })

/-- Reading the last element of an empty `dense` is undefined; here it changes nothing. -/
def remove (set : SparseArrays bits) (index : BitVec bits) : Bool × SparseArrays bits :=
  if set.contains index then
    match set.sparse[index.toNat]?, set.dense.getLast? with
    | some pos, some last =>
      (true,
        { sparse := (set.sparse.set last.toNat pos).set index.toNat (kInvalid bits)
          dense := (set.dense.set pos.toNat last).dropLast })
    | _, _ => (false, set)
  else (false, set)

def clear (set : SparseArrays bits) : SparseArrays bits where
  sparse := set.dense.foldl (fun sparse index => sparse.set index.toNat (kInvalid bits)) set.sparse
  dense := []

def size (set : SparseArrays bits) : Nat := set.dense.length

def apply (set : SparseArrays bits) : Operation bits → SparseArrays bits
  | .insert index => (set.insert index).2
  | .remove index => (set.remove index).2
  | .clear => set.clear
  | .grow newCapacity => set.grow newCapacity

def run (set : SparseArrays bits) (operations : List (Operation bits)) : SparseArrays bits :=
  operations.foldl apply set

/-- What an operation makes of a finite set. -/
def Operation.onMembers (members : Finset (BitVec bits)) : Operation bits → Finset (BitVec bits)
  | .insert index => Insert.insert index members
  | .remove index => members.erase index
  | .clear => ∅
  | .grow _ => members

def members (operations : List (Operation bits)) : Finset (BitVec bits) :=
  operations.foldl Operation.onMembers ∅

/-- The arrays stand for a finite set. -/
structure Represents (set : SparseArrays bits) (members : Finset (BitVec bits)) : Prop where
  inverse : ∀ index position, set.sparse[index.toNat]? = some position ∧ position ≠ kInvalid bits ↔
    set.dense[position.toNat]? = some index
  nodup : set.dense.Nodup
  contains : ∀ index, set.contains index = true ↔ index ∈ members
  size : set.size = members.card
  iteration : set.dense.toFinset = members

/-! ### The unbounded set -/

/-- The position an entry of `sparse` stands for. -/
def decode (entry : BitVec bits) : Option Nat := if entry = kInvalid bits then none else some entry.toNat

@[simp]
theorem decode_kInvalid : decode (kInvalid bits) = none := if_pos rfl

theorem decode_eq_some {entry : BitVec bits} {position : Nat} :
    decode entry = some position ↔ entry ≠ kInvalid bits ∧ entry.toNat = position := by
  unfold decode
  split <;> simp_all

theorem decode_position {position : Nat} (room : position + 1 < 2 ^ bits) :
    decode (BitVec.ofNat bits position) = some position := by
  have value : (BitVec.ofNat bits position).toNat = position := by
    rw [BitVec.toNat_ofNat, Nat.mod_eq_of_lt (by omega)]
  rw [decode_eq_some]
  refine ⟨fun same => ?_, value⟩
  rw [same, kInvalid, BitVec.toNat_allOnes] at value
  omega

structure Simulates (set : SparseArrays bits) (ideal : SparseSet) : Prop where
  sparse : ideal.sparse = set.sparse.map decode
  dense : ideal.dense = set.dense.map BitVec.toNat

variable {set : SparseArrays bits} {ideal : SparseSet}

theorem Simulates.create (capacity : Nat) : Simulates (create bits capacity) (SparseSet.create capacity) := by
  constructor
  · simp [SparseArrays.create, SparseSet.create]
  · rfl

theorem Simulates.position (h : Simulates set ideal) (index : BitVec bits) :
    positionIn ideal.sparse index.toNat = set.sparse[index.toNat]?.bind decode := by
  rw [positionIn, h.sparse, List.getElem?_map]
  cases set.sparse[index.toNat]? <;> rfl

theorem Simulates.contains (h : Simulates set ideal) (index : BitVec bits) :
    set.contains index = ideal.contains index.toNat := by
  rw [SparseArrays.contains, SparseSet.contains, h.position]
  cases set.sparse[index.toNat]? with
  | none => rfl
  | some entry =>
    show decide (entry ≠ kInvalid bits) = (decode entry).isSome
    unfold decode
    split <;> simp_all

theorem Simulates.mem (h : Simulates set ideal) (index : BitVec bits) :
    index.toNat ∈ ideal.dense ↔ index ∈ set.dense := by
  rw [h.dense, List.mem_map]
  constructor
  · rintro ⟨other, member, same⟩
    exact BitVec.eq_of_toNat_eq same ▸ member
  · exact fun member => ⟨index, member, rfl⟩

theorem Simulates.grow (h : Simulates set ideal) (newCapacity : Nat) :
    Simulates (set.grow newCapacity) (ideal.grow newCapacity) := by
  have length : ideal.sparse.length = set.sparse.length := by rw [h.sparse, List.length_map]
  unfold SparseArrays.grow
  split
  · constructor
    · show ideal.sparse ++ _ = _
      rw [length, List.map_append, List.map_replicate, decode_kInvalid, h.sparse]
    · exact h.dense
  · constructor
    · show ideal.sparse ++ _ = _
      rw [length, Nat.sub_eq_zero_of_le (by omega), List.replicate_zero, List.append_nil, h.sparse]
    · exact h.dense

theorem Simulates.grownFor (h : Simulates set ideal) (index : BitVec bits) :
    Simulates (if set.sparse.length ≤ index.toNat then set.grow (index.toNat + 1) else set)
      (ideal.grownFor index.toNat) := by
  have length : ideal.sparse.length = set.sparse.length := by rw [h.sparse, List.length_map]
  unfold SparseSet.grownFor
  rw [length]
  split
  · exact h.grow _
  · exact h

theorem Simulates.insert (h : Simulates set ideal) (index : BitVec bits)
    (room : index ∈ set.dense ∨ set.dense.length + 1 < 2 ^ bits) :
    Simulates (set.insert index).2 (ideal.insert index.toNat).2 := by
  have grown := h.grownFor index
  have dense := ideal.grownFor_dense index.toNat
  unfold SparseArrays.insert SparseSet.insert
  generalize (if set.sparse.length ≤ index.toNat then set.grow (index.toNat + 1) else set) = larger at grown ⊢
  have present := grown.contains index
  by_cases absent : positionIn (ideal.grownFor index.toNat).sparse index.toNat = none
  · have outside : larger.contains index = false := by rw [present, SparseSet.contains, absent]; rfl
    have fits : larger.dense.length + 1 < 2 ^ bits := by
      have same : larger.dense.length = set.dense.length := by
        rw [← List.length_map BitVec.toNat, ← grown.dense, dense, h.dense, List.length_map]
      rcases room with member | room
      · have inside := (SparseSet.contains_iff _ _).mpr (dense ▸ (h.mem index).mpr member)
        rw [← present, outside] at inside
        cases inside
      · rw [same]
        exact room
    simp only [outside, Bool.false_eq_true, if_false, dif_pos absent]
    constructor
    · show List.set _ _ (some _) = List.map decode (List.set _ _ _)
      rw [List.map_set, decode_position fits, grown.sparse, grown.dense, List.length_map]
    · show _ ++ [index.toNat] = List.map _ (_ ++ [index])
      rw [List.map_append, grown.dense, List.map_singleton]
  · have inside : larger.contains index = true := by
      rw [present, SparseSet.contains, Option.isSome_iff_ne_none]
      exact absent
    simp only [inside, if_true, dif_neg absent]
    exact grown

theorem Simulates.remove (h : Simulates set ideal) (index : BitVec bits) :
    Simulates (set.remove index).2 (ideal.remove index.toNat).2 := by
  have last : ideal.dense.getLast? = set.dense.getLast?.map BitVec.toNat := by rw [h.dense, List.getLast?_map]
  have place := h.position index
  have present := h.contains index
  unfold SparseSet.remove
  split
  · rename_i position lastMember here isLast
    have inside : set.contains index = true := by rw [present, SparseSet.contains, here]; rfl
    rw [here] at place
    rw [isLast] at last
    obtain ⟨pos, stored, decoded⟩ := Option.bind_eq_some_iff.mp place.symm
    obtain ⟨final, isFinal, same⟩ := Option.map_eq_some_iff.mp last.symm
    obtain ⟨-, value⟩ := decode_eq_some.mp decoded
    rw [SparseArrays.remove, if_pos inside, stored, isFinal]
    constructor
    · show (ideal.sparse.set lastMember (some position)).set index.toNat none = _
      rw [List.map_set, List.map_set, decode_kInvalid, decoded, same, h.sparse]
    · show (ideal.dense.set position lastMember).dropLast = _
      rw [List.map_dropLast, List.map_set, value, same, h.dense]
  · rename_i missing
    unfold SparseArrays.remove
    split
    · rename_i inside
      rw [present, SparseSet.contains_iff] at inside
      obtain ⟨position, here⟩ := List.mem_iff_getElem?.mp inside
      obtain ⟨lastMember, isLast⟩ := Option.ne_none_iff_exists'.mp
        (mt List.getLast?_eq_none_iff.mp (List.ne_nil_of_mem inside))
      exact absurd isLast (missing position lastMember ((ideal.sound _ _).mpr here))
    · exact h

theorem Simulates.clear (h : Simulates set ideal) : Simulates set.clear ideal.clear := by
  constructor
  · show List.foldl _ ideal.sparse ideal.dense = (List.foldl _ set.sparse set.dense).map decode
    rw [h.dense, h.sparse]
    generalize set.sparse = sparse
    induction set.dense generalizing sparse with
    | nil => rfl
    | cons index rest ih =>
      have first : (sparse.map decode).set index.toNat none =
          (sparse.set index.toNat (kInvalid bits)).map decode := by rw [List.map_set, decode_kInvalid]
      rw [List.map_cons, List.foldl_cons, List.foldl_cons, first]
      exact ih _
  · rfl

theorem Simulates.nodup (h : Simulates set ideal) : set.dense.Nodup :=
  List.Nodup.of_map _ (h.dense ▸ ideal.nodup)

theorem Simulates.represents (h : Simulates set ideal) : Represents set set.dense.toFinset where
  inverse index position := by
    have sound := ideal.sound index.toNat position.toNat
    rw [h.position, h.dense, List.getElem?_map, Option.bind_eq_some_iff, Option.map_eq_some_iff] at sound
    constructor
    · rintro ⟨stored, valid⟩
      obtain ⟨other, found, same⟩ := sound.mp ⟨position, stored, decode_eq_some.mpr ⟨valid, rfl⟩⟩
      rw [found, BitVec.eq_of_toNat_eq same]
    · intro found
      obtain ⟨entry, stored, decoded⟩ := sound.mpr ⟨index, found, rfl⟩
      obtain ⟨valid, same⟩ := decode_eq_some.mp decoded
      rw [BitVec.eq_of_toNat_eq same] at stored valid
      exact ⟨stored, valid⟩
  nodup := h.nodup
  contains index := by rw [h.contains, SparseSet.contains_iff, h.mem, List.mem_toFinset]
  size := (List.toFinset_card_of_nodup h.nodup).symm
  iteration := rfl

theorem Simulates.apply (h : Simulates set ideal) (operation : Operation bits)
    (room : (operation.onMembers set.dense.toFinset).card < 2 ^ bits) :
    (∃ next, Simulates (set.apply operation) next) ∧
      (set.apply operation).dense.toFinset = operation.onMembers set.dense.toFinset := by
  cases operation with
  | insert index =>
    have fits : index ∈ set.dense ∨ set.dense.length + 1 < 2 ^ bits := by
      by_cases member : index ∈ set.dense
      · exact Or.inl member
      · rw [Operation.onMembers, Finset.card_insert_of_notMem (by simpa using member),
          List.toFinset_card_of_nodup h.nodup] at room
        exact Or.inr room
    have next := h.insert index fits
    refine ⟨⟨_, next⟩, ?_⟩
    ext other
    rw [List.mem_toFinset, SparseArrays.apply, ← next.mem, (ideal.insert_spec _).2, h.mem, Operation.onMembers,
      Finset.mem_insert, List.mem_toFinset]
    exact or_congr_left ⟨BitVec.eq_of_toNat_eq, congrArg _⟩
  | remove index =>
    have next := h.remove index
    refine ⟨⟨_, next⟩, ?_⟩
    ext other
    rw [List.mem_toFinset, SparseArrays.apply, ← next.mem, ideal.mem_remove, h.mem, Operation.onMembers,
      Finset.mem_erase, List.mem_toFinset, and_comm]
    exact and_congr_left fun _ => not_congr ⟨BitVec.eq_of_toNat_eq, congrArg _⟩
  | clear => exact ⟨⟨_, h.clear⟩, rfl⟩
  | grow newCapacity =>
    refine ⟨⟨_, h.grow newCapacity⟩, ?_⟩
    show (set.grow newCapacity).dense.toFinset = _
    unfold SparseArrays.grow
    split <;> rfl

theorem simulates_run (capacity : Nat) (operations : List (Operation bits))
    (room : ∀ before, before <+: operations → (members before).card < 2 ^ bits) :
    (∃ ideal, Simulates (run (create bits capacity) operations) ideal) ∧
      (run (create bits capacity) operations).dense.toFinset = members operations := by
  induction operations using List.reverseRecOn with
  | nil => exact ⟨⟨_, .create capacity⟩, rfl⟩
  | append_singleton operations operation ih =>
    obtain ⟨⟨ideal, before⟩, same⟩ := ih fun prior first => room prior (first.trans (List.prefix_append _ _))
    have last := room _ (List.prefix_refl _)
    have step := before.apply operation
    rw [members, List.foldl_concat, ← members, ← same] at last
    rw [run, members, List.foldl_concat, List.foldl_concat, ← run, ← members, ← same]
    exact step last

theorem Represents.not_full {members : Finset (BitVec bits)} (h : Represents set members) :
    members.card < 2 ^ bits := by
  by_contra full
  have positive := Nat.two_pow_pos bits
  have inside : (kInvalid bits).toNat < set.dense.length := by
    have size := h.size
    rw [SparseArrays.size] at size
    rw [kInvalid, BitVec.toNat_allOnes]
    omega
  exact ((h.inverse _ _).mpr (List.getElem?_eq_getElem inside)).2 rfl

/-- The arrays stand for the set that the operations make until it holds every index of the type. -/
theorem represents_iff (capacity : Nat) (operations : List (Operation bits)) :
    (∀ before, before <+: operations → Represents (run (create bits capacity) before) (members before)) ↔
      ∀ before, before <+: operations → (members before).card < 2 ^ bits := by
  refine ⟨fun represents before first => (represents before first).not_full, fun room before first => ?_⟩
  obtain ⟨⟨ideal, simulates⟩, same⟩ :=
    simulates_run capacity before fun prior earlier => room prior (earlier.trans first)
  exact same ▸ simulates.represents

/-- Every index in turn. -/
def fill (bits : Nat) : List (Operation bits) :=
  (List.range (2 ^ bits)).map fun index => .insert (BitVec.ofNat bits index)

theorem members_inserts (indices : List (BitVec bits)) :
    members (indices.map .insert) = indices.toFinset := by
  induction indices using List.reverseRecOn with
  | nil => rfl
  | append_singleton indices index ih =>
    rw [List.map_append, List.map_singleton, members, List.foldl_concat, ← members, ih]
    ext other
    simp [Operation.onMembers]

theorem members_fill (bits : Nat) : (members (fill bits)).card = 2 ^ bits := by
  have unfolded : fill bits = ((List.range (2 ^ bits)).map (BitVec.ofNat bits)).map .insert := by
    rw [List.map_map]
    rfl
  have distinct : ((List.range (2 ^ bits)).map (BitVec.ofNat bits)).Nodup := by
    refine List.nodup_range.map_on fun one first two second same => ?_
    rw [List.mem_range] at first second
    have values := congrArg BitVec.toNat same
    rwa [BitVec.toNat_ofNat, BitVec.toNat_ofNat, Nat.mod_eq_of_lt first, Nat.mod_eq_of_lt second] at values
  rw [unfolded, members_inserts, List.toFinset_card_of_nodup distinct, List.length_map, List.length_range]

theorem fill_not_represented : ¬Represents (run (create 32 0) (fill 32)) (members (fill 32)) := fun represents =>
  absurd represents.not_full (by rw [members_fill]; exact Nat.lt_irrefl _)

end SparseArrays

end LasecSimul.Scheduling
