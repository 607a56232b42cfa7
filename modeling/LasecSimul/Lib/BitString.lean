import Mathlib.Data.Nat.Bitwise
import Mathlib.Data.List.Flatten
import Mathlib.Algebra.Order.Ring.Nat

/-!
# Bit strings in bytes

A byte string as its bits, the most significant first; a cursor that writes bits into zeroed bytes and one that reads
them back.
-/

namespace LasecSimul.Lib.BitString

def byteBits (byte : UInt8) : List Bool := (List.range 8).map fun index => byte.toNat.testBit (7 - index)

def bits (bytes : List UInt8) : List Bool := bytes.flatMap byteBits

variable {byte : UInt8} {bytes : List UInt8} {index position : Nat}

theorem length_byteBits (byte : UInt8) : (byteBits byte).length = 8 := by simp [byteBits]

@[simp] theorem bits_cons (byte : UInt8) (bytes : List UInt8) : bits (byte :: bytes) = byteBits byte ++ bits bytes :=
  List.flatMap_cons

@[simp] theorem length_bits (bytes : List UInt8) : (bits bytes).length = 8 * bytes.length := by
  induction bytes with
  | nil => rfl
  | cons byte bytes ih =>
    rw [bits_cons, List.length_append, length_byteBits, ih, List.length_cons]
    omega

theorem getElem_byteBits (here : index < (byteBits byte).length) :
    (byteBits byte)[index] = byte.toNat.testBit (7 - index) := by
  simp [byteBits]

theorem testBit_byte (byte : UInt8) (large : 8 ≤ index) : byte.toNat.testBit index = false :=
  Nat.testBit_lt_two_pow (Nat.lt_of_lt_of_le byte.toNat_lt (Nat.pow_le_pow_right (by decide) large))

theorem byteBits_injective {left right : UInt8} (same : byteBits left = byteBits right) : left = right := by
  refine UInt8.toNat_inj.mp (Nat.eq_of_testBit_eq fun index => ?_)
  by_cases small : index < 8
  · have there : 7 - index < 8 := by omega
    have bit := congrArg (fun list => list[7 - index]?) same
    simp only [byteBits, List.getElem?_map, List.getElem?_range there, Option.map_some, Option.some.injEq] at bit
    rwa [show 7 - (7 - index) = index by omega] at bit
  · rw [testBit_byte left (by omega), testBit_byte right (by omega)]

theorem bits_injective {left right : List UInt8} (same : bits left = bits right) : left = right := by
  induction left generalizing right with
  | nil =>
    have empty := congrArg List.length same
    rw [length_bits, length_bits, List.length_nil] at empty
    exact (List.eq_nil_of_length_eq_zero (by omega)).symm
  | cons first left ih =>
    cases right with
    | nil => cases congrArg List.length same
    | cons second right =>
      rw [bits_cons, bits_cons] at same
      obtain ⟨head, tail⟩ := List.append_inj same (by rw [length_byteBits, length_byteBits])
      rw [byteBits_injective head, ih tail]

theorem bits_replicate (count : Nat) : bits (List.replicate count 0) = List.replicate (8 * count) false := by
  induction count with
  | zero => rfl
  | succ count ih =>
    rw [List.replicate_succ, bits_cons, ih, Nat.mul_succ, Nat.add_comm, ← List.replicate_append_replicate]
    rfl

/-- `bytes[position / 8] |= 1 << (7 - position % 8)`. -/
def setBit (bytes : List UInt8) (position : Nat) : List UInt8 :=
  bytes.modify (position / 8) fun byte => byte ||| 1 <<< UInt8.ofNat (7 - position % 8)

theorem byteBits_set (byte : UInt8) (small : index < 8) :
    byteBits (byte ||| 1 <<< UInt8.ofNat (7 - index)) = (byteBits byte).set index true := by
  refine List.ext_getElem (by simp [byteBits]) fun other here there => ?_
  have bound : other < 8 := by rwa [length_byteBits] at here
  rw [getElem_byteBits here, List.getElem_set, UInt8.toNat_or, Nat.testBit_or, UInt8.toNat_shiftLeft, UInt8.toNat_ofNat',
    Nat.testBit_mod_two_pow]
  rw [Nat.mod_eq_of_lt (b := 2 ^ 8) (by omega), Nat.mod_eq_of_lt (b := 8) (by omega), UInt8.toNat_one, Nat.one_shiftLeft,
    Nat.testBit_two_pow, getElem_byteBits (length_byteBits byte ▸ bound)]
  by_cases same : index = other
  · subst same
    simp
    omega
  · have apart : ¬ 7 - index = 7 - other := by omega
    simp [same, apart]

theorem bits_setBit (inside : position < 8 * bytes.length) : bits (setBit bytes position) = (bits bytes).set position true := by
  induction bytes generalizing position with
  | nil => exact absurd inside (Nat.not_lt_zero _)
  | cons byte bytes ih =>
    unfold setBit
    by_cases here : position < 8
    · rw [Nat.div_eq_of_lt here, Nat.mod_eq_of_lt here, List.modify_zero_cons, bits_cons, bits_cons, byteBits_set byte here,
        List.set_append_left _ _ (by rwa [length_byteBits])]
    · obtain ⟨later, rfl⟩ : ∃ later, position = later + 8 := ⟨position - 8, by omega⟩
      rw [Nat.add_div_right _ (by decide), Nat.add_mod_right, List.modify_succ_cons, bits_cons, bits_cons]
      have rest : bits (setBit bytes later) = (bits bytes).set later true :=
        ih (by rw [List.length_cons] at inside; omega)
      unfold setBit at rest
      rw [rest, List.set_append_right _ _ (by rw [length_byteBits]; omega), length_byteBits, Nat.add_sub_cancel]

def writeBit (state : List UInt8 × Nat) (bit : Bool) : List UInt8 × Nat :=
  (if bit then setBit state.1 state.2 else state.1, state.2 + 1)

/-- The bits are written behind the ones that are there, over zeros. -/
theorem foldl_writeBit {written : List Bool} {zeros : Nat} (group : List Bool)
    (before : bits bytes = written ++ List.replicate zeros false) (room : group.length ≤ zeros) :
    ∃ after, group.foldl writeBit (bytes, written.length) = (after, (written ++ group).length) ∧
      bits after = written ++ group ++ List.replicate (zeros - group.length) false := by
  induction group generalizing bytes written zeros with
  | nil => exact ⟨bytes, by simp, by simpa using before⟩
  | cons bit group ih =>
    obtain ⟨zeros, rfl⟩ : ∃ fewer, zeros = fewer + 1 := ⟨zeros - 1, by simp at room; omega⟩
    have step : bits (writeBit (bytes, written.length) bit).1 = (written ++ [bit]) ++ List.replicate zeros false := by
      cases bit with
      | false => simpa [writeBit, List.replicate_succ] using before
      | true =>
        have size := congrArg List.length before
        rw [length_bits, List.length_append, List.length_replicate] at size
        show bits (setBit bytes written.length) = _
        rw [bits_setBit (by omega), before, List.set_append_right _ _ (Nat.le_refl _), Nat.sub_self, List.replicate_succ]
        simp
    obtain ⟨after, folded, result⟩ := ih step (by simpa using room)
    refine ⟨after, ?_, by simpa using result⟩
    rw [List.foldl_cons, ← Prod.mk.eta (p := writeBit _ _)]
    have position : (writeBit (bytes, written.length) bit).2 = (written ++ [bit]).length := by simp [writeBit]
    rw [position, folded]
    simp

def shiftIn (byte : UInt8) (bit : Bool) : UInt8 := byte <<< 1 ||| bit.toUInt8

/-- The byte whose last bits are `group`. -/
def pack (group : List Bool) : UInt8 := group.foldl shiftIn 0

/-- One turn of a loop that reads a bit; it stands still behind the last byte. -/
def readBit (bytes : List UInt8) (state : UInt8 × Nat) : UInt8 × Nat :=
  match bytes[state.2 / 8]? with
  | none => state
  | some byte => (state.1 <<< 1 ||| (byte >>> UInt8.ofNat (7 - state.2 % 8) &&& 1), state.2 + 1)

theorem toUInt8_testBit (byte : UInt8) (small : index < 8) :
    byte >>> UInt8.ofNat (7 - index) &&& 1 = (byte.toNat.testBit (7 - index)).toUInt8 := by
  refine UInt8.toNat_inj.mp ?_
  rw [UInt8.toNat_and, UInt8.toNat_shiftRight, UInt8.toNat_ofNat', Nat.mod_eq_of_lt (b := 2 ^ 8) (by omega),
    Nat.mod_eq_of_lt (b := 8) (by omega), UInt8.toNat_one, Nat.and_one_is_mod, Nat.shiftRight_eq_div_pow,
    Nat.testBit_eq_decide_div_mod_eq]
  rcases Nat.mod_two_eq_zero_or_one (byte.toNat / 2 ^ (7 - index)) with even | odd
  · rw [even]
    rfl
  · rw [odd]
    rfl

theorem getElem?_bits (bytes : List UInt8) (position : Nat) :
    (bits bytes)[position]? = bytes[position / 8]?.map fun byte => byte.toNat.testBit (7 - position % 8) := by
  induction bytes generalizing position with
  | nil => rfl
  | cons byte bytes ih =>
    rw [bits_cons]
    by_cases here : position < 8
    · have there : position < (byteBits byte).length := by rwa [length_byteBits]
      rw [List.getElem?_append_left there, List.getElem?_eq_getElem there, getElem_byteBits there, Nat.div_eq_of_lt here,
        Nat.mod_eq_of_lt here]
      rfl
    · obtain ⟨later, rfl⟩ : ∃ later, position = later + 8 := ⟨position - 8, by omega⟩
      rw [List.getElem?_append_right (by rw [length_byteBits]; omega), length_byteBits, Nat.add_sub_cancel, ih,
        Nat.add_div_right _ (by decide), Nat.add_mod_right, List.getElem?_cons_succ]

theorem readBit_bits {read : UInt8} {bit : Bool} (found : (bits bytes)[position]? = some bit) :
    readBit bytes (read, position) = (shiftIn read bit, position + 1) := by
  rw [getElem?_bits] at found
  obtain ⟨byte, there, rfl⟩ := Option.map_eq_some_iff.mp found
  simp only [readBit, there, shiftIn, toUInt8_testBit byte (Nat.mod_lt position (by decide : 0 < 8))]

/-- As many turns as there are bits in the group read the group. -/
theorem iterate_readBit {before group rest : List Bool} (there : bits bytes = before ++ group ++ rest) (read : UInt8) :
    (readBit bytes)^[group.length] (read, before.length) = (group.foldl shiftIn read, (before ++ group).length) := by
  induction group generalizing before read with
  | nil => simp
  | cons bit group ih =>
    have found : (bits bytes)[before.length]? = some bit := by simp [there]
    have next : bits bytes = (before ++ [bit]) ++ group ++ rest := by simp [there]
    have later := ih next (shiftIn read bit)
    rw [List.length_append, List.length_singleton] at later
    rw [List.length_cons, Function.iterate_succ_apply, readBit_bits found, later, List.foldl_cons]
    simp

end LasecSimul.Lib.BitString
