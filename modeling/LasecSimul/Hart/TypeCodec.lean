import Mathlib.Data.List.Basic
import LasecSimul.Hart.Response
import LasecSimul.Lib.BitString

/-!
# Packed ASCII

`HartTypeCodec::encodePackedAscii` and `decodePackedAscii`: six bits a character, laid over the byte boundaries.
-/

namespace LasecSimul.Hart

open Lib.BitString (bits byteBits setBit writeBit readBit shiftIn pack)

/-- `std::toupper`. -/
def toUpper (c : UInt8) : UInt8 := if 0x61 ≤ c ∧ c ≤ 0x7A then c - 0x20 else c

def foldToSixBits (c : UInt8) : UInt8 :=
  let upper := toUpper c
  (if upper < 0x20 ∨ upper > 0x5F then 0x20 else upper) &&& 0x3F

def unfoldFromSixBits (six : UInt8) : UInt8 := if six < 0x20 then six + 0x40 else six

def sixBits (text : Bytes) (maxChars : Nat) : Bytes :=
  (List.range maxChars).map fun i => match text[i]? with
    | some c => foldToSixBits c
    | none => 0x20 &&& 0x3F

/-- The six turns for one character; `state` holds `result` and `bitPos`. -/
def writeSix (state : Bytes × Nat) (six : UInt8) : Bytes × Nat :=
  [5, 4, 3, 2, 1, 0].foldl (fun state bit => writeBit state ((six >>> bit &&& 1) != 0)) state

def encodePackedAscii (text : Bytes) (maxChars : Nat) : Bytes :=
  ((sixBits text maxChars).foldl writeSix (List.replicate ((maxChars * 6 + 7) / 8) 0, 0)).1

/-- The characters read from `bitPos` on. -/
def readChars (bytes : Bytes) : Nat → Nat → Bytes
  | 0, _ => []
  | count + 1, bitPos =>
    let (six, bitPos) := (readBit bytes)^[6] (0, bitPos)
    unfoldFromSixBits six :: readChars bytes count bitPos

def decodePackedAscii (bytes : Bytes) : Bytes := readChars bytes (bytes.length * 8 / 6) 0

/-! ### Groups of six bits -/

/-- The six bits of a character, the most significant first. -/
def group (six : UInt8) : List Bool := [5, 4, 3, 2, 1, 0].map fun bit => (six >>> bit &&& 1) != 0

/-- The character that the packed alphabet has for `c`. -/
def inAlphabet (c : UInt8) : UInt8 :=
  let upper := toUpper c
  if 0x20 ≤ upper ∧ upper ≤ 0x5F then upper else 0x20

variable {bytes : Bytes} {bitPos : Nat} {six : UInt8} {sixes : List Bool}

theorem length_group (six : UInt8) : (group six).length = 6 := rfl

theorem length_groups (sixes : Bytes) : (sixes.flatMap group).length = 6 * sixes.length := by
  induction sixes with
  | nil => rfl
  | cons six sixes ih =>
    rw [List.flatMap_cons, List.length_append, length_group, ih, List.length_cons]
    omega

theorem exists_six (six : sixes.length = 6) : ∃ a b c d e f, sixes = [a, b, c, d, e, f] := by
  match sixes, six with
  | [a, b, c, d, e, f], _ => exact ⟨a, b, c, d, e, f, rfl⟩

theorem group_pack (six : sixes.length = 6) : group (pack sixes) = sixes := by
  obtain ⟨a, b, c, d, e, f, rfl⟩ := exists_six six
  revert a b c d e f
  decide

theorem pack_lt (six : sixes.length = 6) : pack sixes < 0x40 := by
  obtain ⟨a, b, c, d, e, f, rfl⟩ := exists_six six
  revert a b c d e f
  decide

theorem six_induction {motive : UInt8 → Prop} (all : ∀ n : Fin 64, motive (UInt8.ofNat n)) (small : six < 0x40) :
    motive six := by
  have bound : six.toNat < 64 := UInt8.lt_iff_toNat_lt.mp small
  have found := all ⟨six.toNat, bound⟩
  rwa [UInt8.ofNat_toNat] at found

theorem pack_group (small : six < 0x40) : pack (group six) = six :=
  six_induction (motive := fun six => pack (group six) = six) (by decide) small

theorem fold_unfold (small : six < 0x40) : foldToSixBits (unfoldFromSixBits six) = six :=
  six_induction (motive := fun six => foldToSixBits (unfoldFromSixBits six) = six) (by decide) small

theorem foldToSixBits_lt (c : UInt8) : foldToSixBits c < 0x40 := by
  rw [UInt8.lt_iff_toNat_lt]
  show (_ &&& (0x3F : UInt8)).toNat < 64
  rw [UInt8.toNat_and]
  exact Nat.lt_of_le_of_lt Nat.and_le_right (by decide)

theorem unfold_mask {upper : UInt8} (above : 0x20 ≤ upper) (below : upper ≤ 0x5F) :
    unfoldFromSixBits (upper &&& 0x3F) = upper := by
  have small : upper - 0x20 < 0x40 := by
    rw [UInt8.lt_iff_toNat_lt, UInt8.toNat_sub_of_le _ _ above]
    have bound := UInt8.le_iff_toNat_le.mp below
    exact Nat.lt_of_le_of_lt (Nat.sub_le_sub_right bound _) (by decide)
  have back : upper - 0x20 + 0x20 = upper := UInt8.sub_add_cancel upper 0x20
  have shifted := six_induction (motive := fun six => unfoldFromSixBits ((six + 0x20) &&& 0x3F) = six + 0x20)
    (by decide) small
  rwa [back] at shifted

theorem unfold_fold (c : UInt8) : unfoldFromSixBits (foldToSixBits c) = inAlphabet c := by
  unfold foldToSixBits inAlphabet
  dsimp only
  by_cases inside : 0x20 ≤ toUpper c ∧ toUpper c ≤ 0x5F
  · have range : ¬ (toUpper c < 0x20 ∨ toUpper c > 0x5F) := by
      rintro (low | high)
      · exact UInt8.not_lt.mpr inside.1 low
      · exact UInt8.not_lt.mpr inside.2 high
    rw [if_neg range, if_pos inside, unfold_mask inside.1 inside.2]
  · have range : toUpper c < 0x20 ∨ toUpper c > 0x5F := by
      rcases not_and_or.mp inside with low | high
      · exact .inl (UInt8.not_le.mp low)
      · exact .inr (UInt8.not_le.mp high)
    rw [if_pos range, if_neg inside]
    rfl

/-! ### The bits of an encoded text -/

theorem writeSix_eq (state : Bytes × Nat) (six : UInt8) : writeSix state six = (group six).foldl writeBit state := by
  unfold writeSix group
  rw [List.foldl_map]

theorem foldl_writeSix (state : Bytes × Nat) (sixes : Bytes) :
    sixes.foldl writeSix state = (sixes.flatMap group).foldl writeBit state := by
  induction sixes generalizing state with
  | nil => rfl
  | cons six sixes ih => rw [List.foldl_cons, ih, writeSix_eq, List.flatMap_cons, List.foldl_append]

theorem length_sixBits (text : Bytes) (maxChars : Nat) : (sixBits text maxChars).length = maxChars := by
  simp [sixBits]

theorem bits_encode (text : Bytes) (maxChars : Nat) : bits (encodePackedAscii text maxChars) =
    (sixBits text maxChars).flatMap group ++ List.replicate (8 * ((maxChars * 6 + 7) / 8) - 6 * maxChars) false := by
  have size : ((sixBits text maxChars).flatMap group).length = 6 * maxChars := by rw [length_groups, length_sixBits]
  have zeros : bits (List.replicate ((maxChars * 6 + 7) / 8) 0) = [] ++ List.replicate (8 * ((maxChars * 6 + 7) / 8)) false :=
    Lib.BitString.bits_replicate _
  obtain ⟨after, folded, result⟩ := Lib.BitString.foldl_writeBit _ zeros (by rw [size]; omega)
  unfold encodePackedAscii
  rw [foldl_writeSix]
  rw [List.length_nil] at folded
  rw [folded, result, List.nil_append, size]

theorem readChars_succ (bytes : Bytes) (count bitPos : Nat) : readChars bytes (count + 1) bitPos =
    unfoldFromSixBits ((readBit bytes)^[6] (0, bitPos)).1 ::
      readChars bytes count ((readBit bytes)^[6] (0, bitPos)).2 := rfl

/-- Every group of six bits is read as one character. -/
theorem readChars_groups (before : List Bool) {rest : List Bool} {groups : List (List Bool)}
    (six : ∀ group ∈ groups, group.length = 6) (there : bits bytes = before ++ groups.flatten ++ rest) (more : Nat) :
    readChars bytes (groups.length + more) before.length =
      groups.map (fun group => unfoldFromSixBits (pack group)) ++
        readChars bytes more (before ++ groups.flatten).length := by
  induction groups generalizing before with
  | nil => simp
  | cons group groups ih =>
    have size := six group List.mem_cons_self
    have here : bits bytes = before ++ group ++ (groups.flatten ++ rest) := by simpa using there
    have next : bits bytes = (before ++ group) ++ groups.flatten ++ rest := by simpa using there
    have read := Lib.BitString.iterate_readBit here 0
    rw [size] at read
    have later := ih (before ++ group) (fun group member => six group (List.mem_cons_of_mem _ member)) next
    rw [show (group :: groups).length + more = groups.length + more + 1 by rw [List.length_cons]; omega,
      readChars_succ, read, later, List.flatten_cons, List.append_assoc, List.map_cons, List.cons_append]
    rfl

theorem sixBits_self (text : Bytes) : sixBits text text.length = text.map foldToSixBits := by
  refine List.ext_getElem (by rw [length_sixBits, List.length_map]) fun index here there => ?_
  have bound : index < text.length := by rwa [length_sixBits] at here
  simp [sixBits, List.getElem?_eq_getElem bound]

theorem sixBits_unfold (text : Bytes) (maxChars : Nat) : (sixBits text maxChars).map unfoldFromSixBits =
    (text.map inAlphabet).take maxChars ++ List.replicate (maxChars - text.length) 0x20 := by
  refine List.ext_getElem? fun index => ?_
  rw [sixBits, List.map_map, List.getElem?_map, List.getElem?_append, List.length_take, List.length_map]
  by_cases inside : index < maxChars
  · rw [List.getElem?_range inside]
    by_cases there : index < text.length
    · rw [if_pos (by omega), List.getElem?_take_of_lt inside, List.getElem?_map, List.getElem?_eq_getElem there]
      simp [unfold_fold, List.getElem?_eq_getElem there]
    · rw [if_neg (by omega), List.getElem?_replicate, if_pos (by omega)]
      simp [List.getElem?_eq_none (Nat.not_lt.mp there)]
      rfl
  · have beyond : (List.range maxChars)[index]? = none := List.getElem?_eq_none (by simpa using inside)
    rw [beyond]
    split
    · omega
    · rw [List.getElem?_eq_none (by rw [List.length_replicate]; omega)]
      rfl

theorem decode_encode (text : Bytes) (maxChars : Nat) :
    (decodePackedAscii (encodePackedAscii text maxChars)).take maxChars =
      (text.map inAlphabet).take maxChars ++ List.replicate (maxChars - text.length) 0x20 := by
  have encoded := bits_encode text maxChars
  have size := congrArg List.length encoded
  rw [Lib.BitString.length_bits, List.length_append, length_groups, length_sixBits, List.length_replicate] at size
  obtain ⟨more, count⟩ : ∃ more, (encodePackedAscii text maxChars).length * 8 / 6 =
      ((sixBits text maxChars).map group).length + more :=
    ⟨(encodePackedAscii text maxChars).length * 8 / 6 - maxChars, by rw [List.length_map, length_sixBits]; omega⟩
  have chars : ∀ six ∈ sixBits text maxChars, unfoldFromSixBits (pack (group six)) = unfoldFromSixBits six := by
    intro six member
    obtain ⟨i, _, rfl⟩ := List.mem_map.mp member
    refine congrArg _ (pack_group ?_)
    cases text[i]? with
    | some c => exact foldToSixBits_lt c
    | none => decide
  rw [List.flatMap_def] at encoded
  have sizes : ∀ bits ∈ (sixBits text maxChars).map group, bits.length = 6 := by
    intro bits member
    obtain ⟨six, _, rfl⟩ := List.mem_map.mp member
    rfl
  have read := readChars_groups [] sizes encoded more
  rw [List.length_nil] at read
  unfold decodePackedAscii
  rw [count, read, List.map_map, ← sixBits_unfold]
  have length : ((sixBits text maxChars).map ((fun group => unfoldFromSixBits (pack group)) ∘ group)).length = maxChars := by
    rw [List.length_map, length_sixBits]
  rw [List.take_append_of_le_length (Nat.le_of_eq length.symm), List.take_of_length_le (Nat.le_of_eq length)]
  exact List.map_congr_left chars

/-- The bits of a byte string of whole triples, in groups of six. -/
theorem exists_groups (bits : List Bool) (count : Nat) (size : bits.length = 6 * count) :
    ∃ groups : List (List Bool), groups.length = count ∧ (∀ group ∈ groups, group.length = 6) ∧ groups.flatten = bits := by
  induction count generalizing bits with
  | zero => exact ⟨[], rfl, nofun, (List.eq_nil_of_length_eq_zero size).symm⟩
  | succ count ih =>
    obtain ⟨groups, counted, six, whole⟩ := ih (bits.drop 6) (by rw [List.length_drop]; omega)
    refine ⟨bits.take 6 :: groups, by rw [List.length_cons, counted], ?_, ?_⟩
    · rw [List.forall_mem_cons]
      exact ⟨by rw [List.length_take]; omega, six⟩
    · rw [List.flatten_cons, whole, List.take_append_drop]

theorem encode_decode (triples : 3 ∣ bytes.length) :
    encodePackedAscii (decodePackedAscii bytes) (decodePackedAscii bytes).length = bytes := by
  obtain ⟨triples, size⟩ := triples
  obtain ⟨groups, counted, six, whole⟩ := exists_groups (bits bytes) (4 * triples)
    (by rw [Lib.BitString.length_bits]; omega)
  have decoded : decodePackedAscii bytes = groups.map fun group => unfoldFromSixBits (pack group) := by
    have read := readChars_groups [] six (show bits bytes = [] ++ groups.flatten ++ [] by simpa using whole.symm) 0
    rw [List.length_nil] at read
    unfold decodePackedAscii
    rw [show bytes.length * 8 / 6 = groups.length + 0 by omega, read]
    exact List.append_nil _
  have length : (decodePackedAscii bytes).length = 4 * triples := by rw [decoded, List.length_map, counted]
  have folded : (sixBits (decodePackedAscii bytes) (decodePackedAscii bytes).length).flatMap group = bits bytes := by
    have sixes : sixBits (decodePackedAscii bytes) (decodePackedAscii bytes).length = groups.map pack := by
      rw [sixBits_self, decoded, List.map_map]
      exact List.map_congr_left fun group member => fold_unfold (pack_lt (six group member))
    rw [sixes, List.flatMap_def, List.map_map, ← whole]
    congr 1
    refine (List.map_congr_left fun group member => group_pack (six group member)).trans (List.map_id _)
  apply Lib.BitString.bits_injective
  rw [bits_encode, folded, length, show 8 * ((4 * triples * 6 + 7) / 8) - 6 * (4 * triples) = 0 by omega]
  exact List.append_nil _

/-- A field read back is its text in the packed alphabet, and bytes that hold whole groups are written back. -/
theorem packedAscii_round_trip :
    (∀ text maxChars, (decodePackedAscii (encodePackedAscii text maxChars)).take maxChars =
      (text.map inAlphabet).take maxChars ++ List.replicate (maxChars - text.length) 0x20) ∧
      ∀ bytes : Bytes, 3 ∣ bytes.length →
        encodePackedAscii (decodePackedAscii bytes) (decodePackedAscii bytes).length = bytes :=
  ⟨decode_encode, fun _ => encode_decode⟩

/-- Three bytes that hold four characters. -/
theorem packedAscii_round_trip_triple : 3 ∣ [0x50, 0x15, 0xB1].length ∧
    encodePackedAscii (decodePackedAscii [0x50, 0x15, 0xB1]) (decodePackedAscii [0x50, 0x15, 0xB1]).length =
      [0x50, 0x15, 0xB1] :=
  ⟨by decide, packedAscii_round_trip.2 _ (by decide)⟩

example : encodePackedAscii [0x74, 0x61, 0x67] 5 = [0x50, 0x11, 0xE0, 0x80] := by decide

end LasecSimul.Hart
