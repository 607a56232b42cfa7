import LasecSimul.Lib.EcmaNumber

/-!
# Strings of the extension

A string is its list of UTF-16 code units, surrogates without a partner included. `quote` is `JSON.stringify` of a
string and `unquote` is `JSON.parse` of a string token.
-/

namespace LasecSimul.Dsl

abbrev CodeUnit := Fin 0x10000

instance codeUnits_neZero : NeZero 0x10000 := ⟨by decide⟩

abbrev Text := List CodeUnit

instance text_lawfulBEq : LawfulBEq Text := inferInstance

def utf16 (c : Char) : Text :=
  if c.toNat < 0x10000 then [Fin.ofNat _ c.toNat]
  else [Fin.ofNat _ (0xD800 + (c.toNat - 0x10000) / 0x400), Fin.ofNat _ (0xDC00 + (c.toNat - 0x10000) % 0x400)]

def ofChars (text : List Char) : Text := text.flatMap utf16

/-- A string literal. -/
def units (text : String) : Text := ofChars text.toList

/-- The text of a natural number. -/
def natText (n : Nat) : Text := ofChars (Nat.toDigits 10 n)

/-- The text for reading a number; what is no character is no part of one. -/
def chars (text : Text) : List Char := text.map fun unit => Char.ofNat unit.val

variable {unit : CodeUnit} {rest text : Text}

theorem chars_ofChars {text : List Char} (ascii : ∀ c ∈ text, c.toNat < 0x80) : chars (ofChars text) = text := by
  induction text with
  | nil => rfl
  | cons c text ih =>
    have small := ascii c List.mem_cons_self
    have front : chars (utf16 c) = [c] := by
      unfold utf16 chars
      rw [if_pos (by omega), List.map_singleton, Fin.val_ofNat, Nat.mod_eq_of_lt (by omega), Char.ofNat_toNat]
    show chars (utf16 c ++ ofChars text) = _
    rw [chars, List.map_append, ← chars, ← chars, front, ih fun c member => ascii c (List.mem_cons_of_mem _ member)]
    rfl

def isLeading (unit : CodeUnit) : Bool := 0xD800 ≤ unit.val ∧ unit.val ≤ 0xDBFF

def isTrailing (unit : CodeUnit) : Bool := 0xDC00 ≤ unit.val ∧ unit.val ≤ 0xDFFF

def hexDigit (n : Nat) : CodeUnit := Fin.ofNat _ (if n < 10 then 48 + n else 87 + n)

def unicodeEscape (unit : CodeUnit) : Text :=
  [92, 117, hexDigit (unit / 4096), hexDigit (unit / 256 % 16), hexDigit (unit / 16 % 16), hexDigit (unit % 16)]

/-- The units with a short escape, and its letter. -/
def shortEscapes : List (CodeUnit × CodeUnit) :=
  [(8, 98), (9, 116), (10, 110), (12, 102), (13, 114), (34, 34), (92, 92)]

def quoteUnit (unit : CodeUnit) : Text :=
  match shortEscapes.lookup unit with
  | some letter => [92, letter]
  | none => if unit.val < 32 ∨ isLeading unit ∨ isTrailing unit then unicodeEscape unit else [unit]

def quoteUnits : Text → Text
  | [] => []
  | [unit] => quoteUnit unit
  | first :: second :: rest =>
    if isLeading first ∧ isTrailing second then first :: second :: quoteUnits rest
    else quoteUnit first ++ quoteUnits (second :: rest)

/-- `JSON.stringify` of a string. -/
def quote (text : Text) : Text := 34 :: (quoteUnits text ++ [34])

def hexValue (unit : CodeUnit) : Option Nat :=
  if 48 ≤ unit.val ∧ unit.val ≤ 57 then some (unit - 48)
  else if 97 ≤ unit.val ∧ unit.val ≤ 102 then some (unit - 87)
  else if 65 ≤ unit.val ∧ unit.val ≤ 70 then some (unit - 55)
  else none

def hexUnit (a b c d : CodeUnit) : Option CodeUnit :=
  match hexValue a, hexValue b, hexValue c, hexValue d with
  | some a, some b, some c, some d => some (Fin.ofNat _ (((a * 16 + b) * 16 + c) * 16 + d))
  | _, _, _, _ => none

/-- The letters after a backslash and what they stand for; a slash may be escaped, too. -/
def letterEscapes : List (CodeUnit × CodeUnit) := (47, 47) :: shortEscapes.map Prod.swap

/-- What follows the opening quote, to the closing one at the end. -/
def unquoteUnits : Text → Option Text
  | [] => none
  | unit :: rest =>
    if unit = 34 then if rest = [] then some [] else none
    else if unit = 92 then
      match rest with
      | [] => none
      | letter :: rest =>
        if letter = 117 then
          match rest with
          | a :: b :: c :: d :: rest => (hexUnit a b c d).bind fun unit => (unquoteUnits rest).map (unit :: ·)
          | _ => none
        else (letterEscapes.lookup letter).bind fun unit => (unquoteUnits rest).map (unit :: ·)
    else if unit.val < 32 then none
    else (unquoteUnits rest).map (unit :: ·)

/-- `JSON.parse` of a string token; `none` when it throws. -/
def unquote : Text → Option Text
  | [] => none
  | _ :: rest => unquoteUnits rest

theorem hexValue_hexDigit {n : Nat} (small : n < 16) : hexValue (hexDigit n) = some n := by
  interval_cases n <;> rfl

theorem hexUnit_digits (unit : CodeUnit) :
    hexUnit (hexDigit (unit / 4096)) (hexDigit (unit / 256 % 16)) (hexDigit (unit / 16 % 16)) (hexDigit (unit % 16)) =
      some unit := by
  have bound := unit.isLt
  unfold hexUnit
  rw [hexValue_hexDigit (by omega), hexValue_hexDigit (by omega), hexValue_hexDigit (by omega),
    hexValue_hexDigit (by omega)]
  refine congrArg some (Fin.ext ?_)
  rw [Fin.val_ofNat]
  omega

theorem unquoteUnits_plain (mark : unit ≠ 34) (slash : unit ≠ 92) (printable : 32 ≤ unit.val) :
    unquoteUnits (unit :: rest) = (unquoteUnits rest).map (unit :: ·) := by
  rw [unquoteUnits.eq_def]
  dsimp only
  rw [if_neg mark, if_neg slash, if_neg (by omega)]

theorem unquoteUnits_letter {letter : CodeUnit} (other : letter ≠ 117)
    (listed : letterEscapes.lookup letter = some unit) :
    unquoteUnits (92 :: letter :: rest) = (unquoteUnits rest).map (unit :: ·) := by
  rw [unquoteUnits.eq_def]
  dsimp only
  rw [if_neg (by decide), if_pos rfl, if_neg other, listed, Option.bind_some]

theorem unquoteUnits_unicode : unquoteUnits (unicodeEscape unit ++ rest) = (unquoteUnits rest).map (unit :: ·) := by
  show unquoteUnits (92 :: 117 :: _ :: _ :: _ :: _ :: rest) = _
  rw [unquoteUnits.eq_def]
  dsimp only
  rw [if_neg (by decide), if_pos rfl, if_pos rfl, hexUnit_digits, Option.bind_some]

/-- The three forms of a quoted unit. -/
theorem quoteUnit_cases (unit : CodeUnit) :
    (∃ letter, (unit, letter) ∈ shortEscapes ∧ quoteUnit unit = [92, letter]) ∨
      quoteUnit unit = unicodeEscape unit ∨
      (quoteUnit unit = [unit] ∧ unit ≠ 34 ∧ unit ≠ 92 ∧ 32 ≤ unit.val) := by
  unfold quoteUnit
  cases found : shortEscapes.lookup unit with
  | some letter =>
    obtain ⟨before, after, split, _⟩ := List.lookup_eq_some_iff.mp found
    exact .inl ⟨letter, by rw [split]; simp, rfl⟩
  | none =>
    dsimp only
    split
    · exact .inr (.inl rfl)
    · next plain =>
      refine .inr (.inr ⟨rfl, ?_, ?_, by omega⟩)
      · rintro rfl
        cases found
      · rintro rfl
        cases found

theorem unquoteUnits_quoteUnit :
    unquoteUnits (quoteUnit unit ++ rest) = (unquoteUnits rest).map (unit :: ·) := by
  rcases quoteUnit_cases unit with ⟨letter, listed, short⟩ | unicode | ⟨plain, mark, slash, printable⟩
  · rw [short]
    simp only [shortEscapes, List.mem_cons, Prod.mk.injEq, List.not_mem_nil, or_false] at listed
    rcases listed with ⟨rfl, rfl⟩ | ⟨rfl, rfl⟩ | ⟨rfl, rfl⟩ | ⟨rfl, rfl⟩ | ⟨rfl, rfl⟩ | ⟨rfl, rfl⟩ | ⟨rfl, rfl⟩ <;>
      exact unquoteUnits_letter (by decide) rfl
  · rw [unicode]
    exact unquoteUnits_unicode
  · rw [plain]
    exact unquoteUnits_plain mark slash printable

theorem surrogate_plain (surrogate : isLeading unit = true ∨ isTrailing unit = true) :
    unit ≠ 34 ∧ unit ≠ 92 ∧ 32 ≤ unit.val := by
  have high : 0xD800 ≤ unit.val := by
    rcases surrogate with leading | trailing
    · exact (of_decide_eq_true leading).1
    · have := (of_decide_eq_true trailing).1
      omega
  refine ⟨?_, ?_, by omega⟩ <;>
  · rintro rfl
    exact absurd high (by decide)

theorem unquoteUnits_quoteUnits (text rest : Text) :
    unquoteUnits (quoteUnits text ++ rest) = (unquoteUnits rest).map (text ++ ·) := by
  induction text using quoteUnits.induct with
  | case1 =>
    show unquoteUnits rest = _
    simp
  | case2 unit => exact unquoteUnits_quoteUnit
  | case3 first second tail pair ih =>
    obtain ⟨mark, slash, printable⟩ := surrogate_plain (.inl pair.1)
    obtain ⟨mark', slash', printable'⟩ := surrogate_plain (.inr pair.2)
    rw [quoteUnits, if_pos pair, List.cons_append, List.cons_append, unquoteUnits_plain mark slash printable,
      unquoteUnits_plain mark' slash' printable', ih, Option.map_map, Option.map_map]
    rfl
  | case4 first second tail pair ih =>
    rw [quoteUnits, if_neg pair, List.append_assoc, unquoteUnits_quoteUnit, ih, Option.map_map]
    rfl

theorem unquote_quote (text : Text) : unquote (quote text) = some text := by
  show unquoteUnits (quoteUnits text ++ [34]) = _
  have closed : unquoteUnits [34] = some [] := rfl
  rw [unquoteUnits_quoteUnits, closed]
  exact congrArg some (List.append_nil text)

end LasecSimul.Dsl
