import LasecSimul.Dsl.Text

/-!
# String and number lexemes

Each regular expression of the lexer is a function that splits a text into the match at its front and the rest.
-/

namespace LasecSimul.Dsl

def isDigit (unit : CodeUnit) : Bool := 48 ≤ unit.val ∧ unit.val ≤ 57

def isLetter (unit : CodeUnit) : Bool :=
  (65 ≤ unit.val ∧ unit.val ≤ 90) ∨ (97 ≤ unit.val ∧ unit.val ≤ 122)

/-- What `.` does not match. -/
def isLineTerminator (unit : CodeUnit) : Bool := unit = 10 ∨ unit = 13 ∨ unit = 0x2028 ∨ unit = 0x2029

/-- `(?:\\.|[^"\\])*"`. -/
def matchQuoted : Text → Option (Text × Text)
  | [] => none
  | unit :: rest =>
    if unit = 34 then some ([34], rest)
    else if unit = 92 then
      match rest with
      | [] => none
      | escaped :: rest =>
        if isLineTerminator escaped then none
        else (matchQuoted rest).map fun (matched, rest) => (unit :: escaped :: matched, rest)
    else (matchQuoted rest).map fun (matched, rest) => (unit :: matched, rest)

def matchString : Text → Option (Text × Text)
  | [] => none
  | unit :: rest => if unit = 34 then (matchQuoted rest).map fun (matched, rest) => (34 :: matched, rest) else none

/-- `\.\d+`. -/
def matchFraction : Text → Option (Text × Text)
  | [] => none
  | unit :: rest =>
    if unit = 46 ∧ (rest.takeWhile isDigit) ≠ [] then some (46 :: rest.takeWhile isDigit, rest.dropWhile isDigit)
    else none

/-- `\d+\.\d+|\.\d+|\d+`. -/
def matchMantissa (text : Text) : Option (Text × Text) :=
  let digits := text.takeWhile isDigit
  match matchFraction (text.dropWhile isDigit) with
  | some (fraction, rest) => some (digits ++ fraction, rest)
  | none => if digits = [] then none else some (digits, text.dropWhile isDigit)

/-- `[+-]?`. -/
def matchSign : Text → Text × Text
  | [] => ([], [])
  | sign :: rest => if sign = 43 ∨ sign = 45 then ([sign], rest) else ([], sign :: rest)

/-- `[eE][+-]?\d+`, or nothing. -/
def matchExponent : Text → Text × Text
  | [] => ([], [])
  | mark :: rest =>
    let signed := matchSign rest
    if (mark = 101 ∨ mark = 69) ∧ signed.2.takeWhile isDigit ≠ [] then
      (mark :: (signed.1 ++ signed.2.takeWhile isDigit), signed.2.dropWhile isDigit)
    else ([], mark :: rest)

/-- The number without its sign, with the letters after it. -/
def matchUnsigned (text : Text) : Option (Text × Text) :=
  (matchMantissa text).map fun (mantissa, rest) =>
    let exponent := matchExponent rest
    (mantissa ++ exponent.1 ++ exponent.2.takeWhile isLetter, exponent.2.dropWhile isLetter)

def matchNumber : Text → Option (Text × Text)
  | [] => none
  | unit :: rest =>
    if unit = 45 then (matchUnsigned rest).map fun (matched, rest) => (45 :: matched, rest)
    else matchUnsigned (unit :: rest)

variable {unit : CodeUnit} {matched rest text name : Text}

theorem matchQuoted_plain (mark : unit ≠ 34) (slash : unit ≠ 92) :
    matchQuoted (unit :: rest) = (matchQuoted rest).map fun (matched, rest) => (unit :: matched, rest) := by
  rw [matchQuoted.eq_def]
  dsimp only
  rw [if_neg mark, if_neg slash]

theorem matchQuoted_escape (visible : isLineTerminator unit = false) :
    matchQuoted (92 :: unit :: rest) = (matchQuoted rest).map fun (matched, rest) => (92 :: unit :: matched, rest) := by
  rw [matchQuoted.eq_def]
  dsimp only
  rw [if_neg (by decide), if_pos rfl, visible]
  rfl

theorem hexDigit_plain {n : Nat} (small : n < 16) : hexDigit n ≠ 34 ∧ hexDigit n ≠ 92 := by
  interval_cases n <;> decide

theorem matchQuoted_quoteUnit : matchQuoted (quoteUnit unit ++ rest) =
    (matchQuoted rest).map fun (matched, rest) => (quoteUnit unit ++ matched, rest) := by
  rcases quoteUnit_cases unit with ⟨letter, listed, short⟩ | unicode | ⟨plain, mark, slash, _⟩
  · have visible : isLineTerminator letter = false := by
      simp only [shortEscapes, List.mem_cons, Prod.mk.injEq, List.not_mem_nil, or_false] at listed
      rcases listed with ⟨_, rfl⟩ | ⟨_, rfl⟩ | ⟨_, rfl⟩ | ⟨_, rfl⟩ | ⟨_, rfl⟩ | ⟨_, rfl⟩ | ⟨_, rfl⟩ <;> decide
    rw [short]
    exact matchQuoted_escape visible
  · have bound := unit.isLt
    obtain ⟨mark0, slash0⟩ := hexDigit_plain (by omega : unit.val / 4096 < 16)
    obtain ⟨mark1, slash1⟩ := hexDigit_plain (by omega : unit.val / 256 % 16 < 16)
    obtain ⟨mark2, slash2⟩ := hexDigit_plain (by omega : unit.val / 16 % 16 < 16)
    obtain ⟨mark3, slash3⟩ := hexDigit_plain (by omega : unit.val % 16 < 16)
    rw [unicode]
    show matchQuoted (92 :: 117 :: hexDigit _ :: hexDigit _ :: hexDigit _ :: hexDigit _ :: rest) = _
    rw [matchQuoted_escape (by decide), matchQuoted_plain mark0 slash0, matchQuoted_plain mark1 slash1,
      matchQuoted_plain mark2 slash2, matchQuoted_plain mark3 slash3]
    cases matchQuoted rest <;> rfl
  · rw [plain]
    exact matchQuoted_plain mark slash

theorem matchQuoted_quoteUnits (text rest : Text) : matchQuoted (quoteUnits text ++ rest) =
    (matchQuoted rest).map fun (matched, rest) => (quoteUnits text ++ matched, rest) := by
  induction text using quoteUnits.induct with
  | case1 =>
    show matchQuoted rest = (matchQuoted rest).map id
    rw [Option.map_id_fun, id]
  | case2 unit => exact matchQuoted_quoteUnit
  | case3 first second tail pair ih =>
    obtain ⟨mark, slash, _⟩ := surrogate_plain (.inl pair.1)
    obtain ⟨mark', slash', _⟩ := surrogate_plain (.inr pair.2)
    rw [quoteUnits, if_pos pair, List.cons_append, List.cons_append, matchQuoted_plain mark slash,
      matchQuoted_plain mark' slash', ih]
    cases matchQuoted rest <;> rfl
  | case4 first second tail pair ih =>
    rw [quoteUnits, if_neg pair, List.append_assoc, matchQuoted_quoteUnit, ih]
    cases matchQuoted rest with
    | none => rfl
    | some found => simp

theorem quote_append : quote text ++ rest = 34 :: (quoteUnits text ++ 34 :: rest) := by simp [quote]

theorem matchString_quote : matchString (quote text ++ rest) = some (quote text, rest) := by
  have closed : matchQuoted (34 :: rest) = some ([34], rest) := by
    rw [matchQuoted.eq_def]
    rfl
  rw [quote_append]
  unfold matchString
  dsimp only
  rw [if_pos rfl, matchQuoted_quoteUnits, closed]
  rfl

/-- What may follow a number. -/
def Ends (rest : Text) : Prop := ∀ unit ∈ rest.head?, isDigit unit = false ∧ isLetter unit = false ∧ unit ≠ 46

theorem ends_nil : Ends [] := by
  intro unit member
  cases member

variable {whole fraction : Text} {sign : CodeUnit}

theorem digitRun (digits : ∀ unit ∈ whole, isDigit unit = true) (stops : ∀ unit ∈ rest.head?, isDigit unit = false) :
    (whole ++ rest).takeWhile isDigit = whole ∧ (whole ++ rest).dropWhile isDigit = rest := by
  rw [List.takeWhile_append_of_pos digits, List.dropWhile_append_of_pos digits]
  cases rest with
  | nil => simp
  | cons next rest => simp [stops next rfl]

theorem matchMantissa_whole (digits : ∀ unit ∈ whole, isDigit unit = true) (nonempty : whole ≠ [])
    (stops : ∀ unit ∈ rest.head?, isDigit unit = false ∧ unit ≠ 46) :
    matchMantissa (whole ++ rest) = some (whole, rest) := by
  obtain ⟨run, after⟩ := digitRun digits fun unit head => (stops unit head).1
  have none : matchFraction rest = none := by
    cases rest with
    | nil => rfl
    | cons unit rest => exact if_neg fun both => (stops unit rfl).2 both.1
  unfold matchMantissa
  rw [run, after, none]
  exact if_neg nonempty

theorem matchMantissa_fraction (digits : ∀ unit ∈ whole, isDigit unit = true)
    (digits' : ∀ unit ∈ fraction, isDigit unit = true) (nonempty : fraction ≠ [])
    (stops : ∀ unit ∈ rest.head?, isDigit unit = false) :
    matchMantissa (whole ++ 46 :: fraction ++ rest) = some (whole ++ 46 :: fraction, rest) := by
  have point : ∀ unit ∈ (46 :: (fraction ++ rest)).head?, isDigit unit = false := by
    intro unit head
    cases head
    rfl
  obtain ⟨run, after⟩ := digitRun digits point
  obtain ⟨run', after'⟩ := digitRun digits' stops
  have some : matchFraction (46 :: (fraction ++ rest)) = some (46 :: fraction, rest) := by
    unfold matchFraction
    dsimp only
    rw [run', after']
    exact if_pos ⟨rfl, nonempty⟩
  unfold matchMantissa
  rw [List.append_assoc, List.cons_append, run, after, some]

theorem matchExponent_none (stops : ∀ unit ∈ rest.head?, isLetter unit = false) : matchExponent rest = ([], rest) := by
  cases rest with
  | nil => rfl
  | cons unit rest =>
    have other := stops unit rfl
    refine if_neg ?_
    rintro ⟨rfl | rfl, _⟩ <;> cases other

theorem matchExponent_some (signed : sign = 43 ∨ sign = 45) (digits : ∀ unit ∈ whole, isDigit unit = true)
    (nonempty : whole ≠ []) (stops : ∀ unit ∈ rest.head?, isDigit unit = false) :
    matchExponent (101 :: sign :: whole ++ rest) = (101 :: sign :: whole, rest) := by
  obtain ⟨run, after⟩ := digitRun digits stops
  have split : matchSign (sign :: (whole ++ rest)) = ([sign], whole ++ rest) := if_pos signed
  unfold matchExponent
  rw [List.cons_append, List.cons_append]
  dsimp only
  rw [split, run, after, if_pos ⟨.inl rfl, nonempty⟩]
  rfl

open Lib.Numeral Lib.Decimal Lib.EcmaNumber Lib.Binary

theorem ofChars_append (front back : List Char) : ofChars (front ++ back) = ofChars front ++ ofChars back :=
  List.flatMap_append

theorem ofChars_digits {digits : List Char} (all : ∀ c ∈ digits, isDigitOf 10 c = true) :
    (∀ unit ∈ ofChars digits, isDigit unit = true) ∧ (ofChars digits).length = digits.length := by
  induction digits with
  | nil => exact ⟨nofun, rfl⟩
  | cons c digits ih =>
    obtain ⟨low, high⟩ := digit_bounds (all c List.mem_cons_self)
    obtain ⟨rest, length⟩ := ih fun c member => all c (List.mem_cons_of_mem _ member)
    have single : utf16 c = [Fin.ofNat _ c.toNat] := if_pos (by omega)
    have digit : isDigit (Fin.ofNat _ c.toNat) = true := by
      unfold isDigit
      rw [Fin.val_ofNat, Nat.mod_eq_of_lt (by omega)]
      exact decide_eq_true ⟨low, high⟩
    have split : ofChars (c :: digits) = Fin.ofNat _ c.toNat :: ofChars digits := by
      show utf16 c ++ ofChars digits = _
      rw [single]
      rfl
    rw [split, List.length_cons, List.length_cons, length]
    exact ⟨List.forall_mem_cons.mpr ⟨digit, rest⟩, rfl⟩

theorem ofChars_ne_nil {digits : List Char} (all : ∀ c ∈ digits, isDigitOf 10 c = true) (nonempty : digits ≠ []) :
    ofChars digits ≠ [] := by
  intro none
  have length := (ofChars_digits all).2
  rw [none] at length
  exact nonempty (List.length_eq_zero_iff.mp length.symm)

theorem ofChars_exponentText (exponent : Int) : ∃ sign digits, ofChars ('e' :: Lib.EcmaNumber.exponentText exponent) =
    101 :: sign :: digits ∧ (sign = 43 ∨ sign = 45) ∧ (∀ unit ∈ digits, isDigit unit = true) ∧ digits ≠ [] := by
  have all := isDigitOf_toDigits exponent.natAbs
  have digits := (ofChars_digits all).1
  have nonempty := ofChars_ne_nil all Nat.toDigits_ne_nil
  by_cases below : exponent < 0
  · exact ⟨45, _, by unfold Lib.EcmaNumber.exponentText; rw [if_pos below]; rfl, .inr rfl, digits, nonempty⟩
  · exact ⟨43, _, by unfold Lib.EcmaNumber.exponentText; rw [if_neg below]; rfl, .inl rfl, digits, nonempty⟩

theorem matchUnsigned_written {number : List Char} {value : ℚ} (written : Written number value) (ends : Ends rest) :
    matchUnsigned (ofChars number ++ rest) = some (ofChars number, rest) := by
  obtain ⟨whole, fraction, exponent, last, rfl, nonempty, wholly, fractional, form, _⟩ := written
  have plain : ∀ unit ∈ rest.head?, isDigit unit = false := fun unit head => (ends unit head).1
  have letters : rest.takeWhile isLetter = [] ∧ rest.dropWhile isLetter = rest := by
    cases rest with
    | nil => exact ⟨rfl, rfl⟩
    | cons unit rest => simp [(ends unit rfl).2.1]
  have exponents : matchExponent (ofChars last ++ rest) = (ofChars last, rest) := by
    rcases form with ⟨_, rfl⟩ | rfl
    · exact matchExponent_none fun unit head => (ends unit head).2.1
    · obtain ⟨sign, digits, split, signed, all, some⟩ := ofChars_exponentText exponent
      rw [split]
      exact matchExponent_some signed all some plain
  have stops : ∀ unit ∈ (ofChars last ++ rest).head?, isDigit unit = false ∧ unit ≠ 46 := by
    rcases form with ⟨_, rfl⟩ | rfl
    · exact fun unit head => ⟨(ends unit head).1, (ends unit head).2.2⟩
    · obtain ⟨sign, digits, split, _⟩ := ofChars_exponentText exponent
      rw [split]
      intro unit head
      cases head
      decide
  have mantissa : matchMantissa (ofChars (withFraction whole fraction) ++ (ofChars last ++ rest)) =
      some (ofChars (withFraction whole fraction), ofChars last ++ rest) := by
    unfold withFraction
    split
    · exact matchMantissa_whole (ofChars_digits wholly).1 (ofChars_ne_nil wholly nonempty) stops
    · next some =>
      rw [ofChars_append]
      exact matchMantissa_fraction (ofChars_digits wholly).1 (ofChars_digits fractional).1
        (ofChars_ne_nil fractional some) fun unit head => (stops unit head).1
  unfold matchUnsigned
  rw [ofChars_append, List.append_assoc, mantissa, Option.map_some]
  dsimp only
  rw [exponents]
  dsimp only
  rw [letters.1, letters.2, List.append_nil]

theorem written_first {number : List Char} {value : ℚ} (written : Written number value) :
    ∃ unit text, ofChars number = unit :: text ∧ isDigit unit = true := by
  obtain ⟨c, rest, rfl, digit⟩ := written.head
  have all : ∀ d ∈ [c], isDigitOf 10 d = true := by simpa using digit
  obtain ⟨digits, length⟩ := ofChars_digits all
  have split : ofChars (c :: rest) = ofChars [c] ++ ofChars rest := ofChars_append [c] rest
  cases single : ofChars [c] with
  | nil =>
    rw [single] at length
    cases length
  | cons unit text =>
    rw [single] at digits split
    exact ⟨unit, text ++ ofChars rest, split, digits unit List.mem_cons_self⟩

theorem matchNumber_numberText (negative : Bool) (magnitude : ℚ) (ends : Ends rest) :
    ∃ unit text, ofChars (numberText (.finite negative magnitude)) = unit :: text ∧
      (isDigit unit = true ∨ unit = 45) ∧
      matchNumber (unit :: text ++ rest) = some (unit :: text, rest) := by
  have unsigned : ∀ {number : List Char} {value : ℚ}, Written number value → ∃ unit text,
      ofChars number = unit :: text ∧ isDigit unit = true ∧
        matchNumber (unit :: text ++ rest) = some (unit :: text, rest) := by
    intro number value written
    obtain ⟨unit, text, split, digit⟩ := written_first written
    have minus : unit ≠ 45 := by
      rintro rfl
      cases digit
    refine ⟨unit, text, split, digit, ?_⟩
    have found := matchUnsigned_written written ends
    rw [split] at found
    exact (if_neg minus).trans found
  unfold numberText
  dsimp only
  split
  · have zero : Written ['0'] 0 :=
      ⟨['0'], [], 0, [], rfl, List.cons_ne_nil _ _, List.forall_mem_singleton.mpr rfl, nofun, .inl ⟨rfl, rfl⟩, by decide +kernel⟩
    obtain ⟨unit, text, split, digit, found⟩ := unsigned zero
    exact ⟨unit, text, split, .inl digit, found⟩
  · have written := magnitudeText_written magnitude
    cases negative with
    | false =>
      obtain ⟨unit, text, split, digit, found⟩ := unsigned written
      exact ⟨unit, text, split, .inl digit, found⟩
    | true =>
      refine ⟨45, ofChars (magnitudeText magnitude), rfl, .inr rfl, ?_⟩
      have found := matchUnsigned_written written ends
      unfold matchNumber
      rw [List.cons_append]
      dsimp only
      rw [if_pos rfl, found]
      rfl

end LasecSimul.Dsl
