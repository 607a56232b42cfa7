import Mathlib.Data.List.Sort
import LasecSimul.Dsl.Lexer

/-!
# JSON values

A value as `JSON.parse` gives it. Of the fields of an object the first with a key counts, as its keys are
distinct; `undefined` is an absent field. `canonicalJson` sorts the keys, and two objects of one text have the
same text under every key.
-/

namespace LasecSimul.Subsystems

open Dsl (CodeUnit Text units quote ofChars)
open Lib.EcmaNumber (Number numberText)

inductive Json where
  | null
  | bool (value : Bool)
  | number (value : Number)
  | string (value : Text)
  | array (items : List Json)
  | object (fields : List (Text × Json))

abbrev Fields := List (Text × Json)

/-- `value[key]`. -/
def valueAt {α : Type} (key : Text) : List (Text × α) → Option α
  | [] => none
  | field :: rest => if field.1 = key then some field.2 else valueAt key rest

/-- The order of `sort`, by code units. -/
def precedes : Text → Text → Bool
  | [], _ => true
  | _ :: _, [] => false
  | a :: as, b :: bs => a.val < b.val || (a = b && precedes as bs)

/-- The first field of each key. -/
def firstOfKey {α : Type} : List (Text × α) → List (Text × α)
  | [] => []
  | field :: rest => field :: (firstOfKey rest).filter fun other => other.1 ≠ field.1

def sortedByKey {α : Type} (fields : List (Text × α)) : List (Text × α) :=
  fields.insertionSort fun a b => precedes a.1 b.1 = true

/-- `join(",")`. -/
def commaed : List Text → Text
  | [] => []
  | [item] => item
  | item :: next :: rest => item ++ 44 :: commaed (next :: rest)

/-- `JSON.stringify` of a number. -/
def numberJson (value : Number) : Text :=
  match value.value with
  | .finite _ _ => ofChars (numberText value.value)
  | _ => units "null"

def entryText (entry : Text × Text) : Text := quote entry.1 ++ 58 :: entry.2

mutual

def canonicalJson : Json → Text
  | .null => units "null"
  | .bool value => if value then units "true" else units "false"
  | .number value => numberJson value
  | .string value => quote value
  | .array items => 91 :: (commaed (canonicalItems items) ++ [93])
  | .object fields => 123 :: (commaed ((sortedByKey (firstOfKey (canonicalFields fields))).map entryText) ++ [125])

def canonicalItems : List Json → List Text
  | [] => []
  | item :: rest => canonicalJson item :: canonicalItems rest

def canonicalFields : Fields → List (Text × Text)
  | [] => []
  | field :: rest => canonicalField field :: canonicalFields rest

def canonicalField : Text × Json → Text × Text
  | (key, value) => (key, canonicalJson value)

end

theorem canonicalItems_eq (items : List Json) : canonicalItems items = items.map canonicalJson := by
  induction items with
  | nil => rfl
  | cons item rest ih => rw [canonicalItems, List.map_cons, ih]

theorem canonicalFields_eq (fields : Fields) :
    canonicalFields fields = fields.map fun field => (field.1, canonicalJson field.2) := by
  induction fields with
  | nil => rfl
  | cons field rest ih =>
    obtain ⟨key, value⟩ := field
    rw [canonicalFields, List.map_cons, ih, canonicalField]

/-! ### Where a value ends -/

inductive Mode where
  | plain
  | quoted
  | escaped
  deriving DecidableEq

/-- Splits a text where the value it begins with ends: at a comma or a closing bracket outside of every string
and bracket. -/
def scan : Mode → Nat → Text → Text × Text
  | _, _, [] => ([], [])
  | .plain, depth, unit :: rest =>
    if unit = 34 then Prod.map (unit :: ·) id (scan .quoted depth rest)
    else if unit = 91 ∨ unit = 123 then Prod.map (unit :: ·) id (scan .plain (depth + 1) rest)
    else if unit = 93 ∨ unit = 125 then
      match depth with
      | 0 => ([], unit :: rest)
      | depth + 1 => Prod.map (unit :: ·) id (scan .plain depth rest)
    else if unit = 44 ∧ depth = 0 then ([], unit :: rest)
    else Prod.map (unit :: ·) id (scan .plain depth rest)
  | .quoted, depth, unit :: rest =>
    if unit = 34 then Prod.map (unit :: ·) id (scan .plain depth rest)
    else if unit = 92 then Prod.map (unit :: ·) id (scan .escaped depth rest)
    else Prod.map (unit :: ·) id (scan .quoted depth rest)
  | .escaped, depth, unit :: rest => Prod.map (unit :: ·) id (scan .quoted depth rest)

theorem scan_plain (depth : Nat) (unit : CodeUnit) (rest : Text) : scan .plain depth (unit :: rest) =
    if unit = 34 then Prod.map (unit :: ·) id (scan .quoted depth rest)
    else if unit = 91 ∨ unit = 123 then Prod.map (unit :: ·) id (scan .plain (depth + 1) rest)
    else if unit = 93 ∨ unit = 125 then
      match depth with
      | 0 => ([], unit :: rest)
      | depth + 1 => Prod.map (unit :: ·) id (scan .plain depth rest)
    else if unit = 44 ∧ depth = 0 then ([], unit :: rest)
    else Prod.map (unit :: ·) id (scan .plain depth rest) := rfl

/-- The scanner goes over `text` and is in the mode and at the depth given after it. -/
def Passes (mode : Mode) (depth : Nat) (text : Text) (mode' : Mode) (depth' : Nat) : Prop :=
  ∀ rest, scan mode depth (text ++ rest) = Prod.map (text ++ ·) id (scan mode' depth' rest)

variable {mode mode' mode'' : Mode} {depth depth' depth'' : Nat} {text text' rest rest' : Text} {unit : CodeUnit}

theorem Passes.nil : Passes mode depth [] mode depth := fun _ => rfl

theorem Passes.append (first : Passes mode depth text mode' depth')
    (second : Passes mode' depth' text' mode'' depth'') :
    Passes mode depth (text ++ text') mode'' depth'' := by
  intro rest
  rw [List.append_assoc, first, second]
  simp [Prod.map]

theorem Passes.cons (first : Passes mode depth [unit] mode' depth')
    (second : Passes mode' depth' text mode'' depth'') :
    Passes mode depth (unit :: text) mode'' depth'' := first.append second

/-- A unit that means nothing outside of strings. -/
def isInert (unit : CodeUnit) : Bool := !([34, 44, 91, 93, 123, 125] : List CodeUnit).contains unit

theorem isInert_iff {unit : CodeUnit} : isInert unit = true ↔ unit ∉ ([34, 44, 91, 93, 123, 125] : List CodeUnit) := by
  rw [isInert, Bool.not_eq_true', ← Bool.not_eq_true, List.contains_iff_mem]

theorem passes_inert (inert : isInert unit = true) : Passes .plain depth [unit] .plain depth := by
  intro rest
  have plain := isInert_iff.mp inert
  simp only [List.mem_cons, List.not_mem_nil, or_false, not_or] at plain
  obtain ⟨mark, comma, squareOpen, squareClose, curlyOpen, curlyClose⟩ := plain
  rw [List.singleton_append, scan_plain]
  rw [if_neg mark, if_neg (by tauto), if_neg (by tauto), if_neg (by tauto)]
  rfl

theorem passes_inerts (inert : ∀ unit ∈ text, isInert unit = true) : Passes .plain depth text .plain depth := by
  induction text with
  | nil => exact .nil
  | cons unit text ih =>
    exact (passes_inert (inert unit List.mem_cons_self)).cons
      (ih fun other member => inert other (List.mem_cons_of_mem _ member))

theorem passes_mark : Passes .plain depth [34] .quoted depth := by
  intro rest
  rw [List.singleton_append, scan_plain]
  rfl

theorem passes_closingMark : Passes .quoted depth [34] .plain depth := by
  intro rest
  rw [List.singleton_append, scan]
  rfl

theorem passes_quoted (mark : unit ≠ 34) (slash : unit ≠ 92) : Passes .quoted depth [unit] .quoted depth := by
  intro rest
  rw [List.singleton_append, scan]
  rw [if_neg mark, if_neg slash]
  rfl

theorem passes_escape (letter : CodeUnit) : Passes .quoted depth [92, letter] .quoted depth := by
  intro rest
  show scan .quoted depth (92 :: letter :: rest) = _
  rw [scan]
  rw [if_neg (by decide), if_pos rfl, scan]
  rfl

theorem passes_opening (bracket : unit = 91 ∨ unit = 123) : Passes .plain depth [unit] .plain (depth + 1) := by
  intro rest
  rw [List.singleton_append, scan_plain]
  rw [if_neg (by rcases bracket with rfl | rfl <;> decide), if_pos bracket]
  rfl

theorem passes_closing (bracket : unit = 93 ∨ unit = 125) : Passes .plain (depth + 1) [unit] .plain depth := by
  intro rest
  rw [List.singleton_append, scan_plain]
  dsimp only
  rw [if_neg (by rcases bracket with rfl | rfl <;> decide), if_neg (by rcases bracket with rfl | rfl <;> decide),
    if_pos bracket]
  rfl

theorem passes_comma : Passes .plain (depth + 1) [44] .plain (depth + 1) := by
  intro rest
  rw [List.singleton_append, scan_plain]
  rfl

theorem passes_quoteUnit (unit : CodeUnit) : Passes .quoted depth (Dsl.quoteUnit unit) .quoted depth := by
  rcases Dsl.quoteUnit_cases unit with ⟨letter, _, short⟩ | unicode | ⟨plain, mark, slash, _⟩
  · rw [short]
    exact passes_escape letter
  · have digit : ∀ n < 16, Passes .quoted depth [Dsl.hexDigit n] .quoted depth := fun n small =>
      passes_quoted (Dsl.hexDigit_plain small).1 (Dsl.hexDigit_plain small).2
    have bound := unit.isLt
    rw [unicode]
    exact (passes_escape 117).append
      ((digit _ (by omega)).cons ((digit _ (by omega)).cons ((digit _ (by omega)).cons (digit _ (by omega)))))
  · rw [plain]
    exact passes_quoted mark slash

theorem passes_quoteUnits (text : Text) : Passes .quoted depth (Dsl.quoteUnits text) .quoted depth := by
  induction text using Dsl.quoteUnits.induct with
  | case1 => exact .nil
  | case2 unit => exact passes_quoteUnit unit
  | case3 first second tail pair ih =>
    obtain ⟨mark, slash, _⟩ := Dsl.surrogate_plain (.inl pair.1)
    obtain ⟨mark', slash', _⟩ := Dsl.surrogate_plain (.inr pair.2)
    rw [Dsl.quoteUnits, if_pos pair]
    exact (passes_quoted mark slash).cons ((passes_quoted mark' slash').cons ih)
  | case4 first second tail pair ih =>
    rw [Dsl.quoteUnits, if_neg pair]
    exact (passes_quoteUnit first).append ih

theorem passes_quote (text : Text) : Passes .plain depth (quote text) .plain depth :=
  passes_mark.cons ((passes_quoteUnits text).append passes_closingMark)

theorem passes_commaed {items : List Text} (each : ∀ item ∈ items, ∀ depth, Passes .plain depth item .plain depth) :
    Passes .plain (depth + 1) (commaed items) .plain (depth + 1) := by
  induction items using commaed.induct with
  | case1 => exact .nil
  | case2 item => exact each item List.mem_cons_self _
  | case3 item next rest ih =>
    rw [commaed]
    exact (each item List.mem_cons_self _).append
      (passes_comma.cons (ih fun other member => each other (List.mem_cons_of_mem _ member)))

theorem passes_bracketed {items : List Text} {opening closing : CodeUnit} (opens : opening = 91 ∨ opening = 123)
    (closes : closing = 93 ∨ closing = 125) (each : ∀ item ∈ items, ∀ depth, Passes .plain depth item .plain depth) :
    Passes .plain depth (opening :: (commaed items ++ [closing])) .plain depth :=
  (passes_opening opens).cons ((passes_commaed each).append (passes_closing closes))

/-- A character whose code unit is inert. -/
def isPlain (c : Char) : Bool := c.toNat < 0x80 && !([34, 44, 91, 93, 123, 125].contains c.toNat)

theorem inert_char {c : Char} (plain : isPlain c = true) : ∀ unit ∈ Dsl.utf16 c, isInert unit = true := by
  obtain ⟨ascii, other⟩ := Bool.and_eq_true_iff.mp plain
  have small := of_decide_eq_true ascii
  intro unit member
  rw [Dsl.utf16, if_pos (by omega), List.mem_singleton] at member
  have value : unit.val = c.toNat := by rw [member, Fin.val_ofNat, Nat.mod_eq_of_lt (by omega)]
  apply isInert_iff.mpr
  intro inside
  rw [← value, Bool.not_eq_true', List.contains_eq_mem, decide_eq_false_iff_not] at other
  exact other (List.mem_map_of_mem inside)

theorem passes_chars {chars : List Char} (plain : chars.all isPlain = true) :
    Passes .plain depth (ofChars chars) .plain depth := by
  apply passes_inerts
  intro unit member
  obtain ⟨c, inside, here⟩ := List.mem_flatMap.mp member
  exact inert_char (List.all_eq_true.mp plain c inside) unit here

theorem plain_numeric {c : Char} (numeric : Lib.Decimal.isNumeric c = true) : isPlain c = true := by
  rcases of_decide_eq_true numeric with digit | symbol
  · obtain ⟨low, high⟩ := Lib.Numeral.digit_bounds digit
    rw [isPlain, Bool.and_eq_true_iff]
    refine ⟨decide_eq_true (by omega), ?_⟩
    rw [Bool.not_eq_true', List.contains_eq_mem, decide_eq_false_iff_not]
    simp only [List.mem_cons, List.not_mem_nil, or_false, not_or]
    omega
  · simp only [List.mem_cons, List.not_mem_nil, or_false] at symbol
    rcases symbol with rfl | rfl | rfl | rfl <;> rfl

theorem passes_null : Passes .plain depth (units "null") .plain depth := passes_chars rfl

theorem passes_number (value : Number) : Passes .plain depth (numberJson value) .plain depth := by
  unfold numberJson
  split
  · next negative magnitude finite =>
    rw [finite]
    exact passes_chars (List.all_eq_true.mpr fun c member =>
      plain_numeric (Lib.EcmaNumber.numberText_numeric negative magnitude c member))
  · exact passes_null

theorem mem_firstOfKey {α : Type} {field : Text × α} {fields : List (Text × α)} (member : field ∈ firstOfKey fields) :
    field ∈ fields := by
  induction fields with
  | nil => exact member
  | cons first rest ih =>
    rcases List.mem_cons.mp member with rfl | later
    · exact List.mem_cons_self
    · exact List.mem_cons_of_mem _ (ih (List.mem_filter.mp later).1)

theorem passes_entry {entry : Text × Text} (passes : ∀ depth, Passes .plain depth entry.2 .plain depth) :
    Passes .plain depth (entryText entry) .plain depth :=
  (passes_quote entry.1).append ((passes_inert (by decide)).cons (passes depth))

theorem passes_entries {entries : List (Text × Text)}
    (each : ∀ entry ∈ entries, ∀ depth, Passes .plain depth entry.2 .plain depth) :
    ∀ item ∈ (sortedByKey (firstOfKey entries)).map entryText, ∀ depth, Passes .plain depth item .plain depth := by
  intro item member depth
  obtain ⟨entry, inside, rfl⟩ := List.mem_map.mp member
  exact passes_entry (each entry (mem_firstOfKey ((List.mem_insertionSort _).mp inside)))

mutual

theorem passes_canonicalJson : ∀ (value : Json) (depth : Nat), Passes .plain depth (canonicalJson value) .plain depth
  | .null, _ => by
    rw [canonicalJson]
    exact passes_null
  | .bool value, _ => by
    rw [canonicalJson]
    cases value <;> exact passes_chars rfl
  | .number value, _ => by
    rw [canonicalJson]
    exact passes_number value
  | .string value, _ => by
    rw [canonicalJson]
    exact passes_quote value
  | .array items, _ => by
    rw [canonicalJson]
    exact passes_bracketed (.inl rfl) (.inl rfl) (passes_canonicalItems items)
  | .object fields, _ => by
    rw [canonicalJson]
    exact passes_bracketed (.inr rfl) (.inr rfl) (passes_entries (passes_canonicalFields fields))

theorem passes_canonicalItems : ∀ (items : List Json), ∀ item ∈ canonicalItems items, ∀ depth,
    Passes .plain depth item .plain depth
  | [], item, member, _ => by
    rw [canonicalItems] at member
    cases member
  | first :: rest, item, member, depth => by
    rw [canonicalItems] at member
    rcases List.mem_cons.mp member with rfl | later
    · exact passes_canonicalJson first depth
    · exact passes_canonicalItems rest item later depth

theorem passes_canonicalFields : ∀ (fields : Fields), ∀ entry ∈ canonicalFields fields, ∀ depth,
    Passes .plain depth entry.2 .plain depth
  | [], entry, member, _ => by
    rw [canonicalFields] at member
    cases member
  | first :: rest, entry, member, depth => by
    rw [canonicalFields] at member
    rcases List.mem_cons.mp member with rfl | later
    · exact passes_canonicalField first depth
    · exact passes_canonicalFields rest entry later depth

theorem passes_canonicalField : ∀ (field : Text × Json) (depth : Nat),
    Passes .plain depth (canonicalField field).2 .plain depth
  | (key, value), depth => by
    rw [canonicalField]
    exact passes_canonicalJson value depth

end

/-! ### Equal texts -/

/-- What may follow a value. -/
def Ends (rest : Text) : Prop := ∀ unit ∈ rest.head?, unit = 44 ∨ unit = 93 ∨ unit = 125

theorem scan_ends (ends : Ends rest) : scan .plain 0 rest = ([], rest) := by
  cases rest with
  | nil => rfl
  | cons unit rest =>
    rw [scan_plain]
    rcases ends unit rfl with rfl | rfl | rfl <;> rfl

theorem scan_passed (passes : Passes .plain 0 text .plain 0) (ends : Ends rest) :
    scan .plain 0 (text ++ rest) = (text, rest) := by
  rw [passes, scan_ends ends]
  simp [Prod.map]

/-- A value ends where the scanner says. -/
theorem append_inj_passed (passes : Passes .plain 0 text .plain 0) (passes' : Passes .plain 0 text' .plain 0)
    (ends : Ends rest) (ends' : Ends rest') (same : text ++ rest = text' ++ rest') : text = text' ∧ rest = rest' := by
  have scanned := scan_passed passes ends
  rw [same, scan_passed passes' ends'] at scanned
  exact ⟨(congrArg Prod.fst scanned).symm, (congrArg Prod.snd scanned).symm⟩

/-- An item of an array or an entry of an object. -/
structure Item (item : Text) : Prop where
  passes : Passes .plain 0 item .plain 0
  nonempty : item ≠ []

/-- What follows the first of several items. -/
def commaedTail : List Text → Text
  | [] => []
  | item :: rest => 44 :: commaed (item :: rest)

theorem commaed_cons (item : Text) (items : List Text) : commaed (item :: items) = item ++ commaedTail items := by
  cases items with
  | nil => exact (List.append_nil item).symm
  | cons next rest => rfl

theorem ends_commaedTail (items : List Text) : Ends (commaedTail items) := by
  cases items with
  | nil => nofun
  | cons item rest =>
    rintro _ ⟨⟩
    exact .inl rfl

theorem commaed_injective {items items' : List Text} (each : ∀ item ∈ items, Item item)
    (each' : ∀ item ∈ items', Item item) (same : commaed items = commaed items') : items = items' := by
  induction items generalizing items' with
  | nil =>
    cases items' with
    | nil => rfl
    | cons item' rest' =>
      rw [commaed_cons] at same
      exact absurd (List.append_eq_nil_iff.mp same.symm).1 (each' item' List.mem_cons_self).nonempty
  | cons item rest ih =>
    cases items' with
    | nil =>
      rw [commaed_cons] at same
      exact absurd (List.append_eq_nil_iff.mp same).1 (each item List.mem_cons_self).nonempty
    | cons item' rest' =>
      rw [commaed_cons, commaed_cons] at same
      obtain ⟨rfl, tails⟩ := append_inj_passed (each item List.mem_cons_self).passes
        (each' item' List.mem_cons_self).passes (ends_commaedTail rest) (ends_commaedTail rest') same
      congr 1
      cases rest with
      | nil =>
        cases rest' with
        | nil => rfl
        | cons next' rest' => cases tails
      | cons next rest =>
        cases rest' with
        | nil => cases tails
        | cons next' rest' =>
          exact ih (fun other member => each other (List.mem_cons_of_mem _ member))
            (fun other member => each' other (List.mem_cons_of_mem _ member)) (List.cons.inj tails).2

theorem numberJson_ne_nil (value : Number) : numberJson value ≠ [] := by
  unfold numberJson
  split
  · next negative magnitude finite =>
    obtain ⟨unit, text, split, _⟩ := Dsl.matchNumber_numberText negative magnitude Dsl.ends_nil
    rw [finite, split]
    exact List.cons_ne_nil _ _
  · decide

theorem canonicalJson_ne_nil (value : Json) : canonicalJson value ≠ [] := by
  cases value with
  | null => rw [canonicalJson]; decide
  | bool value => rw [canonicalJson]; cases value <;> decide
  | number value => rw [canonicalJson]; exact numberJson_ne_nil value
  | string value => rw [canonicalJson]; exact List.cons_ne_nil _ _
  | array items => rw [canonicalJson]; exact List.cons_ne_nil _ _
  | object fields => rw [canonicalJson]; exact List.cons_ne_nil _ _

theorem item_canonicalJson (value : Json) : Item (canonicalJson value) :=
  ⟨passes_canonicalJson value 0, canonicalJson_ne_nil value⟩

theorem canonicalJson_array {items items' : List Json}
    (same : canonicalJson (.array items) = canonicalJson (.array items')) :
    items.map canonicalJson = items'.map canonicalJson := by
  rw [canonicalJson, canonicalJson, canonicalItems_eq, canonicalItems_eq] at same
  have inner := List.append_cancel_right (List.cons.inj same).2
  apply commaed_injective _ _ inner
  all_goals
    intro item member
    obtain ⟨value, _, rfl⟩ := List.mem_map.mp member
    exact item_canonicalJson value

theorem canonicalJson_string {a b : Text} (same : canonicalJson (.string a) = canonicalJson (.string b)) : a = b := by
  rw [canonicalJson, canonicalJson] at same
  have read := congrArg Dsl.unquote same
  rw [Dsl.unquote_quote, Dsl.unquote_quote] at read
  exact Option.some.inj read

theorem entryText_injective {entry entry' : Text × Text} (same : entryText entry = entryText entry') :
    entry = entry' := by
  have read := congrArg Dsl.matchString same
  rw [entryText, entryText, Dsl.matchString_quote, Dsl.matchString_quote] at read
  obtain ⟨keys, values⟩ := Prod.mk.inj (Option.some.inj read)
  have key := congrArg Dsl.unquote keys
  rw [Dsl.unquote_quote, Dsl.unquote_quote] at key
  exact Prod.ext (Option.some.inj key) (List.cons.inj values).2

section

variable {α : Type} {fields fields' : List (Text × α)}

theorem keys_firstOfKey (fields : List (Text × α)) : ((firstOfKey fields).map Prod.fst).Nodup := by
  induction fields with
  | nil => exact List.nodup_nil
  | cons field rest ih =>
    rw [firstOfKey, List.map_cons, List.nodup_cons]
    refine ⟨fun member => ?_, (List.filter_sublist.map Prod.fst).nodup ih⟩
    obtain ⟨other, inside, same⟩ := List.mem_map.mp member
    exact of_decide_eq_true (List.mem_filter.mp inside).2 same

theorem valueAt_filter (p : Text → Bool) (key : Text) (fields : List (Text × α)) :
    valueAt key (fields.filter fun field => p field.1) = if p key then valueAt key fields else none := by
  induction fields with
  | nil => simp [valueAt]
  | cons field rest ih =>
    rw [List.filter_cons]
    by_cases kept : p field.1 = true
    · rw [if_pos kept, valueAt, valueAt, ih]
      by_cases here : field.1 = key
      · rw [if_pos here, if_pos here, ← here, if_pos kept]
      · rw [if_neg here, if_neg here]
    · rw [if_neg kept, ih, valueAt]
      by_cases here : field.1 = key
      · rw [← here, if_neg kept, if_neg kept]
      · rw [if_neg here]

theorem valueAt_firstOfKey (key : Text) (fields : List (Text × α)) :
    valueAt key (firstOfKey fields) = valueAt key fields := by
  induction fields with
  | nil => rfl
  | cons field rest ih =>
    rw [firstOfKey, valueAt, valueAt]
    by_cases same : field.1 = key
    · rw [if_pos same, if_pos same]
    · have kept := valueAt_filter (fun other => decide (other ≠ field.1)) key (firstOfKey rest)
      rw [if_neg same, if_neg same, kept, if_pos (decide_eq_true (Ne.symm same)), ih]

theorem valueAt_eq_some (nodup : (fields.map Prod.fst).Nodup) {key : Text} {value : α} :
    valueAt key fields = some value ↔ (key, value) ∈ fields := by
  induction fields with
  | nil => simp [valueAt]
  | cons field rest ih =>
    rw [List.map_cons, List.nodup_cons] at nodup
    rw [valueAt, List.mem_cons]
    by_cases same : field.1 = key
    · subst same
      have outside : (field.1, value) ∉ rest := fun member => nodup.1 (List.mem_map.mpr ⟨_, member, rfl⟩)
      rw [if_pos rfl, Option.some_inj, Prod.ext_iff]
      exact ⟨fun equal => .inl ⟨rfl, equal.symm⟩, fun found => found.elim (fun equal => equal.2.symm) fun later =>
        absurd later outside⟩
    · rw [if_neg same, ih nodup.2]
      exact ⟨.inr, fun found => found.resolve_left fun equal => same (congrArg Prod.fst equal).symm⟩

theorem valueAt_sortedByKey (key : Text) (fields : List (Text × α)) :
    valueAt key (sortedByKey (firstOfKey fields)) = valueAt key fields := by
  have perm : (sortedByKey (firstOfKey fields)).Perm (firstOfKey fields) := List.perm_insertionSort _ _
  have nodup : ((sortedByKey (firstOfKey fields)).map Prod.fst).Nodup :=
    (perm.map Prod.fst).nodup_iff.mpr (keys_firstOfKey fields)
  rw [← valueAt_firstOfKey key fields]
  apply Option.ext
  intro value
  rw [valueAt_eq_some nodup, valueAt_eq_some (keys_firstOfKey fields), perm.mem_iff]

theorem valueAt_map {β : Type} (f : α → β) (key : Text) (fields : List (Text × α)) :
    valueAt key (fields.map fun field => (field.1, f field.2)) = (valueAt key fields).map f := by
  induction fields with
  | nil => rfl
  | cons field rest ih =>
    rw [List.map_cons, valueAt, valueAt, ih]
    split <;> rfl

end

/-- Objects of one text have the same text under each key. -/
theorem canonicalJson_object {fields fields' : Fields}
    (same : canonicalJson (.object fields) = canonicalJson (.object fields')) (key : Text) :
    (valueAt key fields).map canonicalJson = (valueAt key fields').map canonicalJson := by
  rw [canonicalJson, canonicalJson] at same
  have inner := List.append_cancel_right (List.cons.inj same).2
  have item : ∀ fields : Fields, ∀ text ∈ (sortedByKey (firstOfKey (canonicalFields fields))).map entryText,
      Item text := by
    intro fields text member
    refine ⟨passes_entries (passes_canonicalFields fields) text member 0, ?_⟩
    obtain ⟨entry, _, rfl⟩ := List.mem_map.mp member
    exact List.cons_ne_nil _ _
  have sorted := List.map_injective_iff.mpr (fun _ _ => entryText_injective)
    (commaed_injective (item fields) (item fields') inner)
  rw [← valueAt_map, ← valueAt_map, ← canonicalFields_eq, ← canonicalFields_eq, ← valueAt_sortedByKey, sorted,
    valueAt_sortedByKey]

end LasecSimul.Subsystems
