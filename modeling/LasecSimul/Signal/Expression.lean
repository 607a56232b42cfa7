import LasecSimul.Lib.Decimal
import LasecSimul.Lib.Fallible
import LasecSimul.Signal.Compiler

/-!
# `ExpressionParser`

Calc expressions have five levels: comparisons, sums, products, powers and factors, from the loosest to
the tightest. A text is a list of bytes. The parser pushes postfix code, so what a call returns is the
code it pushed and the text it left.
-/

namespace LasecSimul.Signal.Expression

open Lib.Numeral (Text)

def isBlank (c : Char) : Bool := c = ' ' ∨ c = '\t'

def whitespace (text : Text) : Text := text.dropWhile isBlank

def isLetter (c : Char) : Bool := c.isAlpha ∨ c = '_'

def isSign (c : Char) : Bool := c = '+' ∨ c = '-'

def isMark (c : Char) : Bool := c = 'e' ∨ c = 'E'

/-- The characters of a number. A sign goes on only after the mark of an exponent. -/
def numberRun (previous : Option Char) : Text → Text × Text
  | [] => ([], [])
  | c :: rest =>
    if (c.isDigit || c == '.' || isMark c || isSign c) && (!isSign c || previous.all isMark) then
      (c :: (numberRun (some c) rest).1, (numberRun (some c) rest).2)
    else ([], c :: rest)

inductive Operand where
  | number (token : Text)
  | name (name : Text)

/-- The number or the name at the front of a text. -/
def readOperand : Text → Option (Operand × Text)
  | [] => none
  | c :: rest =>
    if c.isDigit ∨ c = '.' then
      some (.number (numberRun none (c :: rest)).1, (numberRun none (c :: rest)).2)
    else if isLetter c then
      some (.name (c :: rest.takeWhile fun c => isLetter c ∨ c.isDigit),
        rest.dropWhile fun c => isLetter c ∨ c.isDigit)
    else none

inductive Fault where
  | invalid (reason : String)
  | endless
  deriving DecidableEq

/-- Why the parser does not return: it throws with `rest` unread, its search of a name never ends, or
the model has run out of fuel. -/
inductive Stop where
  | invalid (rest : Text) (reason : String)
  | endless
  | exhausted

def Fault.stop (rest : Text) : Fault → Stop
  | .invalid reason => .invalid rest reason
  | .endless => .endless

section Parser

variable {R : Type} (push : Operand → Except Fault (ExpressionInstruction R))

abbrev Parsed (R : Type) := List (ExpressionInstruction R) × Text

/-- The operator a level reads next, and what follows it. -/
def consumeOperator (operators : List (Char × ExpressionInstruction R)) (text : Text) :
    Option (ExpressionInstruction R × Text) :=
  match whitespace text with
  | [] => none
  | c :: rest => (operators.lookup c).map fun operator => (operator, rest)

def consume (value : Char) (text : Text) : Option Text :=
  match whitespace text with
  | [] => none
  | c :: rest => if c = value then some rest else none

/-- The loop of a level whose operators associate to the left. -/
def chain (next : Text → Except Stop (Parsed R)) (operators : List (Char × ExpressionInstruction R)) :
    Nat → List (ExpressionInstruction R) → Text → Except Stop (Parsed R)
  | 0, _, _ => .error .exhausted
  | count + 1, code, text =>
    match consumeOperator operators text with
    | none => .ok (code, whitespace text)
    | some (operator, rest) => do
      let right ← next rest
      chain next operators count (code ++ right.1 ++ [operator]) right.2

mutual

def comparison : Nat → Text → Except Stop (Parsed R)
  | 0, _ => .error .exhausted
  | fuel + 1, text => do
    let left ← expression fuel text
    chain (expression fuel) [('>', .greater), ('<', .less)] fuel left.1 left.2

def expression : Nat → Text → Except Stop (Parsed R)
  | 0, _ => .error .exhausted
  | fuel + 1, text => do
    let left ← term fuel text
    chain (term fuel) [('+', .add), ('-', .subtract)] fuel left.1 left.2

def term : Nat → Text → Except Stop (Parsed R)
  | 0, _ => .error .exhausted
  | fuel + 1, text => do
    let left ← power fuel text
    chain (power fuel) [('*', .multiply), ('/', .divide)] fuel left.1 left.2

def power : Nat → Text → Except Stop (Parsed R)
  | 0, _ => .error .exhausted
  | fuel + 1, text => do
    let base ← factor fuel text
    match consume '^' base.2 with
    | none => .ok (base.1, whitespace base.2)
    | some rest => do
      let exponent ← power fuel rest
      .ok (base.1 ++ exponent.1 ++ [.power], exponent.2)

def factor : Nat → Text → Except Stop (Parsed R)
  | 0, _ => .error .exhausted
  | fuel + 1, text =>
    match consume '-' text with
    | some rest => do
      let negated ← factor fuel rest
      .ok (negated.1 ++ [.negate], negated.2)
    | none =>
      match consume '(' text with
      | some rest => do
        let inner ← comparison fuel rest
        match consume ')' inner.2 with
        | some rest => .ok (inner.1, rest)
        | none => .error (.invalid (whitespace inner.2) "')' ausente")
      | none =>
        match readOperand (whitespace text) with
        | some (read, rest) =>
          match push read with
          | .ok instruction => .ok ([instruction], rest)
          | .error fault => .error (fault.stop rest)
        | none =>
          .error (.invalid (whitespace text) (if whitespace text = [] then "operando ausente" else "operando invalido"))

end

end Parser

inductive Operator where
  | add | subtract | multiply | divide | power | greater | less
  deriving DecidableEq

def Operator.instruction {R : Type} : Operator → ExpressionInstruction R
  | .add => .add
  | .subtract => .subtract
  | .multiply => .multiply
  | .divide => .divide
  | .power => .power
  | .greater => .greater
  | .less => .less

inductive Level where
  | comparison | expression | term | power | factor
  deriving DecidableEq

namespace Level

def rank : Level → Nat
  | comparison => 4
  | expression => 3
  | term => 2
  | power => 1
  | factor => 0

def next : Level → Level
  | comparison => expression
  | expression => term
  | term => power
  | power => factor
  | factor => factor

def operators : Level → List (Char × Operator)
  | comparison => [('>', .greater), ('<', .less)]
  | expression => [('+', .add), ('-', .subtract)]
  | term => [('*', .multiply), ('/', .divide)]
  | power => [('^', .power)]
  | factor => []

end Level

inductive Tree where
  | operand (read : Operand)
  | negate (inner : Tree)
  | binary (operator : Operator) (left right : Tree)

/-- A front of the text is an expression of the level with this tree, and `rest` is what follows it. -/
inductive Derives : Level → Text → Tree → Text → Prop
  | tighter {level : Level} {text : Text} {tree : Tree} {rest : Text} (loose : 0 < level.rank)
      (inner : Derives level.next text tree rest) : Derives level text tree rest
  | leftwards {level : Level} {text middle after rest : Text} {left right : Tree} {c : Char} {operator : Operator}
      (loose : 1 < level.rank) (first : Derives level text left middle) (follows : whitespace middle = c :: after)
      (reads : level.operators.lookup c = some operator) (second : Derives level.next after right rest) :
      Derives level text (.binary operator left right) rest
  | rightwards {text middle after rest : Text} {left right : Tree} (first : Derives .factor text left middle)
      (follows : whitespace middle = '^' :: after) (second : Derives .power after right rest) :
      Derives .power text (.binary .power left right) rest
  | negate {text after rest : Text} {tree : Tree} (opens : whitespace text = '-' :: after)
      (inner : Derives .factor after tree rest) : Derives .factor text (.negate tree) rest
  | group {text after middle rest : Text} {tree : Tree} (opens : whitespace text = '(' :: after)
      (inner : Derives .comparison after tree middle) (closes : whitespace middle = ')' :: rest) :
      Derives .factor text tree rest
  | operand {text rest : Text} {read : Operand} (reads : readOperand (whitespace text) = some (read, rest)) :
      Derives .factor text (.operand read) rest

/-- The text is an expression with this tree, up to blanks around it. -/
def Sentence (text : Text) (tree : Tree) : Prop :=
  ∃ rest, Derives .comparison text tree rest ∧ whitespace rest = []

theorem whitespace_whitespace (text : Text) : whitespace (whitespace text) = whitespace text :=
  List.dropWhile_idempotent isBlank text

theorem length_whitespace_le (text : Text) : (whitespace text).length ≤ text.length :=
  List.length_dropWhile_le _ _

theorem numberRun_length (previous : Option Char) (text : Text) :
    (numberRun previous text).2.length ≤ text.length := by
  induction text generalizing previous with
  | nil => exact Nat.le_refl 0
  | cons c rest ih =>
    rw [numberRun]
    split
    · exact Nat.le_succ_of_le (ih (some c))
    · exact Nat.le_refl _

theorem readOperand_shorter {text rest : Text} {read : Operand} (reads : readOperand text = some (read, rest)) :
    rest.length < text.length := by
  cases text with
  | nil => cases reads
  | cons c text =>
    rw [readOperand] at reads
    split at reads
    next number =>
      obtain ⟨-, rfl⟩ := Prod.mk.inj (Option.some.inj reads)
      have taken : ((c.isDigit || c == '.' || isMark c || isSign c) && (!isSign c || Option.all isMark none)) = true := by
        rw [Option.all_none, Bool.or_true, Bool.and_true]
        rcases number with digit | rfl
        · rw [digit]
          rfl
        · rfl
      rw [numberRun, if_pos taken]
      exact Nat.lt_succ_of_le (numberRun_length (some c) text)
    next =>
      split at reads
      · obtain ⟨-, rfl⟩ := Prod.mk.inj (Option.some.inj reads)
        exact Nat.lt_succ_of_le (List.length_dropWhile_le _ _)
      · cases reads

theorem length_after {text after : Text} {c : Char} (follows : whitespace text = c :: after) :
    after.length < text.length := by
  have shrunk := length_whitespace_le text
  rw [follows] at shrunk
  exact shrunk

theorem Derives.shorter {level : Level} {text rest : Text} {tree : Tree} (derived : Derives level text tree rest) :
    rest.length < text.length := by
  induction derived with
  | tighter _ _ ih => exact ih
  | leftwards _ _ follows _ _ first second =>
    have step := length_after follows
    omega
  | rightwards _ follows _ first second =>
    have step := length_after follows
    omega
  | negate opens _ ih =>
    have step := length_after opens
    omega
  | group opens _ closes ih =>
    have opened := length_after opens
    have closed := length_after closes
    omega
  | operand reads => exact lt_of_lt_of_le (readOperand_shorter reads) (length_whitespace_le _)

/-! ### What the parser accepts is derived -/

section Levels

variable {R : Type} {push : Operand → Except Fault (ExpressionInstruction R)}

/-- The postfix code of a tree. -/
def Tree.code (push : Operand → Except Fault (ExpressionInstruction R)) :
    Tree → Option (List (ExpressionInstruction R))
  | .operand read => (push read).toOption.map fun instruction => [instruction]
  | .negate inner => (inner.code push).map fun code => code ++ [.negate]
  | .binary operator left right =>
    (left.code push).bind fun first => (right.code push).map fun second => first ++ second ++ [operator.instruction]

theorem code_binary {operator : Operator} {left right : Tree} {first second : List (ExpressionInstruction R)}
    (one : left.code push = some first) (two : right.code push = some second) :
    (Tree.binary operator left right).code push = some (first ++ second ++ [operator.instruction]) := by
  rw [Tree.code, one, two]
  rfl

theorem code_binary_some {operator : Operator} {left right : Tree} {code : List (ExpressionInstruction R)}
    (coded : (Tree.binary operator left right).code push = some code) :
    ∃ first second, left.code push = some first ∧ right.code push = some second ∧
      code = first ++ second ++ [operator.instruction] := by
  obtain ⟨first, one, rest⟩ := Option.bind_eq_some_iff.mp coded
  obtain ⟨second, two, joined⟩ := Option.map_eq_some_iff.mp rest
  exact ⟨first, second, one, two, joined.symm⟩

/-- The parser of a level. -/
def atLevel (push : Operand → Except Fault (ExpressionInstruction R)) (fuel : Nat) (level : Level) (text : Text) :
    Except Stop (Parsed R) :=
  match level with
  | .comparison => comparison push fuel text
  | .expression => expression push fuel text
  | .term => term push fuel text
  | .power => power push fuel text
  | .factor => factor push fuel text

def Level.instructions (level : Level) : List (Char × ExpressionInstruction R) :=
  level.operators.map fun (c, operator) => (c, operator.instruction)

theorem atLevel_zero (level : Level) (text : Text) : atLevel push 0 level text = .error .exhausted := by
  cases level <;> rfl

theorem atLevel_loose {level : Level} (loose : 1 < level.rank) (fuel : Nat) (text : Text) :
    atLevel push (fuel + 1) level text = (do
      let left ← atLevel push fuel level.next text
      chain (atLevel push fuel level.next) level.instructions fuel left.1 left.2) := by
  cases level with
  | comparison => rfl
  | expression => rfl
  | term => rfl
  | power => exact absurd loose (by decide)
  | factor => exact absurd loose (by decide)

theorem lookup_instructions (level : Level) (c : Char) :
    level.instructions.lookup c = (level.operators.lookup c).map (Operator.instruction (R := R)) := by
  unfold Level.instructions
  induction level.operators with
  | nil => rfl
  | cons entry entries ih =>
    rw [List.map_cons, List.lookup_cons, List.lookup_cons, ih]
    split <;> rfl

theorem consumeOperator_cons {level : Level} {text after : Text} {c : Char} (follows : whitespace text = c :: after) :
    consumeOperator (R := R) level.instructions text =
      (level.operators.lookup c).map fun operator => (operator.instruction, after) := by
  unfold consumeOperator
  rw [follows]
  show (level.instructions.lookup c).map _ = _
  rw [lookup_instructions, Option.map_map]
  rfl

theorem consumeOperator_some {level : Level} {text rest : Text} {instruction : ExpressionInstruction R}
    (consumed : consumeOperator level.instructions text = some (instruction, rest)) :
    ∃ c operator, whitespace text = c :: rest ∧ level.operators.lookup c = some operator ∧
      instruction = operator.instruction := by
  cases follows : whitespace text with
  | nil =>
    unfold consumeOperator at consumed
    rw [follows] at consumed
    cases consumed
  | cons c after =>
    rw [consumeOperator_cons follows] at consumed
    obtain ⟨operator, lookup, same⟩ := Option.map_eq_some_iff.mp consumed
    obtain ⟨rfl, rfl⟩ := Prod.mk.inj same
    exact ⟨c, operator, rfl, lookup, rfl⟩

theorem consume_some {value : Char} {text rest : Text} :
    consume value text = some rest ↔ whitespace text = value :: rest := by
  unfold consume
  cases whitespace text with
  | nil => exact ⟨nofun, nofun⟩
  | cons c after =>
    show (if c = value then some after else none) = some rest ↔ _
    rw [Option.ite_none_right_eq_some, Option.some.injEq, List.cons.injEq]

/-- What a call of the parser returned was derived. -/
def Derived (push : Operand → Except Fault (ExpressionInstruction R)) (level : Level) (text : Text)
    (parsed : Parsed R) : Prop :=
  ∃ tree rest, Derives level text tree rest ∧ whitespace rest = whitespace parsed.2 ∧
    tree.code push = some parsed.1

theorem chain_derived {level : Level} (loose : 1 < level.rank) {next : Text → Except Stop (Parsed R)}
    (nexts : ∀ text parsed, next text = .ok parsed → Derived push level.next text parsed) {start text : Text}
    {count : Nat} {code : List (ExpressionInstruction R)} {parsed : Parsed R}
    (first : Derived push level start (code, text))
    (done : chain next level.instructions count code text = .ok parsed) : Derived push level start parsed := by
  induction count generalizing code text with
  | zero => cases done
  | succ count ih =>
    rw [chain] at done
    split at done
    · obtain rfl := Except.ok.inj done
      obtain ⟨tree, rest, derives, ends, coded⟩ := first
      exact ⟨tree, rest, derives, ends.trans (whitespace_whitespace text).symm, coded⟩
    next instruction after consumed =>
      obtain ⟨c, operator, follows, reads, rfl⟩ := consumeOperator_some consumed
      obtain ⟨right, read, again⟩ := Lib.Fallible.bind_ok done
      obtain ⟨left, middle, derivesLeft, ends, codedLeft⟩ := first
      obtain ⟨tree, rest, derivesRight, endsRight, codedRight⟩ := nexts _ _ read
      have joined : Derived push level start (code ++ right.1 ++ [operator.instruction], right.2) :=
        ⟨.binary operator left tree, rest, .leftwards loose derivesLeft (ends.trans follows) reads derivesRight,
          endsRight, code_binary codedLeft codedRight⟩
      exact ih joined again

theorem atLevel_derived (fuel : Nat) :
    ∀ level text parsed, atLevel push fuel level text = .ok parsed → Derived push level text parsed := by
  induction fuel with
  | zero =>
    intro level text parsed done
    rw [atLevel_zero] at done
    cases done
  | succ fuel ih =>
    intro level text parsed done
    by_cases loose : 1 < level.rank
    · rw [atLevel_loose loose] at done
      obtain ⟨left, first, chained⟩ := Lib.Fallible.bind_ok done
      obtain ⟨tree, rest, derives, ends, coded⟩ := ih _ _ _ first
      exact chain_derived loose (ih level.next) ⟨tree, rest, .tighter (by omega) derives, ends, coded⟩ chained
    · cases level with
      | comparison => exact absurd (by decide) loose
      | expression => exact absurd (by decide) loose
      | term => exact absurd (by decide) loose
      | power =>
        change power push (fuel + 1) text = .ok parsed at done
        rw [power] at done
        obtain ⟨base, first, continued⟩ := Lib.Fallible.bind_ok done
        obtain ⟨left, middle, derivesLeft, ends, codedLeft⟩ := ih .factor _ _ first
        split at continued
        · obtain rfl := Except.ok.inj continued
          exact ⟨left, middle, .tighter (by decide) derivesLeft, ends.trans (whitespace_whitespace _).symm,
            codedLeft⟩
        next after consumed =>
          obtain ⟨exponent, second, returned⟩ := Lib.Fallible.bind_ok continued
          obtain rfl := Except.ok.inj returned
          obtain ⟨right, rest, derivesRight, endsRight, codedRight⟩ := ih .power _ _ second
          exact ⟨.binary .power left right, rest,
            .rightwards derivesLeft (ends.trans (consume_some.mp consumed)) derivesRight, endsRight,
            code_binary codedLeft codedRight⟩
      | factor =>
        change factor push (fuel + 1) text = .ok parsed at done
        rw [factor] at done
        split at done
        next after consumed =>
          obtain ⟨negated, inner, returned⟩ := Lib.Fallible.bind_ok done
          obtain rfl := Except.ok.inj returned
          obtain ⟨tree, rest, derives, ends, coded⟩ := ih .factor _ _ inner
          refine ⟨.negate tree, rest, .negate (consume_some.mp consumed) derives, ends, ?_⟩
          rw [Tree.code, coded]
          rfl
        next =>
          split at done
          next after consumed =>
            obtain ⟨inner, read, closed⟩ := Lib.Fallible.bind_ok done
            obtain ⟨tree, middle, derives, ends, coded⟩ := ih .comparison _ _ read
            split at closed
            next rest consumedClose =>
              obtain rfl := Except.ok.inj closed
              exact ⟨tree, rest, .group (consume_some.mp consumed) derives
                (ends.trans (consume_some.mp consumedClose)), rfl, coded⟩
            · cases closed
          next =>
            split at done
            next read rest reads =>
              split at done
              next instruction pushed =>
                obtain rfl := Except.ok.inj done
                refine ⟨.operand read, rest, .operand reads, rfl, ?_⟩
                rw [Tree.code, pushed]
                rfl
              · cases done
            · cases done

/-! ### What is derived is accepted -/

/-- No operator of the level, or of a tighter one, comes next. -/
def Follows (level : Level) (rest : Text) : Prop :=
  ∀ c ∈ (whitespace rest).head?, ∀ tight : Level, tight.rank ≤ level.rank → tight.operators.lookup c = none

theorem Follows.next {level : Level} {rest : Text} (follows : Follows level rest) : Follows level.next rest := by
  intro c first tight small
  have down : level.next.rank ≤ level.rank := by cases level <;> decide
  exact follows c first tight (small.trans down)

theorem Follows.stops {level : Level} {rest : Text} (follows : Follows level rest) :
    consumeOperator (R := R) level.instructions rest = none := by
  cases blank : whitespace rest with
  | nil =>
    unfold consumeOperator
    rw [blank]
  | cons c after =>
    have first : c ∈ (whitespace rest).head? := by
      rw [blank]
      rfl
    rw [consumeOperator_cons blank, follows c first level (Nat.le_refl _)]
    rfl

theorem operators_disjoint {level tight : Level} (tighter : tight.rank < level.rank) :
    ∀ p ∈ level.operators, ∀ q ∈ tight.operators, p.1 ≠ q.1 := by
  cases level <;> cases tight <;> first | exact absurd tighter (by decide) | decide

theorem lookup_tighter {level tight : Level} {c : Char} {operator : Operator}
    (reads : level.operators.lookup c = some operator) (tighter : tight.rank < level.rank) :
    tight.operators.lookup c = none := by
  obtain ⟨p, member, same⟩ := List.lookup_isSome_iff.mp (Option.isSome_of_eq_some reads)
  rw [List.lookup_eq_none_iff]
  intro q other
  rw [bne_iff_ne, eq_of_beq same]
  exact operators_disjoint tighter p member q other

theorem follows_operator {level : Level} {middle after : Text} {c : Char} {operator : Operator}
    (follows : whitespace middle = c :: after) (reads : level.operators.lookup c = some operator)
    (loose : 0 < level.rank) : Follows level.next middle := by
  intro d first tight small
  rw [follows] at first
  obtain rfl := Option.some.inj first
  have down : level.next.rank < level.rank := by
    cases level with
    | factor => exact absurd loose (by decide)
    | _ => decide
  exact lookup_tighter reads (by omega)

theorem follows_close {level : Level} {middle rest : Text} (closes : whitespace middle = ')' :: rest) :
    Follows level middle := by
  intro c first tight _
  rw [closes] at first
  obtain rfl := Option.some.inj first
  cases tight <;> decide

theorem follows_end {level : Level} {rest : Text} (ends : whitespace rest = []) : Follows level rest := by
  intro c first
  rw [ends] at first
  cases first

theorem chain_whitespace {next : Text → Except Stop (Parsed R)} {operators : List (Char × ExpressionInstruction R)}
    {text other : Text} (same : whitespace text = whitespace other) (count : Nat)
    (code : List (ExpressionInstruction R)) :
    chain next operators count code text = chain next operators count code other := by
  cases count with
  | zero => rfl
  | succ count =>
    unfold chain consumeOperator
    rw [same]

/-- The parser of the level reads exactly this code, with enough fuel. -/
def Reads (push : Operand → Except Fault (ExpressionInstruction R)) (level : Level) (text : Text)
    (code : List (ExpressionInstruction R)) (rest : Text) : Prop :=
  ∀ fuel, 6 * text.length + level.rank + 1 ≤ fuel →
    ∃ left, atLevel push fuel level text = .ok (code, left) ∧ whitespace left = whitespace rest

/-- The loop of the level goes on behind this code. -/
def Continues (push : Operand → Except Fault (ExpressionInstruction R)) (level : Level) (text : Text)
    (code : List (ExpressionInstruction R)) (rest : Text) : Prop :=
  ∀ fuel, 6 * text.length + level.rank ≤ fuel →
    ∃ count, (whitespace rest).length < count ∧
      (do
        let left ← atLevel push fuel level.next text
        chain (atLevel push fuel level.next) level.instructions fuel left.1 left.2) =
      chain (atLevel push fuel level.next) level.instructions count code rest

theorem Continues.reads {level : Level} {text rest : Text} {code : List (ExpressionInstruction R)}
    (loose : 1 < level.rank) (continues : Continues push level text code rest) (follows : Follows level rest) :
    Reads push level text code rest := by
  intro fuel enough
  obtain ⟨fuel, rfl⟩ : ∃ less, fuel = less + 1 := ⟨fuel - 1, by omega⟩
  obtain ⟨count, many, same⟩ := continues fuel (by omega)
  obtain ⟨count, rfl⟩ : ∃ less, count = less + 1 := ⟨count - 1, by omega⟩
  refine ⟨whitespace rest, ?_, whitespace_whitespace rest⟩
  rw [atLevel_loose loose, same, chain, follows.stops]

theorem Reads.continues {level : Level} {text rest : Text} {code : List (ExpressionInstruction R)}
    (loose : 0 < level.rank) (short : rest.length < text.length) (reads : Reads push level.next text code rest) :
    Continues push level text code rest := by
  intro fuel enough
  have down : level.next.rank + 1 ≤ level.rank := by
    cases level with
    | factor => exact absurd loose (by decide)
    | _ => decide
  obtain ⟨left, read, ends⟩ := reads fuel (by omega)
  have shrunk := length_whitespace_le rest
  refine ⟨fuel, by omega, ?_⟩
  rw [read]
  exact chain_whitespace ends fuel code

theorem Continues.leftwards {level : Level} {text middle after rest : Text} {c : Char} {operator : Operator}
    {first second : List (ExpressionInstruction R)} (continues : Continues push level text first middle)
    (shortLeft : middle.length < text.length) (shortRight : rest.length < after.length)
    (follows : whitespace middle = c :: after)
    (lookup : level.operators.lookup c = some operator) (loose : 0 < level.rank)
    (reads : Reads push level.next after second rest) :
    Continues push level text (first ++ second ++ [operator.instruction]) rest := by
  intro fuel enough
  obtain ⟨count, many, same⟩ := continues fuel enough
  rw [follows, List.length_cons] at many
  have step := length_after follows
  have shrunk := length_whitespace_le rest
  have down : level.next.rank + 1 ≤ level.rank := by
    cases level with
    | factor => exact absurd loose (by decide)
    | _ => decide
  obtain ⟨left, read, ends⟩ := reads fuel (by omega)
  obtain ⟨count, rfl⟩ : ∃ less, count = less + 1 := ⟨count - 1, by omega⟩
  refine ⟨count, by omega, ?_⟩
  rw [same, chain, consumeOperator_cons follows, lookup]
  show (atLevel push fuel level.next after >>= _) = _
  rw [read]
  exact chain_whitespace ends count _

theorem reads_succ {level : Level} {text rest : Text} {code : List (ExpressionInstruction R)}
    (step : ∀ fuel, 6 * text.length + level.rank ≤ fuel →
      ∃ left, atLevel push (fuel + 1) level text = .ok (code, left) ∧ whitespace left = whitespace rest) :
    Reads push level text code rest := by
  intro fuel enough
  obtain ⟨fuel, rfl⟩ : ∃ less, fuel = less + 1 := ⟨fuel - 1, by omega⟩
  exact step fuel (by omega)

theorem consume_none {value : Char} {text : Text} (other : ∀ c ∈ (whitespace text).head?, c ≠ value) :
    consume value text = none := by
  unfold consume
  cases blank : whitespace text with
  | nil => rfl
  | cons c after =>
    rw [blank] at other
    exact if_neg (other c rfl)

theorem power_base {text left : Text} {code : List (ExpressionInstruction R)} {fuel : Nat}
    (read : atLevel push fuel .factor text = .ok (code, left)) (stops : consume '^' left = none) :
    atLevel push (fuel + 1) .power text = .ok (code, whitespace left) := by
  change factor push fuel text = _ at read
  show power push (fuel + 1) text = _
  rw [power, read]
  show (match consume '^' left with | none => _ | some rest => _) = _
  rw [stops]

theorem power_exponent {text middle after left : Text} {first second : List (ExpressionInstruction R)} {fuel : Nat}
    (base : atLevel push fuel .factor text = .ok (first, middle)) (follows : whitespace middle = '^' :: after)
    (exponent : atLevel push fuel .power after = .ok (second, left)) :
    atLevel push (fuel + 1) .power text = .ok (first ++ second ++ [.power], left) := by
  change factor push fuel text = _ at base
  change power push fuel after = _ at exponent
  show power push (fuel + 1) text = _
  rw [power, base]
  show (match consume '^' middle with | none => _ | some rest => _) = _
  rw [consume_some.mpr follows]
  show (power push fuel after >>= _) = _
  rw [exponent]
  rfl

theorem factor_negate {text after left : Text} {code : List (ExpressionInstruction R)} {fuel : Nat}
    (opens : whitespace text = '-' :: after) (inner : atLevel push fuel .factor after = .ok (code, left)) :
    atLevel push (fuel + 1) .factor text = .ok (code ++ [.negate], left) := by
  change factor push fuel after = _ at inner
  show factor push (fuel + 1) text = _
  rw [factor, consume_some.mpr opens]
  show (factor push fuel after >>= _) = _
  rw [inner]
  rfl

theorem factor_group {text after middle rest : Text} {code : List (ExpressionInstruction R)} {fuel : Nat}
    (opens : whitespace text = '(' :: after) (inner : atLevel push fuel .comparison after = .ok (code, middle))
    (closes : whitespace middle = ')' :: rest) :
    atLevel push (fuel + 1) .factor text = .ok (code, rest) := by
  have signless : consume '-' text = none := by
    refine consume_none fun c first => ?_
    rw [opens] at first
    obtain rfl := Option.some.inj first
    decide
  change comparison push fuel after = _ at inner
  show factor push (fuel + 1) text = _
  rw [factor, signless, consume_some.mpr opens]
  show (comparison push fuel after >>= _) = _
  rw [inner]
  show (match consume ')' middle with | some rest => _ | none => _) = _
  rw [consume_some.mpr closes]

theorem factor_operand {text rest : Text} {read : Operand} {instruction : ExpressionInstruction R} {fuel : Nat}
    (reads : readOperand (whitespace text) = some (read, rest)) (pushed : push read = .ok instruction) :
    atLevel push (fuel + 1) .factor text = .ok ([instruction], rest) := by
  have plain : ∀ value : Char, value = '-' ∨ value = '(' → consume value text = none := by
    intro value mark
    refine consume_none fun c first => ?_
    rintro rfl
    obtain ⟨after, blank⟩ := List.head?_eq_some_iff.mp first
    rw [blank] at reads
    rcases mark with rfl | rfl <;> cases reads
  show factor push (fuel + 1) text = _
  rw [factor, plain '-' (.inl rfl), plain '(' (.inr rfl), reads]
  show (match push read with | .ok instruction => _ | .error fault => _) = _
  rw [pushed]

theorem Derives.reads {level : Level} {text rest : Text} {tree : Tree} (derived : Derives level text tree rest) :
    ∀ code, tree.code push = some code →
      (1 < level.rank → Follows level.next rest → Continues push level text code rest) ∧
      (Follows level rest → Reads push level text code rest) := by
  induction derived with
  | @tighter level text tree rest loose inner ih =>
    intro code coded
    have continues (follows : Follows level.next rest) : Continues push level text code rest :=
      ((ih code coded).2 follows).continues loose inner.shorter
    refine ⟨fun _ => continues, fun follows => ?_⟩
    by_cases chained : 1 < level.rank
    · exact (continues follows.next).reads chained follows
    · cases level with
      | power =>
        refine reads_succ fun fuel enough => ?_
        obtain ⟨left, read, ends⟩ := (ih code coded).2 follows.next fuel enough
        refine ⟨whitespace left, power_base read (consume_none fun c first => ?_),
          (whitespace_whitespace left).trans ends⟩
        rintro rfl
        rw [ends] at first
        exact Option.some_ne_none _ (follows '^' first .power (Nat.le_refl 1))
      | factor => exact absurd loose (by decide)
      | _ => exact absurd (by decide) chained
  | @leftwards level text middle after rest left right c operator loose first follows lookup second ihFirst ihSecond =>
    intro code coded
    obtain ⟨one, two, codedLeft, codedRight, rfl⟩ := code_binary_some coded
    have continues (ends : Follows level.next rest) :
        Continues push level text (one ++ two ++ [operator.instruction]) rest :=
      ((ihFirst one codedLeft).1 loose (follows_operator follows lookup (by omega))).leftwards first.shorter
        second.shorter follows lookup (by omega) ((ihSecond two codedRight).2 ends)
    exact ⟨fun _ => continues, fun ends => (continues ends.next).reads loose ends⟩
  | @rightwards text middle after rest left right first follows second ihFirst ihSecond =>
    intro code coded
    obtain ⟨one, two, codedLeft, codedRight, rfl⟩ := code_binary_some coded
    refine ⟨fun loose => absurd loose (by decide), fun ends => reads_succ fun fuel enough => ?_⟩
    have short := first.shorter
    have step := length_after follows
    change 6 * text.length + 1 ≤ fuel at enough
    have stops : Follows Level.power.next middle := follows_operator follows rfl (by decide)
    obtain ⟨base, readBase, endsBase⟩ := (ihFirst one codedLeft).2 stops fuel enough
    obtain ⟨left, read, endsLeft⟩ := (ihSecond two codedRight).2 ends fuel (by
      show 6 * after.length + 1 + 1 ≤ fuel
      omega)
    exact ⟨left, power_exponent readBase (endsBase.trans follows) read, endsLeft⟩
  | @negate text after rest tree opens inner ih =>
    intro code coded
    obtain ⟨inside, codedInside, rfl⟩ := Option.map_eq_some_iff.mp coded
    refine ⟨fun loose => absurd loose (by decide), fun ends => reads_succ fun fuel enough => ?_⟩
    have step := length_after opens
    obtain ⟨left, read, endsLeft⟩ := (ih inside codedInside).2 ends fuel (by
      show 6 * after.length + 0 + 1 ≤ fuel
      omega)
    exact ⟨left, factor_negate opens read, endsLeft⟩
  | @group text after middle rest tree opens inner closes ih =>
    intro code coded
    refine ⟨fun loose => absurd loose (by decide), fun _ => reads_succ fun fuel enough => ?_⟩
    have step := length_after opens
    obtain ⟨left, read, endsLeft⟩ := (ih code coded).2 (follows_close closes) fuel (by
      show 6 * after.length + 4 + 1 ≤ fuel
      omega)
    exact ⟨rest, factor_group opens read (endsLeft.trans closes), rfl⟩
  | @operand text rest read reads =>
    intro code coded
    obtain ⟨instruction, pushed, rfl⟩ := Lib.Fallible.toOption_map coded
    refine ⟨fun loose => absurd loose (by decide), fun _ => reads_succ fun fuel _ => ?_⟩
    exact ⟨rest, factor_operand reads pushed, rfl⟩

theorem Derived.shorter {level : Level} {text : Text} {parsed : Parsed R} (derived : Derived push level text parsed) :
    (whitespace parsed.2).length < text.length := by
  obtain ⟨tree, rest, derives, ends, -⟩ := derived
  rw [← ends]
  exact lt_of_le_of_lt (length_whitespace_le rest) derives.shorter

theorem bind_enough {α β : Type} {first : Except Stop α} {continue_ : α → Except Stop β}
    (one : first ≠ .error .exhausted) (two : ∀ value, first = .ok value → continue_ value ≠ .error .exhausted) :
    (first >>= continue_) ≠ .error .exhausted := by
  cases first with
  | error stop => exact fun h => one (congrArg Except.error (Except.error.inj h))
  | ok value => exact two value rfl

theorem chain_enough {level : Level} {next : Text → Except Stop (Parsed R)} {size : Nat}
    (shrinks : ∀ text parsed, next text = .ok parsed → (whitespace parsed.2).length < text.length)
    (enough : ∀ text, text.length < size → next text ≠ .error .exhausted) {count : Nat}
    {code : List (ExpressionInstruction R)} {text : Text} (small : (whitespace text).length ≤ size)
    (many : (whitespace text).length < count) :
    chain next level.instructions count code text ≠ .error .exhausted := by
  induction count generalizing code text with
  | zero => exact absurd many (Nat.not_lt_zero _)
  | succ count ih =>
    rw [chain]
    split
    · exact nofun
    next instruction after consumed =>
      have shorter : after.length < (whitespace text).length := by
        obtain ⟨c, operator, follows, -, -⟩ := consumeOperator_some consumed
        rw [follows]
        exact Nat.lt_succ_self _
      refine bind_enough (enough after (by omega)) fun right read => ?_
      have less := shrinks after right read
      exact ih (by omega) (by omega)

theorem atLevel_enough (fuel : Nat) :
    ∀ level text, 6 * text.length + level.rank + 1 ≤ fuel → atLevel push fuel level text ≠ .error .exhausted := by
  induction fuel with
  | zero => exact fun level text enough => absurd enough (by omega)
  | succ fuel ih =>
    intro level text enough
    by_cases loose : 1 < level.rank
    · have down : level.next.rank + 1 ≤ level.rank := by
        cases level with
        | factor => exact absurd loose (by decide)
        | _ => decide
      rw [atLevel_loose loose]
      refine bind_enough (ih _ _ (by omega)) fun left read => ?_
      have less := (atLevel_derived fuel _ _ _ read).shorter
      have shrinks : ∀ text parsed, atLevel push fuel level.next text = .ok parsed →
          (whitespace parsed.2).length < text.length :=
        fun text parsed done => (atLevel_derived fuel _ _ _ done).shorter
      exact chain_enough shrinks (fun after small => ih _ after (by omega)) (Nat.le_of_lt less) (by omega)
    · cases level with
      | comparison => exact absurd (by decide) loose
      | expression => exact absurd (by decide) loose
      | term => exact absurd (by decide) loose
      | power =>
        change 6 * text.length + 1 + 1 ≤ fuel + 1 at enough
        show power push (fuel + 1) text ≠ _
        rw [power]
        refine bind_enough (ih .factor text (by
          show 6 * text.length + 0 + 1 ≤ fuel
          omega)) fun base read => ?_
        split
        · exact nofun
        next after consumed =>
          have short := (atLevel_derived fuel .factor _ _ read).shorter
          rw [consume_some.mp consumed, List.length_cons] at short
          refine bind_enough (ih .power after (by
            show 6 * after.length + 1 + 1 ≤ fuel
            omega)) fun _ _ => nofun
      | factor =>
        change 6 * text.length + 0 + 1 ≤ fuel + 1 at enough
        show factor push (fuel + 1) text ≠ _
        rw [factor]
        split
        next after consumed =>
          have step := length_after (consume_some.mp consumed)
          refine bind_enough (ih .factor after (by
            show 6 * after.length + 0 + 1 ≤ fuel
            omega)) fun _ _ => nofun
        next =>
          split
          next after consumed =>
            have step := length_after (consume_some.mp consumed)
            refine bind_enough (ih .comparison after (by
              show 6 * after.length + 4 + 1 ≤ fuel
              omega)) fun inner _ => ?_
            split <;> exact nofun
          next =>
            split
            next read rest _ =>
              split
              · exact nofun
              next fault _ => cases fault <;> exact nofun
            · exact nofun

end Levels

end LasecSimul.Signal.Expression
