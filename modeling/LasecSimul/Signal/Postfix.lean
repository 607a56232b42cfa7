import LasecSimul.Base.Binary64
import LasecSimul.Signal.Evaluation
import LasecSimul.Signal.Expression

/-!
# The code of a calc expression on its stack

`parse` measures how deep the code stacks its values, in sixteen bits, and `execute` runs the code on a
stack of that size. The value of a text is the value of its tree.
-/

namespace LasecSimul.Signal.Expression

open Lib.Binary (FloatValue binary64)
open Lib.Decimal (sto scanDecimal inFormat)
open Lib.Numeral (Text)

variable {R : Type}

/-- The search of a name counts in sixteen bits, so it starts again after the first 65536 inputs. -/
def lookup (inputs : List SignalPortDefinition) (name : Text) : Except Fault Nat :=
  match (inputs.take 65536).findIdx? fun input => input.id.toList = name with
  | some index => .ok index
  | none => .error (if inputs.length < 65536 then .invalid "entrada desconhecida" else .endless)

/-- What a number or a name pushes; `ofFloat` makes a value of what `std::stod` reads. -/
def push (ofFloat : FloatValue → R) (inputs : List SignalPortDefinition) :
    Operand → Except Fault (ExpressionInstruction R)
  | .number token =>
    match sto binary64 token with
    | some read => .ok (.constant (ofFloat read.1))
    | none => .error (.invalid "numero invalido")
  | .name name => (lookup inputs name).map .input

/-- The final and the largest depth of the stack; `none` when the code takes more than there is. -/
def measure : List (ExpressionInstruction R) → Nat → Nat → Option (Nat × Nat)
  | [], depth, maximum => some (depth, maximum)
  | .constant _ :: code, depth, maximum | .input _ :: code, depth, maximum =>
    measure code (depth + 1) (max maximum (depth + 1))
  | .negate :: code, depth, maximum => if depth < 1 then none else measure code depth (max maximum depth)
  | _ :: code, depth, maximum => if depth < 2 then none else measure code (depth - 1) (max maximum (depth - 1))

def parse (ofFloat : FloatValue → R) (inputs : List SignalPortDefinition) (text : Text) :
    Except Stop (List (ExpressionInstruction R) × Nat) := do
  let parsed ← comparison (push ofFloat inputs) (6 * text.length + 5) text
  if whitespace parsed.2 ≠ [] then .error (.invalid (whitespace parsed.2) "token inesperado")
  else
    match measure parsed.1 0 0 with
    | some (1, maximum) => .ok (parsed.1, maximum % 65536)
    | _ => .error (.invalid [] "expressao incompleta")

theorem parse_enough (ofFloat : FloatValue → R) (inputs : List SignalPortDefinition) (text : Text) :
    parse ofFloat inputs text ≠ .error .exhausted := by
  refine bind_enough (atLevel_enough _ .comparison text (Nat.le_refl _)) fun parsed _ => ?_
  split
  · exact nofun
  · split <;> exact nofun

namespace Tree

def depth : Tree → Nat
  | .operand _ => 1
  | .negate inner => inner.depth
  | .binary _ left right => max left.depth (right.depth + 1)

def All (P : Operand → Prop) : Tree → Prop
  | .operand read => P read
  | .negate inner => inner.All P
  | .binary _ left right => left.All P ∧ right.All P

theorem depth_pos (tree : Tree) : 0 < tree.depth := by
  induction tree with
  | operand => exact Nat.one_pos
  | negate _ ih => exact ih
  | binary _ left right ihLeft _ => exact lt_of_lt_of_le ihLeft (le_max_left _ _)

theorem All.mono {P Q : Operand → Prop} (weaker : ∀ read, P read → Q read) {tree : Tree} (all : tree.All P) :
    tree.All Q := by
  induction tree with
  | operand read => exact weaker read all
  | negate _ ih => exact ih all
  | binary _ left right ihLeft ihRight => exact ⟨ihLeft all.1, ihRight all.2⟩

theorem all_pushed {push : Operand → Except Fault (ExpressionInstruction R)} {tree : Tree} :
    (∃ code, tree.code push = some code) ↔ tree.All fun read => ∃ instruction, push read = .ok instruction := by
  induction tree with
  | operand read =>
    constructor
    · rintro ⟨code, coded⟩
      obtain ⟨instruction, pushed, -⟩ := Lib.Fallible.toOption_map coded
      exact ⟨instruction, pushed⟩
    · rintro ⟨instruction, pushed⟩
      refine ⟨[instruction], ?_⟩
      rw [code, pushed]
      rfl
  | negate inner ih =>
    refine Iff.trans ?_ ih
    constructor
    · rintro ⟨code, coded⟩
      obtain ⟨inside, codedInside, -⟩ := Option.map_eq_some_iff.mp coded
      exact ⟨inside, codedInside⟩
    · rintro ⟨inside, coded⟩
      refine ⟨inside ++ [.negate], ?_⟩
      rw [code, coded]
      rfl
  | binary operator left right ihLeft ihRight =>
    refine Iff.trans ?_ (and_congr ihLeft ihRight)
    constructor
    · rintro ⟨code, coded⟩
      obtain ⟨first, second, one, two, -⟩ := code_binary_some coded
      exact ⟨⟨first, one⟩, ⟨second, two⟩⟩
    · rintro ⟨⟨first, one⟩, ⟨second, two⟩⟩
      exact ⟨_, code_binary one two⟩

end Tree

def Operator.ofInstruction : ExpressionInstruction R → Option Operator
  | .add => some .add
  | .subtract => some .subtract
  | .multiply => some .multiply
  | .divide => some .divide
  | .power => some .power
  | .greater => some .greater
  | .less => some .less
  | _ => none

/-- The trees that postfix code stands for, on a stack of trees. -/
def rebuild : List (ExpressionInstruction Operand) → List Tree → List Tree
  | [], stack => stack
  | .constant read :: code, stack => rebuild code (.operand read :: stack)
  | .negate :: code, inner :: stack => rebuild code (.negate inner :: stack)
  | instruction :: code, right :: left :: stack =>
    match Operator.ofInstruction instruction with
    | some operator => rebuild code (.binary operator left right :: stack)
    | none => []
  | _, _ => []

theorem rebuild_code (tree : Tree) :
    ∃ code, tree.code (fun read => .ok (.constant read)) = some code ∧
      ∀ rest stack, rebuild (code ++ rest) stack = rebuild rest (tree :: stack) := by
  induction tree with
  | operand read => exact ⟨[.constant read], rfl, fun _ _ => rfl⟩
  | negate inner ih =>
    obtain ⟨code, coded, rebuilt⟩ := ih
    refine ⟨code ++ [.negate], ?_, fun rest stack => ?_⟩
    · rw [Tree.code, coded]
      rfl
    · rw [List.append_assoc, rebuilt]
      rfl
  | binary operator left right ihLeft ihRight =>
    obtain ⟨first, one, rebuiltLeft⟩ := ihLeft
    obtain ⟨second, two, rebuiltRight⟩ := ihRight
    refine ⟨_, code_binary one two, fun rest stack => ?_⟩
    rw [List.append_assoc, List.append_assoc, rebuiltLeft, rebuiltRight]
    cases operator <;> rfl

theorem Sentence.parsed {push : Operand → Except Fault (ExpressionInstruction R)} {text : Text} {tree : Tree}
    {code : List (ExpressionInstruction R)} (sentence : Sentence text tree) (coded : tree.code push = some code) :
    ∃ left, comparison push (6 * text.length + 5) text = .ok (code, left) ∧ whitespace left = [] := by
  obtain ⟨rest, derived, ends⟩ := sentence
  obtain ⟨left, read, same⟩ := (derived.reads code coded).2 (follows_end ends) _ (Nat.le_refl _)
  exact ⟨left, read, same.trans ends⟩

theorem Sentence.unique {text : Text} {tree other : Tree} (one : Sentence text tree) (two : Sentence text other) :
    tree = other := by
  obtain ⟨first, coded, rebuilt⟩ := rebuild_code tree
  obtain ⟨second, codedOther, rebuiltOther⟩ := rebuild_code other
  obtain ⟨left, read, -⟩ := one.parsed coded
  obtain ⟨leftOther, readOther, -⟩ := two.parsed codedOther
  rw [read] at readOther
  obtain ⟨rfl, -⟩ := Prod.mk.inj (Except.ok.inj readOther)
  have same := (rebuilt [] []).symm.trans (rebuiltOther [] [])
  exact (List.cons.inj same).1

def IsLoad : ExpressionInstruction R → Prop
  | .constant _ | .input _ => True
  | _ => False

theorem measure_load {instruction : ExpressionInstruction R} (load : IsLoad instruction)
    (rest : List (ExpressionInstruction R)) (depth maximum : Nat) :
    measure (instruction :: rest) depth maximum = measure rest (depth + 1) (max maximum (depth + 1)) := by
  cases instruction <;> first | rfl | exact load.elim

theorem measure_operator (operator : Operator) (rest : List (ExpressionInstruction R)) {depth : Nat} (maximum : Nat)
    (deep : 2 ≤ depth) :
    measure (operator.instruction :: rest) depth maximum = measure rest (depth - 1) (max maximum (depth - 1)) := by
  cases operator <;> exact if_neg (Nat.not_lt.mpr deep)

theorem measure_code {push : Operand → Except Fault (ExpressionInstruction R)}
    (loads : ∀ read instruction, push read = .ok instruction → IsLoad instruction) (tree : Tree) :
    ∀ code, tree.code push = some code → ∀ rest depth maximum,
      measure (code ++ rest) depth maximum = measure rest (depth + 1) (max maximum (depth + tree.depth)) := by
  induction tree with
  | operand read =>
    intro code coded rest depth maximum
    obtain ⟨instruction, pushed, rfl⟩ := Lib.Fallible.toOption_map coded
    exact measure_load (loads read instruction pushed) rest depth maximum
  | negate inner ih =>
    intro code coded rest depth maximum
    obtain ⟨inside, codedInside, rfl⟩ := Option.map_eq_some_iff.mp coded
    have deep := inner.depth_pos
    rw [List.append_assoc, ih inside codedInside]
    show (if depth + 1 < 1 then none else _) = _
    rw [if_neg (by omega)]
    congr 1
    show max (max maximum (depth + inner.depth)) (depth + 1) = max maximum (depth + inner.depth)
    omega
  | binary operator left right ihLeft ihRight =>
    intro code coded rest depth maximum
    obtain ⟨first, second, one, two, rfl⟩ := code_binary_some coded
    have deep := left.depth_pos
    rw [List.append_assoc, List.append_assoc, ihLeft first one, ihRight second two]
    show measure (operator.instruction :: rest) _ _ = _
    rw [measure_operator operator rest _ (by omega)]
    congr 1
    show max (max (max maximum (depth + left.depth)) (depth + 1 + right.depth)) (depth + 1 + 1 - 1) =
      max maximum (depth + max left.depth (right.depth + 1))
    omega

theorem push_loads (ofFloat : FloatValue → R) (inputs : List SignalPortDefinition) (read : Operand)
    (instruction : ExpressionInstruction R) (pushed : push ofFloat inputs read = .ok instruction) :
    IsLoad instruction := by
  cases read with
  | number token =>
    unfold push at pushed
    dsimp only at pushed
    split at pushed
    · obtain rfl := Except.ok.inj pushed
      exact trivial
    · cases pushed
  | name name =>
    change (lookup inputs name).map ExpressionInstruction.input = .ok instruction at pushed
    cases found : lookup inputs name with
    | error => rw [found] at pushed; cases pushed
    | ok index =>
      rw [found] at pushed
      obtain rfl := Except.ok.inj pushed
      exact trivial

theorem parse_ok {ofFloat : FloatValue → R} {inputs : List SignalPortDefinition} {text : Text}
    {code : List (ExpressionInstruction R)} {depth : Nat} :
    parse ofFloat inputs text = .ok (code, depth) ↔
      ∃ tree, Sentence text tree ∧ tree.code (push ofFloat inputs) = some code ∧ depth = tree.depth % 65536 := by
  have measured (tree : Tree) (coded : tree.code (push ofFloat inputs) = some code) :
      measure code 0 0 = some (1, tree.depth) := by
    have whole := measure_code (push_loads ofFloat inputs) tree code coded [] 0 0
    rw [List.append_nil, Nat.zero_add, Nat.zero_add, Nat.zero_max] at whole
    exact whole
  constructor
  · intro parsed
    obtain ⟨read, done, checked⟩ := Lib.Fallible.bind_ok parsed
    change atLevel (push ofFloat inputs) (6 * text.length + 5) .comparison text = .ok read at done
    obtain ⟨tree, rest, derived, ends, coded⟩ := atLevel_derived _ _ text read done
    split at checked
    · cases checked
    next blank =>
      split at checked
      next maximum found =>
        obtain ⟨rfl, rfl⟩ := Prod.mk.inj (Except.ok.inj checked)
        rw [measured tree coded] at found
        obtain rfl := (Prod.mk.inj (Option.some.inj found)).2
        exact ⟨tree, ⟨rest, derived, ends.trans (not_not.mp blank)⟩, coded, rfl⟩
      · cases checked
  · rintro ⟨tree, sentence, coded, rfl⟩
    obtain ⟨left, read, ends⟩ := sentence.parsed coded
    rw [parse, read]
    show (if whitespace left ≠ [] then _ else _) = _
    rw [if_neg (not_not_intro ends)]
    dsimp only
    rw [measured tree coded]
    rfl

/-- The value of a token that is one whole decimal literal a `double` holds. -/
def literal (token : Text) : Option FloatValue :=
  match scanDecimal token with
  | some (magnitude, []) => inFormat binary64 (.finite false magnitude)
  | _ => none

/-- `std::stod` reads a front of the number, and the name is one of the first 65536 inputs. -/
def Operand.Taken (inputs : List SignalPortDefinition) : Operand → Prop
  | .number token => (sto binary64 token).isSome
  | .name text => ∃ input ∈ inputs.take 65536, input.id.toList = text

/-- The number is one whole decimal literal, and the name is the name of an input. -/
def Operand.Whole (inputs : List SignalPortDefinition) : Operand → Prop
  | .number token => (literal token).isSome
  | .name text => ∃ input ∈ inputs, input.id.toList = text

/-- An expression whose operands are all taken has whole operands and fits a depth of sixteen bits, and
one with whole operands has them all taken. -/
def Meets (inputs : List SignalPortDefinition) (text : Text) : Prop :=
  ∀ tree, Sentence text tree →
    (tree.All (Operand.Taken inputs) → tree.All (Operand.Whole inputs) ∧ tree.depth < 65536) ∧
    (tree.All (Operand.Whole inputs) → tree.All (Operand.Taken inputs))

theorem lookup_ok {inputs : List SignalPortDefinition} {name : Text} {index : Nat}
    (found : lookup inputs name = .ok index) : index = inputs.findIdx fun input => input.id.toList = name := by
  unfold lookup at found
  split at found
  next first here =>
    obtain rfl := Except.ok.inj found
    rw [List.findIdx?_take] at here
    obtain ⟨index, whole, guarded⟩ := Option.bind_eq_some_iff.mp here
    obtain ⟨rfl, -⟩ := Option.guard_eq_some_iff.mp guarded
    exact (List.findIdx?_eq_some_iff_findIdx_eq.mp whole).2.symm
  · cases found

theorem lookup_taken {inputs : List SignalPortDefinition} {name : Text} :
    (∃ index, lookup inputs name = .ok index) ↔ ∃ input ∈ inputs.take 65536, input.id.toList = name := by
  unfold lookup
  cases here : (inputs.take 65536).findIdx? fun input => input.id.toList = name with
  | some index =>
    refine ⟨fun _ => ?_, fun _ => ⟨index, rfl⟩⟩
    have any : (inputs.take 65536).any (fun input => input.id.toList = name) = true := by
      rw [← List.findIdx?_isSome, here]
      rfl
    obtain ⟨input, member, named⟩ := List.any_eq_true.mp any
    exact ⟨input, member, of_decide_eq_true named⟩
  | none =>
    constructor
    · rintro ⟨_, ⟨⟩⟩
    · rintro ⟨input, member, named⟩
      exact absurd named (of_decide_eq_false (List.findIdx?_eq_none_iff.mp here input member))

theorem push_taken (ofFloat : FloatValue → R) (inputs : List SignalPortDefinition) (read : Operand) :
    (∃ instruction, push ofFloat inputs read = .ok instruction) ↔ read.Taken inputs := by
  unfold push Operand.Taken
  cases read with
  | number token =>
    dsimp only
    cases sto binary64 token with
    | some read => exact ⟨fun _ => rfl, fun _ => ⟨_, rfl⟩⟩
    | none =>
      constructor
      · rintro ⟨_, ⟨⟩⟩
      · rintro ⟨⟩
  | name name =>
    refine Iff.trans ?_ lookup_taken
    dsimp only
    cases lookup inputs name with
    | ok index => exact ⟨fun _ => ⟨index, rfl⟩, fun _ => ⟨_, rfl⟩⟩
    | error =>
      constructor
      · rintro ⟨_, ⟨⟩⟩
      · rintro ⟨_, ⟨⟩⟩

theorem literal_sto {token : Text} {value : FloatValue} (whole : literal token = some value) :
    sto binary64 token = some (value, []) := by
  unfold literal at whole
  split at whole
  next magnitude scanned =>
    rw [sto, Lib.Decimal.scanFloat_whole scanned]
    show (inFormat binary64 (.finite false magnitude)).map _ = _
    rw [whole]
    rfl
  · cases whole

theorem Tree.All.and {P Q : Operand → Prop} {tree : Tree} (one : tree.All P) (two : tree.All Q) :
    tree.All fun read => P read ∧ Q read := by
  induction tree with
  | operand read => exact ⟨one, two⟩
  | negate _ ih => exact ih one two
  | binary _ _ _ ihLeft ihRight => exact ⟨ihLeft one.1 two.1, ihRight one.2 two.2⟩

theorem code_taken {ofFloat : FloatValue → R} {inputs : List SignalPortDefinition} {tree : Tree} :
    (∃ code, tree.code (push ofFloat inputs) = some code) ↔ tree.All (Operand.Taken inputs) :=
  Tree.all_pushed.trans ⟨Tree.All.mono fun read => (push_taken ofFloat inputs read).mp,
    Tree.All.mono fun read => (push_taken ofFloat inputs read).mpr⟩

/-- `stack[index] = value;` -/
def store (stack : List R) (index : Nat) (value : R) : Option (List R × Nat) :=
  if index < stack.length then some (stack.set index value, index + 1) else none

/-- The two values on top, replaced by what `f` makes of them. -/
def combine (f : R → R → R) (stack : List R) : Nat → Option (List R × Nat)
  | top + 2 => do
    let left ← stack[top]?
    let right ← stack[top + 1]?
    some (stack.set top (f left right), top + 1)
  | _ => none

theorem combine_some (f : R → R → R) {stack : List R} {top : Nat} {left right : R} (first : stack[top]? = some left)
    (second : stack[top + 1]? = some right) :
    combine f stack (top + 2) = some (stack.set top (f left right), top + 1) := by
  show (stack[top]?.bind fun left => stack[top + 1]?.bind fun right => some (stack.set top (f left right), top + 1)) = _
  rw [first, second]
  rfl

/-- The code of a tree pushed its value on a stack that was otherwise left alone below. -/
structure Pushed (stack : List R) (top : Nat) (value : R) (reached : List R × Nat) : Prop where
  length : reached.1.length = stack.length
  below : ∀ index < top, reached.1[index]? = stack[index]?
  value : reached.1[top]? = some value
  top : reached.2 = top + 1

theorem pushed_set {stack : List R} {top : Nat} (inside : top < stack.length) (value : R) :
    Pushed stack top value (stack.set top value, top + 1) where
  length := List.length_set
  below := fun _ lower => List.getElem?_set_ne (Nat.ne_of_gt lower)
  value := List.getElem?_set_self inside
  top := rfl

theorem Pushed.set {stack : List R} {top : Nat} {value : R} {reached : List R × Nat}
    (pushed : Pushed stack top value reached) {other : R} :
    Pushed stack top other (reached.1.set top other, top + 1) where
  length := List.length_set.trans pushed.length
  below := fun index lower => (List.getElem?_set_ne (Nat.ne_of_gt lower)).trans (pushed.below index lower)
  value := List.getElem?_set_self (List.getElem?_eq_some_iff.mp pushed.value).1
  top := rfl

section Execution

variable [Double R]

/-- One instruction on the stack and its top; `none` is an access outside the stack. -/
def step (valuation : Nat → R) : ExpressionInstruction R → List R → Nat → Option (List R × Nat)
  | .constant value, stack, top => store stack top value
  | .input index, stack, top => store stack top (valuation index)
  | .add, stack, top => combine (fun left right => left + right) stack top
  | .subtract, stack, top => combine (fun left right => left - right) stack top
  | .multiply, stack, top => combine (fun left right => left * right) stack top
  | .divide, stack, top => combine (fun left right => left / right) stack top
  | .power, stack, top => combine Double.pow stack top
  | .greater, stack, top => combine (fun left right => if Double.lt right left then 1.0 else 0.0) stack top
  | .less, stack, top => combine (fun left right => if Double.lt left right then 1.0 else 0.0) stack top
  | .negate, stack, top + 1 => stack[top]?.map fun value => (stack.set top (-value), top + 1)
  | .negate, _, 0 => none

def execute (valuation : Nat → R) : List (ExpressionInstruction R) → List R → Nat → Option (List R × Nat)
  | [], stack, top => some (stack, top)
  | instruction :: code, stack, top =>
    (step valuation instruction stack top).bind fun reached => execute valuation code reached.1 reached.2

/-- `stack[0]` after the code. -/
def result (valuation : Nat → R) (code : List (ExpressionInstruction R)) (stack : List R) : Option R :=
  (execute valuation code stack 0).bind fun reached => reached.1[0]?

def Operand.value (ofFloat : FloatValue → R) (inputs : List SignalPortDefinition) (valuation : Nat → R) :
    Operand → R
  | .number token => (literal token).elim 0.0 ofFloat
  | .name text => valuation (inputs.findIdx fun input => input.id.toList = text)

def Operator.apply : Operator → R → R → R
  | .add, left, right => left + right
  | .subtract, left, right => left - right
  | .multiply, left, right => left * right
  | .divide, left, right => left / right
  | .power, left, right => Double.pow left right
  | .greater, left, right => if Double.lt right left then 1.0 else 0.0
  | .less, left, right => if Double.lt left right then 1.0 else 0.0

def Tree.value (operand : Operand → R) : Tree → R
  | .operand read => operand read
  | .negate inner => -inner.value operand
  | .binary operator left right => operator.apply (left.value operand) (right.value operand)

theorem step_operator (valuation : Nat → R) (operator : Operator) (stack : List R) (top : Nat) :
    step valuation operator.instruction stack top = combine operator.apply stack top := by
  cases operator <;> rfl

theorem execute_append (valuation : Nat → R) (code rest : List (ExpressionInstruction R)) (stack : List R) (top : Nat) :
    execute valuation (code ++ rest) stack top =
      (execute valuation code stack top).bind fun reached => execute valuation rest reached.1 reached.2 := by
  induction code generalizing stack top with
  | nil => rfl
  | cons instruction code ih =>
    show (step valuation instruction stack top).bind _ = ((step valuation instruction stack top).bind _).bind _
    cases step valuation instruction stack top with
    | none => rfl
    | some reached => exact ih reached.1 reached.2

/-- The instruction pushes this value. -/
def Loads (valuation : Nat → R) (value : R) : ExpressionInstruction R → Prop
  | .constant other => other = value
  | .input index => valuation index = value
  | _ => False

/-- The operand is taken, for an instruction that pushes its value. -/
def Means (push : Operand → Except Fault (ExpressionInstruction R)) (valuation : Nat → R) (operand : Operand → R)
    (read : Operand) : Prop :=
  ∃ instruction, push read = .ok instruction ∧ Loads valuation (operand read) instruction

theorem step_loads {valuation : Nat → R} {value : R} {instruction : ExpressionInstruction R}
    (loads : Loads valuation value instruction) (stack : List R) (top : Nat) :
    step valuation instruction stack top = store stack top value := by
  cases instruction with
  | constant other =>
    obtain rfl : other = value := loads
    rfl
  | input index =>
    obtain rfl : valuation index = value := loads
    rfl
  | _ => exact loads.elim

theorem execute_code {push : Operand → Except Fault (ExpressionInstruction R)} {valuation : Nat → R}
    {operand : Operand → R} (tree : Tree) (means : tree.All (Means push valuation operand)) :
    ∀ code, tree.code push = some code → ∀ stack top,
      (top + tree.depth ≤ stack.length →
        ∃ reached, execute valuation code stack top = some reached ∧ Pushed stack top (tree.value operand) reached) ∧
      (stack.length < top + tree.depth → execute valuation code stack top = none) := by
  induction tree with
  | operand read =>
    intro code coded stack top
    obtain ⟨instruction, pushed, rfl⟩ := Lib.Fallible.toOption_map coded
    obtain ⟨same, pushes, loads⟩ := means
    obtain rfl := Except.ok.inj (pushed.symm.trans pushes)
    have once : execute valuation [instruction] stack top = (store stack top (operand read)).bind some := by
      rw [← step_loads loads]
      rfl
    rw [once, store]
    constructor
    · intro fits
      have inside : top < stack.length := fits
      rw [if_pos inside]
      exact ⟨_, rfl, pushed_set inside _⟩
    · intro deep
      have outside : ¬top < stack.length := by
        change stack.length < top + 1 at deep
        omega
      rw [if_neg outside]
      rfl
  | negate inner ih =>
    intro code coded stack top
    obtain ⟨inside, codedInside, rfl⟩ := Option.map_eq_some_iff.mp coded
    rw [execute_append]
    obtain ⟨runs, overflows⟩ := ih means inside codedInside stack top
    constructor
    · intro fits
      obtain ⟨⟨reached, next⟩, run, pushed⟩ := runs fits
      obtain rfl : next = top + 1 := pushed.top
      refine ⟨_, ?_, pushed.set⟩
      rw [run]
      show ((reached[top]?.map fun value => (reached.set top (-value), top + 1)).bind some) = _
      rw [pushed.value]
      rfl
    · intro deep
      rw [overflows deep]
      rfl
  | binary operator left right ihLeft ihRight =>
    intro code coded stack top
    obtain ⟨first, second, one, two, rfl⟩ := code_binary_some coded
    rw [List.append_assoc, execute_append]
    obtain ⟨runsLeft, overflowsLeft⟩ := ihLeft means.1 first one stack top
    by_cases fitsLeft : top + left.depth ≤ stack.length
    · obtain ⟨⟨middle, next⟩, run, pushed⟩ := runsLeft fitsLeft
      obtain rfl : next = top + 1 := pushed.top
      obtain ⟨runsRight, overflowsRight⟩ := ihRight means.2 second two middle (top + 1)
      rw [run]
      show (_ → ∃ reached, execute valuation (second ++ [operator.instruction]) middle (top + 1) = some reached ∧ _) ∧
        (_ → execute valuation (second ++ [operator.instruction]) middle (top + 1) = none)
      rw [execute_append]
      have same : middle.length = stack.length := pushed.length
      constructor
      · intro fits
        change top + max left.depth (right.depth + 1) ≤ stack.length at fits
        obtain ⟨⟨reached, next⟩, runRight, pushedRight⟩ := runsRight (by omega)
        obtain rfl : next = top + 1 + 1 := pushedRight.top
        have kept : reached[top]? = some (left.value operand) :=
          (pushedRight.below top (Nat.lt_succ_self top)).trans pushed.value
        have both : Pushed stack top (left.value operand) (reached, top + 1) :=
          ⟨pushedRight.length.trans pushed.length,
            fun index lower => (pushedRight.below index (by omega)).trans (pushed.below index lower), kept, rfl⟩
        refine ⟨_, ?_, both.set⟩
        rw [runRight]
        show (step valuation operator.instruction reached (top + 2)).bind some = _
        rw [step_operator, combine_some operator.apply kept pushedRight.value]
        rfl
      · intro deep
        change stack.length < top + max left.depth (right.depth + 1) at deep
        rw [overflowsRight (by omega)]
        rfl
    · rw [overflowsLeft (by omega)]
      constructor
      · intro fits
        change top + max left.depth (right.depth + 1) ≤ stack.length at fits
        omega
      · exact fun _ => rfl

/-- The texts that are accepted are the texts of the grammar, and their code computes the value of their
tree on every stack of the measured size. -/
def Correct (ofFloat : FloatValue → R) (inputs : List SignalPortDefinition) (text : Text) : Prop :=
  ((∃ parsed, parse ofFloat inputs text = .ok parsed) ↔
    ∃ tree, Sentence text tree ∧ tree.All (Operand.Whole inputs)) ∧
  ∀ code depth, parse ofFloat inputs text = .ok (code, depth) →
    ∃ tree, Sentence text tree ∧ tree.All (Operand.Whole inputs) ∧
      ∀ (valuation : Nat → R) (stack : List R), max 1 depth ≤ stack.length →
        result valuation code stack = some (tree.value (Operand.value ofFloat inputs valuation))

theorem push_means {ofFloat : FloatValue → R} {inputs : List SignalPortDefinition} {read : Operand}
    (taken : read.Taken inputs) (whole : read.Whole inputs) (valuation : Nat → R) :
    Means (push ofFloat inputs) valuation (Operand.value ofFloat inputs valuation) read := by
  cases read with
  | number token =>
    obtain ⟨value, is⟩ := Option.isSome_iff_exists.mp whole
    refine ⟨.constant (ofFloat value), ?_, ?_⟩
    · rw [push, literal_sto is]
    · show ofFloat value = (literal token).elim 0.0 ofFloat
      rw [is]
      rfl
  | name name =>
    obtain ⟨index, found⟩ := lookup_taken.mpr taken
    refine ⟨.input index, ?_, ?_⟩
    · rw [push, found]
      rfl
    · exact congrArg valuation (lookup_ok found)

theorem result_code {ofFloat : FloatValue → R} {inputs : List SignalPortDefinition} {tree : Tree}
    {code : List (ExpressionInstruction R)} (coded : tree.code (push ofFloat inputs) = some code)
    (whole : tree.All (Operand.Whole inputs)) (valuation : Nat → R) (stack : List R) :
    (tree.depth ≤ stack.length →
      result valuation code stack = some (tree.value (Operand.value ofFloat inputs valuation))) ∧
    (stack.length < tree.depth → result valuation code stack = none) := by
  have means : tree.All (Means (push ofFloat inputs) valuation (Operand.value ofFloat inputs valuation)) :=
    ((code_taken.mp ⟨code, coded⟩).and whole).mono fun read both => push_means both.1 both.2 valuation
  obtain ⟨runs, overflows⟩ := execute_code tree means code coded stack 0
  rw [Nat.zero_add] at runs overflows
  constructor
  · intro fits
    obtain ⟨reached, run, pushed⟩ := runs fits
    rw [result, run]
    exact pushed.value
  · intro deep
    rw [result, overflows deep]
    rfl

/-- A text is parsed and evaluated as the grammar says exactly when it meets the condition. -/
theorem parse_correct (ofFloat : FloatValue → R) (inputs : List SignalPortDefinition) (text : Text) :
    Correct ofFloat inputs text ↔ Meets inputs text := by
  constructor
  · rintro ⟨accepts, evaluates⟩ tree sentence
    constructor
    · intro taken
      obtain ⟨code, coded⟩ := (code_taken (R := R)).mpr taken
      have parsed := parse_ok.mpr ⟨tree, sentence, coded, rfl⟩
      obtain ⟨other, sentenceOther, whole⟩ := accepts.mp ⟨_, parsed⟩
      obtain rfl := sentence.unique sentenceOther
      refine ⟨whole, ?_⟩
      obtain ⟨_, -, -, computes⟩ := evaluates _ _ parsed
      by_contra deep
      have size : (List.replicate (max 1 (tree.depth % 65536)) (0.0 : R)).length = max 1 (tree.depth % 65536) :=
        List.length_replicate
      have computed := computes (fun _ => 0.0) (List.replicate (max 1 (tree.depth % 65536)) 0.0) (Nat.le_of_eq size.symm)
      have less : max 1 (tree.depth % 65536) < tree.depth := by omega
      rw [(result_code coded whole _ _).2 (size.trans_lt less)] at computed
      cases computed
    · intro whole
      obtain ⟨⟨code, depth⟩, parsed⟩ := accepts.mpr ⟨tree, sentence, whole⟩
      obtain ⟨other, sentenceOther, coded, -⟩ := parse_ok.mp parsed
      obtain rfl := sentence.unique sentenceOther
      exact code_taken.mp ⟨code, coded⟩
  · intro meets
    constructor
    · constructor
      · rintro ⟨⟨code, depth⟩, parsed⟩
        obtain ⟨tree, sentence, coded, -⟩ := parse_ok.mp parsed
        exact ⟨tree, sentence, ((meets tree sentence).1 (code_taken.mp ⟨code, coded⟩)).1⟩
      · rintro ⟨tree, sentence, whole⟩
        obtain ⟨code, coded⟩ := code_taken.mpr ((meets tree sentence).2 whole)
        exact ⟨_, parse_ok.mpr ⟨tree, sentence, coded, rfl⟩⟩
    · intro code depth parsed
      obtain ⟨tree, sentence, coded, rfl⟩ := parse_ok.mp parsed
      obtain ⟨whole, shallow⟩ := (meets tree sentence).1 (code_taken.mp ⟨code, coded⟩)
      refine ⟨tree, sentence, whole, fun valuation stack enough => (result_code coded whole valuation stack).1 ?_⟩
      rw [Nat.mod_eq_of_lt shallow] at enough
      omega

end Execution

/-- The token `1.2.3` is no decimal literal, and the parser reads it as `1.2`. -/
theorem parse_takes_partOfNumber : ¬Correct (fun value : FloatValue => value) [] "1.2.3".toList := by
  have sentence : Sentence "1.2.3".toList (.operand (.number "1.2.3".toList)) :=
    ⟨[], .tighter (by decide) (.tighter (by decide) (.tighter (by decide) (.tighter (by decide) (.operand rfl)))), rfl⟩
  rintro ⟨accepts, -⟩
  have taken : (sto binary64 "1.2.3".toList).isSome := by decide +kernel
  have coded : ∃ code, Tree.code (push (fun value : FloatValue => value) []) (.operand (.number "1.2.3".toList)) =
      some code := code_taken.mpr taken
  obtain ⟨code, coded⟩ := coded
  obtain ⟨other, sentenceOther, whole⟩ := accepts.mp ⟨_, parse_ok.mpr ⟨_, sentence, coded, rfl⟩⟩
  obtain rfl := sentence.unique sentenceOther
  cases whole

end LasecSimul.Signal.Expression
