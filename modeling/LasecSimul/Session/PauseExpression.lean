import LasecSimul.Base.Binary64
import Mathlib.Data.List.Nodup

/-!
# Pause expressions

`PauseExpression::evaluate` keeps the value that `rising` and `falling` last saw of their signal. Only the
operands that are evaluated see their signals.
-/

namespace LasecSimul.Session

inductive PauseSignalMode where
  | value | voltage | digital | current | rising | falling
  deriving DecidableEq, Repr

inductive PauseScalar (R : Type) where
  | double (value : R)
  | bool (value : Bool)
  | uint64 (value : Nat)
  deriving DecidableEq

structure PauseExpressionError where
  column : Nat
  message : String
  deriving DecidableEq

inductive Comparison where
  | eq | ne | lt | le | gt | ge
  deriving DecidableEq, Repr

inductive Node (R : Type) where
  | number (value : R)
  | boolean (value : Bool)
  | signal (column : Nat) (mode : PauseSignalMode) (reference : String)
  | not (left : Node R)
  | and (left right : Node R)
  | or (left right : Node R)
  | compare (op : Comparison) (left right : Node R)

/-- The key of `m_previousEdges` and `resolvedValues`. -/
abbrev SignalKey := PauseSignalMode × String

/-- What the signals are at one evaluation; a resolver throws a text. -/
abbrev Resolver (R : Type) := PauseSignalMode → String → Except String (PauseScalar R)

abbrev PreviousEdges := SignalKey → Option Bool

variable {R : Type} [Double R]

namespace PauseScalar

def numeric : PauseScalar R → R
  | double value => value
  | uint64 value => Double.ofUnsigned value
  | bool value => if value then 1 else 0

def truth (value : PauseScalar R) : Bool := Double.lt 1e-15 (Double.abs value.numeric)

end PauseScalar

def Comparison.holds (op : Comparison) (a b : R) : Bool :=
  match op with
  | eq => Double.eq a b
  | ne => !Double.eq a b
  | lt => Double.lt a b
  | le => Double.le a b
  | gt => Double.lt b a
  | ge => Double.le b a

/-- `m_previousEdges`, `resolvedValues`, and the results of the edge functions in the order of their evaluation. -/
structure Progress (R : Type) where
  previousEdges : PreviousEdges
  resolvedValues : List (SignalKey × PauseScalar R) := []
  edges : List (SignalKey × Bool) := []

def isEdge : PauseSignalMode → Bool
  | .rising | .falling => true
  | _ => false

/-- The edge from `previous` to `now`. -/
def edgeOf (mode : PauseSignalMode) (previous : Option Bool) (now : Bool) : Bool :=
  match mode with
  | .rising => previous = some false && now
  | _ => previous = some true && !now

abbrev Outcome (R : Type) := Progress R × Except PauseExpressionError (PauseScalar R)

/-- Go on with a value; an exception ends the evaluation. -/
def Outcome.next (outcome : Outcome R) (f : Progress R → PauseScalar R → Outcome R) : Outcome R :=
  match outcome with
  | (progress, .ok value) => f progress value
  | (progress, .error error) => (progress, .error error)

namespace Node

def resolve (resolver : Resolver R) (column : Nat) (mode : PauseSignalMode) (reference : String)
    (progress : Progress R) : Outcome R :=
  match resolver mode reference with
  | .error what => (progress, .error ⟨column, what⟩)
  | .ok current =>
    let resolved := { progress with resolvedValues := progress.resolvedValues ++ [((mode, reference), current)] }
    if isEdge mode then
      let edge := edgeOf mode (progress.previousEdges (mode, reference)) current.truth
      ({ resolved with
        previousEdges := fun key => if key = (mode, reference) then some current.truth else progress.previousEdges key
        edges := progress.edges ++ [((mode, reference), edge)] }, .ok (.bool edge))
    else (resolved, .ok current)

def eval (resolver : Resolver R) : Node R → Progress R → Outcome R
  | number value, progress => (progress, .ok (.double value))
  | boolean value, progress => (progress, .ok (.bool value))
  | signal column mode reference, progress => resolve resolver column mode reference progress
  | not left, progress => (left.eval resolver progress).next fun progress a => (progress, .ok (.bool (!a.truth)))
  | and left right, progress => (left.eval resolver progress).next fun progress a =>
      if a.truth then (right.eval resolver progress).next fun progress b => (progress, .ok (.bool b.truth))
      else (progress, .ok (.bool false))
  | or left right, progress => (left.eval resolver progress).next fun progress a =>
      if a.truth then (progress, .ok (.bool true))
      else (right.eval resolver progress).next fun progress b => (progress, .ok (.bool b.truth))
  | compare op left right, progress => (left.eval resolver progress).next fun progress a =>
      (right.eval resolver progress).next fun progress b =>
        (progress, .ok (.bool (op.holds a.numeric b.numeric)))

/-- `evaluate`, of an expression that is not empty. -/
def evaluate (expression : Node R) (resolver : Resolver R) (previousEdges : PreviousEdges) : Outcome R :=
  expression.eval resolver { previousEdges }

/-- The value of a signal as a truth value, if it can be read. -/
def signalValue (resolver : Resolver R) (key : SignalKey) : Option Bool :=
  (resolver key.1 key.2).toOption.map PauseScalar.truth

/-- The edge between two evaluations of the whole expression. -/
def idealEdge (before : SignalKey → Option Bool) (resolver : Resolver R) (key : SignalKey) : Bool :=
  (signalValue resolver key).any fun now => edgeOf key.1 (before key) now

/-- What an expression is worth, and the edge functions that are evaluated for it. -/
abbrev Traced (R : Type) := List SignalKey × Except PauseExpressionError (PauseScalar R)

def Traced.next (traced : Traced R) (f : PauseScalar R → Traced R) : Traced R :=
  match traced with
  | (keys, .ok value) => (keys ++ (f value).1, (f value).2)
  | (keys, .error error) => (keys, .error error)

def resolved (resolver : Resolver R) (edge : SignalKey → Bool) (column : Nat) (mode : PauseSignalMode)
    (reference : String) : Traced R :=
  match resolver mode reference with
  | .error what => ([], .error ⟨column, what⟩)
  | .ok current =>
    if isEdge mode then ([(mode, reference)], .ok (.bool (edge (mode, reference)))) else ([], .ok current)

/-- The meaning of an expression whose edge functions have the values `edge`. -/
def meaning (resolver : Resolver R) (edge : SignalKey → Bool) : Node R → Traced R
  | number value => ([], .ok (.double value))
  | boolean value => ([], .ok (.bool value))
  | signal column mode reference => resolved resolver edge column mode reference
  | not left => (left.meaning resolver edge).next fun a => ([], .ok (.bool (!a.truth)))
  | and left right => (left.meaning resolver edge).next fun a =>
      if a.truth then (right.meaning resolver edge).next fun b => ([], .ok (.bool b.truth))
      else ([], .ok (.bool false))
  | or left right => (left.meaning resolver edge).next fun a =>
      if a.truth then ([], .ok (.bool true))
      else (right.meaning resolver edge).next fun b => ([], .ok (.bool b.truth))
  | compare op left right => (left.meaning resolver edge).next fun a =>
      (right.meaning resolver edge).next fun b => ([], .ok (.bool (op.holds a.numeric b.numeric)))

/-- The edge functions of an expression. -/
def edgeKeys : Node R → List SignalKey
  | number _ | boolean _ => []
  | signal _ mode reference => if isEdge mode then [(mode, reference)] else []
  | not left => left.edgeKeys
  | and left right | or left right | compare _ left right => left.edgeKeys ++ right.edgeKeys

end Node

open Node

/-- At each evaluation the expression means what it says, and so does every edge function that was evaluated. -/
def Exact (expression : Node R) : (SignalKey → Option Bool) → PreviousEdges → List (Resolver R) → Prop
  | _, _, [] => True
  | before, previousEdges, resolver :: resolvers =>
    let outcome := expression.evaluate resolver previousEdges
    (∀ occurrence ∈ outcome.1.edges, occurrence.2 = idealEdge before resolver occurrence.1) ∧
      outcome.2 = (expression.meaning resolver (idealEdge before resolver)).2 ∧
      Exact expression (signalValue resolver) outcome.1.previousEdges resolvers

/-- No edge is evaluated twice, and the signal of an edge function that is not evaluated has not changed. -/
def SeesEdges (expression : Node R) (before : SignalKey → Option Bool) (resolver : Resolver R) : Prop :=
  let keys := (expression.meaning resolver (idealEdge before resolver)).1
  (∀ key, idealEdge before resolver key = true → keys.count key ≤ 1) ∧
    ∀ key ∈ expression.edgeKeys, key ∈ keys ∨ signalValue resolver key = before key

def AllSeen (expression : Node R) : (SignalKey → Option Bool) → List (Resolver R) → Prop
  | _, [] => True
  | before, resolver :: resolvers =>
    SeesEdges expression before resolver ∧ AllSeen expression (signalValue resolver) resolvers

section

variable {resolver : Resolver R} {before : SignalKey → Option Bool} {domain done : List SignalKey}
  {progress : Progress R} {traced : Traced R} {outcome : Outcome R}

/-- The edge functions `done` have been evaluated, all with their edges. -/
structure Reached (resolver : Resolver R) (before : SignalKey → Option Bool) (domain done : List SignalKey)
    (progress : Progress R) : Prop where
  seen : ∀ key ∈ domain, progress.previousEdges key = if key ∈ done then signalValue resolver key else before key
  edges : progress.edges = done.map fun key => (key, idealEdge before resolver key)

/-- The evaluation and the meaning agree, from the edge functions `done` on. -/
def Agrees (resolver : Resolver R) (before : SignalKey → Option Bool) (domain done : List SignalKey)
    (outcome : Outcome R) (traced : Traced R) : Prop :=
  (∀ key, idealEdge before resolver key = true → (done ++ traced.1).count key ≤ 1) →
    outcome.2 = traced.2 ∧ Reached resolver before domain (done ++ traced.1) outcome.1

theorem Reached.agrees (reached : Reached resolver before domain done progress) (value : PauseScalar R) :
    Agrees resolver before domain done (progress, .ok value) ([], .ok value) :=
  fun _ => ⟨rfl, by rwa [List.append_nil]⟩

theorem Agrees.next {f : Progress R → PauseScalar R → Outcome R} {g : PauseScalar R → Traced R}
    (first : Agrees resolver before domain done outcome traced)
    (rest : ∀ progress value, Reached resolver before domain (done ++ traced.1) progress →
      Agrees resolver before domain (done ++ traced.1) (f progress value) (g value)) :
    Agrees resolver before domain done (outcome.next f) (traced.next g) := by
  obtain ⟨keys, result⟩ := traced
  obtain ⟨progress, result'⟩ := outcome
  cases result with
  | error error =>
    intro once
    obtain ⟨same, reached⟩ := first once
    cases same
    exact ⟨rfl, reached⟩
  | ok value =>
    intro once
    have once' : ∀ key, idealEdge before resolver key = true → ((done ++ keys) ++ (g value).1).count key ≤ 1 := by
      intro key edge
      rw [List.append_assoc]
      exact once key edge
    obtain ⟨same, reached⟩ := first fun key edge =>
      (List.Sublist.count_le key (List.sublist_append_left _ _)).trans (once' key edge)
    cases same
    obtain ⟨same', reached'⟩ := rest progress value reached once'
    refine ⟨same', ?_⟩
    rw [List.append_assoc] at reached'
    exact reached'

theorem resolve_agrees {column : Nat} {mode : PauseSignalMode} {reference : String}
    (inside : isEdge mode = true → (mode, reference) ∈ domain) (reached : Reached resolver before domain done progress) :
    Agrees resolver before domain done (resolve resolver column mode reference progress)
      (resolved resolver (idealEdge before resolver) column mode reference) := by
  unfold resolve resolved
  cases value : resolver mode reference with
  | error what => exact fun _ => ⟨rfl, by rwa [List.append_nil]⟩
  | ok current =>
    cases edge : isEdge mode with
    | false =>
      refine fun _ => ⟨rfl, ?_⟩
      simp only [Bool.false_eq_true, if_false, List.append_nil]
      exact ⟨reached.seen, reached.edges⟩
    | true =>
      have now : signalValue resolver (mode, reference) = some current.truth := by
        unfold signalValue
        rw [value]
        rfl
      intro once
      have here : edgeOf mode (progress.previousEdges (mode, reference)) current.truth =
          idealEdge before resolver (mode, reference) := by
        rw [reached.seen _ (inside edge)]
        by_cases again : (mode, reference) ∈ done
        · have twice : 2 ≤ (done ++ [(mode, reference)]).count (mode, reference) := by
            rw [List.count_append, List.count_singleton_self]
            have := List.count_pos_iff.mpr again
            omega
          have none : idealEdge before resolver (mode, reference) ≠ true := fun held => by
            have := once _ held
            simp only [if_true] at this
            omega
          rw [if_pos again, now, Bool.eq_false_of_not_eq_true none]
          unfold edgeOf
          cases mode <;> simp
        · rw [if_neg again]
          unfold idealEdge
          rw [now]
          rfl
      refine ⟨?_, ?_⟩
      · simp only [if_true, here]
      · refine ⟨fun key member => ?_, ?_⟩
        · simp only [if_true, List.mem_append, List.mem_singleton]
          by_cases same : key = (mode, reference)
          · rw [if_pos same, if_pos (.inr same), same, now]
          · rw [if_neg same, reached.seen key member]
            simp only [same, or_false]
        · simp only [if_true, here, reached.edges, List.map_append, List.map_cons, List.map_nil]

theorem eval_agrees (expression : Node R) (inside : ∀ key ∈ expression.edgeKeys, key ∈ domain)
    (reached : Reached resolver before domain done progress) :
    Agrees resolver before domain done (expression.eval resolver progress)
      (expression.meaning resolver (idealEdge before resolver)) := by
  induction expression generalizing done progress with
  | number value | boolean value => exact reached.agrees _
  | signal column mode reference =>
    refine resolve_agrees (fun edge => inside _ ?_) reached
    simp [edgeKeys, edge]
  | not left ih => exact (ih inside reached).next fun _ a reached => reached.agrees _
  | and left right ihLeft ihRight =>
    refine (ihLeft (fun key member => inside key (List.mem_append_left _ member)) reached).next fun progress a reached => ?_
    split
    · exact (ihRight (fun key member => inside key (List.mem_append_right _ member)) reached).next
        fun _ b reached => reached.agrees _
    · exact reached.agrees _
  | or left right ihLeft ihRight =>
    refine (ihLeft (fun key member => inside key (List.mem_append_left _ member)) reached).next fun progress a reached => ?_
    split
    · exact reached.agrees _
    · exact (ihRight (fun key member => inside key (List.mem_append_right _ member)) reached).next
        fun _ b reached => reached.agrees _
  | compare op left right ihLeft ihRight =>
    exact (ihLeft (fun key member => inside key (List.mem_append_left _ member)) reached).next fun _ a reached =>
      (ihRight (fun key member => inside key (List.mem_append_right _ member)) reached).next
        fun _ b reached => reached.agrees _

end

theorem exact_of_seen (expression : Node R) {before : SignalKey → Option Bool} {previousEdges : PreviousEdges}
    (known : ∀ key ∈ expression.edgeKeys, previousEdges key = before key) {resolvers : List (Resolver R)}
    (seen : AllSeen expression before resolvers) : Exact expression before previousEdges resolvers := by
  induction resolvers generalizing before previousEdges with
  | nil => trivial
  | cons resolver resolvers ih =>
    obtain ⟨⟨once, visible⟩, rest⟩ := seen
    have start : Reached resolver before expression.edgeKeys [] ({ previousEdges } : Progress R) :=
      ⟨fun key member => by
        rw [if_neg List.not_mem_nil]
        exact known key member, rfl⟩
    obtain ⟨same, reached⟩ := eval_agrees expression (fun _ member => member) start once
    rw [List.nil_append] at reached
    refine ⟨?_, same, ih (fun key member => ?_) rest⟩
    · intro occurrence member
      unfold evaluate at member
      rw [reached.edges] at member
      obtain ⟨key, _, rfl⟩ := List.mem_map.mp member
      rfl
    · unfold evaluate
      rw [reached.seen key member]
      split
      · rfl
      · rename_i unseen
        exact ((visible key member).resolve_left unseen).symm

/-- From `compile` or `resetEdges` on, edge functions report the edges between evaluations of the expression, if at
each of them no edge is evaluated twice and no signal changes unseen. -/
theorem evaluate_edges (expression : Node R) (resolvers : List (Resolver R))
    (seen : AllSeen expression (fun _ => none) resolvers) :
    Exact expression (fun _ => none) (fun _ => none) resolvers :=
  exact_of_seen expression (fun _ _ => rfl) seen

/-- A signal that only `rising` reads, and that rises. -/
def clock (values : List Bool) : List (Resolver Lib.Binary.FloatValue) :=
  values.map fun value _ _ => .ok (.bool value)

theorem evaluate_edges_clock :
    Exact (signal 1 .rising "CLK") (fun _ => none) (fun _ => none) (clock [false, true]) :=
  evaluate_edges _ _ (by
    have visited : ∀ before resolver, resolver ∈ clock [false, true] →
        SeesEdges (signal 1 .rising "CLK") before resolver := by
      intro before resolver member
      have keys : ∀ edge, ((signal 1 .rising "CLK").meaning resolver edge).1 = [(.rising, "CLK")] := by
        intro edge
        simp only [clock, List.map_cons, List.map_nil, List.mem_cons, List.not_mem_nil, or_false] at member
        rcases member with rfl | rfl <;> rfl
      unfold SeesEdges
      rw [keys]
      exact ⟨fun key _ => List.nodup_iff_count_le_one.mp (List.nodup_singleton _) key, fun _ member => .inl member⟩
    exact ⟨visited _ _ List.mem_cons_self, visited _ _ (List.mem_cons_of_mem _ List.mem_cons_self), trivial⟩)

/-- The second `rising(CLK)` misses the edge that the first has seen. -/
theorem evaluate_misses_edge : ¬∀ (expression : Node Lib.Binary.FloatValue) (resolvers : List _),
    Exact expression (fun _ => none) (fun _ => none) resolvers := by
  intro always
  obtain ⟨_, _, _, value, _⟩ := always (.and (.signal 1 .rising "CLK") (.signal 16 .rising "CLK")) (clock [false, true])
  revert value
  decide +kernel

end LasecSimul.Session
