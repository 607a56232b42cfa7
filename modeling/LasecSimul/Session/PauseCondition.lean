import LasecSimul.Session.PauseExpression

/-!
# Pause conditions

`setPauseCondition` evaluates the expression once, and the signals that this evaluation reads are the ones with a
handle from then on. A later evaluation may read further than the operands that the first one skipped.
-/

namespace LasecSimul.Session

variable {R : Type} [Double R]

/-- What `sampleSignalRouteUnlocked` reads. -/
structure Route where
  nodeIndices : List Nat

structure ResolvedSignal (R : Type) where
  elements : List R

def ResolvedSignal.unsignedValue (signal : ResolvedSignal R) : Nat :=
  (signal.elements.take 64).zipIdx.foldl
    (fun value element => if Double.lt 2.5 element.1 then value ||| 2 ^ element.2 else value) 0

/-- The text of the library for an index that is not there. -/
def outOfRange : String := "vector::_M_range_check"

def sampleSignalRoute (nodeVoltages : List R) (route : Route) : Except String (ResolvedSignal R) :=
  (ResolvedSignal.mk ·) <$> route.nodeIndices.mapM fun node =>
    match nodeVoltages[node]? with
    | some voltage => .ok voltage
    | none => .error outOfRange

/-- What a mode makes of a signal. -/
def scalarOf (mode : PauseSignalMode) (signal : ResolvedSignal R) : PauseScalar R :=
  match mode with
  | .digital | .rising | .falling => .bool (signal.unsignedValue != 0)
  | _ =>
    match signal.elements with
    | [element] => .double element
    | _ => .uint64 signal.unsignedValue

/-- `m_componentInstances`, each with its `current()`, if there is one. -/
abbrev Instances (R : Type) := List (Option R)

def currentOf (instances : Instances R) (reference : String) (index : Nat) : Except String (PauseScalar R) :=
  match instances[index]? with
  | none => .error outOfRange
  | some none => .error ("componente não expõe corrente: " ++ reference)
  | some (some current) => .ok (.double current)

/-- The session when a condition is set. -/
structure Table (R : Type) where
  signalAliases : String → Option Nat
  compileSignalRoute : String → Except String Route
  nodeVoltages : List R
  componentInstances : Instances R

/-- The resolver of the validation. -/
def Table.resolver (table : Table R) : Resolver R := fun mode reference =>
  if mode = .current then
    match table.signalAliases reference with
    | none => .error ("componente de corrente não encontrado: " ++ reference)
    | some index => currentOf table.componentInstances reference index
  else
    match table.compileSignalRoute reference with
    | .error what => .error what
    | .ok route => scalarOf mode <$> sampleSignalRoute table.nodeVoltages route

structure PauseConditionState (R : Type) where
  expression : Node R
  previousEdges : PreviousEdges := fun _ => none
  signalRoutes : String → Option Route := fun _ => none
  currentComponents : String → Option Nat := fun _ => none
  wasTrue : Bool := false
  errorReported : Bool := false

/-- What the resolver of the validation stores for a signal that it has read. -/
def PauseConditionState.store (table : Table R) (next : PauseConditionState R) (key : SignalKey) :
    PauseConditionState R :=
  if key.1 = .current then
    { next with
      currentComponents := fun reference =>
        if reference = key.2 then table.signalAliases key.2 else next.currentComponents reference }
  else
    { next with
      signalRoutes := fun reference =>
        if reference = key.2 then (table.compileSignalRoute key.2).toOption else next.signalRoutes reference }

/-- `setPauseCondition` for one owner; an empty expression takes the condition away. -/
def setPauseCondition (compiled : Option (Node R)) (table : Table R) :
    Except PauseExpressionError (Option (PauseConditionState R)) :=
  match compiled with
  | none => .ok none
  | some expression =>
    match expression.evaluate table.resolver fun _ => none with
    | (_, .error error) => .error error
    | (progress, .ok _) =>
      -- The edges of this evaluation are reset.
      .ok (some ((progress.resolvedValues.map Prod.fst).foldl (·.store table) { expression }))

/-- The session at an evaluation: `routes` are those of the last `rebuildSignalRoutesIfNeeded`. -/
structure Moment (R : Type) where
  routes : String → Route
  nodeVoltages : List R
  componentInstances : Instances R

/-- `rebuildSignalRoutesIfNeeded`, which keeps the references. -/
def PauseConditionState.rebuilt (condition : PauseConditionState R) (moment : Moment R) : PauseConditionState R :=
  { condition with
    signalRoutes := fun reference => (condition.signalRoutes reference).map fun _ => moment.routes reference }

def PauseConditionState.resolver (condition : PauseConditionState R) (moment : Moment R) : Resolver R :=
  fun mode reference =>
    if mode = .current then
      match condition.currentComponents reference with
      | none => .error ("handle de corrente nao compilado: " ++ reference)
      | some index => currentOf moment.componentInstances reference index
    else
      match condition.signalRoutes reference with
      | none => .error ("handle de sinal nao compilado: " ++ reference)
      | some route => scalarOf mode <$> sampleSignalRoute moment.nodeVoltages route

/-- What `m_pauseTriggeredCallback` is told. -/
inductive PauseConditionTriggered (R : Type) where
  | values (resolvedValues : List (SignalKey × PauseScalar R))
  | failed (error : String)

structure Turn (R : Type) where
  condition : PauseConditionState R
  pause : Bool
  triggered : Option (PauseConditionTriggered R)

def PauseConditionState.evaluation (condition : PauseConditionState R) (moment : Moment R) : Outcome R :=
  let condition := condition.rebuilt moment
  condition.expression.evaluate (condition.resolver moment) condition.previousEdges

/-- What `applySignalActuatorsUnlocked` does with a condition. -/
def PauseConditionState.turn (condition : PauseConditionState R) (moment : Moment R) : Turn R :=
  let (progress, outcome) := condition.evaluation moment
  let condition := { condition.rebuilt moment with previousEdges := progress.previousEdges }
  match outcome with
  | .ok value =>
    let risen := value.truth && !condition.wasTrue
    { condition := { condition with wasTrue := value.truth, errorReported := false }
      pause := risen
      triggered := if risen then some (.values progress.resolvedValues) else none }
  | .error error =>
    { condition := { condition with errorReported := true }
      pause := true
      triggered :=
        if condition.errorReported then none
        else some (.failed ("coluna " ++ toString error.column ++ ": " ++ error.message)) }

/-- What is read after a value. -/
def Outcome.further (outcome : Outcome R) (rest : Progress R → PauseScalar R → List SignalKey) : List SignalKey :=
  match outcome with
  | (progress, .ok value) => rest progress value
  | (_, .error _) => []

namespace Node

/-- The signals that an evaluation asks for, in order. -/
def reads (resolver : Resolver R) : Node R → Progress R → List SignalKey
  | number _, _ | boolean _, _ => []
  | signal _ mode reference, _ => [(mode, reference)]
  | not left, progress => left.reads resolver progress
  | and left right, progress => left.reads resolver progress ++ (left.eval resolver progress).further fun progress a =>
      if a.truth then right.reads resolver progress else []
  | or left right, progress => left.reads resolver progress ++ (left.eval resolver progress).further fun progress a =>
      if a.truth then [] else right.reads resolver progress
  | compare _ left right, progress => left.reads resolver progress ++
      (left.eval resolver progress).further fun progress _ => right.reads resolver progress

/-- What the evaluation `now` reads in the right operands of `&&` and `||` that the evaluation `before` skipped. -/
def unread (before now : Resolver R) : Node R → Progress R → Progress R → List SignalKey
  | number _, _, _ | boolean _, _, _ | signal _ _ _, _, _ => []
  | not left, past, progress => left.unread before now past progress
  | and left right, past, progress => left.unread before now past progress ++
      (left.eval before past).further fun past first => (left.eval now progress).further fun progress a =>
        if a.truth then
          if first.truth then right.unread before now past progress else right.reads now progress
        else []
  | or left right, past, progress => left.unread before now past progress ++
      (left.eval before past).further fun past first => (left.eval now progress).further fun progress a =>
        if a.truth then []
        else if first.truth then right.reads now progress else right.unread before now past progress
  | compare _ left right, past, progress => left.unread before now past progress ++
      (left.eval before past).further fun past _ => (left.eval now progress).further fun progress _ =>
        right.unread before now past progress

section

variable {before now handled : Resolver R} {missing : String → Prop}

omit [Double R] in
theorem next_congr {outcome : Outcome R} {f g : Progress R → PauseScalar R → Outcome R}
    (same : ∀ progress value, outcome = (progress, .ok value) → f progress value = g progress value) :
    outcome.next f = outcome.next g := by
  obtain ⟨progress, error | value⟩ := outcome
  · rfl
  · exact same progress value rfl

omit [Double R] in
theorem next_error {outcome : Outcome R} {f : Progress R → PauseScalar R → Outcome R} {progress : Progress R}
    {error : PauseExpressionError} (failed : outcome.next f = (progress, .error error)) :
    outcome = (progress, .error error) ∨
      ∃ progress' value, outcome = (progress', .ok value) ∧ f progress' value = (progress, .error error) := by
  obtain ⟨progress', error' | value⟩ := outcome
  · exact .inl failed
  · exact .inr ⟨progress', value, rfl, failed⟩

omit [Double R] in
theorem next_ok {outcome : Outcome R} {f : Progress R → PauseScalar R → Outcome R} {progress : Progress R}
    {value : PauseScalar R} (done : outcome.next f = (progress, .ok value)) :
    ∃ progress' value', outcome = (progress', .ok value') ∧ f progress' value' = (progress, .ok value) := by
  obtain ⟨progress', error' | value'⟩ := outcome
  · cases done
  · exact ⟨progress', value', rfl, done⟩

omit [Double R] in
theorem mem_further {outcome : Outcome R} {rest : Progress R → PauseScalar R → List SignalKey} {key : SignalKey} :
    key ∈ outcome.further rest ↔
      ∃ progress value, outcome = (progress, .ok value) ∧ key ∈ rest progress value := by
  obtain ⟨progress, error | value⟩ := outcome
  · constructor
    · rintro ⟨⟩
    · rintro ⟨_, _, ⟨⟩, _⟩
  · constructor
    · exact fun member => ⟨progress, value, rfl, member⟩
    · rintro ⟨_, _, ⟨⟩, member⟩
      exact member

theorem eval_congr (expression : Node R) {progress : Progress R}
    (same : ∀ key ∈ expression.reads now progress, handled key.1 key.2 = now key.1 key.2) :
    expression.eval handled progress = expression.eval now progress := by
  induction expression generalizing progress with
  | number value | boolean value => rfl
  | signal column mode reference =>
    have here := same _ List.mem_cons_self
    simp only [eval, resolve, here]
  | not left ih =>
    unfold eval
    rw [ih same]
  | and left right ihLeft ihRight =>
    obtain ⟨first, second⟩ := List.forall_mem_append.mp same
    unfold eval
    rw [ihLeft first]
    refine next_congr fun progress' a value => ?_
    split
    · next holds =>
      rw [ihRight fun key member => second key (mem_further.mpr ⟨progress', a, value, by rwa [if_pos holds]⟩)]
    · rfl
  | or left right ihLeft ihRight =>
    obtain ⟨first, second⟩ := List.forall_mem_append.mp same
    unfold eval
    rw [ihLeft first]
    refine next_congr fun progress' a value => ?_
    split
    · rfl
    · next fails =>
      rw [ihRight fun key member => second key (mem_further.mpr ⟨progress', a, value, by rwa [if_neg fails]⟩)]
  | compare op left right ihLeft ihRight =>
    obtain ⟨first, second⟩ := List.forall_mem_append.mp same
    unfold eval
    rw [ihLeft first]
    refine next_congr fun progress' a value => ?_
    rw [ihRight fun key member => second key (mem_further.mpr ⟨progress', a, value, member⟩)]

/-- An exception of an evaluation is one of its resolver. -/
theorem eval_error (expression : Node R) {progress progress' : Progress R} {error : PauseExpressionError}
    (failed : expression.eval now progress = (progress', .error error)) :
    ∃ mode reference, now mode reference = .error error.message := by
  induction expression generalizing progress progress' with
  | number value | boolean value => cases failed
  | signal column mode reference =>
    unfold eval resolve at failed
    split at failed
    · next what value =>
      cases failed
      exact ⟨mode, reference, value⟩
    · split at failed <;> cases failed
  | not left ih =>
    rcases next_error failed with first | ⟨_, _, _, second⟩
    · exact ih first
    · cases second
  | and left right ihLeft ihRight =>
    rcases next_error failed with first | ⟨_, _, _, second⟩
    · exact ihLeft first
    · split at second
      · rcases next_error second with third | ⟨_, _, _, fourth⟩
        · exact ihRight third
        · cases fourth
      · cases second
  | or left right ihLeft ihRight =>
    rcases next_error failed with first | ⟨_, _, _, second⟩
    · exact ihLeft first
    · split at second
      · cases second
      · rcases next_error second with third | ⟨_, _, _, fourth⟩
        · exact ihRight third
        · cases fourth
  | compare op left right ihLeft ihRight =>
    rcases next_error failed with first | ⟨_, _, _, second⟩
    · exact ihLeft first
    · rcases next_error second with third | ⟨_, _, _, fourth⟩
      · exact ihRight third
      · cases fourth

/-- `outcome` is an exception whose text is `missing`. -/
def Missed (missing : String → Prop) (outcome : Outcome R) : Prop :=
  ∃ progress error, missing error.message ∧ outcome = (progress, .error error)

omit [Double R] in
theorem Missed.next {outcome : Outcome R} (missed : Missed missing outcome)
    (f : Progress R → PauseScalar R → Outcome R) : Missed missing (outcome.next f) := by
  obtain ⟨progress, error, is, rfl⟩ := missed
  exact ⟨progress, error, is, rfl⟩

theorem next_missing {left : Node R} {progress : Progress R} {f : Progress R → PauseScalar R → Outcome R}
    {rest : Progress R → PauseScalar R → List SignalKey} {key : SignalKey}
    (split : ∀ mode reference, handled mode reference = now mode reference ∨
      ∃ what, missing what ∧ handled mode reference = .error what)
    (first : ∀ key ∈ left.reads now progress, (∃ what, missing what ∧ handled key.1 key.2 = .error what) →
      Missed missing (left.eval handled progress))
    (second : ∀ progress a, key ∈ rest progress a → Missed missing (f progress a))
    (asked : key ∈ left.reads now progress ++ (left.eval now progress).further rest)
    (without : ∃ what, missing what ∧ handled key.1 key.2 = .error what) :
    Missed missing ((left.eval handled progress).next f) := by
  by_cases same : ∀ key ∈ left.reads now progress, handled key.1 key.2 = now key.1 key.2
  · rcases List.mem_append.mp asked with member | member
    · exact (first key member without).next f
    · obtain ⟨progress', a, value, member⟩ := mem_further.mp member
      obtain ⟨progress'', error, is, ends⟩ := second progress' a member
      refine ⟨progress'', error, is, ?_⟩
      rw [eval_congr left same, value]
      exact ends
  · simp only [not_forall] at same
    obtain ⟨other, member, differs⟩ := same
    exact (first other member ((split other.1 other.2).resolve_left differs)).next f

/-- A signal without a handle ends the evaluation that asks for it. -/
theorem eval_missing (expression : Node R) {progress : Progress R}
    (split : ∀ mode reference, handled mode reference = now mode reference ∨
      ∃ what, missing what ∧ handled mode reference = .error what) {key : SignalKey}
    (asked : key ∈ expression.reads now progress)
    (without : ∃ what, missing what ∧ handled key.1 key.2 = .error what) :
    Missed missing (expression.eval handled progress) := by
  induction expression generalizing progress key with
  | number value | boolean value => cases asked
  | signal column mode reference =>
    cases List.mem_singleton.mp asked
    obtain ⟨what, is, value⟩ := without
    refine ⟨progress, ⟨column, what⟩, is, ?_⟩
    unfold eval resolve
    rw [value]
  | not left ih => exact (ih asked without).next _
  | and left right ihLeft ihRight =>
    refine next_missing split (fun _ => ihLeft) (fun progress a member => ?_) asked without
    split at member
    · next holds =>
      rw [if_pos holds]
      exact (ihRight member without).next _
    · cases member
  | or left right ihLeft ihRight =>
    refine next_missing split (fun _ => ihLeft) (fun progress a member => ?_) asked without
    split at member
    · cases member
    · next fails =>
      rw [if_neg fails]
      exact (ihRight member without).next _
  | compare op left right ihLeft ihRight =>
    exact next_missing split (fun _ => ihLeft) (fun progress a member => (ihRight member without).next _) asked without

/-- An evaluation fails for want of a handle exactly if it asks for a signal that has none. -/
theorem eval_missed_iff (expression : Node R) {progress : Progress R}
    (split : ∀ mode reference, handled mode reference = now mode reference ∨
      ∃ what, missing what ∧ handled mode reference = .error what)
    (apart : ∀ mode reference what, now mode reference = .error what → ¬missing what) :
    Missed missing (expression.eval handled progress) ↔
      ∃ key ∈ expression.reads now progress, ∃ what, missing what ∧ handled key.1 key.2 = .error what := by
  constructor
  · rintro ⟨progress', error, is, failed⟩
    by_contra all
    have same : ∀ key ∈ expression.reads now progress, handled key.1 key.2 = now key.1 key.2 := fun key member =>
      (split key.1 key.2).resolve_right fun without => all ⟨key, member, without⟩
    rw [eval_congr expression same] at failed
    obtain ⟨mode, reference, value⟩ := eval_error expression failed
    exact apart mode reference _ value is
  · rintro ⟨key, asked, without⟩
    exact eval_missing expression split asked without

section

variable {left : Node R} {past past₁ progress : Progress R} {first : PauseScalar R} {key : SignalKey}
  {asks : Progress R → PauseScalar R → List SignalKey}
  {skips : Progress R → PauseScalar R → Progress R → PauseScalar R → List SignalKey}

theorem unread_further (ofLeft : key ∈ left.unread before now past progress → key ∈ left.reads now progress)
    (ofRight : ∀ past first progress a, key ∈ skips past first progress a → key ∈ asks progress a)
    (member : key ∈ left.unread before now past progress ++
      (left.eval before past).further fun past first => (left.eval now progress).further (skips past first)) :
    key ∈ left.reads now progress ++ (left.eval now progress).further asks := by
  rcases List.mem_append.mp member with member | member
  · exact List.mem_append_left _ (ofLeft member)
  · obtain ⟨past', first, _, member⟩ := mem_further.mp member
    obtain ⟨progress', a, value, member⟩ := mem_further.mp member
    exact List.mem_append_right _ (mem_further.mpr ⟨progress', a, value, ofRight _ _ _ _ member⟩)

theorem reads_further {asked' : Progress R → PauseScalar R → List SignalKey}
    (ofLeft : key ∈ left.reads now progress → key ∈ left.reads before past ∨ key ∈ left.unread before now past progress)
    (value : left.eval before past = (past₁, .ok first))
    (ofRight : ∀ progress a, key ∈ asks progress a → key ∈ asked' past₁ first ∨ key ∈ skips past₁ first progress a)
    (asked : key ∈ left.reads now progress ++ (left.eval now progress).further asks) :
    key ∈ left.reads before past ++ (left.eval before past).further asked' ∨
      key ∈ left.unread before now past progress ++
        (left.eval before past).further fun past first => (left.eval now progress).further (skips past first) := by
  rcases List.mem_append.mp asked with asked | asked
  · exact (ofLeft asked).imp (List.mem_append_left _) (List.mem_append_left _)
  · obtain ⟨progress₁, a, value', asked⟩ := mem_further.mp asked
    refine (ofRight progress₁ a asked).imp (fun member => ?_) (fun member => ?_)
    · exact List.mem_append_right _ (mem_further.mpr ⟨past₁, first, value, member⟩)
    · exact List.mem_append_right _ (mem_further.mpr ⟨past₁, first, value,
        mem_further.mpr ⟨progress₁, a, value', member⟩⟩)

end

theorem unread_subset (expression : Node R) {past progress : Progress R} {key : SignalKey}
    (member : key ∈ expression.unread before now past progress) : key ∈ expression.reads now progress := by
  induction expression generalizing past progress with
  | number value | boolean value | signal column mode reference => cases member
  | not left ih => exact ih member
  | and left right ihLeft ihRight =>
    refine unread_further ihLeft (fun past first progress a member => ?_) member
    split at member
    · next holds =>
      rw [if_pos holds]
      split at member
      · exact ihRight member
      · exact member
    · cases member
  | or left right ihLeft ihRight =>
    refine unread_further ihLeft (fun past first progress a member => ?_) member
    split at member
    · cases member
    · next fails =>
      rw [if_neg fails]
      split at member
      · exact member
      · exact ihRight member
  | compare op left right ihLeft ihRight => exact unread_further ihLeft (fun _ _ _ _ => ihRight) member

/-- What an evaluation asks for, an earlier one that came to its end has asked for, or it has skipped. -/
theorem mem_reads (expression : Node R) {past past' progress : Progress R} {last : PauseScalar R}
    (done : expression.eval before past = (past', .ok last)) {key : SignalKey}
    (asked : key ∈ expression.reads now progress) :
    key ∈ expression.reads before past ∨ key ∈ expression.unread before now past progress := by
  induction expression generalizing past past' progress last with
  | number value | boolean value => cases asked
  | signal column mode reference => exact .inl asked
  | not left ih =>
    obtain ⟨_, _, value, _⟩ := next_ok done
    exact ih value asked
  | and left right ihLeft ihRight =>
    obtain ⟨past₁, first, value, rest⟩ := next_ok done
    refine reads_further (ihLeft value) value (fun progress a asked => ?_) asked
    split at asked
    · next holds =>
      rw [if_pos holds]
      split at rest
      · next held =>
        rw [if_pos held, if_pos held]
        obtain ⟨_, _, last, _⟩ := next_ok rest
        exact ihRight last asked
      · next held =>
        rw [if_neg held, if_neg held]
        exact .inr asked
    · cases asked
  | or left right ihLeft ihRight =>
    obtain ⟨past₁, first, value, rest⟩ := next_ok done
    refine reads_further (ihLeft value) value (fun progress a asked => ?_) asked
    split at asked
    · cases asked
    · next fails =>
      rw [if_neg fails]
      split at rest
      · next held =>
        rw [if_pos held, if_pos held]
        exact .inr asked
      · next held =>
        rw [if_neg held, if_neg held]
        obtain ⟨_, _, last, _⟩ := next_ok rest
        exact ihRight last asked
  | compare op left right ihLeft ihRight =>
    obtain ⟨past₁, first, value, rest⟩ := next_ok done
    obtain ⟨_, _, last, _⟩ := next_ok rest
    exact reads_further (ihLeft value) value (fun _ _ => ihRight last) asked

/-- The signals that an evaluation has asked for are its `resolvedValues`, and each could be read. -/
theorem resolvedValues_reads (expression : Node R) {past past' : Progress R} {last : PauseScalar R}
    (done : expression.eval before past = (past', .ok last)) :
    past'.resolvedValues.map Prod.fst = past.resolvedValues.map Prod.fst ++ expression.reads before past ∧
      ∀ key ∈ expression.reads before past, ∃ value, before key.1 key.2 = .ok value := by
  induction expression generalizing past past' last with
  | number value | boolean value =>
    cases done
    refine ⟨(List.append_nil _).symm, ?_⟩
    rintro key ⟨⟩
  | signal column mode reference =>
    unfold eval resolve at done
    split at done
    · cases done
    · next current value =>
      refine ⟨?_, ?_⟩
      · split at done <;> cases done <;> exact List.map_append
      · intro key member
        cases List.mem_singleton.mp member
        exact ⟨current, value⟩
  | not left ih =>
    obtain ⟨_, _, value, rest⟩ := next_ok done
    cases rest
    exact ih value
  | and left right ihLeft ihRight =>
    obtain ⟨past₁, first, value, rest⟩ := next_ok done
    obtain ⟨keys, readable⟩ := ihLeft value
    simp only [reads, value, Outcome.further]
    split at rest
    · next held =>
      obtain ⟨past₂, _, value₂, rest⟩ := next_ok rest
      cases rest
      obtain ⟨keys₂, readable₂⟩ := ihRight value₂
      rw [if_pos held, keys₂, keys, List.append_assoc]
      exact ⟨rfl, List.forall_mem_append.mpr ⟨readable, readable₂⟩⟩
    · next held =>
      cases rest
      rw [if_neg held, List.append_nil]
      exact ⟨keys, readable⟩
  | or left right ihLeft ihRight =>
    obtain ⟨past₁, first, value, rest⟩ := next_ok done
    obtain ⟨keys, readable⟩ := ihLeft value
    simp only [reads, value, Outcome.further]
    split at rest
    · next held =>
      cases rest
      rw [if_pos held, List.append_nil]
      exact ⟨keys, readable⟩
    · next held =>
      obtain ⟨past₂, _, value₂, rest⟩ := next_ok rest
      cases rest
      obtain ⟨keys₂, readable₂⟩ := ihRight value₂
      rw [if_neg held, keys₂, keys, List.append_assoc]
      exact ⟨rfl, List.forall_mem_append.mpr ⟨readable, readable₂⟩⟩
  | compare op left right ihLeft ihRight =>
    obtain ⟨past₁, first, value, rest⟩ := next_ok done
    obtain ⟨keys, readable⟩ := ihLeft value
    obtain ⟨past₂, _, value₂, rest⟩ := next_ok rest
    cases rest
    obtain ⟨keys₂, readable₂⟩ := ihRight value₂
    simp only [reads, value, Outcome.further]
    rw [keys₂, keys, List.append_assoc]
    exact ⟨rfl, List.forall_mem_append.mpr ⟨readable, readable₂⟩⟩

end

end Node

open Node

/-- Currents and signals have handles of their own, by reference. -/
def handle (key : SignalKey) : Bool × String := (key.1 = .current, key.2)

/-- The handles are those of the signals `keys`. -/
structure Holds (table : Table R) (keys : List SignalKey) (condition : PauseConditionState R) : Prop where
  routes : ∀ reference, condition.signalRoutes reference =
    if (false, reference) ∈ keys.map handle then (table.compileSignalRoute reference).toOption else none
  components : ∀ reference, condition.currentComponents reference =
    if (true, reference) ∈ keys.map handle then table.signalAliases reference else none

theorem mem_handles_append {keys : List SignalKey} {mode : PauseSignalMode} {name reference : String} {current : Bool} :
    (current, reference) ∈ (keys ++ [(mode, name)]).map handle ↔
      (current, reference) ∈ keys.map handle ∨ (current = decide (mode = .current) ∧ reference = name) := by
  rw [List.map_append, List.mem_append, List.map_singleton, List.mem_singleton]
  exact or_congr_right Prod.mk_inj

omit [Double R] in
theorem Holds.store {table : Table R} {keys : List SignalKey} {condition : PauseConditionState R}
    (holds : Holds table keys condition) (key : SignalKey) :
    Holds table (keys ++ [key]) (condition.store table key) := by
  obtain ⟨mode, name⟩ := key
  unfold PauseConditionState.store
  by_cases current : mode = .current
  · rw [if_pos current]
    constructor <;> intro reference <;> simp only [mem_handles_append, current, decide_true]
    · simp only [Bool.false_eq_true, false_and, or_false]
      exact holds.routes reference
    · by_cases same : reference = name
      · rw [if_pos same, if_pos (.inr ⟨trivial, same⟩), same]
      · simp only [same, and_false, or_false, if_false]
        exact holds.components reference
  · rw [if_neg current]
    constructor <;> intro reference <;> simp only [mem_handles_append, current, decide_false]
    · by_cases same : reference = name
      · rw [if_pos same, if_pos (.inr ⟨trivial, same⟩), same]
      · simp only [same, and_false, or_false, if_false]
        exact holds.routes reference
    · simp only [Bool.true_eq_false, false_and, or_false]
      exact holds.components reference

omit [Double R] in
theorem foldl_store (table : Table R) (keys : List SignalKey) (condition : PauseConditionState R) :
    (keys.foldl (·.store table) condition).expression = condition.expression ∧
      (keys.foldl (·.store table) condition).previousEdges = condition.previousEdges := by
  induction keys generalizing condition with
  | nil => exact ⟨rfl, rfl⟩
  | cons key keys ih =>
    have kept : (condition.store table key).expression = condition.expression ∧
        (condition.store table key).previousEdges = condition.previousEdges := by
      unfold PauseConditionState.store
      split <;> exact ⟨rfl, rfl⟩
    rw [← kept.1, ← kept.2]
    exact ih _

omit [Double R] in
theorem holds_foldl {table : Table R} (keys : List SignalKey) {done : List SignalKey}
    {condition : PauseConditionState R} (holds : Holds table done condition) :
    Holds table (done ++ keys) (keys.foldl (·.store table) condition) := by
  induction keys generalizing done condition with
  | nil => rwa [List.append_nil]
  | cons key keys ih =>
    rw [← List.singleton_append, ← List.append_assoc]
    exact ih (holds.store key)

/-- A signal of `keys` could be read, so it has a handle. -/
theorem compiled_of_mem {table : Table R} {keys : List SignalKey}
    (readable : ∀ key ∈ keys, ∃ value, table.resolver key.1 key.2 = .ok value) (reference : String) :
    ((false, reference) ∈ keys.map handle → (table.compileSignalRoute reference).toOption.isSome) ∧
      ((true, reference) ∈ keys.map handle → (table.signalAliases reference).isSome) := by
  constructor <;> intro member <;> obtain ⟨⟨mode, name⟩, member, same⟩ := List.mem_map.mp member <;>
    obtain ⟨value, read⟩ := readable _ member <;> unfold handle at same <;> unfold Table.resolver at read
  · obtain ⟨other, rfl⟩ := Prod.mk.inj same
    rw [if_neg (of_decide_eq_false other)] at read
    cases route : table.compileSignalRoute name with
    | error what => simp only [route, reduceCtorEq] at read
    | ok route => rfl
  · obtain ⟨current, rfl⟩ := Prod.mk.inj same
    rw [if_pos (of_decide_eq_true current)] at read
    cases named : table.signalAliases name with
    | none => simp only [named, reduceCtorEq] at read
    | some index => rfl

/-- The session at an evaluation, with a handle for every signal. -/
def Moment.resolver (moment : Moment R) (table : Table R) : Resolver R := fun mode reference =>
  if mode = .current then
    match table.signalAliases reference with
    | none => .error ("componente de corrente não encontrado: " ++ reference)
    | some index => currentOf moment.componentInstances reference index
  else scalarOf mode <$> sampleSignalRoute moment.nodeVoltages (moment.routes reference)

/-- The text of an evaluation that finds no handle. -/
def Uncompiled (what : String) : Prop :=
  ∃ reference, what = "handle de corrente nao compilado: " ++ reference ∨
    what = "handle de sinal nao compilado: " ++ reference

/-- No evaluation of the run fails for want of a handle. -/
def AllCompiled : PauseConditionState R → List (Moment R) → Prop
  | _, [] => True
  | condition, moment :: moments =>
    ¬Missed Uncompiled (condition.evaluation moment) ∧ AllCompiled (condition.turn moment).condition moments

/-- The handles of the signals that the validation reads. -/
def validated (expression : Node R) (table : Table R) : List (Bool × String) :=
  (expression.reads table.resolver { previousEdges := fun _ => none }).map handle

/-- At each evaluation of the run, what is read in the operands that the validation skipped was read elsewhere in it. -/
def Covered (expression : Node R) (table : Table R) : PreviousEdges → List (Moment R) → Prop
  | _, [] => True
  | previousEdges, moment :: moments =>
    (∀ key ∈ expression.unread table.resolver (moment.resolver table) { previousEdges := fun _ => none }
        { previousEdges }, handle key ∈ validated expression table) ∧
      Covered expression table (expression.evaluate (moment.resolver table) previousEdges).1.previousEdges moments

/-- Later on the routes may be others, but the references stay. -/
structure Follows (expression : Node R) (table : Table R) (condition : PauseConditionState R) : Prop where
  same : condition.expression = expression
  routes : ∀ reference,
    (condition.signalRoutes reference).isSome ↔ (false, reference) ∈ validated expression table
  components : ∀ reference, condition.currentComponents reference =
    if (true, reference) ∈ validated expression table then table.signalAliases reference else none
  named : ∀ reference, (true, reference) ∈ validated expression table → (table.signalAliases reference).isSome

theorem setPauseCondition_follows {expression : Node R} {table : Table R} {condition : PauseConditionState R}
    (accepted : setPauseCondition (some expression) table = .ok (some condition)) :
    Follows expression table condition ∧ condition.previousEdges = (fun _ => none) ∧
      ∃ progress value,
        expression.eval table.resolver { previousEdges := fun _ => none } = (progress, .ok value) := by
  unfold setPauseCondition at accepted
  dsimp only at accepted
  split at accepted
  · cases accepted
  · next progress value done =>
    cases accepted
    obtain ⟨keys, readable⟩ := resolvedValues_reads expression done
    rw [List.map_nil, List.nil_append] at keys
    rw [keys]
    have start : Holds table [] ({ expression } : PauseConditionState R) := ⟨fun _ => rfl, fun _ => rfl⟩
    obtain ⟨routes, components⟩ :=
      holds_foldl (expression.reads table.resolver { previousEdges := fun _ => none }) start
    rw [List.nil_append] at routes components
    obtain ⟨same, edges⟩ := foldl_store table (expression.reads table.resolver { previousEdges := fun _ => none })
      { expression }
    refine ⟨⟨same, fun reference => ?_, components, fun reference => (compiled_of_mem readable reference).2⟩,
      edges, progress, value, done⟩
    rw [routes]
    constructor
    · intro present
      unfold validated
      by_contra absent
      rw [if_neg absent] at present
      cases present
    · intro member
      unfold validated at member
      rw [if_pos member]
      exact (compiled_of_mem readable reference).1 member

/-! ### The claim about runs -/

section

variable {expression : Node R} {table : Table R} {condition : PauseConditionState R}

theorem Follows.turn (follows : Follows expression table condition) (moment : Moment R) :
    Follows expression table (condition.turn moment).condition := by
  have kept : (condition.turn moment).condition.expression = condition.expression ∧
      (condition.turn moment).condition.signalRoutes = (condition.rebuilt moment).signalRoutes ∧
      (condition.turn moment).condition.currentComponents = condition.currentComponents := by
    unfold PauseConditionState.turn
    rcases condition.evaluation moment with ⟨progress, error | value⟩ <;> exact ⟨rfl, rfl, rfl⟩
  obtain ⟨same, routes, components⟩ := kept
  refine ⟨same.trans follows.same, fun reference => ?_, fun reference => ?_, follows.named⟩
  · rw [routes]
    unfold PauseConditionState.rebuilt
    rw [Option.isSome_map]
    exact follows.routes reference
  · rw [components]
    exact follows.components reference

theorem turn_previousEdges (condition : PauseConditionState R) (moment : Moment R) :
    (condition.turn moment).condition.previousEdges = (condition.evaluation moment).1.previousEdges := by
  unfold PauseConditionState.turn
  rcases condition.evaluation moment with ⟨progress, error | value⟩ <;> rfl

theorem Uncompiled.head {what : String} (uncompiled : Uncompiled what) : what.toList.head? = some 'h' := by
  obtain ⟨reference, rfl | rfl⟩ := uncompiled
  all_goals
    rw [String.toList_append]
    rfl

omit [Double R] in
theorem sampleSignalRoute_error {nodeVoltages : List R} {route : Route} {what : String}
    (failed : sampleSignalRoute nodeVoltages route = .error what) : what = outOfRange := by
  obtain ⟨nodes⟩ := route
  unfold sampleSignalRoute at failed
  have failed' : (nodes.mapM fun node =>
      match nodeVoltages[node]? with
      | some voltage => Except.ok voltage
      | none => Except.error outOfRange) = Except.error what := by
    revert failed
    generalize (nodes.mapM fun node => _ : Except String (List R)) = values
    cases values with
    | error text =>
      rintro ⟨⟩
      rfl
    | ok values => rintro ⟨⟩
  clear failed
  induction nodes with
  | nil => cases failed'
  | cons node nodes ih =>
    rw [List.mapM_cons] at failed'
    cases voltage : nodeVoltages[node]? with
    | none =>
      rw [voltage] at failed'
      cases failed'
      rfl
    | some value =>
      rw [voltage] at failed'
      apply ih
      revert failed'
      generalize (nodes.mapM fun node => _ : Except String (List R)) = values
      cases values with
      | error text =>
        rintro ⟨⟩
        rfl
      | ok values => rintro ⟨⟩

theorem moment_compiled (moment : Moment R) (table : Table R) (mode : PauseSignalMode) (reference what : String)
    (failed : moment.resolver table mode reference = .error what) : ¬Uncompiled what := by
  intro uncompiled
  have head := uncompiled.head
  unfold Moment.resolver currentOf at failed
  split at failed
  · split at failed
    · cases failed
      rw [String.toList_append] at head
      cases head
    · split at failed
      · cases failed
        cases head
      · cases failed
        rw [String.toList_append] at head
        cases head
      · cases failed
  · cases sampled : sampleSignalRoute moment.nodeVoltages (moment.routes reference) with
    | error text =>
      rw [sampled] at failed
      cases failed
      rw [sampleSignalRoute_error sampled] at head
      cases head
    | ok signal =>
      rw [sampled] at failed
      cases failed

/-- A signal that the validation has read has its value, and any other has none. -/
theorem Follows.resolver (follows : Follows expression table condition) (moment : Moment R) (key : SignalKey) :
    if handle key ∈ validated expression table then
      (condition.rebuilt moment).resolver moment key.1 key.2 = moment.resolver table key.1 key.2
    else ∃ what, Uncompiled what ∧ (condition.rebuilt moment).resolver moment key.1 key.2 = .error what := by
  obtain ⟨mode, reference⟩ := key
  unfold PauseConditionState.resolver Moment.resolver PauseConditionState.rebuilt handle
  dsimp only
  rw [follows.components]
  by_cases current : mode = .current
  · simp only [current, decide_true, if_true]
    split
    · next member =>
      obtain ⟨index, named⟩ := Option.isSome_iff_exists.mp (follows.named reference member)
      simp only [named]
    · exact ⟨_, ⟨reference, .inl rfl⟩, rfl⟩
  · simp only [current, decide_false, if_false]
    split
    · next member =>
      obtain ⟨route, present⟩ := Option.isSome_iff_exists.mp ((follows.routes reference).mpr member)
      simp only [present, Option.map_some]
    · next absent =>
      have none : condition.signalRoutes reference = none :=
        Option.not_isSome_iff_eq_none.mp fun present => absent ((follows.routes reference).mp present)
      simp only [none, Option.map_none]
      exact ⟨_, ⟨reference, .inr rfl⟩, rfl⟩

theorem Follows.without_iff (follows : Follows expression table condition) (moment : Moment R) (key : SignalKey) :
    (∃ what, Uncompiled what ∧ (condition.rebuilt moment).resolver moment key.1 key.2 = .error what) ↔
      handle key ∉ validated expression table := by
  have here := follows.resolver moment key
  constructor
  · rintro ⟨what, uncompiled, value⟩ member
    rw [if_pos member, value] at here
    exact moment_compiled moment table _ _ _ here.symm uncompiled
  · intro absent
    rwa [if_neg absent] at here

/-- One evaluation, against the one in which every signal has a handle. -/
theorem Follows.evaluation (follows : Follows expression table condition) (moment : Moment R)
    {progress : Progress R} {value : PauseScalar R}
    (valid : expression.eval table.resolver { previousEdges := fun _ => none } = (progress, .ok value)) :
    ¬Missed Uncompiled (condition.evaluation moment) ↔
      ∀ key ∈ expression.unread table.resolver (moment.resolver table) { previousEdges := fun _ => none }
        { previousEdges := condition.previousEdges }, handle key ∈ validated expression table := by
  have code : condition.evaluation moment =
      expression.eval ((condition.rebuilt moment).resolver moment) { previousEdges := condition.previousEdges } := by
    unfold PauseConditionState.evaluation evaluate
    rw [← follows.same]
    rfl
  have split : ∀ mode reference, (condition.rebuilt moment).resolver moment mode reference =
      moment.resolver table mode reference ∨
        ∃ what, Uncompiled what ∧ (condition.rebuilt moment).resolver moment mode reference = .error what := by
    intro mode reference
    have here := follows.resolver moment (mode, reference)
    split at here
    · exact .inl here
    · exact .inr here
  rw [code, eval_missed_iff expression split (moment_compiled moment table)]
  simp only [follows.without_iff]
  constructor
  · intro never key member
    by_contra absent
    exact never ⟨key, unread_subset expression member, absent⟩
  · rintro covered ⟨key, asked, absent⟩
    rcases mem_reads expression valid asked with member | member
    · exact absent (List.mem_map_of_mem member)
    · exact absent (covered key member)

theorem Follows.previousEdges (follows : Follows expression table condition) (moment : Moment R)
    {progress : Progress R} {value : PauseScalar R}
    (valid : expression.eval table.resolver { previousEdges := fun _ => none } = (progress, .ok value))
    (covered : ∀ key ∈ expression.unread table.resolver (moment.resolver table) { previousEdges := fun _ => none }
      { previousEdges := condition.previousEdges }, handle key ∈ validated expression table) :
    (condition.turn moment).condition.previousEdges =
      (expression.evaluate (moment.resolver table) condition.previousEdges).1.previousEdges := by
  rw [turn_previousEdges]
  unfold PauseConditionState.evaluation evaluate
  have same : ∀ key ∈ expression.reads (moment.resolver table) { previousEdges := condition.previousEdges },
      (condition.rebuilt moment).resolver moment key.1 key.2 = moment.resolver table key.1 key.2 := by
    intro key asked
    have member : handle key ∈ validated expression table := by
      rcases mem_reads expression valid asked with member | member
      · exact List.mem_map_of_mem member
      · exact covered key member
    have here := follows.resolver moment key
    rwa [if_pos member] at here
  rw [← eval_congr expression same, ← follows.same]
  rfl

theorem Follows.compiled (follows : Follows expression table condition) {progress : Progress R} {value : PauseScalar R}
    (valid : expression.eval table.resolver { previousEdges := fun _ => none } = (progress, .ok value))
    (run : List (Moment R)) :
    AllCompiled condition run ↔ Covered expression table condition.previousEdges run := by
  induction run generalizing condition with
  | nil => exact Iff.rfl
  | cons moment run ih =>
    unfold AllCompiled Covered
    rw [follows.evaluation moment valid]
    refine and_congr_right fun covered => ?_
    rw [ih (follows.turn moment), follows.previousEdges moment valid covered]

/-- No later evaluation of an accepted condition fails for want of a handle exactly if at each of them the operands
that the validation skipped are skipped again, or read only signals that the validation has read elsewhere. -/
theorem setPauseCondition_compiled_iff
    (accepted : setPauseCondition (some expression) table = .ok (some condition)) (run : List (Moment R)) :
    AllCompiled condition run ↔ Covered expression table (fun _ => none) run := by
  obtain ⟨follows, edges, progress, value, valid⟩ := setPauseCondition_follows accepted
  rw [follows.compiled valid, edges]

end

/-- The signals `A` and `B`, at nodes of their own. -/
def twoSignals (nodeVoltages : List Lib.Binary.FloatValue) : Table Lib.Binary.FloatValue where
  signalAliases _ := none
  compileSignalRoute reference :=
    if reference = "A" then .ok ⟨[0]⟩ else if reference = "B" then .ok ⟨[1]⟩ else .error "sinal nao encontrado"
  nodeVoltages
  componentInstances := []

def twoSignals.moment (nodeVoltages : List Lib.Binary.FloatValue) : Moment Lib.Binary.FloatValue where
  routes reference := if reference = "A" then ⟨[0]⟩ else ⟨[1]⟩
  nodeVoltages
  componentInstances := []

/-- `A == B` reads both of its signals. -/
theorem setPauseCondition_compiled_iff_compare :
    ∃ condition, setPauseCondition (some (.compare .eq (.signal 1 .value "A") (.signal 6 .value "B")))
        (twoSignals [0, 0]) = .ok (some condition) ∧
      AllCompiled condition [twoSignals.moment [1, 0], twoSignals.moment [1, 1]] := by
  obtain ⟨condition, accepted⟩ : ∃ condition, setPauseCondition
      (some (.compare .eq (.signal 1 .value "A") (.signal 6 .value "B"))) (twoSignals [0, 0]) = .ok (some condition) :=
    ⟨_, rfl⟩
  refine ⟨condition, accepted, (setPauseCondition_compiled_iff accepted _).mpr ⟨?_, ?_, trivial⟩⟩
  · rintro key ⟨⟩
  · rintro key ⟨⟩

/-- `A && B` is accepted while `A` is low, and ends with an exception as soon as `A` is high. -/
theorem setPauseCondition_skips : ¬∀ (expression : Node Lib.Binary.FloatValue) (table : Table Lib.Binary.FloatValue)
    (condition : PauseConditionState Lib.Binary.FloatValue),
    setPauseCondition (some expression) table = .ok (some condition) → ∀ run, AllCompiled condition run := by
  intro always
  have missed : ((setPauseCondition (some (.and (.signal 1 .value "A") (.signal 6 .value "B")))
      (twoSignals [0, 0])).toOption.join.map fun condition => (condition.evaluation (twoSignals.moment [1, 0])).2) =
        some (.error ⟨6, "handle de sinal nao compilado: B"⟩) := by
    decide +kernel
  cases accepted : setPauseCondition (some (.and (.signal 1 .value "A") (.signal 6 .value "B")))
      (twoSignals [0, 0]) with
  | error error =>
    rw [accepted] at missed
    cases missed
  | ok outcome =>
    rw [accepted] at missed
    obtain ⟨condition, rfl, failed⟩ := Option.map_eq_some_iff.mp missed
    obtain ⟨compiled, _⟩ := always _ _ condition accepted [twoSignals.moment [1, 0]]
    exact compiled ⟨_, _, ⟨"B", .inr rfl⟩, Prod.ext rfl failed⟩

end LasecSimul.Session
