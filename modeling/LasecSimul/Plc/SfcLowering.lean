import LasecSimul.Lib.EcmaNumber
import LasecSimul.Lib.OrderedMap
import Mathlib.Data.List.Induction
import Mathlib.Data.List.Nodup

/-!
# SFC names (`plc/sfcLowering.ts`, `plc/iecProject.ts`)

`analyze` checks an SFC body, and the lowering declares declared under names it builds from those of the steps and
actions. The emitted lines, and the declarations that IL bodies add, are left out.
-/

namespace LasecSimul.Plc.Sfc

open Lib (OrderedMap)
open Lib.Numeral (Text)
open Lib.EcmaNumber (isWhite)

/-- `toUpperCase`: it maps ASCII letters as usual, leaves no lower-case one and is done after one time. -/
structure UpperCase where
  apply : Text → Text
  ascii : ∀ text, (∀ c ∈ text, c.toNat < 128) → apply text = text.map Char.toUpper
  noLower : ∀ text, (apply text).map Char.toUpper = apply text
  idempotent : ∀ text, apply (apply text) = apply text

/-! ### The model of a POU -/

inductive PouKind where
  | program
  | function
  | functionBlock
  deriving DecidableEq

inductive VariableClass where
  | input
  | output
  | inOut
  | locals
  | temp
  | external
  deriving DecidableEq

structure IecVariable where
  name : Text
  varClass : VariableClass
  type : Text

inductive SfcQualifier where
  | N | R | S | L | D | P | P1 | P0 | SD | DS | SL
  deriving DecidableEq

def SFC_QUALIFIERS : List (Text × SfcQualifier) :=
  [(['N'], .N), (['R'], .R), (['S'], .S), (['L'], .L), (['D'], .D), (['P'], .P), (['P', '1'], .P1), (['P', '0'], .P0),
    (['S', 'D'], .SD), (['D', 'S'], .DS), (['S', 'L'], .SL)]

def SFC_TIMED_QUALIFIERS : List SfcQualifier := [.L, .D, .SD, .DS, .SL]

structure SfcActionAssociation where
  qualifier : Option Text
  actionName : Option Text
  time : Option Text
  text : Option Text
  instanceName : Option Text

structure SfcAction where
  name : Text
  language : Text
  text : Text

structure SfcStep where
  stepId : Text
  name : Text
  initial : Bool
  actions : List SfcActionAssociation

structure SfcTransition where
  transitionId : Text
  fromStepIds : Option (List Text)
  toStepIds : Option (List Text)
  fromStepId : Option Text
  toStepId : Option Text
  condition : Option Text

/-- A string that is there and not empty. -/
def present (text : Option Text) : Option Text := text.filter (· ≠ [])

def sfcTransitionEnds (transition : SfcTransition) : List Text × List Text :=
  (transition.fromStepIds.getD (present transition.fromStepId).toList,
    transition.toStepIds.getD (present transition.toStepId).toList)

inductive PouBody where
  | text
  | sfc (steps : List SfcStep) (transitions : List SfcTransition) (actions : Option (List SfcAction))

structure PouDefinition where
  kind : PouKind
  declared : List IecVariable
  implementation : PouBody

inductive Severity where
  | error
  | warning
  deriving DecidableEq

structure SfcElement where
  id : Text
  label : Text

structure SfcDiagnostic where
  severity : Severity
  element : Option SfcElement
  message : Text

def stepLabel (step : SfcStep) : SfcElement := ⟨step.stepId, "passo ".toList ++ step.name⟩

def actionLabel (name : Text) : SfcElement := ⟨"action:".toList ++ name, "ação ".toList ++ name⟩

/-- A check that reports an error when it fails. -/
def check (holds : Bool) (element : Option SfcElement) (message : Text) : List SfcDiagnostic :=
  if holds then [] else [⟨.error, element, message⟩]

def Accepted (diagnostics : List SfcDiagnostic) : Prop := ∀ diagnostic ∈ diagnostics, diagnostic.severity ≠ .error

@[simp]
theorem accepted_check {holds : Bool} {element : Option SfcElement} {message : Text} :
    Accepted (check holds element message) ↔ holds = true := by
  cases holds <;> simp [check, Accepted]

@[simp]
theorem accepted_append {first second : List SfcDiagnostic} :
    Accepted (first ++ second) ↔ Accepted first ∧ Accepted second := by
  simp only [Accepted, List.mem_append, or_imp, forall_and]

def trim (text : Text) : Text := (text.dropWhile isWhite).rdropWhile isWhite

def isWord (c : Char) : Bool := c.isAlphanum || c = '_'

/-- `/^[A-Za-z_][A-Za-z0-9_]*$/`. -/
def isIdentifier : Text → Bool
  | [] => false
  | c :: rest => (c.isAlpha || c = '_') && rest.all isWord

/-- What is after the first `mark`, or nothing. -/
def after (mark : Text) : Text → Text
  | [] => []
  | c :: rest => if mark.isPrefixOf (c :: rest) then (c :: rest).drop mark.length else after mark rest

/-- The parts of a text outside literals and comments, `plain` being the part read so far. -/
def codeSegments : Nat → Text → Text → List Text
  | 0, plain, _ => [plain]
  | _, plain, [] => [plain]
  | fuel + 1, plain, c :: rest =>
    if c = '\'' ∨ c = '"' then plain :: codeSegments fuel [] (after [c] rest)
    else if ['(', '*'].isPrefixOf (c :: rest) then plain :: codeSegments fuel [] (after ['*', ')'] rest.tail)
    else if ['/', '/'].isPrefixOf (c :: rest) then plain :: codeSegments fuel [] (rest.dropWhile (· ≠ '\n'))
    else codeSegments fuel (plain ++ [c]) rest

def mapCode (text : Text) : List Text := codeSegments text.length [] text

/-- `([A-Za-z_][A-Za-z0-9_]*)\s*\.\s*([XTQA])\s*:=` at the front of a text. -/
def flagWrite (text : Text) : Option (Text × Char) :=
  if isIdentifier (text.takeWhile isWord) then
    match (text.dropWhile isWord).dropWhile isWhite with
    | '.' :: rest =>
      match rest.dropWhile isWhite with
      | flag :: rest =>
        if flag.toUpper ∈ ['X', 'T', 'Q', 'A'] ∧ [':', '='].isPrefixOf (rest.dropWhile isWhite) then
          some (text.takeWhile isWord, flag)
        else none
      | [] => none
    | _ => none
  else none

/-- All such writes that begin at a word boundary; no two of them overlap. -/
def flagWrites (inWord : Bool) : Text → List (Text × Char)
  | [] => []
  | c :: rest => (if inWord then none else flagWrite (c :: rest)).toList ++ flagWrites (isWord c) rest

/-- The words of a text. -/
def words (inWord : Bool) : Text → List Text
  | [] => []
  | c :: rest =>
    (if inWord = false ∧ isWord c = true then [(c :: rest).takeWhile isWord] else []) ++ words (isWord c) rest

/-- Whether `RETURN`, in IL `RET[CN]*`, is a word of the code. -/
def leaves (action : SfcAction) : Bool :=
  (mapCode action.text).any fun segment => (words false segment).any fun word =>
    let word := word.map Char.toUpper
    if action.language = "il".toList then
      "RET".toList.isPrefixOf word && (word.drop 3).all fun c => c = 'C' || c = 'N'
    else word = "RETURN".toList

variable (upper : UpperCase)

inductive StepSuffix where
  | X | T | T0 | XN
  deriving DecidableEq

def StepSuffix.text : StepSuffix → Text
  | .X => ['X']
  | .T => ['T']
  | .T0 => ['T', '0']
  | .XN => ['X', 'N']

def stepVar (step : SfcStep) (suffix : StepSuffix) : Text :=
  "__SFC_".toList ++ upper.apply step.name ++ '_' :: suffix.text

def actionInstance (name : Text) : Text := "__SFC_AC_".toList ++ upper.apply name

def activationFlag (step : SfcStep) : Text := "__SFC_ACT_".toList ++ upper.apply step.name

/-- The name of the action an association without a name stands for. -/
def inlineName (step : SfcStep) (index : Nat) : Text :=
  "__SFC_STEP_".toList ++ upper.apply step.name ++ '_' :: Nat.toDigits 10 (index + 1)

/-! ### `analyze` -/

local instance textLawful : LawfulBEq Text := inferInstance

def stepDiagnostics (declared : OrderedMap Text IecVariable) (seen : List Text) : List SfcStep → List SfcDiagnostic
  | [] => []
  | step :: rest =>
    let element := some (stepLabel step)
    let key := upper.apply step.name
    check (isIdentifier step.name) element ("nome de passo inválido: ".toList ++ step.name) ++
      check (key ∉ seen) element ("nome de passo repetido: ".toList ++ step.name) ++
      check (!declared.has key) element ("o passo ".toList ++ step.name ++ " tem o nome de uma variável".toList) ++
      stepDiagnostics declared (key :: seen) rest

def initialDiagnostics (steps : List SfcStep) : List SfcDiagnostic :=
  let initial := steps.filter (·.initial)
  check (!steps.isEmpty) none "o SFC não tem passos".toList ++
    check (steps.isEmpty || initial.length = 1) (initial[1]?.map stepLabel)
      ("a rede SFC deve ter exatamente um passo inicial (tem ".toList ++ Nat.toDigits 10 initial.length ++ [')'])

def actionDiagnostics (declared : OrderedMap Text IecVariable) (steps seen : List Text) :
    List SfcAction → List SfcDiagnostic
  | [] => []
  | action :: rest =>
    let element := some (actionLabel action.name)
    let key := upper.apply action.name
    check (isIdentifier action.name) element ("nome de ação inválido: ".toList ++ action.name) ++
      check (key ∉ seen) element ("ação repetida: ".toList ++ action.name) ++
      check (key ∉ steps && !declared.has key) element
        ("a ação ".toList ++ action.name ++ " tem o nome de um passo ou variável".toList) ++
      check (action.language = "st".toList || action.language = "il".toList) element "corpo da ação em ST ou IL".toList ++
      actionDiagnostics declared steps (key :: seen) rest

structure ResolvedAssociation where
  step : SfcStep
  qualifier : SfcQualifier
  action : Text
  time : Option Text

/-- The state of the loop over the associations. -/
structure Associations where
  diagnostics : List SfcDiagnostic
  associations : List ResolvedAssociation
  booleanActions : List Text
  inlineActions : List SfcAction
  timeByAction : List (Text × Text)

def named (association : SfcActionAssociation) : Option Text := present (association.actionName.map trim)

def isInline (association : SfcActionAssociation) : Bool :=
  (named association).isNone &&
    ((present association.text).isSome || (present association.instanceName).isSome)

def inlineAction (step : SfcStep) (index : Nat) (association : SfcActionAssociation) : SfcAction where
  name := inlineName upper step index
  language := "st".toList
  text := association.text.getD (association.instanceName.getD [] ++ "();".toList)

/-- The name of the action of an association. -/
def actionName (step : SfcStep) (index : Nat) (association : SfcActionAssociation) : Option Text :=
  if isInline association then some (inlineName upper step index) else named association

/-- Whether a name without a body is that of a boolean action. -/
def booleanAction (declared : OrderedMap Text IecVariable) (actions : OrderedMap Text SfcAction) (action : Text) :
    Except Text Bool :=
  if actions.has (upper.apply action) || "__SFC_STEP_".toList.isPrefixOf action then .ok false
  else
    match declared.get (upper.apply action) with
    | none => .error ("ação ou variável BOOL não declarada: ".toList ++ action)
    | some found =>
      if upper.apply (trim found.type) ≠ "BOOL".toList then
        .error ("ação booleana precisa de uma variável BOOL: ".toList ++ action ++ " é ".toList ++ found.type)
      else if found.varClass ≠ .locals ∧ found.varClass ≠ .output then
        .error ("ação booleana precisa de uma variável de VAR ou VAR_OUTPUT: ".toList ++ action)
      else .ok true

/-- The duration that an association sets for its action. -/
def duration (timeByAction : List (Text × Text)) (qualifier : Text × SfcQualifier) (action : Text)
    (time : Option Text) : Except Text (Option Text) :=
  if qualifier.2 ∈ SFC_TIMED_QUALIFIERS then
    match time with
    | none => .error ("o qualificador ".toList ++ qualifier.1 ++ " exige uma duração (ex.: T#5s)".toList)
    | some time =>
      match timeByAction.lookup (upper.apply action) with
      | none => .ok (some time)
      | some previous =>
        if upper.apply previous ≠ upper.apply time then
          .error ("a ação ".toList ++ action ++ " tem durações diferentes (".toList ++ previous ++ " e ".toList ++ time ++
            "); o ACTION_CONTROL da norma tem uma única entrada T".toList)
        else .ok (some time)
  else .ok none

def Associations.fail (state : Associations) (step : SfcStep) (message : Text) : Associations :=
  { state with diagnostics := state.diagnostics ++ [⟨.error, some (stepLabel step), message⟩] }

def associate (declared : OrderedMap Text IecVariable) (actions : OrderedMap Text SfcAction) (state : Associations)
    (visit : SfcStep × SfcActionAssociation × Nat) : Associations :=
  let (step, association, index) := visit
  match SFC_QUALIFIERS.find? fun known => known.1 = upper.apply (association.qualifier.getD ['N']) with
  | none => state.fail step ("qualificador inválido: ".toList ++ association.qualifier.getD [])
  | some qualifier =>
    let state :=
      if isInline association then
        { state with inlineActions := state.inlineActions ++ [inlineAction upper step index association] }
      else state
    match actionName upper step index association with
    | none => state.fail step "bloco de ação sem o nome da ação".toList
    | some action =>
      match booleanAction upper declared actions action with
      | .error message => state.fail step message
      | .ok boolean =>
        let key := upper.apply action
        let state := if boolean then { state with booleanActions := state.booleanActions ++ [key] } else state
        let time := present (association.time.map trim)
        match duration upper state.timeByAction qualifier action time with
        | .error message => state.fail step message
        | .ok timed =>
          { state with
            associations := state.associations ++ [⟨step, qualifier.2, key, time⟩]
            timeByAction := (timed.map fun time => (key, time)).toList ++ state.timeByAction }

/-- The associations in the order the loop visits them, each with its step and its place there. -/
def visits (steps : List SfcStep) : List (SfcStep × SfcActionAssociation × Nat) :=
  steps.flatMap fun step => step.actions.zipIdx.map fun entry => (step, entry)

def associations (declared : OrderedMap Text IecVariable) (actions : OrderedMap Text SfcAction)
    (steps : List SfcStep) : Associations :=
  (visits steps).foldl (associate upper declared actions) ⟨[], [], [], [], []⟩

structure Names where
  steps : List Text
  actions : OrderedMap Text SfcAction

def writesFlag (text : Text) (names : Names) : Option Text :=
  (((mapCode text).flatMap (flagWrites false)).find? fun write =>
    upper.apply write.1 ∈ names.steps || names.actions.has (upper.apply write.1)).map
      fun write => write.1 ++ '.' :: [write.2.toUpper]

structure ResolvedTransition where
  transition : SfcTransition
  fromSteps : List SfcStep
  toSteps : List SfcStep
  order : Nat

def transitionLabel (transition : SfcTransition) (stepsById : OrderedMap Text SfcStep) : SfcElement where
  id := transition.transitionId
  label :=
    let name (ids : List Text) := ['+'].intercalate (ids.map fun id => ((stepsById.get id).map (·.name)).getD id)
    let ends := sfcTransitionEnds transition
    "transição ".toList ++ name ends.1 ++ " → ".toList ++ name ends.2

def resolveTransition (names : Names) (stepsById : OrderedMap Text SfcStep) (entry : SfcTransition × Nat) :
    List SfcDiagnostic × Option ResolvedTransition :=
  let (transition, index) := entry
  let element := some (transitionLabel transition stepsById)
  let (fromIds, toIds) := sfcTransitionEnds transition
  let empty := check (!fromIds.isEmpty && !toIds.isEmpty) element "a transição precisa de passos antes e depois".toList
  match fromIds.mapM stepsById.get, toIds.mapM stepsById.get with
  | some fromSteps, some toSteps =>
    let condition := transition.condition.getD []
    (empty ++
      check (decide fromIds.Nodup && decide toIds.Nodup) element "passo repetido na mesma transição".toList ++
      check (trim condition ≠ []) element "transição sem condição".toList ++
      check (trim condition = [] || (writesFlag upper condition names).isNone) element
        "a condição de transição não pode escrever variáveis".toList,
      some ⟨transition, fromSteps, toSteps, index⟩)
  | _, _ => (empty ++ check false element "a transição liga um passo que não existe".toList, none)

/-- The steps that transitions reach; each round of the loop adds one at least, or ends it. -/
def reachable (transitions : List ResolvedTransition) : Nat → List Text → List Text
  | 0, reached => reached
  | rounds + 1, reached =>
    reachable transitions rounds (transitions.foldl (fun reached item =>
      if item.fromSteps.all fun step => step.stepId ∈ reached then
        item.toSteps.foldl (fun reached step =>
          if step.stepId ∈ reached then reached else reached ++ [step.stepId]) reached
      else reached) reached)

def reachDiagnostics (steps : List SfcStep) (transitions : List ResolvedTransition) : List SfcDiagnostic :=
  match steps.filter (·.initial) with
  | [initial] =>
    (steps.filter fun step => step.stepId ∉ reachable transitions steps.length [initial.stepId]).map fun step =>
      ⟨.warning, some (stepLabel step),
        "o passo ".toList ++ step.name ++ " nunca é alcançado a partir do passo inicial".toList⟩
  | _ => []

def bodyDiagnostics (names : Names) (action : SfcAction) : List SfcDiagnostic :=
  let flag := writesFlag upper action.text names
  check flag.isNone (some (actionLabel action.name)) (flag.getD [] ++ " é somente leitura".toList) ++
    check (!leaves action) (some (actionLabel action.name))
      "RETURN/RET dentro de ação ainda não é suportado (sairia do POU inteiro)".toList

/-- The analysis, with the actions that stand for associations without a name. -/
structure Analysis where
  diagnostics : List SfcDiagnostic
  steps : List SfcStep
  stepsById : OrderedMap Text SfcStep
  names : Names
  actions : List SfcAction
  associations : List ResolvedAssociation
  booleanActions : List Text
  inlineActions : List SfcAction
  transitions : List ResolvedTransition

def analyze (pou : PouDefinition) : Analysis :=
  match pou.implementation with
  | .text => ⟨[], [], .empty, ⟨[], .empty⟩, [], [], [], [], []⟩
  | .sfc steps transitions actions =>
    let declared := OrderedMap.ofList (pou.declared.map fun entry => (upper.apply entry.name, entry))
    let stepsById := OrderedMap.ofList (steps.map fun step => (step.stepId, step))
    let stepKeys := steps.map fun step => upper.apply step.name
    let actions := actions.getD []
    let actionsByName := OrderedMap.ofList (actions.map fun action => (upper.apply action.name, action))
    let resolved := associations upper declared actionsByName steps
    let actionsByName := resolved.inlineActions.foldl (fun m action => m.set (upper.apply action.name) action)
      actionsByName
    let names := ⟨stepKeys, actionsByName⟩
    let results := transitions.zipIdx.map (resolveTransition upper names stepsById)
    let bodies := actionsByName.entries.map Prod.snd
    { diagnostics :=
        check (pou.kind ≠ .function) none "a norma só permite SFC em PROGRAM e FUNCTION_BLOCK".toList ++
          stepDiagnostics upper declared [] steps ++ initialDiagnostics steps ++
          actionDiagnostics upper declared stepKeys [] actions ++ resolved.diagnostics ++
          results.flatMap Prod.fst ++ reachDiagnostics steps (results.filterMap Prod.snd) ++
          bodies.flatMap (bodyDiagnostics upper names)
      steps := steps
      stepsById := stepsById
      names := names
      actions := bodies
      associations := resolved.associations
      booleanActions := resolved.booleanActions
      inlineActions := resolved.inlineActions
      transitions := results.filterMap Prod.snd }

/-- `[...new Set(associations.map(item => item.action))]`. -/
def usedActions (analysis : Analysis) : List Text :=
  (OrderedMap.ofList (analysis.associations.map fun item => (item.action, ()))).keys

/-- The names `lowerSfcToSt` declares and those of the actions it makes up. -/
def generatedNames (analysis : Analysis) : List Text :=
  ["__SFC_NOW".toList, "__SFC_INIT".toList] ++
    analysis.steps.flatMap (fun step => [.X, .T, .T0, .XN].map (stepVar upper step)) ++
    (usedActions analysis).map (actionInstance upper) ++
    analysis.steps.map (activationFlag upper) ++
    analysis.inlineActions.map (·.name)

/-- Identifiers of IEC 61131-3 do not distinguish letter case. -/
def Distinct (names : List Text) : Prop := (names.map (·.map Char.toUpper)).Nodup

/-- The keys of the actions that the associations of a POU name. -/
def actionKeys (steps : List SfcStep) : List Text :=
  (visits steps).filterMap fun visit => (actionName upper visit.1 visit.2.2 visit.2.1).map upper.apply

/-- A step variable is named like an action instance or like an activation flag. -/
def Collides (steps : List SfcStep) : Prop :=
  ∃ step ∈ steps, ∃ suffix : StepSuffix,
    (∃ key ∈ actionKeys upper steps, upper.apply step.name ++ '_' :: suffix.text = "AC_".toList ++ key) ∨
      ∃ other ∈ steps, upper.apply step.name ++ '_' :: suffix.text = "ACT_".toList ++ upper.apply other.name

def PouDefinition.steps (pou : PouDefinition) : List SfcStep :=
  match pou.implementation with
  | .text => []
  | .sfc steps _ _ => steps

variable {upper}

/-- A name that ends in a piece without underscores splits there. -/
theorem split_last {a b u v : Text} (first : '_' ∉ u) (second : '_' ∉ v) (same : a ++ '_' :: u = b ++ '_' :: v) :
    a = b ∧ u = v := by
  rcases List.append_eq_append_iff.mp same with ⟨middle, rfl, rest⟩ | ⟨middle, rfl, rest⟩
  · cases middle with
    | nil => simpa using rest
    | cons c middle =>
      obtain ⟨rfl, rfl⟩ := List.cons.inj rest
      exact absurd (List.mem_append_right _ List.mem_cons_self) first
  · cases middle with
    | nil => simpa using rest.symm
    | cons c middle =>
      obtain ⟨rfl, rfl⟩ := List.cons.inj rest
      exact absurd (List.mem_append_right _ List.mem_cons_self) second

theorem StepSuffix.no_underscore (suffix : StepSuffix) : '_' ∉ suffix.text := by
  cases suffix <;> decide

theorem digits_no_underscore (n : Nat) : '_' ∉ Nat.toDigits 10 n := fun member =>
  absurd (Lib.Numeral.isDigitOf_toDigits n _ member) (by decide)

theorem suffix_ne_digits (suffix : StepSuffix) (n : Nat) : suffix.text ≠ Nat.toDigits 10 n := by
  intro same
  have digits := Lib.Numeral.isDigitOf_toDigits n
  rw [← same] at digits
  cases suffix <;> exact absurd (digits _ List.mem_cons_self) (by decide)

theorem stepDiagnostics_keys {declared : OrderedMap Text IecVariable} {seen : List Text} {steps : List SfcStep}
    (accepted : Accepted (stepDiagnostics upper declared seen steps)) :
    (steps.map fun step => upper.apply step.name).Nodup ∧ ∀ step ∈ steps, upper.apply step.name ∉ seen := by
  induction steps generalizing seen with
  | nil => simp
  | cons step rest ih =>
    unfold stepDiagnostics at accepted
    simp only [accepted_append, accepted_check, decide_eq_true_eq] at accepted
    obtain ⟨⟨⟨-, fresh⟩, -⟩, later⟩ := accepted
    obtain ⟨nodup, apart⟩ := ih later
    constructor
    · rw [List.map_cons, List.nodup_cons]
      refine ⟨fun member => ?_, nodup⟩
      obtain ⟨other, inside, same⟩ := List.mem_map.mp member
      exact apart other inside (same ▸ List.mem_cons_self)
    · intro other member
      rcases List.mem_cons.mp member with rfl | member
      · exact fresh
      · exact fun old => apart other member (List.mem_cons_of_mem _ old)

/-- What one association adds. -/
structure Visited (upper : UpperCase) (visit : SfcStep × SfcActionAssociation × Nat) (before next : Associations) :
    Prop where
  grows : before.diagnostics <+: next.diagnostics
  action : Accepted next.diagnostics → next.associations.map (·.action) =
    before.associations.map (·.action) ++ ((actionName upper visit.1 visit.2.2 visit.2.1).map upper.apply).toList
  inlines : ∃ more, next.inlineActions.map (·.name) = before.inlineActions.map (·.name) ++ more ∧
    more.Sublist [inlineName upper visit.1 visit.2.2]

theorem not_accepted_fail (state : Associations) (step : SfcStep) (message : Text) :
    ¬Accepted (state.fail step message).diagnostics := by
  simp [Associations.fail, Accepted]

theorem associate_visited (declared : OrderedMap Text IecVariable) (actions : OrderedMap Text SfcAction)
    (state : Associations) (visit : SfcStep × SfcActionAssociation × Nat) :
    Visited upper visit state (associate upper declared actions state visit) := by
  obtain ⟨step, association, index⟩ := visit
  have failed (state' : Associations) (message : Text) (same : state'.diagnostics = state.diagnostics)
      (inlines : ∃ more, state'.inlineActions.map (·.name) = state.inlineActions.map (·.name) ++ more ∧
        more.Sublist [inlineName upper step index]) :
      Visited upper (step, association, index) state (state'.fail step message) :=
    ⟨by rw [← same]; exact List.prefix_append _ _, fun accepted => absurd accepted (not_accepted_fail _ _ _), inlines⟩
  unfold associate
  dsimp only
  split
  · exact failed state _ rfl ⟨[], by simp⟩
  · generalize grown : (if isInline association = true then _ else state) = state'
    have kept : state'.diagnostics = state.diagnostics ∧ state'.associations = state.associations ∧
        ∃ more, state'.inlineActions.map (·.name) = state.inlineActions.map (·.name) ++ more ∧
          more.Sublist [inlineName upper step index] := by
      subst grown
      split
      · exact ⟨rfl, rfl, _, List.map_append, List.Sublist.refl _⟩
      · exact ⟨rfl, rfl, [], by simp⟩
    obtain ⟨diagnostics, resolved, inlines⟩ := kept
    split
    · exact failed state' _ diagnostics inlines
    · rename_i action isNamed
      split
      · exact failed state' _ diagnostics inlines
      · rename_i boolean _
        generalize marked : (if boolean = true then _ else state') = state''
        have kept : state''.diagnostics = state'.diagnostics ∧ state''.associations = state'.associations ∧
            state''.inlineActions = state'.inlineActions := by
          subst marked
          split <;> exact ⟨rfl, rfl, rfl⟩
        obtain ⟨diagnostics', resolved', inlines'⟩ := kept
        rw [← inlines'] at inlines
        split
        · exact failed state'' _ (diagnostics'.trans diagnostics) inlines
        · refine ⟨?_, fun _ => ?_, inlines⟩
          · have same : state.diagnostics = state''.diagnostics := (diagnostics'.trans diagnostics).symm
            exact same ▸ List.prefix_refl _
          · show (state''.associations ++ [_]).map _ = _
            rw [List.map_append, resolved', resolved, isNamed]
            rfl

theorem Accepted.of_prefix {first second : List SfcDiagnostic} (grows : first <+: second) (accepted : Accepted second) :
    Accepted first := fun diagnostic member => accepted diagnostic (grows.subset member)

theorem associations_visited (declared : OrderedMap Text IecVariable) (actions : OrderedMap Text SfcAction)
    (steps : List SfcStep) :
    (Accepted (associations upper declared actions steps).diagnostics →
      (associations upper declared actions steps).associations.map (·.action) = actionKeys upper steps) ∧
      ((associations upper declared actions steps).inlineActions.map (·.name)).Sublist
        ((visits steps).map fun visit => inlineName upper visit.1 visit.2.2) := by
  unfold associations actionKeys
  induction visits steps using List.reverseRecOn with
  | nil => exact ⟨fun _ => rfl, List.Sublist.refl _⟩
  | append_singleton before visit ih =>
    obtain ⟨keys, names⟩ := ih
    rw [List.foldl_concat]
    have added : Visited upper visit _ _ := associate_visited declared actions
      (before.foldl (associate upper declared actions) ⟨[], [], [], [], []⟩) visit
    constructor
    · intro accepted
      rw [added.action accepted, keys (accepted.of_prefix added.grows), List.filterMap_append]
      cases found : actionName upper visit.1 visit.2.2 visit.2.1 <;> simp [found]
    · obtain ⟨more, same, one⟩ := added.inlines
      rw [same, List.map_append]
      exact names.append one

theorem inlineNames_nodup {steps : List SfcStep} (distinct : (steps.map fun step => upper.apply step.name).Nodup) :
    ((visits steps).map fun visit => inlineName upper visit.1 visit.2.2).Nodup := by
  have splits {step other : SfcStep} {i j : Nat} (same : inlineName upper step i = inlineName upper other j) :
      upper.apply step.name = upper.apply other.name ∧ i = j := by
    obtain ⟨front, digits⟩ := split_last (digits_no_underscore _) (digits_no_underscore _) same
    refine ⟨List.append_cancel_left front, ?_⟩
    have values := congrArg (Lib.Numeral.valueOf 10 0) digits
    rw [Lib.Numeral.valueOf_toDigits, Lib.Numeral.valueOf_toDigits] at values
    omega
  unfold visits
  rw [List.map_flatMap, List.nodup_flatMap]
  constructor
  · intro step _
    rw [List.map_map]
    have places : (step.actions.zipIdx.map Prod.snd).Nodup := by
      rw [List.zipIdx_map_snd]
      exact List.nodup_range'
    rw [List.nodup_iff_pairwise_ne, List.pairwise_map] at places ⊢
    exact places.imp fun differs same => differs (splits same).2
  · rw [List.nodup_iff_pairwise_ne, List.pairwise_map] at distinct
    refine distinct.imp fun {step other} differs => ?_
    show List.Disjoint _ _
    rw [List.disjoint_left]
    intro name first second
    obtain ⟨one, inside, rfl⟩ := List.mem_map.mp first
    obtain ⟨entry, _, rfl⟩ := List.mem_map.mp inside
    obtain ⟨two, inside, same⟩ := List.mem_map.mp second
    obtain ⟨entry', _, rfl⟩ := List.mem_map.mp inside
    exact differs (splits same).1.symm

/-! ### Distinct names -/

theorem stepVar_stem (step : SfcStep) (suffix : StepSuffix) :
    stepVar upper step suffix = "__SFC_".toList ++ (upper.apply step.name ++ '_' :: suffix.text) :=
  List.append_assoc _ _ _

theorem actionInstance_stem {key : Text} (isKey : upper.apply key = key) :
    actionInstance upper key = "__SFC_".toList ++ ("AC_".toList ++ key) := by
  unfold actionInstance
  simp [isKey]

theorem activationFlag_stem (step : SfcStep) :
    activationFlag upper step = "__SFC_".toList ++ ("ACT_".toList ++ upper.apply step.name) := by
  unfold activationFlag
  simp

theorem inlineName_stem (step : SfcStep) (index : Nat) : inlineName upper step index =
    "__SFC_".toList ++ ("STEP_".toList ++ upper.apply step.name ++ '_' :: Nat.toDigits 10 (index + 1)) := by
  unfold inlineName
  simp

theorem stem_ne {stem stem' : Text} (differ : stem ≠ stem') : "__SFC_".toList ++ stem ≠ "__SFC_".toList ++ stem' :=
  fun same => differ (List.append_cancel_left same)

theorem upper_digits (n : Nat) : (Nat.toDigits 10 n).map Char.toUpper = Nat.toDigits 10 n := by
  have fixed : ∀ k < 10, (Nat.digitChar k).toUpper = Nat.digitChar k := by decide
  refine (List.map_congr_left fun c member => ?_).trans (List.map_id _)
  obtain ⟨k, small, rfl⟩ := Lib.Numeral.mem_toDigits (by decide) n c member
  exact fixed k small

theorem folds_append {front back : Text} (first : front.map Char.toUpper = front)
    (second : back.map Char.toUpper = back) : (front ++ back).map Char.toUpper = front ++ back := by
  rw [List.map_append, first, second]

theorem key_fixed {steps : List SfcStep} {key : Text} (member : key ∈ actionKeys upper steps) :
    upper.apply key = key := by
  obtain ⟨visit, -, isKey⟩ := List.mem_filterMap.mp member
  obtain ⟨name, -, rfl⟩ := Option.map_eq_some_iff.mp isKey
  exact upper.idempotent name

theorem mem_usedActions {analysis : Analysis} {key : Text} :
    key ∈ usedActions analysis ↔ key ∈ analysis.associations.map (·.action) := by
  rw [usedActions, OrderedMap.mem_keys_ofList, List.map_map]
  rfl

theorem mem_stepVars {steps : List SfcStep} {name : Text} :
    name ∈ steps.flatMap (fun step => [.X, .T, .T0, .XN].map (stepVar upper step)) ↔
      ∃ step ∈ steps, ∃ suffix, name = stepVar upper step suffix := by
  simp only [List.mem_flatMap, List.mem_map]
  constructor
  · rintro ⟨step, member, suffix, -, rfl⟩
    exact ⟨step, member, suffix, rfl⟩
  · rintro ⟨step, member, suffix, rfl⟩
    exact ⟨step, member, suffix, by cases suffix <;> simp, rfl⟩

theorem stepVar_inj {step other : SfcStep} {suffix suffix' : StepSuffix}
    (same : stepVar upper step suffix = stepVar upper other suffix') :
    upper.apply step.name = upper.apply other.name ∧ suffix = suffix' := by
  rw [stepVar_stem, stepVar_stem] at same
  obtain ⟨front, back⟩ := split_last suffix.no_underscore suffix'.no_underscore (List.append_cancel_left same)
  refine ⟨front, ?_⟩
  cases suffix <;> cases suffix' <;> first | rfl | exact absurd back (by decide)

theorem stepVars_nodup {steps : List SfcStep} (distinct : (steps.map fun step => upper.apply step.name).Nodup) :
    (steps.flatMap fun step => [.X, .T, .T0, .XN].map (stepVar upper step)).Nodup := by
  rw [List.nodup_flatMap]
  constructor
  · intro step _
    exact List.Nodup.map_on (fun _ _ _ _ same => (stepVar_inj same).2) (by decide)
  · rw [List.nodup_iff_pairwise_ne, List.pairwise_map] at distinct
    refine distinct.imp fun {step other} differs => ?_
    show List.Disjoint _ _
    rw [List.disjoint_left]
    intro name first second
    obtain ⟨suffix, _, rfl⟩ := List.mem_map.mp first
    obtain ⟨suffix', _, same⟩ := List.mem_map.mp second
    exact differs (stepVar_inj same).1.symm

/-- The names of the other kinds have an underscore after the common front. -/
theorem ne_fixed {stem : Text} (underscore : '_' ∈ stem) :
    "__SFC_".toList ++ stem ∉ ["__SFC_NOW".toList, "__SFC_INIT".toList] := by
  have fixed : ["__SFC_NOW".toList, "__SFC_INIT".toList] =
      ["__SFC_".toList ++ ['N', 'O', 'W'], "__SFC_".toList ++ ['I', 'N', 'I', 'T']] := by simp
  rw [fixed]
  intro member
  rcases List.mem_cons.mp member with same | member
  · rw [List.append_cancel_left same] at underscore
    exact absurd underscore (by decide)
  · rw [List.append_cancel_left (List.mem_singleton.mp member)] at underscore
    exact absurd underscore (by decide)

theorem mem_visits {steps : List SfcStep} {name : Text}
    (member : name ∈ (visits steps).map fun visit => inlineName upper visit.1 visit.2.2) :
    ∃ step ∈ steps, ∃ index, name = inlineName upper step index := by
  obtain ⟨visit, inside, rfl⟩ := List.mem_map.mp member
  obtain ⟨step, listed, inside⟩ := List.mem_flatMap.mp inside
  obtain ⟨entry, -, rfl⟩ := List.mem_map.mp inside
  exact ⟨step, listed, entry.2, rfl⟩

/-- What an accepted analysis has. -/
structure Checked (upper : UpperCase) (analysis : Analysis) : Prop where
  distinct : (analysis.steps.map fun step => upper.apply step.name).Nodup
  actions : analysis.associations.map (·.action) = actionKeys upper analysis.steps
  inlines : (analysis.inlineActions.map (·.name)).Sublist
    ((visits analysis.steps).map fun visit => inlineName upper visit.1 visit.2.2)

theorem analyze_steps (upper : UpperCase) (pou : PouDefinition) : (analyze upper pou).steps = pou.steps := by
  unfold analyze PouDefinition.steps
  cases pou.implementation <;> rfl

theorem analyze_checked {pou : PouDefinition} (accepted : Accepted (analyze upper pou).diagnostics) :
    Checked upper (analyze upper pou) := by
  unfold analyze at accepted ⊢
  cases body : pou.implementation with
  | text => exact ⟨List.nodup_nil, rfl, List.Sublist.refl _⟩
  | sfc steps transitions actions =>
    rw [body] at accepted
    simp only [accepted_append] at accepted
    obtain ⟨⟨⟨⟨⟨⟨⟨-, ofSteps⟩, -⟩, -⟩, ofAssociations⟩, -⟩, -⟩, -⟩ := accepted
    have visited := @associations_visited upper
      (OrderedMap.ofList (pou.declared.map fun entry => (upper.apply entry.name, entry)))
      (OrderedMap.ofList ((actions.getD []).map fun action => (upper.apply action.name, action))) steps
    exact ⟨(stepDiagnostics_keys ofSteps).1, visited.1 ofAssociations, visited.2⟩

namespace Checked

variable {analysis : Analysis} (checked : Checked upper analysis) {name : Text}
include checked

theorem mem_instances : name ∈ (usedActions analysis).map (actionInstance upper) ↔
    ∃ key ∈ actionKeys upper analysis.steps, name = "__SFC_".toList ++ ("AC_".toList ++ key) := by
  rw [List.mem_map]
  simp only [mem_usedActions, checked.actions]
  constructor
  · rintro ⟨key, member, rfl⟩
    exact ⟨key, member, actionInstance_stem (key_fixed member)⟩
  · rintro ⟨key, member, rfl⟩
    exact ⟨key, member, actionInstance_stem (key_fixed member)⟩

theorem instances_nodup : ((usedActions analysis).map (actionInstance upper)).Nodup := by
  refine List.Nodup.map_on (fun first inside second inside' same => ?_) (OrderedMap.nodup _)
  rw [mem_usedActions, checked.actions] at inside inside'
  rw [actionInstance_stem (key_fixed inside), actionInstance_stem (key_fixed inside')] at same
  exact List.append_cancel_left (List.append_cancel_left same)

theorem mem_inlines (member : name ∈ analysis.inlineActions.map (·.name)) :
    ∃ step ∈ analysis.steps, ∃ index, name = inlineName upper step index :=
  mem_visits (checked.inlines.subset member)

theorem flags_nodup : (analysis.steps.map (activationFlag upper)).Nodup := by
  have distinct := checked.distinct
  rw [List.nodup_iff_pairwise_ne, List.pairwise_map] at distinct ⊢
  refine distinct.imp fun {step other} differs same => differs ?_
  rw [activationFlag_stem, activationFlag_stem] at same
  exact List.append_cancel_left (List.append_cancel_left same)

/-- The names differ exactly when no step variable is an action instance or an activation flag. -/
theorem nodup_iff : (generatedNames upper analysis).Nodup ↔ ¬Collides upper analysis.steps := by
  unfold generatedNames
  rw [List.nodup_append, List.nodup_append, List.nodup_append, List.nodup_append]
  constructor
  · rintro ⟨⟨⟨-, -, instances⟩, -, flags⟩, -, -⟩ ⟨step, member, suffix, ⟨key, used, same⟩ | ⟨other, listed, same⟩⟩
    · exact instances _ (List.mem_append_right _ (mem_stepVars.mpr ⟨step, member, suffix, rfl⟩)) _
        (checked.mem_instances.mpr ⟨key, used, rfl⟩) (by rw [stepVar_stem, same])
    · exact flags _ (List.mem_append_left _ (List.mem_append_right _ (mem_stepVars.mpr ⟨step, member, suffix, rfl⟩))) _
        (List.mem_map_of_mem listed) (by rw [stepVar_stem, activationFlag_stem, same])
  · intro apart
    have fixed : ∀ name ∈ ["__SFC_NOW".toList, "__SFC_INIT".toList], ∀ stem : Text, '_' ∈ stem →
        name ≠ "__SFC_".toList ++ stem := fun name inside stem underscore same =>
      ne_fixed underscore (same ▸ inside)
    refine ⟨⟨⟨⟨by simp, stepVars_nodup checked.distinct, ?_⟩, checked.instances_nodup, ?_⟩, checked.flags_nodup, ?_⟩,
      checked.inlines.nodup (inlineNames_nodup checked.distinct), ?_⟩
    · intro name inside other ofStep
      obtain ⟨step, _, suffix, rfl⟩ := mem_stepVars.mp ofStep
      rw [stepVar_stem]
      exact fixed name inside _ (by simp)
    · intro name inside other instances
      obtain ⟨key, used, rfl⟩ := checked.mem_instances.mp instances
      rcases List.mem_append.mp inside with inside | inside
      · exact fixed name inside _ (by simp)
      · obtain ⟨step, member, suffix, rfl⟩ := mem_stepVars.mp inside
        rw [stepVar_stem]
        exact stem_ne fun same => apart ⟨step, member, suffix, .inl ⟨key, used, same⟩⟩
    · intro name inside other flags
      obtain ⟨step, member, rfl⟩ := List.mem_map.mp flags
      rw [activationFlag_stem]
      rcases List.mem_append.mp inside with inside | inside
      · rcases List.mem_append.mp inside with inside | inside
        · exact fixed name inside _ (by simp)
        · obtain ⟨other, listed, suffix, rfl⟩ := mem_stepVars.mp inside
          rw [stepVar_stem]
          exact stem_ne fun same => apart ⟨other, listed, suffix, .inr ⟨step, member, same⟩⟩
      · obtain ⟨key, used, rfl⟩ := checked.mem_instances.mp inside
        exact stem_ne (by simp)
    · intro name inside other inlines
      obtain ⟨step, member, index, rfl⟩ := checked.mem_inlines inlines
      rw [inlineName_stem]
      rcases List.mem_append.mp inside with inside | inside
      · rcases List.mem_append.mp inside with inside | inside
        · rcases List.mem_append.mp inside with inside | inside
          · exact fixed name inside _ (by simp)
          · obtain ⟨other, _, suffix, rfl⟩ := mem_stepVars.mp inside
            rw [stepVar_stem]
            refine stem_ne fun same => suffix_ne_digits suffix (index + 1) ?_
            exact (split_last suffix.no_underscore (digits_no_underscore _) same).2
        · obtain ⟨key, used, rfl⟩ := checked.mem_instances.mp inside
          exact stem_ne (by simp)
      · obtain ⟨other, _, rfl⟩ := List.mem_map.mp inside
        rw [activationFlag_stem]
        exact stem_ne (by simp)

/-- The generated names have no lower-case letter. -/
theorem upper_names : (generatedNames upper analysis).map (·.map Char.toUpper) = generatedNames upper analysis := by
  have folds : ∀ name ∈ generatedNames upper analysis, name.map Char.toUpper = name := by
    intro name member
    simp only [generatedNames, List.mem_append] at member
    rcases member with (((fixed | ofStep) | instances) | flags) | inlines
    · rcases List.mem_cons.mp fixed with rfl | fixed
      · simp
      · rw [List.mem_singleton.mp fixed]
        simp
    · obtain ⟨step, _, suffix, rfl⟩ := mem_stepVars.mp ofStep
      exact folds_append (folds_append (by simp) (upper.noLower _)) (by cases suffix <;> decide)
    · obtain ⟨key, _, rfl⟩ := List.mem_map.mp instances
      exact folds_append (by simp) (upper.noLower _)
    · obtain ⟨step, _, rfl⟩ := List.mem_map.mp flags
      exact folds_append (by simp) (upper.noLower _)
    · obtain ⟨step, _, index, rfl⟩ := checked.mem_inlines inlines
      exact folds_append (folds_append (by simp) (upper.noLower _)) (by rw [List.map_cons, upper_digits]; rfl)
  exact (List.map_congr_left folds).trans (List.map_id _)

end Checked

/-- The names of an accepted POU are distinct unless a step variable is named like an action instance or an
activation flag. -/
theorem generatedNames_distinct_iff (upper : UpperCase) (pou : PouDefinition)
    (accepted : Accepted (analyze upper pou).diagnostics) :
    Distinct (generatedNames upper (analyze upper pou)) ↔ ¬Collides upper pou.steps := by
  have checked := analyze_checked accepted
  rw [Distinct, checked.upper_names, checked.nodup_iff, analyze_steps]

theorem toUpper_twice (c : Char) : c.toUpper.toUpper = c.toUpper := by
  unfold Char.toUpper
  split
  · rename_i lower
    rw [dif_neg]
    dsimp only
    rw [UInt32.le_iff_toNat_le, UInt32.le_iff_toNat_le] at lower ⊢
    have value : (c.val + ('A'.val - 'a'.val)).toNat = (c.val.toNat + 4294967264) % 4294967296 := by
      rw [UInt32.toNat_add]
      rfl
    have a : 'a'.val.toNat = 97 := rfl
    have z : 'z'.val.toNat = 122 := rfl
    omega
  · rfl

/-- `toUpperCase` on ASCII texts. -/
def asciiUpper : UpperCase where
  apply := List.map Char.toUpper
  ascii _ _ := rfl
  noLower text := by
    rw [List.map_map]
    exact List.map_congr_left fun c _ => toUpper_twice c
  idempotent text := by
    rw [List.map_map]
    exact List.map_congr_left fun c _ => toUpper_twice c

/-- One step with one action. -/
def oneStep (step action : String) : PouDefinition where
  kind := .program
  declared := []
  implementation := .sfc
    [⟨"s1".toList, step.toList, true, [⟨some ['N'], some action.toList, none, none, none⟩]⟩] []
    (some [⟨action.toList, "st".toList, "READY := TRUE;".toList⟩])

theorem generatedNames_distinct_fill :
    Distinct (generatedNames asciiUpper (analyze asciiUpper (oneStep "Fill" "Open"))) ↔
      ¬Collides asciiUpper (oneStep "Fill" "Open").steps :=
  generatedNames_distinct_iff asciiUpper (oneStep "Fill" "Open") (by unfold Accepted; decide +kernel)

/-- A step `AC` with an action `X`. -/
theorem generatedNames_collide : Accepted (analyze asciiUpper (oneStep "AC" "X")).diagnostics ∧
    ¬Distinct (generatedNames asciiUpper (analyze asciiUpper (oneStep "AC" "X"))) := by
  unfold Accepted Distinct
  decide +kernel

end LasecSimul.Plc.Sfc
