import LasecSimul.Lib.Fallible
import LasecSimul.Plc.ScanSession

/-!
# A scan takes what its literals say

A rejected request changes nothing. An accepted one sets its inputs to what the literals denote when they
denote something in the declared types.
-/

namespace LasecSimul.Plc

open Lib.Numeral

variable {σ : Type} {long : LongWidth} {run : Int → List Text → Worker σ → Worker σ} {session : PlcScanSession σ}
  {requestId args : Text} {request : Request} {memory : Nat → IecVar} {pending : List (VarDescriptor × Text)}

inductive Command where
  | scan
  | event
  deriving DecidableEq, Repr

section

variable (long) (run)

def check (command : Command) (session : PlcScanSession σ) (args : Text) : Except Text Request :=
  match command with
  | .scan => checkScan long session args
  | .event => checkEvent long session args

def handle (command : Command) (session : PlcScanSession σ) (requestId args : Text) : Reply × PlcScanSession σ :=
  match command with
  | .scan => handleScan long run session requestId args
  | .event => handleEvent long run session requestId args

/-- A program does not assign its own inputs. -/
def KeepsInputs (inputVars : List VarDescriptor) : Prop :=
  ∀ timeNs tasks worker, ∀ var ∈ inputVars,
    ((run timeNs tasks worker).memory var.varPtr).get = (worker.memory var.varPtr).get

/-- Rejected without a trace, or accepted to the letter. -/
def Exact (command : Command) (session : PlcScanSession σ) (requestId args : Text) : Prop :=
  match handle long run command session requestId args with
  | (.err _ _, after) => after = session
  | (.ok _ _, after) =>
    (∀ request, check long command session args = .ok request → ∀ assignment ∈ request.pending,
      ∃ value, denotes assignment.1.type assignment.2 = some value ∧
        (after.worker.memory assignment.1.varPtr).get = value) ∧
    match command with
    | .scan => session.lastAcceptedTimeNs < after.lastAcceptedTimeNs
    | .event => session.lastAcceptedTimeNs ≤ after.lastAcceptedTimeNs

/-- If the checks pass, every literal denotes a value of its type, the same as the other literals for that
variable, no variable is forced to another value, and a first scan is after the time of the session. -/
def Literal (command : Command) (session : PlcScanSession σ) (args : Text) : Prop :=
  ∀ request, check long command session args = .ok request →
    (command = .scan → session.hasScanned = false → session.lastAcceptedTimeNs < request.simulationTimeNs) ∧
    ∀ assignment ∈ request.pending, ∃ value, denotes assignment.1.type assignment.2 = some value ∧
      ((session.worker.memory assignment.1.varPtr).forced = true →
        (session.worker.memory assignment.1.varPtr).forcedValue = value) ∧
      ∀ other ∈ request.pending, other.1.varPtr = assignment.1.varPtr → denotes other.1.type other.2 = some value

end

theorem parseAssignment_ok {invalid : VarDescriptor → Text → Text} {inputVars : List VarDescriptor} {token : Text}
    {assignment : VarDescriptor × Text} (parsed : parseAssignment long inputVars invalid token = .ok assignment) :
    assignment.1 ∈ inputVars ∧ isValueValidForType long assignment.1.type assignment.2 = true := by
  unfold parseAssignment at parsed
  dsimp only at parsed
  split at parsed
  · cases parsed
  · split at parsed
    · cases parsed
    · rename_i var found
      split at parsed
      · rename_i valid
        cases parsed
        exact ⟨List.mem_of_find?_eq_some found, valid⟩
      · cases parsed

theorem parseAssignments_ok {invalid : VarDescriptor → Text → Text} {inputVars : List VarDescriptor}
    {texts : List Text} (parsed : texts.mapM (parseAssignment long inputVars invalid) = .ok pending) :
    ∀ assignment ∈ pending, assignment.1 ∈ inputVars ∧
      isValueValidForType long assignment.1.type assignment.2 = true := by
  intro assignment member
  obtain ⟨token, _, made⟩ := Lib.Fallible.mem_of_forall₂ (Lib.Fallible.mapM_forall₂ parsed) member
  exact parseAssignment_ok made

theorem checkScan_ok (checked : checkScan long session args = .ok request) :
    (session.hasScanned = true → session.lastAcceptedTimeNs < request.simulationTimeNs) ∧
    ∀ assignment ∈ request.pending, assignment.1 ∈ session.inputVars ∧
      isValueValidForType long assignment.1.type assignment.2 = true := by
  unfold checkScan at checked
  split at checked
  · cases checked
  · rename_i simulationTimeNs rest _
    split at checked
    · cases checked
    · rename_i later
      split at checked
      · cases checked
      · rename_i pending parsed
        cases checked
        refine ⟨fun scanned => ?_, parseAssignments_ok parsed⟩
        exact Int.lt_of_not_ge fun early => later ⟨scanned, early⟩

theorem checkEvent_ok (checked : checkEvent long session args = .ok request) :
    ∀ assignment ∈ request.pending, assignment.1 ∈ session.inputVars ∧
      isValueValidForType long assignment.1.type assignment.2 = true := by
  unfold checkEvent at checked
  split at checked
  · cases checked
  · split at checked
    · cases checked
    · split at checked
      · cases checked
      · dsimp only at checked
        split at checked
        · cases checked
        · split at checked
          · cases checked
          · rename_i pending parsed
            cases checked
            exact parseAssignments_ok parsed

/-- The memory after the assignments, each of which is accepted. -/
structure Applied (long : LongWidth) (pending : List (VarDescriptor × Text)) (memory after : Nat → IecVar) : Prop where
  forced : ∀ varPtr, (after varPtr).forced = (memory varPtr).forced
  forcedValue : ∀ varPtr, (after varPtr).forcedValue = (memory varPtr).forcedValue
  value : ∀ varPtr value, (memory varPtr).forced = false →
    (∀ assignment ∈ pending, assignment.1.varPtr = varPtr →
      valueToSet long assignment.1.type assignment.2 = some value) →
    ((memory varPtr).value = value ∨ ∃ assignment ∈ pending, assignment.1.varPtr = varPtr) →
    (after varPtr).value = value

theorem Applied.none (memory : Nat → IecVar) : Applied long [] memory memory := by
  refine ⟨fun _ => rfl, fun _ => rfl, fun varPtr value _ _ known => ?_⟩
  rcases known with same | ⟨_, member, _⟩
  · exact same
  · cases member

theorem set_forced (old : IecVar) (type : VarTypeTag) (value : IecValue) :
    (old.set type value).forced = old.forced ∧ (old.set type value).forcedValue = old.forcedValue := by
  unfold IecVar.set
  split <;> exact ⟨rfl, rfl⟩

theorem Applied.cons {var : VarDescriptor} {text : Text} {changed : IecVar} {after : Nat → IecVar}
    (sets : varSetValue long var.type (memory var.varPtr) text = some changed)
    (rest : Applied long pending (Function.update memory var.varPtr changed) after) :
    Applied long ((var, text) :: pending) memory after := by
  obtain ⟨value, taken, rfl⟩ := Option.map_eq_some_iff.mp sets
  have kept : ∀ varPtr,
      (Function.update memory var.varPtr ((memory var.varPtr).set var.type value) varPtr).forced =
        (memory varPtr).forced ∧
      (Function.update memory var.varPtr ((memory var.varPtr).set var.type value) varPtr).forcedValue =
        (memory varPtr).forcedValue := by
    intro varPtr
    by_cases same : varPtr = var.varPtr
    · rw [same, Function.update_self]
      exact set_forced ..
    · rw [Function.update_of_ne same]
      exact ⟨rfl, rfl⟩
  refine ⟨fun varPtr => ?_, fun varPtr => ?_, fun varPtr wanted free agree known => ?_⟩
  · rw [rest.forced, (kept varPtr).1]
  · rw [rest.forcedValue, (kept varPtr).2]
  · have later : ∀ assignment ∈ pending, assignment.1.varPtr = varPtr →
        valueToSet long assignment.1.type assignment.2 = some wanted :=
      fun assignment member => agree assignment (List.mem_cons_of_mem _ member)
    apply rest.value varPtr wanted ((kept varPtr).1.trans free) later
    by_cases same : varPtr = var.varPtr
    · left
      subst same
      rw [Function.update_self]
      unfold IecVar.set
      rw [if_neg (by simp [free])]
      exact Option.some.inj (taken.symm.trans (agree (var, text) List.mem_cons_self rfl))
    · rw [Function.update_of_ne same]
      apply known.imp_right
      rintro ⟨assignment, member, here⟩
      rcases List.mem_cons.mp member with rfl | later
      · exact absurd here.symm same
      · exact ⟨assignment, later, here⟩

theorem applyAll_applied (memory : Nat → IecVar)
    (valid : ∀ assignment ∈ pending, isValueValidForType long assignment.1.type assignment.2 = true) :
    ∃ after, applyAll long pending memory = (after, none) ∧ Applied long pending memory after := by
  induction pending generalizing memory with
  | nil => exact ⟨memory, rfl, .none memory⟩
  | cons assignment pending ih =>
    obtain ⟨var, text⟩ := assignment
    obtain ⟨changed, sets⟩ := Option.isSome_iff_exists.mp
      (varSetValue_isSome (valid (var, text) List.mem_cons_self) (memory var.varPtr))
    obtain ⟨after, applies, applied⟩ := ih (Function.update memory var.varPtr changed)
      fun assignment member => valid assignment (List.mem_cons_of_mem _ member)
    refine ⟨after, ?_, .cons sets applied⟩
    simp only [applyAll]
    rw [sets]
    exact applies

theorem applyEach_applied (memory : Nat → IecVar)
    (valid : ∀ assignment ∈ pending, isValueValidForType long assignment.1.type assignment.2 = true) :
    Applied long pending memory (applyEach long pending memory) := by
  induction pending generalizing memory with
  | nil => exact .none memory
  | cons assignment pending ih =>
    obtain ⟨var, text⟩ := assignment
    obtain ⟨changed, sets⟩ := Option.isSome_iff_exists.mp
      (varSetValue_isSome (valid (var, text) List.mem_cons_self) (memory var.varPtr))
    have step : applyEach long ((var, text) :: pending) memory =
        applyEach long pending (Function.update memory var.varPtr changed) := by
      unfold applyEach
      rw [List.foldl_cons, sets]
    rw [step]
    exact .cons sets (ih _ fun assignment member => valid assignment (List.mem_cons_of_mem _ member))

theorem valueToSet_denoted {type : VarTypeTag} {text : Text} {value : IecValue}
    (valid : isValueValidForType long type text = true) (denoted : denotes type text = some value) :
    valueToSet long type text = some value := by
  have sets := varSetValue_isSome valid { value := value, forcedValue := value }
  unfold varSetValue at sets
  rw [Option.isSome_map] at sets
  obtain ⟨taken, sets⟩ := Option.isSome_iff_exists.mp sets
  rw [sets, valueToSet_exact denoted sets]

/-- The assigned variables hold what their literals denote, which the literals decide. -/
theorem assigned_iff {after last : Nat → IecVar}
    (valid : ∀ assignment ∈ pending, isValueValidForType long assignment.1.type assignment.2 = true)
    (applied : Applied long pending memory after)
    (kept : ∀ assignment ∈ pending, (last assignment.1.varPtr).get = (after assignment.1.varPtr).get) :
    (∀ assignment ∈ pending, ∃ value, denotes assignment.1.type assignment.2 = some value ∧
      (last assignment.1.varPtr).get = value) ↔
    ∀ assignment ∈ pending, ∃ value, denotes assignment.1.type assignment.2 = some value ∧
      ((memory assignment.1.varPtr).forced = true → (memory assignment.1.varPtr).forcedValue = value) ∧
      ∀ other ∈ pending, other.1.varPtr = assignment.1.varPtr → denotes other.1.type other.2 = some value := by
  constructor
  · intro holds assignment member
    obtain ⟨value, denoted, reads⟩ := holds assignment member
    refine ⟨value, denoted, fun forced => ?_, fun other among same => ?_⟩
    · rw [kept assignment member, IecVar.get, applied.forced, if_pos forced, applied.forcedValue] at reads
      exact reads
    · obtain ⟨value', denoted', reads'⟩ := holds other among
      rw [same, reads] at reads'
      rw [denoted', reads']
  · intro literal assignment member
    obtain ⟨value, denoted, forced, agree⟩ := literal assignment member
    refine ⟨value, denoted, ?_⟩
    rw [kept assignment member, IecVar.get, applied.forced, applied.forcedValue]
    split
    · rename_i held
      exact forced held
    · rename_i free
      apply applied.value _ _ (Bool.eq_false_iff.mpr free)
      · exact fun other among same => valueToSet_denoted (valid other among) (agree other among same)
      · exact .inr ⟨assignment, member, rfl⟩

theorem handle_exact (command : Command) (session : PlcScanSession σ) (requestId args : Text)
    (keeps : KeepsInputs run session.inputVars) :
    Exact long run command session requestId args ↔ Literal long command session args := by
  cases command with
  | scan =>
    unfold Exact Literal handle handleScan check
    cases checked : checkScan long session args with
    | error message => simp
    | ok request =>
      obtain ⟨monotone, passed⟩ := checkScan_ok checked
      obtain ⟨after, applies, applied⟩ := applyAll_applied session.worker.memory fun assignment member =>
        (passed assignment member).2
      simp only [applies, Except.ok.injEq, forall_eq', forall_const]
      rw [and_comm]
      apply and_congr
      · constructor
        · exact fun later _ => later
        · intro first
          cases scanned : session.hasScanned with
          | true => exact monotone scanned
          | false => exact first scanned
      · exact assigned_iff (fun assignment member => (passed assignment member).2) applied fun assignment member =>
          keeps _ _ _ _ (passed assignment member).1
  | event =>
    unfold Exact Literal handle handleEvent check
    cases checked : checkEvent long session args with
    | error message => simp
    | ok request =>
      have passed := checkEvent_ok checked
      have applied := applyEach_applied session.worker.memory fun assignment member => (passed assignment member).2
      simp only [Except.ok.injEq, forall_eq', reduceCtorEq, false_implies, true_and, le_max_left, and_true]
      exact assigned_iff (fun assignment member => (passed assignment member).2) applied fun assignment member =>
        keeps _ _ _ _ (passed assignment member).1

def speed : VarDescriptor := { name := "SPEED".toList, type := .sint, varPtr := 0 }

def speedSession : PlcScanSession Unit where
  inputVars := [speed]
  outputVars := []
  worker := { memory := fun _ => { value := .integer 0, forcedValue := .integer 0 }, program := () }

/-- The program copies its input to another variable. -/
def copySpeed (_timeNs : Int) (_tasks : List Text) (worker : Worker Unit) : Worker Unit :=
  { worker with memory := Function.update worker.memory 1 (worker.memory 0) }

theorem copySpeed_keepsInputs : KeepsInputs copySpeed speedSession.inputVars := by
  intro _ _ worker var member
  obtain rfl := List.mem_singleton.mp member
  rfl

def long64 : LongWidth := { bits := 64, atLeast := by decide }

theorem handle_exact_speed : Exact long64 copySpeed .scan speedSession "1".toList "5 SPEED=100".toList := by
  apply (handle_exact .scan speedSession _ _ copySpeed_keepsInputs).mpr
  intro request checked
  have passes : check long64 .scan speedSession "5 SPEED=100".toList =
      .ok { simulationTimeNs := 5, pending := [(speed, "100".toList)] } := by decide +kernel
  cases passes.symm.trans checked
  refine ⟨by decide, fun assignment member => ?_⟩
  obtain rfl := List.mem_singleton.mp member
  refine ⟨.integer 100, by decide +kernel, nofun, fun other among _ => ?_⟩
  obtain rfl := List.mem_singleton.mp among
  decide +kernel

/-- 300 is no `SINT`, and wraps around to 44. -/
theorem handle_wraps : ¬Exact long64 copySpeed .scan speedSession "1".toList "5 SPEED=300".toList := by
  intro exact
  have passes : check long64 .scan speedSession "5 SPEED=300".toList =
      .ok { simulationTimeNs := 5, pending := [(speed, "300".toList)] } := by decide +kernel
  have accepts : (handle long64 copySpeed .scan speedSession "1".toList "5 SPEED=300".toList).1 =
      .ok "1".toList [] := by decide +kernel
  unfold Exact at exact
  rcases handled : handle long64 copySpeed .scan speedSession "1".toList "5 SPEED=300".toList with ⟨reply, after⟩
  rw [handled] at exact accepts
  dsimp only at accepts
  subst accepts
  obtain ⟨value, denoted, _⟩ := exact.1 _ passes (speed, "300".toList) List.mem_cons_self
  have none : denotes speed.type "300".toList = none := by decide +kernel
  rw [none] at denoted
  cases denoted

end LasecSimul.Plc
