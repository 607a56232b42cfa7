import LasecSimul.Plc.Crossing
import LasecSimul.Plc.ScanExact

/-!
# One exchange with a worker

The request and the reply are split at blanks and at the first `=`. What was written is what is read as
long as no text has a blank in it.
-/

namespace LasecSimul.Plc

open Lib.Binary Lib.Decimal Lib.Fallible Lib.Numeral Plan Signal

variable {σ : Type} {long : LongWidth} {run : Int → List Text → Worker σ → Worker σ}
  {session after : PlcScanSession σ} {bindings : List PlcIoBinding} {text : Text} {texts : List Text}

theorem tokens_append_space (left right : Text) {c : Char} (space : isSpace c = true) :
    tokens (left ++ c :: right) = tokens left ++ tokens right := by
  unfold tokens
  rw [List.splitOnP_append_cons left right space, List.filter_append]

theorem tokens_nil : tokens [] = [] := rfl

theorem tokens_solid (solid : Solid text) (nonempty : text ≠ []) : tokens text = [text] := by
  unfold tokens
  rw [List.splitOnP_eq_singleton solid]
  exact List.filter_eq_self.mpr fun other member => by
    rw [List.mem_singleton.mp member]
    exact decide_eq_true nonempty

theorem tokens_spaced (solid : ∀ text ∈ texts, Solid text ∧ text ≠ []) : tokens (spaced texts) = texts := by
  induction texts with
  | nil => rfl
  | cons text rest ih =>
    have step : spaced (text :: rest) = [] ++ ' ' :: (text ++ spaced rest) := rfl
    have first := solid text List.mem_cons_self
    have later : tokens (text ++ spaced rest) = text :: rest := by
      have after := ih fun other member => solid other (List.mem_cons_of_mem _ member)
      cases rest with
      | nil =>
        show tokens (text ++ []) = [text]
        rw [List.append_nil]
        exact tokens_solid first.1 first.2
      | cons next more =>
        have split : text ++ spaced (next :: more) = text ++ ' ' :: (next ++ spaced more) := rfl
        rw [split, tokens_append_space _ _ (by decide), tokens_solid first.1 first.2, List.singleton_append]
        congr 1
    rw [step, tokens_append_space _ _ (by decide), later]
    rfl

theorem isSpace_of_isTrimmed {c : Char} (trimmed : isTrimmed c = true) : isSpace c = true := by
  unfold isTrimmed at trimmed
  simp only [List.mem_cons, List.not_mem_nil, or_false, decide_eq_true_eq] at trimmed
  rcases trimmed with rfl | rfl | rfl | rfl <;> decide

theorem tokens_trim (text : Text) : tokens (trim text) = tokens text := by
  have front : ∀ text : Text, tokens (text.dropWhile isTrimmed) = tokens text := by
    intro text
    induction text with
    | nil => rfl
    | cons c text ih =>
      rw [List.dropWhile_cons]
      split
      · rename_i blank
        rw [ih]
        exact (tokens_append_space [] text (isSpace_of_isTrimmed blank)).symm
      · rfl
  have back : ∀ text : Text, tokens (text.rdropWhile isTrimmed) = tokens text := by
    intro text
    induction text using List.reverseRecOn with
    | nil => rfl
    | append_singleton text c ih =>
      rw [List.rdropWhile_concat]
      split
      · rename_i blank
        rw [ih, tokens_append_space text [] (isSpace_of_isTrimmed blank), tokens_nil, List.append_nil]
      · rfl
  rw [trim, back, front]

theorem solid_of_piece {piece : Text} (member : piece ∈ text.splitOnP isSpace) : Solid piece := by
  induction text generalizing piece with
  | nil =>
    rw [List.splitOnP_nil, List.mem_singleton] at member
    rw [member]
    nofun
  | cons c text ih =>
    rw [List.splitOnP_cons_eq_if_modifyHead] at member
    split at member
    · rcases List.mem_cons.mp member with rfl | later
      · nofun
      · exact ih later
    · rename_i letter
      obtain ⟨first, rest, same⟩ := List.exists_cons_of_ne_nil (List.splitOnP_ne_nil isSpace text)
      rw [same, List.modifyHead_cons] at member
      rcases List.mem_cons.mp member with rfl | later
      · intro d among
        rcases List.mem_cons.mp among with rfl | inside
        · exact Bool.eq_false_iff.mpr letter
        · exact ih (by rw [same]; exact List.mem_cons_self) d inside
      · exact ih (by rw [same]; exact List.mem_cons_of_mem _ later)

theorem solid_of_token {token : Text} (member : token ∈ tokens text) : Solid token :=
  solid_of_piece (List.mem_of_mem_filter member)

/-- What can stand before the `=`. -/
structure Identifier (name : Text) : Prop where
  nonempty : name ≠ []
  solid : Solid name
  noEquals : '=' ∉ name

theorem takeWhile_name {name : Text} (noEquals : '=' ∉ name) (value : Text) :
    (assignmentText (name, value)).takeWhile (· ≠ '=') = name ∧
    (assignmentText (name, value)).dropWhile (· ≠ '=') = '=' :: value := by
  have all : ∀ c ∈ name, decide (c ≠ '=') = true := by
    intro c member
    apply decide_eq_true
    rintro rfl
    exact noEquals member
  unfold assignmentText
  rw [List.takeWhile_append_of_pos all, List.dropWhile_append_of_pos all]
  constructor
  · rw [List.takeWhile_cons_of_neg (by decide), List.append_nil]
  · rw [List.dropWhile_cons_of_neg (by decide)]

theorem equals_mem (assignment : Text × Text) : '=' ∈ assignmentText assignment :=
  List.mem_append_right _ List.mem_cons_self

theorem parsePair_assignment {assignment : Text × Text} (name : Identifier assignment.1) :
    parsePair (assignmentText assignment) = some assignment := by
  obtain ⟨front, back⟩ := takeWhile_name name.noEquals assignment.2
  unfold parsePair
  rw [if_pos (equals_mem assignment), front, back]
  rfl

theorem assignment_solid {assignment : Text × Text} (name : Identifier assignment.1) (solid : Solid assignment.2) :
    Solid (assignmentText assignment) ∧ assignmentText assignment ≠ [] := by
  have equals : Solid ['='] := by decide
  refine ⟨name.solid.append (equals.append solid), ?_⟩
  exact List.append_ne_nil_of_left_ne_nil name.nonempty _

theorem parseAssignment_assignment {inputVars : List VarDescriptor} {invalid : VarDescriptor → Text → Text}
    {assignment : Text × Text} {var : VarDescriptor} (name : Identifier assignment.1)
    (found : findInput inputVars assignment.1 = some var) :
    parseAssignment long inputVars invalid (assignmentText assignment) =
      if isValueValidForType long var.type assignment.2 then .ok (var, assignment.2)
      else .error (invalid var assignment.2) := by
  obtain ⟨front, back⟩ := takeWhile_name name.noEquals assignment.2
  unfold parseAssignment
  dsimp only
  rw [front, back, if_neg (by simp [equals_mem, name.nonempty]), found]
  rfl

/-! ### The request -/

/-- The variables of one direction, as the driver declares them. -/
structure Interface (vars : List VarDescriptor) : Prop where
  identifiers : ∀ var ∈ vars, Identifier var.name
  names : (vars.map (·.name)).Nodup
  places : (vars.map (·.varPtr)).Nodup

theorem Interface.same {vars : List VarDescriptor} (interface : Interface vars) {var other : VarDescriptor}
    (member : var ∈ vars) (among : other ∈ vars) (name : var.name = other.name) : var = other :=
  List.inj_on_of_nodup_map interface.names member among name

theorem Interface.find {vars : List VarDescriptor} (interface : Interface vars) {var : VarDescriptor}
    (member : var ∈ vars) : findInput vars var.name = some var := by
  unfold findInput
  cases found : vars.find? fun candidate => var.name = candidate.name with
  | none => exact absurd rfl (of_decide_eq_false (Bool.eq_false_iff.mpr (List.find?_eq_none.mp found var member)))
  | some other =>
    have name : var.name = other.name := by simpa using List.find?_some found
    rw [interface.same member (List.mem_of_find?_eq_some found) name]

/-- The types a binding and its variable may have. -/
def InputTyped (iecType : String) (type : VarTypeTag) : Prop :=
  (iecType = "BOOL" → type = .bool) ∧ (iecType = "REAL" → type = .real) ∧ (iecType = "LREAL" → type = .lreal) ∧
    type ≠ .other

theorem slotTyped {binding : PlcIoBinding} {type : VarTypeTag} (typed : InputTyped binding.iecType type)
    (slot : SignalSlotHandle) (signals : SlotReader) : SlotTyped type (slotValue binding slot signals) := by
  obtain ⟨bool, real, lreal, known⟩ := typed
  have inRange := signals.inRange slot
  unfold slotValue
  split
  · rename_i iec
    rw [bool iec]
    exact True.intro
  · split
    · rename_i iec
      rcases iec with iec | iec
      · rw [real iec]
        exact True.intro
      · rw [lreal iec]
        exact True.intro
    · cases type with
      | other => exact absurd rfl known
      | _ => exact inRange

/-- The inputs of a request: those of the circuit, and the bound ones of the plan. The map they are sent
from has no order. -/
structure InputsLinked (session : PlcScanSession σ) (bindings : List PlcIoBinding) (signals : SlotReader)
    (electrical inputs : List (Text × Text)) : Prop where
  interface : Interface session.inputVars
  bound : ∀ binding ∈ bindings, boundInput binding = true → ∃ slot, binding.signal = some slot ∧
    ∃ var ∈ session.inputVars, var.name = toUpperAscii binding.name ∧ InputTyped binding.iecType var.type
  known : ∀ entry ∈ electrical, (∃ var ∈ session.inputVars, var.name = entry.1) ∧ Solid entry.2
  sent : inputs.Perm (electrical ++ signalInputs bindings signals)
  once : (inputs.map (·.1)).Nodup

variable {signals : SlotReader} {electrical inputs : List (Text × Text)} {simulationTimeNs : Int} {requestId : Text}
  {request : Request}

/-- An input that is sent belongs to a variable. -/
theorem InputsLinked.entry (linked : InputsLinked session bindings signals electrical inputs)
    {entry : Text × Text} (member : entry ∈ inputs) :
    ∃ var ∈ session.inputVars, var.name = entry.1 ∧ Identifier entry.1 ∧ Solid entry.2 := by
  have solid : (∃ var ∈ session.inputVars, var.name = entry.1) ∧ Solid entry.2 := by
    rcases List.mem_append.mp (linked.sent.mem_iff.mp member) with circuit | bound
    · exact linked.known entry circuit
    · obtain ⟨binding, among, rfl⟩ := List.mem_map.mp bound
      obtain ⟨present, isBound⟩ := List.mem_filter.mp among
      obtain ⟨slot, signal, var, here, name, _⟩ := linked.bound binding present isBound
      refine ⟨⟨var, here, name⟩, ?_⟩
      unfold plcSignalValueToText
      rw [signal]
      exact solid_slotText _
  obtain ⟨⟨var, here, name⟩, solid⟩ := solid
  exact ⟨var, here, name, name ▸ linked.interface.identifiers var here, solid⟩

theorem spaced_stops (texts : List Text) : ∀ c ∈ (spaced texts).head?, isDigitOf 10 c = false := by
  cases texts with
  | nil => nofun
  | cons text rest =>
    intro c head
    cases head
    decide

theorem extractInt64_scanArgs (time : InSigned 64 simulationTimeNs) (inputs : List (Text × Text)) :
    extractInt64 (scanArgs simulationTimeNs inputs) =
      some (simulationTimeNs, spaced (inputs.map assignmentText)) := by
  unfold extractInt64 scanArgs
  rw [scanInteger_intText simulationTimeNs (spaced_stops _)]
  dsimp only
  rw [value_writtenScan, if_pos time]
  rfl

theorem InputsLinked.tokens (linked : InputsLinked session bindings signals electrical inputs) :
    tokens (spaced (inputs.map assignmentText)) = inputs.map assignmentText := by
  apply tokens_spaced
  intro text member
  obtain ⟨entry, among, rfl⟩ := List.mem_map.mp member
  obtain ⟨_, _, _, name, solid⟩ := linked.entry among
  exact assignment_solid name solid

theorem InputsLinked.parse (linked : InputsLinked session bindings signals electrical inputs)
    {entry : Text × Text} (member : entry ∈ inputs) {var : VarDescriptor} (here : var ∈ session.inputVars)
    (name : var.name = entry.1) :
    parseAssignment long session.inputVars scanInvalid (assignmentText entry) =
      if isValueValidForType long var.type entry.2 then .ok (var, entry.2) else .error (scanInvalid var entry.2) := by
  obtain ⟨_, _, _, identifier, _⟩ := linked.entry member
  exact parseAssignment_assignment identifier (name ▸ linked.interface.find here)

variable (long) in
theorem checkScan_written (linked : InputsLinked session bindings signals electrical inputs)
    (time : InSigned 64 simulationTimeNs) :
    (∃ request, checkScan long session (scanArgs simulationTimeNs inputs) = .ok request) ↔
      (session.hasScanned = true → session.lastAcceptedTimeNs < simulationTimeNs) ∧
      ∀ entry ∈ inputs, ∀ var ∈ session.inputVars, var.name = entry.1 →
        isValueValidForType long var.type entry.2 = true := by
  unfold checkScan
  rw [extractInt64_scanArgs time]
  dsimp only
  rw [linked.tokens]
  constructor
  · rintro ⟨request, checked⟩
    split at checked
    · cases checked
    · rename_i later
      refine ⟨fun scanned => Int.lt_of_not_ge fun early => later ⟨scanned, early⟩, ?_⟩
      intro entry member var here name
      split at checked
      · cases checked
      · rename_i pending parsed
        obtain ⟨assignment, _, made⟩ := exists_of_forall₂ (mapM_forall₂ parsed) (List.mem_map_of_mem member)
        rw [linked.parse member here name] at made
        by_contra invalid
        rw [if_neg invalid] at made
        cases made
  · rintro ⟨later, valid⟩
    rw [if_neg fun early => by have := later early.1; omega]
    obtain ⟨pending, parsed, _⟩ := mapM_exists (inputs.map assignmentText)
      (parseAssignment long session.inputVars scanInvalid) fun token member => by
        obtain ⟨entry, among, rfl⟩ := List.mem_map.mp member
        obtain ⟨var, here, name, _⟩ := linked.entry among
        exact ⟨(var, entry.2), by rw [linked.parse among here name, if_pos (valid entry among var here name)]⟩
    rw [parsed]
    exact ⟨_, rfl⟩

theorem pending_written (linked : InputsLinked session bindings signals electrical inputs)
    (time : InSigned 64 simulationTimeNs)
    (checked : checkScan long session (scanArgs simulationTimeNs inputs) = .ok request) :
    (∀ entry ∈ inputs, ∀ var ∈ session.inputVars, var.name = entry.1 → (var, entry.2) ∈ request.pending) ∧
    ∀ assignment ∈ request.pending, assignment.1 ∈ session.inputVars ∧ (assignment.1.name, assignment.2) ∈ inputs := by
  unfold checkScan at checked
  rw [extractInt64_scanArgs time] at checked
  dsimp only at checked
  rw [linked.tokens] at checked
  split at checked
  · cases checked
  · split at checked
    · cases checked
    · rename_i pending parsed
      cases checked
      have each := mapM_forall₂ parsed
      have made : ∀ entry ∈ inputs, ∀ var ∈ session.inputVars, var.name = entry.1 → ∀ assignment,
          parseAssignment long session.inputVars scanInvalid (assignmentText entry) = .ok assignment →
          assignment = (var, entry.2) := by
        intro entry member var here name assignment parses
        rw [linked.parse member here name] at parses
        split at parses
        · exact (Except.ok.inj parses).symm
        · cases parses
      constructor
      · intro entry member var here name
        obtain ⟨assignment, among, parses⟩ := exists_of_forall₂ each (List.mem_map_of_mem member)
        exact made entry member var here name assignment parses ▸ among
      · intro assignment among
        obtain ⟨token, member, parses⟩ := mem_of_forall₂ each among
        obtain ⟨entry, inside, rfl⟩ := List.mem_map.mp member
        obtain ⟨var, here, name, _⟩ := linked.entry inside
        rw [made entry inside var here name assignment parses]
        exact ⟨here, by rw [name]; exact inside⟩

/-- The value of a slot reaches a variable, unless the variable is forced to another. -/
def Reaches (long : LongWidth) (variable_ : IecVar) (type : VarTypeTag) (slot : SlotValue) : Prop :=
  if variable_.forced then
    isValueValidForType long type slot.text = true ∧ variable_.forcedValue = converted type slot
  else InputCarries long type slot

theorem Reaches.valid {variable_ : IecVar} {type : VarTypeTag} {slot : SlotValue} (typed : SlotTyped type slot)
    (reaches : Reaches long variable_ type slot) : isValueValidForType long type slot.text = true := by
  unfold Reaches at reaches
  split at reaches
  · exact reaches.1
  · exact ((input_crosses typed).mpr reaches).1

/-- What a bound input holds after an accepted request. -/
def InputsUnchanged (session after : PlcScanSession σ) (bindings : List PlcIoBinding) (signals : SlotReader) : Prop :=
  ∀ binding ∈ bindings, boundInput binding = true → ∀ slot, binding.signal = some slot →
    ∀ var ∈ session.inputVars, var.name = toUpperAscii binding.name →
      (after.worker.memory var.varPtr).get = converted var.type (slotValue binding slot signals)

section

variable (long) (run)

/-- The request is accepted, and every bound input takes the value of its slot. -/
def RequestUnchanged (session : PlcScanSession σ) (bindings : List PlcIoBinding) (signals : SlotReader)
    (inputs : List (Text × Text)) (simulationTimeNs : Int) (requestId : Text) : Prop :=
  match handleScan long run session requestId (scanArgs simulationTimeNs inputs) with
  | (.ok _ _, after) => InputsUnchanged session after bindings signals
  | (.err _ _, _) => False

/-- The scan is later than the last one, the circuit's inputs are valid, and every slot's value reaches its
variable. -/
def RequestCarries (session : PlcScanSession σ) (bindings : List PlcIoBinding) (signals : SlotReader)
    (electrical : List (Text × Text)) (simulationTimeNs : Int) : Prop :=
  (session.hasScanned = true → session.lastAcceptedTimeNs < simulationTimeNs) ∧
  (∀ entry ∈ electrical, ∀ var ∈ session.inputVars, var.name = entry.1 →
    isValueValidForType long var.type entry.2 = true) ∧
  ∀ binding ∈ bindings, boundInput binding = true → ∀ slot, binding.signal = some slot →
    ∀ var ∈ session.inputVars, var.name = toUpperAscii binding.name →
      Reaches long (session.worker.memory var.varPtr) var.type (slotValue binding slot signals)

end

theorem signalInputs_mem {binding : PlcIoBinding} (member : binding ∈ bindings) (bound : boundInput binding = true)
    {slot : SignalSlotHandle} (signal : binding.signal = some slot) :
    (toUpperAscii binding.name, (slotValue binding slot signals).text) ∈ signalInputs bindings signals := by
  refine List.mem_map.mpr ⟨binding, List.mem_filter.mpr ⟨member, bound⟩, ?_⟩
  unfold plcSignalValueToText
  rw [signal]

variable (run) in
theorem handleScan_accepted (requestId : Text)
    (checked : checkScan long session text = .ok request) :
    ∃ reply memory, handleScan long run session requestId text = reply ∧ reply.1 = .ok requestId (outputs reply.2) ∧
      Applied long request.pending session.worker.memory memory ∧
      ∀ varPtr, (reply.2.worker.memory varPtr).get =
        ((run request.simulationTimeNs [] { session.worker with
          memory := memory
          currentTimeNs := request.simulationTimeNs
          currentDtNs := request.simulationTimeNs }).memory varPtr).get := by
  obtain ⟨_, passed⟩ := checkScan_ok checked
  obtain ⟨memory, applies, applied⟩ := applyAll_applied session.worker.memory fun assignment member =>
    (passed assignment member).2
  refine ⟨_, memory, rfl, ?_, applied, ?_⟩
  · unfold handleScan
    rw [checked]
    dsimp only
    rw [applies]
  · intro varPtr
    unfold handleScan
    rw [checked]
    dsimp only
    rw [applies]

theorem Applied.sent {memory after : Nat → IecVar} {pending : List (VarDescriptor × Text)} {var : VarDescriptor}
    {value : IecValue} (applied : Applied long pending memory after) (free : (memory var.varPtr).forced = false)
    (member : (var, text) ∈ pending) (sets : valueToSet long var.type text = some value)
    (only : ∀ assignment ∈ pending, assignment.1.varPtr = var.varPtr → assignment = (var, text)) :
    (after var.varPtr).get = value := by
  have value_eq := applied.value var.varPtr value free
    (fun assignment among here => by rw [only assignment among here]; exact sets) (.inr ⟨_, member, rfl⟩)
  unfold IecVar.get
  rw [applied.forced, if_neg (by simp [free]), value_eq]

theorem pending_only (linked : InputsLinked session bindings signals electrical inputs)
    (time : InSigned 64 simulationTimeNs)
    (checked : checkScan long session (scanArgs simulationTimeNs inputs) = .ok request) {var : VarDescriptor}
    (here : var ∈ session.inputVars) (member : (var.name, text) ∈ inputs) :
    ∀ assignment ∈ request.pending, assignment.1.varPtr = var.varPtr → assignment = (var, text) := by
  intro assignment among place
  obtain ⟨known, sent⟩ := (pending_written linked time checked).2 assignment among
  have same : assignment.1 = var := List.inj_on_of_nodup_map linked.interface.places known here place
  have texts : (assignment.1.name, assignment.2) = (var.name, text) :=
    List.inj_on_of_nodup_map linked.once sent member (by rw [same])
  exact Prod.ext same (Prod.ext_iff.mp texts).2

theorem InputsLinked.slotTyped (linked : InputsLinked session bindings signals electrical inputs)
    {binding : PlcIoBinding} (member : binding ∈ bindings) (bound : boundInput binding = true) {var : VarDescriptor}
    (here : var ∈ session.inputVars) (name : var.name = toUpperAscii binding.name) (slot : SignalSlotHandle) :
    SlotTyped var.type (slotValue binding slot signals) := by
  obtain ⟨_, _, other, among, same, typed⟩ := linked.bound binding member bound
  rw [linked.interface.same here among (name.trans same.symm)]
  exact Plc.slotTyped typed slot signals

theorem InputsLinked.sentSlot (linked : InputsLinked session bindings signals electrical inputs)
    {binding : PlcIoBinding} (member : binding ∈ bindings) (bound : boundInput binding = true)
    {slot : SignalSlotHandle} (signal : binding.signal = some slot) :
    (toUpperAscii binding.name, (slotValue binding slot signals).text) ∈ inputs :=
  linked.sent.mem_iff.mpr (List.mem_append_right _ (signalInputs_mem member bound signal))

/-- What a bound input holds once an accepted request is applied. -/
theorem received_iff (linked : InputsLinked session bindings signals electrical inputs)
    (time : InSigned 64 simulationTimeNs)
    (checked : checkScan long session (scanArgs simulationTimeNs inputs) = .ok request) {memory : Nat → IecVar}
    (applied : Applied long request.pending session.worker.memory memory) {binding : PlcIoBinding}
    (member : binding ∈ bindings) (bound : boundInput binding = true) {slot : SignalSlotHandle}
    (signal : binding.signal = some slot) {var : VarDescriptor} (here : var ∈ session.inputVars)
    (name : var.name = toUpperAscii binding.name) :
    (memory var.varPtr).get = converted var.type (slotValue binding slot signals) ↔
      Reaches long (session.worker.memory var.varPtr) var.type (slotValue binding slot signals) := by
  have sent := linked.sentSlot member bound signal
  have valid : isValueValidForType long var.type (slotValue binding slot signals).text = true :=
    ((checkScan_written long linked time).mp ⟨request, checked⟩).2 _ sent var here name
  unfold Reaches
  split
  · rename_i forced
    unfold IecVar.get
    rw [applied.forced, if_pos forced, applied.forcedValue]
    exact (and_iff_right valid).symm
  · rename_i free
    obtain ⟨value, sets⟩ : ∃ value, valueToSet long var.type (slotValue binding slot signals).text = some value := by
      have set := varSetValue_isSome valid (session.worker.memory var.varPtr)
      unfold varSetValue at set
      rw [Option.isSome_map] at set
      exact Option.isSome_iff_exists.mp set
    have pending := (pending_written linked time checked).1 _ sent var here name
    have reads := applied.sent (Bool.eq_false_iff.mpr free) pending sets
      (pending_only linked time checked here (name ▸ sent))
    rw [reads, ← input_crosses (linked.slotTyped member bound here name slot), and_iff_right valid, sets,
      Option.some.injEq]

theorem request_unchanged (keeps : KeepsInputs run session.inputVars)
    (linked : InputsLinked session bindings signals electrical inputs) (time : InSigned 64 simulationTimeNs)
    (requestId : Text) :
    RequestUnchanged long run session bindings signals inputs simulationTimeNs requestId ↔
      RequestCarries long session bindings signals electrical simulationTimeNs := by
  unfold RequestUnchanged RequestCarries
  constructor
  · intro unchanged
    cases checked : checkScan long session (scanArgs simulationTimeNs inputs) with
    | error message =>
      unfold handleScan at unchanged
      rw [checked] at unchanged
      exact absurd unchanged id
    | ok request =>
      obtain ⟨later, valid⟩ := (checkScan_written long linked time).mp ⟨request, checked⟩
      refine ⟨later, fun entry member => valid entry (linked.sent.mem_iff.mpr (List.mem_append_left _ member)), ?_⟩
      intro binding member bound slot signal var here name
      obtain ⟨⟨answer, after⟩, memory, handled, accepted, applied, reads⟩ :=
        handleScan_accepted run requestId checked
      rw [handled] at unchanged
      dsimp only at accepted
      subst accepted
      have value := unchanged binding member bound slot signal var here name
      rw [reads, keeps _ _ _ var here] at value
      exact (received_iff linked time checked applied member bound signal here name).mp value
  · rintro ⟨later, circuit, carries⟩
    have valid : ∀ entry ∈ inputs, ∀ var ∈ session.inputVars, var.name = entry.1 →
        isValueValidForType long var.type entry.2 = true := by
      intro entry member var here name
      rcases List.mem_append.mp (linked.sent.mem_iff.mp member) with among | among
      · exact circuit entry among var here name
      · obtain ⟨binding, inside, rfl⟩ := List.mem_map.mp among
        obtain ⟨present, bound⟩ := List.mem_filter.mp inside
        obtain ⟨slot, signal, _⟩ := linked.bound binding present bound
        unfold plcSignalValueToText
        rw [signal]
        exact (carries binding present bound slot signal var here name).valid
          (linked.slotTyped present bound here name slot)
    obtain ⟨request, checked⟩ := (checkScan_written long linked time).mpr ⟨later, valid⟩
    obtain ⟨⟨answer, after⟩, memory, handled, accepted, applied, reads⟩ :=
      handleScan_accepted run requestId checked
    rw [handled]
    dsimp only at accepted
    subst accepted
    intro binding member bound slot signal var here name
    rw [reads, keeps _ _ _ var here]
    exact (received_iff linked time checked applied member bound signal here name).mpr
      (carries binding member bound slot signal var here name)

end LasecSimul.Plc
