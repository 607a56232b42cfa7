import LasecSimul.Plc.Exchange

/-!
# The outputs of a reply

The core reads back the texts the worker wrote, and publishes the bound ones. Both directions of a scan
together.
-/

namespace LasecSimul.Plc

open Lib.Binary Lib.Decimal Lib.Fallible Lib.Numeral Plan Signal

variable {σ : Type} {long : LongWidth} {run : Int → List Text → Worker σ → Worker σ}
  {session answered : PlcScanSession σ} {bindings : List PlcIoBinding} {requestId text name : Text}
  {read written : List (Text × Text)} {external : String → Option SlotValue}

theorem extractToken_word {rest : Text} (solid : Solid text) (nonempty : text ≠ [])
    (stops : ∀ c ∈ rest.head?, isSpace c = true) : extractToken (text ++ rest) = some (text, rest) := by
  obtain ⟨c, more, rfl⟩ := List.exists_cons_of_ne_nil nonempty
  have first : isSpace c = false := solid c List.mem_cons_self
  have letters : ∀ d ∈ c :: more, decide ¬isSpace d = true := fun d member => by simp [solid d member]
  unfold extractToken
  dsimp only
  rw [List.cons_append, List.dropWhile_cons_of_neg (by simp [first]), if_neg (List.cons_ne_nil _ _), ← List.cons_append,
    List.takeWhile_append_of_pos letters, List.dropWhile_append_of_pos letters]
  cases rest with
  | nil => simp
  | cons d rest =>
    have stop : isSpace d = true := stops d rfl
    rw [List.takeWhile_cons_of_neg (by simp [stop]), List.dropWhile_cons_of_neg (by simp [stop]), List.append_nil]

theorem extractToken_blank (text : Text) : extractToken (' ' :: text) = extractToken text := by
  unfold extractToken
  rw [List.dropWhile_cons_of_pos (by decide)]

theorem newline_not_mem (solid : Solid text) : '\n' ∉ text := by
  intro member
  exact absurd (solid _ member) (by decide)

theorem spaced_head (texts : List Text) : ∀ c ∈ (spaced texts).head?, isSpace c = true := by
  cases texts with
  | nil => nofun
  | cons text rest =>
    intro c head
    cases head
    decide

theorem newline_spaced {texts : List Text} (solid : ∀ text ∈ texts, Solid text) : '\n' ∉ spaced texts := by
  intro member
  obtain ⟨piece, among, inside⟩ := List.mem_flatten.mp member
  obtain ⟨text, present, rfl⟩ := List.mem_map.mp among
  rcases List.mem_cons.mp inside with same | later
  · exact absurd same (by decide)
  · exact newline_not_mem (solid text present) later

theorem expectOk_written (id : Solid requestId) (nonempty : requestId ≠ [])
    (solid : ∀ output ∈ written, Solid (assignmentText output)) :
    expectOk requestId (Reply.ok requestId written).text = some (trim (spaced (written.map assignmentText))) := by
  have text : (Reply.ok requestId written).text =
      "OK".toList ++ (' ' :: (requestId ++ spaced (written.map assignmentText))) := by
    unfold Reply.text spaced
    rw [List.map_map]
    rfl
  have noNewline : ∀ c ∈ (Reply.ok requestId written).text, decide (c ≠ '\n') = true := by
    intro c member
    apply decide_eq_true
    rintro rfl
    rw [text] at member
    rcases List.mem_append.mp member with ok | rest
    · exact absurd ok (by decide)
    · rcases List.mem_cons.mp rest with blank | rest
      · exact absurd blank (by decide)
      · rcases List.mem_append.mp rest with inside | outputs
        · exact newline_not_mem id inside
        · refine newline_spaced (fun text member => ?_) outputs
          obtain ⟨output, among, rfl⟩ := List.mem_map.mp member
          exact solid output among
  have okSolid : Solid "OK".toList := by decide
  have blank : ∀ c ∈ (' ' :: (requestId ++ spaced (written.map assignmentText))).head?, isSpace c = true := by
    intro c head
    cases head
    decide
  unfold expectOk
  rw [List.takeWhile_eq_self_iff.mpr noNewline, text,
    extractToken_word okSolid (by decide) blank]
  dsimp only
  rw [extractToken_blank, extractToken_word id nonempty (spaced_head _)]
  dsimp only
  rw [if_pos ⟨rfl, rfl⟩]

/-- Identifiers and texts without blanks are read as they were written. -/
theorem readOutputs_written (id : Solid requestId) (nonempty : requestId ≠ [])
    (names : ∀ output ∈ written, Identifier output.1) (solid : ∀ output ∈ written, Solid output.2) :
    readOutputs requestId (Reply.ok requestId written).text = some written := by
  have each : ∀ output ∈ written, Solid (assignmentText output) ∧ assignmentText output ≠ [] :=
    fun output member => assignment_solid (names output member) (solid output member)
  have split : tokens (spaced (written.map assignmentText)) = written.map assignmentText := by
    apply tokens_spaced
    intro text member
    obtain ⟨output, among, rfl⟩ := List.mem_map.mp member
    exact each output among
  unfold readOutputs
  rw [expectOk_written id nonempty fun output member => (each output member).1, Option.bind_some, tokens_trim, split]
  clear split solid each
  induction written with
  | nil => rfl
  | cons output rest ih =>
    rw [List.map_cons, List.mapM_cons, parsePair_assignment (names output List.mem_cons_self),
      ih fun other member => names other (List.mem_cons_of_mem _ member)]
    rfl

/-- No text that is read has a blank. -/
theorem solid_of_read {response : Text} (reads : readOutputs requestId response = some read) :
    ∀ output ∈ read, Solid output.2 := by
  obtain ⟨rest, _, parsed⟩ := Option.bind_eq_some_iff.mp reads
  intro output member
  obtain ⟨token, among, pair⟩ := mem_of_forall₂ (mapM_some parsed) member
  unfold parsePair at pair
  split at pair
  · cases pair
    intro c inside
    exact solid_of_token among c ((List.dropWhile_sublist _).subset (List.mem_of_mem_tail inside))
  · cases pair

theorem findOutput_mem (found : findOutput read name = some text) : (name, text) ∈ read := by
  obtain ⟨output, first, rfl⟩ := Option.map_eq_some_iff.mp found
  have named : output.1 = name := by simpa using List.find?_some first
  have member := List.mem_reverse.mp (List.mem_of_find?_eq_some first)
  rw [← named]
  exact member

theorem findOutput_once (names : (read.map (·.1)).Nodup) (member : (name, text) ∈ read) :
    findOutput read name = some text := by
  cases found : findOutput read name with
  | none =>
    unfold findOutput at found
    rw [Option.map_eq_none_iff, List.find?_eq_none] at found
    exact absurd (decide_eq_true rfl) (found _ (List.mem_reverse.mpr member))
  | some other =>
    have same := List.inj_on_of_nodup_map names (findOutput_mem found) member rfl
    rw [show other = text from (Prod.ext_iff.mp same).2]

theorem commitSignals_frame {id : String} (apart : ∀ binding ∈ bindings, boundOutput binding = true → binding.signalBlockId ≠ id)
    (external : String → Option SlotValue) : (commitSignals read bindings external).1 id = external id := by
  induction bindings generalizing external with
  | nil => rfl
  | cons binding rest ih =>
    have later := ih fun other member => apart other (List.mem_cons_of_mem _ member)
    unfold commitSignals
    split
    · exact later external
    · rename_i bound
      split
      · exact later external
      · split
        · rw [later, Function.update_of_ne (apart binding List.mem_cons_self (not_not.mp bound)).symm]
        · rfl

/-- A commit that does not throw stores in each target what its text publishes. -/
theorem commitSignals_iff (read : List (Text × Text)) (wanted : PlcIoBinding → Option SlotValue)
    (targets : ((bindings.filter boundOutput).map (·.signalBlockId)).Nodup)
    (found : ∀ binding ∈ bindings, boundOutput binding = true →
      (wanted binding).isSome = true ∧ (findOutput read (toUpperAscii binding.name)).isSome = true)
    (external : String → Option SlotValue) :
    ((commitSignals read bindings external).2 = true ∧ ∀ binding ∈ bindings, boundOutput binding = true →
      (commitSignals read bindings external).1 binding.signalBlockId = wanted binding) ↔
    ∀ binding ∈ bindings, boundOutput binding = true →
      (findOutput read (toUpperAscii binding.name)).bind (published binding) = wanted binding := by
  induction bindings generalizing external with
  | nil => simp [commitSignals]
  | cons binding rest ih =>
    rw [List.filter_cons] at targets
    have later := fun other member => found other (List.mem_cons_of_mem _ member)
    by_cases bound : boundOutput binding = true
    · rw [if_pos bound, List.map_cons, List.nodup_cons] at targets
      have apart : ∀ other ∈ rest, boundOutput other = true → other.signalBlockId ≠ binding.signalBlockId := by
        intro other member isBound same
        exact targets.1 (same ▸ List.mem_map_of_mem (List.mem_filter.mpr ⟨member, isBound⟩))
      obtain ⟨known, present⟩ := found binding List.mem_cons_self bound
      obtain ⟨text, gives⟩ := Option.isSome_iff_exists.mp present
      rw [commitSignals, if_neg (not_not.mpr bound), gives]
      dsimp only
      cases stored : published binding text with
      | none =>
        apply iff_of_false
        · rintro ⟨thrown, _⟩
          cases thrown
        · intro all
          have here := all binding List.mem_cons_self bound
          rw [gives, Option.bind_some, stored] at here
          rw [← here] at known
          cases known
      | some value =>
        dsimp only
        have head : (commitSignals read rest (Function.update external binding.signalBlockId (some value))).1
            binding.signalBlockId = some value := by
          rw [commitSignals_frame apart, Function.update_self]
        rw [List.forall_mem_cons, List.forall_mem_cons, head, gives, Option.bind_some, stored,
          ← ih targets.2 later (Function.update external binding.signalBlockId (some value))]
        constructor
        · rintro ⟨fine, here, others⟩
          exact ⟨here, fine, others⟩
        · rintro ⟨here, fine, others⟩
          exact ⟨fine, here, others⟩
    · rw [if_neg bound] at targets
      have rests := ih targets later external
      rw [commitSignals, if_pos bound, List.forall_mem_cons, List.forall_mem_cons]
      simp only [bound, Bool.false_eq_true, false_implies, true_and]
      exact rests

/-! ### A reply -/

/-- The value of an output when the worker answers. -/
def outputValue (answered : PlcScanSession σ) (var : VarDescriptor) : IecValue :=
  (answered.worker.memory var.varPtr).get

/-- The outputs of a worker, and the bound ones of the plan. -/
structure OutputsLinked (answered : PlcScanSession σ) (bindings : List PlcIoBinding) : Prop where
  interface : Interface answered.outputVars
  typed : ∀ var ∈ answered.outputVars, var.type ≠ .other → ValueTyped var.type (outputValue answered var)
  bound : ∀ binding ∈ bindings, boundOutput binding = true →
    ∃ var ∈ answered.outputVars, var.name = toUpperAscii binding.name ∧ OutputTyped binding.iecType var.type
  targets : ((bindings.filter boundOutput).map (·.signalBlockId)).Nodup

/-- Every output is read as it was written, and every bound one is stored with its value. -/
def ReplyUnchanged (answered : PlcScanSession σ) (bindings : List PlcIoBinding) (external : String → Option SlotValue)
    (requestId : Text) : Prop :=
  ∃ read, readOutputs requestId (Reply.ok requestId (outputs answered)).text = some read ∧
    (∀ var ∈ answered.outputVars,
      findOutput read var.name = some (varValueToString var.type (outputValue answered var))) ∧
    (commitSignals read bindings external).2 = true ∧
    ∀ binding ∈ bindings, boundOutput binding = true → ∀ var ∈ answered.outputVars,
      var.name = toUpperAscii binding.name →
      (commitSignals read bindings external).1 binding.signalBlockId = slotOf (outputValue answered var)

/-- No string has a blank, and every bound output survives its text. -/
def ReplyCarries (answered : PlcScanSession σ) (bindings : List PlcIoBinding) : Prop :=
  (∀ var ∈ answered.outputVars, var.type = .string → ∀ s, outputValue answered var = .string s → Solid s) ∧
  ∀ binding ∈ bindings, boundOutput binding = true → ∀ var ∈ answered.outputVars,
    var.name = toUpperAscii binding.name → OutputCarries var.type (outputValue answered var)

theorem OutputsLinked.solid_iff (linked : OutputsLinked answered bindings) {var : VarDescriptor}
    (here : var ∈ answered.outputVars) :
    Solid (varValueToString var.type (outputValue answered var)) ↔
      (var.type = .string → ∀ s, outputValue answered var = .string s → Solid s) := by
  by_cases known : var.type = .other
  · apply iff_of_true
    · have unknown : Solid "<?>".toList := by decide
      rw [known]
      cases outputValue answered var <;> exact unknown
    · rw [known]
      nofun
  · have typed := linked.typed var here known
    rw [solid_varValueToString typed]
    constructor
    · exact fun solid _ => solid
    · intro solid s same
      rw [same] at typed
      refine solid ?_ s same
      cases type : var.type with
      | string => rfl
      | _ =>
        rw [type] at typed
        cases typed

/-- What the outputs are written as is read back exactly when no text has a blank. -/
theorem OutputsLinked.read_iff (linked : OutputsLinked answered bindings) (id : Identifier requestId) :
    (∃ read, readOutputs requestId (Reply.ok requestId (outputs answered)).text = some read ∧
      ∀ var ∈ answered.outputVars,
        findOutput read var.name = some (varValueToString var.type (outputValue answered var))) ↔
    ∀ var ∈ answered.outputVars, Solid (varValueToString var.type (outputValue answered var)) := by
  constructor
  · rintro ⟨read, reads, finds⟩ var here
    exact solid_of_read reads _ (findOutput_mem (finds var here))
  · intro solid
    have names : (outputs answered).map (·.1) = answered.outputVars.map (·.name) := by
      unfold outputs
      rw [List.map_map]
      rfl
    refine ⟨outputs answered, ?_, fun var here => ?_⟩
    · apply readOutputs_written id.solid id.nonempty
      · intro output member
        obtain ⟨var, here, rfl⟩ := List.mem_map.mp member
        exact linked.interface.identifiers var here
      · intro output member
        obtain ⟨var, here, rfl⟩ := List.mem_map.mp member
        exact solid var here
    · apply findOutput_once (names ▸ linked.interface.names)
      exact List.mem_map.mpr ⟨var, here, rfl⟩

/-- What a bound output should be stored as. -/
def wantedValue (answered : PlcScanSession σ) (binding : PlcIoBinding) : Option SlotValue :=
  (findInput answered.outputVars (toUpperAscii binding.name)).bind fun var => slotOf (outputValue answered var)

theorem wantedValue_eq (interface : Interface answered.outputVars) {binding : PlcIoBinding} {var : VarDescriptor}
    (here : var ∈ answered.outputVars) (name : var.name = toUpperAscii binding.name) :
    wantedValue answered binding = slotOf (outputValue answered var) := by
  unfold wantedValue
  rw [← name, interface.find here, Option.bind_some]

theorem slotOf_isSome {type : VarTypeTag} {iecType : String} {value : IecValue} (bound : OutputTyped iecType type)
    (typed : ValueTyped type value) : (slotOf value).isSome = true := by
  rcases bound with ⟨_, rfl⟩ | ⟨_, rfl⟩ | ⟨_, rfl⟩
  all_goals
    cases value with
    | bool => rfl
    | float => rfl
    | _ => cases typed

theorem known_of_bound {type : VarTypeTag} {iecType : String} (bound : OutputTyped iecType type) : type ≠ .other := by
  rcases bound with ⟨_, rfl⟩ | ⟨_, rfl⟩ | ⟨_, rfl⟩ <;> decide

theorem OutputsLinked.stored_iff (linked : OutputsLinked answered bindings)
    (finds : ∀ var ∈ answered.outputVars,
      findOutput read var.name = some (varValueToString var.type (outputValue answered var)))
    (external : String → Option SlotValue) :
    ((commitSignals read bindings external).2 = true ∧
      ∀ binding ∈ bindings, boundOutput binding = true → ∀ var ∈ answered.outputVars,
        var.name = toUpperAscii binding.name →
        (commitSignals read bindings external).1 binding.signalBlockId = slotOf (outputValue answered var)) ↔
    ∀ binding ∈ bindings, boundOutput binding = true → ∀ var ∈ answered.outputVars,
      var.name = toUpperAscii binding.name → OutputCarries var.type (outputValue answered var) := by
  have bound : ∀ binding ∈ bindings, boundOutput binding = true → ∃ var ∈ answered.outputVars,
      var.name = toUpperAscii binding.name ∧ OutputTyped binding.iecType var.type ∧
      ValueTyped var.type (outputValue answered var) := by
    intro binding member isBound
    obtain ⟨var, here, name, typed⟩ := linked.bound binding member isBound
    exact ⟨var, here, name, typed, linked.typed var here (known_of_bound typed)⟩
  have commits := commitSignals_iff read (wantedValue answered) linked.targets
    (fun binding member isBound => by
      obtain ⟨var, here, name, typed, valued⟩ := bound binding member isBound
      rw [wantedValue_eq linked.interface here name, ← name, finds var here]
      exact ⟨slotOf_isSome typed valued, rfl⟩) external
  have stored : (∀ binding ∈ bindings, boundOutput binding = true → ∀ var ∈ answered.outputVars,
      var.name = toUpperAscii binding.name →
      (commitSignals read bindings external).1 binding.signalBlockId = slotOf (outputValue answered var)) ↔
      ∀ binding ∈ bindings, boundOutput binding = true →
        (commitSignals read bindings external).1 binding.signalBlockId = wantedValue answered binding := by
    constructor
    · intro each binding member isBound
      obtain ⟨var, here, name, _⟩ := bound binding member isBound
      rw [each binding member isBound var here name, wantedValue_eq linked.interface here name]
    · intro each binding member isBound var here name
      rw [each binding member isBound, wantedValue_eq linked.interface here name]
  rw [stored, commits]
  constructor
  · intro each binding member isBound var here name
    obtain ⟨other, among, same, typed, valued⟩ := bound binding member isBound
    have published := each binding member isBound
    rw [← name, finds var here, wantedValue_eq linked.interface here name, Option.bind_some] at published
    obtain rfl := linked.interface.same here among (name.trans same.symm)
    exact (output_crosses typed valued).mp published
  · intro each binding member isBound
    obtain ⟨var, here, name, typed, valued⟩ := bound binding member isBound
    rw [← name, finds var here, wantedValue_eq linked.interface here name, Option.bind_some]
    exact (output_crosses typed valued).mpr (each binding member isBound var here name)

theorem reply_unchanged (linked : OutputsLinked answered bindings) (id : Identifier requestId)
    (external : String → Option SlotValue) :
    ReplyUnchanged answered bindings external requestId ↔ ReplyCarries answered bindings := by
  have solid : (∀ var ∈ answered.outputVars, Solid (varValueToString var.type (outputValue answered var))) ↔
      ∀ var ∈ answered.outputVars, var.type = .string → ∀ s, outputValue answered var = .string s → Solid s :=
    forall₂_congr fun _ here => linked.solid_iff here
  unfold ReplyUnchanged ReplyCarries
  rw [← solid, ← linked.read_iff id]
  constructor
  · rintro ⟨read, reads, finds, stores⟩
    exact ⟨⟨read, reads, finds⟩, (linked.stored_iff finds external).mp stores⟩
  · rintro ⟨⟨read, reads, finds⟩, carries⟩
    exact ⟨read, reads, finds, (linked.stored_iff finds external).mpr carries⟩

theorem exchange_unchanged {signals : SlotReader} {electrical inputs : List (Text × Text)} {simulationTimeNs : Int}
    (keeps : KeepsInputs run session.inputVars) (inputsLinked : InputsLinked session bindings signals electrical inputs)
    (time : InSigned 64 simulationTimeNs) (outputsLinked : OutputsLinked answered bindings) (id : Identifier requestId)
    (external : String → Option SlotValue) :
    (RequestUnchanged long run session bindings signals inputs simulationTimeNs requestId ↔
      RequestCarries long session bindings signals electrical simulationTimeNs) ∧
    (ReplyUnchanged answered bindings external requestId ↔ ReplyCarries answered bindings) :=
  ⟨request_unchanged keeps inputsLinked time requestId, reply_unchanged outputsLinked id external⟩

def level : VarDescriptor := { name := "LEVEL".toList, type := .lreal, varPtr := 0 }

def valve : VarDescriptor := { name := "VALVE".toList, type := .lreal, varPtr := 1 }

def tankSession (output : FloatValue) : PlcScanSession Unit where
  inputVars := [level]
  outputVars := [valve]
  worker := { memory := fun _ => { value := .float output, forcedValue := .float output }, program := () }

def tankBindings : List PlcIoBinding :=
  [{ ioId := "0", name := "level", direction := "input", iecType := "LREAL", signalBlockId := "sensor",
     signal := some {} },
   { ioId := "1", name := "valve", direction := "output", iecType := "LREAL", signalBlockId := "actuator" }]

def tankSignals (sensor : FloatValue) : SlotReader where
  boolean _ := false
  real _ := sensor
  integer _ := 0
  inRange _ := ⟨by decide, by decide⟩

theorem tank_inputsLinked (output sensor : FloatValue) :
    InputsLinked (tankSession output) tankBindings (tankSignals sensor) []
      [("LEVEL".toList, floatText (fixedText 6) sensor)] where
  interface :=
    { identifiers := fun var member => by
        obtain rfl := List.mem_singleton.mp member
        exact ⟨by decide, by decide, by decide⟩
      names := List.nodup_singleton _
      places := List.nodup_singleton _ }
  bound := by
    intro binding member bound
    rcases List.mem_cons.mp member with rfl | member
    · exact ⟨{}, rfl, level, List.mem_cons_self, by decide, by unfold InputTyped; decide⟩
    · obtain rfl := List.mem_singleton.mp member
      exact absurd bound (by decide)
  known := nofun
  sent := .refl _
  once := List.nodup_singleton _

theorem tank_outputsLinked (output : FloatValue) : OutputsLinked (tankSession output) tankBindings where
  interface :=
    { identifiers := fun var member => by
        obtain rfl := List.mem_singleton.mp member
        exact ⟨by decide, by decide, by decide⟩
      names := List.nodup_singleton _
      places := List.nodup_singleton _ }
  typed := by
    intro var member _
    obtain rfl := List.mem_singleton.mp member
    exact True.intro
  bound := by
    intro binding member bound
    rcases List.mem_cons.mp member with rfl | member
    · exact absurd bound (by decide)
    · obtain rfl := List.mem_singleton.mp member
      exact ⟨valve, List.mem_cons_self, by decide, by unfold OutputTyped; decide⟩
  targets := by decide

/-- A program that assigns nothing. -/
def idle (_timeNs : Int) (_tasks : List Text) (worker : Worker Unit) : Worker Unit := worker

theorem exchange_unchanged_tank :
    (RequestUnchanged long64 idle (tankSession (.finite false (1 / 4))) tankBindings
        (tankSignals (.finite false (3 / 2))) [("LEVEL".toList, floatText (fixedText 6) (.finite false (3 / 2)))] 5
        "1".toList ↔
      RequestCarries long64 (tankSession (.finite false (1 / 4))) tankBindings (tankSignals (.finite false (3 / 2))) []
        5) ∧
    (ReplyUnchanged (tankSession (.finite false (1 / 4))) tankBindings (fun _ => none) "1".toList ↔
      ReplyCarries (tankSession (.finite false (1 / 4))) tankBindings) :=
  exchange_unchanged (fun _ _ _ _ _ => rfl) (tank_inputsLinked _ _) ⟨by decide, by decide⟩ (tank_outputsLinked _)
    ⟨by decide, by decide, by decide⟩ fun _ => none

/-- The sensor's 2⁻²⁴ is written as six zero decimals. -/
theorem request_loses :
    ¬RequestUnchanged long64 idle (tankSession (.finite false (1 / 4))) tankBindings
      (tankSignals (.finite false (1 / 2 ^ 24)))
      [("LEVEL".toList, floatText (fixedText 6) (.finite false (1 / 2 ^ 24)))] 5 "1".toList := by
  intro unchanged
  have holds : (((handleScan long64 idle (tankSession (.finite false (1 / 4))) "1".toList
      (scanArgs 5 [("LEVEL".toList, floatText (fixedText 6) (.finite false (1 / 2 ^ 24)))])).2.worker.memory 0).get) =
      .float (.finite false 0) := by decide +kernel
  unfold RequestUnchanged at unchanged
  split at unchanged
  · rename_i after same
    rw [same] at holds
    have wanted := unchanged _ List.mem_cons_self (by decide) {} rfl level List.mem_cons_self (by decide)
    rw [show (after.worker.memory level.varPtr).get = _ from holds] at wanted
    exact absurd wanted (by decide +kernel)
  · exact unchanged

end LasecSimul.Plc
