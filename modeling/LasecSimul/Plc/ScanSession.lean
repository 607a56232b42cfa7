import LasecSimul.Plan.PlanCompiler
import LasecSimul.Plc.Variable
import Mathlib.Logic.Function.Basic

/-!
# Scan requests (`PlcScanSession.cpp`)

A `SCAN` or `EVENT` is checked as a whole before it is applied. `run` is the compiled program: one
activation of its tasks, or of the program itself.
-/

namespace LasecSimul.Plc

open Lib.Numeral

structure VarDescriptor where
  name : Text
  type : VarTypeTag
  varPtr : Nat
  deriving DecidableEq, Repr

/-- What the compiled program works on. -/
structure Worker (σ : Type) where
  memory : Nat → IecVar
  currentTimeNs : Int := 0
  currentDtNs : Int := 0
  program : σ

structure PlcScanSession (σ : Type) where
  inputVars : List VarDescriptor
  outputVars : List VarDescriptor
  worker : Worker σ
  hasScanned : Bool := false
  lastAcceptedTimeNs : Int := -1
  scanCount : Nat := 0

inductive Reply where
  | ok (requestId : Text) (outputs : List (Text × Text))
  | err (requestId : Text) (message : Text)
  deriving DecidableEq, Repr

def Reply.text : Reply → Text
  | .ok requestId outputs =>
    "OK ".toList ++ requestId ++ (outputs.map fun output => ' ' :: output.1 ++ '=' :: output.2).flatten
  | .err requestId message => "ERR ".toList ++ requestId ++ ' ' :: message

/-- `stream >> value` for an `int64_t`. -/
def extractInt64 (text : Text) : Option (Int × Text) :=
  match scanInteger 10 text with
  | some scanned => if InSigned 64 scanned.value then some (scanned.value, scanned.rest) else none
  | none => none

/-- `stream >> token`. -/
def extractToken (text : Text) : Option (Text × Text) :=
  let text := text.dropWhile isSpace
  if text = [] then none else some (text.takeWhile (¬isSpace ·), text.dropWhile (¬isSpace ·))

/-- The tokens up to the end of the stream. -/
def tokens (text : Text) : List Text := (text.splitOnP isSpace).filter (· ≠ [])

def findInput (inputVars : List VarDescriptor) (name : Text) : Option VarDescriptor :=
  inputVars.find? fun candidate => name = candidate.name

/-- A token `name=value` of the first pass. `invalid` is the message about a value that does not fit. -/
def parseAssignment (long : LongWidth) (inputVars : List VarDescriptor) (invalid : VarDescriptor → Text → Text)
    (token : Text) : Except Text (VarDescriptor × Text) :=
  let name := token.takeWhile (· ≠ '=')
  if '=' ∉ token ∨ name = [] then .error ("malformed input assignment: ".toList ++ token)
  else
    let value := (token.dropWhile (· ≠ '=')).tail
    match findInput inputVars name with
    | none => .error ("unknown input variable: ".toList ++ name)
    | some var =>
      if isValueValidForType long var.type value then .ok (var, value) else .error (invalid var value)

def scanInvalid (var : VarDescriptor) (value : Text) : Text :=
  "invalid value for input ".toList ++ var.name ++ " (".toList ++ varTypeName var.type ++ "): ".toList ++ value

def eventInvalid (var : VarDescriptor) (_value : Text) : Text := "invalid input value: ".toList ++ var.name

/-- A request that has passed every check. -/
structure Request where
  simulationTimeNs : Int
  tasks : List Text := []
  pending : List (VarDescriptor × Text)
  deriving DecidableEq

section

variable {σ : Type} (long : LongWidth) (run : Int → List Text → Worker σ → Worker σ)

def checkScan (session : PlcScanSession σ) (args : Text) : Except Text Request :=
  match extractInt64 args with
  | none => .error "missing or invalid simulationTimeNs".toList
  | some (simulationTimeNs, rest) =>
    if session.hasScanned ∧ simulationTimeNs ≤ session.lastAcceptedTimeNs then
      .error ("simulationTimeNs must be strictly greater than the last accepted scan (".toList ++
        intText session.lastAcceptedTimeNs ++ "), got ".toList ++ intText simulationTimeNs)
    else
      match (tokens rest).mapM (parseAssignment long session.inputVars scanInvalid) with
      | .error message => .error message
      | .ok pending => .ok { simulationTimeNs, pending }

def checkEvent (session : PlcScanSession σ) (args : Text) : Except Text Request :=
  match extractInt64 args with
  | none => .error "missing event time/tasks".toList
  | some (simulationTimeNs, rest) =>
    match extractToken rest with
    | none => .error "missing event time/tasks".toList
    | some (taskList, rest) =>
      if session.hasScanned ∧ simulationTimeNs < session.lastAcceptedTimeNs then
        .error "event time precedes last activation".toList
      else
        let tasks := (taskList.splitOn ',').filter (· ≠ [])
        if tasks = [] then .error "empty event task list".toList
        else
          match (tokens rest).mapM (parseAssignment long session.inputVars eventInvalid) with
          | .error message => .error message
          | .ok pending => .ok { simulationTimeNs, tasks, pending }

/-- The second pass of a scan, up to the assignment that is refused, if one is. -/
def applyAll : List (VarDescriptor × Text) → (Nat → IecVar) → (Nat → IecVar) × Option VarDescriptor
  | [], memory => (memory, none)
  | (var, value) :: rest, memory =>
    match varSetValue long var.type (memory var.varPtr) value with
    | some changed => applyAll rest (Function.update memory var.varPtr changed)
    | none => (memory, some var)

/-- The second pass of an event, which ignores refusals. -/
def applyEach (pending : List (VarDescriptor × Text)) (memory : Nat → IecVar) : Nat → IecVar :=
  pending.foldl (fun memory assignment =>
    match varSetValue long assignment.1.type (memory assignment.1.varPtr) assignment.2 with
    | some changed => Function.update memory assignment.1.varPtr changed
    | none => memory) memory

def outputs (session : PlcScanSession σ) : List (Text × Text) :=
  session.outputVars.map fun output =>
    (output.name, varValueToString output.type (session.worker.memory output.varPtr).get)

def handleScan (session : PlcScanSession σ) (requestId args : Text) : Reply × PlcScanSession σ :=
  match checkScan long session args with
  | .error message => (.err requestId message, session)
  | .ok request =>
    match applyAll long request.pending session.worker.memory with
    | (memory, some var) =>
      (.err requestId ("internal: validated value rejected on apply for ".toList ++ var.name),
        { session with worker := { session.worker with memory := memory } })
    | (memory, none) =>
      let session := { session with
        worker := run request.simulationTimeNs [] { session.worker with
          memory := memory
          currentTimeNs := request.simulationTimeNs
          currentDtNs := request.simulationTimeNs }
        hasScanned := true
        lastAcceptedTimeNs := request.simulationTimeNs
        scanCount := session.scanCount + 1 }
      (.ok requestId (outputs session), session)

def handleEvent (session : PlcScanSession σ) (requestId args : Text) : Reply × PlcScanSession σ :=
  match checkEvent long session args with
  | .error message => (.err requestId message, session)
  | .ok request =>
    let session := { session with
      worker := run request.simulationTimeNs request.tasks { session.worker with
        memory := applyEach long request.pending session.worker.memory
        currentTimeNs := request.simulationTimeNs
        currentDtNs := 0 }
      hasScanned := true
      lastAcceptedTimeNs := max session.lastAcceptedTimeNs request.simulationTimeNs
      scanCount := session.scanCount + 1 }
    (.ok requestId (outputs session), session)

end

end LasecSimul.Plc

/-!
## The boundary between the core and a worker

The core writes the signal slots of a PLC's inputs into a request and publishes the outputs it reads from
the reply (`runPlcScanBatchUnlocked`, `PlcRuntime::scan`). Texts are what crosses.
-/

namespace LasecSimul.Plc

open Lib.Binary Lib.Decimal Lib.Numeral Plan Signal

inductive SlotValue where
  | boolean (value : Bool)
  | real (value : FloatValue)
  | integer (value : Int)
  deriving DecidableEq

/-- The slots of the signal runtime, as a scan reads them. -/
structure SlotReader where
  boolean : SignalSlotHandle → Bool
  real : SignalSlotHandle → FloatValue
  integer : SignalSlotHandle → Int
  inRange : ∀ slot, InSigned 64 (integer slot)

def toUpperAscii (text : String) : Text := text.toList.map Char.toUpper

def slotValue (binding : PlcIoBinding) (slot : SignalSlotHandle) (signals : SlotReader) : SlotValue :=
  if binding.iecType = "BOOL" then .boolean (signals.boolean slot)
  else if binding.iecType = "REAL" ∨ binding.iecType = "LREAL" then .real (signals.real slot)
  else .integer (signals.integer slot)

/-- `std::to_string`, or `TRUE` and `FALSE`. -/
def SlotValue.text : SlotValue → Text
  | .boolean value => if value then "TRUE".toList else "FALSE".toList
  | .real value => floatText (fixedText 6) value
  | .integer value => intText value

def plcSignalValueToText (binding : PlcIoBinding) (signals : SlotReader) : Text :=
  match binding.signal with
  | none => if binding.iecType = "BOOL" then "FALSE".toList else "0".toList
  | some slot => (slotValue binding slot signals).text

def boundInput (binding : PlcIoBinding) : Bool :=
  binding.direction = "input" ∧ binding.signalBlockId ≠ ""

def boundOutput (binding : PlcIoBinding) : Bool :=
  binding.direction = "output" ∧ binding.signalBlockId ≠ ""

def signalInputs (bindings : List PlcIoBinding) (signals : SlotReader) : List (Text × Text) :=
  (bindings.filter boundInput).map fun binding =>
    (toUpperAscii binding.name, plcSignalValueToText binding signals)

def assignmentText (assignment : Text × Text) : Text := assignment.1 ++ '=' :: assignment.2

/-- Each text after a blank. -/
def spaced (texts : List Text) : Text := (texts.map (' ' :: ·)).flatten

/-- The arguments of `SCAN`. -/
def scanArgs (simulationTimeNs : Int) (inputs : List (Text × Text)) : Text :=
  intText simulationTimeNs ++ spaced (inputs.map assignmentText)

def isTrimmed (c : Char) : Bool := c ∈ [' ', '\t', '\r', '\n']

def trim (text : Text) : Text := (text.dropWhile isTrimmed).rdropWhile isTrimmed

/-- `sendRequestExpectingOk`, up to a line of the worker; `none` is a `PlcRuntimeError`. -/
def expectOk (requestId response : Text) : Option Text :=
  match extractToken (response.takeWhile (· ≠ '\n')) with
  | none => none
  | some (status, rest) =>
    match extractToken rest with
    | none => none
    | some (responseRequestId, rest) =>
      if responseRequestId = requestId ∧ status = "OK".toList then some (trim rest) else none

def parsePair (token : Text) : Option (Text × Text) :=
  if '=' ∈ token then some (token.takeWhile (· ≠ '='), (token.dropWhile (· ≠ '=')).tail) else none

/-- The outputs in a reply, in the order of its tokens. -/
def readOutputs (requestId response : Text) : Option (List (Text × Text)) :=
  (expectOk requestId response).bind fun rest => (tokens rest).mapM parsePair

/-- The map of the outputs: a name keeps its last value. -/
def findOutput (outputs : List (Text × Text)) (name : Text) : Option Text :=
  (outputs.reverse.find? fun output => output.1 = name).map (·.2)

def published (binding : PlcIoBinding) (text : Text) : Option SlotValue :=
  if binding.iecType = "BOOL" then some (.boolean (text = "TRUE".toList))
  else (sto binary64 text).map fun read => .real read.1

/-- The external values set so far, and whether no conversion has thrown. -/
def commitSignals (outputs : List (Text × Text)) :
    List PlcIoBinding → (String → Option SlotValue) → (String → Option SlotValue) × Bool
  | [], external => (external, true)
  | binding :: rest, external =>
    if ¬boundOutput binding then commitSignals outputs rest external
    else
      match findOutput outputs (toUpperAscii binding.name) with
      | none => commitSignals outputs rest external
      | some text =>
        match published binding text with
        | some value => commitSignals outputs rest (Function.update external binding.signalBlockId (some value))
        | none => (external, false)

end LasecSimul.Plc
