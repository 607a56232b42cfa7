import LasecSimul.Hart.UserVariables

/-!
# Command programs

Statements of authored commands, the bound the compiler computes for the response stage, and the executor.
-/

namespace LasecSimul.Hart

open Lib.Binary (FloatValue binary32)

/-! ### Variables of a device -/

inductive HartVarId where
  | manufacturerId | deviceType | deviceId | numRequestPreambles | universalCommandRevision
  | transmitterSpecificRevision | softwareRevision | hardwareRevisionAndSignal | flags | tag | primaryVariableUnit
  | primaryVariable | message | descriptor | date | finalAssemblyNumber | longTag | pollingAddress | loopCurrentMode
  | upperRangeValue | lowerRangeValue | pvTransferFunctionCode | alarmSelectionCode | writeProtectCode
  | implementedUniversalRevision
  deriving DecidableEq

inductive HartDeviceVariableField where
  | code | units | value | status | upperLimit | lowerLimit | minimumSpan | classificationCode | family
  | acquisitionPeriod | properties | serial | damping | writeMode
  deriving DecidableEq

/-- The expressions that read neither the request nor a user variable. -/
inductive HartReading where
  | variable_ (id : HartVarId)
  | deviceVariable (field : HartDeviceVariableField)
  | loopCurrentMilliamps | percentOfRange | outputPercent

structure DeviceVariable where
  code : UInt8
  units : UInt8
  value : FloatValue
  status : UInt8
  upperLimit : FloatValue
  lowerLimit : FloatValue
  minimumSpan : FloatValue
  damping : FloatValue
  classification : UInt8
  family : UInt8
  acquisitionPeriod : UInt32
  properties : UInt8
  serial : UInt32
  writable : Bool
  allowedUnits : Bytes

/-- `std::array<uint8_t, n>` -/
abbrev Field (n : Nat) := { bytes : Bytes // bytes.length = n }

/-- `hartAnalogOutput` -/
structure AnalogOutput where
  percentOfRange : FloatValue
  outputPercent : FloatValue
  milliamps : FloatValue

/-- The variables besides the user's; `channel` are those that only `hartAnalogOutput` reads. -/
structure HartDeviceVariables (α : Type) where
  manufacturerId : UInt8
  deviceType : UInt8
  deviceId : Field 3
  numRequestPreambles : UInt8
  universalCommandRevision : UInt8
  implementedUniversalRevision : UInt8
  transmitterSpecificRevision : UInt8
  softwareRevision : UInt8
  hardwareRevisionAndSignal : UInt8
  flags : UInt8
  tagPacked : Field 6
  primaryVariableUnit : UInt8
  primaryDeviceVariableCode : UInt8
  primaryVariable : FloatValue
  messagePacked : Field 24
  descriptorPacked : Field 12
  date : Field 3
  finalAssemblyNumber : Field 3
  longTag : Field 32
  pollingAddress : UInt8
  loopCurrentMode : UInt8
  upperRangeValue : FloatValue
  lowerRangeValue : FloatValue
  pvTransferFunctionCode : UInt8
  alarmSelectionCode : UInt8
  writeProtectCode : UInt8
  deviceVariables : List DeviceVariable
  channel : α

namespace HartDeviceVariables

variable {α : Type} (device : HartDeviceVariables α)

def indexOf (code : UInt8) : Option Nat := device.deviceVariables.findIdx? (·.code == code)

/-- The dynamic variables of the SMAR TT301. -/
def mapped (code : UInt8) : UInt8 :=
  if code = 244 then 1 else if code = 245 then 0 else if code = 247 then 3 else if code = 248 then 1
  else if code = 249 then 2 else code

/-- `selectedDeviceVariable`, as an index. -/
def selected (code : UInt8) : Option Nat :=
  (device.indexOf code).or <|
    (if device.manufacturerId = 62 ∧ device.deviceType = 2 ∧ mapped code ≠ code then device.indexOf (mapped code)
      else none).or <|
    (if code = 246 ∧ device.primaryDeviceVariableCode ≠ 246 then device.indexOf device.primaryDeviceVariableCode
      else none).or <|
    if code = 0 then device.indexOf 246 else none

def variableAt (code : UInt8) : Option DeviceVariable := (device.selected code).bind (device.deviceVariables[·]?)

def modifyAt (code : UInt8) (f : DeviceVariable → DeviceVariable) : HartDeviceVariables α :=
  match device.selected code with
  | some i => { device with deviceVariables := device.deviceVariables.modify i f }
  | none => device

/-- The bytes of a variable. -/
def read : HartVarId → Bytes
  | .manufacturerId => [device.manufacturerId]
  | .deviceType => [device.deviceType]
  | .deviceId => device.deviceId
  | .numRequestPreambles => [device.numRequestPreambles]
  | .universalCommandRevision => [device.universalCommandRevision]
  | .transmitterSpecificRevision => [device.transmitterSpecificRevision]
  | .softwareRevision => [device.softwareRevision]
  | .hardwareRevisionAndSignal => [device.hardwareRevisionAndSignal]
  | .flags => [device.flags]
  | .tag => device.tagPacked
  | .primaryVariableUnit => [((device.variableAt 246).map DeviceVariable.units).getD device.primaryVariableUnit]
  | .primaryVariable => encodeFloat32BE device.primaryVariable
  | .message => device.messagePacked
  | .descriptor => device.descriptorPacked
  | .date => device.date
  | .finalAssemblyNumber => device.finalAssemblyNumber
  | .longTag => device.longTag
  | .pollingAddress => [device.pollingAddress]
  | .loopCurrentMode => [device.loopCurrentMode]
  | .upperRangeValue => encodeFloat32BE device.upperRangeValue
  | .lowerRangeValue => encodeFloat32BE device.lowerRangeValue
  | .pvTransferFunctionCode => [device.pvTransferFunctionCode]
  | .alarmSelectionCode => [device.alarmSelectionCode]
  | .writeProtectCode => [device.writeProtectCode]
  | .implementedUniversalRevision => [device.implementedUniversalRevision]

/-- What is read of a device variable that does not exist. -/
def readMissing (code : UInt8) : HartDeviceVariableField → Bytes
  | .code => [code]
  | .units | .family => [250]
  | .value | .upperLimit | .lowerLimit | .minimumSpan | .damping => [0x7F, 0xA0, 0x00, 0x00]
  | .classificationCode | .properties | .writeMode => [0]
  | .acquisitionPeriod => encodeUnsignedBE 0xFFFFFFFF 4
  | .serial => [0, 0, 0]
  | .status => [0x30]

def readDeviceVariable (variable_ : DeviceVariable) : HartDeviceVariableField → Bytes
  | .code => [variable_.code]
  | .units => [variable_.units]
  | .value => encodeFloat32BE variable_.value
  | .status => [variable_.status]
  | .upperLimit => encodeFloat32BE variable_.upperLimit
  | .lowerLimit => encodeFloat32BE variable_.lowerLimit
  | .minimumSpan => encodeFloat32BE variable_.minimumSpan
  | .damping => encodeFloat32BE variable_.damping
  | .classificationCode => [variable_.classification]
  | .family => [variable_.family]
  | .acquisitionPeriod => encodeUnsignedBE variable_.acquisitionPeriod 4
  | .properties => [variable_.properties]
  | .writeMode => [if variable_.properties &&& 0x80 ≠ 0 then 1 else 0]
  | .serial => [(variable_.serial >>> 16).toUInt8, (variable_.serial >>> 8).toUInt8, variable_.serial.toUInt8]

def fieldOf (n : Nat) (bytes : Bytes) : Option (Field n) := if same : bytes.length = n then some ⟨bytes, same⟩ else none

def byteOf : Bytes → Option UInt8
  | [byte] => some byte
  | _ => none

/-- `SET` of a variable. -/
def set (target : HartVarId) (bytes : Bytes) : Option (HartDeviceVariables α) :=
  match target with
  | .tag => (fieldOf 6 bytes).map fun value => { device with tagPacked := value }
  | .primaryVariableUnit => (byteOf bytes).map fun value =>
      { device with primaryVariableUnit := value }.modifyAt 246 fun pv => { pv with units := value }
  | .primaryVariable =>
    if bytes.length = 4 then some { device with primaryVariable := decodeFloat32BE bytes } else none
  | .message => (fieldOf 24 bytes).map fun value => { device with messagePacked := value }
  | .descriptor => (fieldOf 12 bytes).map fun value => { device with descriptorPacked := value }
  | .date => (fieldOf 3 bytes).map fun value => { device with date := value }
  | .finalAssemblyNumber => (fieldOf 3 bytes).map fun value => { device with finalAssemblyNumber := value }
  | .longTag => (fieldOf 32 bytes).map fun value => { device with longTag := value }
  | .pollingAddress =>
    (byteOf bytes).bind fun value => if 63 < value then none else some { device with pollingAddress := value }
  | .loopCurrentMode =>
    (byteOf bytes).bind fun value => if 1 < value then none else some { device with loopCurrentMode := value }
  | .pvTransferFunctionCode => (byteOf bytes).map fun value => { device with pvTransferFunctionCode := value }
  | .alarmSelectionCode => (byteOf bytes).map fun value => { device with alarmSelectionCode := value }
  | .writeProtectCode => (byteOf bytes).map fun value => { device with writeProtectCode := value }
  | _ => none

/-- `SET` of the device variable under the local code: the result, and the device as it is left. -/
def setDeviceVariable (code : UInt8) (target : HartDeviceVariableField) (bytes : Bytes) : Bool × HartDeviceVariables α :=
  match device.variableAt code with
  | none => (false, device)
  | some variable_ =>
    let limit := decodeFloat32BE bytes
    let finite (store : DeviceVariable → DeviceVariable) : Bool × HartDeviceVariables α :=
      if bytes.length = 4 ∧ limit.isFinite then (true, device.modifyAt code store) else (false, device)
    let negative := limit.lt (.finite false 0)
    match target with
    | .value =>
      if bytes.length = 4 then (limit.isFinite, device.modifyAt code fun v => { v with value := limit }) else (false, device)
    | .damping =>
      if bytes.length = 4 then (limit.isFinite && !negative, device.modifyAt code fun v => { v with damping := limit })
      else (false, device)
    | .upperLimit => finite fun v => { v with upperLimit := limit }
    | .lowerLimit => finite fun v => { v with lowerLimit := limit }
    | .minimumSpan => if negative then (false, device) else finite fun v => { v with minimumSpan := limit }
    | .writeMode =>
      match byteOf bytes with
      | some 0 => (true, device.modifyAt code fun v => { v with properties := v.properties &&& ~~~0x80 })
      | some 1 => (true, device.modifyAt code fun v => { v with properties := v.properties ||| 0x80 })
      | _ => (false, device)
    | .units =>
      match byteOf bytes with
      | some units =>
        if units = 250 ∨ units = 255 ∨ (variable_.allowedUnits ≠ [] ∧ units ∉ variable_.allowedUnits) then (false, device)
        else (true, device.modifyAt code fun v => { v with units })
      | none => (false, device)
    | _ => (false, device)

end HartDeviceVariables

abbrev Expr := HartExpr HartReading

inductive HartDeviceVariableGuard where
  | exists_ | writable | unitsMatch | validWriteCode

inductive HartStatement where
  | append (source : Expr)
  | set (target : HartVarId) (value : Expr)
  | setDeviceVariable (target : HartDeviceVariableField) (value : Expr)
  | guardDeviceVariable (guard : HartDeviceVariableGuard) (value : Expr)
  | ifEq (lhs rhs : Expr) (thenBranch elseBranch : List HartStatement)
  | map (key : Expr) (table : List (Bytes × Bytes)) (defaultValue : Bytes)
  | forCodes (source : Expr) (first body : List HartStatement) (maxIterations : Nat)
  | setUserVariable (variableId : String) (field : HartUserVariableField) (value : Expr)
  | responseCode (code : UInt8) (abort noReply : Bool)

structure HartCommandDefinition where
  write : List HartStatement
  resp : List HartStatement
  after : List HartStatement

/-! ### Compiler -/

/-- `size_t` -/
def sizeLimit : Nat := 2 ^ 64

def hartVarWidth : HartVarId → Nat
  | .deviceId | .date | .finalAssemblyNumber => 3
  | .tag => 6
  | .primaryVariable | .upperRangeValue | .lowerRangeValue => 4
  | .message => 24
  | .descriptor => 12
  | .longTag => 32
  | _ => 1

def fieldWidth : HartDeviceVariableField → Nat
  | .code | .units | .status | .classificationCode | .family | .properties | .writeMode => 1
  | .serial => 3
  | _ => 4

def estimateExprMax (maxRequestBytes : Nat) : Expr → Nat
  | .requestBody => maxRequestBytes
  | .bodySlice _ length => if length = 0 then maxRequestBytes else length
  | .hexConstant constant => constant.length
  | .localCode => 1
  | .userVariable .. | .userVariableTable .. => 4
  | .other (.variable_ id) => hartVarWidth id
  | .other (.deviceVariable field) => fieldWidth field
  | .other _ => 4

section Estimate

variable (maxRequestBytes : Nat)

mutual

/-- The bytes one statement counts for; `wrap` is what a sum is stored as. -/
def estimateStatement (wrap : Nat → Nat) : HartStatement → Nat
  | .append source => estimateExprMax maxRequestBytes source
  | .ifEq _ _ thenBranch elseBranch => max (estimateMaxBytes wrap thenBranch) (estimateMaxBytes wrap elseBranch)
  | .map _ table defaultValue => table.foldl (fun longest entry => max longest entry.2.length) defaultValue.length
  | .forCodes _ first body maxIterations =>
    wrap (estimateMaxBytes wrap first + wrap (maxIterations * estimateMaxBytes wrap body))
  | _ => 0

def estimateMaxBytes (wrap : Nat → Nat) : List HartStatement → Nat
  | [] => 0
  | statement :: rest => wrap (estimateStatement wrap statement + estimateMaxBytes wrap rest)

end

def validateExpr : Expr → Except String Unit
  | .bodySlice offset length =>
    if length ≠ 0 ∧ maxRequestBytes < (offset + length) % sizeLimit then
      .error "HART command body slice exceeds maximum request size"
    else .ok ()
  | .userVariableTable offset _ table =>
    if maxRequestBytes ≤ offset then .error "HART command table index byte exceeds maximum request size"
    else if table = [] ∨ 256 < table.length then .error "HART command variable table must hold 1-256 entries"
    else .ok ()
  | _ => .ok ()

def writableVariables : List HartVarId :=
  [.tag, .primaryVariableUnit, .primaryVariable, .message, .descriptor, .date, .finalAssemblyNumber, .longTag,
    .pollingAddress, .loopCurrentMode, .pvTransferFunctionCode, .alarmSelectionCode, .writeProtectCode]

mutual

def validateStatement (depth : Nat) : HartStatement → Except String Unit
  | .append source => validateExpr maxRequestBytes source
  | .set target value =>
    if target ∈ writableVariables then validateExpr maxRequestBytes value
    else .error "HART command SET targets a non-writable variable"
  | .setDeviceVariable _ value | .guardDeviceVariable _ value => validateExpr maxRequestBytes value
  | .ifEq lhs rhs thenBranch elseBranch => do
    validateExpr maxRequestBytes lhs
    validateExpr maxRequestBytes rhs
    validateStatements (depth + 1) thenBranch
    validateStatements (depth + 1) elseBranch
  | .map key table _ => do
    validateExpr maxRequestBytes key
    if (table.map Prod.fst).Nodup then .ok () else .error "HART command MAP has duplicate keys"
  | .setUserVariable variableId _ value =>
    if variableId = "" then .error "HART command SET targets an empty variable id" else validateExpr maxRequestBytes value
  | .responseCode .. => .ok ()
  | .forCodes source first body maxIterations =>
    if maxIterations = 0 ∨ 64 < maxIterations then .error "HART command FOR_CODES iteration bound is not sane"
    else do
      validateExpr maxRequestBytes source
      validateStatements (depth + 1) first
      validateStatements (depth + 1) body

def validateStatements (depth : Nat) : List HartStatement → Except String Unit
  | [] => if 8 < depth then .error "HART command nesting too deep" else .ok ()
  | statement :: rest =>
    if 8 < depth then .error "HART command nesting too deep"
    else do
      validateStatement depth statement
      validateStatements depth rest

end

end Estimate

structure HartCompiledCommandProgram where
  definition : HartCommandDefinition
  maxResponseBytes : Nat

namespace HartCommandCompiler

def compile (definition : HartCommandDefinition) (maxRequestBytes maxResponseBytes : Nat) :
    Except String HartCompiledCommandProgram := do
  validateStatements maxRequestBytes 0 definition.write
  validateStatements maxRequestBytes 0 definition.resp
  validateStatements maxRequestBytes 0 definition.after
  let estimated := estimateMaxBytes maxRequestBytes (· % sizeLimit) definition.resp
  if maxResponseBytes < estimated then .error "HART command worst-case response exceeds frame limit"
  else .ok { definition, maxResponseBytes := estimated }

end HartCommandCompiler

section Execute

variable {α : Type}

abbrev Variables (α : Type) := HartExecutionVariables (HartDeviceVariables α)

structure Progress (α : Type) where
  vars : Variables α
  response : HartResponseBuilder

variable (analog : HartDeviceVariables α → AnalogOutput) (request : Bytes)

/-- `evalExpr` of the expressions that read the device. -/
def evalReading (reading : HartReading) (device : HartDeviceVariables α) (localCode : UInt8) : Option Bytes :=
  match reading with
  | .variable_ id => some (device.read id)
  | .loopCurrentMilliamps => some (encodeFloat32BE (analog device).milliamps)
  | .percentOfRange => some (encodeFloat32BE (analog device).percentOfRange)
  | .outputPercent => some (encodeFloat32BE (analog device).outputPercent)
  | .deviceVariable field =>
    match device.variableAt localCode with
    | some variable_ => some (HartDeviceVariables.readDeviceVariable variable_ field)
    | none => some (HartDeviceVariables.readMissing localCode field)

def evaluate (vars : Variables α) (localCode : UInt8) (expr : Expr) : Option Bytes × Variables α :=
  evalExpr (evalReading analog) vars request localCode expr

/-- The loop of `FOR_CODES`. -/
def forEach (step : UInt8 → Progress α → Bool × Progress α) : Bytes → Progress α → Bool × Progress α
  | [], run => (true, run)
  | code :: codes, run =>
    match step code run with
    | (true, run) => forEach step codes run
    | (false, run) => (false, run)

def checkGuard (vars : Variables α) (localCode : UInt8) (guard : HartDeviceVariableGuard) (bytes : Option Bytes) : Bool :=
  match guard, vars.rest.variableAt localCode, bytes with
  | .exists_, variable_, _ => variable_.isSome
  | .writable, some variable_, some _ => variable_.writable
  | .unitsMatch, some variable_, some bytes => bytes = [variable_.units]
  | .validWriteCode, some _, some bytes => bytes = [0] ∨ bytes = [1]
  | _, _, _ => false

mutual

def execStatement (localCode : UInt8) (run : Progress α) : HartStatement → Bool × Progress α
  | .append source =>
    let (done, vars, response) := execAppend (evalReading analog) run.vars request localCode source run.response
    (done, ⟨vars, response⟩)
  | .set target value =>
    match evaluate analog request run.vars localCode value with
    | (none, vars) => (false, { run with vars })
    | (some bytes, vars) =>
      match vars.rest.set target bytes with
      | some rest => (true, { run with vars := { vars with rest } })
      | none => (false, { run with vars })
  | .setDeviceVariable target value =>
    match evaluate analog request run.vars localCode value with
    | (none, vars) => (false, { run with vars })
    | (some bytes, vars) =>
      let (done, rest) := vars.rest.setDeviceVariable localCode target bytes
      (done, { run with vars := { vars with rest } })
  | .guardDeviceVariable guard value =>
    let (bytes, vars) := evaluate analog request run.vars localCode value
    (checkGuard vars localCode guard bytes, { run with vars })
  | .ifEq lhs rhs thenBranch elseBranch =>
    let (left, vars) := evaluate analog request run.vars localCode lhs
    let (right, vars) := evaluate analog request vars localCode rhs
    match left, right with
    | some left, some right =>
      if left = right then execStatements localCode { run with vars } thenBranch
      else execStatements localCode { run with vars } elseBranch
    | _, _ => (false, { run with vars })
  | .map key table defaultValue =>
    match evaluate analog request run.vars localCode key with
    | (none, vars) => (false, { run with vars })
    | (some key, vars) =>
      let (done, response) := run.response.writeBytes ((table.lookup key).getD defaultValue)
      (done, ⟨vars, response⟩)
  | .setUserVariable variableId field value =>
    let (done, vars) := execSetUserVariable (evalReading analog) run.vars request localCode variableId field value
    (done, { run with vars })
  | .responseCode code abort noReply =>
    if noReply then (false, { run with response := { run.response with noReply := true } })
    else (!abort, { run with response := run.response.setResponseCode code })
  | .forCodes source first body maxIterations =>
    match execStatements localCode run first with
    | (false, run) => (false, run)
    | (true, run) =>
      match evaluate analog request run.vars localCode source with
      | (none, vars) => (false, { run with vars })
      | (some codes, vars) =>
        forEach (fun code run => execStatements code run body) (codes.take maxIterations) { run with vars }

def execStatements (localCode : UInt8) (run : Progress α) : List HartStatement → Bool × Progress α
  | [] => (true, run)
  | statement :: rest =>
    match execStatement localCode run statement with
    | (true, run) => execStatements localCode run rest
    | (false, run) => (false, run)

end

/-- The user variable whose value an expression reads. -/
def valueRead (vars : Variables α) : Expr → Option UserVariable
  | .userVariable variableId .value => vars.userVariables.find? (·.id == variableId)
  | .userVariableTable offset length table => do
    let selector ← request[offset]?
    let variableId ← table[selector.toNat + length]?
    vars.userVariables.find? (·.id == variableId)
  | _ => none

/-- Every turn of a loop satisfies `fits`. -/
def EachTurn (fits : UInt8 → Progress α → Prop) (step : UInt8 → Progress α → Bool × Progress α) :
    Bytes → Progress α → Prop
  | [], _ => True
  | code :: codes, run => fits code run ∧ ((step code run).1 = true → EachTurn fits step codes (step code run).2)

mutual

/-- No text of more than four bytes is appended on the way. -/
def TextsFit (localCode : UInt8) (run : Progress α) : HartStatement → Prop
  | .append source =>
    ∀ target, valueRead request run.vars source = some target → target.type = .ascii → target.text.length ≤ 4
  | .ifEq lhs rhs thenBranch elseBranch =>
    let (left, vars) := evaluate analog request run.vars localCode lhs
    let (right, vars) := evaluate analog request vars localCode rhs
    if left = right then AllTextsFit localCode { run with vars } thenBranch
    else AllTextsFit localCode { run with vars } elseBranch
  | .forCodes source first body maxIterations =>
    AllTextsFit localCode run first ∧
      let run := (execStatements analog request localCode run first).2
      let (codes, vars) := evaluate analog request run.vars localCode source
      EachTurn (fun code run => AllTextsFit code run body) (fun code run => execStatements analog request code run body)
        ((codes.getD []).take maxIterations) { run with vars }
  | _ => True

def AllTextsFit (localCode : UInt8) (run : Progress α) : List HartStatement → Prop
  | [] => True
  | statement :: rest =>
    TextsFit localCode run statement ∧ AllTextsFit localCode (execStatement analog request localCode run statement).2 rest

end

/-! ### The bound -/

variable {analog request} {maxRequestBytes : Nat}

theorem length_encodeFloat32BE (value : FloatValue) : (encodeFloat32BE value).length = 4 := rfl

theorem length_encodeUnsignedBE (value : UInt32) (width : Nat) : (encodeUnsignedBE value width).length = min width 4 := by
  rw [encodeUnsignedBE, List.length_reverse, List.length_map, List.length_range]

theorem length_read (device : HartDeviceVariables α) (id : HartVarId) : (device.read id).length = hartVarWidth id := by
  cases id with
  | deviceId => exact device.deviceId.2
  | tag => exact device.tagPacked.2
  | message => exact device.messagePacked.2
  | descriptor => exact device.descriptorPacked.2
  | date => exact device.date.2
  | finalAssemblyNumber => exact device.finalAssemblyNumber.2
  | longTag => exact device.longTag.2
  | _ => rfl

theorem length_evalReading {reading : HartReading} {device : HartDeviceVariables α} {code : UInt8} {bytes : Bytes}
    (read : evalReading analog reading device code = some bytes) :
    bytes.length = estimateExprMax maxRequestBytes (.other reading) := by
  cases reading with
  | variable_ id => exact Option.some.inj read ▸ length_read device id
  | deviceVariable field =>
    rw [evalReading] at read
    split at read <;> cases read <;> cases field <;> rfl
  | _ => exact Option.some.inj read ▸ length_encodeFloat32BE _

theorem length_userVariable {target : UserVariable} {field : HartUserVariableField} {bytes : Bytes}
    (read : target.read field = some bytes) (short : field = .value → target.type = .ascii → target.text.length ≤ 4) :
    bytes.length ≤ 4 := by
  cases field with
  | value =>
    rw [UserVariable.read] at read
    split at read
    all_goals cases read
    · exact (length_encodeFloat32BE _).le
    all_goals first
      | exact short rfl (by assumption)
      | simp only [length_encodeUnsignedBE]; omega
      | decide
      | exact Nat.le_add_left 1 3
  | _ => exact Option.some.inj read ▸ (length_encodeFloat32BE _).le

theorem length_evaluate {vars : Variables α} {code : UInt8} {expr : Expr} {bytes : Bytes}
    (small : request.length ≤ maxRequestBytes) (read : (evaluate analog request vars code expr).1 = some bytes)
    (short : ∀ target, valueRead request vars expr = some target → target.type = .ascii → target.text.length ≤ 4) :
    bytes.length ≤ estimateExprMax maxRequestBytes expr := by
  cases expr with
  | requestBody => exact Option.some.inj read ▸ small
  | bodySlice offset length =>
    simp only [evaluate, evalExpr] at read
    rw [estimateExprMax]
    split at read
    · cases read
    · generalize taken : (if length = 0 then request.length - offset else length) = count at read
      split at read <;> cases read
      have length_le : ((request.drop offset).take count).length ≤ count := List.length_take_le ..
      split at taken
      · rename_i rest
        rw [if_pos rest]
        omega
      · rename_i fixed
        rw [if_neg fixed]
        omega
  | hexConstant constant => exact Option.some.inj read ▸ le_rfl
  | localCode => exact Option.some.inj read ▸ le_rfl
  | userVariable variableId field =>
    obtain ⟨target, found, read⟩ := Option.bind_eq_some_iff.mp read
    exact length_userVariable read fun isValue ascii => short target (by rw [isValue]; exact found) ascii
  | userVariableTable offset length table =>
    simp only [evaluate, evalExpr] at read
    simp only [valueRead] at short
    split at read
    · cases read
    · rename_i selector at_
      split at read
      · cases read
      · rename_i variableId entry
        split at read
        · cases read
        · rename_i found
          cases read
          obtain ⟨target, found, read⟩ := Option.bind_eq_some_iff.mp found
          refine length_userVariable read fun _ ascii => short target ?_ ascii
          rw [at_, Option.bind_eq_bind, Option.bind_some, entry]
          exact found
  | other reading => exact (length_evalReading read).le

theorem writeBytes_length (response : HartResponseBuilder) (values : Bytes) :
    (response.writeBytes values).2.bytes.length ≤ response.bytes.length + values.length := by
  unfold HartResponseBuilder.writeBytes
  split
  · exact Nat.le_add_right _ _
  · exact (List.length_append ..).le

theorem forEach_length {fits : UInt8 → Progress α → Prop} {step : UInt8 → Progress α → Bool × Progress α} {most : Nat}
    (each : ∀ code run, fits code run →
      (step code run).2.response.bytes.length ≤ run.response.bytes.length + most) (codes : Bytes) :
    ∀ run, EachTurn fits step codes run →
      (forEach step codes run).2.response.bytes.length ≤ run.response.bytes.length + codes.length * most := by
  induction codes with
  | nil => exact fun run _ => Nat.le_add_right _ _
  | cons code codes ih =>
    intro run turns
    have first := each code run turns.1
    have total : (codes.length + 1) * most = codes.length * most + most := Nat.succ_mul _ _
    rw [forEach, List.length_cons, total]
    split
    · rename_i next done
      have rest := ih next (by simpa only [done] using turns.2 (by rw [done]))
      rw [done] at first
      dsimp only at first
      omega
    · rename_i next done
      rw [done] at first
      exact first.trans (by omega)

theorem longest_le (table : List (Bytes × Bytes)) (start : Nat) :
    start ≤ table.foldl (fun longest entry => max longest entry.2.length) start ∧
      ∀ key value, table.lookup key = some value →
        value.length ≤ table.foldl (fun longest entry => max longest entry.2.length) start := by
  induction table generalizing start with
  | nil => exact ⟨le_rfl, nofun⟩
  | cons entry table ih =>
    obtain ⟨from_, each⟩ := ih (max start entry.2.length)
    refine ⟨(le_max_left _ _).trans from_, fun key value found => ?_⟩
    rw [List.lookup_cons] at found
    split at found
    · cases found
      exact (le_max_right _ _).trans from_
    · exact each key value found

mutual

/-- A statement appends at most what it counts for. -/
theorem statement_length (small : request.length ≤ maxRequestBytes) (code : UInt8) (run : Progress α) :
    ∀ statement, TextsFit analog request code run statement →
      (execStatement analog request code run statement).2.response.bytes.length ≤
        run.response.bytes.length + estimateStatement maxRequestBytes id statement
  | .append source, fit => by
    rw [execStatement, execAppend, estimateStatement]
    rcases read : evalExpr (evalReading analog) run.vars request code source with ⟨_ | bytes, vars⟩
    · exact Nat.le_add_right _ _
    · rw [TextsFit] at fit
      have short := length_evaluate small (show (evaluate analog request run.vars code source).1 = some bytes by
        rw [evaluate, read]) fit
      exact (writeBytes_length _ _).trans (Nat.add_le_add_left short _)
  | .set target value, _ => by
    rw [execStatement]
    split
    · exact Nat.le_add_right _ _
    · split <;> exact Nat.le_add_right _ _
  | .setDeviceVariable target value, _ => by
    rw [execStatement]
    split <;> exact Nat.le_add_right _ _
  | .guardDeviceVariable guard value, _ => by
    rw [execStatement]
    exact Nat.le_add_right _ _
  | .setUserVariable variableId field value, _ => by
    rw [execStatement]
    exact Nat.le_add_right _ _
  | .responseCode answer abort noReply, _ => by
    rw [execStatement]
    split <;> exact Nat.le_add_right _ _
  | .ifEq lhs rhs thenBranch elseBranch, fit => by
    rw [TextsFit] at fit
    rw [execStatement, estimateStatement]
    generalize evaluate analog request run.vars code lhs = left at fit ⊢
    obtain ⟨left, vars⟩ := left
    dsimp only at fit ⊢
    generalize evaluate analog request vars code rhs = right at fit ⊢
    obtain ⟨right, vars⟩ := right
    dsimp only at fit ⊢
    rcases left with _ | left
    · exact Nat.le_add_right _ _
    · rcases right with _ | right
      · exact Nat.le_add_right _ _
      dsimp only
      by_cases same : left = right
      · rw [if_pos (congrArg some same)] at fit
        rw [if_pos same]
        have bound := statements_length small code _ thenBranch fit
        exact bound.trans (Nat.add_le_add_left (le_max_left _ _) _)
      · rw [if_neg fun both => same (Option.some.inj both)] at fit
        rw [if_neg same]
        have bound := statements_length small code _ elseBranch fit
        exact bound.trans (Nat.add_le_add_left (le_max_right _ _) _)
  | .map key table defaultValue, _ => by
    rw [execStatement, estimateStatement]
    split
    · exact Nat.le_add_right _ _
    · rename_i key vars read
      obtain ⟨atLeast, each⟩ := longest_le table defaultValue.length
      refine (writeBytes_length _ _).trans (Nat.add_le_add_left ?_ _)
      cases found : table.lookup key with
      | none => exact atLeast
      | some value => exact each key value found
  | .forCodes source first body maxIterations, fit => by
    rw [TextsFit] at fit
    have before := statements_length small code run first fit.1
    rw [execStatement, estimateStatement, id, id]
    split
    · rename_i next done
      rw [done] at before
      exact before.trans (by omega)
    · rename_i next done
      rw [done] at before
      have turns := fit.2
      rw [done] at turns
      dsimp only at before turns
      split
      · exact before.trans (by omega)
      · rename_i codes vars read
        rw [read] at turns
        dsimp only [Option.getD_some] at turns
        have loop := forEach_length (fun code run => statements_length small code run body) _ _ turns
        have count : (codes.take maxIterations).length ≤ maxIterations := List.length_take_le ..
        have most := Nat.mul_le_mul_right (estimateMaxBytes maxRequestBytes id body) count
        dsimp only at loop
        omega

theorem statements_length (small : request.length ≤ maxRequestBytes) (code : UInt8) (run : Progress α) :
    ∀ statements, AllTextsFit analog request code run statements →
      (execStatements analog request code run statements).2.response.bytes.length ≤
        run.response.bytes.length + estimateMaxBytes maxRequestBytes id statements
  | [], _ => Nat.le_add_right _ _
  | statement :: rest, fit => by
    have first := statement_length small code run statement fit.1
    rw [execStatements, estimateMaxBytes, id]
    split
    · rename_i next done
      have second := statements_length small code next rest (by simpa only [done] using fit.2)
      rw [done] at first
      dsimp only at first
      omega
    · rename_i next done
      rw [done] at first
      exact first.trans (by omega)

end

mutual

/-- A worst case below `sizeLimit` is computed without a carry lost. -/
theorem estimateStatement_exact : ∀ statement, estimateStatement maxRequestBytes id statement < sizeLimit →
    estimateStatement maxRequestBytes (· % sizeLimit) statement = estimateStatement maxRequestBytes id statement
  | .ifEq lhs rhs thenBranch elseBranch, below => by
    rw [estimateStatement] at below
    have ofThen := estimateMaxBytes_exact thenBranch ((le_max_left _ _).trans_lt below)
    have ofElse := estimateMaxBytes_exact elseBranch ((le_max_right _ _).trans_lt below)
    rw [estimateStatement, estimateStatement, ofThen, ofElse]
  | .forCodes source first body maxIterations, below => by
    rw [estimateStatement, id, id] at below
    have ofFirst := estimateMaxBytes_exact first (by omega)
    have ofBody : maxIterations * estimateMaxBytes maxRequestBytes (· % sizeLimit) body =
        maxIterations * estimateMaxBytes maxRequestBytes id body := by
      rcases maxIterations.eq_zero_or_pos with none_ | some_
      · rw [none_, zero_mul, zero_mul]
      · have once := Nat.le_mul_of_pos_left (estimateMaxBytes maxRequestBytes id body) some_
        rw [estimateMaxBytes_exact body (by omega)]
    rw [estimateStatement, estimateStatement, ofFirst, ofBody, id, id,
      Nat.mod_eq_of_lt (show maxIterations * _ < sizeLimit by omega), Nat.mod_eq_of_lt below]
  | .append source, _ | .map key table defaultValue, _ | .set target value, _ | .setDeviceVariable target value, _
  | .guardDeviceVariable guard value, _ | .setUserVariable variableId field value, _
  | .responseCode code abort noReply, _ => by simp only [estimateStatement]

theorem estimateMaxBytes_exact : ∀ statements, estimateMaxBytes maxRequestBytes id statements < sizeLimit →
    estimateMaxBytes maxRequestBytes (· % sizeLimit) statements = estimateMaxBytes maxRequestBytes id statements
  | [], _ => by rw [estimateMaxBytes, estimateMaxBytes]
  | statement :: rest, below => by
    rw [estimateMaxBytes, id] at below
    have first := estimateStatement_exact statement (by omega)
    have others := estimateMaxBytes_exact rest (by omega)
    rw [estimateMaxBytes, estimateMaxBytes, first, others, id, Nat.mod_eq_of_lt below]

end

theorem compile_accepted {definition : HartCommandDefinition} {maxResponseBytes : Nat}
    {program : HartCompiledCommandProgram}
    (accepted : HartCommandCompiler.compile definition maxRequestBytes maxResponseBytes = .ok program) :
    program.definition = definition ∧
      program.maxResponseBytes = estimateMaxBytes maxRequestBytes (· % sizeLimit) definition.resp ∧
      program.maxResponseBytes ≤ maxResponseBytes := by
  simp only [HartCommandCompiler.compile, bind, Except.bind] at accepted
  iterate 3
    split at accepted
    · cases accepted
  split at accepted
  · cases accepted
  · rename_i within
    cases accepted
    exact ⟨rfl, rfl, not_lt.mp within⟩

end Execute

def zeros (n : Nat) : Field n := ⟨.replicate n 0, List.length_replicate⟩

def plainDevice : HartDeviceVariables Unit :=
  let zero := .finite false 0
  ⟨62, 2, zeros 3, 5, 5, 5, 1, 1, 0, 0, zeros 6, 57, 246, zero, zeros 24, zeros 12, zeros 3, zeros 3, zeros 32, 0, 0, zero,
    zero, 0, 0, 0, [], ()⟩

def plainOutput : HartDeviceVariables Unit → AnalogOutput :=
  fun _ => ⟨.finite false 0, .finite false 0, .finite false 4⟩

/-- A command that appends a text. -/
def reportText : HartCommandDefinition := ⟨[], [.append (.userVariable "label" .value)], []⟩

def labelled (text : Bytes) : Progress Unit :=
  ⟨{ userVariables := [{ id := "label", type := .ascii, text }], rest := plainDevice }, { }⟩

end LasecSimul.Hart
