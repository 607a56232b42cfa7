import LasecSimul.Base.Binary64
import LasecSimul.Base.Exception

/-!
# The authoring model of signal graphs (`SignalEngine.hpp`, `library/Kernel.hpp`)

Counts and widths are unbounded. The kernels of the block library are a parameter: a kernel is the
functions of its `KernelSpec`, and all its state is in the vectors of the runtime.
-/

namespace LasecSimul.Signal

/-- `kConstantSamplePeriodNs`. -/
def kConstantSamplePeriodNs : Nat := 4611686018427387904

inductive SignalScalarType where
  | real | bool | int64
  deriving DecidableEq

structure SignalDataType where
  scalar : SignalScalarType := .real
  width : Nat := 1
  deriving DecidableEq

structure SignalPortDefinition where
  id : String
  type : SignalDataType := {}
  unit : String := ""
  deriving DecidableEq

structure SignalRate where
  periodNs : Nat := 1
  offsetNs : Nat := 0
  phase : Nat := 0
  deriving DecidableEq

def SignalRate.continuous (rate : SignalRate) : Bool := rate.periodNs = 0

inductive SignalBlockKind where
  | source | externalInput | gain | sum | product | limiter | selector | probe | calcExpression
  | integrator | filteredDerivative | unitDelay | discreteTransferFunction | stateSpaceContinuous
  | stateSpaceDiscrete | deadTime | firstOrder | secondOrder | leadLag | fopdt | accumulator
  | valveCharacteristic | saturation | deadband | hysteresis | stiction | rateLimiter | pid | element
  | kernel
  deriving DecidableEq

/-- `AccumulatorWidth`, the number of elements of an Accumulator output. -/
def accumulatorWidth : Nat := 17

inductive AlgebraicLoopPolicy where
  | reject | fixedPoint
  deriving DecidableEq

structure SignalBlockDefinition (R : Type) where
  id : String
  kind : SignalBlockKind := .source
  inputs : List SignalPortDefinition := []
  output : SignalPortDefinition := { id := "out" }
  rate : SignalRate := {}
  loopPolicy : AlgebraicLoopPolicy := .reject
  maxIterations : Nat := 32
  tolerance : R
  realParameters : List R := []
  intParameters : List Int := []
  boolParameters : List Bool := []
  expression : String := ""
  historyCapacity : Nat := 1024
  kernel : String := ""

structure SignalConnectionDefinition where
  sourceBlock : String
  sourcePort : String := "out"
  targetBlock : String
  targetPort : String
  allowUnitConversion : Bool := false

structure SignalGraphDefinition (R : Type) where
  blocks : List (SignalBlockDefinition R)
  connections : List SignalConnectionDefinition
  maxVectorWidth : Nat := 64
  maxMicrosteps : Nat := 1024

structure SignalSlotHandle where
  scalar : SignalScalarType := .real
  offset : Nat := 0
  width : Nat := 1
  deriving DecidableEq

structure KernelConfig (R : Type) where
  realParameters : List R
  intParameters : List Int
  inputWidths : List Nat
  outputWidth : Nat
  samplePeriod : R

structure KernelShape where
  continuousStates : Nat := 0
  discreteStates : Nat := 0
  feedthrough : List Bool

/-- What a kernel reads: its inputs, the window of its output, and the windows of its continuous and
discrete state. -/
structure KernelContext (R : Type) where
  tNs : Nat
  t : R
  majorNs : Nat
  ts : R
  major : Bool
  inputs : List (List R)
  out : List R
  x : List R
  d : List R
  rp : List R
  ip : List Int

/-- What a kernel leaves in the windows it may write. -/
structure KernelWrites (R : Type) where
  out : List R
  x : List R
  d : List R

/-- `derivatives` fills the derivative of every continuous state. -/
structure KernelSpec (R : Type) where
  id : String
  configure : KernelConfig R → Except Exception KernelShape
  init : Option (KernelContext R → KernelWrites R)
  outputs : KernelContext R → KernelWrites R
  update : Option (KernelContext R → KernelWrites R)
  derivatives : Option (KernelContext R → Nat → R)

structure UnitInfo (R : Type) where
  dimension : String
  scale : R
  offset : R

variable {R : Type} [Double R]

def unitInfo (symbol : String) : Except Exception (UnitInfo R) :=
  match symbol with
  | "" | "1" => .ok ⟨"dimensionless", 1.0, 0.0⟩
  | "V" => .ok ⟨"voltage", 1.0, 0.0⟩
  | "mV" => .ok ⟨"voltage", 1e-3, 0.0⟩
  | "kV" => .ok ⟨"voltage", 1e3, 0.0⟩
  | "A" => .ok ⟨"current", 1.0, 0.0⟩
  | "mA" => .ok ⟨"current", 1e-3, 0.0⟩
  | "s" => .ok ⟨"time", 1.0, 0.0⟩
  | "ms" => .ok ⟨"time", 1e-3, 0.0⟩
  | "us" => .ok ⟨"time", 1e-6, 0.0⟩
  | "Hz" => .ok ⟨"frequency", 1.0, 0.0⟩
  | "kHz" => .ok ⟨"frequency", 1e3, 0.0⟩
  | "Pa" => .ok ⟨"pressure", 1.0, 0.0⟩
  | "kPa" => .ok ⟨"pressure", 1e3, 0.0⟩
  | "K" => .ok ⟨"temperature", 1.0, 0.0⟩
  | "degC" => .ok ⟨"temperature", 1.0, 273.15⟩
  | "bar" => .ok ⟨"pressure", 1e5, 0.0⟩
  | "min" => .ok ⟨"time", 60.0, 0.0⟩
  | "h" => .ok ⟨"time", 3600.0, 0.0⟩
  | "m" => .ok ⟨"length", 1.0, 0.0⟩
  | "cm" => .ok ⟨"length", 1e-2, 0.0⟩
  | "mm" => .ok ⟨"length", 1e-3, 0.0⟩
  | "m2" => .ok ⟨"area", 1.0, 0.0⟩
  | "cm2" => .ok ⟨"area", 1e-4, 0.0⟩
  | "m3" => .ok ⟨"volume", 1.0, 0.0⟩
  | "cm3" => .ok ⟨"volume", 1e-6, 0.0⟩
  | "L" => .ok ⟨"volume", 1e-3, 0.0⟩
  | "mL" => .ok ⟨"volume", 1e-6, 0.0⟩
  | "m3/s" => .ok ⟨"volumetricFlow", 1.0, 0.0⟩
  | "m3/h" => .ok ⟨"volumetricFlow", 1.0 / 3600.0, 0.0⟩
  | "L/s" => .ok ⟨"volumetricFlow", 1e-3, 0.0⟩
  | "L/min" => .ok ⟨"volumetricFlow", 1e-3 / 60.0, 0.0⟩
  | "m/s" => .ok ⟨"velocity", 1.0, 0.0⟩
  | "cm/s" => .ok ⟨"velocity", 1e-2, 0.0⟩
  | "rad" => .ok ⟨"angle", 1.0, 0.0⟩
  | "deg" => .ok ⟨"angle", 3.14159265358979323846 / 180.0, 0.0⟩
  | symbol => .error (.invalidArgument ("unidade de sinal desconhecida: " ++ symbol))

structure LinearConversion (R : Type) where
  scale : R
  offset : R

def conversion (source target : String) (explicitlyAllowed : Bool) :
    Except Exception (LinearConversion R) := do
  let fromUnit : UnitInfo R ← unitInfo source
  let toUnit : UnitInfo R ← unitInfo target
  throwIf (fromUnit.dimension ≠ toUnit.dimension)
    (.invalidArgument ("unidades de sinal incompativeis: " ++ source ++ " -> " ++ target))
  throwIf (source ≠ target ∧ !explicitlyAllowed)
    (.invalidArgument ("conversao de unidade exige declaracao explicita: " ++ source ++ " -> " ++ target))
  return ⟨fromUnit.scale / toUnit.scale, (fromUnit.offset - toUnit.offset) / toUnit.scale⟩

/-! ### Block kinds -/

def isContinuous : SignalBlockKind → Bool
  | .integrator | .filteredDerivative | .deadTime | .firstOrder | .secondOrder | .leadLag | .fopdt
  | .accumulator | .rateLimiter | .stateSpaceContinuous => true
  | _ => false

def isDiscreteState : SignalBlockKind → Bool
  | .unitDelay | .hysteresis | .stiction | .pid | .discreteTransferFunction | .stateSpaceDiscrete => true
  | _ => false

def usesDelay : SignalBlockKind → Bool
  | .deadTime | .fopdt => true
  | _ => false

/-- `none` stands for `size_t` maximum: the kind fixes no number of inputs here. -/
def expectedInputCount : SignalBlockKind → Option Nat
  | .integrator | .filteredDerivative | .unitDelay | .discreteTransferFunction | .stateSpaceContinuous
  | .stateSpaceDiscrete | .deadTime | .firstOrder | .secondOrder | .leadLag | .fopdt
  | .valveCharacteristic | .saturation | .deadband | .hysteresis | .stiction | .rateLimiter => some 1
  | _ => none

def minimumParameterCount : SignalBlockKind → Nat
  | .integrator => 2
  | .filteredDerivative => 3
  | .unitDelay => 1
  | .discreteTransferFunction => 1
  | .deadTime => 2
  | .firstOrder => 3
  | .secondOrder => 5
  | .leadLag => 4
  | .fopdt => 4
  | .accumulator => 5
  | .valveCharacteristic => 2
  | .saturation => 2
  | .deadband => 1
  | .hysteresis => 5
  | .stiction => 3
  | .rateLimiter => 3
  | .pid => 10
  | _ => 0

end LasecSimul.Signal

/-!
## The checks of one block (`validateBlock`)

The checks in the order of the source, with their texts. A parameter that no check has counted reads
as zero where it is missing.
-/

namespace LasecSimul.Signal

variable {R : Type} [Double R]

open Double

def SignalBlockDefinition.real (block : SignalBlockDefinition R) (index : Nat) : R :=
  block.realParameters.getD index 0

def SignalBlockDefinition.int (block : SignalBlockDefinition R) (index : Nat) : Int :=
  block.intParameters.getD index 0

def stateWidthFor (block : SignalBlockDefinition R) : Except Exception Nat :=
  if !isContinuous block.kind && !isDiscreteState block.kind then .ok 0
  else if block.kind = .stateSpaceContinuous ∨ block.kind = .stateSpaceDiscrete then
    if block.intParameters.length ≠ 1 ∨ block.int 0 < 1 ∨ block.int 0 > 24 then
      .error (.invalidArgument ("realizacao de espaco de estados exige de 1 a 24 estados: " ++ block.id))
    else .ok (block.int 0).toNat
  else if block.kind = .discreteTransferFunction then
    if block.intParameters.length ≠ 2 ∨ block.int 1 < 2 then .ok 0
    else if 2 * (block.int 1 - 1) > 65535 then
      .error (.invalidArgument ("ordem do controlador discreto excede o limite do bloco: " ++ block.id))
    else .ok (2 * (block.int 1 - 1)).toNat
  else
    let copies := if block.kind = .secondOrder then 2 else if block.kind = .pid then 4 else 1
    .ok (block.output.type.width * copies % 65536)

def secondsToNanoseconds (seconds : R) (blockId : String) : Except Exception Nat :=
  if !isFinite seconds || lt seconds 0.0 || lt (ofUnsigned 18446744073709551615 * 1e-9) seconds then
    .error (.invalidArgument ("atraso invalido no bloco: " ++ blockId))
  else .ok (round (seconds * 1e9)).toNat

/-- One check: the text ends with the block's identifier. -/
def require (block : SignalBlockDefinition R) (what : String) (holds : Bool) : Except Exception Unit :=
  if holds then .ok () else .error (.invalidArgument (what ++ block.id))

def validateKernelBlock (findKernel : String → Option (KernelSpec R)) (block : SignalBlockDefinition R) :
    Except Exception Unit := do
  throwIf (findKernel block.kernel).isNone
    (.invalidArgument ("kernel desconhecido '" ++ block.kernel ++ "' no bloco: " ++ block.id))
  require block "bloco Kernel exige saida Real: " (block.output.type.scalar = .real)
  require block "bloco Kernel exige entradas Real: " (block.inputs.all fun input => input.type.scalar = .real)
  require block "bloco continuo nao tem deslocamento: " (!block.rate.continuous || block.rate.offsetNs = 0)

def validatePorts (block : SignalBlockDefinition R) (maxWidth : Nat) :
    List String → List SignalPortDefinition → Except Exception Unit
  | _, [] => .ok ()
  | ports, input :: inputs => do
    require block "porta de entrada invalida/duplicada no bloco: " (input.id ≠ "" && input.id ∉ ports)
    require block "largura de vetor invalida no bloco: " (input.type.width ≠ 0 && input.type.width ≤ maxWidth)
    let _ : UnitInfo R ← unitInfo input.unit
    validatePorts block maxWidth (input.id :: ports) inputs

/-- The number of parameters of the output's scalar type. -/
def parameterCount (block : SignalBlockDefinition R) : Nat :=
  match block.output.type.scalar with
  | .real => block.realParameters.length
  | .int64 => block.intParameters.length
  | .bool => block.boolParameters.length

def validateStatic (block : SignalBlockDefinition R) : Except Exception Unit := do
  let count := block.inputs.length
  let is (kinds : List SignalBlockKind) : Bool := block.kind ∈ kinds
  let sameAsOutput (input : Nat) : Bool := block.inputs[input]?.all fun port => port.type = block.output.type
  require block "Source/ExternalInput nao aceita entradas: " (!is [.source, .externalInput] || count = 0)
  require block "bloco exige exatamente uma entrada: " (!is [.gain, .limiter, .probe] || count = 1)
  require block "bloco exige ao menos uma entrada: " (!is [.sum, .product] || count ≠ 0)
  require block "Selector exige condicao, verdadeiro e falso: " (!is [.selector] || count = 3)
  require block "CalcExpression exige saida Real: " (!is [.calcExpression] || block.output.type.scalar = .real)
  require block "primeira entrada de Selector deve ser Bool: "
    (!is [.selector] || block.inputs.head?.all fun port => port.type.scalar = .bool)
  require block "Probe exige entrada e saida do mesmo tipo: " (!is [.probe] || sameAsOutput 0)
  require block "Selector exige vetores de mesma largura/tipo: "
    (!is [.selector] || (block.inputs.head?.all fun port => port.type.width = block.output.type.width) &&
      sameAsOutput 1 && sameAsOutput 2)
  require block "operacao numerica nao aceita Bool: "
    (!is [.gain, .sum, .product, .limiter] || block.output.type.scalar ≠ .bool)
  require block "operacao numerica exige portas do mesmo tipo: "
    (!is [.gain, .sum, .product, .limiter] || block.inputs.all fun port => port.type = block.output.type)
  require block "CalcExpression exige entradas Real da largura da saida: "
    (!is [.calcExpression] || block.inputs.all fun port =>
      port.type.scalar = .real && port.type.width = block.output.type.width)
  require block "Source/ExternalInput exige um valor escalar ou um por elemento: "
    (!is [.source, .externalInput] || parameterCount block = 1 ||
      parameterCount block = block.output.type.width)
  require block "Gain exige um parametro: " (!is [.gain] || parameterCount block = 1)
  require block "Limiter exige limites minimo e maximo: " (!is [.limiter] || parameterCount block = 2)
  require block "Limiter exige minimo <= maximo: "
    (!is [.limiter] || !(if block.output.type.scalar = .real then lt (block.real 1) (block.real 0)
      else block.int 0 > block.int 1))

def validateDiscreteTransferFunction (block : SignalBlockDefinition R) : Except Exception Unit := do
  let real1 : SignalDataType := ⟨.real, 1⟩
  require block "funcao discreta exige uma entrada e uma saida Real escalar: "
    (block.inputs.length = 1 && block.output.type = real1 && block.inputs.all fun port => port.type = real1)
  require block "coeficientes invalidos na funcao discreta: "
    (block.intParameters.length = 2 && block.int 0 ≥ 1 && block.int 1 ≥ 2 && block.int 0 ≤ block.int 1 &&
      ((block.realParameters.length : Int) = block.int 0 + block.int 1 ||
        (block.realParameters.length : Int) = block.int 0 + block.int 1 + 2 * (block.int 1 - 1)))
  require block "funcao discreta exige coeficientes finitos e denominador nao nulo: "
    (!eq (block.real (block.int 0).toNat) 0.0 && block.realParameters.all isFinite)

def validateStateSpace (block : SignalBlockDefinition R) : Except Exception Unit := do
  let real1 : SignalDataType := ⟨.real, 1⟩
  require block "espaco de estados exige de 1 a 24 estados: "
    (block.intParameters.length = 1 && block.int 0 ≥ 1 && block.int 0 ≤ 24)
  let n := (block.int 0).toNat
  require block "matrizes SISO A/B/C/D invalidas no bloco: "
    (block.inputs.length = 1 && block.output.type = real1 && (block.inputs.all fun port => port.type = real1) &&
      (block.realParameters.length = n * n + 2 * n + 1 || block.realParameters.length = n * n + 3 * n + 1) &&
        block.realParameters.all isFinite)

def validatePidPorts (block : SignalBlockDefinition R) : Except Exception Unit := do
  require block "PID exige entradas SP/PV e, opcionalmente, A/M e L/R: "
    (block.inputs.length = 2 || block.inputs.length = 4)
  require block "PID exige saida Real: " (block.output.type.scalar = .real)
  require block "PID exige entradas Real da largura da saida: "
    (block.inputs.all fun port => port.type = block.output.type)

def validateDynamic (block : SignalBlockDefinition R) (inputs : Nat) : Except Exception Unit := do
  require block "quantidade de entradas invalida no bloco dinamico: " (block.inputs.length = inputs)
  require block "bloco dinamico exige saida Real: " (block.output.type.scalar = .real)
  require block "bloco dinamico exige entradas Real da largura da saida: "
    (block.inputs.all fun port => port.type = block.output.type)
  require block "parametros insuficientes no bloco dinamico: "
    (block.realParameters.length ≥ minimumParameterCount block.kind)

def validateAccumulator (block : SignalBlockDefinition R) : Except Exception Unit := do
  require block "Accumulator exige initial, lower, upper e as flags de entrada: "
    (block.realParameters.length ≥ minimumParameterCount block.kind)
  let expected := 2 + (if !eq (block.real 3) 0.0 then 1 else 0) + (if !eq (block.real 4) 0.0 then 1 else 0)
  require block "Accumulator exige entradas in, outflow e as fronteiras declaradas: "
    (block.inputs.length = expected)
  require block "Accumulator exige saida Real de largura 17: " (block.output.type = ⟨.real, accumulatorWidth⟩)
  require block "Accumulator exige entradas Real escalares: " (block.inputs.all fun port => port.type = ⟨.real, 1⟩)
  require block "Accumulator exige lower < upper: "
    (!isNaN (block.real 0) && !isNaN (block.real 1) && !isNaN (block.real 2) && lt (block.real 1) (block.real 2))

def validateElement (block : SignalBlockDefinition R) : Except Exception Unit := do
  require block "Element exige uma entrada Real: "
    (block.inputs.length = 1 && block.inputs.all fun port => port.type.scalar = .real)
  require block "Element exige saida Real escalar: " (block.output.type = ⟨.real, 1⟩)
  let index := block.realParameters.head?.getD (-1.0)
  let width : R := ofUnsigned ((block.inputs.head?.map fun port => port.type.width).getD 0)
  require block "Element exige indice inteiro dentro do vetor de entrada: "
    (le 0.0 index && eq index (floor index) && !le width index)

/-- The bounds on the parameters of single kinds. -/
def validateParameters (block : SignalBlockDefinition R) : Except Exception Unit := do
  let is (kinds : List SignalBlockKind) : Bool := block.kind ∈ kinds
  let p := block.real
  require block "atraso exige historyCapacity >= 2: " (!is [.deadTime, .fopdt] || block.historyCapacity ≥ 2)
  require block "Saturation exige minimo <= maximo: " (!is [.saturation] || !lt (p 1) (p 0))
  require block "Deadband exige largura nao negativa: " (!is [.deadband] || !lt (p 0) 0.0)
  require block "Hysteresis exige limiar baixo <= alto: " (!is [.hysteresis] || !lt (p 1) (p 0))
  require block "Stiction exige 0 <= slip <= breakaway: "
    (!is [.stiction] || !lt (p 0) 0.0 && !lt (p 1) 0.0 && !lt (p 0) (p 1))
  require block "RateLimiter exige taxas nao negativas: " (!is [.rateLimiter] || !lt (p 0) 0.0 && !lt (p 1) 0.0)
  require block "PID possui Ti/Td/filtro/limites/acao invalidos: "
    (!is [.pid] || !lt (p 1) 0.0 && !lt (p 2) 0.0 && !(lt 0.0 (p 2) && !lt 0.0 (p 4)) && !lt (p 6) (p 5) &&
      !eq (p 7) 0.0)

def validateBlock (findKernel : String → Option (KernelSpec R)) (block : SignalBlockDefinition R)
    (maxWidth : Nat) : Except Exception Unit := do
  throwIf (block.id = "") (.invalidArgument "bloco de sinal exige id")
  require block "saida de sinal exige id: " (block.output.id ≠ "")
  require block "largura de vetor invalida no bloco: "
    (block.output.type.width ≠ 0 && block.output.type.width ≤ maxWidth)
  require block "periodo de RateGroup deve ser positivo: " (block.rate.periodNs ≠ 0 || block.kind = .kernel)
  if block.kind = .kernel then validateKernelBlock findKernel block
  let _ : UnitInfo R ← unitInfo block.output.unit
  validatePorts block maxWidth [] block.inputs
  validateStatic block
  if block.kind = .discreteTransferFunction then validateDiscreteTransferFunction block
  if block.kind = .stateSpaceContinuous ∨ block.kind = .stateSpaceDiscrete then validateStateSpace block
  if block.kind = .pid then validatePidPorts block
  if let some inputs := expectedInputCount block.kind then validateDynamic block inputs
  require block "constante de tempo deve ser positiva: "
    (!(block.kind ∈ [.filteredDerivative, .firstOrder, .fopdt]) || lt 0.0 (block.real 1))
  require block "SecondOrder exige frequencia positiva e amortecimento nao negativo: "
    (block.kind ≠ .secondOrder || lt 0.0 (block.real 1) && !lt (block.real 2) 0.0)
  require block "LeadLag exige constantes de tempo validas: "
    (block.kind ≠ .leadLag || lt 0.0 (block.real 2) && !lt (block.real 1) 0.0)
  if block.kind = .accumulator then validateAccumulator block
  if block.kind = .element then validateElement block
  validateParameters block

end LasecSimul.Signal
