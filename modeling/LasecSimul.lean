import LasecSimul.Base.Binary64
import LasecSimul.Calculus.MassBalance
import LasecSimul.Calculus.Substitution
import LasecSimul.Drawing.CoreSync
import LasecSimul.Drawing.Joining
import LasecSimul.Drawing.Routing
import LasecSimul.Drawing.Settling
import LasecSimul.Hart.Addressing
import LasecSimul.Hart.AssignmentTable
import LasecSimul.Hart.CommandProgram
import LasecSimul.Hart.DateTime
import LasecSimul.Hart.References
import LasecSimul.Hart.SynchronousActions
import LasecSimul.Hart.Transfer
import LasecSimul.Hart.Transport
import LasecSimul.Hart.Trends
import LasecSimul.Hart.TypeCodec
import LasecSimul.Ipc.Conservation
import LasecSimul.Kernels.DiscreteIntegrator
import LasecSimul.Kernels.Filters
import LasecSimul.Kernels.IntegerDelay
import LasecSimul.Kernels.NoJump
import LasecSimul.Kernels.Prelookup
import LasecSimul.Kernels.PropagationDelay
import LasecSimul.Lib.Fold
import LasecSimul.Mcu.ElectricalI2cRuns
import LasecSimul.Mcu.LockstepTime
import LasecSimul.Mcu.QemuArenaRuns
import LasecSimul.Mna.CircuitGroup
import LasecSimul.Mna.FloatingGauge
import LasecSimul.Plan.Incremental
import LasecSimul.Plan.PlanCompiler
import LasecSimul.Plc.Reply
import LasecSimul.Plc.SfcLowering
import LasecSimul.Protocol.Modbus
import LasecSimul.Recording.Accounting
import LasecSimul.Scheduling.Dirty
import LasecSimul.Scheduling.ExactlyOnce
import LasecSimul.Scheduling.SparseArrays
import LasecSimul.Scheduling.Termination
import LasecSimul.Session.FastPath
import LasecSimul.Session.LibraryInference
import LasecSimul.Session.PauseCondition
import LasecSimul.Signal.Accumulator
import LasecSimul.Signal.AlgebraicLoop
import LasecSimul.Signal.Continuous
import LasecSimul.Signal.DelayLine
import LasecSimul.Signal.Layout
import LasecSimul.Signal.Postfix
import LasecSimul.Signal.TwoPhase
import LasecSimul.Subsystems.Hoisted
import LasecSimul.Vnext.SafeTime
import LasecSimul.Vnext.WaitDispatcher
import LasecSimul.Vnext.WakeUps
import LasecSimul.Wiring.Atomic
import LasecSimul.Wiring.History
import LasecSimul.Wiring.Tiling
import LasecSimul.Wiring.Transaction
import Mathlib.Algebra.GroupWithZero.Nat
import Mathlib.Data.List.Basic
import Mathlib.Data.List.GetD
import Mathlib.Data.List.Nodup
import Mathlib.Data.List.Perm.Subperm
