import LasecSimul.Lib.Sweep
import LasecSimul.Signal.Definition
import Mathlib.Data.List.Forall2

/-!
# Inferred widths and rates (`SimulationSession.cpp`)

A block of the library takes its widths and its sample rate from what drives its inputs, behind any tunnels. The
inference recomputes the blocks in place, pass after pass, and looks for a driver at most 33 steps away.
-/

namespace LasecSimul.Session

open Lib.Sweep
open Signal (SignalRate kConstantSamplePeriodNs)

structure SignalEndpoint where
  component : Nat
  port : String
  deriving DecidableEq

inductive RateKind where
  | inherited | continuous | constant | discrete
  deriving DecidableEq

structure DeclaredRate where
  kind : RateKind := .inherited
  periodNs : Nat := 0
  offsetNs : Nat := 0
  deriving DecidableEq

def toSignalRate (rate : DeclaredRate) : SignalRate :=
  match rate.kind with
  | .continuous => { periodNs := 0, offsetNs := 0, phase := 0 }
  | .discrete => { periodNs := rate.periodNs, offsetNs := rate.offsetNs, phase := 0 }
  | .constant | .inherited => { periodNs := kConstantSamplePeriodNs, offsetNs := 0, phase := 0 }

/-- What `producerRate` tells apart among the components that are no blocks of the library. -/
inductive OtherComponent where
  | signalMath (samplePeriodNs : Nat)
  | electricalBridge
  | plain

/-- The signal wires of a session, with the blocks of `libraryInfo` in the order in which the map yields them. -/
structure SignalDiagram where
  libraryInfo : List Nat
  nodup : libraryInfo.Nodup
  inputs : Nat → List String
  outputs : Nat → List String
  others : Nat → OtherComponent := fun _ => .plain
  wires : List (SignalEndpoint × SignalEndpoint)
  signalPorts : Nat → List String
  isTunnelComponent : Nat → Bool := fun _ => false
  tunnelNetPeers : Nat → List Nat := fun _ => []

inductive BuildError where
  | invalidArgument (what : String)
  | other (what : String)

/-- The blocks of the library: what each declares, and the builder that sizes its outputs. -/
structure BlockRules where
  declared : Nat → DeclaredRate
  builder : Nat → List UInt16 → SignalRate → Except BuildError (List UInt16)

/-- What `LibraryInfo` keeps between two passes. -/
structure LibraryInfo where
  inputWidths : List UInt16
  rate : DeclaredRate
  outputWidths : List UInt16
  deriving DecidableEq

abbrev Resolutions := Nat → LibraryInfo

namespace SignalDiagram

variable (D : SignalDiagram)

def findSignalPort (e : SignalEndpoint) : Bool :=
  e.port ∈ D.signalPorts e.component

/-- The last wire to an endpoint is the one that stays in the map. -/
def sourceOf (e : SignalEndpoint) : Option SignalEndpoint :=
  (D.wires.reverse.find? fun wire => D.findSignalPort wire.1 && D.findSignalPort wire.2 && wire.2 == e).map (·.1)

/-- The search goes on at a tunnel of the same name when a wire reaches it. -/
def peerProducer (search : SignalEndpoint → Option SignalEndpoint) (peer : Nat) : Option SignalEndpoint :=
  match (D.signalPorts peer).head? with
  | none => none
  | some port => if (D.sourceOf ⟨peer, port⟩).isSome then search ⟨peer, port⟩ else none

/-- `producerOf`, with the number of endpoints that it may still look at. -/
def producerOf : Nat → SignalEndpoint → Option SignalEndpoint
  | 0, _ => none
  | depth + 1, e =>
    match D.sourceOf e with
    | some source => if D.isTunnelComponent source.component then producerOf depth source else some source
    | none =>
      if D.isTunnelComponent e.component then
        (D.tunnelNetPeers e.component).findSome? (D.peerProducer (producerOf depth))
      else none

/-- `depth > 32` ends the search. -/
def producer (e : SignalEndpoint) : Option SignalEndpoint :=
  D.producerOf 33 e

def producerRate (s : Resolutions) (producer : SignalEndpoint) : DeclaredRate :=
  if producer.component ∈ D.libraryInfo then (s producer.component).rate
  else
    match D.others producer.component with
    | .signalMath samplePeriodNs => { kind := .discrete, periodNs := samplePeriodNs }
    | .electricalBridge => { kind := .continuous }
    | .plain => { kind := .discrete, periodNs := 1000000 }

def producerWidth (s : Resolutions) (producer : SignalEndpoint) : UInt16 :=
  if producer.component ∈ D.libraryInfo then
    match (D.outputs producer.component).idxOf? producer.port with
    | none => 1
    | some port => (s producer.component).outputWidths.getD port 1
  else 1

/-- The width of an input with this driver. -/
def widthFrom (s : Resolutions) (driver : Option SignalEndpoint) : UInt16 :=
  driver.elim 1 (D.producerWidth s)

/-- The loop of `combineInherited` over the rates of the producers. -/
def combineRates (result : DeclaredRate) : List DeclaredRate → DeclaredRate
  | [] => result
  | rate :: rates =>
    match rate.kind with
    | .constant | .inherited => combineRates result rates
    | .continuous => rate
    | .discrete =>
      combineRates (if result.kind ≠ .discrete ∨ rate.periodNs < result.periodNs then rate else result) rates

/-- The rate of a block with these drivers. -/
def rateFrom (s : Resolutions) (drivers : List (Option SignalEndpoint)) : DeclaredRate :=
  combineRates { kind := .constant } (drivers.filterMap (Option.map (D.producerRate s)))

/-- The producers that the passes find for the inputs of a block. -/
def producers (b : Nat) : List (Option SignalEndpoint) :=
  (D.inputs b).map fun port => D.producer ⟨b, port⟩

variable (rules : BlockRules)

/-- `LibraryBlock::outputWidths`. -/
def outputWidths (b : Nat) (inputWidths : List UInt16) (rate : DeclaredRate) :
    Except BuildError (List UInt16) := do
  let widths ← rules.builder b inputWidths (toSignalRate rate)
  return (widths ++ List.replicate (D.outputs b).length 1).take (D.outputs b).length

def inferredRate (s : Resolutions) (b : Nat) : DeclaredRate :=
  if (rules.declared b).kind = .inherited then D.rateFrom s (D.producers b) else (s b).rate

/-- The body of a pass for one block, with the flag `changed`. -/
def inferBlock (final : Bool) (state : Resolutions × Bool) (b : Nat) : Except BuildError (Resolutions × Bool) :=
  let (s, changed) := state
  let inputWidths := (D.producers b).map (D.widthFrom s)
  let rate := D.inferredRate rules s b
  let changed := changed || inputWidths != (s b).inputWidths || rate != (s b).rate
  match D.outputWidths rules b inputWidths rate with
  | .ok widths =>
    .ok (Function.update s b ⟨inputWidths, rate, widths⟩, changed || widths != (s b).outputWidths)
  | .error (.invalidArgument what) =>
    if final then .error (.invalidArgument what)
    else .ok (Function.update s b ⟨inputWidths, rate, (s b).outputWidths⟩, changed)
  | .error (.other what) => .error (.other what)

def inferPass (final : Bool) (s : Resolutions) : Except BuildError (Resolutions × Bool) :=
  D.libraryInfo.foldlM (D.inferBlock rules final) (s, false)

/-- The passes before the last, which follows at once when one of them changes nothing. -/
def inferPasses : Nat → Resolutions → Except BuildError Resolutions
  | 0, s => return (← D.inferPass rules true s).1
  | passes + 1, s => do
    let (next, changed) ← D.inferPass rules false s
    if changed then inferPasses passes next else return (← D.inferPass rules true next).1

def initial : Resolutions := fun b =>
  { inputWidths := (D.inputs b).map fun _ => 1
    rate := if (rules.declared b).kind = .inherited then { rules.declared b with kind := .constant }
      else rules.declared b
    outputWidths := (D.outputs b).map fun _ => 1 }

def infer : Except BuildError Resolutions :=
  D.inferPasses rules 32 (D.initial rules)

/-- The driver of an endpoint, found however far away it is. -/
def Driver (e : SignalEndpoint) (driver : Option SignalEndpoint) : Prop :=
  ∃ enough, ∀ depth ≥ enough, D.producerOf depth e = driver

def Drivers (b : Nat) (drivers : List (Option SignalEndpoint)) : Prop :=
  List.Forall₂ (fun port driver => D.Driver ⟨b, port⟩ driver) (D.inputs b) drivers

/-- Every block has the widths and the rate that its drivers give it. -/
structure FixedPoint (s : Resolutions) : Prop where
  inputWidths : ∀ b ∈ D.libraryInfo, ∀ drivers, D.Drivers b drivers →
    (s b).inputWidths = drivers.map (D.widthFrom s)
  outputWidths : ∀ b ∈ D.libraryInfo,
    D.outputWidths rules b (s b).inputWidths (s b).rate = .ok (s b).outputWidths
  rate : ∀ b ∈ D.libraryInfo, (rules.declared b).kind = .inherited → ∀ drivers, D.Drivers b drivers →
    (s b).rate = D.rateFrom s drivers

/-- No signal comes back to where it starts. Tunnels of one name are one place. -/
def Acyclic : Prop :=
  ∃ level : Nat → Nat,
    (∀ e source, D.sourceOf e = some source → level source.component < level e.component) ∧
    ∀ tunnel, ∀ peer ∈ D.tunnelNetPeers tunnel, level peer ≤ level tunnel

/-- Every wire starts at a tunnel or at an output of a block of the library. -/
def LibraryOnly : Prop :=
  ∀ e source, D.sourceOf e = some source → D.isTunnelComponent source.component = false →
    source.component ∈ D.libraryInfo ∧ source.port ∈ D.outputs source.component

/-- What the passes find is the driver. -/
def Shallow : Prop :=
  ∀ b ∈ D.libraryInfo, ∀ port ∈ D.inputs b, D.Driver ⟨b, port⟩ (D.producer ⟨b, port⟩)

def Feeds (d b : Nat) : Prop :=
  ∃ port ∈ D.inputs b, ∃ driver, D.Driver ⟨b, port⟩ (some driver) ∧ driver.component = d

/-- No path of blocks goes against the order of the map more often than 32 times. -/
def InOrder : Prop :=
  ∀ b n, Chain D.libraryInfo D.Feeds n b → n ≤ 32

variable {D rules} {s t : Resolutions} {b d : Nat} {e : SignalEndpoint}

/-- A block recomputed. Widths that its builder refuses leave its outputs as they are. -/
def resolve (D : SignalDiagram) (rules : BlockRules) (s : Resolutions) (b : Nat) : LibraryInfo :=
  let inputWidths := (D.producers b).map (D.widthFrom s)
  let rate := D.inferredRate rules s b
  { inputWidths, rate
    outputWidths := ((D.outputWidths rules b inputWidths rate).toOption).getD (s b).outputWidths }

/-- The widths of the outputs are those that the builder gives. -/
def Built (D : SignalDiagram) (rules : BlockRules) (s : Resolutions) (b : Nat) : Prop :=
  D.outputWidths rules b (s b).inputWidths (s b).rate = .ok (s b).outputWidths

theorem inferBlock_ok {final changed changed' : Bool}
    (h : D.inferBlock rules final (s, changed) b = .ok (t, changed')) :
    t = visit (D.resolve rules) s b ∧ (changed' = false → changed = false ∧ t = s) ∧
      (final = true → D.Built rules t b) := by
  unfold inferBlock at h
  dsimp only at h
  have unchanged {widths : List UInt16} (inputs : (D.producers b).map (D.widthFrom s) = (s b).inputWidths)
      (rate : D.inferredRate rules s b = (s b).rate) (outputs : widths = (s b).outputWidths) :
      Function.update s b ⟨(D.producers b).map (D.widthFrom s), D.inferredRate rules s b, widths⟩ = s := by
    rw [inputs, rate, outputs]
    exact Function.update_eq_self b s
  split at h
  · rename_i widths result
    obtain ⟨rfl, rfl⟩ := Prod.mk.inj (Except.ok.inj h)
    refine ⟨by simp [visit, resolve, result, Except.toOption], ?_, fun _ => ?_⟩
    · intro same
      simp only [Bool.or_eq_false_iff, bne_eq_false_iff_eq] at same
      obtain ⟨⟨⟨changed, inputs⟩, rate⟩, outputs⟩ := same
      exact ⟨changed, unchanged inputs rate outputs⟩
    · rw [Built, Function.update_self]
      exact result
  · rename_i what result
    split at h
    · cases h
    · rename_i notFinal
      obtain ⟨rfl, rfl⟩ := Prod.mk.inj (Except.ok.inj h)
      refine ⟨by simp [visit, resolve, result, Except.toOption], ?_, fun isFinal => absurd isFinal notFinal⟩
      intro same
      simp only [Bool.or_eq_false_iff, bne_eq_false_iff_eq] at same
      exact ⟨same.1.1, unchanged same.1.2 same.2 rfl⟩
  · cases h

theorem foldlM_inferBlock_ok {final : Bool} {blocks : List Nat} {changed changed' : Bool}
    (h : blocks.foldlM (D.inferBlock rules final) (s, changed) = .ok (t, changed')) :
    t = sweep (D.resolve rules) blocks s ∧ (changed' = false → changed = false ∧ t = s) := by
  induction blocks generalizing s changed with
  | nil =>
    obtain ⟨rfl, rfl⟩ := Prod.mk.inj (Except.ok.inj h)
    exact ⟨rfl, fun same => ⟨same, rfl⟩⟩
  | cons b blocks ih =>
    rw [List.foldlM_cons] at h
    cases step : D.inferBlock rules final (s, changed) b with
    | error error => rw [step] at h; cases h
    | ok next =>
      obtain ⟨u, flag⟩ := next
      rw [step] at h
      obtain ⟨visited, kept, -⟩ := inferBlock_ok step
      obtain ⟨swept, rest⟩ := ih h
      refine ⟨?_, fun same => ?_⟩
      · rw [swept, visited]
        rfl
      · obtain ⟨flagOff, sameRest⟩ := rest same
        obtain ⟨off, sameFirst⟩ := kept flagOff
        exact ⟨off, sameRest.trans sameFirst⟩

theorem foldlM_inferBlock_built {blocks : List Nat} {changed changed' : Bool}
    (h : blocks.foldlM (D.inferBlock rules true) (s, changed) = .ok (t, changed'))
    (known : b ∈ blocks ∨ D.Built rules s b) : D.Built rules t b := by
  induction blocks generalizing s changed with
  | nil =>
    obtain ⟨rfl, rfl⟩ := Prod.mk.inj (Except.ok.inj h)
    exact known.resolve_left List.not_mem_nil
  | cons c blocks ih =>
    rw [List.foldlM_cons] at h
    cases step : D.inferBlock rules true (s, changed) c with
    | error error => rw [step] at h; cases h
    | ok next =>
      obtain ⟨u, flag⟩ := next
      rw [step] at h
      obtain ⟨visited, -, built⟩ := inferBlock_ok step
      apply ih h
      by_cases same : b = c
      · subst same
        exact .inr (built rfl)
      · rcases known with member | before
        · exact .inl ((List.mem_cons.mp member).resolve_left same)
        · right
          rw [visited, Built, visit, Function.update_of_ne same]
          exact before

theorem inferPass_ok {final changed : Bool} (h : D.inferPass rules final s = .ok (t, changed)) :
    t = sweep (D.resolve rules) D.libraryInfo s ∧ (changed = false → t = s) :=
  ⟨(foldlM_inferBlock_ok h).1, fun same => ((foldlM_inferBlock_ok h).2 same).2⟩

theorem inferPass_built {changed : Bool} (h : D.inferPass rules true s = .ok (t, changed))
    (member : b ∈ D.libraryInfo) : D.Built rules t b :=
  foldlM_inferBlock_built h (.inl member)

/-- The sweeps of a run: some before the last, either all 32 or enough that the last one changes nothing. -/
theorem inferPasses_ok {passes : Nat} (h : D.inferPasses rules passes s = .ok t) :
    ∃ n ≤ passes, (0 < passes → 0 < n) ∧ t = sweeps (D.resolve rules) D.libraryInfo s (n + 1) ∧
      (∀ b ∈ D.libraryInfo, D.Built rules t b) ∧
      (n = passes ∨ t = sweeps (D.resolve rules) D.libraryInfo s n) := by
  induction passes generalizing s with
  | zero =>
    simp only [inferPasses, bind, Except.bind, pure, Except.pure] at h
    split at h
    · cases h
    · rename_i result last
      obtain ⟨u, flag⟩ := result
      obtain rfl := Except.ok.inj h
      exact ⟨0, Nat.le_refl 0, id, (inferPass_ok last).1, fun b => inferPass_built last, .inl rfl⟩
  | succ passes ih =>
    simp only [inferPasses, bind, Except.bind, pure, Except.pure] at h
    split at h
    · cases h
    · rename_i result first
      obtain ⟨u, flag⟩ := result
      obtain ⟨swept, unchanged⟩ := inferPass_ok first
      dsimp only at h
      split at h
      · obtain ⟨n, bound, -, run, built, final⟩ := ih h
        have step (m : Nat) : sweeps (D.resolve rules) D.libraryInfo u m
            = sweeps (D.resolve rules) D.libraryInfo s (m + 1) := by
          rw [swept]
          exact (Function.iterate_succ_apply _ _ _).symm
        refine ⟨n + 1, by omega, fun _ => by omega, by rw [run, step], built, ?_⟩
        rcases final with rfl | same
        · exact .inl rfl
        · exact .inr (same.trans (step n))
      · rename_i off
        split at h
        · cases h
        · rename_i result last
          obtain ⟨v, flag'⟩ := result
          obtain rfl := Except.ok.inj h
          obtain rfl := unchanged (by simpa using off)
          obtain ⟨again, -⟩ := inferPass_ok last
          have same : v = u := again.trans swept.symm
          refine ⟨1, by omega, fun _ => Nat.one_pos, ?_, fun b => inferPass_built last, .inr ?_⟩
          · rw [sweeps_succ, sweeps_succ, sweeps_zero, ← swept]
            exact again
          · rw [sweeps_succ, sweeps_zero, ← swept]
            exact same

/-- The blocks that a pass reads for a block. -/
def Reads (D : SignalDiagram) (d b : Nat) : Prop :=
  ∃ port ∈ D.inputs b, ∃ driver, D.producer ⟨b, port⟩ = some driver ∧ driver.component = d

theorem producerWidth_congr {driver : SignalEndpoint} (same : t driver.component = s driver.component) :
    D.producerWidth t driver = D.producerWidth s driver := by
  simp only [producerWidth, same]

theorem producerRate_congr {driver : SignalEndpoint} (same : t driver.component = s driver.component) :
    D.producerRate t driver = D.producerRate s driver := by
  simp only [producerRate, same]

theorem map_widthFrom_congr {drivers : List (Option SignalEndpoint)}
    (same : ∀ driver, some driver ∈ drivers → t driver.component = s driver.component) :
    drivers.map (D.widthFrom t) = drivers.map (D.widthFrom s) := by
  apply List.map_congr_left
  intro driver member
  cases driver with
  | none => rfl
  | some driver => exact producerWidth_congr (same driver member)

theorem rateFrom_congr {drivers : List (Option SignalEndpoint)}
    (same : ∀ driver, some driver ∈ drivers → t driver.component = s driver.component) :
    D.rateFrom t drivers = D.rateFrom s drivers := by
  unfold rateFrom
  congr 1
  apply List.filterMap_congr
  intro driver member
  cases driver with
  | none => rfl
  | some driver => exact congrArg some (producerRate_congr (same driver member))

theorem reads_of_mem_producers {driver : SignalEndpoint} (member : some driver ∈ D.producers b) :
    D.Reads driver.component b := by
  obtain ⟨port, declared, found⟩ := List.mem_map.mp member
  exact ⟨port, declared, driver, found, rfl⟩

theorem resolve_settles : Settles (D.resolve rules) D.Reads := by
  intro s t b same own
  have drivers : ∀ driver, some driver ∈ D.producers b → t driver.component = s driver.component :=
    fun driver member => same _ (reads_of_mem_producers member)
  have widths := map_widthFrom_congr (D := D) drivers
  have rate : D.inferredRate rules t b = D.inferredRate rules s b := by
    by_cases inherited : (rules.declared b).kind = .inherited
    · rw [inferredRate, inferredRate, if_pos inherited, if_pos inherited, rateFrom_congr drivers]
    · rw [inferredRate, if_neg inherited, own]
      rfl
  unfold resolve
  dsimp only
  rw [widths, rate, own]
  unfold resolve
  dsimp only
  cases D.outputWidths rules b ((D.producers b).map (D.widthFrom s)) (D.inferredRate rules s b) with
  | ok widths => rfl
  | error error => rfl

theorem Driver.unique {driver driver' : Option SignalEndpoint} (h : D.Driver e driver)
    (h' : D.Driver e driver') : driver = driver' := by
  obtain ⟨enough, far⟩ := h
  obtain ⟨enough', far'⟩ := h'
  rw [← far (max enough enough') (Nat.le_max_left _ _), far' (max enough enough') (Nat.le_max_right _ _)]

theorem Drivers.unique {drivers drivers' : List (Option SignalEndpoint)} (h : D.Drivers b drivers)
    (h' : D.Drivers b drivers') : drivers = drivers' := by
  have functional : Relator.RightUnique fun port driver => D.Driver ⟨b, port⟩ driver :=
    fun _ _ _ left right => left.unique right
  exact functional.forall₂ h h'

theorem Drivers.found {drivers : List (Option SignalEndpoint)} (h : D.Drivers b drivers)
    {driver : SignalEndpoint} (member : some driver ∈ drivers) :
    ∃ port ∈ D.inputs b, D.Driver ⟨b, port⟩ (some driver) := by
  unfold Drivers at h
  generalize D.inputs b = ports at h ⊢
  induction h with
  | nil => cases member
  | cons found _ ih =>
    rcases List.mem_cons.mp member with rfl | member
    · exact ⟨_, List.mem_cons_self, found⟩
    · obtain ⟨port, declared, found⟩ := ih member
      exact ⟨port, List.mem_cons_of_mem _ declared, found⟩

theorem drivers_producers_iff :
    D.Drivers b (D.producers b) ↔ ∀ port ∈ D.inputs b, D.Driver ⟨b, port⟩ (D.producer ⟨b, port⟩) := by
  rw [Drivers, producers, List.forall₂_map_right_iff, List.forall₂_same]

theorem Shallow.drivers (shallow : D.Shallow) (member : b ∈ D.libraryInfo) : D.Drivers b (D.producers b) :=
  drivers_producers_iff.mpr (shallow b member)

theorem reads_iff_feeds (shallow : D.Shallow) (member : b ∈ D.libraryInfo) : D.Reads d b ↔ D.Feeds d b := by
  constructor
  · rintro ⟨port, declared, driver, found, rfl⟩
    exact ⟨port, declared, driver, found ▸ shallow b member port declared, rfl⟩
  · rintro ⟨port, declared, driver, found, rfl⟩
    exact ⟨port, declared, driver, (shallow b member port declared).unique found, rfl⟩

theorem chain_iff (shallow : D.Shallow) {n : Nat} :
    Chain D.libraryInfo D.Reads n b ↔ Chain D.libraryInfo D.Feeds n b :=
  chain_congr fun _ _ member => reads_iff_feeds shallow member

/-- In the last pass a block sees its drivers as they stay. -/
theorem infer_sees (shallow : D.Shallow) (inOrder : D.InOrder) (h : D.infer rules = .ok t) :
    ∃ s, t = sweep (D.resolve rules) D.libraryInfo s ∧
      ∀ b ∈ D.libraryInfo, ∀ d, D.Reads d b → seen D.libraryInfo s t b d = t d := by
  obtain ⟨n, -, -, run, -, final⟩ := inferPasses_ok h
  refine ⟨sweeps (D.resolve rules) D.libraryInfo (D.initial rules) n, by rw [run, sweeps_succ], ?_⟩
  intro b member d reads
  by_cases before : Before D.libraryInfo d b
  · exact seen_before before
  · rw [seen_not_before before]
    rcases final with rfl | same
    · by_cases within : d ∈ D.libraryInfo
      · rw [run]
        refine (sweeps_stable D.nodup resolve_settles within fun m chain => ?_).symm
        have bound := inOrder b _ ((chain_iff shallow).mp (chain.against reads member before))
        omega
      · rw [run, sweeps_of_not_mem within, sweeps_of_not_mem within]
    · rw [same]

theorem fixedPoint_of_infer (shallow : D.Shallow) (inOrder : D.InOrder) (h : D.infer rules = .ok s) :
    D.FixedPoint rules s := by
  obtain ⟨before, last, sees⟩ := infer_sees shallow inOrder h
  obtain ⟨-, -, -, -, built, -⟩ := inferPasses_ok h
  have block (b : Nat) (member : b ∈ D.libraryInfo) :
      s b = D.resolve rules (seen D.libraryInfo before s b) b := by
    have applied := sweep_apply (f := D.resolve rules) (s := before) D.nodup member
    rwa [← last] at applied
  have drivers (b : Nat) (member : b ∈ D.libraryInfo) :
      ∀ driver, some driver ∈ D.producers b →
        seen D.libraryInfo before s b driver.component = s driver.component :=
    fun driver listed => sees b member _ (reads_of_mem_producers listed)
  refine ⟨fun b member ds found => ?_, built, fun b member inherited ds found => ?_⟩
  · rw [found.unique (shallow.drivers member), block b member]
    exact map_widthFrom_congr (drivers b member)
  · rw [found.unique (shallow.drivers member), block b member]
    show D.inferredRate rules _ b = _
    rw [inferredRate, if_pos inherited]
    exact rateFrom_congr (drivers b member)

theorem findSome?_eventually {α β : Type} {f : Nat → α → Option β} {xs : List α}
    (each : ∀ x ∈ xs, ∃ y enough, ∀ depth ≥ enough, f depth x = y) :
    ∃ y enough, ∀ depth ≥ enough, xs.findSome? (f depth) = y := by
  induction xs with
  | nil => exact ⟨none, 0, fun _ _ => rfl⟩
  | cons x xs ih =>
    obtain ⟨first, near, atFirst⟩ := each x List.mem_cons_self
    obtain ⟨rest, far, atRest⟩ := ih fun x member => each x (List.mem_cons_of_mem _ member)
    refine ⟨first.or rest, near + far, fun depth deep => ?_⟩
    rw [List.findSome?_cons, atFirst depth (by omega), atRest depth (by omega)]
    cases first <;> rfl

theorem producerOf_source {source : SignalEndpoint} (h : D.sourceOf e = some source) (depth : Nat) :
    D.producerOf (depth + 1) e
      = if D.isTunnelComponent source.component then D.producerOf depth source else some source := by
  rw [producerOf, h]

theorem producerOf_noSource (h : D.sourceOf e = none) (depth : Nat) :
    D.producerOf (depth + 1) e
      = if D.isTunnelComponent e.component then
          (D.tunnelNetPeers e.component).findSome? (D.peerProducer (D.producerOf depth))
        else none := by
  rw [producerOf, h]

theorem driver_of_noSource (h : D.sourceOf e = none)
    (peers : ∀ peer ∈ D.tunnelNetPeers e.component, ∀ port source,
      D.sourceOf ⟨peer, port⟩ = some source → ∃ driver, D.Driver ⟨peer, port⟩ driver) :
    ∃ driver, D.Driver e driver := by
  by_cases tunnel : D.isTunnelComponent e.component
  · have each : ∀ peer ∈ D.tunnelNetPeers e.component, ∃ driver enough, ∀ depth ≥ enough,
        D.peerProducer (D.producerOf depth) peer = driver := by
      intro peer member
      unfold peerProducer
      cases (D.signalPorts peer).head? with
      | none => exact ⟨none, 0, fun _ _ => rfl⟩
      | some port =>
        cases source : D.sourceOf ⟨peer, port⟩ with
        | none => exact ⟨none, 0, fun _ _ => by simp [source]⟩
        | some source' =>
          obtain ⟨driver, enough, found⟩ := peers peer member port source' source
          exact ⟨driver, enough, fun depth deep => by simpa [source] using found depth deep⟩
    obtain ⟨driver, enough, found⟩ := findSome?_eventually each
    refine ⟨driver, enough + 1, fun depth deep => ?_⟩
    obtain ⟨depth, rfl⟩ := Nat.exists_eq_add_of_le' (show 1 ≤ depth by omega)
    rw [producerOf_noSource h, if_pos tunnel]
    exact found depth (by omega)
  · refine ⟨none, 1, fun depth deep => ?_⟩
    obtain ⟨depth, rfl⟩ := Nat.exists_eq_add_of_le' (show 1 ≤ depth by omega)
    rw [producerOf_noSource h, if_neg tunnel]

theorem driver_of_source (acyclic : D.Acyclic) {source : SignalEndpoint} (h : D.sourceOf e = some source) :
    ∃ driver, D.Driver e driver := by
  obtain ⟨level, down, flat⟩ := acyclic
  induction height : level e.component using Nat.strongRecOn generalizing e source with
  | _ n ih =>
    subst height
    have below := down e source h
    by_cases tunnel : D.isTunnelComponent source.component
    · have next : ∃ driver, D.Driver source driver := by
        cases origin : D.sourceOf source with
        | some origin' => exact ih _ below origin rfl
        | none =>
          apply driver_of_noSource origin
          intro peer member port source' fed
          have same := flat _ peer member
          exact ih _ (by show level peer < _; omega) fed rfl
      obtain ⟨driver, enough, found⟩ := next
      refine ⟨driver, enough + 1, fun depth deep => ?_⟩
      obtain ⟨depth, rfl⟩ := Nat.exists_eq_add_of_le' (show 1 ≤ depth by omega)
      rw [producerOf_source h, if_pos tunnel]
      exact found depth (by omega)
    · refine ⟨some source, 1, fun depth deep => ?_⟩
      obtain ⟨depth, rfl⟩ := Nat.exists_eq_add_of_le' (show 1 ≤ depth by omega)
      rw [producerOf_source h, if_neg tunnel]

theorem driver_exists (acyclic : D.Acyclic) (e : SignalEndpoint) : ∃ driver, D.Driver e driver := by
  cases h : D.sourceOf e with
  | some source => exact driver_of_source acyclic h
  | none => exact driver_of_noSource h fun _ _ _ _ fed => driver_of_source acyclic fed

theorem drivers_exist (acyclic : D.Acyclic) (b : Nat) : ∃ drivers, D.Drivers b drivers := by
  unfold Drivers
  induction D.inputs b with
  | nil => exact ⟨[], .nil⟩
  | cons port ports ih =>
    obtain ⟨driver, found⟩ := driver_exists acyclic ⟨b, port⟩
    obtain ⟨drivers, rest⟩ := ih
    exact ⟨driver :: drivers, .cons found rest⟩

/-- What every found producer has when each peer of a tunnel hands it on and each wire brings it. -/
theorem producerOf_induct {P : SignalEndpoint → SignalEndpoint → Prop}
    (direct : ∀ e source, D.sourceOf e = some source → D.isTunnelComponent source.component = false → P e source)
    (tunnel : ∀ e source found, D.sourceOf e = some source → P source found → P e found)
    (peer : ∀ e peer port found, peer ∈ D.tunnelNetPeers e.component → P ⟨peer, port⟩ found → P e found)
    {depth : Nat} {found : SignalEndpoint} (h : D.producerOf depth e = some found) : P e found := by
  induction depth generalizing e with
  | zero => cases h
  | succ depth ih =>
    cases source : D.sourceOf e with
    | some origin =>
      rw [producerOf_source source] at h
      split at h
      · exact tunnel e origin found source (ih h)
      · rename_i plain
        obtain rfl := Option.some.inj h
        exact direct e origin source (by simpa using plain)
    | none =>
      rw [producerOf_noSource source] at h
      split at h
      · obtain ⟨other, member, reached⟩ := List.exists_of_findSome?_eq_some h
        unfold peerProducer at reached
        split at reached
        · cases reached
        · split at reached
          · exact peer e other _ found member (ih reached)
          · cases reached
      · cases h

theorem producerOf_library (library : D.LibraryOnly) {depth : Nat} {found : SignalEndpoint}
    (h : D.producerOf depth e = some found) :
    found.component ∈ D.libraryInfo ∧ found.port ∈ D.outputs found.component :=
  producerOf_induct (P := fun _ found => found.component ∈ D.libraryInfo ∧ found.port ∈ D.outputs found.component)
    library (fun _ _ _ _ ih => ih) (fun _ _ _ _ _ ih => ih) h

theorem producerOf_level {level : Nat → Nat}
    (down : ∀ e source, D.sourceOf e = some source → level source.component < level e.component)
    (flat : ∀ tunnel, ∀ peer ∈ D.tunnelNetPeers tunnel, level peer ≤ level tunnel)
    {depth : Nat} {found : SignalEndpoint} (h : D.producerOf depth e = some found) :
    level found.component < level e.component :=
  producerOf_induct (P := fun e found => level found.component < level e.component)
    (fun e source fed _ => down e source fed)
    (fun e source _ fed ih => Nat.lt_trans ih (down e source fed))
    (fun _ peer _ _ member ih => Nat.lt_of_lt_of_le ih (flat _ peer member)) h

/-- The rules of blocks with constant rates and builders that never throw. -/
def plainRules (widths : Nat → List UInt16 → List UInt16) : BlockRules where
  declared := fun _ => { kind := .constant }
  builder := fun b inputWidths _ => .ok (widths b inputWidths)

theorem outputWidths_plainRules {widths : Nat → List UInt16 → List UInt16} {inputWidths : List UInt16}
    (rate : DeclaredRate) (fits : (widths b inputWidths).length = (D.outputs b).length) :
    D.outputWidths (plainRules widths) b inputWidths rate = .ok (widths b inputWidths) := by
  show Except.ok _ = _
  rw [← fits, List.take_left]

theorem inferBlock_plainRules (widths : Nat → List UInt16 → List UInt16) (final : Bool)
    (state : Resolutions × Bool) (b : Nat) :
    ∃ next, D.inferBlock (plainRules widths) final state b = .ok next :=
  ⟨_, rfl⟩

theorem inferPass_plainRules (widths : Nat → List UInt16 → List UInt16) (final : Bool) (s : Resolutions) :
    ∃ next, D.inferPass (plainRules widths) final s = .ok next := by
  unfold inferPass
  generalize (s, false) = state
  induction D.libraryInfo generalizing state with
  | nil => exact ⟨state, rfl⟩
  | cons b blocks ih =>
    obtain ⟨next, step⟩ := inferBlock_plainRules (D := D) widths final state b
    rw [List.foldlM_cons, step]
    exact ih next

theorem infer_plainRules (widths : Nat → List UInt16 → List UInt16) :
    ∃ s, D.infer (plainRules widths) = .ok s := by
  unfold infer
  generalize D.initial (plainRules widths) = s
  generalize 32 = passes
  induction passes generalizing s with
  | zero =>
    obtain ⟨last, ran⟩ := inferPass_plainRules (D := D) widths true s
    exact ⟨last.1, by simp only [inferPasses, ran]; rfl⟩
  | succ passes ih =>
    obtain ⟨⟨next, changed⟩, ran⟩ := inferPass_plainRules (D := D) widths false s
    cases changed with
    | true =>
      obtain ⟨t, rest⟩ := ih next
      exact ⟨t, by simp only [inferPasses, ran]; exact rest⟩
    | false =>
      obtain ⟨last, ran'⟩ := inferPass_plainRules (D := D) widths true next
      refine ⟨last.1, ?_⟩
      simp only [inferPasses, ran]
      show (do return (← D.inferPass _ true next).1) = _
      rw [ran']
      rfl

theorem resolve_plainRules {widths : Nat → List UInt16 → List UInt16}
    (fits : ∀ b inputWidths, (widths b inputWidths).length = (D.outputs b).length) (s : Resolutions) (b : Nat) :
    D.resolve (plainRules widths) s b
      = ⟨(D.producers b).map (D.widthFrom s), (s b).rate, widths b ((D.producers b).map (D.widthFrom s))⟩ := by
  simp only [resolve, outputWidths_plainRules _ (fits _ _), Except.toOption, Option.getD_some]
  rfl

theorem producerWidth_of_map {widths : String → UInt16} {found : SignalEndpoint}
    (listed : found.component ∈ D.libraryInfo) (declared : found.port ∈ D.outputs found.component)
    (outputs : (s found.component).outputWidths = (D.outputs found.component).map widths) :
    D.producerWidth s found = widths found.port := by
  rw [producerWidth, if_pos listed, outputs]
  cases position : (D.outputs found.component).idxOf? found.port with
  | none => exact absurd declared (List.idxOf?_eq_none_iff.mp position)
  | some port =>
    have here := (List.idxOf?_eq_some_iff.mp position)
    obtain ⟨inside, same, -⟩ := here
    simp [List.getD_eq_getElem?_getD, List.getElem?_map, List.getElem?_eq_getElem inside, same]

/-- One output of width two among outputs of width one. -/
def wideAt (D : SignalDiagram) (e : SignalEndpoint) : BlockRules :=
  plainRules fun b _ => (D.outputs b).map fun port => if (⟨b, port⟩ : SignalEndpoint) = e then 2 else 1

def WideAt (D : SignalDiagram) (e : SignalEndpoint) (s : Resolutions) : Prop :=
  ∀ b ∈ D.libraryInfo,
    (s b).outputWidths = (D.outputs b).map fun port => if (⟨b, port⟩ : SignalEndpoint) = e then 2 else 1

theorem map_widthFrom_wideAt (wide : D.WideAt e s) {drivers : List (Option SignalEndpoint)}
    (known : ∀ found, some found ∈ drivers →
      found.component ∈ D.libraryInfo ∧ found.port ∈ D.outputs found.component) :
    drivers.map (D.widthFrom s) = drivers.map fun driver => if driver = some e then 2 else 1 := by
  apply List.map_congr_left
  intro driver member
  cases driver with
  | none => rfl
  | some found =>
    obtain ⟨listed, declared⟩ := known found member
    rw [widthFrom, Option.elim_some, producerWidth_of_map listed declared (wide _ listed)]
    simp only [Option.some.injEq]

theorem sweep_wideAt (member : b ∈ D.libraryInfo) (s : Resolutions) :
    (sweep (D.resolve (D.wideAt e)) D.libraryInfo s b).outputWidths
      = (D.outputs b).map fun port => if (⟨b, port⟩ : SignalEndpoint) = e then 2 else 1 := by
  rw [sweep_apply D.nodup member, wideAt, resolve_plainRules fun _ _ => List.length_map _]

theorem eq_of_map_indicator {drivers drivers' : List (Option SignalEndpoint)}
    (same : ∀ e, drivers.map (fun driver => if driver = some e then (2 : UInt16) else 1)
      = drivers'.map fun driver => if driver = some e then 2 else 1) : drivers = drivers' := by
  induction drivers generalizing drivers' with
  | nil => exact (List.map_eq_nil_iff.mp (same ⟨0, ""⟩).symm).symm
  | cons driver drivers ih =>
    cases drivers' with
    | nil => cases same ⟨0, ""⟩
    | cons driver' drivers' =>
      simp only [List.map_cons, List.cons.injEq] at same
      rw [ih fun e => (same e).2]
      congr 1
      cases driver with
      | some found =>
        have here := (same found).1
        rw [if_pos rfl] at here
        by_contra different
        rw [if_neg (Ne.symm different)] at here
        cases here
      | none =>
        cases driver' with
        | none => rfl
        | some found =>
          have here := (same found).1
          rw [if_pos rfl] at here
          cases here

theorem shallow_of_fixedPoint (acyclic : D.Acyclic) (library : D.LibraryOnly)
    (fixed : ∀ rules s, D.infer rules = .ok s → D.FixedPoint rules s) : D.Shallow := by
  intro b member
  apply drivers_producers_iff.mp
  obtain ⟨drivers, found⟩ := drivers_exist acyclic b
  suffices drivers = D.producers b from this ▸ found
  apply eq_of_map_indicator
  intro e
  obtain ⟨s, ran⟩ := infer_plainRules (D := D)
    fun b _ => (D.outputs b).map fun port => if (⟨b, port⟩ : SignalEndpoint) = e then 2 else 1
  have point := fixed _ s ran
  obtain ⟨n, -, some, run, -, -⟩ := inferPasses_ok ran
  obtain ⟨n, rfl⟩ := Nat.exists_eq_add_of_le' (some (by omega))
  have wide : D.WideAt e s := fun c listed => by
    rw [run, sweeps_succ]
    exact sweep_wideAt listed _
  have wideBefore : D.WideAt e (seen D.libraryInfo
      (sweeps (D.resolve (D.wideAt e)) D.libraryInfo (D.initial (D.wideAt e)) (n + 1)) s b) := fun c listed => by
    unfold seen
    split
    · exact wide c listed
    · rw [sweeps_succ]
      exact sweep_wideAt listed _
  have seenWidths : (s b).inputWidths = (D.producers b).map fun driver => if driver = Option.some e then 2 else 1 := by
    rw [← map_widthFrom_wideAt wideBefore, run, sweeps_succ_apply D.nodup member, ← run]
    · rfl
    · intro source listed
      obtain ⟨port, -, found⟩ := List.mem_map.mp listed
      exact producerOf_library library found
  rw [← seenWidths, point.inputWidths b member drivers found]
  refine (map_widthFrom_wideAt wide fun source listed => ?_).symm
  obtain ⟨port, -, enough, reach⟩ := found.found listed
  exact producerOf_library library (reach enough (Nat.le_refl _))

/-! ### A path too often against the order -/

/-- Every input with a driver has the width two. -/
def ready (D : SignalDiagram) (b : Nat) (inputWidths : List UInt16) : Bool :=
  ((D.producers b).zip inputWidths).all fun input => input.1.isNone || input.2 == 2

/-- The outputs have the width two as soon as all inputs have it. -/
def patient (D : SignalDiagram) : BlockRules :=
  plainRules fun b inputWidths => (D.outputs b).map fun _ => if D.ready b inputWidths then 2 else 1

theorem ready_iff : D.ready b ((D.producers b).map (D.widthFrom s)) = true ↔
    ∀ found, some found ∈ D.producers b → D.producerWidth s found = 2 := by
  rw [ready, ← List.map_prod_left_eq_zip, List.all_map, List.all_eq_true]
  constructor
  · intro all found listed
    simpa [widthFrom] using all (some found) listed
  · intro all driver listed
    cases driver with
    | none => rfl
    | some found => simpa [widthFrom] using all found listed

theorem resolve_patient (s : Resolutions) (b : Nat) :
    D.resolve D.patient s b = ⟨(D.producers b).map (D.widthFrom s), (s b).rate,
      (D.outputs b).map fun _ => if D.ready b ((D.producers b).map (D.widthFrom s)) then 2 else 1⟩ :=
  resolve_plainRules (fun _ _ => List.length_map _) s b

/-- At the fixed point every width is two. -/
theorem outputWidths_patient (acyclic : D.Acyclic) (library : D.LibraryOnly) (shallow : D.Shallow)
    (point : D.FixedPoint D.patient s) (member : b ∈ D.libraryInfo) : D.ready b (s b).inputWidths = true := by
  obtain ⟨level, down, flat⟩ := acyclic
  induction height : level b using Nat.strongRecOn generalizing b with
  | _ n ih =>
    subst height
    rw [point.inputWidths b member _ (shallow.drivers member), ready_iff]
    intro found listed
    obtain ⟨port, -, reached⟩ := List.mem_map.mp listed
    obtain ⟨within, declared⟩ := producerOf_library library reached
    have low := producerOf_level down flat reached
    have built := point.outputWidths found.component within
    have full := ih _ low within rfl
    rw [patient, outputWidths_plainRules _ (List.length_map _), full] at built
    exact producerWidth_of_map within declared (Except.ok.inj built).symm

/-- The states of a run with these rules. -/
def patiently (D : SignalDiagram) (k : Nat) : Resolutions :=
  sweeps (D.resolve D.patient) D.libraryInfo (D.initial D.patient) k

theorem patiently_succ (member : b ∈ D.libraryInfo) (k : Nat) :
    D.patiently (k + 1) b
      = D.resolve D.patient (seen D.libraryInfo (D.patiently k) (D.patiently (k + 1)) b) b :=
  sweeps_succ_apply D.nodup member k

/-- A block whose driver still has narrow outputs is not ready. -/
theorem not_ready_of_narrow (library : D.LibraryOnly) (member : b ∈ D.libraryInfo) {k : Nat} (reads : D.Reads d b)
    (narrow : (seen D.libraryInfo (D.patiently k) (D.patiently (k + 1)) b d).outputWidths
      = (D.outputs d).map fun _ => 1) : D.ready b (D.patiently (k + 1) b).inputWidths = false := by
  obtain ⟨port, declared, found, reached, rfl⟩ := reads
  rw [patiently_succ member, resolve_patient, ← Bool.not_eq_true, ready_iff]
  intro all
  have wide := all found (List.mem_map.mpr ⟨port, declared, reached⟩)
  obtain ⟨within, output⟩ := producerOf_library library reached
  rw [producerWidth_of_map within output narrow] at wide
  cases wide

theorem narrow_of_not_ready (member : b ∈ D.libraryInfo) {k : Nat}
    (waits : D.ready b (D.patiently (k + 1) b).inputWidths = false) :
    (D.patiently (k + 1) b).outputWidths = (D.outputs b).map fun _ => 1 := by
  rw [patiently_succ member, resolve_patient] at waits ⊢
  simp only [waits, Bool.false_eq_true, if_false]

theorem not_ready_of_chain (library : D.LibraryOnly) {n k : Nat} (h : Chain D.libraryInfo D.Reads n b) (long : k < n)
    (narrow : ∀ n d, Chain D.libraryInfo D.Reads n d → k ≤ n →
      (D.patiently k d).outputWidths = (D.outputs d).map fun _ => 1) :
    D.ready b (D.patiently (k + 1) b).inputWidths = false := by
  induction h with
  | start _ => exact absurd long (Nat.not_lt_zero k)
  | along chain reads member before ih =>
    apply not_ready_of_narrow library member reads
    rw [seen_before before]
    exact narrow_of_not_ready chain.member (ih long)
  | against chain reads member late _ =>
    apply not_ready_of_narrow library member reads
    rw [seen_not_before late]
    exact narrow _ _ chain (by omega)

/-- A path with as many steps against the order as there were sweeps still waits. -/
theorem narrow_of_chain (library : D.LibraryOnly) {n k : Nat} (h : Chain D.libraryInfo D.Reads n b) (long : k ≤ n) :
    (D.patiently k b).outputWidths = (D.outputs b).map fun _ => 1 := by
  induction k generalizing n b with
  | zero => rfl
  | succ k ih => exact narrow_of_not_ready h.member (not_ready_of_chain library h long fun _ _ chain => ih chain)

theorem inOrder_of_fixedPoint (acyclic : D.Acyclic) (library : D.LibraryOnly) (shallow : D.Shallow)
    (fixed : ∀ rules s, D.infer rules = .ok s → D.FixedPoint rules s) : D.InOrder := by
  intro b n chain
  by_contra long
  obtain ⟨s, ran⟩ := infer_plainRules (D := D)
    fun b inputWidths => (D.outputs b).map fun _ => if D.ready b inputWidths then 2 else 1
  obtain ⟨k, bound, -, run, -, -⟩ := inferPasses_ok ran
  have point : D.FixedPoint D.patient s := fixed _ s ran
  have waits := not_ready_of_chain library ((chain_iff shallow).mpr chain) (show k < n by omega)
    fun _ _ chain => narrow_of_chain library chain
  have full := outputWidths_patient acyclic library shallow point chain.member
  rw [run] at full
  exact Bool.false_ne_true (waits.symm.trans full)

/-- The inference reaches the fixed point of every diagram of this shape, or reports an error, if and only if no
driver lies behind more than 32 tunnels and no path goes against the order of the map more than 32 times. -/
theorem infer_fixedPoint_iff (D : SignalDiagram) (acyclic : D.Acyclic) (library : D.LibraryOnly) :
    (∀ rules s, D.infer rules = .ok s → D.FixedPoint rules s) ↔ D.Shallow ∧ D.InOrder := by
  constructor
  · intro fixed
    have shallow := shallow_of_fixedPoint acyclic library fixed
    exact ⟨shallow, inOrder_of_fixedPoint acyclic library shallow fixed⟩
  · rintro ⟨shallow, inOrder⟩ rules s ran
    exact fixedPoint_of_infer shallow inOrder ran

/-- A chain of 34 blocks that the map yields from its end to its start. -/
def reversedChain : SignalDiagram where
  libraryInfo := (List.range 34).reverse
  nodup := List.nodup_reverse.mpr List.nodup_range
  inputs := fun b => if b = 0 then [] else ["in"]
  outputs := fun _ => ["out"]
  wires := (List.range 33).map fun b => (⟨b, "out"⟩, ⟨b + 1, "in"⟩)
  signalPorts := fun _ => ["in", "out"]

/-- A source of width two, and blocks that hand their width on. -/
def gains : BlockRules where
  declared := fun b => { kind := if b = 0 then .constant else .inherited }
  builder := fun b inputWidths _ => .ok (if b = 0 then [2] else inputWidths)

theorem mem_wires_of_sourceOf {source : SignalEndpoint} (h : D.sourceOf e = some source) : (source, e) ∈ D.wires := by
  obtain ⟨wire, found, rfl⟩ := Option.map_eq_some_iff.mp h
  have target := List.find?_some found
  simp only [Bool.and_eq_true, beq_iff_eq] at target
  rw [← target.2]
  exact List.mem_reverse.mp (List.mem_of_find?_eq_some found)

theorem reversedChain_wire {source : SignalEndpoint} (h : reversedChain.sourceOf e = some source) :
    source.component < e.component ∧ source.component < 34 ∧ source.port = "out" := by
  obtain ⟨b, inside, same⟩ := List.mem_map.mp (mem_wires_of_sourceOf h)
  obtain ⟨rfl, rfl⟩ := Prod.mk.inj same
  have bound := List.mem_range.mp inside
  exact ⟨Nat.lt_succ_self b, by show b < 34; omega, rfl⟩

theorem reversedChain_acyclic : reversedChain.Acyclic :=
  ⟨id, fun _ _ h => (reversedChain_wire h).1, fun _ _ member => absurd member List.not_mem_nil⟩

theorem reversedChain_libraryOnly : reversedChain.LibraryOnly := by
  intro e source h _
  obtain ⟨-, inside, output⟩ := reversedChain_wire h
  exact ⟨List.mem_reverse.mpr (List.mem_range.mpr inside), by rw [output]; exact List.mem_singleton.mpr rfl⟩

theorem infer_fixedPoint_iff_reversedChain :
    (∀ rules s, reversedChain.infer rules = .ok s → reversedChain.FixedPoint rules s) ↔
      reversedChain.Shallow ∧ reversedChain.InOrder :=
  infer_fixedPoint_iff reversedChain reversedChain_acyclic reversedChain_libraryOnly

/-- The last block of the chain still has an input of width one, and no error says so. -/
theorem infer_stopsShort : reversedChain.Acyclic ∧ reversedChain.LibraryOnly ∧
    ∃ s, reversedChain.infer gains = .ok s ∧ (s 32).outputWidths = [2] ∧ (s 33).inputWidths = [1] ∧
      ¬ reversedChain.FixedPoint gains s := by
  refine ⟨reversedChain_acyclic, reversedChain_libraryOnly, ?_⟩
  have widths : ((reversedChain.infer gains).toOption.map
      fun s => ((s 32).outputWidths, (s 33).inputWidths)) = some ([2], [1]) := by decide +kernel
  obtain ⟨s, ran, same⟩ := Option.map_eq_some_iff.mp widths
  obtain ⟨outputs, inputs⟩ := Prod.mk.inj same
  have ok : reversedChain.infer gains = .ok s := by
    cases result : reversedChain.infer gains with
    | ok t => rw [result] at ran; rw [Option.some.inj ran]
    | error error => rw [result] at ran; cases ran
  refine ⟨s, ok, outputs, inputs, fun point => ?_⟩
  have driven : reversedChain.Driver ⟨33, "in"⟩ (some ⟨32, "out"⟩) := by
    refine ⟨1, fun depth deep => ?_⟩
    obtain ⟨depth, rfl⟩ := Nat.exists_eq_add_of_le' deep
    have wire : reversedChain.sourceOf ⟨33, "in"⟩ = some ⟨32, "out"⟩ := by decide +kernel
    rw [producerOf_source wire]
    rfl
  have last := point.inputWidths 33 (by decide +kernel) [some ⟨32, "out"⟩] (.cons driven .nil)
  have wide : reversedChain.producerWidth s ⟨32, "out"⟩ = 2 := by
    rw [producerWidth, if_pos (by decide +kernel), outputs]
    rfl
  rw [inputs, List.map_singleton, widthFrom, Option.elim_some, wide] at last
  cases last

end SignalDiagram

end LasecSimul.Session
