import LasecSimul.Signal.Continuous

/-!
# A rolled-back continuous step leaves no trace

A trial writes scratch vectors only, once the kernels keep to their outputs in a minor step. A later trial
reads none of what an earlier one left there: what it does not write itself, no trial of the plan writes.
-/

namespace LasecSimul.Signal

open Lib

variable {R : Type} [Double R]

/-- In a minor step `outputs` alters neither the continuous nor the discrete state of a kernel. -/
def MinorPure (graph : CompiledSignalGraph R) : Prop :=
  ∀ index kernel, (graph.block index).kernel = some kernel → ∀ context : KernelContext R, context.major = false →
    (kernel.outputs context).x = context.x ∧ (kernel.outputs context).d = context.d

omit [Double R] in
theorem storeList_window (values : Nat → R) (offset width : Nat) :
    storeList values offset width (window values offset width) = values := by
  funext index
  unfold storeList store window
  dsimp only
  split
  · rename_i inside
    rw [List.getD_eq_getElem?_getD, List.getElem?_map, List.getElem?_range (by omega)]
    show values (offset + (index - offset)) = _
    rw [Nat.add_sub_cancel' inside.1]
  · rfl

variable {graph : CompiledSignalGraph R} {minor : Minor R} {timestampNs : Nat}

theorem runOutputs_discrete (pure : MinorPure minor.graph) (stage : Stage R) (index : Nat) :
    (minor.runOutputs timestampNs stage (minor.graph.block index)).kernelDiscrete = stage.kernelDiscrete := by
  unfold Minor.runOutputs runKernelOutputs
  cases kernel : (minor.graph.block index).kernel with
  | none => rfl
  | some spec =>
    have keeps := (pure index spec kernel (kernelContext (minor.graph.block index) minor.kernelParams timestampNs
      false minor.stageMajorNs (Minor.vectors stage)) rfl).2
    simp only [writeKernel, keeps]
    exact storeList_window _ _ _

theorem relaxBlock_discrete (pure : MinorPure minor.graph) (progress : R × Stage R) (index : Nat) :
    (minor.relaxBlock timestampNs progress (minor.graph.block index)).2.kernelDiscrete = progress.2.kernelDiscrete :=
  runOutputs_discrete pure _ index

theorem relax_discrete (pure : MinorPure minor.graph) (blocks : List Nat) (tolerance : R) (iterations : Nat)
    (stage : Stage R) :
    (minor.relax timestampNs (blocks.map minor.graph.block) tolerance iterations stage).kernelDiscrete =
      stage.kernelDiscrete := by
  induction iterations generalizing stage with
  | zero => rfl
  | succ iterations ih =>
    have swept : ((blocks.map minor.graph.block).foldl (minor.relaxBlock timestampNs) (0.0, stage)).2.kernelDiscrete =
        stage.kernelDiscrete := by
      rw [List.foldl_map]
      exact Fold.foldl_keeps (·.2.kernelDiscrete) blocks
        (fun progress index _ => relaxBlock_discrete pure progress index) (0.0, stage)
    unfold Minor.relax
    dsimp only
    split
    · exact swept
    · exact (ih _).trans swept

theorem evaluate_discrete (pure : MinorPure minor.graph) (stage : Stage R) :
    (minor.evaluate timestampNs stage).kernelDiscrete = stage.kernelDiscrete := by
  refine Fold.foldl_keeps (·.kernelDiscrete) _ (fun stage item _ => ?_) stage
  unfold Minor.evaluateItem
  dsimp only
  split
  · exact relax_discrete pure _ _ _ _
  · rw [List.foldl_map]
    exact Fold.foldl_keeps (·.kernelDiscrete) _ (fun stage index _ => runOutputs_discrete pure stage index) stage

theorem rk4Partition_discrete (pure : MinorPure minor.graph) (base : Nat → R) (startNs lengthNs : Nat)
    (s : Integration R) :
    (rk4Partition minor base startNs lengthNs s).stage.kernelDiscrete = s.stage.kernelDiscrete := by
  simp only [rk4Partition, Minor.evaluateContinuousPartition, Stage.move, Stage.setState, evaluate_discrete pure]

theorem run_discrete (pure : MinorPure graph) (values : SignalValues R) (previousNs currentNs : Nat)
    (trial : Trial R) : (trial.run graph values previousNs currentNs).kernelDiscrete = trial.kernelDiscrete := by
  have stepped : ∀ dt, ((graph.continuousBlocks.map graph.block).foldl
      (Trial.stepBlock values previousNs currentNs dt) (trial.start values)).kernelDiscrete =
        trial.kernelDiscrete := by
    intro dt
    refine Fold.foldl_keeps (·.kernelDiscrete) _ (fun trial block _ => ?_) (trial.start values)
    unfold Trial.stepBlock
    split <;> rfl
  unfold Trial.run
  dsimp only
  split
  · exact stepped _
  · unfold Trial.integrate Trial.finalStage Trial.secondHalf Trial.firstHalf Trial.fullStep Stage.setState
    dsimp only
    rw [evaluate_discrete pure, rk4Partition_discrete pure, rk4Partition_discrete pure, rk4Partition_discrete pure]
    exact stepped _

/-! ### Where a trial writes -/

/-- A state-space block leaves its slopes at `index`. -/
def KeepsSlopes (block : CompiledBlock R) (index : Nat) : Prop :=
  block.kind = .stateSpaceContinuous ∧ block.stateIndex 0 ≤ index ∧ index < block.stateIndex 0 + stateOrder block

/-- A kernel writes its derivatives at `index`. -/
def Derives (block : CompiledBlock R) (index : Nat) : Prop :=
  (block.kernel.bind (·.derivatives)).isSome = true ∧
    block.stateIndex 0 ≤ index ∧ index < block.stateIndex 0 + block.stateWidth

def DerivedAt (graph : CompiledSignalGraph R) (index : Nat) : Prop :=
  ∃ block ∈ graph.continuousPartition.map graph.block, Derives block index

def KeptAt (graph : CompiledSignalGraph R) (index : Nat) : Prop :=
  ∃ block ∈ graph.continuousBlocks.map graph.block, KeepsSlopes block index

/-- The slopes of one state. -/
def Slopes.row (slopes : Slopes R) (index : Nat) : R × R × R × R :=
  (slopes.k1 index, slopes.k2 index, slopes.k3 index, slopes.k4 index)

variable {index : Nat}

omit [Double R] in
theorem overwrite_at {indices : List Nat} {values contents : Nat → R} (outside : index ∉ indices) :
    overwrite indices values contents index = values index := if_neg outside

omit [Double R] in
theorem overwrite_same {indices : List Nat} {u v contents others : Nat → R}
    (agree : ∀ index, u index = v index ∨ index ∈ indices) (same : contents = others) :
    overwrite indices u contents = overwrite indices v others := by
  subst same
  funext index
  unfold overwrite
  split
  · rfl
  · rename_i outside
    exact (agree index).resolve_right outside

theorem derivatives_frame (stage : Stage R) (slopes : Nat → R) (untouched : ¬DerivedAt minor.graph index) :
    minor.derivatives timestampNs stage slopes index = slopes index := by
  refine Fold.foldl_keeps (fun slopes : Nat → R => slopes index) _ (fun slopes block member => ?_) slopes
  unfold Minor.derivativesOf
  cases derivatives : block.kernel.bind (·.derivatives) with
  | none => rfl
  | some fill =>
    refine store_outside fun inside => untouched ⟨block, member, ?_, inside⟩
    rw [derivatives]
    rfl

theorem rk4Partition_slopes (base : Nat → R) (startNs lengthNs : Nat) (s : Integration R)
    (untouched : ¬DerivedAt minor.graph index) :
    (rk4Partition minor base startNs lengthNs s).slopes.row index = s.slopes.row index := by
  simp only [rk4Partition, Minor.evaluateContinuousPartition, Slopes.row, derivatives_frame _ _ untouched]

theorem stepBlock_slopes (values : SignalValues R) (previousNs currentNs : Nat) (dt : R) (trial : Trial R)
    {block : CompiledBlock R} (untouched : ¬KeepsSlopes block index) :
    (trial.stepBlock values previousNs currentNs dt block).toSlopes.row index = trial.toSlopes.row index := by
  unfold Trial.stepBlock
  split
  · rename_i kind
    have outside : ¬(block.stateIndex 0 ≤ index ∧ index < block.stateIndex 0 + stateOrder block) :=
      fun inside => untouched ⟨kind, inside⟩
    simp only [Trial.stepStateSpace, Slopes.row, store_outside outside]
  · rfl
  · rfl

theorem stepBlock_half (values : SignalValues R) (previousNs currentNs : Nat) (dt : R) (trial : Trial R)
    (block : CompiledBlock R) : (trial.stepBlock values previousNs currentNs dt block).halfState = trial.halfState := by
  unfold Trial.stepBlock
  split <;> rfl

/-- The blocks of the loop of `beginContinuousStep`. -/
def Trial.stepBlocks (graph : CompiledSignalGraph R) (values : SignalValues R) (previousNs currentNs : Nat)
    (trial : Trial R) : Trial R :=
  (graph.continuousBlocks.map graph.block).foldl
    (Trial.stepBlock values previousNs currentNs (Double.ofUnsigned (currentNs - previousNs) * 1e-9)) trial

theorem run_eq (values : SignalValues R) (previousNs currentNs : Nat) (trial : Trial R) :
    trial.run graph values previousNs currentNs =
      if graph.continuousPartition.isEmpty then (trial.start values).stepBlocks graph values previousNs currentNs
      else ((trial.start values).stepBlocks graph values previousNs currentNs).integrate graph values previousNs
        currentNs := rfl

theorem run_slopes (values : SignalValues R) (previousNs currentNs : Nat) (trial : Trial R)
    (untouched : ¬(KeptAt graph index ∨ DerivedAt graph index)) :
    (trial.run graph values previousNs currentNs).toSlopes.row index = trial.toSlopes.row index := by
  have stepped : ((trial.start values).stepBlocks graph values previousNs currentNs).toSlopes.row index =
      trial.toSlopes.row index :=
    Fold.foldl_keeps (fun trial : Trial R => trial.toSlopes.row index) _ (fun trial block member =>
      stepBlock_slopes _ _ _ _ _ fun keeps => untouched (Or.inl ⟨block, member, keeps⟩)) (trial.start values)
  have derived : ¬DerivedAt graph index := fun derived => untouched (Or.inr derived)
  rw [run_eq]
  split
  · exact stepped
  · unfold Trial.integrate Trial.secondHalf Trial.firstHalf Trial.fullStep
    dsimp only
    rw [rk4Partition_slopes _ _ _ _ derived, rk4Partition_slopes _ _ _ _ derived, rk4Partition_slopes _ _ _ _ derived]
    exact stepped

/-- The state after the half step changes only at the states of the partition. -/
theorem run_half (values : SignalValues R) (previousNs currentNs : Nat) (trial : Trial R)
    (outside : index ∉ partitionStates graph) :
    (trial.run graph values previousNs currentNs).halfState index = trial.halfState index := by
  have stepped : ((trial.start values).stepBlocks graph values previousNs currentNs).halfState = trial.halfState :=
    Fold.foldl_keeps (·.halfState) _ (fun trial block _ => stepBlock_half _ _ _ _ trial block) (trial.start values)
  rw [run_eq]
  split
  · rw [stepped]
  · refine Eq.trans ?_ (congrFun stepped index)
    simp only [Trial.integrate, Trial.firstHalf, rk4Partition, Trial.minor, overwrite_at outside]

/-! ### What a trial reads -/

/-- Two stages with the same outputs, states and discrete states. -/
def SameStage (a b : Stage R) : Prop := Minor.vectors a = Minor.vectors b

theorem runOutputs_same {a b : Stage R} (same : SameStage a b) (block : CompiledBlock R) :
    SameStage (minor.runOutputs timestampNs a block) (minor.runOutputs timestampNs b block) := by
  show runKernelOutputs _ _ _ _ _ (Minor.vectors a) = runKernelOutputs _ _ _ _ _ (Minor.vectors b)
  rw [same]

/-- The greatest change of a block is measured against the outputs before it. -/
theorem relaxBlock_delta (progress : R × Stage R) (block : CompiledBlock R) :
    (minor.relaxBlock timestampNs progress block).1 =
      (List.range block.output.width).foldl (fun delta element => Double.max delta (Double.abs
        ((runKernelOutputs block minor.kernelParams timestampNs false minor.stageMajorNs
            (Minor.vectors progress.2)).reals (block.output.offset + element) -
          (Minor.vectors progress.2).reals (block.output.offset + element)))) progress.1 := by
  refine Fold.foldl_related Eq _ (fun delta other element member same => ?_) rfl
  have inside : block.output.offset ≤ block.output.offset + element ∧
      block.output.offset + element < block.output.offset + block.output.width := by
    have := List.mem_range.mp member
    omega
  subst same
  show Double.max delta (Double.abs (_ - store progress.2.realSnapshot block.output.offset block.output.width
    (fun element => progress.2.stageReals (block.output.offset + element)) (block.output.offset + element))) = _
  rw [store, if_pos inside, Nat.add_sub_cancel_left]
  rfl

/-- The same change so far and the same stage. -/
def SameProgress (p q : R × Stage R) : Prop := p.1 = q.1 ∧ SameStage p.2 q.2

theorem relaxBlock_same {p q : R × Stage R} (same : SameProgress p q) (block : CompiledBlock R) :
    SameProgress (minor.relaxBlock timestampNs p block) (minor.relaxBlock timestampNs q block) := by
  obtain ⟨delta, stage⟩ := same
  exact ⟨by rw [relaxBlock_delta, relaxBlock_delta, delta, stage], runOutputs_same stage block⟩

theorem relax_same {a b : Stage R} (blocks : List (CompiledBlock R)) (tolerance : R) (iterations : Nat)
    (same : SameStage a b) :
    SameStage (minor.relax timestampNs blocks tolerance iterations a)
      (minor.relax timestampNs blocks tolerance iterations b) := by
  induction iterations generalizing a b with
  | zero => exact same
  | succ iterations ih =>
    have swept : SameProgress (blocks.foldl (minor.relaxBlock timestampNs) (0.0, a))
        (blocks.foldl (minor.relaxBlock timestampNs) (0.0, b)) :=
      Fold.foldl_related SameProgress blocks (fun _ _ block _ same => relaxBlock_same same block) ⟨rfl, same⟩
    unfold Minor.relax
    dsimp only
    rw [swept.1]
    split
    · exact swept.2
    · exact ih swept.2

theorem evaluate_same {a b : Stage R} (same : SameStage a b) :
    SameStage (minor.evaluate timestampNs a) (minor.evaluate timestampNs b) := by
  refine Fold.foldl_related SameStage _ (fun a b item _ same => ?_) same
  unfold Minor.evaluateItem
  dsimp only
  split
  · exact relax_same _ _ _ same
  · exact Fold.foldl_related SameStage _ (fun a b block _ same => runOutputs_same same block) same

theorem derivativesOf_same {a b : Stage R} (same : SameStage a b) {u v : Nat → R} {block : CompiledBlock R}
    (agree : u index = v index ∨ Derives block index) :
    minor.derivativesOf timestampNs a u block index = minor.derivativesOf timestampNs b v block index := by
  unfold Minor.derivativesOf
  unfold Derives at agree
  rw [same]
  cases derivatives : block.kernel.bind (·.derivatives) with
  | none =>
    rw [derivatives] at agree
    exact agree.resolve_right fun derives => nomatch derives.1
  | some fill =>
    by_cases inside : block.stateIndex 0 ≤ index ∧ index < block.stateIndex 0 + block.stateWidth
    · simp only [store, if_pos inside]
    · simp only [store, if_neg inside]
      exact agree.resolve_right fun derives => inside derives.2

theorem derivatives_same {a b : Stage R} (same : SameStage a b) {u v : Nat → R}
    (agree : ∀ index, u index = v index ∨ DerivedAt minor.graph index) :
    minor.derivatives timestampNs a u = minor.derivatives timestampNs b v := by
  funext index
  unfold Minor.derivatives
  refine Fold.foldl_settles (fun slopes : Nat → R => slopes index) (fun slopes : Nat → R => slopes index)
    (fun block => Derives block index) _ ?_ (agree index)
  intro u v block _ agree
  exact derivativesOf_same same agree

theorem evaluateContinuousPartition_same (minor : Minor R) (timestampNs : Nat) {a b : Stage R}
    (same : SameStage a b) {u v : Nat → R}
    (agree : ∀ index, u index = v index ∨ DerivedAt minor.graph index) :
    SameStage (minor.evaluateContinuousPartition timestampNs a u).1 (minor.evaluateContinuousPartition timestampNs b v).1 ∧
      (minor.evaluateContinuousPartition timestampNs a u).2 = (minor.evaluateContinuousPartition timestampNs b v).2 :=
  ⟨evaluate_same same, derivatives_same (evaluate_same same) agree⟩

omit [Double R] in
theorem setState_same {a b : Stage R} (outputs : a.stageReals = b.stageReals)
    (discrete : a.kernelDiscrete = b.kernelDiscrete) (state : Nat → R) :
    SameStage (a.setState state) (b.setState state) := by
  unfold SameStage Minor.vectors Stage.setState
  rw [outputs, discrete]

theorem move_same {a b : Stage R} (same : SameStage a b) (states : List Nat) (base : Nat → R) {u v : Nat → R}
    (steps : u = v) : SameStage (a.move states base u) (b.move states base v) := by
  subst steps
  have outputs : a.stageReals = b.stageReals := congrArg KernelVectors.reals same
  have states : a.stageState = b.stageState := congrArg KernelVectors.states same
  have discrete : a.kernelDiscrete = b.kernelDiscrete := congrArg KernelVectors.discrete same
  unfold SameStage Minor.vectors Stage.move
  rw [outputs, states, discrete]

/-- Two integrations that can differ only in what they are about to write. -/
structure SameIntegration (graph : CompiledSignalGraph R) (a b : Integration R) : Prop where
  outputs : a.stage.stageReals = b.stage.stageReals
  discrete : a.stage.kernelDiscrete = b.stage.kernelDiscrete
  slopes : ∀ index, a.slopes.row index = b.slopes.row index ∨ DerivedAt graph index
  result : ∀ index, a.result index = b.result index ∨ index ∈ partitionStates graph

/-- Two integrations that agree on what is read later. -/
structure Integrated (a b : Integration R) : Prop where
  stage : SameStage a.stage b.stage
  slopes : ∀ index, a.slopes.row index = b.slopes.row index
  result : a.result = b.result

theorem Integrated.next {a b : Integration R} (same : Integrated a b) {u v : Nat → R}
    (result : ∀ index, u index = v index ∨ index ∈ partitionStates graph) :
    SameIntegration graph ⟨a.stage, a.slopes, u⟩ ⟨b.stage, b.slopes, v⟩ :=
  ⟨congrArg KernelVectors.reals same.stage, congrArg KernelVectors.discrete same.stage,
    fun index => Or.inl (same.slopes index), result⟩

theorem rk4Partition_same (minor : Minor R) {a b : Integration R} (same : SameIntegration minor.graph a b)
    (base : Nat → R) (startNs lengthNs : Nat) :
    Integrated (rk4Partition minor base startNs lengthNs a) (rk4Partition minor base startNs lengthNs b) := by
  have start := setState_same same.outputs same.discrete base
  have agree (k : Slopes R → Nat → R) (part : ∀ s t : Slopes R, ∀ index, s.row index = t.row index → k s index = k t index)
      (index : Nat) : k a.slopes index = k b.slopes index ∨ DerivedAt minor.graph index :=
    (same.slopes index).imp_left (part _ _ index)
  have first := evaluateContinuousPartition_same minor startNs start
    (agree Slopes.k1 fun _ _ _ same => congrArg (·.1) same)
  have second := evaluateContinuousPartition_same minor (startNs + lengthNs / 2)
    (move_same first.1 (partitionStates minor.graph) base (congrArg
      (fun slopes : Nat → R => fun index => 0.5 * (Double.ofUnsigned lengthNs * 1e-9) * slopes index) first.2))
    (agree Slopes.k2 fun _ _ _ same => congrArg (·.2.1) same)
  have third := evaluateContinuousPartition_same minor (startNs + lengthNs / 2)
    (move_same second.1 (partitionStates minor.graph) base (congrArg
      (fun slopes : Nat → R => fun index => 0.5 * (Double.ofUnsigned lengthNs * 1e-9) * slopes index) second.2))
    (agree Slopes.k3 fun _ _ _ same => congrArg (·.2.2.1) same)
  have fourth := evaluateContinuousPartition_same minor (startNs + lengthNs)
    (move_same third.1 (partitionStates minor.graph) base (congrArg
      (fun slopes : Nat → R => fun index => Double.ofUnsigned lengthNs * 1e-9 * slopes index) third.2))
    (agree Slopes.k4 fun _ _ _ same => congrArg (·.2.2.2) same)
  refine ⟨fourth.1, fun index => ?_, ?_⟩
  · exact Prod.ext (congrFun first.2 index) (Prod.ext (congrFun second.2 index)
      (Prod.ext (congrFun third.2 index) (congrFun fourth.2 index)))
  · exact overwrite_same same.result
      (congr (congr (congr (congrArg (rk4Result base _) first.2) second.2) third.2) fourth.2)

/-! ### Two trials of one plan -/

section Trials

variable {values : SignalValues R} {previousNs currentNs : Nat} {a b : Trial R}

theorem stepBlock_discrete (dt : R) (trial : Trial R) (block : CompiledBlock R) :
    (trial.stepBlock values previousNs currentNs dt block).kernelDiscrete = trial.kernelDiscrete := by
  unfold Trial.stepBlock
  split <;> rfl

theorem stepBlock_candidates (dt : R) (same : a.toStepCandidates = b.toStepCandidates) (block : CompiledBlock R) :
    (a.stepBlock values previousNs currentNs dt block).toStepCandidates =
      (b.stepBlock values previousNs currentNs dt block).toStepCandidates := by
  have full := congrArg StepCandidates.dynamicFullStep same
  have half := congrArg StepCandidates.dynamicCandidate same
  have output := congrArg StepCandidates.dynamicOutputCandidate same
  unfold Trial.stepBlock
  split
  · simp only [Trial.stepStateSpace, full, half, output]
  · simp only [same]
  · simp only [same]

theorem stepBlock_row (dt : R) {block : CompiledBlock R}
    (agree : a.toSlopes.row index = b.toSlopes.row index ∨ KeepsSlopes block index) :
    (a.stepBlock values previousNs currentNs dt block).toSlopes.row index =
      (b.stepBlock values previousNs currentNs dt block).toSlopes.row index := by
  by_cases keeps : KeepsSlopes block index
  · obtain ⟨kind, inside⟩ := keeps
    unfold Trial.stepBlock
    simp only [kind, Trial.stepStateSpace, Slopes.row, store, if_pos inside]
  · rw [stepBlock_slopes _ _ _ _ _ keeps, stepBlock_slopes _ _ _ _ _ keeps]
    exact agree.resolve_right keeps

/-- Two trials that can differ only in what a trial is about to write. -/
structure SameTrial (graph : CompiledSignalGraph R) (a b : Trial R) : Prop where
  discrete : a.kernelDiscrete = b.kernelDiscrete
  slopes : ∀ index, a.toSlopes.row index = b.toSlopes.row index ∨ KeptAt graph index ∨ DerivedAt graph index
  half : ∀ index, a.halfState index = b.halfState index ∨ index ∈ partitionStates graph

/-- The same as `SameTrial` once the blocks have written their candidates. -/
structure SameStepped (graph : CompiledSignalGraph R) (a b : Trial R) : Prop where
  discrete : a.kernelDiscrete = b.kernelDiscrete
  candidates : a.toStepCandidates = b.toStepCandidates
  half : ∀ index, a.halfState index = b.halfState index ∨ index ∈ partitionStates graph
  slopes : ∀ index, a.toSlopes.row index = b.toSlopes.row index ∨ DerivedAt graph index

theorem stepBlocks_same (values : SignalValues R) (previousNs currentNs : Nat) (same : SameTrial graph a b) :
    SameStepped graph ((a.start values).stepBlocks graph values previousNs currentNs)
      ((b.start values).stepBlocks graph values previousNs currentNs) := by
  have discrete (trial : Trial R) : (trial.stepBlocks graph values previousNs currentNs).kernelDiscrete =
      trial.kernelDiscrete := Fold.foldl_keeps (·.kernelDiscrete) _ (fun trial block _ => stepBlock_discrete _ trial block) trial
  have half (trial : Trial R) : (trial.stepBlocks graph values previousNs currentNs).halfState = trial.halfState :=
    Fold.foldl_keeps (·.halfState) _ (fun trial block _ => stepBlock_half _ _ _ _ trial block) trial
  refine ⟨?_, ?_, fun index => ?_, fun index => ?_⟩
  · rw [discrete, discrete]
    exact same.discrete
  · exact Fold.foldl_related (fun a b : Trial R => a.toStepCandidates = b.toStepCandidates) _
      (fun a b block _ same => stepBlock_candidates _ same block) rfl
  · rw [half, half]
    exact same.half index
  · have settles (start : a.toSlopes.row index = b.toSlopes.row index ∨ KeptAt graph index) :
        ((a.start values).stepBlocks graph values previousNs currentNs).toSlopes.row index =
          ((b.start values).stepBlocks graph values previousNs currentNs).toSlopes.row index := by
      unfold Trial.stepBlocks
      refine Fold.foldl_settles (fun trial : Trial R => trial.toSlopes.row index)
        (fun trial : Trial R => trial.toSlopes.row index) (fun block => KeepsSlopes block index) _ ?_ start
      intro a b block _ agree
      exact stepBlock_row _ agree
    rcases same.slopes index with row | kept | derived
    · exact Or.inl (settles (Or.inl row))
    · exact Or.inl (settles (Or.inr kept))
    · exact Or.inr derived

theorem fullStep_same (same : SameStepped graph a b) :
    Integrated (a.fullStep graph values previousNs currentNs) (b.fullStep graph values previousNs currentNs) := by
  have start : SameIntegration graph
      ⟨{ a.toStage with stageReals := values.reals }, a.toSlopes, a.dynamicFullStep⟩
      ⟨{ b.toStage with stageReals := values.reals }, b.toSlopes, b.dynamicFullStep⟩ :=
    ⟨rfl, same.discrete, same.slopes, fun index =>
      Or.inl (congrFun (congrArg StepCandidates.dynamicFullStep same.candidates) index)⟩
  exact rk4Partition_same (Trial.minor graph values previousNs) start _ _ _

theorem firstHalf_same (same : SameStepped graph a b) :
    Integrated (a.firstHalf graph values previousNs currentNs) (b.firstHalf graph values previousNs currentNs) :=
  rk4Partition_same (Trial.minor graph values previousNs) ((fullStep_same same).next same.half) _ _ _

theorem secondHalf_same (same : SameStepped graph a b) :
    Integrated (a.secondHalf graph values previousNs currentNs) (b.secondHalf graph values previousNs currentNs) := by
  have first : Integrated (a.firstHalf graph values previousNs currentNs)
      (b.firstHalf graph values previousNs currentNs) := firstHalf_same same
  unfold Trial.secondHalf
  dsimp only
  rw [first.result]
  exact rk4Partition_same (Trial.minor graph values previousNs) (first.next fun index =>
    Or.inl (congrFun (congrArg StepCandidates.dynamicCandidate same.candidates) index)) _ _ _

theorem finalStage_same (same : SameStepped graph a b) :
    SameStage (a.finalStage graph values previousNs currentNs) (b.finalStage graph values previousNs currentNs) := by
  have second : Integrated (a.secondHalf graph values previousNs currentNs)
      (b.secondHalf graph values previousNs currentNs) := secondHalf_same same
  unfold Trial.finalStage
  dsimp only
  rw [second.result]
  exact evaluate_same (setState_same (congrArg KernelVectors.reals second.stage)
    (congrArg KernelVectors.discrete second.stage) _)

theorem integrate_same (same : SameStepped graph a b) :
    (a.integrate graph values previousNs currentNs).toStepCandidates =
      (b.integrate graph values previousNs currentNs).toStepCandidates := by
  have full : Integrated (a.fullStep graph values previousNs currentNs) (b.fullStep graph values previousNs currentNs) :=
    fullStep_same same
  have second : Integrated (a.secondHalf graph values previousNs currentNs)
      (b.secondHalf graph values previousNs currentNs) := secondHalf_same same
  have final : (a.finalStage graph values previousNs currentNs).stageReals =
      (b.finalStage graph values previousNs currentNs).stageReals :=
    congrArg KernelVectors.reals (finalStage_same same)
  have outputs := congrArg StepCandidates.dynamicOutputCandidate same.candidates
  unfold Trial.integrate
  dsimp only
  rw [full.result, second.result, final, outputs]

/-- The candidates of a trial depend on the accepted values alone. -/
theorem run_candidates (same : SameTrial graph a b) :
    (a.run graph values previousNs currentNs).toStepCandidates =
      (b.run graph values previousNs currentNs).toStepCandidates := by
  have stepped := stepBlocks_same values previousNs currentNs same
  rw [run_eq, run_eq]
  split
  · exact stepped.candidates
  · exact integrate_same stepped

end Trials

/-! ### Rolling back -/

/-- What can be seen of a runtime: its values, its clocks and its activations. -/
structure Observation (R : Type) extends SignalValues R where
  nextActivationNs : Nat → Nat
  constantGroupsDirty : Bool
  dynamicTimeNs : Nat
  lastExecutionNs : Nat
  dynamicStepPending : Bool

def SignalRuntime.observe (s : SignalRuntime R) : Observation R where
  toSignalValues := s.toSignalValues
  nextActivationNs := s.nextActivationNs
  constantGroupsDirty := s.constantGroupsDirty
  dynamicTimeNs := s.dynamicTimeNs
  lastExecutionNs := s.lastExecutionNs
  dynamicStepPending := s.dynamicStepPending

omit [Double R] in
theorem observe_eq {s t : SignalRuntime R} (values : s.toSignalValues = t.toSignalValues)
    (next : s.nextActivationNs = t.nextActivationNs) (dirty : s.constantGroupsDirty = t.constantGroupsDirty)
    (time : s.dynamicTimeNs = t.dynamicTimeNs) (last : s.lastExecutionNs = t.lastExecutionNs)
    (pending : s.dynamicStepPending = t.dynamicStepPending) : s.observe = t.observe := by
  unfold SignalRuntime.observe
  rw [values, next, dirty, time, last, pending]

section Rollback

variable {previousNs currentNs laterNs : Nat} {s t : SignalRuntime R}

theorem kernelOutputs_values {s t : SignalStore R} (same : s.toSignalValues = t.toSignalValues)
    (block : CompiledBlock R) (timestampNs : Nat) :
    (s.kernelOutputs block timestampNs).toSignalValues = (t.kernelOutputs block timestampNs).toSignalValues := by
  obtain ⟨values, scratch⟩ := s
  obtain ⟨values', scratch'⟩ := t
  obtain rfl : values = values' := same
  rfl

theorem kernelUpdate_values {s t : SignalStore R} (same : s.toSignalValues = t.toSignalValues)
    (block : CompiledBlock R) (timestampNs : Nat) :
    (s.kernelUpdate block timestampNs).toSignalValues = (t.kernelUpdate block timestampNs).toSignalValues := by
  obtain ⟨values, scratch⟩ := s
  obtain ⟨values', scratch'⟩ := t
  obtain rfl : values = values' := same
  rfl

theorem majorStep_values {s t : SignalStore R} (same : s.toSignalValues = t.toSignalValues) (timestampNs : Nat) :
    (continuousPartitionMajorStep graph timestampNs s).toSignalValues =
      (continuousPartitionMajorStep graph timestampNs t).toSignalValues :=
  Fold.foldl_related (fun s t : SignalStore R => s.toSignalValues = t.toSignalValues) _
    (fun _ _ block _ same => kernelUpdate_values same block timestampNs)
    (Fold.foldl_related (fun s t : SignalStore R => s.toSignalValues = t.toSignalValues) _
      (fun _ _ block _ same => kernelOutputs_values same block timestampNs) same)

theorem takeCandidates_values {s t : SignalStore R} (same : s.toSignalValues = t.toSignalValues)
    (candidates : s.toStepCandidates = t.toStepCandidates) :
    (takeCandidates graph s).toSignalValues = (takeCandidates graph t).toSignalValues := by
  have state := congrArg StepCandidates.dynamicCandidate candidates
  have outputs := congrArg StepCandidates.dynamicOutputCandidate candidates
  unfold takeCandidates
  rw [same, state, outputs]

/-- A commit reads the candidates of the states and the outputs. -/
theorem commit_observe (same : s.observe = t.observe) (pending : s.pendingDynamicTimeNs = t.pendingDynamicTimeNs)
    (candidates : s.toStepCandidates = t.toStepCandidates) :
    (commitContinuousStep graph s).observe = (commitContinuousStep graph t).observe := by
  have taken : (takeCandidates graph s.toSignalStore).toSignalValues =
      (takeCandidates graph t.toSignalStore).toSignalValues :=
    takeCandidates_values (congrArg Observation.toSignalValues same) candidates
  have flag : s.dynamicStepPending = t.dynamicStepPending := congrArg Observation.dynamicStepPending same
  unfold commitContinuousStep
  rw [← flag]
  split
  · refine observe_eq ?_ (congrArg Observation.nextActivationNs same)
      (congrArg Observation.constantGroupsDirty same) pending (congrArg Observation.lastExecutionNs same) rfl
    show SignalStore.toSignalValues (ite _ _ _) = SignalStore.toSignalValues (ite _ _ _)
    split
    · exact taken
    · rw [pending]
      exact majorStep_values taken _
  · exact same

theorem begin_cases
    (began : beginContinuousStep graph previousNs currentNs s = .ok t) :
    t = s ∨ (previousNs = s.dynamicTimeNs ∧ t = withTrial graph previousNs currentNs s) := by
  unfold beginContinuousStep at began
  split at began
  · exact Or.inl (Except.ok.inj began).symm
  · obtain ⟨_, _, began⟩ := Fallible.bind_ok began
    obtain ⟨_, time, began⟩ := Fallible.bind_ok began
    exact Or.inr ⟨Decidable.not_not.mp (throwIf_ok time), (Except.ok.inj began).symm⟩

theorem begin_idle (idle : s.dynamicStepPending = false) (time : previousNs = s.dynamicTimeNs) :
    beginContinuousStep graph previousNs currentNs s = .ok
      (if (graph.continuousBlocks.isEmpty && graph.continuousPartition.isEmpty) || currentNs ≤ previousNs then s
        else withTrial graph previousNs currentNs s) := by
  unfold beginContinuousStep throwIf
  split
  · rfl
  · rw [idle, if_neg Bool.false_ne_true, if_neg (Decidable.not_not.mpr time)]
    rfl

theorem commit_idle (idle : s.dynamicStepPending = false) : commitContinuousStep graph s = s := by
  unfold commitContinuousStep
  rw [idle]
  rfl

omit [Double R] in
theorem rollback_idle (idle : s.dynamicStepPending = false) : rollbackContinuousStep s = s := by
  unfold rollbackContinuousStep
  rw [idle]
  rfl

theorem setTrial_values (pure : MinorPure graph) (store : SignalStore R) :
    (store.setTrial (store.trial.run graph store.toSignalValues previousNs currentNs)).toSignalValues =
      store.toSignalValues := by
  unfold SignalStore.setTrial
  rw [run_discrete pure]
  rfl

/-- What a trial leaves behind is what a later trial writes anew. -/
theorem setTrial_same (pure : MinorPure graph) (store : SignalStore R) :
    SameTrial graph (store.setTrial (store.trial.run graph store.toSignalValues previousNs currentNs)).trial
      store.trial where
  discrete := run_discrete pure _ _ _ _
  slopes index := by
    by_cases touched : KeptAt graph index ∨ DerivedAt graph index
    · exact Or.inr touched
    · exact Or.inl (run_slopes _ _ _ _ touched)
  half index := by
    by_cases inside : index ∈ partitionStates graph
    · exact Or.inr inside
    · exact Or.inl (run_half _ _ _ _ inside)

end Rollback

def integratorKernel : KernelSpec Float where
  id := "integrator"
  configure _ := .ok { continuousStates := 1, feedthrough := [false] }
  init := none
  outputs context := ⟨context.x, context.x, context.d⟩
  update := none
  derivatives := some fun context _ => (context.inputs.headD []).headD 0.0

def integratorTools : Tools Float := ⟨fun _ => some integratorKernel, fun _ _ => .ok ([], 0)⟩

def heldIntegrator : SignalGraphDefinition Float where
  blocks := [
    { id := "u", tolerance := 0.0, realParameters := [1.0] },
    { id := "x", kind := .kernel, inputs := [{ id := "in" }], rate := { periodNs := 0 }, tolerance := 0.0
      kernel := "integrator" }]
  connections := [{ sourceBlock := "u", targetBlock := "x", targetPort := "in" }]

def integratorPlan : CompiledSignalGraph Float := (compile integratorTools heldIntegrator).toOption.getD {}

def integratorStart : SignalRuntime Float where
  toSignalStore := .cleared
  nextActivationNs := fun index => (integratorPlan.rate index).offsetNs

theorem integratorPlan_pure : MinorPure integratorPlan := by
  intro index kernel found context _
  match index with
  | 0 => exact nomatch found
  | 1 =>
    obtain rfl : integratorKernel = kernel := Option.some.inj found
    exact ⟨rfl, rfl⟩
  | _ + 2 => exact nomatch found

end LasecSimul.Signal
