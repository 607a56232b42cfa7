import LasecSimul.Base.Binary64
import LasecSimul.Lib.Fold
import LasecSimul.Signal.Layout

/-!
# Algebraic loops

An iteration evaluates the blocks of a loop at the values of the iteration before it. When it converges, the
outputs it commits are the equations of the blocks at values that differ from the committed ones by no more
than the tolerance.
-/

namespace LasecSimul.Signal

open Double Lib Lib.Fallible Place

variable {R : Type} [Double R] {tools : Tools R} {definition : SignalGraphDefinition R}
  {graph : CompiledSignalGraph R} {due : Nat → Bool} {timestampNs : Nat} {item : ExecutionItem R}

/-- Values of the three types of outputs. -/
structure Slots (R : Type) where
  reals : Nat → R
  ints : Nat → Int
  bools : Nat → Bool

namespace Slots

def same (a b : Slots R) (scalar : SignalScalarType) (index : Nat) : Prop :=
  match scalar with
  | .real => a.reals index = b.reals index
  | .int64 => a.ints index = b.ints index
  | .bool => a.bools index = b.bools index

omit [Double R] in
theorem same.trans {a b c : Slots R} {scalar : SignalScalarType} {index : Nat} (first : a.same b scalar index)
    (second : b.same c scalar index) : a.same c scalar index := by
  cases scalar <;> exact Eq.trans first second

omit [Double R] in
theorem same.refl (a : Slots R) (scalar : SignalScalarType) (index : Nat) : a.same a scalar index := by
  cases scalar <;> rfl

/-- The values of one slot, taken from `candidates`. -/
def commit (values candidates : Slots R) (slot : SignalSlotHandle) : Slots R :=
  match slot.scalar with
  | .real => { values with
      reals := store values.reals slot.offset slot.width fun element => candidates.reals (slot.offset + element) }
  | .int64 => { values with
      ints := store values.ints slot.offset slot.width fun element => candidates.ints (slot.offset + element) }
  | .bool => { values with
      bools := store values.bools slot.offset slot.width fun element => candidates.bools (slot.offset + element) }

theorem store_commit {α : Type} {values candidates : Nat → α} {slot : SignalSlotHandle} {index : Nat} :
    store values slot.offset slot.width (fun element => candidates (slot.offset + element)) index =
      if slot.offset ≤ index ∧ index < slot.offset + slot.width then candidates index else values index := by
  unfold store
  split
  · next inside =>
    dsimp only
    rw [Nat.add_sub_cancel' inside.1]
  · rfl

omit [Double R] in
theorem commit_inside {values candidates : Slots R} {block : CompiledBlock R} {scalar : SignalScalarType} {index : Nat}
    (owned : block.place.outputs scalar index) :
    (values.commit candidates block.output).same candidates scalar index := by
  obtain ⟨rfl, inside⟩ := owned
  change block.output.offset ≤ index ∧ index < block.output.offset + block.output.width at inside
  unfold commit same
  show match block.output.scalar with | .real => _ | .int64 => _ | .bool => _
  cases block.output.scalar <;> simp [store_commit, inside]

omit [Double R] in
theorem commit_outside {values candidates : Slots R} {block : CompiledBlock R} {scalar : SignalScalarType} {index : Nat}
    (free : ¬block.place.outputs scalar index) :
    (values.commit candidates block.output).same values scalar index := by
  unfold commit
  split
  · next kind =>
    cases scalar with
    | real =>
      exact store_commit.trans (if_neg fun inside => free ⟨kind, inside⟩)
    | _ => rfl
  · next kind =>
    cases scalar with
    | int64 =>
      exact store_commit.trans (if_neg fun inside => free ⟨kind, inside⟩)
    | _ => rfl
  · next kind =>
    cases scalar with
    | bool =>
      exact store_commit.trans (if_neg fun inside => free ⟨kind, inside⟩)
    | _ => rfl

/-- How far two values of a slot are apart, as an iteration measures it. -/
def distance (a b : Slots R) (scalar : SignalScalarType) (index : Nat) : R :=
  match scalar with
  | .real => Double.abs (a.reals index - b.reals index)
  | .int64 => if a.ints index = b.ints index then 0.0 else 1.0
  | .bool => if a.bools index = b.bools index then 0.0 else 1.0

end Slots

instance : Std.Symm fun a b : CompiledBlock R => Apart a.place b.place := ⟨fun _ _ apart => apart.symm⟩

namespace SignalStore

def slots (s : SignalStore R) : Slots R := ⟨s.reals, s.ints, s.bools⟩

def snapshots (s : SignalStore R) : Slots R := ⟨s.realSnapshot, s.intSnapshot, s.boolSnapshot⟩

def candidates (s : SignalStore R) : Slots R := ⟨s.realCandidate, s.intCandidate, s.boolCandidate⟩

def setSlots (s : SignalStore R) (values : Slots R) : SignalStore R :=
  { s with reals := values.reals, ints := values.ints, bools := values.bools }

def setCandidates (s : SignalStore R) (values : Slots R) : SignalStore R :=
  { s with realCandidate := values.reals, intCandidate := values.ints, boolCandidate := values.bools }

section

variable (graph) (due) (timestampNs) (item)

/-- One iteration of a loop. -/
def sweep (s : SignalStore R) : Except Exception (SignalStore R) := do
  let evaluated ← (participants graph due item).foldlM (evaluateLoopBlock timestampNs) s.snapshot
  return evaluated.commitItem graph due item

/-- The `delta` of an iteration. -/
def delta (s : SignalStore R) : R :=
  (participants graph due item).foldl (fun delta block => Double.max delta (s.difference block.output)) 0.0

/-- The flag `converged` after the iterations that remain. -/
def converges : Nat → SignalStore R → Bool
  | 0, _ => false
  | remaining + 1, s =>
    match s.sweep graph due timestampNs item with
    | .ok committed => le (committed.delta graph due item) item.tolerance || converges remaining committed
    | .error _ => false

/-- Iterations lead from `s` to `t`. -/
def Sweeps (s t : SignalStore R) : Prop :=
  Relation.ReflTransGen (fun s t => sweep graph due timestampNs item s = .ok t) s t

end

theorem iterate_converged {remaining : Nat} {s left : SignalStore R}
    (ran : s.iterate graph due timestampNs item remaining = .ok left)
    (converged : s.converges graph due timestampNs item remaining = true) :
    ∃ previous, Sweeps graph due timestampNs item s previous ∧
      previous.sweep graph due timestampNs item = .ok left ∧ le (left.delta graph due item) item.tolerance = true := by
  induction remaining generalizing s with
  | zero => cases converged
  | succ remaining ih =>
    unfold iterate at ran
    unfold converges at converged
    obtain ⟨evaluated, evaluates, ran⟩ := bind_ok ran
    have swept : s.sweep graph due timestampNs item = .ok (evaluated.commitItem graph due item) := by
      unfold sweep
      rw [evaluates]
      rfl
    rw [swept] at converged
    dsimp only at ran converged
    by_cases small : le ((evaluated.commitItem graph due item).delta graph due item) item.tolerance = true
    · unfold delta at small
      rw [if_pos small] at ran
      obtain rfl := Except.ok.inj ran
      exact ⟨s, .refl, swept, small⟩
    · have later : (evaluated.commitItem graph due item).converges graph due timestampNs item remaining = true := by
        simpa [small] using converged
      unfold delta at small
      rw [if_neg small] at ran
      obtain ⟨previous, run, last, close⟩ := ih ran later
      exact ⟨previous, .head swept run, last, close⟩

section Kernel

variable {block : CompiledBlock R} {vectors : KernelVectors R}

omit [Double R] in
theorem storeList_outside {values : Nat → R} {contents : List R} {offset width index : Nat}
    (outside : ¬(offset ≤ index ∧ index < offset + width)) :
    storeList values offset width contents index = values index :=
  store_outside outside

/-- Outside of the windows of the block nothing changed. -/
def SameOutside (block : CompiledBlock R) (before after : KernelVectors R) (index : Nat) : Prop :=
  (block.output.scalar = .real → ¬block.place.outputs .real index → after.reals index = before.reals index) ∧
    (¬block.place.states index → after.states index = before.states index) ∧
    (¬block.place.discretes index → after.discrete index = before.discrete index)

omit [Double R] in
theorem writeKernel_outside (writes : KernelWrites R) (index : Nat) :
    SameOutside block vectors (writeKernel block writes vectors) index := by
  refine ⟨fun real outside => ?_, fun outside => ?_, fun outside => ?_⟩
  · exact storeList_outside fun inside => outside ⟨real, inside⟩
  · exact storeList_outside outside
  · exact storeList_outside outside

/-- A kernel writes in its own windows. -/
theorem kernelOutputs_outside (s : SignalStore R) (block : CompiledBlock R) (timestampNs index : Nat) :
    SameOutside block s.kernelVectors (s.kernelOutputs block timestampNs).kernelVectors index := by
  unfold kernelOutputs runKernelOutputs
  cases block.kernel with
  | none => exact ⟨fun _ _ => rfl, fun _ => rfl, fun _ => rfl⟩
  | some kernel => exact writeKernel_outside _ index

theorem kernelUpdate_outside (s : SignalStore R) (block : CompiledBlock R) (timestampNs index : Nat) :
    SameOutside block s.kernelVectors (s.kernelUpdate block timestampNs).kernelVectors index := by
  unfold kernelUpdate runKernelUpdate
  cases block.kernel.bind (·.update) with
  | none => exact ⟨fun _ _ => rfl, fun _ => rfl, fun _ => rfl⟩
  | some update => exact writeKernel_outside _ index

end Kernel

/-- The output of a block without state is its equation at `inputs`. -/
def Solves (block : CompiledBlock R) (inputs : Slots R) (dynamicState : Nat → R) (outputs : Slots R) : Prop :=
  ∀ element < block.output.width,
    match block.output.scalar with
    | .real => evaluateReal block inputs.reals dynamicState inputs.bools element =
        .ok (outputs.reals (block.outputIndex element))
    | .int64 => evaluateInt block inputs.ints inputs.bools element = .ok (outputs.ints (block.outputIndex element))
    | .bool => evaluateBool block inputs.bools element = .ok (outputs.bools (block.outputIndex element))

/-- The output of a kernel block is what one call of `outputs` leaves, on the state of `previous` and on inputs
that are those of `previous` or those of `left`. -/
def Called (timestampNs : Nat) (previous left : SignalStore R) (block : CompiledBlock R) : Prop :=
  ∃ vectors called : KernelVectors R,
    called = runKernelOutputs block previous.kernelParams timestampNs true previous.stageMajorNs vectors ∧
    (∀ index, vectors.reals index = previous.reals index ∨ vectors.reals index = left.reals index) ∧
    (∀ index, block.place.outputs .real index → left.reals index = called.reals index) ∧
    (∀ index, block.place.states index →
      vectors.states index = previous.dynamicState index ∧ left.dynamicState index = called.states index) ∧
    ∀ index, block.place.discretes index →
      vectors.discrete index = previous.kernelDiscrete index ∧ left.kernelDiscrete index = called.discrete index

theorem mapM_getD {α ε : Type} {f : Nat → Except ε α} {width : Nat} {values : List α} (fallback : α)
    (ran : (List.range width).mapM f = .ok values) {element : Nat} (inside : element < width) :
    f element = .ok (values.getD element fallback) := by
  have each := mapM_forall₂ ran
  have length := each.length_eq
  rw [List.length_range] at length
  have here := List.forall₂_iff_get.mp each |>.2 element (by simpa using inside) (by omega)
  simpa [List.getD_eq_getElem?_getD, length ▸ inside] using here

/-- An evaluation changes the candidates of the block, to its equation at the snapshots. -/
theorem evaluate_ok {s t : SignalStore R} {block : CompiledBlock R} (ran : s.evaluate block = .ok t) :
    t = s.setCandidates t.candidates ∧ Solves block s.snapshots s.dynamicState t.candidates ∧
      ∀ scalar index, ¬block.place.outputs scalar index → t.candidates.same s.candidates scalar index := by
  unfold evaluate at ran
  dsimp only at ran
  split at ran
  · next real =>
    obtain ⟨values, evaluated, ran⟩ := bind_ok ran
    obtain rfl := Except.ok.inj ran
    refine ⟨rfl, fun element inside => ?_, fun scalar index outside => ?_⟩
    · rw [real]
      show _ = Except.ok (storeList s.realCandidate block.output.offset block.output.width values
        (block.output.offset + element))
      unfold storeList
      rw [store_inside inside]
      exact mapM_getD _ evaluated inside
    · cases scalar with
      | real => exact storeList_outside fun inside => outside ⟨real, inside⟩
      | _ => rfl
  · next int =>
    obtain ⟨values, evaluated, ran⟩ := bind_ok ran
    obtain rfl := Except.ok.inj ran
    refine ⟨rfl, fun element inside => ?_, fun scalar index outside => ?_⟩
    · rw [int]
      show _ = Except.ok (store s.intCandidate block.output.offset block.output.width
        (fun element => values.getD element 0) (block.output.offset + element))
      rw [store_inside inside]
      exact mapM_getD _ evaluated inside
    · cases scalar with
      | int64 =>
        show store s.intCandidate _ _ (fun element => values.getD element 0) index = _
        exact store_outside fun inside => outside ⟨int, inside⟩
      | _ => rfl
  · next bool =>
    obtain ⟨values, evaluated, ran⟩ := bind_ok ran
    obtain rfl := Except.ok.inj ran
    refine ⟨rfl, fun element inside => ?_, fun scalar index outside => ?_⟩
    · rw [bool]
      show _ = Except.ok (store s.boolCandidate block.output.offset block.output.width
        (fun element => values.getD element false) (block.output.offset + element))
      rw [store_inside inside]
      exact mapM_getD _ evaluated inside
    · cases scalar with
      | bool =>
        show store s.boolCandidate _ _ (fun element => values.getD element false) index = _
        exact store_outside fun inside => outside ⟨bool, inside⟩
      | _ => rfl

theorem Solves.congr {block : CompiledBlock R} {inputs outputs outputs' : Slots R} {dynamicState : Nat → R}
    (solves : Solves block inputs dynamicState outputs)
    (same : ∀ index, block.place.outputs block.output.scalar index → outputs'.same outputs block.output.scalar index) :
    Solves block inputs dynamicState outputs' := by
  intro element inside
  have here := solves element inside
  have written := same (block.outputIndex element) ⟨rfl, Nat.le_add_right _ _, Nat.add_lt_add_left inside _⟩
  revert here written
  unfold Slots.same
  cases block.output.scalar <;> exact fun here written => written ▸ here

/-- Only state-space blocks read their state. -/
theorem Solves.state {block : CompiledBlock R} {inputs outputs : Slots R} {dynamicState dynamicState' : Nat → R}
    (solves : Solves block inputs dynamicState outputs) (continuous : block.kind ≠ .stateSpaceContinuous)
    (discrete : block.kind ≠ .stateSpaceDiscrete) : Solves block inputs dynamicState' outputs := by
  have same : ∀ element, evaluateReal block inputs.reals dynamicState inputs.bools element =
      evaluateReal block inputs.reals dynamicState' inputs.bools element := by
    intro element
    unfold evaluateReal
    cases kind : block.kind <;> first | rfl | exact absurd kind continuous | exact absurd kind discrete
  intro element inside
  have here := solves element inside
  rw [same] at here
  exact here

theorem Called.mono {previous middle left : SignalStore R} {block : CompiledBlock R}
    (called : Called timestampNs previous middle block)
    (reals : ∀ index, left.reals index = middle.reals index ∨ middle.reals index = previous.reals index)
    (outputs : ∀ index, block.place.outputs .real index → left.reals index = middle.reals index)
    (states : ∀ index, block.place.states index → left.dynamicState index = middle.dynamicState index)
    (discretes : ∀ index, block.place.discretes index → left.kernelDiscrete index = middle.kernelDiscrete index) :
    Called timestampNs previous left block := by
  obtain ⟨vectors, after, call, inputs, written, stated, kept⟩ := called
  refine ⟨vectors, after, call, fun index => ?_, ?_, ?_, ?_⟩
  · rcases inputs index with old | new
    · exact Or.inl old
    · rcases reals index with same | old
      · exact Or.inr (new.trans same.symm)
      · exact Or.inl (new.trans old)
  · exact fun index inside => (outputs index inside).trans (written index inside)
  · exact fun index inside => ⟨(stated index inside).1, (states index inside).trans (stated index inside).2⟩
  · exact fun index inside => ⟨(kept index inside).1, (discretes index inside).trans (kept index inside).2⟩

/-- The blocks done so far, from the values of `previous`. -/
structure Evaluated (timestampNs : Nat) (previous : SignalStore R) (done : List (CompiledBlock R))
    (s : SignalStore R) : Prop where
  snapshots : s.snapshots = previous.slots
  ints : s.ints = previous.ints
  bools : s.bools = previous.bools
  params : s.kernelParams = previous.kernelParams
  stage : s.stageMajorNs = previous.stageMajorNs
  reals : ∀ index, (∀ block ∈ done, block.kind = .kernel → ¬block.place.outputs .real index) →
    s.reals index = previous.reals index
  states : ∀ index, (∀ block ∈ done, block.kind = .kernel → ¬block.place.states index) →
    s.dynamicState index = previous.dynamicState index
  discretes : ∀ index, (∀ block ∈ done, block.kind = .kernel → ¬block.place.discretes index) →
    s.kernelDiscrete index = previous.kernelDiscrete index
  solved : ∀ block ∈ done, block.kind ≠ .kernel → block.kind ≠ .stateSpaceContinuous →
    block.kind ≠ .stateSpaceDiscrete → Solves block previous.slots previous.dynamicState s.candidates
  called : ∀ block ∈ done, block.kind = .kernel → Called timestampNs previous s block

theorem Evaluated.kernel {previous s : SignalStore R} {done : List (CompiledBlock R)} {block : CompiledBlock R}
    (h : Evaluated timestampNs previous done s) (kernel : block.kind = .kernel) (real : block.output.scalar = .real)
    (apart : ∀ other ∈ done, Apart other.place block.place) :
    Evaluated timestampNs previous (done ++ [block]) (s.kernelOutputs block timestampNs) := by
  have reals : ∀ index, block.place.outputs .real index → s.reals index = previous.reals index :=
    fun index inside => h.reals index fun other member _ inOther => (apart other member).outputs _ _ inOther inside
  have states : ∀ index, block.place.states index → s.dynamicState index = previous.dynamicState index :=
    fun index inside => h.states index fun other member _ inOther => (apart other member).states _ inOther inside
  have discretes : ∀ index, block.place.discretes index → s.kernelDiscrete index = previous.kernelDiscrete index :=
    fun index inside => h.discretes index fun other member _ inOther =>
      (apart other member).discretes _ inOther inside
  have outside := s.kernelOutputs_outside block timestampNs
  have own : Called timestampNs previous (s.kernelOutputs block timestampNs) block := by
    refine ⟨s.kernelVectors, _, rfl, fun index => ?_, fun index _ => ?_, fun index inside => ⟨states index inside, ?_⟩,
      fun index inside => ⟨discretes index inside, ?_⟩⟩
    · by_cases inside : block.place.outputs .real index
      · exact Or.inl (reals index inside)
      · exact Or.inr ((outside index).1 real inside).symm
    all_goals
      rw [← h.params, ← h.stage]
      rfl
  refine ⟨h.snapshots, h.ints, h.bools, h.params, h.stage, fun index free => ?_, fun index free => ?_,
    fun index free => ?_, fun other member => ?_, fun other member isKernel => ?_⟩
  · refine ((outside index).1 real (free block (by simp) kernel)).trans ?_
    exact h.reals index fun other member => free other (List.mem_append_left _ member)
  · refine ((outside index).2.1 (free block (by simp) kernel)).trans ?_
    exact h.states index fun other member => free other (List.mem_append_left _ member)
  · refine ((outside index).2.2 (free block (by simp) kernel)).trans ?_
    exact h.discretes index fun other member => free other (List.mem_append_left _ member)
  · intro notKernel
    rcases List.mem_append.mp member with before | here
    · exact h.solved other before notKernel
    · obtain rfl := List.mem_singleton.mp here
      exact absurd kernel notKernel
  · rcases List.mem_append.mp member with before | here
    · refine (h.called other before isKernel).mono (fun index => ?_) (fun index inside => ?_) (fun index inside => ?_)
        (fun index inside => ?_)
      · by_cases inside : block.place.outputs .real index
        · exact Or.inr (reals index inside)
        · exact Or.inl ((outside index).1 real inside)
      · exact (outside index).1 real ((apart other before).outputs _ _ inside)
      · exact (outside index).2.1 ((apart other before).states _ inside)
      · exact (outside index).2.2 ((apart other before).discretes _ inside)
    · obtain rfl := List.mem_singleton.mp here
      exact own

theorem Evaluated.plain {previous s t : SignalStore R} {done : List (CompiledBlock R)} {block : CompiledBlock R}
    (h : Evaluated timestampNs previous done s) (kernel : block.kind ≠ .kernel)
    (apart : ∀ other ∈ done, Apart other.place block.place) (ran : s.evaluate block = .ok t) :
    Evaluated timestampNs previous (done ++ [block]) t := by
  obtain ⟨changed, solves, outside⟩ := evaluate_ok ran
  have snapshots : t.snapshots = previous.slots := by
    rw [changed]
    exact h.snapshots
  have free : ∀ {P : CompiledBlock R → Prop}, (∀ other ∈ done ++ [block], other.kind = .kernel → P other) →
      ∀ other ∈ done, other.kind = .kernel → P other :=
    fun all other member => all other (List.mem_append_left _ member)
  refine ⟨snapshots, ?_, ?_, ?_, ?_, fun index all => ?_, fun index all => ?_, fun index all => ?_,
    fun other member notKernel continuous discrete => ?_, fun other member isKernel => ?_⟩
  · rw [changed]
    exact h.ints
  · rw [changed]
    exact h.bools
  · rw [changed]
    exact h.params
  · rw [changed]
    exact h.stage
  · rw [changed]
    exact h.reals index (free all)
  · rw [changed]
    exact h.states index (free all)
  · rw [changed]
    exact h.discretes index (free all)
  · rcases List.mem_append.mp member with before | here
    · refine (h.solved other before notKernel continuous discrete).congr fun index inside => ?_
      exact outside _ index ((apart other before).outputs _ _ inside)
    · obtain rfl := List.mem_singleton.mp here
      rw [h.snapshots] at solves
      exact solves.state continuous discrete
  · rcases List.mem_append.mp member with before | here
    · have called := h.called other before isKernel
      rw [changed]
      exact called
    · obtain rfl := List.mem_singleton.mp here
      exact absurd isKernel kernel

theorem evaluateAll_spec {blocks : List (CompiledBlock R)} {previous s : SignalStore R}
    (apart : blocks.Pairwise fun a b => Apart a.place b.place)
    (real : ∀ block ∈ blocks, block.kind = .kernel → block.output.scalar = .real)
    (ran : blocks.foldlM (evaluateLoopBlock timestampNs) previous.snapshot = .ok s) :
    Evaluated timestampNs previous blocks s := by
  refine foldlM_history (P := fun done s => done.Pairwise (fun a b => Apart a.place b.place) →
    (∀ block ∈ done, block.kind = .kernel → block.output.scalar = .real) →
      Evaluated timestampNs previous done s) ran ?_ ?_ apart real
  · intro _ _
    refine ⟨rfl, rfl, rfl, rfl, rfl, fun _ _ => rfl, fun _ _ => rfl, fun _ _ => rfl, by simp, by simp⟩
  · intro done block s t ih step apart real
    obtain ⟨before, _, across⟩ := List.pairwise_append.mp apart
    have h := ih before fun other member => real other (List.mem_append_left _ member)
    have away : ∀ other ∈ done, Apart other.place block.place := fun other member => across other member block (by simp)
    unfold evaluateLoopBlock at step
    by_cases kernel : block.kind = .kernel
    · rw [if_pos kernel] at step
      obtain rfl := Except.ok.inj step
      exact h.kernel kernel (real block (by simp) kernel) away
    · rw [if_neg kernel] at step
      exact h.plain kernel away step

omit [Double R] in
theorem commitSlot_eq (s : SignalStore R) (slot : SignalSlotHandle) :
    s.commitSlot slot = s.setSlots (s.slots.commit s.candidates slot) := by
  unfold commitSlot Slots.commit
  cases slot.scalar <;> rfl

omit [Double R] in
theorem commits_spec (blocks : List (CompiledBlock R)) (s : SignalStore R) :
    ∃ values, blocks.foldl (fun s block => s.commitSlot block.output) s = s.setSlots values ∧
      (∀ block ∈ blocks, ∀ scalar index, block.place.outputs scalar index →
        values.same s.candidates scalar index) ∧
      ∀ scalar index, (∀ block ∈ blocks, ¬block.place.outputs scalar index) → values.same s.slots scalar index := by
  induction blocks generalizing s with
  | nil => exact ⟨s.slots, rfl, by simp, fun scalar index _ => .refl _ scalar index⟩
  | cons block blocks ih =>
    obtain ⟨values, run, inside, outside⟩ := ih (s.commitSlot block.output)
    rw [commitSlot_eq] at run inside outside
    have later : ∀ scalar index, (∀ other ∈ blocks, ¬other.place.outputs scalar index) →
        values.same (s.slots.commit s.candidates block.output) scalar index := outside
    refine ⟨values, ?_, fun other member scalar index owned => ?_, fun scalar index free => ?_⟩
    · rw [List.foldl_cons, commitSlot_eq, run]
      rfl
    · rcases List.mem_cons.mp member with rfl | member
      · by_cases again : ∃ other ∈ blocks, other.place.outputs scalar index
        · obtain ⟨last, member, owned⟩ := again
          exact inside last member scalar index owned
        · exact (later scalar index fun last member owned => again ⟨last, member, owned⟩).trans
            (Slots.commit_inside owned)
      · exact inside other member scalar index owned
    · exact (later scalar index fun other member => free other (List.mem_cons_of_mem _ member)).trans
        (Slots.commit_outside (free block List.mem_cons_self))

/-- What an iteration does with the values of `previous`. -/
structure Swept (timestampNs : Nat) (blocks : List (CompiledBlock R)) (previous left : SignalStore R) : Prop where
  snapshots : left.snapshots = previous.slots
  slots : ∀ scalar index, (∀ block ∈ blocks, ¬block.place.outputs scalar index) →
    left.slots.same previous.slots scalar index
  states : ∀ index, (∀ block ∈ blocks, block.kind = .kernel → ¬block.place.states index) →
    left.dynamicState index = previous.dynamicState index
  solved : ∀ block ∈ blocks, block.kind ≠ .kernel → block.kind ≠ .stateSpaceContinuous →
    block.kind ≠ .stateSpaceDiscrete → Solves block previous.slots previous.dynamicState left.slots
  called : ∀ block ∈ blocks, block.kind = .kernel → Called timestampNs previous left block

theorem sweep_spec {previous left : SignalStore R}
    (apart : (participants graph due item).Pairwise fun a b => Apart a.place b.place)
    (real : ∀ block ∈ participants graph due item, block.kind = .kernel → block.output.scalar = .real)
    (ran : previous.sweep graph due timestampNs item = .ok left) :
    Swept timestampNs (participants graph due item) previous left := by
  unfold sweep at ran
  obtain ⟨evaluated, evaluates, ran⟩ := bind_ok ran
  obtain rfl := Except.ok.inj ran
  have h := evaluateAll_spec apart real evaluates
  unfold commitItem
  obtain ⟨values, commits, inside, outside⟩ :=
    commits_spec ((participants graph due item).filter fun block => block.kind ≠ .kernel) evaluated
  rw [commits]
  have member : ∀ {block}, block ∈ participants graph due item → block.kind ≠ .kernel →
      block ∈ (participants graph due item).filter fun block => block.kind ≠ .kernel :=
    fun here plain => List.mem_filter.mpr ⟨here, by simpa using plain⟩
  have kernelFree : ∀ block ∈ participants graph due item, block.kind = .kernel →
      ∀ other ∈ participants graph due item, other.kind ≠ .kernel → Apart other.place block.place := by
    intro block here kernel other there plain
    exact apart.forall there here fun same => plain (same ▸ kernel)
  refine ⟨h.snapshots, fun scalar index free => ?_, fun index free => h.states index free,
    fun block here plain continuous discrete => ?_, fun block here kernel => ?_⟩
  · refine (outside scalar index fun other there => free other (List.mem_of_mem_filter there)).trans ?_
    cases scalar with
    | real => exact h.reals index fun block here _ => free block here
    | int64 => exact congrFun h.ints index
    | bool => exact congrFun h.bools index
  · exact (h.solved block here plain continuous discrete).congr fun index owned =>
      inside block (member here plain) _ index owned
  · refine (h.called block here kernel).mono (fun index => ?_) (fun index owned => ?_) (fun _ _ => rfl) (fun _ _ => rfl)
    · by_cases owned : ∃ other ∈ participants graph due item, other.kind ≠ .kernel ∧ other.place.outputs .real index
      · obtain ⟨other, there, plain, owned⟩ := owned
        exact Or.inr (h.reals index fun block here kernel =>
          (kernelFree block here kernel other there plain).outputs _ _ owned)
      · refine Or.inl (outside .real index fun other there inOther => owned ⟨other, ?_⟩)
        obtain ⟨there, plain⟩ := List.mem_filter.mp there
        exact ⟨there, by simpa using plain, inOther⟩
    · refine outside .real index fun other there inOther => ?_
      obtain ⟨there, plain⟩ := List.mem_filter.mp there
      exact (kernelFree block here kernel other there (by simpa using plain)).outputs _ _ inOther owned

/-- A `delta` within the tolerance bounds the change of every element of the blocks. -/
theorem delta_le [Double.Ordered R] {s : SignalStore R} (close : le (s.delta graph due item) item.tolerance = true)
    {block : CompiledBlock R} (member : block ∈ participants graph due item) {element : Nat}
    (inside : element < block.output.width) :
    lt item.tolerance (s.slots.distance s.snapshots block.output.scalar (block.outputIndex element)) = false := by
  have number : le (0.0 : R) 0.0 = true := Ordered.zero_le_zero
  have bounded := (foldl_max_le close).2 block member
  have real : le (s.difference block.output) (s.difference block.output) = true := foldl_max_number number
  have whole := Ordered.le_of_not_lt (Ordered.le_self_of_le close) real bounded
  have each := (foldl_max_le whole).2 element (List.mem_range.mpr inside)
  exact each

theorem evaluateDiscrete_slots (s : SignalStore R) (block : CompiledBlock R) (element : Nat) :
    (evaluateDiscrete graph block s element).slots = s.slots := by
  unfold evaluateDiscrete
  dsimp only
  split <;> rfl

theorem evaluateBlock_outside {s t : SignalStore R} {block : CompiledBlock R}
    (real : block.kind = .kernel → block.output.scalar = .real)
    (ran : s.evaluateBlock graph timestampNs block = .ok t) {scalar : SignalScalarType} {index : Nat}
    (free : ¬block.place.outputs scalar index) : t.slots.same s.slots scalar index := by
  unfold evaluateBlock at ran
  split at ran
  · next kernel =>
    obtain rfl := Except.ok.inj ran
    cases scalar with
    | real => exact (s.kernelOutputs_outside block timestampNs index).1 (real kernel) free
    | _ => rfl
  · split at ran
    · obtain rfl := Except.ok.inj ran
      rw [Fold.foldl_keeps slots _ fun s element _ => evaluateDiscrete_slots s block element]
      exact .refl _ scalar index
    · rw [(evaluate_ok ran).1]
      exact .refl _ scalar index

/-- An item writes outputs of its own blocks. -/
theorem runItem_outside {s t : SignalStore R}
    (apart : (participants graph due item).Pairwise fun a b => Apart a.place b.place)
    (real : ∀ block ∈ participants graph due item, block.kind = .kernel → block.output.scalar = .real)
    (ran : s.runItem graph due timestampNs item = .ok t) {scalar : SignalScalarType} {index : Nat}
    (free : ∀ block ∈ participants graph due item, ¬block.place.outputs scalar index) :
    t.slots.same s.slots scalar index := by
  unfold runItem at ran
  split at ran
  · generalize item.maxIterations = remaining at ran
    induction remaining generalizing s with
    | zero =>
      obtain rfl := Except.ok.inj ran
      exact .refl _ scalar index
    | succ remaining ih =>
      unfold iterate at ran
      obtain ⟨evaluated, evaluates, ran⟩ := bind_ok ran
      have swept : s.sweep graph due timestampNs item = .ok (evaluated.commitItem graph due item) := by
        unfold sweep
        rw [evaluates]
        rfl
      have first := (sweep_spec apart real swept).slots scalar index free
      dsimp only at ran
      split at ran
      · obtain rfl := Except.ok.inj ran
        exact first
      · exact (ih ran).trans first
  · obtain ⟨evaluated, evaluates, ran⟩ := bind_ok ran
    obtain rfl := Except.ok.inj ran
    obtain ⟨values, commits, _, outside⟩ :=
      commits_spec ((participants graph due item).filter fun block => block.kind ≠ .kernel) evaluated
    have first : evaluated.slots.same s.slots scalar index := by
      refine foldlM_history (P := fun done t => (∀ block ∈ done, ¬block.place.outputs scalar index) →
        (∀ block ∈ done, block.kind = .kernel → block.output.scalar = .real) →
          t.slots.same s.slots scalar index) evaluates ?_ ?_ free real
      · exact fun _ _ => .refl _ scalar index
      · intro done block t u ih step free real
        refine (evaluateBlock_outside (real block (by simp)) step (free block (by simp))).trans ?_
        exact ih (fun other member => free other (List.mem_append_left _ member))
          fun other member => real other (List.mem_append_left _ member)
    unfold commitItem
    rw [commits]
    exact (outside scalar index fun other there => free other (List.mem_of_mem_filter there)).trans first

theorem latch_slots (s : SignalStore R) (block : CompiledBlock R) : (s.latch block).slots = s.slots := by
  unfold latch
  dsimp only
  split <;> rfl

theorem recordDelays_slots (s : SignalStore R) : (s.recordDelays graph timestampNs).slots = s.slots := by
  unfold recordDelays
  refine Fold.foldl_keeps slots _ ?_ s
  intro acc block _
  rfl

section

variable (graph) (due) (timestampNs)

/-- One round of the loop over the items. -/
def enterItem (current : Option Nat × SignalStore R) (item : ExecutionItem R) :
    Except Exception (Option Nat × SignalStore R) := do
  let s := if current.1 = some item.microstep then current.2 else current.2.snapshot
  let s ← s.runItem graph due timestampNs item
  return (some item.microstep, s)

/-- The blocks that latch, in order. -/
def latchOrder : List Nat :=
  (graph.items.flatMap (·.blocks)).filter fun index => groupDue due (graph.block index).group

/-- The kernel blocks that update, in order. -/
def updateOrder : List Nat :=
  graph.kernelBlocks.filter fun index =>
    if (graph.block index).group = .continuous then hasContinuous graph else groupDue due (graph.block index).group

end

theorem runItems_eq (s : SignalStore R) : s.runItems graph due timestampNs =
    (fun last => last.2) <$> (graph.items.filter (itemRuns graph due)).foldlM (enterItem graph due timestampNs)
      (none, s) := rfl

theorem latchAll_eq (s : SignalStore R) : s.latchAll graph due =
    (latchOrder graph due).foldl (fun s index => s.latch (graph.block index)) s := by
  unfold latchAll latchOrder
  rw [List.filter_map, List.foldl_map]
  rfl

theorem updateKernels_eq (s : SignalStore R) : s.updateKernels graph due timestampNs =
    (updateOrder graph due).foldl (fun s index => s.kernelUpdate (graph.block index) timestampNs) s := by
  unfold updateKernels updateOrder
  rw [List.filter_map, List.foldl_map]
  rfl

end SignalStore

/-! ### Compiled loops -/

/-- Every block of a loop has an input from the loop in the same instant. -/
theorem loop_fed (compiled : compile tools definition = .ok graph) (member : item ∈ graph.items)
    (loop : item.fixedPoint = true) {b : Fin definition.blocks.length} (atB : b.val ∈ item.blocks) :
    ∃ a, Feeds tools definition a b := by
  obtain ⟨edges, components, isEdge, rfl, _, run⟩ := compile_ok compiled
  obtain ⟨covers, distinct, classes⟩ :=
    StrongComponents.components_spec edges (List.mem_finRange (n := definition.blocks.length))
  have partition : Partition (StrongComponents.components edges (List.finRange definition.blocks.length)) :=
    ⟨covers, distinct, fun c member => (classes c member).1⟩
  obtain ⟨c, listed, blocks, fixed⟩ := (partition.ordered run).made item member
  rw [blocks, mem_map_val] at atB
  obtain ⟨_, sorted, isClass⟩ := classes c listed
  have nodup : c.Nodup := (List.nodup_flatten.mp distinct).1 c listed
  have fromOther : ∀ other ∈ c, other ≠ b → ∃ a, Feeds tools definition a b := by
    intro other there different
    obtain ⟨_, back⟩ := (isClass b atB other).mp there
    rcases Relation.ReflTransGen.cases_tail back with same | ⟨a, _, last⟩
    · exact absurd same.symm different
    · exact ⟨a, (isEdge a b).mp last⟩
  rw [fixed] at loop
  unfold cyclic at loop
  by_cases single : ∃ other ∈ c, other ≠ b
  · obtain ⟨other, there, different⟩ := single
    exact fromOther other there different
  · have only : c = [b] := by
      have all : ∀ other ∈ c, other = b := fun other there => by
        by_contra different
        exact single ⟨other, there, different⟩
      exact List.eq_replicate_iff.mpr ⟨rfl, all⟩ |>.trans (by
        have := List.nodup_replicate.mp ((List.eq_replicate_iff.mpr ⟨rfl, all⟩) ▸ nodup)
        have := List.length_pos_of_mem atB
        rw [show c.length = 1 by omega]
        rfl)
    rw [only] at loop
    exact ⟨b, (isEdge b b).mp (by simpa using loop)⟩

theorem Feeds.kind {a b : Fin definition.blocks.length} (feeds : Feeds tools definition a b) :
    (definition.block b).kind ≠ .stateSpaceContinuous := by
  obtain ⟨_, _, _, _, _, _, direct⟩ := feeds
  intro kind
  simp [instantaneous, kind, isContinuous] at direct

section

variable (compiled : compile tools definition = .ok graph)
include compiled

theorem items_nodup : (graph.items.flatMap (·.blocks)).Nodup :=
  (scheduled_ok compiled).once.nodup_iff.mpr List.nodup_range

theorem item_bound {item : ExecutionItem R} (member : item ∈ graph.items) {index : Nat} (inside : index ∈ item.blocks) :
    index < definition.blocks.length :=
  List.mem_range.mp ((scheduled_ok compiled).once.mem_iff.mp (List.mem_flatMap.mpr ⟨item, member, inside⟩))

theorem participants_apart (member : item ∈ graph.items) :
    (SignalStore.participants graph due item).Pairwise fun a b => Apart a.place b.place := by
  have nodup : item.blocks.Nodup := (List.nodup_flatMap.mp (items_nodup compiled)).1 item member
  unfold SignalStore.participants
  rw [List.pairwise_map]
  refine List.Pairwise.imp_of_mem ?_ (nodup.filter _)
  intro i j inI inJ different
  have apart := (compile_separate compiled).apart ⟨i, item_bound compiled member (List.mem_of_mem_filter inI)⟩
    ⟨j, item_bound compiled member (List.mem_of_mem_filter inJ)⟩ (fun same => different (congrArg Fin.val same))
  exact apart

theorem participants_real (member : item ∈ graph.items) :
    ∀ block ∈ SignalStore.participants graph due item, block.kind = .kernel → block.output.scalar = .real := by
  intro block inside
  obtain ⟨index, listed, rfl⟩ := List.mem_map.mp inside
  exact (compile_separate compiled).kernel ⟨index, item_bound compiled member (List.mem_of_mem_filter listed)⟩

theorem compile_kernelBlocks : graph.kernelBlocks = (graph.items.flatMap (·.blocks)).filter fun index =>
    graph.blocks[index]?.any fun block => block.kind = .kernel := by
  unfold compile at compiled
  obtain ⟨_, _, h⟩ := bind_ok compiled
  obtain ⟨_, _, h⟩ := bind_ok h
  obtain ⟨begun, _, h⟩ := bind_ok h
  obtain ⟨connected, _, h⟩ := bind_ok h
  obtain ⟨_, _, h⟩ := bind_ok h
  obtain ⟨_, _, h⟩ := bind_ok h
  obtain ⟨items, _, h⟩ := bind_ok h
  obtain rfl := Except.ok.inj h
  rfl

theorem kernelBlocks_nodup : graph.kernelBlocks.Nodup := by
  rw [compile_kernelBlocks compiled]
  exact (items_nodup compiled).filter _

theorem mem_kernelBlocks {index : Nat} :
    index ∈ graph.kernelBlocks ↔ index < definition.blocks.length ∧ (graph.block index).kind = .kernel := by
  rw [compile_kernelBlocks compiled, List.mem_filter, (scheduled_ok compiled).once.mem_iff, List.mem_range]
  refine and_congr_right fun bound => ?_
  have inside : index < graph.blocks.length := by
    rw [(compile_separate compiled).length]
    exact bound
  simp [CompiledSignalGraph.block, List.getD_eq_getElem?_getD, inside]

end

namespace SignalStore

/-- A loop that converged, from the values `previous` of its last iteration, and what the batch keeps of it. -/
structure LoopSolved (graph : CompiledSignalGraph R) (due : Nat → Bool) (timestampNs : Nat) (item : ExecutionItem R)
    (entered previous left after : SignalStore R) : Prop where
  leaves : entered.iterate graph due timestampNs item item.maxIterations = .ok left
  close : ∀ block ∈ participants graph due item, ∀ element < block.output.width,
    lt item.tolerance (left.slots.distance previous.slots block.output.scalar (block.outputIndex element)) = false
  others : ∀ scalar index, (∀ block ∈ participants graph due item, ¬block.place.outputs scalar index) →
    left.slots.same previous.slots scalar index
  solved : ∀ block ∈ participants graph due item, block.kind ≠ .kernel → isDiscreteState block.kind = false →
    Solves block previous.slots previous.dynamicState left.slots
  called : ∀ block ∈ participants graph due item, block.kind = .kernel → Called timestampNs previous left block
  published : ∀ block ∈ participants graph due item, block.kind ≠ .kernel → ∀ index,
    block.place.outputs block.output.scalar index → after.slots.same left.slots block.output.scalar index
  held : ∀ index, (∀ block ∈ participants graph due item, block.kind = .kernel → ¬block.place.states index) →
    left.dynamicState index = entered.dynamicState index

/-- The states a batch advances are advanced in these steps, one for each due block. -/
structure AdvancedOnce (graph : CompiledSignalGraph R) (due : Nat → Bool) (timestampNs : Nat)
    (item : ExecutionItem R) (ran after : SignalStore R) : Prop where
  steps : after = ((updateOrder graph due).foldl (fun s index => s.kernelUpdate (graph.block index) timestampNs)
    ((latchOrder graph due).foldl (fun s index => s.latch (graph.block index)) ran)).recordDelays graph timestampNs
  latches : ∀ index ∈ item.blocks, groupDue due (graph.block index).group = true →
    (latchOrder graph due).count index = 1
  updates : ∀ index ∈ item.blocks, (graph.block index).kind = .kernel →
    (groupDue due (graph.block index).group = true ∨
      (graph.block index).group = .continuous ∧ hasContinuous graph = true) →
        (updateOrder graph due).count index = 1

theorem iterate_snapshot {remaining : Nat} (s : SignalStore R)
    (converged : s.converges graph due timestampNs item remaining = true) :
    s.snapshot.iterate graph due timestampNs item remaining = s.iterate graph due timestampNs item remaining := by
  cases remaining with
  | zero => cases converged
  | succ remaining => rfl

theorem enterItem_ok {current next : Option Nat × SignalStore R} (loop : item.fixedPoint = true)
    (converged : current.2.converges graph due timestampNs item item.maxIterations = true)
    (ran : enterItem graph due timestampNs current item = .ok next) :
    current.2.iterate graph due timestampNs item item.maxIterations = .ok next.2 := by
  unfold enterItem at ran
  obtain ⟨left, runs, ran⟩ := bind_ok ran
  obtain rfl := Except.ok.inj ran
  unfold runItem at runs
  rw [if_pos loop] at runs
  split at runs
  · exact runs
  · exact (iterate_snapshot current.2 converged).symm.trans runs

section

variable (compiled : compile tools definition = .ok graph)
include compiled

theorem sweeps_held {entered previous : SignalStore R} (member : item ∈ graph.items)
    (sweeps : Sweeps graph due timestampNs item entered previous) {index : Nat}
    (free : ∀ block ∈ participants graph due item, block.kind = .kernel → ¬block.place.states index) :
    previous.dynamicState index = entered.dynamicState index := by
  induction sweeps with
  | refl => rfl
  | tail _ last ih =>
    exact ((sweep_spec (participants_apart compiled member) (participants_real compiled member) last).states index
      free).trans ih

theorem enterItems_outside {items : List (ExecutionItem R)} (members : ∀ item ∈ items, item ∈ graph.items)
    {current last : Option Nat × SignalStore R} (ran : items.foldlM (enterItem graph due timestampNs) current = .ok last)
    {scalar : SignalScalarType} {index : Nat}
    (free : ∀ item ∈ items, ∀ block ∈ participants graph due item, ¬block.place.outputs scalar index) :
    last.2.slots.same current.2.slots scalar index := by
  induction items generalizing current with
  | nil =>
    obtain rfl := Except.ok.inj ran
    exact .refl _ scalar index
  | cons item items ih =>
    rw [List.foldlM_cons] at ran
    obtain ⟨next, first, ran⟩ := bind_ok ran
    have later := ih (fun other member => members other (List.mem_cons_of_mem _ member)) ran
      fun other member => free other (List.mem_cons_of_mem _ member)
    refine later.trans ?_
    unfold enterItem at first
    obtain ⟨left, runs, first⟩ := bind_ok first
    obtain rfl := Except.ok.inj first
    have here := runItem_outside (participants_apart compiled (members item List.mem_cons_self))
      (participants_real compiled (members item List.mem_cons_self)) runs (free item List.mem_cons_self)
    split at here <;> exact here

/-- The end of a batch changes outputs of kernels only. -/
theorem latchAndUpdate_outside {index : Nat} (bound : index < definition.blocks.length)
    (plain : (graph.block index).kind ≠ .kernel) (ran : SignalStore R) {scalar : SignalScalarType} {slot : Nat}
    (owned : (graph.block index).place.outputs scalar slot) :
    (((ran.latchAll graph due).updateKernels graph due timestampNs).recordDelays graph timestampNs).slots.same ran.slots
      scalar slot := by
  rw [recordDelays_slots]
  have latched : (ran.latchAll graph due).slots = ran.slots :=
    Fold.foldl_keeps slots _ (fun s block _ => latch_slots s block) ran
  rw [← latched]
  generalize ran.latchAll graph due = s
  rw [updateKernels_eq]
  have each : ∀ other ∈ updateOrder graph due, other ∈ graph.kernelBlocks := fun other => List.mem_of_mem_filter
  generalize updateOrder graph due = order at each
  induction order generalizing s with
  | nil => exact .refl _ scalar slot
  | cons other order ih =>
    refine (ih (s.kernelUpdate (graph.block other) timestampNs)
      fun later member => each later (List.mem_cons_of_mem _ member)).trans ?_
    obtain ⟨bound', kernel⟩ := (mem_kernelBlocks compiled).mp (each other List.mem_cons_self)
    have different : (⟨index, bound⟩ : Fin definition.blocks.length) ≠ ⟨other, bound'⟩ := by
      intro same
      obtain rfl := congrArg Fin.val same
      exact plain kernel
    have away := (compile_separate compiled).apart _ _ different
    have real := (compile_separate compiled).kernel ⟨other, bound'⟩ kernel
    cases scalar with
    | real => exact (s.kernelUpdate_outside (graph.block other) timestampNs slot).1 real (away.outputs _ _ owned)
    | _ => rfl

/-- Every due block is advanced in one step. -/
theorem advancedOnce (member : item ∈ graph.items) (ran : SignalStore R) :
    AdvancedOnce graph due timestampNs item ran
      (((ran.latchAll graph due).updateKernels graph due timestampNs).recordDelays graph timestampNs) := by
  refine ⟨by rw [latchAll_eq, updateKernels_eq], fun index inside isDue => ?_, fun index inside kernel isDue => ?_⟩
  · refine List.count_eq_one_of_mem ((items_nodup compiled).filter _) (List.mem_filter.mpr ⟨?_, isDue⟩)
    exact List.mem_flatMap.mpr ⟨item, member, inside⟩
  · refine List.count_eq_one_of_mem ((kernelBlocks_nodup compiled).filter _) (List.mem_filter.mpr ⟨?_, ?_⟩)
    · exact (mem_kernelBlocks compiled).mpr ⟨item_bound compiled member inside, kernel⟩
    · rcases isDue with due' | ⟨continuous, has⟩
      · rw [if_neg]
        · exact due'
        · intro continuous
          rw [continuous] at due'
          cases due'
      · rw [if_pos continuous]
        exact has

end

/-- When the iterations of a loop converge, every block has the output its equation gives at values that differ
from the committed ones by no more than the tolerance, and its state is advanced once. -/
theorem activateBatch_solvesLoops [Double.Ordered R] {s after : SignalStore R}
    {entering : Option Nat × SignalStore R} (compiled : compile tools definition = .ok graph)
    (activated : activateBatch graph due timestampNs s = .ok after) (loop : item.fixedPoint = true)
    (enters : Visits (enterItem graph due timestampNs) (graph.items.filter (itemRuns graph due)) (none, s) item entering)
    (converged : entering.2.converges graph due timestampNs item item.maxIterations = true) :
    ∃ previous left ran, Sweeps graph due timestampNs item entering.2 previous ∧
      LoopSolved graph due timestampNs item entering.2 previous left after ∧
        s.runItems graph due timestampNs = .ok ran ∧ AdvancedOnce graph due timestampNs item ran after := by
  unfold activateBatch at activated
  obtain ⟨ran, items, activated⟩ := bind_ok activated
  obtain rfl := Except.ok.inj activated
  have batch := items
  rw [runItems_eq] at items
  obtain ⟨done, rest, order, before⟩ := enters
  have within : ∀ other ∈ done ++ item :: rest, other ∈ graph.items := by
    rw [← order]
    exact fun other => List.mem_of_mem_filter
  have member : item ∈ graph.items := within item (by simp)
  have apart : (participants graph due item).Pairwise fun a b => Apart a.place b.place :=
    participants_apart compiled member
  have real : ∀ block ∈ participants graph due item, block.kind = .kernel → block.output.scalar = .real :=
    participants_real compiled member
  obtain ⟨last, runs, rfl⟩ : ∃ last : Option Nat × SignalStore R,
      (graph.items.filter (itemRuns graph due)).foldlM (enterItem graph due timestampNs) (none, s) = .ok last ∧
        last.2 = ran := by
    revert items
    cases (graph.items.filter (itemRuns graph due)).foldlM (enterItem graph due timestampNs) (none, s) with
    | error exception => exact fun items => nomatch items
    | ok last => exact fun items => ⟨last, rfl, Except.ok.inj items⟩
  rw [order, List.foldlM_append, before] at runs
  replace runs : (item :: rest).foldlM (enterItem graph due timestampNs) entering = .ok last := runs
  rw [List.foldlM_cons] at runs
  obtain ⟨next, here, later⟩ := bind_ok runs
  have leaves := enterItem_ok loop converged here
  obtain ⟨previous, sweeps, swept, close⟩ := iterate_converged leaves converged
  have solved := sweep_spec apart real swept
  refine ⟨previous, next.2, last.2, sweeps, ?_, batch, advancedOnce compiled member last.2⟩
  refine ⟨leaves, fun block inside element bound => ?_, solved.slots, fun block inside plain stateless => ?_,
    solved.called, fun block inside plain index owned => ?_, fun index free => ?_⟩
  · rw [← solved.snapshots]
    exact delta_le close inside bound
  · refine solved.solved block inside plain ?_ fun kind => ?_
    · obtain ⟨index, listed, rfl⟩ := List.mem_map.mp inside
      have atItem := List.mem_of_mem_filter listed
      have fed : ∃ a, Feeds tools definition a ⟨index, item_bound compiled member atItem⟩ :=
        loop_fed compiled member loop atItem
      obtain ⟨a, feeds⟩ := fed
      rw [(compile_separate compiled).kind ⟨index, item_bound compiled member atItem⟩]
      exact feeds.kind
    · simp [kind, isDiscreteState] at stateless
  · obtain ⟨number, listed, rfl⟩ := List.mem_map.mp inside
    have atItem := List.mem_of_mem_filter listed
    have bound := item_bound compiled member atItem
    refine (latchAndUpdate_outside compiled bound plain last.2 owned).trans ?_
    refine enterItems_outside compiled (fun other there => within other (by simp [there])) later ?_
    intro other there block inOther
    obtain ⟨number', listed', rfl⟩ := List.mem_map.mp inOther
    have atOther := List.mem_of_mem_filter listed'
    have bound' := item_bound compiled (within other (by simp [there])) atOther
    have different : number ≠ number' := by
      have nodup : ((done ++ item :: rest).flatMap (·.blocks)).Nodup := by
        rw [← order]
        exact (items_nodup compiled).sublist (List.Sublist.flatMap List.filter_sublist _)
      rw [List.flatMap_append, List.flatMap_cons, List.nodup_append, List.nodup_append] at nodup
      exact nodup.2.1.2.2 number atItem number' (List.mem_flatMap.mpr ⟨other, there, atOther⟩)
    exact ((compile_separate compiled).apart ⟨number, bound⟩ ⟨number', bound'⟩
      (fun same => different (congrArg Fin.val same))).outputs _ _ owned
  · exact (solved.states index free).trans (sweeps_held compiled member sweeps free)

end SignalStore

open Binary FloatValue

/-- `s = source + g` and `g = gain * s`. -/
def feedback (source gain tolerance : FloatValue) : SignalGraphDefinition FloatValue where
  blocks := [
    { id := "c", kind := .source, tolerance, realParameters := [source] },
    { id := "s", kind := .sum, inputs := [{ id := "a" }, { id := "b" }], tolerance, loopPolicy := .fixedPoint },
    { id := "g", kind := .gain, inputs := [{ id := "in" }], tolerance, loopPolicy := .fixedPoint,
      realParameters := [gain] }]
  connections := [
    { sourceBlock := "c", targetBlock := "s", targetPort := "a" },
    { sourceBlock := "g", targetBlock := "s", targetPort := "b" },
    { sourceBlock := "s", targetBlock := "g", targetPort := "in" }]

def plainTools : Tools FloatValue := ⟨fun _ => none, fun _ _ => .ok ([], 0)⟩

def feedbackPlan (source gain tolerance : FloatValue) : CompiledSignalGraph FloatValue :=
  (compile plainTools (feedback source gain tolerance)).toOption.getD {}

/-- `holds` of the loop and of the values the first batch comes to it with. -/
def atLoop (graph : CompiledSignalGraph FloatValue)
    (holds : ExecutionItem FloatValue → SignalStore FloatValue → Bool) : Bool :=
  match graph.items.filter (itemRuns graph fun _ => true) with
  | [first, loop] =>
    match SignalStore.enterItem graph (fun _ => true) 0 (none, SignalStore.cleared) first with
    | .ok entering => loop.fixedPoint && holds loop entering.2
    | .error _ => false
  | _ => false

theorem atLoop_enters {graph : CompiledSignalGraph FloatValue}
    {holds : ExecutionItem FloatValue → SignalStore FloatValue → Bool} (check : atLoop graph holds = true) :
    ∃ (item : ExecutionItem FloatValue) (entering : Option Nat × SignalStore FloatValue), item.fixedPoint = true ∧
      Visits (SignalStore.enterItem graph (fun _ => true) 0) (graph.items.filter (itemRuns graph fun _ => true))
        (none, SignalStore.cleared) item entering ∧ holds item entering.2 = true := by
  unfold atLoop at check
  split at check
  · next first loop items =>
    split at check
    · next entering enters =>
      rw [Bool.and_eq_true] at check
      refine ⟨loop, entering, check.1, ⟨[first], [], items, ?_⟩, check.2⟩
      rw [List.foldlM_cons, enters]
      rfl
    · cases check
  · cases check

theorem feedbackPlan_ok {source gain tolerance : FloatValue}
    (compiles : (compile plainTools (feedback source gain tolerance)).toOption.isSome = true) :
    compile plainTools (feedback source gain tolerance) = .ok (feedbackPlan source gain tolerance) := by
  unfold feedbackPlan
  cases result : compile plainTools (feedback source gain tolerance) with
  | error exception =>
    rw [result] at compiles
    cases compiles
  | ok graph => rfl

/-- With a gain of one half the iterations end near the solution. -/
theorem SignalStore.activateBatch_solvesLoops_feedback :
    ∃ item entered previous left after, SignalStore.LoopSolved (feedbackPlan 1 0.5 1e-3) (fun _ => true) 0 item entered
      previous left after := by
  have compiled : compile plainTools (feedback 1 0.5 1e-3) = .ok (feedbackPlan 1 0.5 1e-3) :=
    feedbackPlan_ok (by decide +kernel)
  have check : atLoop (feedbackPlan 1 0.5 1e-3) (fun item entered =>
      entered.converges (feedbackPlan 1 0.5 1e-3) (fun _ => true) 0 item item.maxIterations) = true := by
    decide +kernel
  have activates : (activateBatch (feedbackPlan 1 0.5 1e-3) (fun _ => true) 0 SignalStore.cleared).toOption.isSome =
      true := by decide +kernel
  obtain ⟨item, entering, loop, enters, converged⟩ := atLoop_enters check
  obtain ⟨after, activated⟩ : ∃ after, activateBatch (feedbackPlan 1 0.5 1e-3) (fun _ => true) 0 SignalStore.cleared =
      .ok after := by
    revert activates
    cases activateBatch (feedbackPlan 1 0.5 1e-3) (fun _ => true) 0 SignalStore.cleared with
    | error exception => exact fun activates => nomatch activates
    | ok after => exact fun _ => ⟨after, rfl⟩
  obtain ⟨previous, left, _, _, solved, _⟩ :=
    SignalStore.activateBatch_solvesLoops compiled activated loop enters converged
  exact ⟨item, entering.2, previous, left, after, solved⟩

/-- The loop converges, and a block is further from its equation than the tolerance. -/
def residual (graph : CompiledSignalGraph FloatValue) (item : ExecutionItem FloatValue)
    (entered : SignalStore FloatValue) : Bool :=
  entered.converges graph (fun _ => true) 0 item item.maxIterations &&
    match entered.iterate graph (fun _ => true) 0 item item.maxIterations with
    | .ok left => (SignalStore.participants graph (fun _ => true) item).any fun block =>
      match evaluateReal block left.reals left.dynamicState left.bools 0 with
      | .ok value => Double.lt item.tolerance (Double.abs (left.reals (block.outputIndex 0) - value))
      | .error _ => false
    | .error _ => false

theorem residual_holds {graph : CompiledSignalGraph FloatValue} {item : ExecutionItem FloatValue}
    {entered : SignalStore FloatValue} (holds : residual graph item entered = true) :
    entered.converges graph (fun _ => true) 0 item item.maxIterations = true ∧
      ∃ left, entered.iterate graph (fun _ => true) 0 item item.maxIterations = .ok left ∧
        ∃ block ∈ SignalStore.participants graph (fun _ => true) item, ∃ value,
          evaluateReal block left.reals left.dynamicState left.bools 0 = .ok value ∧
            Double.lt item.tolerance (Double.abs (left.reals (block.outputIndex 0) - value)) = true := by
  unfold residual at holds
  obtain ⟨converged, holds⟩ := Bool.and_eq_true _ _ ▸ holds
  refine ⟨converged, ?_⟩
  split at holds
  · next left leaves =>
    obtain ⟨block, member, holds⟩ := List.any_eq_true.mp holds
    split at holds
    · next value equation => exact ⟨left, leaves, block, member, value, equation, holds⟩
    · cases holds
  · cases holds

/-- With a gain of three the first iteration converges: no output has moved by more than the tolerance. The
gain has then committed zero, where its equation asks for three times the committed sum. -/
theorem feedback_notSolved : ∃ graph item entering left,
    compile plainTools (feedback 1e-9 3.0 1e-9) = .ok graph ∧ item.fixedPoint = true ∧
      Visits (SignalStore.enterItem graph (fun _ => true) 0) (graph.items.filter (itemRuns graph fun _ => true))
        (none, SignalStore.cleared) item entering ∧
      entering.2.converges graph (fun _ => true) 0 item item.maxIterations = true ∧
      entering.2.iterate graph (fun _ => true) 0 item item.maxIterations = .ok left ∧
      ∃ block ∈ SignalStore.participants graph (fun _ => true) item, ∃ value,
        evaluateReal block left.reals left.dynamicState left.bools 0 = .ok value ∧
          Double.lt item.tolerance (Double.abs (left.reals (block.outputIndex 0) - value)) = true := by
  have compiled : compile plainTools (feedback 1e-9 3.0 1e-9) = .ok (feedbackPlan 1e-9 3.0 1e-9) :=
    feedbackPlan_ok (by decide +kernel)
  have check : atLoop (feedbackPlan 1e-9 3.0 1e-9) (residual (feedbackPlan 1e-9 3.0 1e-9)) = true := by
    decide +kernel
  obtain ⟨item, entering, loop, enters, holds⟩ := atLoop_enters check
  obtain ⟨converged, left, leaves, block, member, value, equation, far⟩ := residual_holds holds
  exact ⟨_, item, entering, left, compiled, loop, enters, converged, leaves, block, member, value, equation, far⟩

end LasecSimul.Signal
