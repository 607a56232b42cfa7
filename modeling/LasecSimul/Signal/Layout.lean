import LasecSimul.Signal.Runtime
import LasecSimul.Signal.Schedule

/-!
# Places of compiled blocks

The compiler gives every block an output slot and windows of continuous and discrete state of its own.
-/

namespace LasecSimul.Signal

open Lib Lib.Fallible

variable {R : Type} [Double R] {tools : Tools R} {definition : SignalGraphDefinition R}

/-- Where the values of a block are. -/
structure Place where
  kind : SignalBlockKind
  output : SignalSlotHandle
  stateOffset : Nat
  stateWidth : Nat
  discreteOffset : Nat
  discreteCount : Nat

def CompiledBlock.place (block : CompiledBlock R) : Place :=
  ⟨block.kind, block.output, block.stateIndex 0, block.stateWidth, block.discreteOffset, block.discreteCount⟩

namespace Place

def outputs (place : Place) (scalar : SignalScalarType) (index : Nat) : Prop :=
  place.output.scalar = scalar ∧ place.output.offset ≤ index ∧ index < place.output.offset + place.output.width

def states (place : Place) (index : Nat) : Prop :=
  place.stateOffset ≤ index ∧ index < place.stateOffset + place.stateWidth

def discretes (place : Place) (index : Nat) : Prop :=
  place.discreteOffset ≤ index ∧ index < place.discreteOffset + place.discreteCount

/-- Two blocks share no index. -/
structure Apart (a b : Place) : Prop where
  outputs : ∀ scalar index, a.outputs scalar index → ¬b.outputs scalar index
  states : ∀ index, a.states index → ¬b.states index
  discretes : ∀ index, a.discretes index → ¬b.discretes index

theorem Apart.symm {a b : Place} (apart : Apart a b) : Apart b a :=
  ⟨fun scalar index inB inA => apart.outputs scalar index inA inB, fun index inB inA => apart.states index inA inB,
    fun index inB inA => apart.discretes index inA inB⟩

/-- The sizes of the vectors that have been given out. -/
structure Sizes where
  slots : SignalScalarType → Nat
  states : Nat
  discretes : Nat

structure Within (sizes : Sizes) (place : Place) : Prop where
  outputs : place.output.offset + place.output.width ≤ sizes.slots place.output.scalar
  states : place.stateWidth = 0 ∨ place.stateOffset + place.stateWidth ≤ sizes.states
  discretes : place.discreteOffset + place.discreteCount ≤ sizes.discretes

/-- The indices of a place are none of those given out before. -/
structure Beyond (sizes : Sizes) (place : Place) : Prop where
  outputs : sizes.slots place.output.scalar ≤ place.output.offset
  states : place.stateWidth = 0 ∨ sizes.states ≤ place.stateOffset
  discretes : place.discreteCount = 0 ∨ sizes.discretes ≤ place.discreteOffset

theorem Within.apart {sizes : Sizes} {a b : Place} (within : Within sizes a) (beyond : Beyond sizes b) :
    Apart a b := by
  refine ⟨fun scalar index inA inB => ?_, fun index inA inB => ?_, fun index inA inB => ?_⟩
  · have bounds := within.outputs
    have starts := beyond.outputs
    rw [inA.1] at bounds
    rw [inB.1] at starts
    have := inA.2.2
    have := inB.2.1
    omega
  · obtain ⟨after, before⟩ := inA
    obtain ⟨after', before'⟩ := inB
    rcases within.states with empty | ends <;> rcases beyond.states with empty' | starts <;> omega
  · have := within.discretes
    obtain ⟨after, before⟩ := inA
    obtain ⟨after', before'⟩ := inB
    rcases beyond.discretes with empty | starts <;> omega

theorem Within.mono {sizes larger : Sizes} {place : Place} (within : Within sizes place)
    (slots : ∀ scalar, sizes.slots scalar ≤ larger.slots scalar) (states : sizes.states ≤ larger.states)
    (discretes : sizes.discretes ≤ larger.discretes) : Within larger place :=
  ⟨within.outputs.trans (slots _), within.states.imp_right fun ends => ends.trans states,
    within.discretes.trans discretes⟩

end Place

open Place

def CompiledSignalGraph.sizes (graph : CompiledSignalGraph R) : Sizes where
  slots
    | .real => graph.realCount
    | .bool => graph.boolCount
    | .int64 => graph.intCount
  states := graph.dynamicStateCount
  discretes := graph.kernelDiscreteCount

/-- The share of a block: its slot, its place, and the sizes after it. -/
structure Placed (source : SignalBlockDefinition R) (sizes next : Sizes) (place : Place) : Prop where
  kind : place.kind = source.kind
  scalar : place.output.scalar = source.output.type.scalar
  within : Within next place
  beyond : Beyond sizes place
  slots : ∀ scalar, sizes.slots scalar ≤ next.slots scalar
  states : sizes.states ≤ next.states
  discretes : sizes.discretes ≤ next.discretes

omit [Double R] in
theorem allocateSlot_sizes (type : SignalDataType) (graph : CompiledSignalGraph R) :
    (allocateSlot type graph).1 = ⟨type.scalar, graph.sizes.slots type.scalar, type.width⟩ ∧
      (allocateSlot type graph).2.sizes = { graph.sizes with
        slots := Function.update graph.sizes.slots type.scalar (graph.sizes.slots type.scalar + type.width) } := by
  obtain ⟨scalar, width⟩ := type
  unfold allocateSlot CompiledSignalGraph.sizes
  cases scalar <;>
  · refine ⟨rfl, ?_⟩
    congr 1
    funext scalar
    cases scalar <;> simp [Function.update]

theorem addKernel_place {source : SignalBlockDefinition R} {target : CompiledBlock R} {graph : CompiledSignalGraph R}
    {added : CompiledBlock R × CompiledSignalGraph R} (fresh : target.discreteCount = 0) (first : target.discreteOffset = 0)
    (h : addKernel tools source target graph = .ok added) :
    added.1.kind = target.kind ∧ added.1.output = target.output ∧
      added.2.sizes.slots = graph.sizes.slots ∧ added.2.sizes.states = graph.sizes.states ∧
        graph.sizes.discretes ≤ added.2.sizes.discretes ∧
          added.1.discreteOffset + added.1.discreteCount ≤ added.2.sizes.discretes ∧
            (added.1.discreteCount = 0 ∨ graph.sizes.discretes ≤ added.1.discreteOffset) := by
  unfold addKernel at h
  split at h
  · obtain ⟨configured, _, h⟩ := bind_ok h
    obtain rfl := Except.ok.inj h
    exact ⟨rfl, rfl, rfl, rfl, Nat.le_add_right _ _, le_refl _, Or.inr (le_refl _)⟩
  · obtain rfl := Except.ok.inj h
    refine ⟨rfl, rfl, rfl, rfl, le_refl _, ?_, Or.inl fresh⟩
    rw [fresh, first]
    exact Nat.zero_le _

theorem addStorage_place {source : SignalBlockDefinition R} {index : Nat} {target : CompiledBlock R}
    {graph : CompiledSignalGraph R} {added : CompiledBlock R × CompiledSignalGraph R}
    (h : addStorage source index target graph = .ok added) :
    added.1.kind = target.kind ∧ added.1.output = target.output ∧ added.1.discreteOffset = target.discreteOffset ∧
      added.1.discreteCount = target.discreteCount ∧
        added.2.sizes.slots = graph.sizes.slots ∧ added.2.sizes.discretes = graph.sizes.discretes ∧
          graph.sizes.states ≤ added.2.sizes.states ∧
            (added.1.stateWidth = 0 ∨ graph.sizes.states ≤ added.1.stateIndex 0 ∧
              added.1.stateIndex 0 + added.1.stateWidth ≤ added.2.sizes.states) := by
  unfold addStorage at h
  dsimp only at h
  by_cases wide : target.stateWidth > 0
  · simp only [if_pos wide] at h
    split at h
    · obtain ⟨delay, _, h⟩ := bind_ok h
      obtain rfl := Except.ok.inj h
      exact ⟨rfl, rfl, rfl, rfl, rfl, rfl, Nat.le_add_right _ _, Or.inr ⟨le_refl _, le_refl _⟩⟩
    · obtain rfl := Except.ok.inj h
      exact ⟨rfl, rfl, rfl, rfl, rfl, rfl, Nat.le_add_right _ _, Or.inr ⟨le_refl _, le_refl _⟩⟩
  · simp only [if_neg wide] at h
    have empty : target.stateWidth = 0 := by omega
    split at h
    · obtain ⟨delay, _, h⟩ := bind_ok h
      obtain rfl := Except.ok.inj h
      exact ⟨rfl, rfl, rfl, rfl, rfl, rfl, le_refl _, Or.inl empty⟩
    · obtain rfl := Except.ok.inj h
      exact ⟨rfl, rfl, rfl, rfl, rfl, rfl, le_refl _, Or.inl empty⟩

omit [Double R] in
theorem addExpression_place {source : SignalBlockDefinition R} {target : CompiledBlock R}
    {graph : CompiledSignalGraph R} {added : CompiledBlock R × CompiledSignalGraph R}
    (h : addExpression tools source target graph = .ok added) :
    added.1.place = target.place ∧ added.2.sizes = graph.sizes := by
  unfold addExpression at h
  split at h
  · obtain ⟨parsed, _, h⟩ := bind_ok h
    obtain rfl := Except.ok.inj h
    exact ⟨rfl, rfl⟩
  · obtain rfl := Except.ok.inj h
    exact ⟨rfl, rfl⟩

theorem addBlock_place {maxVectorWidth : Nat} {graph next : CompiledSignalGraph R} {source : SignalBlockDefinition R}
    (h : addBlock tools maxVectorWidth graph source = .ok next) :
    ∃ block, next.blocks = graph.blocks ++ [block] ∧ Placed source graph.sizes next.sizes block.place := by
  unfold addBlock at h
  obtain ⟨_, _, h⟩ := bind_ok h
  obtain ⟨_, _, h⟩ := bind_ok h
  obtain ⟨stateWidth, _, h⟩ := bind_ok h
  obtain ⟨kernel, kernelOk, h⟩ := bind_ok h
  obtain ⟨stored, storedOk, h⟩ := bind_ok h
  obtain ⟨parsed, parsedOk, h⟩ := bind_ok h
  obtain rfl := Except.ok.inj h
  have blocks := (addKernel_ok rfl kernelOk).1
  have blocks' := (addStorage_ok storedOk).1
  have blocks'' := (addExpression_ok parsedOk).1
  obtain ⟨slot, sized⟩ := allocateSlot_sizes source.output.type graph
  obtain ⟨kind, output, slots, states, discretes, inside, outside⟩ := addKernel_place rfl rfl kernelOk
  obtain ⟨kind', output', discreteOffset, discreteCount, slots', discretes', states', placed⟩ :=
    addStorage_place storedOk
  obtain ⟨place, sizes⟩ := addExpression_place parsedOk
  have listed : (allocateSlot source.output.type graph).2.blocks = graph.blocks := by
    unfold allocateSlot
    cases source.output.type.scalar <;> rfl
  have allSlots : parsed.2.sizes.slots = Function.update graph.sizes.slots source.output.type.scalar
      (graph.sizes.slots source.output.type.scalar + source.output.type.width) := by
    rw [sizes, slots', slots, sized]
  have allStates : stored.2.sizes.states = parsed.2.sizes.states := by rw [sizes]
  have allDiscretes : kernel.2.sizes.discretes = parsed.2.sizes.discretes := by rw [sizes, discretes']
  have given : parsed.1.place.output =
      ⟨source.output.type.scalar, graph.sizes.slots source.output.type.scalar, source.output.type.width⟩ := by
    rw [place]
    exact (output'.trans output).trans slot
  rw [sized] at states discretes outside
  refine ⟨parsed.1, ?_, ?_⟩
  · show parsed.2.blocks ++ _ = _
    rw [blocks'', blocks', blocks, listed]
  show Placed source graph.sizes parsed.2.sizes parsed.1.place
  refine ⟨?_, ?_, ⟨?_, ?_, ?_⟩, ⟨?_, ?_, ?_⟩, fun scalar => ?_, ?_, ?_⟩
  · rw [place]
    exact kind'.trans kind
  · rw [given]
  · rw [given, allSlots]
    simp
  · rw [place]
    exact placed.imp_right fun both => allStates ▸ both.2
  · rw [place, ← allDiscretes]
    show stored.1.discreteOffset + stored.1.discreteCount ≤ _
    rw [discreteOffset, discreteCount]
    exact inside
  · rw [given]
  · rw [place]
    exact placed.imp_right fun both => states ▸ both.1
  · rw [place]
    show stored.1.discreteCount = 0 ∨ _ ≤ stored.1.discreteOffset
    rw [discreteOffset, discreteCount]
    exact outside
  · rw [allSlots]
    by_cases same : scalar = source.output.type.scalar
    · subst same
      simp
    · simp [same]
  · rw [← allStates, ← states]
    exact states'
  · rw [← allDiscretes]
    exact discretes

/-- The places of the blocks, as they are given out. -/
structure Layout (graph : CompiledSignalGraph R) (places : List Place) : Prop where
  within : ∀ place ∈ places, Within graph.sizes place
  apart : places.Pairwise Apart

theorem blocks_layout {graph : CompiledSignalGraph R} {maxVectorWidth : Nat} {begun : CompiledSignalGraph R}
    (none : begun.blocks = []) (h : definition.blocks.foldlM (addBlock tools maxVectorWidth) begun = .ok graph) :
    Layout graph (graph.blocks.map (·.place)) ∧
      graph.blocks.map (fun block => (block.kind, block.output.scalar)) =
        definition.blocks.map fun source => (source.kind, source.output.type.scalar) := by
  refine foldlM_history (P := fun done graph => Layout graph (graph.blocks.map (·.place)) ∧
    graph.blocks.map (fun block => (block.kind, block.output.scalar)) =
      done.map fun source => (source.kind, source.output.type.scalar)) h ?_ ?_
  · rw [none]
    exact ⟨⟨by simp, .nil⟩, rfl⟩
  · intro done source graph next ⟨ih, kinds⟩ step
    obtain ⟨block, blocks, placed⟩ := addBlock_place step
    refine ⟨?_, ?_⟩
    · rw [blocks, List.map_append]
      refine ⟨fun place member => ?_, List.pairwise_append.mpr ⟨ih.apart, List.pairwise_singleton _ _, ?_⟩⟩
      · rcases List.mem_append.mp member with before | here
        · exact (ih.within place before).mono placed.slots placed.states placed.discretes
        · obtain rfl := List.mem_singleton.mp here
          exact placed.within
      · intro place before added here
        obtain rfl := List.mem_singleton.mp here
        exact (ih.within place before).apart placed.beyond
    · rw [blocks, List.map_append, List.map_append, kinds]
      exact congrArg (_ ++ [·]) (Prod.ext placed.kind placed.scalar)

omit [Double R] in
theorem require_ok {source : SignalBlockDefinition R} {what : String} {holds : Bool}
    (h : require source what holds = .ok ()) : holds = true := by
  unfold require at h
  split at h
  · assumption
  · cases h

theorem validateBlock_kernel {findKernel : String → Option (KernelSpec R)} {source : SignalBlockDefinition R}
    {maxVectorWidth : Nat} (h : validateBlock findKernel source maxVectorWidth = .ok ())
    (kernel : source.kind = .kernel) : source.output.type.scalar = .real := by
  unfold validateBlock at h
  obtain ⟨_, _, h⟩ := bind_ok h
  obtain ⟨_, _, h⟩ := bind_ok h
  obtain ⟨_, _, h⟩ := bind_ok h
  obtain ⟨_, _, h⟩ := bind_ok h
  rw [if_pos kernel] at h
  obtain ⟨_, valid, _⟩ := bind_ok h
  unfold validateKernelBlock at valid
  obtain ⟨_, _, valid⟩ := bind_ok valid
  obtain ⟨_, real, _⟩ := bind_ok valid
  simpa using require_ok real

theorem blocks_valid {graph begun : CompiledSignalGraph R} {maxVectorWidth : Nat}
    (h : definition.blocks.foldlM (addBlock tools maxVectorWidth) begun = .ok graph) :
    ∀ source ∈ definition.blocks, source.kind = .kernel → source.output.type.scalar = .real := by
  refine foldlM_history (P := fun done _ => ∀ source ∈ done, source.kind = .kernel →
    source.output.type.scalar = .real) h (by simp) fun done source graph next ih step => ?_
  unfold addBlock at step
  obtain ⟨_, valid, _⟩ := bind_ok step
  intro other member
  rcases List.mem_append.mp member with before | here
  · exact ih other before
  · obtain rfl := List.mem_singleton.mp here
    exact validateBlock_kernel valid

/-- No two blocks of a plan share an index, and the output of a kernel is real. -/
structure Separate (definition : SignalGraphDefinition R) (graph : CompiledSignalGraph R) : Prop where
  length : graph.blocks.length = definition.blocks.length
  kind : ∀ block : Fin definition.blocks.length, (graph.block block).kind = (definition.block block).kind
  apart : ∀ a b : Fin definition.blocks.length, a ≠ b → Apart (graph.block a).place (graph.block b).place
  kernel : ∀ block : Fin definition.blocks.length, (graph.block block).kind = .kernel →
    (graph.block block).output.scalar = .real

theorem block_place {graph : CompiledSignalGraph R} {places : List Place} {index : Nat}
    (same : graph.blocks.map (·.place) = places) (bound : index < places.length) :
    (graph.block index).place = places[index] := by
  subst same
  have inside : index < graph.blocks.length := by simpa using bound
  simp [CompiledSignalGraph.block, List.getD_eq_getElem?_getD, inside]

theorem compile_places {graph : CompiledSignalGraph R} (h : compile tools definition = .ok graph) :
    ∃ begun, definition.blocks.foldlM (addBlock tools definition.maxVectorWidth)
        { maxMicrosteps := definition.maxMicrosteps } = .ok begun ∧
      graph.blocks.map (·.place) = begun.blocks.map (·.place) := by
  unfold compile at h
  obtain ⟨_, _, h⟩ := bind_ok h
  obtain ⟨_, _, h⟩ := bind_ok h
  obtain ⟨begun, blocksOk, h⟩ := bind_ok h
  obtain ⟨connected, _, h⟩ := bind_ok h
  obtain ⟨_, _, h⟩ := bind_ok h
  obtain ⟨_, _, h⟩ := bind_ok h
  obtain ⟨items, _, h⟩ := bind_ok h
  obtain rfl := Except.ok.inj h
  refine ⟨begun, blocksOk, ?_⟩
  refine List.ext_getElem (by simp [bindInputs]) fun index inside inside' => ?_
  simp only [List.getElem_map, List.getElem_mapIdx, bindInputs]
  split <;> rfl

theorem compile_separate {graph : CompiledSignalGraph R} (h : compile tools definition = .ok graph) :
    Separate definition graph := by
  obtain ⟨begun, blocksOk, places⟩ := compile_places h
  obtain ⟨layout, kinds⟩ := blocks_layout rfl blocksOk
  have length : begun.blocks.length = definition.blocks.length := by simpa using congrArg List.length kinds
  have size : (begun.blocks.map (·.place)).length = definition.blocks.length := by simpa using length
  have source : ∀ block : Fin definition.blocks.length,
      ((graph.block block).kind, (graph.block block).output.scalar) =
        ((definition.block block).kind, (definition.block block).output.type.scalar) := by
    intro block
    have bound : block.val < (begun.blocks.map (·.place)).length := by rw [size]; exact block.isLt
    have placed := block_place places bound
    have listed := congrArg (·[block.val]?) kinds
    have inside : block.val < begun.blocks.length := by rw [length]; exact block.isLt
    simp [inside] at listed
    have kind := congrArg Place.kind placed
    have output := congrArg Place.output placed
    simp [CompiledBlock.place] at kind output
    rw [kind, output]
    exact Prod.ext listed.1 listed.2
  refine ⟨?_, fun block => (Prod.mk.inj (source block)).1, fun a b different => ?_, fun block kernel => ?_⟩
  · simpa [length] using congrArg List.length places
  · have inA : a.val < (begun.blocks.map (·.place)).length := by rw [size]; exact a.isLt
    have inB : b.val < (begun.blocks.map (·.place)).length := by rw [size]; exact b.isLt
    rw [block_place places inA, block_place places inB]
    have ordered := List.pairwise_iff_getElem.mp layout.apart
    rcases Nat.lt_or_gt_of_ne (Fin.val_ne_of_ne different) with before | after
    · exact ordered _ _ _ _ before
    · exact (ordered _ _ _ _ after).symm
  · have same := Prod.mk.inj (source block)
    rw [same.2]
    exact blocks_valid blocksOk _ (List.get_mem _ block) (same.1 ▸ kernel)

end LasecSimul.Signal
