import LasecSimul.Lib.Fallible
import LasecSimul.Signal.Compiler
import Mathlib.Data.List.Pairwise

/-!
# The schedule of a compiled diagram

The items of an accepted diagram are the strong components of its instantaneous dependencies, each
once, in an order that follows the dependencies between different items; an item with a cycle has the
fixed-point policy in all its blocks.
-/

namespace LasecSimul.Signal

open Lib Lib.Fallible Lib.StrongComponents

variable {R : Type} [Double R] {tools : Tools R} {definition : SignalGraphDefinition R}

/-- Which inputs of a block its output depends on in the same instant, as its kernel declares. -/
def declaredFeedthrough (tools : Tools R) (block : SignalBlockDefinition R) : List Bool :=
  if block.kind = .kernel then
    match configureKernel tools block with
    | .ok configured => configured.2.feedthrough
    | .error _ => []
  else []

/-- A connection makes `b` depend on `a` in the same instant. -/
def Feeds (tools : Tools R) (definition : SignalGraphDefinition R) (a b : Fin definition.blocks.length) : Prop :=
  ∃ edge ∈ definition.connections, definition.find edge.sourceBlock = some a ∧
    definition.find edge.targetBlock = some b ∧
      ∃ port : Fin (definition.block b).inputs.length,
        (definition.block b).inputs.findFinIdx? (·.id = edge.targetPort) = some port ∧
          instantaneous (definition.block b) (declaredFeedthrough tools (definition.block b)) port

/-- `admitLoop` lets the block into an algebraic loop. -/
structure Admitted (block : SignalBlockDefinition R) : Prop where
  policy : block.loopPolicy = .fixedPoint
  delayed : block.kind = .discreteTransferFunction → block.int 1 = block.int 0 →
    Double.eq (block.real 0) (0.0 : R)

theorem addKernel_ok {source : SignalBlockDefinition R} {target : CompiledBlock R} {graph : CompiledSignalGraph R}
    {added : CompiledBlock R × CompiledSignalGraph R} (fresh : target.feedthrough = [])
    (h : addKernel tools source target graph = .ok added) :
    added.2.blocks = graph.blocks ∧ added.1.feedthrough = declaredFeedthrough tools source := by
  unfold addKernel at h
  unfold declaredFeedthrough
  split at h
  · next isKernel =>
    obtain ⟨configured, ok, h⟩ := bind_ok h
    obtain rfl := Except.ok.inj h
    rw [if_pos isKernel, ok]
    exact ⟨rfl, rfl⟩
  · next notKernel =>
    obtain rfl := Except.ok.inj h
    rw [if_neg notKernel]
    exact ⟨rfl, fresh⟩

theorem addStorage_ok {source : SignalBlockDefinition R} {index : Nat} {target : CompiledBlock R}
    {graph : CompiledSignalGraph R} {added : CompiledBlock R × CompiledSignalGraph R}
    (h : addStorage source index target graph = .ok added) :
    added.2.blocks = graph.blocks ∧ added.1.feedthrough = target.feedthrough := by
  unfold addStorage at h
  dsimp only at h
  split at h
  · obtain ⟨delay, _, h⟩ := bind_ok h
    obtain rfl := Except.ok.inj h
    split <;> exact ⟨rfl, rfl⟩
  · obtain rfl := Except.ok.inj h
    split <;> exact ⟨rfl, rfl⟩

omit [Double R] in
theorem addExpression_ok {source : SignalBlockDefinition R} {target : CompiledBlock R}
    {graph : CompiledSignalGraph R} {added : CompiledBlock R × CompiledSignalGraph R}
    (h : addExpression tools source target graph = .ok added) :
    added.2.blocks = graph.blocks ∧ added.1.feedthrough = target.feedthrough := by
  unfold addExpression at h
  split at h
  · obtain ⟨parsed, _, h⟩ := bind_ok h
    obtain rfl := Except.ok.inj h
    exact ⟨rfl, rfl⟩
  · obtain rfl := Except.ok.inj h
    exact ⟨rfl, rfl⟩

theorem addBlock_ok {maxVectorWidth : Nat} {graph next : CompiledSignalGraph R} {source : SignalBlockDefinition R}
    (h : addBlock tools maxVectorWidth graph source = .ok next) :
    ∃ block, next.blocks = graph.blocks ++ [block] ∧ block.feedthrough = declaredFeedthrough tools source := by
  unfold addBlock at h
  obtain ⟨_, _, h⟩ := bind_ok h
  obtain ⟨_, _, h⟩ := bind_ok h
  obtain ⟨stateWidth, _, h⟩ := bind_ok h
  obtain ⟨kernel, kernelOk, h⟩ := bind_ok h
  obtain ⟨stored, storedOk, h⟩ := bind_ok h
  obtain ⟨parsed, parsedOk, h⟩ := bind_ok h
  obtain rfl := Except.ok.inj h
  obtain ⟨blocks, feedthrough⟩ := addKernel_ok rfl kernelOk
  obtain ⟨blocks', feedthrough'⟩ := addStorage_ok storedOk
  obtain ⟨blocks'', feedthrough''⟩ := addExpression_ok parsedOk
  have slot : (allocateSlot source.output.type graph).2.blocks = graph.blocks := by
    unfold allocateSlot
    cases source.output.type.scalar <;> rfl
  refine ⟨parsed.1, ?_, (feedthrough''.trans feedthrough').trans feedthrough⟩
  show parsed.2.blocks ++ _ = _
  rw [blocks'', blocks', blocks, slot]

theorem blocks_ok {graph : CompiledSignalGraph R} {maxVectorWidth : Nat} {begun : CompiledSignalGraph R}
    (none : begun.blocks = []) (h : definition.blocks.foldlM (addBlock tools maxVectorWidth) begun = .ok graph) :
    graph.blocks.map (·.feedthrough) = definition.blocks.map (declaredFeedthrough tools) := by
  refine foldlM_history (P := fun done graph =>
    graph.blocks.map (·.feedthrough) = done.map (declaredFeedthrough tools)) h (by rw [none]; rfl) ?_
  intro done source graph next ih step
  obtain ⟨block, blocks, feedthrough⟩ := addBlock_ok step
  rw [blocks, List.map_append, List.map_append, ih]
  exact congrArg (_ ++ [·]) feedthrough

theorem resolve_ok {connected : Connected definition} {edge : SignalConnectionDefinition} {link : Link definition}
    (h : resolve connected edge = .ok link) : definition.find edge.sourceBlock = some link.source ∧
      definition.find edge.targetBlock = some link.target ∧
        (definition.block link.target).inputs.findFinIdx? (·.id = edge.targetPort) = some link.port := by
  unfold resolve at h
  obtain ⟨source, sourceOk, h⟩ := bind_ok h
  obtain ⟨target, targetOk, h⟩ := bind_ok h
  obtain ⟨_, _, h⟩ := bind_ok h
  obtain ⟨port, portOk, h⟩ := bind_ok h
  obtain ⟨_, _, h⟩ := bind_ok h
  obtain ⟨_, _, h⟩ := bind_ok h
  obtain ⟨converted, _, h⟩ := bind_ok h
  obtain ⟨_, _, h⟩ := bind_ok h
  obtain rfl := Except.ok.inj h
  exact ⟨orThrow_ok sourceOk, orThrow_ok targetOk, orThrow_ok portOk⟩

/-- The edges of the connected diagram are its instantaneous dependencies. -/
theorem edges_ok {graph : CompiledSignalGraph R} {connected : Connected definition}
    (feedthrough : graph.blocks.map (·.feedthrough) = definition.blocks.map (declaredFeedthrough tools))
    (h : definition.connections.foldlM (connect graph) {} = .ok connected) (a b : Fin definition.blocks.length) :
    b ∈ connected.edges a ↔ Feeds tools definition a b := by
  have declared : ∀ target : Fin definition.blocks.length,
      (graph.blocks[target.val]?.map (·.feedthrough)).getD [] = declaredFeedthrough tools (definition.block target) := by
    intro target
    rw [← List.getElem?_map, feedthrough, List.getElem?_map, List.getElem?_eq_getElem target.isLt]
    rfl
  refine foldlM_history (P := fun done (connected : Connected definition) => ∀ a b, b ∈ connected.edges a ↔
    ∃ edge ∈ done, definition.find edge.sourceBlock = some a ∧ definition.find edge.targetBlock = some b ∧
      ∃ port : Fin (definition.block b).inputs.length,
        (definition.block b).inputs.findFinIdx? (·.id = edge.targetPort) = some port ∧
          instantaneous (definition.block b) (declaredFeedthrough tools (definition.block b)) port) h ?_ ?_ a b
  · intro a b
    constructor
    · nofun
    · rintro ⟨_, member, _⟩
      cases member
  · intro done edge connected next ih step a b
    obtain ⟨link, linkOk, last⟩ := bind_ok step
    obtain rfl := Except.ok.inj last
    obtain ⟨source, target, port⟩ := resolve_ok linkOk
    have added : b ∈ (connected.add graph link).edges a ↔ b ∈ connected.edges a ∨ a = link.source ∧ b = link.target ∧
        instantaneous (definition.block link.target)
          (declaredFeedthrough tools (definition.block link.target)) link.port := by
      show b ∈ (if _ then _ else _) ↔ _
      rw [declared]
      split
      · next both =>
        rw [List.mem_append, List.mem_singleton]
        simp only [both, true_and, and_true]
      · next neither =>
        constructor
        · exact Or.inl
        · rintro (old | ⟨same, _, instant⟩)
          · exact old
          · exact absurd ⟨same, instant⟩ neither
    rw [added, ih]
    constructor
    · rintro (⟨other, member, rest⟩ | ⟨rfl, rfl, instant⟩)
      · exact ⟨other, List.mem_append_left _ member, rest⟩
      · exact ⟨edge, List.mem_append_right _ (List.mem_singleton_self _), source, target, link.port, port, instant⟩
    · rintro ⟨other, member, atSource, atTarget, otherPort, atPort, instant⟩
      rcases List.mem_append.mp member with old | last
      · exact Or.inl ⟨other, old, atSource, atTarget, otherPort, atPort, instant⟩
      · obtain rfl := List.mem_singleton.mp last
        rw [source] at atSource
        rw [target] at atTarget
        obtain rfl := Option.some.inj atSource
        obtain rfl := Option.some.inj atTarget
        rw [port] at atPort
        obtain rfl := Option.some.inj atPort
        exact Or.inr ⟨rfl, rfl, instant⟩

section

variable {edges : Fin definition.blocks.length → List (Fin definition.blocks.length)}
  {components : List (List (Fin definition.blocks.length))} {c : List (Fin definition.blocks.length)}

/-- The components list every block once. -/
structure Partition (components : List (List (Fin definition.blocks.length))) : Prop where
  covers : ∀ block, ∃ c ∈ components, block ∈ c
  distinct : components.flatten.Nodup
  nonempty : ∀ c ∈ components, c ≠ []

omit [Double R] in
theorem Partition.componentOf_eq (h : Partition components) {block : Fin definition.blocks.length}
    (listed : c ∈ components) (member : block ∈ c) : componentOf definition components block = c := by
  unfold componentOf
  cases found : components.find? fun component => block ∈ component with
  | none =>
    have absent := List.find?_eq_none.mp found c listed
    exact absurd (decide_eq_true member) absent
  | some other =>
    have inOther : block ∈ other := by simpa using List.find?_some found
    have listed' := List.mem_of_find?_eq_some found
    by_contra ne
    have apart := (List.nodup_flatten.mp h.distinct).2
    have symmetric : Std.Symm (List.Disjoint : List (Fin definition.blocks.length) → _ → Prop) :=
      ⟨fun _ _ disjoint => disjoint.symm⟩
    exact apart.forall listed' listed ne inOther member

omit [Double R] in
theorem Partition.components_nodup (h : Partition components) : components.Nodup := by
  refine (List.nodup_flatten.mp h.distinct).2.imp_of_mem ?_
  intro a b inA _ disjoint same
  subst same
  obtain ⟨block, member⟩ := List.exists_mem_of_ne_nil a (h.nonempty a inA)
  exact disjoint member member

omit [Double R] in
theorem Partition.successors_mem (h : Partition components)
    {next : List (Fin definition.blocks.length)} (member : next ∈ successors definition edges components c) :
    next ∈ components := by
  obtain ⟨source, _, inFilter⟩ := List.mem_flatMap.mp member
  obtain ⟨target, _, rfl⟩ := List.mem_map.mp (List.mem_filter.mp inFilter).1
  obtain ⟨other, listed', inOther⟩ := h.covers target
  rw [h.componentOf_eq listed' inOther]
  exact listed'

omit [Double R] in
theorem Partition.whole (h : Partition components) :
    components.flatten.Perm (List.finRange definition.blocks.length) := by
  refine (List.perm_ext_iff_of_nodup h.distinct (List.nodup_finRange _)).mpr fun block => ?_
  refine iff_of_true ?_ (List.mem_finRange block)
  obtain ⟨c, listed, member⟩ := h.covers block
  exact List.mem_flatten.mpr ⟨c, listed, member⟩

omit [Double R] in
theorem Partition.indegree_eq (h : Partition components)
    (edges : Fin definition.blocks.length → List (Fin definition.blocks.length)) (c : List (Fin definition.blocks.length)) :
    indegree definition edges components c =
      Layering.incoming (successors definition edges components) components c := by
  let leaving (source : Fin definition.blocks.length) :=
    ((edges source).map (componentOf definition components)).filter
      (· ≠ componentOf definition components source)
  have inside : components.flatMap (successors definition edges components) =
      components.flatten.flatMap leaving := by
    rw [← List.flatMap_id, List.flatMap_assoc]
    refine List.flatMap_congr fun component listed => ?_
    refine List.flatMap_congr fun source member => ?_
    show _ = ((edges source).map _).filter _
    rw [h.componentOf_eq listed member]
  have regrouped : Layering.incoming (successors definition edges components) components c =
      Layering.incoming leaving components.flatten c := by
    unfold Layering.incoming
    rw [inside]
  exact (Layering.incoming_perm h.whole.symm c).trans regrouped.symm

theorem makeItem_ok {level : Nat} {item : ExecutionItem R} (h : makeItem definition edges c level = .ok item) :
    item.blocks = c.map (·.val) ∧ item.fixedPoint = cyclic definition edges c ∧ item.microstep = level := by
  unfold makeItem at h
  obtain ⟨_, _, h⟩ := bind_ok h
  obtain ⟨_, _, h⟩ := bind_ok h
  obtain rfl := Except.ok.inj h
  exact ⟨rfl, rfl, rfl⟩

/-- The items list the components once each, by levels that rise along the edges. -/
structure Ordered (edges : Fin definition.blocks.length → List (Fin definition.blocks.length))
    (components : List (List (Fin definition.blocks.length))) (items : List (ExecutionItem R)) : Prop where
  listed : (items.map (·.blocks)).Perm (components.map (·.map (·.val)))
  sorted : items.Pairwise fun x y => x.microstep ≤ y.microstep
  made : ∀ item ∈ items, ∃ c ∈ components, item.blocks = c.map (·.val) ∧
    item.fixedPoint = cyclic definition edges c
  up : ∀ x ∈ items, ∀ y ∈ items, ∀ a b : Fin definition.blocks.length, a.val ∈ x.blocks → b.val ∈ y.blocks →
    b ∈ edges a → x.blocks ≠ y.blocks → x.microstep < y.microstep

omit [Double R] in
theorem mem_map_val {block : Fin definition.blocks.length} : block.val ∈ c.map (·.val) ↔ block ∈ c := by
  constructor
  · intro member
    obtain ⟨other, inC, same⟩ := List.mem_map.mp member
    exact Fin.ext same ▸ inC
  · exact List.mem_map_of_mem

theorem Partition.ordered (h : Partition components) {items : List (ExecutionItem R)}
    (run : schedule definition edges components = .ok items) : Ordered edges components items := by
  obtain ⟨distinct, inComponents, up⟩ := Layering.layers_spec (Before definition) h.components_nodup
    (fun _ _ _ member => h.successors_mem member) (h.indegree_eq edges)
  unfold schedule at run
  obtain ⟨taken, made, run⟩ := bind_ok run
  obtain ⟨_, whole, run⟩ := bind_ok run
  obtain rfl := Except.ok.inj run
  have each := mapM_forall₂ made
  have length := each.length_eq
  have whole : taken.length = components.length := not_not.mp (throwIf_ok whole)
  have all := List.Subperm.perm_of_length_le (List.subperm_of_subset distinct fun c member => by
    obtain ⟨entry, inOrder, rfl⟩ := List.mem_map.mp member
    exact inComponents entry inOrder) (by rw [List.length_map, length, whole])
  have perm := List.perm_insertionSort (fun a b : ExecutionItem R => a.microstep ≤ b.microstep) taken
  have entryOf : ∀ item ∈ taken, ∃ entry ∈ Layering.layers (Before definition)
      (successors definition edges components) components (indegree definition edges components),
      item.blocks = entry.1.map (·.val) ∧ item.fixedPoint = cyclic definition edges entry.1 ∧
        item.microstep = entry.2 := by
    intro item member
    obtain ⟨entry, inOrder, ok⟩ := mem_of_forall₂ each member
    exact ⟨entry, inOrder, makeItem_ok ok⟩
  have blocks : taken.map (·.blocks) = ((Layering.layers (Before definition)
      (successors definition edges components) components
      (indegree definition edges components)).map (·.1)).map (·.map (·.val)) := by
    rw [List.map_map]
    exact (map_eq_of_forall₂ each fun entry item ok => (makeItem_ok ok).1.symm).symm
  refine ⟨?_, ?_, fun item member => ?_, fun x inX y inY a b atA atB edge ne => ?_⟩
  · exact (perm.map _).trans (blocks ▸ all.map _)
  · have total : Std.Total fun a b : ExecutionItem R => a.microstep ≤ b.microstep :=
      ⟨fun _ _ => le_total _ _⟩
    have trans : IsTrans (ExecutionItem R) fun a b => a.microstep ≤ b.microstep :=
      ⟨fun _ _ _ => le_trans⟩
    exact List.pairwise_insertionSort _ _
  · obtain ⟨entry, inOrder, eq, fixed, _⟩ := entryOf item (perm.mem_iff.mp member)
    exact ⟨entry.1, inComponents entry inOrder, eq, fixed⟩
  · obtain ⟨ex, inOrderX, eqX, _, levelX⟩ := entryOf x (perm.mem_iff.mp inX)
    obtain ⟨ey, inOrderY, eqY, _, levelY⟩ := entryOf y (perm.mem_iff.mp inY)
    rw [eqX, mem_map_val] at atA
    rw [eqY, mem_map_val] at atB
    have target := h.componentOf_eq (inComponents ey inOrderY) atB
    have ne' : ey.1 ≠ ex.1 := fun same => ne (by rw [eqX, eqY, same])
    have next : ey.1 ∈ successors definition edges components ex.1 := by
      refine List.mem_flatMap.mpr ⟨a, atA, List.mem_filter.mpr ⟨?_, decide_eq_true ne'⟩⟩
      exact List.mem_map.mpr ⟨b, edge, target⟩
    obtain ⟨level, lower, taken'⟩ := up ey inOrderY ex.1 (inComponents ex inOrderX) next
    have same : level = ex.2 := by
      have eq := List.inj_on_of_nodup_map distinct taken' inOrderX rfl
      exact congrArg (·.2) eq
    rw [levelX, levelY]
    omega

theorem admitLoop_ok (h : admitLoop definition edges c = .ok ()) (loop : cyclic definition edges c = true) :
    ∀ block ∈ c, Admitted (definition.block block) := by
  cases c with
  | nil => nofun
  | cons first rest =>
    unfold admitLoop at h
    dsimp only at h
    rw [if_pos loop] at h
    obtain ⟨_, direct, h⟩ := bind_ok h
    obtain ⟨_, _, policies⟩ := bind_ok h
    intro block member
    have policy := throwIf_ok (forM_ok policies block member)
    have delayed := throwIf_ok (forM_ok direct block member)
    refine ⟨not_not.mp policy, fun kind order => ?_⟩
    by_contra term
    exact delayed ⟨kind, order, by simpa using term⟩

end

theorem compile_ok {graph : CompiledSignalGraph R} (h : compile tools definition = .ok graph) :
    ∃ edges components, (∀ a b, b ∈ edges a ↔ Feeds tools definition a b) ∧
      components = StrongComponents.components edges (List.finRange definition.blocks.length) ∧
        (∀ c ∈ components, admitLoop definition edges c = .ok ()) ∧
          schedule definition edges components = .ok graph.items := by
  unfold compile at h
  obtain ⟨_, _, h⟩ := bind_ok h
  obtain ⟨_, _, h⟩ := bind_ok h
  obtain ⟨blocks, blocksOk, h⟩ := bind_ok h
  obtain ⟨connected, connectedOk, h⟩ := bind_ok h
  obtain ⟨_, _, h⟩ := bind_ok h
  obtain ⟨_, admitted, h⟩ := bind_ok h
  obtain ⟨items, scheduled, h⟩ := bind_ok h
  obtain rfl := Except.ok.inj h
  exact ⟨connected.edges, _, edges_ok (blocks_ok rfl blocksOk) connectedOk, rfl, forM_ok admitted, scheduled⟩

/-- The blocks that an accepted diagram puts into one item, and the order of the items. -/
structure Scheduled (tools : Tools R) (definition : SignalGraphDefinition R)
    (items : List (ExecutionItem R)) : Prop where
  once : (items.flatMap (·.blocks)).Perm (List.range definition.blocks.length)
  component : ∀ item ∈ items, item.blocks ≠ [] ∧ ∀ a b : Fin definition.blocks.length, a.val ∈ item.blocks →
    (b.val ∈ item.blocks ↔ Relation.ReflTransGen (Feeds tools definition) a b ∧
      Relation.ReflTransGen (Feeds tools definition) b a)
  precedes : ∀ i j : Fin items.length, ∀ a b : Fin definition.blocks.length, a.val ∈ items[i].blocks →
    b.val ∈ items[j].blocks → Feeds tools definition a b → i ≠ j → i < j
  loops : ∀ item ∈ items, (1 < item.blocks.length ∨
    ∃ a : Fin definition.blocks.length, a.val ∈ item.blocks ∧ Feeds tools definition a a) →
      item.fixedPoint ∧ ∀ a : Fin definition.blocks.length, a.val ∈ item.blocks →
        Admitted (definition.block a)

theorem scheduled_ok {graph : CompiledSignalGraph R} (h : compile tools definition = .ok graph) :
    Scheduled tools definition graph.items := by
  obtain ⟨edges, components, isEdge, rfl, admitted, run⟩ := compile_ok h
  obtain ⟨covers, distinct, classes⟩ := components_spec edges (List.mem_finRange (n := definition.blocks.length))
  have partition : Partition (StrongComponents.components edges (List.finRange definition.blocks.length)) :=
    ⟨covers, distinct, fun c member => (classes c member).1⟩
  have ordered := partition.ordered run
  have reach : ∀ a b, Reach edges a b ↔ Relation.ReflTransGen (Feeds tools definition) a b := by
    have same : (fun a b => b ∈ edges a) = Feeds tools definition := by
      funext a b
      exact propext (isEdge a b)
    intro a b
    rw [Reach, same]
  have distinctBlocks : (graph.items.map (·.blocks)).Nodup := by
    refine ordered.listed.nodup_iff.mpr (partition.components_nodup.map ?_)
    exact List.map_injective_iff.mpr Fin.val_injective
  refine ⟨?_, fun item member => ?_, fun i j a b atA atB feeds ne => ?_, fun item member loop => ?_⟩
  · have regrouped := ordered.listed.flatten
    rw [← List.flatMap_def, ← List.map_flatten] at regrouped
    refine regrouped.trans ((partition.whole.map _).trans ?_)
    rw [List.map_coe_finRange_eq_range]
  · obtain ⟨c, listed, eq, _⟩ := ordered.made item member
    obtain ⟨nonempty, _, isClass⟩ := classes c listed
    rw [eq]
    refine ⟨by simpa using nonempty, fun a b atA => ?_⟩
    rw [mem_map_val] at atA ⊢
    rw [isClass a atA b, Mutual, reach, reach]
  · have differ : graph.items[i].blocks ≠ graph.items[j].blocks := by
      intro same
      have inI : i.val < (graph.items.map (·.blocks)).length := by rw [List.length_map]; exact i.isLt
      have inJ : j.val < (graph.items.map (·.blocks)).length := by rw [List.length_map]; exact j.isLt
      have index : (graph.items.map (·.blocks))[i.val] = (graph.items.map (·.blocks))[j.val] := by
        rw [List.getElem_map, List.getElem_map]
        exact same
      exact ne (Fin.ext (distinctBlocks.getElem_inj_iff.mp index))
    have rises := ordered.up _ (List.getElem_mem i.isLt) _ (List.getElem_mem j.isLt) a b atA atB
      ((isEdge a b).mpr feeds) differ
    by_contra late
    have earlier := List.pairwise_iff_getElem.mp ordered.sorted j.val i.val j.isLt i.isLt
      (lt_of_le_of_ne (not_lt.mp late) fun same => ne (Fin.ext same.symm))
    exact absurd rises (not_lt.mpr earlier)
  · obtain ⟨c, listed, eq, fixed⟩ := ordered.made item member
    obtain ⟨_, _, isClass⟩ := classes c listed
    have loops : cyclic definition edges c = true := by
      unfold cyclic
      rw [Bool.or_eq_true]
      rcases loop with many | ⟨a, atA, self⟩
      · rw [eq, List.length_map] at many
        exact Or.inl (decide_eq_true many)
      · rw [eq, mem_map_val] at atA
        rcases c with _ | ⟨first, rest⟩
        · cases atA
        · by_cases single : rest = []
          · subst single
            obtain rfl := List.mem_singleton.mp atA
            exact Or.inr (decide_eq_true ((isEdge a a).mpr self))
          · refine Or.inl (decide_eq_true ?_)
            have := List.length_pos_iff.mpr single
            rw [List.length_cons]
            omega
    refine ⟨fixed.trans loops, fun a atA => ?_⟩
    rw [eq, mem_map_val] at atA
    exact admitLoop_ok (admitted c listed) loops a atA

/-- A block on a cycle is in an item that `loops` speaks of. -/
theorem Scheduled.admitted {items : List (ExecutionItem R)} (h : Scheduled tools definition items)
    {a : Fin definition.blocks.length} (loop : Relation.TransGen (Feeds tools definition) a a) :
    Admitted (definition.block a) := by
  have listed : a.val ∈ items.flatMap (·.blocks) := h.once.mem_iff.mpr (List.mem_range.mpr a.isLt)
  obtain ⟨item, member, atA⟩ := List.mem_flatMap.mp listed
  obtain ⟨_, sameItem⟩ := h.component item member
  have cyclic : 1 < item.blocks.length ∨
      ∃ a : Fin definition.blocks.length, a.val ∈ item.blocks ∧ Feeds tools definition a a := by
    obtain ⟨b, first, back⟩ := Relation.TransGen.head'_iff.mp loop
    by_cases same : b = a
    · exact Or.inr ⟨a, atA, same ▸ first⟩
    · have atB := (sameItem a b atA).mpr ⟨.single first, back⟩
      refine Or.inl ?_
      by_contra few
      rcases blocks : item.blocks with _ | ⟨only, _ | ⟨second, rest⟩⟩
      · rw [blocks] at atA
        cases atA
      · rw [blocks, List.mem_singleton] at atA atB
        exact same (Fin.ext (atB.trans atA.symm))
      · rw [blocks] at few
        exact few (by rw [List.length_cons, List.length_cons]; omega)
  exact (h.loops item member cyclic).2 a atA

/-- An input, a gain and a delay that closes the loop. -/
def delayedLoop : SignalGraphDefinition Float where
  blocks := [
    { id := "u", kind := .externalInput, tolerance := 0.0, realParameters := [0.0] },
    { id := "g", kind := .sum, inputs := [{ id := "a" }, { id := "b" }], tolerance := 0.0 },
    { id := "z", kind := .unitDelay, inputs := [{ id := "in" }], tolerance := 0.0, realParameters := [0.0] }]
  connections := [
    { sourceBlock := "u", targetBlock := "g", targetPort := "a" },
    { sourceBlock := "z", targetBlock := "g", targetPort := "b" },
    { sourceBlock := "g", targetBlock := "z", targetPort := "in" }]

def noKernels : Tools Float := ⟨fun _ => none, fun _ _ => .ok ([], 0)⟩

theorem delayedLoop_ok : ∃ graph, compile noKernels delayedLoop = .ok graph := ⟨_, rfl⟩

end LasecSimul.Signal
