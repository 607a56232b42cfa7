import Mathlib.Data.List.Flatten
import Mathlib.Data.List.Nodup
import Mathlib.Data.List.Perm.Subperm
import Mathlib.Data.List.Sort

/-!
# Topological layers

Nodes are taken when all their incoming edges are released, the first ready one first; taking a node
releases its outgoing edges and puts their targets at least one level above it. No edge then goes down
or stays on a level, and no node is taken twice.
-/

namespace LasecSimul.Lib.Layering

variable {N : Type*} [DecidableEq N] (before : N → N → Prop) [DecidableRel before] (succ : N → List N)

structure Progress (N : Type*) where
  indegree : N → Nat
  level : N → Nat
  ready : List N
  taken : List (N × Nat)

namespace Progress

/-- One edge to `next` from a node on `level`. -/
def release (level : Nat) (p : Progress N) (next : N) : Progress N where
  indegree := Function.update p.indegree next (p.indegree next - 1)
  level := Function.update p.level next (max (p.level next) (level + 1))
  ready := if p.indegree next - 1 = 0 then p.ready.orderedInsert before next else p.ready
  taken := p.taken

def take (p : Progress N) : Progress N :=
  match p.ready with
  | [] => p
  | node :: ready =>
    (succ node).foldl (release before (p.level node))
      { p with ready, taken := p.taken ++ [(node, p.level node)] }

end Progress

def start (nodes : List N) (indegree : N → Nat) : Progress N where
  indegree
  level _ := 0
  ready := (nodes.filter fun node => indegree node = 0).insertionSort before
  taken := []

/-- The nodes in the order in which they are taken, with their levels. -/
def layers (nodes : List N) (indegree : N → Nat) : List (N × Nat) :=
  ((Progress.take before succ)^[nodes.length] (start before nodes indegree)).taken

variable {before succ}

/-- How often `node` is the target of an edge from `nodes`. -/
def incoming {M : Type*} (succ : M → List N) (nodes : List M) (node : N) : Nat :=
  (nodes.flatMap succ).count node

theorem incoming_perm {M : Type*} {succ : M → List N} {nodes nodes' : List M} (h : nodes.Perm nodes')
    (node : N) : incoming succ nodes node = incoming succ nodes' node :=
  (h.flatMap_right succ).count_eq node

/-- What holds when the edges `released`, each with the level of its source, are released. -/
structure Inv (succ : N → List N) (nodes : List N) (released : List (Nat × N)) (p : Progress N) : Prop where
  listed : ∀ node ∈ p.taken.map (·.1) ++ p.ready, node ∈ nodes
  distinct : (p.taken.map (·.1) ++ p.ready).Nodup
  counted : ∀ node, p.indegree node + (released.map (·.2)).count node = incoming succ nodes node
  free : ∀ node ∈ p.taken.map (·.1) ++ p.ready, p.indegree node = 0
  kept : ∀ item ∈ p.taken, p.level item.1 = item.2
  up : ∀ edge ∈ released, edge.1 < p.level edge.2

variable {nodes : List N} {released : List (Nat × N)} {p : Progress N}

variable (before) in
/-- A node listed with edges still to be released is neither taken nor ready. -/
theorem Inv.release (h : Inv succ nodes released p) (level : Nat) {next : N} (listed : next ∈ nodes)
    (fits : (released.map (·.2) ++ [next]).count next ≤ incoming succ nodes next) :
    Inv succ nodes (released ++ [(level, next)]) (p.release before level next) := by
  have pending : 0 < p.indegree next := by
    have := h.counted next
    rw [List.count_append, List.count_singleton_self] at fits
    omega
  have fresh : next ∉ p.taken.map (·.1) ++ p.ready := by
    intro member
    have := h.free next member
    omega
  have other : ∀ {node}, node ∈ p.taken.map (·.1) ++ p.ready → node ≠ next := by
    rintro node member rfl
    exact fresh member
  have moved : ∀ node, node ∈ p.taken.map (·.1) ++ (p.release before level next).ready ↔
      node ∈ p.taken.map (·.1) ++ p.ready ∨ node = next ∧ p.indegree next - 1 = 0 := by
    intro node
    unfold Progress.release
    dsimp only
    split
    · rw [List.mem_append, List.mem_append, List.mem_orderedInsert]
      tauto
    · next still => simp only [still, and_false, or_false]
  refine ⟨fun node member => ?_, ?_, fun node => ?_, fun node member => ?_, fun item member => ?_,
    fun edge member => ?_⟩
  · rcases (moved node).mp member with old | ⟨rfl, _⟩
    · exact h.listed node old
    · exact listed
  · show (p.taken.map (·.1) ++ (p.release before level next).ready).Nodup
    unfold Progress.release
    dsimp only
    split
    · have inserted := (List.perm_orderedInsert before next p.ready).append_left (p.taken.map (·.1))
      exact (inserted.trans List.perm_middle).nodup_iff.mpr (List.nodup_cons.mpr ⟨fresh, h.distinct⟩)
    · exact h.distinct
  · show Function.update p.indegree next (p.indegree next - 1) node + _ = _
    rw [List.map_append, List.count_append, ← h.counted node]
    by_cases same : node = next
    · subst same
      rw [Function.update_self]
      show _ + (_ + [node].count node) = _
      rw [List.count_singleton_self]
      omega
    · rw [Function.update_of_ne same]
      show _ + (_ + [next].count node) = _
      rw [List.count_singleton, if_neg (by simpa using Ne.symm same)]
      rfl
  · show Function.update p.indegree next (p.indegree next - 1) node = 0
    rcases (moved node).mp member with old | ⟨rfl, zero⟩
    · rw [Function.update_of_ne (other old)]
      exact h.free node old
    · rw [Function.update_self]
      exact zero
  · show Function.update p.level next _ item.1 = item.2
    rw [Function.update_of_ne (other (List.mem_append_left _ (List.mem_map_of_mem member)))]
    exact h.kept item member
  · show edge.1 < Function.update p.level next (max (p.level next) (level + 1)) edge.2
    rcases List.mem_append.mp member with old | last
    · have low := h.up edge old
      by_cases same : edge.2 = next
      · rw [same, Function.update_self]
        rw [same] at low
        omega
      · rw [Function.update_of_ne same]
        exact low
    · rw [List.mem_singleton.mp last, Function.update_self]
      show level < _
      omega

variable (before) in
theorem Inv.releaseAll (h : Inv succ nodes released p) (level : Nat) (edges : List N)
    (listed : ∀ next ∈ edges, next ∈ nodes)
    (fits : ∀ node, (released.map (·.2) ++ edges).count node ≤ incoming succ nodes node) :
    Inv succ nodes (released ++ edges.map fun next => (level, next))
        (edges.foldl (Progress.release before level) p) ∧
      (edges.foldl (Progress.release before level) p).taken = p.taken := by
  induction edges generalizing released p with
  | nil => exact ⟨by rw [List.map_nil, List.append_nil]; exact h, rfl⟩
  | cons next edges ih =>
    have first : (released.map (·.2) ++ [next]).count next ≤ incoming succ nodes next := by
      refine le_trans ?_ (fits next)
      rw [List.count_append, List.count_append]
      exact Nat.add_le_add_left (List.Sublist.count_le _ (List.singleton_sublist.mpr List.mem_cons_self)) _
    have rest := ih (h.release before level (listed next List.mem_cons_self) first)
      (fun node member => listed node (List.mem_cons_of_mem _ member)) (by
        intro node
        rw [List.map_append, List.append_assoc]
        exact fits node)
    rw [List.append_assoc] at rest
    exact rest

/-- The edges of the taken nodes. -/
def releasedBy (succ : N → List N) (taken : List (N × Nat)) : List (Nat × N) :=
  taken.flatMap fun item => (succ item.1).map fun next => (item.2, next)

omit [DecidableEq N] in
theorem releasedBy_targets (taken : List (N × Nat)) :
    (releasedBy succ taken).map (·.2) = (taken.map (·.1)).flatMap succ := by
  rw [releasedBy, List.map_flatMap, List.flatMap_map]
  refine congrArg (List.flatMap · taken) (funext fun item => ?_)
  rw [List.map_map]
  exact List.map_id _

theorem Inv.take (h : Inv succ nodes (releasedBy succ p.taken) p)
    (closed : ∀ node ∈ nodes, ∀ next ∈ succ node, next ∈ nodes) :
    Inv succ nodes (releasedBy succ (p.take before succ).taken) (p.take before succ) := by
  unfold Progress.take
  split
  · exact h
  · next node ready eq =>
    have listed := h.listed
    have distinct := h.distinct
    have free := h.free
    rw [eq] at listed distinct free
    have nodeListed := listed node (List.mem_append_right _ List.mem_cons_self)
    have regroup : (p.taken ++ [(node, p.level node)]).map (·.1) ++ ready =
        p.taken.map (·.1) ++ node :: ready := by
      rw [List.map_append, List.append_assoc]
      rfl
    have popped : Inv succ nodes (releasedBy succ p.taken)
        { p with ready, taken := p.taken ++ [(node, p.level node)] } := by
      refine ⟨?_, ?_, h.counted, ?_, fun item member => ?_, h.up⟩
      · rw [regroup]
        exact listed
      · rw [regroup]
        exact distinct
      · rw [regroup]
        exact free
      · rcases List.mem_append.mp member with old | last
        · exact h.kept item old
        · rw [List.mem_singleton.mp last]
    have fits : ∀ target, ((releasedBy succ p.taken).map (·.2) ++ succ node).count target ≤
        incoming succ nodes target := by
      intro target
      have both : (releasedBy succ p.taken).map (·.2) ++ succ node =
          (p.taken.map (·.1) ++ [node]).flatMap succ := by
        rw [releasedBy_targets, List.flatMap_append, List.flatMap_singleton]
      have some : (p.taken.map (·.1) ++ [node]).Nodup := by
        rw [← List.singleton_append, ← List.append_assoc] at distinct
        exact distinct.of_append_left
      obtain ⟨part, perm, sub⟩ := List.subperm_of_subset some fun other member => by
        refine listed other ?_
        rcases List.mem_append.mp member with old | last
        · exact List.mem_append_left _ old
        · exact List.mem_append_right _ (List.mem_cons.mpr (Or.inl (List.mem_singleton.mp last)))
      rw [both, ← (perm.flatMap_right succ).count_eq]
      exact (sub.flatMap succ).count_le _
    obtain ⟨inv, taken⟩ := popped.releaseAll before (p.level node) (succ node)
      (closed node nodeListed) fits
    rw [taken]
    show Inv succ nodes (releasedBy succ (p.taken ++ [(node, p.level node)])) _
    rw [releasedBy, List.flatMap_append, List.flatMap_singleton]
    exact inv

theorem inv_start {indegree : N → Nat} (distinct : nodes.Nodup)
    (counted : ∀ node, indegree node = incoming succ nodes node) :
    Inv succ nodes (releasedBy succ []) (start before nodes indegree) := by
  have sorted := List.perm_insertionSort before (nodes.filter fun node => indegree node = 0)
  have inStart : ∀ node, node ∈ (start before nodes indegree).ready ↔ node ∈ nodes ∧ indegree node = 0 := by
    intro node
    show node ∈ List.insertionSort _ _ ↔ _
    rw [sorted.mem_iff, List.mem_filter, decide_eq_true_eq]
  refine ⟨fun node member => ((inStart node).mp member).1, ?_, fun node => counted node,
    fun node member => ((inStart node).mp member).2, nofun, nofun⟩
  exact sorted.nodup_iff.mpr (distinct.filter _)

theorem inv_take (before : N → N → Prop) [DecidableRel before] {indegree : N → Nat} (distinct : nodes.Nodup)
    (closed : ∀ node ∈ nodes, ∀ next ∈ succ node, next ∈ nodes)
    (counted : ∀ node, indegree node = incoming succ nodes node) (n : Nat) :
    Inv succ nodes (releasedBy succ ((Progress.take before succ)^[n] (start before nodes indegree)).taken)
      ((Progress.take before succ)^[n] (start before nodes indegree)) := by
  induction n with
  | zero => exact inv_start distinct counted
  | succ n ih =>
    rw [Function.iterate_succ_apply']
    exact ih.take closed

/-- Nodes are taken once, and a taken node comes above every node with an edge to it. -/
theorem layers_spec (before : N → N → Prop) [DecidableRel before] {indegree : N → Nat} (distinct : nodes.Nodup)
    (closed : ∀ node ∈ nodes, ∀ next ∈ succ node, next ∈ nodes)
    (counted : ∀ node, indegree node = incoming succ nodes node) :
    ((layers before succ nodes indegree).map (·.1)).Nodup ∧
      (∀ item ∈ layers before succ nodes indegree, item.1 ∈ nodes) ∧
        ∀ item ∈ layers before succ nodes indegree, ∀ source ∈ nodes, item.1 ∈ succ source →
          ∃ level < item.2, (source, level) ∈ layers before succ nodes indegree := by
  have inv := inv_take before distinct closed counted nodes.length
  unfold layers
  generalize (Progress.take before succ)^[nodes.length] (start before nodes indegree) = p at inv
  refine ⟨inv.distinct.of_append_left, fun item member =>
    inv.listed _ (List.mem_append_left _ (List.mem_map_of_mem member)), fun item member source listed edge => ?_⟩
  have free := inv.free item.1 (List.mem_append_left _ (List.mem_map_of_mem member))
  have counted := inv.counted item.1
  rw [free, Nat.zero_add, releasedBy_targets] at counted
  have sourceTaken : source ∈ p.taken.map (·.1) := by
    by_contra absent
    have more : (source :: p.taken.map (·.1)).Nodup := List.nodup_cons.mpr ⟨absent, inv.distinct.of_append_left⟩
    have inNodes : source :: p.taken.map (·.1) ⊆ nodes := by
      intro other inMore
      rcases List.mem_cons.mp inMore with rfl | old
      · exact listed
      · exact inv.listed other (List.mem_append_left _ old)
    obtain ⟨part, perm, sub⟩ := List.subperm_of_subset more inNodes
    have le := (sub.flatMap succ).count_le item.1
    rw [(perm.flatMap_right succ).count_eq, List.flatMap_cons, List.count_append] at le
    have counts := List.count_pos_iff.mpr edge
    unfold incoming at counted
    omega
  obtain ⟨taken, inTaken, eq⟩ := List.mem_map.mp sourceTaken
  obtain ⟨_, level⟩ := taken
  obtain rfl : _ = source := eq
  have released : (level, item.1) ∈ releasedBy succ p.taken :=
    List.mem_flatMap.mpr ⟨_, inTaken, List.mem_map.mpr ⟨item.1, edge, rfl⟩⟩
  have above := inv.up _ released
  rw [inv.kept item member] at above
  exact ⟨level, above, inTaken⟩

end LasecSimul.Lib.Layering
