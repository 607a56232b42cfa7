import LasecSimul.Lib.Trace
import LasecSimul.Scheduling.Scheduler
import LasecSimul.Scheduling.SparseSet

/-!
# Dirty marks

Producers mark components directly while the mutex of the scheduler is free, and in the pending list
otherwise. A settle iteration (`SimulationSession::settleStep`) runs under the mutex: it stamps a copy of the
dirty set and then clears the set.
-/

namespace LasecSimul.Scheduling

open Lib.Trace

structure DirtyMarks where
  dirtySet : SparseSet
  pendingDirty : SparseSet

namespace DirtyMarks

def create (componentCapacity : Nat) : DirtyMarks where
  dirtySet := .create componentCapacity
  pendingDirty := .create componentCapacity

def markDirectly (marks : DirtyMarks) (componentIndex : Nat) : DirtyMarks :=
  { marks with dirtySet := (marks.dirtySet.insert componentIndex).2 }

def markPending (marks : DirtyMarks) (componentIndex : Nat) : DirtyMarks :=
  { marks with pendingDirty := (marks.pendingDirty.insert componentIndex).2 }

/-- With the answer whether the merge added an index. -/
def mergePendingDirtyLocked (marks : DirtyMarks) : Bool × DirtyMarks :=
  let (inserted, dirtySet) := marks.pendingDirty.dense.foldl
    (fun (inserted, dirtySet) componentIndex =>
      ((dirtySet.insert componentIndex).1 || inserted, (dirtySet.insert componentIndex).2))
    (false, marks.dirtySet)
  (inserted, ⟨dirtySet, marks.pendingDirty.clear⟩)

def dirty (marks : DirtyMarks) (componentIndex : Nat) : Bool :=
  marks.dirtySet.contains componentIndex || marks.pendingDirty.contains componentIndex

def dirtyCount (marks : DirtyMarks) : Nat :=
  marks.pendingDirty.dense.foldl
    (fun count componentIndex => if marks.dirtySet.contains componentIndex then count else count + 1)
    marks.dirtySet.size

def Holds (marks : DirtyMarks) (componentIndex : Nat) : Prop :=
  componentIndex ∈ marks.dirtySet.dense ∨ componentIndex ∈ marks.pendingDirty.dense

variable {marks : DirtyMarks} {componentIndex other : Nat}

theorem foldl_insert_dense (members : List Nat) (inserted : Bool) (set : SparseSet) (other : Nat) :
    other ∈ (members.foldl (fun (inserted, dirtySet) componentIndex =>
        ((SparseSet.insert dirtySet componentIndex).1 || inserted, (dirtySet.insert componentIndex).2))
      (inserted, set)).2.dense ↔ other ∈ members ∨ other ∈ set.dense := by
  induction members generalizing inserted set with
  | nil => simp
  | cons member members ih =>
    rw [List.foldl_cons, ih, (set.insert_spec member).2, List.mem_cons]
    tauto

theorem mem_merge : other ∈ marks.mergePendingDirtyLocked.2.dirtySet.dense ↔ marks.Holds other := by
  rw [Holds, or_comm]
  exact foldl_insert_dense _ _ _ _

theorem dirty_iff : marks.dirty componentIndex = true ↔ marks.Holds componentIndex := by
  rw [dirty, Bool.or_eq_true, SparseSet.contains_iff, SparseSet.contains_iff]
  rfl

theorem foldl_count_pos (members : List Nat) (set : SparseSet) (count : Nat)
    (some : 0 < count ∨ ∃ member ∈ members, member ∉ set.dense) :
    0 < members.foldl (fun count member => if set.contains member then count else count + 1) count := by
  induction members generalizing count with
  | nil => exact some.resolve_right fun ⟨_, member, _⟩ => nomatch member
  | cons first members ih =>
    rw [List.foldl_cons]
    apply ih
    rcases some with positive | ⟨member, isMember, absent⟩
    · refine Or.inl ?_
      split
      · exact positive
      · exact Nat.succ_pos count
    · rcases List.mem_cons.mp isMember with rfl | later
      · rw [← SparseSet.contains_iff] at absent
        exact Or.inl (by rw [if_neg absent]; exact Nat.succ_pos count)
      · exact Or.inr ⟨member, later, absent⟩

theorem dirtyCount_pos (holds : marks.Holds componentIndex) : 0 < marks.dirtyCount := by
  apply foldl_count_pos
  by_cases direct : componentIndex ∈ marks.dirtySet.dense
  · exact Or.inl (List.length_pos_of_mem direct)
  · exact Or.inr ⟨componentIndex, holds.resolve_left direct, direct⟩

/-- The scheduler with these marks. -/
def onto (marks : DirtyMarks) (s : Scheduler) : Scheduler :=
  { s with dirty := marks.dirtySet.toFinset, pendingDirty := marks.pendingDirty.toFinset }

theorem onto_markDirectly (s : Scheduler) : (marks.markDirectly componentIndex).onto s =
    { marks.onto s with dirty := insert componentIndex (marks.onto s).dirty } := by
  rw [onto, onto, markDirectly, SparseSet.toFinset_insert]

theorem onto_markPending (s : Scheduler) : (marks.markPending componentIndex).onto s =
    { marks.onto s with pendingDirty := insert componentIndex (marks.onto s).pendingDirty } := by
  rw [onto, onto, markPending, SparseSet.toFinset_insert]

theorem onto_merge (s : Scheduler) :
    marks.mergePendingDirtyLocked.2.onto s = (marks.onto s).mergePendingDirtyLocked := by
  have merged : marks.mergePendingDirtyLocked.2.dirtySet.toFinset =
      marks.dirtySet.toFinset ∪ marks.pendingDirty.toFinset := by
    ext other
    rw [SparseSet.toFinset, List.mem_toFinset, mem_merge, Finset.mem_union, SparseSet.toFinset, SparseSet.toFinset,
      List.mem_toFinset, List.mem_toFinset]
    rfl
  rw [onto, merged]
  rfl

end DirtyMarks

/-- Who holds the mutex: nobody, a thread outside of `settleStep`, or one in it before the copy of the dirty set,
while it stamps the copy, and after it cleared the set. -/
inductive Phase where
  | free
  | held
  | settling
  | stamping (stamped : List Nat)
  | solved

inductive DirtyLabel where
  | marked (componentIndex : Nat)
  | began
  | consumed (stamped : List Nat)
  | discarded (componentIndex : Nat)
  | reset
  | silent

structure DirtyState where
  marks : DirtyMarks
  phase : Phase

/-- A producer whose `try_lock` failed inserts into the pending list at any later time. Direct inserts of the
thread that holds the mutex are not producers' marks. -/
inductive DirtyStep : DirtyState → DirtyLabel → DirtyState → Prop where
  | markDirectly (marks : DirtyMarks) (componentIndex : Nat) :
    DirtyStep ⟨marks, .free⟩ (.marked componentIndex) ⟨marks.markDirectly componentIndex, .free⟩
  | markPending (marks : DirtyMarks) (phase : Phase) (componentIndex : Nat) :
    DirtyStep ⟨marks, phase⟩ (.marked componentIndex) ⟨marks.markPending componentIndex, phase⟩
  | lock (marks : DirtyMarks) : DirtyStep ⟨marks, .free⟩ .silent ⟨marks, .held⟩
  | unlock (marks : DirtyMarks) : DirtyStep ⟨marks, .held⟩ .silent ⟨marks, .free⟩
  | merge (marks : DirtyMarks) :
    DirtyStep ⟨marks, .held⟩ .silent ⟨marks.mergePendingDirtyLocked.2, .held⟩
  | insert {marks : DirtyMarks} {phase : Phase} (componentIndex : Nat) : phase ≠ .free →
    DirtyStep ⟨marks, phase⟩ .silent ⟨marks.markDirectly componentIndex, phase⟩
  | begin (marks : DirtyMarks) : DirtyStep ⟨marks, .held⟩ .began ⟨marks, .settling⟩
  | stable {marks : DirtyMarks} : marks.dirtySet.empty = true →
    DirtyStep ⟨marks, .settling⟩ .silent ⟨marks, .held⟩
  | stamp {marks : DirtyMarks} : marks.dirtySet.empty = false →
    DirtyStep ⟨marks, .settling⟩ .silent ⟨marks, .stamping marks.dirtySet.dense⟩
  | clear (marks : DirtyMarks) (stamped : List Nat) : DirtyStep ⟨marks, .stamping stamped⟩ (.consumed stamped)
      ⟨{ marks with dirtySet := marks.dirtySet.clear }, .solved⟩
  | settled (marks : DirtyMarks) : DirtyStep ⟨marks, .solved⟩ .silent ⟨marks, .held⟩
  | remove (marks : DirtyMarks) (componentIndex : Nat) : DirtyStep ⟨marks, .held⟩ (.discarded componentIndex)
      ⟨{ marks with dirtySet := (marks.dirtySet.remove componentIndex).2 }, .held⟩
  | reset (marks : DirtyMarks) :
    DirtyStep ⟨marks, .held⟩ .reset ⟨⟨marks.dirtySet.clear, marks.pendingDirty.clear⟩, .held⟩

/-- A settle iteration that begins in `labels` stamps the component and clears it. -/
def Consumed (componentIndex : Nat) (labels : List DirtyLabel) : Prop :=
  ∃ before between after stamped, labels = before ++ .began :: between ++ .consumed stamped :: after ∧
    componentIndex ∈ stamped

def Discarded (componentIndex : Nat) (labels : List DirtyLabel) : Prop :=
  .discarded componentIndex ∈ labels ∨ .reset ∈ labels

/-- A mark that no later settle iteration consumed, of a component that was not removed since. -/
def Outstanding (componentIndex : Nat) (labels : List DirtyLabel) : Prop :=
  ∃ before after, labels = before ++ .marked componentIndex :: after ∧ ¬Consumed componentIndex after ∧
    ¬Discarded componentIndex after

/-! ### No mark is lost -/

variable {componentIndex : Nat} {labels after : List DirtyLabel} {label : DirtyLabel} {s t : DirtyState}

/-- Where a mark is: pending, or in the dirty set, and then in the copy that is being stamped. -/
def Phase.Keeps (componentIndex : Nat) (after : List DirtyLabel) : Phase → Prop
  | .settling => .began ∈ after
  | .stamping stamped => componentIndex ∈ stamped ∧ .began ∈ after
  | _ => True

def Kept (componentIndex : Nat) (after : List DirtyLabel) (s : DirtyState) : Prop :=
  componentIndex ∈ s.marks.pendingDirty.dense ∨
    componentIndex ∈ s.marks.dirtySet.dense ∧ s.phase.Keeps componentIndex after

theorem Phase.Keeps.concat {phase : Phase} (keeps : phase.Keeps componentIndex after) :
    phase.Keeps componentIndex (after ++ [label]) := by
  cases phase with
  | settling => exact List.mem_append_left _ keeps
  | stamping => exact ⟨keeps.1, List.mem_append_left _ keeps.2⟩
  | free | held | solved => trivial

theorem Kept.holds (kept : Kept componentIndex after s) : s.marks.Holds componentIndex :=
  kept.elim Or.inr fun direct => Or.inl direct.1

theorem Kept.grow {marks : DirtyMarks} {phase : Phase} (kept : Kept componentIndex after ⟨marks, phase⟩)
    {grown : DirtyMarks} (dirty : ∀ c ∈ marks.dirtySet.dense, c ∈ grown.dirtySet.dense)
    (pending : ∀ c ∈ marks.pendingDirty.dense, c ∈ grown.pendingDirty.dense) :
    Kept componentIndex (after ++ [label]) ⟨grown, phase⟩ :=
  kept.imp (pending _) fun ⟨direct, keeps⟩ => ⟨dirty _ direct, keeps.concat⟩

theorem Consumed.concat (began : .began ∈ after) {stamped : List Nat} (member : componentIndex ∈ stamped) :
    Consumed componentIndex (after ++ [.consumed stamped]) := by
  obtain ⟨before, between, rfl⟩ := List.append_of_mem began
  exact ⟨before, between, [], stamped, by simp, member⟩

theorem Consumed.mono (consumed : Consumed componentIndex after) : Consumed componentIndex (after ++ [label]) := by
  obtain ⟨before, between, rest, stamped, rfl, member⟩ := consumed
  exact ⟨before, between, rest ++ [label], stamped, by simp, member⟩

theorem Discarded.mono (discarded : Discarded componentIndex after) : Discarded componentIndex (after ++ [label]) :=
  discarded.imp (List.mem_append_left _) (List.mem_append_left _)

theorem Kept.step (kept : Kept componentIndex after s) (step : DirtyStep s label t)
    (waits : ¬Consumed componentIndex (after ++ [label])) (present : ¬Discarded componentIndex (after ++ [label])) :
    Kept componentIndex (after ++ [label]) t := by
  have last : label ∈ after ++ [label] := List.mem_append_right _ (List.mem_singleton.mpr rfl)
  cases step with
  | markDirectly marks marked =>
    exact kept.grow (fun c member => (marks.dirtySet.insert_spec marked).2 c |>.mpr (Or.inr member)) fun _ member => member
  | markPending marks phase marked =>
    exact kept.grow (fun _ member => member) fun c member =>
      (marks.pendingDirty.insert_spec marked).2 c |>.mpr (Or.inr member)
  | insert inserted =>
    exact kept.grow (fun c member => (SparseSet.insert_spec _ inserted).2 c |>.mpr (Or.inr member)) fun _ member => member
  | lock marks | unlock marks | settled marks => exact kept.imp id fun direct => ⟨direct.1, trivial⟩
  | stable => exact kept.imp id fun direct => ⟨direct.1, trivial⟩
  | merge marks => exact Or.inr ⟨DirtyMarks.mem_merge.mpr kept.holds, trivial⟩
  | begin marks => exact kept.imp id fun direct => ⟨direct.1, last⟩
  | stamp => exact kept.imp id fun direct => ⟨direct.1, direct.1, List.mem_append_left _ direct.2⟩
  | clear marks stamped =>
    rcases kept with pending | ⟨-, member, began⟩
    · exact Or.inl pending
    · exact absurd (Consumed.concat began member) waits
  | remove marks removed =>
    have other : componentIndex ≠ removed := by
      rintro rfl
      exact present (Or.inl last)
    exact kept.imp id fun direct => ⟨(marks.dirtySet.mem_remove removed componentIndex).mpr ⟨direct.1, other⟩, trivial⟩
  | reset marks => exact absurd (Or.inr last) present

theorem run_kept (kept : Kept componentIndex [] s) (run : Run DirtyStep s labels t)
    (waits : ¬Consumed componentIndex labels) (present : ¬Discarded componentIndex labels) :
    Kept componentIndex labels t := by
  induction run with
  | start => exact kept
  | next _ last ih =>
    exact (ih (fun consumed => waits consumed.mono) fun discarded => present discarded.mono).step last waits present

theorem marked_kept (step : DirtyStep s (.marked componentIndex) t) : Kept componentIndex [] t := by
  cases step with
  | markDirectly marks => exact Or.inr ⟨(marks.dirtySet.insert_spec componentIndex).2 _ |>.mpr (Or.inl rfl), trivial⟩
  | markPending marks => exact Or.inl ((marks.pendingDirty.insert_spec componentIndex).2 _ |>.mpr (Or.inl rfl))

/-- In every interleaving a component stays in the dirty set or in the pending list from its mark until a settle
iteration that began after the mark has stamped it, and is reported all that time. -/
theorem no_mark_lost {componentCapacity : Nat}
    (run : Run DirtyStep ⟨.create componentCapacity, .free⟩ labels s) (outstanding : Outstanding componentIndex labels) :
    (componentIndex ∈ s.marks.dirtySet.dense ∨ componentIndex ∈ s.marks.pendingDirty.dense) ∧
      s.marks.dirty componentIndex = true ∧ 0 < s.marks.dirtyCount := by
  obtain ⟨before, after, rfl, waits, present⟩ := outstanding
  rw [List.append_cons] at run
  obtain ⟨u, first, later⟩ := run.split
  obtain ⟨v, -, mark⟩ := first.last
  have holds := (run_kept (marked_kept mark) later waits present).holds
  exact ⟨holds, DirtyMarks.dirty_iff.mpr holds, DirtyMarks.dirtyCount_pos holds⟩

/-- A mark while the iteration that stamps the component is running. -/
theorem no_mark_lost_while_stamping : ∃ s : DirtyState,
    (2 ∈ s.marks.dirtySet.dense ∨ 2 ∈ s.marks.pendingDirty.dense) ∧ s.marks.dirty 2 = true ∧ 0 < s.marks.dirtyCount := by
  have idle : Run DirtyStep ⟨.create 4, .free⟩ [] ⟨.create 4, .free⟩ := .start _
  have stamped := (((idle.next (.markDirectly _ 2)).next (.lock _)).next (.begin _)).next (.stamp rfl)
  have cleared := (stamped.next (.markPending _ _ 2)).next (.clear _ _)
  refine ⟨_, no_mark_lost cleared ⟨[.marked 2, .silent, .began, .silent], [.consumed [2]], rfl, ?_, ?_⟩⟩
  · rintro ⟨before, between, after, consumed, split, -⟩
    cases before with
    | nil => cases split
    | cons first before =>
      have tail := (List.cons.inj split).2
      simp at tail
  · rintro (discarded | reset)
    · simp at discarded
    · simp at reset

end LasecSimul.Scheduling
