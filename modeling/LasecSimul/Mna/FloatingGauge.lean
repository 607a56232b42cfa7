import LasecSimul.Mna.Blocks
import Mathlib.Algebra.BigOperators.Fin
import Mathlib.Algebra.Order.BigOperators.Group.Finset
import Mathlib.Algebra.Order.Ring.Rat
import Mathlib.Data.Fin.VecNotation

/-!
# References of floating blocks (`CircuitGroup::applyFloatingGauge`)

Numbers are exact: a finite `double` is a rational.
-/

namespace LasecSimul.Mna

open Lib.Forest Lib.Closure Function Relation

/-- A square matrix of `n` rows. -/
abbrev Square (n : Nat) := Fin n → Fin n → ℚ

structure GaugeWorkspace (n : Nat) where
  blocks : Blocks n := .init n
  size : Fin n → Nat := fun _ => 0
  nodes : Fin n → Nat := fun _ => 0
  rowNodeSum : Fin n → ℚ := fun _ => 0
  rowNodeMagnitude : Fin n → ℚ := fun _ => 0
  rowMagnitude : Fin n → ℚ := fun _ => 0
  floating : Fin n → Bool := fun _ => true

namespace GaugeWorkspace

variable {n : Nat}

/-- One entry of the column-major pass. -/
def visitEntry (admittance : Square n) (nodeCount : Nat) (w : GaugeWorkspace n) (entry : Fin n × Fin n) :
    GaugeWorkspace n :=
  let row := entry.1
  let column := entry.2
  let value := admittance row column
  if value = 0 then w
  else
    { w with
      rowMagnitude := update w.rowMagnitude row (w.rowMagnitude row + |value|)
      rowNodeSum :=
        if column < nodeCount then update w.rowNodeSum row (w.rowNodeSum row + value) else w.rowNodeSum
      rowNodeMagnitude :=
        if column < nodeCount then update w.rowNodeMagnitude row (w.rowNodeMagnitude row + |value|)
        else w.rowNodeMagnitude
      blocks := if row ≠ column then w.blocks.join row column else w.blocks }

/-- The entries, column by column. -/
def entries (n : Nat) : List (Fin n × Fin n) :=
  (List.finRange n).flatMap fun column => (List.finRange n).map fun row => (row, column)

/-- One row of the pass that measures the blocks. -/
def visitRow (nodeCount : Nat) (floatingTolerance : ℚ) (w : GaugeWorkspace n) (i : Fin n) : GaugeWorkspace n :=
  let found := w.blocks.find i
  let root := found.2
  let magnitude := w.rowNodeMagnitude i
  { w with
    blocks := found.1
    size := update w.size root (w.size root + 1)
    nodes := if i < nodeCount then update w.nodes root (w.nodes root + 1) else w.nodes
    floating :=
      if magnitude = 0 ∨ |w.rowNodeSum i| > magnitude * floatingTolerance then update w.floating root false
      else w.floating }

end GaugeWorkspace

variable {n : Nat}

def setDiagonal (scaled : Square n) (root : Fin n) (value : ℚ) : Square n := fun r c =>
  if r = root ∧ c = root then value else scaled r c

/-- One row of the pass that chooses references: the matrix and the number of floating references. -/
def chooseReference (w : GaugeWorkspace n) (rhs : Fin n → ℚ) (state : Square n × Nat) (root : Fin n) : Square n × Nat :=
  if w.blocks.parent root ≠ root then state
  else if w.size root = 1 ∧ w.nodes root = 1 ∧ w.rowMagnitude root = 0 ∧ rhs root = 0 then
    (setDiagonal state.1 root 1, state.2)
  else if 2 ≤ w.nodes root ∧ w.floating root then
    (setDiagonal state.1 root (state.1 root root + 1), state.2 + 1)
  else state

structure GaugeResult (n : Nat) where
  workspace : GaugeWorkspace n
  scaled : Square n
  floatingReferences : Nat

def applyFloatingGauge (admittance : Square n) (rhs : Fin n → ℚ) (nodeCount : Nat) (scaled : Square n)
    (floatingTolerance : ℚ) : GaugeResult n :=
  let connected := (GaugeWorkspace.entries n).foldl (GaugeWorkspace.visitEntry admittance nodeCount) {}
  let measured := (List.finRange n).foldl (GaugeWorkspace.visitRow nodeCount floatingTolerance) connected
  let result := (List.finRange n).foldl (chooseReference measured rhs) (scaled, 0)
  ⟨measured, result.1, result.2⟩

/-- The blocks of the off-diagonal pattern. -/
def Linked (admittance : Square n) : Fin n → Fin n → Prop :=
  EqvGen fun row column => row ≠ column ∧ admittance row column ≠ 0

/-- The sum of the node coefficients of a row. -/
def nodeSum (admittance : Square n) (nodeCount : Nat) (row : Fin n) : ℚ :=
  ∑ column : Fin n, if column < nodeCount then admittance row column else 0

/-- Shifting every node of the block of `x` by the same amount changes one of its equations. -/
def Grounded (admittance : Square n) (nodeCount : Nat) (x : Fin n) : Prop :=
  ∃ row, Linked admittance x row ∧ nodeSum admittance nodeCount row ≠ 0

/-- An unconnected node: its row and its column are zero. -/
def Isolated (admittance : Square n) (x : Fin n) : Prop :=
  ∀ other, admittance x other = 0 ∧ admittance other x = 0

/-- The rows that are to get a reference: one node of each block without a path to ground. -/
structure References (admittance : Square n) (nodeCount : Nat) (chosen : Fin n → Prop) : Prop where
  one : ∀ x : Fin n, x < nodeCount → ¬Grounded admittance nodeCount x → ¬Isolated admittance x →
    ∃! y, chosen y ∧ Linked admittance x y
  node : ∀ y, chosen y → y < nodeCount ∧ ¬Grounded admittance nodeCount y ∧ ¬Isolated admittance y

open Classical in
/-- What the gauge is to do: the blocks, the references, the pins of isolated zero nodes, and nothing else. -/
structure Gauged (admittance : Square n) (rhs : Fin n → ℚ) (nodeCount : Nat) (scaled : Square n)
    (result : GaugeResult n) : Prop where
  blocks : ∀ x y, SameTree result.workspace.blocks.parent x y ↔ Linked admittance x y
  rows : ∃ chosen, References admittance nodeCount chosen ∧ ∀ r c, result.scaled r c =
    if r = c ∧ chosen r then scaled r c + 1
    else if r = c ∧ r < nodeCount ∧ Isolated admittance r ∧ rhs r = 0 then 1
    else scaled r c

/-! ### The pass over the entries -/

section Entries

open GaugeWorkspace

variable {admittance : Square n} {nodeCount : Nat}

theorem update_add (f : Fin n → ℚ) (row r : Fin n) (value : ℚ) :
    update f row (f row + value) r = f r + if row = r then value else 0 := by
  by_cases same : row = r
  · subst same
    rw [update_self, if_pos rfl]
  · rw [update_of_ne (Ne.symm same), if_neg same, add_zero]

/-- What the pass over the entries `done` has added to a row. -/
def rowSum (value : Fin n × Fin n → ℚ) (r : Fin n) (done : List (Fin n × Fin n)) : ℚ :=
  (done.map fun entry => if entry.1 = r then value entry else 0).sum

theorem rowSum_concat (value : Fin n × Fin n → ℚ) (r : Fin n) (done : List (Fin n × Fin n)) (entry : Fin n × Fin n) :
    rowSum value r (done ++ [entry]) = rowSum value r done + if entry.1 = r then value entry else 0 := by
  simp [rowSum]

theorem rowSum_entries (value : Fin n × Fin n → ℚ) (r : Fin n) :
    rowSum value r (entries n) = ∑ column, value (r, column) := by
  have column (c : Fin n) : ((List.finRange n).map fun row => if row = r then value (row, c) else 0).sum = value (r, c) := by
    rw [← Fin.sum_univ_def, Finset.sum_ite_eq' Finset.univ r]
    simp
  rw [rowSum, entries, List.map_flatMap, List.flatMap, List.sum_flatten, List.map_map, Fin.sum_univ_def]
  congr 1
  refine List.map_congr_left fun c _ => ?_
  rw [Function.comp_apply, List.map_map]
  exact column c

def magnitudeAt (admittance : Square n) (entry : Fin n × Fin n) : ℚ := |admittance entry.1 entry.2|

def nodeValueAt (admittance : Square n) (nodeCount : Nat) (entry : Fin n × Fin n) : ℚ :=
  if entry.2 < nodeCount then admittance entry.1 entry.2 else 0

def nodeMagnitudeAt (admittance : Square n) (nodeCount : Nat) (entry : Fin n × Fin n) : ℚ :=
  if entry.2 < nodeCount then |admittance entry.1 entry.2| else 0

def couplings (admittance : Square n) (done : List (Fin n × Fin n)) : List (Fin n × Fin n) :=
  done.filter fun entry => entry.1 ≠ entry.2 ∧ admittance entry.1 entry.2 ≠ 0

structure Entered (admittance : Square n) (nodeCount : Nat) (done : List (Fin n × Fin n)) (w : GaugeWorkspace n) :
    Prop where
  magnitude : ∀ r, w.rowMagnitude r = rowSum (magnitudeAt admittance) r done
  nodeSum : ∀ r, w.rowNodeSum r = rowSum (nodeValueAt admittance nodeCount) r done
  nodeMagnitude : ∀ r, w.rowNodeMagnitude r = rowSum (nodeMagnitudeAt admittance nodeCount) r done
  blocks : ∀ x y, SameTree w.blocks.parent x y ↔ Joined (couplings admittance done) x y
  counts : w.size = (fun _ => 0) ∧ w.nodes = (fun _ => 0) ∧ w.floating = fun _ => true

theorem entered_nil : Entered admittance nodeCount [] {} where
  magnitude _ := rfl
  nodeSum _ := rfl
  nodeMagnitude _ := rfl
  blocks _ _ := Blocks.sameTree_init.trans joined_nil.symm
  counts := ⟨rfl, rfl, rfl⟩

variable {done : List (Fin n × Fin n)} {w : GaugeWorkspace n}

theorem Entered.visit (entered : Entered admittance nodeCount done w) (entry : Fin n × Fin n) :
    Entered admittance nodeCount (done ++ [entry]) (visitEntry admittance nodeCount w entry) := by
  rw [visitEntry]
  split
  · next zero =>
    have skipped : couplings admittance (done ++ [entry]) = couplings admittance done := by
      simp [couplings, zero]
    refine ⟨fun r => ?_, fun r => ?_, fun r => ?_, fun x y => ?_, entered.counts⟩
    · rw [rowSum_concat, entered.magnitude, magnitudeAt, zero, abs_zero, ite_self, add_zero]
    · rw [rowSum_concat, entered.nodeSum, nodeValueAt, zero, ite_self, ite_self, add_zero]
    · rw [rowSum_concat, entered.nodeMagnitude, nodeMagnitudeAt, zero, abs_zero, ite_self, ite_self, add_zero]
    · rw [skipped]
      exact entered.blocks x y
  · next nonzero =>
    refine ⟨fun r => ?_, fun r => ?_, fun r => ?_, fun x y => ?_, entered.counts⟩
    · rw [rowSum_concat, ← entered.magnitude]
      exact update_add _ _ _ _
    · rw [rowSum_concat, ← entered.nodeSum, nodeValueAt]
      dsimp only
      split
      · rw [update_add]
      · rw [ite_self, add_zero]
    · rw [rowSum_concat, ← entered.nodeMagnitude, nodeMagnitudeAt]
      dsimp only
      split
      · rw [update_add]
      · rw [ite_self, add_zero]
    · dsimp only
      by_cases diagonal : entry.1 = entry.2
      · have skipped : couplings admittance (done ++ [entry]) = couplings admittance done := by
          simp [couplings, diagonal]
        rw [if_neg (not_not.mpr diagonal), skipped]
        exact entered.blocks x y
      · have added : couplings admittance (done ++ [entry]) = couplings admittance done ++ [entry] := by
          simp [couplings, diagonal, nonzero]
        rw [if_pos diagonal, added, joined_concat, Blocks.join_same]
        simp only [Merged, entered.blocks]

theorem entered_all : Entered admittance nodeCount (entries n)
    ((entries n).foldl (visitEntry admittance nodeCount) {}) := by
  induction entries n using List.reverseRecOn with
  | nil => exact entered_nil
  | append_singleton done entry ih =>
    rw [List.foldl_concat]
    exact ih.visit entry

theorem mem_entries (row column : Fin n) : (row, column) ∈ entries n := by
  simp [entries]

theorem joined_entries {x y : Fin n} : Joined (couplings admittance (entries n)) x y ↔ Linked admittance x y := by
  have same : ∀ row column, (row, column) ∈ couplings admittance (entries n) ↔
      row ≠ column ∧ admittance row column ≠ 0 := by
    intro row column
    simp [couplings, mem_entries]
  exact eqvGen_iff (fun row column listed => .rel _ _ ((same row column).mp listed))
    fun row column coupled => .rel _ _ ((same row column).mpr coupled)

end Entries

section Rows

open GaugeWorkspace

variable {nodeCount : Nat} {floatingTolerance : ℚ} {connected w : GaugeWorkspace n} {done : List (Fin n)}

/-- The lowest index of the block of `i`. -/
def rootOf (connected : GaugeWorkspace n) (i : Fin n) : Fin n := (connected.blocks.find i).2

/-- A row that keeps its block from floating. -/
def Holds (connected : GaugeWorkspace n) (floatingTolerance : ℚ) (i : Fin n) : Prop :=
  connected.rowNodeMagnitude i = 0 ∨ |connected.rowNodeSum i| > connected.rowNodeMagnitude i * floatingTolerance

structure Measured (nodeCount : Nat) (floatingTolerance : ℚ) (connected : GaugeWorkspace n) (done : List (Fin n))
    (w : GaugeWorkspace n) : Prop where
  roots : ∀ x r, RootOf w.blocks.parent x r ↔ RootOf connected.blocks.parent x r
  sums : w.rowNodeSum = connected.rowNodeSum ∧ w.rowNodeMagnitude = connected.rowNodeMagnitude ∧
    w.rowMagnitude = connected.rowMagnitude
  size : ∀ r, w.size r = done.countP fun i => rootOf connected i = r
  nodes : ∀ r, w.nodes r = done.countP fun i => rootOf connected i = r ∧ i < nodeCount
  floating : ∀ r, w.floating r = true ↔ ∀ i ∈ done, rootOf connected i = r → ¬Holds connected floatingTolerance i

theorem measured_nil (counts : connected.size = (fun _ => 0) ∧ connected.nodes = (fun _ => 0) ∧
    connected.floating = fun _ => true) : Measured nodeCount floatingTolerance connected [] connected where
  roots _ _ := Iff.rfl
  sums := ⟨rfl, rfl, rfl⟩
  size r := by rw [counts.1]; rfl
  nodes r := by rw [counts.2.1]; rfl
  floating r := by simp [counts.2.2]

theorem update_count (f : Fin n → Nat) (root r : Fin n) :
    update f root (f root + 1) r = f r + if root = r then 1 else 0 := by
  by_cases same : root = r
  · subst same
    rw [update_self, if_pos rfl]
  · rw [update_of_ne (Ne.symm same), if_neg same, Nat.add_zero]

theorem Measured.visit (measured : Measured nodeCount floatingTolerance connected done w) (i : Fin n) :
    Measured nodeCount floatingTolerance connected (done ++ [i]) (visitRow nodeCount floatingTolerance w i) := by
  have root : (w.blocks.find i).2 = rootOf connected i :=
    Blocks.find_snd ((measured.roots _ _).mpr (connected.blocks.find_root i))
  refine ⟨fun x r => ?_, measured.sums, fun r => ?_, fun r => ?_, fun r => ?_⟩
  · exact Blocks.find_rootOf.trans (measured.roots x r)
  · show update w.size _ _ r = _
    rw [root, update_count, List.countP_append, List.countP_singleton, measured.size]
    simp
  · show (if i.val < nodeCount then update w.nodes _ _ else w.nodes) r = _
    rw [root, List.countP_append, List.countP_singleton, ← measured.nodes]
    split
    · next node =>
      rw [update_count]
      simp [node]
    · next notNode => simp [notNode]
  · show (if _ then update w.floating _ false else w.floating) r = true ↔ _
    rw [root, measured.sums.1, measured.sums.2.1]
    have extended : (∀ j ∈ done ++ [i], rootOf connected j = r → ¬Holds connected floatingTolerance j) ↔
        w.floating r = true ∧ (rootOf connected i = r → ¬Holds connected floatingTolerance i) := by
      rw [measured.floating, List.forall_mem_append, List.forall_mem_singleton]
    rw [extended]
    split
    · next held =>
      by_cases same : rootOf connected i = r
      · rw [same, update_self]
        constructor
        · rintro ⟨⟩
        · exact fun ⟨_, free⟩ => absurd held (free rfl)
      · rw [update_of_ne (Ne.symm same)]
        exact ⟨fun free => ⟨free, fun equal => absurd equal same⟩, And.left⟩
    · next notHeld => exact ⟨fun free => ⟨free, fun _ => notHeld⟩, And.left⟩

theorem measured_all (counts : connected.size = (fun _ => 0) ∧ connected.nodes = (fun _ => 0) ∧
    connected.floating = fun _ => true) (rows : List (Fin n)) :
    Measured nodeCount floatingTolerance connected rows
      (rows.foldl (visitRow nodeCount floatingTolerance) connected) := by
  induction rows using List.reverseRecOn with
  | nil => exact measured_nil counts
  | append_singleton done i ih =>
    rw [List.foldl_concat]
    exact ih.visit i

end Rows

section References

variable {w : GaugeWorkspace n} {rhs : Fin n → ℚ} {root : Fin n}

def Pins (w : GaugeWorkspace n) (rhs : Fin n → ℚ) (root : Fin n) : Prop :=
  w.blocks.parent root = root ∧ w.size root = 1 ∧ w.nodes root = 1 ∧ w.rowMagnitude root = 0 ∧ rhs root = 0

def Refers (w : GaugeWorkspace n) (rhs : Fin n → ℚ) (root : Fin n) : Prop :=
  w.blocks.parent root = root ∧ ¬Pins w rhs root ∧ 2 ≤ w.nodes root ∧ w.floating root = true

instance (root : Fin n) : Decidable (Pins w rhs root) := inferInstanceAs (Decidable (_ ∧ _))

instance (root : Fin n) : Decidable (Refers w rhs root) := inferInstanceAs (Decidable (_ ∧ _))

/-- What becomes of the diagonal entry of a row. -/
def diagonalOf (w : GaugeWorkspace n) (rhs : Fin n → ℚ) (root : Fin n) (value : ℚ) : ℚ :=
  if Refers w rhs root then value + 1 else if Pins w rhs root then 1 else value

theorem chooseReference_pins (pins : Pins w rhs root) (state : Square n × Nat) :
    chooseReference w rhs state root = (setDiagonal state.1 root 1, state.2) := by
  rw [chooseReference, if_neg (not_not.mpr pins.1), if_pos pins.2]

theorem chooseReference_refers (refers : Refers w rhs root) (state : Square n × Nat) :
    chooseReference w rhs state root = (setDiagonal state.1 root (state.1 root root + 1), state.2 + 1) := by
  rw [chooseReference, if_neg (not_not.mpr refers.1), if_neg fun pinned => refers.2.1 ⟨refers.1, pinned⟩,
    if_pos refers.2.2]

theorem chooseReference_leaves (notPins : ¬Pins w rhs root) (notRefers : ¬Refers w rhs root)
    (state : Square n × Nat) : chooseReference w rhs state root = state := by
  rw [chooseReference]
  split
  · rfl
  · next fixed =>
    rw [ne_eq, not_not] at fixed
    rw [if_neg fun pinned => notPins ⟨fixed, pinned⟩, if_neg fun floats => notRefers ⟨fixed, notPins, floats⟩]

theorem chooseReference_scaled (state : Square n × Nat) (root r c : Fin n) :
    (chooseReference w rhs state root).1 r c =
      if r = root ∧ c = root then diagonalOf w rhs root (state.1 r c) else state.1 r c := by
  by_cases refers : Refers w rhs root
  · rw [chooseReference_refers refers, diagonalOf, if_pos refers]
    show (if _ then _ else _) = _
    split
    · next here => rw [here.1, here.2]
    · rfl
  · by_cases pins : Pins w rhs root
    · rw [chooseReference_pins pins, diagonalOf, if_neg refers, if_pos pins]
      rfl
    · rw [chooseReference_leaves pins refers, diagonalOf, if_neg refers, if_neg pins, ite_self]

theorem chooseReference_all (scaled : Square n) (rows : List (Fin n)) (nodup : rows.Nodup) (r c : Fin n) :
    (rows.foldl (chooseReference w rhs) (scaled, 0)).1 r c =
      if r = c ∧ r ∈ rows then diagonalOf w rhs r (scaled r c) else scaled r c := by
  induction rows using List.reverseRecOn with
  | nil => simp
  | append_singleton done root ih =>
    rw [List.nodup_append] at nodup
    have fresh : root ∉ done := fun listed => nodup.2.2 root listed root (List.mem_singleton_self _) rfl
    rw [List.foldl_concat, chooseReference_scaled, ih nodup.1]
    by_cases here : r = root ∧ c = root
    · obtain ⟨rfl, rfl⟩ := here
      rw [if_pos ⟨rfl, rfl⟩, if_neg fun listed => fresh listed.2, if_pos ⟨rfl, by simp⟩]
    · rw [if_neg here]
      by_cases diagonal : r = c
      · subst diagonal
        have other : r ≠ root := fun same => here ⟨same, same⟩
        simp [other]
      · rw [if_neg fun both => diagonal both.1, if_neg fun both => diagonal both.1]

end References

section Survey

variable {admittance : Square n} {nodeCount : Nat} {rhs : Fin n → ℚ} {scaled : Square n} {w : GaugeWorkspace n}
  {x y root : Fin n}

theorem countP_finRange (p : Fin n → Prop) [DecidablePred p] :
    (List.finRange n).countP (fun i => p i) = (Finset.univ.filter p).card := by
  rw [List.countP_eq_length_filter, ← List.toFinset_card_of_nodup ((List.nodup_finRange n).filter _)]
  congr 1
  ext i
  simp

/-- What the workspace says about the matrix. -/
structure Surveyed (admittance : Square n) (nodeCount : Nat) (w : GaugeWorkspace n) : Prop where
  blocks : ∀ x y, SameTree w.blocks.parent x y ↔ Linked admittance x y
  magnitude : ∀ r, w.rowMagnitude r = 0 ↔ ∀ column, admittance r column = 0
  size : ∀ root, w.blocks.parent root = root → (w.size root = 1 ↔ ∀ i, Linked admittance root i → i = root)
  node : ∀ root, w.blocks.parent root = root → w.nodes root ≠ 0 → ∃ i : Fin n, Linked admittance root i ∧ i < nodeCount
  one : ∀ root, w.blocks.parent root = root → (∀ i, Linked admittance root i → i = root) → root < nodeCount →
    w.nodes root = 1
  two : ∀ root, w.blocks.parent root = root → (2 ≤ w.nodes root ↔
    ∃ i j : Fin n, i ≠ j ∧ (Linked admittance root i ∧ i < nodeCount) ∧ Linked admittance root j ∧ j < nodeCount)
  floating : ∀ root, w.blocks.parent root = root → (w.floating root = true ↔ ∀ row, Linked admittance root row →
    (∃ column : Fin n, column < nodeCount ∧ admittance row column ≠ 0) ∧ nodeSum admittance nodeCount row = 0)

theorem surveyed (admittance : Square n) (rhs : Fin n → ℚ) (nodeCount : Nat) (scaled : Square n) :
    Surveyed admittance nodeCount (applyFloatingGauge admittance rhs nodeCount scaled 0).workspace := by
  have entered : Entered admittance nodeCount (GaugeWorkspace.entries n) _ := entered_all
  have measured : Measured nodeCount 0 _ _ _ := measured_all entered.counts (List.finRange n)
  rw [applyFloatingGauge]
  dsimp only
  generalize (GaugeWorkspace.entries n).foldl (GaugeWorkspace.visitEntry admittance nodeCount) {} = connected
    at entered measured ⊢
  generalize (List.finRange n).foldl (GaugeWorkspace.visitRow nodeCount 0) connected = w at measured ⊢
  have blocks : ∀ x y, SameTree connected.blocks.parent x y ↔ Linked admittance x y :=
    fun x y => (entered.blocks x y).trans joined_entries
  have fixed : ∀ root, w.blocks.parent root = root → ∀ i, rootOf connected i = root ↔ Linked admittance root i := by
    intro root isRoot i
    have own := (measured.roots root root).mp (.root isRoot)
    rw [← blocks, sameTree_iff own (connected.blocks.find_root i)]
    exact eq_comm
  have sized : ∀ root, w.size root = (Finset.univ.filter fun i => rootOf connected i = root).card :=
    fun root => (measured.size root).trans (countP_finRange _)
  have noded : ∀ root, w.nodes root = (Finset.univ.filter fun i => rootOf connected i = root ∧ i < nodeCount).card :=
    fun root => (measured.nodes root).trans (countP_finRange _)
  have coefficients : ∀ r, connected.rowNodeMagnitude r = 0 ↔
      ∀ column : Fin n, column < nodeCount → admittance r column = 0 := by
    intro r
    rw [entered.nodeMagnitude, rowSum_entries, Finset.sum_eq_zero_iff_of_nonneg]
    · simp [nodeMagnitudeAt]
    · intro column _
      rw [nodeMagnitudeAt]
      split
      · exact abs_nonneg _
      · exact le_rfl
  have sums : ∀ r, connected.rowNodeSum r = nodeSum admittance nodeCount r := by
    intro r
    rw [entered.nodeSum, rowSum_entries]
    rfl
  constructor
  case blocks =>
    intro x y
    simp only [SameTree, measured.roots]
    exact blocks x y
  case magnitude =>
    intro r
    rw [measured.sums.2.2, entered.magnitude, rowSum_entries,
      Finset.sum_eq_zero_iff_of_nonneg fun _ _ => abs_nonneg _]
    simp [magnitudeAt]
  case size =>
    intro root isRoot
    rw [sized, Finset.card_eq_one]
    constructor
    · rintro ⟨only, alone⟩ i linked
      have inside : ∀ j, Linked admittance root j → j = only := by
        intro j linked
        rw [← Finset.mem_singleton, ← alone]
        exact Finset.mem_filter.mpr ⟨Finset.mem_univ j, (fixed root isRoot j).mpr linked⟩
      rw [inside i linked, inside root (.refl root)]
    · intro alone
      refine ⟨root, Finset.ext fun i => ?_⟩
      rw [Finset.mem_filter, Finset.mem_singleton, fixed root isRoot]
      constructor
      · exact fun found => alone i found.2
      · rintro rfl
        exact ⟨Finset.mem_univ i, .refl i⟩
  case node =>
    intro root isRoot some
    rw [noded, Finset.card_ne_zero] at some
    obtain ⟨i, found⟩ := some
    obtain ⟨linked, node⟩ := (Finset.mem_filter.mp found).2
    exact ⟨i, (fixed root isRoot i).mp linked, node⟩
  case one =>
    intro root isRoot alone node
    rw [noded, Finset.card_eq_one]
    refine ⟨root, Finset.ext fun i => ?_⟩
    rw [Finset.mem_filter, Finset.mem_singleton, fixed root isRoot]
    constructor
    · exact fun found => alone i found.2.1
    · rintro rfl
      exact ⟨Finset.mem_univ i, .refl i, node⟩
  case two =>
    intro root isRoot
    rw [noded, ← Nat.lt_iff_add_one_le, Finset.one_lt_card]
    simp only [Finset.mem_filter, Finset.mem_univ, true_and, fixed root isRoot]
    constructor
    · rintro ⟨i, hi, j, hj, differ⟩
      exact ⟨i, j, differ, hi, hj⟩
    · rintro ⟨i, j, differ, hi, hj⟩
      exact ⟨i, hi, j, hj, differ⟩
  case floating =>
    intro root isRoot
    rw [measured.floating]
    refine ⟨fun free row linked => ?_, fun free row _ inBlock => ?_⟩
    · have notHeld := free row (List.mem_finRange row) ((fixed root isRoot row).mpr linked)
      rw [Holds, mul_zero, gt_iff_lt, abs_pos, not_or, coefficients, sums, not_not] at notHeld
      refine ⟨?_, notHeld.2⟩
      by_contra none
      exact notHeld.1 fun column node => by_contra fun nonzero => none ⟨column, node, nonzero⟩
    · obtain ⟨⟨column, node, nonzero⟩, zero⟩ := free row ((fixed root isRoot row).mp inBlock)
      rw [Holds, mul_zero, gt_iff_lt, abs_pos, not_or, coefficients, sums, not_not]
      exact ⟨fun all => nonzero (all column node), zero⟩

theorem scaled_eq (admittance : Square n) (rhs : Fin n → ℚ) (nodeCount : Nat) (scaled : Square n) (r c : Fin n) :
    (applyFloatingGauge admittance rhs nodeCount scaled 0).scaled r c =
      if r = c then
        diagonalOf (applyFloatingGauge admittance rhs nodeCount scaled 0).workspace rhs r (scaled r c)
      else scaled r c := by
  refine (chooseReference_all scaled (List.finRange n) (List.nodup_finRange n) r c).trans ?_
  simp only [List.mem_finRange, and_true]
  rfl

theorem Isolated.alone (isolated : Isolated admittance x) (linked : Linked admittance x y) : y = x := by
  refine (eqvGen_eq_of_isolated (fun row column coupled => ⟨?_, ?_⟩) linked).symm
  · rintro rfl
    exact coupled.2 (isolated column).1
  · rintro rfl
    exact coupled.2 (isolated row).2

/-- A node that is not alone in a block without a path to ground is coupled to another node. -/
theorem exists_other {x : Fin n} (node : x < nodeCount) (free : ¬Grounded admittance nodeCount x)
    (coefficient : ∃ column : Fin n, column < nodeCount ∧ admittance x column ≠ 0) :
    ∃ other : Fin n, other ≠ x ∧ Linked admittance x other ∧ other < nodeCount := by
  by_contra none
  have alone : ∀ column : Fin n, column ≠ x → column < nodeCount → admittance x column = 0 := by
    intro column differ inside
    by_contra nonzero
    exact none ⟨column, differ, .rel _ _ ⟨Ne.symm differ, nonzero⟩, inside⟩
  have zero : nodeSum admittance nodeCount x = 0 := by
    by_contra nonzero
    exact free ⟨x, .refl x, nonzero⟩
  rw [nodeSum, Finset.sum_eq_single x, if_pos node] at zero
  · obtain ⟨column, inside, nonzero⟩ := coefficient
    by_cases same : column = x
    · exact nonzero (by rw [same]; exact zero)
    · exact nonzero (alone column same inside)
  · intro column _ differ
    split
    · next inside => exact alone column differ inside
    · rfl
  · exact fun absent => absurd (Finset.mem_univ x) absent

variable (survey : Surveyed admittance nodeCount w)
include survey

theorem isRoot_of_alone (alone : ∀ i, Linked admittance x i → i = x) : w.blocks.parent x = x := by
  obtain ⟨root, h⟩ := w.blocks.exists_root x
  have linked : Linked admittance x root := (survey.blocks x root).mp ⟨root, h, .root h.fixed⟩
  have fixed := h.fixed
  rwa [alone root linked] at fixed

theorem pins_iff : Pins w rhs x ↔ x < nodeCount ∧ Isolated admittance x ∧ rhs x = 0 := by
  constructor
  · rintro ⟨isRoot, size, nodes, magnitude, zero⟩
    have alone := (survey.size x isRoot).mp size
    have row := (survey.magnitude x).mp magnitude
    obtain ⟨i, linked, node⟩ := survey.node x isRoot (by rw [nodes]; exact Nat.one_ne_zero)
    rw [alone i linked] at node
    refine ⟨node, fun other => ⟨row other, ?_⟩, zero⟩
    by_contra nonzero
    by_cases same : other = x
    · exact nonzero (by rw [same]; exact row x)
    · exact same (alone other (.symm _ _ (.rel _ _ ⟨same, nonzero⟩)))
  · rintro ⟨node, isolated, zero⟩
    have alone : ∀ i, Linked admittance x i → i = x := fun i => isolated.alone
    have isRoot := isRoot_of_alone survey alone
    exact ⟨isRoot, (survey.size x isRoot).mpr alone, survey.one x isRoot alone node,
      (survey.magnitude x).mpr fun column => (isolated column).1, zero⟩

/-- A reference is the lowest node of a floating block. -/
theorem refers_iff : Refers w rhs root ↔ w.blocks.parent root = root ∧ root < nodeCount ∧
    ¬Grounded admittance nodeCount root ∧ ¬Isolated admittance root ∧
      ∀ row, Linked admittance root row → ∃ column : Fin n, column < nodeCount ∧ admittance row column ≠ 0 := by
  constructor
  · rintro ⟨isRoot, _, two, floating⟩
    obtain ⟨i, j, differ, ⟨linkedI, nodeI⟩, linkedJ, _⟩ := (survey.two root isRoot).mp two
    have rows := (survey.floating root isRoot).mp floating
    have lowest : root ≤ i := by
      obtain ⟨r, hr, hi⟩ := (survey.blocks root i).mpr linkedI
      rw [RootOf.eq_of_fixed hr isRoot]
      exact Blocks.root_le hi
    refine ⟨isRoot, lt_of_le_of_lt (Fin.le_def.mp lowest) nodeI, ?_, ?_, fun row linked => (rows row linked).1⟩
    · rintro ⟨row, linked, nonzero⟩
      exact nonzero (rows row linked).2
    · intro isolated
      exact differ ((isolated.alone linkedI).trans (isolated.alone linkedJ).symm)
  · rintro ⟨isRoot, node, free, connected, coefficients⟩
    obtain ⟨other, differ, linked, inside⟩ := exists_other node free (coefficients root (.refl root))
    refine ⟨isRoot, fun pins => connected ((pins_iff survey).mp pins).2.1, ?_, ?_⟩
    · exact (survey.two root isRoot).mpr ⟨root, other, Ne.symm differ, ⟨.refl root, node⟩, linked, inside⟩
    · refine (survey.floating root isRoot).mpr fun row linked => ⟨coefficients row linked, ?_⟩
      by_contra nonzero
      exact free ⟨row, linked, nonzero⟩

end Survey

theorem Grounded.of_linked {admittance : Square n} {nodeCount : Nat} {x y : Fin n} (linked : Linked admittance x y)
    (grounded : Grounded admittance nodeCount y) : Grounded admittance nodeCount x := by
  obtain ⟨row, further, nonzero⟩ := grounded
  exact ⟨row, .trans _ _ _ linked further, nonzero⟩

/-- The gauge is as it should be exactly when every row of a floating block has a node coefficient. -/
theorem applyFloatingGauge_gauged (admittance : Square n) (rhs : Fin n → ℚ) (nodeCount : Nat) (scaled : Square n) :
    Gauged admittance rhs nodeCount scaled (applyFloatingGauge admittance rhs nodeCount scaled 0) ↔
      ∀ x : Fin n, x < nodeCount → ¬Grounded admittance nodeCount x → ¬Isolated admittance x →
        ∀ row, Linked admittance x row → ∃ column : Fin n, column < nodeCount ∧ admittance row column ≠ 0 := by
  have survey := surveyed admittance rhs nodeCount scaled
  have entry := scaled_eq admittance rhs nodeCount scaled
  generalize applyFloatingGauge admittance rhs nodeCount scaled 0 = result at survey entry ⊢
  constructor
  · rintro ⟨_, chosen, references, rows⟩ x node free connected row linked
    obtain ⟨y, ⟨isChosen, toY⟩, _⟩ := references.one x node free connected
    obtain ⟨_, _, notIsolated⟩ := references.node y isChosen
    have refers : Refers result.workspace rhs y := by
      by_contra notRefers
      have same := (entry y y).symm.trans (rows y y)
      rw [if_pos rfl, if_pos ⟨rfl, isChosen⟩, diagonalOf, if_neg notRefers,
        if_neg fun pins => notIsolated ((pins_iff survey).mp pins).2.1] at same
      exact absurd same (by simp)
    obtain ⟨_, _, _, _, coefficients⟩ := (refers_iff survey).mp refers
    exact coefficients row (.trans _ _ _ (.symm _ _ toY) linked)
  · intro coefficients
    refine ⟨survey.blocks, Refers result.workspace rhs, ⟨fun x node free connected => ?_, fun y refers => ?_⟩,
      fun r c => ?_⟩
    · obtain ⟨root, h⟩ := result.workspace.blocks.exists_root x
      have linked : Linked admittance x root := (survey.blocks x root).mp ⟨root, h, .root h.fixed⟩
      refine ⟨root, ⟨(refers_iff survey).mpr ⟨h.fixed, ?_, ?_, ?_, ?_⟩, linked⟩, ?_⟩
      · exact lt_of_le_of_lt (Fin.le_def.mp (Blocks.root_le h)) node
      · exact fun grounded => free (grounded.of_linked linked)
      · intro isolated
        rw [isolated.alone (.symm _ _ linked)] at connected
        exact connected isolated
      · exact fun row further => coefficients x node free connected row (.trans _ _ _ linked further)
      · rintro y ⟨refers, toY⟩
        obtain ⟨r, hx, hy⟩ := (survey.blocks x y).mpr toY
        rw [hx.unique h] at hy
        exact hy.eq_of_fixed refers.1
    · obtain ⟨_, node, free, connected, _⟩ := (refers_iff survey).mp refers
      exact ⟨node, free, connected⟩
    · rw [entry]
      by_cases diagonal : r = c
      · subst diagonal
        rw [if_pos rfl, diagonalOf]
        by_cases refers : Refers result.workspace rhs r
        · rw [if_pos refers, if_pos ⟨rfl, refers⟩]
        · have notChosen : ¬(r = r ∧ Refers result.workspace rhs r) := fun both => refers both.2
          rw [if_neg refers, if_neg notChosen]
          by_cases pins : Pins result.workspace rhs r
          · rw [if_pos pins, if_pos ⟨rfl, (pins_iff survey).mp pins⟩]
          · rw [if_neg pins, if_neg fun both => pins ((pins_iff survey).mpr both.2)]
      · rw [if_neg diagonal, if_neg fun both => diagonal both.1, if_neg fun both => diagonal both.1]

/-- An ideal voltage source between two nodes and nothing else: the current of the source is row 2. -/
def openSource : Square 3 := ![![0, 0, 1], ![0, 0, -1], ![1, -1, 0]]

/-- The source floats, but its nodes have no coefficient of their own, so neither becomes the reference. -/
theorem applyFloatingGauge_leaves_openSource :
    ¬∀ (admittance : Square 3) (rhs : Fin 3 → ℚ) (nodeCount : Nat) (scaled : Square 3),
      Gauged admittance rhs nodeCount scaled (applyFloatingGauge admittance rhs nodeCount scaled 0) := by
  intro claim
  obtain ⟨_, chosen, references, rows⟩ := claim openSource (fun _ => 0) 2 openSource
  have free : ¬Grounded openSource 2 0 := by
    have zero : ∀ row, nodeSum openSource 2 row = 0 := by decide +kernel
    rintro ⟨row, _, nonzero⟩
    exact nonzero (zero row)
  have connected : ¬Isolated openSource 0 := fun isolated => absurd (isolated 2).1 (by decide +kernel)
  obtain ⟨y, ⟨isChosen, _⟩, _⟩ := references.one 0 (by decide) free connected
  have diagonal := rows y y
  rw [if_pos ⟨rfl, isChosen⟩] at diagonal
  have kept : ∀ y, (applyFloatingGauge openSource (fun _ => 0) 2 openSource 0).scaled y y = openSource y y := by
    decide +kernel
  rw [kept] at diagonal
  exact absurd diagonal (by simp)

end LasecSimul.Mna
