import Mathlib.Algebra.BigOperators.Group.Finset.Basic
import Mathlib.Tactic.Abel

/-!
# Stamps of a circuit group (`CircuitGroup.hpp`, `MnaSolver.hpp`)

Numbers are exact. A factorisation is kept as the matrix and the right-hand side that `factor` saw; what it
computes from them is not part of the model.
-/

namespace LasecSimul.Mna

variable {Owner F : Type} [DecidableEq Owner] [AddCommGroup F] [DecidableEq F]

structure MatrixStampEntry (F : Type) where
  row : Nat
  column : Nat
  value : F
  deriving DecidableEq

structure RhsStampEntry (F : Type) where
  row : Nat
  value : F
  deriving DecidableEq

structure StampContribution (F : Type) where
  matrix : List (MatrixStampEntry F) := []
  rhs : List (RhsStampEntry F) := []
  deriving DecidableEq

abbrev Matrix (F : Type) := Nat → Nat → F

abbrev Vector (F : Type) := Nat → F

structure CircuitGroup (Owner F : Type) where
  totalSize : Nat
  admittance : Matrix F
  rhs : Vector F
  stamps : Owner → StampContribution F := fun _ => {}
  /-- The arguments of the last `factor`. -/
  factorization : Option (Matrix F × Vector F) := none
  admittanceChanged : Bool := true
  currentChanged : Bool := true

namespace CircuitGroup

def make (totalSize : Nat) : CircuitGroup Owner F :=
  { totalSize, admittance := fun _ _ => 0, rhs := fun _ => 0 }

def addMatrix (admittance : Matrix F) (row column : Nat) (value : F) : Matrix F := fun r c =>
  if r = row ∧ c = column then admittance r c + value else admittance r c

def addRhs (rhs : Vector F) (row : Nat) (value : F) : Vector F := fun r =>
  if r = row then rhs r + value else rhs r

/-- The comparison of two contributions: their lengths, and then entry by entry. -/
def differ {α : Type} [DecidableEq α] (previous entries : List α) : Bool :=
  previous.length ≠ entries.length || (previous.zip entries).any fun (a, b) => a ≠ b

def replaceStamp (group : CircuitGroup Owner F) (ownerId : Owner) (entries : StampContribution F) :
    CircuitGroup Owner F :=
  let previous := group.stamps ownerId
  let matrixChanged := differ previous.matrix entries.matrix
  let rhsChanged := differ previous.rhs entries.rhs
  let removed := previous.matrix.foldl
    (fun m entry => addMatrix m entry.row entry.column (-entry.value)) group.admittance
  let added := entries.matrix.foldl (fun m entry => addMatrix m entry.row entry.column entry.value) removed
  let removedRhs := previous.rhs.foldl (fun v entry => addRhs v entry.row (-entry.value)) group.rhs
  let addedRhs := entries.rhs.foldl (fun v entry => addRhs v entry.row entry.value) removedRhs
  { group with
    admittance := if matrixChanged then added else group.admittance
    rhs := if rhsChanged then addedRhs else group.rhs
    stamps := fun owner => if owner = ownerId then
        { matrix := if matrixChanged then entries.matrix else previous.matrix
          rhs := if rhsChanged then entries.rhs else previous.rhs }
      else group.stamps owner
    admittanceChanged := group.admittanceChanged || matrixChanged
    currentChanged := group.currentChanged || rhsChanged }

/-- The entries of a dense stamp, row by row. -/
def denseEntries (size : Nat) (admittanceDelta : Matrix F) (rhsDelta : Vector F) : StampContribution F where
  matrix := (List.range size).flatMap fun row => (List.range size).filterMap fun column =>
    if admittanceDelta row column ≠ 0 then some ⟨row, column, admittanceDelta row column⟩ else none
  rhs := (List.range size).filterMap fun row => if rhsDelta row ≠ 0 then some ⟨row, rhsDelta row⟩ else none

def clearStamps (group : CircuitGroup Owner F) : CircuitGroup Owner F :=
  { group with
    stamps := fun _ => {}, admittance := fun _ _ => 0, rhs := fun _ => 0, factorization := none
    admittanceChanged := true, currentChanged := true }

def dirty (group : CircuitGroup Owner F) : Bool := group.admittanceChanged || group.currentChanged

def factor (group : CircuitGroup Owner F) : CircuitGroup Owner F :=
  { group with factorization := some (group.admittance, group.rhs), admittanceChanged := false }

/-- The group as `solve` finds it: `MnaSolver` factors a group whose matrix has changed. -/
def prepared (group : CircuitGroup Owner F) : CircuitGroup Owner F :=
  if group.admittanceChanged then group.factor else group

/-- The turn of one group in `MnaSolver::solve`. -/
def solve (group : CircuitGroup Owner F) : CircuitGroup Owner F :=
  if group.dirty then { group.prepared with currentChanged := false } else group

end CircuitGroup

/-- What is done with a group between two rebuilds. -/
inductive Operation (Owner F : Type) where
  | replaceStamp (ownerId : Owner) (entries : StampContribution F)
  | replaceDense (ownerId : Owner) (admittanceDelta : Matrix F) (rhsDelta : Vector F)
  | clearStamps
  | solve

namespace CircuitGroup

def apply (group : CircuitGroup Owner F) : Operation Owner F → CircuitGroup Owner F
  | .replaceStamp ownerId entries => group.replaceStamp ownerId entries
  | .replaceDense ownerId admittanceDelta rhsDelta =>
    group.replaceStamp ownerId (denseEntries group.totalSize admittanceDelta rhsDelta)
  | .clearStamps => group.clearStamps
  | .solve => group.solve

def run (group : CircuitGroup Owner F) (operations : List (Operation Owner F)) : CircuitGroup Owner F :=
  operations.foldl apply group

/-- The contribution of an entry list to one entry of the matrix. -/
def matrixAt (entries : List (MatrixStampEntry F)) (r c : Nat) : F :=
  (entries.map fun entry => if r = entry.row ∧ c = entry.column then entry.value else 0).sum

def rhsAt (entries : List (RhsStampEntry F)) (r : Nat) : F :=
  (entries.map fun entry => if r = entry.row then entry.value else 0).sum

/-- The latest contribution of an owner, in a group of `size` rows; the newest operation comes first. -/
def latest (size : Nat) (owner : Owner) : List (Operation Owner F) → StampContribution F
  | [] => {}
  | .replaceStamp ownerId entries :: older => if owner = ownerId then entries else latest size owner older
  | .replaceDense ownerId admittanceDelta rhsDelta :: older =>
    if owner = ownerId then denseEntries size admittanceDelta rhsDelta else latest size owner older
  | .clearStamps :: _ => {}
  | .solve :: older => latest size owner older

/-- The owners that have contributed. -/
def owners : List (Operation Owner F) → Finset Owner
  | [] => ∅
  | .replaceStamp ownerId _ :: older | .replaceDense ownerId _ _ :: older => insert ownerId (owners older)
  | .clearStamps :: older | .solve :: older => owners older

theorem latest_of_not_mem (size : Nat) (owner : Owner) (history : List (Operation Owner F))
    (h : owner ∉ owners history) : latest size owner history = {} := by
  induction history with
  | nil => rfl
  | cons operation older ih =>
    cases operation with
    | replaceStamp ownerId entries =>
      simp only [owners, Finset.mem_insert, not_or] at h
      rw [latest, if_neg h.1, ih h.2]
    | replaceDense ownerId admittanceDelta rhsDelta =>
      simp only [owners, Finset.mem_insert, not_or] at h
      rw [latest, if_neg h.1, ih h.2]
    | clearStamps => rfl
    | solve => exact ih h

/-! ### One stamp -/

section Entries

omit [DecidableEq F]

theorem matrixAt_nil (r c : Nat) : matrixAt ([] : List (MatrixStampEntry F)) r c = 0 := rfl

theorem rhsAt_nil (r : Nat) : rhsAt ([] : List (RhsStampEntry F)) r = 0 := rfl

theorem matrixAt_cons (entry : MatrixStampEntry F) (entries : List (MatrixStampEntry F)) (r c : Nat) :
    matrixAt (entry :: entries) r c =
      (if r = entry.row ∧ c = entry.column then entry.value else 0) + matrixAt entries r c := by
  simp only [matrixAt, List.map_cons, List.sum_cons]

theorem rhsAt_cons (entry : RhsStampEntry F) (entries : List (RhsStampEntry F)) (r : Nat) :
    rhsAt (entry :: entries) r = (if r = entry.row then entry.value else 0) + rhsAt entries r := by
  simp only [rhsAt, List.map_cons, List.sum_cons]

theorem foldl_addMatrix (entries : List (MatrixStampEntry F)) (admittance : Matrix F) (r c : Nat) :
    entries.foldl (fun m entry => addMatrix m entry.row entry.column entry.value) admittance r c =
      admittance r c + matrixAt entries r c := by
  induction entries generalizing admittance with
  | nil => rw [List.foldl_nil, matrixAt_nil, add_zero]
  | cons entry entries ih =>
    rw [List.foldl_cons, ih, matrixAt_cons, addMatrix]
    split
    · rw [add_assoc]
    · rw [zero_add]

theorem foldl_addMatrix_neg (entries : List (MatrixStampEntry F)) (admittance : Matrix F) (r c : Nat) :
    entries.foldl (fun m entry => addMatrix m entry.row entry.column (-entry.value)) admittance r c =
      admittance r c - matrixAt entries r c := by
  induction entries generalizing admittance with
  | nil => rw [List.foldl_nil, matrixAt_nil, sub_zero]
  | cons entry entries ih =>
    rw [List.foldl_cons, ih, matrixAt_cons, addMatrix]
    split
    · abel
    · rw [zero_add]

theorem foldl_addRhs (entries : List (RhsStampEntry F)) (rhs : Vector F) (r : Nat) :
    entries.foldl (fun v entry => addRhs v entry.row entry.value) rhs r = rhs r + rhsAt entries r := by
  induction entries generalizing rhs with
  | nil => rw [List.foldl_nil, rhsAt_nil, add_zero]
  | cons entry entries ih =>
    rw [List.foldl_cons, ih, rhsAt_cons, addRhs]
    split
    · rw [add_assoc]
    · rw [zero_add]

theorem foldl_addRhs_neg (entries : List (RhsStampEntry F)) (rhs : Vector F) (r : Nat) :
    entries.foldl (fun v entry => addRhs v entry.row (-entry.value)) rhs r = rhs r - rhsAt entries r := by
  induction entries generalizing rhs with
  | nil => rw [List.foldl_nil, rhsAt_nil, sub_zero]
  | cons entry entries ih =>
    rw [List.foldl_cons, ih, rhsAt_cons, addRhs]
    split
    · abel
    · rw [zero_add]

end Entries

theorem eq_of_differ_false {α : Type} [DecidableEq α] (previous entries : List α)
    (h : differ previous entries = false) : previous = entries := by
  simp only [differ, Bool.or_eq_false_iff, decide_eq_false_iff_not, not_not, ne_eq] at h
  obtain ⟨hlength, hany⟩ := h
  induction previous generalizing entries with
  | nil => exact (List.eq_nil_of_length_eq_zero hlength.symm).symm
  | cons a previous ih =>
    cases entries with
    | nil => cases hlength
    | cons b entries =>
      simp only [List.zip_cons_cons, List.any_cons, Bool.or_eq_false_iff, decide_eq_false_iff_not, not_not] at hany
      rw [hany.1, ih entries (Nat.succ.inj hlength) hany.2]

theorem replaceStamp_stamps (group : CircuitGroup Owner F) (ownerId owner : Owner)
    (entries : StampContribution F) :
    (group.replaceStamp ownerId entries).stamps owner =
      if owner = ownerId then entries else group.stamps owner := by
  simp only [replaceStamp]
  split
  · congr 1
    · split
      · rfl
      · next h => exact eq_of_differ_false _ _ (Bool.eq_false_of_not_eq_true h)
    · split
      · rfl
      · next h => exact eq_of_differ_false _ _ (Bool.eq_false_of_not_eq_true h)
  · rfl

theorem replaceStamp_admittance (group : CircuitGroup Owner F) (ownerId : Owner)
    (entries : StampContribution F) (r c : Nat) :
    (group.replaceStamp ownerId entries).admittance r c =
      group.admittance r c - matrixAt (group.stamps ownerId).matrix r c + matrixAt entries.matrix r c := by
  simp only [replaceStamp]
  split
  · rw [foldl_addMatrix, foldl_addMatrix_neg]
  · next h => rw [eq_of_differ_false _ _ (Bool.eq_false_of_not_eq_true h), sub_add_cancel]

theorem replaceStamp_rhs (group : CircuitGroup Owner F) (ownerId : Owner) (entries : StampContribution F)
    (r : Nat) :
    (group.replaceStamp ownerId entries).rhs r =
      group.rhs r - rhsAt (group.stamps ownerId).rhs r + rhsAt entries.rhs r := by
  simp only [replaceStamp]
  split
  · rw [foldl_addRhs, foldl_addRhs_neg]
  · next h => rw [eq_of_differ_false _ _ (Bool.eq_false_of_not_eq_true h), sub_add_cancel]

theorem replaceStamp_unchanged (group : CircuitGroup Owner F) (ownerId : Owner) (entries : StampContribution F)
    (h : (group.replaceStamp ownerId entries).admittanceChanged = false) :
    group.admittanceChanged = false ∧ (group.replaceStamp ownerId entries).admittance = group.admittance := by
  simp only [replaceStamp, Bool.or_eq_false_iff] at h ⊢
  exact ⟨h.1, if_neg (by rw [h.2]; exact Bool.false_ne_true)⟩

omit [DecidableEq F] in
/-- One owner's term of a sum over the owners is exchanged. -/
theorem sum_exchange (present : Finset Owner) (owner : Owner) (before after : Owner → F)
    (others : ∀ other, other ≠ owner → after other = before other)
    (absent : owner ∉ present → before owner = 0) :
    ∑ other ∈ insert owner present, after other =
      ∑ other ∈ present, before other - before owner + after owner := by
  have hrest : ∑ other ∈ present.erase owner, after other = ∑ other ∈ present.erase owner, before other :=
    Finset.sum_congr rfl fun other hother => others other (Finset.ne_of_mem_erase hother)
  by_cases hmem : owner ∈ present
  · rw [Finset.insert_eq_of_mem hmem, ← Finset.add_sum_erase present after hmem,
      ← Finset.add_sum_erase present before hmem, hrest]
    abel
  · rw [Finset.sum_insert hmem, absent hmem, sub_zero, ← Finset.erase_eq_of_notMem hmem, hrest, add_comm]

structure Conserved (size : Nat) (group : CircuitGroup Owner F) (history : List (Operation Owner F)) : Prop where
  totalSize : group.totalSize = size
  stamps : ∀ owner, group.stamps owner = latest size owner history
  admittance : ∀ r c, group.admittance r c =
    ∑ owner ∈ owners history, matrixAt (latest size owner history).matrix r c
  rhs : ∀ r, group.rhs r = ∑ owner ∈ owners history, rhsAt (latest size owner history).rhs r
  fresh : group.admittanceChanged = false → ∃ rhs, group.factorization = some (group.admittance, rhs)

theorem conserved_make (size : Nat) : Conserved size (make size : CircuitGroup Owner F) [] where
  totalSize := rfl
  stamps _ := rfl
  admittance _ _ := rfl
  rhs _ := rfl
  fresh h := by cases h

section Step

variable {size : Nat} {group : CircuitGroup Owner F} {history : List (Operation Owner F)}

/-- A step that hands `entries` over for `ownerId`, whatever it is called. -/
theorem Conserved.replace (h : Conserved size group history) (ownerId : Owner) (entries : StampContribution F)
    (operation : Operation Owner F) (howners : owners (operation :: history) = insert ownerId (owners history))
    (hlatest : ∀ owner, latest size owner (operation :: history) =
      if owner = ownerId then entries else latest size owner history) :
    Conserved size (group.replaceStamp ownerId entries) (operation :: history) where
  totalSize := h.totalSize
  stamps owner := by rw [replaceStamp_stamps, hlatest, h.stamps]
  admittance r c := by
    rw [replaceStamp_admittance, howners, sum_exchange (owners history) ownerId
      (fun owner => matrixAt (latest size owner history).matrix r c), ← h.admittance, h.stamps, hlatest, if_pos rfl]
    · intro other hother
      rw [hlatest, if_neg hother]
    · intro habsent
      show matrixAt (latest size ownerId history).matrix r c = 0
      rw [latest_of_not_mem size ownerId history habsent]
      rfl
  rhs r := by
    rw [replaceStamp_rhs, howners, sum_exchange (owners history) ownerId
      (fun owner => rhsAt (latest size owner history).rhs r), ← h.rhs, h.stamps, hlatest, if_pos rfl]
    · intro other hother
      rw [hlatest, if_neg hother]
    · intro habsent
      show rhsAt (latest size ownerId history).rhs r = 0
      rw [latest_of_not_mem size ownerId history habsent]
      rfl
  fresh hchanged := by
    obtain ⟨hbefore, hsame⟩ := replaceStamp_unchanged group ownerId entries hchanged
    rw [hsame]
    exact h.fresh hbefore

theorem Conserved.clear (h : Conserved size group history) :
    Conserved size group.clearStamps (.clearStamps :: history) where
  totalSize := h.totalSize
  stamps _ := rfl
  admittance _ _ := (Finset.sum_const_zero).symm
  rhs _ := (Finset.sum_const_zero).symm
  fresh hchanged := by cases hchanged

theorem Conserved.prepared (h : Conserved size group history) :
    ∃ rhs, group.prepared.factorization = some (group.admittance, rhs) := by
  unfold CircuitGroup.prepared
  split
  · exact ⟨group.rhs, rfl⟩
  · next hchanged => exact h.fresh (Bool.eq_false_of_not_eq_true hchanged)

theorem Conserved.solved (h : Conserved size group history) : Conserved size group.solve (.solve :: history) := by
  have hfresh := h.prepared
  unfold CircuitGroup.solve
  split
  · unfold CircuitGroup.prepared at hfresh ⊢
    split at hfresh
    · next hchanged =>
      rw [if_pos hchanged]
      exact ⟨h.totalSize, h.stamps, h.admittance, h.rhs, fun _ => hfresh⟩
    · next hchanged =>
      rw [if_neg hchanged]
      exact ⟨h.totalSize, h.stamps, h.admittance, h.rhs, fun _ => hfresh⟩
  · exact ⟨h.totalSize, h.stamps, h.admittance, h.rhs, h.fresh⟩

theorem Conserved.step (h : Conserved size group history) (operation : Operation Owner F) :
    Conserved size (group.apply operation) (operation :: history) := by
  cases operation with
  | replaceStamp ownerId entries => exact h.replace ownerId entries _ rfl fun _ => rfl
  | replaceDense ownerId admittanceDelta rhsDelta =>
    show Conserved size (group.replaceStamp ownerId (denseEntries group.totalSize admittanceDelta rhsDelta)) _
    rw [h.totalSize]
    exact h.replace ownerId _ _ rfl fun _ => rfl
  | clearStamps => exact h.clear
  | solve => exact h.solved

theorem Conserved.run (h : Conserved size group history) (operations : List (Operation Owner F)) :
    Conserved size (group.run operations) (operations.reverse ++ history) := by
  induction operations generalizing group history with
  | nil => exact h
  | cons operation operations ih =>
    rw [List.reverse_cons, List.append_assoc]
    exact ih (h.step operation)

end Step

end CircuitGroup

end LasecSimul.Mna
