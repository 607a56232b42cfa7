import Mathlib.Logic.Function.Iterate
import Mathlib.Data.List.Nodup

/-!
# Sweeps in place

A sweep recomputes the cells of an order one after another, each from the cells as they are at that moment. A cell
sees what the sweep made of the cells before it and what the last sweep left of the others, so a change moves on
along an order within one sweep and needs one more sweep for every step against it (`Chain`).
-/

namespace LasecSimul.Lib.Sweep

variable {ι α : Type*} [DecidableEq ι]

/-- One cell recomputed. -/
def visit (f : (ι → α) → ι → α) (s : ι → α) (b : ι) : ι → α :=
  Function.update s b (f s b)

def sweep (f : (ι → α) → ι → α) (order : List ι) (s : ι → α) : ι → α :=
  order.foldl (visit f) s

def Before (order : List ι) (d b : ι) : Prop :=
  order.idxOf d < order.idxOf b

instance decidableBefore (order : List ι) (d b : ι) : Decidable (Before order d b) :=
  inferInstanceAs (Decidable (order.idxOf d < order.idxOf b))

/-- What the cell `b` sees in a sweep from `s` to `t`. -/
def seen (order : List ι) (s t : ι → α) (b d : ι) : α :=
  if Before order d b then t d else s d

variable {f : (ι → α) → ι → α} {order : List ι} {s t : ι → α} {b d : ι}

theorem seen_before (h : Before order d b) : seen order s t b d = t d :=
  if_pos h

theorem seen_not_before (h : ¬ Before order d b) : seen order s t b d = s d :=
  if_neg h

theorem seen_self : seen order s t b b = s b :=
  seen_not_before (Nat.lt_irrefl _)

theorem sweep_of_not_mem (h : b ∉ order) : sweep f order s b = s b := by
  induction order generalizing s with
  | nil => rfl
  | cons c order ih =>
    obtain ⟨different, rest⟩ := not_or.mp (mt List.mem_cons.mpr h)
    rw [sweep, List.foldl_cons, ← sweep, ih rest, visit, Function.update_of_ne different]

theorem sweep_append (front back : List ι) : sweep f (front ++ back) s = sweep f back (sweep f front s) :=
  List.foldl_append

/-- A cell of the order is computed from what it sees. -/
theorem sweep_apply (nodup : order.Nodup) (member : b ∈ order) :
    sweep f order s b = f (seen order s (sweep f order s) b) b := by
  obtain ⟨front, back, rfl⟩ := List.append_of_mem member
  obtain ⟨-, backNodup, apart⟩ := List.nodup_append.mp nodup
  have notFront : b ∉ front := fun h => apart b h b List.mem_cons_self rfl
  have notBack : b ∉ back := (List.nodup_cons.mp backNodup).1
  have here : (front ++ b :: back).idxOf b = front.length := by
    rw [List.idxOf_append_of_notMem notFront, List.idxOf_cons_self, Nat.add_zero]
  have view : sweep f front s = seen (front ++ b :: back) s (sweep f (front ++ b :: back) s) b := by
    funext d
    by_cases inFront : d ∈ front
    · have before : Before (front ++ b :: back) d b := by
        rw [Before, here, List.idxOf_append_of_mem inFront]
        exact List.idxOf_lt_length_of_mem inFront
      have later : d ∉ b :: back := fun h => apart d inFront d h rfl
      rw [seen_before before, sweep_append, sweep_of_not_mem later]
    · have late : ¬ Before (front ++ b :: back) d b := by
        rw [Before, here, List.idxOf_append_of_notMem inFront]
        omega
      rw [seen_not_before late, sweep_of_not_mem inFront]
  rw [← view, sweep_append, sweep, List.foldl_cons, ← sweep, sweep_of_not_mem notBack, visit,
    Function.update_self]

def sweeps (f : (ι → α) → ι → α) (order : List ι) (s : ι → α) (n : Nat) : ι → α :=
  (sweep f order)^[n] s

@[simp] theorem sweeps_zero : sweeps f order s 0 = s := rfl

theorem sweeps_succ (n : Nat) : sweeps f order s (n + 1) = sweep f order (sweeps f order s n) :=
  Function.iterate_succ_apply' _ _ _

theorem sweeps_succ_apply (nodup : order.Nodup) (member : b ∈ order) (n : Nat) :
    sweeps f order s (n + 1) b
      = f (seen order (sweeps f order s n) (sweeps f order s (n + 1)) b) b := by
  rw [sweeps_succ]
  exact sweep_apply nodup member

theorem sweeps_of_not_mem (h : b ∉ order) (n : Nat) : sweeps f order s n b = s b := by
  induction n with
  | zero => rfl
  | succ n ih => rw [sweeps_succ, sweep_of_not_mem h, ih]

variable {feeds : ι → ι → Prop}

/-- A path of cells that feed each other up to `b`, with `n` steps against the order. -/
inductive Chain (order : List ι) (feeds : ι → ι → Prop) : Nat → ι → Prop
  | start {b : ι} : b ∈ order → Chain order feeds 0 b
  | along {n : Nat} {d b : ι} : Chain order feeds n d → feeds d b → b ∈ order → Before order d b →
      Chain order feeds n b
  | against {n : Nat} {d b : ι} : Chain order feeds n d → feeds d b → b ∈ order → ¬ Before order d b →
      Chain order feeds (n + 1) b

theorem Chain.member {n : Nat} (h : Chain order feeds n b) : b ∈ order := by
  cases h with
  | start member => exact member
  | along _ _ member _ => exact member
  | against _ _ member _ => exact member

theorem Chain.mono {feeds' : ι → ι → Prop} (sub : ∀ d b, b ∈ order → feeds d b → feeds' d b) {n : Nat}
    (h : Chain order feeds n b) : Chain order feeds' n b := by
  induction h with
  | start member => exact .start member
  | along _ fed member before ih => exact ih.along (sub _ _ member fed) member before
  | against _ fed member late ih => exact ih.against (sub _ _ member fed) member late

theorem chain_congr {feeds' : ι → ι → Prop} (same : ∀ d b, b ∈ order → (feeds d b ↔ feeds' d b)) {n : Nat} :
    Chain order feeds n b ↔ Chain order feeds' n b :=
  ⟨.mono fun d b member => (same d b member).mp, .mono fun d b member => (same d b member).mpr⟩

/-- A cell computed once more from the same feeds keeps its value. -/
def Settles (f : (ι → α) → ι → α) (feeds : ι → ι → Prop) : Prop :=
  ∀ s t b, (∀ d, feeds d b → t d = s d) → t b = f s b → f t b = f s b

/-- After more sweeps than the longest chain has steps against the order, a cell does not change. -/
theorem sweeps_stable (nodup : order.Nodup) (settles : Settles f feeds)
    {n : Nat} (member : b ∈ order) (bound : ∀ m, Chain order feeds m b → m < n) :
    sweeps f order s (n + 1) b = sweeps f order s n b := by
  induction n generalizing b with
  | zero => exact absurd (bound 0 (.start member)) (Nat.lt_irrefl 0)
  | succ n outer =>
    induction position : order.idxOf b using Nat.strongRecOn generalizing b with
    | _ k inner =>
      subst position
      rw [sweeps_succ_apply nodup member (n + 1), sweeps_succ_apply nodup member n]
      apply settles
      · intro d fed
        by_cases within : d ∈ order
        swap
        · simp only [seen, sweeps_of_not_mem within]
        by_cases before : Before order d b
        · rw [seen_before before, seen_before before]
          exact inner _ before within (fun m chain => bound m (chain.along fed member before)) rfl
        · rw [seen_not_before before, seen_not_before before]
          apply outer within
          intro m chain
          have := bound _ (chain.against fed member before)
          omega
      · rw [seen_self, sweeps_succ_apply nodup member n]

end LasecSimul.Lib.Sweep
