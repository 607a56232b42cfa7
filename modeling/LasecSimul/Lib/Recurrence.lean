import Mathlib.Algebra.BigOperators.Intervals
import Mathlib.Algebra.BigOperators.Ring.Finset
import Mathlib.Tactic.Ring

/-!
# Difference equations

Sequences that are zero before their first sample, sums of delayed samples, and the two ways of keeping such a sum: a
line of past samples and a line of partial sums.
-/

namespace LasecSimul.Lib.Recurrence

open Finset

variable {K : Type} [CommRing K] {x y z : ℕ → K} {a b c : ℕ → K} {L M n k j : ℕ}

/-- The sample `j` samples before the sample `k`. -/
def past (x : ℕ → K) (k j : ℕ) : K := if j ≤ k then x (k - j) else 0

@[simp]
theorem past_zero (x : ℕ → K) (k : ℕ) : past x k 0 = x k := by
  rw [past, if_pos (Nat.zero_le k), Nat.sub_zero]

@[simp]
theorem past_start (x : ℕ → K) (j : ℕ) : past x 0 (j + 1) = 0 := if_neg (Nat.not_succ_le_zero j)

@[simp]
theorem past_succ (x : ℕ → K) (k j : ℕ) : past x (k + 1) (j + 1) = past x k j := by
  simp [past]

theorem past_past (x : ℕ → K) (k i j : ℕ) : past (fun m => past x m j) k i = past x k (i + j) := by
  show (if i ≤ k then (if j ≤ k - i then x (k - i - j) else 0) else 0) = if i + j ≤ k then x (k - (i + j)) else 0
  by_cases inside : i + j ≤ k
  · rw [if_pos (by omega), if_pos (by omega), if_pos inside, Nat.sub_sub]
  · rw [if_neg inside]
    split
    · exact if_neg (by omega)
    · rfl

theorem past_sum {ι : Type} (s : Finset ι) (f : ι → ℕ → K) (k j : ℕ) :
    past (fun m => ∑ i ∈ s, f i m) k j = ∑ i ∈ s, past (f i) k j := by
  unfold past
  split
  · rfl
  · exact (sum_const_zero).symm

theorem past_mul (r : K) (x : ℕ → K) (k j : ℕ) : past (fun m => r * x m) k j = r * past x k j := by
  unfold past
  split
  · rfl
  · exact (mul_zero r).symm

theorem past_sub (x y : ℕ → K) (k j : ℕ) : past (fun m => x m - y m) k j = past x k j - past y k j := by
  unfold past
  split
  · rfl
  · exact (sub_zero 0).symm

/-- The weighted sum of the last `L` samples. -/
def convolve (c : ℕ → K) (L : ℕ) (x : ℕ → K) (k : ℕ) : K := ∑ j ∈ range L, c j * past x k j

theorem past_convolve (c : ℕ → K) (L : ℕ) (x : ℕ → K) (k i : ℕ) :
    past (convolve c L x) k i = ∑ j ∈ range L, c j * past x k (i + j) := by
  show past (fun m => ∑ j ∈ range L, c j * past x m j) k i = _
  rw [past_sum]
  exact sum_congr rfl fun j _ => by rw [past_mul, past_past]

theorem convolve_comm (a b : ℕ → K) (L M : ℕ) (x : ℕ → K) :
    convolve a L (convolve b M x) = convolve b M (convolve a L x) := by
  funext k
  have left : convolve a L (convolve b M x) k = ∑ i ∈ range L, ∑ j ∈ range M, a i * (b j * past x k (i + j)) :=
    sum_congr rfl fun i _ => by rw [past_convolve, mul_sum]
  have right : convolve b M (convolve a L x) k = ∑ j ∈ range M, ∑ i ∈ range L, b j * (a i * past x k (j + i)) :=
    sum_congr rfl fun j _ => by rw [past_convolve, mul_sum]
  rw [left, right, sum_comm]
  refine sum_congr rfl fun j _ => sum_congr rfl fun i _ => ?_
  rw [Nat.add_comm, mul_left_comm]

theorem convolve_succ (c : ℕ → K) (n : ℕ) (x : ℕ → K) (k : ℕ) :
    convolve c (n + 1) x k = c 0 * x k + ∑ j ∈ range n, c (j + 1) * past x k (j + 1) := by
  rw [convolve, sum_range_succ', past_zero, add_comm]

/-- `y(k) = sum b_j x(k-j) - sum a_j y(k-j)`, the second sum from `j = 1` on. -/
def IsResponse (n : ℕ) (b a x y : ℕ → K) : Prop :=
  ∀ k, y k = convolve b (n + 1) x k - ∑ j ∈ range n, a (j + 1) * past y k (j + 1)

theorem isResponse_iff (leading : a 0 = 1) :
    IsResponse n b a x y ↔ convolve a (n + 1) y = convolve b (n + 1) x := by
  rw [funext_iff]
  refine forall_congr' fun k => ?_
  rw [convolve_succ a, leading, one_mul]
  exact eq_sub_iff_add_eq

theorem IsResponse.unique (first : IsResponse n b a x y) (second : IsResponse n b a x z) : y = z := by
  funext k
  induction k using Nat.strongRecOn with
  | ind k ih =>
    rw [first k, second k]
    refine congrArg (convolve b (n + 1) x k - ·) (sum_congr rfl fun j _ => congrArg (a (j + 1) * ·) ?_)
    unfold past
    split
    · exact ih _ (by omega)
    · rfl

theorem isResponse_of_inner (leading : a 0 = 1) (inner : ∀ k, z k = x k - ∑ j ∈ range n, a (j + 1) * past z k (j + 1))
    (output : y = convolve b (n + 1) z) : IsResponse n b a x y := by
  have solved : convolve a (n + 1) z = x := by
    funext k
    rw [convolve_succ, leading, one_mul]
    exact (eq_sub_iff_add_eq).mp (inner k)
  rw [isResponse_iff leading, output, convolve_comm, solved]

theorem foldl_add_eq (f : ℕ → K) (n : ℕ) (start : K) :
    (List.range' 1 n).foldl (fun sum j => sum + f j) start = start + ∑ j ∈ range n, f (j + 1) := by
  induction n with
  | zero => simp
  | succ n ih =>
    rw [List.range'_1_concat, List.foldl_append, ih, sum_range_succ, Nat.add_comm 1 n, List.foldl_cons, List.foldl_nil,
      add_assoc]

theorem foldl_sub_eq (f : ℕ → K) (n : ℕ) (start : K) :
    (List.range' 1 n).foldl (fun sum j => sum - f j) start = start - ∑ j ∈ range n, f (j + 1) := by
  simpa [sub_eq_add_neg] using foldl_add_eq (fun j => -f j) n start

theorem line_eq {s : ℕ → ℕ → K} (start : ∀ j < n, s 0 j = 0) (first : ∀ k, 0 < n → s (k + 1) 0 = x k)
    (shift : ∀ k j, j + 1 < n → s (k + 1) (j + 1) = s k j) (inside : j < n) : s k j = past x k (j + 1) := by
  induction k generalizing j with
  | zero => rw [start j inside, past_start]
  | succ k ih =>
    rw [past_succ]
    cases j with
    | zero => rw [first k inside, past_zero]
    | succ j => rw [shift k j inside, ih (by omega)]

/-- A line of partial sums. -/
theorem transposed_eq {s d : ℕ → ℕ → K} (start : ∀ j < n, s 0 j = 0)
    (shift : ∀ k, ∀ j < n, s (k + 1) j = (if j + 1 < n then s k (j + 1) else 0) + d k j) (inside : j < n) :
    s k j = ∑ m ∈ range (n - j), past (fun i => d i (j + m)) k (m + 1) := by
  induction k generalizing j with
  | zero =>
    rw [start j inside]
    exact (sum_eq_zero fun m _ => past_start _ m).symm
  | succ k ih =>
    obtain ⟨rest, length⟩ : ∃ rest, n - j = rest + 1 := ⟨n - j - 1, by omega⟩
    rw [shift k j inside, length, sum_range_succ', past_succ, past_zero, Nat.add_zero]
    refine congrArg (· + d k j) ?_
    split
    · next more =>
      rw [ih more, show n - (j + 1) = rest by omega]
      exact sum_congr rfl fun m _ => by rw [past_succ, Nat.add_right_comm, Nat.add_assoc]
    · next last =>
      obtain rfl : rest = 0 := by omega
      rfl

/-- What leaves a line of partial sums, which may have no places. -/
theorem transposed_head {s d : ℕ → ℕ → K} (start : ∀ j < n, s 0 j = 0)
    (shift : ∀ k, ∀ j < n, s (k + 1) j = (if j + 1 < n then s k (j + 1) else 0) + d k j) (k : ℕ) :
    (if 0 < n then s k 0 else 0) = ∑ m ∈ range n, past (fun i => d i m) k (m + 1) := by
  split
  · next inside =>
    rw [transposed_eq start shift inside]
    exact sum_congr rfl fun m _ => by rw [Nat.zero_add]
  · next none => rw [Nat.eq_zero_of_not_pos none, range_zero, sum_empty]

end LasecSimul.Lib.Recurrence
