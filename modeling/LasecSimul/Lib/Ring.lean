import Mathlib.Data.List.Basic

/-!
# Rings

A ring keeps the last elements of an unbounded log, element `seq` in the cell `seq` modulo the number of
cells.
-/

namespace LasecSimul.Lib.Ring

variable {α : Type*} {cells log : List α} {first n : Nat}

def Holds (cells log : List α) : Prop :=
  ∀ seq, log.length - cells.length ≤ seq → seq < log.length → cells[seq % cells.length]? = log[seq]?

theorem Holds.start : Holds cells [] := fun _ _ lt => nomatch lt

theorem mod_ne {m size : Nat} (lt : m < n) (near : n < m + size) :
    m % size ≠ n % size := by
  intro same
  have divides : size ∣ n - m := Nat.dvd_of_mod_eq_zero (Nat.sub_mod_eq_zero_of_mod_eq same.symm)
  have := Nat.le_of_dvd (by omega) divides
  omega

theorem Holds.write (holds : Holds cells log) (room : 0 < cells.length) (x : α) :
    Holds (cells.set (log.length % cells.length) x) (log ++ [x]) := by
  intro seq recent lt
  rw [List.length_set] at recent ⊢
  rw [List.length_append, List.length_singleton] at recent lt
  have slot := Nat.mod_lt log.length room
  rcases Nat.lt_or_ge seq log.length with old | new
  · have differs : log.length % cells.length ≠ seq % cells.length :=
      (mod_ne old (by omega)).symm
    rw [List.getElem?_set_ne differs, List.getElem?_append_left old]
    exact holds seq (by omega) old
  · obtain rfl : seq = log.length := by omega
    rw [List.getElem?_set_self slot, List.getElem?_concat_length]

/-- Reading recent cells gives a slice of the log. -/
theorem Holds.read (holds : Holds cells log) (fallback : α) (recent : log.length - cells.length ≤ first)
    (available : first + n ≤ log.length) :
    (List.range' first n).map (fun seq => cells.getD (seq % cells.length) fallback) =
      (log.drop first).take n := by
  apply List.ext_getElem?
  intro i
  rw [List.getElem?_map, List.getElem?_take, List.getElem?_drop]
  rcases Nat.lt_or_ge i n with lt | ge
  · have here := holds (first + i) (by omega) (by omega)
    have inside : first + i < log.length := by omega
    rw [List.getElem?_range' lt, if_pos lt, Option.map_some, List.getD_eq_getElem?_getD, Nat.one_mul, here,
      List.getElem?_eq_getElem inside]
    rfl
  · rw [if_neg (Nat.not_lt.mpr ge), List.getElem?_eq_none (by simpa using ge), Option.map_none]

theorem Holds.fill (size count : ℕ) (x : α) : Holds (List.replicate size x) (List.replicate count x) := by
  intro seq recent lt
  rw [List.length_replicate] at lt recent ⊢
  rw [List.length_replicate] at recent
  have slot := Nat.mod_lt seq (by omega : 0 < size)
  rw [List.getElem?_replicate_of_lt slot, List.getElem?_replicate_of_lt lt]

/-- The cell some places behind the next one to be written. -/
theorem Holds.behind (holds : Holds cells log) (full : cells.length ≤ log.length) {lag : ℕ} (positive : 0 < lag)
    (bound : lag ≤ cells.length) :
    cells[(log.length % cells.length + cells.length - lag) % cells.length]? = log[log.length - lag]? := by
  have position : (log.length % cells.length + cells.length - lag) % cells.length =
      (log.length - lag) % cells.length := by
    have split := Nat.div_add_mod log.length cells.length
    have turns : 0 < log.length / cells.length := Nat.div_pos full (by omega)
    obtain ⟨turn, here⟩ : ∃ turn, log.length / cells.length = turn + 1 := ⟨_, (Nat.succ_pred_eq_of_pos turns).symm⟩
    rw [here, Nat.mul_succ] at split
    rw [show log.length - lag = cells.length * turn + (log.length % cells.length + cells.length - lag) by omega,
      Nat.mul_add_mod]
  rw [position]
  exact holds _ (by omega) (by omega)

end LasecSimul.Lib.Ring
