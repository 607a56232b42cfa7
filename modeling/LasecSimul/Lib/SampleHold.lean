import Mathlib.Data.List.Basic

/-!
# Sample and hold

A list of samples with their times stands for the step function that holds each sample until the next one. The
oldest sample comes first.
-/

namespace LasecSimul.Lib.SampleHold

variable {V W : Type}

/-- The value in effect at `time`. -/
def held (samples : List (Nat × V)) (time : Nat) : Option V :=
  ((samples.filter fun sample => sample.1 ≤ time).getLast?).map Prod.snd

variable {samples : List (Nat × V)} {time : Nat}

theorem held_before (t : Nat) (v : V) (h : time < t) : held (samples ++ [(t, v)]) time = held samples time := by
  simp [held, List.filter_append, Nat.not_le.mpr h]

theorem held_since (t : Nat) (v : V) (h : t ≤ time) : held (samples ++ [(t, v)]) time = some v := by
  simp [held, List.filter_append, h]

theorem held_tail (a b : Nat × V) (h : b.1 ≤ time) : held (a :: b :: samples) time = held (b :: samples) time := by
  by_cases first : a.1 ≤ time
  · simp [held, h, first, List.filter_cons_of_pos]
  · simp [held, first]

theorem held_of_all (h : ∀ sample ∈ samples, sample.1 ≤ time) :
    held samples time = samples.getLast?.map Prod.snd := by
  rw [held, List.filter_eq_self.mpr fun sample member => decide_eq_true (h sample member)]

theorem filter_eq_takeWhile (sorted : samples.Pairwise fun a b => a.1 ≤ b.1) :
    (samples.filter fun sample => sample.1 ≤ time) = samples.takeWhile fun sample => sample.1 ≤ time := by
  induction samples with
  | nil => rfl
  | cons a samples ih =>
    rw [List.pairwise_cons] at sorted
    by_cases first : a.1 ≤ time
    · rw [List.filter_cons_of_pos (by simpa using first), List.takeWhile_cons_of_pos (by simpa using first),
        ih sorted.2]
    · have later : ∀ b ∈ samples, ¬b.1 ≤ time := fun b member below => first (Nat.le_trans (sorted.1 b member) below)
      rw [List.takeWhile_cons_of_neg (by simpa using first)]
      simpa [first] using later

theorem held_eq_takeWhile (sorted : samples.Pairwise fun a b => a.1 ≤ b.1) :
    held samples time = ((samples.takeWhile fun sample => sample.1 ≤ time).getLast?).map Prod.snd := by
  rw [held, filter_eq_takeWhile sorted]

end LasecSimul.Lib.SampleHold
