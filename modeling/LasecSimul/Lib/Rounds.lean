import Mathlib.Data.Nat.Nth
import Mathlib.Logic.Function.Iterate

/-!
# Rounds until nothing changes

A loop repeats a round until one changes nothing, or until it has made more rounds than the state is large. Each round
that changes the state makes it smaller.
-/

namespace LasecSimul.Lib.Rounds

variable {State : Type*} (round : State → State) (changed : State → Bool) (size : State → Nat)

/-- `guard` counts the rounds that were made. -/
def rounds : Nat → Nat → State → State
  | 0, _, state => state
  | fuel + 1, guard, state =>
    if guard < size state + 1 then
      let next := round state
      if changed next then rounds fuel (guard + 1) next else next
    else state

structure Shrinks (settled : State → Prop) : Prop where
  rest : ∀ {state}, settled state →
    settled (round state) ∧ changed (round state) = false ∧ size (round state) = size state
  shrink : ∀ {state}, ¬ settled state → changed (round state) = true ∧ size (round state) < size state

variable {round changed size} {settled : State → Prop} (shrinks : Shrinks round changed size settled)

include shrinks

theorem Shrinks.size_le (state : State) : size (round state) ≤ size state := by
  by_cases done : settled state
  · exact Nat.le_of_eq (shrinks.rest done).2.2
  · exact Nat.le_of_lt (shrinks.shrink done).2

theorem Shrinks.size_iterate_le (k : Nat) (state : State) : size (round^[k] state) ≤ size state := by
  induction k generalizing state with
  | zero => exact Nat.le_refl _
  | succ k ih => exact Nat.le_trans (ih (round state)) (shrinks.size_le state)

theorem Shrinks.settled_iterate {state : State} (done : settled state) (k : Nat) : settled (round^[k] state) := by
  induction k generalizing state with
  | zero => exact done
  | succ k ih => exact ih (shrinks.rest done).1

/-- The loop makes some number of rounds, and stops at a settled state or because the state is small. -/
theorem Shrinks.rounds_spec (fuel guard : Nat) (state : State) (enough : size state < fuel) :
    ∃ k, rounds round changed size fuel guard state = round^[k] state ∧
      (settled (round^[k] state) ∨ size (round^[k] state) < guard + k) ∧
      ∀ j < k, guard + j ≤ size (round^[j] state) := by
  induction fuel generalizing guard state with
  | zero => exact absurd enough (Nat.not_lt_zero _)
  | succ fuel ih =>
    unfold rounds
    split
    · next inTime =>
      by_cases done : settled state
      · obtain ⟨still, unchanged, _⟩ := shrinks.rest done
        refine ⟨1, ?_, .inl still, fun j early => ?_⟩
        · dsimp only
          rw [unchanged, if_neg Bool.false_ne_true]
          rfl
        · obtain rfl := Nat.lt_one_iff.mp early
          exact Nat.lt_succ_iff.mp inTime
      · obtain ⟨changes, smaller⟩ := shrinks.shrink done
        obtain ⟨k, result, stopped, before⟩ := ih (guard + 1) (round state) (by omega)
        refine ⟨k + 1, ?_, ?_, fun j early => ?_⟩
        · dsimp only
          rw [if_pos changes]
          exact result
        · exact stopped.imp_right fun small => by rwa [← Nat.add_assoc, Nat.add_right_comm]
        · cases j with
          | zero => exact Nat.lt_succ_iff.mp inTime
          | succ j =>
            have bound := before j (Nat.lt_of_succ_lt_succ early)
            rw [Function.iterate_succ_apply]
            omega
    · next late => exact ⟨0, rfl, .inr (by rwa [Nat.not_lt] at late), fun j early => absurd early (Nat.not_lt_zero j)⟩

/-- The loop settles unless it has made more rounds than the state is large while something was left to change. -/
theorem Shrinks.settled_rounds_iff (fuel guard : Nat) (state : State) (enough : size state < fuel) :
    settled (rounds round changed size fuel guard state) ↔
      ∀ k, ¬ settled (round^[k] state) → guard + k ≤ size (round^[k] state) := by
  obtain ⟨k, result, stopped, before⟩ := shrinks.rounds_spec fuel guard state enough
  rw [result]
  constructor
  · intro done j unsettled
    refine before j (Nat.lt_of_not_le fun later => unsettled ?_)
    rw [← Nat.sub_add_cancel later, Function.iterate_add_apply]
    exact shrinks.settled_iterate done _
  · intro bound
    by_contra unsettled
    have late := stopped.resolve_left unsettled
    have early := bound k unsettled
    omega

theorem Shrinks.rounds_settled (fuel guard : Nat) (state : State) (done : settled state) (room : guard ≤ size state) :
    rounds round changed size (fuel + 1) guard state = round state := by
  unfold rounds
  dsimp only
  rw [if_pos (Nat.lt_succ_of_le room), (shrinks.rest done).2.1, if_neg Bool.false_ne_true]

theorem Shrinks.size_rounds_lt (fuel : Nat) (state : State) (enough : size state < fuel) (unsettled : ¬ settled state) :
    size (rounds round changed size fuel 0 state) < size state := by
  obtain ⟨k, result, stopped, _⟩ := shrinks.rounds_spec fuel 0 state enough
  rw [result]
  cases k with
  | zero => exact absurd (stopped.resolve_left unsettled) (Nat.not_lt_zero _)
  | succ k => exact Nat.lt_of_le_of_lt (shrinks.size_iterate_le k (round state)) (shrinks.shrink unsettled).2

end LasecSimul.Lib.Rounds

/-!
## Budgets

A sequence of steps that pays for what it does: some steps spend one unit, some bring `income` units in,
and the others never raise the budget. Only finitely many steps can spend if only finitely many bring
income.
-/

namespace LasecSimul.Lib.Budget

open Classical

variable {budget : ℕ → ℕ} {spends earns : ℕ → Prop} {income : ℕ}

/-- What a step may do to the budget. -/
structure Pays (budget : ℕ → ℕ) (spends earns : ℕ → Prop) (income n : ℕ) : Prop where
  keeps : ¬earns n → budget (n + 1) ≤ budget n
  spent : ¬earns n → spends n → budget (n + 1) < budget n
  earned : earns n → ¬spends n ∧ budget (n + 1) ≤ budget n + income

/-- The budget covers what was spent. -/
theorem spent_le (pays : ∀ n, Pays budget spends earns income n) (n : ℕ) :
    Nat.count spends n + budget n ≤ budget 0 + income * Nat.count earns n := by
  induction n with
  | zero => simp
  | succ n ih =>
    obtain ⟨keeps, spent, earned⟩ := pays n
    rw [Nat.count_succ, Nat.count_succ, Nat.mul_add]
    by_cases gain : earns n
    · obtain ⟨frugal, more⟩ := earned gain
      rw [if_pos gain, if_neg frugal]
      omega
    · rw [if_neg gain]
      by_cases cost : spends n
      · have := spent gain cost
        rw [if_pos cost]
        omega
      · have := keeps gain
        rw [if_neg cost]
        omega

theorem finite_spends (pays : ∀ n, Pays budget spends earns income n) (finite : {n | earns n}.Finite) :
    {n | spends n}.Finite := by
  by_contra infinite
  set many := budget 0 + income * finite.toFinset.card + 1 with hmany
  have covered := spent_le pays (Nat.nth spends many)
  have earnings : income * Nat.count earns (Nat.nth spends many) ≤ income * finite.toFinset.card :=
    Nat.mul_le_mul_left income (Nat.count_le_card finite (Nat.nth spends many))
  rw [Nat.count_nth_of_infinite infinite] at covered
  omega

end LasecSimul.Lib.Budget
