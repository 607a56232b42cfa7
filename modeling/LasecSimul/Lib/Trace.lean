import Mathlib.Data.List.Induction

/-!
# Runs of labelled transition systems

`Run step s labels t` is a run from `s` to `t` with the labels of its steps, oldest first. A property
that every step preserves holds along every run, also when it speaks about the labels so far.
-/

namespace LasecSimul.Lib.Trace

variable {σ Label : Type*} {step : σ → Label → σ → Prop} {s t u : σ} {label : Label}
  {labels before after : List Label}

inductive Run (step : σ → Label → σ → Prop) : σ → List Label → σ → Prop where
  | start (s : σ) : Run step s [] s
  | next {s t u : σ} {labels : List Label} {label : Label} :
    Run step s labels t → step t label u → Run step s (labels ++ [label]) u

/-- A state some run from `start` ends in. -/
def Reachable (step : σ → Label → σ → Prop) (start s : σ) : Prop := ∃ labels, Run step start labels s

theorem Run.one (h : step s label t) : Run step s [label] t := .next (.start s) h

theorem Run.append (first : Run step s before t) (second : Run step t after u) :
    Run step s (before ++ after) u := by
  induction second with
  | start => rw [List.append_nil]; exact first
  | next _ last ih => rw [← List.append_assoc]; exact .next ih last

theorem Run.map {τ : Type*} {image : τ → Label → τ → Prop} (f : σ → τ)
    (carries : ∀ s label t, step s label t → image (f s) label (f t)) (run : Run step s labels t) :
    Run image (f s) labels (f t) := by
  induction run with
  | start => exact .start _
  | next _ last ih => exact .next ih (carries _ _ _ last)

/-- Induction over a run with the labels seen so far. -/
theorem Run.history {P : List Label → σ → Prop} (run : Run step s labels t) (begins : P [] s)
    (keeps : ∀ labels t label u, Run step s labels t → P labels t → step t label u →
      P (labels ++ [label]) u) : P labels t := by
  induction run with
  | start => exact begins
  | next run last ih => exact keeps _ _ _ _ run ih last

theorem Run.invariant {P : σ → Prop} (run : Run step s labels t) (begins : P s)
    (keeps : ∀ t label u, P t → step t label u → P u) : P t := by
  induction run with
  | start => exact begins
  | next _ last ih => exact keeps _ _ _ ih last

/-- A run of a step function. -/
theorem Run.of_foldlM {next : σ → Label → Option σ} (fold : labels.foldlM next s = some t) :
    Run (fun s label t => next s label = some t) s labels t := by
  induction labels using List.reverseRecOn generalizing t with
  | nil =>
    obtain rfl := Option.some.inj fold
    exact .start s
  | append_singleton labels label ih =>
    rw [List.foldlM_append] at fold
    obtain ⟨u, before, last⟩ := Option.bind_eq_some_iff.mp fold
    obtain ⟨v, one, nil⟩ := Option.bind_eq_some_iff.mp last
    obtain rfl := Option.some.inj nil
    exact .next (ih before) one

theorem Run.last (run : Run step s (labels ++ [label]) u) :
    ∃ t, Run step s labels t ∧ step t label u := by
  generalize whole : labels ++ [label] = all at run
  cases run with
  | start => cases List.append_ne_nil_of_right_ne_nil _ (List.cons_ne_nil _ _) whole
  | next run last =>
    obtain ⟨rfl, same⟩ := List.append_inj' whole rfl
    obtain rfl := List.singleton_inj.mp same
    exact ⟨_, run, last⟩

theorem Run.split (run : Run step s (before ++ after) u) :
    ∃ t, Run step s before t ∧ Run step t after u := by
  induction after using List.reverseRecOn generalizing u with
  | nil => exact ⟨u, by rwa [List.append_nil] at run, .start u⟩
  | append_singleton after label ih =>
    rw [← List.append_assoc] at run
    obtain ⟨t, run, last⟩ := run.last
    obtain ⟨m, first, second⟩ := ih run
    exact ⟨m, first, .next second last⟩

end LasecSimul.Lib.Trace
