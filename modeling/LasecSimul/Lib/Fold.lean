import Mathlib.Data.List.Forall2

/-!
# Folds over lists

What a loop keeps, and sums that grow with their terms.
-/

namespace LasecSimul.Lib.Fold

variable {α β γ : Type}

/-- A value that no step changes is not changed by the loop. -/
theorem foldl_keeps {f : β → α → β} (value : β → γ) (xs : List α)
    (keeps : ∀ acc, ∀ x ∈ xs, value (f acc x) = value acc) (start : β) : value (xs.foldl f start) = value start := by
  induction xs generalizing start with
  | nil => rfl
  | cons x xs ih =>
    rw [List.foldl_cons]
    exact (ih (fun acc y later => keeps acc y (List.mem_cons_of_mem _ later)) _).trans
      (keeps start x List.mem_cons_self)

/-- Two loops over one list keep a relation that their steps keep. -/
theorem foldl_related {f : β → α → β} {g : γ → α → γ} (r : β → γ → Prop) (xs : List α)
    (keeps : ∀ b c, ∀ x ∈ xs, r b c → r (f b x) (g c x)) {b : β} {c : γ} (start : r b c) :
    r (xs.foldl f b) (xs.foldl g c) := by
  induction xs generalizing b c with
  | nil => exact start
  | cons x xs ih =>
    rw [List.foldl_cons, List.foldl_cons]
    exact ih (fun b c y later => keeps b c y (List.mem_cons_of_mem _ later)) (keeps b c x List.mem_cons_self start)

/-- Two loops agree on a value that they agree on at the start, or that one of the steps writes anew. -/
theorem foldl_settles {δ : Type} {f : β → α → β} {g : γ → α → γ} (left : β → δ) (right : γ → δ)
    (writes : α → Prop) (xs : List α)
    (step : ∀ b c, ∀ x ∈ xs, left b = right c ∨ writes x → left (f b x) = right (g c x)) {b : β} {c : γ}
    (start : left b = right c ∨ ∃ x ∈ xs, writes x) : left (xs.foldl f b) = right (xs.foldl g c) := by
  induction xs generalizing b c with
  | nil => exact start.resolve_right fun ⟨_, member, _⟩ => nomatch member
  | cons x xs ih =>
    have here := step b c x List.mem_cons_self
    rw [List.foldl_cons, List.foldl_cons]
    refine ih (fun b c y later => step b c y (List.mem_cons_of_mem _ later)) ?_
    rcases start with same | ⟨y, member, written⟩
    · exact Or.inl (here (Or.inl same))
    · rcases List.mem_cons.mp member with rfl | later
      · exact Or.inl (here (Or.inr written))
      · exact Or.inr ⟨y, later, written⟩

theorem foldl_add_le {f g : Nat → Nat} (xs : List Nat) (le : ∀ x ∈ xs, f x ≤ g x) {a b d : Nat} (start : a + d ≤ b) :
    xs.foldl (fun sum x => sum + f x) a + d ≤ xs.foldl (fun sum x => sum + g x) b := by
  induction xs generalizing a b with
  | nil => exact start
  | cons x xs ih =>
    have first := le x List.mem_cons_self
    rw [List.foldl_cons, List.foldl_cons]
    exact ih (fun y later => le y (List.mem_cons_of_mem _ later)) (by omega)

theorem foldl_add_lt {f g : Nat → Nat} {xs : List Nat} (le : ∀ x ∈ xs, f x ≤ g x) {x : Nat} (member : x ∈ xs)
    (lt : f x < g x) {a b : Nat} (start : a ≤ b) :
    xs.foldl (fun sum x => sum + f x) a < xs.foldl (fun sum x => sum + g x) b := by
  induction xs generalizing a b with
  | nil => cases member
  | cons y xs ih =>
    have first := le y List.mem_cons_self
    have rest : ∀ z ∈ xs, f z ≤ g z := fun z later => le z (List.mem_cons_of_mem _ later)
    rw [List.foldl_cons, List.foldl_cons]
    rcases List.mem_cons.mp member with rfl | later
    · exact foldl_add_le xs rest (show a + f x + 1 ≤ b + g x by omega)
    · exact ih rest later (by omega)

end LasecSimul.Lib.Fold

/-!
## Lists mapped with a state

`threaded` is a `map` whose function also reads and writes a state. What every application makes of its element
stays as the state grows, so it holds in the last state of all of them.
-/

namespace LasecSimul.Lib

variable {σ α β : Type*}

def threaded (f : σ → α → β × σ) : σ → List α → List β × σ
  | s, [] => ([], s)
  | s, a :: rest =>
    let first := f s a
    let others := threaded f first.2 rest
    (first.1 :: others.1, others.2)

theorem threaded_spec {f : σ → α → β × σ} {I : σ → Prop} {L : σ → σ → Prop} {R : σ → α → β → Prop}
    (refl : ∀ s, L s s) (trans : ∀ {s s' s''}, L s s' → L s' s'' → L s s'')
    (mono : ∀ {s s' a b}, I s → I s' → L s s' → R s a b → R s' a b) {list : List α}
    (step : ∀ a ∈ list, ∀ s, I s → I (f s a).2 ∧ L s (f s a).2 ∧ R (f s a).2 a (f s a).1) {s : σ} (start : I s) :
    I (threaded f s list).2 ∧ L s (threaded f s list).2 ∧
      List.Forall₂ (R (threaded f s list).2) list (threaded f s list).1 := by
  induction list generalizing s with
  | nil => exact ⟨start, refl s, .nil⟩
  | cons a rest ih =>
    obtain ⟨first, grows, made⟩ := step a List.mem_cons_self s start
    obtain ⟨last, further, others⟩ := ih (fun other member => step other (List.mem_cons_of_mem _ member)) first
    exact ⟨last, trans grows further, .cons (mono first last further made) others⟩

theorem threaded_congr {f g : σ → α → β × σ} {list : List α} (same : ∀ a ∈ list, ∀ s, f s a = g s a) (s : σ) :
    threaded f s list = threaded g s list := by
  induction list generalizing s with
  | nil => rfl
  | cons a rest ih =>
    rw [threaded, threaded, same a List.mem_cons_self, ih fun other member => same other (List.mem_cons_of_mem _ member)]

theorem threaded_id {f : σ → α → α × σ} {list : List α} {s : σ} (unchanged : ∀ a ∈ list, f s a = (a, s)) :
    threaded f s list = (list, s) := by
  induction list with
  | nil => rfl
  | cons a rest ih =>
    rw [threaded, unchanged a List.mem_cons_self, ih fun other member => unchanged other (List.mem_cons_of_mem _ member)]

theorem mem_threaded {f : σ → α → β × σ} {P : β → Prop} {list : List α} (made : ∀ a ∈ list, ∀ s, P (f s a).1) (s : σ) :
    ∀ b ∈ (threaded f s list).1, P b := by
  induction list generalizing s with
  | nil => exact nofun
  | cons a rest ih =>
    intro b member
    rcases List.mem_cons.mp member with rfl | later
    · exact made a List.mem_cons_self s
    · exact ih (fun other inside => made other (List.mem_cons_of_mem _ inside)) _ b later

end LasecSimul.Lib
