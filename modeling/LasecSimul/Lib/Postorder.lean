import Mathlib.Data.List.Nodup
import Mathlib.Data.List.Perm.Subperm
import Mathlib.Logic.Relation

/-!
# Depth-first postorder

The search leaves a node after its successors. In an acyclic graph no node is cut off by the path to it, and
the order is settled: every node stands after its successors, once.
-/

namespace LasecSimul.Lib.Postorder

open Relation

variable {α : Type*} {succ : α → List α}

/-- Every node stands after its successors, once. -/
inductive Settled (succ : α → List α) : List α → Prop where
  | nil : Settled succ []
  | snoc {done : List α} {a : α} : Settled succ done → a ∉ done → (∀ b ∈ succ a, b ∈ done) → Settled succ (done ++ [a])

theorem Settled.nodup {done : List α} (settled : Settled succ done) : done.Nodup := by
  induction settled with
  | nil => exact List.nodup_nil
  | snoc _ fresh _ ih =>
    rw [List.nodup_append]
    refine ⟨ih, List.nodup_singleton _, ?_⟩
    rintro x member _ here rfl
    rw [List.mem_singleton.mp here] at member
    exact fresh member

theorem Settled.closed {done : List α} (settled : Settled succ done) : ∀ a ∈ done, ∀ b ∈ succ a, b ∈ done := by
  induction settled with
  | nil => exact nofun
  | snoc _ _ after ih =>
    intro x member y next
    rcases List.mem_append.mp member with earlier | here
    · exact List.mem_append_left _ (ih x earlier y next)
    · rw [List.mem_singleton.mp here] at next
      exact List.mem_append_left _ (after y next)

variable {known : List α}

/-- What a visit of some nodes makes of `done`. -/
structure Visited (succ : α → List α) (known nodes done done' : List α) : Prop where
  settled : Settled succ done'
  grows : done ⊆ done'
  inside : nodes ⊆ done'
  known : done' ⊆ known
  reached : ∀ x ∈ done', x ∈ done ∨ ∃ a ∈ nodes, ReflTransGen (fun a b => b ∈ succ a) a x

/-- Nodes one after the other. -/
theorem visited_foldl {step : List α → α → List α} {nodes done : List α}
    (each : ∀ a ∈ nodes, ∀ done, Settled succ done → done ⊆ known → Visited succ known [a] done (step done a))
    (settled : Settled succ done) (within : done ⊆ known) : Visited succ known nodes done (nodes.foldl step done) := by
  induction nodes generalizing done with
  | nil => exact ⟨settled, List.Subset.refl _, List.nil_subset _, within, fun _ member => .inl member⟩
  | cons a rest ih =>
    have first := each a List.mem_cons_self done settled within
    have others := ih (fun b member => each b (List.mem_cons_of_mem _ member)) first.settled first.known
    refine ⟨others.settled, List.Subset.trans first.grows others.grows, List.cons_subset.mpr ⟨?_, others.inside⟩, others.known, ?_⟩
    · exact others.grows (first.inside List.mem_cons_self)
    · intro x member
      rcases others.reached x member with early | ⟨b, later, path⟩
      · refine (first.reached x early).imp_right ?_
        rintro ⟨b, here, path⟩
        rw [List.mem_singleton.mp here] at path
        exact ⟨a, List.mem_cons_self, path⟩
      · exact .inr ⟨b, List.mem_cons_of_mem _ later, path⟩

section

variable [DecidableEq α]

/-- `stack` is the path to the node, `done` the nodes the search has left. -/
def visit (succ : α → List α) : Nat → List α → List α → α → List α
  | 0, _, done, _ => done
  | fuel + 1, stack, done, a =>
    if a ∈ done ∨ a ∈ stack then done else (succ a).foldl (visit succ fuel (a :: stack)) done ++ [a]

def postorder (succ : α → List α) (fuel : Nat) (roots : List α) : List α := roots.foldl (visit succ fuel []) []

theorem visit_visits (closed : ∀ a ∈ known, ∀ b ∈ succ a, b ∈ known)
    (acyclic : ∀ a, ¬TransGen (fun a b => b ∈ succ a) a a) {fuel : Nat} {stack done : List α} {a : α}
    (enough : known.length ≤ fuel + stack.length) (path : stack.Nodup) (on : stack ⊆ known)
    (leads : ∀ b ∈ stack, TransGen (fun a b => b ∈ succ a) b a) (member : a ∈ known) (settled : Settled succ done)
    (within : done ⊆ known) : Visited succ known [a] done (visit succ fuel stack done a) := by
  have off : a ∉ stack := fun inside => acyclic a (leads a inside)
  induction fuel generalizing stack done a with
  | zero =>
    have longer := (List.subperm_of_subset (List.nodup_cons.mpr ⟨off, path⟩) (List.cons_subset.mpr ⟨member, on⟩)).length_le
    rw [List.length_cons] at longer
    omega
  | succ fuel ih =>
    rw [visit]
    by_cases left : a ∈ done
    · rw [if_pos (.inl left)]
      exact ⟨settled, List.Subset.refl _, List.cons_subset.mpr ⟨left, List.nil_subset _⟩, within, fun _ => .inl⟩
    · rw [if_neg (not_or.mpr ⟨left, off⟩)]
      have children : Visited succ known (succ a) done ((succ a).foldl (visit succ fuel (a :: stack)) done) := by
        apply visited_foldl _ settled within
        intro b next done settled within
        have leads' : ∀ c ∈ a :: stack, TransGen (fun a b => b ∈ succ a) c b := by
          intro c inside
          rcases List.mem_cons.mp inside with rfl | earlier
          · exact .single next
          · exact (leads c earlier).tail next
        exact ih (by rw [List.length_cons]; omega) (List.nodup_cons.mpr ⟨off, path⟩)
          (List.cons_subset.mpr ⟨member, on⟩) leads' (closed a member b next) settled within
          fun inside => acyclic b (leads' b inside)
      have fresh : a ∉ (succ a).foldl (visit succ fuel (a :: stack)) done := by
        intro inside
        rcases children.reached a inside with early | ⟨b, next, back⟩
        · exact left early
        · exact acyclic a (.head' next back)
      refine ⟨children.settled.snoc fresh children.inside, List.subset_append_of_subset_left _ children.grows,
        by simp, List.append_subset.mpr ⟨children.known, by simpa using member⟩, ?_⟩
      intro x inside
      rcases List.mem_append.mp inside with before | here
      · refine (children.reached x before).imp_right ?_
        rintro ⟨b, next, path⟩
        exact ⟨a, List.mem_singleton_self a, .head next path⟩
      · exact .inr ⟨a, List.mem_singleton_self a, by rw [List.mem_singleton.mp here]⟩

theorem postorder_visits (closed : ∀ a ∈ known, ∀ b ∈ succ a, b ∈ known)
    (acyclic : ∀ a, ¬TransGen (fun a b => b ∈ succ a) a a) {fuel : Nat} {roots : List α} (enough : known.length ≤ fuel)
    (inside : roots ⊆ known) : Visited succ known roots [] (postorder succ fuel roots) :=
  visited_foldl (fun _ member _ settled within =>
    visit_visits closed acyclic enough List.nodup_nil (List.nil_subset _) nofun (inside member) settled within)
    .nil (List.nil_subset _)

end

end LasecSimul.Lib.Postorder
