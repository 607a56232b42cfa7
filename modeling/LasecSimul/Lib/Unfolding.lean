import Mathlib.Data.List.Forall2
import Mathlib.Data.Sum.Basic

/-!
# Unfolding

Each node of a system has a content and labelled parts, which are nodes or leaves. Its unfolding to a depth is
a tree, and nodes that a bisimulation relates have the same unfolding to every depth.
-/

namespace LasecSimul.Lib.Unfolding

variable {ν ν' κ ι β : Type*}

inductive Tree (κ ι β : Type*) where
  | cut
  | leaf (value : β)
  | node (content : κ) (parts : List (ι × Tree κ ι β))

/-- A system of nodes. -/
structure System (ν κ ι β : Type*) where
  content : ν → κ
  parts : ν → List (ι × (ν ⊕ β))

def System.unfold (system : System ν κ ι β) : Nat → ν → Tree κ ι β
  | 0, _ => .cut
  | depth + 1, a => .node (system.content a) ((system.parts a).map fun part =>
      (part.1, part.2.elim (system.unfold depth) .leaf))

theorem System.unfold_succ_eq {system : System ν κ ι β} {system' : System ν' κ ι β} {depth : Nat} {a : ν} {b : ν'}
    (content : system.content a = system'.content b)
    (parts : List.Forall₂ (fun part part' => part.1 = part'.1 ∧
      Sum.LiftRel (fun a b => system.unfold depth a = system'.unfold depth b) Eq part.2 part'.2)
      (system.parts a) (system'.parts b)) :
    system.unfold (depth + 1) a = system'.unfold (depth + 1) b := by
  rw [System.unfold, System.unfold, content]
  refine congrArg (Tree.node _) ?_
  generalize system.parts a = left, system'.parts b = right at parts
  induction parts with
  | nil => rfl
  | @cons part part' left right first rest ih =>
    obtain ⟨label, next⟩ := part
    obtain ⟨label', next'⟩ := part'
    obtain ⟨rfl, alike⟩ := first
    rw [List.map_cons, List.map_cons, ih]
    cases alike with
    | inl same => rw [Sum.elim_inl, Sum.elim_inl, same]
    | inr same => rw [same, Sum.elim_inr, Sum.elim_inr]

structure Bisimulation (system : System ν κ ι β) (system' : System ν' κ ι β) (R : ν → ν' → Prop) : Prop where
  content : ∀ a b, R a b → system.content a = system'.content b
  parts : ∀ a b, R a b → List.Forall₂ (fun part part' => part.1 = part'.1 ∧ Sum.LiftRel R Eq part.2 part'.2)
    (system.parts a) (system'.parts b)

theorem Bisimulation.unfold_eq {system : System ν κ ι β} {system' : System ν' κ ι β} {R : ν → ν' → Prop}
    (bisimulation : Bisimulation system system' R) (depth : Nat) {a : ν} {b : ν'} (related : R a b) :
    system.unfold depth a = system'.unfold depth b := by
  induction depth generalizing a b with
  | zero => rfl
  | succ depth ih =>
    refine System.unfold_succ_eq (bisimulation.content a b related) ?_
    refine (bisimulation.parts a b related).imp fun part part' alike => ⟨alike.1, ?_⟩
    exact alike.2.mono (fun _ _ => ih) fun _ _ => id

end LasecSimul.Lib.Unfolding
