import Mathlib.Logic.Function.Basic
import Mathlib.Logic.Relation

/-!
# Equivalence closures of finitely many pairs

`Joined ps` is the equivalence generated by the pairs of a list. Adding one pair merges two
classes (`joined_concat`), and two generating relations that cover each other generate the
same equivalence (`eqvGen_le`).
-/

namespace LasecSimul.Lib.Closure

open Relation

variable {α : Type*} {r s : α → α → Prop} {ps qs : List (α × α)} {a b x y : α}

theorem eqvGen_le (cover : ∀ x y, r x y → EqvGen s x y) (h : EqvGen r x y) : EqvGen s x y := by
  induction h with
  | rel x y hr => exact cover x y hr
  | refl x => exact .refl x
  | symm _ _ _ ih => exact .symm _ _ ih
  | trans _ _ _ _ _ ih ih' => exact .trans _ _ _ ih ih'

theorem eqvGen_iff (left : ∀ x y, r x y → EqvGen s x y) (right : ∀ x y, s x y → EqvGen r x y) :
    EqvGen r x y ↔ EqvGen s x y :=
  ⟨eqvGen_le left, eqvGen_le right⟩

theorem eqvGen_eq_of_isolated (isolated : ∀ x y, r x y → a ≠ x ∧ a ≠ y) (h : EqvGen r a b) : a = b := by
  have alone : ∀ x y, EqvGen r x y → (a = x ↔ a = y) := by
    intro x y h
    induction h with
    | rel x y h => exact ⟨fun same => ((isolated x y h).1 same).elim, fun same => ((isolated x y h).2 same).elim⟩
    | refl x => exact .rfl
    | symm _ _ _ ih => exact ih.symm
    | trans _ _ _ _ _ ih ih' => exact ih.trans ih'
  exact (alone a b h).mp rfl

/-- A closure over `β` restricts to the range of `f` when only elements of the range are related. -/
theorem eqvGen_map_iff {β : Type*} {f : α → β} {t : β → β → Prop} (injective : Function.Injective f)
    (cover : ∀ x y, r x y → EqvGen t (f x) (f y))
    (range : ∀ u v, t u v → ∃ x y, f x = u ∧ f y = v ∧ EqvGen r x y) :
    EqvGen t (f x) (f y) ↔ EqvGen r x y := by
  constructor
  · intro h
    have lift : ∀ u v, EqvGen t u v → u = v ∨ ∃ x y, f x = u ∧ f y = v ∧ EqvGen r x y := by
      intro u v h
      induction h with
      | rel u v h => exact .inr (range u v h)
      | refl u => exact .inl rfl
      | symm _ _ _ ih =>
        rcases ih with rfl | ⟨x, y, hx, hy, h⟩
        · exact .inl rfl
        · exact .inr ⟨y, x, hy, hx, .symm _ _ h⟩
      | trans _ _ _ _ _ ih ih' =>
        rcases ih with rfl | ⟨x, y, hx, hy, h⟩
        · exact ih'
        · rcases ih' with rfl | ⟨y', z, hy', hz, h'⟩
          · exact .inr ⟨x, y, hx, hy, h⟩
          · obtain rfl := injective (hy.trans hy'.symm)
            exact .inr ⟨x, z, hx, hz, .trans _ _ _ h h'⟩
    rcases lift _ _ h with same | ⟨x', y', hx, hy, related⟩
    · exact injective same ▸ .refl _
    · obtain rfl := injective hx
      obtain rfl := injective hy
      exact related
  · intro h
    induction h with
    | rel x y h => exact cover x y h
    | refl x => exact .refl _
    | symm _ _ _ ih => exact .symm _ _ ih
    | trans _ _ _ _ _ ih ih' => exact .trans _ _ _ ih ih'

/-- The equivalence generated by the pairs of `ps`. -/
def Joined (ps : List (α × α)) : α → α → Prop :=
  EqvGen fun x y => (x, y) ∈ ps

theorem joined_nil : Joined [] x y ↔ x = y := by
  constructor
  · intro h
    induction h with
    | rel _ _ h => exact absurd h List.not_mem_nil
    | refl => rfl
    | symm _ _ _ ih => exact ih.symm
    | trans _ _ _ _ _ ih ih' => exact ih.trans ih'
  · rintro rfl
    exact .refl x

theorem Joined.refl (x : α) : Joined ps x x := EqvGen.refl x

theorem Joined.symm (h : Joined ps x y) : Joined ps y x := EqvGen.symm _ _ h

theorem Joined.trans {z : α} (h : Joined ps x y) (h' : Joined ps y z) : Joined ps x z :=
  EqvGen.trans _ _ _ h h'

theorem Joined.pair (h : (x, y) ∈ ps) : Joined ps x y := EqvGen.rel _ _ h

theorem Joined.mono (h : Joined ps x y) (sub : ps ⊆ qs) : Joined qs x y :=
  eqvGen_le (fun _ _ hxy => .rel _ _ (sub hxy)) h

theorem Joined.map {β : Type*} {f : α → β} {rs : List (β × β)} (cover : ∀ pair ∈ ps, Joined rs (f pair.1) (f pair.2))
    (h : Joined ps x y) : Joined rs (f x) (f y) := by
  induction h with
  | rel x y pair => exact cover (x, y) pair
  | refl x => exact .refl _
  | symm _ _ _ ih => exact ih.symm
  | trans _ _ _ _ _ ih ih' => exact ih.trans ih'

/-- Pairs that are moved along `f` and joined there join the same fixed elements of `f`. -/
theorem joined_of_retract {f : α → α} (cover : ∀ pair ∈ ps, Joined qs (f pair.1) (f pair.2))
    (back : ∀ pair ∈ qs, Joined ps pair.1 pair.2) (hx : f x = x) (hy : f y = y) : Joined ps x y ↔ Joined qs x y := by
  constructor
  · intro h
    have moved := h.map cover
    rwa [hx, hy] at moved
  · exact fun h => h.map (f := id) back

/-- The equivalence `r` with the classes of `a` and `b` merged. -/
def Merged (r : α → α → Prop) (a b x y : α) : Prop :=
  r x y ∨ (r x a ∧ r y b) ∨ (r x b ∧ r y a)

theorem joined_concat : Joined (ps ++ [(a, b)]) x y ↔ Merged (Joined ps) a b x y := by
  have sub : ps ⊆ ps ++ [(a, b)] := List.subset_append_left ps _
  have last : Joined (ps ++ [(a, b)]) a b := .pair (by simp)
  constructor
  · intro h
    induction h with
    | rel x y h =>
      rcases List.mem_append.mp h with h | h
      · exact Or.inl (.pair h)
      · obtain ⟨rfl, rfl⟩ := Prod.mk.inj (List.mem_singleton.mp h)
        exact Or.inr (Or.inl ⟨.refl _, .refl _⟩)
    | refl x => exact Or.inl (.refl x)
    | symm _ _ _ ih =>
      rcases ih with h | ⟨hx, hy⟩ | ⟨hx, hy⟩
      · exact Or.inl h.symm
      · exact Or.inr (Or.inr ⟨hy, hx⟩)
      · exact Or.inr (Or.inl ⟨hy, hx⟩)
    | trans _ _ _ _ _ ih ih' =>
      rcases ih with h | ⟨hx, hy⟩ | ⟨hx, hy⟩ <;> rcases ih' with h' | ⟨hx', hy'⟩ | ⟨hx', hy'⟩
      · exact Or.inl (h.trans h')
      · exact Or.inr (Or.inl ⟨h.trans hx', hy'⟩)
      · exact Or.inr (Or.inr ⟨h.trans hx', hy'⟩)
      · exact Or.inr (Or.inl ⟨hx, h'.symm.trans hy⟩)
      · exact Or.inl (hx.trans ((hx'.symm.trans hy).trans hy'.symm))
      · exact Or.inl (hx.trans hy'.symm)
      · exact Or.inr (Or.inr ⟨hx, h'.symm.trans hy⟩)
      · exact Or.inl (hx.trans hy'.symm)
      · exact Or.inl (hx.trans ((hx'.symm.trans hy).trans hy'.symm))
  · rintro (h | ⟨hx, hy⟩ | ⟨hx, hy⟩)
    · exact h.mono sub
    · exact (hx.mono sub).trans (last.trans (hy.mono sub).symm)
    · exact (hx.mono sub).trans (last.symm.trans (hy.mono sub).symm)

end LasecSimul.Lib.Closure

/-!
## Parent forests

A function `p : α → α` read as parent pointers: an element is a root when `p` fixes it.
`RootOf p x r` follows the pointers from `x` to the root `r`. Re-pointing an element at its
grandparent changes no root, and pointing a root at another root merges exactly two trees.
-/

namespace LasecSimul.Lib.Forest

variable {α : Type*} {p : α → α} {x y r s a b : α}

/-- The pointers of `p` lead from `x` to the root `r`. -/
inductive RootOf (p : α → α) : α → α → Prop where
  | root {x : α} : p x = x → RootOf p x x
  | step {x r : α} : p x ≠ x → RootOf p (p x) r → RootOf p x r

theorem RootOf.fixed (h : RootOf p x r) : p r = r := by
  induction h with
  | root fixed => exact fixed
  | step _ _ ih => exact ih

theorem RootOf.eq_of_fixed (h : RootOf p x r) (fixed : p x = x) : x = r := by
  cases h with
  | root => rfl
  | step moved _ => exact (moved fixed).elim

theorem RootOf.parent (h : RootOf p x r) : RootOf p (p x) r := by
  cases h with
  | root fixed => rw [fixed]; exact .root fixed
  | step _ rest => exact rest

theorem RootOf.of_parent (h : RootOf p (p x) r) : RootOf p x r := by
  by_cases fixed : p x = x
  · rwa [fixed] at h
  · exact .step fixed h

theorem RootOf.unique (h : RootOf p x r) (h' : RootOf p x s) : r = s := by
  induction h with
  | root fixed => exact h'.eq_of_fixed fixed
  | step _ _ ih => exact ih h'.parent

/-- A rank that grows along every pointer and is bounded leads every element to a root. -/
theorem exists_rootOf (rank : α → Nat) (bound : Nat) (grows : ∀ x, p x ≠ x → rank x < rank (p x))
    (bounded : ∀ x, rank x ≤ bound) (x : α) : ∃ r, RootOf p x r := by
  induction h : bound - rank x using Nat.strongRecOn generalizing x with
  | _ n ih =>
    by_cases fixed : p x = x
    · exact ⟨x, .root fixed⟩
    · have up := grows x fixed
      have top := bounded (p x)
      obtain ⟨r, hr⟩ := ih (bound - rank (p x)) (by omega) (p x) rfl
      exact ⟨r, .step fixed hr⟩

variable [DecidableEq α]

/-- Pointing an element at its grandparent keeps every root. -/
theorem RootOf.halve (h : RootOf p y r) (x : α) :
    RootOf (Function.update p x (p (p x))) y r := by
  induction h with
  | @root y fixed =>
    refine .root ?_
    by_cases same : y = x
    · subst same; simp [fixed]
    · simp [Function.update_of_ne same, fixed]
  | @step y r moved _ ih =>
    by_cases same : y = x
    · subst same
      refine .of_parent ?_
      rw [Function.update_self]
      have next := ih.parent
      by_cases loop : p y = y
      · exact (moved loop).elim
      · rwa [Function.update_of_ne loop] at next
    · refine .of_parent ?_
      rwa [Function.update_of_ne same]

/-- Pointing the root `b` at the root `a` moves the tree of `b` under `a`. -/
theorem RootOf.link (h : RootOf p x r) (ha : p a = a) (hb : p b = b) (ne : a ≠ b) :
    RootOf (Function.update p b a) x (if r = b then a else r) := by
  induction h with
  | @root x fixed =>
    by_cases same : x = b
    · subst same
      rw [if_pos rfl]
      refine .of_parent ?_
      rw [Function.update_self]
      exact .root (by rw [Function.update_of_ne ne, ha])
    · rw [if_neg same]
      exact .root (by rw [Function.update_of_ne same, fixed])
  | @step x r moved _ ih =>
    have same : x ≠ b := fun same => moved (same ▸ hb)
    refine .of_parent ?_
    rwa [Function.update_of_ne same]

/-- Two elements are in one tree when they have one root. -/
def SameTree (p : α → α) (x y : α) : Prop := ∃ r, RootOf p x r ∧ RootOf p y r

omit [DecidableEq α] in
theorem sameTree_iff (hx : RootOf p x r) (hy : RootOf p y s) : SameTree p x y ↔ r = s :=
  ⟨fun ⟨_, hx', hy'⟩ => (hx.unique hx').trans (hy'.unique hy), fun same => ⟨r, hx, same ▸ hy⟩⟩

omit [DecidableEq α] in
theorem merged_sameTree_iff {t u : α} (hx : RootOf p x r) (hy : RootOf p y s) (ha : RootOf p a t) (hb : RootOf p b u) :
    Closure.Merged (SameTree p) a b x y ↔ r = s ∨ (r = t ∧ s = u) ∨ (r = u ∧ s = t) := by
  rw [Closure.Merged, sameTree_iff hx hy, sameTree_iff hx ha, sameTree_iff hx hb, sameTree_iff hy ha,
    sameTree_iff hy hb]

theorem sameTree_link (rooted : ∀ x, ∃ r, RootOf p x r) (ha : p a = a) (hb : p b = b) (ne : a ≠ b) :
    SameTree (Function.update p b a) x y ↔ Closure.Merged (SameTree p) a b x y := by
  obtain ⟨r, hx⟩ := rooted x
  obtain ⟨s, hy⟩ := rooted y
  rw [sameTree_iff (hx.link ha hb ne) (hy.link ha hb ne), merged_sameTree_iff hx hy (.root ha) (.root hb)]
  grind

end LasecSimul.Lib.Forest
