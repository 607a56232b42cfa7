import Mathlib.Data.Set.Card
import LasecSimul.Lib.Closure

/-!
# Connected components by depth-first search

A search with a stack marks a vertex when it is pushed. From a start outside a closed set of marked vertices it visits
the component of the start; one search for each unmarked vertex visits every component once.
-/

namespace LasecSimul.Lib.Components

open Relation

variable {α : Type*} [DecidableEq α]

/-- The stack is held top first. -/
structure Search (α : Type*) where
  stack : List α
  seen : List α
  visited : List α

def offer (search : Search α) (next : α) : Search α :=
  if next ∈ search.seen then search
  else { search with stack := next :: search.stack, seen := search.seen ++ [next] }

def pop (neighbours : α → List α) (search : Search α) : Search α :=
  match search.stack with
  | [] => search
  | top :: rest => (neighbours top).foldl offer { search with stack := rest, visited := search.visited ++ [top] }

/-- The search from `start`; as many turns as there are vertices empty the stack. -/
def component (neighbours : α → List α) (turns : Nat) (seen : List α) (start : α) : Search α :=
  (pop neighbours)^[turns] { stack := [start], seen := seen ++ [start], visited := [] }

/-- One search for each start that no search before has seen. -/
def components (neighbours : α → List α) (turns : Nat) (seen : List α) : List α → List (List α)
  | [] => []
  | start :: rest =>
    if start ∈ seen then components neighbours turns seen rest
    else
      let search := component neighbours turns seen start
      search.visited :: components neighbours turns search.seen rest

/-! ### One search -/

/-- Vertices joined by steps to neighbours. -/
def Linked (neighbours : α → List α) : α → α → Prop :=
  EqvGen fun x y => y ∈ neighbours x

structure Searching (neighbours : α → List α) (old : List α) (start : α) (search : Search α) : Prop where
  seen : ∀ x, x ∈ search.seen ↔ x ∈ old ∨ x ∈ search.visited ∨ x ∈ search.stack
  nodup : (search.visited ++ search.stack).Nodup
  fresh : ∀ x ∈ search.visited ++ search.stack, x ∉ old
  linked : ∀ x ∈ search.visited ++ search.stack, Linked neighbours start x
  start : start ∈ search.visited ++ search.stack
  closed : ∀ x ∈ search.visited, ∀ y ∈ neighbours x, y ∈ search.seen

structure Offered (before after : Search α) (offers : List α) : Prop where
  visited : after.visited = before.visited
  seen : ∀ x, x ∈ after.seen ↔ x ∈ before.seen ∨ x ∈ offers
  stack : ∀ x, x ∈ after.stack ↔ x ∈ before.stack ∨ (x ∈ offers ∧ x ∉ before.seen)
  nodup : (∀ x ∈ before.stack, x ∈ before.seen) → before.stack.Nodup → after.stack.Nodup

theorem offered_foldl (offers : List α) (search : Search α) : Offered search (offers.foldl offer search) offers := by
  induction offers generalizing search with
  | nil => exact ⟨rfl, by simp, by simp, fun _ nodup => nodup⟩
  | cons next offers ih =>
    have rest := ih (offer search next)
    rw [List.foldl_cons]
    unfold offer at rest ⊢
    by_cases known : next ∈ search.seen
    · rw [if_pos known] at rest ⊢
      refine ⟨rest.visited, fun x => ?_, fun x => ?_, rest.nodup⟩
      · rw [rest.seen, List.mem_cons]
        constructor
        · exact Or.imp_right .inr
        · rintro (old | rfl | offered)
          · exact .inl old
          · exact .inl known
          · exact .inr offered
      · rw [rest.stack, List.mem_cons]
        constructor
        · exact Or.imp_right (And.imp_left .inr)
        · rintro (old | ⟨rfl | offered, unknown⟩)
          · exact .inl old
          · exact absurd known unknown
          · exact .inr ⟨offered, unknown⟩
    · rw [if_neg known] at rest ⊢
      refine ⟨rest.visited, fun x => ?_, fun x => ?_, fun marked nodup => rest.nodup ?_ ?_⟩
      · rw [rest.seen, List.mem_append, List.mem_singleton, List.mem_cons, or_assoc]
      · rw [rest.stack, List.mem_cons, List.mem_cons, List.mem_append, List.mem_singleton]
        by_cases same : x = next
        · simp [same, known]
        · simp [same]
      · intro x member
        rcases List.mem_cons.mp member with rfl | member
        · exact List.mem_append_right _ (List.mem_singleton_self _)
        · exact List.mem_append_left _ (marked x member)
      · exact List.nodup_cons.mpr ⟨fun member => known (marked next member), nodup⟩

variable {neighbours : α → List α} {old domain : List α} {start : α} {search : Search α}

omit [DecidableEq α] in
theorem Searching.begin (outside : start ∉ old) :
    Searching neighbours old start { stack := [start], seen := old ++ [start], visited := [] } where
  seen := by simp
  nodup := by simp
  fresh := by simpa using outside
  linked := by
    intro x member
    rw [List.nil_append, List.mem_singleton] at member
    exact member ▸ .refl start
  start := by simp
  closed := nofun

theorem Searching.pop (searching : Searching neighbours old start search) :
    Searching neighbours old start (pop neighbours search) := by
  unfold Components.pop
  cases shape : search.stack with
  | nil => exact searching
  | cons top rest =>
    dsimp only
    have offered := offered_foldl (neighbours top) { search with stack := rest, visited := search.visited ++ [top] }
    generalize List.foldl offer _ (neighbours top) = after at offered ⊢
    have nodup := searching.nodup
    have known := searching.seen
    have linked := searching.linked
    rw [shape] at nodup known linked
    have marked : ∀ x ∈ rest, x ∈ search.seen := fun x member =>
      (known x).mpr (.inr (.inr (List.mem_cons_of_mem _ member)))
    have later : ∀ x, x ∈ after.stack → x ∈ rest ∨ (x ∈ neighbours top ∧ x ∉ search.seen) := fun x => (offered.stack x).mp
    have split : ∀ x, x ∈ after.visited ++ after.stack ↔
        x ∈ search.visited ++ top :: rest ∨ (x ∈ neighbours top ∧ x ∉ search.seen) := by
      intro x
      simp only [List.mem_append, offered.visited, offered.stack, List.mem_cons, List.not_mem_nil, or_false, or_assoc]
    refine ⟨fun x => ?_, ?_, fun x member => ?_, fun x member => ?_, ?_, fun x member y next => ?_⟩
    · refine (offered.seen x).trans ⟨fun member => ?_, ?_⟩
      · by_cases seen : x ∈ search.seen
        · rcases (known x).mp seen with before | inside
          · exact .inl before
          · exact .inr (List.mem_append.mp ((split x).mpr (.inl (List.mem_append.mpr inside))))
        · exact .inr (List.mem_append.mp ((split x).mpr (.inr ⟨member.resolve_left seen, seen⟩)))
      · rintro (before | inside)
        · exact .inl ((known x).mpr (.inl before))
        · rcases (split x).mp (List.mem_append.mpr inside) with inside | ⟨next, _⟩
          · exact .inl ((known x).mpr (.inr (List.mem_append.mp inside)))
          · exact .inr next
    · rw [List.nodup_append'] at nodup ⊢
      obtain ⟨front, back, apart⟩ := nodup
      rw [List.nodup_cons] at back
      refine ⟨?_, offered.nodup marked back.2, fun x inside on => ?_⟩
      · rw [offered.visited]
        exact List.concat_eq_append ▸ front.concat fun member => apart member List.mem_cons_self
      · rw [offered.visited] at inside
        rcases later x on with on | ⟨_, unseen⟩
        · rcases List.mem_append.mp inside with inside | inside
          · exact apart inside (List.mem_cons_of_mem _ on)
          · rw [List.mem_singleton] at inside
            exact back.1 (inside ▸ on)
        · refine unseen ((known x).mpr (.inr ?_))
          rcases List.mem_append.mp inside with inside | inside
          · exact .inl inside
          · exact .inr (List.mem_cons.mpr (.inl (List.mem_singleton.mp inside)))
    · rcases (split x).mp member with member | ⟨_, unseen⟩
      · exact searching.fresh x (shape ▸ member)
      · exact fun member => unseen ((known x).mpr (.inl member))
    · rcases (split x).mp member with member | ⟨next, _⟩
      · exact linked x member
      · exact .trans _ _ _ (linked top (by simp)) (.rel _ _ next)
    · exact (split start).mpr (.inl (shape ▸ searching.start))
    · rw [offered.seen]
      rw [offered.visited] at member
      rcases List.mem_append.mp member with member | member
      · exact .inl (searching.closed x member y next)
      · exact .inr (List.mem_singleton.mp member ▸ next)

theorem Searching.iterate (searching : Searching neighbours old start search) (turns : Nat) :
    Searching neighbours old start ((Components.pop neighbours)^[turns] search) := by
  induction turns generalizing search with
  | zero => exact searching
  | succ turns ih => exact ih searching.pop

/-- A turn visits one vertex. -/
theorem visited_iterate (neighbours : α → List α) (turns : Nat) (search : Search α) :
    ((pop neighbours)^[turns] search).stack = [] ∨
      ((pop neighbours)^[turns] search).visited.length = search.visited.length + turns := by
  induction turns generalizing search with
  | zero => exact .inr rfl
  | succ turns ih =>
    rw [Function.iterate_succ_apply]
    cases shape : search.stack with
    | nil =>
      have idle : pop neighbours search = search := by
        unfold pop
        rw [shape]
      have still : ∀ n, (pop neighbours)^[n] search = search := fun n => Function.iterate_fixed idle n
      rw [idle, still]
      exact .inl shape
    | cons top rest =>
      have longer : (pop neighbours search).visited.length = search.visited.length + 1 := by
        unfold pop
        rw [shape]
        dsimp only
        rw [(offered_foldl (neighbours top) _).visited, List.length_append, List.length_singleton]
      rcases ih (pop neighbours search) with empty | count
      · exact .inl empty
      · right
        omega

/-- The marks and the steps of a search. -/
structure Graph (neighbours : α → List α) (domain : List α) : Prop where
  symm : ∀ x y, y ∈ neighbours x → x ∈ neighbours y
  inside : ∀ x, ∀ y ∈ neighbours x, y ∈ domain

omit [DecidableEq α] in
theorem Linked.inside (graph : Graph neighbours domain) {x y : α} (linked : Linked neighbours x y) :
    x ∈ domain ↔ y ∈ domain := by
  induction linked with
  | rel x y next => exact ⟨fun _ => graph.inside x y next, fun _ => graph.inside y x (graph.symm x y next)⟩
  | refl x => exact .rfl
  | symm _ _ _ ih => exact ih.symm
  | trans _ _ _ _ _ ih ih' => exact ih.trans ih'

omit [DecidableEq α] in
theorem Linked.closed (graph : Graph neighbours domain) {set : List α} (closed : ∀ x ∈ set, ∀ y ∈ neighbours x, y ∈ set)
    {x y : α} (linked : Linked neighbours x y) : x ∈ set ↔ y ∈ set := by
  induction linked with
  | rel x y next => exact ⟨fun member => closed x member y next, fun member => closed y member x (graph.symm x y next)⟩
  | refl x => exact .rfl
  | symm _ _ _ ih => exact ih.symm
  | trans _ _ _ _ _ ih ih' => exact ih.trans ih'

/-- A search visits the component of its start and marks nothing else. -/
structure Visits (neighbours : α → List α) (old : List α) (start : α) (search : Search α) : Prop where
  nodup : search.visited.Nodup
  visited : ∀ x, x ∈ search.visited ↔ Linked neighbours start x
  seen : ∀ x, x ∈ search.seen ↔ x ∈ old ∨ x ∈ search.visited
  closed : ∀ x ∈ search.seen, ∀ y ∈ neighbours x, y ∈ search.seen

theorem component_visits {turns : Nat} (graph : Graph neighbours domain) (enough : domain.length ≤ turns)
    (closed : ∀ x ∈ old, ∀ y ∈ neighbours x, y ∈ old) (member : start ∈ domain) (outside : start ∉ old) :
    Visits neighbours old start (component neighbours turns old start) := by
  have first : Searching neighbours old start { stack := [start], seen := old ++ [start], visited := [] } := .begin outside
  have searching := first.iterate turns
  have count := visited_iterate neighbours turns { stack := [start], seen := old ++ [start], visited := [] }
  show Visits neighbours old start ((pop neighbours)^[turns] _)
  generalize (pop neighbours)^[turns] _ = search at searching count
  have small : (search.visited ++ search.stack).length ≤ domain.length :=
    (searching.nodup.subperm fun x member' => ((searching.linked x member').inside graph).mp member).length_le
  have empty : search.stack = [] := by
    rcases count with empty | count
    · exact empty
    · rw [List.length_append] at small
      simp only [List.length_nil] at count
      exact List.eq_nil_of_length_eq_zero (by omega)
  obtain ⟨seen, nodup, fresh, linked, started, explored⟩ := searching
  simp only [empty, List.append_nil, List.not_mem_nil, or_false] at seen nodup fresh linked started
  have within : ∀ x ∈ search.visited, ∀ y ∈ neighbours x, y ∈ search.visited := by
    intro x inside y next
    rcases (seen y).mp (explored x inside y next) with before | visited
    · exact absurd (closed y before x (graph.symm x y next)) (fresh x inside)
    · exact visited
  refine ⟨nodup, fun x => ⟨linked x, fun link => (link.closed graph within).mp started⟩, seen, fun x member y next => ?_⟩
  rcases (seen x).mp member with before | visited
  · exact (seen y).mpr (.inl (closed x before y next))
  · exact explored x visited y next

/-- The groups are the components of the starts that are not in `old`. -/
structure Partition (neighbours : α → List α) (old starts : List α) (groups : List (List α)) : Prop where
  nodup : groups.flatten.Nodup
  mem : ∀ x, x ∈ groups.flatten ↔ x ∉ old ∧ ∃ start ∈ starts, Linked neighbours start x
  linked : ∀ group ∈ groups, ∃ start ∈ group, ∀ x, x ∈ group ↔ Linked neighbours start x

theorem components_partition {turns : Nat} (graph : Graph neighbours domain) (enough : domain.length ≤ turns)
    (closed : ∀ x ∈ old, ∀ y ∈ neighbours x, y ∈ old) (starts : List α) (sub : ∀ start ∈ starts, start ∈ domain) :
    Partition neighbours old starts (components neighbours turns old starts) := by
  induction starts generalizing old with
  | nil => exact ⟨List.nodup_nil, by simp [components], nofun⟩
  | cons start starts ih =>
    unfold components
    have rest : ∀ start ∈ starts, start ∈ domain := fun start member => sub start (List.mem_cons_of_mem _ member)
    by_cases known : start ∈ old
    · rw [if_pos known]
      obtain ⟨nodup, mem, linked⟩ := ih closed rest
      refine ⟨nodup, fun x => ?_, linked⟩
      rw [mem]
      constructor
      · rintro ⟨outside, first, member, link⟩
        exact ⟨outside, first, List.mem_cons_of_mem _ member, link⟩
      · rintro ⟨outside, first, member, link⟩
        rcases List.mem_cons.mp member with rfl | member
        · exact absurd ((link.closed graph closed).mp known) outside
        · exact ⟨outside, first, member, link⟩
    · rw [if_neg known]
      dsimp only
      have visits := component_visits graph enough closed (sub start List.mem_cons_self) known
      generalize component neighbours turns old start = search at visits
      obtain ⟨nodup, mem, linked⟩ := ih visits.closed rest
      refine ⟨?_, fun x => ?_, ?_⟩
      · rw [List.flatten_cons, List.nodup_append']
        refine ⟨visits.nodup, nodup, fun x visited later => ((mem x).mp later).1 ((visits.seen x).mpr (.inr visited))⟩
      · rw [List.flatten_cons, List.mem_append, mem, visits.seen, visits.visited]
        constructor
        · rintro (link | ⟨outside, first, member, link⟩)
          · exact ⟨fun member => known ((link.closed graph closed).mpr member), start, List.mem_cons_self, link⟩
          · exact ⟨fun member => outside (.inl member), first, List.mem_cons_of_mem _ member, link⟩
        · rintro ⟨outside, first, member, link⟩
          by_cases here : Linked neighbours start x
          · exact .inl here
          · rcases List.mem_cons.mp member with rfl | member
            · exact absurd link here
            · exact .inr ⟨fun seen => seen.elim outside here, first, member, link⟩
      · intro group member
        rcases List.mem_cons.mp member with rfl | member
        · exact ⟨start, (visits.visited start).mpr (.refl start), visits.visited⟩
        · exact linked group member

section Stars

variable {β : Type*} {groups : List (List β)} {x y : β} {r : β → β → Prop}

/-- The first element joined to each later one. -/
def spokes : List β → List (β × β)
  | [] => []
  | root :: rest => rest.map fun x => (root, x)

theorem mem_spokes {group : List β} (member : (x, y) ∈ spokes group) : x ∈ group ∧ y ∈ group := by
  cases group with
  | nil => exact absurd member List.not_mem_nil
  | cons root rest =>
    obtain ⟨z, inside, same⟩ := List.mem_map.mp member
    obtain ⟨rfl, rfl⟩ := Prod.mk.inj same
    exact ⟨List.mem_cons_self, List.mem_cons_of_mem _ inside⟩

theorem joined_spokes {group : List β} (hx : x ∈ group) (hy : y ∈ group) : Closure.Joined (spokes group) x y := by
  cases group with
  | nil => exact absurd hx List.not_mem_nil
  | cons root rest =>
    have spoke : ∀ z ∈ root :: rest, Closure.Joined (spokes (root :: rest)) root z := by
      intro z member
      rcases List.mem_cons.mp member with rfl | member
      · exact .refl _
      · exact .pair (List.mem_map.mpr ⟨z, member, rfl⟩)
    exact (spoke x hx).symm.trans (spoke y hy)

theorem group_unique (nodup : groups.flatten.Nodup) {group group' : List β} (member : group ∈ groups)
    (member' : group' ∈ groups) (hx : x ∈ group) (hx' : x ∈ group') : group = group' := by
  by_contra different
  have : Std.Symm (List.Disjoint : List β → List β → Prop) := ⟨fun _ _ disjoint => disjoint.symm⟩
  exact (List.nodup_flatten.mp nodup).2.forall member member' different hx hx'

/-- Stars of disjoint groups join exactly the elements of one group. -/
theorem joined_stars (nodup : groups.flatten.Nodup) :
    Closure.Joined (groups.flatMap spokes) x y ↔ x = y ∨ ∃ group ∈ groups, x ∈ group ∧ y ∈ group := by
  constructor
  · intro joined
    induction joined with
    | rel x y pair =>
      obtain ⟨group, member, pair⟩ := List.mem_flatMap.mp pair
      exact .inr ⟨group, member, mem_spokes pair⟩
    | refl x => exact .inl rfl
    | symm x y _ ih =>
      rcases ih with rfl | ⟨group, member, hx, hy⟩
      · exact .inl rfl
      · exact .inr ⟨group, member, hy, hx⟩
    | trans x y z _ _ ih ih' =>
      rcases ih with rfl | ⟨group, member, hx, hy⟩
      · exact ih'
      · rcases ih' with rfl | ⟨group', member', hy', hz⟩
        · exact .inr ⟨group, member, hx, hy⟩
        · obtain rfl := group_unique nodup member member' hy hy'
          exact .inr ⟨group, member, hx, hz⟩
  · rintro (rfl | ⟨group, member, hx, hy⟩)
    · exact .refl x
    · exact (joined_spokes hx hy).mono fun pair inside => List.mem_flatMap.mpr ⟨group, member, inside⟩

theorem flatMap_spokes_filter (groups : List (List β)) :
    (groups.filter fun group => !group.isEmpty).flatMap spokes = groups.flatMap spokes := by
  induction groups with
  | nil => rfl
  | cons group groups ih =>
    cases group with
    | nil => exact ih
    | cons root rest => rw [List.filter_cons_of_pos rfl, List.flatMap_cons, ih, List.flatMap_cons]

/-- A star has one edge less than elements. -/
theorem length_stars (nonempty : ∀ group ∈ groups, group ≠ []) :
    (groups.flatMap spokes).length + groups.length = groups.flatten.length := by
  induction groups with
  | nil => rfl
  | cons group groups ih =>
    have rest := ih fun group member => nonempty group (List.mem_cons_of_mem _ member)
    cases group with
    | nil => exact absurd rfl (nonempty [] List.mem_cons_self)
    | cons root tail =>
      rw [List.flatMap_cons, List.flatten_cons, List.length_append, List.length_append, List.length_cons, List.length_cons]
      have count : (spokes (root :: tail)).length = tail.length := List.length_map _
      omega

/-- An equivalence has as many classes as there are groups, when the groups are what it relates. -/
theorem ncard_classes (equivalence : Equivalence r) (nonempty : ∀ group ∈ groups, group ≠ [])
    (nodup : groups.flatten.Nodup)
    (related : ∀ x ∈ groups.flatten, ∀ y ∈ groups.flatten, r x y ↔ ∃ group ∈ groups, x ∈ group ∧ y ∈ group) :
    {c : Set β | ∃ x ∈ groups.flatten, c = {y | r x y}}.ncard = groups.length := by
  classical
  let classOf (group : List β) : Set β := {y | ∃ x ∈ group, r x y}
  have inside : ∀ {group}, group ∈ groups → ∀ {x}, x ∈ group → x ∈ groups.flatten := fun member _ hx =>
    List.mem_flatten.mpr ⟨_, member, hx⟩
  have same : ∀ group ∈ groups, ∀ x ∈ group, classOf group = {y | r x y} := by
    intro group member x hx
    ext y
    constructor
    · rintro ⟨z, hz, link⟩
      exact equivalence.trans ((related x (inside member hx) z (inside member hz)).mpr ⟨group, member, hx, hz⟩) link
    · exact fun link => ⟨x, hx, link⟩
  have distinct : (groups.map classOf).Nodup := by
    have apart : ∀ group ∈ groups, ∀ group' ∈ groups, classOf group = classOf group' → group = group' := by
      intro group member group' member' equal
      obtain ⟨x, hx⟩ := List.exists_mem_of_ne_nil _ (nonempty group member)
      have mine : x ∈ classOf group := ⟨x, hx, equivalence.refl x⟩
      obtain ⟨y, hy, link⟩ := equal ▸ mine
      obtain ⟨both, shared, hy', hx'⟩ := (related y (inside member' hy) x (inside member hx)).mp link
      exact (group_unique nodup member shared hx hx').trans (group_unique nodup shared member' hy' hy)
    refine List.Nodup.map_on apart ((List.nodup_flatten.mp nodup).2.imp_of_mem fun member _ disjoint equal => ?_)
    obtain ⟨x, hx⟩ := List.exists_mem_of_ne_nil _ (nonempty _ member)
    exact disjoint hx (equal ▸ hx)
  have image : {c : Set β | ∃ x ∈ groups.flatten, c = {y | r x y}} = ((groups.map classOf).toFinset : Set (Set β)) := by
    ext c
    rw [List.coe_toFinset, Set.mem_ofPred_eq, Set.mem_ofPred_eq, List.mem_map]
    constructor
    · rintro ⟨x, member, rfl⟩
      obtain ⟨group, member, hx⟩ := List.mem_flatten.mp member
      exact ⟨group, member, same group member x hx⟩
    · rintro ⟨group, member, rfl⟩
      obtain ⟨x, hx⟩ := List.exists_mem_of_ne_nil _ (nonempty group member)
      exact ⟨x, inside member hx, same group member x hx⟩
  rw [image, Set.ncard_coe_finset, List.toFinset_card_of_nodup distinct, List.length_map]

end Stars

end LasecSimul.Lib.Components
