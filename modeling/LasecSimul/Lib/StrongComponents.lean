import Mathlib.Data.Finset.Card
import Mathlib.Data.Fintype.Basic
import Mathlib.Data.List.Sort
import Mathlib.Logic.Relation

/-!
# Strongly connected components by depth-first search

`components` is the algorithm with discovery numbers, low links and one stack. A vertex goes on the
stack when it is discovered; the vertices above the root of a component leave the stack together. The
components are the classes of mutual reachability.
-/

namespace LasecSimul.Lib.StrongComponents

open Relation

set_option linter.unusedSectionVars false

variable {V : Type*} [LinearOrder V] (edges : V → List V)

structure Search (V : Type*) where
  discovery : V → Option Nat
  low : V → Nat
  stack : List V
  components : List (List V)
  cursor : Nat

namespace Search

def empty : Search V := ⟨fun _ => none, fun _ => 0, [], [], 0⟩

def enter (s : Search V) (node : V) : Search V where
  discovery := Function.update s.discovery node (some s.cursor)
  low := Function.update s.low node s.cursor
  stack := node :: s.stack
  components := s.components
  cursor := s.cursor + 1

def lower (s : Search V) (node : V) (bound : Nat) : Search V :=
  { s with low := Function.update s.low node (min (s.low node) bound) }

/-- The members on top of the stack, down to `node`, become a component. -/
def emit (s : Search V) (node : V) : Search V :=
  { s with
    stack := (s.stack.dropWhile (· ≠ node)).tail
    components := s.components ++ [(s.stack.takeWhile (· ≠ node) ++ [node]).insertionSort (· ≤ ·)] }

def finish (s : Search V) (node : V) : Search V :=
  if s.discovery node = some (s.low node) then s.emit node else s

end Search

/-- One edge of `node`, with the visit of an undiscovered target as a parameter. -/
def follow (visit : V → Search V → Search V) (node : V) (s : Search V) (next : V) : Search V :=
  match s.discovery next with
  | none => (visit next s).lower node ((visit next s).low next)
  | some index => if next ∈ s.stack then s.lower node index else s

def visit : Nat → V → Search V → Search V
  | 0, _, s => s
  | fuel + 1, node, s => ((edges node).foldl (follow (visit fuel) node) (s.enter node)).finish node

def discover (fuel : Nat) (s : Search V) (v : V) : Search V :=
  if (s.discovery v).isNone then visit edges fuel v s else s

/-- The search from every vertex that no earlier search discovered. -/
def search (vertices : List V) : Search V := vertices.foldl (discover edges vertices.length) .empty

def frontLe (a b : List V) : Bool :=
  match a.head?, b.head? with
  | some x, some y => x ≤ y
  | _, _ => true

/-- The components, each ascending, in the order of their first members. -/
def components (vertices : List V) : List (List V) :=
  (search edges vertices).components.insertionSort fun a b => frontLe a b

/-! ### The search between two steps -/

def Reach : V → V → Prop := ReflTransGen fun a b => b ∈ edges a

/-- Each reaches the other. -/
def Mutual (a b : V) : Prop := Reach edges a b ∧ Reach edges b a

namespace Search

def index (s : Search V) (v : V) : Nat := (s.discovery v).getD 0

def emitted (s : Search V) : List V := s.components.flatten

end Search

variable {edges} {s t : Search V} {gray : List V} {node next v w : V}

theorem Reach.edge (h : w ∈ edges v) : Reach edges v w := .single h

/-- What holds while the vertices in `gray` are being visited. -/
structure Inv (edges : V → List V) (gray : List V) (s : Search V) : Prop where
  found : ∀ v, (s.discovery v).isSome ↔ v ∈ s.stack ∨ v ∈ s.emitted
  counted : ∀ v index, s.discovery v = some index → index < s.cursor
  ordered : s.stack.Pairwise fun a b => s.index b < s.index a
  apart : ∀ v ∈ s.stack, v ∉ s.emitted
  distinct : s.emitted.Nodup
  classes : ∀ c ∈ s.components, c ≠ [] ∧ c.Pairwise (· ≤ ·) ∧ ∀ v ∈ c, ∀ w, w ∈ c ↔ Mutual edges v w
  closed : ∀ v ∈ s.emitted, ∀ w ∈ edges v, w ∈ s.emitted
  visiting : ∀ v ∈ gray, v ∈ s.stack
  left : ∀ v, (s.discovery v).isSome → v ∉ gray → ∀ w ∈ edges v, (s.discovery w).isSome
  returns : ∀ v ∈ s.stack, ∃ x ∈ gray, s.index x ≤ s.index v ∧ Reach edges v x
  forward : ∀ v ∈ s.stack, ∀ w ∈ s.stack, s.index v ≤ s.index w → Reach edges v w

theorem inv_empty : Inv edges [] (.empty : Search V) where
  found _ := ⟨nofun, by rintro (h | h) <;> cases h⟩
  counted := nofun
  ordered := .nil
  apart := nofun
  distinct := .nil
  classes := nofun
  closed := nofun
  visiting := nofun
  left := nofun
  returns := nofun
  forward := nofun

/-- `t` comes after `s`: what was discovered keeps its number and its low link. -/
structure After (s t : Search V) : Prop where
  discovery : ∀ v, (s.discovery v).isSome → t.discovery v = s.discovery v
  low : ∀ v, (s.discovery v).isSome → t.low v = s.low v
  cursor : s.cursor ≤ t.cursor

theorem After.refl (s : Search V) : After s s := ⟨fun _ _ => rfl, fun _ _ => rfl, le_rfl⟩

theorem After.isSome (h : After s t) (v : V) (found : (s.discovery v).isSome) :
    (t.discovery v).isSome := by
  rw [h.discovery v found]
  exact found

theorem After.index (h : After s t) (found : (s.discovery v).isSome) : t.index v = s.index v := by
  rw [Search.index, Search.index, h.discovery v found]

theorem After.trans {u : Search V} (h : After s t) (h' : After t u) : After s u where
  discovery v found := (h'.discovery v (h.isSome v found)).trans (h.discovery v found)
  low v found := (h'.low v (h.isSome v found)).trans (h.low v found)
  cursor := h.cursor.trans h'.cursor

theorem Inv.index_lt (h : Inv edges gray s) (found : (s.discovery v).isSome) : s.index v < s.cursor := by
  obtain ⟨index, eq⟩ := Option.isSome_iff_exists.mp found
  rw [Search.index, eq]
  exact h.counted v index eq

theorem Inv.found_of_stack (h : Inv edges gray s) (member : v ∈ s.stack) : (s.discovery v).isSome :=
  (h.found v).mpr (Or.inl member)

/-- What the visit of `node` from `s` adds to the stack stays above it, and `node` ends with a low link
that no edge from the added vertices to the old stack undercuts. -/
structure Visited (edges : V → List V) (node : V) (s t : Search V) : Prop where
  after : After s t
  discovered : (t.discovery node).isSome
  grown : ∃ more, t.stack = more ++ s.stack ∧ (∀ v ∈ more, s.discovery v = none) ∧
    ∀ v ∈ more, ∀ w ∈ s.stack, w ∈ edges v → t.low node ≤ t.index w
  link : s.cursor ≤ t.low node ∨ ∃ y ∈ s.stack, t.low node = t.index y ∧ Reach edges node y

/-- The scan of the edges of `node`, which was entered in `s`, has come past `seen`. -/
structure Scanning (edges : V → List V) (gray : List V) (node : V) (s : Search V) (seen : List V)
    (t : Search V) : Prop where
  inv : Inv edges (node :: gray) t
  after : After s t
  entered : t.discovery node = some s.cursor
  grown : ∃ more, t.stack = more ++ node :: s.stack ∧ (∀ v ∈ more, s.discovery v = none) ∧
    ∀ v ∈ more, ∀ w ∈ s.stack, w ∈ edges v → t.low node ≤ t.index w
  seenFound : ∀ w ∈ seen, (t.discovery w).isSome
  seenLink : ∀ w ∈ seen, w ∈ s.stack → t.low node ≤ t.index w
  bound : t.low node ≤ s.cursor
  link : ∃ y ∈ t.stack, t.low node = t.index y ∧ Reach edges node y

theorem scanning_enter (h : Inv edges gray s) (white : s.discovery node = none)
    (reaches : ∀ x ∈ gray, Reach edges x node) : Scanning edges gray node s [] (s.enter node) := by
  have other : ∀ {v}, (s.discovery v).isSome → v ≠ node := by
    rintro v found rfl
    rw [white] at found
    cases found
  have kept : ∀ {v}, v ≠ node → (s.enter node).discovery v = s.discovery v := fun ne =>
    Function.update_of_ne ne _ _
  have entered : (s.enter node).discovery node = some s.cursor := Function.update_self _ _ _
  have keptIndex : ∀ {v}, v ∈ s.stack → (s.enter node).index v = s.index v := by
    intro v member
    rw [Search.index, Search.index, kept (other (h.found_of_stack member))]
  have ownIndex : (s.enter node).index node = s.cursor := by rw [Search.index, entered]; rfl
  have newest : ∀ {v}, v ∈ s.stack → (s.enter node).index v < s.cursor := by
    intro v member
    rw [keptIndex member]
    exact h.index_lt (h.found_of_stack member)
  have toNode : ∀ v ∈ s.stack, Reach edges v node := by
    intro v member
    obtain ⟨x, inGray, _, reach⟩ := h.returns v member
    exact reach.trans (reaches x inGray)
  have after : After s (s.enter node) :=
    ⟨fun v found => kept (other found), fun v found => Function.update_of_ne (other found) _ _,
      Nat.le_succ _⟩
  have ownLow : (s.enter node).low node = s.cursor := Function.update_self _ _ _
  refine ⟨⟨?_, ?_, ?_, ?_, h.distinct, h.classes, h.closed, ?_, ?_, ?_, ?_⟩, after, entered,
    ⟨[], rfl, nofun, nofun⟩, nofun, nofun, ownLow.le,
    ⟨node, List.mem_cons_self, ownLow.trans ownIndex.symm, .refl⟩⟩
  · intro v
    by_cases same : v = node
    · subst same
      rw [entered]
      exact iff_of_true rfl (Or.inl List.mem_cons_self)
    · rw [kept same, h.found]
      show _ ↔ v ∈ node :: s.stack ∨ _
      rw [List.mem_cons, or_iff_right same]
      exact Iff.rfl
  · intro v index eq
    by_cases same : v = node
    · subst same
      rw [entered] at eq
      exact Option.some.inj eq ▸ Nat.lt_succ_self _
    · rw [kept same] at eq
      exact Nat.lt_succ_of_lt (h.counted v index eq)
  · show (node :: s.stack).Pairwise _
    refine List.pairwise_cons.mpr ⟨fun v member => ?_, h.ordered.imp_of_mem ?_⟩
    · rw [ownIndex]
      exact newest member
    · intro a b inA inB lt
      rw [keptIndex inA, keptIndex inB]
      exact lt
  · intro v member emitted
    rcases List.mem_cons.mp member with rfl | old
    · have found := (h.found v).mpr (Or.inr emitted)
      rw [white] at found
      cases found
    · exact h.apart v old emitted
  · intro v member
    rcases List.mem_cons.mp member with rfl | old
    · exact List.mem_cons_self
    · exact List.mem_cons_of_mem _ (h.visiting v old)
  · intro v found notGray w edge
    rw [List.mem_cons, not_or] at notGray
    rw [kept notGray.1] at found
    exact after.isSome w (h.left v found notGray.2 w edge)
  · intro v member
    rcases List.mem_cons.mp member with rfl | old
    · exact ⟨v, List.mem_cons_self, le_rfl, .refl⟩
    · obtain ⟨x, inGray, le, reach⟩ := h.returns v old
      refine ⟨x, List.mem_cons_of_mem _ inGray, ?_, reach⟩
      rw [keptIndex old, keptIndex (h.visiting x inGray)]
      exact le
  · intro v inV w inW le
    rcases List.mem_cons.mp inW with rfl | oldW
    · rcases List.mem_cons.mp inV with rfl | oldV
      · exact .refl
      · exact toNode v oldV
    · rcases List.mem_cons.mp inV with rfl | oldV
      · rw [ownIndex] at le
        exact absurd (newest oldW) (not_lt.mpr le)
      · rw [keptIndex oldV, keptIndex oldW] at le
        exact h.forward v oldV w oldW le

/-- Lowering the link of the vertex being visited to the number of a vertex it reaches. -/
theorem scanning_lower (more : List V) {seen : List V} {bound : Nat} (white : s.discovery node = none)
    (inv : Inv edges (node :: gray) t) (after : After s t) (entered : t.discovery node = some s.cursor)
    (stack : t.stack = more ++ node :: s.stack) (fresh : ∀ v ∈ more, s.discovery v = none)
    (edgesUp : ∀ v ∈ more, ∀ w ∈ s.stack, w ∈ edges v → min (t.low node) bound ≤ t.index w)
    (seenFound : ∀ w ∈ seen, (t.discovery w).isSome)
    (seenLink : ∀ w ∈ seen, w ∈ s.stack → min (t.low node) bound ≤ t.index w)
    (le : t.low node ≤ s.cursor) (link : ∃ y ∈ t.stack, t.low node = t.index y ∧ Reach edges node y)
    (link' : s.cursor < bound ∨ ∃ y ∈ t.stack, bound = t.index y ∧ Reach edges node y) :
    Scanning edges gray node s seen (t.lower node bound) := by
  have lowered : (t.lower node bound).low node = min (t.low node) bound := Function.update_self _ _ _
  refine ⟨⟨inv.found, inv.counted, inv.ordered, inv.apart, inv.distinct, inv.classes, inv.closed,
    inv.visiting, inv.left, inv.returns, inv.forward⟩, ⟨after.discovery, fun v found => ?_, after.cursor⟩,
    entered, ⟨more, stack, fresh, fun v inMore w old edge => ?_⟩, seenFound, fun w inSeen old => ?_, ?_, ?_⟩
  · have ne : v ≠ node := by
      rintro rfl
      rw [white] at found
      cases found
    exact (Function.update_of_ne ne _ _).trans (after.low v found)
  · rw [lowered]
    exact edgesUp v inMore w old edge
  · rw [lowered]
    exact seenLink w inSeen old
  · rw [lowered]
    exact (min_le_left _ _).trans le
  · rw [lowered]
    rcases le_total (t.low node) bound with below | below
    · rw [min_eq_left below]
      exact link
    · rw [min_eq_right below]
      exact link'.resolve_left fun above => absurd (above.trans_le below) (not_lt.mpr le)

/-- An edge to an undiscovered target, after the visit of the target. -/
theorem Scanning.visited {seen : List V} {u : Search V} (h : Scanning edges gray node s seen t)
    (white : s.discovery node = none) (edge : next ∈ edges node) (unseen : t.discovery next = none)
    (inv : Inv edges (node :: gray) u) (visited : Visited edges next t u) :
    Scanning edges gray node s (seen ++ [next]) (u.lower node (u.low next)) := by
  have nodeFound : (t.discovery node).isSome := by rw [h.entered]; rfl
  have lowNode : u.low node = t.low node := visited.after.low node nodeFound
  obtain ⟨more, stack, fresh, edgesUp⟩ := h.grown
  obtain ⟨above, stack', fresh', edgesUp'⟩ := visited.grown
  have oldOnStack : ∀ {w}, w ∈ s.stack → w ∈ t.stack := by
    intro w old
    rw [stack]
    exact List.mem_append_right _ (List.mem_cons_of_mem _ old)
  have sameIndex : ∀ {w}, w ∈ t.stack → u.index w = t.index w := fun member =>
    visited.after.index (h.inv.found_of_stack member)
  have kept : ∀ {y}, y ∈ t.stack → y ∈ u.stack := by
    intro y member
    rw [stack']
    exact List.mem_append_right _ member
  have after : After s u := h.after.trans visited.after
  refine scanning_lower (above ++ more) white inv after
    ((visited.after.discovery node nodeFound).trans h.entered) ?_ (fun v member => ?_) (fun v member w old edge => ?_)
    (fun w inSeen => ?_)
    (fun w inSeen old => ?_) (lowNode ▸ h.bound) ?_ ?_
  · rw [stack', stack, List.append_assoc]
  · rcases List.mem_append.mp member with new | old
    · by_contra found
      have found : (s.discovery v).isSome := Option.isSome_iff_ne_none.mpr found
      have gone := h.after.isSome v found
      rw [fresh' v new] at gone
      cases gone
    · exact fresh v old
  · rcases List.mem_append.mp member with new | earlier
    · exact (min_le_right _ _).trans (edgesUp' v new w (oldOnStack old) edge)
    · rw [lowNode, sameIndex (oldOnStack old)]
      exact (min_le_left _ _).trans (edgesUp v earlier w old edge)
  · rcases List.mem_append.mp inSeen with before | last
    · exact visited.after.isSome w (h.seenFound w before)
    · exact List.mem_singleton.mp last ▸ visited.discovered
  · rcases List.mem_append.mp inSeen with before | last
    · rw [lowNode, sameIndex (oldOnStack old)]
      exact (min_le_left _ _).trans (h.seenLink w before old)
    · obtain rfl := List.mem_singleton.mp last
      have found := h.inv.found_of_stack (oldOnStack old)
      rw [unseen] at found
      cases found
  · obtain ⟨y, member, eq, reach⟩ := h.link
    exact ⟨y, kept member, by rw [lowNode, sameIndex member]; exact eq, reach⟩
  · rcases visited.link with high | ⟨y, member, eq, reach⟩
    · exact Or.inl ((h.inv.counted node _ h.entered).trans_le high)
    · exact Or.inr ⟨y, kept member, eq, (Reach.edge edge).trans reach⟩

/-- An edge to a target on the stack. -/
theorem Scanning.onStack {seen : List V} {index : Nat} (h : Scanning edges gray node s seen t)
    (white : s.discovery node = none) (edge : next ∈ edges node) (found : t.discovery next = some index)
    (member : next ∈ t.stack) : Scanning edges gray node s (seen ++ [next]) (t.lower node index) := by
  have nextIndex : t.index next = index := by rw [Search.index, found]; rfl
  obtain ⟨more, stack, fresh, edgesUp⟩ := h.grown
  refine scanning_lower more white h.inv h.after h.entered stack fresh
    (fun v inMore w old edge => (min_le_left _ _).trans (edgesUp v inMore w old edge)) (fun w inSeen => ?_)
    (fun w inSeen old => ?_) h.bound h.link (Or.inr ⟨next, member, nextIndex.symm, Reach.edge edge⟩)
  · rcases List.mem_append.mp inSeen with before | last
    · exact h.seenFound w before
    · rw [List.mem_singleton.mp last, found]
      rfl
  · rcases List.mem_append.mp inSeen with before | last
    · exact (min_le_left _ _).trans (h.seenLink w before old)
    · obtain rfl := List.mem_singleton.mp last
      exact (min_le_right _ _).trans nextIndex.ge

/-- An edge to a component that is already emitted. -/
theorem Scanning.offStack {seen : List V} (h : Scanning edges gray node s seen t)
    (found : (t.discovery next).isSome) (off : next ∉ t.stack) :
    Scanning edges gray node s (seen ++ [next]) t := by
  refine ⟨h.inv, h.after, h.entered, h.grown, fun w inSeen => ?_, fun w inSeen old => ?_, h.bound, h.link⟩
  · rcases List.mem_append.mp inSeen with before | last
    · exact h.seenFound w before
    · exact List.mem_singleton.mp last ▸ found
  · rcases List.mem_append.mp inSeen with before | last
    · exact h.seenLink w before old
    · obtain rfl := List.mem_singleton.mp last
      obtain ⟨more, stack, _⟩ := h.grown
      rw [stack] at off
      exact absurd (List.mem_append_right _ (List.mem_cons_of_mem _ old)) off

theorem Scanning.ownIndex {seen : List V} (h : Scanning edges gray node s seen t) : t.index node = s.cursor := by
  rw [Search.index, h.entered]
  rfl

/-- The vertices above `node` on the stack have higher numbers, those below it lower ones. -/
theorem Scanning.index_old {seen : List V} (h : Scanning edges gray node s seen t) (start : Inv edges gray s)
    (old : w ∈ s.stack) : t.index w < s.cursor := by
  rw [h.after.index (start.found_of_stack old)]
  exact start.index_lt (start.found_of_stack old)

theorem Scanning.index_more {seen more : List V} (h : Scanning edges gray node s seen t)
    (stack : t.stack = more ++ node :: s.stack) (member : v ∈ more) : s.cursor < t.index v := by
  have ordered := h.inv.ordered
  rw [stack, List.pairwise_append] at ordered
  have above := ordered.2.2 v member node List.mem_cons_self
  rw [h.ownIndex] at above
  exact above

theorem Scanning.gray_of_le {seen : List V} {x : V} (h : Scanning edges gray node s seen t)
    (inGray : x ∈ node :: gray) (le : t.index x ≤ t.index v) (below : t.index v < s.cursor) : x ∈ gray := by
  rcases List.mem_cons.mp inGray with rfl | old
  · rw [h.ownIndex] at le
    exact absurd (le.trans_lt below) (lt_irrefl _)
  · exact old

/-- The edges of `node` are scanned: it may turn black. -/
theorem Scanning.left (h : Scanning edges gray node s (edges node) t) (v : V) (found : (t.discovery v).isSome)
    (notGray : v ∉ gray) (w : V) (edge : w ∈ edges v) : (t.discovery w).isSome := by
  by_cases same : v = node
  · subst same
    exact h.seenFound w edge
  · exact h.inv.left v found (by rw [List.mem_cons, not_or]; exact ⟨same, notGray⟩) w edge

/-- A link below the own number: the vertex stays on the stack and is left. -/
theorem Scanning.leave (h : Scanning edges gray node s (edges node) t)
    (white : s.discovery node = none) (low : t.low node ≠ s.cursor) : Inv edges gray t ∧ Visited edges node s t := by
  have below : t.low node < s.cursor := lt_of_le_of_ne h.bound low
  obtain ⟨more, stack, fresh, edgesUp⟩ := h.grown
  obtain ⟨y, member, eq, reach⟩ := h.link
  have oldY : y ∈ s.stack := by
    rw [stack, List.mem_append, List.mem_cons] at member
    rcases member with new | rfl | old
    · have := h.index_more stack new
      omega
    · rw [h.ownIndex] at eq
      exact absurd eq low
    · exact old
  refine ⟨⟨h.inv.found, h.inv.counted, h.inv.ordered, h.inv.apart, h.inv.distinct, h.inv.classes,
    h.inv.closed, fun v inGray => h.inv.visiting v (List.mem_cons_of_mem _ inGray), ?_, ?_, h.inv.forward⟩,
    h.after, by rw [h.entered]; rfl, ⟨more ++ [node], ?_, ?_, ?_⟩, Or.inr ⟨y, oldY, eq, reach⟩⟩
  · exact h.left
  · intro v inStack
    obtain ⟨x, inGray, le, reachX⟩ := h.inv.returns v inStack
    rcases List.mem_cons.mp inGray with rfl | old
    · obtain ⟨z, inGray', le', reachZ⟩ := h.inv.returns y member
      have lower : t.index y < s.cursor := eq ▸ below
      refine ⟨z, h.gray_of_le inGray' le' lower, ?_, (reachX.trans reach).trans reachZ⟩
      rw [h.ownIndex] at le
      omega
    · exact ⟨x, old, le, reachX⟩
  · rw [stack, List.append_assoc]
    rfl
  · intro v inMore
    rcases List.mem_append.mp inMore with new | last
    · exact fresh v new
    · exact List.mem_singleton.mp last ▸ white
  · intro v inMore w old edge
    rcases List.mem_append.mp inMore with new | last
    · exact edgesUp v new w old edge
    · obtain rfl := List.mem_singleton.mp last
      exact h.seenLink w edge old

theorem Reach.of_closed {P : V → Prop} (closed : ∀ v, P v → ∀ w ∈ edges v, P w) (reach : Reach edges v w)
    (inside : P v) : P w := by
  induction reach with
  | refl => exact inside
  | tail _ edge ih => exact closed _ ih _ edge

/-- The link is the own number: `node` and what is above it are a component, which edges leave only
towards emitted components. -/
theorem Scanning.component {more : List V} (h : Scanning edges gray node s (edges node) t)
    (start : Inv edges gray s) (white : s.discovery node = none) (low : t.low node = s.cursor)
    (stack : t.stack = more ++ node :: s.stack) (fresh : ∀ v ∈ more, s.discovery v = none)
    (edgesUp : ∀ v ∈ more, ∀ w ∈ s.stack, w ∈ edges v → t.low node ≤ t.index w) :
    (∀ v ∈ more ++ [node], ∀ w ∈ edges v, w ∈ more ++ [node] ∨ w ∈ t.emitted) ∧
      ∀ v ∈ more ++ [node], ∀ w, w ∈ more ++ [node] ↔ Mutual edges v w := by
  have split : ∀ v, v ∈ t.stack ↔ v ∈ more ++ [node] ∨ v ∈ s.stack := by
    intro v
    rw [stack, List.mem_append, List.mem_cons, List.mem_append, List.mem_singleton, or_assoc]
  have unseen : ∀ v ∈ more ++ [node], s.discovery v = none := by
    intro v member
    rcases List.mem_append.mp member with new | last
    · exact fresh v new
    · exact List.mem_singleton.mp last ▸ white
  have notOld : ∀ v ∈ more ++ [node], v ∉ s.stack := by
    intro v member old
    have found := start.found_of_stack old
    rw [unseen v member] at found
    cases found
  have onStack : ∀ v ∈ more ++ [node], v ∈ t.stack := fun v member => (split v).mpr (Or.inl member)
  have closed : ∀ v ∈ more ++ [node], ∀ w ∈ edges v, w ∈ more ++ [node] ∨ w ∈ t.emitted := by
    intro v member w edge
    have notGray : v ∉ gray := fun inGray => notOld v member (start.visiting v inGray)
    have found := h.left v (h.inv.found_of_stack (onStack v member)) notGray w edge
    rcases (h.inv.found w).mp found with inStack | emitted
    · rcases (split w).mp inStack with new | old
      · exact Or.inl new
      · have lt := h.index_old start old
        have up : t.low node ≤ t.index w := by
          rcases List.mem_append.mp member with new | last
          · exact edgesUp v new w old edge
          · exact h.seenLink w (List.mem_singleton.mp last ▸ edge) old
        omega
    · exact Or.inr emitted
  have inside : ∀ {v w}, v ∈ more ++ [node] → Reach edges v w → w ∈ more ++ [node] ∨ w ∈ t.emitted := by
    intro v w member reach
    refine reach.of_closed (P := fun u => u ∈ more ++ [node] ∨ u ∈ t.emitted) ?_ (Or.inl member)
    rintro u (new | emitted) w edge
    · exact closed u new w edge
    · exact Or.inr (h.inv.closed u emitted w edge)
  have nodeIn : node ∈ more ++ [node] := List.mem_append_right _ (List.mem_singleton_self _)
  have fromNode : ∀ v ∈ more ++ [node], Reach edges node v := by
    intro v member
    refine h.inv.forward node (onStack node nodeIn) v (onStack v member) ?_
    rcases List.mem_append.mp member with new | last
    · exact h.ownIndex.le.trans (h.index_more stack new).le
    · rw [List.mem_singleton.mp last]
  have toNode : ∀ v ∈ more ++ [node], Reach edges v node := by
    intro v member
    obtain ⟨x, inGray, _, reach⟩ := h.inv.returns v (onStack v member)
    have stacked := h.inv.visiting x inGray
    rcases inside member reach with new | emitted
    · rcases List.mem_cons.mp inGray with rfl | old
      · exact reach
      · exact absurd (start.visiting x old) (notOld x new)
    · exact absurd emitted (h.inv.apart x stacked)
  refine ⟨closed, fun v member w => ⟨fun member' => ?_, fun both => ?_⟩⟩
  · exact ⟨(toNode v member).trans (fromNode w member'), (toNode w member').trans (fromNode v member)⟩
  · rcases inside member both.1 with new | emitted
    · exact new
    · have back : v ∈ t.emitted := both.2.of_closed (P := (· ∈ t.emitted)) h.inv.closed emitted
      exact absurd back (h.inv.apart v (onStack v member))

theorem emit_spec {more below : List V} (stack : t.stack = more ++ node :: below) (notIn : node ∉ more) :
    (t.emit node).stack = below ∧
      (t.emit node).components = t.components ++ [(more ++ [node]).insertionSort (· ≤ ·)] := by
  have before : ∀ v ∈ more, decide (v ≠ node) = true := fun v member =>
    decide_eq_true fun same => notIn (same ▸ member)
  constructor
  · show (t.stack.dropWhile _).tail = below
    rw [stack, List.dropWhile_append_of_pos before, List.dropWhile_cons_of_neg (by simp), List.tail_cons]
  · show t.components ++ [(t.stack.takeWhile _ ++ [node]).insertionSort _] = _
    rw [stack, List.takeWhile_append_of_pos before, List.takeWhile_cons_of_neg (by simp), List.append_nil]

theorem Scanning.emit (h : Scanning edges gray node s (edges node) t) (start : Inv edges gray s)
    (white : s.discovery node = none) (low : t.low node = s.cursor) :
    Inv edges gray (t.emit node) ∧ Visited edges node s (t.emit node) := by
  obtain ⟨more, stack, fresh, edgesUp⟩ := h.grown
  obtain ⟨closed, isClass⟩ := h.component start white low stack fresh edgesUp
  have notIn : node ∉ more := fun member =>
    absurd (h.index_more stack member) (by rw [h.ownIndex]; exact lt_irrefl _)
  obtain ⟨below, emitted⟩ := emit_spec stack notIn
  have sorted := List.perm_insertionSort (· ≤ ·) (more ++ [node])
  have inComponent : ∀ v, v ∈ (more ++ [node]).insertionSort (· ≤ ·) ↔ v ∈ more ++ [node] := fun v =>
    sorted.mem_iff
  have gone : ∀ v, v ∈ (t.emit node).emitted ↔ v ∈ t.emitted ∨ v ∈ more ++ [node] := by
    intro v
    rw [Search.emitted, emitted, List.flatten_append, List.mem_append, List.flatten_singleton, inComponent]
    rfl
  have split : ∀ v, v ∈ t.stack ↔ v ∈ more ++ [node] ∨ v ∈ s.stack := by
    intro v
    rw [stack, List.mem_append, List.mem_cons, List.mem_append, List.mem_singleton, or_assoc]
  have oldOnStack : ∀ {v}, v ∈ s.stack → v ∈ t.stack := fun old => (split _).mpr (Or.inr old)
  have nodup : t.stack.Nodup := h.inv.ordered.imp fun lt same => by
    rw [same] at lt
    exact lt_irrefl _ lt
  have parts : (more ++ [node]).Nodup ∧ ∀ v ∈ more ++ [node], v ∉ s.stack := by
    rw [stack, ← List.singleton_append, ← List.append_assoc, List.nodup_append] at nodup
    exact ⟨nodup.1, fun v member old => nodup.2.2 v member v old rfl⟩
  refine ⟨⟨?_, h.inv.counted, ?_, ?_, ?_, ?_, ?_, ?_, h.left, ?_, ?_⟩,
    ⟨h.after.discovery, h.after.low, h.after.cursor⟩, ?_, ⟨[], below, nofun, nofun⟩, Or.inl low.ge⟩
  · intro v
    show (t.discovery v).isSome ↔ _
    rw [h.inv.found, split, gone, below]
    tauto
  · have ordered := h.inv.ordered
    rw [stack, List.pairwise_append, List.pairwise_cons] at ordered
    rw [below]
    exact ordered.2.1.2
  · intro v old
    rw [below] at old
    rw [gone, not_or]
    exact ⟨h.inv.apart v (oldOnStack old), fun member => parts.2 v member old⟩
  · rw [Search.emitted, emitted, List.flatten_append, List.flatten_singleton, List.nodup_append]
    refine ⟨h.inv.distinct, sorted.nodup_iff.mpr parts.1, fun v before w member same => ?_⟩
    subst same
    exact h.inv.apart v ((split v).mpr (Or.inl ((inComponent v).mp member))) before
  · intro c member
    rw [emitted] at member
    rcases List.mem_append.mp member with old | last
    · exact h.inv.classes c old
    · obtain rfl := List.mem_singleton.mp last
      refine ⟨fun none => ?_, List.pairwise_insertionSort _ _, fun v member w => ?_⟩
      · have nodeIn := (inComponent node).mpr (List.mem_append_right _ (List.mem_singleton_self _))
        rw [none] at nodeIn
        cases nodeIn
      · rw [inComponent] at member ⊢
        exact isClass v member w
  · intro v member w edge
    rw [gone] at member ⊢
    rcases member with old | new
    · exact Or.inl (h.inv.closed v old w edge)
    · exact (closed v new w edge).symm
  · intro v inGray
    rw [below]
    exact start.visiting v inGray
  · intro v old
    rw [below] at old
    obtain ⟨x, inGray, le, reach⟩ := h.inv.returns v (oldOnStack old)
    exact ⟨x, h.gray_of_le inGray le (h.index_old start old), le, reach⟩
  · intro v old w old' le
    rw [below] at old old'
    exact h.inv.forward v (oldOnStack old) w (oldOnStack old') le
  · show (t.discovery node).isSome
    rw [h.entered]
    rfl

section
variable [Fintype V]

/-- The vertices still to be discovered. -/
def Search.white (s : Search V) : Finset V := Finset.univ.filter fun v => s.discovery v = none

theorem After.white (h : After s t) : t.white ⊆ s.white := by
  intro v member
  rw [Search.white, Finset.mem_filter] at member ⊢
  refine ⟨member.1, ?_⟩
  by_contra found
  have gone := h.isSome v (Option.isSome_iff_ne_none.mpr found)
  rw [member.2] at gone
  cases gone

theorem white_enter (white : s.discovery node = none) : (s.enter node).white.card < s.white.card := by
  refine Finset.card_lt_card (Finset.ssubset_iff_of_subset ?_ |>.mpr ⟨node, ?_, ?_⟩)
  · intro v member
    rw [Search.white, Finset.mem_filter] at member ⊢
    refine ⟨member.1, ?_⟩
    by_cases same : v = node
    · exact same ▸ white
    · rw [← member.2]
      exact (Function.update_of_ne same _ _).symm
  · exact Finset.mem_filter.mpr ⟨Finset.mem_univ _, white⟩
  · intro member
    have gone := (Finset.mem_filter.mp member).2
    rw [show (s.enter node).discovery node = some s.cursor from Function.update_self _ _ _] at gone
    cases gone

/-- The visit of an undiscovered vertex that every vertex being visited reaches. -/
theorem visit_spec (fuel : Nat) (enough : s.white.card ≤ fuel) (h : Inv edges gray s)
    (white : s.discovery node = none) (reaches : ∀ x ∈ gray, Reach edges x node) :
    Inv edges gray (visit edges fuel node s) ∧ Visited edges node s (visit edges fuel node s) := by
  induction fuel generalizing s gray node with
  | zero =>
    have member : node ∈ s.white := Finset.mem_filter.mpr ⟨Finset.mem_univ _, white⟩
    rw [Nat.le_zero, Finset.card_eq_zero] at enough
    rw [enough] at member
    cases member
  | succ fuel ih =>
    have scan : ∀ seen rest t, seen ++ rest = edges node → Scanning edges gray node s seen t →
        t.white.card ≤ fuel → Scanning edges gray node s (edges node)
          (rest.foldl (follow (visit edges fuel) node) t) := by
      intro seen rest
      induction rest generalizing seen with
      | nil =>
        intro t whole scanning _
        rw [List.append_nil] at whole
        exact whole ▸ scanning
      | cons next rest ih' =>
        intro t whole scanning few
        have edge : next ∈ edges node := by
          rw [← whole]
          exact List.mem_append_right _ List.mem_cons_self
        have whole' : (seen ++ [next]) ++ rest = edges node := by rw [← whole, List.append_assoc]; rfl
        have followed : Scanning edges gray node s (seen ++ [next]) (follow (visit edges fuel) node t next) ∧
            (follow (visit edges fuel) node t next).white.card ≤ fuel := by
          unfold follow
          cases found : t.discovery next with
          | none =>
            have reachesNext : ∀ x ∈ node :: gray, Reach edges x next := by
              intro x inGray
              rcases List.mem_cons.mp inGray with rfl | old
              · exact Reach.edge edge
              · exact (reaches x old).trans (Reach.edge edge)
            obtain ⟨inv, visited⟩ := ih few scanning.inv found reachesNext
            have fewer := (Finset.card_le_card visited.after.white).trans few
            exact ⟨scanning.visited white edge found inv visited, fewer⟩
          | some index =>
            by_cases member : next ∈ t.stack
            · simp only [if_pos member]
              exact ⟨scanning.onStack white edge found member, few⟩
            · simp only [if_neg member]
              exact ⟨scanning.offStack (by rw [found]; rfl) member, few⟩
        exact ih' _ _ whole' followed.1 followed.2
    have scanned := scan [] (edges node) _ rfl (scanning_enter h white reaches)
      (Nat.le_of_lt_succ ((white_enter white).trans_le enough))
    unfold visit
    generalize (edges node).foldl (follow (visit edges fuel) node) (s.enter node) = t at scanned
    unfold Search.finish
    rw [scanned.entered]
    by_cases own : t.low node = s.cursor
    · rw [if_pos (by rw [own])]
      exact scanned.emit h white own
    · rw [if_neg fun same => own (Option.some.inj same).symm]
      exact scanned.leave white own

/-- The search discovers every listed vertex and ends with an empty stack. -/
theorem search_spec (edges : V → List V) {vertices : List V} (all : ∀ v, v ∈ vertices) :
    Inv edges [] (search edges vertices) ∧ (search edges vertices).stack = [] ∧
      ∀ v, ((search edges vertices).discovery v).isSome := by
  have empties : ∀ {u : Search V}, Inv edges [] u → u.stack = [] := by
    intro u inv
    rw [List.eq_nil_iff_forall_not_mem]
    intro v member
    obtain ⟨x, inGray, _⟩ := inv.returns v member
    cases inGray
  have enough : ∀ u : Search V, u.white.card ≤ vertices.length := by
    intro u
    have whole : Finset.univ ⊆ vertices.toFinset := fun v _ => List.mem_toFinset.mpr (all v)
    exact (Finset.card_le_card (Finset.filter_subset _ _)).trans
      ((Finset.card_le_card whole).trans (List.toFinset_card_le _))
  have step : ∀ (u : Search V) (v : V), Inv edges [] u → Inv edges [] (discover edges vertices.length u v) ∧
      After u (discover edges vertices.length u v) ∧
        ((discover edges vertices.length u v).discovery v).isSome := by
    intro u v inv
    unfold discover
    cases found : u.discovery v with
    | none =>
      obtain ⟨inv', visited⟩ := visit_spec vertices.length (enough u) inv found nofun
      exact ⟨inv', visited.after, visited.discovered⟩
    | some index => exact ⟨inv, .refl u, by rw [if_neg (by simp), found]; rfl⟩
  have along : ∀ (rest : List V) (u : Search V), Inv edges [] u →
      Inv edges [] (rest.foldl (discover edges vertices.length) u) ∧
        After u (rest.foldl (discover edges vertices.length) u) ∧
          ∀ v ∈ rest, ((rest.foldl (discover edges vertices.length) u).discovery v).isSome := by
    intro rest
    induction rest with
    | nil => exact fun u inv => ⟨inv, .refl u, nofun⟩
    | cons first rest ih =>
      intro u inv
      obtain ⟨inv', after, discovered⟩ := step u first inv
      obtain ⟨inv'', after', found⟩ := ih _ inv'
      refine ⟨inv'', after.trans after', fun v member => ?_⟩
      rcases List.mem_cons.mp member with rfl | later
      · exact after'.isSome v discovered
      · exact found v later
  obtain ⟨inv, _, found⟩ := along vertices .empty inv_empty
  exact ⟨inv, empties inv, fun v => found v (all v)⟩

/-- The components are the classes of mutual reachability, each listed once, ascending. -/
theorem components_spec (edges : V → List V) {vertices : List V} (all : ∀ v, v ∈ vertices) :
    (∀ v, ∃ c ∈ components edges vertices, v ∈ c) ∧ (components edges vertices).flatten.Nodup ∧
      ∀ c ∈ components edges vertices, c ≠ [] ∧ c.Pairwise (· ≤ ·) ∧
        ∀ v ∈ c, ∀ w, w ∈ c ↔ Mutual edges v w := by
  obtain ⟨inv, empty, found⟩ := search_spec edges all
  have sorted := List.perm_insertionSort (fun a b => frontLe a b = true) (search edges vertices).components
  refine ⟨fun v => ?_, ?_, fun c member => inv.classes c (sorted.mem_iff.mp member)⟩
  · have listed := (inv.found v).mp (found v)
    rw [empty, or_iff_right List.not_mem_nil] at listed
    obtain ⟨c, member, inC⟩ := List.mem_flatten.mp listed
    exact ⟨c, sorted.mem_iff.mpr member, inC⟩
  · exact (sorted.flatten.nodup_iff).mpr inv.distinct

end

end LasecSimul.Lib.StrongComponents
