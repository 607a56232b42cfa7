import LasecSimul.Lib.Closure
import Mathlib.Data.Fintype.Lattice
import Mathlib.Data.List.FinRange
import Mathlib.Order.Lattice.Nat

/-!
# Disjoint sets (`UnionFind.hpp`)

Path halving, union by rank and the dense renumbering of `compress`. The slots are `Fin n`, so the
range checks of the source cannot fail here; the caller validates a slot to obtain one. Ranks are
unbounded: `uint8_t` would only wrap past `2 ^ 255` slots.
-/

namespace LasecSimul.Wiring

open Lib.Forest Lib.Closure

/-- The parent and rank vectors, with the invariant that ranks grow towards the roots. -/
structure UnionFind (n : Nat) where
  parent : Fin n → Fin n
  rank : Fin n → Nat
  grows : ∀ x, parent x ≠ x → rank x < rank (parent x)

namespace UnionFind

variable {n : Nat}

/-- The constructor: every element is its own root. -/
def init (n : Nat) : UnionFind n where
  parent := id
  rank := fun _ => 0
  grows := fun _ moved => (moved rfl).elim

/-- `m_parent[x] = m_parent[m_parent[x]]`. -/
def halve (u : UnionFind n) (x : Fin n) : UnionFind n where
  parent := Function.update u.parent x (u.parent (u.parent x))
  rank := u.rank
  grows := by
    intro y moved
    by_cases same : y = x
    · subst same
      rw [Function.update_self] at moved ⊢
      have notRoot : u.parent y ≠ y := fun fixed => moved (by rw [fixed, fixed])
      have up := u.grows y notRoot
      by_cases fixed : u.parent (u.parent y) = u.parent y
      · rwa [fixed]
      · exact up.trans (u.grows _ fixed)
    · rw [Function.update_of_ne same] at moved ⊢
      exact u.grows y moved

/-- The loop of `find`. Every turn climbs in rank, so a bound on the ranks is enough fuel. -/
def findLoop : Nat → UnionFind n → Fin n → UnionFind n × Fin n
  | 0, u, x => (u, x)
  | fuel + 1, u, x =>
    if u.parent x = x then (u, x)
    else findLoop fuel (u.halve x) (u.parent (u.parent x))

def find (u : UnionFind n) (x : Fin n) : UnionFind n × Fin n :=
  findLoop (Finset.univ.sup u.rank + 1) u x

/-- `m_parent[b] = a; if (m_rank[a] == m_rank[b]) ++m_rank[a];` for roots ordered by rank. -/
def link (u : UnionFind n) (a b : Fin n) (rootA : u.parent a = a) (rootB : u.parent b = b)
    (ne : a ≠ b) (le : u.rank b ≤ u.rank a) : UnionFind n where
  parent := Function.update u.parent b a
  rank := if u.rank a = u.rank b then Function.update u.rank a (u.rank a + 1) else u.rank
  grows := by
    intro x moved
    by_cases same : x = b
    · subst same
      rw [Function.update_self]
      split
      · rw [Function.update_of_ne ne.symm, Function.update_self]; omega
      · omega
    · rw [Function.update_of_ne same] at moved ⊢
      have up := u.grows x moved
      split
      · have notA : x ≠ a := fun h => moved (h ▸ rootA)
        rw [Function.update_of_ne notA]
        by_cases top : u.parent x = a
        · rw [top, Function.update_self]; rw [top] at up; omega
        · rwa [Function.update_of_ne top]
      · exact up

theorem exists_root (u : UnionFind n) (x : Fin n) : ∃ r, RootOf u.parent x r :=
  exists_rootOf u.rank (Finset.univ.sup u.rank) u.grows
    (fun y => Finset.le_sup (f := u.rank) (Finset.mem_univ y)) x

/-- Two elements are in one set when they have one root. -/
def Same (u : UnionFind n) (x y : Fin n) : Prop :=
  ∃ r, RootOf u.parent x r ∧ RootOf u.parent y r

theorem findLoop_rootOf {fuel : Nat} {u : UnionFind n} {x y r : Fin n}
    (h : RootOf u.parent y r) : RootOf (findLoop fuel u x).1.parent y r := by
  induction fuel generalizing u x with
  | zero => exact h
  | succ fuel ih =>
    unfold findLoop
    split
    · exact h
    · exact ih (h.halve x)

theorem findLoop_root {fuel : Nat} {u : UnionFind n} {x r : Fin n} (bound : ∀ y, u.rank y < u.rank x + fuel)
    (h : RootOf u.parent x r) : (findLoop fuel u x).2 = r := by
  induction fuel generalizing u x with
  | zero => exact absurd (bound x) (by omega)
  | succ fuel ih =>
    unfold findLoop
    split
    · next fixed => exact h.eq_of_fixed fixed
    · next moved =>
      refine ih ?_ (h.parent.parent.halve x)
      intro y
      have up := u.grows x moved
      have up' : u.rank (u.parent x) ≤ u.rank (u.parent (u.parent x)) := by
        by_cases fixed : u.parent (u.parent x) = u.parent x
        · rw [fixed]
        · exact (u.grows _ fixed).le
      have := bound y
      simp only [halve]
      omega

theorem find_snd {u : UnionFind n} {x r : Fin n} (h : RootOf u.parent x r) : (u.find x).2 = r := by
  refine findLoop_root (fun y => ?_) h
  have : u.rank y ≤ Finset.univ.sup u.rank := Finset.le_sup (f := u.rank) (Finset.mem_univ y)
  omega

theorem find_rootOf {u : UnionFind n} {x y r : Fin n} (h : RootOf u.parent y r) :
    RootOf (u.find x).1.parent y r :=
  findLoop_rootOf h

theorem find_root (u : UnionFind n) (x : Fin n) : RootOf u.parent x (u.find x).2 := by
  obtain ⟨r, h⟩ := u.exists_root x
  rwa [find_snd h]

theorem find_rootOf_iff {u : UnionFind n} {x y r : Fin n} :
    RootOf (u.find x).1.parent y r ↔ RootOf u.parent y r := by
  refine ⟨fun h => ?_, find_rootOf⟩
  obtain ⟨s, hs⟩ := u.exists_root y
  rwa [h.unique (find_rootOf hs)]

theorem find_same {u : UnionFind n} {x y z : Fin n} : (u.find x).1.Same y z ↔ u.Same y z := by
  simp only [Same, find_rootOf_iff]

/-! ### Uniting -/

theorem Same.refl {u : UnionFind n} (x : Fin n) : u.Same x x := by
  obtain ⟨r, h⟩ := u.exists_root x
  exact ⟨r, h, h⟩

theorem Same.symm {u : UnionFind n} {x y : Fin n} (h : u.Same x y) : u.Same y x :=
  match h with
  | ⟨r, hx, hy⟩ => ⟨r, hy, hx⟩

theorem Same.trans {u : UnionFind n} {x y z : Fin n} (h : u.Same x y) (h' : u.Same y z) :
    u.Same x z := by
  obtain ⟨r, hx, hy⟩ := h
  obtain ⟨s, hy', hz⟩ := h'
  exact ⟨r, hx, hy.unique hy' ▸ hz⟩

theorem link_same {u : UnionFind n} {a b x y : Fin n} (rootA : u.parent a = a)
    (rootB : u.parent b = b) (ne : a ≠ b) (le : u.rank b ≤ u.rank a) :
    (u.link a b rootA rootB ne le).Same x y ↔ Merged u.Same a b x y := by
  obtain ⟨r, hx⟩ := u.exists_root x
  obtain ⟨s, hy⟩ := u.exists_root y
  have isRoot : ∀ {z t c : Fin n}, RootOf u.parent z t → u.parent c = c → (u.Same z c ↔ t = c) := by
    intro z t c hz hc
    constructor
    · rintro ⟨t', hz', hc'⟩
      exact (hz.unique hz').trans (hc'.eq_of_fixed hc).symm
    · rintro rfl
      exact ⟨t, hz, .root hc⟩
  have same : u.Same x y ↔ r = s :=
    ⟨fun ⟨t, hx', hy'⟩ => (hx.unique hx').trans (hy'.unique hy), fun h => ⟨r, hx, h ▸ hy⟩⟩
  have linked : (u.link a b rootA rootB ne le).Same x y ↔
      (if r = b then a else r) = (if s = b then a else s) := by
    have hx' := hx.link rootA rootB ne
    have hy' := hy.link rootA rootB ne
    exact ⟨fun ⟨t, hx'', hy''⟩ => (hx'.unique hx'').trans (hy''.unique hy'),
      fun h => ⟨_, hx', h ▸ hy'⟩⟩
  rw [linked, Merged, same, isRoot hx rootA, isRoot hx rootB, isRoot hy rootA, isRoot hy rootB]
  grind

def unite (u : UnionFind n) (a b : Fin n) : UnionFind n :=
  let first := u.find a
  let second := first.1.find b
  have rootA : second.1.parent first.2 = first.2 := (find_rootOf (find_rootOf (u.find_root a))).fixed
  have rootB : second.1.parent second.2 = second.2 := (find_rootOf (first.1.find_root b)).fixed
  if same : first.2 = second.2 then second.1
  else if lt : second.1.rank first.2 < second.1.rank second.2 then
    second.1.link second.2 first.2 rootB rootA (Ne.symm same) lt.le
  else second.1.link first.2 second.2 rootA rootB same (not_lt.mp lt)

theorem merged_congr {u : UnionFind n} {a a' b b' x y : Fin n} (ha : u.Same a a') (hb : u.Same b b') :
    Merged u.Same a b x y ↔ Merged u.Same a' b' x y := by
  have left : ∀ z, u.Same z a ↔ u.Same z a' := fun z => ⟨(·.trans ha), (·.trans ha.symm)⟩
  have right : ∀ z, u.Same z b ↔ u.Same z b' := fun z => ⟨(·.trans hb), (·.trans hb.symm)⟩
  simp only [Merged, left, right]

theorem merged_comm {r : Fin n → Fin n → Prop} {a b x y : Fin n} :
    Merged r a b x y ↔ Merged r b a x y := by
  simp only [Merged]
  tauto

theorem merged_same {u : UnionFind n} {a b x y : Fin n} (h : u.Same a b) :
    Merged u.Same a b x y ↔ u.Same x y := by
  constructor
  · rintro (hxy | ⟨hx, hy⟩ | ⟨hx, hy⟩)
    · exact hxy
    · exact hx.trans (h.trans hy.symm)
    · exact hx.trans (h.symm.trans hy.symm)
  · exact Or.inl

theorem unite_same {u : UnionFind n} {a b x y : Fin n} :
    (u.unite a b).Same x y ↔ Merged u.Same a b x y := by
  have toRoots : Merged u.Same a b x y ↔ Merged u.Same (u.find a).2 ((u.find a).1.find b).2 x y := by
    refine merged_congr ?_ ?_
    · exact ⟨_, u.find_root a, .root (u.find_root a).fixed⟩
    · have root := (u.find a).1.find_root b
      exact find_same.mp ⟨_, root, .root root.fixed⟩
  have carried : ∀ y z, ((u.find a).1.find b).1.Same y z ↔ u.Same y z :=
    fun _ _ => find_same.trans find_same
  have carry : Merged u.Same (u.find a).2 ((u.find a).1.find b).2 x y ↔
      Merged ((u.find a).1.find b).1.Same (u.find a).2 ((u.find a).1.find b).2 x y := by
    simp only [Merged, carried]
  rw [toRoots, carry, unite]
  split
  · next same => rw [merged_same (same ▸ Same.refl _)]
  · split
    · rw [link_same, merged_comm]
    · rw [link_same]

/-- `unite` over a list of pairs, from the first to the last. -/
def uniteAll (u : UnionFind n) (pairs : List (Fin n × Fin n)) : UnionFind n :=
  pairs.foldl (fun u pair => u.unite pair.1 pair.2) u

theorem init_same {x y : Fin n} : (init n).Same x y ↔ x = y := by
  constructor
  · rintro ⟨r, hx, hy⟩
    exact (hx.eq_of_fixed rfl).trans (hy.eq_of_fixed rfl).symm
  · rintro rfl
    exact Same.refl x

/-- A structure built by `unite` alone holds the equivalence its pairs generate. -/
theorem uniteAll_same {pairs : List (Fin n × Fin n)} {x y : Fin n} :
    ((init n).uniteAll pairs).Same x y ↔ Joined pairs x y := by
  induction pairs using List.reverseRecOn generalizing x y with
  | nil => exact init_same.trans joined_nil.symm
  | append_singleton pairs pair ih =>
    rw [joined_concat, uniteAll, List.foldl_concat, unite_same]
    simp only [Merged, ← ih]
    rfl

/-! ### Dense renumbering -/

/-- The state of the loop of `compress`: `rootToId` lists the roots in the order of their ids. -/
structure Numbering (n : Nat) where
  sets : UnionFind n
  rootToId : List (Fin n)
  result : List Nat

/-- One turn of the loop of `compress`. -/
def Numbering.step (s : Numbering n) (i : Fin n) : Numbering n :=
  let found := s.sets.find i
  match s.rootToId.idxOf? found.2 with
  | none => ⟨found.1, s.rootToId ++ [found.2], s.result ++ [s.rootToId.length]⟩
  | some id => ⟨found.1, s.rootToId, s.result ++ [id]⟩

/-- What the loop of `compress` over the elements `seen` has established. -/
structure Numbered (u : UnionFind n) (seen : List (Fin n)) (s : Numbering n) : Prop where
  roots : ∀ x r, RootOf s.sets.parent x r ↔ RootOf u.parent x r
  nodup : s.rootToId.Nodup
  attained : ∀ r ∈ s.rootToId, ∃ x ∈ seen, RootOf u.parent x r
  length : s.result.length = seen.length
  numbered : ∀ (k : Nat) (x : Fin n), seen[k]? = some x →
    ∃ (id : Nat) (r : Fin n), s.result[k]? = some id ∧ s.rootToId[id]? = some r ∧ RootOf u.parent x r

/-- One more element, numbered `id` in a list of roots that extends the old one. -/
theorem Numbered.extend {u sets : UnionFind n} {seen roots : List (Fin n)} {s : Numbering n}
    {i r : Fin n} {id : Nat} (h : Numbered u seen s)
    (kept : ∀ x r, RootOf sets.parent x r ↔ RootOf u.parent x r) (nodup : roots.Nodup)
    (attained : ∀ r ∈ roots, ∃ x ∈ seen ++ [i], RootOf u.parent x r)
    (extends_ : ∀ (k : Nat) (t : Fin n), s.rootToId[k]? = some t → roots[k]? = some t)
    (hid : roots[id]? = some r) (root : RootOf u.parent i r) :
    Numbered u (seen ++ [i]) ⟨sets, roots, s.result ++ [id]⟩ := by
  refine ⟨kept, nodup, attained, by simp [h.length], ?_⟩
  intro k x hk
  by_cases before : k < seen.length
  · rw [List.getElem?_append_left before] at hk
    obtain ⟨old, t, hold, ht, hroot⟩ := h.numbered k x hk
    exact ⟨old, t, by rw [List.getElem?_append_left (h.length ▸ before), hold], extends_ _ _ ht, hroot⟩
  · have last : k = seen.length := by
      have bound := (List.getElem?_eq_some_iff.mp hk).1
      rw [List.length_append, List.length_singleton] at bound
      omega
    subst last
    rw [List.getElem?_concat_length] at hk
    obtain rfl := Option.some.inj hk
    exact ⟨id, r, by rw [← h.length, List.getElem?_concat_length], hid, root⟩

theorem Numbered.step {u : UnionFind n} {seen : List (Fin n)} {s : Numbering n}
    (h : Numbered u seen s) (i : Fin n) : Numbered u (seen ++ [i]) (s.step i) := by
  have root : RootOf u.parent i (s.sets.find i).2 := (h.roots i _).mp (s.sets.find_root i)
  have kept : ∀ x r, RootOf (s.sets.find i).1.parent x r ↔ RootOf u.parent x r :=
    fun x r => find_rootOf_iff.trans (h.roots x r)
  have old : ∀ r ∈ s.rootToId, ∃ x ∈ seen ++ [i], RootOf u.parent x r := fun r hr =>
    let ⟨x, hx, hroot⟩ := h.attained r hr
    ⟨x, List.mem_append_left _ hx, hroot⟩
  cases found : s.rootToId.idxOf? (s.sets.find i).2 with
  | none =>
    simp only [Numbering.step, found]
    have fresh : (s.sets.find i).2 ∉ s.rootToId := List.idxOf?_eq_none_iff.mp found
    refine h.extend kept ?_ ?_ ?_ List.getElem?_concat_length root
    · refine List.nodup_append.mpr ⟨h.nodup, List.nodup_singleton _, ?_⟩
      intro a ha b hb same
      rw [List.mem_singleton.mp hb] at same
      exact fresh (same ▸ ha)
    · intro r hr
      rcases List.mem_append.mp hr with hr | hr
      · exact old r hr
      · exact ⟨i, by simp, List.mem_singleton.mp hr ▸ root⟩
    · intro k t hk
      rw [List.getElem?_append_left (List.getElem?_eq_some_iff.mp hk).1, hk]
  | some id =>
    simp only [Numbering.step, found]
    obtain ⟨bound, known, _⟩ := List.idxOf?_eq_some_iff.mp found
    exact h.extend kept h.nodup old (fun _ _ hk => hk)
      (List.getElem?_eq_some_iff.mpr ⟨bound, known⟩) root

/-- The result of `compress`: a dense id for every element and the number of ids. -/
structure Compression (n : Nat) where
  idCount : Nat
  id : Fin n → Fin idCount

/-- The loop of `compress` over all elements in order. -/
def numbering (u : UnionFind n) : Numbering n :=
  (List.finRange n).foldl Numbering.step ⟨u, [], []⟩

theorem numbered_nil (u : UnionFind n) : Numbered u [] ⟨u, [], []⟩ :=
  ⟨fun _ _ => Iff.rfl, List.nodup_nil, by simp, rfl, by simp⟩

theorem numbering_numbered (u : UnionFind n) : Numbered u (List.finRange n) u.numbering := by
  have run : ∀ (rest seen : List (Fin n)) (s : Numbering n), Numbered u seen s →
      Numbered u (seen ++ rest) (rest.foldl Numbering.step s) := by
    intro rest
    induction rest with
    | nil => intro seen s h; simpa using h
    | cons i rest ih =>
      intro seen s h
      have := ih (seen ++ [i]) (s.step i) (h.step i)
      simpa using this
  exact run (List.finRange n) [] ⟨u, [], []⟩ u.numbered_nil

theorem numbering_result (u : UnionFind n) (x : Fin n) :
    ∃ (id : Nat) (r : Fin n), u.numbering.result[x.val]? = some id ∧
      u.numbering.rootToId[id]? = some r ∧ RootOf u.parent x r :=
  u.numbering_numbered.numbered x x (by simp)

def compress (u : UnionFind n) : Compression n where
  idCount := u.numbering.rootToId.length
  id := fun x => ⟨u.numbering.result.getD x.val 0, by
    obtain ⟨id, r, hid, hr, _⟩ := u.numbering_result x
    rw [List.getD_eq_getElem?_getD, hid]
    exact (List.getElem?_eq_some_iff.mp hr).1⟩

theorem compress_root (u : UnionFind n) (x : Fin n) :
    ∃ r, u.numbering.rootToId[(u.compress.id x).val]? = some r ∧ RootOf u.parent x r := by
  obtain ⟨id, r, hid, hr, root⟩ := u.numbering_result x
  refine ⟨r, ?_, root⟩
  simp only [compress, List.getD_eq_getElem?_getD, hid, Option.getD_some]
  exact hr

/-- Two elements get one id exactly when they are in one set. -/
theorem compress_id_eq_iff {u : UnionFind n} {x y : Fin n} :
    u.compress.id x = u.compress.id y ↔ u.Same x y := by
  obtain ⟨r, hr, hx⟩ := u.compress_root x
  obtain ⟨s, hs, hy⟩ := u.compress_root y
  constructor
  · intro h
    rw [h, hs] at hr
    exact ⟨r, hx, Option.some.inj hr ▸ hy⟩
  · rintro ⟨t, hx', hy'⟩
    have same : r = s := (hx.unique hx').trans (hy'.unique hy)
    have bound := (List.getElem?_eq_some_iff.mp hr).1
    exact Fin.ext ((List.getElem?_inj bound u.numbering_numbered.nodup).mp (hr.trans (same ▸ hs.symm)))

theorem compress_surjective (u : UnionFind n) : Function.Surjective u.compress.id := by
  intro id
  have member : u.numbering.rootToId.get id ∈ u.numbering.rootToId := List.get_mem _ _
  obtain ⟨x, _, root⟩ := u.numbering_numbered.attained _ member
  obtain ⟨r, hr, hx⟩ := u.compress_root x
  refine ⟨x, Fin.ext ?_⟩
  have bound := (List.getElem?_eq_some_iff.mp hr).1
  refine (List.getElem?_inj bound u.numbering_numbered.nodup).mp (hr.trans ?_)
  rw [hx.unique root]
  exact (List.getElem?_eq_getElem id.isLt).symm

/-- Two numberings in step: the same ids so far, and roots of the same sets at the same ids. -/
structure Numbering.Matches (u v : UnionFind n) (s t : Numbering n) : Prop where
  result : s.result = t.result
  length : s.rootToId.length = t.rootToId.length
  roots : ∀ (k : Nat) (r q : Fin n), s.rootToId[k]? = some r → t.rootToId[k]? = some q →
    ∃ x, RootOf u.parent x r ∧ RootOf v.parent x q

theorem idxOf?_iff {α : Type} [DecidableEq α] {xs : List α} (nodup : xs.Nodup) {x : α} {k : Nat} :
    xs.idxOf? x = some k ↔ xs[k]? = some x := by
  rw [List.idxOf?_eq_some_iff, List.getElem?_eq_some_iff]
  constructor
  · rintro ⟨bound, found, _⟩
    exact ⟨bound, found⟩
  · rintro ⟨bound, found⟩
    refine ⟨bound, found, fun j before same => ?_⟩
    have equal := (List.Nodup.getElem_inj_iff nodup).mp (same.trans found.symm)
    omega

/-- A root that is known on one side is known on the other, under the same id. -/
theorem Numbering.Matches.known {u v : UnionFind n} {s t : Numbering n} (matched : Numbering.Matches u v s t)
    (same : ∀ x y, u.Same x y → v.Same x y) (nodup : s.rootToId.Nodup) (nodup' : t.rootToId.Nodup)
    {i r q : Fin n} (root : RootOf u.parent i r) (root' : RootOf v.parent i q) {k : Nat}
    (found : s.rootToId.idxOf? r = some k) : t.rootToId.idxOf? q = some k := by
  rw [idxOf?_iff nodup] at found
  rw [idxOf?_iff nodup']
  have bound := (List.getElem?_eq_some_iff.mp found).1
  rw [matched.length] at bound
  have stored := List.getElem?_eq_getElem bound
  obtain ⟨x, rootX, rootX'⟩ := matched.roots k r _ found stored
  obtain ⟨z, rootZ, rootZ'⟩ := same x i ⟨r, rootX, root⟩
  rw [stored, rootX'.unique rootZ, rootZ'.unique root']

theorem Numbering.Matches.symm {u v : UnionFind n} {s t : Numbering n} (matched : Numbering.Matches u v s t) :
    Numbering.Matches v u t s where
  result := matched.result.symm
  length := matched.length.symm
  roots := fun k r q found found' => by
    obtain ⟨x, root, root'⟩ := matched.roots k q r found' found
    exact ⟨x, root', root⟩

theorem Numbering.Matches.step {u v : UnionFind n} {s t : Numbering n} (matched : Numbering.Matches u v s t)
    (same : ∀ x y, u.Same x y ↔ v.Same x y) {seen : List (Fin n)} (left : Numbered u seen s)
    (right : Numbered v seen t) (i : Fin n) : Numbering.Matches u v (s.step i) (t.step i) := by
  have root : RootOf u.parent i (s.sets.find i).2 := (left.roots i _).mp (s.sets.find_root i)
  have root' : RootOf v.parent i (t.sets.find i).2 := (right.roots i _).mp (t.sets.find_root i)
  cases found : s.rootToId.idxOf? (s.sets.find i).2 with
  | some k =>
    have found' := matched.known (fun x y => (same x y).mp) left.nodup right.nodup root root' found
    simp only [Numbering.step, found, found']
    exact ⟨by rw [matched.result], matched.length, matched.roots⟩
  | none =>
    have fresh : t.rootToId.idxOf? (t.sets.find i).2 = none := by
      cases found' : t.rootToId.idxOf? (t.sets.find i).2 with
      | none => rfl
      | some k =>
        have known := matched.symm.known (fun x y => (same x y).mpr) right.nodup left.nodup root' root found'
        cases found.symm.trans known
    simp only [Numbering.step, found, fresh]
    refine ⟨by rw [matched.result, matched.length], by simp [matched.length], ?_⟩
    intro k r q stored stored'
    rw [List.getElem?_append] at stored stored'
    split at stored
    · rename_i old
      rw [if_pos (matched.length ▸ old)] at stored'
      exact matched.roots k r q stored stored'
    · rename_i new
      rw [if_neg (matched.length ▸ new)] at stored'
      obtain rfl := List.mem_singleton.mp (List.mem_of_getElem? stored)
      obtain rfl := List.mem_singleton.mp (List.mem_of_getElem? stored')
      exact ⟨i, root, root'⟩

theorem numbering_matches {u v : UnionFind n} (same : ∀ x y, u.Same x y ↔ v.Same x y) :
    Numbering.Matches u v u.numbering v.numbering := by
  have run : ∀ (rest seen : List (Fin n)) (s t : Numbering n), Numbered u seen s → Numbered v seen t →
      Numbering.Matches u v s t →
        Numbering.Matches u v (rest.foldl Numbering.step s) (rest.foldl Numbering.step t) := by
    intro rest
    induction rest with
    | nil => exact fun _ _ _ _ _ matched => matched
    | cons i rest ih =>
      intro seen s t left right matched
      exact ih (seen ++ [i]) _ _ (left.step i) (right.step i) (matched.step same left right i)
  exact run (List.finRange n) [] ⟨u, [], []⟩ ⟨v, [], []⟩ u.numbered_nil v.numbered_nil ⟨rfl, rfl, by simp⟩

theorem Compression.eq_of_values {c d : Compression n} (count : c.idCount = d.idCount)
    (values : ∀ x, (c.id x).val = (d.id x).val) : c = d := by
  obtain ⟨idCount, id⟩ := c
  obtain ⟨idCount', id'⟩ := d
  obtain rfl : idCount = idCount' := count
  obtain rfl : id = id' := funext fun x => Fin.ext (values x)
  rfl

/-- Equal sets, in whatever order they were united, are numbered alike. -/
theorem compress_eq {u v : UnionFind n} (same : ∀ x y, u.Same x y ↔ v.Same x y) : u.compress = v.compress := by
  have matched := numbering_matches same
  refine Compression.eq_of_values matched.length fun x => ?_
  simp only [compress, matched.result]

end UnionFind
end LasecSimul.Wiring
