import LasecSimul.Drawing.Topology

/-!
# Lines that no pass changes

A path is simple when no point repeats the one before it and every corner turns. Simplifying a path ends at a simple
one with the same ends, and a route recorded as the corners of a simple orthogonal path is drawn as that path again.
-/

namespace LasecSimul.Drawing

variable {start stop : Point} {path : List Point}

def straight (prev current next : Point) : Bool :=
  (sameX prev current && sameX current next) || (sameY prev current && sameY current next)

def Apart (path : List Point) : Prop := path.IsChain fun a b => samePoint a b = false

def Turning : List Point → Prop
  | prev :: current :: next :: rest => straight prev current next = false ∧ Turning (current :: next :: rest)
  | _ => True

structure Simple (path : List Point) : Prop where
  apart : Apart path
  turning : Turning path

theorem Turning.tail {point : Point} (turning : Turning (point :: path)) : Turning path := by
  match path with
  | [] | [_] => trivial
  | _ :: _ :: _ => exact turning.2

theorem Turning.dropLast (turning : Turning path) : Turning path.dropLast := by
  induction path with
  | nil => trivial
  | cons a path ih =>
    match path with
    | [] | [_] | [_, _] => trivial
    | _ :: _ :: _ :: _ => exact ⟨turning.1, ih turning.2⟩

theorem Simple.inner (simple : Simple path) : Simple (inner path) := by
  refine ⟨simple.apart.tail.dropLast, ?_⟩
  cases path with
  | nil => trivial
  | cons point path => exact simple.turning.tail.dropLast

theorem dropRepeated_apart {previous : Point} {before rest : List Point} (apart : Apart (previous :: rest)) :
    dropRepeated (previous :: before) rest = rest.reverse ++ previous :: before := by
  induction rest generalizing previous before with
  | nil => rfl
  | cons point rest ih =>
    obtain ⟨differ, apart⟩ := List.isChain_cons_cons.mp apart
    unfold dropRepeated
    dsimp only
    rw [differ, if_neg Bool.false_ne_true, ih apart]
    simp

theorem length_replaced {previous point : Point} {before rest : List Point} :
    (if rest.isEmpty then point :: before else previous :: before).length = before.length + 1 := by
  split <;> rfl

theorem length_dropRepeated_le (deduped rest : List Point) :
    (dropRepeated deduped rest).length ≤ deduped.length + rest.length := by
  induction rest generalizing deduped with
  | nil => exact Nat.le_refl _
  | cons point rest ih =>
    unfold dropRepeated
    cases deduped with
    | nil =>
      have bound := ih [point]
      simp only [List.length_cons, List.length_nil] at bound ⊢
      omega
    | cons previous before =>
      dsimp only
      split
      · have bound := ih (if rest.isEmpty then point :: before else previous :: before)
        rw [length_replaced] at bound
        simp only [List.length_cons]
        omega
      · have bound := ih (point :: previous :: before)
        simp only [List.length_cons] at bound ⊢
        omega

/-- Where nothing was dropped, nothing was repeated. -/
theorem apart_of_length {previous : Point} (before : List Point) {rest : List Point}
    (kept : before.length + 1 + rest.length ≤ (dropRepeated (previous :: before) rest).length) :
    Apart (previous :: rest) := by
  induction rest generalizing previous before with
  | nil => exact .singleton _
  | cons point rest ih =>
    unfold dropRepeated at kept
    dsimp only at kept
    split at kept
    · have bound := length_dropRepeated_le (if rest.isEmpty then point :: before else previous :: before) rest
      rw [length_replaced] at bound
      simp only [List.length_cons] at kept
      omega
    · next differ =>
      refine List.isChain_cons_cons.mpr ⟨Bool.eq_false_iff.mpr differ, ih (previous :: before) ?_⟩
      simpa only [List.length_cons, Nat.add_assoc, Nat.add_comm 1] using kept

/-- The last point stays the last. -/
theorem head_dropRepeated (previous : Point) (before rest : List Point) :
    (dropRepeated (previous :: before) rest).head? = (previous :: rest).getLast? := by
  induction rest generalizing previous before with
  | nil => rfl
  | cons point rest ih =>
    unfold dropRepeated
    dsimp only
    rw [List.getLast?_cons_cons]
    split
    · cases rest with
      | nil => rfl
      | cons next rest =>
        simp only [List.isEmpty_cons, Bool.false_eq_true, if_false]
        rw [ih, List.getLast?_cons_cons, List.getLast?_cons_cons]
    · exact ih ..

theorem dropRepeated_suffix {previous : Point} {before rest : List Point} :
    before <:+ dropRepeated (previous :: before) rest := by
  induction rest generalizing previous before with
  | nil => exact List.suffix_cons ..
  | cons point rest ih =>
    unfold dropRepeated
    dsimp only
    split
    · split
      · exact ih
      · exact ih
    · exact (List.suffix_cons previous before).trans ih

theorem getLast_of_suffix {α : Type*} {xs ys : List α} {x : α} (suffix : xs <:+ ys) (last : xs.getLast? = some x) :
    ys.getLast? = some x := by
  obtain ⟨front, rfl⟩ := suffix
  rw [List.getLast?_append, last]
  rfl

/-- The first point stays the first unless the path collapses. -/
theorem last_dropRepeated (rest : List Point) (long : 2 ≤ (dropRepeated [start] rest).length) :
    (dropRepeated [start] rest).getLast? = some start := by
  induction rest with
  | nil => simp [dropRepeated] at long
  | cons point rest ih =>
    unfold dropRepeated at long ⊢
    dsimp only at long ⊢
    split at long
    · next same =>
      rw [if_pos same]
      cases rest with
      | nil => simp [dropRepeated] at long
      | cons next rest => exact ih long
    · next differ =>
      rw [if_neg differ]
      exact getLast_of_suffix dropRepeated_suffix rfl

theorem dropStraight_turning {prev : Point} {before rest : List Point} (turning : Turning (prev :: rest)) :
    dropStraight (prev :: before) rest = rest.reverse ++ prev :: before := by
  induction rest generalizing prev before with
  | nil => rfl
  | cons current rest ih =>
    cases rest with
    | nil => rfl
    | cons next rest =>
      obtain ⟨turns, turning⟩ := turning
      unfold straight at turns
      unfold dropStraight
      dsimp only
      rw [turns, if_neg Bool.false_ne_true, ih turning]
      simp

theorem length_dropStraight_le (normalized rest : List Point) :
    (dropStraight normalized rest).length ≤ normalized.length + rest.length := by
  induction rest generalizing normalized with
  | nil => exact Nat.le_refl _
  | cons current rest ih =>
    cases rest with
    | nil => simp [dropStraight]
    | cons next rest =>
      unfold dropStraight
      cases normalized with
      | nil =>
        have bound := ih [current]
        simp only [List.length_cons, List.length_nil] at bound ⊢
        omega
      | cons prev before =>
        dsimp only
        split
        · have bound := ih (prev :: before)
          simp only [List.length_cons] at bound ⊢
          omega
        · have bound := ih (current :: prev :: before)
          simp only [List.length_cons] at bound ⊢
          omega

theorem turning_of_length {prev : Point} (before : List Point) {rest : List Point}
    (kept : before.length + 1 + rest.length ≤ (dropStraight (prev :: before) rest).length) :
    Turning (prev :: rest) := by
  induction rest generalizing prev before with
  | nil => trivial
  | cons current rest ih =>
    cases rest with
    | nil => trivial
    | cons next rest =>
      unfold dropStraight at kept
      dsimp only at kept
      split at kept
      · have bound := length_dropStraight_le (prev :: before) (next :: rest)
        simp only [List.length_cons] at bound kept
        omega
      · next turns =>
        refine ⟨Bool.eq_false_iff.mpr turns, ih (prev :: before) ?_⟩
        simp only [List.length_cons] at kept ⊢
        omega

theorem head_dropStraight {prev : Point} {before rest : List Point} :
    (dropStraight (prev :: before) rest).head? = (prev :: rest).getLast? := by
  induction rest generalizing prev before with
  | nil => rfl
  | cons current rest ih =>
    cases rest with
    | nil => rfl
    | cons next rest =>
      unfold dropStraight
      dsimp only
      rw [List.getLast?_cons_cons]
      split
      · rw [ih, List.getLast?_cons_cons, List.getLast?_cons_cons]
      · exact ih

theorem dropStraight_suffix {normalized rest : List Point} : normalized <:+ dropStraight normalized rest := by
  induction rest generalizing normalized with
  | nil => exact List.suffix_rfl
  | cons current rest ih =>
    cases rest with
    | nil => exact List.suffix_cons ..
    | cons next rest =>
      unfold dropStraight
      cases normalized with
      | nil => exact List.nil_suffix
      | cons prev before =>
        dsimp only
        split
        · exact ih
        · exact (List.suffix_cons ..).trans ih

theorem dropStraight_cons {first : Point} {rest : List Point} :
    dropStraight [] (first :: rest) = dropStraight [first] rest := by
  cases rest with
  | nil => rfl
  | cons next rest => rfl

/-! ### Simplifying -/

theorem simplifyRound_cons {first : Point} {rest : List Point} : simplifyRound (first :: rest) =
    (dropStraight [] (dropRepeated [first] rest).reverse).reverse := rfl

theorem Simple.round (simple : Simple path) : simplifyRound path = path := by
  cases path with
  | nil => rfl
  | cons first rest =>
    rw [simplifyRound_cons, dropRepeated_apart simple.apart]
    simp only [List.reverse_append, List.reverse_reverse, List.reverse_cons, List.reverse_nil, List.nil_append,
      List.singleton_append]
    rw [dropStraight_cons, dropStraight_turning simple.turning]
    simp

theorem exists_cons_dropRepeated (previous : Point) (before rest : List Point) :
    ∃ last others, dropRepeated (previous :: before) rest = last :: others := by
  cases shape : dropRepeated (previous :: before) rest with
  | nil =>
    have last := head_dropRepeated previous before rest
    rw [shape, List.getLast?_cons] at last
    cases last
  | cons last others => exact ⟨last, others, rfl⟩

/-- What a round does to the ends and the length of a path. -/
theorem simplifyRound_spec (first : Point) (rest : List Point) :
    (simplifyRound (first :: rest)).getLast? = (first :: rest).getLast? ∧
      (simplifyRound (first :: rest)).length ≤ rest.length + 1 ∧
      (2 ≤ (simplifyRound (first :: rest)).length → (simplifyRound (first :: rest)).head? = some first) ∧
      (rest.length + 1 ≤ (simplifyRound (first :: rest)).length → Simple (first :: rest)) := by
  obtain ⟨second, others, shape⟩ : ∃ second others, (dropRepeated [first] rest).reverse = second :: others := by
    obtain ⟨last, others, shape⟩ := exists_cons_dropRepeated first [] rest
    rw [shape]
    exact List.exists_cons_of_ne_nil (by simp)
  have total : (dropRepeated [first] rest).length = others.length + 1 := by
    simpa only [List.length_reverse, List.length_cons] using congrArg List.length shape
  have short := length_dropRepeated_le [first] rest
  have shorter := length_dropStraight_le [second] others
  have ends : (second :: others).getLast? = (first :: rest).getLast? := by
    rw [← shape, List.getLast?_reverse, head_dropRepeated]
  rw [simplifyRound_cons, shape, dropStraight_cons]
  simp only [List.length_reverse, List.getLast?_reverse, List.head?_reverse, List.length_cons,
    List.length_nil] at short shorter ⊢
  refine ⟨head_dropStraight.trans ends, by omega, fun long => ?_, fun kept => ?_⟩
  · have same := @last_dropRepeated first rest (by omega)
    rw [← List.head?_reverse, shape, List.head?_cons] at same
    rw [getLast_of_suffix dropStraight_suffix (List.getLast?_singleton), same]
  · have apart := @apart_of_length first [] rest (by simp; omega)
    have same : second :: others = first :: rest := by
      rw [← shape, dropRepeated_apart apart]
      simp
    obtain ⟨rfl, rfl⟩ := List.cons.inj same
    exact ⟨apart, turning_of_length [] (by simp; omega)⟩

/-- Enough rounds end at a simple path with the same ends. -/
theorem simplifyRounds_spec (rounds : Nat) (first : Point) (rest : List Point) (enough : rest.length < rounds) :
    Simple (simplifyRounds rounds (first :: rest)) ∧
      (simplifyRounds rounds (first :: rest)).getLast? = (first :: rest).getLast? ∧
      (2 ≤ (simplifyRounds rounds (first :: rest)).length →
        (simplifyRounds rounds (first :: rest)).head? = some first) := by
  induction rounds generalizing first rest with
  | zero => exact absurd enough (Nat.not_lt_zero _)
  | succ rounds ih =>
    obtain ⟨last, short, head, simple⟩ := simplifyRound_spec first rest
    unfold simplifyRounds
    dsimp only
    split
    · next same =>
      rw [List.length_cons] at same
      have simple := simple (Nat.le_of_eq same.symm)
      rw [simple.round] at last ⊢
      exact ⟨simple, rfl, fun _ => rfl⟩
    · next differ =>
      cases shape : simplifyRound (first :: rest) with
      | nil =>
        rw [shape, List.getLast?_cons] at last
        cases last
      | cons second others =>
        rw [shape] at last short head differ
        simp only [List.length_cons] at short differ
        obtain ⟨simple', last', head'⟩ := ih second others (by omega)
        refine ⟨simple', last'.trans last, fun long => ?_⟩
        have whole : 2 ≤ (second :: others).length := by
          cases others with
          | nil =>
            have single : simplifyRounds rounds [second] = [second] := by
              cases rounds <;> rfl
            rw [single] at long
            exact absurd long (by simp)
          | cons _ _ => simp
        rw [head' long, ← head whole]
        rfl

/-- The line from one point to another: two points, or a simple path. -/
structure Line (start stop : Point) (path : List Point) : Prop where
  head : path.head? = some start
  last : path.getLast? = some stop
  long : 2 ≤ path.length
  calm : path.length = 2 ∨ Simple path

theorem simplifyWirePath_line {first : Point} {rest : List Point} (last : (first :: rest).getLast? = some stop)
    (long : 2 ≤ (simplifyWirePath (first :: rest)).length) : Line first stop (simplifyWirePath (first :: rest)) := by
  obtain ⟨simple, ends, head⟩ := simplifyRounds_spec ((first :: rest).length + 1) first rest (by simp)
  exact ⟨head long, ends.trans last, long, .inr simple⟩

theorem Simple.wirePath (simple : Simple path) : simplifyWirePath path = path := by
  unfold simplifyWirePath simplifyRounds
  dsimp only
  rw [simple.round, if_pos rfl]

theorem foldl_appendPoint {previous : Point} {before rest : List Point} (apart : Apart (previous :: rest)) :
    rest.foldl appendPoint (previous :: before) = rest.reverse ++ previous :: before := by
  induction rest generalizing previous before with
  | nil => rfl
  | cons point rest ih =>
    obtain ⟨differ, apart⟩ := List.isChain_cons_cons.mp apart
    have kept : appendPoint (previous :: before) point = point :: previous :: before := by
      unfold appendPoint
      dsimp only
      rw [differ, if_neg Bool.false_ne_true]
    rw [List.foldl_cons, kept, ih apart]
    simp

theorem Simple.normalized (simple : Simple path) : normalizeOrthogonalPath path = path := by
  unfold normalizeOrthogonalPath
  split
  · rfl
  · cases path with
    | nil => rfl
    | cons first rest =>
      have kept : (first :: rest).foldl appendPoint [] = rest.reverse ++ [first] := foldl_appendPoint simple.apart
      rw [kept]
      dsimp only
      split
      · simp
      · simp only [List.reverse_append, List.reverse_reverse, List.reverse_cons, List.reverse_nil, List.nil_append,
          List.singleton_append]
        rw [dropStraight_cons, dropStraight_turning simple.turning]
        simp

theorem Line.normalized (line : Line start stop path) : normalizeOrthogonalPath path = path := by
  rcases line.calm with two | simple
  · unfold normalizeOrthogonalPath
    rw [if_pos (Nat.le_of_eq two)]
  · exact simple.normalized

theorem Line.eq (line : Line start stop path) : path = start :: (inner path ++ [stop]) := by
  obtain ⟨head, last, long, _⟩ := line
  match path with
  | [] | [_] => simp at long
  | first :: second :: rest =>
    cases head
    rw [List.getLast?_cons_cons] at last
    have split := List.dropLast_append_getLast? _ last
    rw [← split]
    simp [inner]

theorem defaultWirePath_line (start stop : Point) (firstAxis : Option LegAxis) :
    Line start stop (defaultWirePath start stop firstAxis) := by
  unfold defaultWirePath
  split
  · exact ⟨rfl, rfl, Nat.le_refl _, .inl rfl⟩
  · next diagonal =>
    simp only [Bool.or_eq_true, not_or, Bool.not_eq_true, sameX, sameY] at diagonal
    dsimp only
    split <;> refine ⟨rfl, rfl, by simp, .inr ⟨?_, ?_⟩⟩
    · simp [Apart, samePoint, sameX, sameY, diagonal.1, diagonal.2]
    · simp [Turning, straight, sameX, sameY, diagonal.1, diagonal.2]
    · simp [Apart, samePoint, sameX, sameY, diagonal.1, diagonal.2]
    · simp [Turning, straight, sameX, sameY, diagonal.1, diagonal.2]

theorem insertElbows_spec (previous : Point) (before rest : List Point) :
    previous :: before <:+ insertElbows (previous :: before) rest ∧
      (insertElbows (previous :: before) rest).head? = (previous :: rest).getLast? := by
  induction rest generalizing previous before with
  | nil => exact ⟨List.suffix_rfl, rfl⟩
  | cons point rest ih =>
    unfold insertElbows
    dsimp only
    rw [List.getLast?_cons_cons]
    split
    · exact ⟨(List.suffix_cons ..).trans (ih _ _).1, (ih _ _).2⟩
    · exact ⟨((List.suffix_cons ..).trans (List.suffix_cons ..)).trans (ih _ _).1, (ih _ _).2⟩

theorem simplified_default_line {firstAxis : Option LegAxis}
    (long : 2 ≤ (simplifyWirePath (defaultWirePath start stop firstAxis)).length) :
    Line start stop (simplifyWirePath (defaultWirePath start stop firstAxis)) := by
  have line := defaultWirePath_line start stop firstAxis
  obtain ⟨rest, shape⟩ : ∃ rest, defaultWirePath start stop firstAxis = start :: rest := ⟨_, line.eq⟩
  have last := line.last
  rw [shape] at long last ⊢
  exact simplifyWirePath_line last long

theorem elbows_shape (start : Point) (slid : List Point) (stop : Point) :
    ∃ rest, (insertElbows [start] (slid ++ [stop])).reverse = start :: rest ∧ (start :: rest).getLast? = some stop := by
  obtain ⟨⟨front, shape⟩, head⟩ := insertElbows_spec start [] (slid ++ [stop])
  have last : (insertElbows [start] (slid ++ [stop])).reverse.getLast? = some stop := by
    rw [List.getLast?_reverse, head, List.getLast?_cons, List.getLast?_concat]
    rfl
  rw [← shape, List.reverse_append, List.reverse_singleton, List.singleton_append] at last ⊢
  exact ⟨front.reverse, rfl, last⟩

theorem simplified_elbows_line {slid : List Point}
    (long : 2 ≤ (simplifyWirePath (insertElbows [start] (slid ++ [stop])).reverse).length) :
    Line start stop (simplifyWirePath (insertElbows [start] (slid ++ [stop])).reverse) := by
  obtain ⟨rest, shape, last⟩ := elbows_shape start slid stop
  rw [shape] at long ⊢
  exact simplifyWirePath_line last long

theorem resolveWirePath_line {interior : Option (List Point)} {firstAxis : Option LegAxis}
    (long : 2 ≤ (resolveWirePath start interior stop firstAxis).length) :
    Line start stop (resolveWirePath start interior stop firstAxis) := by
  unfold resolveWirePath at long ⊢
  split at long
  · exact defaultWirePath_line start stop firstAxis
  · next corner rest _ =>
    dsimp only at long ⊢
    split at long
    · next orthogonal =>
      rw [if_pos orthogonal]
      exact simplifyWirePath_line (@List.getLast?_concat _ (start :: corner :: rest) stop) long
    · next diagonal =>
      rw [if_neg diagonal]
      split at long
      · next single =>
        rw [if_pos single]
        split at long
        · next touching =>
          rw [if_pos touching]
          exact defaultWirePath_line start stop firstAxis
        · next apart =>
          rw [if_neg apart]
          exact simplified_default_line long
      · next several =>
        rw [if_neg several]
        exact simplified_elbows_line long

/-- The corners of an orthogonal line draw it again. -/
theorem Line.drawn_again (line : Line start stop path) (orthogonal : isOrthogonalPath path = true)
    (turns : inner path ≠ []) (firstAxis : Option LegAxis) :
    resolveWirePath start (some (inner path)) stop firstAxis = path := by
  have shape := line.eq
  have simple : Simple path := by
    refine line.calm.resolve_left fun two => turns (List.length_eq_zero_iff.mp ?_)
    unfold inner
    rw [List.length_dropLast, List.length_tail]
    omega
  obtain ⟨corner, rest, corners⟩ := List.exists_cons_of_ne_nil turns
  have direct : start :: (corner :: rest) ++ [stop] = path := by rw [← corners, List.cons_append, ← shape]
  unfold resolveWirePath
  rw [Option.getD_some, corners]
  dsimp only
  rw [direct, if_pos orthogonal, simple.wirePath]

end LasecSimul.Drawing
