import LasecSimul.Calculus.SeriesBuffer

/-!
What a series buffer holds after the deltas of one generation: the rows, the flow of each step, and the events, whatever
the cuts between the deltas.
-/

namespace LasecSimul.Calculus.SeriesBuffer

variable {K : Type} [Field K] [LinearOrder K]

/-! ### Deltas of one generation -/

section Ingest

variable (s : SeriesBuffer K) (columns : List String) (row : ℕ → Row K)

/-- The first `n` rows are in the columns, which are those of the generation and what was there before. -/
structure Agrees (b : SeriesBuffer K) (n : ℕ) : Prop where
  times : ∀ i < n, b.times i = (row i).t
  column : ∀ c ∈ columns, c ≠ "q" → ∃ values, b.data c = some values ∧ ∀ i < n, values i = some ((row i).values c)
  has : ∀ c, (b.data c).isSome ↔ (s.data c).isSome ∨ c ∈ columns ∨ c = "q"

/-- The events of the rows that satisfy `P` are those of `part`. -/
def Sees (P : BufferEvent K → Bool) (part : ℕ → List (BufferEvent K)) : Prop :=
  ∀ b n, Agrees s columns row b n → ∀ i < n, (b.rowEvents i).filter P = part i

def Follows (i : ℕ) : Prop := i ≠ 0 ∧ (row (i - 1)).t < (row i).t

instance (i : ℕ) : Decidable (Follows row i) := inferInstanceAs (Decidable (_ ∧ _))

/-- The change of a column from the row before. -/
def change (c : String) (i : ℕ) : K := (row i).values c - (row (i - 1)).values c

def flow (i : ℕ) : Option K :=
  if Follows row i then
    some ((change row "cumIn" i - change row "cumOut" i - change row "cumOverflow" i) / ((row i).t - (row (i - 1)).t))
  else none

structure Holds (recorded : List (BufferEvent K)) (b : SeriesBuffer K) (n : ℕ) : Prop extends
    Agrees s columns row b n where
  size : b.size = n
  q : ∃ values, b.data "q" = some values ∧ ∀ i < n, values i = flow row i
  events : ∀ P part, Sees s columns row P part →
    (b.events.filter P).Perm (recorded.filter P ++ (List.range n).flatMap part)

variable {s columns row} {b : SeriesBuffer K} {n : ℕ}

omit [Field K] in
theorem Agrees.later (agrees : Agrees s columns row b n) {i : ℕ} (inside : i < n) : b.Later i ↔ Follows row i := by
  unfold Later Follows
  rw [agrees.times i inside, agrees.times (i - 1) (by omega)]

omit [LinearOrder K] in
theorem diff_eq {values : Column K} {c : String} (holds : ∀ i < n, values i = some ((row i).values c)) {i : ℕ}
    (inside : i < n) : diff values i = some (change row c i) := by
  unfold diff
  rw [holds i inside, holds (i - 1) (by omega)]
  rfl

theorem Agrees.rate {cumIn cumOut cumOverflow : Column K} (agrees : Agrees s columns row b n)
    (holdsIn : ∀ i < n, cumIn i = some ((row i).values "cumIn"))
    (holdsOut : ∀ i < n, cumOut i = some ((row i).values "cumOut"))
    (holdsOverflow : ∀ i < n, cumOverflow i = some ((row i).values "cumOverflow")) {i : ℕ} (inside : i < n) :
    b.rate cumIn cumOut cumOverflow i = flow row i := by
  unfold SeriesBuffer.rate flow
  by_cases follows : Follows row i
  · rw [if_pos ((agrees.later inside).mpr follows), if_pos follows, diff_eq holdsIn inside, diff_eq holdsOut inside,
      diff_eq holdsOverflow inside, agrees.times i inside, agrees.times (i - 1) (by omega)]
    rfl
  · rw [if_neg (mt (agrees.later inside).mp follows), if_neg follows]

theorem put_slice {α : Type} {array : ℕ → α} {f : ℕ → α} {count i : ℕ} (before : ∀ i < n, array i = f i)
    (inside : i < n + count) : put array ((List.range' n count).map f) n i = f i := by
  unfold put
  split
  · rename_i early
    exact before i early
  · rename_i late
    rw [List.getElem?_map, List.getElem?_range' (by omega), Option.map_some, Option.getD_some]
    congr 1
    omega

/-- Making room changes nothing that is in use. -/
theorem reserve_holds {recorded : List (BufferEvent K)} (holds : Holds s columns row recorded b n) (rows : ℕ) :
    Holds s columns row recorded (b.reserve rows) n := by
  unfold reserve
  split
  · exact holds
  · have grown (values : Column K) {i : ℕ} (inside : i < n) :
        (if i < b.size then values i else some 0) = values i := if_pos (by rwa [holds.size])
    constructor
    · constructor
      · intro i inside
        rw [← holds.times i inside]
        exact if_pos (by rwa [holds.size])
      · intro c member notQ
        obtain ⟨values, stored, agree⟩ := holds.column c member notQ
        exact ⟨_, by simp only [stored, Option.map_some], fun i inside => (grown values inside).trans (agree i inside)⟩
      · intro c
        rw [← holds.has c]
        simp only [Option.isSome_map]
    · exact holds.size
    · obtain ⟨values, stored, agree⟩ := holds.q
      exact ⟨_, by simp only [stored, Option.map_some], fun i inside => (grown values inside).trans (agree i inside)⟩
    · exact holds.events

/-- A delta with the rows from `n` on. -/
structure Slice (columns : List String) (row : ℕ → Row K) (n : ℕ) (delta : LabSeriesDelta K) : Prop where
  columns : delta.columns = columns
  rows : delta.rows = (List.range' n delta.rows.length).map row

def recordedEvents (delta : LabSeriesDelta K) : List (BufferEvent K) :=
  delta.events.map fun event => ⟨event.tS, .recorded event.kind, event.name, event.value, none⟩

theorem append_agrees {recorded : List (BufferEvent K)} {delta : LabSeriesDelta K}
    (holds : Holds s columns row recorded b n) (slice : Slice columns row n delta) :
    Agrees s columns row (b.append delta) (n + delta.rows.length) := by
  obtain ⟨sameColumns, rows⟩ := slice
  generalize delta.rows.length = count at rows
  constructor
  · intro i inside
    simp only [append, holds.size]
    rw [rows, List.map_map]
    exact put_slice holds.times inside
  · intro c member notQ
    obtain ⟨values, stored, agree⟩ := holds.column c member notQ
    refine ⟨_, by simp only [append, sameColumns, if_pos member, stored, Option.map_some]; rfl, fun i inside => ?_⟩
    rw [rows, List.map_map, holds.size]
    exact put_slice agree inside
  · intro c
    rw [← holds.has c]
    simp only [append]
    split
    · exact iff_of_eq (by rw [Option.isSome_map])
    · rfl

theorem append_q {recorded : List (BufferEvent K)} {delta : LabSeriesDelta K}
    (holds : Holds s columns row recorded b n) :
    ∃ values, (b.append delta).data "q" = some values ∧ ∀ i < n, values i = flow row i := by
  obtain ⟨values, stored, agree⟩ := holds.q
  by_cases member : "q" ∈ delta.columns
  · refine ⟨_, by simp only [append, if_pos member, stored, Option.map_some]; rfl, fun i inside => ?_⟩
    rw [← agree i inside]
    exact if_pos (holds.size.symm ▸ inside)
  · exact ⟨values, by simp only [append, if_neg member, stored], agree⟩

omit [Field K] [LinearOrder K] in
theorem col_ok {c : String} {values : Column K} (stored : b.data c = some values) : b.col c = .ok values := by
  rw [col, stored]

theorem derive_holds {recorded : List (BufferEvent K)} {delta : LabSeriesDelta K}
    (accumulators : ∀ c ∈ ["cumIn", "cumOut", "cumOverflow"], c ∈ columns)
    (holds : Holds s columns row recorded b n) (slice : Slice columns row n delta) :
    ∃ b', (b.append delta).derive n = .ok b' ∧ b'.generation = b.generation ∧ b'.derivedQ = b.derivedQ ∧
      Holds s columns row (recorded ++ recordedEvents delta) b' (n + delta.rows.length) := by
  have agrees := append_agrees holds slice
  have size : (b.append delta).size = n + delta.rows.length := by simp only [append, holds.size]
  obtain ⟨cumIn, storedIn, agreeIn⟩ := agrees.column "cumIn" (accumulators _ (by decide)) (by decide)
  obtain ⟨cumOut, storedOut, agreeOut⟩ := agrees.column "cumOut" (accumulators _ (by decide)) (by decide)
  obtain ⟨cumOverflow, storedOver, agreeOver⟩ := agrees.column "cumOverflow" (accumulators _ (by decide)) (by decide)
  obtain ⟨q, storedQ, agreeQ⟩ := append_q holds
  refine ⟨(b.append delta).derived n cumIn cumOut cumOverflow q,
    by rw [derive, col_ok storedIn, col_ok storedOut, col_ok storedOver, col_ok storedQ]; rfl, rfl, rfl, ?_⟩
  constructor
  · constructor
    · exact agrees.times
    · intro c member notQ
      obtain ⟨values, stored, agree⟩ := agrees.column c member notQ
      exact ⟨values, (derived_data notQ).trans stored, agree⟩
    · intro c
      rw [← agrees.has c]
      by_cases isQ : c = "q"
      · rw [isQ, derived_q, storedQ, Option.isSome_some, Option.isSome_some]
      · rw [derived_data isQ]
  · exact size
  · refine ⟨_, derived_q, fun i inside => ?_⟩
    by_cases late : n ≤ i
    · exact (if_pos ⟨late, size ▸ inside⟩).trans (agrees.rate agreeIn agreeOut agreeOver inside)
    · exact (if_neg fun inside => late inside.1).trans (agreeQ i (by omega))
  · intro P part sees
    have fresh : ((List.range' n delta.rows.length).flatMap (b.append delta).rowEvents).filter P =
        (List.range' n delta.rows.length).flatMap part := by
      rw [List.filter_flatMap]
      apply List.flatMap_congr
      intro i member
      exact sees _ _ agrees i (List.mem_range'_1.mp member).2
    have whole : List.range (n + delta.rows.length) = List.range n ++ List.range' n delta.rows.length := by
      have split : List.range' 0 n ++ List.range' (0 + n) delta.rows.length = List.range' 0 (n + delta.rows.length) :=
        List.range'_append_1
      rw [Nat.zero_add] at split
      rw [List.range_eq_range', List.range_eq_range', split]
    refine ((List.mergeSort_perm _ _).filter P).trans ?_
    rw [size, Nat.add_sub_cancel_left, List.filter_append, fresh, whole, List.flatMap_append]
    have moved (x y z u : List (BufferEvent K)) : (x ++ y ++ z ++ u).Perm (x ++ z ++ (y ++ u)) := by
      rw [List.append_assoc x y z, List.append_assoc x z, List.append_assoc x, ← List.append_assoc z y u]
      exact (List.perm_append_comm.append_right u).append_left x
    have appended : (b.append delta).events = b.events ++ recordedEvents delta := rfl
    rw [appended, List.filter_append, List.filter_append]
    exact (((holds.events P part sees).append_right _).append_right _).trans (moved _ _ _ _)

omit [Field K] [LinearOrder K] in
theorem columnsOf_eq {delta : LabSeriesDelta K} (derives : b.derivedQ = true) (flows : "cumIn" ∈ delta.columns) :
    b.columnsOf delta = delta.columns ++ ["q"] := if_pos ⟨derives, flows⟩

omit [LinearOrder K] in
theorem has_columns (columns : List String) (old : Option (Column K)) (c : String) :
    (old.or (if c ∈ columns ++ ["q"] then some fun _ => some 0 else none)).isSome ↔
      old.isSome ∨ c ∈ columns ∨ c = "q" := by
  rw [Option.isSome_or, Bool.or_eq_true, ← List.mem_singleton (a := c), ← List.mem_append]
  apply or_congr_right
  split
  · rename_i member
    exact iff_of_true rfl member
  · rename_i absent
    exact iff_of_false nofun absent

theorem prepare_starts {delta : LabSeriesDelta K} (sameColumns : delta.columns = columns) (derives : s.derivedQ = true)
    (flows : "cumIn" ∈ columns) (starts : delta.reset = true ∨ delta.generation ≠ s.generation) :
    Holds s columns row [] (s.prepare delta) 0 := by
  subst sameColumns
  have has (c : String) : ((s.prepare delta).data c).isSome ↔ (s.data c).isSome ∨ c ∈ delta.columns ∨ c = "q" := by
    rw [← has_columns, ← columnsOf_eq derives flows]
    simp only [prepare, if_pos starts]
    rfl
  have stored {c : String} (member : c ∈ delta.columns ∨ c = "q") : ∃ values, (s.prepare delta).data c = some values :=
    Option.isSome_iff_exists.mp ((has c).mpr (.inr member))
  constructor
  · constructor
    · exact nofun
    · intro c member _
      obtain ⟨values, stored⟩ := stored (.inl member)
      exact ⟨values, stored, nofun⟩
    · exact has
  · simp only [prepare, if_pos starts, clear]
  · obtain ⟨values, stored⟩ := stored (.inr rfl)
    exact ⟨values, stored, nofun⟩
  · intro P part _
    simp only [prepare, if_pos starts, clear]
    exact .refl []

theorem prepare_continues {recorded : List (BufferEvent K)} {delta : LabSeriesDelta K}
    (holds : Holds s columns row recorded b n) (sameColumns : delta.columns = columns) (derives : b.derivedQ = true)
    (flows : "cumIn" ∈ columns) (continues : ¬(delta.reset = true ∨ delta.generation ≠ b.generation)) :
    Holds s columns row recorded (b.prepare delta) n := by
  subst sameColumns
  have same {c : String} {values : Column K} (stored : b.data c = some values) :
      (b.prepare delta).data c = some values := by
    simp only [prepare, if_neg continues, stored, Option.some_or]
  constructor
  · constructor
    · simp only [prepare, if_neg continues]
      exact holds.times
    · intro c member notQ
      obtain ⟨values, stored, agree⟩ := holds.column c member notQ
      exact ⟨values, same stored, agree⟩
    · intro c
      have added := has_columns delta.columns (b.data c) c
      rw [← columnsOf_eq derives flows, holds.has c] at added
      simp only [prepare, if_neg continues]
      rw [added]
      tauto
  · simp only [prepare, if_neg continues]
    exact holds.size
  · obtain ⟨values, stored, agree⟩ := holds.q
    exact ⟨values, same stored, agree⟩
  · simp only [prepare, if_neg continues]
    exact holds.events

omit [LinearOrder K] in
theorem prepare_kept (delta : LabSeriesDelta K) :
    (b.prepare delta).derivedQ = b.derivedQ ∧ (b.prepare delta).generation = delta.generation := by
  unfold prepare
  split
  · exact ⟨rfl, rfl⟩
  · rename_i continues
    exact ⟨rfl, (not_not.mp fun other => continues (.inr other)).symm⟩

omit [LinearOrder K] in
theorem reserve_kept (rows : ℕ) :
    (b.reserve rows).derivedQ = b.derivedQ ∧ (b.reserve rows).generation = b.generation := by
  unfold reserve
  split <;> exact ⟨rfl, rfl⟩

theorem ingest_holds {recorded : List (BufferEvent K)} {delta : LabSeriesDelta K}
    (accumulators : ∀ c ∈ ["cumIn", "cumOut", "cumOverflow"], c ∈ columns) (derives : b.derivedQ = true)
    (holds : Holds s columns row recorded (b.prepare delta) n) (slice : Slice columns row n delta) :
    ∃ b', b.ingest delta = .ok b' ∧ b'.generation = delta.generation ∧ b'.derivedQ = true ∧
      Holds s columns row (recorded ++ recordedEvents delta) b' (n + delta.rows.length) := by
  have start := holds.size
  obtain ⟨b', computed, generation, derivesStill, holds⟩ := derive_holds accumulators
    (reserve_holds holds ((b.prepare delta).size + delta.rows.length)) slice
  obtain ⟨keepsQ, keepsGeneration⟩ := reserve_kept (b := b.prepare delta) ((b.prepare delta).size + delta.rows.length)
  obtain ⟨preparedQ, preparedGeneration⟩ := prepare_kept (b := b) delta
  refine ⟨{ b' with revision := b'.revision + 1 }, ?_, generation.trans (keepsGeneration.trans preparedGeneration),
    derivesStill.trans (keepsQ.trans (preparedQ.trans derives)), ?_⟩
  · have member : "q" ∈ (((b.prepare delta).reserve ((b.prepare delta).size + delta.rows.length)).append
        delta).columnsOf delta := by
      have added := columnsOf_eq (b := ((b.prepare delta).reserve ((b.prepare delta).size + delta.rows.length)).append
        delta) (keepsQ.trans (preparedQ.trans derives)) (slice.columns ▸ accumulators _ (by decide))
      exact added ▸ List.mem_append_right _ List.mem_cons_self
    simp only [ingest, if_pos member]
    rw [start] at computed ⊢
    rw [computed]
    rfl
  · exact ⟨⟨holds.times, holds.column, holds.has⟩, holds.size, holds.q, holds.events⟩

end Ingest

/-- The deltas of one generation, as the buffer `s` receives them. -/
structure Generation (s : SeriesBuffer K) where
  first : LabSeriesDelta K
  rest : List (LabSeriesDelta K)
  derives : s.derivedQ = true
  starts : first.reset = true ∨ first.generation ≠ s.generation
  continues : ∀ delta ∈ rest, delta.reset = false ∧ delta.generation = first.generation ∧ delta.columns = first.columns
  accumulators : ∀ c ∈ ["cumIn", "cumOut", "cumOverflow", "cumSpill"], c ∈ first.columns

namespace Generation

variable {s : SeriesBuffer K} (g : Generation s)

def rows : List (Row K) := g.first.rows ++ g.rest.flatMap LabSeriesDelta.rows

def length : ℕ := g.rows.length

def row (i : ℕ) : Row K := g.rows.getD i ⟨0, fun _ => 0⟩

def recorded : List (BufferEvent K) := recordedEvents g.first ++ g.rest.flatMap recordedEvents

def run : Except String (SeriesBuffer K) := (g.first :: g.rest).foldlM SeriesBuffer.ingest s

variable {g}

omit [Field K] [LinearOrder K] in
theorem accumulated : ∀ c ∈ ["cumIn", "cumOut", "cumOverflow"], c ∈ g.first.columns :=
  fun c member => g.accumulators c (List.mem_append_left ["cumSpill"] member)

omit [LinearOrder K] in
theorem slice {before after : List (Row K)} {delta : LabSeriesDelta K} (whole : g.rows = before ++ delta.rows ++ after)
    (columns : delta.columns = g.first.columns) : Slice g.first.columns g.row before.length delta := by
  refine ⟨columns, List.ext_getElem (by rw [List.length_map, List.length_range']) fun i inside _ => ?_⟩
  rw [List.getElem_map, List.getElem_range', Nat.one_mul, row, whole, List.getD_eq_getElem?_getD,
    List.append_assoc, List.getElem?_append_right (Nat.le_add_right _ _), Nat.add_sub_cancel_left,
    List.getElem?_append_left inside, List.getElem?_eq_getElem inside, Option.getD_some]

variable (g) in
/-- What the buffer holds does not depend on the cuts. -/
theorem run_holds : ∃ b, g.run = .ok b ∧ Holds s g.first.columns g.row g.recorded b g.length := by
  have along : ∀ (rest : List (LabSeriesDelta K)) (before : List (Row K)) (recorded : List (BufferEvent K))
      (b : SeriesBuffer K), (∀ delta ∈ rest, delta ∈ g.rest) → g.rows = before ++ rest.flatMap LabSeriesDelta.rows →
      b.generation = g.first.generation → b.derivedQ = true → Holds s g.first.columns g.row recorded b before.length →
      ∃ b', rest.foldlM SeriesBuffer.ingest b = .ok b' ∧
        Holds s g.first.columns g.row (recorded ++ rest.flatMap recordedEvents) b' g.length := by
    intro rest
    induction rest with
    | nil =>
      intro before recorded b _ whole _ _ holds
      rw [List.flatMap_nil, List.append_nil] at whole ⊢
      exact ⟨b, rfl, by rwa [length, whole]⟩
    | cons delta rest ih =>
      intro before recorded b member whole generation derives holds
      obtain ⟨plain, sameGeneration, columns⟩ := g.continues delta (member delta List.mem_cons_self)
      rw [List.flatMap_cons, ← List.append_assoc] at whole
      have continues : ¬(delta.reset = true ∨ delta.generation ≠ b.generation) := by
        rw [plain, sameGeneration, generation]
        simp
      have flows : "cumIn" ∈ g.first.columns := accumulated _ (by decide)
      obtain ⟨b', computed, generation, derives, holds⟩ := ingest_holds accumulated derives
        (prepare_continues holds columns derives flows continues) (slice whole columns)
      rw [← List.length_append] at holds
      obtain ⟨last, ends, holds⟩ := ih _ _ b' (fun d here => member d (List.mem_cons_of_mem _ here)) whole
        (generation.trans sameGeneration) derives holds
      refine ⟨last, by rw [List.foldlM_cons, computed]; exact ends, ?_⟩
      rwa [List.flatMap_cons, ← List.append_assoc]
  obtain ⟨b, computed, generation, derives, holds⟩ := ingest_holds accumulated g.derives
    (prepare_starts rfl g.derives (accumulated _ (by decide)) g.starts)
    (slice (show g.rows = [] ++ g.first.rows ++ g.rest.flatMap LabSeriesDelta.rows from rfl) rfl)
  rw [Nat.zero_add, List.nil_append] at holds
  obtain ⟨last, ends, holds⟩ := along g.rest g.first.rows (recordedEvents g.first) b (fun _ here => here) rfl generation
    derives holds
  exact ⟨last, by rw [run, List.foldlM_cons, computed]; exact ends, holds⟩

end Generation

theorem changeEvent_kind (b : SeriesBuffer K) (i : ℕ) (kind : DerivedEventKind) :
    ∀ event ∈ b.changeEvent i kind, event.kind = .derived kind := by
  have boundary (contact flow : String) (kind : DerivedEventKind) :
      ∀ event ∈ b.boundaryEvent contact flow kind i, event.kind = .derived kind := by
    unfold boundaryEvent
    intro event member
    split at member <;> split at member <;> first | (split at member <;> simp_all) | simp_all
  cases kind with
  | spill =>
    unfold changeEvent spillEvent
    intro event member
    split at member <;> first | (split at member <;> simp_all) | simp_all
  | boundaryUpper => exact boundary _ _ _
  | boundaryLower => exact boundary _ _ _

def isKind (kind : DerivedEventKind) (event : BufferEvent K) : Bool := event.kind = .derived kind

theorem rowEvents_kind (b : SeriesBuffer K) (i : ℕ) (kind : DerivedEventKind) :
    (b.rowEvents i).filter (isKind kind) = if b.Later i then b.changeEvent i kind else [] := by
  have own (k : DerivedEventKind) :
      (b.changeEvent i k).filter (isKind kind) = if k = kind then b.changeEvent i k else [] := by
    split
    · rename_i same
      exact List.filter_eq_self.mpr fun event member =>
        decide_eq_true (by rw [changeEvent_kind b i k event member, same])
    · rename_i other
      refine List.filter_eq_nil_iff.mpr fun event member => ?_
      rw [isKind, decide_eq_true_eq, changeEvent_kind b i k event member]
      exact fun same => other (EventKind.derived.inj same)
  unfold rowEvents
  split
  · rw [List.filter_append, List.filter_append, own, own, own]
    cases kind <;> simp
  · rfl

/-- A change of `cumSpill` from the row before. -/
def spillChange (row : ℕ → Row K) (i : ℕ) : List (BufferEvent K) :=
  if i ≠ 0 ∧ change row "cumSpill" i ≠ 0 then
    [{ tS := (row i).t, kind := .derived .spill, volume := some (some (change row "cumSpill" i)) }]
  else []

/-- A change of a contact instant from the row before, to a value that is not negative. -/
def contactChange (row : ℕ → Row K) (contact : String) (kind : DerivedEventKind) (i : ℕ) : List (BufferEvent K) :=
  if i ≠ 0 ∧ 0 ≤ (row i).values contact ∧ change row contact i ≠ 0 then
    [{ tS := (row i).values contact, kind := .derived kind }]
  else []

section Kinds

variable {s : SeriesBuffer K} {columns : List String} {row : ℕ → Row K}

theorem sees_spill (carried : "cumSpill" ∈ columns) :
    Sees s columns row (isKind .spill) fun i => if Follows row i then spillChange row i else [] := by
  intro b n agrees i inside
  rw [rowEvents_kind]
  by_cases follows : Follows row i
  · simp only [if_pos ((agrees.later inside).mpr follows), if_pos follows]
    obtain ⟨values, stored, agree⟩ := agrees.column "cumSpill" carried (by decide)
    have moved : (values i = none ∨ values i ≠ values (i - 1)) ↔ i ≠ 0 ∧ change row "cumSpill" i ≠ 0 := by
      rw [agree i inside, agree (i - 1) (by omega), change, sub_ne_zero]
      simp [follows.1]
    simp only [changeEvent, spillEvent, stored, spillChange, moved, agrees.times i inside, diff_eq agree inside]
  · simp only [if_neg (mt (agrees.later inside).mp follows), if_neg follows]

theorem sees_contact {contact flow : String} {kind : DerivedEventKind}
    (event : ∀ (b : SeriesBuffer K) i, b.changeEvent i kind = b.boundaryEvent contact flow kind i)
    (carried : contact ∈ columns) (notQ : contact ≠ "q") :
    Sees s columns row (isKind kind) fun i => if Follows row i then contactChange row contact kind i else [] := by
  intro b n agrees i inside
  rw [rowEvents_kind, event]
  by_cases follows : Follows row i
  · simp only [if_pos ((agrees.later inside).mpr follows), if_pos follows]
    obtain ⟨values, stored, agree⟩ := agrees.column contact carried notQ
    have moved : (0 ≤ (row i).values contact ∧ some ((row i).values contact) ≠ some ((row (i - 1)).values contact)) ↔
        i ≠ 0 ∧ 0 ≤ (row i).values contact ∧ change row contact i ≠ 0 := by
      rw [change, sub_ne_zero]
      simp [follows.1]
    simp only [boundaryEvent, stored, agree i inside, agree (i - 1) (by omega), contactChange, moved]
  · simp only [if_neg (mt (agrees.later inside).mp follows), if_neg follows]

/-- A buffer with these rows alone. -/
def ofRows (columns : List String) (row : ℕ → Row K) : SeriesBuffer K :=
  { (empty : SeriesBuffer K) with
    times := fun i => (row i).t
    data := fun c => if c ∈ columns then some fun i => some ((row i).values c) else none }

theorem sees_all (alone : ∀ c, (s.data c).isSome → c ∈ columns ∨ c = "q") :
    Sees s columns row (fun _ => true) (ofRows columns row).rowEvents := by
  intro b n agrees i inside
  have previous : i - 1 < n := by omega
  have column (c : String) (notQ : c ≠ "q") : b.data c = none ∧ (ofRows columns row).data c = none ∨
      ∃ values, b.data c = some values ∧ values i = some ((row i).values c) ∧
        values (i - 1) = some ((row (i - 1)).values c) ∧
        (ofRows columns row).data c = some fun i => some ((row i).values c) := by
    by_cases member : c ∈ columns
    · obtain ⟨values, stored, agree⟩ := agrees.column c member notQ
      exact .inr ⟨values, stored, agree i inside, agree (i - 1) previous, if_pos member⟩
    · refine .inl ⟨Option.not_isSome_iff_eq_none.mp fun here => ?_, if_neg member⟩
      rcases (agrees.has c).mp here with old | new | isQ
      · exact (alone c old).elim member notQ
      · exact member new
      · exact notQ isQ
  have time : b.times i = (ofRows columns row).times i := agrees.times i inside
  have later : b.Later i ↔ (ofRows columns row).Later i := agrees.later inside
  have boundary (contact flow : String) (kind : DerivedEventKind) (h : contact ≠ "q") (h' : flow ≠ "q") :
      b.boundaryEvent contact flow kind i = (ofRows columns row).boundaryEvent contact flow kind i := by
    rcases column contact h with ⟨absent, absent'⟩ | ⟨values, stored, now, before, stored'⟩
    · rcases column flow h' with ⟨none, none'⟩ | ⟨flows, stored, now, before, stored'⟩
      · simp only [boundaryEvent, absent, absent', none, none']
      · simp only [boundaryEvent, absent, absent', stored, stored', now, before, time]
    · simp only [boundaryEvent, stored, stored', now, before]
  have spill : b.spillEvent i = (ofRows columns row).spillEvent i := by
    rcases column "cumSpill" (by decide) with ⟨absent, absent'⟩ | ⟨values, stored, now, before, stored'⟩
    · simp only [spillEvent, absent, absent']
    · simp only [spillEvent, stored, stored', now, before, time, diff]
  rw [List.filter_true]
  simp only [rowEvents, changeEvent, spill, boundary "upperContact" "overflow" _ (by decide) (by decide),
    boundary "lowerContact" "unmet" _ (by decide) (by decide), later]

end Kinds

/-- Leaving out some of the events loses none exactly if those are empty. -/
theorem masked_perm {α : Type} {p : ℕ → Prop} [DecidablePred p] {f : ℕ → List α} {l : List ℕ} :
    (l.flatMap fun i => if p i then f i else []).Perm (l.flatMap f) ↔ ∀ i ∈ l, ¬p i → f i = [] := by
  have shorter (l : List ℕ) : (l.flatMap fun i => if p i then f i else []).length ≤ (l.flatMap f).length := by
    induction l with
    | nil => exact le_rfl
    | cons i l ih =>
      rw [List.flatMap_cons, List.flatMap_cons, List.length_append, List.length_append]
      refine Nat.add_le_add ?_ ih
      split
      · exact le_rfl
      · exact Nat.zero_le _
  constructor
  · intro perm
    have same := perm.length_eq
    clear perm
    induction l with
    | nil => exact nofun
    | cons i l ih =>
      rw [List.flatMap_cons, List.flatMap_cons, List.length_append, List.length_append] at same
      have rest := shorter l
      split at same
      · rename_i here
        exact List.forall_mem_cons.mpr ⟨fun no => absurd here no, ih (by omega)⟩
      · rw [List.length_nil] at same
        exact List.forall_mem_cons.mpr ⟨fun _ => List.length_eq_zero_iff.mp (by omega), ih (by omega)⟩
  · intro none
    refine .of_eq (List.flatMap_congr fun i member => ?_)
    split
    · rfl
    · rename_i here
      exact (none i member here).symm

end LasecSimul.Calculus.SeriesBuffer
