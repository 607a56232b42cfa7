import LasecSimul.Calculus.SeriesRuns
import Mathlib.Algebra.BigOperators.Group.List.Basic

/-!
The mass balance of a recorded series: the integral of the flow less the spills is the change of the stored volume.
-/

namespace LasecSimul.Calculus.SeriesBuffer

variable {K : Type} [Field K] [LinearOrder K]

namespace Generation

variable {s : SeriesBuffer K}

/-- Rows in time order; those of one instant agree in what flowed. -/
structure Chronicle (g : Generation s) : Prop where
  ordered : ∀ i < g.length, i ≠ 0 → (g.row (i - 1)).t ≤ (g.row i).t
  flowed : ∀ i < g.length, i ≠ 0 → (g.row (i - 1)).t = (g.row i).t →
    ∀ c ∈ ["cumIn", "cumOut", "cumOverflow"], (g.row (i - 1)).values c = (g.row i).values c

/-- The last row of its instant. -/
def Last (g : Generation s) (i : ℕ) : Prop := i < g.length ∧ (i + 1 < g.length → (g.row i).t < (g.row (i + 1)).t)

def inflow (g : Generation s) (i : ℕ) : K :=
  (g.row i).values "cumIn" - (g.row i).values "cumOut" - (g.row i).values "cumOverflow"

def stored (g : Generation s) (i : ℕ) : K := g.inflow i - (g.row i).values "cumSpill"

variable {g : Generation s} {b : SeriesBuffer K}

namespace Chronicle

variable (chronicle : g.Chronicle)

include chronicle

theorem mono {i j : ℕ} (le : i ≤ j) (inside : j < g.length) : (g.row i).t ≤ (g.row j).t := by
  induction j, le using Nat.le_induction with
  | base => exact le_rfl
  | succ j _ ih => exact (ih (by omega)).trans (chronicle.ordered (j + 1) inside (Nat.succ_ne_zero j))

theorem inflow_step {i : ℕ} (inside : i < g.length) (later : i ≠ 0) (same : (g.row (i - 1)).t = (g.row i).t) :
    g.inflow (i - 1) = g.inflow i := by
  have equal := chronicle.flowed i inside later same
  rw [inflow, inflow, equal "cumIn" (by decide), equal "cumOut" (by decide), equal "cumOverflow" (by decide)]

theorem inflow_eq {i j : ℕ} (le : i ≤ j) (inside : j < g.length) (same : (g.row j).t ≤ (g.row i).t) :
    g.inflow i = g.inflow j := by
  induction j, le using Nat.le_induction with
  | base => rfl
  | succ j le ih =>
    have step := chronicle.ordered (j + 1) inside (Nat.succ_ne_zero j)
    have before := chronicle.mono le (by omega)
    rw [ih (by omega) (step.trans same)]
    exact chronicle.inflow_step inside (Nat.succ_ne_zero j) (le_antisymm step (same.trans before))

theorem last_lt {i k : ℕ} (last : g.Last i) (after : i < k) (inside : k < g.length) : (g.row i).t < (g.row k).t :=
  (last.2 (by omega)).trans_le (chronicle.mono after inside)

theorem upperBoundFrom_eq {i : ℕ} (last : g.Last i) (times : ∀ k < g.length, b.times k = (g.row k).t) (lo hi : ℕ)
    (above : lo ≤ i + 1) (below : i + 1 ≤ hi) (inside : hi ≤ g.length) :
    b.upperBoundFrom (g.row i).t lo hi = i + 1 := by
  fun_induction upperBoundFrom b (g.row i).t lo hi with
  | case1 lo hi open_ reached ih =>
    rw [times _ (by omega)] at reached
    refine ih ?_ below inside
    by_contra far
    exact absurd reached (not_le.mpr (chronicle.last_lt last (by omega) (by omega)))
  | case2 lo hi open_ passed ih =>
    rw [times _ (by omega)] at passed
    refine ih above ?_ (by omega)
    by_contra early
    exact passed (chronicle.mono (by omega) last.1)
  | case3 lo hi closed => omega

/-- The flow of a step times its length is what came in; rows of one instant bring nothing. -/
theorem integrateRow_eq {values : Column K} (times : ∀ k < g.length, b.times k = (g.row k).t)
    (flows : ∀ k < g.length, values k = flow g.row k) {i j k : ℕ} (after : i < k) (upTo : k ≤ j) (inside : j < g.length)
    (sum : K) : b.integrateRow values (g.row i).t (g.row j).t k sum = sum + (g.inflow k - g.inflow (k - 1)) := by
  have order := chronicle.ordered k (by omega) (by omega)
  rw [integrateRow, flows k (by omega), times k (by omega), times (k - 1) (by omega)]
  by_cases follows : Follows g.row k
  · have wide : (g.row k).t - (g.row (k - 1)).t ≠ 0 := sub_ne_zero.mpr follows.2.ne'
    have hi := min_eq_right (chronicle.mono upTo inside)
    have lo := max_eq_right (chronicle.mono (show i ≤ k - 1 by omega) (by omega))
    simp only [flow, if_pos follows, hi, lo, if_pos follows.2, div_mul_cancel₀ _ wide]
    simp only [inflow, change]
    ring
  · have same : (g.row (k - 1)).t = (g.row k).t := order.antisymm (not_lt.mp fun lt => follows ⟨by omega, lt⟩)
    simp only [flow, if_neg follows]
    rw [chronicle.inflow_step (by omega) (by omega) same, sub_self, add_zero]

theorem integrateFrom_eq {values : Column K} (times : ∀ k < g.length, b.times k = (g.row k).t)
    (flows : ∀ k < g.length, values k = flow g.row k) {i j : ℕ} (inside : j < g.length) (rows k : ℕ)
    (whole : k + rows = g.length) (after : i < k) (upTo : k ≤ j + 1) (sum : K) :
    b.integrateFrom values (g.row i).t (g.row j).t rows k sum = sum + (g.inflow j - g.inflow (k - 1)) := by
  induction rows generalizing k sum with
  | zero =>
    have here : k - 1 = j := by omega
    rw [integrateFrom, here, sub_self, add_zero]
  | succ rows ih =>
    rw [integrateFrom, times (k - 1) (by omega)]
    split
    · rename_i early
      have more : k ≤ j := by
        by_contra past
        have here : k - 1 = j := by omega
        exact lt_irrefl _ (here ▸ early)
      rw [ih (k + 1) (by omega) (by omega) (by omega), chronicle.integrateRow_eq times flows after more inside,
        Nat.add_sub_cancel]
      ring
    · rename_i reached
      rw [chronicle.inflow_eq (by omega) inside (not_lt.mp reached), sub_self, add_zero]

theorem stepIntegral_eq {values : Column K} (stored : b.data "q" = some values) (size : b.size = g.length)
    (times : ∀ k < g.length, b.times k = (g.row k).t) (flows : ∀ k < g.length, values k = flow g.row k) {i j : ℕ}
    (le : i ≤ j) (first : g.Last i) (last : g.Last j) :
    b.stepIntegral "q" (g.row i).t (g.row j).t = .ok (g.inflow j - g.inflow i) := by
  have inside := first.1
  have bound : b.upperBound (g.row i).t = i + 1 :=
    chronicle.upperBoundFrom_eq first times 0 b.size (by omega) (by omega) size.le
  rw [stepIntegral, col_ok stored, bound, max_eq_right (by omega)]
  have sum := chronicle.integrateFrom_eq times flows last.1 (b.size - (i + 1)) (i + 1) (by omega) (by omega)
    (by omega : i + 1 ≤ j + 1) 0 (i := i)
  rw [Nat.add_sub_cancel, zero_add] at sum
  exact congrArg Except.ok sum

end Chronicle

end Generation

/-- The volume an event counts for. -/
def spilt (event : BufferEvent K) : K := (event.volume.getD (some 0)).getD 0

omit [LinearOrder K] in
theorem foldl_spilt {events : List (BufferEvent K)} (known : ∀ event ∈ events, ∃ v, event.volume = some (some v)) :
    ∀ start : K, events.foldl (fun (sum : Option K) event => do return (← sum) + (← event.volume.getD (some 0)))
      (some start) = some (start + (events.map spilt).sum) := by
  induction events with
  | nil => exact fun start => congrArg some (add_zero start).symm
  | cons event events ih =>
    intro start
    obtain ⟨v, volume⟩ := known event List.mem_cons_self
    have step : (do return (← some start) + (← event.volume.getD (some 0)) : Option K) = some (start + spilt event) := by
      rw [spilt, volume]
      rfl
    rw [List.foldl_cons, step, ih fun other member => known other (List.mem_cons_of_mem _ member), List.map_cons,
      List.sum_cons, add_assoc]

def between (x y : K) (event : BufferEvent K) : Bool := x < event.tS ∧ event.tS ≤ y

/-- The spilt volume of one row, and of the rows before `m`. -/
theorem spilt_row {row : ℕ → Row K} {k : ℕ} (x y : K) (later : k ≠ 0)
    (quiet : ¬Follows row k → change row "cumSpill" k = 0) :
    (((if Follows row k then spillChange row k else []).filter (between x y)).map spilt).sum =
      if x < (row k).t ∧ (row k).t ≤ y then change row "cumSpill" k else 0 := by
  by_cases follows : Follows row k
  · rw [if_pos follows, spillChange]
    by_cases moved : change row "cumSpill" k = 0
    · rw [if_neg fun h => h.2 moved, moved, ite_self]
      rfl
    · rw [if_pos ⟨later, moved⟩]
      split
      · rename_i inside
        rw [List.filter_cons_of_pos (p := between x y) (decide_eq_true inside)]
        exact add_zero _
      · rename_i outside
        rw [List.filter_cons_of_neg (p := between x y) fun here =>
          outside (by simpa only [between, decide_eq_true_eq] using here)]
        rfl
  · rw [if_neg follows, quiet follows, ite_self]
    rfl

namespace Generation.Chronicle

variable {s : SeriesBuffer K} {g : Generation s} {b : SeriesBuffer K} (chronicle : g.Chronicle)

include chronicle

theorem spilt_rows (quiet : ∀ k < g.length, k ≠ 0 → ¬Follows g.row k → change g.row "cumSpill" k = 0) {i j : ℕ}
    (le : i ≤ j) (first : g.Last i) (last : g.Last j) (m : ℕ) (within : m ≤ g.length) :
    ((((List.range m).flatMap fun k => if Follows g.row k then spillChange g.row k else []).filter
      (between (g.row i).t (g.row j).t)).map spilt).sum =
      if m ≤ i then 0 else (g.row (min j (m - 1))).values "cumSpill" - (g.row i).values "cumSpill" := by
  induction m with
  | zero => rw [if_pos (Nat.zero_le i)]; rfl
  | succ m ih =>
    rw [List.range_succ, List.flatMap_append, List.filter_append, List.map_append, List.sum_append, ih (by omega),
      List.flatMap_cons, List.flatMap_nil, List.append_nil]
    by_cases start : m = 0
    · subst start
      have none : (if Follows g.row 0 then spillChange g.row 0 else []) = ([] : List (BufferEvent K)) :=
        if_neg fun follows => follows.1 rfl
      rw [none, if_pos (Nat.zero_le i), List.filter_nil, List.map_nil, List.sum_nil, add_zero]
      split
      · rfl
      · rename_i here
        rw [show min j (0 + 1 - 1) = i by omega, sub_self]
    · rw [spilt_row _ _ start (quiet m (by omega) start), change]
      by_cases early : m ≤ i
      · have before := not_lt.mpr (chronicle.mono early first.1)
        rw [if_pos early, if_neg fun h => before h.1, add_zero]
        split
        · rfl
        · rw [show min j (m + 1 - 1) = i by omega, sub_self]
      · have after := chronicle.last_lt first (show i < m by omega) (by omega)
        rw [if_neg early, if_neg (show ¬m + 1 ≤ i by omega), Nat.add_sub_cancel]
        by_cases more : m ≤ j
        · rw [if_pos ⟨after, chronicle.mono more last.1⟩, min_eq_right (by omega), min_eq_right more]
          ring
        · have past := not_le.mpr (chronicle.last_lt last (show j < m by omega) (by omega))
          rw [if_neg fun h => past h.2, min_eq_left (by omega), min_eq_left (by omega), add_zero]

theorem spillsBetween_eq (quiet : ∀ k < g.length, k ≠ 0 → ¬Follows g.row k → change g.row "cumSpill" k = 0)
    (spills : (b.events.filter (isKind .spill)).Perm
      ((List.range g.length).flatMap fun k => if Follows g.row k then spillChange g.row k else [])) {i j : ℕ}
    (le : i ≤ j) (first : g.Last i) (last : g.Last j) :
    b.spillsBetween (g.row i).t (g.row j).t =
      some ((g.row j).values "cumSpill" - (g.row i).values "cumSpill") := by
  have known : ∀ event ∈ (List.range g.length).flatMap fun k => if Follows g.row k then spillChange g.row k else [],
      ∃ v, event.volume = some (some v) := by
    intro event member
    obtain ⟨k, _, member⟩ := List.mem_flatMap.mp member
    split at member
    · rw [spillChange] at member
      split at member
      · rw [List.mem_singleton.mp member]
        exact ⟨_, rfl⟩
      · cases member
    · cases member
  have window : (b.events.filter fun event =>
      event.kind = .derived .spill ∧ (g.row i).t < event.tS ∧ event.tS ≤ (g.row j).t) =
      (b.events.filter (isKind .spill)).filter (between (g.row i).t (g.row j).t) := by
    rw [List.filter_filter]
    congr 1
    funext event
    rw [isKind, between, Bool.and_comm, ← Bool.decide_and]
  have perm := spills.filter (between (g.row i).t (g.row j).t)
  have size := first.1
  rw [spillsBetween, window, foldl_spilt fun event member =>
    known event (List.mem_of_mem_filter (perm.mem_iff.mp member)), (perm.map spilt).sum_eq,
    chronicle.spilt_rows quiet le first last g.length le_rfl, if_neg (by omega), zero_add,
    min_eq_left (by have := last.1; omega)]

end Generation.Chronicle

/-! ### The recorded series -/

namespace Generation

variable {s : SeriesBuffer K}

/-- All rows and events of the generation in one delta. -/
def whole (g : Generation s) : Generation (empty : SeriesBuffer K) where
  first := { g.first with
    reset := true
    rows := g.rows
    events := g.first.events ++ g.rest.flatMap LabSeriesDelta.events }
  rest := []
  derives := rfl
  starts := .inl rfl
  continues := nofun
  accumulators := g.accumulators

/-- The same times, columns and multiset of events. -/
structure SameSeries (b b' : SeriesBuffer K) : Prop where
  size : b.size = b'.size
  times : ∀ i < b.size, b.times i = b'.times i
  has : ∀ c, (b.data c).isSome ↔ (b'.data c).isSome
  column : ∀ c values values', b.data c = some values → b'.data c = some values' → ∀ i < b.size, values i = values' i
  events : b.events.Perm b'.events

structure Faithful (g : Generation s) (b : SeriesBuffer K) : Prop where
  balance : ∀ i j, i ≤ j → g.Last i → g.Last j → ∃ integral spills,
    b.stepIntegral "q" (g.row i).t (g.row j).t = .ok integral ∧
      b.spillsBetween (g.row i).t (g.row j).t = some spills ∧ integral - spills = g.stored j - g.stored i
  spills : (b.events.filter (isKind .spill)).Perm ((List.range g.length).flatMap (spillChange g.row))
  contacts : ∀ contact kind, (contact, kind) ∈ [("upperContact", .boundaryUpper), ("lowerContact", .boundaryLower)] →
    contact ∈ g.first.columns →
    (b.events.filter (isKind kind)).Perm ((List.range g.length).flatMap (contactChange g.row contact kind))
  alone : ∀ fresh, g.whole.run = .ok fresh → SameSeries b fresh

/-- No event falls on a row of the instant before it, and nothing of an earlier generation is left. -/
structure Settled (g : Generation s) : Prop where
  spills : ∀ i < g.length, i ≠ 0 → (g.row (i - 1)).t = (g.row i).t → change g.row "cumSpill" i = 0
  contacts : ∀ contact ∈ ["upperContact", "lowerContact"], contact ∈ g.first.columns → ∀ i < g.length, i ≠ 0 →
    (g.row (i - 1)).t = (g.row i).t → 0 ≤ (g.row i).values contact → change g.row contact i = 0
  columns : ∀ c, (s.data c).isSome → c ∈ g.first.columns ∨ c = "q"

variable {g : Generation s} {b : SeriesBuffer K}

omit [Field K] [LinearOrder K] in
theorem recorded_isKind (kind : DerivedEventKind) : g.recorded.filter (isKind kind) = [] := by
  refine List.filter_eq_nil_iff.mpr fun event member => ?_
  have plain (delta : LabSeriesDelta K) (member : event ∈ recordedEvents delta) : ¬isKind kind event = true := by
    obtain ⟨_, _, rfl⟩ := List.mem_map.mp member
    exact fun same => nomatch of_decide_eq_true same
  rcases List.mem_append.mp member with member | member
  · exact plain _ member
  · obtain ⟨delta, _, member⟩ := List.mem_flatMap.mp member
    exact plain _ member

/-- The events of one kind are all changes of that kind exactly if none falls on a row of the instant before it. -/
theorem events_iff (chronicle : g.Chronicle) (holds : Holds s g.first.columns g.row g.recorded b g.length)
    {kind : DerivedEventKind} {event : ℕ → List (BufferEvent K)}
    (sees : Sees s g.first.columns g.row (isKind kind) fun i => if Follows g.row i then event i else [])
    (first : event 0 = []) :
    (b.events.filter (isKind kind)).Perm ((List.range g.length).flatMap event) ↔
      ∀ i < g.length, i ≠ 0 → (g.row (i - 1)).t = (g.row i).t → event i = [] := by
  have perm := holds.events _ _ sees
  rw [recorded_isKind, List.nil_append] at perm
  rw [perm.congr_left, masked_perm]
  constructor
  · intro none i inside _ same
    exact none i (List.mem_range.mpr inside) fun follows => follows.2.ne same
  · intro none i member still
    have inside := List.mem_range.mp member
    by_cases start : i = 0
    · exact start ▸ first
    · refine none i inside start ((chronicle.ordered i inside start).antisymm (not_lt.mp fun lt => ?_))
      exact still ⟨start, lt⟩

theorem spillChange_nil {row : ℕ → Row K} {i : ℕ} (later : i ≠ 0) :
    spillChange row i = [] ↔ change row "cumSpill" i = 0 := by
  rw [spillChange]
  by_cases here : change row "cumSpill" i = 0
  · rw [if_neg fun h => h.2 here]
    exact iff_of_true rfl here
  · rw [if_pos ⟨later, here⟩]
    exact iff_of_false (List.cons_ne_nil _ _) here

theorem contactChange_nil {row : ℕ → Row K} {contact : String} {kind : DerivedEventKind} {i : ℕ} (later : i ≠ 0) :
    contactChange row contact kind i = [] ↔ (0 ≤ (row i).values contact → change row contact i = 0) := by
  rw [contactChange]
  by_cases here : 0 ≤ (row i).values contact ∧ change row contact i ≠ 0
  · rw [if_pos ⟨later, here⟩]
    exact iff_of_false (List.cons_ne_nil _ _) fun quiet => here.2 (quiet here.1)
  · rw [if_neg fun h => here h.2]
    exact iff_of_true rfl fun nonneg => by_contra fun moved => here ⟨nonneg, moved⟩

theorem spills_iff (chronicle : g.Chronicle) (holds : Holds s g.first.columns g.row g.recorded b g.length) :
    (b.events.filter (isKind .spill)).Perm ((List.range g.length).flatMap (spillChange g.row)) ↔
      ∀ i < g.length, i ≠ 0 → (g.row (i - 1)).t = (g.row i).t → change g.row "cumSpill" i = 0 := by
  rw [events_iff chronicle holds (sees_spill (g.accumulators _ (by decide))) (if_neg fun h => h.1 rfl)]
  exact forall₃_congr fun i _ later => by rw [spillChange_nil later]

theorem contacts_iff (chronicle : g.Chronicle) (holds : Holds s g.first.columns g.row g.recorded b g.length)
    {contact : String} (flow : String) (kind : DerivedEventKind)
    (event : ∀ (b : SeriesBuffer K) i, b.changeEvent i kind = b.boundaryEvent contact flow kind i)
    (carried : contact ∈ g.first.columns) (notQ : contact ≠ "q") :
    (b.events.filter (isKind kind)).Perm ((List.range g.length).flatMap (contactChange g.row contact kind)) ↔
      ∀ i < g.length, i ≠ 0 → (g.row (i - 1)).t = (g.row i).t → 0 ≤ (g.row i).values contact →
        change g.row contact i = 0 := by
  rw [events_iff chronicle holds (sees_contact event carried notQ) (if_neg fun h => h.1 rfl)]
  exact forall₃_congr fun i _ later => by rw [contactChange_nil later]

variable (g) in
theorem whole_holds : ∃ fresh, g.whole.run = .ok fresh ∧
    Holds (empty : SeriesBuffer K) g.first.columns g.row g.recorded fresh g.length := by
  obtain ⟨fresh, computed, holds⟩ := run_holds g.whole
  have rows : g.whole.rows = g.rows := List.append_nil _
  have row : g.whole.row = g.row := by
    funext i
    rw [Generation.row, Generation.row, rows]
  have recorded : g.whole.recorded = g.recorded := by
    rw [Generation.recorded, Generation.recorded]
    simp only [whole, recordedEvents, List.flatMap_nil, List.append_nil, List.map_append, List.map_flatMap]
    rfl
  rw [row, recorded, length, rows] at holds
  exact ⟨fresh, computed, holds⟩

theorem alone_iff (holds : Holds s g.first.columns g.row g.recorded b g.length) :
    (∀ fresh, g.whole.run = .ok fresh → SameSeries b fresh) ↔
      ∀ c, (s.data c).isSome → c ∈ g.first.columns ∨ c = "q" := by
  obtain ⟨fresh, computed, other⟩ := whole_holds g
  constructor
  · intro same c old
    have has := ((same fresh computed).has c).mp ((holds.has c).mpr (.inl old))
    exact ((other.has c).mp has).resolve_left nofun
  · intro alone fresh' run
    cases computed.symm.trans run
    have has (c : String) : (b.data c).isSome ↔ (fresh.data c).isSome := by
      rw [holds.has, other.has]
      have none : ((empty : SeriesBuffer K).data c).isSome = false := rfl
      have := alone c
      simp only [none]
      tauto
    constructor
    · rw [holds.size, other.size]
    · intro i inside
      rw [holds.times i (holds.size ▸ inside), other.times i (holds.size ▸ inside)]
    · exact has
    · intro c values values' stored stored' i inside
      rw [holds.size] at inside
      by_cases isQ : c = "q"
      · subst isQ
        obtain ⟨q, storedQ, agree⟩ := holds.q
        obtain ⟨q', storedQ', agree'⟩ := other.q
        cases stored.symm.trans storedQ
        cases stored'.symm.trans storedQ'
        rw [agree i inside, agree' i inside]
      · have member : c ∈ g.first.columns := by
          rcases (holds.has c).mp (Option.isSome_iff_exists.mpr ⟨values, stored⟩) with old | member | here
          · exact (alone c old).resolve_right isQ
          · exact member
          · exact absurd here isQ
        obtain ⟨_, storedC, agree⟩ := holds.column c member isQ
        obtain ⟨_, storedC', agree'⟩ := other.column c member isQ
        cases stored.symm.trans storedC
        cases stored'.symm.trans storedC'
        rw [agree i inside, agree' i inside]
    · have left := holds.events _ _ (sees_all alone)
      have nothing : ∀ c, ((empty : SeriesBuffer K).data c).isSome → c ∈ g.first.columns ∨ c = "q" := nofun
      have right := other.events _ _ (sees_all nothing)
      rw [List.filter_true, List.filter_true] at left right
      exact left.trans right.symm

theorem run_faithful_iff (g : Generation s) (chronicle : g.Chronicle) :
    ∃ b, g.run = .ok b ∧ (g.Faithful b ↔ g.Settled) := by
  obtain ⟨b, computed, holds⟩ := run_holds g
  have spills := spills_iff chronicle holds
  have upper (carried : "upperContact" ∈ g.first.columns) :=
    contacts_iff chronicle holds "overflow" .boundaryUpper (fun _ _ => rfl) carried (by decide)
  have lower (carried : "lowerContact" ∈ g.first.columns) :=
    contacts_iff chronicle holds "unmet" .boundaryLower (fun _ _ => rfl) carried (by decide)
  refine ⟨b, computed, fun faithful => ⟨spills.mp faithful.spills, ?_, (alone_iff holds).mp faithful.alone⟩,
    fun settled => ⟨?_, spills.mpr settled.spills, ?_, (alone_iff holds).mpr settled.columns⟩⟩
  · intro contact member carried
    rcases List.mem_pair.mp member with rfl | rfl
    · exact (upper carried).mp (faithful.contacts _ _ List.mem_cons_self carried)
    · exact (lower carried).mp (faithful.contacts _ _ (List.mem_cons_of_mem _ List.mem_cons_self) carried)
  · intro i j le first last
    obtain ⟨values, stored, flows⟩ := holds.q
    have quiet : ∀ k < g.length, k ≠ 0 → ¬Follows g.row k → change g.row "cumSpill" k = 0 := by
      intro k inside later still
      refine settled.spills k inside later ((chronicle.ordered k inside later).antisymm (not_lt.mp fun lt => ?_))
      exact still ⟨later, lt⟩
    have events := holds.events _ _ (sees_spill (g.accumulators _ (by decide)))
    rw [recorded_isKind, List.nil_append] at events
    refine ⟨_, _, chronicle.stepIntegral_eq stored holds.size holds.times flows le first last,
      chronicle.spillsBetween_eq quiet events le first last, ?_⟩
    rw [Generation.stored, Generation.stored]
    ring
  · intro contact kind member carried
    rcases List.mem_pair.mp member with same | same <;> cases same
    · exact (upper carried).mpr (settled.contacts _ List.mem_cons_self carried)
    · exact (lower carried).mpr (settled.contacts _ (List.mem_cons_of_mem _ List.mem_cons_self) carried)

/-- One delta to a new buffer. -/
def tank (rows : List (Row ℚ)) : Generation (empty : SeriesBuffer ℚ) where
  first := {
    reset := true
    generation := 1
    columns := ["cumIn", "cumOut", "cumOverflow", "cumSpill"]
    rows
    events := []
    lost := 0 }
  rest := []
  derives := rfl
  starts := .inl rfl
  continues := nofun
  accumulators := fun _ member => member

/-- A row with this inflow and spill. -/
def tankRow (t cumIn cumSpill : ℚ) : Row ℚ where
  t
  values c := if c = "cumIn" then cumIn else if c = "cumSpill" then cumSpill else 0

theorem tank_chronicle {rows : List (Row ℚ)}
    (ordered : ∀ i < rows.length, i ≠ 0 → ((tank rows).row (i - 1)).t ≤ ((tank rows).row i).t)
    (flowed : ∀ i < rows.length, i ≠ 0 → ((tank rows).row (i - 1)).t = ((tank rows).row i).t →
      ∀ c ∈ ["cumIn", "cumOut", "cumOverflow"], ((tank rows).row (i - 1)).values c = ((tank rows).row i).values c) :
    (tank rows).Chronicle := by
  have length : (tank rows).length = rows.length := congrArg List.length (List.append_nil rows)
  exact ⟨length ▸ ordered, length ▸ flowed⟩

/-- A spill with time to show. -/
theorem run_faithful_iff_spill : ∃ b, (tank [tankRow 0 0 0, tankRow 1 3 2]).run = .ok b ∧
    (tank [tankRow 0 0 0, tankRow 1 3 2]).Faithful b := by
  obtain ⟨b, run, iff⟩ := run_faithful_iff (tank [tankRow 0 0 0, tankRow 1 3 2])
    (tank_chronicle (by decide +kernel) (by decide +kernel))
  refine ⟨b, run, iff.mpr ⟨?_, ?_, nofun⟩⟩
  · decide +kernel
  · decide +kernel

/-- A spill on the second row of an instant has no event. -/
theorem tank_unbalanced :
    (tank [tankRow 0 0 0, tankRow 1 3 0, tankRow 1 3 2]).Chronicle ∧
      ∀ b, (tank [tankRow 0 0 0, tankRow 1 3 0, tankRow 1 3 2]).run = .ok b →
        ¬(tank [tankRow 0 0 0, tankRow 1 3 0, tankRow 1 3 2]).Faithful b := by
  have chronicle : (tank [tankRow 0 0 0, tankRow 1 3 0, tankRow 1 3 2]).Chronicle :=
    tank_chronicle (by decide +kernel) (by decide +kernel)
  refine ⟨chronicle, fun b run faithful => ?_⟩
  obtain ⟨b', run', holds⟩ := run_holds (tank [tankRow 0 0 0, tankRow 1 3 0, tankRow 1 3 2])
  cases run.symm.trans run'
  have quiet := (spills_iff chronicle holds).mp faithful.spills 2 (by decide) (by decide) (by decide +kernel)
  revert quiet
  decide +kernel

end Generation

end LasecSimul.Calculus.SeriesBuffer
