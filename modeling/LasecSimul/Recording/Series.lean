import LasecSimul.Lib.Ring
import LasecSimul.Recording.SignalRecorder
import Mathlib.Data.List.GetD

/-!
# The rows of one generation

A series is the unbounded list of the rows recorded since a generation began. `Tracks` relates it to the
ring and the counters of a subscription; `DueRow` says which offered rows belong to it.
-/

namespace LasecSimul.Recording

open Lib

variable {V : Type}

structure Row (V : Type) where
  timestampNs : Nat
  values : List V
  deriving DecidableEq

/-- A stable step or a parameter change, with the values read at it. -/
structure Offer (V : Type) extends Row V where
  parameter : Bool
  deriving DecidableEq

def columnOf [Cell V] (channel : Nat) (rows : List (Row V)) : List V := rows.map (·.values.getD channel zeroCell)

def GridPointIn (period after upTo : Nat) : Prop := ∃ k, after < k * period ∧ k * period ≤ upTo

theorem gridPointIn_iff {period after upTo : Nat} (positive : 0 < period) :
    GridPointIn period after upTo ↔ after / period < upTo / period := by
  constructor
  · rintro ⟨k, later, reached⟩
    exact Nat.lt_of_lt_of_le (Nat.div_lt_of_lt_mul (by rwa [Nat.mul_comm] at later))
      ((Nat.le_div_iff_mul_le positive).mpr reached)
  · intro lt
    exact ⟨upTo / period, (Nat.div_lt_iff_lt_mul positive).mp lt, Nat.div_mul_le_self _ _⟩

/-- The last grid point the clock can show. -/
def gridEnd (period : Nat) : Nat := kTimeMax / period * period

theorem gridAfter_le {period last timestampNs : Nat} (positive : 0 < period) (le : last ≤ timestampNs)
    (before : timestampNs < gridEnd period) :
    Subscription.gridAfter period last ≤ timestampNs ↔ GridPointIn period last timestampNs := by
  have end' : gridEnd period ≤ kTimeMax := Nat.div_mul_le_self _ _
  have inside : timestampNs / period < kTimeMax / period :=
    Nat.div_lt_of_lt_mul (by rwa [gridEnd, Nat.mul_comm] at before)
  have order : last / period ≤ timestampNs / period := Nat.div_le_div_right le
  rw [gridPointIn_iff positive, Subscription.gridAfter]
  split
  · constructor <;> intro <;> omega
  · rw [← Nat.le_div_iff_mul_le positive, Nat.succ_le_iff]

/-- A row is due when there is none yet, when values change at the instant of the last row, of which at most
four are kept, and later for a parameter change, a new grid point or, without a grid, changed values. -/
def DueRow (period : Nat) (rows : List (Row V)) (offer : Offer V) : Prop :=
  match rows.getLast? with
  | none => True
  | some last =>
    if offer.timestampNs = last.timestampNs then
      offer.values ≠ last.values ∧ rows.countP (·.timestampNs = offer.timestampNs) < kMaxRowsPerInstant
    else offer.parameter = true ∨
      if period = 0 then offer.values ≠ last.values else GridPointIn period last.timestampNs offer.timestampNs

open Classical in
noncomputable def accept (period : Nat) (rows : List (Row V)) (offer : Offer V) : List (Row V) :=
  if DueRow period rows offer then rows ++ [offer.toRow] else rows

noncomputable def admitted (period : Nat) (offers : List (Offer V)) : List (Row V) :=
  offers.foldl (accept period) []

theorem admitted_concat (period : Nat) (offers : List (Offer V)) (offer : Offer V) :
    admitted period (offers ++ [offer]) = accept period (admitted period offers) offer :=
  List.foldl_append

theorem admitted_singleton (period : Nat) (offer : Offer V) : admitted period [offer] = [offer.toRow] :=
  if_pos trivial

/-! ### Subscriptions -/

namespace Subscription

variable {sub : Subscription V} {rows : List (Row V)} {counter timestampNs : Nat}

structure Shaped (sub : Subscription V) : Prop where
  capacity : 0 < sub.request.capacityRows
  times : sub.times.length = sub.request.capacityRows
  channels : sub.columns.length = sub.request.channels.length
  columns : ∀ column ∈ sub.columns, column.length = sub.request.capacityRows
  handles : sub.handles.length = sub.request.channels.length

structure Tracks [Cell V] (sub : Subscription V) (rows : List (Row V)) : Prop where
  count : sub.count = rows.length
  times : Ring.Holds sub.times (rows.map (·.timestampNs))
  columns : ∀ channel column, sub.columns[channel]? = some column → Ring.Holds column (columnOf channel rows)
  latest : ∀ row, rows.getLast? = some row → row = ⟨sub.lastTimeNs, sub.last⟩
  instant : sub.rowsAtInstant = rows.countP (·.timestampNs = sub.lastTimeNs)
  grid : rows ≠ [] → 0 < sub.request.periodNs → sub.nextGridNs = gridAfter sub.request.periodNs sub.lastTimeNs
  sorted : rows.Pairwise (·.timestampNs ≤ ·.timestampNs)
  idle : sub.started = false → rows = []

theorem Shaped.append (shaped : sub.Shaped) (read : sub.scratch.length = sub.request.channels.length) :
    (sub.appendRowLocked timestampNs).Shaped where
  capacity := shaped.capacity
  times := (List.length_set ..).trans shaped.times
  channels := by
    show (List.zipWith _ sub.columns sub.scratch).length = sub.request.channels.length
    rw [List.length_zipWith, shaped.channels, read, Nat.min_self]
  columns := by
    intro column member
    obtain ⟨channel, here⟩ := List.mem_iff_getElem?.mp member
    change (List.zipWith _ sub.columns sub.scratch)[channel]? = some column at here
    rw [List.getElem?_zipWith_eq_some] at here
    obtain ⟨old, value, oldHere, -, rfl⟩ := here
    exact (List.length_set ..).trans (shaped.columns old (List.mem_of_getElem? oldHere))
  handles := shaped.handles

variable [Cell V]

theorem Tracks.row_le {row : Row V} (tracks : sub.Tracks rows) (member : row ∈ rows) :
    row.timestampNs ≤ sub.lastTimeNs := by
  obtain ⟨front, last, rfl⟩ := List.eq_nil_or_concat' rows |>.resolve_left (List.ne_nil_of_mem member)
  have latest := tracks.latest last List.getLast?_concat
  rw [List.mem_append, List.mem_singleton] at member
  rcases member with before | rfl
  · have le := (List.pairwise_append.mp tracks.sorted).2.2 row before last (List.mem_singleton.mpr rfl)
    rwa [latest] at le
  · exact Nat.le_of_eq (congrArg Row.timestampNs latest)

theorem Tracks.append (tracks : sub.Tracks rows) (shaped : sub.Shaped) (started : sub.started = true)
    (later : rows ≠ [] → sub.lastTimeNs ≤ timestampNs) :
    (sub.appendRowLocked timestampNs).Tracks (rows ++ [⟨timestampNs, sub.scratch⟩]) where
  count := by
    rw [List.length_append, List.length_singleton, ← tracks.count]
    rfl
  times := by
    have written := tracks.times.write (shaped.times ▸ shaped.capacity) timestampNs
    rw [List.length_map, ← tracks.count, shaped.times] at written
    rw [List.map_append]
    exact written
  columns := by
    intro channel column here
    change (List.zipWith _ sub.columns sub.scratch)[channel]? = some column at here
    rw [List.getElem?_zipWith_eq_some] at here
    obtain ⟨old, value, oldHere, valueHere, rfl⟩ := here
    have size := shaped.columns old (List.mem_of_getElem? oldHere)
    have written := (tracks.columns channel old oldHere).write (size ▸ shaped.capacity) value
    rw [columnOf, List.length_map, ← tracks.count, size] at written
    rw [columnOf, List.map_append, List.map_singleton, List.getD_eq_getElem?_getD, valueHere]
    exact written
  latest := by
    intro row last
    rw [List.getLast?_concat] at last
    exact (Option.some.inj last).symm
  instant := by
    show (if 0 < sub.count ∧ timestampNs = sub.lastTimeNs then sub.rowsAtInstant + 1 else 1) =
      (rows ++ [(⟨timestampNs, sub.scratch⟩ : Row V)]).countP (·.timestampNs = timestampNs)
    rw [List.countP_append, List.countP_singleton, if_pos (decide_eq_true rfl)]
    split
    · rename_i again
      rw [tracks.instant, again.2]
    · rename_i first
      rw [Nat.right_eq_add, List.countP_eq_zero]
      intro row member same
      have le := tracks.row_le member
      have nonempty := List.ne_nil_of_mem member
      have recorded := List.length_pos_iff.mpr nonempty
      have lastLe := later nonempty
      rw [decide_eq_true_iff] at same
      exact first ⟨tracks.count ▸ recorded, by omega⟩
  grid := by
    intro _ positive
    exact if_pos positive
  sorted := by
    rw [List.pairwise_append]
    refine ⟨tracks.sorted, List.pairwise_singleton _ _, ?_⟩
    intro row before new isNew
    obtain rfl := List.mem_singleton.mp isNew
    exact Nat.le_trans (tracks.row_le before) (later (List.ne_nil_of_mem before))
  idle := by
    intro idle
    have running : (sub.appendRowLocked timestampNs).started = sub.started := rfl
    rw [running, started] at idle
    cases idle

omit [Cell V] in
theorem Shaped.pushEvent (shaped : sub.Shaped) (event : SeriesEvent V) : (sub.pushEventLocked event).Shaped :=
  ⟨shaped.capacity, shaped.times, shaped.channels, shaped.columns, shaped.handles⟩

theorem Tracks.pushEvent (tracks : sub.Tracks rows) (event : SeriesEvent V) :
    (sub.pushEventLocked event).Tracks rows :=
  ⟨tracks.count, tracks.times, tracks.columns, tracks.latest, tracks.instant, tracks.grid, tracks.sorted,
    tracks.idle⟩

theorem Shaped.start (shaped : sub.Shaped) (new : Bool) :
    (sub.startGenerationLocked counter timestampNs new).2.Shaped :=
  ⟨shaped.capacity, shaped.times, shaped.channels, shaped.columns, shaped.handles⟩

theorem start_tracks (sub : Subscription V) (new : Bool) :
    (sub.startGenerationLocked counter timestampNs new).2.Tracks [] :=
  ⟨rfl, Ring.Holds.start, fun _ _ _ => Ring.Holds.start, nofun, rfl, fun h => absurd rfl h, List.Pairwise.nil,
    nofun⟩

theorem Shaped.read (shaped : sub.Shaped) (runtime : SignalRuntime V) (resolve : Resolver) :
    (sub.readChannels runtime resolve).Shaped ∧
      (sub.readChannels runtime resolve).scratch.length = sub.request.channels.length := by
  have handles : (if runtime.graph = sub.resolvedGraph then sub.handles
      else sub.request.channels.map (resolveChannel runtime.graph resolve)).length =
        sub.request.channels.length := by
    split
    · exact shaped.handles
    · exact List.length_map _
  refine ⟨⟨shaped.capacity, shaped.times, shaped.channels, shaped.columns, handles⟩, ?_⟩
  show (List.zipWith _ _ _).length = _
  rw [List.length_zipWith, handles, Nat.min_self]

theorem Tracks.read {runtime : SignalRuntime V} {resolve : Resolver} (tracks : sub.Tracks rows) :
    (sub.readChannels runtime resolve).Tracks rows :=
  ⟨tracks.count, tracks.times, tracks.columns, tracks.latest, tracks.instant, tracks.grid, tracks.sorted,
    tracks.idle⟩

/-- What holds of a subscription between the steps of a call at `timestampNs`. -/
structure Ready (timestampNs : Nat) (sub : Subscription V) (rows : List (Row V)) : Prop where
  shaped : sub.Shaped
  tracks : sub.Tracks rows
  read : sub.scratch.length = sub.request.channels.length
  later : rows ≠ [] → sub.lastTimeNs ≤ timestampNs
  fresh : sub.started = true → rows = [] → sub.lastTimeNs = timestampNs

/-- Either the generation goes on or a new one begins without rows. -/
def Continues (counter : Nat) (sub : Subscription V) (rows : List (Row V)) (next : Nat × Subscription V)
    (nextRows : List (Row V)) : Prop :=
  next.2.request = sub.request ∧
    ((next.1 = counter ∧ next.2.generation = sub.generation ∧ nextRows = rows) ∨
      (next.1 = counter + 1 ∧ next.2.generation = counter + 1 ∧ nextRows = []))

theorem prepare_ready (runtime : SignalRuntime V) (resolve : Resolver) (shaped : sub.Shaped)
    (tracks : sub.Tracks rows) (fresh : sub.started = true → rows = [] → sub.lastTimeNs = timestampNs)
    (counter : Nat) : ∃ nextRows, Ready timestampNs (sub.prepareLocked counter timestampNs runtime resolve).2 nextRows ∧
      Continues counter sub rows (sub.prepareLocked counter timestampNs runtime resolve) nextRows := by
  obtain ⟨readShaped, read⟩ := shaped.read runtime resolve
  unfold prepareLocked
  simp only []
  split
  · exact ⟨[], ⟨readShaped.start true, start_tracks _ true, read, fun h => absurd rfl h, fun _ _ => rfl⟩, rfl,
      Or.inr ⟨rfl, rfl, rfl⟩⟩
  · rename_i forward
    refine ⟨rows, ⟨readShaped, tracks.read, read, fun nonempty => ?_, fresh⟩, rfl, Or.inl ⟨rfl, rfl, rfl⟩⟩
    rcases Nat.lt_or_ge timestampNs sub.lastTimeNs with back | le
    · have started : sub.started = true := by
        cases running : sub.started with
        | true => rfl
        | false => exact absurd (tracks.idle running) nonempty
      exact absurd ⟨started, tracks.count ▸ List.length_pos_iff.mpr nonempty, back⟩ forward
    · exact le

/-! ### One call -/

/-- What a call does with the row it offers, after the generation is settled. -/
structure Offered (offer : Offer V) (sub : Subscription V) (rows : List (Row V)) (next : Subscription V)
    (nextRows : List (Row V)) : Prop where
  shaped : next.Shaped
  tracks : next.Tracks nextRows
  request : next.request = sub.request
  generation : next.generation = sub.generation
  scratch : next.scratch = offer.values
  nonempty : nextRows ≠ []
  grows : nextRows = rows ∨ nextRows = rows ++ [offer.toRow]
  later : rows ≠ [] → sub.lastTimeNs ≤ offer.timestampNs
  due : sub.request.periodNs = 0 ∨ offer.timestampNs < gridEnd sub.request.periodNs →
    nextRows = accept sub.request.periodNs rows offer

theorem Offered.pushEvent {offer : Offer V} {next : Subscription V} {nextRows : List (Row V)}
    (offered : Offered offer sub rows next nextRows) (event : SeriesEvent V) :
    Offered offer sub rows (next.pushEventLocked event) nextRows :=
  ⟨offered.shaped.pushEvent event, offered.tracks.pushEvent event, offered.request, offered.generation,
    offered.scratch, offered.nonempty, offered.grows, offered.later, offered.due⟩

theorem Ready.append (offer : Offer V) (ready : Ready offer.timestampNs sub rows) (started : sub.started = true)
    (values : offer.values = sub.scratch)
    (due : sub.request.periodNs = 0 ∨ offer.timestampNs < gridEnd sub.request.periodNs →
      DueRow sub.request.periodNs rows offer) :
    Offered offer sub rows (sub.appendRowLocked offer.timestampNs) (rows ++ [offer.toRow]) where
  shaped := ready.shaped.append ready.read
  tracks := by
    have row : offer.toRow = ⟨offer.timestampNs, sub.scratch⟩ := by rw [← values]
    rw [row]
    exact ready.tracks.append ready.shaped started ready.later
  request := rfl
  generation := rfl
  scratch := values.symm
  nonempty := List.append_ne_nil_of_right_ne_nil _ (List.cons_ne_nil _ _)
  grows := Or.inr rfl
  later := ready.later
  due inTime := (if_pos (due inTime)).symm

theorem Ready.skip (offer : Offer V) (ready : Ready offer.timestampNs sub rows) (nonempty : rows ≠ [])
    (values : offer.values = sub.scratch)
    (notDue : sub.request.periodNs = 0 ∨ offer.timestampNs < gridEnd sub.request.periodNs →
      ¬DueRow sub.request.periodNs rows offer) : Offered offer sub rows sub rows where
  shaped := ready.shaped
  tracks := ready.tracks
  request := rfl
  generation := rfl
  scratch := values.symm
  nonempty := nonempty
  grows := Or.inl rfl
  later := ready.later
  due inTime := (if_neg (notDue inTime)).symm

theorem Ready.first (offer : Offer V) (ready : Ready offer.timestampNs sub rows) (idle : sub.started = false)
    (values : offer.values = sub.scratch) (counter : Nat) :
    Offered offer sub rows
      ((sub.startGenerationLocked counter offer.timestampNs false).2.appendRowLocked offer.timestampNs)
      (rows ++ [offer.toRow]) := by
  obtain rfl := ready.tracks.idle idle
  have start : Ready offer.timestampNs (sub.startGenerationLocked counter offer.timestampNs false).2 [] :=
    ⟨ready.shaped.start false, start_tracks sub false, ready.read, fun h => absurd rfl h, fun _ _ => rfl⟩
  have appended := start.append offer rfl values (fun _ => trivial)
  exact ⟨appended.shaped, appended.tracks, rfl, rfl, appended.scratch, appended.nonempty, Or.inr rfl,
    fun h => absurd rfl h, fun _ => (if_pos trivial).symm⟩

theorem dueRow_iff (offer : Offer V) (tracks : sub.Tracks rows) (nonempty : rows ≠ []) (period : Nat) :
    DueRow period rows offer ↔
      if offer.timestampNs = sub.lastTimeNs then
        offer.values ≠ sub.last ∧ sub.rowsAtInstant < kMaxRowsPerInstant
      else offer.parameter = true ∨
        if period = 0 then offer.values ≠ sub.last else GridPointIn period sub.lastTimeNs offer.timestampNs := by
  obtain ⟨front, last, rfl⟩ := List.eq_nil_or_concat' rows |>.resolve_left nonempty
  have latest := tracks.latest last List.getLast?_concat
  rw [DueRow, List.getLast?_concat, tracks.instant, latest]
  simp only []
  split
  · rename_i same
    rw [same]
  · rfl

variable [DecidableEq V]

theorem differsFromLast_iff (tracks : sub.Tracks rows) :
    sub.differsFromLast = true ↔ rows = [] ∨ sub.scratch ≠ sub.last := by
  rw [differsFromLast, decide_eq_true_iff, tracks.count, List.length_eq_zero_iff]

theorem Ready.step (ready : Ready timestampNs sub rows) (started : sub.started = true) :
    ∃ nextRows, Offered ⟨⟨timestampNs, sub.scratch⟩, false⟩ sub rows (sub.recordStep timestampNs) nextRows := by
  unfold recordStep
  have append := ready.append ⟨⟨timestampNs, sub.scratch⟩, false⟩ started rfl
  have skip := fun nonempty => ready.skip ⟨⟨timestampNs, sub.scratch⟩, false⟩ nonempty rfl
  have differs := differsFromLast_iff ready.tracks
  by_cases empty : rows = []
  · subst empty
    have fresh := ready.fresh started rfl
    have instant : sub.rowsAtInstant < kMaxRowsPerInstant := by
      rw [ready.tracks.instant]
      exact Nat.zero_lt_succ 3
    rw [if_pos fresh.symm, if_pos ⟨differs.mpr (Or.inl rfl), instant⟩]
    exact ⟨_, append fun _ => trivial⟩
  · have due := dueRow_iff ⟨⟨timestampNs, sub.scratch⟩, false⟩ ready.tracks empty sub.request.periodNs
    have differs := differs.trans (or_iff_right empty)
    split
    · rename_i same
      rw [if_pos same] at due
      split
      · rename_i rule
        exact ⟨_, append fun _ => due.mpr ⟨differs.mp rule.1, rule.2⟩⟩
      · rename_i rule
        exact ⟨_, skip empty fun _ holds => rule ⟨differs.mpr (due.mp holds).1, (due.mp holds).2⟩⟩
    · rename_i moved
      rw [if_neg moved] at due
      have due := due.trans (or_iff_right Bool.false_ne_true)
      have rule : sub.request.periodNs = 0 ∨ timestampNs < gridEnd sub.request.periodNs →
          ((if sub.request.periodNs = 0 then sub.differsFromLast else decide (sub.nextGridNs ≤ timestampNs)) = true ↔
            DueRow sub.request.periodNs rows ⟨⟨timestampNs, sub.scratch⟩, false⟩) := by
        intro inTime
        rw [due]
        rcases Nat.eq_zero_or_pos sub.request.periodNs with zero | positive
        · rw [if_pos zero, if_pos zero, differs]
        · have grid := Nat.pos_iff_ne_zero.mp positive
          rw [if_neg grid, if_neg grid, decide_eq_true_iff, ready.tracks.grid empty positive]
          exact gridAfter_le positive (ready.later empty) (inTime.resolve_left grid)
      generalize (if sub.request.periodNs = 0 then sub.differsFromLast
        else decide (sub.nextGridNs ≤ timestampNs)) = appends at rule ⊢
      cases appends with
      | true => exact ⟨_, append fun inTime => (rule inTime).mp rfl⟩
      | false => exact ⟨_, skip empty fun inTime holds => nomatch (rule inTime).mpr holds⟩

theorem Ready.parameter (ready : Ready timestampNs sub rows) (started : sub.started = true) :
    ∃ nextRows, Offered ⟨⟨timestampNs, sub.scratch⟩, true⟩ sub rows (sub.recordParameter timestampNs) nextRows := by
  unfold recordParameter
  have append := ready.append ⟨⟨timestampNs, sub.scratch⟩, true⟩ started rfl
  have skip := fun nonempty => ready.skip ⟨⟨timestampNs, sub.scratch⟩, true⟩ nonempty rfl
  have differs := differsFromLast_iff ready.tracks
  by_cases empty : rows = []
  · subst empty
    have none : sub.count = 0 := ready.tracks.count
    rw [if_pos (Or.inl none)]
    exact ⟨_, append fun _ => trivial⟩
  · have due := dueRow_iff ⟨⟨timestampNs, sub.scratch⟩, true⟩ ready.tracks empty sub.request.periodNs
    have differs := differs.trans (or_iff_right empty)
    have later := ready.later empty
    have some : sub.count ≠ 0 := by
      rw [ready.tracks.count]
      exact fun none => empty (List.length_eq_zero_iff.mp none)
    split
    · rename_i rule
      refine ⟨_, append fun _ => due.mpr ?_⟩
      rcases rule.resolve_left some with moved | ⟨changed, room⟩
      · rw [if_neg (Nat.ne_of_gt moved)]
        exact Or.inl rfl
      · split
        · exact ⟨differs.mp changed, room⟩
        · exact Or.inl rfl
    · rename_i rule
      refine ⟨_, skip empty fun _ holds => rule (Or.inr ?_)⟩
      have holds := due.mp holds
      rcases Nat.lt_or_eq_of_le later with moved | same
      · exact Or.inl moved
      · rw [if_pos same.symm] at holds
        exact Or.inr ⟨differs.mpr holds.1, holds.2⟩

/-- A call settles the generation and then offers its row. -/
def Calls (parameter : Bool) (timestampNs counter : Nat) (sub : Subscription V) (rows : List (Row V))
    (next : Nat × Subscription V) (nextRows : List (Row V)) : Prop :=
  ∃ mid midRows values, Continues counter sub rows (next.1, mid) midRows ∧
    Offered ⟨⟨timestampNs, values⟩, parameter⟩ mid midRows next.2 nextRows

theorem record_calls (runtime : SignalRuntime V) (resolve : Resolver) (shaped : sub.Shaped)
    (tracks : sub.Tracks rows) (fresh : sub.started = true → rows = [] → sub.lastTimeNs = timestampNs)
    (counter : Nat) : ∃ nextRows,
      Calls false timestampNs counter sub rows (sub.record timestampNs runtime resolve counter) nextRows := by
  obtain ⟨midRows, ready, continues⟩ := prepare_ready runtime resolve shaped tracks fresh counter
  unfold record
  generalize sub.prepareLocked counter timestampNs runtime resolve = prepared at ready continues ⊢
  obtain ⟨settled, mid⟩ := prepared
  simp only []
  split
  · rename_i idle
    exact ⟨_, mid, midRows, mid.scratch, continues, ready.first ⟨⟨timestampNs, mid.scratch⟩, false⟩ idle rfl settled⟩
  · rename_i running
    obtain ⟨nextRows, offered⟩ := ready.step (by simpa using running)
    exact ⟨nextRows, mid, midRows, mid.scratch, continues, offered⟩

theorem noteParameter_calls (componentIndex : Nat) (name : String) (value : V) (runtime : SignalRuntime V)
    (resolve : Resolver) (shaped : sub.Shaped) (tracks : sub.Tracks rows)
    (fresh : sub.started = true → rows = [] → sub.lastTimeNs = timestampNs) (counter : Nat) : ∃ nextRows,
      Calls true timestampNs counter sub rows
        (sub.noteParameter timestampNs componentIndex name value runtime resolve counter) nextRows := by
  obtain ⟨midRows, ready, continues⟩ := prepare_ready runtime resolve shaped tracks fresh counter
  unfold noteParameter
  generalize sub.prepareLocked counter timestampNs runtime resolve = prepared at ready continues ⊢
  obtain ⟨settled, mid⟩ := prepared
  simp only []
  split
  · rename_i idle
    have offered : Offered ⟨⟨timestampNs, mid.scratch⟩, true⟩ mid midRows
        ((mid.startGenerationLocked settled timestampNs false).2.recordParameter timestampNs) _ :=
      ready.first _ idle rfl settled
    exact ⟨_, mid, midRows, mid.scratch, continues, offered.pushEvent _⟩
  · rename_i running
    obtain ⟨nextRows, offered⟩ := ready.parameter (by simpa using running)
    exact ⟨nextRows, mid, midRows, mid.scratch, continues, offered.pushEvent _⟩

end Subscription

end LasecSimul.Recording
