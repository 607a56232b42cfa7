import LasecSimul.Recording.Series

/-!
# Chunks and calls

What one chunk shows of a series, and what one call does to the series of one subscription.
-/

namespace LasecSimul.Recording

open Lib

variable {V : Type} [Cell V]

structure SeriesChunk.Shows (chunk : SeriesChunk V) (channels : Nat) (rows : List (Row V)) : Prop where
  times : chunk.timestampsNs = rows.map (·.timestampNs)
  columns : chunk.columns = (List.range channels).map (columnOf · rows)

/-- Rows that the chunks show, in order, with as many rows between them as they report lost. -/
inductive Accounts (channels : Nat) : List (SeriesChunk V) → List (Row V) → Prop where
  | nil : Accounts channels [] []
  | snoc {chunks : List (SeriesChunk V)} {rows lost shown : List (Row V)} {chunk : SeriesChunk V} :
    Accounts channels chunks rows → lost.length = chunk.lost → chunk.Shows channels shown →
    Accounts channels (chunks ++ [chunk]) (rows ++ lost ++ shown)

theorem columnOf_slice (channel first n : Nat) (rows : List (Row V)) :
    ((columnOf channel rows).drop first).take n = columnOf channel ((rows.drop first).take n) := by
  rw [columnOf, columnOf, List.map_take, List.map_drop]

namespace Subscription

variable {sub : Subscription V} {rows : List (Row V)}

theorem slots_show (shaped : sub.Shaped) (tracks : sub.Tracks rows) (first n : Nat)
    (recent : rows.length - sub.request.capacityRows ≤ first) (available : first + n ≤ rows.length) :
    ((List.range' first n).map (· % sub.request.capacityRows)).map (sub.times.getD · 0) =
        ((rows.drop first).take n).map (·.timestampNs) ∧
      (sub.columns.map fun column =>
          ((List.range' first n).map (· % sub.request.capacityRows)).map (column.getD · zeroCell)) =
        (List.range sub.request.channels.length).map (columnOf · ((rows.drop first).take n)) := by
  constructor
  · have recentTimes : (rows.map (·.timestampNs)).length - sub.times.length ≤ first := by
      rwa [List.length_map, shaped.times]
    have slice := tracks.times.read 0 recentTimes (n := n) (by rwa [List.length_map])
    rw [shaped.times] at slice
    rw [List.map_map, List.map_take, List.map_drop, ← slice]
    rfl
  · apply List.ext_getElem?
    intro channel
    rw [List.getElem?_map, List.getElem?_map]
    rcases Nat.lt_or_ge channel sub.request.channels.length with lt | ge
    · have inside : channel < sub.columns.length := shaped.channels ▸ lt
      have here := List.getElem?_eq_getElem inside
      have size := shaped.columns _ (List.getElem_mem inside)
      have recentCells : (columnOf channel rows).length - (sub.columns[channel]).length ≤ first := by
        rwa [columnOf, List.length_map, size]
      have slice := (tracks.columns channel _ here).read zeroCell recentCells (n := n)
        (by rwa [columnOf, List.length_map])
      rw [size, columnOf_slice] at slice
      rw [here, List.getElem?_range lt, Option.map_some, Option.map_some, List.map_map, ← slice]
      rfl
    · rw [List.getElem?_eq_none (shaped.channels ▸ ge), List.getElem?_eq_none (by simpa using ge)]
      rfl

/-- A chunk read from a position within the series skips the rows it reports lost and shows the next ones. -/
theorem chunk_shows (shaped : sub.Shaped) (tracks : sub.Tracks rows) (id : Nat) {generation : Option Nat}
    {sinceSeq since : Nat} (sinceEventSeq maxRows : Nat)
    (position : since = if generation = none ∨ generation = some sub.generation then sinceSeq else 0)
    (within : since ≤ rows.length) :
    ∃ lost shown rest, rows.drop since = lost ++ shown ++ rest ∧
      lost.length = (sub.chunk id generation sinceSeq sinceEventSeq maxRows).lost ∧
      (sub.chunk id generation sinceSeq sinceEventSeq maxRows).Shows sub.request.channels.length shown ∧
      (sub.chunk id generation sinceSeq sinceEventSeq maxRows).toSeq = since + lost.length + shown.length ∧
      ((sub.chunk id generation sinceSeq sinceEventSeq maxRows).more = false ↔ rest = []) ∧
      (rest = [] ∨ shown.length = max maxRows 1) := by
  have count := tracks.count
  generalize firstIs : max since (rows.length - sub.request.capacityRows) = start
  generalize lastIs : min rows.length (start + max maxRows 1) = stop
  have first : max (min since rows.length)
      (if sub.request.capacityRows < rows.length then rows.length - sub.request.capacityRows else 0) = start := by
    split <;> omega
  have order : since ≤ start ∧ start ≤ stop ∧ stop ≤ rows.length := by omega
  have shows := slots_show shaped tracks start (stop - start) (by omega) (by omega)
  have skipped : ((rows.drop since).take (start - since)).length = start - since := by
    rw [List.length_take, List.length_drop]
    omega
  have shown : ((rows.drop start).take (stop - start)).length = stop - start := by
    rw [List.length_take, List.length_drop]
    omega
  have remaining : rows.drop stop = [] ↔ ¬stop < rows.length := by
    rw [List.drop_eq_nil_iff, Nat.not_lt]
  refine ⟨(rows.drop since).take (start - since), (rows.drop start).take (stop - start), rows.drop stop,
    ?_, ?_, ⟨?_, ?_⟩, ?_, ?_, ?_⟩
  · have front := (List.take_append_drop (start - since) (rows.drop since)).symm
    have back := (List.take_append_drop (stop - start) (rows.drop start)).symm
    rw [List.drop_drop, Nat.add_sub_cancel' order.1] at front
    rw [List.drop_drop, Nat.add_sub_cancel' order.2.1] at back
    rw [List.append_assoc, ← back]
    exact front
  · simp only [chunk, ← position, count, first, skipped]
    split <;> omega
  · simp only [chunk, ← position, count, first, lastIs]
    exact shows.1
  · simp only [chunk, ← position, count, first, lastIs]
    exact shows.2
  · simp only [chunk, ← position, count, first, lastIs, skipped, shown]
    omega
  · simp only [chunk, ← position, count, first, lastIs, remaining, decide_eq_false_iff_not]
  · rw [remaining, shown]
    omega

end Subscription

/-! ### One call on one subscription -/

/-- What a call at which `offer` is made does to a series: it goes on, or a new generation has its row. -/
inductive Outcome (offer : Offer V) (counter counter' : Nat) (sub : Subscription V) (rows : List (Row V))
    (next : Subscription V) : List (Row V) → Prop where
  | continues (nextRows : List (Row V)) : next.generation = sub.generation →
    nextRows = rows ∨ nextRows = rows ++ [offer.toRow] →
    (sub.request.periodNs = 0 ∨ offer.timestampNs < gridEnd sub.request.periodNs →
      nextRows = accept sub.request.periodNs rows offer) →
    Outcome offer counter counter' sub rows next nextRows
  | restarts : counter < next.generation → next.generation ≤ counter' →
    Outcome offer counter counter' sub rows next [offer.toRow]

omit [Cell V] in
theorem eachSubscription_mono {f : Nat → Subscription V → Nat × Subscription V}
    (mono : ∀ counter sub, counter ≤ (f counter sub).1) (counter : Nat) (subs : List (Nat × Subscription V)) :
    counter ≤ (eachSubscription f counter subs).1 := by
  induction subs generalizing counter with
  | nil => exact Nat.le_refl _
  | cons first rest ih => exact Nat.le_trans (mono counter first.2) (ih _)

omit [Cell V] in
theorem eachSubscription_lookup {f : Nat → Subscription V → Nat × Subscription V}
    (mono : ∀ counter sub, counter ≤ (f counter sub).1) (id counter : Nat) (subs : List (Nat × Subscription V)) :
    match subs.lookup id with
    | none => (eachSubscription f counter subs).2.lookup id = none
    | some sub => ∃ start, counter ≤ start ∧ (f start sub).1 ≤ (eachSubscription f counter subs).1 ∧
        (eachSubscription f counter subs).2.lookup id = some (f start sub).2 := by
  induction subs generalizing counter with
  | nil => rfl
  | cons first rest ih =>
    obtain ⟨here, sub⟩ := first
    have later := ih (f counter sub).1
    simp only [eachSubscription]
    by_cases isHere : id = here
    · subst isHere
      rw [List.lookup_cons_self]
      exact ⟨counter, Nat.le_refl _, eachSubscription_mono mono _ rest, List.lookup_cons_self⟩
    · have skip : (id == here) = false := by simpa using isHere
      rw [List.lookup_cons, skip, List.lookup_cons, skip]
      cases found : rest.lookup id with
      | none =>
        rw [found] at later
        exact later
      | some other =>
        rw [found] at later
        obtain ⟨start, le, final, result⟩ := later
        exact ⟨start, Nat.le_trans (mono counter sub) le, final, result⟩

namespace SignalRecorder

variable {recorder : SignalRecorder V} {id timestampNs executionId : Nat} {sub : Subscription V}
  {rows : List (Row V)} {f : Nat → Subscription V → Nat × Subscription V}

omit [Cell V] in
theorem each_find (mono : ∀ counter sub, counter ≤ (f counter sub).1) (found : recorder.find id = some sub) :
    ∃ counter, recorder.generationCounter ≤ counter ∧ (f counter sub).1 ≤ (recorder.each f).generationCounter ∧
      (recorder.each f).find id = some (f counter sub).2 := by
  have lookup := eachSubscription_lookup mono id recorder.generationCounter recorder.subscriptions
  rw [find] at found
  rw [found] at lookup
  exact lookup

omit [Cell V] in
theorem each_find_none (mono : ∀ counter sub, counter ≤ (f counter sub).1) (absent : recorder.find id = none) :
    (recorder.each f).find id = none := by
  have lookup := eachSubscription_lookup mono id recorder.generationCounter recorder.subscriptions
  rw [find] at absent
  rw [absent] at lookup
  exact lookup

theorem restart_mono (timestampNs counter : Nat) (sub : Subscription V) :
    counter ≤ (Subscription.restart timestampNs counter sub).1 := by
  unfold Subscription.restart
  split
  · exact Nat.le_succ counter
  · exact Nat.le_refl _

theorem beginExecution_find (executionId timestampNs : Nat) (found : recorder.find id = some sub) (shaped : sub.Shaped) (tracks : sub.Tracks rows)
    (begun : sub.started = true → rows ≠ []) :
    ∃ mid midRows, (recorder.beginExecutionLocked executionId timestampNs).find id = some mid ∧ mid.Shaped ∧
      mid.Tracks midRows ∧ (mid.started = true → midRows = [] → mid.lastTimeNs = timestampNs) ∧
      mid.request = sub.request ∧
      recorder.generationCounter ≤ (recorder.beginExecutionLocked executionId timestampNs).generationCounter ∧
      ((mid.generation = sub.generation ∧ midRows = rows) ∨
        (recorder.generationCounter < mid.generation ∧
          mid.generation ≤ (recorder.beginExecutionLocked executionId timestampNs).generationCounter ∧
          midRows = [])) := by
  unfold beginExecutionLocked
  split
  · exact ⟨sub, rows, found, shaped, tracks, fun started none => absurd none (begun started), rfl, Nat.le_refl _,
      Or.inl ⟨rfl, rfl⟩⟩
  · have foundNow : SignalRecorder.find { recorder with executionId } id = some sub := found
    obtain ⟨counter, le, final, result⟩ := each_find (restart_mono timestampNs) foundNow
    have mono := eachSubscription_mono (restart_mono timestampNs) recorder.generationCounter recorder.subscriptions
    refine ⟨_, if sub.started then [] else rows, result, ?_⟩
    unfold Subscription.restart at final ⊢
    split
    · rename_i started
      rw [if_pos started] at final
      exact ⟨shaped.start true, Subscription.start_tracks sub true, fun _ _ => rfl, rfl, mono,
        Or.inr ⟨Nat.lt_succ_of_le le, final, rfl⟩⟩
    · rename_i idle
      exact ⟨shaped, tracks, fun started => absurd started idle, rfl, mono, Or.inl ⟨rfl, rfl⟩⟩

/-- A call that does `f` to every subscription, seen at one of them. -/
theorem call_outcome {parameter : Bool} (mono : ∀ counter sub, counter ≤ (f counter sub).1)
    (calls : ∀ {sub : Subscription V} {rows}, sub.Shaped → sub.Tracks rows →
      (sub.started = true → rows = [] → sub.lastTimeNs = timestampNs) → ∀ counter, ∃ nextRows,
        Subscription.Calls parameter timestampNs counter sub rows (f counter sub) nextRows)
    (found : recorder.find id = some sub) (shaped : sub.Shaped) (tracks : sub.Tracks rows)
    (begun : sub.started = true → rows ≠ []) :
    ∃ next nextRows, ((recorder.beginExecutionLocked executionId timestampNs).each f).find id = some next ∧
      next.Shaped ∧ next.Tracks nextRows ∧ nextRows ≠ [] ∧ next.request = sub.request ∧
      Outcome ⟨⟨timestampNs, next.scratch⟩, parameter⟩ recorder.generationCounter
        ((recorder.beginExecutionLocked executionId timestampNs).each f).generationCounter sub rows next nextRows := by
  obtain ⟨mid, midRows, midFound, midShaped, midTracks, fresh, request, le, settled⟩ :=
    beginExecution_find executionId timestampNs found shaped tracks begun
  obtain ⟨counter, later, final, result⟩ := each_find mono midFound
  obtain ⟨nextRows, prepared, preparedRows, values, ⟨sameRequest, continues⟩, offered⟩ :=
    calls midShaped midTracks fresh counter
  have nextRequest := (offered.request.trans sameRequest).trans request
  refine ⟨_, nextRows, result, offered.shaped, offered.tracks, offered.nonempty, nextRequest, ?_⟩
  have row : preparedRows = [] → nextRows = [(⟨timestampNs, (f counter mid).2.scratch⟩ : Row V)] := by
    intro none
    have grows := offered.grows
    rw [none] at grows
    rw [offered.scratch]
    exact grows.resolve_left offered.nonempty
  rcases continues with ⟨-, sameGeneration, rfl⟩ | ⟨advanced, newGeneration, none⟩
  · rcases settled with ⟨midGeneration, rfl⟩ | ⟨above, below, none⟩
    · refine .continues nextRows ((offered.generation.trans sameGeneration).trans midGeneration) ?_ ?_
      · rw [offered.scratch]
        exact offered.grows
      · have periods := congrArg SeriesSubscriptionRequest.periodNs (sameRequest.trans request)
        rw [← periods, offered.scratch]
        exact offered.due
    · rw [row none]
      rw [← sameGeneration, ← offered.generation] at above below
      exact .restarts above (Nat.le_trans below (Nat.le_trans later (Nat.le_trans (mono counter mid) final)))
  · rw [row none]
    refine .restarts ?_ ?_
    · rw [offered.generation, newGeneration]
      omega
    · rw [offered.generation, newGeneration, ← advanced]
      exact final

theorem prepareLocked_mono (timestampNs : Nat) (runtime : SignalRuntime V) (resolve : Resolver) (counter : Nat) (sub : Subscription V) :
    counter ≤ (sub.prepareLocked counter timestampNs runtime resolve).1 := by
  unfold Subscription.prepareLocked
  simp only []
  split
  · exact Nat.le_succ counter
  · exact Nat.le_refl _

variable [DecidableEq V]

theorem record_mono (runtime : SignalRuntime V) (resolve : Resolver) (counter : Nat) (sub : Subscription V) :
    counter ≤ (sub.record timestampNs runtime resolve counter).1 := by
  have prepared := prepareLocked_mono timestampNs runtime resolve counter sub
  unfold Subscription.record
  simp only []
  split
  · exact prepared
  · exact prepared

theorem noteParameter_mono (componentIndex : Nat) (name : String) (value : V) (runtime : SignalRuntime V)
    (resolve : Resolver) (counter : Nat) (sub : Subscription V) :
    counter ≤ (sub.noteParameter timestampNs componentIndex name value runtime resolve counter).1 := by
  have prepared := prepareLocked_mono timestampNs runtime resolve counter sub
  unfold Subscription.noteParameter
  simp only []
  split
  · exact prepared
  · exact prepared

/-- What the call of one method does to the recorder, for the subscription `id`. -/
structure Calls (id : Nat) (parameter : Bool) (timestampNs : Nat) (recorder next : SignalRecorder V) : Prop where
  nextId : next.nextId = recorder.nextId
  counter : recorder.generationCounter ≤ next.generationCounter
  absent : recorder.find id = none → next.find id = none
  present : ∀ {sub rows}, recorder.find id = some sub → sub.Shaped → sub.Tracks rows →
    (sub.started = true → rows ≠ []) →
    ∃ after nextRows, next.find id = some after ∧ after.Shaped ∧ after.Tracks nextRows ∧ nextRows ≠ [] ∧
      after.request = sub.request ∧
      Outcome ⟨⟨timestampNs, after.scratch⟩, parameter⟩ recorder.generationCounter next.generationCounter sub rows
        after nextRows

omit [Cell V] [DecidableEq V] in
theorem hasSubscriptions_find (found : recorder.find id = some sub) : recorder.hasSubscriptions = true := by
  unfold hasSubscriptions
  rw [find] at found
  cases none : recorder.subscriptions with
  | nil =>
    rw [none] at found
    cases found
  | cons => rfl

omit [DecidableEq V] in
theorem beginExecutionLocked_frame (id : Nat) (recorder : SignalRecorder V) (executionId timestampNs : Nat) :
    (recorder.beginExecutionLocked executionId timestampNs).nextId = recorder.nextId ∧
      recorder.generationCounter ≤ (recorder.beginExecutionLocked executionId timestampNs).generationCounter ∧
      (recorder.find id = none → (recorder.beginExecutionLocked executionId timestampNs).find id = none) := by
  unfold beginExecutionLocked
  split
  · exact ⟨rfl, Nat.le_refl _, fun absent => absent⟩
  · exact ⟨rfl, eachSubscription_mono (restart_mono timestampNs) _ _,
      fun absent => each_find_none (restart_mono timestampNs) absent⟩

omit [DecidableEq V] in
theorem callEach_calls {parameter : Bool} (executionId : Nat) (mono : ∀ counter sub, counter ≤ (f counter sub).1)
    (calls : ∀ {sub : Subscription V} {rows}, sub.Shaped → sub.Tracks rows →
      (sub.started = true → rows = [] → sub.lastTimeNs = timestampNs) → ∀ counter, ∃ nextRows,
        Subscription.Calls parameter timestampNs counter sub rows (f counter sub) nextRows)
    (recorder : SignalRecorder V) : Calls id parameter timestampNs recorder
      (if recorder.hasSubscriptions then (recorder.beginExecutionLocked executionId timestampNs).each f
      else recorder) := by
  obtain ⟨nextId, counter, absent⟩ := beginExecutionLocked_frame id recorder executionId timestampNs
  split
  · exact ⟨nextId, Nat.le_trans counter (eachSubscription_mono mono _ _),
      fun none => each_find_none mono (absent none), fun found shaped tracks begun =>
        call_outcome mono calls found shaped tracks begun⟩
  · rename_i nobody
    exact ⟨rfl, Nat.le_refl _, fun none => none, fun found => absurd (hasSubscriptions_find found) nobody⟩

theorem record_calls (recorder : SignalRecorder V) (id timestampNs executionId : Nat) (runtime : SignalRuntime V)
    (resolve : Resolver) :
    Calls id false timestampNs recorder (recorder.record timestampNs executionId runtime resolve) :=
  callEach_calls executionId (record_mono runtime resolve) (Subscription.record_calls runtime resolve) recorder

theorem noteParameter_calls (recorder : SignalRecorder V) (id timestampNs executionId componentIndex : Nat)
    (name : String) (value : V) (runtime : SignalRuntime V) (resolve : Resolver) :
    Calls id true timestampNs recorder
      (recorder.noteParameter timestampNs executionId componentIndex name value runtime resolve) :=
  callEach_calls executionId (noteParameter_mono componentIndex name value runtime resolve)
    (Subscription.noteParameter_calls componentIndex name value runtime resolve) recorder

end SignalRecorder

end LasecSimul.Recording
