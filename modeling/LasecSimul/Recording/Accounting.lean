import LasecSimul.Lib.Fallible
import LasecSimul.Lib.Trace
import LasecSimul.Recording.Reader

/-!
# Lossless draining

A reader passes back the generation and the position of its last chunk. What it receives and what it is
told it lost account for a beginning of the rows of every generation.
-/

namespace LasecSimul.Recording

open Lib Lib.Trace

variable {V : Type} [Cell V]

section Tagged

variable {α : Type} {entries : List (Nat × α)} {generation other : Nat} {a : α}

/-- The entries of one generation. -/
def tagged (entries : List (Nat × α)) (generation : Nat) : List α :=
  entries.filterMap fun (own, a) => if own = generation then some a else none

theorem tagged_append (entries more : List (Nat × α)) (generation : Nat) :
    tagged (entries ++ more) generation = tagged entries generation ++ tagged more generation :=
  List.filterMap_append

theorem tagged_own : tagged [(generation, a)] generation = [a] := by
  simp [tagged]

theorem tagged_other (differs : generation ≠ other) : tagged [(generation, a)] other = [] := by
  simp [tagged, differs]

theorem tagged_above (below : ∀ entry ∈ entries, entry.1 < generation) : tagged entries generation = [] := by
  rw [tagged, List.filterMap_eq_nil_iff]
  intro entry member
  exact if_neg (Nat.ne_of_lt (below entry member))

end Tagged

/-- The recorder with one reader of one subscription. `recorded` and `offers` are the history of that
subscription, each entry with its generation. -/
structure Session (V : Type) where
  recorder : SignalRecorder V
  generation : Option Nat := none
  sinceSeq : Nat := 0
  sinceEventSeq : Nat := 0
  chunks : List (SeriesChunk V) := []
  recorded : List (Nat × Row V) := []
  offers : List (Nat × Offer V) := []

/-- A call appended a row when the count or the generation moved; the row is the last one. -/
def appendedRow (before after : Option (Subscription V)) : List (Nat × Row V) :=
  match after with
  | none => []
  | some after =>
    if before.map (fun sub => (sub.generation, sub.count)) = some (after.generation, after.count) then []
    else [(after.generation, ⟨after.lastTimeNs, after.last⟩)]

def offeredRow (parameter : Bool) (timestampNs : Nat) (after : Option (Subscription V)) : List (Nat × Offer V) :=
  match after with
  | none => []
  | some after => [(after.generation, ⟨⟨timestampNs, after.scratch⟩, parameter⟩)]

namespace Session

def called (id : Nat) (s : Session V) (recorder : SignalRecorder V) (parameter : Bool) (timestampNs : Nat) :
    Session V :=
  { s with
    recorder
    recorded := s.recorded ++ appendedRow (s.recorder.find id) (recorder.find id)
    offers := s.offers ++ offeredRow parameter timestampNs (recorder.find id) }

def received (s : Session V) (chunk : SeriesChunk V) : Session V :=
  { s with
    generation := some chunk.generation
    sinceSeq := chunk.toSeq
    sinceEventSeq := chunk.nextEventSeq
    chunks := s.chunks ++ [chunk] }

/-- The rows recorded in a generation. -/
def rowsOf (s : Session V) (generation : Nat) : List (Row V) := tagged s.recorded generation

def offersOf (s : Session V) (generation : Nat) : List (Offer V) := tagged s.offers generation

def chunksOf (s : Session V) (generation : Nat) : List (SeriesChunk V) :=
  s.chunks.filter (·.generation = generation)

end Session

variable [DecidableEq V]

inductive Call (V : Type) where
  | subscribe (request : SeriesSubscriptionRequest)
  | unsubscribe (id : Nat)
  | record (timestampNs executionId : Nat) (runtime : SignalRuntime V) (resolve : Resolver)
  | noteParameter (timestampNs executionId componentIndex : Nat) (name : String) (value : V)
    (runtime : SignalRuntime V) (resolve : Resolver)
  | drain (maxRows : Nat)

/-- The steps of a recorder one of whose subscriptions, `id`, is drained by the reader. Drains of other
subscriptions change nothing. -/
inductive Step (id : Nat) : Session V → Call V → Session V → Prop where
  | subscribe {s : Session V} {request : SeriesSubscriptionRequest} {other : Nat} {recorder : SignalRecorder V} :
    s.recorder.subscribe request = .ok (other, recorder) → Step id s (.subscribe request) { s with recorder }
  | unsubscribe (s : Session V) (other : Nat) :
    Step id s (.unsubscribe other) { s with recorder := s.recorder.unsubscribe other }
  | record (s : Session V) (timestampNs executionId : Nat) (runtime : SignalRuntime V) (resolve : Resolver) :
    Step id s (.record timestampNs executionId runtime resolve)
      (s.called id (s.recorder.record timestampNs executionId runtime resolve) false timestampNs)
  | noteParameter (s : Session V) (timestampNs executionId componentIndex : Nat) (name : String) (value : V)
    (runtime : SignalRuntime V) (resolve : Resolver) :
    Step id s (.noteParameter timestampNs executionId componentIndex name value runtime resolve)
      (s.called id (s.recorder.noteParameter timestampNs executionId componentIndex name value runtime resolve) true
        timestampNs)
  | drain {s : Session V} {maxRows : Nat} {chunk : SeriesChunk V} :
    s.recorder.drain id s.generation s.sinceSeq s.sinceEventSeq maxRows = some chunk →
    Step id s (.drain maxRows) (s.received chunk)

omit [DecidableEq V] in
theorem Accounts.eq_nil {channels : Nat} {rows : List (Row V)} (accounts : Accounts channels [] rows) : rows = [] := by
  generalize none : ([] : List (SeriesChunk V)) = chunks at accounts
  cases accounts with
  | nil => rfl
  | snoc => cases List.append_ne_nil_of_right_ne_nil _ (List.cons_ne_nil _ _) none.symm

/-- The reader's position is where the accounted rows of its generation end. -/
structure Position (request : SeriesSubscriptionRequest) (s : Session V) : Prop where
  accounts : ∀ generation, ∃ accounted rest, s.rowsOf generation = accounted ++ rest ∧
    Accounts request.channels.length (s.chunksOf generation) accounted ∧
    (s.generation = some generation → accounted.length = s.sinceSeq)
  unread : s.generation = none → s.sinceSeq = 0 ∧ s.chunks = []

structure Inv (id : Nat) (request : SeriesSubscriptionRequest) (s : Session V) : Prop where
  known : id ≤ s.recorder.nextId
  current : ∀ sub, s.recorder.find id = some sub → sub.request = request ∧ sub.Shaped ∧
    sub.Tracks (s.rowsOf sub.generation) ∧ (sub.started = true → s.rowsOf sub.generation ≠ []) ∧
    sub.generation ≤ s.recorder.generationCounter ∧
    (s.generation ≠ some sub.generation → s.chunksOf sub.generation = [])
  rowsBelow : ∀ entry ∈ s.recorded, entry.1 ≤ s.recorder.generationCounter
  offersBelow : ∀ entry ∈ s.offers, entry.1 ≤ s.recorder.generationCounter
  chunksBelow : ∀ chunk ∈ s.chunks, chunk.generation ≤ s.recorder.generationCounter
  position : Position request s
  sorted : ∀ generation, (s.rowsOf generation).Pairwise (·.timestampNs ≤ ·.timestampNs)
  due : ∀ generation,
    (request.periodNs = 0 ∨ ∀ offer ∈ s.offersOf generation, offer.timestampNs < gridEnd request.periodNs) →
    s.rowsOf generation = admitted request.periodNs (s.offersOf generation)

variable {id : Nat} {request : SeriesSubscriptionRequest} {s t : Session V}

omit [DecidableEq V] in
theorem appendedRow_tracks {counter counter' : Nat} {offer : Offer V} {sub next : Subscription V}
    {rows nextRows : List (Row V)} (tracks : sub.Tracks rows) (nextTracks : next.Tracks nextRows)
    (outcome : Outcome offer counter counter' sub rows next nextRows) (below : sub.generation ≤ counter) :
    ∃ added, appendedRow (some sub) (some next) = added.map (fun row => (next.generation, row)) ∧
      (next.generation = sub.generation ∧ nextRows = rows ++ added ∨
        counter < next.generation ∧ nextRows = added) := by
  have appends (row : Row V) (last : nextRows.getLast? = some row)
      (moved : (sub.generation, sub.count) ≠ (next.generation, next.count)) :
      appendedRow (some sub) (some next) = [row].map (fun row => (next.generation, row)) := by
    rw [appendedRow, Option.map_some, if_neg (fun same => moved (Option.some.inj same)), nextTracks.latest row last]
    rfl
  cases outcome with
  | continues _ sameGeneration grows due =>
    rcases grows with rfl | rfl
    · refine ⟨[], if_pos ?_, Or.inl ⟨sameGeneration, (List.append_nil _).symm⟩⟩
      rw [Option.map_some, sameGeneration, tracks.count, nextTracks.count]
    · refine ⟨[offer.toRow], appends _ List.getLast?_concat fun same => ?_, Or.inl ⟨sameGeneration, rfl⟩⟩
      have counts := (Prod.mk.inj same).2
      rw [tracks.count, nextTracks.count, List.length_append, List.length_singleton] at counts
      omega
  | restarts above le =>
    refine ⟨[offer.toRow], appends _ rfl fun same => ?_, Or.inr ⟨above, rfl⟩⟩
    have generations := (Prod.mk.inj same).1
    omega

omit [Cell V] [DecidableEq V] in
theorem tagged_map (generation other : Nat) (rows : List (Row V)) :
    tagged (rows.map fun row => (generation, row)) other = if generation = other then rows else [] := by
  rw [tagged, List.filterMap_map]
  split
  · rename_i same
    exact (List.filterMap_congr fun row _ => if_pos same).trans List.filterMap_some
  · rename_i differs
    exact List.filterMap_eq_nil_iff.mpr fun row _ => if_neg differs

omit [DecidableEq V] in
/-- A step that leaves the series of the subscription as it is, or ends it. -/
theorem Inv.frame {recorder : SignalRecorder V} (inv : Inv id request s) (known : id ≤ recorder.nextId)
    (counter : s.recorder.generationCounter ≤ recorder.generationCounter)
    (kept : ∀ sub, recorder.find id = some sub → s.recorder.find id = some sub) :
    Inv id request { s with recorder } where
  known := known
  current sub found := by
    obtain ⟨isRequest, shaped, tracks, begun, below, fresh⟩ := inv.current sub (kept sub found)
    exact ⟨isRequest, shaped, tracks, begun, Nat.le_trans below counter, fresh⟩
  rowsBelow entry member := Nat.le_trans (inv.rowsBelow entry member) counter
  offersBelow entry member := Nat.le_trans (inv.offersBelow entry member) counter
  chunksBelow chunk member := Nat.le_trans (inv.chunksBelow chunk member) counter
  position := ⟨inv.position.accounts, inv.position.unread⟩
  sorted := inv.sorted
  due := inv.due

omit [DecidableEq V] in
theorem Inv.called {parameter : Bool} {timestampNs : Nat} {recorder : SignalRecorder V} (inv : Inv id request s)
    (calls : SignalRecorder.Calls id parameter timestampNs s.recorder recorder) :
    Inv id request (s.called id recorder parameter timestampNs) := by
  have known : id ≤ recorder.nextId := calls.nextId ▸ inv.known
  cases found : s.recorder.find id with
  | none =>
    have absent := calls.absent found
    have same : s.called id recorder parameter timestampNs = { s with recorder } := by
      simp [Session.called, appendedRow, offeredRow, absent]
    rw [same]
    exact inv.frame known calls.counter fun sub present => nomatch absent.symm.trans present
  | some sub =>
    obtain ⟨isRequest, shaped, tracks, begun, below, fresh⟩ := inv.current sub found
    obtain ⟨next, nextRows, nextFound, nextShaped, nextTracks, nonempty, sameRequest, outcome⟩ :=
      calls.present found shaped tracks begun
    obtain ⟨added, appended, goes⟩ := appendedRow_tracks tracks nextTracks outcome below
    have rowsNone (above : s.recorder.generationCounter < next.generation) : s.rowsOf next.generation = [] :=
      tagged_above fun entry member => Nat.lt_of_le_of_lt (inv.rowsBelow entry member) above
    have offersNone (above : s.recorder.generationCounter < next.generation) : s.offersOf next.generation = [] :=
      tagged_above fun entry member => Nat.lt_of_le_of_lt (inv.offersBelow entry member) above
    have chunksNone (above : s.recorder.generationCounter < next.generation) : s.chunksOf next.generation = [] := by
      rw [Session.chunksOf, List.filter_eq_nil_iff]
      intro chunk member same
      have le := inv.chunksBelow chunk member
      rw [decide_eq_true_iff] at same
      omega
    have recorded : (s.called id recorder parameter timestampNs).recorded =
        s.recorded ++ added.map fun row => (next.generation, row) := by
      rw [Session.called, found, nextFound, appended]
    have offers : (s.called id recorder parameter timestampNs).offers =
        s.offers ++ [(next.generation, ⟨⟨timestampNs, next.scratch⟩, parameter⟩)] := by
      rw [Session.called, nextFound, offeredRow]
    have rowsOf (generation : Nat) : (s.called id recorder parameter timestampNs).rowsOf generation =
        s.rowsOf generation ++ if next.generation = generation then added else [] := by
      rw [Session.rowsOf, recorded, tagged_append, tagged_map, Session.rowsOf]
    have rowsNext : (s.called id recorder parameter timestampNs).rowsOf next.generation = nextRows := by
      rw [rowsOf, if_pos rfl]
      rcases goes with ⟨same, rfl⟩ | ⟨above, rfl⟩
      · rw [same]
      · rw [rowsNone above, List.nil_append]
    have nextBelow : next.generation ≤ recorder.generationCounter := by
      cases outcome with
      | continues _ same => exact same ▸ Nat.le_trans below calls.counter
      | restarts _ le => exact le
    refine ⟨known, ?_, ?_, ?_, ?_, ⟨?_, ?_⟩, ?_, ?_⟩
    · intro now foundNow
      obtain rfl := Option.some.inj (nextFound.symm.trans foundNow)
      refine ⟨sameRequest.trans isRequest, nextShaped, rowsNext ▸ nextTracks, fun _ => rowsNext ▸ nonempty,
        nextBelow, fun elsewhere => ?_⟩
      rcases goes with ⟨same, -⟩ | ⟨above, -⟩
      · rw [same]
        exact fresh (same ▸ elsewhere)
      · exact chunksNone above
    · intro entry member
      rw [recorded, List.mem_append] at member
      rcases member with before | new
      · exact Nat.le_trans (inv.rowsBelow entry before) calls.counter
      · obtain ⟨row, -, rfl⟩ := List.mem_map.mp new
        exact nextBelow
    · intro entry member
      rw [offers, List.mem_append, List.mem_singleton] at member
      rcases member with before | rfl
      · exact Nat.le_trans (inv.offersBelow entry before) calls.counter
      · exact nextBelow
    · exact fun chunk member => Nat.le_trans (inv.chunksBelow chunk member) calls.counter
    · intro generation
      obtain ⟨accounted, rest, whole, accounts, here⟩ := inv.position.accounts generation
      exact ⟨accounted, rest ++ if next.generation = generation then added else [],
        by rw [rowsOf, whole, List.append_assoc], accounts, here⟩
    · exact inv.position.unread
    · intro generation
      by_cases isNext : next.generation = generation
      · rw [← isNext, rowsNext]
        exact nextTracks.sorted
      · rw [rowsOf, if_neg isNext, List.append_nil]
        exact inv.sorted generation
    · intro generation inTime
      by_cases isNext : next.generation = generation
      · subst isNext
        have offersNext : (s.called id recorder parameter timestampNs).offersOf next.generation =
            s.offersOf next.generation ++ [⟨⟨timestampNs, next.scratch⟩, parameter⟩] := by
          rw [Session.offersOf, offers, tagged_append, tagged_own, Session.offersOf]
        rw [offersNext] at inTime ⊢
        have early : request.periodNs = 0 ∨ timestampNs < gridEnd request.periodNs :=
          inTime.imp_right fun all => all _ (List.mem_append_right _ (List.mem_singleton.mpr rfl))
        have before := inv.due next.generation
          (inTime.imp_right fun all offer member => all offer (List.mem_append_left _ member))
        rw [rowsNext]
        cases outcome with
        | continues _ same grows due =>
          rw [admitted_concat, ← before, same, ← isRequest]
          exact due (isRequest ▸ early)
        | restarts above => rw [offersNone above, List.nil_append, admitted_singleton]
      · have same : (s.called id recorder parameter timestampNs).offersOf generation = s.offersOf generation := by
          rw [Session.offersOf, offers, tagged_append, tagged_other isNext, List.append_nil, Session.offersOf]
        rw [same] at inTime ⊢
        rw [rowsOf, if_neg isNext, List.append_nil]
        exact inv.due generation inTime

omit [DecidableEq V] in
theorem Inv.received {chunk : SeriesChunk V} {maxRows : Nat} (inv : Inv id request s)
    (drained : s.recorder.drain id s.generation s.sinceSeq s.sinceEventSeq maxRows = some chunk) :
    Inv id request (s.received chunk) ∧
      ∃ accounted rest, s.rowsOf chunk.generation = accounted ++ rest ∧
        Accounts request.channels.length ((s.received chunk).chunksOf chunk.generation) accounted ∧
        accounted.length = chunk.toSeq ∧ (chunk.more = false ↔ rest = []) ∧
        (rest = [] ∨ chunk.timestampsNs.length = max maxRows 1) := by
  rw [SignalRecorder.drain, Option.map_eq_some_iff] at drained
  obtain ⟨sub, found, isChunk⟩ := drained
  obtain ⟨isRequest, shaped, tracks, begun, below, fresh⟩ := inv.current sub found
  have generation : chunk.generation = sub.generation := isChunk ▸ rfl
  obtain ⟨accounted, rest, whole, accounts, here⟩ := inv.position.accounts sub.generation
  have unread (none : s.chunksOf sub.generation = []) : accounted.length = 0 := by
    rw [none] at accounts
    rw [accounts.eq_nil, List.length_nil]
  have position : accounted.length =
      if s.generation = none ∨ s.generation = some sub.generation then s.sinceSeq else 0 := by
    split
    · rename_i current
      rcases current with never | same
      · obtain ⟨zero, noChunks⟩ := inv.position.unread never
        rw [zero, unread (by rw [Session.chunksOf, noChunks, List.filter_nil])]
      · exact here same
    · rename_i elsewhere
      exact unread (fresh fun same => elsewhere (Or.inr same))
  have within : accounted.length ≤ (s.rowsOf sub.generation).length := by
    rw [whole, List.length_append]
    exact Nat.le_add_right _ _
  obtain ⟨lost, shown, left, split, lostCount, shows, toSeq, more, full⟩ :=
    sub.chunk_shows shaped tracks id s.sinceEventSeq maxRows position within
  rw [isChunk] at lostCount shows toSeq more
  rw [whole, List.drop_left] at split
  have chunksHere : (s.received chunk).chunksOf sub.generation = s.chunksOf sub.generation ++ [chunk] := by
    rw [Session.chunksOf, Session.received, List.filter_append, List.filter_singleton, decide_eq_true generation]
    rfl
  have accountsNow : Accounts request.channels.length ((s.received chunk).chunksOf sub.generation)
      (accounted ++ lost ++ shown) := by
    rw [chunksHere]
    exact accounts.snoc lostCount (isRequest ▸ shows)
  have reached : (accounted ++ lost ++ shown).length = chunk.toSeq := by
    rw [toSeq, List.length_append, List.length_append]
  have wholeNow : s.rowsOf sub.generation = accounted ++ lost ++ shown ++ left := by
    rw [whole, split]
    simp only [List.append_assoc]
  rw [generation]
  refine ⟨⟨inv.known, ?_, inv.rowsBelow, inv.offersBelow, ?_, ⟨?_, nofun⟩, inv.sorted, inv.due⟩,
    accounted ++ lost ++ shown, left, wholeNow, accountsNow, reached, more, full.imp_right fun full => ?_⟩
  · intro now foundNow
    obtain rfl := Option.some.inj (found.symm.trans foundNow)
    exact ⟨isRequest, shaped, tracks, begun, below, fun elsewhere => absurd (congrArg some generation) elsewhere⟩
  · intro other member
    rw [Session.received, List.mem_append, List.mem_singleton] at member
    rcases member with before | rfl
    · exact inv.chunksBelow other before
    · exact generation ▸ below
  · intro other
    by_cases same : sub.generation = other
    · subst same
      exact ⟨_, left, wholeNow, accountsNow, fun _ => reached⟩
    · obtain ⟨otherAccounted, otherRest, otherWhole, otherAccounts, -⟩ := inv.position.accounts other
      have skipped : (s.received chunk).chunksOf other = s.chunksOf other := by
        rw [Session.chunksOf, Session.received, List.filter_append, List.filter_singleton,
          decide_eq_false (generation ▸ same)]
        exact List.append_nil _
      exact ⟨otherAccounted, otherRest, otherWhole, skipped ▸ otherAccounts,
        fun isOther => absurd (generation.symm.trans (Option.some.inj isOther)) same⟩
  · rw [shows.times, List.length_map, full]

omit [Cell V] [DecidableEq V] in
theorem unsubscribe_find (recorder : SignalRecorder V) (other : Nat) {sub : Subscription V}
    (found : (recorder.unsubscribe other).find id = some sub) : recorder.find id = some sub := by
  rw [SignalRecorder.find, SignalRecorder.unsubscribe] at found
  rw [SignalRecorder.find]
  have kept : id ≠ other := by
    rintro rfl
    have absent : (recorder.subscriptions.filter (·.1 ≠ id)).lookup id = none := by
      rw [List.lookup_eq_none_iff]
      intro entry member
      have differs := (List.mem_filter.mp member).2
      exact bne_iff_ne.mpr (of_decide_eq_true differs).symm
    rw [absent] at found
    cases found
  generalize recorder.subscriptions = subs at found ⊢
  induction subs with
  | nil => cases found
  | cons first rest ih =>
    obtain ⟨here, first⟩ := first
    rw [List.lookup_cons]
    by_cases removed : here = other
    · rw [List.filter_cons_of_neg (by simp [removed])] at found
      rw [beq_eq_false_iff_ne.mpr (removed ▸ kept)]
      exact ih found
    · rw [List.filter_cons_of_pos (by simpa using removed), List.lookup_cons] at found
      split
      · rename_i isHere
        rwa [isHere] at found
      · rename_i elsewhere
        rw [elsewhere] at found
        exact ih found

theorem Inv.step {call : Call V} (inv : Inv id request s) (step : Step id s call t) : Inv id request t := by
  cases step with
  | subscribe subscribed =>
    unfold SignalRecorder.subscribe at subscribed
    obtain ⟨sub, -, subscribed⟩ := Fallible.bind_ok subscribed
    cases subscribed
    refine inv.frame (Nat.le_succ_of_le inv.known) (Nat.le_succ _) fun found present => ?_
    rw [SignalRecorder.find, List.lookup_append, Option.or_eq_some_iff] at present
    rcases present with before | ⟨-, new⟩
    · exact before
    · have known := inv.known
      have differs : (id == s.recorder.nextId + 1) = false := beq_eq_false_iff_ne.mpr (by omega)
      rw [List.lookup_cons, differs] at new
      cases new
  | unsubscribe other => exact inv.frame inv.known (Nat.le_refl _) fun sub found => unsubscribe_find _ other found
  | record timestampNs executionId runtime resolve =>
    exact inv.called (SignalRecorder.record_calls _ id timestampNs executionId runtime resolve)
  | noteParameter timestampNs executionId componentIndex name value runtime resolve =>
    exact inv.called (SignalRecorder.noteParameter_calls _ id timestampNs executionId componentIndex name value runtime
      resolve)
  | drain drained => exact (inv.received drained).1

omit [DecidableEq V] in
theorem create_tracks {sub : Subscription V} (created : Subscription.create request = .ok sub) (generation : Nat) :
    sub.request = request ∧ ({ sub with generation } : Subscription V).Shaped ∧
      ({ sub with generation } : Subscription V).Tracks [] ∧ sub.started = false := by
  unfold Subscription.create at created
  obtain ⟨_, -, created⟩ := Fallible.bind_ok created
  obtain ⟨_, -, created⟩ := Fallible.bind_ok created
  obtain ⟨_, capacity, created⟩ := Fallible.bind_ok created
  obtain ⟨_, -, created⟩ := Fallible.bind_ok created
  have capacity := throwIf_ok capacity
  cases created
  refine ⟨rfl, ⟨?_, List.length_replicate, List.length_replicate, ?_, List.length_replicate⟩, ⟨rfl, Ring.Holds.start,
    fun _ _ _ => Ring.Holds.start, nofun, rfl, fun h => absurd rfl h, List.Pairwise.nil, fun _ => rfl⟩, rfl⟩
  · show 0 < request.capacityRows
    omega
  · intro column member
    rw [List.eq_of_mem_replicate member]
    exact List.length_replicate

/-- Ids are not used twice. -/
def Known (recorder : SignalRecorder V) : Prop := ∀ entry ∈ recorder.subscriptions, entry.1 ≤ recorder.nextId

omit [DecidableEq V] in
theorem Known.start (known : Known s.recorder) {recorder : SignalRecorder V}
    (subscribed : s.recorder.subscribe request = .ok (id, recorder)) : Inv id request { recorder } := by
  unfold SignalRecorder.subscribe at subscribed
  obtain ⟨sub, created, subscribed⟩ := Fallible.bind_ok subscribed
  obtain ⟨isRequest, shaped, tracks, idle⟩ := create_tracks created (s.recorder.generationCounter + 1)
  cases subscribed
  have absent : s.recorder.subscriptions.lookup (s.recorder.nextId + 1) = none := by
    rw [List.lookup_eq_none_iff]
    intro entry member
    have le := known entry member
    exact bne_iff_ne.mpr (by omega)
  have nothing {α : Type} {P : α → Prop} : ∀ x ∈ ([] : List α), P x := List.forall_mem_nil P
  refine ⟨Nat.le_refl _, fun found present => ?_, nothing, nothing, nothing,
    ⟨fun _ => ⟨[], [], rfl, .nil, ?_⟩, fun _ => ⟨rfl, rfl⟩⟩, fun _ => List.Pairwise.nil, fun _ _ => rfl⟩
  · rw [SignalRecorder.find, List.lookup_append, absent, Option.none_or, List.lookup_cons_self] at present
    obtain rfl := Option.some.inj present
    exact ⟨isRequest, shaped, tracks, fun started => absurd (idle.symm.trans started) Bool.false_ne_true,
      Nat.le_refl _, fun _ => rfl⟩
  · intro present
    cases present

omit [Cell V] [DecidableEq V] in
theorem Known.each {recorder : SignalRecorder V} (known : Known recorder)
    (f : Nat → Subscription V → Nat × Subscription V) : Known (recorder.each f) := by
  have ids (counter : Nat) (subs : List (Nat × Subscription V)) :
      ∀ entry ∈ (eachSubscription f counter subs).2, ∃ old ∈ subs, old.1 = entry.1 := by
    induction subs generalizing counter with
    | nil => exact nofun
    | cons first rest ih =>
      intro entry member
      rw [eachSubscription, List.mem_cons] at member
      rcases member with rfl | later
      · exact ⟨first, List.mem_cons_self, rfl⟩
      · obtain ⟨old, oldMember, same⟩ := ih _ entry later
        exact ⟨old, List.mem_cons_of_mem _ oldMember, same⟩
  intro entry member
  obtain ⟨old, oldMember, same⟩ := ids recorder.generationCounter recorder.subscriptions entry member
  exact same ▸ known old oldMember

omit [DecidableEq V] in
theorem Known.callEach {recorder : SignalRecorder V} (known : Known recorder) (executionId timestampNs : Nat)
    (f : Nat → Subscription V → Nat × Subscription V) :
    Known (if recorder.hasSubscriptions then (recorder.beginExecutionLocked executionId timestampNs).each f
      else recorder) := by
  split
  · apply Known.each
    unfold SignalRecorder.beginExecutionLocked
    split
    · exact known
    · exact Known.each known _
  · exact known

theorem Known.step {call : Call V} (known : Known s.recorder) (step : Step id s call t) : Known t.recorder := by
  cases step with
  | subscribe subscribed =>
    unfold SignalRecorder.subscribe at subscribed
    obtain ⟨sub, -, subscribed⟩ := Fallible.bind_ok subscribed
    cases subscribed
    intro entry member
    rw [List.mem_append, List.mem_singleton] at member
    rcases member with before | rfl
    · exact Nat.le_succ_of_le (known entry before)
    · exact Nat.le_refl _
  | unsubscribe other => exact fun entry member => known entry (List.mem_filter.mp member).1
  | record timestampNs executionId runtime resolve => exact known.callEach executionId timestampNs _
  | noteParameter timestampNs executionId componentIndex name value runtime resolve =>
    exact known.callEach executionId timestampNs _
  | drain => exact known

theorem run_inv {other : Nat} {earlier calls : List (Call V)} {recorder : SignalRecorder V}
    (before : Run (Step other) { recorder := {} } earlier t)
    (subscribed : t.recorder.subscribe request = .ok (id, recorder))
    (run : Run (Step id) { recorder } calls s) : Inv id request s := by
  have known : Known t.recorder :=
    before.invariant (P := fun s => Known s.recorder) nofun fun _ _ _ known step => known.step step
  exact run.invariant (known.start subscribed) fun _ _ _ inv step => inv.step step

/-- Whatever happened before a subscription and is called after it, the chunks of its reader account, in
order, for a beginning of the rows of every generation, and a drain that reports no more accounts for all of
them. The rows of a generation do not go back in time, and up to the last grid point of the clock they are
the due ones. -/
theorem drain_accounts {other : Nat} {earlier calls : List (Call V)} {recorder : SignalRecorder V}
    (before : Run (Step other) { recorder := {} } earlier t)
    (subscribed : t.recorder.subscribe request = .ok (id, recorder))
    (run : Run (Step id) { recorder } calls s) :
    (∀ generation,
      (∃ accounted rest, s.rowsOf generation = accounted ++ rest ∧
        Accounts request.channels.length (s.chunksOf generation) accounted) ∧
      (s.rowsOf generation).Pairwise (·.timestampNs ≤ ·.timestampNs) ∧
      (request.periodNs = 0 ∨ (∀ offer ∈ s.offersOf generation, offer.timestampNs < gridEnd request.periodNs) →
        s.rowsOf generation = admitted request.periodNs (s.offersOf generation))) ∧
    ∀ maxRows u, Step id s (.drain maxRows) u → ∃ chunk accounted rest, u.chunks = s.chunks ++ [chunk] ∧
      s.rowsOf chunk.generation = accounted ++ rest ∧
      Accounts request.channels.length (u.chunksOf chunk.generation) accounted ∧
      (chunk.more = false ↔ rest = []) ∧ (rest = [] ∨ chunk.timestampsNs.length = max maxRows 1) := by
  have inv := run_inv before subscribed run
  constructor
  · intro generation
    obtain ⟨accounted, rest, whole, accounts, -⟩ := inv.position.accounts generation
    exact ⟨⟨accounted, rest, whole, accounts⟩, inv.sorted generation, inv.due generation⟩
  · intro maxRows u step
    cases step with
    | drain drained =>
      obtain ⟨-, accounted, rest, whole, accounts, -, more, full⟩ := inv.received drained
      exact ⟨_, accounted, rest, rfl, whole, accounts, more, full⟩

/-- One real channel that reads `value`. -/
def constant (value : UInt64) : SignalRuntime UInt64 where
  graph := some 1
  real _ _ := value
  boolean _ _ := false
  integer _ _ := 0

def onePort : Resolver := fun _ => some {}

def oneChannel (periodNs : Nat) : SeriesSubscriptionRequest := { channels := [{}], periodNs, capacityRows := 4 }

def subscribedRecorder (request : SeriesSubscriptionRequest) : SignalRecorder UInt64 :=
  match ({} : SignalRecorder UInt64).subscribe request with
  | .ok (_, recorder) => recorder
  | .error _ => {}

/-- The grid rule for stable steps alone: the first one at or after a grid point. -/
def FirstStep (period : Nat) (earlier : List (Offer V)) (offer : Offer V) : Prop :=
  offer.parameter = false ∧ ∃ k, k * period ≤ offer.timestampNs ∧
    ∀ step ∈ earlier, step.parameter = false → step.timestampNs < k * period

abbrev Ends (request : SeriesSubscriptionRequest) (calls : List (Call UInt64)) (s : Session UInt64) : Prop :=
  Run (Step 1) { recorder := subscribedRecorder request } calls s

def starts (periodNs : Nat) : Session UInt64 := { recorder := subscribedRecorder (oneChannel periodNs) }

/-- The clock goes back before the first drain. -/
theorem clockBack_run : ∃ calls s, Ends (oneChannel 0) calls s ∧
    s.recorded = [(1, ⟨5, [10]⟩), (2, ⟨3, [20]⟩)] ∧
    s.chunks.map (fun chunk => (chunk.generation, chunk.timestampsNs, chunk.lost, chunk.more)) =
      [(2, [3], 0, false)] := by
  have idle : Run (Step 1) (starts 0) [] (starts 0) := .start _
  have rows := (idle.next (.record _ 5 1 (constant 10) onePort)).next (.record _ 3 1 (constant 20) onePort)
  have drained := rows.next (show Step 1 _ (.drain 100) _ from .drain rfl)
  exact ⟨_, _, drained, by decide, by decide⟩

/-- The clock goes back before the first drain: the row of the first generation is neither shown nor lost.
On a grid of 10 ns, a change of values at 0 ns gives a row without a grid point, and the parameter row at 12 ns
takes the place of the step at 15 ns. -/
theorem drain_outside_account :
    (∃ calls s, Ends (oneChannel 0) calls s ∧ s.recorded = [(1, ⟨5, [10]⟩), (2, ⟨3, [20]⟩)] ∧
      s.chunks.map (fun chunk => (chunk.generation, chunk.timestampsNs, chunk.lost, chunk.more)) =
        [(2, [3], 0, false)]) ∧
    (∃ calls s earlier offer, Ends (oneChannel 10) calls s ∧ s.offersOf 1 = earlier ++ [offer] ∧
      offer.toRow ∈ s.rowsOf 1 ∧ offer.parameter = false ∧ ¬FirstStep 10 earlier offer) ∧
    ∃ calls s earlier offer, Ends (oneChannel 10) calls s ∧ s.offersOf 1 = earlier ++ [offer] ∧
      FirstStep 10 earlier offer ∧ offer.toRow ∉ s.rowsOf 1 := by
  refine ⟨?_, ?_, ?_⟩
  · exact clockBack_run
  · have idle : Run (Step 1) (starts 10) [] (starts 10) := .start _
    have rows := (idle.next (.record _ 0 1 (constant 10) onePort)).next (.record _ 0 1 (constant 20) onePort)
    refine ⟨_, _, [⟨⟨0, [10]⟩, false⟩], ⟨⟨0, [20]⟩, false⟩, rows, by decide, by decide, rfl, ?_⟩
    rintro ⟨-, k, reached, later⟩
    have gone := later _ List.mem_cons_self rfl
    simp only at reached gone
    omega
  · have idle : Run (Step 1) (starts 10) [] (starts 10) := .start _
    have rows := ((idle.next (.record _ 0 1 (constant 10) onePort)).next
      (.noteParameter _ 12 1 0 "value" 7 (constant 10) onePort)).next (.record _ 15 1 (constant 10) onePort)
    refine ⟨_, _, [⟨⟨0, [10]⟩, false⟩, ⟨⟨12, [10]⟩, true⟩], ⟨⟨15, [10]⟩, false⟩, rows, by decide,
      ⟨rfl, 1, by decide, ?_⟩, by decide⟩
    intro step member stable
    simp only [List.mem_cons, List.not_mem_nil, or_false] at member
    rcases member with rfl | rfl
    · decide
    · cases stable

theorem drain_accounts_clockBack :
    ∃ s : Session UInt64, s.recorded = [(1, ⟨5, [10]⟩), (2, ⟨3, [20]⟩)] ∧
      ∃ accounted rest, s.rowsOf 2 = accounted ++ rest ∧ Accounts 1 (s.chunksOf 2) accounted := by
  obtain ⟨calls, s, run, recorded, -⟩ := clockBack_run
  have before : Run (Step 1) ({ recorder := {} } : Session UInt64) [] _ := Run.start _
  have subscribed : ({} : SignalRecorder UInt64).subscribe (oneChannel 0) =
    .ok (1, subscribedRecorder (oneChannel 0)) := rfl
  exact ⟨s, recorded, ((drain_accounts before subscribed run).1 2).1⟩

end LasecSimul.Recording
