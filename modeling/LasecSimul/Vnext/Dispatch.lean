import LasecSimul.Lib.Trace
import LasecSimul.Vnext.Ring

/-!
# Dispatch turns

A turn of `pollAndDispatchPendingEvents` peeks at one lane after another, chooses a head and consumes it,
until a head lies in the future, the budget is used up or the outputs changed. The artifact publishes at
any time, also between two peeks.
-/

namespace LasecSimul.Vnext

open Lib.Trace

def kMaxEventsPerTurn : Nat := 256

/-- The turn has begun at `nowNs`; `peeks` are the heads of the lanes looked at in this round. -/
structure Turn where
  nowNs : Nat
  dispatchedCount : Nat := 0
  peeks : List (Option Event) := []
  deriving DecidableEq, Repr

/-- `device` is what `dispatchOneEvent` works on. -/
structure MergeState (σ : Type) where
  lanes : List (List Event)
  nowNs : Nat
  device : σ
  turn : Option Turn := none
  deriving DecidableEq, Repr

inductive MergeLabel where
  | internal
  | published (lane : Nat) (event : Event)
  | began
  | dispatched (lane : Nat) (event : Event) (nowNs : Nat) (electricalChange : Bool)
  | dropped (lane : Nat) (event : Event)
  deriving DecidableEq, Repr

section

variable {σ : Type} (originNs : Nat) (dispatchOneEvent : σ → Nat → Event → σ × Bool)

def eventTimeNs (event : Event) : Nat := vnextEventTimeNs originNs event.timestampNs.toNat

def lanePeek (head : Option Event) : VnextBLanePeek :=
  match head with
  | some event => { present := true, timestampNs := eventTimeNs originNs event }
  | none => {}

def Turn.decision (turn : Turn) : VnextBArbiterDecision :=
  selectNextLaneEvent (turn.peeks.map (lanePeek originNs)) turn.nowNs

inductive MergeStep : MergeState σ → MergeLabel → MergeState σ → Prop where
  | publish {s : MergeState σ} {pending : List Event} (lane : Nat) (event : Event)
      (here : s.lanes[lane]? = some pending) :
      MergeStep s (.published lane event) { s with lanes := s.lanes.set lane (pending ++ [event]) }
  | elapse {s : MergeState σ} (nowNs : Nat) (later : s.nowNs ≤ nowNs) :
      MergeStep s .internal { s with nowNs := nowNs }
  | begin {s : MergeState σ} (idle : s.turn = none) : MergeStep s .began { s with turn := some { nowNs := s.nowNs } }
  | peek {s : MergeState σ} {turn : Turn} {pending : List Event} (here : s.turn = some turn)
      (next : s.lanes[turn.peeks.length]? = some pending) :
      MergeStep s .internal { s with turn := some { turn with peeks := turn.peeks ++ [pending.head?] } }
  | stop {s : MergeState σ} {turn : Turn} (here : s.turn = some turn) (complete : turn.peeks.length = s.lanes.length)
      (spent : (turn.decision originNs).ready = false ∨ kMaxEventsPerTurn ≤ turn.dispatchedCount) :
      MergeStep s .internal { s with turn := none }
  | consume {s : MergeState σ} {turn : Turn} {event : Event} {rest : List Event} (here : s.turn = some turn)
      (complete : turn.peeks.length = s.lanes.length) (ready : (turn.decision originNs).ready = true)
      (budget : turn.dispatchedCount < kMaxEventsPerTurn)
      (head : s.lanes[(turn.decision originNs).lane]? = some (event :: rest))
      (same : eventTimeNs originNs event = (turn.decision originNs).timestampNs) :
      MergeStep s
        (.dispatched (turn.decision originNs).lane event turn.nowNs
          (dispatchOneEvent s.device (turn.decision originNs).lane event).2)
        { s with
          lanes := s.lanes.set (turn.decision originNs).lane rest
          device := (dispatchOneEvent s.device (turn.decision originNs).lane event).1
          turn :=
            if (dispatchOneEvent s.device (turn.decision originNs).lane event).2 then none
            else some { nowNs := turn.nowNs, dispatchedCount := turn.dispatchedCount + 1 } }
  | vanished {s : MergeState σ} {turn : Turn} (here : s.turn = some turn)
      (complete : turn.peeks.length = s.lanes.length) (ready : (turn.decision originNs).ready = true)
      (budget : turn.dispatchedCount < kMaxEventsPerTurn) (empty : s.lanes[(turn.decision originNs).lane]? = some []) :
      MergeStep s .internal { s with turn := none }
  | diverged {s : MergeState σ} {turn : Turn} {event : Event} {rest : List Event} (here : s.turn = some turn)
      (complete : turn.peeks.length = s.lanes.length) (ready : (turn.decision originNs).ready = true)
      (budget : turn.dispatchedCount < kMaxEventsPerTurn)
      (head : s.lanes[(turn.decision originNs).lane]? = some (event :: rest))
      (differs : eventTimeNs originNs event ≠ (turn.decision originNs).timestampNs) :
      MergeStep s (.dropped (turn.decision originNs).lane event)
        { s with lanes := s.lanes.set (turn.decision originNs).lane rest, turn := none }

end

def publishedOn (lane : Nat) (labels : List MergeLabel) : List Event :=
  labels.filterMap fun
    | .published on event => if on = lane then some event else none
    | _ => none

def dispatchedOn (lane : Nat) (labels : List MergeLabel) : List Event :=
  labels.filterMap fun
    | .dispatched on event _ _ => if on = lane then some event else none
    | _ => none

theorem publishedOn_append (lane : Nat) (labels labels' : List MergeLabel) :
    publishedOn lane (labels ++ labels') = publishedOn lane labels ++ publishedOn lane labels' :=
  List.filterMap_append

theorem dispatchedOn_append (lane : Nat) (labels labels' : List MergeLabel) :
    dispatchedOn lane (labels ++ labels') = dispatchedOn lane labels ++ dispatchedOn lane labels' :=
  List.filterMap_append

variable {σ : Type} {originNs : Nat} {dispatchOneEvent : σ → Nat → Event → σ × Bool} {s t start : MergeState σ}
  {label : MergeLabel} {labels : List MergeLabel}

/-- A head that was seen is still the head: only the turn consumes. -/
structure Seen (lanes : List (List Event)) (peeks : List (Option Event)) : Prop where
  within : peeks.length ≤ lanes.length
  head : ∀ (lane : Nat) (event : Event), peeks[lane]? = some (some event) → ∃ rest, lanes[lane]? = some (event :: rest)

theorem Seen.none (lanes : List (List Event)) : Seen lanes [] := ⟨Nat.zero_le _, nofun⟩

theorem Seen.publish {lanes : List (List Event)} {peeks : List (Option Event)} (seen : Seen lanes peeks) {lane : Nat}
    {pending : List Event} (here : lanes[lane]? = some pending) (event : Event) :
    Seen (lanes.set lane (pending ++ [event])) peeks := by
  refine ⟨by simpa using seen.within, fun other head found => ?_⟩
  obtain ⟨rest, old⟩ := seen.head other head found
  rcases eq_or_ne lane other with rfl | differs
  · rw [here] at old
    obtain rfl := Option.some.inj old
    exact ⟨rest ++ [event], List.getElem?_set_self (List.getElem?_eq_some_iff.mp here).1⟩
  · exact ⟨rest, by rwa [List.getElem?_set_ne differs]⟩

theorem Seen.peek {lanes : List (List Event)} {peeks : List (Option Event)} (seen : Seen lanes peeks)
    {pending : List Event} (next : lanes[peeks.length]? = some pending) : Seen lanes (peeks ++ [pending.head?]) := by
  have inside := (List.getElem?_eq_some_iff.mp next).1
  refine ⟨by rw [List.length_append]; exact inside, fun other head found => ?_⟩
  rcases getElem?_snoc_cases found with old | ⟨rfl, last⟩
  · exact seen.head other head old
  · cases pending with
    | nil => cases last
    | cons first rest =>
      obtain rfl := Option.some.inj last
      exact ⟨rest, next⟩

theorem lanePeek_some {head : Option Event} {peek : VnextBLanePeek} (peeked : lanePeek originNs head = peek)
    (present : peek.present = true) : ∃ event, head = some event ∧ peek.timestampNs = eventTimeNs originNs event := by
  cases head with
  | none =>
    subst peeked
    cases present
  | some event =>
    subst peeked
    exact ⟨event, rfl, rfl⟩

/-- The decision names a head that was seen, no later than any other. -/
theorem decision_ready {turn : Turn} (ready : (turn.decision originNs).ready = true) :
    (turn.decision originNs).timestampNs ≤ turn.nowNs ∧
    ∃ event, turn.peeks[(turn.decision originNs).lane]? = some (some event) ∧
      (turn.decision originNs).timestampNs = eventTimeNs originNs event ∧
      ∀ other head, turn.peeks[other]? = some (some head) →
        NoLater (eventTimeNs originNs event) (turn.decision originNs).lane (eventTimeNs originNs head) other := by
  obtain ⟨candidate, due⟩ := selectNextLaneEvent_ready.mp ready
  obtain ⟨chosen, least⟩ := selectNextLaneEvent_some candidate
  refine ⟨due, ?_⟩
  rw [List.getElem?_map] at chosen
  obtain ⟨head, here, peeked⟩ := Option.map_eq_some_iff.mp chosen
  obtain ⟨event, rfl, time⟩ := lanePeek_some peeked rfl
  refine ⟨event, here, time, fun other head found => ?_⟩
  have first := least other _ (by rw [List.getElem?_map, found]; rfl) rfl
  exact time ▸ first

def MergeLabel.isChange : MergeLabel → Bool
  | .dispatched _ _ _ electricalChange => electricalChange
  | _ => false

def changes (labels : List MergeLabel) : Nat := (labels.filter MergeLabel.isChange).length

/-- At most `n` changes since the last turn began. -/
def ChangesAtMost (n : Nat) (labels : List MergeLabel) : Prop :=
  ∀ before turn, labels = before ++ turn → MergeLabel.began ∉ turn → changes turn ≤ n

theorem ChangesAtMost.mono {n m : Nat} (few : ChangesAtMost n labels) (le : n ≤ m) : ChangesAtMost m labels :=
  fun before turn split none => Nat.le_trans (few before turn split none) le

theorem ChangesAtMost.snoc {n : Nat} (few : ChangesAtMost n labels) (label : MergeLabel) :
    ChangesAtMost (n + changes [label]) (labels ++ [label]) := by
  intro before turn split none
  rcases List.eq_nil_or_concat turn with rfl | ⟨init, last, rfl⟩
  · exact Nat.zero_le _
  · rw [List.concat_eq_append] at split none ⊢
    rw [← List.append_assoc] at split
    obtain ⟨rfl, same⟩ := List.append_inj' split rfl
    cases same
    have earlier := few before init rfl fun member => none (List.mem_append_left _ member)
    unfold changes at earlier ⊢
    rw [List.filter_append, List.length_append]
    omega

theorem ChangesAtMost.quiet {n : Nat} (few : ChangesAtMost n labels) (calm : label.isChange = false) :
    ChangesAtMost n (labels ++ [label]) := by
  have more := few.snoc label
  have none : changes [label] = 0 := by simp [changes, calm]
  rwa [none] at more

theorem ChangesAtMost.began (labels : List MergeLabel) : ChangesAtMost 0 (labels ++ [.began]) := by
  intro before turn split none
  rcases List.eq_nil_or_concat turn with rfl | ⟨init, last, rfl⟩
  · exact Nat.le_refl _
  · rw [List.concat_eq_append, ← List.append_assoc] at split
    obtain ⟨_, same⟩ := List.append_inj' split rfl
    cases same
    simp at none

structure Merging (originNs : Nat) (labels : List MergeLabel) (s : MergeState σ) : Prop where
  seen : ∀ turn, s.turn = some turn → Seen s.lanes turn.peeks ∧ turn.nowNs ≤ s.nowNs
  merged : ∀ lane, publishedOn lane labels = dispatchedOn lane labels ++ s.lanes[lane]?.getD []
  onTime : ∀ lane event nowNs change, .dispatched lane event nowNs change ∈ labels →
    eventTimeNs originNs event ≤ nowNs ∧ nowNs ≤ s.nowNs
  changes : ChangesAtMost 1 labels
  calm : ∀ turn, s.turn = some turn → ChangesAtMost 0 labels

structure Start (s : MergeState σ) : Prop where
  lanes : ∀ lane ∈ s.lanes, lane = []
  turn : s.turn = none

theorem Start.merging (begins : Start s) : Merging originNs [] s := by
  obtain ⟨lanes, turn⟩ := begins
  refine ⟨?_, fun lane => ?_, nofun, ?_, ?_⟩
  · simp [turn]
  · cases here : s.lanes[lane]? with
    | none => rfl
    | some pending =>
      rw [lanes pending (List.mem_of_getElem? here)]
      rfl
  · intro before after split _
    obtain ⟨_, rfl⟩ := List.append_eq_nil_iff.mp split.symm
    exact Nat.zero_le _
  · simp [turn]

theorem Merging.chosen (merging : Merging originNs labels s) {turn : Turn} (here : s.turn = some turn)
    (ready : (turn.decision originNs).ready = true) :
    ∃ event rest, s.lanes[(turn.decision originNs).lane]? = some (event :: rest) ∧
      eventTimeNs originNs event = (turn.decision originNs).timestampNs := by
  obtain ⟨_, event, found, time, _⟩ := decision_ready ready
  obtain ⟨rest, head⟩ := (merging.seen turn here).1.head _ event found
  exact ⟨event, rest, head, time.symm⟩

theorem getD_set {lanes : List (List Event)} {lane : Nat} {pending pending' : List Event}
    (here : lanes[lane]? = some pending) (other : Nat) :
    (lanes.set lane pending')[other]?.getD [] = if lane = other then pending' else lanes[other]?.getD [] := by
  split
  · rename_i same
    subst same
    rw [List.getElem?_set_self (List.getElem?_eq_some_iff.mp here).1]
    rfl
  · rename_i differs
    rw [List.getElem?_set_ne differs]

theorem MergeStep.merging (step : MergeStep originNs dispatchOneEvent s label t) (merging : Merging originNs labels s) :
    Merging originNs (labels ++ [label]) t := by
  cases step with
  | @publish pending lane event here =>
    refine ⟨fun turn at_turn => ?_, fun other => ?_, fun other e now change member => ?_,
      merging.changes.quiet rfl, fun turn at_turn => (merging.calm turn at_turn).quiet rfl⟩
    · obtain ⟨seen, began⟩ := merging.seen turn at_turn
      exact ⟨seen.publish here event, began⟩
    · have earlier := merging.merged other
      rw [publishedOn_append, dispatchedOn_append, earlier, getD_set here]
      by_cases same : lane = other
      · subst same
        simp [publishedOn, dispatchedOn, here]
      · simp [publishedOn, dispatchedOn, same]
    · exact merging.onTime other e now change (by simpa using member)
  | elapse nowNs later =>
    refine ⟨fun turn at_turn => ?_, fun other => ?_, fun other e now change member => ?_,
      merging.changes.quiet rfl, fun turn at_turn => (merging.calm turn at_turn).quiet rfl⟩
    · obtain ⟨seen, began⟩ := merging.seen turn at_turn
      exact ⟨seen, Nat.le_trans began later⟩
    · simpa [publishedOn, dispatchedOn] using merging.merged other
    · obtain ⟨due, began⟩ := merging.onTime other e now change (by simpa using member)
      exact ⟨due, Nat.le_trans began later⟩
  | begin idle =>
    refine ⟨fun turn at_turn => ?_, fun other => ?_, fun other e now change member => ?_,
      merging.changes.quiet rfl, fun _ _ => ChangesAtMost.began labels⟩
    · obtain rfl := Option.some.inj at_turn
      exact ⟨Seen.none s.lanes, Nat.le_refl _⟩
    · simpa [publishedOn, dispatchedOn] using merging.merged other
    · exact merging.onTime other e now change (by simpa using member)
  | @peek turn pending here next =>
    refine ⟨fun turn' at_turn => ?_, fun other => ?_, fun other e now change member => ?_,
      merging.changes.quiet rfl, fun _ _ => (merging.calm turn here).quiet rfl⟩
    · obtain rfl := Option.some.inj at_turn
      obtain ⟨seen, began⟩ := merging.seen turn here
      exact ⟨seen.peek next, began⟩
    · simpa [publishedOn, dispatchedOn] using merging.merged other
    · exact merging.onTime other e now change (by simpa using member)
  | stop here complete spent =>
    refine ⟨nofun, fun other => ?_, fun other e now change member => ?_, merging.changes.quiet rfl, nofun⟩
    · simpa [publishedOn, dispatchedOn] using merging.merged other
    · exact merging.onTime other e now change (by simpa using member)
  | @consume turn event rest here complete ready budget head same =>
    have due := (decision_ready ready).1
    have began := (merging.seen turn here).2
    refine ⟨fun turn' at_turn => ?_, fun other => ?_, fun other e now change member => ?_, ?_, fun turn' at_turn => ?_⟩
    · dsimp only at at_turn
      split at at_turn
      · cases at_turn
      · obtain rfl := Option.some.inj at_turn
        exact ⟨Seen.none _, began⟩
    · have earlier := merging.merged other
      rw [publishedOn_append, dispatchedOn_append, earlier, getD_set head]
      by_cases at_lane : (turn.decision originNs).lane = other
      · rw [at_lane] at head
        simp [publishedOn, dispatchedOn, at_lane, head]
      · simp [publishedOn, dispatchedOn, at_lane]
    · rcases List.mem_append.mp member with old | last
      · exact merging.onTime other e now change old
      · cases List.mem_singleton.mp last
        exact ⟨same ▸ due, began⟩
    · refine ((merging.calm turn here).snoc _).mono ?_
      rw [Nat.zero_add]
      exact List.length_filter_le _ _
    · dsimp only at at_turn
      split at at_turn
      · cases at_turn
      · rename_i unchanged
        exact (merging.calm turn here).quiet (by simpa [MergeLabel.isChange] using unchanged)
  | vanished here complete ready budget empty =>
    obtain ⟨event, rest, head, _⟩ := merging.chosen here ready
    rw [empty] at head
    cases head
  | diverged here complete ready budget head differs =>
    obtain ⟨event', rest', head', time⟩ := merging.chosen here ready
    rw [head] at head'
    cases head'
    exact absurd time differs

theorem Merging.run (merging : Merging originNs labels s) {later : List MergeLabel}
    (run : Run (MergeStep originNs dispatchOneEvent) s later t) : Merging originNs (labels ++ later) t := by
  refine run.history (P := fun later t => Merging originNs (labels ++ later) t) (by simpa using merging) ?_
  intro later t label u _ merging step
  rw [← List.append_assoc]
  exact step.merging merging

theorem merging_run (begins : Start start) (run : Run (MergeStep originNs dispatchOneEvent) start labels s) :
    Merging originNs labels s :=
  begins.merging.run run

/-! ### Draining -/

def Silent (labels : List MergeLabel) : Prop := ∀ lane event, .published lane event ∉ labels

def waiting (s : MergeState σ) : Nat := (s.lanes.map List.length).sum

theorem Silent.append {later : List MergeLabel} (first : Silent labels) (second : Silent later) :
    Silent (labels ++ later) := fun lane event member =>
  (List.mem_append.mp member).elim (first lane event) (second lane event)

theorem waiting_set {lanes : List (List Event)} {lane : Nat} {event : Event} {rest : List Event}
    (here : lanes[lane]? = some (event :: rest)) :
    ((lanes.set lane rest).map List.length).sum < (lanes.map List.length).sum := by
  induction lanes generalizing lane with
  | nil => cases here
  | cons first others ih =>
    cases lane with
    | zero =>
      obtain rfl := Option.some.inj here
      simp
    | succ lane =>
      have fewer := ih here
      simp only [List.set_cons_succ, List.map_cons, List.sum_cons]
      omega

/-- The lanes a round has still to look at. -/
theorem peekAll (originNs : Nat) (dispatchOneEvent : σ → Nat → Event → σ × Bool) (turn : Turn)
    (here : s.turn = some turn) (within : turn.peeks.length ≤ s.lanes.length) :
    ∃ later t, Run (MergeStep originNs dispatchOneEvent) s later t ∧ Silent later ∧
      t = { s with turn := some { turn with peeks := turn.peeks ++ (s.lanes.drop turn.peeks.length).map List.head? } } := by
  generalize left : s.lanes.length - turn.peeks.length = n
  induction n generalizing s turn with
  | zero =>
    refine ⟨[], s, .start s, nofun, ?_⟩
    rw [List.drop_eq_nil_iff.mpr (by omega), List.map_nil, List.append_nil]
    cases s
    cases here
    rfl
  | succ n ih =>
    have inside : turn.peeks.length < s.lanes.length := by omega
    have step : MergeStep originNs dispatchOneEvent s .internal
        { s with turn := some { turn with peeks := turn.peeks ++ [s.lanes[turn.peeks.length].head?] } } :=
      .peek here (List.getElem?_eq_getElem inside)
    have length : (turn.peeks ++ [s.lanes[turn.peeks.length].head?]).length = turn.peeks.length + 1 := by simp
    obtain ⟨later, t, run, silent, rfl⟩ := ih
      (s := { s with turn := some { turn with peeks := turn.peeks ++ [s.lanes[turn.peeks.length].head?] } }) _ rfl
      (by rw [length]; exact inside) (by rw [length]; show s.lanes.length - _ = n; omega)
    refine ⟨[.internal] ++ later, _, (Run.one step).append run, Silent.append (by simp [Silent]) silent, ?_⟩
    simp only [length, List.append_assoc, List.singleton_append]
    rw [List.drop_eq_getElem_cons inside, List.map_cons]

/-- A complete round dispatches a head or ends the turn. -/
theorem endRound (dispatchOneEvent : σ → Nat → Event → σ × Bool) (merging : Merging originNs labels s) {turn : Turn}
    (here : s.turn = some turn)
    (complete : turn.peeks.length = s.lanes.length) :
    ∃ later t, Run (MergeStep originNs dispatchOneEvent) s later t ∧ Silent later ∧
      (waiting t < waiting s ∨ (t = { s with turn := none } ∧
        ((turn.decision originNs).ready = false ∨ kMaxEventsPerTurn ≤ turn.dispatchedCount))) := by
  by_cases spent : (turn.decision originNs).ready = false ∨ kMaxEventsPerTurn ≤ turn.dispatchedCount
  · exact ⟨_, _, .one (.stop here complete spent), by simp [Silent], .inr ⟨rfl, spent⟩⟩
  · push Not at spent
    obtain ⟨event, rest, head, time⟩ := merging.chosen here (by simpa using spent.1)
    exact ⟨_, _, .one (.consume here complete (by simpa using spent.1) spent.2 head time), by simp [Silent],
      .inl (waiting_set head)⟩

theorem eventTimeNs_bounded (originNs : Nat) : ∃ late, ∀ event, eventTimeNs originNs event ≤ late := by
  refine ⟨originNs + uint64Max, fun event => ?_⟩
  unfold eventTimeNs vnextEventTimeNs
  split
  · omega
  · omega

theorem ready_of_late {turn : Turn} {lane : Nat} {event : Event} (present : turn.peeks[lane]? = some (some event))
    (late : ∀ event, eventTimeNs originNs event ≤ turn.nowNs) : (turn.decision originNs).ready = true := by
  refine selectNextLaneEvent_ready.mpr ?_
  cases candidate : (turn.decision originNs).hasCandidate with
  | false =>
    have absent := selectNextLaneEvent_none candidate (lanePeek originNs (some event))
      (List.mem_map_of_mem (List.mem_of_getElem? present))
    cases absent
  | true =>
    refine ⟨candidate, ?_⟩
    obtain ⟨chosen, _⟩ := selectNextLaneEvent_some candidate
    rw [List.getElem?_map] at chosen
    obtain ⟨head, _, peeked⟩ := Option.map_eq_some_iff.mp chosen
    obtain ⟨event', _, time⟩ := lanePeek_some peeked rfl
    exact Nat.le_trans (Nat.le_of_eq time) (late event')

theorem exists_head (left : 0 < waiting s) :
    ∃ (lane : Nat) (event : Event) (rest : List Event), s.lanes[lane]? = some (event :: rest) := by
  obtain ⟨length, member, positive⟩ := List.sum_pos_iff_exists_pos_nat.mp left
  obtain ⟨pending, there, rfl⟩ := List.mem_map.mp member
  obtain ⟨lane, here⟩ := List.mem_iff_getElem?.mp there
  obtain ⟨event, rest, rfl⟩ := List.exists_cons_of_length_pos positive
  exact ⟨lane, event, rest, here⟩

theorem beginRound (originNs : Nat) (dispatchOneEvent : σ → Nat → Event → σ × Bool) (idle : s.turn = none) (late : Nat) :
    ∃ later t, Run (MergeStep originNs dispatchOneEvent) s later t ∧ Silent later ∧
      t = { s with nowNs := s.nowNs + late, turn := some { nowNs := s.nowNs + late, peeks := s.lanes.map List.head? } } := by
  have elapsed : MergeStep originNs dispatchOneEvent s .internal { s with nowNs := s.nowNs + late } :=
    .elapse _ (Nat.le_add_right _ _)
  obtain ⟨peeking, t, run, silent, rfl⟩ := peekAll originNs dispatchOneEvent
    (s := { s with nowNs := s.nowNs + late, turn := some { nowNs := s.nowNs + late } }) _ rfl (Nat.zero_le _)
  exact ⟨_, _, ((Run.one elapsed).next (.begin idle)).append run, Silent.append (by simp [Silent]) silent, rfl⟩

/-- From an idle state with events left, time passes and a turn dispatches one. -/
theorem drainOne_idle (dispatchOneEvent : σ → Nat → Event → σ × Bool) (merging : Merging originNs labels s)
    (idle : s.turn = none) (left : 0 < waiting s) :
    ∃ later t, Run (MergeStep originNs dispatchOneEvent) s later t ∧ Silent later ∧ waiting t < waiting s := by
  obtain ⟨late, bounded⟩ := eventTimeNs_bounded originNs
  obtain ⟨first, t, run, silent, rfl⟩ := beginRound originNs dispatchOneEvent idle late
  obtain ⟨later, u, last, silent', ended⟩ := endRound dispatchOneEvent (merging.run run) rfl (List.length_map _)
  refine ⟨_, u, run.append last, silent.append silent', ?_⟩
  rcases ended with fewer | ⟨_, unready | exhausted⟩
  · exact fewer
  · obtain ⟨lane, event, rest, here⟩ := exists_head left
    have ready : (Turn.decision originNs { nowNs := s.nowNs + late, peeks := s.lanes.map List.head? }).ready = true :=
      ready_of_late (by rw [List.getElem?_map, here]; rfl)
        fun event => Nat.le_trans (bounded event) (Nat.le_add_left _ _)
    rw [ready] at unready
    cases unready
  · exact absurd (show kMaxEventsPerTurn ≤ 0 from exhausted) (by decide)

theorem drainOne (dispatchOneEvent : σ → Nat → Event → σ × Bool) (merging : Merging originNs labels s) (left : 0 < waiting s) :
    ∃ later t, Run (MergeStep originNs dispatchOneEvent) s later t ∧ Silent later ∧ waiting t < waiting s := by
  cases here : s.turn with
  | none => exact drainOne_idle dispatchOneEvent merging here left
  | some turn =>
    obtain ⟨peeking, t, run, silent, rfl⟩ := peekAll originNs dispatchOneEvent turn here (merging.seen turn here).1.within
    obtain ⟨later, u, last, silent', ended⟩ := endRound dispatchOneEvent (merging.run run) rfl
      (by have := (merging.seen turn here).1.within; simp; omega)
    rcases ended with fewer | ⟨rfl, _⟩
    · exact ⟨_, u, run.append last, silent.append silent', fewer⟩
    · obtain ⟨rest, v, further, silent'', fewer⟩ := drainOne_idle dispatchOneEvent ((merging.run run).run last) rfl left
      exact ⟨_, v, (run.append last).append further, (silent.append silent').append silent'', fewer⟩

theorem drainAll (dispatchOneEvent : σ → Nat → Event → σ × Bool) (merging : Merging originNs labels s) :
    ∃ later t, Run (MergeStep originNs dispatchOneEvent) s later t ∧ Silent later ∧ ∀ lane ∈ t.lanes, lane = [] := by
  generalize count : waiting s = n
  induction n using Nat.strong_induction_on generalizing s labels with
  | _ n ih =>
    rcases Nat.eq_zero_or_pos (waiting s) with none | left
    · refine ⟨[], s, .start s, nofun, fun lane member => ?_⟩
      exact List.eq_nil_of_length_eq_zero (List.sum_eq_zero_iff_forall_eq_nat.mp none _ (List.mem_map_of_mem member))
    · obtain ⟨later, t, run, silent, fewer⟩ := drainOne dispatchOneEvent merging left
      obtain ⟨rest, u, further, silent', empty⟩ := ih _ (count ▸ fewer) (merging.run run) rfl
      exact ⟨_, u, run.append further, silent.append silent', empty⟩

/-! ### An ordered merge -/

/-- The head at the front of `lane` is the least of those the round of peeks found. A lane with a head
that the round did not find was empty when it was looked at. -/
structure LeastSeen (originNs : Nat) (s : MergeState σ) (turn : Turn) (lane : Nat) (event : Event) : Prop where
  here : s.turn = some turn
  complete : turn.peeks.length = s.lanes.length
  seen : turn.peeks[lane]? = some (some event)
  least : ∀ (other : Nat) (head : Event), turn.peeks[other]? = some (some head) →
    NoLater (eventTimeNs originNs event) lane (eventTimeNs originNs head) other
  missed : ∀ (other : Nat) (head : Event) (rest : List Event), s.lanes[other]? = some (head :: rest) →
    turn.peeks[other]? = some (some head) ∨ turn.peeks[other]? = some none

structure OrderedMerge (originNs : Nat) (dispatchOneEvent : σ → Nat → Event → σ × Bool) (labels : List MergeLabel)
    (s : MergeState σ) : Prop where
  exactlyOnce : ∀ lane, publishedOn lane labels = dispatchedOn lane labels ++ s.lanes[lane]?.getD []
  drains : ∃ later t, Run (MergeStep originNs dispatchOneEvent) s later t ∧ Silent later ∧ ∀ lane ∈ t.lanes, lane = []
  leastSeen : ∀ lane event nowNs change t, MergeStep originNs dispatchOneEvent s (.dispatched lane event nowNs change) t →
    ∃ turn, LeastSeen originNs s turn lane event
  onTime : ∀ lane event nowNs change, .dispatched lane event nowNs change ∈ labels →
    eventTimeNs originNs event ≤ nowNs ∧ nowNs ≤ s.nowNs
  oneChange : ∀ before turn, labels = before ++ turn → MergeLabel.began ∉ turn → changes turn ≤ 1

theorem Merging.leastSeen (merging : Merging originNs labels s) {lane : Nat} {event : Event} {nowNs : Nat}
    {change : Bool} (step : MergeStep originNs dispatchOneEvent s (.dispatched lane event nowNs change) t) :
    ∃ turn, LeastSeen originNs s turn lane event := by
  cases step with
  | @consume turn _ rest here complete ready budget head same =>
    obtain ⟨_, event', found, _, least⟩ := decision_ready ready
    obtain ⟨rest', head'⟩ := (merging.seen turn here).1.head _ event' found
    rw [head] at head'
    cases head'
    refine ⟨turn, here, complete, found, least, fun other first others at_other => ?_⟩
    have inside : other < turn.peeks.length := complete ▸ (List.getElem?_eq_some_iff.mp at_other).1
    have looked := List.getElem?_eq_getElem inside
    cases peeked : turn.peeks[other] with
    | none => exact .inr (peeked ▸ looked)
    | some first' =>
      rw [peeked] at looked
      obtain ⟨_, still⟩ := (merging.seen turn here).1.head _ first' looked
      rw [at_other] at still
      cases still
      exact .inl looked

theorem turns_merge (begins : Start start) (run : Run (MergeStep originNs dispatchOneEvent) start labels s) :
    OrderedMerge originNs dispatchOneEvent labels s := by
  have merging := merging_run begins run
  exact ⟨merging.merged, drainAll dispatchOneEvent merging, fun _ _ _ _ _ step => merging.leastSeen step, merging.onTime,
    merging.changes⟩

def eventAt (timestampNs : UInt64) : Event :=
  { timestampNs := timestampNs, laneSequence := 0, kind := 10, payloadBytes := 0, payload := [] }

def twoLanes : MergeState Unit := { lanes := [[], []], nowNs := 10, device := () }

def racingTurn : Turn := { nowNs := 10, peeks := [none, some (eventAt 10)] }

/-- Lane 0 was empty when it was looked at, and then received the earlier event. -/
def racing : MergeState Unit :=
  { lanes := [[eventAt 5], [eventAt 10]], nowNs := 10, device := (), turn := some racingTurn }

def unchanging (device : Unit) (_ : Nat) (_ : Event) : Unit × Bool := (device, false)

theorem racing_run : Run (MergeStep 0 unchanging) twoLanes
    [.published 1 (eventAt 10), .began, .internal, .published 0 (eventAt 5), .internal] racing := by
  have published : MergeStep 0 unchanging twoLanes (.published 1 (eventAt 10))
      { twoLanes with lanes := [[], [eventAt 10]] } := @MergeStep.publish Unit 0 unchanging twoLanes [] 1 (eventAt 10) rfl
  have first : MergeStep 0 unchanging { twoLanes with lanes := [[], [eventAt 10]], turn := some { nowNs := 10 } } .internal
      { twoLanes with lanes := [[], [eventAt 10]], turn := some { nowNs := 10, peeks := [none] } } :=
    @MergeStep.peek Unit 0 unchanging _ { nowNs := 10 } [] rfl rfl
  have late : MergeStep 0 unchanging
      { twoLanes with lanes := [[], [eventAt 10]], turn := some { nowNs := 10, peeks := [none] } }
      (.published 0 (eventAt 5))
      { twoLanes with lanes := [[eventAt 5], [eventAt 10]], turn := some { nowNs := 10, peeks := [none] } } :=
    @MergeStep.publish Unit 0 unchanging _ [] 0 (eventAt 5) rfl
  have second : MergeStep 0 unchanging
      { twoLanes with lanes := [[eventAt 5], [eventAt 10]], turn := some { nowNs := 10, peeks := [none] } } .internal racing :=
    @MergeStep.peek Unit 0 unchanging _ { nowNs := 10, peeks := [none] } [eventAt 10] rfl rfl
  exact ((((Run.one published).next (.begin rfl)).next first).next late).next second

theorem racing_merge : OrderedMerge 0 unchanging
    [.published 1 (eventAt 10), .began, .internal, .published 0 (eventAt 5), .internal] racing :=
  turns_merge ⟨by simp [twoLanes], rfl⟩ racing_run

/-- The event of time 10 is dispatched while the head of lane 0 has time 5. -/
theorem racing_later_first : ¬∀ (originNs : Nat) (dispatchOneEvent : Unit → Nat → Event → Unit × Bool)
    (start s t : MergeState Unit) (labels : List MergeLabel) (lane : Nat) (event : Event) (nowNs : Nat) (change : Bool),
    (∀ lane, (publishedOn lane labels).Pairwise fun a b => a.timestampNs ≤ b.timestampNs) →
    Start start → Run (MergeStep originNs dispatchOneEvent) start labels s →
    MergeStep originNs dispatchOneEvent s (.dispatched lane event nowNs change) t →
    ∀ (other : Nat) (head : Event) (rest : List Event), s.lanes[other]? = some (head :: rest) →
      NoLater (eventTimeNs originNs event) lane (eventTimeNs originNs head) other := by
  intro always
  have step := @MergeStep.consume Unit 0 unchanging racing racingTurn (eventAt 10) [] rfl rfl (by decide +kernel)
    (by decide) (by decide +kernel) (by decide +kernel)
  have monotone (lane : Nat) : (publishedOn lane [.published 1 (eventAt 10), .began, .internal,
      .published 0 (eventAt 5), .internal]).Pairwise fun a b => a.timestampNs ≤ b.timestampNs := by
    rcases lane with _ | _ | lane
    · exact List.pairwise_singleton _ (eventAt 5)
    · exact List.pairwise_singleton _ (eventAt 10)
    · exact .nil
  have late := always 0 unchanging twoLanes racing _ _ 1 (eventAt 10) 10 false monotone ⟨by simp [twoLanes], rfl⟩
    racing_run step 0 (eventAt 5) [] rfl
  revert late
  unfold NoLater
  decide +kernel

end LasecSimul.Vnext
