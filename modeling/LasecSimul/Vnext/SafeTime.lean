import LasecSimul.Vnext.Ring

/-!
# The safe time of the lockstep

`lockstepSafeTimeNs` loads the time that the artifact has published, and then the oldest event of each lane, one
load at a time, while the artifact goes on publishing.
-/

namespace LasecSimul.Vnext

open Lib.Trace Lib.Spsc

/-- `newestNs` is the timestamp of the newest event that the artifact has published on the lane. -/
structure Lane where
  depth : Depth
  ring : Ring
  newestNs : UInt64

def Lane.pending (lane : Lane) : List Event := Lib.Spsc.pending lane.depth lane.ring

/-- Where `lockstepSafeTimeNs` is: before the `read_seq` of a lane, its `write_seq`, or the slot of its oldest event. -/
inductive Reader where
  | idle
  | readSeq (safeNs : UInt64) (lane : Nat)
  | writeSeq (safeNs : UInt64) (lane : Nat) (read : UInt64)
  | slot (safeNs : UInt64) (lane : Nat) (read : UInt64)
  | returned (safeNs : UInt64)
  deriving DecidableEq, Repr

def Reader.running : Reader → Bool
  | readSeq .. | writeSeq .. | slot .. => true
  | idle | returned _ => false

structure Lockstep where
  artifactVirtualTimeNs : UInt64
  lanes : List Lane
  reader : Reader := .idle

/-- The next load of `lockstepSafeTimeNs`. -/
def Lockstep.load (s : Lockstep) : Option Reader :=
  match s.reader with
  | .idle | .returned _ => some (.readSeq s.artifactVirtualTimeNs 0)
  | .readSeq safeNs i =>
    match s.lanes[i]? with
    | none => some (.returned safeNs)
    | some lane => some (.writeSeq safeNs i lane.ring.readSeq)
  | .writeSeq safeNs i read => do
    let lane ← s.lanes[i]?
    return if read = lane.ring.writeSeq then .readSeq safeNs (i + 1) else .slot safeNs i read
  | .slot safeNs i read => do
    let lane ← s.lanes[i]?
    let event ← lane.ring.cells[Lib.Spsc.slot lane.depth read]?
    return .readSeq (if event.timestampNs < safeNs then event.timestampNs else safeNs) (i + 1)

inductive Action where
  | load
  | advance (timeNs : UInt64)
  | lane (index : Nat) (label : Label Event)

/-- The artifact makes no event older than the newest one of its lane or than the time it has published. -/
def Timely (timeNs : UInt64) (lane : Lane) (make : UInt64 → Event) : Prop :=
  ∀ write, lane.newestNs ≤ (make write).timestampNs ∧ timeNs ≤ (make write).timestampNs

def Lane.after (lane : Lane) (label : Label Event) (ring : Ring) : Lane where
  depth := lane.depth
  ring
  newestNs := match label with
    | .publish event => event.timestampNs
    | _ => lane.newestNs

/-- The artifact publishes an event before it advances its time past it. The core consumes no event while
`lockstepSafeTimeNs` runs. -/
inductive Lockstep.Step : Lockstep → Action → Lockstep → Prop where
  | load {s : Lockstep} {reader : Reader} (loaded : s.load = some reader) : Step s .load { s with reader }
  | advance {s : Lockstep} {timeNs : UInt64} (forward : s.artifactVirtualTimeNs ≤ timeNs)
      (published : ∀ lane ∈ s.lanes, ∀ event, lane.ring.producer.held = some event → timeNs ≤ event.timestampNs) :
      Step s (.advance timeNs) { s with artifactVirtualTimeNs := timeNs }
  | lane {s : Lockstep} {i : Nat} {lane : Lane} {label : Label Event} {ring : Ring} (here : s.lanes[i]? = some lane)
      (step : Lib.Spsc.Step lane.depth (Timely s.artifactVirtualTimeNs lane) lane.ring label ring)
      (apart : s.reader.running → ∀ event, label ≠ .consume event) :
      Step s (.lane i label) { s with lanes := s.lanes.set i (lane.after label ring) }

/-- The events that are published on the lanes. -/
def publishedEvents (actions : List Action) : List Event :=
  actions.filterMap fun
    | .lane _ (.publish event) => some event
    | _ => none

structure Lockstep.Initial (s : Lockstep) : Prop where
  lanes : ∀ lane ∈ s.lanes, Empty lane.depth lane.ring
  reader : s.reader = .idle

/-- The events of a lane are in the order of their timestamps, and what is not published yet is not older than the
published time. -/
structure Lane.Ordered (timeNs : UInt64) (lane : Lane) : Prop where
  counted : ∃ read count, Counted lane.depth lane.ring read count
  sorted : lane.pending.Pairwise (·.timestampNs ≤ ·.timestampNs)
  newest : ∀ event ∈ lane.pending, event.timestampNs ≤ lane.newestNs
  held : ∀ event, lane.ring.producer.held = some event →
    lane.newestNs ≤ event.timestampNs ∧ timeNs ≤ event.timestampNs

theorem Lane.after_pending {timeNs : UInt64} {lane : Lane} {label : Label Event} {ring : Ring}
    (ordered : lane.Ordered timeNs) (step : Lib.Spsc.Step lane.depth (Timely timeNs lane) lane.ring label ring) :
    lane.pending ++ published [label] = consumed [label] ++ (lane.after label ring).pending := by
  obtain ⟨read, count, counted⟩ := ordered.counted
  obtain ⟨_, _, _, moved⟩ := step.pending counted
  exact moved

theorem Lane.Ordered.step {timeNs : UInt64} {lane : Lane} {label : Label Event} {ring : Ring}
    (ordered : lane.Ordered timeNs) (step : Lib.Spsc.Step lane.depth (Timely timeNs lane) lane.ring label ring) :
    (lane.after label ring).Ordered timeNs := by
  have moved := lane.after_pending ordered step
  have held : ∀ event, ring.producer.held = some event →
      lane.newestNs ≤ event.timestampNs ∧ timeNs ≤ event.timestampNs := by
    intro event holds
    rcases step.held holds with before | ⟨make, timely, rfl⟩
    · exact ordered.held event before
    · exact timely _
  have counted : ∃ read count, Counted (lane.after label ring).depth (lane.after label ring).ring read count := by
    obtain ⟨read, count, counted⟩ := ordered.counted
    obtain ⟨read', count', counted', _⟩ := step.pending counted
    exact ⟨read', count', counted'⟩
  cases label with
  | quiet | peek event =>
    have same : ({ lane with ring } : Lane).pending = lane.pending :=
      ((List.append_nil lane.pending).symm.trans moved).symm
    exact ⟨counted, same ▸ ordered.sorted, same ▸ ordered.newest, held⟩
  | publish event =>
    have same : (lane.after (.publish event) ring).pending = lane.pending ++ [event] := moved.symm
    obtain ⟨holds, idle⟩ := step.publish_held
    obtain ⟨newest, _⟩ := ordered.held event holds
    refine ⟨counted, ?_, ?_, ?_⟩
    · rw [same]
      refine List.pairwise_append.mpr ⟨ordered.sorted, List.pairwise_singleton _ _, ?_⟩
      intro older member newer member'
      obtain rfl := List.mem_singleton.mp member'
      exact UInt64.le_trans (ordered.newest older member) newest
    · rw [same]
      refine List.forall_mem_append.mpr ⟨fun older member => ?_, List.forall_mem_singleton.mpr (UInt64.le_refl _)⟩
      exact UInt64.le_trans (ordered.newest older member) newest
    · intro other holds
      change ring.producer.held = some other at holds
      rw [idle] at holds
      cases holds
  | consume event =>
    have same : lane.pending = event :: (lane.after (.consume event) ring).pending := by
      rw [← List.append_nil lane.pending]
      exact moved
    refine ⟨counted, ?_, fun other member => ordered.newest other ?_, held⟩
    · have sorted := ordered.sorted
      rw [same] at sorted
      exact (List.pairwise_cons.mp sorted).2
    · rw [same]
      exact List.mem_cons_of_mem _ member

theorem Lane.Ordered.advance {timeNs later : UInt64} {lane : Lane} (ordered : lane.Ordered timeNs)
    (published : ∀ event, lane.ring.producer.held = some event → later ≤ event.timestampNs) : lane.Ordered later where
  counted := ordered.counted
  sorted := ordered.sorted
  newest := ordered.newest
  held event holds := ⟨(ordered.held event holds).1, published event holds⟩

/-! ### What the loads have seen -/

/-- `safeNs` is no later than any event of the lane. -/
def Lane.Bounded (safeNs : UInt64) (lane : Lane) : Prop := ∀ event ∈ lane.pending, safeNs ≤ event.timestampNs

/-- No event that is pending or to come is older than the bound, on the lanes that the reader has passed. -/
structure SafeSoFar (timeNs : UInt64) (lanes : List Lane) (safeNs : UInt64) (passed : Nat) : Prop where
  time : safeNs ≤ timeNs
  lanes : ∀ i lane, i < passed → lanes[i]? = some lane → lane.Bounded safeNs

/-- The reader and the lanes. -/
def Lockstep.Sound (s : Lockstep) : Prop :=
  match s.reader with
  | .idle => True
  | .readSeq safeNs i => SafeSoFar s.artifactVirtualTimeNs s.lanes safeNs i
  | .writeSeq safeNs i read =>
    SafeSoFar s.artifactVirtualTimeNs s.lanes safeNs i ∧ ∃ lane, s.lanes[i]? = some lane ∧ lane.ring.readSeq = read
  | .slot safeNs i read =>
    SafeSoFar s.artifactVirtualTimeNs s.lanes safeNs i ∧
      ∃ lane, s.lanes[i]? = some lane ∧ lane.ring.readSeq = read ∧ lane.pending ≠ []
  | .returned safeNs => SafeSoFar s.artifactVirtualTimeNs s.lanes safeNs s.lanes.length

structure Lockstep.Inv (s : Lockstep) : Prop where
  ordered : ∀ lane ∈ s.lanes, lane.Ordered s.artifactVirtualTimeNs
  sound : s.Sound

theorem SafeSoFar.mono {timeNs safeNs earlier : UInt64} {lanes : List Lane} {passed : Nat}
    (safe : SafeSoFar timeNs lanes safeNs passed) (le : earlier ≤ safeNs) : SafeSoFar timeNs lanes earlier passed where
  time := UInt64.le_trans le safe.time
  lanes i lane lt here event member := UInt64.le_trans le (safe.lanes i lane lt here event member)

theorem SafeSoFar.pass {timeNs safeNs : UInt64} {lanes : List Lane} {passed : Nat} {lane : Lane}
    (safe : SafeSoFar timeNs lanes safeNs passed) (here : lanes[passed]? = some lane) (bounded : lane.Bounded safeNs) :
    SafeSoFar timeNs lanes safeNs (passed + 1) where
  time := safe.time
  lanes i other lt there := by
    rcases Nat.lt_succ_iff_lt_or_eq.mp lt with lt | rfl
    · exact safe.lanes i other lt there
    · rw [here] at there
      cases there
      exact bounded

theorem Lane.Ordered.bounded {timeNs safeNs : UInt64} {lane : Lane} (ordered : lane.Ordered timeNs) {event : Event}
    (head : lane.pending.head? = some event) (le : safeNs ≤ event.timestampNs) : lane.Bounded safeNs := by
  have sorted := ordered.sorted
  obtain ⟨rest, same⟩ := List.head?_eq_some_iff.mp head
  intro later member
  rw [same] at sorted member
  rcases List.mem_cons.mp member with rfl | member
  · exact le
  · exact UInt64.le_trans le ((List.pairwise_cons.mp sorted).1 later member)

theorem Lockstep.Inv.load {s : Lockstep} (inv : s.Inv) {reader : Reader} (loaded : s.load = some reader) :
    ({ s with reader } : Lockstep).Inv := by
  refine ⟨inv.ordered, ?_⟩
  have sound := inv.sound
  unfold Lockstep.Sound at sound
  unfold Lockstep.load at loaded
  have fresh : SafeSoFar s.artifactVirtualTimeNs s.lanes s.artifactVirtualTimeNs 0 :=
    ⟨UInt64.le_refl _, fun _ _ lt => absurd lt (Nat.not_lt_zero _)⟩
  cases where_ : s.reader with
  | idle | returned safeNs =>
    simp only [where_, Option.some.injEq] at loaded
    cases loaded
    exact fresh
  | readSeq safeNs i =>
    simp only [where_] at loaded sound
    cases here : s.lanes[i]? with
    | none =>
      rw [here] at loaded
      cases loaded
      refine ⟨sound.time, fun j lane lt there => sound.lanes j lane ?_ there⟩
      exact lt.trans_le (List.getElem?_eq_none_iff.mp here)
    | some lane =>
      rw [here] at loaded
      cases loaded
      exact ⟨sound, lane, here, rfl⟩
  | writeSeq safeNs i read =>
    simp only [where_] at loaded sound
    obtain ⟨safe, lane, here, same⟩ := sound
    obtain ⟨read', count, counted⟩ := (inv.ordered lane (List.mem_of_getElem? here)).counted
    simp only [here, Option.bind_eq_bind, Option.bind_some, Option.pure_def, Option.some.injEq] at loaded
    split at loaded
    · next caught =>
      cases loaded
      have none : lane.pending = [] := counted.pending_eq_nil.mpr (same.trans caught)
      refine safe.pass here fun event member => ?_
      rw [none] at member
      cases member
    · next behind =>
      cases loaded
      refine ⟨safe, lane, here, same, fun none => behind ?_⟩
      exact same.symm.trans (counted.pending_eq_nil.mp none)
  | slot safeNs i read =>
    simp only [where_] at loaded sound
    obtain ⟨safe, lane, here, same, some⟩ := sound
    have ordered := inv.ordered lane (List.mem_of_getElem? here)
    obtain ⟨read', count, counted⟩ := ordered.counted
    simp only [here, Option.bind_eq_bind, Option.bind_some] at loaded
    obtain ⟨event, cell, loaded⟩ := Option.bind_eq_some_iff.mp loaded
    cases loaded
    have head := counted.cell some (same ▸ cell)
    obtain ⟨earlier, oldest⟩ : (if event.timestampNs < safeNs then event.timestampNs else safeNs) ≤ safeNs ∧
        (if event.timestampNs < safeNs then event.timestampNs else safeNs) ≤ event.timestampNs := by
      split
      · next lt => exact ⟨UInt64.le_of_lt lt, UInt64.le_refl _⟩
      · next ge => exact ⟨UInt64.le_refl _, UInt64.not_lt.mp ge⟩
    exact (safe.mono earlier).pass here (ordered.bounded head oldest)

/-- A step of the artifact, or of the core between the calls, keeps what the loads have seen of a lane. -/
theorem Lane.Ordered.bounded_step {timeNs safeNs : UInt64} {lane : Lane} {label : Label Event} {ring : Ring}
    (ordered : lane.Ordered timeNs) (step : Lib.Spsc.Step lane.depth (Timely timeNs lane) lane.ring label ring)
    (le : safeNs ≤ timeNs) (bounded : lane.Bounded safeNs) : (lane.after label ring).Bounded safeNs := by
  have moved := lane.after_pending ordered step
  intro event member
  have either : event ∈ lane.pending ++ published [label] := by
    rw [moved]
    exact List.mem_append_right _ member
  rcases List.mem_append.mp either with member | member
  · exact bounded event member
  · cases label with
    | publish event =>
      cases List.mem_singleton.mp member
      exact UInt64.le_trans le (ordered.held event step.publish_held.1).2
    | quiet | consume event | peek event => cases member

/-- While no event is consumed, an event that the reader has found stays. -/
theorem Lane.Ordered.pending_ne_nil {timeNs : UInt64} {lane : Lane} {label : Label Event} {ring : Ring}
    (ordered : lane.Ordered timeNs) (step : Lib.Spsc.Step lane.depth (Timely timeNs lane) lane.ring label ring)
    (keeps : ∀ event, label ≠ .consume event) (filled : lane.pending ≠ []) : (lane.after label ring).pending ≠ [] := by
  have moved := lane.after_pending ordered step
  have none : consumed [label] = [] := by
    cases label with
    | consume event => exact absurd rfl (keeps event)
    | quiet | publish event | peek event => rfl
  rw [none, List.nil_append] at moved
  rw [← moved]
  exact List.append_ne_nil_of_left_ne_nil filled _

theorem Lockstep.Inv.lane {s : Lockstep} (inv : s.Inv) {i : Nat} {lane : Lane} {label : Label Event} {ring : Ring}
    (here : s.lanes[i]? = some lane)
    (step : Lib.Spsc.Step lane.depth (Timely s.artifactVirtualTimeNs lane) lane.ring label ring)
    (apart : s.reader.running → ∀ event, label ≠ .consume event) :
    ({ s with lanes := s.lanes.set i (lane.after label ring) } : Lockstep).Inv := by
  have ordered := inv.ordered lane (List.mem_of_getElem? here)
  have inside := (List.getElem?_eq_some_iff.mp here).1
  have safe : ∀ safeNs passed, SafeSoFar s.artifactVirtualTimeNs s.lanes safeNs passed →
      SafeSoFar s.artifactVirtualTimeNs (s.lanes.set i (lane.after label ring)) safeNs passed := by
    intro safeNs passed safe
    refine ⟨safe.time, fun j other lt there => ?_⟩
    by_cases same : i = j
    · subst same
      rw [List.getElem?_set_self inside] at there
      cases there
      exact ordered.bounded_step step safe.time (safe.lanes i lane lt here)
    · rw [List.getElem?_set_ne same] at there
      exact safe.lanes j other lt there
  have seen : s.reader.running → ∀ (j : Nat) (other : Lane), s.lanes[j]? = some other →
      ∃ other', (s.lanes.set i (lane.after label ring))[j]? = some other' ∧
        other'.ring.readSeq = other.ring.readSeq ∧ (other.pending ≠ [] → other'.pending ≠ []) := by
    intro running j other there
    by_cases same : i = j
    · subst same
      rw [here] at there
      cases there
      exact ⟨_, List.getElem?_set_self inside, step.readSeq_eq (apart running),
        ordered.pending_ne_nil step (apart running)⟩
    · exact ⟨other, by rwa [List.getElem?_set_ne same], rfl, id⟩
  refine ⟨?_, ?_⟩
  · intro other member
    rcases List.mem_or_eq_of_mem_set member with member | rfl
    · exact inv.ordered other member
    · exact ordered.step step
  · have sound := inv.sound
    unfold Lockstep.Sound at sound ⊢
    dsimp only
    cases where_ : s.reader with
    | idle => trivial
    | readSeq safeNs j =>
      rw [where_] at sound
      exact safe _ _ sound
    | writeSeq safeNs j read =>
      rw [where_] at sound seen
      obtain ⟨bound, other, there, same⟩ := sound
      obtain ⟨other', there', same', _⟩ := seen rfl j other there
      exact ⟨safe _ _ bound, other', there', same'.trans same⟩
    | slot safeNs j read =>
      rw [where_] at sound seen
      obtain ⟨bound, other, there, same, filled⟩ := sound
      obtain ⟨other', there', same', filled'⟩ := seen rfl j other there
      exact ⟨safe _ _ bound, other', there', same'.trans same, filled' filled⟩
    | returned safeNs =>
      rw [where_] at sound
      have bound := safe _ _ sound
      rwa [← List.length_set] at bound

theorem Lockstep.Inv.advance {s : Lockstep} (inv : s.Inv) {timeNs : UInt64} (forward : s.artifactVirtualTimeNs ≤ timeNs)
    (published : ∀ lane ∈ s.lanes, ∀ event, lane.ring.producer.held = some event → timeNs ≤ event.timestampNs) :
    ({ s with artifactVirtualTimeNs := timeNs } : Lockstep).Inv := by
  refine ⟨fun lane member => (inv.ordered lane member).advance (published lane member), ?_⟩
  have safe : ∀ safeNs passed, SafeSoFar s.artifactVirtualTimeNs s.lanes safeNs passed →
      SafeSoFar timeNs s.lanes safeNs passed :=
    fun _ _ safe => ⟨UInt64.le_trans safe.time forward, safe.lanes⟩
  have sound := inv.sound
  unfold Lockstep.Sound at sound ⊢
  dsimp only
  cases where_ : s.reader with
  | idle => trivial
  | readSeq safeNs j | returned safeNs =>
    rw [where_] at sound
    exact safe _ _ sound
  | writeSeq safeNs j read | slot safeNs j read =>
    rw [where_] at sound
    exact ⟨safe _ _ sound.1, sound.2⟩

theorem Lockstep.Inv.step {s t : Lockstep} {action : Action} (inv : s.Inv) (step : s.Step action t) : t.Inv := by
  cases step with
  | load loaded => exact inv.load loaded
  | advance forward published => exact inv.advance forward published
  | lane here step apart => exact inv.lane here step apart

/-- Once the call has returned, nothing that is published later is older than what it returned. -/
theorem Lockstep.Inv.publishes {s t : Lockstep} {actions : List Action} (inv : s.Inv) {safeNs : UInt64}
    (le : safeNs ≤ s.artifactVirtualTimeNs) (run : Run Lockstep.Step s actions t) :
    ∀ event ∈ publishedEvents actions, safeNs ≤ event.timestampNs := by
  have kept : t.Inv ∧ safeNs ≤ t.artifactVirtualTimeNs ∧
      ∀ event ∈ publishedEvents actions, safeNs ≤ event.timestampNs := by
    refine run.history (P := fun actions t => t.Inv ∧ safeNs ≤ t.artifactVirtualTimeNs ∧
      ∀ event ∈ publishedEvents actions, safeNs ≤ event.timestampNs) ⟨inv, le, ?_⟩ ?_
    · rintro event ⟨⟩
    · rintro actions t action u _ ⟨inv, le, before⟩ step
      refine ⟨inv.step step, ?_, ?_⟩
      · cases step with
        | load | lane => exact le
        | advance forward => exact UInt64.le_trans le forward
      · unfold publishedEvents at before ⊢
        rw [List.filterMap_append]
        refine List.forall_mem_append.mpr ⟨before, ?_⟩
        cases step with
        | load | advance => rintro event ⟨⟩
        | lane here step apart =>
          rename_i label ring
          cases label with
          | publish event =>
            refine List.forall_mem_singleton.mpr (UInt64.le_trans le ?_)
            exact ((inv.ordered _ (List.mem_of_getElem? here)).held event step.publish_held.1).2
          | quiet | consume | peek => rintro event ⟨⟩
  exact kept.2.2

theorem Lockstep.Initial.inv {start : Lockstep} (initial : start.Initial) : start.Inv := by
  constructor
  · intro lane member
    have empty := initial.lanes lane member
    have counted := empty.counted
    have none : lane.pending = [] := counted.pending_eq_nil.mpr empty.none.symm
    refine ⟨⟨_, _, counted⟩, ?_, ?_, ?_⟩
    · rw [none]
      exact List.Pairwise.nil
    · rw [none]
      rintro event ⟨⟩
    · intro event holds
      rw [empty.producer] at holds
      cases holds
  · unfold Lockstep.Sound
    rw [initial.reader]
    trivial

/-- What the call returns is no later than any event that is pending then or published after it. -/
theorem lockstepSafeTimeNs_le {start s : Lockstep} {actions : List Action} (initial : start.Initial)
    (run : Run Lockstep.Step start actions s) {safeNs : UInt64} (returned : s.reader = .returned safeNs) :
    (∀ lane ∈ s.lanes, ∀ event ∈ lane.pending, safeNs ≤ event.timestampNs) ∧
      ∀ later t, Run Lockstep.Step s later t → ∀ event ∈ publishedEvents later, safeNs ≤ event.timestampNs := by
  have inv : s.Inv := run.invariant initial.inv fun _ _ _ inv step => inv.step step
  have sound := inv.sound
  unfold Lockstep.Sound at sound
  rw [returned] at sound
  refine ⟨fun lane member => ?_, fun later t run => inv.publishes sound.time run⟩
  obtain ⟨i, inside, here⟩ := List.mem_iff_getElem.mp member
  exact sound.lanes i lane inside (here ▸ List.getElem?_eq_getElem inside)

def pulse : Event where
  timestampNs := 5
  laneSequence := 0
  kind := 1
  payloadBytes := 0
  payload := []

/-- One lane of two cells. -/
def oneLane (timeNs : UInt64) (ring : Ring) (newestNs : UInt64) (reader : Reader) : Lockstep where
  artifactVirtualTimeNs := timeNs
  lanes := [⟨⟨2, 1, rfl⟩, ring, newestNs⟩]
  reader

theorem oneLane_step {timeNs newestNs : UInt64} {label : Label Event} {ring ring' : Ring}
    (step : Lib.Spsc.Step ⟨2, 1, rfl⟩ (Timely timeNs ⟨⟨2, 1, rfl⟩, ring, newestNs⟩) ring label ring') :
    Lockstep.Step (oneLane timeNs ring newestNs .idle) (.lane 0 label)
      (oneLane timeNs ring' (Lane.after ⟨⟨2, 1, rfl⟩, ring, newestNs⟩ label ring').newestNs .idle) := by
  have here : (oneLane timeNs ring newestNs .idle).lanes[0]? = some ⟨⟨2, 1, rfl⟩, ring, newestNs⟩ := rfl
  have apart : (oneLane timeNs ring newestNs .idle).reader.running → ∀ event, label ≠ .consume event :=
    fun running => by cases running
  exact .lane here step apart

/-- The artifact publishes an event of 5 ns and advances to 7 ns; the call meets the event. -/
theorem lockstepSafeTimeNs_le_pulse :
    (∀ lane ∈ (oneLane 7 { cells := [pulse, pulse], writeSeq := 1, readSeq := 0 } 5 (.returned 5)).lanes,
      ∀ event ∈ lane.pending, (5 : UInt64) ≤ event.timestampNs) ∧
      ∀ later t, Run Lockstep.Step (oneLane 7 { cells := [pulse, pulse], writeSeq := 1, readSeq := 0 } 5 (.returned 5))
        later t → ∀ event ∈ publishedEvents later, (5 : UInt64) ≤ event.timestampNs := by
  have initial : (oneLane 0 { cells := [pulse, pulse], writeSeq := 0, readSeq := 0 } 0 .idle).Initial :=
    ⟨List.forall_mem_singleton.mpr ⟨rfl, rfl, rfl, rfl⟩, rfl⟩
  have timely : Timely 0 ⟨⟨2, 1, rfl⟩, { cells := [pulse, pulse], writeSeq := 0, readSeq := 0 }, 0⟩ fun _ => pulse :=
    fun _ => ⟨(by decide : (0 : UInt64) ≤ 5), (by decide : (0 : UInt64) ≤ 5)⟩
  have begin_ : Lockstep.Step (oneLane 0 { cells := [pulse, pulse], writeSeq := 0, readSeq := 0 } 0 .idle)
      (.lane 0 .quiet)
      (oneLane 0 { cells := [pulse, pulse], writeSeq := 0, readSeq := 0, producer := .filling 0 pulse } 0 .idle) :=
    oneLane_step (.begin rfl (by decide) timely)
  have fill : Lockstep.Step
      (oneLane 0 { cells := [pulse, pulse], writeSeq := 0, readSeq := 0, producer := .filling 0 pulse } 0 .idle)
      (.lane 0 .quiet)
      (oneLane 0 { cells := [pulse, pulse], writeSeq := 0, readSeq := 0, producer := .filled 0 pulse } 0 .idle) :=
    oneLane_step (@Lib.Spsc.Step.fill _ _ _ _ 0 pulse rfl)
  have publish : Lockstep.Step
      (oneLane 0 { cells := [pulse, pulse], writeSeq := 0, readSeq := 0, producer := .filled 0 pulse } 0 .idle)
      (.lane 0 (.publish pulse)) (oneLane 0 { cells := [pulse, pulse], writeSeq := 1, readSeq := 0 } 5 .idle) :=
    oneLane_step (@Lib.Spsc.Step.publish _ _ _ _ 0 pulse rfl)
  have advance : Lockstep.Step (oneLane 0 { cells := [pulse, pulse], writeSeq := 1, readSeq := 0 } 5 .idle)
      (.advance 7) (oneLane 7 { cells := [pulse, pulse], writeSeq := 1, readSeq := 0 } 5 .idle) :=
    .advance (by decide) (List.forall_mem_singleton.mpr (by rintro event ⟨⟩))
  have load : ∀ reader next, (oneLane 7 { cells := [pulse, pulse], writeSeq := 1, readSeq := 0 } 5 reader).load =
      some next → Lockstep.Step (oneLane 7 { cells := [pulse, pulse], writeSeq := 1, readSeq := 0 } 5 reader) .load
        (oneLane 7 { cells := [pulse, pulse], writeSeq := 1, readSeq := 0 } 5 next) :=
    fun _ _ loaded => .load loaded
  have published := (((Run.one begin_).next fill).next publish).next advance
  have run := (((published.next (load .idle (.readSeq 7 0) rfl)).next (load _ (.writeSeq 7 0 0) rfl)).next
    (load _ (.slot 7 0 0) rfl)).next (load _ (.readSeq 5 1) rfl)
  exact lockstepSafeTimeNs_le initial (run.next (load _ (.returned 5) rfl)) rfl

end LasecSimul.Vnext
