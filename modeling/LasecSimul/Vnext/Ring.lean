import LasecSimul.Vnext.MappingView
import Mathlib.Data.List.Induction

/-!
# Lanes and the C2A ring

On a lane the artifact publishes and `consumeLane` and `peekLane` read; on the C2A ring `publishC2aEvent`
publishes and the artifact reads. Loads, slot accesses and stores of the two sides interleave.
-/

namespace LasecSimul.Vnext

open Lib.Trace Lib.Spsc

/-- `lasec_at_event`. -/
structure Event where
  timestampNs : UInt64
  laneSequence : UInt64
  kind : UInt32
  flags : UInt32 := 0
  endpointId : UInt32 := 0
  payloadBytes : UInt32
  payload : List UInt8
  deriving DecidableEq, Repr

abbrev Ring := State Event

def peekLane (depth : Depth) (ring : Ring) : Option Event :=
  if ring.readSeq = ring.writeSeq then none else ring.cells[slot depth ring.readSeq]?

def consumeLane (depth : Depth) (ring : Ring) : Option Event × Ring :=
  match peekLane depth ring with
  | some event => (some event, { ring with readSeq := ring.readSeq + 1 })
  | none => (none, ring)

def c2aEvent (kind : UInt32) (payload : List UInt8) (write : UInt64) : Event where
  timestampNs := write
  laneSequence := write
  kind := kind
  payloadBytes := UInt32.ofNat payload.length
  payload := payload ++ List.replicate (eventPayload - payload.length) 0

def publishC2aEvent (depth : Depth) (kind : UInt32) (payload : List UInt8) (ring : Ring) : Bool × Ring :=
  if payload.length > eventPayload then (false, ring)
  else if ring.writeSeq - ring.readSeq ≥ depth.val.toUInt64 then (false, ring)
  else (true, { ring with
    cells := ring.cells.set (slot depth ring.writeSeq) (c2aEvent kind payload ring.writeSeq)
    writeSeq := ring.writeSeq + 1 })

/-- The artifact may publish any event on a lane. -/
abbrev LaneStep (depth : Depth) : Ring → Label Event → Ring → Prop := Step depth fun _ => True

abbrev C2aStep (depth : Depth) : Ring → Label Event → Ring → Prop :=
  Step depth fun make => ∃ kind payload, payload.length ≤ eventPayload ∧ make = c2aEvent kind payload

theorem peekLane_steps {depth : Depth} {ring : Ring} {event : Event} (idle : ring.consumer = .idle)
    (peeked : peekLane depth ring = some event) :
    Run (LaneStep depth) ring [.quiet, .quiet, .peek event] ring := by
  unfold peekLane at peeked
  split at peeked
  · cases peeked
  · rename_i pending
    have last : LaneStep depth { ring with consumer := .copied ring.readSeq event } (.peek event)
        { ring with consumer := .idle } := .peek rfl
    have same : { ring with consumer := .idle } = ring := by
      cases ring
      cases idle
      rfl
    rw [same] at last
    exact .next (.next (.next (.start _) (.load idle pending)) (.copy rfl peeked)) last

theorem consumeLane_steps {depth : Depth} {ring after : Ring} {event : Event} (idle : ring.consumer = .idle)
    (consumed : consumeLane depth ring = (some event, after)) :
    Run (LaneStep depth) ring [.quiet, .quiet, .consume event] after := by
  unfold consumeLane at consumed
  cases peeked : peekLane depth ring with
  | none => simp [peeked] at consumed
  | some event' =>
    simp only [peeked, Prod.mk.injEq, Option.some.injEq] at consumed
    obtain ⟨rfl, rfl⟩ := consumed
    unfold peekLane at peeked
    split at peeked
    · cases peeked
    · rename_i pending
      have last : LaneStep depth { ring with consumer := .copied ring.readSeq event' } (.consume event')
          { ring with readSeq := ring.readSeq + 1, consumer := .idle } := .consume rfl
      have same : { ring with readSeq := ring.readSeq + 1, consumer := .idle } =
          { ring with readSeq := ring.readSeq + 1 } := by
        cases ring
        cases idle
        rfl
      rw [same] at last
      exact .next (.next (.next (.start _) (.load idle pending)) (.copy rfl peeked)) last

theorem publishC2aEvent_steps {depth : Depth} {kind : UInt32} {payload : List UInt8} {ring after : Ring}
    (idle : ring.producer = .idle) (published : publishC2aEvent depth kind payload ring = (true, after)) :
    Run (C2aStep depth) ring [.quiet, .quiet, .publish (c2aEvent kind payload ring.writeSeq)] after := by
  unfold publishC2aEvent at published
  split at published
  · simp at published
  · rename_i fits
    split at published
    · simp at published
    · rename_i room
      simp only [Prod.mk.injEq, true_and] at published
      subst published
      have first : C2aStep depth ring .quiet
          { ring with producer := .filling ring.writeSeq (c2aEvent kind payload ring.writeSeq) } :=
        .begin idle (UInt64.not_le.mp room) ⟨kind, payload, Nat.le_of_not_lt fits, rfl⟩
      have second := Run.next (Run.one first) (.fill rfl)
      have last := second.next (.publish rfl)
      have same (cells : List Event) : { ring with cells := cells, writeSeq := ring.writeSeq + 1, producer := .idle } =
          { ring with cells := cells, writeSeq := ring.writeSeq + 1 } := by
        cases ring
        cases idle
        rfl
      rw [same] at last
      exact last

/-! ### Exactly once, in order -/

structure ExactlyOnce (depth : Depth) (labels : List (Label Event)) (ring : Ring) : Prop where
  inOrder : consumed labels <+: published labels
  outstanding : (published labels).length = (consumed labels).length + (ring.writeSeq - ring.readSeq).toNat
  bounded : (ring.writeSeq - ring.readSeq).toNat ≤ depth.val.toNat
  intact : ∀ i event, (consumed labels).length ≤ i → (published labels)[i]? = some event →
    ring.cells[slot depth (ring.readSeq + UInt64.ofNat (i - (consumed labels).length))]? = some event
  obtained : ∀ read event, ring.consumer = .copied read event →
    (published labels)[(consumed labels).length]? = some event

theorem ExactlyOnce.of_delivers {depth : Depth} {labels : List (Label Event)} {ring : Ring}
    (delivers : Delivers depth labels ring) : ExactlyOnce depth labels ring := by
  constructor
  · exact ⟨_, delivers.inOrder.symm⟩
  · rw [delivers.inOrder, List.length_append, delivers.length]
  · exact delivers.bounded
  · intro i event low here
    rw [delivers.inOrder, List.getElem?_append_right low] at here
    have lt := (List.getElem?_eq_some_iff.mp here).1
    rw [delivers.length] at lt
    rw [← delivers.kept _ lt]
    exact here
  · intro read event copied
    rw [delivers.inOrder, List.getElem?_append_right (Nat.le_refl _), Nat.sub_self, ← List.head?_eq_getElem?]
    exact delivers.head read event copied

theorem rings_exactlyOnce {depth : Depth} {start ring : Ring} {labels : List (Label Event)} (empty : Empty depth start)
    (run : Run (LaneStep depth) start labels ring ∨ Run (C2aStep depth) start labels ring) :
    ExactlyOnce depth labels ring := by
  rcases run with run | run
  · exact .of_delivers (delivers empty run)
  · exact .of_delivers (delivers empty run)

/-- Two events published over the wrap of the sequence numbers. -/
theorem rings_exactlyOnce_wrap :
    let first := c2aEvent 2 [65] 0xFFFFFFFFFFFFFFFF
    let second := c2aEvent 2 [66] 0
    ExactlyOnce ⟨2, 1, rfl⟩ ([.quiet, .quiet, .publish first] ++ [.quiet, .quiet, .publish second])
      { cells := [second, first], writeSeq := 1, readSeq := 0xFFFFFFFFFFFFFFFF } := by
  intro first second
  let blank := c2aEvent 0 [] 0
  let start : Ring := { cells := [blank, blank], writeSeq := 0xFFFFFFFFFFFFFFFF, readSeq := 0xFFFFFFFFFFFFFFFF }
  have empty : Empty ⟨2, 1, rfl⟩ start := ⟨rfl, rfl, rfl, rfl⟩
  have once : publishC2aEvent ⟨2, 1, rfl⟩ 2 [65] start =
      (true, { cells := [blank, first], writeSeq := 0, readSeq := 0xFFFFFFFFFFFFFFFF }) := by decide +kernel
  have twice : publishC2aEvent ⟨2, 1, rfl⟩ 2 [66]
      { cells := [blank, first], writeSeq := 0, readSeq := 0xFFFFFFFFFFFFFFFF } =
      (true, { cells := [second, first], writeSeq := 1, readSeq := 0xFFFFFFFFFFFFFFFF }) := by decide +kernel
  exact rings_exactlyOnce empty (.inr ((publishC2aEvent_steps rfl once).append (publishC2aEvent_steps rfl twice)))

end LasecSimul.Vnext

/-!
## The arbiter

`selectNextLaneEvent` picks the lane whose head comes first by `(timestampNs, lane)`, and
`decidePostAckRearm` says how a turn arranges the next one. Times are natural numbers and saturate where
the source saturates.
-/

namespace LasecSimul.Vnext

def uint64Max : Nat := 2 ^ 64 - 1

def vnextEventTimeNs (originNs timestampNs : Nat) : Nat :=
  if timestampNs > uint64Max - originNs then uint64Max else originNs + timestampNs

structure VnextBLanePeek where
  present : Bool := false
  timestampNs : Nat := 0
  deriving DecidableEq, Repr

structure VnextBArbiterDecision where
  hasCandidate : Bool := false
  lane : Nat := 0
  timestampNs : Nat := 0
  ready : Bool := false
  deriving DecidableEq, Repr

/-- The body of the loop over the lanes. -/
def considerLane (decision : VnextBArbiterDecision) (peek : VnextBLanePeek × Nat) : VnextBArbiterDecision :=
  if ¬peek.1.present then decision
  else if ¬decision.hasCandidate ∨ peek.1.timestampNs < decision.timestampNs then
    { decision with hasCandidate := true, lane := peek.2, timestampNs := peek.1.timestampNs }
  else decision

def bestLane (peeks : List VnextBLanePeek) : VnextBArbiterDecision := peeks.zipIdx.foldl considerLane {}

def selectNextLaneEvent (peeks : List VnextBLanePeek) (nowNs : Nat) : VnextBArbiterDecision :=
  let decision := bestLane peeks
  if decision.hasCandidate then { decision with ready := decision.timestampNs ≤ nowNs } else decision

inductive VnextBRearmAction where
  | none
  | immediate
  | at (timestampNs : Nat)
  deriving DecidableEq, Repr

def decidePostAckRearm (peeks : List VnextBLanePeek) (nowNs : Nat) (budgetExhausted : Bool) : VnextBRearmAction :=
  if budgetExhausted then .immediate
  else
    let decision := selectNextLaneEvent peeks nowNs
    if ¬decision.hasCandidate then .none
    else if decision.ready then .immediate
    else .at decision.timestampNs

/-! ### The least head -/

/-- `a` on lane `i` comes no later than `b` on lane `j`. -/
def NoLater (a i b j : Nat) : Prop := a < b ∨ (a = b ∧ i ≤ j)

structure Best (peeks : List VnextBLanePeek) (decision : VnextBArbiterDecision) : Prop where
  undecided : decision.ready = false
  empty : decision.hasCandidate = false → ∀ peek ∈ peeks, peek.present = false
  chosen : decision.hasCandidate = true →
    peeks[decision.lane]? = some { present := true, timestampNs := decision.timestampNs } ∧
    ∀ lane peek, peeks[lane]? = some peek → peek.present = true →
      NoLater decision.timestampNs decision.lane peek.timestampNs lane

theorem getElem?_snoc_cases {α : Type} {xs : List α} {x y : α} {i : Nat} (here : (xs ++ [x])[i]? = some y) :
    xs[i]? = some y ∨ (i = xs.length ∧ y = x) := by
  rcases Nat.lt_trichotomy i xs.length with inside | rfl | outside
  · rw [List.getElem?_append_left inside] at here
    exact .inl here
  · rw [List.getElem?_concat_length] at here
    exact .inr ⟨rfl, (Option.some.inj here).symm⟩
  · have beyond : (xs ++ [x]).length ≤ i := by simp; omega
    rw [List.getElem?_eq_none beyond] at here
    cases here

theorem Best.consider {peeks : List VnextBLanePeek} {decision : VnextBArbiterDecision} (best : Best peeks decision)
    (peek : VnextBLanePeek) : Best (peeks ++ [peek]) (considerLane decision (peek, peeks.length)) := by
  unfold considerLane
  dsimp only
  split
  · rename_i absent
    refine ⟨best.undecided, fun none other member => ?_, fun some => ?_⟩
    · rcases List.mem_append.mp member with old | last
      · exact best.empty none other old
      · rw [List.mem_singleton.mp last]
        simpa using absent
    · obtain ⟨here, least⟩ := best.chosen some
      have lt := (List.getElem?_eq_some_iff.mp here).1
      refine ⟨by rwa [List.getElem?_append_left lt], fun lane other at_lane present => ?_⟩
      rcases getElem?_snoc_cases at_lane with old | ⟨_, rfl⟩
      · exact least lane other old present
      · exact absurd present absent
  · rename_i present
    have present : peek.present = true := by simpa using present
    split
    · rename_i better
      refine ⟨best.undecided, nofun, fun _ => ⟨?_, fun lane other at_lane there => ?_⟩⟩
      · rw [List.getElem?_concat_length]
        cases peek
        cases present
        rfl
      · rcases getElem?_snoc_cases at_lane with old | ⟨rfl, rfl⟩
        · left
          cases some : decision.hasCandidate with
          | false =>
            have absent := best.empty some other (List.mem_of_getElem? old)
            simp [absent] at there
          | true =>
            have earlier : peek.timestampNs < decision.timestampNs := better.resolve_left (by simp [some])
            have least := (best.chosen some).2 lane other old there
            unfold NoLater at least
            show peek.timestampNs < other.timestampNs
            omega
        · exact .inr ⟨rfl, Nat.le_refl _⟩
    · rename_i worse
      push Not at worse
      obtain ⟨some, late⟩ := worse
      obtain ⟨here, least⟩ := best.chosen some
      have lt := (List.getElem?_eq_some_iff.mp here).1
      refine ⟨best.undecided, fun none => by simp [some] at none, fun _ => ⟨?_, fun lane other at_lane there => ?_⟩⟩
      · rwa [List.getElem?_append_left lt]
      · rcases getElem?_snoc_cases at_lane with old | ⟨rfl, rfl⟩
        · exact least lane other old there
        · unfold NoLater
          omega

theorem bestLane_best (peeks : List VnextBLanePeek) : Best peeks (bestLane peeks) := by
  induction peeks using List.reverseRecOn with
  | nil => exact ⟨rfl, nofun, nofun⟩
  | append_singleton peeks peek ih =>
    unfold bestLane at ih ⊢
    rw [List.zipIdx_append, List.foldl_append, Nat.zero_add]
    exact ih.consider peek

theorem selectNextLaneEvent_fields (peeks : List VnextBLanePeek) (nowNs : Nat) :
    (selectNextLaneEvent peeks nowNs).hasCandidate = (bestLane peeks).hasCandidate ∧
    (selectNextLaneEvent peeks nowNs).lane = (bestLane peeks).lane ∧
    (selectNextLaneEvent peeks nowNs).timestampNs = (bestLane peeks).timestampNs := by
  unfold selectNextLaneEvent
  dsimp only
  split <;> simp

theorem selectNextLaneEvent_none {peeks : List VnextBLanePeek} {nowNs : Nat}
    (none : (selectNextLaneEvent peeks nowNs).hasCandidate = false) : ∀ peek ∈ peeks, peek.present = false :=
  (bestLane_best peeks).empty ((selectNextLaneEvent_fields peeks nowNs).1 ▸ none)

theorem selectNextLaneEvent_some {peeks : List VnextBLanePeek} {nowNs : Nat}
    (found : (selectNextLaneEvent peeks nowNs).hasCandidate = true) :
    peeks[(selectNextLaneEvent peeks nowNs).lane]? =
      some { present := true, timestampNs := (selectNextLaneEvent peeks nowNs).timestampNs } ∧
    ∀ lane peek, peeks[lane]? = some peek → peek.present = true →
      NoLater (selectNextLaneEvent peeks nowNs).timestampNs (selectNextLaneEvent peeks nowNs).lane
        peek.timestampNs lane := by
  obtain ⟨candidate, lane, timestampNs⟩ := selectNextLaneEvent_fields peeks nowNs
  rw [lane, timestampNs]
  exact (bestLane_best peeks).chosen (candidate ▸ found)

theorem selectNextLaneEvent_ready {peeks : List VnextBLanePeek} {nowNs : Nat} :
    (selectNextLaneEvent peeks nowNs).ready = true ↔
      (selectNextLaneEvent peeks nowNs).hasCandidate = true ∧ (selectNextLaneEvent peeks nowNs).timestampNs ≤ nowNs := by
  unfold selectNextLaneEvent
  dsimp only
  split
  · rename_i some
    simp [some]
  · rename_i none
    simp [none, (bestLane_best peeks).undecided]

theorem selectNextLaneEvent_future {peeks : List VnextBLanePeek} {nowNs : Nat}
    (found : (selectNextLaneEvent peeks nowNs).hasCandidate = true)
    (notReady : ¬(selectNextLaneEvent peeks nowNs).ready = true) :
    nowNs < (selectNextLaneEvent peeks nowNs).timestampNs := by
  by_contra early
  exact notReady (selectNextLaneEvent_ready.mpr ⟨found, Nat.le_of_not_lt early⟩)

theorem decidePostAckRearm_none {peeks : List VnextBLanePeek} {nowNs : Nat}
    (decided : decidePostAckRearm peeks nowNs false = .none) :
    (selectNextLaneEvent peeks nowNs).hasCandidate = false := by
  unfold decidePostAckRearm at decided
  cases found : (selectNextLaneEvent peeks nowNs).hasCandidate with
  | false => rfl
  | true =>
    simp only [found, Bool.false_eq_true, not_true_eq_false, if_false] at decided
    split at decided <;> cases decided

theorem decidePostAckRearm_at {peeks : List VnextBLanePeek} {nowNs timestampNs : Nat}
    (decided : decidePostAckRearm peeks nowNs false = .at timestampNs) :
    (selectNextLaneEvent peeks nowNs).hasCandidate = true ∧
    (selectNextLaneEvent peeks nowNs).timestampNs = timestampNs ∧ nowNs < timestampNs := by
  unfold decidePostAckRearm at decided
  cases found : (selectNextLaneEvent peeks nowNs).hasCandidate with
  | false => simp [found] at decided
  | true =>
    simp only [found, Bool.false_eq_true, not_true_eq_false, if_false] at decided
    split at decided
    · cases decided
    · cases decided
      exact ⟨rfl, rfl, selectNextLaneEvent_future found ‹_›⟩

end LasecSimul.Vnext
