import LasecSimul.Hart.Effects

/-!
# Responses within their buffer

No command writes past the end of the buffer it was given.
-/

namespace LasecSimul.Hart

variable {ρ σ : Type}

/-- The buffer has this size, and what was written fits. -/
structure HartResponseBuilder.Within (capacity : Nat) (response : HartResponseBuilder) : Prop where
  same : response.capacity = capacity
  fits : response.bytes.length ≤ capacity

namespace HartResponseBuilder.Within

variable {capacity : Nat} {response : HartResponseBuilder}

theorem writeBytes (within : Within capacity response) (values : Bytes) :
    Within capacity (response.writeBytes values).2 := by
  unfold HartResponseBuilder.writeBytes
  split
  · exact ⟨within.same, within.fits⟩
  · rename_i room
    refine ⟨within.same, ?_⟩
    have := within.same
    have := within.fits
    simp only [List.length_append]
    omega

theorem write (within : Within capacity response) (fields : List Bytes) :
    Within capacity (response.write fields).2 := by
  induction fields generalizing response with
  | nil => exact within
  | cons field fields ih =>
    have first := within.writeBytes field
    unfold HartResponseBuilder.write
    split
    · rename_i next written
      rw [written] at first
      exact ih first
    · rename_i next written
      rw [written] at first
      exact first

theorem of_write (within : Within capacity response) {fields : List Bytes} {done : Bool} {after : HartResponseBuilder}
    (written : response.write fields = (done, after)) : Within capacity after := by
  have kept := within.write fields
  rwa [written] at kept

theorem fail (within : Within capacity response) (code : UInt8) : Within capacity (response.fail code).2 :=
  ⟨within.same, within.fits⟩

end HartResponseBuilder.Within

open HartResponseBuilder (Within)

namespace RuntimeDevice

variable {capacity : Nat} {response : HartResponseBuilder} {device : RuntimeDevice ρ} {call : Call} {answer : Answer ρ}

theorem readTrend_within (within : Within capacity response) (request : Bytes) :
    Within capacity (device.readTrend request response).response := by
  unfold readTrend
  split
  · split
    · exact within
    · dsimp only
      split
      · rename_i after written
        exact within.of_write written
      · rename_i after written
        exact within.of_write written
  · exact within

theorem override_within (within : Within capacity response) {command : HartCommandId}
    {written : Bool × HartResponseBuilder} (overridden : device.override command response = some written) :
    Within capacity written.2 := by
  unfold override at overridden
  split at overridden
  · cases overridden
  split at overridden
  · cases overridden
    exact within.fail _
  split at overridden
  · cases overridden
    exact within.writeBytes _
  · cases overridden

theorem answerEarly_within (within : Within capacity response) (given : device.answerEarly call response = some answer) :
    Within capacity answer.response := by
  refine answerEarly_induct (P := fun answer => Within capacity answer.response) given (within.fail _) within within
    (readTrend_within within _) ?_ ?_ ?_
  · unfold readClientCounters
    split
    · exact within
    · exact within.write _
  · unfold readDeviceCounters
    split
    · exact within
    · exact within.write _
  · exact fun _ overridden => override_within within overridden

theorem assignmentCommand_within {devices : List (RuntimeDevice ρ)} {command : HartCommandId} {request : Bytes}
    (within : Within capacity response) :
    Within capacity (assignmentCommand devices device command request response).response := by
  unfold assignmentCommand
  dsimp only
  split
  · exact within
  split
  · split
    · exact within
    · exact within.write _
  split
  · split
    · split
      · exact within
      split
      · exact within.write _
      · exact within.write _
    · exact within
  split
  · exact within.fail _
  split
  · split
    · exact within
    · exact within.write _
  · split
    · split
      · exact within
      · split
        · exact within
        · exact within.write _
    · exact within

theorem readSubDeviceIdentity_within {devices : List (RuntimeDevice ρ)} {request : Bytes}
    (within : Within capacity response) :
    Within capacity (readSubDeviceIdentity devices device request response).response := by
  unfold readSubDeviceIdentity
  split
  · dsimp only
    split
    · exact within.write _
    · exact within
  · exact within

theorem readSubDeviceStatistics_within {request : Bytes} (within : Within capacity response) :
    Within capacity (device.readSubDeviceStatistics request response).response := by
  unfold readSubDeviceStatistics
  split
  · dsimp only
    split
    · exact within
    · split
      all_goals exact within.write _
  · exact within

theorem transferService_within {request : Bytes} (within : Within capacity response) :
    Within capacity (device.transferService request response).response := by
  unfold transferService
  split
  · split
    · exact within
    · split
      · exact within
      · exact within.write _
  · exact within

theorem transferSegment_within {request : Bytes} (within : Within capacity response) :
    Within capacity (device.transferSegment request response).response := by
  unfold transferSegment
  split
  · split
    · exact within
    · split
      · exact within
      · exact within.write _
  · exact within

theorem acknowledgeEvent_within {request : Bytes} {masterRole : UInt8} (within : Within capacity response) :
    Within capacity (device.acknowledgeEvent request response masterRole).response := by
  unfold acknowledgeEvent
  split
  · exact within
  · split
    · exact within
    · exact within.write _

theorem answerBuiltIn_within {devices : List (RuntimeDevice ρ)} (within : Within capacity response)
    (given : answerBuiltIn devices device call response = some answer) : Within capacity answer.response := by
  refine answerBuiltIn_induct (P := fun answer => Within capacity answer.response) given
    (within.writeBytes _) ?_ ?_ ?_ ?_ ?_ ?_ ?_ ?_
  · exact fun _ => transferService_within within
  · exact fun _ => transferSegment_within within
  · unfold readEventNotification
    split
    · exact within
    · exact within.write _
  · exact acknowledgeEvent_within within
  · exact fun _ => assignmentCommand_within within
  · exact readSubDeviceIdentity_within within
  · unfold readChannelStatistics
    split
    · split
      · exact within
      · exact within.write _
    · exact within
  · exact readSubDeviceStatistics_within within

theorem Answers.within {devices : List (RuntimeDevice ρ)} (within : Within capacity response)
    (answers : device.Answers devices call response answer) : Within capacity answer.response := by
  cases answers with
  | early given => exact answerEarly_within within given
  | locked => exact within.fail _
  | builtIn given => exact answerBuiltIn_within within given

end RuntimeDevice

/-- What the host is called with, it writes through the builder only. -/
structure Host.Bounded (host : Host ρ σ) : Prop where
  handler : ∀ {command native}, host.handler command = some native → ∀ handlers context {capacity response},
    Within capacity response → Within capacity (native handlers context response).2.2
  programHook : ∀ {programHook}, host.programHook = some programHook →
    ∀ profile plan primary command request masterRole {capacity response}, Within capacity response →
      Within capacity (programHook profile plan primary command request response masterRole).2.2

namespace HartEngine

theorem execute_within {host : Host ρ σ} (bounded : host.Bounded) {engine : HartEngine ρ σ} {call : Call}
    {response : HartResponseBuilder} {outcome : Outcome ρ σ} {capacity : Nat} (within : Within capacity response)
    (ran : execute host engine call response = .ok outcome) (executed : outcome.executed = true) :
    Within capacity outcome.response := by
  rcases execute_cases ran with ⟨_, rfl⟩ | ⟨i, device, found, here, did⟩
  · exact within
  cases did with
  | answered given => exact given.within within
  | @custom native handlers executed response' registered native =>
    exact Eq.subst (motive := fun result => Within capacity result.2.2) native (bounded.handler registered _ _ within)
  | refused | overflowed | unanswered => cases executed
  | forwarded => exact within.write _
  | aggregated nests aggregate parsed inner fits =>
    exact within.of_write fits
  | programmed hook accepted =>
    exact Eq.subst (motive := fun result => Within capacity result.2.2) accepted
      (bounded.programHook hook _ _ _ _ _ _ within)

end HartEngine

end LasecSimul.Hart
