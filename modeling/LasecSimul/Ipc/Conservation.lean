import LasecSimul.Ipc.NotificationQueue
import LasecSimul.Lib.Fallible
import Mathlib.Data.List.Nodup
import Mathlib.Data.List.Infix

/-!
# Conservation of messages

`Sheds` is all that making room may do: the control lane stays and telemetry goes. `Effect` says what a
step does to the two lanes; order, delivery and the latest payload of a key follow from it.
-/

namespace LasecSimul.Ipc

open Lib.Trace

def queuedBytes : List QueuedNotification → Nat
  | [] => 0
  | queued :: rest => queued.serialized.length + queuedBytes rest

theorem queuedBytes_concat (queue : List QueuedNotification) (queued : QueuedNotification) :
    queuedBytes (queue ++ [queued]) = queuedBytes queue + queued.serialized.length := by
  induction queue with
  | nil => simp [queuedBytes]
  | cons first queue ih =>
    simp only [List.cons_append, queuedBytes, ih]
    omega

theorem queuedBytes_eraseP {p : QueuedNotification → Bool} {queue : List QueuedNotification}
    {found : QueuedNotification} (here : queue.find? p = some found) :
    queuedBytes queue = found.serialized.length + queuedBytes (queue.eraseP p) := by
  induction queue with
  | nil => cases here
  | cons queued queue ih =>
    cases holds : p queued with
    | true =>
      rw [List.find?_cons_of_pos holds] at here
      obtain rfl := Option.some.inj here
      rw [List.eraseP_cons_of_pos holds, queuedBytes]
    | false =>
      have absent : ¬p queued = true := by simp [holds]
      rw [List.find?_cons_of_neg absent] at here
      rw [List.eraseP_cons_of_neg absent, queuedBytes, queuedBytes, ih here]
      omega

namespace NotificationQueue

variable {q r t : NotificationQueue} {key serialized : Bytes}

/-- The counter is the size of what is queued, within the budget. -/
structure Accounted (q : NotificationQueue) : Prop where
  bytes : q.bytes = (queuedBytes q.control + queuedBytes q.telemetry : Nat)
  budget : q.bytes ≤ q.capacityBytes

structure Sheds (q r : NotificationQueue) : Prop where
  control : r.control = q.control
  telemetry : r.telemetry.Sublist q.telemetry
  capacityBytes : r.capacityBytes = q.capacityBytes
  stopped : r.stopped = q.stopped
  accounted : q.Accounted → r.Accounted

theorem Sheds.refl (q : NotificationQueue) : q.Sheds q := ⟨rfl, List.Sublist.refl _, rfl, rfl, id⟩

theorem Sheds.trans (first : q.Sheds r) (second : r.Sheds t) : q.Sheds t where
  control := second.control.trans first.control
  telemetry := second.telemetry.trans first.telemetry
  capacityBytes := second.capacityBytes.trans first.capacityBytes
  stopped := second.stopped.trans first.stopped
  accounted accounted := second.accounted (first.accounted accounted)

theorem dropOldestTelemetryLocked_sheds (q : NotificationQueue) : q.Sheds q.dropOldestTelemetryLocked := by
  unfold dropOldestTelemetryLocked
  split
  · exact .refl q
  · rename_i front rest queued
    refine ⟨rfl, queued ▸ List.sublist_cons_self front rest, rfl, rfl, fun accounted => ?_⟩
    have bytes := accounted.bytes
    have budget := accounted.budget
    rw [queued, queuedBytes] at bytes
    constructor
    · show q.bytes - front.serialized.length = (queuedBytes q.control + queuedBytes rest : Nat)
      omega
    · show q.bytes - front.serialized.length ≤ q.capacityBytes
      omega

theorem evictFor_sheds (serialized : Bytes) (frames : Nat) (q : NotificationQueue) :
    q.Sheds (evictFor serialized frames q) := by
  induction frames generalizing q with
  | zero => exact .refl q
  | succ frames ih =>
    rw [evictFor]
    split
    · exact .refl q
    · exact q.dropOldestTelemetryLocked_sheds.trans (ih _)

theorem makeRoom_sheds (q : NotificationQueue) (serialized : Bytes) : q.Sheds (q.makeRoom serialized) :=
  evictFor_sheds serialized _ q

theorem coalesce_sheds (q : NotificationQueue) (key : Bytes) : q.Sheds (q.coalesce key) := by
  unfold coalesce
  split
  · exact .refl q
  · rename_i existing found
    refine ⟨rfl, List.eraseP_sublist, rfl, rfl, fun accounted => ?_⟩
    have bytes := accounted.bytes
    have budget := accounted.budget
    rw [queuedBytes_eraseP found] at bytes
    constructor
    · show q.bytes - existing.serialized.length =
        (queuedBytes q.control + queuedBytes (q.telemetry.eraseP (·.key == key)) : Nat)
      omega
    · show q.bytes - existing.serialized.length ≤ q.capacityBytes
      omega

theorem dropFrame_sheds (q : NotificationQueue) (serialized : Bytes) : q.Sheds (q.dropFrame serialized) :=
  ⟨rfl, List.Sublist.refl _, rfl, rfl, fun accounted => ⟨accounted.bytes, accounted.budget⟩⟩

theorem resetMetrics_sheds (q : NotificationQueue) : q.Sheds q.resetMetrics :=
  ⟨rfl, List.Sublist.refl _, rfl, rfl, fun accounted => ⟨accounted.bytes, accounted.budget⟩⟩

theorem coalesce_key (q : NotificationQueue) (key : Bytes) (distinct : (q.telemetry.map (·.key)).Nodup) :
    ∀ queued ∈ (q.coalesce key).telemetry, queued.key ≠ key := by
  unfold coalesce
  split
  · rename_i none
    intro queued member same
    have absent := List.find?_eq_none.mp none queued member
    simp [same] at absent
  · rename_i existing found
    show ∀ queued ∈ q.telemetry.eraseP (·.key == key), queued.key ≠ key
    obtain ⟨removed, front, back, -, isKey, whole, erased⟩ :=
      List.exists_of_eraseP (List.mem_of_find?_eq_some found) (List.find?_some found)
    have removedKey : removed.key = key := by simpa using isKey
    rw [erased]
    rw [whole, List.map_append, List.map_cons, removedKey, List.nodup_middle, List.nodup_cons] at distinct
    intro queued member same
    apply distinct.1
    rw [← List.map_append, ← same]
    exact List.mem_map_of_mem member

/-- What `resumeControl` and `pushControl` do to the lanes, by their answer. -/
inductive ControlPush (q : NotificationQueue) (serialized : Bytes) : Option Bool → NotificationQueue → Prop where
  | accepted {r : NotificationQueue} : q.stopped = false →
    r.control = q.control ++ [⟨.reliableControl, [], serialized⟩] → r.telemetry.Sublist q.telemetry →
    r.capacityBytes = q.capacityBytes → r.stopped = q.stopped → (q.Accounted → r.Accounted) →
    ControlPush q serialized (some true) r
  | refused {r : NotificationQueue} : q.Sheds r → ControlPush q serialized (some false) r
  | waits {r : NotificationQueue} : q.Sheds r → ControlPush q serialized none r

theorem resumeControl_push (q : NotificationQueue) (serialized : Bytes) :
    ControlPush q serialized (q.resumeControl serialized).2 (q.resumeControl serialized).1 := by
  unfold resumeControl
  split
  · exact .refused (.refl q)
  · rename_i running
    split
    · rename_i fits
      refine .accepted (by simpa using running) rfl (List.Sublist.refl _) rfl rfl fun accounted => ⟨?_, fits⟩
      have bytes := accounted.bytes
      show q.bytes + serialized.length =
        (queuedBytes (q.control ++ [⟨.reliableControl, [], serialized⟩]) + queuedBytes q.telemetry : Nat)
      simp only [queuedBytes_concat]
      omega
    · exact .waits (.refl q)

theorem ControlPush.capacityBytes_eq {answer : Option Bool} (push : ControlPush q serialized answer r) :
    r.capacityBytes = q.capacityBytes := by
  cases push with
  | accepted _ _ _ capacity => exact capacity
  | refused sheds => exact sheds.capacityBytes
  | waits sheds => exact sheds.capacityBytes

theorem ControlPush.after {answer : Option Bool} (sheds : q.Sheds r) (push : ControlPush r serialized answer t) :
    ControlPush q serialized answer t := by
  cases push with
  | accepted running control telemetry capacity stopped accounted =>
    exact .accepted (sheds.stopped ▸ running) (sheds.control ▸ control) (telemetry.trans sheds.telemetry)
      (capacity.trans sheds.capacityBytes) (stopped.trans sheds.stopped)
      fun before => accounted (sheds.accounted before)
  | refused later => exact .refused (sheds.trans later)
  | waits later => exact .waits (sheds.trans later)

theorem pushControl_push (q : NotificationQueue) (serialized : Bytes) :
    ControlPush q serialized (q.pushControl serialized).2 (q.pushControl serialized).1 := by
  unfold pushControl
  split
  · exact .refused (.refl q)
  · split
    · exact .refused ⟨rfl, List.Sublist.refl _, rfl, rfl, fun accounted => ⟨accounted.bytes, accounted.budget⟩⟩
    · exact (resumeControl_push _ serialized).after (q.makeRoom_sheds serialized)

inductive TelemetryPush (q : NotificationQueue) (key serialized : Bytes) :
    Except Exception Bool → NotificationQueue → Prop where
  | accepted {r : NotificationQueue} (kept : List QueuedNotification) : q.stopped = false →
    r.control = q.control → kept.Sublist q.telemetry →
    ((q.telemetry.map (·.key)).Nodup → ∀ queued ∈ kept, queued.key ≠ key) →
    r.telemetry = kept ++ [⟨.lossyTelemetry, key, serialized⟩] →
    r.capacityBytes = q.capacityBytes → r.stopped = q.stopped → (q.Accounted → r.Accounted) →
    TelemetryPush q key serialized (.ok true) r
  | refused {r : NotificationQueue} {answer : Except Exception Bool} : answer ≠ .ok true → q.Sheds r →
    TelemetryPush q key serialized answer r

theorem TelemetryPush.capacityBytes_eq {answer : Except Exception Bool}
    (push : TelemetryPush q key serialized answer r) : r.capacityBytes = q.capacityBytes := by
  cases push with
  | accepted _ _ _ _ _ _ capacity => exact capacity
  | refused _ sheds => exact sheds.capacityBytes

theorem appendTelemetry_push {frames : NotificationQueue} (coalesced : q.coalesce key = frames)
    (running : q.stopped = false) :
    TelemetryPush q key serialized (.ok (frames.appendTelemetry key serialized).2)
      (frames.appendTelemetry key serialized).1 := by
  have sheds : q.Sheds frames := coalesced ▸ q.coalesce_sheds key
  unfold appendTelemetry
  split
  · exact .refused (by simp) (sheds.trans (frames.dropFrame_sheds serialized))
  · have roomy := sheds.trans (frames.makeRoom_sheds serialized)
    simp only []
    split
    · rename_i fits
      refine .accepted (frames.makeRoom serialized).telemetry running roomy.control roomy.telemetry
        (fun distinct queued member => ?_) rfl roomy.capacityBytes roomy.stopped fun accounted => ⟨?_, fits⟩
      · exact q.coalesce_key key distinct queued
          (coalesced ▸ (frames.makeRoom_sheds serialized).telemetry.subset member)
      · have bytes := (roomy.accounted accounted).bytes
        show (frames.makeRoom serialized).bytes + serialized.length =
          (queuedBytes (frames.makeRoom serialized).control + queuedBytes
            ((frames.makeRoom serialized).telemetry ++ [⟨.lossyTelemetry, key, serialized⟩]) : Nat)
        simp only [queuedBytes_concat]
        omega
    · exact .refused (by simp) (roomy.trans (dropFrame_sheds _ serialized))

theorem pushTelemetry_push (q : NotificationQueue) (key serialized : Bytes) :
    TelemetryPush q key serialized (q.pushTelemetry key serialized).2 (q.pushTelemetry key serialized).1 := by
  unfold pushTelemetry
  split
  · exact .refused (by simp) (.refl q)
  · rename_i running
    split
    · exact .refused (by simp) (.refl q)
    · exact appendTelemetry_push rfl (by simpa using running)

end NotificationQueue

/-! ### What the callers have seen -/

def Label.acceptedControl? : Label → Option Bytes
  | .pushControl serialized (some true) | .resumed serialized true => some serialized
  | _ => none

def Label.deliveredControl? : Label → Option Bytes
  | .popped (some ⟨.reliableControl, _, serialized⟩) => some serialized
  | _ => none

def Label.acceptedTelemetryOf (key : Bytes) : Label → Option Bytes
  | .pushTelemetry pushed serialized (.ok true) => if pushed = key then some serialized else none
  | _ => none

def Label.pop? : Label → Option (Option QueuedNotification)
  | .popped result => some result
  | _ => none

def acceptedControl (labels : List Label) : List Bytes := labels.filterMap Label.acceptedControl?

def deliveredControl (labels : List Label) : List Bytes := labels.filterMap Label.deliveredControl?

def pops (labels : List Label) : List (Option QueuedNotification) := labels.filterMap Label.pop?

/-- The payload of the last accepted push under a key. -/
def latestTelemetry (key : Bytes) (labels : List Label) : Option Bytes :=
  (labels.filterMap (Label.acceptedTelemetryOf key)).getLast?

structure Conserves (labels : List Label) (q : NotificationQueue) : Prop where
  accounted : q.Accounted
  running : .stop ∉ labels → q.stopped = false
  controlLane : ∀ queued ∈ q.control, queued.lane = .reliableControl
  telemetryLane : ∀ queued ∈ q.telemetry, queued.lane = .lossyTelemetry
  order : q.stopped = false → acceptedControl labels = deliveredControl labels ++ q.control.map (·.serialized)
  delivered : deliveredControl labels <+: acceptedControl labels
  distinct : (q.telemetry.map (·.key)).Nodup
  latest : ∀ queued ∈ q.telemetry, latestTelemetry queued.key labels = some queued.serialized

variable {labels more : List Label} {label : Label} {s t : System} {q r : NotificationQueue}
  {key serialized : Bytes}

/-- A step that accepts nothing and pops nothing. -/
structure Silent (label : Label) : Prop where
  accepted : label.acceptedControl? = none
  delivered : label.deliveredControl? = none
  telemetry : ∀ key, label.acceptedTelemetryOf key = none
  running : label ≠ .stop

theorem running_concat (running : .stop ∉ labels ++ [label]) : .stop ∉ labels :=
  fun member => running (List.mem_append_left _ member)

theorem filterMap_concat_none {α β : Type} {f : α → Option β} {xs : List α} {x : α} (none : f x = none) :
    (xs ++ [x]).filterMap f = xs.filterMap f := by
  rw [List.filterMap_append, List.filterMap_cons_none none, List.filterMap_nil, List.append_nil]

theorem filterMap_concat_some {α β : Type} {f : α → Option β} {xs : List α} {x : α} {y : β}
    (some : f x = some y) : (xs ++ [x]).filterMap f = xs.filterMap f ++ [y] := by
  rw [List.filterMap_append, List.filterMap_cons_some some, List.filterMap_nil]

theorem Conserves.silent (before : Conserves labels q) (silent : Silent label) (sheds : q.Sheds r) :
    Conserves (labels ++ [label]) r where
  accounted := sheds.accounted before.accounted
  running running := sheds.stopped.trans (before.running (running_concat running))
  controlLane queued member := before.controlLane queued (sheds.control ▸ member)
  telemetryLane queued member := before.telemetryLane queued (sheds.telemetry.subset member)
  order running := by
    rw [acceptedControl, deliveredControl, filterMap_concat_none silent.accepted,
      filterMap_concat_none silent.delivered, sheds.control]
    exact before.order (sheds.stopped ▸ running)
  delivered := by
    rw [acceptedControl, deliveredControl, filterMap_concat_none silent.accepted,
      filterMap_concat_none silent.delivered]
    exact before.delivered
  distinct := (sheds.telemetry.map _).nodup before.distinct
  latest queued member := by
    rw [latestTelemetry, filterMap_concat_none (silent.telemetry _)]
    exact before.latest queued (sheds.telemetry.subset member)

theorem Conserves.controlPush {answer : Option Bool} (before : Conserves labels q)
    (push : q.ControlPush serialized answer r)
    (accepts : label.acceptedControl? = if answer = some true then some serialized else none)
    (delivered : label.deliveredControl? = none) (telemetry : ∀ key, label.acceptedTelemetryOf key = none)
    (running : label ≠ .stop) : Conserves (labels ++ [label]) r := by
  cases push with
  | refused sheds => exact before.silent ⟨accepts, delivered, telemetry, running⟩ sheds
  | waits sheds => exact before.silent ⟨accepts, delivered, telemetry, running⟩ sheds
  | accepted notStopped control sublist capacity stopped accounted =>
    rw [if_pos rfl] at accepts
    refine ⟨accounted before.accounted, fun _ => stopped.trans notStopped, ?_, ?_, ?_, ?_, ?_, ?_⟩
    · intro queued member
      rw [control, List.mem_append, List.mem_singleton] at member
      rcases member with queuedBefore | rfl
      · exact before.controlLane queued queuedBefore
      · rfl
    · exact fun queued member => before.telemetryLane queued (sublist.subset member)
    · intro _
      rw [acceptedControl, deliveredControl, filterMap_concat_some accepts, filterMap_concat_none delivered,
        control, List.map_append, ← List.append_assoc]
      exact congrArg (· ++ [serialized]) (before.order notStopped)
    · rw [acceptedControl, deliveredControl, filterMap_concat_some accepts, filterMap_concat_none delivered]
      exact before.delivered.trans (List.prefix_append _ _)
    · exact (sublist.map _).nodup before.distinct
    · intro queued member
      rw [latestTelemetry, filterMap_concat_none (telemetry _)]
      exact before.latest queued (sublist.subset member)

theorem Conserves.telemetryPush {answer : Except Exception Bool} (before : Conserves labels q)
    (push : q.TelemetryPush key serialized answer r) :
    Conserves (labels ++ [.pushTelemetry key serialized answer]) r := by
  cases push with
  | refused answered sheds =>
    refine before.silent ⟨rfl, rfl, fun other => ?_, nofun⟩ sheds
    unfold Label.acceptedTelemetryOf
    split
    · rename_i same
      cases same
      exact absurd rfl answered
    · rfl
  | accepted kept notStopped control sublist others telemetry capacity stopped accounted =>
    have other := others before.distinct
    refine ⟨accounted before.accounted, fun _ => stopped.trans notStopped, ?_, ?_, ?_, ?_, ?_, ?_⟩
    · exact fun queued member => before.controlLane queued (control ▸ member)
    · intro queued member
      rw [telemetry, List.mem_append, List.mem_singleton] at member
      rcases member with queuedBefore | rfl
      · exact before.telemetryLane queued (sublist.subset queuedBefore)
      · rfl
    · intro _
      rw [acceptedControl, deliveredControl, filterMap_concat_none rfl, filterMap_concat_none rfl, control]
      exact before.order notStopped
    · rw [acceptedControl, deliveredControl, filterMap_concat_none rfl, filterMap_concat_none rfl]
      exact before.delivered
    · rw [telemetry, List.map_append, List.map_singleton, List.nodup_append]
      refine ⟨(sublist.map _).nodup before.distinct, List.nodup_singleton _, ?_⟩
      intro first member second isKey same
      obtain ⟨queued, isKept, rfl⟩ := List.mem_map.mp member
      exact other queued isKept (same.trans (List.mem_singleton.mp isKey))
    · intro queued member
      rw [telemetry, List.mem_append, List.mem_singleton] at member
      rcases member with isKept | rfl
      · have skipped : (Label.pushTelemetry key serialized (.ok true)).acceptedTelemetryOf queued.key = none :=
          if_neg (other queued isKept).symm
        rw [latestTelemetry, filterMap_concat_none skipped]
        exact before.latest queued (sublist.subset isKept)
      · have accepts : (Label.pushTelemetry key serialized (.ok true)).acceptedTelemetryOf key = some serialized :=
          if_pos rfl
        rw [latestTelemetry, filterMap_concat_some accepts, List.getLast?_concat]

/-- What `waitPop` does: nothing after a stop, else it takes from the control lane while there is one. -/
inductive Pop (q r : NotificationQueue) : Option QueuedNotification → Prop where
  | stopped : q.stopped = true → r = q → Pop q r none
  | control (front : QueuedNotification) : q.stopped = false → q.control = front :: r.control →
    r.telemetry = q.telemetry → Pop q r (some front)
  | telemetry (front : QueuedNotification) : q.stopped = false → q.control = [] → r.control = [] →
    q.telemetry = front :: r.telemetry → Pop q r (some front)

theorem waitPop_pop {result : Option QueuedNotification} (popped : q.waitPop = some (r, result)) :
    Pop q r result ∧ r.stopped = q.stopped ∧ r.capacityBytes = q.capacityBytes ∧ (q.Accounted → r.Accounted) := by
  unfold NotificationQueue.waitPop at popped
  split at popped
  · rename_i stopped
    cases popped
    exact ⟨.stopped stopped rfl, rfl, rfl, id⟩
  · rename_i notStopped
    have running : q.stopped = false := by simpa using notStopped
    split at popped
    · rename_i front rest control
      cases popped
      refine ⟨.control front running control rfl, rfl, rfl, fun accounted => ?_⟩
      have bytes := accounted.bytes
      have budget := accounted.budget
      rw [control, queuedBytes] at bytes
      constructor
      · show q.bytes - front.serialized.length = (queuedBytes rest + queuedBytes q.telemetry : Nat)
        omega
      · show q.bytes - front.serialized.length ≤ q.capacityBytes
        omega
    · rename_i front rest control telemetry
      cases popped
      refine ⟨.telemetry front running control control telemetry, rfl, rfl, fun accounted => ?_⟩
      have bytes := accounted.bytes
      have budget := accounted.budget
      rw [telemetry, queuedBytes] at bytes
      constructor
      · show q.bytes - front.serialized.length = (queuedBytes q.control + queuedBytes rest : Nat)
        omega
      · show q.bytes - front.serialized.length ≤ q.capacityBytes
        omega
    · cases popped

theorem deliveredControl?_control {front : QueuedNotification} (lane : front.lane = .reliableControl) :
    (Label.popped (some front)).deliveredControl? = some front.serialized := by
  obtain ⟨lane, key, serialized⟩ := front
  subst lane
  rfl

theorem deliveredControl?_telemetry {front : QueuedNotification} (lane : front.lane = .lossyTelemetry) :
    (Label.popped (some front)).deliveredControl? = none := by
  obtain ⟨lane, key, serialized⟩ := front
  subst lane
  rfl

theorem Conserves.popped {result : Option QueuedNotification} (before : Conserves labels q)
    (popped : q.waitPop = some (r, result)) : Conserves (labels ++ [.popped result]) r := by
  obtain ⟨pop, stopped, capacity, accounted⟩ := waitPop_pop popped
  have stillRunning (running : .stop ∉ labels ++ [.popped result]) : r.stopped = false :=
    stopped.trans (before.running (running_concat running))
  cases pop with
  | stopped _ same =>
    subst same
    exact before.silent ⟨rfl, rfl, fun _ => rfl, nofun⟩ (.refl _)
  | control front running control telemetry =>
    have lanes := before.controlLane
    rw [control] at lanes
    have delivers := deliveredControl?_control (lanes front List.mem_cons_self)
    have order : acceptedControl (labels ++ [.popped (some front)]) =
        deliveredControl (labels ++ [.popped (some front)]) ++ r.control.map (·.serialized) := by
      rw [acceptedControl, deliveredControl, filterMap_concat_none rfl, filterMap_concat_some delivers,
        List.append_assoc]
      have order := before.order running
      rw [control] at order
      exact order
    refine ⟨accounted before.accounted, stillRunning, ?_, ?_, fun _ => order, ?_, ?_, ?_⟩
    · exact fun queued member => lanes queued (List.mem_cons_of_mem _ member)
    · exact fun queued member => before.telemetryLane queued (telemetry ▸ member)
    · exact order ▸ List.prefix_append _ _
    · exact telemetry ▸ before.distinct
    · intro queued member
      rw [latestTelemetry, filterMap_concat_none rfl]
      exact before.latest queued (telemetry ▸ member)
  | telemetry front running control stillNone telemetry =>
    have lanes := before.telemetryLane
    have distinct := before.distinct
    have latest := before.latest
    rw [telemetry] at lanes distinct latest
    have delivers := deliveredControl?_telemetry (lanes front List.mem_cons_self)
    refine ⟨accounted before.accounted, stillRunning, ?_, ?_, ?_, ?_, ?_, ?_⟩
    · exact fun queued member => nomatch (stillNone ▸ member : queued ∈ [])
    · exact fun queued member => lanes queued (List.mem_cons_of_mem _ member)
    · intro _
      have order := before.order running
      rw [control] at order
      rw [acceptedControl, deliveredControl, filterMap_concat_none delivers, filterMap_concat_none rfl, stillNone]
      exact order
    · rw [acceptedControl, deliveredControl, filterMap_concat_none delivers, filterMap_concat_none rfl]
      exact before.delivered
    · exact (List.nodup_cons.mp distinct).2
    · intro queued member
      rw [latestTelemetry, filterMap_concat_none rfl]
      exact latest queued (List.mem_cons_of_mem _ member)

theorem Conserves.stop (before : Conserves labels q) : Conserves (labels ++ [.stop]) q.stop where
  accounted := ⟨rfl, Int.natCast_nonneg _⟩
  running running := absurd (List.mem_append_right _ (List.mem_singleton.mpr rfl)) running
  controlLane _ member := nomatch member
  telemetryLane _ member := nomatch member
  order running := nomatch running
  delivered := by
    rw [acceptedControl, deliveredControl, filterMap_concat_none rfl, filterMap_concat_none rfl]
    exact before.delivered
  distinct := List.nodup_nil
  latest _ member := nomatch member

theorem Conserves.step (before : Conserves labels s.queue) (step : Step s label t) :
    Conserves (labels ++ [label]) t.queue := by
  cases step with
  | pushControl q waiting serialized =>
    refine before.controlPush (q.pushControl_push serialized) ?_ rfl (fun _ => rfl) nofun
    rcases (q.pushControl serialized).2 with _ | _ | _ <;> rfl
  | resumed waitingBefore waitingAfter resumed =>
    rename_i q r serialized answer
    have push := q.resumeControl_push serialized
    rw [resumed] at push
    refine before.controlPush push ?_ rfl (fun _ => rfl) nofun
    cases answer <;> rfl
  | pushTelemetry q waiting key serialized => exact before.telemetryPush (q.pushTelemetry_push key serialized)
  | popped waiting popped => exact before.popped popped
  | stop q waiting => exact before.stop
  | resetMetrics q waiting => exact before.silent ⟨rfl, rfl, fun _ => rfl, nofun⟩ q.resetMetrics_sheds

theorem Step.capacityBytes_eq (step : Step s label t) : t.queue.capacityBytes = s.queue.capacityBytes := by
  cases step with
  | pushControl q waiting serialized => exact (q.pushControl_push serialized).capacityBytes_eq
  | resumed waitingBefore waitingAfter resumed =>
    rename_i q r serialized answer
    have push := q.resumeControl_push serialized
    rw [resumed] at push
    exact push.capacityBytes_eq
  | pushTelemetry q waiting key serialized => exact (q.pushTelemetry_push key serialized).capacityBytes_eq
  | popped waiting popped => exact (waitPop_pop popped).2.2.1
  | stop q waiting => rfl
  | resetMetrics q waiting => rfl

theorem create_conserves {capacityBytes : Nat} (created : NotificationQueue.create capacityBytes = .ok q) :
    q.capacityBytes = capacityBytes ∧ Conserves [] q := by
  unfold NotificationQueue.create at created
  obtain ⟨_, _, created⟩ := Lib.Fallible.bind_ok created
  cases created
  exact ⟨rfl, ⟨⟨rfl, Int.natCast_nonneg _⟩, fun _ => rfl, nofun, nofun, fun _ => rfl, List.prefix_rfl,
    List.nodup_nil, nofun⟩⟩

theorem run_conserves {capacityBytes : Nat} (created : NotificationQueue.create capacityBytes = .ok q)
    (run : Run Step ⟨q, []⟩ labels s) : s.queue.capacityBytes = capacityBytes ∧ Conserves labels s.queue := by
  refine run.history (P := fun labels s => s.queue.capacityBytes = capacityBytes ∧ Conserves labels s.queue)
    (create_conserves created) ?_
  rintro labels t label u - ⟨capacity, conserves⟩ step
  exact ⟨step.capacityBytes_eq.trans capacity, conserves.step step⟩

/-- While there is no stop, a pop delivers a control message or finds that lane empty. -/
theorem pop_delivers (before : Conserves labels s.queue) (running : .stop ∉ labels)
    {result : Option QueuedNotification} (step : Step s (.popped result) t) :
    (Label.popped result).deliveredControl?.isSome ∨ s.queue.control = [] := by
  cases step with
  | popped waiting popped =>
    obtain ⟨pop, -⟩ := waitPop_pop popped
    cases pop with
    | stopped stopped =>
      rw [before.running running] at stopped
      cases stopped
    | control front _ control =>
      have lanes := before.controlLane
      rw [control] at lanes
      exact Or.inl (by rw [deliveredControl?_control (lanes front List.mem_cons_self)]; rfl)
    | telemetry front _ control => exact Or.inr control

theorem append_running (running : .stop ∉ labels ++ more) : .stop ∉ labels :=
  fun member => running (List.mem_append_left _ member)

theorem acceptedControl_grows : acceptedControl labels <+: acceptedControl (labels ++ more) := by
  rw [acceptedControl, acceptedControl, List.filterMap_append]
  exact List.prefix_append _ _

theorem deliveredControl_append :
    deliveredControl (labels ++ more) = deliveredControl labels ++ deliveredControl more := by
  rw [deliveredControl, deliveredControl, deliveredControl, List.filterMap_append]

theorem pop?_some {result : Option QueuedNotification} (h : label.pop? = some result) : label = .popped result := by
  cases label <;> cases h
  rfl

/-- Either every pop delivered a control message, or the lane was empty at one of them. -/
theorem pops_deliver {capacityBytes : Nat} (created : NotificationQueue.create capacityBytes = .ok q)
    (run : Run Step ⟨q, []⟩ labels s) (later : Run Step s more t) (running : .stop ∉ labels ++ more) :
    (pops more).length ≤ (deliveredControl more).length ∨
      acceptedControl labels <+: deliveredControl (labels ++ more) := by
  induction later with
  | start => exact Or.inl (Nat.le_refl _)
  | @next u v more label later step ih =>
    have conserves := (run_conserves created (run.append later)).2
    rw [← List.append_assoc] at running ⊢
    have stillRunning := append_running running
    have grows : deliveredControl (labels ++ more) <+: deliveredControl (labels ++ more ++ [label]) := by
      have grown : deliveredControl (labels ++ more ++ [label]) = _ := deliveredControl_append
      exact grown ▸ List.prefix_append _ _
    rcases ih stillRunning with few | all
    · cases isPop : label.pop? with
      | none =>
        refine Or.inl ?_
        rw [pops, filterMap_concat_none isPop, deliveredControl_append, List.length_append]
        exact Nat.le_add_right_of_le few
      | some result =>
        obtain rfl := pop?_some isPop
        rcases pop_delivers conserves stillRunning step with delivers | empty
        · obtain ⟨message, delivers⟩ := Option.isSome_iff_exists.mp delivers
          refine Or.inl ?_
          rw [pops, deliveredControl, filterMap_concat_some isPop, filterMap_concat_some delivers,
            List.length_append, List.length_append]
          exact Nat.succ_le_succ few
        · have order := conserves.order (conserves.running stillRunning)
          rw [empty, List.map_nil, List.append_nil] at order
          exact Or.inr (acceptedControl_grows.trans (order ▸ grows))
    · exact Or.inr (all.trans grows)

/-- In every run the byte counter is the size of what is queued and stays within the budget. Control
messages leave in the order of their accepted pushes, and while there is no stop none is missing: those
not yet delivered are the queued ones, and as many pops deliver them. A telemetry key is queued at most
once, with its latest accepted payload. -/
theorem queue_conserves_messages {capacityBytes : Nat} (created : NotificationQueue.create capacityBytes = .ok q)
    (run : Run Step ⟨q, []⟩ labels s) :
    (s.queue.bytes = (queuedBytes s.queue.control + queuedBytes s.queue.telemetry : Nat) ∧
      0 ≤ s.queue.bytes ∧ s.queue.bytes ≤ capacityBytes) ∧
    (deliveredControl labels <+: acceptedControl labels ∧
      (.stop ∉ labels →
        acceptedControl labels = deliveredControl labels ++ s.queue.control.map (·.serialized)) ∧
      ∀ more t, Run Step s more t → .stop ∉ labels ++ more → s.queue.control.length ≤ (pops more).length →
        acceptedControl labels <+: deliveredControl (labels ++ more)) ∧
    (s.queue.telemetry.map (·.key)).Nodup ∧
      ∀ queued ∈ s.queue.telemetry, latestTelemetry queued.key labels = some queued.serialized := by
  obtain ⟨capacity, conserves⟩ := run_conserves created run
  have bytes := conserves.accounted.bytes
  refine ⟨⟨bytes, bytes ▸ Int.natCast_nonneg _, capacity ▸ conserves.accounted.budget⟩,
    ⟨conserves.delivered, fun running => conserves.order (conserves.running running), ?_⟩,
    conserves.distinct, conserves.latest⟩
  intro more t later running enough
  rcases pops_deliver created run later running with few | all
  · have order := conserves.order (conserves.running (append_running running))
    have delivered := (run_conserves created (run.append later)).2.delivered
    refine List.prefix_of_prefix_length_le acceptedControl_grows delivered ?_
    rw [order, deliveredControl_append, List.length_append, List.length_append, List.length_map]
    omega
  · exact all

/-- A stream sends two frames, a control message takes their room, and a second one waits for the pop. -/
def backpressure : List Label :=
  [.pushTelemetry [7] [1, 1] (.ok true), .pushTelemetry [7] [2, 2] (.ok true), .pushControl [1, 2, 3] (some true),
    .pushControl [4, 5] none, .popped (some ⟨.reliableControl, [], [1, 2, 3]⟩), .resumed [4, 5] true]

theorem backpressure_run : ∃ s, Run Step ⟨{ capacityBytes := 4 }, []⟩ backpressure s := by
  have frames := ((Run.start (⟨{ capacityBytes := 4 }, []⟩ : System)).next
    (Step.pushTelemetry _ _ [7] [1, 1])).next (Step.pushTelemetry _ _ [7] [2, 2])
  have pushes := (frames.next (Step.pushControl _ _ [1, 2, 3])).next (Step.pushControl _ _ [4, 5])
  exact ⟨_, (pushes.next (Step.popped _ rfl)).next (Step.resumed [] [] rfl)⟩

theorem queue_conserves_messages_backpressure :
    acceptedControl backpressure = [[1, 2, 3], [4, 5]] ∧ deliveredControl backpressure = [[1, 2, 3]] ∧
      ∃ s : System, acceptedControl backpressure =
        deliveredControl backpressure ++ s.queue.control.map (·.serialized) := by
  obtain ⟨s, run⟩ := backpressure_run
  have created : NotificationQueue.create 4 = .ok { capacityBytes := 4 } := rfl
  exact ⟨by decide, by decide, s, (queue_conserves_messages created run).2.1.2.1 (by simp [backpressure])⟩

end LasecSimul.Ipc
