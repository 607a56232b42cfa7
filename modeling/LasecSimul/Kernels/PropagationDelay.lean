import LasecSimul.Base.Binary64
import LasecSimul.Lib.Ring
import Mathlib.Data.List.Induction
import Mathlib.Data.Rat.Floor

/-!
# Propagation delay

`propagation_delay` keeps the scheduled values in a ring; `outputs` scans it and `update` empties it up to the instant.
-/

namespace LasecSimul.Kernels.Propagation

open Lib.Binary Double

structure Config where
  capacity : ℕ
  fixedNs : ℕ
  initial : FloatValue
  room : 2 ≤ capacity

structure Entry where
  due : FloatValue
  value : FloatValue
  sample : FloatValue

structure State where
  current : FloatValue
  head : ℕ
  count : ℕ
  slots : ℕ → Entry

variable (cfg : Config)

def init (slots : ℕ → Entry) : State := { current := cfg.initial, head := 0, count := 0, slots := slots }

def entry (d : State) (index : ℕ) : Entry := d.slots ((d.head + index) % cfg.capacity)

/-- The oldest entry becomes the output. -/
def pop (d : State) : State :=
  { d with current := (entry cfg d 0).value, head := (d.head + 1) % cfg.capacity, count := d.count - 1 }

/-- `outputs` from an entry on, for as many entries as remain. -/
def scan (majorNs : ℕ) (d : State) : ℕ → ℕ → FloatValue → FloatValue
  | 0, _, value => value
  | remaining + 1, index, value =>
    if le (entry cfg d index).due (ofUnsigned majorNs) then scan majorNs d remaining (index + 1) (entry cfg d index).value
    else value

def outputs (majorNs : ℕ) (d : State) : FloatValue := scan cfg majorNs d d.count 0 d.current

/-- The loop at the start of `update`, for as many entries as remain. -/
def drainLoop (tNs : ℕ) : ℕ → State → State
  | 0, d => d
  | remaining + 1, d => if le (entry cfg d 0).due (ofUnsigned tNs) then drainLoop tNs remaining (pop cfg d) else d

def drain (tNs : ℕ) (d : State) : State := drainLoop cfg tNs d.count d

/-- The delay of a sample in nanoseconds, unless it is too small. -/
def delayNs (dt : FloatValue) : Option ℕ :=
  if !isFinite dt || !lt (128.0 * 2.220446049250313e-16) dt then none
  else
    let delay := (Double.round (dt * 1e9)).toNat
    let whole := if 0 < cfg.fixedNs then delay / cfg.fixedNs * cfg.fixedNs else delay
    if 0 < cfg.fixedNs ∧ whole < cfg.fixedNs then none
    else if whole = 0 then none
    else some whole

def replaceLast (d : State) (due u : FloatValue) : State :=
  let slot := (d.head + (d.count - 1)) % cfg.capacity
  { d with slots := Function.update d.slots slot { d.slots slot with due := due, value := u } }

def push (d : State) (added : Entry) : State :=
  let d := if d.count = cfg.capacity then pop cfg d else d
  { d with slots := Function.update d.slots ((d.head + d.count) % cfg.capacity) added, count := d.count + 1 }

def update (tNs : ℕ) (u dt : FloatValue) (d : State) : State :=
  let d := drain cfg tNs d
  match delayNs cfg dt with
  | none => d
  | some delay =>
    let due : FloatValue := ofUnsigned ((tNs + delay) % 2 ^ 64)
    let added : Entry := { due := due, value := u, sample := ofUnsigned tNs }
    if 0 < d.count then
      let last := entry cfg d (d.count - 1)
      if eq last.sample (ofUnsigned tNs) then
        let previousDue := if 1 < d.count then (entry cfg d (d.count - 2)).due else -1.0
        if lt previousDue due then replaceLast cfg d due u else d
      else if le due last.due then d
      else if eq last.value u then d
      else push cfg d added
    else if eq d.current u then d
    else push cfg d added

/-! ### The queue as a list -/

def pending (d : State) : List Entry := (List.range d.count).map (entry cfg d)

/-- The value after the entries that are due. -/
def settle (tNs : ℕ) : FloatValue → List Entry → FloatValue
  | value, [] => value
  | value, first :: rest => if le first.due (ofUnsigned tNs) then settle tNs first.value rest else value

def remaining (tNs : ℕ) : List Entry → List Entry
  | [] => []
  | first :: rest => if le first.due (ofUnsigned tNs) then remaining tNs rest else first :: rest

variable {cfg} {d : State} {tNs : ℕ}

theorem pending_length : (pending cfg d).length = d.count := by
  rw [pending, List.length_map, List.length_range]

theorem pending_pop (nonempty : 0 < d.count) : pending cfg d = entry cfg d 0 :: pending cfg (pop cfg d) := by
  obtain ⟨count, here⟩ : ∃ count, d.count = count + 1 := ⟨d.count - 1, by omega⟩
  rw [pending, here, List.range_succ_eq_map, List.map_cons, List.map_map, pending]
  congr 1
  rw [show (pop cfg d).count = count by rw [pop, here]; rfl]
  refine List.map_congr_left fun index _ => ?_
  show d.slots ((d.head + (index + 1)) % cfg.capacity) = d.slots (((d.head + 1) % cfg.capacity + index) % cfg.capacity)
  rw [Nat.mod_add_mod, Nat.add_assoc, Nat.add_comm 1 index]

theorem scan_eq (count index : ℕ) (value : FloatValue) :
    scan cfg tNs d count index value = settle tNs value ((List.range' index count).map (entry cfg d)) := by
  induction count generalizing index value with
  | zero => rfl
  | succ count ih => rw [scan, List.range'_succ, List.map_cons, settle, ih]

theorem outputs_eq : outputs cfg tNs d = settle tNs d.current (pending cfg d) := by
  rw [outputs, scan_eq, pending, List.range_eq_range']

theorem drain_eq (d : State) :
    (drain cfg tNs d).current = settle tNs d.current (pending cfg d) ∧
      pending cfg (drain cfg tNs d) = remaining tNs (pending cfg d) := by
  rw [drain]
  generalize size : d.count = count
  induction count generalizing d with
  | zero =>
    have empty : pending cfg d = [] := by rw [pending, size]; rfl
    rw [empty, drainLoop]
    exact ⟨rfl, empty⟩
  | succ count ih =>
    rw [drainLoop, pending_pop (by omega : 0 < d.count), settle, remaining]
    split
    · exact ih (pop cfg d) (by rw [pop, size]; rfl)
    · exact ⟨rfl, pending_pop (by omega)⟩

theorem pending_last (nonempty : 0 < d.count) :
    (pending cfg d).getLast? = some (entry cfg d (d.count - 1)) := by
  rw [pending, List.getLast?_map, List.getLast?_range, if_neg (by omega)]
  rfl

theorem pending_push (room : d.count < cfg.capacity) (added : Entry) :
    pending cfg (push cfg d added) = pending cfg d ++ [added] := by
  have short : ¬ d.count = cfg.capacity := room.ne
  have last : entry cfg (push cfg d added) d.count = added := by
    unfold entry push
    rw [if_neg short]
    exact Function.update_self ..
  have older : ∀ index ∈ List.range d.count, entry cfg (push cfg d added) index = entry cfg d index := by
    intro index member
    have before := List.mem_range.mp member
    have apart : (d.head + index) % cfg.capacity ≠ (d.head + d.count) % cfg.capacity :=
      Lib.Ring.mod_ne (by omega) (by omega)
    unfold entry push
    rw [if_neg short]
    exact Function.update_of_ne apart ..
  have count : (push cfg d added).count = d.count + 1 := by
    unfold push
    rw [if_neg short]
  rw [pending, count, List.range_succ, List.map_append, List.map_singleton, last, List.map_congr_left older]
  rfl

theorem push_current (room : d.count < cfg.capacity) (added : Entry) : (push cfg d added).current = d.current := by
  unfold push
  rw [if_neg room.ne]

end LasecSimul.Kernels.Propagation

/-!
## Runs of the propagation delay

A sample takes effect at its due instant when that is later than every one accepted before. The queue leaves out samples
that repeat its last value, and with them the due instants that later samples should be compared with.
-/

namespace LasecSimul.Kernels.Propagation

open Lib.Binary Double

structure Sample where
  tNs : ℕ
  u : FloatValue
  dt : FloatValue

/-- A value and the instant from which it holds. -/
structure Due where
  due : ℕ
  value : FloatValue

/-- The value of the last entry that is due. -/
def reached (initial : FloatValue) (accepted : List Due) (tNs : ℕ) : FloatValue :=
  ((accepted.filter (·.due ≤ tNs)).getLast?.map (·.value)).getD initial

variable (cfg : Config)

/-- A sample is accepted when its delay is large enough and its due instant is the latest. -/
def accept (accepted : List Due) (sample : Sample) : List Due :=
  match delayNs cfg sample.dt with
  | none => accepted
  | some delay =>
    if ∀ last ∈ accepted.getLast?, last.due < sample.tNs + delay then
      accepted ++ [⟨sample.tNs + delay, sample.u⟩]
    else accepted

def acceptAll (samples : List Sample) : List Due := samples.foldl (accept cfg) []

def step (d : State) (sample : Sample) : State := update cfg sample.tNs sample.u sample.dt d

def run (slots : ℕ → Entry) (samples : List Sample) : State := samples.foldl (step cfg) (init cfg slots)

/-- Equal as the code compares values. -/
def Same (a b : FloatValue) : Prop := a = b ∨ eq a b = true

/-- The value that was scheduled last. -/
def scheduled (d : State) : FloatValue := if 0 < d.count then (entry cfg d (d.count - 1)).value else d.current

/-- The due instants and the instants are exact as doubles, the queue has room, and a sample with a due instant that an
accepted one has reached is one that the queue drops as well or that repeats its last value. -/
structure Remembered (accepted : List Due) (d : State) (sample : Sample) : Prop where
  exact : sample.tNs < 2 ^ 53 ∧ ∀ delay ∈ delayNs cfg sample.dt, sample.tNs + delay < 2 ^ 53
  room : (drain cfg sample.tNs d).count < cfg.capacity
  remembered : ∀ delay ∈ delayNs cfg sample.dt, ∀ last ∈ accepted.getLast?, sample.tNs + delay ≤ last.due →
    (∃ queued ∈ (pending cfg (drain cfg sample.tNs d)).getLast?,
      le (ofUnsigned (sample.tNs + delay)) queued.due = true) ∨
      eq (scheduled cfg (drain cfg sample.tNs d)) sample.u = true

/-- Every step of a run meets the condition. -/
def Kept (slots : ℕ → Entry) (samples : List Sample) : Prop :=
  ∀ before sample after, samples = before ++ sample :: after →
    Remembered cfg (acceptAll cfg before) (run cfg slots before) sample

variable {cfg}

theorem reached_concat (initial : FloatValue) (accepted : List Due) (last : Due) (tNs : ℕ) :
    reached initial (accepted ++ [last]) tNs =
      if last.due ≤ tNs then last.value else reached initial accepted tNs := by
  unfold reached
  rw [List.filter_append, List.filter_cons]
  split
  · next due =>
    rw [if_pos (by simpa using due), List.filter_nil, List.getLast?_concat]
    rfl
  · next later =>
    rw [if_neg (by simpa using later), List.filter_nil, List.append_nil]

theorem reached_cons (initial : FloatValue) (first : Due) (rest : List Due) (tNs : ℕ) :
    reached initial (first :: rest) tNs =
      reached (if first.due ≤ tNs then first.value else initial) rest tNs := by
  unfold reached
  rw [List.filter_cons]
  split
  · next due =>
    rw [if_pos (by simpa using due), List.getLast?_cons]
    cases (rest.filter (·.due ≤ tNs)).getLast? <;> rfl
  · next later => rw [if_neg (by simpa using later)]

theorem reached_later {initial : FloatValue} {accepted : List Due} {tNs : ℕ} (later : ∀ due ∈ accepted, tNs < due.due) :
    reached initial accepted tNs = initial := by
  have none : accepted.filter (·.due ≤ tNs) = [] := by
    simpa using later
  rw [reached, none]
  rfl

theorem reached_all {initial : FloatValue} {accepted : List Due} {tNs : ℕ} (due : ∀ entry ∈ accepted, entry.due ≤ tNs) :
    reached initial accepted tNs = (accepted.getLast?.map (·.value)).getD initial := by
  have all : accepted.filter (·.due ≤ tNs) = accepted := by
    simpa using due
  rw [reached, all]

/-! ### The queue -/

/-- An entry of the queue with exact instants. -/
structure Queued extends Due where
  sample : ℕ

namespace Queued

variable (queued : Queued)

def entry : Entry := { due := ofUnsigned queued.due, value := queued.value, sample := ofUnsigned queued.sample }

def Exact : Prop := queued.due < 2 ^ 53 ∧ queued.sample < 2 ^ 53

end Queued

variable {tNs : ℕ} {value : FloatValue} {q : List Queued}

theorem settle_eq (small : tNs < 2 ^ 53) (exact : ∀ queued ∈ q, queued.Exact)
    (sorted : q.Pairwise fun first second => first.due < second.due) :
    settle tNs value (q.map Queued.entry) = reached value (q.map Queued.toDue) tNs := by
  induction q generalizing value with
  | nil => rfl
  | cons first rest ih =>
    obtain ⟨before, sorted⟩ := List.pairwise_cons.mp sorted
    have order : le first.entry.due (ofUnsigned tNs) = decide (first.due ≤ tNs) :=
      Binary64.le_ofUnsigned (exact first List.mem_cons_self).1 small
    rw [List.map_cons, List.map_cons, settle, reached_cons, order]
    by_cases due : first.due ≤ tNs
    · rw [if_pos (by simpa using due), if_pos due]
      exact ih (fun queued member => exact queued (List.mem_cons_of_mem _ member)) sorted
    · rw [if_neg (by simpa using due), if_neg due, reached_later]
      intro later member
      obtain ⟨queued, inside, rfl⟩ := List.mem_map.mp member
      exact (not_le.mp due).trans (before queued inside)

/-- Emptying the queue up to an instant changes no later value. -/
theorem remaining_eq (small : tNs < 2 ^ 53) (exact : ∀ queued ∈ q, queued.Exact)
    (sorted : q.Pairwise fun first second => first.due < second.due) :
    ∃ gone rest, q = gone ++ rest ∧ remaining tNs (q.map Queued.entry) = rest.map Queued.entry ∧
      (∀ queued ∈ rest, tNs < queued.due) ∧
      ∀ later, tNs ≤ later → reached value (q.map Queued.toDue) later =
        reached (settle tNs value (q.map Queued.entry)) (rest.map Queued.toDue) later := by
  induction q generalizing value with
  | nil => exact ⟨[], [], rfl, rfl, nofun, fun _ _ => rfl⟩
  | cons first rest ih =>
    obtain ⟨before, sorted⟩ := List.pairwise_cons.mp sorted
    have order : le first.entry.due (ofUnsigned tNs) = decide (first.due ≤ tNs) :=
      Binary64.le_ofUnsigned (exact first List.mem_cons_self).1 small
    rw [List.map_cons, remaining, settle, order]
    by_cases due : first.due ≤ tNs
    · rw [if_pos (by simpa using due), if_pos (by simpa using due)]
      obtain ⟨gone, kept, split, left, later, same⟩ :=
        @ih first.value (fun queued member => exact queued (List.mem_cons_of_mem _ member)) sorted
      refine ⟨first :: gone, kept, congrArg _ split, left, later, fun instant after => ?_⟩
      rw [List.map_cons, reached_cons, if_pos (due.trans after)]
      exact same instant after
    · rw [if_neg (by simpa using due), if_neg (by simpa using due)]
      refine ⟨[], first :: rest, rfl, rfl, fun queued member => ?_, fun _ _ => rfl⟩
      rcases List.mem_cons.mp member with rfl | member
      · exact not_le.mp due
      · exact (not_le.mp due).trans (before queued member)

/-- What the state says of the samples so far. -/
structure Tracks (cfg : Config) (past : List Sample) (accepted : List Due) (d : State) (q : List Queued) : Prop where
  pending : pending cfg d = q.map Queued.entry
  exact : ∀ queued ∈ q, queued.Exact ∧ ∃ sample ∈ past, queued.sample = sample.tNs
  sorted : q.Pairwise fun first second => first.due < second.due
  latest : ∀ last ∈ q.getLast?, ∃ latest ∈ accepted.getLast?, last.due ≤ latest.due
  same : ∀ tNs, (∀ sample ∈ past, sample.tNs ≤ tNs) →
    Same (reached d.current (q.map Queued.toDue) tNs) (reached cfg.initial accepted tNs)

variable {past : List Sample} {accepted : List Due} {d : State}

variable {sample : Sample}

theorem Tracks.drain (tracks : Tracks cfg past accepted d q) (small : sample.tNs < 2 ^ 53) :
    ∃ rest, Tracks cfg (past ++ [sample]) accepted (Propagation.drain cfg sample.tNs d) rest ∧
      ∀ queued ∈ rest, sample.tNs < queued.due ∧ ∃ other ∈ past, queued.sample = other.tNs := by
  obtain ⟨current, left⟩ := @drain_eq cfg sample.tNs d
  obtain ⟨gone, rest, rfl, drained, later, same⟩ :=
    @remaining_eq _ d.current _ small (fun queued member => (tracks.exact queued member).1) tracks.sorted
  rw [tracks.pending] at left current
  refine ⟨rest, ⟨left.trans drained, fun queued member => ?_, (List.pairwise_append.mp tracks.sorted).2.1,
    fun last member => tracks.latest last ?_, fun instant after => ?_⟩, fun queued member => ?_⟩
  · obtain ⟨exact, other, inside, here⟩ := tracks.exact queued (List.mem_append_right _ member)
    exact ⟨exact, other, List.mem_append_left _ inside, here⟩
  · rw [Option.mem_def, List.getLast?_append, Option.mem_def.mp member]
    rfl
  · rw [current, ← same instant (after sample (by simp))]
    exact tracks.same instant fun other inside => after other (List.mem_append_left _ inside)
  · exact ⟨later queued member, (tracks.exact queued (List.mem_append_right _ member)).2⟩

/-- A sample with the latest due instant enters the queue. -/
theorem Tracks.push (tracks : Tracks cfg past accepted d q) (member : sample ∈ past) (room : d.count < cfg.capacity)
    {delay : ℕ} (exact : sample.tNs + delay < 2 ^ 53) (after : ∀ queued ∈ q, queued.due < sample.tNs + delay) :
    Tracks cfg past (accepted ++ [⟨sample.tNs + delay, sample.u⟩])
      (Propagation.push cfg d ⟨ofUnsigned (sample.tNs + delay), sample.u, ofUnsigned sample.tNs⟩)
      (q ++ [⟨⟨sample.tNs + delay, sample.u⟩, sample.tNs⟩]) := by
  refine ⟨?_, fun queued inside => ?_, ?_, fun last inside => ?_, fun instant later => ?_⟩
  · rw [pending_push room, tracks.pending, List.map_append]
    rfl
  · rcases List.mem_append.mp inside with old | new
    · exact tracks.exact queued old
    · obtain rfl := List.mem_singleton.mp new
      exact ⟨⟨exact, (Nat.le_add_right _ delay).trans_lt exact⟩, sample, member, rfl⟩
  · refine List.pairwise_append.mpr ⟨tracks.sorted, List.pairwise_singleton _ _, fun queued old other new => ?_⟩
    obtain rfl := List.mem_singleton.mp new
    exact after queued old
  · rw [List.getLast?_concat] at inside
    obtain rfl := Option.some.inj inside
    exact ⟨_, List.getLast?_concat, le_rfl⟩
  · rw [push_current room, List.map_append, List.map_singleton, reached_concat, reached_concat]
    split
    · exact .inl rfl
    · exact tracks.same instant later

/-- A sample that repeats the last value needs no entry. -/
theorem Tracks.skip (tracks : Tracks cfg past accepted d q) {delay : ℕ}
    (after : ∀ queued ∈ q, queued.due < sample.tNs + delay)
    (repeats : eq ((q.getLast?.map (·.value)).getD d.current) sample.u = true) :
    Tracks cfg past (accepted ++ [⟨sample.tNs + delay, sample.u⟩]) d q := by
  refine ⟨tracks.pending, tracks.exact, tracks.sorted, fun last inside => ?_, fun instant later => ?_⟩
  · exact ⟨_, List.getLast?_concat, (after last (List.mem_of_getLast? inside)).le⟩
  · rw [reached_concat]
    split
    · next due =>
      rw [reached_all fun entry inside => ?_]
      · right
        simpa [List.getLast?_map, Function.comp_def] using repeats
      · obtain ⟨queued, old, rfl⟩ := List.mem_map.mp inside
        exact ((after queued old).trans_le due).le
    · exact tracks.same instant later

theorem Tracks.scheduled (tracks : Tracks cfg past accepted d q) :
    scheduled cfg d = (q.getLast?.map (·.value)).getD d.current := by
  unfold Propagation.scheduled
  split
  · next nonempty =>
    have last := @pending_last cfg _ nonempty
    rw [tracks.pending, List.getLast?_map] at last
    obtain ⟨queued, here, same⟩ := Option.map_eq_some_iff.mp last
    rw [here, ← same]
    rfl
  · next empty =>
    have none : q = [] := by
      apply List.eq_nil_of_length_eq_zero
      rw [← List.length_map (f := Queued.entry), ← tracks.pending, pending_length]
      omega
    rw [none]
    rfl

theorem le_last (sorted : q.Pairwise fun first second => first.due < second.due) {last : Queued}
    (end' : q.getLast? = some last) {queued : Queued} (member : queued ∈ q) : queued.due ≤ last.due := by
  obtain ⟨before, rfl⟩ := List.getLast?_eq_some_iff.mp end'
  rcases List.mem_append.mp member with old | new
  · exact ((List.pairwise_append.mp sorted).2.2 queued old last (List.mem_singleton_self last)).le
  · rw [List.mem_singleton.mp new]

theorem accept_none (small : delayNs cfg sample.dt = none) : accept cfg accepted sample = accepted := by
  rw [accept, small]

theorem accept_fresh {delay : ℕ} (large : delayNs cfg sample.dt = some delay)
    (fresh : ∀ last ∈ accepted.getLast?, last.due < sample.tNs + delay) :
    accept cfg accepted sample = accepted ++ [⟨sample.tNs + delay, sample.u⟩] := by
  rw [accept, large]
  exact if_pos fresh

theorem accept_stale {delay : ℕ} (large : delayNs cfg sample.dt = some delay)
    (stale : ¬ ∀ last ∈ accepted.getLast?, last.due < sample.tNs + delay) : accept cfg accepted sample = accepted := by
  rw [accept, large]
  exact if_neg stale

theorem step_cases (d : State) (sample : Sample) {delay : ℕ} (large : delayNs cfg sample.dt = some delay)
    (exact : sample.tNs + delay < 2 ^ 53)
    (apart : ∀ last ∈ (pending cfg (drain cfg sample.tNs d)).getLast?, eq last.sample (ofUnsigned sample.tNs) = false) :
    let drained := drain cfg sample.tNs d
    (∃ last ∈ (pending cfg drained).getLast?, le (ofUnsigned (sample.tNs + delay)) last.due = true ∧
        step cfg d sample = drained) ∨
      (∀ last ∈ (pending cfg drained).getLast?, le (ofUnsigned (sample.tNs + delay)) last.due = false) ∧
        (eq (scheduled cfg drained) sample.u = true ∧ step cfg d sample = drained ∨
          eq (scheduled cfg drained) sample.u = false ∧ step cfg d sample =
            push cfg drained ⟨ofUnsigned (sample.tNs + delay), sample.u, ofUnsigned sample.tNs⟩) := by
  intro drained
  have whole : (sample.tNs + delay) % 2 ^ 64 = sample.tNs + delay := Nat.mod_eq_of_lt (by omega)
  have updated : step cfg d sample =
      if 0 < drained.count then
        let last := entry cfg drained (drained.count - 1)
        if eq last.sample (ofUnsigned sample.tNs) then
          let previousDue := if 1 < drained.count then (entry cfg drained (drained.count - 2)).due else -1.0
          if lt previousDue (ofUnsigned (sample.tNs + delay)) then
            replaceLast cfg drained (ofUnsigned (sample.tNs + delay)) sample.u
          else drained
        else if le (ofUnsigned (sample.tNs + delay)) last.due then drained
        else if eq last.value sample.u then drained
        else push cfg drained ⟨ofUnsigned (sample.tNs + delay), sample.u, ofUnsigned sample.tNs⟩
      else if eq drained.current sample.u then drained
      else push cfg drained ⟨ofUnsigned (sample.tNs + delay), sample.u, ofUnsigned sample.tNs⟩ := by
    rw [step, update, large]
    dsimp only
    rw [whole]
  rw [updated, scheduled]
  by_cases nonempty : 0 < drained.count
  · have last := @pending_last cfg _ nonempty
    rw [if_pos nonempty, if_pos nonempty, last]
    dsimp only
    rw [apart _ last, if_neg Bool.false_ne_true]
    cases order : le (ofUnsigned (sample.tNs + delay)) (entry cfg drained (drained.count - 1)).due with
    | true => exact .inl ⟨_, rfl, order, if_pos rfl⟩
    | false =>
      refine .inr ⟨fun other same => Option.some.inj same ▸ order, ?_⟩
      cases repeats : eq (entry cfg drained (drained.count - 1)).value sample.u with
      | true => exact .inl ⟨rfl, rfl⟩
      | false => exact .inr ⟨rfl, rfl⟩
  · have none : pending cfg drained = [] := by
      rw [pending, Nat.eq_zero_of_not_pos nonempty]
      rfl
    rw [if_neg nonempty, if_neg nonempty, none]
    refine .inr ⟨nofun, ?_⟩
    cases repeats : eq drained.current sample.u with
    | true => exact .inl ⟨rfl, rfl⟩
    | false => exact .inr ⟨rfl, rfl⟩

/-- A sample keeps the output that of the accepted ones. -/
theorem Tracks.step (tracks : Tracks cfg past accepted d q) (increasing : ∀ other ∈ past, other.tNs < sample.tNs)
    (kept : Remembered cfg accepted d sample) :
    ∃ q, Tracks cfg (past ++ [sample]) (accept cfg accepted sample) (step cfg d sample) q := by
  obtain ⟨rest, drained, later⟩ := tracks.drain kept.exact.1
  cases large : delayNs cfg sample.dt with
  | none =>
    refine ⟨rest, ?_⟩
    rw [accept_none large, Propagation.step, update, large]
    exact drained
  | some delay =>
    have exact := kept.exact.2 delay large
    have last (entry : Entry) (member : entry ∈ (Propagation.pending cfg (Propagation.drain cfg sample.tNs d)).getLast?) :
        ∃ queued, rest.getLast? = some queued ∧ queued.entry = entry := by
      rw [drained.pending, List.getLast?_map] at member
      exact Option.map_eq_some_iff.mp member
    have apart (entry : Entry)
        (member : entry ∈ (Propagation.pending cfg (Propagation.drain cfg sample.tNs d)).getLast?) :
        eq entry.sample (ofUnsigned sample.tNs) = false := by
      obtain ⟨queued, inside, rfl⟩ := last entry member
      have held := List.mem_of_getLast? inside
      obtain ⟨-, other, old, here⟩ := later queued held
      refine (Binary64.eq_ofUnsigned (drained.exact queued held).1.2 kept.exact.1).trans ?_
      simpa [here] using (increasing other old).ne
    rcases step_cases d sample large exact apart with ⟨entry, member, order, same⟩ | ⟨after, outcome⟩
    · -- the queue drops what the specification drops
      obtain ⟨queued, inside, rfl⟩ := last entry member
      have held := List.mem_of_getLast? inside
      obtain ⟨latest, accepted', bound⟩ := drained.latest queued inside
      have before : sample.tNs + delay ≤ queued.due := by
        simpa using (Binary64.le_ofUnsigned exact (drained.exact queued held).1.1).symm.trans order
      refine ⟨rest, ?_⟩
      rw [same, accept_stale large fun fresh => absurd (fresh latest accepted') (by omega)]
      exact drained
    have room (queued : Queued) (member : queued ∈ rest) : queued.due < sample.tNs + delay := by
      obtain ⟨last', inside⟩ := Option.isSome_iff_exists.mp (List.getLast?_isSome.mpr (List.ne_nil_of_mem member))
      have held := List.mem_of_getLast? inside
      have order := after last'.entry (by rw [drained.pending, List.getLast?_map, inside]; rfl)
      have beyond : ¬ sample.tNs + delay ≤ last'.due := by
        simpa using (Binary64.le_ofUnsigned exact (drained.exact last' held).1.1).symm.trans order
      exact (le_last drained.sorted inside member).trans_lt (not_le.mp beyond)
    by_cases fresh : ∀ last ∈ accepted.getLast?, last.due < sample.tNs + delay
    · rw [accept_fresh large fresh]
      rcases outcome with ⟨repeats, same⟩ | ⟨-, same⟩
      · rw [drained.scheduled] at repeats
        exact ⟨rest, same ▸ drained.skip room repeats⟩
      · exact ⟨_, same ▸ drained.push (by simp) kept.room exact room⟩
    · rw [accept_stale large fresh]
      refine ⟨rest, ?_⟩
      rcases outcome with ⟨-, same⟩ | ⟨differs, same⟩
      · exact same ▸ drained
      · obtain ⟨latest, member, bound⟩ : ∃ last ∈ accepted.getLast?, sample.tNs + delay ≤ last.due := by
          simpa only [not_forall, not_lt, exists_prop] using fresh
        rcases kept.remembered delay large latest member bound with ⟨queued, inside, order⟩ | repeats
        · exact absurd order (by simp [after queued inside])
        · exact absurd repeats (by simp [differs])

theorem tracks_init (slots : ℕ → Entry) : Tracks cfg [] [] (init cfg slots) [] where
  pending := rfl
  exact := nofun
  sorted := .nil
  latest := nofun
  same _ _ := .inl rfl

theorem tracks_run {slots : ℕ → Entry} {samples : List Sample}
    (increasing : samples.Pairwise fun first second => first.tNs < second.tNs) (kept : Kept cfg slots samples) :
    ∃ q, Tracks cfg samples (acceptAll cfg samples) (run cfg slots samples) q := by
  induction samples using List.reverseRecOn with
  | nil => exact ⟨[], tracks_init slots⟩
  | append_singleton before sample ih =>
    obtain ⟨ordered, -, later⟩ := List.pairwise_append.mp increasing
    obtain ⟨q, tracks⟩ := ih ordered fun first other rest split => kept first other (rest ++ [sample]) (by simp [split])
    rw [acceptAll, run, List.foldl_append, List.foldl_append]
    exact tracks.step (fun other member => later other member sample (List.mem_singleton_self sample))
      (kept before sample [] rfl)

theorem delay_positive {dt : FloatValue} {delay : ℕ} (large : delayNs cfg dt = some delay) : 0 < delay := by
  unfold delayNs at large
  split at large
  · cases large
  · dsimp only at large
    generalize (if 0 < cfg.fixedNs then _ else _ : ℕ) = whole at large
    split at large
    · cases large
    · split at large
      · cases large
      · obtain rfl := Option.some.inj large
        omega

/-- Samples at or after an instant do not change its value. -/
theorem reached_accept {tNs : ℕ} {samples : List Sample} (later : ∀ sample ∈ samples, tNs ≤ sample.tNs)
    (initial : FloatValue) (accepted : List Due) :
    reached initial (samples.foldl (accept cfg) accepted) tNs = reached initial accepted tNs := by
  induction samples generalizing accepted with
  | nil => rfl
  | cons sample samples ih =>
    rw [List.foldl_cons, ih fun other member => later other (List.mem_cons_of_mem _ member)]
    have here := later sample List.mem_cons_self
    unfold accept
    split
    · rfl
    · next delay large =>
      have positive := delay_positive large
      split
      · rw [reached_concat, if_neg (Nat.not_le.mpr (here.trans_lt (Nat.lt_add_of_pos_right positive)))]
      · rfl

/-- In a run whose samples are all remembered, the output is that of the accepted samples. -/
theorem run_reached (slots : ℕ → Entry) (before after : List Sample) (tNs : ℕ) (small : tNs < 2 ^ 53)
    (increasing : before.Pairwise fun first second => first.tNs < second.tNs) (kept : Kept cfg slots before)
    (past : ∀ sample ∈ before, sample.tNs ≤ tNs) (future : ∀ sample ∈ after, tNs ≤ sample.tNs) :
    Same (outputs cfg tNs (run cfg slots before)) (reached cfg.initial (acceptAll cfg (before ++ after)) tNs) := by
  obtain ⟨q, tracks⟩ := tracks_run increasing kept
  rw [outputs_eq, tracks.pending, settle_eq small (fun queued member => (tracks.exact queued member).1) tracks.sorted,
    acceptAll, List.foldl_append, reached_accept future]
  exact tracks.same tNs past

def pair : Config := { capacity := 2, fixedNs := 0, initial := 0, room := le_rfl }

def empty : Entry := { due := 0, value := 0, sample := 0 }

theorem run_reached_one :
    Same (outputs pair 1000000000 (run pair (fun _ => empty) [⟨0, 1, 1⟩]))
      (reached pair.initial (acceptAll pair ([⟨0, 1, 1⟩] ++ [])) 1000000000) :=
  run_reached _ _ _ _ (by decide) (List.pairwise_singleton _ _) (fun before sample after split => by
    obtain ⟨rfl, rfl, rfl⟩ : before = [] ∧ sample = ⟨0, 1, 1⟩ ∧ after = [] := by
      rcases before with _ | ⟨first, before⟩
      · simpa [eq_comm] using split
      · simp at split
    exact ⟨⟨by decide, by decide +kernel⟩, by decide +kernel, fun _ _ _ => nofun⟩) (by simp) nofun

/-- The second sample repeats the first value, due at 5.5 s; the third is due at 1.6 s. -/
def overtaken : List Sample := [⟨0, 1, 1⟩, ⟨500000000, 1, 5.0⟩, ⟨600000000, 2.0, 1⟩]

theorem run_forgets :
    ¬ Same (outputs pair 1600000000 (run pair (fun _ => empty) overtaken))
      (reached pair.initial (acceptAll pair overtaken) 1600000000) := by
  unfold Same
  decide +kernel

end LasecSimul.Kernels.Propagation
