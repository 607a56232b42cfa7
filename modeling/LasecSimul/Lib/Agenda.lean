import LasecSimul.Lib.Fallible
import LasecSimul.Lib.Fold
import LasecSimul.Lib.Trace

/-!
# Agendas

An agenda handles the events that are due up to a horizon, one at a time, until none is left. Handling
may fail. What is left to do decreases, so a run to a horizon ends.
-/

namespace LasecSimul.Lib

/-- The next event does not depend on how far the horizon is, once it is within it. -/
structure Agenda (σ Event ε : Type) where
  due : Nat → σ → Option Event
  handle : Event → σ → Except ε σ
  left : σ → Nat
  due_of_le : ∀ {near far s event}, near ≤ far → due near s = some event → due far s = some event
  handle_left : ∀ {horizon s event t}, due horizon s = some event → handle event s = .ok t → left t < left s

namespace Agenda

variable {σ Event ε : Type} (agenda : Agenda σ Event ε) {horizon near far : Nat} {s t : σ} {event : Event}

def run (horizon : Nat) (s : σ) : Except ε σ :=
  match _ : agenda.due horizon s with
  | none => .ok s
  | some event =>
    match _ : agenda.handle event s with
    | .error exception => .error exception
    | .ok t => run horizon t
termination_by agenda.left s
decreasing_by exact agenda.handle_left ‹_› ‹_›

/-- One event up to the horizon. -/
def Step (horizon : Nat) (s : σ) (event : Event) (t : σ) : Prop :=
  agenda.due horizon s = some event ∧ agenda.handle event s = .ok t

variable {agenda}

theorem run_none (idle : agenda.due horizon s = none) : agenda.run horizon s = .ok s := by
  rw [run]
  split
  · rfl
  · rename_i event next
    rw [idle] at next
    cases next

theorem run_some (next : agenda.due horizon s = some event) :
    agenda.run horizon s = agenda.handle event s >>= agenda.run horizon := by
  rw [run]
  split
  · rename_i idle
    rw [next] at idle
    cases idle
  · rename_i other found
    obtain rfl := Option.some.inj (found.symm.trans next)
    split
    · rename_i exception failed
      rw [failed]
      rfl
    · rename_i t handled
      rw [handled]
      rfl

/-- Induction over a run: it is over, it fails at the next event, or it goes on after it. -/
theorem run_induction {P : σ → Prop} (idle : ∀ s, agenda.due horizon s = none → P s)
    (fails : ∀ s event exception, agenda.due horizon s = some event →
      agenda.handle event s = .error exception → P s)
    (goes : ∀ s event t, agenda.due horizon s = some event → agenda.handle event s = .ok t → P t → P s)
    (s : σ) : P s := by
  induction left : agenda.left s using Nat.strongRecOn generalizing s with
  | ind left ih =>
    cases next : agenda.due horizon s with
    | none => exact idle s next
    | some event =>
      cases handled : agenda.handle event s with
      | error exception => exact fails s event exception next handled
      | ok t => exact goes s event t next handled (ih _ (left ▸ agenda.handle_left next handled) t rfl)

theorem run_trans (le : near ≤ far) (s : σ) : (agenda.run near s >>= agenda.run far) = agenda.run far s := by
  induction s using run_induction with
  | idle s idle => rw [run_none idle]; rfl
  | fails s event exception next failed =>
    rw [run_some next, run_some (agenda.due_of_le le next), failed]
    rfl
  | goes s event t next handled ih =>
    rw [run_some next, run_some (agenda.due_of_le le next), handled]
    exact ih

/-- A run to a horizon is a sequence of steps after which nothing is due. -/
theorem run_steps (ended : agenda.run horizon s = .ok t) :
    ∃ events, Trace.Run (agenda.Step horizon) s events t ∧ agenda.due horizon t = none := by
  induction s using run_induction with
  | idle s idle =>
    obtain rfl := Except.ok.inj ((run_none idle).symm.trans ended)
    exact ⟨[], .start s, idle⟩
  | fails s event exception next failed =>
    rw [run_some next, failed] at ended
    cases ended
  | goes s event u next handled ih =>
    rw [run_some next, handled] at ended
    obtain ⟨events, run, idle⟩ := ih ended
    exact ⟨[event] ++ events, (Trace.Run.one ⟨next, handled⟩).append run, idle⟩

end Agenda

end LasecSimul.Lib

/-!
## Periodic groups on one clock

Every group has a next time and a period. The groups with the earliest next time are due together; they
then advance by their periods, up to a limit at which nothing is due any more.
-/

namespace LasecSimul.Lib.Periodic

/-- A time and the groups that are due at it. -/
structure Batch where
  time : Nat
  due : Nat → Bool

section Clock

variable (groups : List Nat) (period : Nat → Nat) (limit : Nat)

/-- The least next time up to `horizon`, or `limit`. -/
def earliest (horizon : Nat) (next : Nat → Nat) : Nat :=
  groups.foldl (fun least group => if next group ≤ horizon then min least (next group) else least) limit

def batch (horizon : Nat) (next : Nat → Nat) : Option Batch :=
  let time := earliest groups limit horizon next
  if time = limit then none else some ⟨time, fun group => group ∈ groups ∧ next group = time⟩

def advance (batch : Batch) (next : Nat → Nat) (group : Nat) : Nat :=
  if batch.due group then
    if batch.time > limit - period group then limit else batch.time + period group
  else next group

/-- What the groups have left until the limit. -/
def remaining (next : Nat → Nat) : Nat := groups.foldl (fun sum group => sum + (limit - next group)) 0

def Step (horizon : Nat) (next : Nat → Nat) (due : Batch) (after : Nat → Nat) : Prop :=
  batch groups limit horizon next = some due ∧ after = advance period limit due next

end Clock

variable {groups : List Nat} {period : Nat → Nat} {limit horizon near far group : Nat}
  {next last : Nat → Nat} {due : Batch} {batches : List Batch}

theorem earliest_spec (groups : List Nat) (limit horizon : Nat) (next : Nat → Nat) :
    earliest groups limit horizon next ≤ limit ∧
      (∀ group ∈ groups, next group ≤ horizon → earliest groups limit horizon next ≤ next group) ∧
      (earliest groups limit horizon next = limit ∨
        ∃ group ∈ groups, next group ≤ horizon ∧ earliest groups limit horizon next = next group) := by
  unfold earliest
  induction groups generalizing limit with
  | nil => exact ⟨Nat.le_refl _, nofun, Or.inl rfl⟩
  | cons first rest ih =>
    rw [List.foldl_cons]
    obtain ⟨bounded, below, attained⟩ := ih (if next first ≤ horizon then min limit (next first) else limit)
    have start : (if next first ≤ horizon then min limit (next first) else limit) ≤ limit := by
      split <;> omega
    refine ⟨Nat.le_trans bounded start, ?_, ?_⟩
    · intro group member within
      rcases List.mem_cons.mp member with rfl | later
      · rw [if_pos within] at bounded ⊢
        omega
      · exact below group later within
    · rcases attained with same | ⟨group, member, within, same⟩
      · rw [same]
        split
        · rename_i within
          rcases Nat.le_total limit (next first) with le | le
          · exact Or.inl (Nat.min_eq_left le)
          · exact Or.inr ⟨first, List.mem_cons_self, within, Nat.min_eq_right le⟩
        · exact Or.inl rfl
      · exact Or.inr ⟨group, List.mem_cons_of_mem _ member, within, same⟩

theorem batch_none (idle : batch groups limit horizon next = none) :
    ∀ group ∈ groups, next group ≤ horizon → limit ≤ next group := by
  intro group member within
  unfold batch at idle
  dsimp only at idle
  split at idle
  · rename_i same
    exact same ▸ (earliest_spec groups limit horizon next).2.1 group member within
  · cases idle

theorem batch_some : batch groups limit horizon next = some due ↔
    due.time < limit ∧ due.time ≤ horizon ∧ (∃ group ∈ groups, next group = due.time) ∧
      (∀ group ∈ groups, due.time ≤ next group) ∧
      due.due = fun group => decide (group ∈ groups ∧ next group = due.time) := by
  obtain ⟨bounded, below, attained⟩ := earliest_spec groups limit horizon next
  unfold batch
  dsimp only
  constructor
  · intro found
    split at found
    · cases found
    · rename_i unlimited
      obtain rfl := Option.some.inj found
      rcases attained with same | ⟨group, member, within, same⟩
      · exact absurd same unlimited
      · refine ⟨by dsimp only; omega, by dsimp only; omega, ⟨group, member, same.symm⟩, ?_, rfl⟩
        intro other present
        rcases Nat.lt_or_ge horizon (next other) with beyond | near
        · dsimp only
          omega
        · exact below other present near
  · rintro ⟨unlimited, within, ⟨group, member, same⟩, least, flags⟩
    have time : earliest groups limit horizon next = due.time := by
      have le := below group member (by omega)
      rcases attained with top | ⟨other, present, _, equal⟩
      · omega
      · have := least other present
        omega
    rw [time, if_neg (by omega), ← flags]

theorem batch_of_le (le : near ≤ far) (found : batch groups limit near next = some due) :
    batch groups limit far next = some due := by
  rw [batch_some] at found ⊢
  obtain ⟨unlimited, within, rest⟩ := found
  exact ⟨unlimited, Nat.le_trans within le, rest⟩

theorem mem_of_due (found : batch groups limit horizon next = some due) (on : due.due group = true) :
    group ∈ groups ∧ next group = due.time := by
  rw [batch_some] at found
  obtain ⟨_, _, _, _, flags⟩ := found
  rw [flags] at on
  exact of_decide_eq_true on

theorem remaining_advance (positive : ∀ group ∈ groups, 0 < period group)
    (found : batch groups limit horizon next = some due) :
    remaining groups limit (advance period limit due next) < remaining groups limit next := by
  obtain ⟨unlimited, _, ⟨group, member, same⟩, _, flags⟩ := batch_some.mp found
  have on : due.due group = true := by
    rw [flags]
    exact decide_eq_true ⟨member, same⟩
  refine Fold.foldl_add_lt ?_ member ?_ (Nat.le_refl 0)
  · intro other _
    unfold advance
    split
    · rename_i on
      have := (mem_of_due found on).2
      split <;> omega
    · exact Nat.le_refl _
  · have := positive group member
    unfold advance
    rw [if_pos on]
    split <;> omega

/-- Where a group is after `n` activations of a run. -/
structure Ran (period : Nat → Nat) (limit : Nat) (start : Nat → Nat) (batches : List Batch) (last : Nat → Nat)
    (group n : Nat) : Prop where
  position : last group = start group + n * period group ∨
    (last group = limit ∧ limit ≤ start group + n * period group)
  due : ∀ time, (∃ batch ∈ batches, batch.time = time ∧ batch.due group = true) ↔
    ∃ k < n, time = start group + k * period group

theorem Ran.step {start now : Nat → Nat} {n : Nat} (ran : Ran period limit start batches now group n)
    (step : Step groups period limit horizon now due last) :
    ∃ m, Ran period limit start (batches ++ [due]) last group m := by
  obtain ⟨found, rfl⟩ := step
  obtain ⟨unlimited, _, _, _, flags⟩ := batch_some.mp found
  cases on : due.due group with
  | false =>
    refine ⟨n, ⟨?_, ?_⟩⟩
    · simp only [advance, on, Bool.false_eq_true, if_false]
      exact ran.position
    · intro time
      rw [← ran.due time]
      constructor
      · rintro ⟨batch, among, same, active⟩
        rcases List.mem_append.mp among with early | late
        · exact ⟨batch, early, same, active⟩
        · obtain rfl := List.mem_singleton.mp late
          rw [on] at active
          cases active
      · rintro ⟨batch, among, rest⟩
        exact ⟨batch, List.mem_append_left _ among, rest⟩
  | true =>
    have now := (mem_of_due found on).2
    have position : due.time = start group + n * period group := by
      rcases ran.position with same | ⟨top, _⟩ <;> omega
    have next : (n + 1) * period group = n * period group + period group := Nat.succ_mul _ _
    refine ⟨n + 1, ⟨?_, ?_⟩⟩
    · simp only [advance, on, if_true]
      split <;> omega
    · intro time
      constructor
      · rintro ⟨batch, among, same, active⟩
        rcases List.mem_append.mp among with early | late
        · obtain ⟨k, lt, eq⟩ := (ran.due time).mp ⟨batch, early, same, active⟩
          exact ⟨k, by omega, eq⟩
        · obtain rfl := List.mem_singleton.mp late
          exact ⟨n, by omega, same.symm.trans position⟩
      · rintro ⟨k, lt, eq⟩
        rcases Nat.lt_succ_iff_lt_or_eq.mp lt with lt | rfl
        · obtain ⟨batch, among, rest⟩ := (ran.due time).mpr ⟨k, lt, eq⟩
          exact ⟨batch, List.mem_append_left _ among, rest⟩
        · exact ⟨due, List.mem_append_right _ (List.mem_singleton_self _), position.trans eq.symm, on⟩

theorem ran {start : Nat → Nat} (group : Nat)
    (run : Trace.Run (Step groups period limit horizon) start batches last) :
    ∃ n, Ran period limit start batches last group n := by
  refine run.history (P := fun batches now => ∃ n, Ran period limit start batches now group n) ?_ ?_
  · exact ⟨0, ⟨Or.inl (by omega), fun time => by simp⟩⟩
  · rintro batches now due last _ ⟨n, before⟩ step
    exact before.step step

theorem within {start : Nat → Nat} (run : Trace.Run (Step groups period limit horizon) start batches last) :
    ∀ batch ∈ batches, batch.time ≤ horizon ∧ batch.time < limit := by
  refine run.history (P := fun batches _ => ∀ batch ∈ batches, batch.time ≤ horizon ∧ batch.time < limit) nofun ?_
  rintro batches now due last _ before ⟨found, _⟩ batch among
  rw [batch_some] at found
  obtain ⟨unlimited, within, _⟩ := found
  rcases List.mem_append.mp among with early | late
  · exact before batch early
  · exact List.mem_singleton.mp late ▸ ⟨within, unlimited⟩

/-- The times of a run increase strictly, and what comes after it is later. -/
theorem increasing {start : Nat → Nat} (positive : ∀ group ∈ groups, 0 < period group)
    (run : Trace.Run (Step groups period limit horizon) start batches last) :
    batches.Pairwise (fun a b => a.time < b.time) ∧
      ∀ batch ∈ batches, ∀ group ∈ groups, batch.time < last group := by
  refine run.history (P := fun batches now => batches.Pairwise (fun a b => a.time < b.time) ∧
    ∀ batch ∈ batches, ∀ group ∈ groups, batch.time < now group) ?_ ?_
  · exact ⟨.nil, nofun⟩
  · rintro batches now due last _ ⟨sorted, later⟩ ⟨found, rfl⟩
    rw [batch_some] at found
    obtain ⟨_, _, ⟨first, present, same⟩, least, flags⟩ := found
    have grows : ∀ group ∈ groups, due.time < advance period limit due now group := by
      intro group member
      have := positive group member
      have := least group member
      unfold advance
      split
      · split <;> omega
      · rename_i off
        rw [flags] at off
        have : now group ≠ due.time := fun same => off (decide_eq_true ⟨member, same⟩)
        omega
    refine ⟨List.pairwise_append.mpr ⟨sorted, List.pairwise_singleton _ _, ?_⟩, ?_⟩
    · intro batch among other late
      obtain rfl := List.mem_singleton.mp late
      exact same ▸ later batch among first present
    · intro batch among
      rcases List.mem_append.mp among with early | late
      · exact fun group member => Nat.lt_trans (same ▸ later batch early first present) (grows group member)
      · obtain rfl := List.mem_singleton.mp late
        exact grows

theorem due_iff {start : Nat → Nat} (member : group ∈ groups) (below : horizon < limit)
    (run : Trace.Run (Step groups period limit horizon) start batches last)
    (idle : batch groups limit horizon last = none) (time : Nat) :
    (∃ batch ∈ batches, batch.time = time ∧ batch.due group = true) ↔
      time ≤ horizon ∧ ∃ k, time = start group + k * period group := by
  obtain ⟨n, ran⟩ := ran group run
  have ended := batch_none idle group member
  constructor
  · intro active
    obtain ⟨k, _, eq⟩ := (ran.due time).mp active
    obtain ⟨batch, among, rfl, _⟩ := active
    exact ⟨(within run batch among).1, k, eq⟩
  · rintro ⟨within, k, eq⟩
    refine (ran.due time).mpr ⟨k, Nat.lt_of_not_le fun le => ?_, eq⟩
    have := Nat.mul_le_mul_right (period group) le
    rcases ran.position with position | position <;> omega

/-- The next time of a group is the first instant `offset + k * period` after `done`, or `done` itself
where `done` is such an instant that is still to come, or the limit where none is left below it. -/
structure Aligned (offset period limit done next : Nat) : Prop where
  notBefore : done ≤ next
  instant : next = limit ∨ ∃ k, next = offset + k * period
  least : ∀ k, done < offset + k * period → next ≤ offset + k * period

/-- The number of periods that cover `elapsed`. -/
theorem periods_le_iff (elapsed : Nat) {step : Nat} (positive : 0 < step) (k : Nat) :
    elapsed / step + (if elapsed % step ≠ 0 then 1 else 0) ≤ k ↔ elapsed ≤ k * step := by
  have whole : elapsed / step * step + elapsed % step = elapsed := Nat.div_add_mod' elapsed step
  have rest := Nat.mod_lt elapsed positive
  constructor
  · intro le
    have := Nat.mul_le_mul_right step le
    rw [Nat.add_mul] at this
    split at this <;> omega
  · intro le
    have quotient : elapsed / step ≤ k := Nat.div_le_of_le_mul (Nat.mul_comm k step ▸ le)
    split
    · rcases Nat.lt_or_eq_of_le quotient with lt | same
      · exact lt
      · rw [same] at whole
        omega
    · exact quotient

theorem Aligned.instants {offset step done start time : Nat} (aligned : Aligned offset step limit done start)
    (positive : 0 < step) (below : time < limit) :
    (∃ k, time = start + k * step) ↔ (∃ k, time = offset + k * step) ∧ (done < time ∨ time = start) := by
  have before := aligned.notBefore
  constructor
  · rintro ⟨k, rfl⟩
    rcases aligned.instant with top | ⟨m, rfl⟩
    · omega
    · refine ⟨⟨m + k, by rw [Nat.add_mul]; omega⟩, ?_⟩
      rcases Nat.eq_zero_or_pos k with rfl | later
      · exact Or.inr (by omega)
      · have := Nat.mul_pos later positive
        exact Or.inl (by omega)
  · rintro ⟨⟨k, rfl⟩, later | same⟩
    · have le := aligned.least k later
      rcases aligned.instant with top | ⟨m, rfl⟩
      · omega
      · have order : m ≤ k := Nat.le_of_mul_le_mul_right (by omega) positive
        obtain ⟨d, rfl⟩ := Nat.exists_eq_add_of_le order
        exact ⟨d, by rw [Nat.add_mul]; omega⟩
    · exact ⟨0, by omega⟩

/-- What a group that ran last did, seen from the phase. -/
theorem Ran.previous {offset step done n : Nat} {start : Nat → Nat} (aligned : Aligned offset step limit done (start group))
    (same : period group = step) (run : Trace.Run (Step groups period limit horizon) start batches last)
    (ran : Ran period limit start batches last group (n + 1)) :
    ∃ m, start group = offset + m * step ∧ offset + (m + n) * step ≤ horizon := by
  obtain ⟨batch, among, time, _⟩ := (ran.due _).mpr ⟨n, Nat.lt_succ_self n, rfl⟩
  obtain ⟨early, below⟩ := within run batch among
  rw [same] at time
  rcases aligned.instant with top | ⟨m, eq⟩
  · omega
  · exact ⟨m, eq, by rw [Nat.add_mul]; omega⟩

/-- A run to a horizon keeps the alignment. -/
theorem Aligned.run {offset done : Nat} {start : Nat → Nat} (member : group ∈ groups)
    (bounded : max done horizon ≤ limit)
    (aligned : Aligned offset (period group) limit done (start group))
    (run : Trace.Run (Step groups period limit horizon) start batches last)
    (idle : batch groups limit horizon last = none) :
    Aligned offset (period group) limit (max done horizon) (last group) := by
  obtain ⟨n, ran⟩ := ran group run
  have ended := batch_none idle group member
  have before := aligned.notBefore
  have position := ran.position
  refine ⟨?_, ?_, ?_⟩
  · rcases position with position | position <;> omega
  · cases n with
    | zero =>
      rcases position with position | position
      · rw [show last group = start group by omega]
        exact aligned.instant
      · exact Or.inl position.1
    | succ n =>
      obtain ⟨m, eq, _⟩ := ran.previous aligned rfl run
      rcases position with position | position
      · exact Or.inr ⟨m + (n + 1), by rw [Nat.add_mul]; omega⟩
      · exact Or.inl position.1
  · intro k later
    have le := aligned.least k (by omega)
    cases n with
    | zero => rcases position with position | position <;> omega
    | succ n =>
      obtain ⟨m, eq, early⟩ := ran.previous aligned rfl run
      have order : m + n < k := Nat.lt_of_not_le fun le => by
        have := Nat.mul_le_mul_right (period group) le
        omega
      have reached := Nat.mul_le_mul_right (period group) order
      have split : (m + n).succ * period group = m * period group + (n + 1) * period group := by
        rw [← Nat.add_mul]
        rfl
      rcases position with position | position <;> omega

end LasecSimul.Lib.Periodic
