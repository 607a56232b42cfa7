import LasecSimul.Base.Binary64
import LasecSimul.Lib.Ring
import LasecSimul.Lib.SampleHold
import LasecSimul.Lib.Trace
import LasecSimul.Signal.Continuous

/-!
# The transport delay

What `delayedInput` reads from the history that `record` keeps.
-/

namespace LasecSimul.Signal

open Double Function Lib Lib.SampleHold

variable {R : Type} [Double R]

/-- An entry of a history: its time and its elements. -/
abbrev DelayEntry (R : Type) := Nat × List R

namespace DelayBuffer

def slot (buffer : DelayBuffer R) (position : Nat) : Nat := (buffer.head + position) % buffer.capacity

def entry (buffer : DelayBuffer R) (position : Nat) : DelayEntry R :=
  (buffer.times (buffer.slot position),
    (List.range buffer.width).map fun element => buffer.values (buffer.slot position * buffer.width + element))

/-- The entries, oldest first. -/
def entries (buffer : DelayBuffer R) : List (DelayEntry R) := (List.range buffer.count).map buffer.entry

variable {buffer : DelayBuffer R} {delayNs timestampNs : Nat} {input : Nat → R}

/-- The oldest entry, gone. -/
def advance (buffer : DelayBuffer R) : DelayBuffer R :=
  { buffer with head := (buffer.head + 1) % buffer.capacity, count := buffer.count - 1 }

section Advance

omit [Double R]

theorem entries_advance : buffer.advance.entries = buffer.entries.tail := by
  cases count : buffer.count with
  | zero => simp [entries, advance, count]
  | succ remaining =>
    have shifted (position : Nat) : buffer.advance.entry position = buffer.entry (position + 1) := by
      have same : buffer.advance.slot position = buffer.slot (position + 1) := by
        show ((buffer.head + 1) % buffer.capacity + position) % buffer.capacity = _
        rw [Nat.mod_add_mod, slot, Nat.add_assoc, Nat.add_comm 1]
      simp only [entry, same]
      rfl
    have fewer : buffer.advance.count = remaining := by simp [advance, count]
    rw [entries, entries, count, fewer, List.range_succ_eq_map, List.map_cons, List.tail_cons, List.map_map]
    exact List.map_congr_left fun position _ => shifted position

theorem entries_of_two {remaining : Nat} (count : buffer.count = remaining + 2) :
    ∃ later, buffer.entries = buffer.entry 0 :: buffer.entry 1 :: later := by
  rw [entries, count, List.range_succ_eq_map, List.range_succ_eq_map]
  exact ⟨_, rfl⟩

end Advance

/-- `trim` on the entries. -/
def trimmed (delayNs timestampNs : Nat) : List (DelayEntry R) → List (DelayEntry R)
  | a :: b :: later =>
    if (b.1 + delayNs) % 18446744073709551616 > timestampNs then a :: b :: later
    else trimmed delayNs timestampNs (b :: later)
  | short => short

omit [Double R] in
theorem trim_short (short : buffer.count < 2) : buffer.trim delayNs timestampNs = buffer := by
  rw [trim]
  split
  · rfl
  · rfl
  · omega

omit [Double R] in
theorem trim_long {remaining : Nat} (count : buffer.count = remaining + 2) :
    buffer.trim delayNs timestampNs =
      if ((buffer.entry 1).1 + delayNs) % 18446744073709551616 > timestampNs then buffer
      else buffer.advance.trim delayNs timestampNs := by
  rw [trim]
  split
  · omega
  · omega
  · next more two =>
    obtain rfl : more = remaining := by omega
    rw [advance, two]
    rfl

omit [Double R] in
/-- `trim` lets go of some of the oldest entries. -/
theorem trim_induction {P : DelayBuffer R → Prop} (advance : ∀ b : DelayBuffer R, P b → P b.advance)
    (holds : P buffer) : P (buffer.trim delayNs timestampNs) := by
  induction count : buffer.count using Nat.strong_induction_on generalizing buffer with
  | _ n ih =>
    rcases Nat.lt_or_ge buffer.count 2 with short | long
    · rwa [trim_short short]
    · obtain ⟨remaining, two⟩ := Nat.exists_eq_add_of_le' long
      rw [trim_long two]
      split
      · exact holds
      · exact ih buffer.advance.count (by simp only [DelayBuffer.advance]; omega) (advance buffer holds) rfl

omit [Double R] in
theorem entries_trim :
    (buffer.trim delayNs timestampNs).entries = trimmed delayNs timestampNs buffer.entries := by
  induction count : buffer.count using Nat.strong_induction_on generalizing buffer with
  | _ n ih =>
    rcases Nat.lt_or_ge buffer.count 2 with short | long
    · rw [trim_short short]
      match entries : buffer.entries with
      | [] => rfl
      | [_] => rfl
      | _ :: _ :: _ =>
        have length : buffer.entries.length = buffer.count := by simp [DelayBuffer.entries]
        rw [entries] at length
        simp only [List.length_cons] at length
        omega
    · obtain ⟨remaining, two⟩ := Nat.exists_eq_add_of_le' long
      obtain ⟨later, shape⟩ := entries_of_two two
      rw [trim_long two, shape, trimmed]
      split
      · exact shape
      · rw [ih buffer.advance.count (by simp only [advance]; omega) rfl, entries_advance, shape]
        rfl

omit [Double R] in
theorem trim_count : (buffer.trim delayNs timestampNs).count ≤ buffer.count :=
  trim_induction (P := fun b => b.count ≤ buffer.count) (fun _ le => Nat.le_trans (Nat.sub_le _ _) le) (Nat.le_refl _)

omit [Double R] in
theorem trim_sizes : (buffer.trim delayNs timestampNs).capacity = buffer.capacity ∧
    (buffer.trim delayNs timestampNs).width = buffer.width :=
  trim_induction (P := fun b => b.capacity = buffer.capacity ∧ b.width = buffer.width) (fun _ same => same) ⟨rfl, rfl⟩

omit [Double R] in
theorem slot_ne {position : Nat} (older : position < buffer.count)
    (room : buffer.count < buffer.capacity) : buffer.slot position ≠ buffer.slot buffer.count :=
  Ring.mod_ne (by omega) (by omega)

omit [Double R] in
theorem push_entry (room : buffer.count < buffer.capacity) {position : Nat}
    (older : position < buffer.count) : (buffer.push timestampNs input).entry position = buffer.entry position := by
  have differ := slot_ne older room
  refine Prod.ext (update_of_ne differ _ _) ?_
  refine List.map_congr_left fun element inside => ?_
  rw [List.mem_range] at inside
  refine store_outside fun reached => ?_
  have apart := Nat.lt_or_gt_of_ne differ
  change element < buffer.width at inside
  change buffer.slot buffer.count * buffer.width ≤ buffer.slot position * buffer.width + element ∧
    buffer.slot position * buffer.width + element < buffer.slot buffer.count * buffer.width + buffer.width at reached
  rcases apart with below | above
  · have := Nat.mul_le_mul_right buffer.width below
    rw [Nat.succ_mul] at this
    omega
  · have := Nat.mul_le_mul_right buffer.width above
    rw [Nat.succ_mul] at this
    omega

omit [Double R] in
theorem push_newest :
    (buffer.push timestampNs input).entry buffer.count = (timestampNs, (List.range buffer.width).map input) := by
  refine Prod.ext (update_self _ _ _) ?_
  refine List.map_congr_left fun element inside => ?_
  rw [List.mem_range] at inside
  exact store_inside inside

omit [Double R] in
theorem entries_push (room : buffer.count < buffer.capacity) :
    (buffer.push timestampNs input).entries =
      buffer.entries ++ [(timestampNs, (List.range buffer.width).map input)] := by
  show (List.range (buffer.count + 1)).map _ = _
  rw [List.range_succ, List.map_append, List.map_singleton, push_newest]
  congr 1
  exact List.map_congr_left fun position inside => push_entry room (List.mem_range.mp inside)

/-- The stored element is the one pushed, or the comparison of the code takes it for that. -/
def Same (stored pushed : R) : Prop := stored = pushed ∨ eq stored pushed = true

def SameElements (width : Nat) (stored : List R) (pushed : Nat → R) : Prop :=
  ∀ element, element < width → Same (stored.getD element 0.0) (pushed element)

theorem sameElements_map (width : Nat) (pushed : Nat → R) :
    SameElements width ((List.range width).map pushed) pushed := by
  intro element inside
  left
  simp [List.getD_eq_getElem?_getD, inside]

theorem unchanged_last (h : buffer.changed input = false) :
    ∃ last, buffer.entries.getLast? = some last ∧ SameElements buffer.width last.2 input := by
  simp only [changed, Bool.or_eq_false_iff, decide_eq_false_iff_not] at h
  obtain ⟨nonempty, agree⟩ := h
  obtain ⟨older, count⟩ := Nat.exists_eq_succ_of_ne_zero nonempty
  refine ⟨buffer.entry older, ?_, fun element inside => ?_⟩
  · rw [entries, count, List.range_succ, List.map_append, List.map_singleton, List.getLast?_concat]
  · right
    rw [List.any_eq_false] at agree
    have here := agree element (List.mem_range.mpr inside)
    have last : (buffer.head + buffer.count - 1) % buffer.capacity = buffer.slot older := by
      rw [count]
      rfl
    rw [last] at here
    simpa [entry, List.getD_eq_getElem?_getD, inside] using here

omit [Double R] in
theorem foldl_last {α β : Type} (f : α → β) (xs : List α) (start : β) :
    xs.foldl (fun _ x => f x) start = (xs.getLast?.map f).getD start := by
  induction xs using List.reverseRecOn with
  | nil => rfl
  | append_singleton xs x _ => simp

theorem lookup_held (sorted : buffer.entries.Pairwise fun a b => a.1 ≤ b.1) (query element : Nat)
    (inside : element < buffer.width) (initial : R) :
    buffer.lookup query element initial =
      ((held buffer.entries query).map fun stored => stored.getD element 0.0).getD initial := by
  rw [lookup, foldl_last, held_eq_takeWhile sorted, entries, List.takeWhile_map, List.getLast?_map, Option.map_map,
    Option.map_map]
  congr 2
  funext position
  simp [entry, slot, List.getD_eq_getElem?_getD, inside]

/-! ### A run of the recorder -/

/-- An input of the delay, with its time. -/
abbrev DelaySample (R : Type) := Nat × (Nat → R)

/-- The ring is full when an entry is stored: the oldest one is dropped. -/
def Drops (buffer : DelayBuffer R) (delayNs : Nat) (sample : DelaySample R) : Prop :=
  buffer.changed sample.2 = true ∧ (buffer.trim delayNs sample.1).count = buffer.capacity

/-- When an entry is stored, the first of the later ones that is not due yet comes due below 2^64 ns. -/
def DueInRange (buffer : DelayBuffer R) (delayNs : Nat) (sample : DelaySample R) : Prop :=
  buffer.changed sample.2 = true →
    ∀ waiting, (buffer.entries.tail.find? fun entry => sample.1 < entry.1 + delayNs) = some waiting →
      waiting.1 + delayNs < 18446744073709551616

/-- An input is recorded, and nothing is dropped for it. -/
def Records (delayNs : Nat) (buffer : DelayBuffer R) (sample : DelaySample R) (next : DelayBuffer R) : Prop :=
  ¬buffer.Drops delayNs sample ∧ next = buffer.record delayNs sample.1 sample.2

def RecordsInRange (delayNs : Nat) (buffer : DelayBuffer R) (sample : DelaySample R) (next : DelayBuffer R) : Prop :=
  Records delayNs buffer sample next ∧ buffer.DueInRange delayNs sample

theorem record_stored (different : buffer.changed input = true)
    (room : (buffer.trim delayNs timestampNs).count ≠ buffer.capacity) :
    buffer.record delayNs timestampNs input = (buffer.trim delayNs timestampNs).push timestampNs input := by
  rw [record, if_pos different, makeRoom, trim_sizes.1, if_neg room]

omit [Double R] in
theorem trimmed_suffix (entries : List (DelayEntry R)) : trimmed delayNs timestampNs entries <:+ entries := by
  induction entries with
  | nil => exact List.suffix_refl _
  | cons a later ih =>
    cases later with
    | nil => exact List.suffix_refl _
    | cons b later =>
      rw [trimmed]
      split
      · exact List.suffix_refl _
      · exact ih.trans (List.suffix_cons _ _)

omit [Double R] in
/-- No later query misses what was let go. -/
theorem held_trimmed {query : Nat} (reached : timestampNs ≤ query + delayNs) (entries : List (DelayEntry R))
    (inRange : ∀ waiting, (entries.tail.find? fun entry => timestampNs < entry.1 + delayNs) = some waiting →
      waiting.1 + delayNs < 18446744073709551616) :
    held (trimmed delayNs timestampNs entries) query = held entries query := by
  induction entries with
  | nil => rfl
  | cons a later ih =>
    cases later with
    | nil => rfl
    | cons b later =>
      rw [trimmed]
      split
      · rfl
      · next wrapped =>
        have due : ¬timestampNs < b.1 + delayNs := by
          intro waits
          have bound := inRange b (by rw [List.tail_cons, List.find?_cons_of_pos (by simpa using waits)])
          rw [Nat.mod_eq_of_lt bound] at wrapped
          exact wrapped waits
        rw [ih, held_tail a b (by omega)]
        intro waiting found
        refine inRange waiting ?_
        rw [List.tail_cons, List.find?_cons_of_neg (by simpa using due)]
        exact found

/-- The history answers every later query as the recorded inputs do. -/
structure Tracks (delayNs width : Nat) (samples : List (DelaySample R)) (buffer : DelayBuffer R) : Prop where
  sized : buffer.width = width
  count : buffer.count ≤ buffer.capacity
  sorted : buffer.entries.Pairwise fun a b => a.1 ≤ b.1
  past : ∀ now, (∀ sample ∈ samples, sample.1 ≤ now) → ∀ entry ∈ buffer.entries, entry.1 ≤ now
  agrees : ∀ query, (∀ sample ∈ samples, sample.1 ≤ query + delayNs) →
    Option.Rel (SameElements width) (held buffer.entries query) (held samples query)

theorem tracks_empty (empty : buffer.count = 0) : Tracks delayNs buffer.width [] buffer := by
  have none : buffer.entries = [] := by rw [entries, empty]; rfl
  exact ⟨rfl, by omega, by rw [none]; exact .nil, by rw [none]; simp, fun _ _ => by rw [none]; exact .none⟩

variable {width : Nat} {samples : List (DelaySample R)} {sample : DelaySample R}

theorem Tracks.unchanged (tracks : Tracks delayNs width samples buffer)
    (latest : ∀ earlier ∈ samples, earlier.1 ≤ sample.1) (same : buffer.changed sample.2 = false) :
    Tracks delayNs width (samples ++ [sample]) buffer where
  sized := tracks.sized
  count := tracks.count
  sorted := tracks.sorted
  past now all := tracks.past now fun earlier member => all earlier (List.mem_append_left _ member)
  agrees query all := by
    rcases Nat.lt_or_ge query sample.1 with before | since
    · rw [held_before _ _ before]
      exact tracks.agrees query fun earlier member => all earlier (List.mem_append_left _ member)
    · obtain ⟨last, newest, agree⟩ := unchanged_last same
      rw [held_since _ _ since, held_of_all fun entry member => (tracks.past _ latest entry member).trans since, newest]
      exact .some (tracks.sized ▸ agree)

theorem Tracks.stored (tracks : Tracks delayNs width samples buffer)
    (latest : ∀ earlier ∈ samples, earlier.1 ≤ sample.1) (different : buffer.changed sample.2 = true)
    (kept : ¬buffer.Drops delayNs sample) (inRange : buffer.DueInRange delayNs sample) :
    Tracks delayNs width (samples ++ [sample]) ((buffer.trim delayNs sample.1).push sample.1 sample.2) := by
  have full : (buffer.trim delayNs sample.1).count ≠ buffer.capacity := fun full => kept ⟨different, full⟩
  have fewer : (buffer.trim delayNs sample.1).count ≤ buffer.count := trim_count
  have sizes : (buffer.trim delayNs sample.1).capacity = buffer.capacity ∧
      (buffer.trim delayNs sample.1).width = buffer.width := trim_sizes
  have bound := tracks.count
  have room : (buffer.trim delayNs sample.1).count < (buffer.trim delayNs sample.1).capacity := by omega
  have shape : ((buffer.trim delayNs sample.1).push sample.1 sample.2).entries =
      trimmed delayNs sample.1 buffer.entries ++ [(sample.1, (List.range width).map sample.2)] := by
    rw [entries_push room, entries_trim, sizes.2, tracks.sized]
  have within : trimmed delayNs sample.1 buffer.entries <:+ buffer.entries := trimmed_suffix _
  refine ⟨sizes.2.trans tracks.sized, room, ?_, ?_, ?_⟩
  · rw [shape, List.pairwise_append]
    refine ⟨tracks.sorted.sublist within.sublist, List.pairwise_singleton _ _, ?_⟩
    intro entry member newest isNewest
    rw [List.mem_singleton.mp isNewest]
    exact tracks.past sample.1 latest entry (within.subset member)
  · intro now all entry member
    rw [shape] at member
    rcases List.mem_append.mp member with older | newest
    · exact tracks.past now (fun earlier member => all earlier (List.mem_append_left _ member)) entry
        (within.subset older)
    · rw [List.mem_singleton.mp newest]
      exact all sample (List.mem_append_right _ (List.mem_singleton_self _))
  · intro query all
    rw [shape]
    rcases Nat.lt_or_ge query sample.1 with before | since
    · rw [held_before _ _ before, held_before _ _ before,
        held_trimmed (all sample (List.mem_append_right _ (List.mem_singleton_self _))) _ (inRange different)]
      exact tracks.agrees query fun earlier member => all earlier (List.mem_append_left _ member)
    · rw [held_since _ _ since, held_since _ _ since]
      exact .some (sameElements_map width sample.2)

theorem Tracks.step {next : DelayBuffer R} (tracks : Tracks delayNs width samples buffer)
    (latest : ∀ earlier ∈ samples, earlier.1 ≤ sample.1) (step : RecordsInRange delayNs buffer sample next) :
    Tracks delayNs width (samples ++ [sample]) next := by
  obtain ⟨⟨kept, rfl⟩, inRange⟩ := step
  cases different : buffer.changed sample.2 with
  | false =>
    rw [record, different]
    exact tracks.unchanged latest different
  | true =>
    rw [record_stored different fun full => kept ⟨different, full⟩]
    exact tracks.stored latest different kept inRange

theorem Tracks.run {start : DelayBuffer R} (empty : start.count = 0)
    (run : Trace.Run (RecordsInRange delayNs) start samples buffer)
    (chronological : samples.Pairwise fun a b => a.1 ≤ b.1) : Tracks delayNs start.width samples buffer := by
  induction run with
  | start => exact tracks_empty empty
  | next _ step ih =>
    rw [List.pairwise_append] at chronological
    obtain ⟨earlier, _, latest⟩ := chronological
    exact (ih earlier).step (fun sample member => latest sample member _ (List.mem_singleton_self _)) step

end DelayBuffer

/-- The input in effect a delay before `timeNs`. -/
def inEffect (delayNs : Nat) (samples : List (DelayBuffer.DelaySample R)) (timeNs : Nat) : Option (Nat → R) :=
  if timeNs < delayNs then none else held samples (timeNs - delayNs)

/-- What a delayed read is to return. -/
def Delayed (block : CompiledBlock R) (samples : List (DelayBuffer.DelaySample R)) (timeNs element : Nat) (read : R) :
    Prop :=
  match inEffect block.delayNs samples timeNs with
  | none => read = if block.kind = .fopdt then block.real 3 else block.real 1
  | some input => DelayBuffer.Same read (input element)

open DelayBuffer in
theorem delayedInput_delayed {values : SignalValues R} {block : CompiledBlock R} {start : DelayBuffer R}
    {samples : List (DelaySample R)} {timeNs element : Nat} (empty : start.count = 0)
    (run : Trace.Run (RecordsInRange block.delayNs) start samples (values.delayBuffers (block.delayIndex.getD 0)))
    (chronological : samples.Pairwise fun a b => a.1 ≤ b.1) (late : ∀ sample ∈ samples, sample.1 ≤ timeNs)
    (inside : element < start.width) :
    Delayed block samples timeNs element (delayedInput values block timeNs element) := by
  have tracks := Tracks.run empty run chronological
  rw [Delayed, inEffect, delayedInput]
  generalize (if block.kind = .fopdt then block.real 3 else block.real 1) = initial
  by_cases early : timeNs < block.delayNs
  · rw [if_pos early, if_pos early]
  · have agrees := tracks.agrees (timeNs - block.delayNs) fun sample member => by
      rw [Nat.sub_add_cancel (Nat.le_of_not_lt early)]
      exact late sample member
    simp only [if_neg early]
    rw [lookup_held tracks.sorted _ _ (by rw [tracks.sized]; exact inside)]
    generalize held (values.delayBuffers (block.delayIndex.getD 0)).entries (timeNs - block.delayNs) = found at agrees
    generalize held samples (timeNs - block.delayNs) = effect at agrees
    cases agrees with
    | none => rfl
    | some same => exact same element inside

/-! ### Inputs near the end of the clock -/

section Overflow

open Binary DelayBuffer

def number (n : Nat) : FloatValue := .finite false n

/-- A DeadTime block with the initial value 0. -/
def deadTime (delayNs : Nat) : CompiledBlock FloatValue :=
  { kind := .deadTime, output := { scalar := .real, offset := 0, width := 1 }, outputUnit := "", inputs := []
    realParameters := [number delayNs / number 1000000000, number 0], intParameters := [], boolParameters := []
    delayIndex := some 0, delayNs, historyCapacity := 4, samplePeriod := number 1 }

def emptyHistory : DelayBuffer FloatValue := ⟨fun _ => 0, fun _ => number 0, 4, 0, 0, 1⟩

def withHistory (buffer : DelayBuffer FloatValue) : SignalValues FloatValue where
  reals _ := number 0
  ints _ := 0
  bools _ := false
  dynamicState _ := number 0
  kernelDiscrete _ := number 0
  kernelParams _ := number 0
  delayBuffers _ := buffer

def steps (second third : Nat) : List (DelaySample FloatValue) :=
  [(0, fun _ => number 1), (second, fun _ => number 2), (third, fun _ => number 3)]

/-- The ring after the first two inputs. -/
def twoSteps (second : Nat) : DelayBuffer FloatValue :=
  (emptyHistory.push 0 fun _ => number 1).push second fun _ => number 2

theorem records_first (delayNs : Nat) (sample : DelaySample FloatValue) :
    Records delayNs emptyHistory sample (emptyHistory.push sample.1 sample.2) := by
  have kept : emptyHistory.trim delayNs sample.1 = emptyHistory := trim_short (by decide)
  refine ⟨fun drops => ?_, ?_⟩
  · rw [Drops, kept] at drops
    exact absurd drops.2 (by decide)
  · rw [record_stored rfl (by rw [kept]; decide), kept]

theorem records_second (delayNs second : Nat) :
    Records delayNs (emptyHistory.push 0 fun _ => number 1) (second, fun _ => number 2) (twoSteps second) := by
  have kept : (emptyHistory.push 0 fun _ => number 1).trim delayNs second = emptyHistory.push 0 fun _ => number 1 :=
    trim_short (by decide)
  refine ⟨fun drops => ?_, ?_⟩
  · rw [Drops, kept] at drops
    exact absurd drops.2 (by decide)
  · rw [record_stored rfl (by rw [kept]; decide), kept]
    rfl

theorem records_third (delayNs second third : Nat) :
    Records delayNs (twoSteps second) (third, fun _ => number 3)
      (((twoSteps second).trim delayNs third).push third fun _ => number 3) := by
  have fewer : ((twoSteps second).trim delayNs third).count ≤ 2 := trim_count (R := FloatValue)
  refine ⟨fun drops => ?_, ?_⟩
  · have full : ((twoSteps second).trim delayNs third).count = 4 := drops.2
    omega
  · have different : (twoSteps second).changed (fun _ => number 3) = true := rfl
    refine (record_stored different ?_).symm
    show ((twoSteps second).trim delayNs third).count ≠ 4
    omega

theorem records_steps (delayNs second third : Nat) :
    Trace.Run (Records delayNs) emptyHistory (steps second third)
      (((twoSteps second).trim delayNs third).push third fun _ => number 3) :=
  ((Trace.Run.one (records_first delayNs (0, fun _ => number 1))).append
    (Trace.Run.one (records_second delayNs second))).append (Trace.Run.one (records_third delayNs second third))

/-- The second input comes due at 2^64 ns, which the sum in `trim` takes for 0. -/
theorem overflow_trim :
    (twoSteps 9446744073709551616).trim 9000000000000000000 9446744073709551617 =
      (twoSteps 9446744073709551616).advance := by
  rw [trim_long (show (twoSteps 9446744073709551616).count = 0 + 2 from rfl), if_neg (by decide +kernel), trim_short (by decide)]

theorem delayedInput_overflows :
    ¬∀ samples buffer, Trace.Run (Records 9000000000000000000) emptyHistory samples buffer →
      (samples.Pairwise fun a b => a.1 ≤ b.1) →
      ∀ timeNs < 18446744073709551616, (∀ sample ∈ samples, sample.1 ≤ timeNs) →
        Delayed (deadTime 9000000000000000000) samples timeNs 0
          (delayedInput (withHistory buffer) (deadTime 9000000000000000000) timeNs 0) := by
  intro claim
  have delayed := claim _ _ (records_steps _ 9446744073709551616 9446744073709551617) (by simp [steps])
    9446744073709551617 (by decide) (by simp [steps])
  rw [overflow_trim] at delayed
  have effect : inEffect (deadTime 9000000000000000000).delayNs (steps 9446744073709551616 9446744073709551617)
      9446744073709551617 = some fun _ => number 1 := rfl
  rw [Delayed, effect] at delayed
  rcases delayed with same | same
  · exact absurd same (by decide +kernel)
  · exact absurd same (by decide +kernel)

theorem delayedInput_delayed_twoSteps :
    Delayed (deadTime 5) [(0, fun _ => number 1), (3, fun _ => number 2)] 7 0
      (delayedInput (withHistory (twoSteps 3)) (deadTime 5) 7 0) := by
  have first : RecordsInRange 5 emptyHistory (0, fun _ => number 1) (emptyHistory.push 0 fun _ => number 1) :=
    ⟨records_first _ _, by rintro _ _ ⟨⟩⟩
  have second : RecordsInRange 5 (emptyHistory.push 0 fun _ => number 1) (3, fun _ => number 2) (twoSteps 3) :=
    ⟨records_second _ _, by rintro _ _ ⟨⟩⟩
  have run : Trace.Run (RecordsInRange (deadTime 5).delayNs) emptyHistory
      [(0, fun _ => number 1), (3, fun _ => number 2)]
      ((withHistory (twoSteps 3)).delayBuffers ((deadTime 5).delayIndex.getD 0)) :=
    (Trace.Run.one first).append (Trace.Run.one second)
  exact delayedInput_delayed rfl run (by simp) (by simp) Nat.one_pos

end Overflow

end LasecSimul.Signal
