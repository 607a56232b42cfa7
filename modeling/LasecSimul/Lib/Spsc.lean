import Mathlib.Data.UInt
import LasecSimul.Lib.Ring
import LasecSimul.Lib.Trace

/-!
# Rings between one producer and one consumer

Free-running 64-bit sequence numbers, a power of two of cells, and a cell found by masking. The producer
fills a cell before it advances its number and the consumer copies one before it advances its own; the
two interleave in every order.
-/

namespace LasecSimul.Lib.Spsc

open Trace

variable {α : Type*}

abbrev Depth := { depth : UInt32 // depth.toNat.isPowerOfTwo }

/-- The cell of `seq`: `seq & (depth - 1)`. -/
def slot (depth : UInt32) (seq : UInt64) : Nat := (seq &&& (depth - 1).toUInt64).toNat

inductive Producer (α : Type*) where
  | idle
  | filling (write : UInt64) (event : α)
  | filled (write : UInt64) (event : α)
  deriving DecidableEq, Repr

inductive Consumer (α : Type*) where
  | idle
  | loaded (read : UInt64)
  | copied (read : UInt64) (event : α)
  deriving DecidableEq, Repr

structure State (α : Type*) where
  cells : List α
  writeSeq : UInt64
  readSeq : UInt64
  producer : Producer α := .idle
  consumer : Consumer α := .idle
  deriving DecidableEq, Repr

inductive Label (α : Type*) where
  | quiet
  | publish (event : α)
  | consume (event : α)
  | peek (event : α)
  deriving DecidableEq, Repr

/-- `writes` says which events the producer makes out of their sequence number. While it fills a cell
the cell may hold anything. -/
inductive Step (depth : Depth) (writes : (UInt64 → α) → Prop) : State α → Label α → State α → Prop where
  | begin {s : State α} {make : UInt64 → α} (idle : s.producer = .idle)
      (room : s.writeSeq - s.readSeq < depth.val.toUInt64) (allowed : writes make) :
      Step depth writes s .quiet { s with producer := .filling s.writeSeq (make s.writeSeq) }
  | scrawl {s : State α} {write : UInt64} {event : α} (x : α) (filling : s.producer = .filling write event) :
      Step depth writes s .quiet { s with cells := s.cells.set (slot depth write) x }
  | fill {s : State α} {write : UInt64} {event : α} (filling : s.producer = .filling write event) :
      Step depth writes s .quiet
        { s with cells := s.cells.set (slot depth write) event, producer := .filled write event }
  | publish {s : State α} {write : UInt64} {event : α} (filled : s.producer = .filled write event) :
      Step depth writes s (.publish event) { s with writeSeq := write + 1, producer := .idle }
  | load {s : State α} (idle : s.consumer = .idle) (pending : s.readSeq ≠ s.writeSeq) :
      Step depth writes s .quiet { s with consumer := .loaded s.readSeq }
  | copy {s : State α} {read : UInt64} {event : α} (loaded : s.consumer = .loaded read)
      (here : s.cells[slot depth read]? = some event) :
      Step depth writes s .quiet { s with consumer := .copied read event }
  | consume {s : State α} {read : UInt64} {event : α} (copied : s.consumer = .copied read event) :
      Step depth writes s (.consume event) { s with readSeq := read + 1, consumer := .idle }
  | peek {s : State α} {read : UInt64} {event : α} (copied : s.consumer = .copied read event) :
      Step depth writes s (.peek event) { s with consumer := .idle }

def published (labels : List (Label α)) : List α :=
  labels.filterMap fun | .publish event => some event | _ => none

def consumed (labels : List (Label α)) : List α :=
  labels.filterMap fun | .consume event => some event | _ => none

/-- The events in the cells from the read to the write number. -/
def pending (depth : Depth) (s : State α) : List α :=
  (List.range (s.writeSeq - s.readSeq).toNat).filterMap fun i => s.cells[slot depth (s.readSeq + UInt64.ofNat i)]?

structure Empty (depth : Depth) (s : State α) : Prop where
  cells : s.cells.length = depth.val.toNat
  none : s.writeSeq = s.readSeq
  producer : s.producer = .idle
  consumer : s.consumer = .idle

theorem slot_ofNat (depth : Depth) (seq : Nat) : slot depth (UInt64.ofNat seq) = seq % depth.val.toNat := by
  obtain ⟨depth, power, isPower⟩ := depth
  have small : power ≤ 64 := by
    have below := depth.toNat_lt
    rw [isPower] at below
    exact Nat.le_trans ((Nat.pow_lt_pow_iff_right (by decide)).mp below).le (by decide)
  have one : (1 : UInt32) ≤ depth := by
    rw [UInt32.le_iff_toNat_le, isPower]
    exact Nat.one_le_two_pow
  unfold slot
  rw [UInt64.toNat_and, UInt32.toNat_toUInt64, UInt32.toNat_sub_of_le _ _ one, UInt64.toNat_ofNat', isPower]
  show seq % 2 ^ 64 &&& (2 ^ power - 1) = seq % 2 ^ power
  rw [Nat.and_two_pow_sub_one_eq_mod, Nat.mod_mod_of_dvd _ (Nat.pow_dvd_pow 2 small)]

theorem slot_lt (depth : Depth) (seq : UInt64) : slot depth seq < depth.val.toNat := by
  have masked := slot_ofNat depth seq.toNat
  rw [UInt64.ofNat_toNat] at masked
  exact masked ▸ Nat.mod_lt _ (Nat.pos_of_isPowerOfTwo depth.property)

theorem distance {read write : Nat} (ordered : read ≤ write) (near : write - read < 2 ^ 64) :
    (UInt64.ofNat write - UInt64.ofNat read).toNat = write - read := by
  rw [UInt64.toNat_sub, UInt64.toNat_ofNat', UInt64.toNat_ofNat']
  omega

theorem ofNat_add (a b : Nat) : UInt64.ofNat a + UInt64.ofNat b = UInt64.ofNat (a + b) :=
  (UInt64.ofNat_add a b).symm

def window (cells : List α) (read count : Nat) : List α :=
  (List.range' read count).filterMap fun i => cells[i % cells.length]?

theorem window_snoc {cells : List α} {read count : Nat} {event : α}
    (here : cells[(read + count) % cells.length]? = some event) :
    window cells read (count + 1) = window cells read count ++ [event] := by
  unfold window
  rw [List.range'_concat, List.filterMap_append]
  simp [here]

theorem window_cons {cells : List α} {read count : Nat} {event : α} (here : cells[read % cells.length]? = some event) :
    window cells read (count + 1) = event :: window cells (read + 1) count := by
  unfold window
  rw [List.range'_succ]
  simp [here]

theorem window_length {cells : List α} (room : 0 < cells.length) (read count : Nat) :
    (window cells read count).length = count := by
  induction count generalizing read with
  | zero => rfl
  | succ count ih =>
    have inside := Nat.mod_lt read room
    rw [window_cons (List.getElem?_eq_getElem inside), List.length_cons, ih]

theorem window_getElem? {cells : List α} (room : 0 < cells.length) {read count i : Nat} (lt : i < count) :
    (window cells read count)[i]? = cells[(read + i) % cells.length]? := by
  induction count generalizing read i with
  | zero => cases lt
  | succ count ih =>
    have inside := List.getElem?_eq_getElem (Nat.mod_lt read room)
    rw [window_cons inside]
    cases i with
    | zero => simp
    | succ i =>
      rw [List.getElem?_cons_succ, ih (Nat.lt_of_succ_lt_succ lt)]
      congr 2
      omega

theorem window_set {cells : List α} {read count : Nat} (free : count < cells.length) (x : α) :
    window (cells.set ((read + count) % cells.length) x) read count = window cells read count := by
  unfold window
  rw [List.length_set]
  apply List.filterMap_congr
  intro i member
  obtain ⟨low, high⟩ := List.mem_range'_1.mp member
  exact List.getElem?_set_ne (Ring.mod_ne high (by omega)).symm

/-- The sequence numbers are those of `read` events consumed and `read + count` published. -/
structure Counted (depth : Depth) (s : State α) (read count : Nat) : Prop where
  size : s.cells.length = depth.val.toNat
  readSeq : s.readSeq = UInt64.ofNat read
  writeSeq : s.writeSeq = UInt64.ofNat (read + count)
  bounded : count ≤ s.cells.length
  filling : ∀ write event, s.producer = .filling write event → write = s.writeSeq ∧ count < s.cells.length
  filled : ∀ write event, s.producer = .filled write event →
    write = s.writeSeq ∧ count < s.cells.length ∧ s.cells[(read + count) % s.cells.length]? = some event
  loaded : ∀ from_, s.consumer = .loaded from_ → from_ = s.readSeq ∧ 0 < count
  copied : ∀ from_ event, s.consumer = .copied from_ event →
    from_ = s.readSeq ∧ 0 < count ∧ s.cells[read % s.cells.length]? = some event

variable {depth : Depth} {writes : (UInt64 → α) → Prop} {s t : State α} {label : Label α} {labels : List (Label α)}
  {read count : Nat}

theorem Counted.room (counted : Counted depth s read count) : 0 < s.cells.length :=
  counted.size ▸ Nat.pos_of_isPowerOfTwo depth.property

theorem Counted.small (counted : Counted depth s read count) : count < 2 ^ 64 := by
  have := depth.val.toNat_lt
  have := counted.bounded
  have := counted.size
  omega

theorem Counted.slot_eq (counted : Counted depth s read count) (seq : Nat) :
    slot depth (UInt64.ofNat seq) = seq % s.cells.length :=
  counted.size ▸ slot_ofNat depth seq

theorem Counted.distance (counted : Counted depth s read count) : (s.writeSeq - s.readSeq).toNat = count := by
  have small := counted.small
  rw [counted.writeSeq, counted.readSeq, Spsc.distance (by omega) (by omega)]
  omega

theorem Counted.pending (counted : Counted depth s read count) : pending depth s = window s.cells read count := by
  unfold Spsc.pending window
  rw [counted.distance, List.range'_eq_map_range, List.filterMap_map]
  apply List.filterMap_congr
  intro i _
  rw [counted.readSeq, ofNat_add, counted.slot_eq]
  rfl

theorem Empty.counted (empty : Empty depth s) : Counted depth s s.readSeq.toNat 0 := by
  obtain ⟨size, none, producer, consumer⟩ := empty
  refine ⟨size, by simp, by simpa using none, Nat.zero_le _, ?_, ?_, ?_, ?_⟩
  · simp [producer]
  · simp [producer]
  · simp [consumer]
  · simp [consumer]

/-- Writing the free cell changes what the producer knows, and nothing else. -/
theorem Counted.write (counted : Counted depth s read count) {write : UInt64} (here : write = s.writeSeq)
    (free : count < s.cells.length) (x : α) (next : Producer α)
    (still : ∀ write' event, next = .filling write' event → write' = write)
    (stored : ∀ write' event, next = .filled write' event → write' = write ∧ event = x) :
    Counted depth { s with cells := s.cells.set (slot depth write) x, producer := next } read count ∧
      window (s.cells.set (slot depth write) x) read count = window s.cells read count := by
  have index : slot depth write = (read + count) % s.cells.length := by
    rw [here, counted.writeSeq, counted.slot_eq]
  have inside := Nat.mod_lt (read + count) counted.room
  rw [index]
  refine ⟨?_, window_set free x⟩
  constructor
  · simpa using counted.size
  · exact counted.readSeq
  · exact counted.writeSeq
  · simpa using counted.bounded
  · rintro write' event filling
    exact ⟨(still write' event filling).trans here, by simpa using free⟩
  · rintro write' event filled
    obtain ⟨rfl, rfl⟩ := stored write' event filled
    exact ⟨here, by simpa using free, by simp [inside]⟩
  · exact counted.loaded
  · intro from_ event copied
    obtain ⟨same, some, cell⟩ := counted.copied from_ event copied
    have away : (read + count) % s.cells.length ≠ read % s.cells.length := (Ring.mod_ne (by omega) (by omega)).symm
    refine ⟨same, some, ?_⟩
    rw [List.length_set, List.getElem?_set_ne away]
    exact cell

/-- One step: what was pending and is published is what is consumed and stays pending. -/
theorem Step.counted (step : Step depth writes s label t) (counted : Counted depth s read count) :
    ∃ read' count', Counted depth t read' count' ∧
      window s.cells read count ++ published [label] = consumed [label] ++ window t.cells read' count' := by
  cases step with
  | begin idle room allowed =>
    have free : count < s.cells.length := by
      have room := UInt64.lt_iff_toNat_lt.mp room
      rwa [counted.distance, UInt32.toNat_toUInt64, ← counted.size] at room
    refine ⟨read, count, { counted with filling := ?_, filled := nofun }, by simp [published, consumed]⟩
    rintro write event filling
    cases filling
    exact ⟨rfl, free⟩
  | @scrawl write event x filling =>
    obtain ⟨here, free⟩ := counted.filling write event filling
    obtain ⟨after, same⟩ := counted.write here free x s.producer
      (fun write' event' still => by
        rw [filling] at still
        cases still
        rfl)
      (fun write' event' still => by
        rw [filling] at still
        cases still)
    exact ⟨read, count, after, by simp [published, consumed, same]⟩
  | @fill write event filling =>
    obtain ⟨here, free⟩ := counted.filling write event filling
    obtain ⟨after, same⟩ := counted.write here free event (.filled write event) nofun fun write' event' stored => by
      cases stored
      exact ⟨rfl, rfl⟩
    exact ⟨read, count, after, by simp [published, consumed, same]⟩
  | @publish write event filled =>
    obtain ⟨here, free, cell⟩ := counted.filled write event filled
    refine ⟨read, count + 1, { counted with
      writeSeq := ?_, bounded := free, filling := nofun, filled := nofun, loaded := ?_, copied := ?_ }, ?_⟩
    · show write + 1 = _
      rw [here, counted.writeSeq]
      exact ofNat_add (read + count) 1
    · exact fun from_ loaded => ⟨(counted.loaded from_ loaded).1, Nat.zero_lt_succ _⟩
    · exact fun from_ event copied => ⟨(counted.copied from_ event copied).1, Nat.zero_lt_succ _,
        (counted.copied from_ event copied).2.2⟩
    · exact (window_snoc cell).symm
  | load idle pending =>
    have some : 0 < count := by
      refine Nat.pos_of_ne_zero fun none => pending ?_
      rw [counted.readSeq, counted.writeSeq, none, Nat.add_zero]
    refine ⟨read, count, { counted with loaded := ?_, copied := nofun }, by simp [published, consumed]⟩
    rintro from_ loaded
    cases loaded
    exact ⟨rfl, some⟩
  | @copy from_ event loaded here =>
    obtain ⟨same, some⟩ := counted.loaded from_ loaded
    refine ⟨read, count, { counted with loaded := nofun, copied := ?_ }, by simp [published, consumed]⟩
    rintro from' event' copied
    cases copied
    rw [same, counted.readSeq, counted.slot_eq] at here
    exact ⟨same, some, here⟩
  | @consume from_ event copied =>
    obtain ⟨same, some, cell⟩ := counted.copied from_ event copied
    obtain ⟨rest, rfl⟩ := Nat.exists_eq_succ_of_ne_zero (Nat.pos_iff_ne_zero.mp some)
    have bounded := counted.bounded
    have shift : read + (rest + 1) = read + 1 + rest := by omega
    refine ⟨read + 1, rest, { counted with
      readSeq := ?_, writeSeq := ?_, bounded := Nat.le_of_succ_le bounded, filling := ?_, filled := ?_, loaded := nofun,
      copied := nofun }, ?_⟩
    · show from_ + 1 = _
      rw [same, counted.readSeq]
      exact ofNat_add read 1
    · rw [← shift]
      exact counted.writeSeq
    · intro write event filling
      obtain ⟨here, free⟩ := counted.filling write event filling
      exact ⟨here, Nat.lt_of_succ_lt free⟩
    · intro write event filled
      obtain ⟨here, free, cell⟩ := counted.filled write event filled
      exact ⟨here, Nat.lt_of_succ_lt free, shift ▸ cell⟩
    · rw [window_cons cell]
      simp [published, consumed]
  | peek copied =>
    exact ⟨read, count, { counted with loaded := nofun, copied := nofun }, by simp [published, consumed]⟩

theorem Counted.head (counted : Counted depth s read count) {from_ : UInt64} {event : α}
    (copied : s.consumer = .copied from_ event) : (window s.cells read count).head? = some event := by
  obtain ⟨_, some, cell⟩ := counted.copied from_ event copied
  obtain ⟨rest, rfl⟩ := Nat.exists_eq_succ_of_ne_zero (Nat.pos_iff_ne_zero.mp some)
  rw [window_cons cell]
  rfl

/-- The event that the producer is about to publish. -/
def Producer.held : Producer α → Option α
  | idle => none
  | filling _ event | filled _ event => some event

theorem Step.pending (step : Step depth writes s label t) (counted : Counted depth s read count) :
    ∃ read' count', Counted depth t read' count' ∧
      Spsc.pending depth s ++ published [label] = consumed [label] ++ Spsc.pending depth t := by
  obtain ⟨read', count', counted', moved⟩ := step.counted counted
  exact ⟨read', count', counted', by rw [counted.pending, counted'.pending, moved]⟩

theorem Step.held (step : Step depth writes s label t) {event : α} (holds : t.producer.held = some event) :
    s.producer.held = some event ∨ ∃ make, writes make ∧ event = make s.writeSeq := by
  cases step with
  | begin idle room allowed =>
    cases holds
    exact .inr ⟨_, allowed, rfl⟩
  | scrawl x filling => exact .inl holds
  | fill filling =>
    cases holds
    rw [filling]
    exact .inl rfl
  | publish filled => cases holds
  | load | copy | consume | peek => exact .inl holds

theorem Step.publish_held {event : α} (step : Step depth writes s (.publish event) t) :
    s.producer.held = some event ∧ t.producer = .idle := by
  cases step with
  | publish filled =>
    rw [filled]
    exact ⟨rfl, rfl⟩

theorem Step.readSeq_eq (step : Step depth writes s label t) (keeps : ∀ event, label ≠ .consume event) :
    t.readSeq = s.readSeq := by
  cases step with
  | consume copied => exact absurd rfl (keeps _)
  | _ => rfl

theorem Counted.cell (counted : Counted depth s read count) (filled : Spsc.pending depth s ≠ []) {event : α}
    (here : s.cells[slot depth s.readSeq]? = some event) : (Spsc.pending depth s).head? = some event := by
  rw [counted.pending] at filled ⊢
  rw [counted.readSeq, counted.slot_eq] at here
  cases count with
  | zero => exact absurd rfl filled
  | succ count =>
    rw [window_cons here]
    rfl

theorem Counted.pending_eq_nil (counted : Counted depth s read count) :
    Spsc.pending depth s = [] ↔ s.readSeq = s.writeSeq := by
  have length : (Spsc.pending depth s).length = count := by
    rw [counted.pending, window_length counted.room]
  rw [← List.length_eq_zero_iff, length, ← counted.distance]
  constructor
  · intro zero
    exact (sub_eq_zero.mp (UInt64.toNat_inj.mp zero)).symm
  · intro same
    rw [same, sub_self]
    rfl

theorem published_append (labels labels' : List (Label α)) :
    published (labels ++ labels') = published labels ++ published labels' :=
  List.filterMap_append

theorem consumed_append (labels labels' : List (Label α)) :
    consumed (labels ++ labels') = consumed labels ++ consumed labels' :=
  List.filterMap_append

theorem counted_run (empty : Empty depth s) (run : Run (Step depth writes) s labels t) :
    ∃ read count, Counted depth t read count ∧ published labels = consumed labels ++ window t.cells read count := by
  refine run.history (P := fun labels t => ∃ read count, Counted depth t read count ∧
    published labels = consumed labels ++ window t.cells read count) ⟨_, 0, empty.counted, rfl⟩ ?_
  rintro labels t label u _ ⟨read, count, counted, delivered⟩ step
  obtain ⟨read', count', counted', moved⟩ := step.counted counted
  refine ⟨read', count', counted', ?_⟩
  rw [published_append, consumed_append, delivered, List.append_assoc, moved, List.append_assoc]

structure Delivers (depth : Depth) (labels : List (Label α)) (s : State α) : Prop where
  inOrder : published labels = consumed labels ++ pending depth s
  length : (pending depth s).length = (s.writeSeq - s.readSeq).toNat
  kept : ∀ i < (s.writeSeq - s.readSeq).toNat,
    (pending depth s)[i]? = s.cells[slot depth (s.readSeq + UInt64.ofNat i)]?
  bounded : (s.writeSeq - s.readSeq).toNat ≤ depth.val.toNat
  head : ∀ read event, s.consumer = .copied read event → (pending depth s).head? = some event

theorem delivers (empty : Empty depth s) (run : Run (Step depth writes) s labels t) : Delivers depth labels t := by
  obtain ⟨read, count, counted, delivered⟩ := counted_run empty run
  constructor
  · rw [counted.pending, delivered]
  · rw [counted.pending, counted.distance, window_length counted.room]
  · intro i lt
    rw [counted.distance] at lt
    rw [counted.pending, counted.readSeq, ofNat_add, counted.slot_eq, window_getElem? counted.room lt]
  · rw [counted.distance, ← counted.size]
    exact counted.bounded
  · intro from_ event copied
    rw [counted.pending]
    exact counted.head copied

end LasecSimul.Lib.Spsc
