import LasecSimul.Lib.Trace

/-!
# The wait dispatcher

The worker waits on a snapshot of the registrations and says which generation it was taken from;
`unregister` waits for a generation that cannot contain its token. Critical sections are steps, and what a
thread does between two of them interleaves with every other thread.
-/

namespace LasecSimul.Vnext

open Lib.Trace

abbrev Handle := UInt64

def kMaxRegistrations : Nat := 63

/-- A free slot has no handle; `callback` says whether the slot has one. -/
structure Entry where
  handle : Option Handle := none
  callback : Bool := false
  token : Nat := 0
  deriving DecidableEq, Repr

structure WaitItem where
  handle : Handle
  token : Nat
  slot : Nat
  deriving DecidableEq, Repr

/-- Where the worker is in `run`. -/
inductive Worker where
  | top
  | waiting
  | roused
  | woken (item : WaitItem)
  | looking (item : WaitItem)
  | found (token : Nat)
  | calling (token : Nat)
  | called
  | exited
  deriving DecidableEq, Repr

/-- A thread inside `unregister`, with its `newGeneration` and `calledFromWorkerThread`. -/
structure DrainCall where
  token : Nat
  generation : Nat
  fromWorker : Bool
  deriving DecidableEq, Repr

structure Dispatcher where
  entries : List Entry
  stopping : Bool := false
  nextToken : Nat := 1
  nextStartSlot : Nat := 0
  waitSetGeneration : Nat := 0
  waitSetObservedGeneration : Nat := 0
  callbacksInFlight : Nat := 0
  wake : Bool := false
  signaled : List Handle := []
  waitSet : List WaitItem := []
  worker : Worker := .top
  draining : List DrainCall := []
  deriving DecidableEq, Repr

namespace Dispatcher

def initial : Dispatcher := { entries := List.replicate kMaxRegistrations {} }

/-- The handles of one round, from `nextStartSlot` on. -/
def snapshot (d : Dispatcher) : List WaitItem :=
  (List.range kMaxRegistrations).filterMap fun offset =>
    let slot := (d.nextStartSlot + offset) % kMaxRegistrations
    match d.entries[slot]? with
    | some { handle := some handle, token := token, .. } => some ⟨handle, token, slot⟩
    | _ => none

/-- `none` is the token 0 of a full table. -/
def registerArtifactEvent (d : Dispatcher) (handle : Handle) : Option Nat × Dispatcher :=
  match d.entries.findIdx? (·.handle.isNone) with
  | some slot => (some d.nextToken, { d with
      nextToken := d.nextToken + 1
      entries := d.entries.set slot { handle := some handle, callback := true, token := d.nextToken }
      waitSetGeneration := d.waitSetGeneration + 1
      wake := true })
  | none => (none, { d with nextToken := d.nextToken + 1 })

def cleared (entries : List Entry) (token : Nat) : List Entry :=
  match entries.findIdx? (·.token == token) with
  | some slot => entries.set slot {}
  | none => entries

/-- `unregister` up to its wait. -/
def unregister (d : Dispatcher) (token : Nat) (fromWorker : Bool) : DrainCall × Dispatcher :=
  let call := { token := token, generation := d.waitSetGeneration + 1, fromWorker := fromWorker }
  (call, { d with
    entries := cleared d.entries token
    waitSetGeneration := d.waitSetGeneration + 1
    wake := true
    draining := call :: d.draining })

/-- The predicate of the wait. -/
def drained (d : Dispatcher) (call : DrainCall) : Bool :=
  d.waitSetObservedGeneration ≥ call.generation ∧ (call.fromWorker ∨ d.callbacksInFlight = 0)

/-- The worker is itself waiting in `unregister`. -/
def insideUnregister (d : Dispatcher) : Bool := d.draining.any (·.fromWorker)

def hasCallback (d : Dispatcher) (token : Nat) : Bool :=
  ((d.entries.find? (·.token == token)).map (·.callback)).getD false

end Dispatcher

open Dispatcher

inductive DrainLabel where
  | internal
  | registered (token : Nat)
  | unregister (call : DrainCall)
  | returned (call : DrainCall)
  | timedOut (call : DrainCall)
  deriving DecidableEq, Repr

inductive DispatcherStep : Dispatcher → DrainLabel → Dispatcher → Prop where
  | register {d after : Dispatcher} {token : Nat} (handle : Handle)
      (placed : d.registerArtifactEvent handle = (some token, after)) : DispatcherStep d (.registered token) after
  | full {d after : Dispatcher} (handle : Handle) (refused : d.registerArtifactEvent handle = (none, after)) :
      DispatcherStep d .internal after
  | unregister {d : Dispatcher} (token : Nat) :
      DispatcherStep d (.unregister (d.unregister token false).1) (d.unregister token false).2
  | unregisterInside {d : Dispatcher} {running : Nat} (token : Nat) (calling : d.worker = .calling running)
      (free : d.insideUnregister = false) :
      DispatcherStep d (.unregister (d.unregister token true).1) (d.unregister token true).2
  | returned {d : Dispatcher} {call : DrainCall} (waiting : call ∈ d.draining) (done : d.drained call = true) :
      DispatcherStep d (.returned call) { d with draining := d.draining.erase call }
  | timedOut {d : Dispatcher} {call : DrainCall} (waiting : call ∈ d.draining) (still : d.drained call = false) :
      DispatcherStep d (.timedOut call) { d with draining := d.draining.erase call }
  | signal {d : Dispatcher} (handle : Handle) :
      DispatcherStep d .internal { d with signaled := handle :: d.signaled }
  | stop {d : Dispatcher} : DispatcherStep d .internal { d with stopping := true, wake := true }
  | exit {d : Dispatcher} (top : d.worker = .top) (stopping : d.stopping = true) :
      DispatcherStep d .internal { d with worker := .exited }
  | snapshot {d : Dispatcher} (top : d.worker = .top) (going : d.stopping = false) :
      DispatcherStep d .internal { d with
        waitSet := d.snapshot
        waitSetObservedGeneration := d.waitSetGeneration
        worker := .waiting }
  | rouse {d : Dispatcher} (waiting : d.worker = .waiting) (wake : d.wake = true) :
      DispatcherStep d .internal { d with worker := .roused }
  | resetWake {d : Dispatcher} (roused : d.worker = .roused) :
      DispatcherStep d .internal { d with wake := false, worker := .top }
  | wait {d : Dispatcher} {i : Nat} {item : WaitItem} (waiting : d.worker = .waiting) (quiet : d.wake = false)
      (here : d.waitSet[i]? = some item) (signaled : item.handle ∈ d.signaled)
      (lowest : ∀ other ∈ d.waitSet.take i, other.handle ∉ d.signaled) :
      DispatcherStep d .internal { d with worker := .woken item }
  | resetEvent {d : Dispatcher} {item : WaitItem} (woken : d.worker = .woken item) :
      DispatcherStep d .internal
        { d with signaled := d.signaled.filter (· ≠ item.handle), worker := .looking item }
  | lookup {d : Dispatcher} {item : WaitItem} (looking : d.worker = .looking item) :
      DispatcherStep d .internal { d with
        nextStartSlot := (item.slot + 1) % kMaxRegistrations
        worker := if d.hasCallback item.token then .found item.token else .top }
  | begin {d : Dispatcher} {token : Nat} (found : d.worker = .found token) :
      DispatcherStep d .internal
        { d with callbacksInFlight := d.callbacksInFlight + 1, worker := .calling token }
  | finish {d : Dispatcher} {token : Nat} (calling : d.worker = .calling token) (free : d.insideUnregister = false) :
      DispatcherStep d .internal { d with worker := .called }
  | leave {d : Dispatcher} (called : d.worker = .called) :
      DispatcherStep d .internal { d with callbacksInFlight := d.callbacksInFlight - 1, worker := .top }

/-- The token whose event the worker handles or whose callback it runs. -/
def Worker.token : Worker → Option Nat
  | .woken item | .looking item => some item.token
  | .found token | .calling token => some token
  | _ => none

/-- Nothing of `token` is waited on, running or about to run. -/
structure Gone (d : Dispatcher) (token : Nat) : Prop where
  waitSet : ∀ item ∈ d.waitSet, item.token ≠ token
  callback : d.worker.token ≠ some token

/-- `call` was made after its token was given out. -/
def Cancelled (labels : List DrainLabel) (call : DrainCall) : Prop :=
  ∃ before after, labels = before ++ .unregister call :: after ∧ .registered call.token ∈ before

/-- After a return the token is gone, and a call from inside a callback has returned or still can. -/
structure Drains (labels : List DrainLabel) (d : Dispatcher) : Prop where
  gone : ∀ call, Cancelled labels call → .returned call ∈ labels → Gone d call.token
  inside : ∀ call, .unregister call ∈ labels → call.fromWorker = true →
    .returned call ∈ labels ∨ ∃ later after, Run DispatcherStep d later after ∧ .returned call ∈ later

/-- Tokens in the table are distinct and older than `next`; free slots have token 0. -/
structure Table (entries : List Entry) (next : Nat) : Prop where
  older : ∀ entry ∈ entries, entry.token < next
  distinct : entries.Pairwise fun a b => a.token = b.token → a.token = 0

theorem initial_table : Table initial.entries 1 := by
  constructor
  · intro entry member
    rw [List.eq_of_mem_replicate member]
    decide
  · exact List.pairwise_of_forall_mem_list fun a member _ _ _ => by rw [List.eq_of_mem_replicate member]

theorem pairwise_set {α : Type} {R : α → α → Prop} {xs : List α} {i : Nat} {x : α} (pairwise : xs.Pairwise R)
    (before : ∀ y ∈ xs, R y x) (after : ∀ y ∈ xs, R x y) : (xs.set i x).Pairwise R := by
  induction pairwise generalizing i with
  | nil => exact .nil
  | @cons y ys apart pairwise ih =>
    rw [List.forall_mem_cons] at before after
    cases i with
    | zero => exact .cons after.2 pairwise
    | succ i =>
      refine .cons (fun z member => ?_) (ih before.2 after.2)
      rcases List.mem_or_eq_of_mem_set member with old | rfl
      · exact apart z old
      · exact before.1

theorem Table.set {entries : List Entry} {next next' slot : Nat} {entry : Entry} (table : Table entries next)
    (grown : next ≤ next') (older : entry.token < next') (fresh : entry.token = 0 ∨ next ≤ entry.token) :
    Table (entries.set slot entry) next' := by
  constructor
  · intro other member
    rcases List.mem_or_eq_of_mem_set member with old | rfl
    · exact Nat.lt_of_lt_of_le (table.older other old) grown
    · exact older
  · refine pairwise_set table.distinct (fun other member same => ?_) fun other member same => ?_
    · have := table.older other member
      omega
    · have := table.older other member
      omega

theorem Table.cleared {entries : List Entry} {next token : Nat} (table : Table entries next) (positive : 0 < next) :
    Table (cleared entries token) next := by
  unfold Dispatcher.cleared
  split
  · exact table.set (Nat.le_refl _) positive (.inl rfl)
  · exact table

/-- Clearing frees the only slot that can have the token. -/
theorem Table.cleared_ne {entries : List Entry} {next token : Nat} (table : Table entries next) (issued : 0 < token) :
    ∀ entry ∈ Dispatcher.cleared entries token, entry.token ≠ token := by
  unfold Dispatcher.cleared
  split
  · rename_i slot found
    obtain ⟨lt, here, _⟩ := List.findIdx?_eq_some_iff_getElem.mp found
    have here : entries[slot].token = token := by simpa using here
    intro entry member same
    obtain ⟨i, at_i⟩ := List.mem_iff_getElem?.mp member
    rcases eq_or_ne slot i with rfl | differs
    · rw [List.getElem?_set_self lt] at at_i
      obtain rfl := Option.some.inj at_i
      exact absurd same (Nat.ne_of_lt issued)
    · rw [List.getElem?_set_ne differs] at at_i
      obtain ⟨lt', rfl⟩ := List.getElem?_eq_some_iff.mp at_i
      rcases Nat.lt_or_gt_of_ne differs with lower | higher
      · have := List.pairwise_iff_getElem.mp table.distinct slot i lt lt' lower (here.trans same.symm)
        omega
      · have := List.pairwise_iff_getElem.mp table.distinct i slot lt' lt higher (same.trans here.symm)
        omega
  · rename_i none
    intro entry member same
    have := List.findIdx?_eq_none_iff.mp none entry member
    simp [same] at this

theorem mem_cleared {entries : List Entry} {token : Nat} {entry : Entry} (member : entry ∈ cleared entries token) :
    entry ∈ entries ∨ entry = {} := by
  unfold Dispatcher.cleared at member
  split at member
  · exact List.mem_or_eq_of_mem_set member
  · exact .inl member

theorem mem_snapshot {d : Dispatcher} {item : WaitItem} (member : item ∈ d.snapshot) :
    ∃ entry ∈ d.entries, entry.token = item.token := by
  obtain ⟨offset, _, found⟩ := List.mem_filterMap.mp member
  simp only at found
  split at found
  · rename_i here
    obtain rfl := Option.some.inj found
    exact ⟨_, List.mem_of_getElem? here, rfl⟩
  · cases found

structure Consistent (labels : List DrainLabel) (d : Dispatcher) : Prop where
  issued : ∀ token, .registered token ∈ labels → 0 < token ∧ token < d.nextToken
  started : 0 < d.nextToken
  table : Table d.entries d.nextToken
  observed : d.waitSetObservedGeneration ≤ d.waitSetGeneration
  held : ∀ token, d.worker.token = some token → ∃ item ∈ d.waitSet, item.token = token
  cancelled : ∀ call, Cancelled labels call → (∀ entry ∈ d.entries, entry.token ≠ call.token) ∧
    0 < call.token ∧ call.token < d.nextToken ∧ call.generation ≤ d.waitSetGeneration ∧
    (call.generation ≤ d.waitSetObservedGeneration → ∀ item ∈ d.waitSet, item.token ≠ call.token)
  returned : ∀ call, .returned call ∈ labels → call.generation ≤ d.waitSetObservedGeneration ∧ call.fromWorker = false
  inside : ∀ call ∈ d.draining, call.fromWorker = true →
    (∃ token, d.worker = .calling token) ∧ d.waitSetObservedGeneration < call.generation

theorem Cancelled.snoc {labels : List DrainLabel} {label : DrainLabel} {call : DrainCall}
    (cancelled : Cancelled (labels ++ [label]) call) :
    Cancelled labels call ∨ (label = .unregister call ∧ .registered call.token ∈ labels) := by
  obtain ⟨before, after, split, issued⟩ := cancelled
  rcases List.eq_nil_or_concat after with rfl | ⟨init, last, rfl⟩
  · obtain ⟨rfl, rfl⟩ := List.append_inj' split rfl |>.imp id List.singleton_inj.mp
    exact .inr ⟨rfl, issued⟩
  · rw [List.concat_eq_append, ← List.cons_append, ← List.append_assoc] at split
    obtain ⟨rfl, _⟩ := List.append_inj' split rfl
    exact .inl ⟨before, init, rfl, issued⟩

theorem Cancelled.old {labels : List DrainLabel} {label : DrainLabel} {call : DrainCall}
    (cancelled : Cancelled (labels ++ [label]) call) (other : label ≠ .unregister call) : Cancelled labels call :=
  cancelled.snoc.resolve_right fun last => other last.1

theorem initial_consistent : Consistent [] initial := by
  refine ⟨nofun, Nat.zero_lt_one, initial_table, Nat.le_refl _, nofun, ?_, nofun, nofun⟩
  rintro call ⟨before, after, split, _⟩
  cases List.append_ne_nil_of_right_ne_nil _ (List.cons_ne_nil _ _) split.symm

variable {labels : List DrainLabel} {d after : Dispatcher} {label : DrainLabel}

/-- A step that touches neither the table nor the generations nor the wait set. -/
theorem Consistent.quiet (consistent : Consistent labels d) (entries : after.entries = d.entries)
    (next : after.nextToken = d.nextToken) (generation : after.waitSetGeneration = d.waitSetGeneration)
    (observed : after.waitSetObservedGeneration = d.waitSetObservedGeneration) (waitSet : after.waitSet = d.waitSet)
    (draining : after.draining = d.draining)
    (held : ∀ token, after.worker.token = some token → ∃ item ∈ d.waitSet, item.token = token)
    (inside : d.insideUnregister = true → after.worker = d.worker) : Consistent (labels ++ [.internal]) after := by
  constructor
  · intro token issued
    rw [next]
    exact consistent.issued token (by simpa using issued)
  · rw [next]
    exact consistent.started
  · rw [entries, next]
    exact consistent.table
  · rw [observed, generation]
    exact consistent.observed
  · rw [waitSet]
    exact held
  · intro call cancelled
    rw [entries, next, generation, observed, waitSet]
    exact consistent.cancelled call (cancelled.old nofun)
  · intro call returned
    rw [observed]
    exact consistent.returned call (by simpa using returned)
  · intro call member fromWorker
    rw [draining] at member
    rw [observed, inside (List.any_eq_true.mpr ⟨call, member, fromWorker⟩)]
    exact consistent.inside call member fromWorker

theorem Consistent.not_inside (consistent : Consistent labels d) (elsewhere : ∀ token, d.worker ≠ .calling token) :
    d.insideUnregister = true → after.worker = d.worker := by
  intro inside
  obtain ⟨call, member, fromWorker⟩ := List.any_eq_true.mp inside
  obtain ⟨⟨token, calling⟩, _⟩ := consistent.inside call member fromWorker
  exact absurd calling (elsewhere token)

theorem Consistent.register (consistent : Consistent labels d) {handle : Handle} {token : Nat}
    (placed : d.registerArtifactEvent handle = (some token, after)) :
    Consistent (labels ++ [.registered token]) after := by
  unfold registerArtifactEvent at placed
  split at placed
  · rename_i slot free
    cases placed
    constructor
    · intro token issued
      rcases List.mem_append.mp issued with old | last
      · have := consistent.issued token old
        exact ⟨this.1, Nat.lt_succ_of_lt this.2⟩
      · cases List.mem_singleton.mp last
        exact ⟨consistent.started, Nat.lt_succ_self _⟩
    · exact Nat.succ_pos _
    · exact consistent.table.set (Nat.le_succ _) (Nat.lt_succ_self _) (.inr (Nat.le_refl _))
    · exact Nat.le_succ_of_le consistent.observed
    · exact consistent.held
    · intro call cancelled
      obtain ⟨absent, positive, older, made, clear⟩ := consistent.cancelled call (cancelled.old nofun)
      refine ⟨fun entry member => ?_, positive, Nat.lt_succ_of_lt older, Nat.le_succ_of_le made, clear⟩
      rcases List.mem_or_eq_of_mem_set member with old | rfl
      · exact absent entry old
      · exact Nat.ne_of_gt older
    · exact fun call returned => consistent.returned call (by simpa using returned)
    · exact consistent.inside
  · cases placed

theorem Consistent.full (consistent : Consistent labels d) {handle : Handle}
    (refused : d.registerArtifactEvent handle = (none, after)) : Consistent (labels ++ [.internal]) after := by
  unfold registerArtifactEvent at refused
  split at refused
  · cases refused
  · cases refused
    constructor
    · intro token issued
      have := consistent.issued token (by simpa using issued)
      exact ⟨this.1, Nat.lt_succ_of_lt this.2⟩
    · exact Nat.succ_pos _
    · exact ⟨fun entry member => Nat.lt_succ_of_lt (consistent.table.older entry member), consistent.table.distinct⟩
    · exact consistent.observed
    · exact consistent.held
    · intro call cancelled
      obtain ⟨absent, positive, older, made, clear⟩ := consistent.cancelled call (cancelled.old nofun)
      exact ⟨absent, positive, Nat.lt_succ_of_lt older, made, clear⟩
    · exact fun call returned => consistent.returned call (by simpa using returned)
    · exact consistent.inside

theorem Consistent.unregister (consistent : Consistent labels d) (token : Nat) (fromWorker : Bool)
    (calling : fromWorker = true → ∃ running, d.worker = .calling running) :
    Consistent (labels ++ [.unregister (d.unregister token fromWorker).1]) (d.unregister token fromWorker).2 := by
  constructor
  · exact fun token issued => consistent.issued token (by simpa using issued)
  · exact consistent.started
  · exact consistent.table.cleared consistent.started
  · exact Nat.le_succ_of_le consistent.observed
  · exact consistent.held
  · intro call cancelled
    rcases cancelled.snoc with old | ⟨last, issued⟩
    · obtain ⟨absent, positive, older, made, clear⟩ := consistent.cancelled call old
      refine ⟨fun entry member => ?_, positive, older, Nat.le_succ_of_le made, clear⟩
      rcases mem_cleared member with old | rfl
      · exact absent entry old
      · exact Nat.ne_of_lt positive
    · cases last
      obtain ⟨positive, older⟩ := consistent.issued token issued
      refine ⟨consistent.table.cleared_ne positive, positive, older, Nat.le_refl _, fun reached => ?_⟩
      exact absurd (Nat.le_trans reached consistent.observed) (Nat.not_succ_le_self _)
  · exact fun call returned => consistent.returned call (by simpa using returned)
  · intro call member inside
    rcases List.mem_cons.mp member with rfl | member
    · exact ⟨calling inside, Nat.lt_succ_of_le consistent.observed⟩
    · exact consistent.inside call member inside

theorem Consistent.leaves (consistent : Consistent labels d) {call : DrainCall}
    (ended : label = .returned call ∧ d.drained call = true ∧ call ∈ d.draining ∨ label = .timedOut call) :
    Consistent (labels ++ [label]) { d with draining := d.draining.erase call } := by
  have quiet : ∀ token, label ≠ .registered token := by rcases ended with ⟨rfl, _⟩ | rfl <;> nofun
  have apart : ∀ other, label ≠ .unregister other := by rcases ended with ⟨rfl, _⟩ | rfl <;> nofun
  constructor
  · intro token issued
    rcases List.mem_append.mp issued with old | last
    · exact consistent.issued token old
    · exact absurd (List.mem_singleton.mp last).symm (quiet token)
  · exact consistent.started
  · exact consistent.table
  · exact consistent.observed
  · exact consistent.held
  · exact fun other cancelled => consistent.cancelled other (cancelled.old (apart other))
  · intro other returned
    rcases List.mem_append.mp returned with old | last
    · exact consistent.returned other old
    · rcases ended with ⟨rfl, done, waiting⟩ | rfl
      · cases List.mem_singleton.mp last
        obtain ⟨reached, _⟩ := of_decide_eq_true done
        refine ⟨reached, Bool.eq_false_iff.mpr fun inside => ?_⟩
        exact absurd reached (Nat.not_le.mpr (consistent.inside call waiting inside).2)
      · cases List.mem_singleton.mp last
  · exact fun other member => consistent.inside other (List.mem_of_mem_erase member)

theorem Consistent.snapshot (consistent : Consistent labels d) (top : d.worker = .top) :
    Consistent (labels ++ [.internal]) { d with
      waitSet := d.snapshot
      waitSetObservedGeneration := d.waitSetGeneration
      worker := .waiting } := by
  constructor
  · exact fun token issued => consistent.issued token (by simpa using issued)
  · exact consistent.started
  · exact consistent.table
  · exact Nat.le_refl _
  · nofun
  · intro call cancelled
    obtain ⟨absent, positive, older, made, _⟩ := consistent.cancelled call (cancelled.old nofun)
    refine ⟨absent, positive, older, made, fun _ item member same => ?_⟩
    obtain ⟨entry, here, token⟩ := mem_snapshot member
    exact absent entry here (token.trans same)
  · intro call returned
    obtain ⟨reached, outside⟩ := consistent.returned call (by simpa using returned)
    exact ⟨Nat.le_trans reached consistent.observed, outside⟩
  · intro call member fromWorker
    obtain ⟨⟨token, calling⟩, _⟩ := consistent.inside call member fromWorker
    rw [top] at calling
    cases calling

theorem DispatcherStep.consistent (step : DispatcherStep d label after) (consistent : Consistent labels d) :
    Consistent (labels ++ [label]) after := by
  cases step with
  | register handle placed => exact consistent.register placed
  | full handle refused => exact consistent.full refused
  | unregister token => exact consistent.unregister token false nofun
  | unregisterInside token calling free => exact consistent.unregister token true fun _ => ⟨_, calling⟩
  | returned waiting done => exact consistent.leaves (.inl ⟨rfl, done, waiting⟩)
  | timedOut waiting still => exact consistent.leaves (.inr rfl)
  | signal handle => exact consistent.quiet rfl rfl rfl rfl rfl rfl consistent.held fun _ => rfl
  | stop => exact consistent.quiet rfl rfl rfl rfl rfl rfl consistent.held fun _ => rfl
  | exit top stopping =>
    exact consistent.quiet rfl rfl rfl rfl rfl rfl nofun (consistent.not_inside (by simp [top]))
  | snapshot top going => exact consistent.snapshot top
  | rouse waiting wake =>
    exact consistent.quiet rfl rfl rfl rfl rfl rfl nofun (consistent.not_inside (by simp [waiting]))
  | resetWake roused =>
    exact consistent.quiet rfl rfl rfl rfl rfl rfl nofun (consistent.not_inside (by simp [roused]))
  | @wait i item waiting quiet here signaled lowest =>
    refine consistent.quiet rfl rfl rfl rfl rfl rfl ?_ (consistent.not_inside (by simp [waiting]))
    exact fun token same => ⟨item, List.mem_of_getElem? here, Option.some.inj same⟩
  | resetEvent woken =>
    refine consistent.quiet rfl rfl rfl rfl rfl rfl ?_ (consistent.not_inside (by simp [woken]))
    exact fun token same => consistent.held token (woken ▸ same)
  | @lookup item looking =>
    refine consistent.quiet rfl rfl rfl rfl rfl rfl ?_ (consistent.not_inside (by simp [looking]))
    intro token same
    dsimp only at same
    split at same
    · exact consistent.held token (looking ▸ same)
    · cases same
  | begin found =>
    refine consistent.quiet rfl rfl rfl rfl rfl rfl ?_ (consistent.not_inside (by simp [found]))
    exact fun token same => consistent.held token (found ▸ same)
  | finish calling free =>
    exact consistent.quiet rfl rfl rfl rfl rfl rfl nofun fun inside => absurd inside (by simp [free])
  | leave called =>
    exact consistent.quiet rfl rfl rfl rfl rfl rfl nofun (consistent.not_inside (by simp [called]))

theorem consistent_run (run : Run DispatcherStep initial labels d) : Consistent labels d :=
  run.history initial_consistent fun _ _ _ _ _ consistent step => step.consistent consistent

theorem Consistent.gone (consistent : Consistent labels d) {call : DrainCall} (cancelled : Cancelled labels call)
    (returned : .returned call ∈ labels) : Gone d call.token := by
  have clear := (consistent.cancelled call cancelled).2.2.2.2 (consistent.returned call returned).1
  refine ⟨clear, fun running => ?_⟩
  obtain ⟨item, member, same⟩ := consistent.held call.token running
  exact clear item member same

/-- A call from inside a callback waits for a generation that its own thread would have to publish. -/
theorem inside_never_returns (run : Run DispatcherStep initial labels d) {call : DrainCall}
    (inside : call.fromWorker = true) : .returned call ∉ labels := by
  intro returned
  have outside := ((consistent_run run).returned call returned).2
  simp [inside] at outside

theorem unregister_drains (run : Run DispatcherStep initial labels d) :
    Drains labels d ↔ ∀ call, .unregister call ∈ labels → call.fromWorker = false := by
  constructor
  · intro drains call called
    refine Bool.eq_false_iff.mpr fun inside => ?_
    rcases drains.inside call called inside with returned | ⟨later, after, further, returned⟩
    · exact inside_never_returns run inside returned
    · exact inside_never_returns (run.append further) inside (List.mem_append_right _ returned)
  · intro outside
    refine ⟨fun call => (consistent_run run).gone, fun call called inside => ?_⟩
    simp [outside call called] at inside

/-- Registered, waited on, removed by another thread and drained. -/
theorem unregister_drains_outside : Drains
    [.registered 1, .internal, .unregister ⟨1, 2, false⟩, .internal, .internal, .internal, .returned ⟨1, 2, false⟩]
    { initial with
      nextToken := 2, waitSetGeneration := 2, waitSetObservedGeneration := 2, worker := .waiting } := by
  have registered : Run DispatcherStep initial [.registered 1] (initial.registerArtifactEvent 7).2 :=
    .one (.register 7 rfl)
  have waiting := registered.next (.snapshot rfl rfl)
  have removed := waiting.next (.unregister 1)
  have again := ((removed.next (.rouse rfl rfl)).next (.resetWake rfl)).next (.snapshot rfl rfl)
  have returned := again.next (.returned List.mem_cons_self (by decide))
  have outside : ∀ call, .unregister call ∈ [DrainLabel.registered 1, .internal, .unregister ⟨1, 2, false⟩, .internal,
      .internal, .internal, .returned ⟨1, 2, false⟩] → call.fromWorker = false := by simp
  exact (unregister_drains returned).mpr outside

/-- A callback that unregisters its own token. -/
theorem callback_unregisters : ¬∀ (labels : List DrainLabel) (d : Dispatcher),
    Run DispatcherStep initial labels d → Drains labels d := by
  intro always
  have registered : Run DispatcherStep initial [.registered 1] (initial.registerArtifactEvent 7).2 :=
    .one (.register 7 rfl)
  have signaled := ((registered.next (.signal 7)).next (.snapshot rfl rfl)).next (.rouse rfl rfl)
  have waiting := (signaled.next (.resetWake rfl)).next (.snapshot rfl rfl)
  have woken := waiting.next (.wait (i := 0) rfl rfl rfl List.mem_cons_self nofun)
  have calling := ((woken.next (.resetEvent rfl)).next (.lookup rfl)).next (.begin rfl)
  have run := calling.next (.unregisterInside 1 rfl rfl)
  rcases (always _ _ run).inside _ (List.mem_append_right _ List.mem_cons_self) rfl with
    returned | ⟨later, after, further, returned⟩
  · exact inside_never_returns run rfl returned
  · exact inside_never_returns (run.append further) rfl (List.mem_append_right _ returned)

end LasecSimul.Vnext
