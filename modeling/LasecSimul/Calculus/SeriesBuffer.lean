import Mathlib.Algebra.Order.Field.Basic
import Mathlib.Data.List.Perm.Basic
import Mathlib.Tactic.Ring

/-!
The series buffer of the calculus laboratory: columns that grow by deltas, the flow `q` and the events that are derived
while they grow. A reading is `none` where the column holds NaN.
-/

namespace LasecSimul.Calculus

variable {K : Type} [Field K] [LinearOrder K]

inductive DerivedEventKind where
  | spill | boundaryUpper | boundaryLower
  deriving DecidableEq

inductive EventKind where
  | recorded (kind : String)
  | derived (kind : DerivedEventKind)
  deriving DecidableEq

structure BufferEvent (K : Type) where
  tS : K
  kind : EventKind
  name : Option String := none
  value : Option K := none
  volume : Option (Option K) := none
  deriving DecidableEq

structure LabSeriesEvent (K : Type) where
  tS : K
  kind : String
  name : Option String
  value : Option K

/-- One row of a delta, its values under the names of the columns. -/
structure Row (K : Type) where
  t : K
  values : String → K

structure LabSeriesDelta (K : Type) where
  reset : Bool
  generation : Int
  columns : List String
  rows : List (Row K)
  events : List (LabSeriesEvent K)
  lost : ℕ

abbrev Column (K : Type) := ℕ → Option K

/-- `capacity` is the length of every array. -/
structure SeriesBuffer (K : Type) where
  derivedQ : Bool
  capacity : ℕ
  times : ℕ → K
  data : String → Option (Column K)
  size : ℕ
  events : List (BufferEvent K)
  generation : Int
  revision : ℕ
  lostRows : ℕ

namespace SeriesBuffer

/-- `new SeriesBuffer()` -/
def empty : SeriesBuffer K where
  derivedQ := true
  capacity := 1024
  times _ := 0
  data _ := none
  size := 0
  events := []
  generation := -1
  revision := 0
  lostRows := 0

variable (b : SeriesBuffer K)

def col (column : String) : Except String (Column K) :=
  match b.data column with
  | some values => .ok values
  | none => .error s!"coluna ausente: {column}"

def clear : SeriesBuffer K := { b with size := 0, events := [], lostRows := 0, revision := b.revision + 1 }

/-- `capacity *= 2` while it is below `rows`. -/
def doubled (rows capacity : ℕ) : ℕ :=
  if 0 < capacity ∧ capacity < rows then doubled rows (capacity * 2) else capacity
termination_by rows - capacity

def reserve (rows : ℕ) : SeriesBuffer K :=
  if rows ≤ b.capacity then b
  else
    { b with
      capacity := doubled rows b.capacity
      times := fun i => if i < b.size then b.times i else 0
      data := fun column => (b.data column).map fun values i => if i < b.size then values i else some 0 }

/-- `array.set(values, start)` -/
def put {α : Type} (array : ℕ → α) (values : List α) (start i : ℕ) : α :=
  if i < start then array i else (values[i - start]?).getD (array i)

def diff (values : Column K) (i : ℕ) : Option K := do return (← values i) - (← values (i - 1))

def positive : Option K → Bool
  | some x => decide (0 < x)
  | none => false

/-- The change of `cumSpill` at a row. -/
def spillEvent (i : ℕ) : List (BufferEvent K) :=
  match b.data "cumSpill" with
  | some spill =>
    if spill i = none ∨ spill i ≠ spill (i - 1) then
      [{ tS := b.times i, kind := .derived .spill, volume := some (diff spill i) }]
    else []
  | none => []

/-- A change of the contact instant, or the onset of the flow where no contact is recorded. -/
def boundaryEvent (contact flow : String) (kind : DerivedEventKind) (i : ℕ) : List (BufferEvent K) :=
  match b.data contact with
  | some instants =>
    match instants i with
    | some x => if 0 ≤ x ∧ instants i ≠ instants (i - 1) then [{ tS := x, kind := .derived kind }] else []
    | none => []
  | none =>
    match b.data flow with
    | some flows =>
      if positive (flows i) ∧ ¬positive (flows (i - 1)) then [{ tS := b.times i, kind := .derived kind }] else []
    | none => []

/-- The events of a change of one kind from the row before. -/
def changeEvent (i : ℕ) : DerivedEventKind → List (BufferEvent K)
  | .spill => b.spillEvent i
  | .boundaryUpper => b.boundaryEvent "upperContact" "overflow" .boundaryUpper i
  | .boundaryLower => b.boundaryEvent "lowerContact" "unmet" .boundaryLower i

/-- The row is later than the one before it. -/
def Later (i : ℕ) : Prop := i ≠ 0 ∧ b.times (i - 1) < b.times i

instance (i : ℕ) : Decidable (b.Later i) := inferInstanceAs (Decidable (_ ∧ _))

def rowEvents (i : ℕ) : List (BufferEvent K) :=
  if b.Later i then b.changeEvent i .spill ++ b.changeEvent i .boundaryUpper ++ b.changeEvent i .boundaryLower else []

def rate (cumIn cumOut cumOverflow : Column K) (i : ℕ) : Option K :=
  if b.Later i then do
    return ((← diff cumIn i) - (← diff cumOut i) - (← diff cumOverflow i)) / (b.times i - b.times (i - 1))
  else none

/-- The rows from `start` on, with their flow and events. -/
def derived (start : ℕ) (cumIn cumOut cumOverflow q : Column K) : SeriesBuffer K :=
  let flow := fun i => if start ≤ i ∧ i < b.size then b.rate cumIn cumOut cumOverflow i else q i
  { b with
    data := fun column => if column = "q" then some flow else b.data column
    events := (b.events ++ (List.range' start (b.size - start)).flatMap b.rowEvents).mergeSort fun x y => x.tS ≤ y.tS }

theorem derived_data {b : SeriesBuffer K} {start : ℕ} {cumIn cumOut cumOverflow q : Column K} {column : String}
    (other : column ≠ "q") : (b.derived start cumIn cumOut cumOverflow q).data column = b.data column := by
  simp only [derived, if_neg other]

theorem derived_q {b : SeriesBuffer K} {start : ℕ} {cumIn cumOut cumOverflow q : Column K} :
    (b.derived start cumIn cumOut cumOverflow q).data "q" =
      some fun i => if start ≤ i ∧ i < b.size then b.rate cumIn cumOut cumOverflow i else q i := by
  simp only [derived, if_pos]

def derive (start : ℕ) : Except String (SeriesBuffer K) := do
  return b.derived start (← b.col "cumIn") (← b.col "cumOut") (← b.col "cumOverflow") (← b.col "q")

/-- The rows and events of a delta at the end of the arrays. -/
def append (delta : LabSeriesDelta K) : SeriesBuffer K :=
  { b with
    times := put b.times (delta.rows.map Row.t) b.size
    data := fun column =>
      if column ∈ delta.columns then
        (b.data column).map fun values => put values (delta.rows.map fun row => some (row.values column)) b.size
      else b.data column
    size := b.size + delta.rows.length
    events := b.events ++ delta.events.map fun event => ⟨event.tS, .recorded event.kind, event.name, event.value, none⟩ }

/-- The columns a delta fills. -/
def columnsOf (delta : LabSeriesDelta K) : List String :=
  if b.derivedQ ∧ "cumIn" ∈ delta.columns then delta.columns ++ ["q"] else delta.columns

/-- The buffer with room for the columns of a delta, cleared where a generation starts. -/
def prepare (delta : LabSeriesDelta K) : SeriesBuffer K :=
  let b := if delta.reset ∨ delta.generation ≠ b.generation then { b.clear with generation := delta.generation } else b
  { b with
    lostRows := b.lostRows + delta.lost
    data := fun column => (b.data column).or (if column ∈ b.columnsOf delta then some fun _ => some 0 else none) }

def ingest (delta : LabSeriesDelta K) : Except String (SeriesBuffer K) :=
  let start := (b.prepare delta).size
  let b := ((b.prepare delta).reserve (start + delta.rows.length)).append delta
  (if "q" ∈ b.columnsOf delta then b.derive start else .ok b).map fun b => { b with revision := b.revision + 1 }

/-- The first index from `lo` with a time after `x`. -/
def upperBoundFrom (x : K) (lo hi : ℕ) : ℕ :=
  if lo < hi then
    if b.times ((lo + hi) / 2) ≤ x then upperBoundFrom x ((lo + hi) / 2 + 1) hi else upperBoundFrom x lo ((lo + hi) / 2)
  else lo
termination_by hi - lo

def upperBound (x : K) : ℕ := b.upperBoundFrom x 0 b.size

/-- One row of `stepIntegral`. -/
def integrateRow (values : Column K) (x y : K) (k : ℕ) (sum : K) : K :=
  match values k with
  | none => sum
  | some v =>
    let lo := max x (b.times (k - 1))
    let hi := min y (b.times k)
    if lo < hi then sum + v * (hi - lo) else sum

/-- The loop of `stepIntegral` from row `k`, with `rows` rows to go. -/
def integrateFrom (values : Column K) (x y : K) : (rows k : ℕ) → K → K
  | 0, _, sum => sum
  | rows + 1, k, sum =>
    if b.times (k - 1) < y then integrateFrom values x y rows (k + 1) (b.integrateRow values x y k sum) else sum

def stepIntegral (column : String) (x y : K) : Except String K := do
  let values ← b.col column
  let k := max 1 (b.upperBound x)
  return b.integrateFrom values x y (b.size - k) k 0

def spillsBetween (x y : K) : Option K :=
  (b.events.filter fun event => event.kind = .derived .spill ∧ x < event.tS ∧ event.tS ≤ y).foldl
    (fun sum event => do return (← sum) + (← event.volume.getD (some 0))) (some 0)

end SeriesBuffer

end LasecSimul.Calculus
