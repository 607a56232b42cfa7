import LasecSimul.Lib.Fold
import LasecSimul.Subsystems.External

/-!
# Hoisting of embedded copies

A component that owns a copy of an external system in `subcircuitRef.embedded` becomes an instance of a definition
of the table. `current` is the table that `hoistList` extends by side effect.
-/

namespace LasecSimul.Subsystems

open Dsl (Text units)
open Lib (threaded)

mutual

def Json.depth : Json → Nat
  | .array items => itemsDepth items + 1
  | .object fields => fieldsDepth fields + 1
  | _ => 0

def itemsDepth : List Json → Nat
  | [] => 0
  | item :: rest => max item.depth (itemsDepth rest)

def fieldsDepth : Fields → Nat
  | [] => 0
  | field :: rest => max (fieldDepth field) (fieldsDepth rest)

def fieldDepth : Text × Json → Nat
  | (_, value) => value.depth

end

def Component.depth (component : Component) : Nat := fieldsDepth component.others

def nesting (components : List Component) : Nat := (components.map Component.depth).foldr max 0

/-! ### Embedded copies -/

def subcircuitRefOf (component : Component) : Fields :=
  match valueAt (units "subcircuitRef") component.others with
  | some (.object reference) => reference
  | _ => []

/-- `component.subcircuitRef?.embedded` where it is a record. -/
def embeddedOf (component : Component) : Option Fields :=
  match valueAt (units "embedded") (subcircuitRefOf component) with
  | some (.object embedded) => some embedded
  | _ => none

def embeddedComponents (embedded : Fields) : List Component :=
  (componentsOf (valueAt (units "components") embedded)).getD []

def holdsCopies (definition : SubsystemDefinition) : Bool := definition.parts.any fun component => (embeddedOf component).isSome

structure Hoisting where
  current : List SubsystemDefinition
  migrated : Nat

def originOfCopy (oldTypeId : Text) (path : Option Text) : Fields :=
  (if isSubsystemTypeId oldTypeId then [] else [(units "typeId", .string oldTypeId)]) ++
    field (units "file") (path.map .string)

section

variable (normalizeNfkd : Text → Text) (reservedTypeIds : List Text)

/-- The definition of a copy whose components are hoisted, before it has a place in the table. -/
def definitionOfCopy (component : Component) (embedded : Fields) (components : List Component) : SubsystemDefinition :=
  let oldTypeId := ((textOf (valueAt (units "typeId") embedded)).or component.typeId).getD (units "subsistema")
  let name := match textOf (valueAt (units "name") embedded) with
    | some name => if trim name ≠ [] then name else oldTypeId
    | none => oldTypeId
  { typeId := uniqueSubsystemTypeId normalizeNfkd oldTypeId reservedTypeIds
    name
    components := some components
    others := withOrigin (originOfCopy oldTypeId (textOf (valueAt (units "path") (subcircuitRefOf component))))
      (without [units "subsystems"] (without namedKeys embedded)) }

/-- The end of the turn of `hoistList`: the definition is shared or enters the table. -/
def placeCopy (s : Hoisting) (component : Component) (embedded : Fields) (definition : SubsystemDefinition) :
    Component × Hoisting :=
  let oldTypeId := ((textOf (valueAt (units "typeId") embedded)).or component.typeId).getD (units "subsistema")
  let preferred := definition.typeId
  let equal := s.current.find? fun entry =>
    decide (canonicalJson { entry with typeId := preferred }.toJson = canonicalJson definition.toJson)
  let rest := without [units "subcircuitRef"] component.others
  match equal with
  | some equal => (⟨some equal.typeId, rest⟩, s)
  | none =>
    let typeId := if preferred ∈ typeIds s.current
      then uniqueSubsystemTypeId normalizeNfkd oldTypeId (typeIds s.current ++ reservedTypeIds)
      else preferred
    (⟨some typeId, rest⟩, { s with current := s.current ++ [{ definition with typeId }] })

/-- One turn of `hoistList`. -/
def hoistComponent : Nat → Hoisting → Component → Component × Hoisting
  | 0, s, component => (component, s)
  | fuel + 1, s, component =>
    match embeddedOf component with
    | none => (component, s)
    | some embedded =>
      let (nested, s) := threaded (hoistComponent fuel) { s with migrated := s.migrated + 1 } (embeddedComponents embedded)
      let imported := importSubsystemDefinitions normalizeNfkd s.current (manifestSubsystems embedded) reservedTypeIds false
      let definition := definitionOfCopy normalizeNfkd reservedTypeIds component embedded
        (rewriteComponentTypeIds nested imported.typeIdMap)
      placeCopy normalizeNfkd reservedTypeIds { s with current := imported.result } component embedded definition

/-- As deep as the copies of the list go. -/
def hoistList (s : Hoisting) (components : List Component) : List Component × Hoisting :=
  threaded (hoistComponent normalizeNfkd reservedTypeIds (nesting components)) s components

def hoistDefinition (s : Hoisting) (definition : SubsystemDefinition) : SubsystemDefinition × Hoisting :=
  if holdsCopies definition then
    let (components, s) := hoistList normalizeNfkd reservedTypeIds s definition.parts
    ({ definition with components := some components }, s)
  else (definition, s)

/-- `current = current.map(…)`: what the calls made of `current` is overwritten. -/
def sweep (s : Hoisting) : Hoisting :=
  let (definitions, s') := threaded (hoistDefinition normalizeNfkd reservedTypeIds) s s.current
  { s' with current := definitions }

/-- `while (changed)`. -/
def sweeps : Nat → Hoisting → Option Hoisting
  | 0, _ => none
  | fuel + 1, s => if s.current.any holdsCopies then sweeps fuel (sweep normalizeNfkd reservedTypeIds s) else some s

structure Hoisted where
  components : List Component
  table : List SubsystemDefinition
  migrated : Nat

def hoistEmbeddedSubsystems (components : List Component) (table : List SubsystemDefinition) : Option Hoisted :=
  let (components, s) := hoistList normalizeNfkd reservedTypeIds { current := table, migrated := 0 } components
  (sweeps normalizeNfkd reservedTypeIds 2 s).map fun s => ⟨components, s.current, s.migrated⟩

end

variable {component : Component} {components : List Component} {embedded : Fields} {definition : SubsystemDefinition}
  {normalizeNfkd : Text → Text} {reservedTypeIds : List Text}

theorem depth_of_valueAt {key : Text} {fields : Fields} {value : Json} (found : valueAt key fields = some value) :
    value.depth ≤ fieldsDepth fields := by
  induction fields with
  | nil => cases found
  | cons field rest ih =>
    obtain ⟨name, own⟩ := field
    rw [valueAt] at found
    rw [fieldsDepth, fieldDepth]
    split at found
    · obtain rfl := Option.some.inj found
      exact Nat.le_max_left _ _
    · exact Nat.le_trans (ih found) (Nat.le_max_right _ _)

theorem fieldsDepth_without (keys : List Text) (fields : Fields) : fieldsDepth (without keys fields) ≤ fieldsDepth fields := by
  induction fields with
  | nil => exact Nat.le_refl _
  | cons field rest ih =>
    rw [without, List.filter_cons, fieldsDepth]
    split
    · rw [fieldsDepth]
      exact max_le_max (Nat.le_refl _) ih
    · exact Nat.le_trans ih (Nat.le_max_right _ _)

theorem depth_of_item {item : Json} {items : List Json} (member : item ∈ items) : item.depth ≤ itemsDepth items := by
  induction items with
  | nil => cases member
  | cons first rest ih =>
    rw [itemsDepth]
    rcases List.mem_cons.mp member with rfl | later
    · exact Nat.le_max_left _ _
    · exact Nat.le_trans (ih later) (Nat.le_max_right _ _)

theorem depth_ofJson (item : Json) : (Component.ofJson item).depth ≤ item.depth := by
  cases item with
  | object fields =>
    rw [Json.depth]
    exact Nat.le_succ_of_le (fieldsDepth_without _ fields)
  | _ => exact Nat.zero_le _

theorem depth_of_embedded (owner : embeddedOf component = some embedded) : fieldsDepth embedded < component.depth := by
  unfold embeddedOf subcircuitRefOf at owner
  cases reference : valueAt (units "subcircuitRef") component.others with
  | none =>
    rw [reference] at owner
    cases owner
  | some value =>
    rw [reference] at owner
    cases value with
    | object fields =>
      dsimp only at owner
      have outer := depth_of_valueAt reference
      rw [Json.depth] at outer
      cases copy : valueAt (units "embedded") fields with
      | none =>
        rw [copy] at owner
        cases owner
      | some inner =>
        rw [copy] at owner
        cases inner with
        | object fields' =>
          obtain rfl := Option.some.inj owner
          have within := depth_of_valueAt copy
          rw [Json.depth] at within
          unfold Component.depth
          omega
        | _ => cases owner
    | _ => cases owner

theorem depth_of_nested (member : component ∈ embeddedComponents embedded) : component.depth < fieldsDepth embedded := by
  unfold embeddedComponents at member
  cases found : valueAt (units "components") embedded with
  | none =>
    rw [found] at member
    cases member
  | some value =>
    rw [found] at member
    cases value with
    | array items =>
      obtain ⟨item, inside, rfl⟩ := List.mem_map.mp member
      have outer := depth_of_valueAt found
      rw [Json.depth] at outer
      have here := depth_of_item inside
      have read := depth_ofJson item
      omega
    | _ => cases member

theorem depth_le_nesting (member : component ∈ components) : component.depth ≤ nesting components := by
  induction components with
  | nil => cases member
  | cons first rest ih =>
    rw [nesting, List.map_cons, List.foldr_cons]
    rcases List.mem_cons.mp member with rfl | later
    · exact Nat.le_max_left _ _
    · exact Nat.le_trans (ih later) (Nat.le_max_right _ _)

/-- The depth is never reached: more of it changes nothing. -/
theorem hoistComponent_stable {fuel fuel' : Nat} (enough : component.depth ≤ fuel) (enough' : component.depth ≤ fuel')
    (s : Hoisting) : hoistComponent normalizeNfkd reservedTypeIds fuel s component =
      hoistComponent normalizeNfkd reservedTypeIds fuel' s component := by
  induction fuel generalizing fuel' component s with
  | zero =>
    cases fuel' with
    | zero => rfl
    | succ fuel' =>
      cases owner : embeddedOf component with
      | none => rw [hoistComponent, hoistComponent, owner]
      | some embedded =>
        have := depth_of_embedded owner
        omega
  | succ fuel ih =>
    cases owner : embeddedOf component with
    | none =>
      cases fuel' with
      | zero => rw [hoistComponent, hoistComponent, owner]
      | succ fuel' => rw [hoistComponent, hoistComponent, owner]
    | some embedded =>
      have lower := depth_of_embedded owner
      cases fuel' with
      | zero => omega
      | succ fuel' =>
        have same : ∀ s, threaded (hoistComponent normalizeNfkd reservedTypeIds fuel) s (embeddedComponents embedded) =
            threaded (hoistComponent normalizeNfkd reservedTypeIds fuel') s (embeddedComponents embedded) := by
          refine Lib.threaded_congr fun nested member s => ih ?_ ?_ s
          all_goals
            have := depth_of_nested member
            omega
        rw [hoistComponent, hoistComponent, owner]
        dsimp only
        rw [same]

/-! ### No copy is left -/

theorem embeddedOf_without (typeId : Option Text) (fields : Fields) :
    embeddedOf ⟨typeId, without [units "subcircuitRef"] fields⟩ = none := by
  have hidden : valueAt (units "subcircuitRef") (without [units "subcircuitRef"] fields) = none := by
    rw [valueAt_without, if_pos (List.mem_singleton_self _)]
  rw [embeddedOf, subcircuitRefOf, hidden]
  rfl

theorem embeddedOf_placeCopy (s : Hoisting) (component : Component) (embedded : Fields) (definition : SubsystemDefinition) :
    embeddedOf (placeCopy normalizeNfkd reservedTypeIds s component embedded definition).1 = none := by
  unfold placeCopy
  dsimp only
  split
  · exact embeddedOf_without _ _
  · exact embeddedOf_without _ _

theorem embeddedOf_hoistComponent {fuel : Nat} (enough : component.depth ≤ fuel) (s : Hoisting) :
    embeddedOf (hoistComponent normalizeNfkd reservedTypeIds fuel s component).1 = none := by
  cases owner : embeddedOf component with
  | none =>
    cases fuel with
    | zero => rwa [hoistComponent]
    | succ fuel =>
      rw [hoistComponent, owner]
      exact owner
  | some embedded =>
    cases fuel with
    | zero =>
      have := depth_of_embedded owner
      omega
    | succ fuel =>
      rw [hoistComponent, owner]
      exact embeddedOf_placeCopy ..

theorem hoistComponent_none (owner : embeddedOf component = none) (fuel : Nat) (s : Hoisting) :
    hoistComponent normalizeNfkd reservedTypeIds fuel s component = (component, s) := by
  cases fuel with
  | zero => rfl
  | succ fuel => rw [hoistComponent, owner]

theorem hoistList_plain (s : Hoisting) (components : List Component) :
    ∀ component ∈ (hoistList normalizeNfkd reservedTypeIds s components).1, embeddedOf component = none := by
  unfold hoistList
  have made : ∀ component ∈ components, ∀ s, embeddedOf
      (hoistComponent normalizeNfkd reservedTypeIds (nesting components) s component).1 = none :=
    fun component member s => embeddedOf_hoistComponent (depth_le_nesting member) s
  exact Lib.mem_threaded made s

theorem hoistList_of_plain (plain : ∀ component ∈ components, embeddedOf component = none) (s : Hoisting) :
    hoistList normalizeNfkd reservedTypeIds s components = (components, s) :=
  Lib.threaded_id fun component member => hoistComponent_none (plain component member) _ s

theorem holdsCopies_eq_false : holdsCopies definition = false ↔ ∀ component ∈ definition.parts, embeddedOf component = none := by
  rw [holdsCopies, List.any_eq_false]
  refine forall_congr' fun component => forall_congr' fun _ => ?_
  rw [Bool.not_eq_true, Option.isSome_eq_false_iff, Option.isNone_iff_eq_none]

theorem sweep_plain (s : Hoisting) : (sweep normalizeNfkd reservedTypeIds s).current.any holdsCopies = false := by
  have made : ∀ definition ∈ s.current, ∀ s, holdsCopies
      (hoistDefinition normalizeNfkd reservedTypeIds s definition).1 = false := by
    intro definition _ s
    unfold hoistDefinition
    split
    · exact holdsCopies_eq_false.mpr (hoistList_plain s definition.parts)
    · next plain => exact Bool.eq_false_of_not_eq_true plain
  have all : ∀ definition ∈ (sweep normalizeNfkd reservedTypeIds s).current, holdsCopies definition = false :=
    Lib.mem_threaded made s
  rw [List.any_eq_false]
  exact fun definition member => Bool.not_eq_true _ ▸ all definition member

theorem sweeps_of_plain (fuel : Nat) {s : Hoisting} (plain : s.current.any holdsCopies = false) :
    sweeps normalizeNfkd reservedTypeIds (fuel + 1) s = some s := by
  rw [sweeps, plain]
  rfl

/-- The loop ends, and then no definition holds a copy. -/
theorem sweeps_end (s : Hoisting) : ∃ s', sweeps normalizeNfkd reservedTypeIds 2 s = some s' ∧
    s'.current.any holdsCopies = false := by
  rw [sweeps]
  split
  · exact ⟨_, sweeps_of_plain 0 (sweep_plain s), sweep_plain s⟩
  · next plain => exact ⟨s, rfl, Bool.eq_false_of_not_eq_true plain⟩

end LasecSimul.Subsystems

/-!
## Meaning of embedded copies

The expansion of a component with a copy of its own is the expansion of the copy's main diagram in the copy's own
table. `Hoisted` says what a turn of `hoistList` gives for a component.
-/

namespace LasecSimul.Subsystems

open Dsl (Text units)
open Lib (OrderedMap threaded)
open Lib.Unfolding (System Tree Bisimulation)

/-- A definition with the table that its references mean. -/
abbrev Scoped := List SubsystemDefinition × SubsystemDefinition

def mainOf (embedded : Fields) : SubsystemDefinition where
  typeId := []
  name := []
  components := some (embeddedComponents embedded)
  others := without namedKeys embedded

/-- The fields of an instance, without the copy. -/
def Component.own (component : Component) : Content :=
  contentOf (without [units "typeId"] (without [units "subcircuitRef"] component.others))

def target (table : List SubsystemDefinition) (component : Component) : Content × (Scoped ⊕ Option Text) :=
  match embeddedOf component with
  | some embedded => (component.own, .inl (manifestSubsystems embedded, mainOf embedded))
  | none => (component.content, (resolve table component.typeId).map (table, ·) id)

def copyDiagrams : System Scoped Content Content (Option Text) where
  content node := node.2.content
  parts node := node.2.parts.map (target node.1)

/-- The expansion where some components own copies. -/
def copyExpansion (table : List SubsystemDefinition) (depth : Nat) (definition : SubsystemDefinition) :
    Tree Content Content (Option Text) := copyDiagrams.unfold depth (table, definition)

def Plain (definition : SubsystemDefinition) : Prop := ∀ component ∈ definition.parts, embeddedOf component = none

def PlainTable (table : List SubsystemDefinition) : Prop := ∀ definition ∈ table, Plain definition

variable {table table' : List SubsystemDefinition} {definition entry : SubsystemDefinition} {component : Component}
  {embedded : Fields}

theorem target_none (owner : embeddedOf component = none) (table : List SubsystemDefinition) :
    target table component = (component.content, (resolve table component.typeId).map (table, ·) id) := by
  rw [target, owner]

theorem target_some (owner : embeddedOf component = some embedded) (table : List SubsystemDefinition) :
    target table component = (component.own, .inl (manifestSubsystems embedded, mainOf embedded)) := by
  rw [target, owner]

theorem resolve_inl {typeId : Option Text} (found : resolve table typeId = .inl definition) : definition ∈ table := by
  unfold resolve at found
  split at found
  · next there =>
    cases found
    obtain ⟨id, _, known⟩ := Option.bind_eq_some_iff.mp there
    exact (definitionOf_some known).1
  · cases found

/-- Without copies it is the expansion of before. -/
theorem copyExpansion_of_plain (plain : PlainTable table) (own : Plain definition) (depth : Nat) :
    copyExpansion table depth definition = expansion table depth definition := by
  have bisimulation : Bisimulation copyDiagrams (diagrams table)
      (fun node definition => node = (table, definition) ∧ Plain definition) := by
    constructor
    · rintro _ definition ⟨rfl, _⟩
      rfl
    · rintro _ definition ⟨rfl, own⟩
      change List.Forall₂ _ (definition.parts.map (target table)) (definition.parts.map _)
      rw [List.forall₂_map_left_iff, List.forall₂_map_right_iff, List.forall₂_same]
      intro component member
      rw [target_none (own component member)]
      refine ⟨rfl, ?_⟩
      dsimp only
      cases found : resolve table component.typeId with
      | inl other => exact .inl ⟨rfl, plain other (resolve_inl found)⟩
      | inr typeId => exact .inr rfl
  exact bisimulation.unfold_eq depth ⟨rfl, own⟩

/-- A table whose references stay inside it and that holds no copies. -/
structure Ready (table : List SubsystemDefinition) : Prop where
  document : DocumentTable table
  closed : ∀ definition ∈ table, ClosedIn table definition
  plain : PlainTable table

theorem typeIds_mono (grows : table <+: table') : typeIds table ⊆ typeIds table' := List.map_subset _ grows.subset

theorem Ready.carries (ready : Ready table) (document : DocumentTable table') (grows : table <+: table') {typeId : Text}
    (root : ∀ used ∈ dependenciesOf table' typeId, used ∈ typeIds table) : Carries table' typeId table where
  inside := grows.subset
  distinct := ready.document.distinct
  root := root
  closed := by
    intro user member used uses
    obtain ⟨definition, found, refers, known⟩ := mem_dependenciesOf.mp uses
    obtain ⟨entry, inside, rfl⟩ := List.mem_map.mp member
    rw [definitionOf_mem document.distinct (grows.subset inside)] at found
    obtain rfl := Option.some.inj found
    exact ready.closed _ inside used refers (document.named used known)

/-- A definition whose references stay inside of the table means the same in a longer one. -/
theorem Ready.expansion_grows (ready : Ready table) (document : DocumentTable table') (grows : table <+: table')
    (own : ClosedIn table definition) (depth : Nat) : expansion table' depth definition = expansion table depth definition := by
  have carries : Carries table' [] table := ready.carries document grows (by
    intro used uses
    obtain ⟨definition, found, _, _⟩ := mem_dependenciesOf.mp uses
    obtain ⟨inside, empty⟩ := definitionOf_some found
    have named := document.named _ (List.mem_map_of_mem inside)
    rw [empty] at named
    cases named)
  refine (carries.bisimulation document.distinct).unfold_eq depth ⟨rfl, rfl, fun used refers known => ?_⟩
  exact own used refers (document.named used known)

section

variable {incoming : List SubsystemDefinition} {reserved done : List Text} {s : Importing} {typeId : Text}
  {normalizeNfkd : Text → Text}

theorem embeddedOf_rewritten {components : List Component} {typeIdMap : OrderedMap Text Text}
    (plain : ∀ component ∈ components, embeddedOf component = none) :
    ∀ component ∈ rewriteComponentTypeIds components typeIdMap, embeddedOf component = none := by
  intro component member
  obtain ⟨original, inside, rfl⟩ := List.mem_map.mp member
  exact plain original inside

theorem Ready.snoc (ready : Ready table) (document : DocumentTable (table ++ [entry])) (own : ClosedIn table entry)
    (plain : Plain entry) : Ready (table ++ [entry]) := by
  have grows : table <+: table ++ [entry] := List.prefix_append table [entry]
  refine ⟨document, ?_, ?_⟩
  · intro definition member used refers subsystem
    rcases List.mem_append.mp member with earlier | here
    · exact typeIds_mono grows (ready.closed definition earlier used refers subsystem)
    · rw [List.mem_singleton.mp here] at refers
      exact typeIds_mono grows (own used refers subsystem)
  · intro definition member
    rcases List.mem_append.mp member with earlier | here
    · exact ready.plain definition earlier
    · rwa [List.mem_singleton.mp here]

/-- The references of an imported definition stay inside the table. -/
theorem Imported.closed_rewritten (imported : Imported table incoming reserved done s) (document : DocumentTable table)
    (known : done ⊆ typeIds incoming) (after : ∀ used ∈ dependenciesOf incoming typeId, used ∈ done)
    (found : definitionOf incoming typeId = some definition) (closed : ClosedIn incoming definition) :
    ClosedIn s.result (rewrittenBy s.typeIdMap definition) := by
  intro used refers subsystem
  obtain ⟨component, member, named⟩ := List.mem_filterMap.mp refers
  obtain ⟨original, inside, rfl⟩ := List.mem_map.mp member
  obtain ⟨old, given, rfl⟩ := Option.map_eq_some_iff.mp named
  have uses : old ∈ references definition := List.mem_filterMap.mpr ⟨original, inside, given⟩
  by_cases inner : old ∈ typeIds incoming
  · have earlier := after old (mem_dependenciesOf.mpr ⟨definition, found, uses, inner⟩)
    obtain ⟨other, there⟩ := definitionOf_isSome inner
    obtain ⟨copy, mapped, placed, _⟩ := imported.placed old earlier other there
    have placedId : copy.typeId ∈ typeIds s.result := List.mem_map_of_mem placed
    have nonempty := ne_nil_of_subsystem ((imported.document document).named copy.typeId placedId)
    rw [rewriteTypeId, mapped]
    dsimp only
    rwa [orElse, if_neg nonempty]
  · have unmapped : s.typeIdMap.get old = none :=
      OrderedMap.get_eq_none_iff.mpr fun key => inner (known ((imported.keys old).mp key))
    rw [rewriteTypeId, unmapped] at subsystem
    exact absurd (closed old uses subsystem) inner

theorem importSubsystemDefinitions_ready (normalizeNfkd : Text → Text) (reserved : List Text) (reuse : Bool)
    (ready : Ready table) (expandable : Expandable incoming) (plain : PlainTable incoming) :
    Ready (importSubsystemDefinitions normalizeNfkd table incoming reserved reuse).result := by
  have visited := closure_visits expandable.acyclic (typeIds incoming)
  have step : ∀ done s typeId definition, done ⊆ typeIds incoming ∧ Imported table incoming reserved done s ∧
      Ready s.result → typeId ∉ done → (∀ used ∈ dependenciesOf incoming typeId, used ∈ done) →
      definitionOf incoming typeId = some definition → done ++ [typeId] ⊆ typeIds incoming ∧
        Imported table incoming reserved (done ++ [typeId]) (importDefinition normalizeNfkd reserved reuse s definition) ∧
        Ready (importDefinition normalizeNfkd reserved reuse s definition).result := by
    rintro done s typeId definition ⟨known, imported, current⟩ fresh after found
    have next := importDefinition_imports normalizeNfkd reuse imported fresh after found
    obtain ⟨member, rfl⟩ := definitionOf_some found
    have here : definition.typeId ∈ typeIds incoming := List.mem_map_of_mem member
    refine ⟨List.append_subset.mpr ⟨known, List.cons_subset.mpr ⟨here, List.nil_subset _⟩⟩, next, ?_⟩
    have document := next.document ready.document
    rcases importDefinition_result normalizeNfkd reserved reuse s definition with same | ⟨typeId, name, grown⟩
    · rwa [same]
    · rw [grown] at document ⊢
      refine current.snoc document ?_ (embeddedOf_rewritten (plain definition member))
      exact imported.closed_rewritten ready.document known after found (expandable.closed definition member)
  have whole : _ ∧ _ ∧ Ready (importSubsystemDefinitions normalizeNfkd table incoming reserved reuse).result :=
    foldl_settled (P := fun done s => done ⊆ typeIds incoming ∧ Imported table incoming reserved done s ∧ Ready s.result)
      ⟨List.nil_subset _, imported_start ready.document.distinct, ready⟩ step visited.settled visited.known
  exact whole.2.2

end

end LasecSimul.Subsystems
