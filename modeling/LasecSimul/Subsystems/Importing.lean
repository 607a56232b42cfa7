import LasecSimul.Lib.Unfolding
import LasecSimul.Subsystems.Definition

/-!
# Expansions

The expansion of a definition replaces each component whose `typeId` the table defines by the expansion of that
definition, to any depth. `typeId`, `name` and `origin` say where a definition comes from and are no content,
and a manifest's own table only says what its references mean.
-/

namespace LasecSimul.Subsystems

open Dsl (Text units)
open Lib (OrderedMap)
open Lib.Unfolding (System Tree Bisimulation)

def identityKeys : List Text := [units "typeId", units "name", units "components", units "origin", units "subsystems"]

/-- The fields as JSON texts, without the order they are written in. -/
abbrev Content := Text → Option Text

def contentOf (fields : Fields) : Content := fun key => (valueAt key fields).map canonicalJson

def Component.content (component : Component) : Content := contentOf (without [units "typeId"] component.others)

def SubsystemDefinition.content (definition : SubsystemDefinition) : Content :=
  contentOf (without identityKeys definition.others)

def SubsystemDefinition.parts (definition : SubsystemDefinition) : List Component := definition.components.getD []

def definitionOf (table : List SubsystemDefinition) (typeId : Text) : Option SubsystemDefinition :=
  (byTypeId table).get typeId

/-- What a reference means in a table: a definition, or a type that no definition describes. -/
def resolve (table : List SubsystemDefinition) (typeId : Option Text) : SubsystemDefinition ⊕ Option Text :=
  match typeId.bind (definitionOf table) with
  | some definition => .inl definition
  | none => .inr typeId

def diagrams (table : List SubsystemDefinition) : System SubsystemDefinition Content Content (Option Text) where
  content := SubsystemDefinition.content
  parts definition := definition.parts.map fun component => (component.content, resolve table component.typeId)

/-- The expansion of a definition in a table, to a depth. -/
def expansion (table : List SubsystemDefinition) (depth : Nat) (definition : SubsystemDefinition) :
    Tree Content Content (Option Text) := (diagrams table).unfold depth definition

/-- The main diagram of a manifest. -/
def Manifest.main (manifest : Manifest) : SubsystemDefinition where
  typeId := manifest.typeId.getD []
  name := manifest.name.getD []
  components := manifest.components
  others := manifest.others

variable {table incoming result : List SubsystemDefinition} {definition entry : SubsystemDefinition} {typeId : Text}

theorem definitionOf_some (found : definitionOf table typeId = some entry) : entry ∈ table ∧ entry.typeId = typeId := by
  have member := OrderedMap.mem_of_get_ofList found
  obtain ⟨other, inside, same⟩ := List.mem_map.mp member
  cases same
  exact ⟨inside, rfl⟩

theorem definitionOf_isSome (member : typeId ∈ typeIds table) : ∃ entry, definitionOf table typeId = some entry := by
  have key : typeId ∈ (byTypeId table).keys := by
    rw [byTypeId, OrderedMap.mem_keys_ofList, List.map_map]
    exact member
  exact OrderedMap.mem_keys_iff.mp key

theorem definitionOf_none (outside : typeId ∉ typeIds table) : definitionOf table typeId = none := by
  cases found : definitionOf table typeId with
  | none => rfl
  | some entry =>
    obtain ⟨member, rfl⟩ := definitionOf_some found
    exact absurd (List.mem_map_of_mem member) outside

theorem definitionOf_mem (nodup : (typeIds table).Nodup) (member : entry ∈ table) :
    definitionOf table entry.typeId = some entry := by
  obtain ⟨other, found⟩ := definitionOf_isSome (List.mem_map_of_mem member)
  obtain ⟨inside, same⟩ := definitionOf_some found
  rw [found, List.inj_on_of_nodup_map nodup inside member same]

theorem valueAt_append {α : Type} (key : Text) (front back : List (Text × α)) :
    valueAt key (front ++ back) = (valueAt key front).or (valueAt key back) := by
  induction front with
  | nil => rfl
  | cons first rest ih =>
    rw [List.cons_append, valueAt, valueAt, ih]
    split <;> rfl

theorem valueAt_field (key other : Text) (value : Option Json) :
    valueAt key (field other value) = if other = key then value else none := by
  cases value with
  | none => exact (ite_self none).symm
  | some value =>
    show valueAt key [(other, value)] = _
    rfl

theorem valueAt_without (keys : List Text) (key : Text) (fields : Fields) :
    valueAt key (without keys fields) = if key ∈ keys then none else valueAt key fields := by
  have filtered := valueAt_filter (fun other => decide (other ∉ keys)) key fields
  rw [without, filtered]
  by_cases hidden : key ∈ keys
  · rw [if_pos hidden, if_neg (by simpa using hidden)]
  · rw [if_neg hidden, if_pos (by simpa using hidden)]

theorem namedKeys_distinct : units "typeId" ≠ units "components" ∧ units "name" ≠ units "components" ∧
    units "components" ∈ namedKeys := by decide +kernel

theorem valueAt_components (definition : SubsystemDefinition) : valueAt (units "components") definition.fields =
    definition.components.map fun components => .array (components.map Component.toJson) := by
  obtain ⟨typeId, name, named⟩ := namedKeys_distinct
  rw [SubsystemDefinition.fields, valueAt_append, valueAt_append, valueAt_append, valueAt_field, if_neg typeId,
    valueAt_field, if_neg name, valueAt_field, if_pos rfl, valueAt_without, if_pos named, Option.or_none]
  rfl

theorem valueAt_other (definition : SubsystemDefinition) {key : Text} (other : key ∉ namedKeys) :
    valueAt key definition.fields = valueAt key definition.others := by
  have distinct : units "typeId" ≠ key ∧ units "name" ≠ key ∧ units "components" ≠ key := by
    simp only [namedKeys, List.mem_cons, List.not_mem_nil, or_false, not_or] at other
    exact ⟨Ne.symm other.1, Ne.symm other.2.1, Ne.symm other.2.2⟩
  rw [SubsystemDefinition.fields, valueAt_append, valueAt_append, valueAt_append, valueAt_field, if_neg distinct.1,
    valueAt_field, if_neg distinct.2.1, valueAt_field, if_neg distinct.2.2, valueAt_without, if_neg other]
  rfl

/-- Two components up to the place they come from. -/
def SameComponent (c c' : Component) : Prop := c.content = c'.content ∧ c.typeId = c'.typeId

theorem sameComponent_of_toJson {c c' : Component} (same : canonicalJson c.toJson = canonicalJson c'.toJson) :
    SameComponent c c' := by
  have value : ∀ c : Component, ∀ key, valueAt key c.fields = if units "typeId" = key then c.typeId.map .string else
      valueAt key (without [units "typeId"] c.others) := by
    intro c key
    rw [Component.fields, valueAt_append, valueAt_field]
    by_cases here : units "typeId" = key
    · rw [if_pos here, if_pos here, valueAt_without, if_pos (by simp [here]), Option.or_none]
    · rw [if_neg here, if_neg here]
      rfl
  have equal := canonicalJson_object same
  constructor
  · funext key
    by_cases here : units "typeId" = key
    · rw [Component.content, Component.content, contentOf, contentOf, valueAt_without, valueAt_without,
        if_pos (by simp [here]), if_pos (by simp [here])]
    · have there := equal key
      rwa [value, value, if_neg here, if_neg here] at there
  · have there := equal (units "typeId")
    rw [value, value, if_pos rfl, if_pos rfl, Option.map_map, Option.map_map] at there
    exact Option.map_injective (fun _ _ => canonicalJson_string) there

/-- Definitions whose fields outside of `keys` have one text. -/
theorem alike_of_fields {keys : List Text} {d e : SubsystemDefinition} {parts : List Component}
    (hidden : keys ⊆ identityKeys) (visible : units "components" ∉ keys)
    (same : canonicalJson (.object (without keys d.fields)) = canonicalJson (.object (without keys e.fields)))
    (given : e.components = some parts) : d.content = e.content ∧ List.Forall₂ SameComponent d.parts e.parts := by
  have equal := canonicalJson_object same
  constructor
  · funext key
    rw [SubsystemDefinition.content, SubsystemDefinition.content, contentOf, contentOf, valueAt_without, valueAt_without]
    by_cases identity : key ∈ identityKeys
    · rw [if_pos identity, if_pos identity]
    · have there := equal key
      have other : key ∉ namedKeys := fun member => identity (by
        have subset : namedKeys ⊆ identityKeys := by decide +kernel
        exact subset member)
      rw [if_neg identity, if_neg identity, ← valueAt_other d other, ← valueAt_other e other]
      have shown : key ∉ keys := fun member => identity (hidden member)
      rwa [valueAt_without, valueAt_without, if_neg shown, if_neg shown] at there
  · have there := equal (units "components")
    rw [valueAt_without, valueAt_without, if_neg visible, if_neg visible, valueAt_components, valueAt_components,
      given] at there
    cases own : d.components with
    | none =>
      rw [own] at there
      cases there
    | some components =>
      rw [own] at there
      have texts := canonicalJson_array (Option.some.inj there)
      rw [SubsystemDefinition.parts, SubsystemDefinition.parts, own, given]
      show List.Forall₂ SameComponent components parts
      rw [List.map_map, List.map_map] at texts
      refine List.Forall₂.imp (fun _ _ => sameComponent_of_toJson) ?_
      rwa [← List.forall₂_eq_eq_eq, List.forall₂_map_left_iff, List.forall₂_map_right_iff] at texts

end LasecSimul.Subsystems

/-!
## Importing definitions

The loop goes over the incoming definitions in dependency order. What is imported copies the incoming definition
with its references rewritten, and no later turn changes what these references mean.
-/

namespace LasecSimul.Subsystems

open Dsl (Text units)
open Lib (OrderedMap)
open Lib.Postorder
open Lib.Unfolding (Bisimulation)
open Relation

variable {table incoming : List SubsystemDefinition} {definition entry : SubsystemDefinition} {typeId : Text}

theorem mem_distinct {typeIds : List Text} : typeId ∈ distinct typeIds ↔ typeId ∈ typeIds := by
  induction typeIds with
  | nil => rfl
  | cons first rest ih =>
    rw [distinct, List.mem_cons, List.mem_filter, List.mem_cons, ih, decide_eq_true_iff]
    by_cases same : typeId = first
    · simp [same]
    · simp [same]

theorem mem_dependenciesOf {used : Text} : used ∈ dependenciesOf table typeId ↔
    ∃ definition, definitionOf table typeId = some definition ∧ used ∈ references definition ∧ used ∈ typeIds table := by
  unfold dependenciesOf definitionOf
  cases found : (byTypeId table).get typeId with
  | none => simp
  | some definition => simp [directDependencies, mem_distinct]

/-- No definition contains itself. -/
def Acyclic (table : List SubsystemDefinition) : Prop :=
  ∀ typeId, ¬TransGen (fun user used => used ∈ dependenciesOf table user) typeId typeId

theorem closure_visits (acyclic : Acyclic table) (roots : List Text) :
    Visited (dependenciesOf table) (typeIds table) (roots.filter fun typeId => decide (typeId ∈ typeIds table)) []
      (postorder (dependenciesOf table) table.length (roots.filter fun typeId => decide (typeId ∈ typeIds table))) := by
  apply postorder_visits _ acyclic
  · rw [typeIds, List.length_map]
  · intro typeId member
    exact of_decide_eq_true (List.mem_filter.mp member).2
  · intro user _ used member
    obtain ⟨_, _, _, known⟩ := mem_dependenciesOf.mp member
    exact known

theorem foldl_settled {σ : Type} {P : List Text → σ → Prop} {turn : σ → SubsystemDefinition → σ} {start : σ}
    (begins : P [] start)
    (keeps : ∀ done s typeId definition, P done s → typeId ∉ done → (∀ used ∈ dependenciesOf table typeId, used ∈ done) →
      definitionOf table typeId = some definition → P (done ++ [typeId]) (turn s definition))
    {order : List Text} (settled : Settled (dependenciesOf table) order) (known : order ⊆ typeIds table) :
    P order ((order.filterMap (byTypeId table).get).foldl turn start) := by
  induction settled with
  | nil => exact begins
  | @snoc done typeId settled fresh after ih =>
    obtain ⟨definition, found⟩ := definitionOf_isSome (known (List.mem_append_right _ (List.mem_singleton_self typeId)))
    have before := ih fun typeId member => known (List.mem_append_left _ member)
    have got : (byTypeId table).get typeId = some definition := found
    rw [List.filterMap_append, List.foldl_append, List.filterMap_cons_some got]
    exact keeps done _ typeId definition before fresh after found

def Rewritten (typeIdMap : OrderedMap Text Text) (c c' : Component) : Prop :=
  c.content = c'.content ∧ c'.typeId = c.typeId.map (rewriteTypeId typeIdMap)

/-- `entry` is the definition with its references rewritten. -/
def Copies (typeIdMap : OrderedMap Text Text) (definition entry : SubsystemDefinition) : Prop :=
  definition.content = entry.content ∧ List.Forall₂ (Rewritten typeIdMap) definition.parts entry.parts

theorem rewritten_self (components : List Component) (typeIdMap : OrderedMap Text Text) :
    List.Forall₂ (Rewritten typeIdMap) components (rewriteComponentTypeIds components typeIdMap) := by
  induction components with
  | nil => exact .nil
  | cons component rest ih => exact .cons ⟨rfl, rfl⟩ ih

theorem rewriteTypeId_set {typeIdMap : OrderedMap Text Text} {key mapped used : Text} (other : used ≠ key) :
    rewriteTypeId (typeIdMap.set key mapped) used = rewriteTypeId typeIdMap used := by
  rw [rewriteTypeId, rewriteTypeId, OrderedMap.get_set_of_ne other]

/-- A reference that is not the new key means what it meant. -/
theorem Copies.set {typeIdMap : OrderedMap Text Text} {key mapped : Text} (copies : Copies typeIdMap definition entry)
    (other : key ∉ references definition) : Copies (typeIdMap.set key mapped) definition entry := by
  refine ⟨copies.1, ?_⟩
  have parts := copies.2
  unfold references at other
  change List.Forall₂ _ definition.parts _
  change key ∉ definition.parts.filterMap Component.typeId at other
  generalize definition.parts = left, entry.parts = right at parts other
  induction parts with
  | nil => exact .nil
  | @cons c c' left right first rest ih =>
    have earlier : key ∉ left.filterMap Component.typeId := fun member => other (by
      obtain ⟨component, inside, named⟩ := List.mem_filterMap.mp member
      exact List.mem_filterMap.mpr ⟨component, List.mem_cons_of_mem _ inside, named⟩)
    refine .cons ⟨first.1, ?_⟩ (ih earlier)
    rw [first.2]
    cases named : c.typeId with
    | none => rfl
    | some used =>
      have different : used ≠ key := by
        rintro rfl
        exact other (List.mem_filterMap.mpr ⟨c, List.mem_cons_self, named⟩)
      rw [Option.map_some, Option.map_some, rewriteTypeId_set different]

/-! ### Turns -/

/-- What the loop has made of the definitions in `done`. -/
structure Imported (table incoming : List SubsystemDefinition) (reserved done : List Text) (s : Importing) : Prop where
  extends_ : ∃ new, s.result = table ++ new ∧ typeIds new = s.added
  nodup : (typeIds s.result).Nodup
  lookup : ∀ typeId, s.byTypeId.get typeId = definitionOf s.result typeId
  free : ∀ typeId ∈ s.added, typeId ∉ reserved ∧ isSubsystemTypeId typeId = true
  keys : ∀ typeId, typeId ∈ s.typeIdMap.keys ↔ typeId ∈ done
  closed : ∀ typeId ∈ done, ∀ used ∈ dependenciesOf incoming typeId, used ∈ done
  placed : ∀ typeId ∈ done, ∀ definition, definitionOf incoming typeId = some definition →
    ∃ entry, s.typeIdMap.get typeId = some entry.typeId ∧ entry ∈ s.result ∧ Copies s.typeIdMap definition entry

variable {reserved done : List Text} {s : Importing}

/-- The definition under `typeId` is done, as a copy of it is in the result. -/
theorem Imported.placing (imported : Imported table incoming reserved done s) (fresh : typeId ∉ done)
    (after : ∀ used ∈ dependenciesOf incoming typeId, used ∈ done) (found : definitionOf incoming typeId = some definition)
    {result : List SubsystemDefinition} (grows : s.result ⊆ result) (member : entry ∈ result)
    (copies : Copies s.typeIdMap definition entry) :
    (∀ other, other ∈ (s.typeIdMap.set typeId entry.typeId).keys ↔ other ∈ done ++ [typeId]) ∧
    (∀ other ∈ done ++ [typeId], ∀ used ∈ dependenciesOf incoming other, used ∈ done ++ [typeId]) ∧
    ∀ other ∈ done ++ [typeId], ∀ definition, definitionOf incoming other = some definition →
      ∃ copy, (s.typeIdMap.set typeId entry.typeId).get other = some copy.typeId ∧ copy ∈ result ∧
        Copies (s.typeIdMap.set typeId entry.typeId) definition copy := by
  refine ⟨?_, ?_, ?_⟩
  · intro other
    rw [OrderedMap.mem_keys_set, imported.keys, List.mem_append, List.mem_singleton, or_comm]
  · intro other inside used uses
    rcases List.mem_append.mp inside with earlier | here
    · exact List.mem_append_left _ (imported.closed other earlier used uses)
    · rw [List.mem_singleton.mp here] at uses
      exact List.mem_append_left _ (after used uses)
  · intro other inside definition' found'
    have unused : typeId ∉ references definition' := by
      intro uses
      have known : typeId ∈ typeIds incoming := by
        obtain ⟨member, rfl⟩ := definitionOf_some found
        exact List.mem_map_of_mem member
      have depends := mem_dependenciesOf.mpr ⟨definition', found', uses, known⟩
      rcases List.mem_append.mp inside with earlier | here
      · exact fresh (imported.closed other earlier typeId depends)
      · rw [List.mem_singleton.mp here] at depends
        exact fresh (after typeId depends)
    by_cases same : other = typeId
    · subst same
      obtain rfl := Option.some.inj (found.symm.trans found')
      exact ⟨entry, OrderedMap.get_set_self, member, copies.set unused⟩
    · have earlier : other ∈ done := (List.mem_append.mp inside).resolve_right fun here => same (List.mem_singleton.mp here)
      obtain ⟨copy, mapped, there, copied⟩ := imported.placed other earlier definition' found'
      exact ⟨copy, by rw [OrderedMap.get_set_of_ne same, mapped], grows there, copied.set unused⟩

/-- The turn only notes that an entry of the result is a copy. -/
theorem Imported.reuse (imported : Imported table incoming reserved done s) (fresh : typeId ∉ done)
    (after : ∀ used ∈ dependenciesOf incoming typeId, used ∈ done) (found : definitionOf incoming typeId = some definition)
    (member : entry ∈ s.result) (copies : Copies s.typeIdMap definition entry) :
    Imported table incoming reserved (done ++ [typeId]) { s with typeIdMap := s.typeIdMap.set typeId entry.typeId } := by
  obtain ⟨keys, closed, placed⟩ := imported.placing fresh after found (List.Subset.refl _) member copies
  exact ⟨imported.extends_, imported.nodup, imported.lookup, imported.free, keys, closed, placed⟩

/-- The definition rewritten for the result. -/
def rewrittenBy (typeIdMap : OrderedMap Text Text) (definition : SubsystemDefinition) : SubsystemDefinition :=
  { definition with components := some (rewriteComponentTypeIds definition.parts typeIdMap) }

theorem copies_rewrittenBy (typeIdMap : OrderedMap Text Text) (definition : SubsystemDefinition) (typeId name : Text) :
    Copies typeIdMap definition { rewrittenBy typeIdMap definition with typeId, name } :=
  ⟨rfl, rewritten_self definition.parts typeIdMap⟩

/-- A definition that looks like a copy is one. -/
theorem Copies.of_alike {typeIdMap : OrderedMap Text Text} {copy : SubsystemDefinition} (copies : Copies typeIdMap definition copy)
    (content : entry.content = copy.content) (parts : List.Forall₂ SameComponent entry.parts copy.parts) :
    Copies typeIdMap definition entry := by
  refine ⟨copies.1.trans content.symm, ?_⟩
  have rewritten := copies.2
  generalize definition.parts = left, copy.parts = middle, entry.parts = right at parts rewritten
  induction parts generalizing left with
  | nil =>
    cases rewritten
    exact .nil
  | cons first rest ih =>
    cases rewritten with
    | cons own others =>
      exact .cons ⟨own.1.trans first.1.symm, first.2.trans own.2⟩ (ih _ others)

theorem copies_of_text {keys : List Text} {typeIdMap : OrderedMap Text Text} (hidden : keys ⊆ identityKeys)
    (visible : units "components" ∉ keys)
    (same : canonicalJson (.object (without keys entry.fields)) =
      canonicalJson (.object (without keys (rewrittenBy typeIdMap definition).fields))) :
    Copies typeIdMap definition entry := by
  obtain ⟨content, parts⟩ := alike_of_fields hidden visible same rfl
  have rewritten : Copies typeIdMap definition (rewrittenBy typeIdMap definition) :=
    copies_rewrittenBy typeIdMap definition definition.typeId definition.name
  exact rewritten.of_alike content parts

theorem identity_subset : [units "typeId", units "name"] ⊆ identityKeys := by decide +kernel

theorem identity_visible : units "components" ∉ [units "typeId", units "name"] := by decide +kernel

theorem without_nil (fields : Fields) : without [] fields = fields := by simp [without]

/-- The definition enters the result under a free `typeId`. -/
theorem Imported.append (imported : Imported table incoming reserved done s) (fresh : typeId ∉ done)
    (after : ∀ used ∈ dependenciesOf incoming typeId, used ∈ done) (found : definitionOf incoming typeId = some definition)
    (new : entry.typeId ∉ typeIds s.result) (free : entry.typeId ∉ reserved ∧ isSubsystemTypeId entry.typeId = true)
    (copies : Copies s.typeIdMap definition entry) :
    Imported table incoming reserved (done ++ [typeId])
      { result := s.result ++ [entry]
        byTypeId := s.byTypeId.set entry.typeId entry
        typeIdMap := s.typeIdMap.set typeId entry.typeId
        added := s.added ++ [entry.typeId] } := by
  obtain ⟨keys, closed, placed⟩ := imported.placing fresh after found (List.subset_append_left _ [entry])
    (List.mem_append_right _ (List.mem_singleton_self entry)) copies
  obtain ⟨added, result, ids⟩ := imported.extends_
  have nodup : (typeIds (s.result ++ [entry])).Nodup := by
    rw [typeIds, List.map_append, List.map_singleton, List.nodup_append]
    refine ⟨imported.nodup, List.nodup_singleton _, ?_⟩
    rintro id member _ here rfl
    rw [List.mem_singleton.mp here] at member
    exact new member
  refine ⟨⟨added ++ [entry], by rw [result, List.append_assoc], ?_⟩, nodup, ?_, ?_, keys, closed, placed⟩
  · rw [typeIds, List.map_append, ← ids]
    rfl
  · intro id
    by_cases same : id = entry.typeId
    · rw [same, OrderedMap.get_set_self, definitionOf_mem nodup (List.mem_append_right _ (List.mem_singleton_self entry))]
    · rw [OrderedMap.get_set_of_ne same, imported.lookup]
      cases there : definitionOf s.result id with
      | some other =>
        obtain ⟨member, rfl⟩ := definitionOf_some there
        exact (definitionOf_mem nodup (List.mem_append_left _ member)).symm
      | none =>
        refine (definitionOf_none ?_).symm
        rw [typeIds, List.map_append, List.mem_append, not_or]
        refine ⟨fun member => ?_, by simpa using same⟩
        obtain ⟨other, found⟩ := definitionOf_isSome member
        rw [there] at found
        cases found
  · intro id member
    rcases List.mem_append.mp member with earlier | here
    · exact imported.free id earlier
    · rw [List.mem_singleton.mp here]
      exact free

theorem Imported.mem_keys (imported : Imported table incoming reserved done s) :
    typeId ∈ s.byTypeId.keys ↔ typeId ∈ typeIds s.result := by
  rw [OrderedMap.mem_keys_iff, imported.lookup]
  constructor
  · rintro ⟨entry, found⟩
    obtain ⟨member, rfl⟩ := definitionOf_some found
    exact List.mem_map_of_mem member
  · exact definitionOf_isSome

theorem importDefinition_imports (normalizeNfkd : Text → Text) (reuse : Bool)
    (imported : Imported table incoming reserved done s) (fresh : typeId ∉ done)
    (after : ∀ used ∈ dependenciesOf incoming typeId, used ∈ done)
    (found : definitionOf incoming typeId = some definition) :
    Imported table incoming reserved (done ++ [typeId])
      (importDefinition normalizeNfkd reserved reuse s definition) := by
  obtain ⟨_, rfl⟩ := definitionOf_some found
  unfold importDefinition
  dsimp only
  split
  · next same =>
    obtain ⟨entry, there, text⟩ := (Option.any_eq_true ..).mp same
    rw [imported.lookup] at there
    obtain ⟨member, named⟩ := definitionOf_some there
    have whole : canonicalJson (.object (without [] entry.fields)) =
        canonicalJson (.object (without [] (rewrittenBy s.typeIdMap definition).fields)) := by
      rw [without_nil, without_nil]
      exact of_decide_eq_true text
    have noted := imported.reuse fresh after found member
      (copies_of_text (List.nil_subset _) List.not_mem_nil whole)
    rwa [named] at noted
  · split
    · next equivalent there =>
      split at there
      · have chosen := List.find?_some there
        exact imported.reuse fresh after found (List.mem_of_find?_eq_some there)
          (copies_of_text identity_subset identity_visible (of_decide_eq_true chosen))
      · cases there
    · have unknown : s.byTypeId.get definition.typeId = none → definition.typeId ∉ typeIds s.result := by
        intro none member
        obtain ⟨entry, there⟩ := OrderedMap.mem_keys_iff.mp (imported.mem_keys.mpr member)
        rw [none] at there
        cases there
      obtain ⟨unique, subsystem⟩ := uniqueSubsystemTypeId_spec normalizeNfkd definition.typeId
        (s.byTypeId.keys ++ reserved)
      rw [List.mem_append, not_or, imported.mem_keys] at unique
      split
      · next keeps =>
        exact imported.append fresh after found (unknown keeps.1) ⟨keeps.2.2, keeps.2.1⟩
          (copies_rewrittenBy s.typeIdMap definition _ _)
      · exact imported.append fresh after found unique.1 ⟨unique.2, subsystem⟩
          (copies_rewrittenBy s.typeIdMap definition _ _)

theorem importDefinition_result (normalizeNfkd : Text → Text) (reserved : List Text) (reuse : Bool) (s : Importing)
    (definition : SubsystemDefinition) :
    (importDefinition normalizeNfkd reserved reuse s definition).result = s.result ∨
      ∃ typeId name, (importDefinition normalizeNfkd reserved reuse s definition).result =
        s.result ++ [{ rewrittenBy s.typeIdMap definition with typeId, name }] := by
  unfold importDefinition
  dsimp only
  split
  · exact .inl rfl
  · split
    · exact .inl rfl
    · exact .inr ⟨_, _, rfl⟩

/-! ### The whole import -/

/-- References to subsystems stay within the definitions. -/
def ClosedIn (definitions : List SubsystemDefinition) (definition : SubsystemDefinition) : Prop :=
  ∀ used ∈ references definition, isSubsystemTypeId used = true → used ∈ typeIds definitions

/-- Definitions that can be expanded by themselves. -/
structure Expandable (definitions : List SubsystemDefinition) : Prop where
  distinct : (typeIds definitions).Nodup
  acyclic : Acyclic definitions
  closed : ∀ definition ∈ definitions, ClosedIn definitions definition

/-- The table of a document. -/
structure DocumentTable (table : List SubsystemDefinition) : Prop where
  distinct : (typeIds table).Nodup
  named : ∀ typeId ∈ typeIds table, isSubsystemTypeId typeId = true

theorem Imported.document (imported : Imported table incoming reserved done s) (document : DocumentTable table) :
    DocumentTable s.result := by
  obtain ⟨new, result, ids⟩ := imported.extends_
  refine ⟨imported.nodup, fun typeId member => ?_⟩
  rw [result, typeIds, List.map_append] at member
  rcases List.mem_append.mp member with old | added
  · exact document.named typeId old
  · exact (imported.free typeId (ids ▸ added)).2

theorem imported_start (distinct : (typeIds table).Nodup) : Imported table incoming reserved []
    { result := table, byTypeId := byTypeId table, typeIdMap := .empty, added := [] } where
  extends_ := ⟨[], (List.append_nil table).symm, rfl⟩
  nodup := distinct
  lookup _ := rfl
  free := nofun
  keys _ := Iff.rfl
  closed := nofun
  placed := nofun

theorem importSubsystemDefinitions_imports (normalizeNfkd : Text → Text) (reuse : Bool) (distinct : (typeIds table).Nodup)
    (acyclic : Acyclic incoming) : ∃ order, typeIds incoming ⊆ order ∧ order ⊆ typeIds incoming ∧
      Imported table incoming reserved order (importSubsystemDefinitions normalizeNfkd table incoming reserved reuse) := by
  have visited := closure_visits acyclic (typeIds incoming)
  refine ⟨_, ?_, visited.known, ?_⟩
  · intro typeId member
    exact visited.inside (List.mem_filter.mpr ⟨member, decide_eq_true member⟩)
  · exact foldl_settled (imported_start distinct)
      (fun done s typeId definition imported fresh after found =>
        importDefinition_imports normalizeNfkd reuse imported fresh after found) visited.settled visited.known

/-- How a map places definitions in a table. -/
structure Placed (definitions result : List SubsystemDefinition) (typeIdMap : OrderedMap Text Text) : Prop where
  named : ∀ typeId ∈ typeIds result, isSubsystemTypeId typeId = true
  distinct : (typeIds result).Nodup
  keys : typeIdMap.keys ⊆ typeIds definitions
  placed : ∀ typeId definition, definitionOf definitions typeId = some definition →
    ∃ entry, typeIdMap.get typeId = some entry.typeId ∧ entry ∈ result ∧ Copies typeIdMap definition entry

theorem importSubsystemDefinitions_placed (normalizeNfkd : Text → Text) (reserved : List Text) (reuse : Bool)
    (document : DocumentTable table) (expandable : Expandable incoming) :
    let imported := importSubsystemDefinitions normalizeNfkd table incoming reserved reuse
    (∃ new, imported.result = table ++ new ∧ typeIds new = imported.added) ∧
      (∀ typeId ∈ imported.added, typeId ∉ reserved ∧ isSubsystemTypeId typeId = true) ∧
      Placed incoming imported.result imported.typeIdMap := by
  obtain ⟨order, all, known, imported⟩ : ∃ order, typeIds incoming ⊆ order ∧ order ⊆ typeIds incoming ∧
      Imported table incoming reserved order (importSubsystemDefinitions normalizeNfkd table incoming reserved reuse) :=
    importSubsystemDefinitions_imports normalizeNfkd reuse document.distinct expandable.acyclic
  refine ⟨imported.extends_, imported.free, (imported.document document).named, imported.nodup, ?_, ?_⟩
  · exact fun typeId member => known ((imported.keys typeId).mp member)
  · intro typeId definition found
    have inside : typeId ∈ typeIds incoming := by
      obtain ⟨member, rfl⟩ := definitionOf_some found
      exact List.mem_map_of_mem member
    exact imported.placed typeId (all inside) definition found

theorem ne_nil_of_subsystem (subsystem : isSubsystemTypeId typeId = true) : typeId ≠ [] := by
  rintro rfl
  cases subsystem

/-- A copy, and a definition whose references stay within the definitions. -/
def OwnCopy (definitions : List SubsystemDefinition) (typeIdMap : OrderedMap Text Text)
    (definition entry : SubsystemDefinition) : Prop := Copies typeIdMap definition entry ∧ ClosedIn definitions definition

section

variable {definitions result : List SubsystemDefinition} {typeIdMap : OrderedMap Text Text}

/-- A rewritten reference means the copy of what it meant. -/
theorem Placed.resolve (placed : Placed definitions result typeIdMap)
    (closed : ∀ definition ∈ definitions, ClosedIn definitions definition) {used : Text}
    (inside : isSubsystemTypeId used = true → used ∈ typeIds definitions) :
    Sum.LiftRel (OwnCopy definitions typeIdMap) Eq (resolve definitions (some used))
      (resolve result (some (rewriteTypeId typeIdMap used))) := by
  by_cases known : used ∈ typeIds definitions
  · obtain ⟨definition, found⟩ := definitionOf_isSome known
    obtain ⟨entry, mapped, member, copies⟩ := placed.placed used definition found
    have nonempty := ne_nil_of_subsystem (placed.named entry.typeId (List.mem_map_of_mem member))
    have rewritten : rewriteTypeId typeIdMap used = entry.typeId := by
      rw [rewriteTypeId, mapped]
      exact if_neg nonempty
    rw [rewritten, Subsystems.resolve, Subsystems.resolve, Option.bind_some, Option.bind_some, found,
      definitionOf_mem placed.distinct member]
    exact .inl ⟨copies, closed definition (definitionOf_some found).1⟩
  · have unmapped : typeIdMap.get used = none :=
      OrderedMap.get_eq_none_iff.mpr fun member => known (placed.keys member)
    have outside : used ∉ typeIds result := fun member => known (inside (placed.named used member))
    rw [rewriteTypeId, unmapped, Subsystems.resolve, Subsystems.resolve, Option.bind_some, Option.bind_some,
      definitionOf_none known, definitionOf_none outside]
    exact .inr rfl

theorem Placed.parts (placed : Placed definitions result typeIdMap)
    (closed : ∀ definition ∈ definitions, ClosedIn definitions definition)
    {components copied : List Component} (rewritten : List.Forall₂ (Rewritten typeIdMap) components copied)
    (own : ∀ used ∈ components.filterMap Component.typeId, isSubsystemTypeId used = true → used ∈ typeIds definitions) :
    List.Forall₂ (fun part part' => part.1 = part'.1 ∧ Sum.LiftRel (OwnCopy definitions typeIdMap) Eq part.2 part'.2)
      (components.map fun component => (component.content, Subsystems.resolve definitions component.typeId))
      (copied.map fun component => (component.content, Subsystems.resolve result component.typeId)) := by
  induction rewritten with
  | nil => exact .nil
  | @cons c c' left right first rest ih =>
    have others : ∀ used ∈ left.filterMap Component.typeId, isSubsystemTypeId used = true → used ∈ typeIds definitions := by
      intro used member
      obtain ⟨component, inside, named⟩ := List.mem_filterMap.mp member
      exact own used (List.mem_filterMap.mpr ⟨component, List.mem_cons_of_mem _ inside, named⟩)
    refine .cons ⟨first.1, ?_⟩ (ih others)
    dsimp only
    rw [first.2]
    cases named : c.typeId with
    | none => exact .inr rfl
    | some used => exact placed.resolve closed (own used (List.mem_filterMap.mpr ⟨c, List.mem_cons_self, named⟩))

theorem Placed.bisimulation (placed : Placed definitions result typeIdMap)
    (closed : ∀ definition ∈ definitions, ClosedIn definitions definition) :
    Bisimulation (diagrams definitions) (diagrams result) (OwnCopy definitions typeIdMap) where
  content _ _ copy := copy.1.1
  parts _ _ copy := placed.parts closed copy.1.2 copy.2

theorem Placed.expansion_eq (placed : Placed definitions result typeIdMap)
    (closed : ∀ definition ∈ definitions, ClosedIn definitions definition)
    (copies : Copies typeIdMap definition entry) (own : ClosedIn definitions definition) (depth : Nat) :
    expansion result depth entry = expansion definitions depth definition :=
  ((placed.bisimulation closed).unfold_eq depth ⟨copies, own⟩).symm

end

end LasecSimul.Subsystems
