import LasecSimul.Subsystems.Importing

/-!
# External systems

A manifest carries a main diagram and a table of its own. The three ways between a manifest and the table of a
document leave the expansion of the main diagram as it is.
-/

namespace LasecSimul.Subsystems

open Dsl (Text units)
open Lib (OrderedMap)
open Lib.Postorder
open Lib.Unfolding (Bisimulation)
open Relation

variable {table definitions result : List SubsystemDefinition} {definition entry : SubsystemDefinition} {typeId : Text}
  {typeIdMap : OrderedMap Text Text} {manifest : Manifest}

theorem Placed.snoc (placed : Placed definitions result typeIdMap) (new : entry.typeId ∉ typeIds result)
    (subsystem : isSubsystemTypeId entry.typeId = true) : Placed definitions (result ++ [entry]) typeIdMap where
  named := by
    intro typeId member
    rw [typeIds, List.map_append] at member
    rcases List.mem_append.mp member with earlier | here
    · exact placed.named typeId earlier
    · rwa [List.mem_singleton.mp here]
  distinct := by
    rw [typeIds, List.map_append, List.nodup_append]
    refine ⟨placed.distinct, List.nodup_singleton _, ?_⟩
    rintro id member _ here rfl
    rw [List.mem_singleton.mp here] at member
    exact new member
  keys := placed.keys
  placed := by
    intro typeId definition found
    obtain ⟨copy, mapped, member, copies⟩ := placed.placed typeId definition found
    exact ⟨copy, mapped, List.mem_append_left _ member, copies⟩

theorem origin_mem : units "origin" ∈ identityKeys := by simp [identityKeys]

theorem contentOf_cons {key : Text} {value : Json} {fields : Fields} (hidden : key ∈ identityKeys) :
    contentOf (without identityKeys ((key, value) :: fields)) = contentOf (without identityKeys fields) := by
  have skipped : without identityKeys ((key, value) :: fields) = without identityKeys fields := by
    rw [without, List.filter_cons_of_neg (by simpa using hidden), without]
  rw [skipped]

theorem content_withOrigin (origin others : Fields) :
    contentOf (without identityKeys (withOrigin origin others)) = contentOf (without identityKeys others) := by
  unfold withOrigin
  split
  · rfl
  · exact contentOf_cons origin_mem

theorem copies_main (typeIdMap : OrderedMap Text Text) (manifest : Manifest) (origin : Fields) (typeId name : Text) :
    Copies typeIdMap manifest.main
      { typeId, name, components := some (rewriteComponentTypeIds (manifest.components.getD []) typeIdMap)
        others := withOrigin origin manifest.others } :=
  ⟨(content_withOrigin origin manifest.others).symm, rewritten_self _ typeIdMap⟩

theorem contentKey_subset : [units "typeId", units "name", units "origin"] ⊆ identityKeys := by simp [identityKeys]

theorem contentKey_visible : units "components" ∉ [units "typeId", units "name", units "origin"] := by decide +kernel

/-- What an import of a manifest into a document makes of both. -/
structure Incorporated (table : List SubsystemDefinition) (manifest : Manifest)
    (outcome : List SubsystemDefinition × Text) : Prop where
  keeps : table <+: outcome.1
  distinct : (typeIds outcome.1).Nodup
  main : ∃ entry ∈ outcome.1, entry.typeId = outcome.2 ∧
    ∀ depth, expansion outcome.1 depth entry = expansion manifest.subsystems depth manifest.main

theorem importExternalAsSubsystem_incorporates (normalizeNfkd : Text → Text) (options : ImportOptions)
    (document : DocumentTable table) (expandable : Expandable manifest.subsystems)
    (own : ClosedIn manifest.subsystems manifest.main) :
    Incorporated table manifest (importExternalAsSubsystem normalizeNfkd table manifest options) := by
  obtain ⟨⟨new, grown, _⟩, _, placed⟩ := importSubsystemDefinitions_placed normalizeNfkd options.reservedTypeIds
    options.reuseEquivalent document expandable
  unfold importExternalAsSubsystem
  dsimp only
  generalize importSubsystemDefinitions normalizeNfkd table manifest.subsystems options.reservedTypeIds
    options.reuseEquivalent = imported at grown placed
  have keeps : table <+: imported.result := grown ▸ List.prefix_append table new
  split
  · next equivalent found =>
    split at found
    · have chosen := List.find?_some found
      have member := List.mem_of_find?_eq_some found
      obtain ⟨content, parts⟩ := alike_of_fields contentKey_subset contentKey_visible (of_decide_eq_true chosen).2 rfl
      have copies := (copies_main imported.typeIdMap manifest _ [] (baseName manifest options)).of_alike content parts
      exact ⟨keeps, placed.distinct, equivalent, member, rfl, placed.expansion_eq expandable.closed copies own⟩
    · cases found
  · obtain ⟨unique, subsystem⟩ := uniqueSubsystemTypeId_spec normalizeNfkd
      (orElse (manifest.typeId.getD []) (slugForSubsystem normalizeNfkd (baseName manifest options)))
      (typeIds imported.result ++ options.reservedTypeIds)
    rw [List.mem_append, not_or] at unique
    refine ⟨keeps.trans (List.prefix_append _ _), (placed.snoc unique.1 subsystem).distinct, _,
      List.mem_append_right _ (List.mem_singleton_self _), rfl, ?_⟩
    exact (placed.snoc unique.1 subsystem).expansion_eq expandable.closed (copies_main imported.typeIdMap manifest ..) own

/-! ### Definitions as external systems -/

theorem typeIds_filterMap {order : List Text} (known : order ⊆ typeIds table) :
    typeIds (order.filterMap (byTypeId table).get) = order := by
  induction order with
  | nil => rfl
  | cons typeId rest ih =>
    obtain ⟨definition, found⟩ := definitionOf_isSome (known List.mem_cons_self)
    have got : (byTypeId table).get typeId = some definition := found
    rw [List.filterMap_cons_some got, typeIds, List.map_cons, (definitionOf_some found).2]
    exact congrArg _ (ih fun other member => known (List.mem_cons_of_mem _ member))

/-- The definitions that a root uses, without the root. -/
def dependenciesOfRoot (table : List SubsystemDefinition) (typeId : Text) : List SubsystemDefinition :=
  (subsystemClosure [typeId] table).filter fun entry => decide (entry.typeId ≠ typeId)

/-- The part of a table that a root needs. -/
structure Carries (table : List SubsystemDefinition) (typeId : Text) (part : List SubsystemDefinition) : Prop where
  inside : part ⊆ table
  distinct : (typeIds part).Nodup
  root : ∀ used ∈ dependenciesOf table typeId, used ∈ typeIds part
  closed : ∀ user ∈ typeIds part, ∀ used ∈ dependenciesOf table user, used ∈ typeIds part

theorem dependenciesOfRoot_carries (acyclic : Acyclic table) (known : typeId ∈ typeIds table) :
    Carries table typeId (dependenciesOfRoot table typeId) := by
  have visited := closure_visits acyclic [typeId]
  rw [List.filter_cons_of_pos (by simpa using known), List.filter_nil] at visited
  have order : dependenciesOfRoot table typeId =
      ((postorder (dependenciesOf table) table.length [typeId]).filterMap (byTypeId table).get).filter
        fun entry => decide (entry.typeId ≠ typeId) := by
    rw [dependenciesOfRoot, subsystemClosure, List.filter_cons_of_pos (by simpa using known), List.filter_nil]
  rw [order]
  generalize postorder (dependenciesOf table) table.length [typeId] = done at visited
  have ids := typeIds_filterMap visited.known
  have mem : ∀ used, used ∈ typeIds ((done.filterMap (byTypeId table).get).filter fun entry => decide (entry.typeId ≠ typeId)) ↔
      used ∈ done ∧ used ≠ typeId := by
    intro used
    have through : used ∈ done ↔ used ∈ typeIds (done.filterMap (byTypeId table).get) := by rw [ids]
    rw [through, typeIds, typeIds, List.mem_map, List.mem_map]
    constructor
    · rintro ⟨entry, member, rfl⟩
      obtain ⟨there, other⟩ := List.mem_filter.mp member
      exact ⟨⟨entry, there, rfl⟩, of_decide_eq_true other⟩
    · rintro ⟨⟨entry, there, rfl⟩, other⟩
      exact ⟨entry, List.mem_filter.mpr ⟨there, decide_eq_true other⟩, rfl⟩
  -- a definition that leads back to the root would contain itself
  have leads : ∀ user ∈ done, ∀ used ∈ dependenciesOf table user, used ∈ done ∧ used ≠ typeId := by
    intro user member used uses
    refine ⟨visited.settled.closed user member used uses, ?_⟩
    rintro rfl
    rcases visited.reached user member with none | ⟨root, here, path⟩
    · cases none
    · rw [List.mem_singleton.mp here] at path
      exact acyclic used (TransGen.tail' path uses)
  refine ⟨?_, ?_, ?_, ?_⟩
  · intro entry member
    obtain ⟨id, _, found⟩ := List.mem_filterMap.mp (List.mem_filter.mp member).1
    exact (definitionOf_some found).1
  · refine List.Nodup.sublist (List.filter_sublist.map _) ?_
    show (typeIds (done.filterMap (byTypeId table).get)).Nodup
    rw [ids]
    exact visited.settled.nodup
  · intro used uses
    exact (mem used).mpr (leads typeId (visited.inside (List.mem_singleton_self typeId)) used uses)
  · intro user member used uses
    exact (mem used).mpr (leads user ((mem user).mp member).1 used uses)

/-- A definition of the table whose references the part resolves as the table does. -/
def Within (table part : List SubsystemDefinition) (definition entry : SubsystemDefinition) : Prop :=
  definition.content = entry.content ∧ definition.parts = entry.parts ∧
    ∀ used ∈ references definition, used ∈ typeIds table → used ∈ typeIds part

variable {part : List SubsystemDefinition}

theorem Carries.definitionOf_eq (carries : Carries table typeId part) (distinct : (typeIds table).Nodup) {used : Text}
    (member : used ∈ typeIds part) : definitionOf part used = definitionOf table used := by
  obtain ⟨entry, there, rfl⟩ := List.mem_map.mp member
  rw [definitionOf_mem carries.distinct there, definitionOf_mem distinct (carries.inside there)]

theorem Carries.within (carries : Carries table typeId part) {used : Text}
    (member : used ∈ typeIds part) (found : definitionOf table used = some definition) :
    Within table part definition definition := by
  refine ⟨rfl, rfl, fun other refers known => ?_⟩
  exact carries.closed used member other (mem_dependenciesOf.mpr ⟨definition, found, refers, known⟩)

theorem Carries.bisimulation (carries : Carries table typeId part) (distinct : (typeIds table).Nodup) :
    Bisimulation (diagrams table) (diagrams part) (Within table part) where
  content _ _ within := within.1
  parts := by
    rintro definition entry ⟨_, parts, within⟩
    change List.Forall₂ _ (definition.parts.map _) (entry.parts.map _)
    rw [← parts, List.forall₂_map_left_iff, List.forall₂_map_right_iff, List.forall₂_same]
    intro component member
    refine ⟨rfl, ?_⟩
    dsimp only
    cases named : component.typeId with
    | none => exact .inr rfl
    | some used =>
      have refers : used ∈ references definition := List.mem_filterMap.mpr ⟨component, member, named⟩
      rw [resolve, resolve, Option.bind_some, Option.bind_some]
      by_cases known : used ∈ typeIds table
      · have carried := within used refers known
        obtain ⟨other, found⟩ := definitionOf_isSome known
        rw [carries.definitionOf_eq distinct carried, found]
        exact .inl (carries.within carried found)
      · have outside : used ∉ typeIds part := fun there => known (List.map_subset _ carries.inside there)
        rw [definitionOf_none known, definitionOf_none outside]
        exact .inr rfl

theorem Carries.expandable (carries : Carries table typeId part) (expandable : Expandable table) : Expandable part where
  distinct := carries.distinct
  acyclic := by
    intro typeId cycle
    refine expandable.acyclic typeId (TransGen.mono (fun user used uses => ?_) _ _ cycle)
    obtain ⟨definition, found, refers, known⟩ := mem_dependenciesOf.mp uses
    have member : user ∈ typeIds part := by
      obtain ⟨inside, rfl⟩ := definitionOf_some found
      exact List.mem_map_of_mem inside
    rw [carries.definitionOf_eq expandable.distinct member] at found
    exact mem_dependenciesOf.mpr ⟨definition, found, refers, List.map_subset _ carries.inside known⟩
  closed := by
    intro definition member used refers subsystem
    have known := expandable.closed definition (carries.inside member) used refers subsystem
    have found := definitionOf_mem expandable.distinct (carries.inside member)
    exact (carries.within (List.mem_map_of_mem member) found).2.2 used refers known

theorem Carries.main (carries : Carries table typeId part) (expandable : Expandable table)
    (found : definitionOf table typeId = some definition) (content : entry.content = definition.content)
    (components : entry.components = definition.components) : ClosedIn part entry ∧
      ∀ depth, expansion part depth entry = expansion table depth definition := by
  have parts : definition.parts = entry.parts := congrArg (·.getD []) components.symm
  have refers : references entry = references definition := congrArg (·.filterMap Component.typeId) parts.symm
  have within : ∀ used ∈ references definition, used ∈ typeIds table → used ∈ typeIds part := by
    intro used refers known
    exact carries.root used (mem_dependenciesOf.mpr ⟨definition, found, refers, known⟩)
  constructor
  · intro used uses subsystem
    rw [refers] at uses
    exact within used uses (expandable.closed definition (definitionOf_some found).1 used uses subsystem)
  · intro depth
    exact ((carries.bisimulation expandable.distinct).unfold_eq depth ⟨content.symm, parts, within⟩).symm

theorem find?_definitionOf (distinct : (typeIds table).Nodup)
    (found : (table.find? fun entry => decide (entry.typeId = typeId)) = some definition) :
    definitionOf table typeId = some definition := by
  have chosen := List.find?_some found
  obtain rfl := of_decide_eq_true chosen
  exact definitionOf_mem distinct (List.mem_of_find?_eq_some found)

theorem content_without {keys : List Text} (others : Fields) (hidden : keys ⊆ identityKeys) :
    contentOf (without identityKeys (without keys others)) = contentOf (without identityKeys others) := by
  funext key
  rw [contentOf, contentOf, valueAt_without, valueAt_without, valueAt_without]
  by_cases identity : key ∈ identityKeys
  · rw [if_pos identity, if_pos identity]
  · rw [if_neg identity, if_neg identity, if_neg fun member => identity (hidden member)]

theorem exportKeys_subset : [units "origin", units "subsystems"] ⊆ identityKeys := by simp [identityKeys]

/-- The exported manifest stands by itself. -/
theorem exportSubsystemAsExternal_main (expandable : Expandable table) (externalTypeId : Text)
    (found : definitionOf table typeId = some definition) (bare : valueAt (units "subsystems") definition.others = none) :
    ∃ manifest, exportSubsystemAsExternal table typeId externalTypeId = some manifest ∧
      Expandable manifest.subsystems ∧ ClosedIn manifest.subsystems manifest.main ∧
      ∀ depth, expansion manifest.subsystems depth manifest.main = expansion table depth definition := by
  obtain ⟨member, rfl⟩ := definitionOf_some found
  have carries := dependenciesOfRoot_carries expandable.acyclic (List.mem_map_of_mem member)
  unfold exportSubsystemAsExternal
  cases first : table.find? fun entry => decide (entry.typeId = definition.typeId) with
  | none => exact absurd (List.find?_eq_none.mp first definition member) (by simp)
  | some root =>
    obtain rfl := Option.some.inj ((find?_definitionOf expandable.distinct first).symm.trans found)
    refine ⟨_, rfl, ?_⟩
    have own : manifestSubsystems root.others = [] := by rw [manifestSubsystems, bare]
    change Expandable (if (dependenciesOfRoot table root.typeId).isEmpty then _ else dependenciesOfRoot table root.typeId) ∧
      ClosedIn (if (dependenciesOfRoot table root.typeId).isEmpty then _ else dependenciesOfRoot table root.typeId) _ ∧
      ∀ depth, expansion (if (dependenciesOfRoot table root.typeId).isEmpty then _ else
        dependenciesOfRoot table root.typeId) depth _ = _
    have same : (if (dependenciesOfRoot table root.typeId).isEmpty then manifestSubsystems root.others else
        dependenciesOfRoot table root.typeId) = dependenciesOfRoot table root.typeId := by
      split
      · next empty => rw [own, List.isEmpty_iff.mp empty]
      · rfl
    rw [same]
    exact ⟨carries.expandable expandable, carries.main expandable found
      (content_without root.others exportKeys_subset) rfl⟩

theorem isSubsystemTypeId_suffix {back : Text} (subsystem : isSubsystemTypeId typeId = true) :
    isSubsystemTypeId (typeId ++ back) = true := by
  obtain ⟨starts, longer⟩ := Bool.and_eq_true_iff.mp subsystem
  refine Bool.and_eq_true_iff.mpr ⟨?_, decide_eq_true ?_⟩
  · exact List.isPrefixOf_iff_prefix.mpr ((List.isPrefixOf_iff_prefix.mp starts).trans (List.prefix_append _ _))
  · rw [List.length_append]
    exact Nat.lt_of_lt_of_le (of_decide_eq_true longer) (Nat.le_add_right _ _)

theorem flattenKeys_subset : [units "subsystems"] ⊆ identityKeys := by simp [identityKeys]

/-- The map of `flattenExternalSystem`. -/
def namespaces (manifest : Manifest) : OrderedMap Text Text :=
  .ofList (manifest.subsystems.map fun entry => (entry.typeId, namespaced manifest entry.typeId))

theorem namespaces_get (member : typeId ∈ typeIds manifest.subsystems) :
    (namespaces manifest).get typeId = some (namespaced manifest typeId) := by
  have key : typeId ∈ (namespaces manifest).keys := by
    rw [namespaces, OrderedMap.mem_keys_ofList, List.map_map]
    exact member
  obtain ⟨value, got⟩ := OrderedMap.mem_keys_iff.mp key
  obtain ⟨entry, _, same⟩ := List.mem_map.mp (OrderedMap.mem_of_get_ofList got)
  cases same
  exact got

theorem flattenExternalSystem_placed (expandable : Expandable manifest.subsystems)
    (named : ∀ typeId ∈ typeIds manifest.subsystems, isSubsystemTypeId typeId = true) :
    Placed manifest.subsystems (flattenExternalSystem manifest).1 (namespaces manifest) := by
  have visited := closure_visits expandable.acyclic (typeIds manifest.subsystems)
  have ids : typeIds (flattenExternalSystem manifest).1 =
      (typeIds (subsystemTopologicalOrder manifest.subsystems)).map fun typeId => ((namespaces manifest).get typeId).getD [] := by
    rw [flattenExternalSystem, typeIds, List.map_map, typeIds, List.map_map]
    rfl
  have ordered : typeIds (subsystemTopologicalOrder manifest.subsystems) ⊆ typeIds manifest.subsystems ∧
      (typeIds (subsystemTopologicalOrder manifest.subsystems)).Nodup := by
    rw [subsystemTopologicalOrder, subsystemClosure, typeIds_filterMap visited.known]
    exact ⟨visited.known, visited.settled.nodup⟩
  refine ⟨?_, ?_, ?_, ?_⟩
  · intro typeId member
    rw [ids] at member
    obtain ⟨id, there, rfl⟩ := List.mem_map.mp member
    have known := ordered.1 there
    rw [namespaces_get known, Option.getD_some, namespaced, List.append_assoc]
    exact isSubsystemTypeId_suffix (named id known)
  · rw [ids]
    refine ordered.2.map_on fun a first b second same => ?_
    rw [namespaces_get (ordered.1 first), namespaces_get (ordered.1 second)] at same
    exact List.append_cancel_right (List.append_cancel_right same)
  · intro typeId member
    rw [namespaces, OrderedMap.mem_keys_ofList, List.map_map] at member
    exact member
  · intro typeId definition found
    obtain ⟨member, rfl⟩ := definitionOf_some found
    have known : definition.typeId ∈ typeIds manifest.subsystems := List.mem_map_of_mem member
    have inside : definition ∈ subsystemTopologicalOrder manifest.subsystems := by
      refine List.mem_filterMap.mpr ⟨definition.typeId, visited.inside ?_, found⟩
      exact List.mem_filter.mpr ⟨known, decide_eq_true known⟩
    have mapped := namespaces_get known
    refine ⟨_, ?_, List.mem_map_of_mem inside, ?_⟩
    · change _ = some (((namespaces manifest).get definition.typeId).getD [])
      rw [mapped, Option.getD_some]
    · exact ⟨(content_without definition.others flattenKeys_subset).symm, rewritten_self definition.parts (namespaces manifest)⟩

theorem flattenExternalSystem_main (manifest : Manifest) :
    Copies (namespaces manifest) manifest.main (flattenExternalSystem manifest).2.main :=
  ⟨rfl, rewritten_self _ (namespaces manifest)⟩

end LasecSimul.Subsystems

/-!
## What an import preserves

Nothing of the table is overwritten, and every imported definition keeps its expansion.
-/

namespace LasecSimul.Subsystems

open Dsl (Text units)
open Lib.Unfolding (Tree)

/-- What an import makes of a table and of the incoming definitions. -/
structure KeepsMeaning (table incoming : List SubsystemDefinition) (reserved : List Text) (imported : Importing) : Prop where
  keeps : ∃ new, imported.result = table ++ new ∧ typeIds new = imported.added
  distinct : (typeIds imported.result).Nodup
  free : ∀ typeId ∈ imported.added, typeId ∉ reserved ∧ typeId ∉ typeIds table
  expansions : ∀ definition ∈ incoming, ∃ entry ∈ imported.result,
    imported.typeIdMap.get definition.typeId = some entry.typeId ∧
      ∀ depth, expansion imported.result depth entry = expansion incoming depth definition

theorem importSubsystemDefinitions_keepsMeaning (normalizeNfkd : Text → Text) {table incoming : List SubsystemDefinition}
    (reserved : List Text) (reuse : Bool) (document : DocumentTable table) (expandable : Expandable incoming) :
    KeepsMeaning table incoming reserved (importSubsystemDefinitions normalizeNfkd table incoming reserved reuse) := by
  obtain ⟨⟨new, grown, ids⟩, free, placed⟩ :=
    importSubsystemDefinitions_placed normalizeNfkd reserved reuse document expandable
  refine ⟨⟨new, grown, ids⟩, placed.distinct, ?_, ?_⟩
  · intro typeId added
    refine ⟨(free typeId added).1, fun old => ?_⟩
    have distinct := placed.distinct
    rw [grown, typeIds, List.map_append, List.nodup_append] at distinct
    rw [← ids] at added
    exact distinct.2.2 typeId old typeId added rfl
  · intro definition member
    obtain ⟨entry, mapped, inside, copies⟩ :=
      placed.placed definition.typeId definition (definitionOf_mem expandable.distinct member)
    exact ⟨entry, inside, mapped, placed.expansion_eq expandable.closed copies (expandable.closed definition member)⟩

/-- What a registration makes of a manifest. -/
structure Flattened (manifest : Manifest) (outcome : List SubsystemDefinition × Manifest) : Prop where
  distinct : (typeIds outcome.1).Nodup
  main : ∀ depth, expansion outcome.1 depth outcome.2.main = expansion manifest.subsystems depth manifest.main
  expansions : ∀ definition ∈ manifest.subsystems, ∃ entry ∈ outcome.1,
    entry.typeId = namespaced manifest definition.typeId ∧
      ∀ depth, expansion outcome.1 depth entry = expansion manifest.subsystems depth definition

theorem flattenExternalSystem_flattened {manifest : Manifest} (expandable : Expandable manifest.subsystems)
    (own : ClosedIn manifest.subsystems manifest.main)
    (named : ∀ typeId ∈ typeIds manifest.subsystems, isSubsystemTypeId typeId = true) :
    Flattened manifest (flattenExternalSystem manifest) := by
  have placed := flattenExternalSystem_placed expandable named
  refine ⟨placed.distinct, placed.expansion_eq expandable.closed (flattenExternalSystem_main manifest) own, ?_⟩
  intro definition member
  obtain ⟨entry, mapped, inside, copies⟩ :=
    placed.placed definition.typeId definition (definitionOf_mem expandable.distinct member)
  rw [namespaces_get (List.mem_map_of_mem member)] at mapped
  exact ⟨entry, inside, (Option.some.inj mapped).symm,
    placed.expansion_eq expandable.closed copies (expandable.closed definition member)⟩

/-- Meaning survives each way from one table to another. -/
theorem imports_keep_meaning (normalizeNfkd : Text → Text) :
    (∀ table incoming reserved reuse, DocumentTable table → Expandable incoming →
      KeepsMeaning table incoming reserved (importSubsystemDefinitions normalizeNfkd table incoming reserved reuse)) ∧
    (∀ table manifest options, DocumentTable table → Expandable manifest.subsystems →
      ClosedIn manifest.subsystems manifest.main →
      Incorporated table manifest (importExternalAsSubsystem normalizeNfkd table manifest options)) ∧
    (∀ source table definition externalTypeId options, Expandable source → DocumentTable table → definition ∈ source →
      valueAt (units "subsystems") definition.others = none →
      ∃ manifest, exportSubsystemAsExternal source definition.typeId externalTypeId = some manifest ∧
        Incorporated table manifest (importExternalAsSubsystem normalizeNfkd table manifest options) ∧
        ∀ depth, expansion manifest.subsystems depth manifest.main = expansion source depth definition) ∧
    (∀ manifest, Expandable manifest.subsystems → ClosedIn manifest.subsystems manifest.main →
      (∀ typeId ∈ typeIds manifest.subsystems, isSubsystemTypeId typeId = true) →
      Flattened manifest (flattenExternalSystem manifest)) := by
  refine ⟨?_, ?_, ?_, ?_⟩
  · intro table incoming reserved reuse document expandable
    exact importSubsystemDefinitions_keepsMeaning normalizeNfkd reserved reuse document expandable
  · intro table manifest options document expandable own
    exact importExternalAsSubsystem_incorporates normalizeNfkd options document expandable own
  · intro source table definition externalTypeId options expandable document member bare
    obtain ⟨manifest, exported, subsystems, own, main⟩ := exportSubsystemAsExternal_main expandable externalTypeId
      (definitionOf_mem expandable.distinct member) bare
    exact ⟨manifest, exported,
      importExternalAsSubsystem_incorporates normalizeNfkd options document subsystems own, main⟩
  · intro manifest expandable own named
    exact flattenExternalSystem_flattened expandable own named

/-! ### Fixed tables -/

theorem acyclic_of_rank {table : List SubsystemDefinition} (rank : Text → Nat)
    (lower : ∀ definition ∈ table, ∀ used ∈ references definition, used ∈ typeIds table → rank used < rank definition.typeId) :
    Acyclic table := by
  intro typeId cycle
  have descends : ∀ {user used}, Relation.TransGen (fun user used => used ∈ dependenciesOf table user) user used →
      rank used < rank user := by
    intro user used path
    have step : ∀ {user used}, used ∈ dependenciesOf table user → rank used < rank user := by
      intro user used uses
      obtain ⟨definition, found, refers, known⟩ := mem_dependenciesOf.mp uses
      obtain ⟨member, rfl⟩ := definitionOf_some found
      exact lower definition member used refers known
    induction path with
    | single uses => exact step uses
    | tail _ uses ih => exact (step uses).trans ih
  exact absurd (descends cycle) (Nat.lt_irrefl _)

def sampleGain : SubsystemDefinition :=
  ⟨units "subsystem.gain", units "Gain", some [⟨some (units "math.gain"), []⟩], []⟩

def sampleCascade : SubsystemDefinition :=
  ⟨units "subsystem.cascade", units "Cascade", some [⟨some (units "subsystem.gain"), []⟩, ⟨some (units "math.sum"), []⟩], []⟩

def sampleManifest : Manifest where
  typeId := some (units "subcircuits.plant")
  name := some (units "Plant")
  components := some [⟨some (units "subsystem.cascade"), []⟩]
  subsystems := [sampleCascade, sampleGain]
  others := []

theorem sample_evaluated :
    ((typeIds [sampleCascade, sampleGain]).Nodup ∧ ∀ typeId ∈ typeIds [sampleCascade, sampleGain],
      isSubsystemTypeId typeId = true) ∧
    ∀ definition ∈ [sampleCascade, sampleGain], ∀ used ∈ references definition,
      (used ∈ typeIds [sampleCascade, sampleGain] → used.length < definition.typeId.length) ∧
      (isSubsystemTypeId used = true → used ∈ typeIds [sampleCascade, sampleGain]) := by
  decide +kernel

theorem sample_document : DocumentTable [sampleCascade, sampleGain] := by
  obtain ⟨⟨distinct, named⟩, _⟩ := sample_evaluated
  exact ⟨distinct, named⟩

theorem sample_expandable : Expandable [sampleCascade, sampleGain] := by
  obtain ⟨⟨distinct, _⟩, used⟩ := sample_evaluated
  exact ⟨distinct, acyclic_of_rank List.length fun definition member id refers => (used definition member id refers).1,
    fun definition member id refers => (used definition member id refers).2⟩

/-- The sample tables and manifest go every way. -/
theorem imports_keep_meaning_sample :
    KeepsMeaning [sampleCascade, sampleGain] [sampleCascade, sampleGain] []
      (importSubsystemDefinitions id [sampleCascade, sampleGain] [sampleCascade, sampleGain] [] true) ∧
    Incorporated [sampleCascade, sampleGain] sampleManifest
      (importExternalAsSubsystem id [sampleCascade, sampleGain] sampleManifest {}) ∧
    (∃ manifest, exportSubsystemAsExternal [sampleCascade, sampleGain] sampleCascade.typeId (units "subcircuits.cascade") =
        some manifest ∧
      Incorporated [sampleCascade, sampleGain] manifest (importExternalAsSubsystem id [sampleCascade, sampleGain] manifest {}) ∧
      ∀ depth, expansion manifest.subsystems depth manifest.main = expansion [sampleCascade, sampleGain] depth sampleCascade) ∧
    Flattened sampleManifest (flattenExternalSystem sampleManifest) := by
  have own : ClosedIn sampleManifest.subsystems sampleManifest.main := by
    unfold ClosedIn
    decide +kernel
  refine ⟨?_, ?_, ?_, ?_⟩
  · exact (imports_keep_meaning id).1 _ _ [] true sample_document sample_expandable
  · exact (imports_keep_meaning id).2.1 _ sampleManifest {} sample_document sample_expandable own
  · exact (imports_keep_meaning id).2.2.1 _ _ sampleCascade _ {} sample_expandable sample_document
      List.mem_cons_self rfl
  · exact (imports_keep_meaning id).2.2.2 sampleManifest sample_expandable own sample_document.named

/-- The number of parts at the top, and whether the first of them is a leaf. -/
def firstPart : Tree Content Content (Option Text) → Nat × Bool
  | .node _ parts => (parts.length, match parts with
    | (_, .leaf _) :: _ => true
    | _ => false)
  | _ => (0, false)

theorem expansion_ne {table table' : List SubsystemDefinition} {definition definition' : SubsystemDefinition}
    (different : firstPart (expansion table 1 definition) ≠ firstPart (expansion table' 1 definition')) :
    expansion table 1 definition ≠ expansion table' 1 definition' := fun same => different (congrArg firstPart same)

def importedTable (table incoming : List SubsystemDefinition) : List SubsystemDefinition :=
  (importSubsystemDefinitions id table incoming [] false).result

/-- A definition under the name that the registration gives to another reference. -/
def unprefixedManifest : Manifest where
  typeId := some (units "p")
  name := none
  components := some [⟨some (units "a@p"), []⟩]
  subsystems := [⟨units "a", units "A", some [], []⟩]
  others := []

/-- A definition with a table of its own. -/
def tableInDefinition : SubsystemDefinition :=
  { sampleGain with
    others := [(units "subsystems", .array [.object
      [(units "typeId", .string (units "math.gain")), (units "name", .string (units "Gain"))]])] }

/-- Of two incoming definitions with one `typeId` only the second is imported, an entry of the table under a
`typeId` without the prefix captures a reference to an external type, and so do a registration of definitions
without the prefix and an export of a definition with a table of its own. -/
theorem import_loses_meaning :
    (∀ entry ∈ importedTable [] [{ sampleGain with components := none }, sampleGain],
      expansion (importedTable [] [{ sampleGain with components := none }, sampleGain]) 1 entry ≠
        expansion [{ sampleGain with components := none }, sampleGain] 1 { sampleGain with components := none }) ∧
    ((typeIds [{ sampleCascade with typeId := units "math.gain" }]).Nodup ∧ Expandable [sampleGain] ∧
      ∀ entry ∈ importedTable [{ sampleCascade with typeId := units "math.gain" }] [sampleGain],
        expansion (importedTable [{ sampleCascade with typeId := units "math.gain" }] [sampleGain]) 1 entry ≠
          expansion [sampleGain] 1 sampleGain) ∧
    expansion (flattenExternalSystem unprefixedManifest).1 1 (flattenExternalSystem unprefixedManifest).2.main ≠
      expansion unprefixedManifest.subsystems 1 unprefixedManifest.main ∧
    ∃ manifest, exportSubsystemAsExternal [tableInDefinition] tableInDefinition.typeId (units "p") = some manifest ∧
      expansion manifest.subsystems 1 manifest.main ≠ expansion [tableInDefinition] 1 tableInDefinition := by
  refine ⟨?_, ⟨by decide +kernel, ?_, ?_⟩, ?_, ?_⟩
  · intro entry member
    exact expansion_ne ((by decide +kernel : ∀ entry ∈ importedTable [] [{ sampleGain with components := none }, sampleGain],
      firstPart (expansion (importedTable [] [{ sampleGain with components := none }, sampleGain]) 1 entry) ≠
        firstPart (expansion [{ sampleGain with components := none }, sampleGain] 1 { sampleGain with components := none }))
      entry member)
  · exact ⟨by decide +kernel, acyclic_of_rank List.length (by decide +kernel), by
      unfold ClosedIn
      decide +kernel⟩
  · intro entry member
    exact expansion_ne ((by decide +kernel :
      ∀ entry ∈ importedTable [{ sampleCascade with typeId := units "math.gain" }] [sampleGain],
        firstPart (expansion (importedTable [{ sampleCascade with typeId := units "math.gain" }] [sampleGain]) 1 entry) ≠
          firstPart (expansion [sampleGain] 1 sampleGain)) entry member)
  · exact expansion_ne (by decide +kernel)
  · exact ⟨_, rfl, expansion_ne (by decide +kernel)⟩

end LasecSimul.Subsystems
