import LasecSimul.Lib.Fallible
import LasecSimul.Subsystems.Hoisting

/-!
# What hoisting preserves

Where no definition holds a copy, and no copy with a table of its own holds further copies, every component keeps
its expansion.
-/

namespace LasecSimul.Subsystems

open Dsl (Text units)
open Lib (OrderedMap threaded)
open Lib.Unfolding (System Tree)

/-- The references of components without copies stay within the definitions. -/
def ClosedTo (definitions : List SubsystemDefinition) (components : List Component) : Prop :=
  ∀ component ∈ components, embeddedOf component = none → ∀ used, component.typeId = some used →
    isSubsystemTypeId used = true → used ∈ typeIds definitions

/-- A manifest that is complete without the document around it. -/
structure SelfContained (embedded : Fields) : Prop where
  expandable : Expandable (manifestSubsystems embedded)
  closed : ClosedTo (manifestSubsystems embedded) (embeddedComponents embedded)

/-- No copies in the manifest's own table, and either no such table or no copies in the manifest at all. -/
structure KeptApart (embedded : Fields) : Prop where
  plain : PlainTable (manifestSubsystems embedded)
  apart : manifestSubsystems embedded = [] ∨ ∀ component ∈ embeddedComponents embedded, embeddedOf component = none

/-- What holds of every copy among the components, at any depth. -/
inductive Throughout (P : Fields → Prop) : List Component → Prop
  | intro {components : List Component}
    (own : ∀ component ∈ components, ∀ embedded, embeddedOf component = some embedded → P embedded)
    (inner : ∀ component ∈ components, ∀ embedded, embeddedOf component = some embedded →
      Throughout P (embeddedComponents embedded)) : Throughout P components

variable {P : Fields → Prop} {components nested : List Component} {component component' : Component} {embedded : Fields}
  {table table' subsystems : List SubsystemDefinition} {definition entry : SubsystemDefinition}
  {typeIdMap : OrderedMap Text Text}

theorem Throughout.own (throughout : Throughout P components) (member : component ∈ components)
    (owner : embeddedOf component = some embedded) : P embedded := by
  cases throughout with
  | intro own inner => exact own component member embedded owner

theorem Throughout.inner (throughout : Throughout P components) (member : component ∈ components)
    (owner : embeddedOf component = some embedded) : Throughout P (embeddedComponents embedded) := by
  cases throughout with
  | intro own inner => exact inner component member embedded owner

theorem throughout_singleton (throughout : Throughout P components) (member : component ∈ components) :
    Throughout P [component] := by
  refine .intro ?_ ?_
  · intro other here embedded owner
    rw [List.mem_singleton.mp here] at owner
    exact throughout.own member owner
  · intro other here embedded owner
    rw [List.mem_singleton.mp here] at owner
    exact throughout.inner member owner

theorem throughout_of_plain (plain : ∀ component ∈ components, embeddedOf component = none) : Throughout P components := by
  refine .intro ?_ ?_
  all_goals
    intro component member embedded owner
    rw [plain component member] at owner
    cases owner

/-- What a component has become. -/
inductive HoistedTo (table : List SubsystemDefinition) : Component → Component → Prop
  | same {component : Component} (plain : embeddedOf component = none) : HoistedTo table component component
  | placed {component component' : Component} {embedded : Fields} {entry : SubsystemDefinition}
    (owner : embeddedOf component = some embedded) (plain : embeddedOf component' = none)
    (content : component'.content = component.own) (member : entry ∈ table) (named : component'.typeId = some entry.typeId)
    (means : ∀ depth, copyExpansion (manifestSubsystems embedded) depth (mainOf embedded) = expansion table depth entry) :
    HoistedTo table component component'

theorem HoistedTo.grow (hoisted : HoistedTo table component component') (ready : Ready table)
    (document : DocumentTable table') (grows : table <+: table') : HoistedTo table' component component' := by
  cases hoisted with
  | same plain => exact .same plain
  | @placed _ _ entry owner plain content member named means =>
    refine .placed owner plain content (grows.subset member) named fun depth => ?_
    rw [means, ready.expansion_grows document grows (ready.closed entry member)]

theorem Placed.rewrite_mem (placed : Placed subsystems table typeIdMap) {used : Text}
    (closed : isSubsystemTypeId used = true → used ∈ typeIds subsystems)
    (subsystem : isSubsystemTypeId (rewriteTypeId typeIdMap used) = true) : rewriteTypeId typeIdMap used ∈ typeIds table := by
  by_cases known : used ∈ typeIds subsystems
  · obtain ⟨definition, found⟩ := definitionOf_isSome known
    obtain ⟨entry, mapped, member, _⟩ := placed.placed used definition found
    have inside : entry.typeId ∈ typeIds table := List.mem_map_of_mem member
    rw [rewriteTypeId, mapped]
    dsimp only
    rwa [orElse, if_neg (ne_nil_of_subsystem (placed.named _ inside))]
  · have unmapped : typeIdMap.get used = none :=
      OrderedMap.get_eq_none_iff.mpr fun member => known (placed.keys member)
    rw [rewriteTypeId, unmapped] at subsystem
    exact absurd (closed subsystem) known

theorem Placed.rewrite_empty (placed : Placed [] table typeIdMap) (used : Text) : rewriteTypeId typeIdMap used = used := by
  have unmapped : typeIdMap.get used = none := OrderedMap.get_eq_none_iff.mpr fun member => by cases placed.keys member
  rw [rewriteTypeId, unmapped]

/-- What is needed of a copy whose components are hoisted. -/
structure CopyParts (embedded : Fields) (table : List SubsystemDefinition) (typeIdMap : OrderedMap Text Text)
    (nested : List Component) : Prop where
  self : SelfContained embedded
  apart : KeptApart embedded
  ready : Ready table
  placed : Placed (manifestSubsystems embedded) table typeIdMap
  hoisted : List.Forall₂ (HoistedTo table) (embeddedComponents embedded) nested

/-- One component of a copy, before and after. -/
inductive PartOf (embedded : Fields) (table : List SubsystemDefinition) (typeIdMap : OrderedMap Text Text) :
    Component → Component → Prop
  | same {component : Component} (plain : embeddedOf component = none)
    (closed : ∀ used, component.typeId = some used → isSubsystemTypeId used = true →
      used ∈ typeIds (manifestSubsystems embedded)) : PartOf embedded table typeIdMap component
        { component with typeId := component.typeId.map (rewriteTypeId typeIdMap) }
  | placed {component component' : Component} (hoisted : HoistedTo table component component')
    (owner : embeddedOf component ≠ none) : PartOf embedded table typeIdMap component component'

theorem CopyParts.parts (copy : CopyParts embedded table typeIdMap nested) :
    List.Forall₂ (PartOf embedded table typeIdMap) (embeddedComponents embedded)
      (rewriteComponentTypeIds nested typeIdMap) := by
  have hoisted := copy.hoisted
  have closed := copy.self.closed
  have apart := copy.apart.apart
  rw [rewriteComponentTypeIds, List.forall₂_map_right_iff]
  refine List.forall₂_iff_get.mpr ⟨hoisted.length_eq, fun i inside inside' => ?_⟩
  have each := hoisted.get inside inside'
  have member : (embeddedComponents embedded).get ⟨i, inside⟩ ∈ embeddedComponents embedded := List.get_mem _ _
  generalize (embeddedComponents embedded).get ⟨i, inside⟩ = component at each member
  generalize nested.get ⟨i, inside'⟩ = component' at each
  cases each with
  | same plain => exact .same plain (closed component member plain)
  | @placed _ _ entry owner plain content there named means =>
    have empty : manifestSubsystems embedded = [] := by
      refine apart.resolve_right fun bare => ?_
      rw [bare component member] at owner
      cases owner
    have unchanged : { component' with typeId := component'.typeId.map (rewriteTypeId typeIdMap) } = component' := by
      have placed := copy.placed
      rw [empty] at placed
      obtain ⟨typeId, others⟩ := component'
      cases typeId with
      | none => rfl
      | some used => rw [Option.map_some, placed.rewrite_empty]
    rw [unchanged]
    refine .placed (.placed owner plain content there named means) ?_
    rw [owner]
    exact Option.some_ne_none _

theorem PartOf.plain (part : PartOf embedded table typeIdMap component component') : embeddedOf component' = none := by
  cases part with
  | same plain closed => exact plain
  | placed hoisted owner =>
    cases hoisted with
    | same plain => exact absurd plain owner
    | placed _ plain _ _ _ _ => exact plain

/-- A component that became an instance means the same. -/
theorem HoistedTo.means (hoisted : HoistedTo table component component') (ready : Ready table)
    (owner : embeddedOf component ≠ none) (scope : List SubsystemDefinition) (depth : Nat) :
    (target scope component).1 = component'.content ∧
      Sum.LiftRel (fun a b => copyDiagrams.unfold depth a = (diagrams table).unfold depth b) Eq
        (target scope component).2 (resolve table component'.typeId) := by
  cases hoisted with
  | same plain => exact absurd plain owner
  | @placed _ _ entry own plain content member named means =>
    rw [target_some own, named, resolve, Option.bind_some, definitionOf_mem ready.document.distinct member]
    exact ⟨content.symm, .inl (means depth)⟩

theorem CopyParts.means (copy : CopyParts embedded table typeIdMap nested) (depth : Nat)
    (part : PartOf embedded table typeIdMap component component') :
    (target (manifestSubsystems embedded) component).1 = component'.content ∧
      Sum.LiftRel (fun a b => copyDiagrams.unfold depth a = (diagrams table).unfold depth b) Eq
        (target (manifestSubsystems embedded) component).2 (resolve table component'.typeId) := by
  cases part with
  | placed hoisted owner => exact hoisted.means copy.ready owner _ depth
  | same plain closed =>
    rw [target_none plain]
    refine ⟨rfl, ?_⟩
    dsimp only
    cases named : component.typeId with
    | none => exact .inr rfl
    | some used =>
      have related := copy.placed.resolve copy.self.expandable.closed (closed used named)
      rw [Option.map_some]
      cases found : resolve (manifestSubsystems embedded) (some used) with
      | inl definition =>
        rw [found] at related
        cases after : resolve table (some (rewriteTypeId typeIdMap used)) with
        | inr typeId =>
          rw [after] at related
          cases related
        | inl entry =>
          rw [after] at related
          cases related with
          | inl own =>
            refine .inl ?_
            have member := resolve_inl found
            have before := copyExpansion_of_plain copy.apart.plain (copy.apart.plain definition member) depth
            have same := copy.placed.expansion_eq copy.self.expandable.closed own.1 own.2 depth
            exact before.trans same.symm
      | inr typeId =>
        rw [found] at related
        cases after : resolve table (some (rewriteTypeId typeIdMap used)) with
        | inl entry =>
          rw [after] at related
          cases related
        | inr typeId' =>
          rw [after] at related
          cases related with
          | inr same => exact .inr same

section

variable {normalizeNfkd : Text → Text} {reservedTypeIds : List Text} {s : Hoisting}

theorem content_definitionOfCopy (component : Component) (embedded : Fields) (components : List Component) :
    (definitionOfCopy normalizeNfkd reservedTypeIds component embedded components).content = (mainOf embedded).content := by
  unfold definitionOfCopy
  dsimp only
  rw [SubsystemDefinition.content, content_withOrigin, content_without _ flattenKeys_subset]
  rfl

/-- The definition of a copy, in the table into which the copy's own table went. -/
structure Represents (embedded : Fields) (table : List SubsystemDefinition) (definition : SubsystemDefinition) : Prop where
  means : ∀ depth, copyExpansion (manifestSubsystems embedded) depth (mainOf embedded) = expansion table depth definition
  closed : ClosedIn table definition
  plain : Plain definition

theorem CopyParts.represents (copy : CopyParts embedded table typeIdMap nested) (component : Component) :
    Represents embedded table
      (definitionOfCopy normalizeNfkd reservedTypeIds component embedded (rewriteComponentTypeIds nested typeIdMap)) where
  means depth := by
    cases depth with
    | zero => rfl
    | succ depth =>
      refine System.unfold_succ_eq (content_definitionOfCopy component embedded _).symm ?_
      change List.Forall₂ _ ((embeddedComponents embedded).map _) ((rewriteComponentTypeIds nested typeIdMap).map _)
      rw [List.forall₂_map_left_iff, List.forall₂_map_right_iff]
      exact copy.parts.imp fun before after part => copy.means depth part
  closed := by
    intro used refers subsystem
    obtain ⟨after, member, named⟩ := List.mem_filterMap.mp refers
    obtain ⟨before, _, part⟩ := Lib.Fallible.mem_of_forall₂ copy.parts member
    cases part with
    | same plain closed =>
      obtain ⟨old, given, rfl⟩ := Option.map_eq_some_iff.mp named
      exact copy.placed.rewrite_mem (closed old given) subsystem
    | placed hoisted owner =>
      cases hoisted with
      | same plain => exact absurd plain owner
      | placed _ _ _ there name _ =>
        rw [name] at named
        obtain rfl := Option.some.inj named
        exact List.mem_map_of_mem there
  plain := by
    intro after member
    obtain ⟨before, _, part⟩ := Lib.Fallible.mem_of_forall₂ copy.parts member
    exact part.plain

theorem expansion_typeId (table : List SubsystemDefinition) (definition : SubsystemDefinition) (typeId : Text) (depth : Nat) :
    expansion table depth { definition with typeId } = expansion table depth definition := by
  cases depth with
  | zero => rfl
  | succ depth => rfl

theorem expansion_alike (content : entry.content = definition.content)
    (parts : List.Forall₂ SameComponent entry.parts definition.parts) (depth : Nat) :
    expansion table depth entry = expansion table depth definition := by
  cases depth with
  | zero => rfl
  | succ depth =>
    have self : ∀ meant : SubsystemDefinition ⊕ Option Text, Sum.LiftRel
        (fun a b => (diagrams table).unfold depth a = (diagrams table).unfold depth b) Eq meant meant := by
      intro meant
      cases meant with
      | inl other => exact .inl rfl
      | inr typeId => exact .inr rfl
    refine System.unfold_succ_eq content ?_
    change List.Forall₂ _ (entry.parts.map _) (definition.parts.map _)
    rw [List.forall₂_map_left_iff, List.forall₂_map_right_iff]
    exact parts.imp fun c c' alike => ⟨alike.1, alike.2 ▸ self (resolve table c.typeId)⟩

/-- What one turn leaves behind. -/
def Turned (s s' : Hoisting) (component component' : Component) : Prop :=
  Ready s'.current ∧ s.current <+: s'.current ∧ HoistedTo s'.current component component'

theorem placeCopy_turned (normalizeNfkd : Text → Text) (reservedTypeIds : List Text) (ready : Ready s.current)
    (owner : embeddedOf component = some embedded) (represents : Represents embedded s.current definition)
    (given : definition.components = some components) (preferred : isSubsystemTypeId definition.typeId = true) :
    Turned s (placeCopy normalizeNfkd reservedTypeIds s component embedded definition).2 component
      (placeCopy normalizeNfkd reservedTypeIds s component embedded definition).1 := by
  unfold placeCopy
  dsimp only
  split
  · next equal found =>
    have chosen := List.find?_some found
    have member := List.mem_of_find?_eq_some found
    have whole : canonicalJson (.object (without [] { equal with typeId := definition.typeId }.fields)) =
        canonicalJson (.object (without [] definition.fields)) := by
      rw [without_nil, without_nil]
      exact of_decide_eq_true chosen
    obtain ⟨content, parts⟩ := alike_of_fields (List.nil_subset _) List.not_mem_nil whole given
    refine ⟨ready, List.prefix_rfl, .placed owner (embeddedOf_without _ _) rfl member rfl fun depth => ?_⟩
    rw [represents.means, ← expansion_alike content parts, expansion_typeId]
  · generalize named : (if definition.typeId ∈ typeIds s.current then _ else _) = typeId
    have fresh : typeId ∉ typeIds s.current ∧ isSubsystemTypeId typeId = true := by
      split at named
      · rw [← named]
        obtain ⟨free, subsystem⟩ := uniqueSubsystemTypeId_spec normalizeNfkd
          (((textOf (valueAt (units "typeId") embedded)).or component.typeId).getD (units "subsistema"))
          (typeIds s.current ++ reservedTypeIds)
        rw [List.mem_append, not_or] at free
        exact ⟨free.1, subsystem⟩
      · next free =>
        rw [← named]
        exact ⟨free, preferred⟩
    have document : DocumentTable (s.current ++ [{ definition with typeId }]) := by
      constructor
      · rw [typeIds, List.map_append, List.nodup_append]
        refine ⟨ready.document.distinct, List.nodup_singleton _, ?_⟩
        rintro id member _ here rfl
        rw [List.mem_singleton.mp here] at member
        exact fresh.1 member
      · intro id member
        rw [typeIds, List.map_append] at member
        rcases List.mem_append.mp member with earlier | here
        · exact ready.document.named id earlier
        · rw [List.mem_singleton.mp here]
          exact fresh.2
    have closed : ClosedIn s.current { definition with typeId } := represents.closed
    have grows : s.current <+: s.current ++ [{ definition with typeId }] := List.prefix_append _ _
    refine ⟨ready.snoc document closed represents.plain, grows, ?_⟩
    refine .placed owner (embeddedOf_without _ _) rfl (List.mem_append_right _ (List.mem_singleton_self _)) rfl fun depth => ?_
    rw [represents.means, ready.expansion_grows document grows closed]
    exact (expansion_typeId s.current definition typeId depth).symm

theorem hoistComponent_turned {fuel : Nat} (enough : component.depth ≤ fuel) (ready : Ready s.current)
    (self : Throughout SelfContained [component]) (apart : Throughout KeptApart [component]) :
    Turned s (hoistComponent normalizeNfkd reservedTypeIds fuel s component).2 component
      (hoistComponent normalizeNfkd reservedTypeIds fuel s component).1 := by
  induction fuel generalizing s component with
  | zero =>
    cases owner : embeddedOf component with
    | none => exact ⟨ready, List.prefix_rfl, .same owner⟩
    | some embedded =>
      have := depth_of_embedded owner
      omega
  | succ fuel ih =>
    cases owner : embeddedOf component with
    | none =>
      rw [hoistComponent_none owner]
      exact ⟨ready, List.prefix_rfl, .same owner⟩
    | some embedded =>
      have here := List.mem_singleton_self component
      have selfHere := self.own here owner
      have apartHere := apart.own here owner
      have lower := depth_of_embedded owner
      have step : ∀ nested ∈ embeddedComponents embedded, ∀ s : Hoisting, Ready s.current →
          Turned s (hoistComponent normalizeNfkd reservedTypeIds fuel s nested).2 nested
            (hoistComponent normalizeNfkd reservedTypeIds fuel s nested).1 := by
        intro nested member s ready
        have := depth_of_nested member
        refine ih (by omega) ready ?_ ?_
        · exact throughout_singleton (self.inner here owner) member
        · exact throughout_singleton (apart.inner here owner) member
      have hoisted := Lib.threaded_spec (I := fun s : Hoisting => Ready s.current) (L := fun s s' => s.current <+: s'.current)
        (R := fun s component component' => HoistedTo s.current component component') (fun _ => List.prefix_rfl)
        List.IsPrefix.trans (fun ready ready' grows hoisted => hoisted.grow ready ready'.document grows) step
        (s := { s with migrated := s.migrated + 1 }) ready
      rw [hoistComponent, owner]
      dsimp only
      generalize threaded (hoistComponent normalizeNfkd reservedTypeIds fuel) { s with migrated := s.migrated + 1 }
        (embeddedComponents embedded) = outcome at hoisted
      obtain ⟨nested, s'⟩ := outcome
      obtain ⟨ready', grows, parts⟩ := hoisted
      have document := importSubsystemDefinitions_placed normalizeNfkd reservedTypeIds false ready'.document
        selfHere.expandable
      have current := importSubsystemDefinitions_ready normalizeNfkd reservedTypeIds false ready' selfHere.expandable
        apartHere.plain
      dsimp only at parts document current ⊢
      generalize importSubsystemDefinitions normalizeNfkd s'.current (manifestSubsystems embedded) reservedTypeIds false =
        imported at document current
      obtain ⟨⟨new, extended, _⟩, _, placed⟩ := document
      have further : s'.current <+: imported.result := extended ▸ List.prefix_append s'.current new
      have copy : CopyParts embedded imported.result imported.typeIdMap nested :=
        ⟨selfHere, apartHere, current, placed, parts.imp fun _ _ made => made.grow ready' current.document further⟩
      have last := placeCopy_turned normalizeNfkd reservedTypeIds (s := { s' with current := imported.result }) current
        owner (copy.represents component) rfl (uniqueSubsystemTypeId_spec normalizeNfkd _ reservedTypeIds).2
      exact ⟨last.1, (grows.trans further).trans last.2.1, last.2.2⟩

/-- The diagram of a component list. -/
def diagramOf (components : List Component) : SubsystemDefinition := ⟨[], [], some components, []⟩

/-- What hoisting keeps of the components and of the table. -/
structure KeepsCopies (components : List Component) (table : List SubsystemDefinition) (hoisted : Hoisted) : Prop where
  keeps : table <+: hoisted.table
  instances : List.Forall₂ (fun component component' => embeddedOf component ≠ none →
    ∃ entry ∈ hoisted.table, component'.typeId = some entry.typeId) components hoisted.components
  diagram : ∀ depth, copyExpansion hoisted.table depth (diagramOf hoisted.components) =
    copyExpansion table depth (diagramOf components)
  entries : ∀ entry ∈ table, ∀ depth, copyExpansion hoisted.table depth entry = copyExpansion table depth entry

theorem hoistList_hoists (ready : Ready table) (self : Throughout SelfContained components)
    (apart : Throughout KeptApart components) (migrated : Nat) :
    Ready (hoistList normalizeNfkd reservedTypeIds ⟨table, migrated⟩ components).2.current ∧
      table <+: (hoistList normalizeNfkd reservedTypeIds ⟨table, migrated⟩ components).2.current ∧
      List.Forall₂ (HoistedTo (hoistList normalizeNfkd reservedTypeIds ⟨table, migrated⟩ components).2.current) components
        (hoistList normalizeNfkd reservedTypeIds ⟨table, migrated⟩ components).1 :=
  Lib.threaded_spec (I := fun s : Hoisting => Ready s.current) (L := fun s s' => s.current <+: s'.current)
    (R := fun s component component' => HoistedTo s.current component component') (fun _ => List.prefix_rfl)
    List.IsPrefix.trans (fun ready ready' grows hoisted => hoisted.grow ready ready'.document grows)
    (fun _ member _ ready => hoistComponent_turned (depth_le_nesting member) ready
      (throughout_singleton self member) (throughout_singleton apart member)) ready

/-- A component of the document, in the table of before and in the longer one. -/
theorem HoistedTo.means_grown (hoisted : HoistedTo table' component component') (ready : Ready table) (ready' : Ready table')
    (grows : table <+: table') (closed : embeddedOf component = none → ∀ used, component.typeId = some used →
      isSubsystemTypeId used = true → used ∈ typeIds table) (depth : Nat) :
    (target table component).1 = component'.content ∧
      Sum.LiftRel (fun a b => copyDiagrams.unfold depth a = (diagrams table').unfold depth b) Eq
        (target table component).2 (resolve table' component'.typeId) := by
  cases hoisted with
  | @placed _ _ entry owner plain content member named means =>
    have owns : embeddedOf component ≠ none := by
      rw [owner]
      exact Option.some_ne_none _
    exact (HoistedTo.placed owner plain content member named means).means ready' owns table depth
  | same plain =>
    rw [target_none plain]
    refine ⟨rfl, ?_⟩
    dsimp only
    cases named : component.typeId with
    | none => exact .inr rfl
    | some used =>
      rw [resolve, resolve, Option.bind_some, Option.bind_some]
      by_cases known : used ∈ typeIds table
      · obtain ⟨entry, member, rfl⟩ := List.mem_map.mp known
        rw [definitionOf_mem ready.document.distinct member,
          definitionOf_mem ready'.document.distinct (grows.subset member)]
        refine .inl ?_
        have before := copyExpansion_of_plain ready.plain (ready.plain entry member) depth
        exact before.trans (ready.expansion_grows ready'.document grows (ready.closed entry member) depth).symm
      · have outside : used ∉ typeIds table' := fun there => known (closed plain used named (ready'.document.named used there))
        rw [definitionOf_none known, definitionOf_none outside]
        exact .inr rfl

theorem hoistEmbeddedSubsystems_keeps (ready : Ready table) (closed : ClosedTo table components)
    (self : Throughout SelfContained components) (apart : Throughout KeptApart components) :
    ∃ hoisted, hoistEmbeddedSubsystems normalizeNfkd reservedTypeIds components table = some hoisted ∧
      KeepsCopies components table hoisted := by
  have plain : ∀ component ∈ (hoistList normalizeNfkd reservedTypeIds ⟨table, 0⟩ components).1, embeddedOf component = none :=
    hoistList_plain _ components
  obtain ⟨ready', grows, made⟩ : Ready (hoistList normalizeNfkd reservedTypeIds ⟨table, 0⟩ components).2.current ∧
      table <+: (hoistList normalizeNfkd reservedTypeIds ⟨table, 0⟩ components).2.current ∧
      List.Forall₂ (HoistedTo (hoistList normalizeNfkd reservedTypeIds ⟨table, 0⟩ components).2.current) components
        (hoistList normalizeNfkd reservedTypeIds ⟨table, 0⟩ components).1 := hoistList_hoists ready self apart 0
  unfold hoistEmbeddedSubsystems
  generalize hoistList normalizeNfkd reservedTypeIds ⟨table, 0⟩ components = outcome at plain ready' grows made ⊢
  obtain ⟨components', s⟩ := outcome
  dsimp only at plain ready' grows made ⊢
  have bare : s.current.any holdsCopies = false := by
    rw [List.any_eq_false]
    exact fun definition member => Bool.not_eq_true _ ▸ holdsCopies_eq_false.mpr (ready'.plain definition member)
  rw [sweeps_of_plain 1 bare]
  refine ⟨_, rfl, grows, ?_, ?_, ?_⟩
  · refine made.imp fun component component' hoisted owner => ?_
    cases hoisted with
    | same plain => exact absurd plain owner
    | @placed _ _ entry _ _ _ member named _ => exact ⟨entry, member, named⟩
  · intro depth
    have diagram : Plain (diagramOf components') := plain
    rw [copyExpansion_of_plain ready'.plain diagram]
    cases depth with
    | zero => rfl
    | succ depth =>
      symm
      refine System.unfold_succ_eq rfl ?_
      change List.Forall₂ _ (components.map _) (components'.map _)
      rw [List.forall₂_map_left_iff, List.forall₂_map_right_iff]
      refine (Lib.Fallible.forall₂_mem made).imp fun component component' both => ?_
      exact both.2.means_grown ready ready' grows (closed component both.1) depth
  · intro entry member depth
    have own := ready.closed entry member
    rw [copyExpansion_of_plain ready'.plain (ready.plain entry member), copyExpansion_of_plain ready.plain
      (ready.plain entry member), ready.expansion_grows ready'.document grows own]

/-- Hoisting the result once more changes nothing. -/
theorem hoistEmbeddedSubsystems_ends (components : List Component) (table : List SubsystemDefinition) :
    ∃ hoisted, hoistEmbeddedSubsystems normalizeNfkd reservedTypeIds components table = some hoisted ∧
      ((∀ component ∈ hoisted.components, embeddedOf component = none) ∧ PlainTable hoisted.table) ∧
      hoistEmbeddedSubsystems normalizeNfkd reservedTypeIds hoisted.components hoisted.table =
        some { hoisted with migrated := 0 } := by
  have plain : ∀ component ∈ (hoistList normalizeNfkd reservedTypeIds ⟨table, 0⟩ components).1, embeddedOf component = none :=
    hoistList_plain _ components
  obtain ⟨s, ends, bare⟩ : ∃ s, sweeps normalizeNfkd reservedTypeIds 2
      (hoistList normalizeNfkd reservedTypeIds ⟨table, 0⟩ components).2 = some s ∧ s.current.any holdsCopies = false :=
    sweeps_end _
  refine ⟨⟨(hoistList normalizeNfkd reservedTypeIds ⟨table, 0⟩ components).1, s.current, s.migrated⟩, ?_, ⟨plain, ?_⟩, ?_⟩
  · unfold hoistEmbeddedSubsystems
    dsimp only
    rw [ends]
    rfl
  · intro definition member
    have free := List.any_eq_false.mp bare definition member
    exact holdsCopies_eq_false.mp (Bool.eq_false_of_not_eq_true free)
  · unfold hoistEmbeddedSubsystems
    rw [hoistList_of_plain plain]
    have settled : sweeps normalizeNfkd reservedTypeIds 2 ⟨s.current, 0⟩ = some ⟨s.current, 0⟩ := sweeps_of_plain 1 bare
    dsimp only
    rw [settled]
    rfl

end

/-- Hoisting always ends with no copy left, and keeps every expansion where no definition holds a copy and no copy
with a table of its own holds further copies. -/
theorem hoisting_keeps_meaning (normalizeNfkd : Text → Text) (reservedTypeIds : List Text) (components : List Component)
    (table : List SubsystemDefinition) :
    ∃ hoisted, hoistEmbeddedSubsystems normalizeNfkd reservedTypeIds components table = some hoisted ∧
      ((∀ component ∈ hoisted.components, embeddedOf component = none) ∧ PlainTable hoisted.table) ∧
      hoistEmbeddedSubsystems normalizeNfkd reservedTypeIds hoisted.components hoisted.table =
        some { hoisted with migrated := 0 } ∧
      (DocumentTable table → (∀ definition ∈ table, ClosedIn table definition) → ClosedTo table components →
        Throughout SelfContained components → PlainTable table → Throughout KeptApart components →
        KeepsCopies components table hoisted) := by
  obtain ⟨hoisted, outcome, bare, again⟩ : ∃ hoisted, hoistEmbeddedSubsystems normalizeNfkd reservedTypeIds components table =
      some hoisted ∧ ((∀ component ∈ hoisted.components, embeddedOf component = none) ∧ PlainTable hoisted.table) ∧
      hoistEmbeddedSubsystems normalizeNfkd reservedTypeIds hoisted.components hoisted.table =
        some { hoisted with migrated := 0 } := hoistEmbeddedSubsystems_ends components table
  refine ⟨hoisted, outcome, bare, again, fun document inside closed self plain apart => ?_⟩
  obtain ⟨hoisted', outcome', keeps⟩ : ∃ hoisted', hoistEmbeddedSubsystems normalizeNfkd reservedTypeIds components table =
      some hoisted' ∧ KeepsCopies components table hoisted' :=
    hoistEmbeddedSubsystems_keeps ⟨document, inside, plain⟩ closed self apart
  rw [outcome] at outcome'
  cases outcome'
  exact keeps

/-! ### Fixed documents -/

def jsonObject (fields : List (String × Json)) : Fields := fields.map fun field => (units field.1, field.2)

def copyOf (typeId : String) (embedded : Fields) : Component :=
  ⟨some (units typeId), [(units "subcircuitRef", .object [(units "embedded", .object embedded)])]⟩

def sampleSensor : Fields := jsonObject [("typeId", .string (units "subcircuits.sensor")), ("name", .string (units "Sensor"))]

/-- A plant that owns a copy of the sensor. -/
def samplePlant : Fields := jsonObject [("typeId", .string (units "subcircuits.plant")), ("name", .string (units "Plant")),
  ("components", .array [(copyOf "subcircuits.sensor" sampleSensor).toJson])]

/-- A definition of the table that owns a copy of the sensor. -/
def sampleOwner : SubsystemDefinition :=
  ⟨units "subsystem.owner", units "Owner", some [copyOf "subcircuits.sensor" sampleSensor], []⟩

/-- A plant with a copy of the sensor and with a definition of its own under the identifier that the copy gets. -/
def sampleCapture : Fields := jsonObject [("typeId", .string (units "subcircuits.plant")), ("name", .string (units "Plant")),
  ("components", .array [(copyOf "subcircuits.sensor" sampleSensor).toJson]),
  ("subsystems", .array [({ sampleGain with typeId := units "subsystem.sensor" } : SubsystemDefinition).toJson])]

theorem embeddedOf_copyOf (typeId : String) (embedded : Fields) : embeddedOf (copyOf typeId embedded) = some embedded := rfl

theorem embeddedComponents_sensor : embeddedComponents sampleSensor = [] := rfl

theorem embeddedComponents_plant : embeddedComponents samplePlant = [copyOf "subcircuits.sensor" sampleSensor] := rfl

theorem throughout_copyOf {typeId : String} (own : P embedded) (inner : Throughout P (embeddedComponents embedded)) :
    Throughout P [copyOf typeId embedded] := by
  refine .intro ?_ ?_
  all_goals
    intro component member other owner
    rw [List.mem_singleton.mp member, embeddedOf_copyOf] at owner
    cases owner
    assumption

theorem sample_throughout (plant : P samplePlant) (sensor : P sampleSensor) :
    Throughout P [copyOf "subcircuits.plant" samplePlant] := by
  refine throughout_copyOf plant ?_
  rw [embeddedComponents_plant]
  refine throughout_copyOf sensor ?_
  rw [embeddedComponents_sensor]
  exact throughout_of_plain nofun

theorem manifestSubsystems_sample : manifestSubsystems samplePlant = [] ∧ manifestSubsystems sampleSensor = [] := ⟨rfl, rfl⟩

theorem selfContained_of_bare (bare : manifestSubsystems embedded = []) (closed : ClosedTo [] (embeddedComponents embedded)) :
    SelfContained embedded := by
  refine ⟨?_, by rwa [bare]⟩
  rw [bare]
  exact ⟨List.nodup_nil, acyclic_of_rank List.length nofun, nofun⟩

theorem keptApart_of_bare (bare : manifestSubsystems embedded = []) : KeptApart embedded := by
  refine ⟨?_, .inl bare⟩
  rw [bare]
  exact nofun

/-- A plant with a sensor, hoisted into a table that is in use. -/
theorem hoisting_keeps_meaning_sample : ∃ hoisted, hoistEmbeddedSubsystems id [] [copyOf "subcircuits.plant" samplePlant]
    [sampleCascade, sampleGain] = some hoisted ∧
      KeepsCopies [copyOf "subcircuits.plant" samplePlant] [sampleCascade, sampleGain] hoisted := by
  obtain ⟨hoisted, outcome, _, _, keeps⟩ := hoisting_keeps_meaning id [] [copyOf "subcircuits.plant" samplePlant]
    [sampleCascade, sampleGain]
  have plant : SelfContained samplePlant := by
    refine selfContained_of_bare manifestSubsystems_sample.1 ?_
    rw [embeddedComponents_plant]
    intro component member bare
    rw [List.mem_singleton.mp member, embeddedOf_copyOf] at bare
    cases bare
  have sensor : SelfContained sampleSensor := by
    refine selfContained_of_bare manifestSubsystems_sample.2 ?_
    rw [embeddedComponents_sensor]
    exact nofun
  refine ⟨hoisted, outcome, keeps sample_document sample_expandable.closed ?_ ?_ ?_ ?_⟩
  · intro component member bare
    rw [List.mem_singleton.mp member, embeddedOf_copyOf] at bare
    cases bare
  · exact sample_throughout plant sensor
  · intro definition member component inside
    rcases List.mem_cons.mp member with rfl | member
    · rcases List.mem_cons.mp inside with rfl | inside
      · rfl
      · rw [List.mem_singleton.mp inside]
        rfl
    · rw [List.mem_singleton.mp member] at inside
      rw [List.mem_singleton.mp inside]
      rfl
  · exact sample_throughout (keptApart_of_bare manifestSubsystems_sample.1) (keptApart_of_bare manifestSubsystems_sample.2)

def firstChild : Tree Content Content (Option Text) → Tree Content Content (Option Text)
  | .node _ ((_, child) :: _) => child
  | tree => tree

/-- Without the first condition an instance is left whose definition is not in the table, and without the second
one an instance gets another definition than its copy. -/
theorem hoisting_loses_copies :
    (∃ hoisted, hoistEmbeddedSubsystems id [] [] [sampleOwner] = some hoisted ∧
      ∃ entry ∈ hoisted.table, ∃ used ∈ references entry, isSubsystemTypeId used = true ∧ used ∉ typeIds hoisted.table) ∧
    ∃ hoisted, hoistEmbeddedSubsystems id [] [copyOf "subcircuits.plant" sampleCapture] [] = some hoisted ∧
      ∃ depth, copyExpansion hoisted.table depth (diagramOf hoisted.components) ≠
        copyExpansion [] depth (diagramOf [copyOf "subcircuits.plant" sampleCapture]) := by
  constructor
  · have dangles : (hoistEmbeddedSubsystems id [] [] [sampleOwner]).map (fun hoisted => decide (∃ entry ∈ hoisted.table,
        ∃ used ∈ references entry, isSubsystemTypeId used = true ∧ used ∉ typeIds hoisted.table)) = some true := by
      decide +kernel
    obtain ⟨hoisted, outcome, dangling⟩ := Option.map_eq_some_iff.mp dangles
    exact ⟨hoisted, outcome, of_decide_eq_true dangling⟩
  · have captured : (hoistEmbeddedSubsystems id [] [copyOf "subcircuits.plant" sampleCapture] []).map (fun hoisted =>
        firstPart (firstChild (firstChild (copyExpansion hoisted.table 3 (diagramOf hoisted.components))))) =
        some (1, true) := by
      decide +kernel
    obtain ⟨hoisted, outcome, after⟩ := Option.map_eq_some_iff.mp captured
    refine ⟨hoisted, outcome, 3, fun same => ?_⟩
    have before : firstPart (firstChild (firstChild (copyExpansion [] 3
        (diagramOf [copyOf "subcircuits.plant" sampleCapture])))) = (0, false) := by decide +kernel
    rw [same, before] at after
    cases after

end LasecSimul.Subsystems
