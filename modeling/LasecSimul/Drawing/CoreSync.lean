import LasecSimul.Drawing.Electrical

/-!
# The Core follows the drawing

Edges are compared by text, so an edit reaches the Core exactly when no two different pairs share a text, pairs that
both drawings have apart.
-/

namespace LasecSimul.Drawing

open Dsl (Text units CanonicalEndpoint WebviewWireModel)
open Lib (OrderedMap)
open Lib.Components

variable {before after wires others : List WebviewWireModel} {core : Set (Sym2 CanonicalEndpoint)}
  {pair : Sym2 CanonicalEndpoint} {a b : CanonicalEndpoint}

theorem edgeKey_comm : edgeKey a b = edgeKey b a := by
  unfold edgeKey
  dsimp only
  rcases lt_trichotomy (endpointId a ++ units "::" ++ endpointPinId a) (endpointId b ++ units "::" ++ endpointPinId b) with
    less | same | more
  · rw [if_pos less, if_neg less.asymm]
  · rw [same]
  · rw [if_neg more.asymm, if_pos more]

theorem key_of_pair {wire wire' : WebviewWireModel} (same : pairOf wire = pairOf wire') :
    electricalEdgeKey wire = electricalEdgeKey wire' := by
  unfold electricalEdgeKey
  rcases Sym2.eq_iff.mp same with ⟨first, second⟩ | ⟨first, second⟩
  · rw [first, second]
  · rw [first, second, edgeKey_comm]

theorem mem_only {wire : WebviewWireModel} (member : wire ∈ only (byKey wires) (byKey others)) :
    wire ∈ wires ∧ ∀ other ∈ others, electricalEdgeKey other ≠ electricalEdgeKey wire := by
  obtain ⟨⟨key, _⟩, kept, rfl⟩ := List.mem_map.mp member
  obtain ⟨stored, absent⟩ := List.mem_filter.mp kept
  obtain ⟨wire, listed, same⟩ := List.mem_map.mp (OrderedMap.mem_of_get_ofList (OrderedMap.mem_entries_iff.mp stored))
  obtain ⟨rfl, rfl⟩ := Prod.mk.inj same
  refine ⟨listed, fun other inside shared => ?_⟩
  have known : (byKey others).has (electricalEdgeKey wire) = true :=
    OrderedMap.has_iff.mpr (OrderedMap.mem_keys_ofList.mpr (by
      rw [List.map_map]
      exact List.mem_map.mpr ⟨other, inside, shared⟩))
  rw [known] at absent
  contradiction

/-- One wire stands for all wires of a text that the others do not have. -/
theorem exists_only {wire : WebviewWireModel} (member : wire ∈ wires)
    (absent : ∀ other ∈ others, electricalEdgeKey other ≠ electricalEdgeKey wire) :
    ∃ kept ∈ only (byKey wires) (byKey others), electricalEdgeKey kept = electricalEdgeKey wire ∧
      ∀ other ∈ only (byKey wires) (byKey others), electricalEdgeKey other = electricalEdgeKey wire → other = kept := by
  have known : electricalEdgeKey wire ∈ (byKey wires).keys := OrderedMap.mem_keys_ofList.mpr (by
    rw [List.map_map]
    exact List.mem_map.mpr ⟨wire, member, rfl⟩)
  obtain ⟨kept, found⟩ := OrderedMap.mem_keys_iff.mp known
  have unknown : (byKey others).has (electricalEdgeKey wire) = false := by
    rw [← Bool.not_eq_true, OrderedMap.has_iff]
    intro inside
    have inside := OrderedMap.mem_keys_ofList.mp inside
    rw [List.map_map] at inside
    obtain ⟨other, listed, shared⟩ := List.mem_map.mp inside
    exact absent other listed shared
  have keyed : ∀ {key other}, (byKey wires).get key = some other → electricalEdgeKey other = key := by
    intro key other found
    obtain ⟨_, _, same⟩ := List.mem_map.mp (OrderedMap.mem_of_get_ofList found)
    obtain ⟨rfl, rfl⟩ := Prod.mk.inj same
    rfl
  refine ⟨kept, List.mem_map.mpr ⟨_, List.mem_filter.mpr ⟨OrderedMap.mem_entries_iff.mpr found, by simp [unknown]⟩, rfl⟩,
    keyed found, fun other listed shared => ?_⟩
  obtain ⟨⟨key, _⟩, stored, rfl⟩ := List.mem_map.mp listed
  have stored := OrderedMap.mem_entries_iff.mp (List.mem_filter.mp stored).1
  have same : key = electricalEdgeKey wire := (keyed stored).symm.trans shared
  rw [same, found] at stored
  exact (Option.some.inj stored).symm

theorem pairsOf_cons (wire : WebviewWireModel) (wires : List WebviewWireModel) :
    pairsOf (wire :: wires) = insert (pairOf wire) (pairsOf wires) := by
  ext pair
  simp [pairsOf, eq_comm]

theorem foldl_disconnect (removed : List WebviewWireModel) (core : Set (Sym2 CanonicalEndpoint)) :
    applyOperations core (removed.map (⟨.disconnect, ·⟩)) = core \ pairsOf removed := by
  unfold applyOperations
  induction removed generalizing core with
  | nil => simp [pairsOf]
  | cons wire removed ih =>
    rw [List.map_cons, List.foldl_cons, ih, pairsOf_cons, Set.insert_eq, ← Set.sdiff_sdiff]
    rfl

theorem foldl_connect (added : List WebviewWireModel) (core : Set (Sym2 CanonicalEndpoint)) :
    applyOperations core (added.map (⟨.connect, ·⟩)) = core ∪ pairsOf added := by
  unfold applyOperations
  induction added generalizing core with
  | nil => simp [pairsOf]
  | cons wire added ih =>
    rw [List.map_cons, List.foldl_cons, ih, pairsOf_cons, Set.union_insert, ← Set.insert_union]
    rfl

theorem applyOperations_diff (before after : ElectricalProject) (core : Set (Sym2 CanonicalEndpoint)) :
    applyOperations core (electricalOperationsDiff before after) =
      (core \ pairsOf (only (byKey (electricalEdgesForProject before)) (byKey (electricalEdgesForProject after)))) ∪
        pairsOf (only (byKey (electricalEdgesForProject after)) (byKey (electricalEdgesForProject before))) := by
  have split : ∀ first second, applyOperations core (first ++ second) =
      applyOperations (applyOperations core first) second := fun first second => List.foldl_append
  unfold electricalOperationsDiff diffElectricalEdges
  dsimp only
  rw [split, foldl_disconnect, foldl_connect]

/-- Two different pairs of one text are edges of both drawings. -/
def ToldApart (before after : List WebviewWireModel) : Prop :=
  ∀ edge ∈ before ++ after, ∀ edge' ∈ before ++ after, electricalEdgeKey edge = electricalEdgeKey edge' →
    pairOf edge ≠ pairOf edge' → pairOf edge ∈ pairsOf before ∧ pairOf edge ∈ pairsOf after

theorem mem_pairsOf {wire : WebviewWireModel} (member : wire ∈ wires) : pairOf wire ∈ pairsOf wires := ⟨wire, member, rfl⟩

theorem toldApart_of_synced
    (synced : (pairsOf before \ pairsOf (only (byKey before) (byKey after))) ∪ pairsOf (only (byKey after) (byKey before)) =
      pairsOf after) : ToldApart before after := by
  intro edge member edge' member' shared different
  have listed := List.mem_append.mp member
  have listed' := List.mem_append.mp member'
  by_cases inBefore : ∃ other ∈ before, electricalEdgeKey other = electricalEdgeKey edge
  · by_cases inAfter : ∃ other ∈ after, electricalEdgeKey other = electricalEdgeKey edge
    · -- a text of both drawings is left alone
      obtain ⟨old, inside, oldShared⟩ := inBefore
      obtain ⟨new, inside', newShared⟩ := inAfter
      have agree : pairOf edge ∈ pairsOf before ↔ pairOf edge ∈ pairsOf after := by
        rw [← synced]
        constructor
        · intro held
          refine .inl ⟨held, ?_⟩
          rintro ⟨removed, gone, same⟩
          exact (mem_only gone).2 new inside' (newShared.trans (key_of_pair same).symm)
        · rintro (⟨held, _⟩ | ⟨added, came, same⟩)
          · exact held
          · exact absurd (oldShared.trans (key_of_pair same).symm) ((mem_only came).2 old inside)
      rcases listed with held | held
      · exact ⟨mem_pairsOf held, agree.mp (mem_pairsOf held)⟩
      · exact ⟨agree.mpr (mem_pairsOf held), mem_pairsOf held⟩
    · -- only one pair of the text is removed
      have absent : ∀ other ∈ after, electricalEdgeKey other ≠ electricalEdgeKey edge := fun other inside same =>
        inAfter ⟨other, inside, same⟩
      have first := listed.resolve_right fun inside => absent edge inside rfl
      have second := listed'.resolve_right fun inside => absent edge' inside shared.symm
      obtain ⟨kept, _, _, unique⟩ := exists_only first absent
      have removed : ∀ other ∈ before, electricalEdgeKey other = electricalEdgeKey edge → pairOf other = pairOf kept := by
        intro other inside same
        by_contra apart
        have held : pairOf other ∈ pairsOf after := by
          rw [← synced]
          refine .inl ⟨mem_pairsOf inside, ?_⟩
          rintro ⟨gone, listed, equal⟩
          exact apart (unique gone listed ((key_of_pair equal).trans same) ▸ equal).symm
        obtain ⟨new, inside', equal⟩ := held
        exact absent new inside' ((key_of_pair equal).trans same)
      exact absurd ((removed edge first rfl).trans (removed edge' second shared.symm).symm) different
  · -- only one pair of the text is added
    have absent : ∀ other ∈ before, electricalEdgeKey other ≠ electricalEdgeKey edge := fun other inside same =>
      inBefore ⟨other, inside, same⟩
    have first := listed.resolve_left fun inside => absent edge inside rfl
    have second := listed'.resolve_left fun inside => absent edge' inside shared.symm
    obtain ⟨kept, _, _, unique⟩ := exists_only first absent
    have added : ∀ other ∈ after, electricalEdgeKey other = electricalEdgeKey edge → pairOf other = pairOf kept := by
      intro other inside same
      have held := mem_pairsOf inside
      rw [← synced] at held
      rcases held with ⟨⟨old, inside', equal⟩, _⟩ | ⟨came, listed, equal⟩
      · exact absurd ((key_of_pair equal).trans same) (absent old inside')
      · rw [← unique came listed ((key_of_pair equal).trans same), equal]
    exact absurd ((added edge first rfl).trans (added edge' second shared.symm).symm) different

theorem synced_of_toldApart (apart : ToldApart before after) :
    (pairsOf before \ pairsOf (only (byKey before) (byKey after))) ∪ pairsOf (only (byKey after) (byKey before)) =
      pairsOf after := by
  ext pair
  constructor
  · rintro (⟨⟨old, inside, rfl⟩, stays⟩ | ⟨new, came, rfl⟩)
    · by_cases shared : ∃ new ∈ after, electricalEdgeKey new = electricalEdgeKey old
      · obtain ⟨new, inside', shared⟩ := shared
        by_cases same : pairOf old = pairOf new
        · exact same ▸ mem_pairsOf inside'
        · exact (apart old (List.mem_append_left _ inside) new (List.mem_append_right _ inside') shared.symm same).2
      · obtain ⟨kept, gone, shared, _⟩ := exists_only inside fun new inside' same => shared ⟨new, inside', same⟩
        refine (apart old (List.mem_append_left _ inside) kept (List.mem_append_left _ (mem_only gone).1) shared.symm ?_).2
        exact fun same => stays ⟨kept, gone, same.symm⟩
    · exact mem_pairsOf (mem_only came).1
  · rintro ⟨new, inside, rfl⟩
    by_cases held : pairOf new ∈ pairsOf before
    · refine .inl ⟨held, ?_⟩
      rintro ⟨removed, gone, same⟩
      exact (mem_only gone).2 new inside (key_of_pair same).symm
    · have lone : ∀ other ∈ before ++ after, electricalEdgeKey other = electricalEdgeKey new → pairOf other = pairOf new := by
        intro other listed shared
        by_contra different
        exact held (apart new (List.mem_append_right _ inside) other listed shared.symm (Ne.symm different)).1
      obtain ⟨kept, came, shared, _⟩ := exists_only inside fun old inside' shared =>
        held (lone old (List.mem_append_left _ inside') shared ▸ mem_pairsOf inside')
      exact .inr ⟨kept, came, lone kept (List.mem_append_right _ (mem_only came).1) shared⟩

/-- The Core's pairs and the drawing after one more edit. -/
def edit (state : Set (Sym2 CanonicalEndpoint) × ElectricalProject) (after : ElectricalProject) :
    Set (Sym2 CanonicalEndpoint) × ElectricalProject :=
  (applyOperations state.1 (electricalOperationsDiff state.2 after), after)

/-- The Core starts with the edges of the first drawing. -/
def edits (first : ElectricalProject) (rest : List ElectricalProject) : Set (Sym2 CanonicalEndpoint) × ElectricalProject :=
  rest.foldl edit (pairsOf (electricalEdgesForProject first), first)

/-- The edges join what the wires join, one edge less than ports in every net. -/
structure Flattens (project : ElectricalProject) : Prop where
  joins : ∀ a b, isPort a = true → isPort b = true →
    (Connected (electricalEdgesForProject project) a b ↔ Connected project.wires a b)
  count : (electricalEdgesForProject project).length + (netsOf project.wires).ncard = (portsOf project.wires).ncard

/-- The edit turns the pairs of the old drawing into those of the new one. -/
def Follows (before after : ElectricalProject) : Prop :=
  applyOperations (pairsOf (electricalEdgesForProject before)) (electricalOperationsDiff before after) =
    pairsOf (electricalEdgesForProject after)

def EditToldApart (before after : ElectricalProject) : Prop :=
  ToldApart (electricalEdgesForProject before) (electricalEdgesForProject after)

theorem flattens (project : ElectricalProject) : Flattens project :=
  ⟨fun _ _ portA portB => edges_join project portA portB, edges_count project⟩

theorem follows_iff (before after : ElectricalProject) : Follows before after ↔ EditToldApart before after := by
  unfold Follows
  rw [applyOperations_diff]
  exact ⟨toldApart_of_synced, synced_of_toldApart⟩

theorem edits_follow (first : ElectricalProject) (rest : List ElectricalProject)
    (apart : (first :: rest).IsChain EditToldApart) :
    (edits first rest).1 = pairsOf (electricalEdgesForProject (edits first rest).2) := by
  unfold edits
  induction rest generalizing first with
  | nil => rfl
  | cons next rest ih =>
    obtain ⟨step, apart⟩ := List.isChain_cons_cons.mp apart
    have followed : edit (pairsOf (electricalEdgesForProject first), first) next =
        (pairsOf (electricalEdgesForProject next), next) := by
      have step : Follows first next := (follows_iff first next).mpr step
      unfold edit
      dsimp only
      rw [step]
    rw [List.foldl_cons, followed]
    exact ih next apart

/-- Every drawing is flattened to its nets, and the Core follows an edit exactly when the texts tell its pairs apart. -/
theorem core_follows_drawing (before after : ElectricalProject) (first : ElectricalProject) (rest : List ElectricalProject)
    (apart : (first :: rest).IsChain EditToldApart) :
    Flattens before ∧ (Follows before after ↔ EditToldApart before after) ∧
      (edits first rest).1 = pairsOf (electricalEdgesForProject (edits first rest).2) :=
  ⟨flattens before, follows_iff before after, edits_follow first rest apart⟩

/-- The ends of the edges. -/
def edgeEnds (project : ElectricalProject) : List (CanonicalEndpoint × CanonicalEndpoint) :=
  (portsOfNets project.wires).flatMap spokes

theorem edge_ends {project : ElectricalProject} {edge : WebviewWireModel}
    (member : edge ∈ electricalEdgesForProject project) : (edge.fromEnd, edge.toEnd) ∈ edgeEnds project := by
  unfold edgeEnds
  rw [← edges_pairs]
  exact List.mem_map.mpr ⟨edge, member, rfl⟩

theorem exists_edge {project : ElectricalProject} {ends : CanonicalEndpoint × CanonicalEndpoint}
    (member : ends ∈ edgeEnds project) :
    ∃ edge ∈ electricalEdgesForProject project, (edge.fromEnd, edge.toEnd) = ends := by
  unfold edgeEnds at member
  rw [← edges_pairs] at member
  exact List.mem_map.mp member

theorem toldApart_of_injective {before after : ElectricalProject}
    (injective : ∀ p ∈ edgeEnds before ++ edgeEnds after, ∀ q ∈ edgeEnds before ++ edgeEnds after,
      edgeKey p.1 p.2 = edgeKey q.1 q.2 → p = q) : EditToldApart before after := by
  have listed : ∀ edge ∈ electricalEdgesForProject before ++ electricalEdgesForProject after,
      (edge.fromEnd, edge.toEnd) ∈ edgeEnds before ++ edgeEnds after := fun edge member =>
    List.mem_append.mpr ((List.mem_append.mp member).imp edge_ends edge_ends)
  intro edge member edge' member' shared different
  obtain ⟨first, second⟩ := Prod.mk.inj (injective _ (listed edge member) _ (listed edge' member') shared)
  exact absurd (by rw [pairOf, pairOf, first, second]) different

/-- Three resistors at a node. -/
def threeBranches : ElectricalProject where
  wires := [plainWire (units "w1") (.port (units "a") (units "pin-1")) (.node (units "j")),
    plainWire (units "w2") (.port (units "b") (units "pin-1")) (.node (units "j")),
    plainWire (units "w3") (.port (units "c") (units "pin-1")) (.node (units "j"))]
  topologyNodes := []

/-- The third branch is taken away. -/
def twoBranches : ElectricalProject where
  wires := [plainWire (units "w1") (.port (units "a") (units "pin-1")) (.port (units "b") (units "pin-1"))]
  topologyNodes := []

theorem core_follows_drawing_branchRemoved :
    Flattens threeBranches ∧ (Follows threeBranches twoBranches ↔ EditToldApart threeBranches twoBranches) ∧
      (edits threeBranches [twoBranches]).1 =
        pairsOf (electricalEdgesForProject (edits threeBranches [twoBranches]).2) :=
  core_follows_drawing threeBranches twoBranches threeBranches [twoBranches]
    (List.isChain_pair.mpr (toldApart_of_injective (by decide +kernel)))

/-- A wire between the pin `b::c` of `a` and a probe. -/
def probedPin : ElectricalProject where
  wires := [plainWire (units "w1") (.port (units "a") (units "b::c")) (.port (units "probe") (units "p"))]
  topologyNodes := []

/-- The wire moved to the pin `c` of `a::b`. -/
def movedProbe : ElectricalProject where
  wires := [plainWire (units "w1") (.port (units "a::b") (units "c")) (.port (units "probe") (units "p"))]
  topologyNodes := []

theorem movedProbe_notFollowed : ¬ ∀ before after, Follows before after := by
  intro always
  have apart := (follows_iff probedPin movedProbe).mp (always probedPin movedProbe)
  have old : edgeEnds probedPin = [(.port (units "a") (units "b::c"), .port (units "probe") (units "p"))] := by
    decide +kernel
  have new : edgeEnds movedProbe = [(.port (units "a::b") (units "c"), .port (units "probe") (units "p"))] := by
    decide +kernel
  obtain ⟨edge, member, ends⟩ := exists_edge (old ▸ List.mem_singleton_self _)
  obtain ⟨edge', member', ends'⟩ := exists_edge (new ▸ List.mem_singleton_self _)
  obtain ⟨first, second⟩ := Prod.mk.inj ends
  obtain ⟨first', second'⟩ := Prod.mk.inj ends'
  have different : pairOf edge ≠ pairOf edge' := by
    rw [pairOf, pairOf, first, second, first', second']
    decide +kernel
  have shared : electricalEdgeKey edge = electricalEdgeKey edge' := by
    rw [electricalEdgeKey, electricalEdgeKey, first, second, first', second']
    decide +kernel
  obtain ⟨other, inside, same⟩ :=
    (apart edge (List.mem_append_left _ member) edge' (List.mem_append_right _ member') shared different).2
  have listed := new ▸ edge_ends inside
  obtain ⟨first'', second''⟩ := Prod.mk.inj (List.mem_singleton.mp listed)
  refine different (same.symm.trans ?_)
  rw [pairOf, pairOf, first'', second'', first', second']

end LasecSimul.Drawing
