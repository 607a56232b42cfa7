import Mathlib.Data.List.DropRight
import Mathlib.Data.List.Nodup
import Mathlib.Data.List.Perm.Subperm
import LasecSimul.Lib.OrderedMap
import LasecSimul.Lib.Postorder
import LasecSimul.Subsystems.Json

/-!
# Subsystems of a document

A definition is an entry of the table of a document, an instance a component whose `typeId` is the
definition's. `others` are the fields that no function here reads by name, and `normalizeNfkd` is the Unicode
normalization of `slugForSubsystem`.
-/

namespace LasecSimul.Subsystems

open Dsl (CodeUnit Text units natText isDigit isLineTerminator)
open Lib (OrderedMap)
open Lib.Postorder (postorder)

structure Component where
  typeId : Option Text
  others : Fields

structure SubsystemDefinition where
  typeId : Text
  name : Text
  components : Option (List Component)
  others : Fields

/-- A `Record<string, unknown>` as the functions read it: `subsystems` is `manifestSubsystems`. -/
structure Manifest where
  typeId : Option Text
  name : Option Text
  components : Option (List Component)
  subsystems : List SubsystemDefinition
  others : Fields

/-! ### Objects -/

/-- The fields with the keys set to `undefined`. -/
def without (keys : List Text) (fields : Fields) : Fields := fields.filter fun field => decide (field.1 ∉ keys)

/-- A field that is there or `undefined`. -/
def field (key : Text) (value : Option Json) : Fields := (value.map fun value => (key, value)).toList

def Component.fields (component : Component) : Fields :=
  field (units "typeId") (component.typeId.map .string) ++ without [units "typeId"] component.others

def Component.toJson (component : Component) : Json := .object component.fields

/-- The keys with a place of their own in a definition. -/
def namedKeys : List Text := [units "typeId", units "name", units "components"]

def SubsystemDefinition.fields (definition : SubsystemDefinition) : Fields :=
  field (units "typeId") (some (.string definition.typeId)) ++ field (units "name") (some (.string definition.name)) ++
    field (units "components") (definition.components.map fun components => .array (components.map Component.toJson)) ++
    without namedKeys definition.others

def SubsystemDefinition.toJson (definition : SubsystemDefinition) : Json := .object definition.fields

def textOf : Option Json → Option Text
  | some (.string text) => some text
  | _ => none

def Component.ofJson : Json → Component
  | .object fields => ⟨textOf (valueAt (units "typeId") fields), without [units "typeId"] fields⟩
  | _ => ⟨none, []⟩

def componentsOf : Option Json → Option (List Component)
  | some (.array items) => some (items.map Component.ofJson)
  | _ => none

/-- `none` where `isRecord` and the types of `typeId` and `name` reject the value. -/
def SubsystemDefinition.ofJson : Json → Option SubsystemDefinition
  | .object fields =>
    match textOf (valueAt (units "typeId") fields), textOf (valueAt (units "name") fields) with
    | some typeId, some name => some
        { typeId
          name
          components := componentsOf (valueAt (units "components") fields)
          others := without namedKeys fields }
    | _, _ => none
  | _ => none

def manifestSubsystems (manifest : Fields) : List SubsystemDefinition :=
  match valueAt (units "subsystems") manifest with
  | some (.array items) => items.filterMap SubsystemDefinition.ofJson
  | _ => []

/-! ### Identifiers -/

def subsystemTypePrefix : Text := units "subsystem."

def isSubsystemTypeId (typeId : Text) : Bool :=
  subsystemTypePrefix.isPrefixOf typeId && decide (subsystemTypePrefix.length < typeId.length)

def isAlphanumeric (unit : CodeUnit) : Bool :=
  isDigit unit || (65 ≤ unit.val && unit.val ≤ 90) || (97 ≤ unit.val && unit.val ≤ 122)

def isMark (unit : CodeUnit) : Bool := 0x300 ≤ unit.val && unit.val ≤ 0x36F

/-- `replace(/[^A-Za-z0-9]+/g, "_")`; `within` such a run. -/
def collapse (within : Bool) : Text → Text
  | [] => []
  | unit :: rest =>
    if isAlphanumeric unit then unit :: collapse false rest
    else if within then collapse true rest
    else 95 :: collapse true rest

def lowered (unit : CodeUnit) : CodeUnit := if 65 ≤ unit.val ∧ unit.val ≤ 90 then unit + 32 else unit

def stripped (front text : Text) : Text := if front.isPrefixOf text then text.drop front.length else text

/-- `replace(/@.*$/, "")`. -/
def dropVersion : Text → Text
  | [] => []
  | unit :: rest => if unit = 64 ∧ rest.all (fun unit => !isLineTerminator unit) then [] else unit :: dropVersion rest

/-- `split(".")`. -/
def splitDots : Text → List Text
  | [] => [[]]
  | unit :: rest =>
    if unit = 46 then [] :: splitDots rest
    else
      match splitDots rest with
      | [] => [[unit]]
      | first :: others => (unit :: first) :: others

/-- `join(".")`. -/
def joinDots : List Text → Text
  | [] => []
  | [part] => part
  | part :: next :: rest => part ++ 46 :: joinDots (next :: rest)

def orElse (text alternative : Text) : Text := if text = [] then alternative else text

/-- The loop over `index` from 2 on; one of the first `taken.length + 1` candidates is free. -/
def firstFree (taken : List Text) (candidate : Nat → Text) : Text :=
  (((List.range (taken.length + 1)).map fun index => candidate (index + 2)).find? (fun id => decide (id ∉ taken))).getD []

def isSpace (unit : CodeUnit) : Bool := Lib.EcmaNumber.isWhite (Char.ofNat unit.val)

def trim (text : Text) : Text := (text.dropWhile isSpace).rdropWhile isSpace

/-- `replace(/ \(\d+\)$/, "")`. -/
def dropNumber (text : Text) : Text :=
  match text.reverse with
  | 41 :: rest =>
    match rest.takeWhile isDigit, rest.dropWhile isDigit with
    | _ :: _, 40 :: 32 :: front => front.reverse
    | _, _ => text
  | _ => text

def uniqueSubsystemName (name : Text) (taken : List Text) : Text :=
  let base := orElse (trim name) (units "Subsistema")
  if base ∉ taken then base
  else firstFree taken fun index => dropNumber base ++ units " (" ++ natText index ++ units ")"

section

variable (normalizeNfkd : Text → Text)

def slugForSubsystem (text : Text) : Text :=
  let plain := collapse false ((normalizeNfkd text).filter fun unit => !isMark unit)
  orElse (((plain.dropWhile (· = 95)).rdropWhile (· = 95)).map lowered) (units "subsistema")

def typeIdBase (typeId : Text) : Text :=
  let bare := dropVersion (stripped subsystemTypePrefix (stripped (units "subcircuits.") typeId))
  orElse (joinDots ((splitDots bare).map (slugForSubsystem normalizeNfkd))) (units "subsistema")

def uniqueSubsystemTypeId (base : Text) (taken : List Text) : Text :=
  let root := subsystemTypePrefix ++ typeIdBase normalizeNfkd base
  if root ∉ taken then root else firstFree taken fun index => root ++ units "_" ++ natText index

end

theorem natText_injective {n m : Nat} (same : natText n = natText m) : n = m := by
  have ascii : ∀ n : Nat, ∀ c ∈ Nat.toDigits 10 n, c.toNat < 0x80 := by
    intro n c member
    have := (Lib.Numeral.digit_bounds (Lib.Numeral.isDigitOf_toDigits n c member)).2
    omega
  have read := congrArg Dsl.chars same
  rw [natText, natText, Dsl.chars_ofChars (ascii n), Dsl.chars_ofChars (ascii m)] at read
  rw [← Lib.Numeral.valueOf_toDigits n, read, Lib.Numeral.valueOf_toDigits]

theorem firstFree_spec {candidate : Nat → Text} (injective : Function.Injective candidate) (taken : List Text) :
    firstFree taken candidate ∉ taken ∧ ∃ index, firstFree taken candidate = candidate index := by
  unfold firstFree
  cases found : ((List.range (taken.length + 1)).map fun index => candidate (index + 2)).find?
      fun id => decide (id ∉ taken) with
  | some id =>
    have free := List.find?_some found
    obtain ⟨index, _, rfl⟩ := List.mem_map.mp (List.mem_of_find?_eq_some found)
    exact ⟨of_decide_eq_true free, index + 2, rfl⟩
  | none =>
    have all : (List.range (taken.length + 1)).map (fun index => candidate (index + 2)) ⊆ taken := by
      intro id member
      by_contra outside
      exact List.find?_eq_none.mp found id member (decide_eq_true outside)
    have nodup : ((List.range (taken.length + 1)).map fun index => candidate (index + 2)).Nodup :=
      List.nodup_range.map fun i j same => Nat.add_right_cancel (injective same)
    have longer := (List.subperm_of_subset nodup all).length_le
    rw [List.length_map, List.length_range] at longer
    omega

theorem isSubsystemTypeId_append {rest : Text} (nonempty : rest ≠ []) :
    isSubsystemTypeId (subsystemTypePrefix ++ rest) = true := by
  unfold isSubsystemTypeId
  rw [Bool.and_eq_true_iff]
  refine ⟨List.isPrefixOf_iff_prefix.mpr (List.prefix_append _ _), decide_eq_true ?_⟩
  rw [List.length_append]
  have := List.length_pos_of_ne_nil nonempty
  omega

theorem orElse_ne_nil {text alternative : Text} (nonempty : alternative ≠ []) : orElse text alternative ≠ [] := by
  unfold orElse
  split
  · exact nonempty
  · assumption

theorem uniqueSubsystemTypeId_spec (normalizeNfkd : Text → Text) (base : Text) (taken : List Text) :
    uniqueSubsystemTypeId normalizeNfkd base taken ∉ taken ∧
      isSubsystemTypeId (uniqueSubsystemTypeId normalizeNfkd base taken) = true := by
  have nonempty : typeIdBase normalizeNfkd base ≠ [] := orElse_ne_nil (by decide)
  unfold uniqueSubsystemTypeId
  dsimp only
  split
  · next free => exact ⟨free, isSubsystemTypeId_append nonempty⟩
  · have injective : Function.Injective fun index =>
        subsystemTypePrefix ++ typeIdBase normalizeNfkd base ++ units "_" ++ natText index := by
      intro i j same
      exact natText_injective (List.append_cancel_left same)
    obtain ⟨free, index, eq⟩ := firstFree_spec injective taken
    refine ⟨free, ?_⟩
    rw [eq, List.append_assoc, List.append_assoc]
    exact isSubsystemTypeId_append (List.append_ne_nil_of_left_ne_nil nonempty _)

def distinct : List Text → List Text
  | [] => []
  | typeId :: rest => typeId :: (distinct rest).filter (fun other => decide (other ≠ typeId))

def typeIds (table : List SubsystemDefinition) : List Text := table.map SubsystemDefinition.typeId

def references (definition : SubsystemDefinition) : List Text :=
  (definition.components.getD []).filterMap Component.typeId

def directDependencies (definition : SubsystemDefinition) (table : List SubsystemDefinition) : List Text :=
  distinct ((references definition).filter fun typeId => decide (typeId ∈ typeIds table))

def byTypeId (table : List SubsystemDefinition) : OrderedMap Text SubsystemDefinition :=
  .ofList (table.map fun entry => (entry.typeId, entry))

def dependenciesOf (table : List SubsystemDefinition) (typeId : Text) : List Text :=
  match (byTypeId table).get typeId with
  | some definition => directDependencies definition table
  | none => []

def subsystemClosure (roots : List Text) (table : List SubsystemDefinition) : List SubsystemDefinition :=
  (postorder (dependenciesOf table) table.length (roots.filter fun typeId => decide (typeId ∈ typeIds table))).filterMap
    (byTypeId table).get

def subsystemTopologicalOrder (table : List SubsystemDefinition) : List SubsystemDefinition :=
  subsystemClosure (typeIds table) table

/-- An empty `mapped` is falsy. -/
def rewriteTypeId (typeIdMap : OrderedMap Text Text) (typeId : Text) : Text :=
  match typeIdMap.get typeId with
  | some mapped => orElse mapped typeId
  | none => typeId

def rewriteComponentTypeIds (components : List Component) (typeIdMap : OrderedMap Text Text) : List Component :=
  components.map fun component => { component with typeId := component.typeId.map (rewriteTypeId typeIdMap) }

def contentKeyWithoutIdentity (definition : SubsystemDefinition) : Text :=
  canonicalJson (.object (without [units "typeId", units "name"] definition.fields))

structure Importing where
  result : List SubsystemDefinition
  byTypeId : OrderedMap Text SubsystemDefinition
  typeIdMap : OrderedMap Text Text
  added : List Text

section

variable (normalizeNfkd : Text → Text)

/-- One turn of the loop of `importSubsystemDefinitions`. -/
def importDefinition (reservedTypeIds : List Text) (reuseEquivalentContent : Bool) (s : Importing)
    (definition : SubsystemDefinition) : Importing :=
  let rewritten :=
    { definition with components := some (rewriteComponentTypeIds (definition.components.getD []) s.typeIdMap) }
  let existing := s.byTypeId.get definition.typeId
  if existing.any fun existing => decide (canonicalJson existing.toJson = canonicalJson rewritten.toJson) then
    { s with typeIdMap := s.typeIdMap.set definition.typeId definition.typeId }
  else
    let equivalent := if reuseEquivalentContent then
      s.result.find? fun entry => decide (contentKeyWithoutIdentity entry = contentKeyWithoutIdentity rewritten) else none
    match equivalent with
    | some equivalent => { s with typeIdMap := s.typeIdMap.set definition.typeId equivalent.typeId }
    | none =>
      let typeId := if existing = none ∧ isSubsystemTypeId definition.typeId ∧ definition.typeId ∉ reservedTypeIds
        then definition.typeId
        else uniqueSubsystemTypeId normalizeNfkd definition.typeId (s.byTypeId.keys ++ reservedTypeIds)
      let names := s.result.map SubsystemDefinition.name
      let name := if definition.name ∈ names then uniqueSubsystemName definition.name names else definition.name
      let imported := { rewritten with typeId, name }
      { result := s.result ++ [imported]
        byTypeId := s.byTypeId.set typeId imported
        typeIdMap := s.typeIdMap.set definition.typeId typeId
        added := s.added ++ [typeId] }

def importSubsystemDefinitions (table incoming : List SubsystemDefinition) (reservedTypeIds : List Text)
    (reuseEquivalentContent : Bool) : Importing :=
  (subsystemTopologicalOrder incoming).foldl (importDefinition normalizeNfkd reservedTypeIds reuseEquivalentContent)
    { result := table, byTypeId := byTypeId table, typeIdMap := .empty, added := [] }

end

structure ImportOptions where
  file : Option Text := none
  reservedTypeIds : List Text := []
  reuseEquivalent : Bool := false
  name : Option Text := none

/-- `origin?.typeId ?? ""`. -/
def originTypeId (fields : Fields) : Text :=
  match valueAt (units "origin") fields with
  | some (.object origin) => (textOf (valueAt (units "typeId") origin)).getD []
  | _ => []

def contentKey (definition : SubsystemDefinition) : Text :=
  canonicalJson (.object (without [units "typeId", units "name", units "origin"] definition.fields))

def baseName (manifest : Manifest) (options : ImportOptions) : Text :=
  match options.name, manifest.name with
  | some name, _ => name
  | none, some name =>
    if trim name ≠ [] then name else orElse (manifest.typeId.getD []) (units "Subsistema")
  | none, none => orElse (manifest.typeId.getD []) (units "Subsistema")

/-- `origin` with the fields that are there. -/
def originOf (typeId file : Text) : Fields :=
  (if typeId ≠ [] ∧ !isSubsystemTypeId typeId then [(units "typeId", .string typeId)] else []) ++
    if file ≠ [] then [(units "file", .string file)] else []

/-- `...(Object.keys(origin).length > 0 ? { origin } : {})`. -/
def withOrigin (origin others : Fields) : Fields :=
  if origin.isEmpty then others else (units "origin", .object origin) :: others

section

variable (normalizeNfkd : Text → Text)

def importExternalAsSubsystem (table : List SubsystemDefinition) (manifest : Manifest) (options : ImportOptions) :
    List SubsystemDefinition × Text :=
  let externalTypeId := manifest.typeId.getD []
  let imported := importSubsystemDefinitions normalizeNfkd table manifest.subsystems options.reservedTypeIds
    options.reuseEquivalent
  let origin := originOf externalTypeId (options.file.getD [])
  let candidate : SubsystemDefinition :=
    { typeId := []
      name := baseName manifest options
      components := some (rewriteComponentTypeIds (manifest.components.getD []) imported.typeIdMap)
      others := withOrigin origin manifest.others }
  let equivalent := if options.reuseEquivalent then
    imported.result.find? fun entry =>
      decide (originTypeId entry.others = (textOf (valueAt (units "typeId") origin)).getD [] ∧
        contentKey entry = contentKey candidate) else none
  match equivalent with
  | some equivalent => (imported.result, equivalent.typeId)
  | none =>
    let typeId := uniqueSubsystemTypeId normalizeNfkd
      (orElse externalTypeId (slugForSubsystem normalizeNfkd (baseName manifest options)))
      (typeIds imported.result ++ options.reservedTypeIds)
    let name := uniqueSubsystemName (baseName manifest options) (imported.result.map SubsystemDefinition.name)
    (imported.result ++ [{ candidate with typeId, name }], typeId)

end

def exportSubsystemAsExternal (table : List SubsystemDefinition) (typeId externalTypeId : Text) : Option Manifest :=
  match table.find? fun entry => decide (entry.typeId = typeId) with
  | none => none
  | some root =>
    let dependencies := (subsystemClosure [typeId] table).filter fun entry => decide (entry.typeId ≠ typeId)
    some
      { typeId := some externalTypeId
        name := some root.name
        components := root.components
        subsystems := if dependencies.isEmpty then manifestSubsystems root.others else dependencies
        others := without [units "origin", units "subsystems"] root.others }

def namespaced (manifest : Manifest) (typeId : Text) : Text :=
  typeId ++ units "@" ++ manifest.typeId.getD (units "external")

def flattenExternalSystem (manifest : Manifest) : List SubsystemDefinition × Manifest :=
  let map : OrderedMap Text Text :=
    .ofList (manifest.subsystems.map fun entry => (entry.typeId, namespaced manifest entry.typeId))
  let definitions := (subsystemTopologicalOrder manifest.subsystems).map fun entry =>
    { entry with
      typeId := (map.get entry.typeId).getD []
      components := some (rewriteComponentTypeIds (entry.components.getD []) map)
      others := without [units "subsystems"] entry.others }
  (definitions,
    { manifest with
      components := some (rewriteComponentTypeIds (manifest.components.getD []) map)
      subsystems := [] })

end LasecSimul.Subsystems
