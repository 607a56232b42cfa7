import LasecSimul.Dsl.Lexer
import Mathlib.Data.Finmap
import Mathlib.Data.Finset.Sort
import Mathlib.Data.List.Lex

/-!
# Schematic documents

The values and endpoints of a document, and the schematic as the editor holds it.
-/

namespace LasecSimul.Dsl

open Lib.EcmaNumber (Number)

inductive DslValue where
  | string (value : Text)
  | number (value : Number)
  | boolean (value : Bool)
  | array (values : List DslValue)

/-- A `Record<string, DslValue>`; the order of its keys shows in the order of messages only. -/
abbrev Properties := Finmap fun _ : Text => DslValue

inductive CanonicalEndpoint where
  | port (componentId pinId : Text)
  | node (nodeId : Text)
  deriving DecidableEq

structure WebviewPoint where
  x : Number
  y : Number

structure WebviewPinModel where
  id : Text
  x : Number
  y : Number

inductive Rotation where
  | none
  | quarter
  | half
  | threeQuarters
  deriving DecidableEq

/-- A component; `others` stands for the fields that are only carried along. -/
structure WebviewComponentModel (Others : Type) where
  id : Text
  typeId : Text
  x : Number
  y : Number
  rotation : Rotation
  label : Text
  pins : List WebviewPinModel
  properties : Properties
  others : Option Others

structure TopologyNode where
  id : Text
  position : WebviewPoint

structure WebviewWireModel where
  id : Text
  fromEnd : CanonicalEndpoint
  toEnd : CanonicalEndpoint
  points : Option (List WebviewPoint)
  lineClass : Option Text
  isHidden : Option Bool

end LasecSimul.Dsl
