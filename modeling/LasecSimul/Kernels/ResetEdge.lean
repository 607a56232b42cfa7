import LasecSimul.Base.Binary64

/-!
# Reset modes

An edge of a reset signal depends on the signs of two samples only.
-/

namespace LasecSimul.Kernels

/-- How a sample compares with zero; a NaN does not. -/
inductive Sign where
  | negative
  | zero
  | positive
  | unordered
  deriving DecidableEq

namespace Sign

/-- `value <= 0.0`. -/
def nonpositive (sign : Sign) : Bool := sign == negative || sign == zero

/-- `value >= 0.0`. -/
def nonnegative (sign : Sign) : Bool := sign == positive || sign == zero

end Sign

def signOf {R : Type} [Double R] (value : R) : Sign :=
  if Double.lt value 0 then .negative
  else if Double.lt 0 value then .positive
  else if Double.eq value 0 then .zero
  else .unordered

inductive ResetMode where
  | none
  | rising
  | falling
  | either
  | level
  | levelHold
  deriving DecidableEq

def risingEdge (previous current : Sign) : Bool :=
  (previous.nonpositive && current == .positive) || (previous == .negative && current == .zero)

def fallingEdge (previous current : Sign) : Bool :=
  (previous.nonnegative && current == .negative) || (previous == .positive && current == .zero)

def resetTriggered : ResetMode → Sign → Sign → Bool
  | .rising, previous, current => risingEdge previous current
  | .falling, previous, current => fallingEdge previous current
  | .either, previous, current => risingEdge previous current || fallingEdge previous current
  | .level, previous, current => current != .zero || (previous != .zero && current == .zero)
  | .levelHold, _, current => current != .zero
  | .none, _, _ => false

end LasecSimul.Kernels
