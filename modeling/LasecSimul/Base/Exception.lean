

/-! # C++ exceptions -/

namespace LasecSimul

/-- The exceptions the core throws, with their texts. `undefinedBehavior` marks a read the source
makes without a bounds check and that falls outside its vector. -/
inductive Exception where
  | invalidArgument (what : String)
  | outOfRange (what : String)
  | logicError (what : String)
  | runtimeError (what : String)
  | undefinedBehavior (what : String)
  deriving DecidableEq, Repr

/-- `if (condition) throw exception;`. -/
def throwIf (condition : Prop) [Decidable condition] (exception : Exception) : Except Exception Unit :=
  if condition then .error exception else .ok ()

theorem throwIf_ok {condition : Prop} [Decidable condition] {exception : Exception} {done : Unit}
    (h : throwIf condition exception = .ok done) : ¬condition := by
  intro holds
  rw [throwIf, if_pos holds] at h
  cases h

theorem throwIf_neg {condition : Prop} [Decidable condition] {exception : Exception} (fails : ¬condition) :
    throwIf condition exception = .ok () :=
  if_neg fails

def orThrow {α : Type} (value : Option α) (exception : Exception) : Except Exception α :=
  match value with
  | some value => .ok value
  | none => .error exception

theorem orThrow_ok {α : Type} {value : Option α} {exception : Exception} {a : α}
    (h : orThrow value exception = .ok a) : value = some a := by
  cases value with
  | none => cases h
  | some b => exact congrArg some (Except.ok.inj h)

end LasecSimul
