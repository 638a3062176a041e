import PluralForms.Condition.Negate

/-!
# Truth for integers

Over the integers some parts of a rule are decided before any count is known. A `Truth` says so: the
part holds always, never, or when a condition holds. Putting truths together folds the constants
away, so that they reach a condition nowhere.
-/

namespace PluralForms

/-- What is known of a part of a rule for an arbitrary integer count. -/
inductive Truth where
  | always
  | never
  | when (condition : Condition)
deriving DecidableEq, Repr

namespace Truth

/-- The truth at a count. -/
def holds (t : Truth) (n : Nat) : Bool :=
  match t with
  | always => true
  | never => false
  | .when c => c.holds n

/-- The condition of a truth that is not constant. -/
def condition? : Truth → Option Condition
  | .when c => some c
  | _ => none

/-- All of the parts hold. The condition is reduced. -/
def conjunction (parts : List Truth) : Truth :=
  if parts.contains never then never
  else
    match parts.filterMap condition? with
    | [] => always
    | cs => .when (Condition.conj cs).reduce

/-- Some of the parts holds. A part that always does is a fault: a rule may not claim everything. -/
def disjunction (parts : List Truth) : Except Fault Truth :=
  if parts.contains always then .error .alwaysTrue
  else
    match parts.filterMap condition? with
    | [] => .ok never
    | cs => .ok (.when (Condition.disj cs))

end Truth

end PluralForms
