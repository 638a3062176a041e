import PluralForms.Relation.Basic
import PluralForms.Truth

/-!
# The condition of a relation

A relation on a variable that is zero for every integer is decided. Any other is a junction over
its value list: a disjunction if the relation asks for membership, a conjunction if it is negated.
A range of two numbers is written as two comparisons of equality; a wider one compares with its
ends.
-/

namespace PluralForms.Relation

/-- The left side of the comparisons. -/
def operand (r : Relation) : Operand :=
  match r.modulus with
  | none => .count
  | some m => .remainder m

/-- The junction that joins what the values say. -/
def junction (r : Relation) (parts : List Condition) : Condition :=
  if r.negated then Condition.conj parts else Condition.disj parts

/-- What a single value says. -/
def valueCondition (r : Relation) (v : Nat) : Condition :=
  .compare r.operand (if r.negated then .ne else .eq) v

/-- What one item of the value list says. -/
def spanCondition (r : Relation) : Span → Condition
  | .single v => r.valueCondition v
  | .range first last =>
    if last = first + 1 then
      r.junction [r.valueCondition first, r.valueCondition last]
    else if r.negated then
      Condition.disj [.compare r.operand .lt first, .compare r.operand .gt last]
    else
      Condition.conj [.compare r.operand .ge first, .compare r.operand .le last]

/-- What a relation amounts to for integers. -/
def compile (r : Relation) : Truth :=
  if r.subject.isAlwaysZero then
    if r.lists 0 != r.negated then .always else .never
  else
    .when (r.junction (r.values.map r.spanCondition))

end PluralForms.Relation
