import PluralForms.Condition.Reduce
import PluralForms.Condition.Text
import PluralForms.Fault

/-!
# Negation

A formula for two categories answers `0` where the one condition holds and `1` elsewhere, so it is
the complement of that condition, written out as a condition again.

Two conditions have their complement in a table. For the rest the complement is mechanical and
shallow: a comparison changes its operator, and a junction becomes the other junction of its
complemented members, where a member has to be a comparison or a junction of comparisons of a single
operand. Anything deeper is refused. The outcome is reduced in both cases.
-/

namespace PluralForms.Condition

/-- The conditions whose complement is written by hand. -/
def complements : List (Condition × Condition) :=
  [(.any [countIs .eq 1, countIs .eq 2, countIs .eq 3,
      .all [lastDigitIs .ne 4, lastDigitIs .ne 6, lastDigitIs .ne 9]],
    .all [countIs .ne 1, countIs .ne 2, countIs .ne 3,
      .any [lastDigitIs .eq 4, lastDigitIs .eq 6, lastDigitIs .eq 9]]),
   (.any [countIs .eq 0, countIs .eq 1, .all [countIs .ge 11, countIs .le 99]],
    .all [countIs .ge 2, .any [countIs .lt 11, countIs .gt 99]])]

/-- The complement of a comparison. -/
def flip? : Condition → Option Condition
  | .compare o r v => some (.compare o r.complement v)
  | _ => none

/-- The complement of a member of a junction: of a comparison, or of a junction of comparisons of a
single operand. -/
def complementMember? (c : Condition) : Option Condition :=
  match c with
  | .compare o r v => some (.compare o r.complement v)
  | .all cs => if c.soleOperand.isSome then (cs.mapM flip?).map disj else none
  | .any cs => if c.soleOperand.isSome then (cs.mapM flip?).map conj else none

/-- The complement of a condition by its shape. -/
def complement? : Condition → Option Condition
  | .compare o r v => some (.compare o r.complement v)
  | .all cs => (cs.mapM complementMember?).map disj
  | .any cs => (cs.mapM complementMember?).map conj

/-- A condition that holds exactly where the given one does not. -/
def negate (c : Condition) : Except Fault Condition :=
  match (complements.lookup c).or c.complement? with
  | some d => .ok d.reduce
  | none => .error (.noNegation c.text)

end PluralForms.Condition
