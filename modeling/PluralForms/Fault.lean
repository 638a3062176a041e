/-!
# Faults of a rule

What can be wrong with the text of one plural rule, or with the condition made of it.
-/

namespace PluralForms

/-- Why a rule has no condition, or its condition no negation. -/
inductive Fault where
  /-- The rule has a parenthesis somewhere. -/
  | parenthesized
  /-- The text is not a relation. -/
  | unhandledAtom (atom : String)
  /-- A remainder modulo zero. -/
  | zeroModulus (atom : String)
  /-- A range that ends before it starts. -/
  | emptyRange (atom : String) (first last : Nat)
  /-- The rule claims every integer. -/
  | alwaysTrue
  /-- The condition is not of a shape whose complement is known. -/
  | noNegation (formula : String)
deriving DecidableEq, Repr

namespace Fault

/-- The wording of a fault. -/
def message : Fault → String
  | parenthesized => "parenthesis handling not implemented"
  | unhandledAtom atom => "unhandled atom: '" ++ atom ++ "'"
  | zeroModulus atom => "zero modulus in atom: '" ++ atom ++ "'"
  | emptyRange atom first last =>
    "empty range " ++ toString first ++ ".." ++ toString last ++ " in atom: '" ++ atom ++ "'"
  | alwaysTrue => "always true"
  | noNegation formula => "no known negation for: " ++ formula

end Fault

end PluralForms
