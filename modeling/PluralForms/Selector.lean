import PluralForms.Condition.Negate

/-!
# Selector formulas

A selector is the `plural=` expression of a gettext header: it maps a count to the index of a
category. One category needs a constant, two a single condition, whose truth value is the index, and
more a chain of conditional operators that asks the conditions in turn.
-/

namespace PluralForms

/-- The shapes of a selector formula. -/
inductive Selector where
  | constant
  | binary (condition : Condition)
  | chain (tests : List Condition)
deriving DecidableEq, Repr

namespace Selector

/-- The selector for the categories claimed by the given conditions, in this order, and a last one
for all other counts. -/
def assemble : List Condition → Except Fault Selector
  | [] => .ok constant
  | [c] => c.negate.map binary
  | cs => .ok (chain (cs.map Condition.reduce))

/-- How many categories the selector tells apart. -/
def categoryCount : Selector → Nat
  | constant => 1
  | binary _ => 2
  | chain tests => tests.length + 1

/-- The index of the category of a count. -/
def eval (s : Selector) (n : Nat) : Nat :=
  match s with
  | constant => 0
  | binary c => (c.holds n).toNat
  | chain tests => tests.findIdx (·.holds n)

/-- The conditions in the selector. -/
def conditions : Selector → List Condition
  | constant => []
  | binary c => [c]
  | chain tests => tests

/-- The conditional operators for the tests from number `index` on, each in parentheses, with the
last index at the end. -/
def chainTail (index : Nat) : List Condition → String
  | [] => toString index
  | c :: cs =>
    "(" ++ c.grouped ++ " ? " ++ toString index ++ " : " ++ chainTail (index + 1) cs ++ ")"

/-- The formula. Every conditional operator but the outermost is parenthesized, so it reads the same
whichever way the operator associates. -/
def text : Selector → String
  | constant => "0"
  | binary c => c.text
  | chain [] => "0"
  | chain (c :: cs) => c.grouped ++ " ? 0 : " ++ chainTail 1 cs

end Selector

end PluralForms
