import PluralForms.Condition.Basic

/-!
# The text of a condition

Conditions are written as C expressions. `&&` binds tighter than `||`, so a conjunction never needs
parentheses; a disjunction gets them whenever it is a member of another junction. The condition of a
conditional operator is always one parenthesized group.
-/

namespace PluralForms.Condition

mutual

/-- The text of a condition, which is `nested` when it is a member of a junction. -/
def textWithin (nested : Bool) : Condition → String
  | .compare o r v => o.text ++ " " ++ r.symbol ++ " " ++ toString v
  | .all cs => " && ".intercalate (memberTexts cs)
  | .any cs =>
    let joined := " || ".intercalate (memberTexts cs)
    if nested then "(" ++ joined ++ ")" else joined

/-- The texts of the members of a junction. -/
def memberTexts : List Condition → List String
  | [] => []
  | c :: cs => textWithin true c :: memberTexts cs

end

/-- The text of a condition that stands on its own. -/
def text (c : Condition) : String :=
  textWithin false c

/-- The condition as one parenthesized group. -/
def grouped (c : Condition) : String :=
  "(" ++ c.text ++ ")"

theorem memberTexts_eq_map (cs : List Condition) : memberTexts cs = cs.map (textWithin true) := by
  induction cs with
  | nil => rfl
  | cons c cs ih => rw [memberTexts, ih, List.map_cons]

end PluralForms.Condition
