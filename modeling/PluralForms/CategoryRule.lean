import PluralForms.CompileError
import PluralForms.Text.Blank

/-!
# The rule of a category

In CLDR data the rule of a category and its samples are one text: the rule, then possibly a
section `@integer` with integer samples, then possibly a section `@decimal`, which is of no
interest here. This file takes such an entry apart.
-/

namespace PluralForms

open Text

/-- A category, the text of its rule, and the text of its integer samples. -/
structure CategoryRule where
  /-- The category the rule is for. -/
  category : Category
  /-- The text of the rule. -/
  rule : String
  /-- The text of the sample list. -/
  samples : Option String
deriving DecidableEq, Repr

namespace CategoryRule

/-- Keys of CLDR data have this in front of the category. -/
def keyLead : String := "pluralRule-count-"

/-- The category that a key names, with or without the lead. -/
def categoryTag (key : String) : String :=
  match keyLead.toList.isPrefixOf? key.toList with
  | some tag => String.ofList tag
  | none => key

/-- The rule and the integer section of an entry that has been cut at its `@` signs. -/
def sections? : List (List Char) → Option (List Char × Option (List Char))
  | [rule] => some (rule, none)
  | [rule, part] =>
    match "integer".toList.isPrefixOf? part, "decimal".toList.isPrefixOf? part with
    | some samples, _ => some (rule, some samples)
    | none, some _ => some (rule, none)
    | none, none => none
  | [rule, part, part'] =>
    match "integer".toList.isPrefixOf? part, "decimal".toList.isPrefixOf? part' with
    | some samples, some _ => some (rule, some samples)
    | _, _ => none
  | _ => none

/-- A section that is not blank, without the blanks at its ends. -/
def nonblank? (part : List Char) : Option String :=
  let trimmed := trim part
  if trimmed.isEmpty then none else some (String.ofList trimmed)

/-- Take the entry of a category apart. The catch-all may not have a rule. -/
def ofEntry (language key raw : String) : Except CompileError CategoryRule := do
  let some category := Category.ofText? (categoryTag key)
    | throw ⟨language, .malformedSet (.unknownCategory (categoryTag key))⟩
  let text := collapse raw.toList
  let some (rule, samples) := sections? (text.splitOn '@')
    | throw ⟨language, .unreadable category (String.ofList text) .badEntry⟩
  let rule := String.ofList (trim rule)
  if category.isCatchAll && !rule.isEmpty then
    throw ⟨language, .malformedSet (.ruleForOther rule)⟩
  return { category, rule, samples := samples.bind nonblank? }

end CategoryRule

end PluralForms
