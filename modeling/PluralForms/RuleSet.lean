import PluralForms.CategoryRule
import PluralForms.Rule
import PluralForms.Selector
import PluralForms.Table

/-!
# Rule sets

Compiling the rules of a language: they are put in canonical order and checked as a whole, each
rule becomes a condition or is dropped because no integer satisfies it, the conditions make up the
selector, and the selector has to put every published sample into the category it was published
for.

The stages are separate functions, and the first of them that fails decides the error.
-/

namespace PluralForms

/-- The compiled rules of a language. -/
structure RuleSet where
  /-- The label of the language. -/
  language : String
  /-- The categories integers can have, in canonical order. -/
  categories : List Category
  /-- The index of a count's category in that list. -/
  formula : Selector
  /-- The sample lists as published. -/
  examples : Table Category String

namespace RuleSet

/-- The number of categories. -/
def plurals (set : RuleSet) : Nat :=
  set.categories.length

/-- The category of a count. -/
def categoryFor (set : RuleSet) (n : Nat) : Option Category :=
  set.categories[set.formula.eval n]?

/-! ### The structure of a set -/

/-- The rules in canonical order; rules for the same category keep their order. -/
def sortRules (rules : List CategoryRule) : List CategoryRule :=
  Category.sortBy (·.category) rules

/-- The first category that two neighbours share. -/
def duplicate? : List CategoryRule → Option Category
  | a :: b :: rest => if a.category = b.category then some a.category else duplicate? (b :: rest)
  | _ => none

/-- The rules, in canonical order, are for different categories and end with a blank one for the
catch-all. -/
def checkStructure (language : String) (rules : List CategoryRule) : Except CompileError Unit :=
  match duplicate? rules with
  | some category => .error ⟨language, .malformedSet (.duplicated category)⟩
  | none =>
    match rules.getLast? with
    | some last =>
      if !last.category.isCatchAll then .error ⟨language, .malformedSet .missingOther⟩
      else if (Text.trim last.rule.toList).isEmpty then .ok ()
      else .error ⟨language, .malformedSet (.ruleForOther last.rule)⟩
    | none => .error ⟨language, .malformedSet .missingOther⟩

/-! ### The conditions of the categories -/

/-- The condition of one category, or nothing if no integer satisfies its rule, in which case it
may not have samples. -/
def resolveRule (language : String) (rule : CategoryRule) :
    Except CompileError (Option (Category × Condition)) :=
  match Rule.compileText rule.rule, rule.samples with
  | .error fault, _ => .error (fault.inRule language rule.category rule.rule)
  | .ok (.when condition), _ => .ok (some (rule.category, condition))
  | .ok .never, none => .ok none
  | .ok .never, some samples =>
    .error ⟨language, .contradiction rule.category rule.rule (.neverHolds samples)⟩
  | .ok .always, _ => .error (Fault.alwaysTrue.inRule language rule.category rule.rule)

/-- The conditions of all categories but the catch-all, in the order of the rules. -/
def resolve (language : String) (rules : List CategoryRule) :
    Except CompileError (List (Category × Condition)) := do
  let resolved ← (rules.filter (!·.category.isCatchAll)).mapM (resolveRule language)
  return resolved.filterMap id

/-! ### The selector -/

/-- The selector of the resolved categories. A fault in it is one of the first category. -/
def assemble (language : String) (rules : List CategoryRule)
    (resolved : List (Category × Condition)) : Except CompileError Selector :=
  (Selector.assemble (resolved.map (·.2))).mapError fun fault ↦
    let category := ((resolved.map (·.1)).head?).getD .other
    let rule := ((rules.find? (·.category == category)).map (·.rule)).getD ""
    fault.inRule language category rule

/-- The characters a formula is made of. -/
def formulaCharacters : List Char :=
  "0123456789n %!=<>&|()?:".toList

/-- A formula is evaluated by its readers, so its text has to be nothing but arithmetic. -/
def checkFormula (language : String) (formula : Selector) : Except CompileError Unit :=
  let text := formula.text
  if !text.isEmpty && text.toList.all formulaCharacters.contains then .ok ()
  else .error ⟨language, .unsafeFormula text⟩

/-! ### Samples -/

/-- The formula puts the sample into the category. -/
def checkSample (language : String) (formula : Selector) (categories : List Category)
    (category : Category) (sample : Nat) : Except CompileError Unit :=
  let index := formula.eval sample
  let actual := categories[index]?
  if actual = some category then .ok ()
  else .error ⟨language, .mismatch formula.text sample category actual index⟩

/-- The formula puts every sample of the list into the category. -/
def checkSamples (language : String) (formula : Selector) (categories : List Category)
    (category : Category) (text : String) : Except CompileError Unit :=
  match SampleList.read text with
  | .error fault => .error ⟨language, .badSamples category text fault⟩
  | .ok samples => samples.numbers.forM (checkSample language formula categories category)

/-! ### The set -/

/-- The sample lists of the rules that have one. -/
def examplesOf (rules : List CategoryRule) : Table Category String :=
  .ofList (rules.filterMap fun rule ↦ rule.samples.map (rule.category, ·))

/-- Compile the rules of a language. -/
def compile (language : String) (rules : List CategoryRule) : Except CompileError RuleSet := do
  let rules := sortRules rules
  checkStructure language rules
  let resolved ← resolve language rules
  if 1 < rules.length && resolved.isEmpty then
    throw ⟨language, .malformedSet .allDropped⟩
  let formula ← assemble language rules resolved
  let categories := resolved.map (·.1) ++ [.other]
  checkFormula language formula
  let examples := examplesOf rules
  examples.entries.forM fun (category, text) ↦
    checkSamples language formula categories category text
  return { language, categories, formula, examples }

/-- Compile the published entries of a language, given as keys and texts. -/
def compileEntries (language : String) (entries : List (String × String)) :
    Except CompileError RuleSet := do
  compile language (← entries.mapM fun (key, raw) ↦ CategoryRule.ofEntry language key raw)

end RuleSet

end PluralForms
