import PluralForms.Locale.Name
import PluralForms.RuleSet

/-!
# Converting all locales

Every locale that has plural rules is named and compiled on its own. The results are put together
under the normalized ids of the locales: what is published, which codes are obsolete, and what
failed.
-/

namespace PluralForms

/-- The plural definition of a locale as it is published. -/
@[ext]
structure LanguageEntry where
  /-- The English name. -/
  name : String
  /-- The number of categories. -/
  plurals : Nat
  /-- The text of the selector. -/
  formula : String
  /-- The categories, in the order of their indices. -/
  cases : List Category
  /-- The sample lists. -/
  examples : Table Category String

/-- The definition made of a name and compiled rules. -/
def LanguageEntry.ofRuleSet (name : String) (set : RuleSet) : LanguageEntry where
  name := name
  plurals := set.plurals
  formula := set.formula.text
  cases := set.categories
  examples := set.examples

/-- What becomes of a locale. -/
inductive Outcome where
  | converted (entry : LanguageEntry)
  | superseded (successor : String)

/-- What is left out of a conversion, and when it stops. -/
structure ConversionOptions where
  /-- The first locale that fails ends the conversion. -/
  failFast : Bool
  /-- Only these locales are converted, in either spelling; none named means all. -/
  only : List String

/-- The locale with this normalized id is to be converted. -/
def ConversionOptions.selects (options : ConversionOptions) (normalized : String) : Bool :=
  options.only.isEmpty || (options.only.map LocaleId.normalize).contains normalized

/-- The locales converted, set aside and failed. -/
structure Conversion where
  /-- What is published, by normalized id. -/
  languages : Table String LanguageEntry
  /-- The obsolete codes with their successors. -/
  superseded : Table String String
  /-- The locales that failed, with their errors, in the order of the locales. -/
  failures : List (String × LocaleError)

namespace Conversion

/-- Nothing converted yet. -/
def empty : Conversion :=
  ⟨∅, ∅, []⟩

/-- Nothing failed. -/
def isComplete (c : Conversion) : Bool :=
  c.failures.isEmpty

/-- Name and compile one locale. -/
def convertLocale (tables : Tables) (locale : String) (rules : Table String String) :
    Except LocaleError Outcome := do
  match ← DisplayName.ofLocale tables locale with
  | .superseded successor _ => return .superseded successor
  | .named name =>
    match RuleSet.compileEntries (LocaleId.normalize locale) rules.entries with
    | .ok set => return .converted (.ofRuleSet name set)
    | .error error => throw (.plural error)

/-- Add what became of the locale with the given normalized id. -/
def add (c : Conversion) (normalized : String) : Except LocaleError Outcome → Conversion
  | .ok (.converted entry) => { c with languages := c.languages.insert normalized entry }
  | .ok (.superseded successor) => { c with superseded := c.superseded.insert normalized successor }
  | .error error => { c with failures := c.failures ++ [(normalized, error)] }

/-- The normalized ids of the selected locales, each with what becomes of it, in the order of the
locales. -/
def outcomes (tables : Tables) (options : ConversionOptions) :
    List (String × Except LocaleError Outcome) :=
  (tables.cardinals.entries.filter fun (locale, _) ↦
    options.selects (LocaleId.normalize locale)).map
      fun (locale, rules) ↦ (LocaleId.normalize locale, convertLocale tables locale rules)

/-- The first error among the outcomes. -/
def firstError? (results : List (String × Except LocaleError Outcome)) : Option LocaleError :=
  results.findSome? fun
    | (_, .error error) => some error
    | _ => none

/-- Convert the selected locales. A failing locale is an error if the conversion is to stop there;
after that, so is an option that selects nothing. -/
def run (tables : Tables) (options : ConversionOptions) : Except LocaleError Conversion := do
  let results := outcomes tables options
  if options.failFast then
    if let some error := firstError? results then throw error
  let ids := results.map (·.1)
  match options.only.find? fun wanted ↦ !ids.contains (LocaleId.normalize wanted) with
  | some wanted => throw (.unknownLocale wanted)
  | none => return results.foldl (fun c (id, result) ↦ c.add id result) empty

end Conversion

end PluralForms
