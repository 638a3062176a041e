import PluralForms.Json.Writer
import PluralForms.Locale.Conversion

/-!
# Plural definitions as JSON

The JSON values of compiled rules and published definitions. The order of the members is the order
in which they are written.
-/

namespace PluralForms

/-- Categories by their tags. -/
def categoriesJson (categories : List Category) : Json :=
  .array (categories.map fun c ↦ .string c.text)

/-- Sample lists by category, in canonical order. -/
def examplesJson (examples : Table Category String) : Json :=
  .object (examples.entries.map fun (c, text) ↦ (c.text, .string text))

/-- The JSON value of compiled rules. -/
def RuleSet.toJson (set : RuleSet) : Json :=
  .object [("language", .string set.language), ("plurals", .nat set.plurals),
    ("categories", categoriesJson set.categories), ("formula", .string set.formula.text),
    ("examples", examplesJson set.examples)]

/-- The JSON value of a definition. -/
def LanguageEntry.toJson (entry : LanguageEntry) : Json :=
  .object [("name", .string entry.name), ("plurals", .nat entry.plurals),
    ("formula", .string entry.formula), ("cases", categoriesJson entry.cases),
    ("examples", examplesJson entry.examples)]

/-- Definitions by locale. -/
def languagesJson (languages : Table String LanguageEntry) : Json :=
  .object (languages.entries.map fun (id, entry) ↦ (id, entry.toJson))

end PluralForms
