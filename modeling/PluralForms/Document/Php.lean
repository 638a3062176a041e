import PluralForms.Locale.Conversion

/-!
# Plural definitions as a PHP array

A PHP file that returns the definitions as a nested array. Texts stand in single quotes, where
only the quote and the backslash have to be escaped.
-/

namespace PluralForms.Document

/-- A character in a PHP literal. -/
def phpEscape (c : Char) : List Char :=
  if c = '\\' then ['\\', '\\']
  else if c = '\'' then ['\\', '\'']
  else [c]

/-- The PHP literal of a text. -/
def phpQuote (s : String) : String :=
  "'" ++ String.ofList (s.toList.flatMap phpEscape) ++ "'"

/-- A sample list of a definition. -/
def phpExample (category : Category) (text : String) : String :=
  "\n            " ++ phpQuote category.text ++ " => " ++ phpQuote text ++ ","

/-- The definition of a locale. -/
def phpEntry (id : String) (entry : LanguageEntry) : String :=
  "\n    " ++ phpQuote id ++ " => array("
    ++ "\n        'name' => " ++ phpQuote entry.name ++ ","
    ++ "\n        'plurals' => " ++ toString entry.plurals ++ ","
    ++ "\n        'formula' => " ++ phpQuote entry.formula ++ ","
    ++ "\n        'cases' => array("
    ++ ", ".intercalate (entry.cases.map fun c ↦ phpQuote c.text) ++ "),"
    ++ "\n        'examples' => array("
    ++ String.join (entry.examples.entries.map fun (c, text) ↦ phpExample c text)
    ++ "\n        ),\n    ),"

/-- The PHP file. -/
def php (languages : Table String LanguageEntry) : String :=
  "<?php\nreturn array("
    ++ String.join (languages.entries.map fun (id, entry) ↦ phpEntry id entry)
    ++ "\n);\n"

end PluralForms.Document
