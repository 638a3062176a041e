import PluralForms.Document.Html
import PluralForms.Document.Json
import PluralForms.Document.Php

/-!
# Documents

The forms in which the definitions of all locales can be published.
-/

namespace PluralForms

/-- The form of a document. -/
inductive Format where
  | json
  | prettyJson
  | php
  | html
deriving DecidableEq, Repr, Inhabited

namespace Format

/-- Every form. -/
def all : List Format :=
  [json, prettyJson, php, html]

/-- The name of a form. -/
def name : Format → String
  | json => "json"
  | prettyJson => "prettyjson"
  | php => "php"
  | html => "html"

/-- The form with the given name, which has to be spelled exactly. -/
def ofName? (text : String) : Option Format :=
  all.find? (·.name == text)

end Format

/-- The document of the given form. -/
def Document.render (format : Format) (languages : Table String LanguageEntry) : String :=
  match format with
  | .json => (languagesJson languages).compact
  | .prettyJson => (languagesJson languages).pretty ++ "\n"
  | .php => Document.php languages
  | .html => Document.html languages

end PluralForms
