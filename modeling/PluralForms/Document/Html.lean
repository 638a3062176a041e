import PluralForms.Locale.Conversion

/-!
# Plural definitions as an HTML table

A page with one table row per locale. Texts are escaped, so that no data can be taken for markup.
-/

namespace PluralForms.Document

/-- A character in the text of a page. -/
def htmlEscapeChar (c : Char) : List Char :=
  if c = '&' then "&amp;".toList
  else if c = '<' then "&lt;".toList
  else if c = '>' then "&gt;".toList
  else if c = '"' then "&quot;".toList
  else if c = '\'' then "&#x27;".toList
  else if c = '/' then "&#x2f;".toList
  else [c]

/-- A text as it stands in a page. -/
def htmlEscape (s : String) : String :=
  String.ofList (s.toList.flatMap htmlEscapeChar)

/-- What comes before the rows. -/
def htmlHead : String :=
  "<!doctype html>\n"
    ++ "<html lang=\"en\">\n"
    ++ "<head>\n"
    ++ "<meta charset=\"utf-8\">\n"
    ++ "<title>gettext plural rules - built from CLDR</title>\n"
    ++ "<meta name=\"description\" content=\"gettext plural rules for .po files generated from the "
    ++ "Unicode CLDR data\">\n"
    ++ "<style>\n"
    ++ "table \x7b border-collapse: collapse; \x7d\n"
    ++ "th, td \x7b border: 1px solid #ccc; padding: 2px 6px; vertical-align: top; \x7d\n"
    ++ "ol.cases code \x7b white-space: nowrap; display: block; \x7d\n"
    ++ "</style>\n"
    ++ "</head>\n"
    ++ "<body>\n"
    ++ "<table>\n"
    ++ "<thead>\n"
    ++ "<tr><th>Language code</th><th>Language name</th><th># plurals</th><th>Formula</th>"
    ++ "<th>Plurals</th></tr>\n"
    ++ "</thead>\n"
    ++ "<tbody>\n"

/-- What comes after the rows. -/
def htmlTail : String :=
  "</tbody>\n</table>\n</body>\n</html>\n"

/-- A category in the list of a row, with its samples. -/
def htmlCase (examples : Table Category String) (category : Category) : String :=
  let code :=
    match examples.get? category with
    | some text => "<code>" ++ htmlEscape text ++ "</code>"
    | none => ""
  "<li><span>" ++ htmlEscape category.text ++ "</span>" ++ code ++ "</li>"

/-- The row of a locale. -/
def htmlRow (id : String) (entry : LanguageEntry) : String :=
  "<tr><td>" ++ htmlEscape id ++ "</td><td>" ++ htmlEscape entry.name ++ "</td><td>"
    ++ toString entry.plurals ++ "</td><td>" ++ htmlEscape entry.formula
    ++ "</td><td><ol class=\"cases\" start=\"0\">"
    ++ String.join (entry.cases.map (htmlCase entry.examples))
    ++ "</ol></td></tr>\n"

/-- The page. -/
def html (languages : Table String LanguageEntry) : String :=
  htmlHead ++ String.join (languages.entries.map fun (id, entry) ↦ htmlRow id entry) ++ htmlTail

end PluralForms.Document
