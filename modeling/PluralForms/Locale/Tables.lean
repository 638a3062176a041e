import PluralForms.Json.Reader
import PluralForms.Locale.Error
import PluralForms.Locale.Id
import PluralForms.Table

/-!
# CLDR tables

The three tables that naming and converting locales need: English names of languages, English
names of territories, and the cardinal plural rules of locales. They are taken from three JSON
documents of a CLDR distribution, each of which has its table at a fixed path of fields. The
pseudo-locale `root` is left out of the languages and of the rules.
-/

namespace PluralForms

/-- Names of languages and territories, and plural rules by locale: for each category key the text
of its entry. -/
@[ext]
structure Tables where
  /-- English names by language code. -/
  languages : Table String String
  /-- English names by territory code. -/
  territories : Table String String
  /-- Entries by locale. -/
  cardinals : Table String (Table String String)
deriving Inhabited

namespace Tables

/-- Nothing known. -/
def empty : Tables :=
  ⟨∅, ∅, ∅⟩

/-- The entries of the closest locale that has any, with its id: the locale as it is written, its
language and territory, or its language. -/
def rulesFor (tables : Tables) (locale : String) : Option (String × Table String String) :=
  match tables.cardinals.get? locale with
  | some rules => some (locale, rules)
  | none =>
    (LocaleId.read? locale).bind fun id ↦
      id.lookupChain.findSome? fun key ↦ (tables.cardinals.get? key).map (key, ·)

/-! ### From JSON documents -/

/-- The pseudo-locale that stands for no language. -/
def rootLocale : String := "root"

/-- Where the names of languages are. -/
def languageFields : List String :=
  ["main", "en-US", "localeDisplayNames", "languages"]

/-- Where the names of territories are. -/
def territoryFields : List String :=
  ["main", "en-US", "localeDisplayNames", "territories"]

/-- Where the plural rules are. -/
def cardinalFields : List String :=
  ["supplemental", "plurals-type-cardinal"]

/-- Follow the fields down into a document. `passed` are the fields already followed. -/
def descend (path : String) (passed : List String) :
    List String → Json → Except LocaleError Json
  | [], value => .ok value
  | field :: fields, value =>
    match value.get? field with
    | some value => descend path (passed ++ [field]) fields value
    | none => .error (.missingField path (".".intercalate (passed ++ [field])))

/-- The object at the end of the fields. -/
def objectAt (path : String) (fields : List String) (document : Json) :
    Except LocaleError (Table String Json) := do
  match (← descend path [] fields document).members? with
  | some members => return members
  | none => throw (.invalidField path (".".intercalate fields) .object)

/-- An object all of whose values are strings. -/
def stringTable (path : String) (members : Table String Json) :
    Except LocaleError (Table String String) := do
  let entries ← members.entries.mapM fun (key, value) ↦
    match value.string? with
    | some text => .ok (key, text)
    | none => .error (.invalidField path key .string)
  return .ofList entries

/-- The rules of one locale. -/
def localeRules (path : String) : String × Json → Except LocaleError (String × Table String String)
  | (locale, value) => do
    match value.members? with
    | some members => return (locale, ← stringTable path members)
    | none => throw (.invalidField path locale .object)

/-- A JSON document and where it came from. -/
structure Source where
  /-- The name of the document in messages. -/
  path : String
  /-- Its content. -/
  document : Json

/-- The tables of three documents. They are looked into one after the other, and in each the keys in
their order; the first thing amiss is the error. -/
def ofSources (languages territories plurals : Source) : Except LocaleError Tables := do
  let languageNames ←
    stringTable languages.path (← objectAt languages.path languageFields languages.document)
  let territoryNames ←
    stringTable territories.path (← objectAt territories.path territoryFields territories.document)
  let rules ← objectAt plurals.path cardinalFields plurals.document
  let cardinals ← (rules.erase rootLocale).entries.mapM (localeRules plurals.path)
  return {
    languages := languageNames.erase rootLocale
    territories := territoryNames
    cardinals := .ofList cardinals }

/-- The tables of three documents that are not in files. -/
def ofDocuments (languages territories plurals : Json) : Except LocaleError Tables :=
  ofSources ⟨"<in-memory:languages>", languages⟩ ⟨"<in-memory:territories>", territories⟩
    ⟨"<in-memory:plurals>", plurals⟩

/-! ### From files -/

/-- The file with the names of languages. -/
def languagesFile : String := "main/en-US/languages.json"

/-- The file with the names of territories. -/
def territoriesFile : String := "main/en-US/territories.json"

/-- The file with the plural rules. -/
def pluralsFile : String := "supplemental/plurals.json"

/-- The path of a file in a directory. -/
def joinPath (directory file : String) : String :=
  if directory.isEmpty then file
  else if directory.endsWith "/" then directory ++ file
  else directory ++ "/" ++ file

/-- The JSON document in a file. -/
def readDocument (readText : String → Except ReadFailure String) (path : String) :
    Except LocaleError Source :=
  match readText path with
  | .error failure => .error (.unreadable path failure)
  | .ok text =>
    match Json.read? text with
    | some document => .ok { path, document }
    | none => .error (.invalidJson path)

/-- The tables of the files in a directory. All files are read before any of them is looked into. -/
def load (readText : String → Except ReadFailure String) (directory : String) :
    Except LocaleError Tables := do
  let languages ← readDocument readText (joinPath directory languagesFile)
  let territories ← readDocument readText (joinPath directory territoriesFile)
  let plurals ← readDocument readText (joinPath directory pluralsFile)
  ofSources languages territories plurals

end Tables

end PluralForms
