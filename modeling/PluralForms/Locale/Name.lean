import PluralForms.Locale.Tables

/-!
# Names of locales

A locale that is in the language table has its name there. Any other is named by its language and
territory, `Portuguese (Brazil)`. A few codes have plural rules and no entry in the language table:
the obsolete ones refer to their successor, and the macro-languages are named here.
-/

namespace PluralForms

/-- How a locale is called. -/
inductive DisplayName where
  | named (name : String)
  /-- The code is obsolete; the name is that of its successor. -/
  | superseded (successor name : String)
deriving DecidableEq, Repr

namespace DisplayName

/-- Obsolete codes and their successors. -/
def successors : List (String × String) :=
  [("in", "id"), ("iw", "he"), ("ji", "yi"), ("jw", "jv"), ("mo", "ro-MD")]

/-- Names of languages that the tables do not list. -/
def macroLanguages : List (String × String) :=
  [("bh", "Bihari"), ("guw", "Gun"), ("nah", "Nahuatl"), ("smi", "Sami")]

/-- The name of a locale by the tables alone; nothing if they do not know its language. -/
def tableName (tables : Tables) (locale : String) (id : LocaleId) :
    Except LocaleError (Option String) :=
  match tables.languages.get? id.baseId, tables.languages.get? id.language, id.territory with
  | some name, _, _ => .ok (some name)
  | none, none, _ => .ok none
  | none, some language, none => .ok (some language)
  | none, some language, some territory =>
    match tables.territories.get? territory with
    | some name => .ok (some (language ++ " (" ++ name ++ ")"))
    | none => .error (.unknownTerritory locale territory)

/-- The name of a current code by the tables alone. -/
def currentName? (tables : Tables) (code : String) : Option String :=
  match tables.languages.get? code, LocaleId.read? code with
  | some name, _ => some name
  | none, none => none
  | none, some id =>
    match tableName tables code id with
    | .ok name => name
    | .error _ => none

/-- The name of a locale. -/
def ofLocale (tables : Tables) (locale : String) : Except LocaleError DisplayName :=
  match tables.languages.get? locale, LocaleId.read? locale with
  | some name, _ => .ok (.named name)
  | none, none => .error (.unknownLocale locale)
  | none, some id => do
    match ← tableName tables locale id with
    | some name => return .named name
    | none =>
      match successors.lookup id.baseId, macroLanguages.lookup id.baseId with
      | some code, _ =>
        match currentName? tables code with
        | some name => return .superseded (LocaleId.normalize code) name
        | none => throw (.unknownLanguage locale)
      | none, some name => return .named name
      | none, none => throw (.unknownLanguage locale)

end DisplayName

end PluralForms
