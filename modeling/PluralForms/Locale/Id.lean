import PluralForms.Text.Pattern

/-!
# Locale ids

A locale id is a language, possibly a script, possibly a territory, and possibly further pieces
that are ignored, parted by `-` or `_`. What is looked up for a locale depends on its language and
territory only.
-/

namespace PluralForms

/-- The pieces of a locale id that have a meaning here. -/
structure LocaleId where
  /-- Two or three small letters. -/
  language : String
  /-- A capital and three small letters. -/
  script : Option String
  /-- Two capitals or three digits. -/
  territory : Option String
deriving DecidableEq, Repr

namespace LocaleId

/-! ### Reading -/

/-- The signs that part the pieces of an id. -/
def isSeparator (c : Char) : Bool :=
  c == '-' || c == '_'

/-- The pieces of an id that have a meaning. -/
inductive Part where
  | language
  | script
  | territory
deriving DecidableEq, Repr

/-- How an id is spelled: two or three small letters; perhaps a capital and three small letters;
perhaps two capitals or three digits. Each of them begins after a separator, and where they end the
id does, or there is one more separator. -/
def pattern : Pattern Part :=
  .seq (.group .language (.repeated small 2 1)) <|
  .seq (.optional (.seq separator (.group .script (.seq capital (.repeated small 3 0))))) <|
  .seq (.optional (.seq separator
    (.group .territory (.orElse (.repeated capital 2 0) (.repeated digit 3 0))))) <|
  .orElse .atEnd separator
where
  separator := .one isSeparator
  small := .one Char.isLower
  capital := .one Char.isUpper
  digit := .one Char.isDigit

/-- The id that a text spells. -/
def read? (text : String) : Option LocaleId := do
  let captures ← pattern.match? text
  let language ← captures.lookup .language
  return {
    language := String.ofList language
    script := (captures.lookup .script).map String.ofList
    territory := (captures.lookup .territory).map String.ofList }

/-! ### Looking up -/

/-- The id without its script: the language, with the territory if there is one. -/
def baseId (id : LocaleId) : String :=
  match id.territory with
  | some territory => id.language ++ "-" ++ territory
  | none => id.language

/-- The ids under which something may be found for the locale, the closest first. -/
def lookupChain (id : LocaleId) : List String :=
  match id.territory with
  | some _ => [id.baseId, id.language]
  | none => [id.baseId]

/-- The spelling of an id in output: underscores for hyphens. -/
def normalize (text : String) : String :=
  String.ofList (text.toList.map fun c ↦ if c = '-' then '_' else c)

end LocaleId

end PluralForms
