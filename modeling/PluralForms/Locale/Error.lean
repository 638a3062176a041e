import PluralForms.CompileError

/-!
# Errors around locales

What can go wrong between the files of a CLDR distribution and the plural rules of a locale.
-/

namespace PluralForms

/-- Why a file cannot be read as a text. -/
inductive ReadFailure where
  | missing
  | notADirectory
  | isADirectory
  | nameTooLong
  | nulInName
  | notUtf8
  /-- Anything else, in the words of the system. -/
  | other (message : String)
deriving DecidableEq, Repr

/-- The wording of a failure. -/
def ReadFailure.message : ReadFailure → String
  | missing => "No such file or directory (os error 2)"
  | notADirectory => "Not a directory (os error 20)"
  | isADirectory => "Is a directory (os error 21)"
  | nameTooLong => "File name too long (os error 36)"
  | nulInName => "file name contained an unexpected NUL byte"
  | notUtf8 => "stream did not contain valid UTF-8"
  | other message => message

/-- What a document should have had at a field. -/
inductive Expectation where
  | object
  | string
deriving DecidableEq, Repr

/-- The wording of an expectation. -/
def Expectation.message : Expectation → String
  | object => "expected object"
  | string => "expected string"

/-- Why tables cannot be loaded, or a locale not be named, found or compiled. -/
inductive LocaleError where
  | unreadable (path : String) (failure : ReadFailure)
  | invalidJson (path : String)
  | missingField (path field : String)
  | invalidField (path field : String) (expectation : Expectation)
  | unknownLanguage (locale : String)
  | unknownTerritory (locale territory : String)
  | unknownLocale (locale : String)
  | noRules (locale : String)
  | plural (error : CompileError)
deriving DecidableEq, Repr

/-- The wording of an error. -/
def LocaleError.message : LocaleError → String
  | unreadable path failure => "I/O error at " ++ path ++ ": " ++ failure.message
  | invalidJson path => "invalid JSON at " ++ path ++ ": malformed document"
  | missingField path field => path ++ ": missing field `" ++ field ++ "`"
  | invalidField path field expectation =>
    path ++ ": invalid field `" ++ field ++ "` (" ++ expectation.message ++ ")"
  | unknownLanguage locale => "unknown language code: " ++ locale
  | unknownTerritory locale territory =>
    "unknown territory code '" ++ territory ++ "' in locale " ++ locale
  | unknownLocale locale => "unknown locale code: " ++ locale
  | noRules locale => "no plural rules for locale code: " ++ locale
  | plural error => error.message

end PluralForms
