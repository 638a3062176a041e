import PluralForms.Command.Arguments

/-!
# Running commands

A command needs the texts of some files and answers with a `Report`: what it writes to the
standard output and to the standard error, and its exit status. Nothing here touches a file system;
how a file is read is an argument.
-/

namespace PluralForms

/-- What a command leaves behind. -/
structure Report where
  /-- The exit status. -/
  status : Nat
  /-- The text on the standard output. -/
  output : String
  /-- The lines on the standard error. -/
  errors : List String
deriving DecidableEq, Repr

namespace Report

/-- The command succeeded. -/
def success (output : String) : Report :=
  ⟨0, output, []⟩

/-- The command failed and wrote nothing else. -/
def failure (message : String) : Report :=
  ⟨1, "", ["error: " ++ message]⟩

end Report

/-! ### Answers about one rule set -/

/-- The names of the categories in a row. -/
def caseNames (categories : List Category) : String :=
  ", ".intercalate (categories.map (·.text))

/-- The lines that describe compiled rules, the last of them in the form of a gettext header. -/
def RuleSet.summary (set : RuleSet) : String :=
  let count := toString set.plurals
  let formula := set.formula.text
  "  Plurals: " ++ count ++ "\n"
    ++ "  Formula: " ++ formula ++ "\n"
    ++ "  Cases: " ++ caseNames set.categories ++ "\n"
    ++ "  Plural-Forms: nplurals=" ++ count ++ "; plural=(" ++ formula ++ ");\n"

namespace CompileCommand

/-- The category and the rule of an argument `CATEGORY=RULE`. -/
def readRule? (argument : String) : Option (String × String) := do
  let (category, rule) ← Text.cutAtFirst? '=' argument.toList
  let category := Text.trim category
  if category.isEmpty then none else some (String.ofList category, String.ofList rule)

/-- The entries of the rules; the first that is none is the error. -/
def entries (command : CompileCommand) : Except String (List (String × String)) :=
  command.rules.mapM fun argument ↦
    match readRule? argument with
    | some entry => .ok entry
    | none => .error ("invalid --rule `" ++ argument ++ "`; expected CATEGORY=RULE")

/-- The answer for compiled rules. -/
def answer (command : CompileCommand) (set : RuleSet) : String :=
  if command.json then set.toJson.pretty ++ "\n"
  else "pluralc compile " ++ command.language ++ "\n" ++ set.summary

/-- Compile the rules. -/
def run (command : CompileCommand) : Report :=
  match command.entries with
  | .error message => .failure message
  | .ok entries =>
    match RuleSet.compileEntries command.language entries with
    | .error error => .failure error.message
    | .ok set => .success (command.answer set)

end CompileCommand

/-! ### Answers from tables -/

/-- The tables in a directory, or the report that they cannot be loaded. -/
def loadTables (readText : String → Except ReadFailure String) (directory : String) :
    Except Report Tables :=
  match Tables.load readText directory with
  | .ok tables => .ok tables
  | .error error =>
    .error (.failure ("failed to load CLDR data from " ++ directory ++ ": " ++ error.message))

/-- What is found for a locale. -/
structure Lookup where
  /-- The locale as it was asked for. -/
  locale : String
  /-- Its English name. -/
  name : String
  /-- The code that replaced it. -/
  successor : Option String
  /-- The normalized id of the locale whose rules it has. -/
  rulesId : String
  /-- Those rules, compiled. -/
  set : RuleSet

namespace Lookup

/-- Look a locale up: first its rules, then its name, and last the rules are compiled. -/
def find (tables : Tables) (locale : String) : Except LocaleError Lookup := do
  let some (key, rules) := tables.rulesFor locale
    | throw (.noRules locale)
  let (name, successor) ←
    match ← DisplayName.ofLocale tables locale with
    | .named name => pure (name, none)
    | .superseded successor name => pure (name, some successor)
  let rulesId := LocaleId.normalize key
  match RuleSet.compileEntries rulesId rules.entries with
  | .ok set => return { locale, name, successor, rulesId, set }
  | .error error => throw (.plural error)

/-- The JSON value of what was found; all members are in the order of their names. -/
def toJson (found : Lookup) : Json :=
  let examples : Table String Json :=
    .ofList (found.set.examples.entries.map fun (c, text) ↦ (c.text, .string text))
  .object [("cases", categoriesJson found.set.categories), ("examples", .object examples.entries),
    ("formula", .string found.set.formula.text), ("locale", .string found.locale),
    ("name", .string found.name), ("plurals", .nat found.set.plurals),
    ("rules", .string found.rulesId),
    ("superseded_by",
      match found.successor with
      | some successor => .string successor
      | none => .null)]

/-- What was found, in lines. -/
def text (found : Lookup) : String :=
  let superseded :=
    match found.successor with
    | some successor => "  Superseded by: " ++ successor ++ "\n"
    | none => ""
  "pluralc lookup " ++ found.locale ++ "\n"
    ++ "  Name: " ++ found.name ++ "\n"
    ++ superseded
    ++ "  Rules: " ++ found.rulesId ++ "\n"
    ++ found.set.summary

end Lookup

/-- Look a locale up. -/
def LookupCommand.run (command : LookupCommand)
    (readText : String → Except ReadFailure String) : Report :=
  match loadTables readText command.directory with
  | .error report => report
  | .ok tables =>
    match Lookup.find tables command.locale with
    | .error error => .failure error.message
    | .ok found =>
      .success (if command.json then found.toJson.pretty ++ "\n" else found.text)

/-- The report of a conversion: the document, and a line for each locale that failed. -/
def Conversion.report (c : Conversion) (format : Format) : Report :=
  let output := Document.render format c.languages
  if c.isComplete then .success output
  else
    let failed := c.failures.length
    let lines := c.failures.map fun (id, error) ↦ "error: " ++ id ++ ": " ++ error.message
    let total := failed + c.languages.size
    ⟨1, output, lines ++ ["error: " ++ toString failed ++ " of " ++ toString total
      ++ " locales failed to convert"]⟩

/-- Convert the locales. -/
def ConvertCommand.run (command : ConvertCommand)
    (readText : String → Except ReadFailure String) : Report :=
  match loadTables readText command.directory with
  | .error report => report
  | .ok tables =>
    match Conversion.run tables ⟨!command.keepGoing, command.languages⟩ with
    | .error error => .failure error.message
    | .ok conversion => conversion.report command.format

namespace Command

/-- The files a command reads. -/
def files : Command → List String
  | .convert command => documents command.directory
  | .lookup command => documents command.directory
  | .compile _ => []
where
  /-- The files with the tables of a directory. -/
  documents (directory : String) : List String :=
    [Tables.languagesFile, Tables.territoriesFile, Tables.pluralsFile].map
      (Tables.joinPath directory)

/-- Run a command. -/
def run (readText : String → Except ReadFailure String) : Command → Report
  | .convert command => command.run readText
  | .lookup command => command.run readText
  | .compile command => command.run

end Command

/-- The name and version of the program. -/
def versionText : String :=
  "pluralc 0.1.0\n"

/-- How the program is used. -/
def helpText : String :=
  "pluralc: compiles CLDR cardinal plural rules into gettext Plural-Forms formulas\n"
    ++ "\n"
    ++ "Usage: pluralc [-v] <COMMAND>\n"
    ++ "\n"
    ++ "  convert [--cldr-dir DIR] [--format FORMAT] [--keep-going] [--language LOCALE]...\n"
    ++ "  compile [--language LABEL] [--json] --rule CATEGORY=RULE...\n"
    ++ "  lookup [--cldr-dir DIR] [--json] LOCALE\n"

/-- Do what a command line asks for. A command line that is not understood has exit status 2. -/
def runArguments (readText : String → Except ReadFailure String) (words : List String) : Report :=
  match CommandLine.read words with
  | .error error => ⟨2, "", ["error: " ++ error.message]⟩
  | .ok .version => .success versionText
  | .ok .help => .success helpText
  | .ok (.run command) => command.run readText

end PluralForms
