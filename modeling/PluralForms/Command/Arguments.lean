import PluralForms.Document

/-!
# Command lines

The commands of the program and how they are spelled on the command line. Options may stand before
or after the positional argument; the value of an option follows it, as the next word or behind
`=`; `--` ends the options. An option is given once, unless it is one of those that collect their
values.

Words are taken from left to right. A request for help or for the version is granted as soon as it
is met, so it wins over whatever comes after it, and nothing else does.
-/

namespace PluralForms

/-! ### Commands -/

/-- Convert the locales of a CLDR distribution into a document. -/
structure ConvertCommand where
  /-- The directory of the distribution. -/
  directory : String
  /-- The form of the document. -/
  format : Format
  /-- Failing locales are reported at the end. -/
  keepGoing : Bool
  /-- The locales to convert; none named means all. -/
  languages : List String
deriving DecidableEq, Repr

/-- Compile rules given on the command line. -/
structure CompileCommand where
  /-- The label of the rules in messages. -/
  language : String
  /-- The rules, each with its category. -/
  rules : List String
  /-- The answer is JSON. -/
  json : Bool
deriving DecidableEq, Repr

/-- Look a locale up in a CLDR distribution. -/
structure LookupCommand where
  /-- The locale. -/
  locale : String
  /-- The directory of the distribution. -/
  directory : String
  /-- The answer is JSON. -/
  json : Bool
deriving DecidableEq, Repr

/-- What the program can do. -/
inductive Command where
  | convert (command : ConvertCommand)
  | compile (command : CompileCommand)
  | lookup (command : LookupCommand)
deriving DecidableEq, Repr

/-- What a command line asks for. -/
inductive Request where
  | run (command : Command)
  | version
  | help
deriving DecidableEq, Repr

/-- Why a command line is not understood. -/
inductive UsageError where
  | noCommand
  | unknownCommand (word : String)
  | unknownOption (option : String)
  | missingValue (option : String)
  | unexpectedValue (option : String)
  | invalidValue (option value : String)
  | repeated (option : String)
  | surplus (word : String)
  | missingArgument (name : String)
deriving DecidableEq, Repr

/-- The wording of an error. -/
def UsageError.message : UsageError → String
  | noCommand => "a command is required: convert, compile or lookup"
  | unknownCommand word => "unknown command '" ++ word ++ "'"
  | unknownOption option => "unknown option '" ++ option ++ "'"
  | missingValue option => "a value is required for '" ++ option ++ "'"
  | unexpectedValue option => "no value is allowed for '" ++ option ++ "'"
  | invalidValue option value => "invalid value '" ++ value ++ "' for '" ++ option ++ "'"
  | repeated option => "'" ++ option ++ "' cannot be given more than once"
  | surplus word => "unexpected argument '" ++ word ++ "'"
  | missingArgument name => "a required argument is missing: " ++ name

namespace CommandLine

/-! ### Words -/

/-- A word of a command line by its form. -/
inductive Word where
  /-- `--`, after which no word is an option. -/
  | endOfOptions
  /-- `--name` or `--name=value`. -/
  | long (name : String) (value : Option String)
  /-- `-abc`: one-letter options. -/
  | short (letters : List Char)
  /-- Anything else, among it a single hyphen. -/
  | plain
deriving DecidableEq, Repr

/-- The form of a word. -/
def Word.ofString (word : String) : Word :=
  match word.toList with
  | ['-', '-'] => .endOfOptions
  | '-' :: '-' :: rest =>
    match Text.cutAtFirst? '=' rest with
    | some (name, value) => .long (String.ofList name) (some (String.ofList value))
    | none => .long (String.ofList rest) none
  | '-' :: letter :: rest => .short (letter :: rest)
  | _ => .plain

/-! ### Options of a command -/

/-- How an option is used. -/
inductive Usage where
  /-- No value; at most once. -/
  | flag
  /-- A value; at most once. -/
  | value
  /-- One of the listed values; at most once. -/
  | choice (allowed : List String)
  /-- A value each time. -/
  | values
deriving DecidableEq, Repr

/-- The value is one the option can have. -/
def Usage.accepts : Usage → String → Bool
  | choice allowed, text => allowed.contains text
  | _, _ => true

/-- The options and positional arguments of a command. -/
structure Grammar where
  /-- The options by name. -/
  options : List (String × Usage)
  /-- The names of the positional arguments. -/
  positionals : List String

/-- The words of a command by what they are for. -/
structure Gathered where
  /-- The options in their order, with their values; a flag has the empty text. -/
  options : List (String × String)
  /-- The positional arguments. -/
  positionals : List String

namespace Gathered

/-- The values of an option in their order. -/
def values (g : Gathered) (name : String) : List String :=
  (g.options.filter (·.1 == name)).map (·.2)

/-- The value of an option. -/
def value? (g : Gathered) (name : String) : Option String :=
  (g.values name).head?

/-- The option is given. -/
def has (g : Gathered) (name : String) : Bool :=
  (g.value? name).isSome

end Gathered

/-- Note an option. -/
def addOption (usage : Usage) (seen : Gathered) (name value : String) :
    Except UsageError Gathered :=
  if usage != .values && seen.has name then .error (.repeated ("--" ++ name))
  else if !usage.accepts value then .error (.invalidValue ("--" ++ name) value)
  else .ok { seen with options := seen.options ++ [(name, value)] }

/-- Note a positional argument. -/
def addPositional (grammar : Grammar) (seen : Gathered) (word : String) :
    Except UsageError Gathered :=
  if seen.positionals.length < grammar.positionals.length then
    .ok { seen with positionals := seen.positionals ++ [word] }
  else .error (.surplus word)

/-- What one-letter options ask for within a command: help, or nothing that matters to it. -/
def shortHelp (letters : List Char) : Except UsageError Bool :=
  match letters with
  | [] => .ok false
  | 'v' :: rest => shortHelp rest
  | 'h' :: _ => .ok true
  | letter :: _ => .error (.unknownOption (String.ofList ['-', letter]))

/-- Sort the words of a command. Nothing is returned if they ask for help. -/
def gather (grammar : Grammar) : Gathered → List String → Except UsageError (Option Gathered)
  | seen, [] => .ok (some seen)
  | seen, word :: rest =>
    match Word.ofString word with
    | .endOfOptions => some <$> rest.foldlM (addPositional grammar) seen
    | .plain => do gather grammar (← addPositional grammar seen word) rest
    | .short letters => do if ← shortHelp letters then return none else gather grammar seen rest
    | .long name value? =>
      match grammar.options.lookup name, value? with
      | some .flag, none => do gather grammar (← addOption .flag seen name "") rest
      | some .flag, some _ => .error (.unexpectedValue word)
      | some usage, some value => do gather grammar (← addOption usage seen name value) rest
      | some usage, none =>
        match rest with
        | [] => .error (.missingValue word)
        | value :: rest =>
          if Word.ofString value = .plain then do
            gather grammar (← addOption usage seen name value) rest
          else .error (.missingValue word)
      | none, none =>
        if name == "help" then .ok none
        else if name == "verbose" then gather grammar seen rest
        else .error (.unknownOption word)
      | none, some _ =>
        if name == "help" || name == "verbose" then .error (.unexpectedValue word)
        else .error (.unknownOption word)

/-! ### The commands -/

/-- Where the CLDR distribution is, unless an option says otherwise. -/
def defaultDirectory : String := "cldr"

/-- The label of rules without a language. -/
def undetermined : String := "und"

/-- The options of `convert`. -/
def convertGrammar : Grammar where
  options :=
    [("cldr-dir", .value), ("format", .choice (Format.all.map (·.name))), ("keep-going", .flag),
      ("language", .values)]
  positionals := []

/-- The options of `compile`. -/
def compileGrammar : Grammar where
  options := [("language", .value), ("rule", .values), ("json", .flag)]
  positionals := []

/-- The options of `lookup`. -/
def lookupGrammar : Grammar where
  options := [("cldr-dir", .value), ("json", .flag)]
  positionals := ["LOCALE"]

/-- The command `convert` with these words. -/
def toConvert (words : Gathered) : Except UsageError Command :=
  .ok (.convert {
    directory := (words.value? "cldr-dir").getD defaultDirectory
    format := ((words.value? "format").bind Format.ofName?).getD .json
    keepGoing := words.has "keep-going"
    languages := words.values "language" })

/-- The command `compile` with these words. -/
def toCompile (words : Gathered) : Except UsageError Command :=
  match words.values "rule" with
  | [] => .error (.missingArgument "--rule")
  | rules =>
    .ok (.compile {
      language := (words.value? "language").getD undetermined
      rules := rules
      json := words.has "json" })

/-- The command `lookup` with these words. -/
def toLookup (words : Gathered) : Except UsageError Command :=
  match words.positionals with
  | [] => .error (.missingArgument "LOCALE")
  | locale :: _ =>
    .ok (.lookup {
      locale := locale
      directory := (words.value? "cldr-dir").getD defaultDirectory
      json := words.has "json" })

/-- The request of a command with the given words behind it. -/
def readCommand (grammar : Grammar) (build : Gathered → Except UsageError Command)
    (words : List String) : Except UsageError Request := do
  match ← gather grammar ⟨[], []⟩ words with
  | some gathered => return .run (← build gathered)
  | none => return .help

/-- The words that name a command. -/
def commandNames : List String :=
  ["convert", "compile", "lookup", "help"]

/-- What one-letter options ask for in front of a command, if it matters. -/
def shortRequest? (letters : List Char) : Except UsageError (Option Request) :=
  match letters with
  | [] => .ok none
  | 'v' :: rest => shortRequest? rest
  | 'h' :: _ => .ok (some .help)
  | 'V' :: _ => .ok (some .version)
  | letter :: _ => .error (.unknownOption (String.ofList ['-', letter]))

/-- The request that the words of a command line make. -/
def read : List String → Except UsageError Request
  | [] => .error .noCommand
  | word :: rest =>
    match Word.ofString word with
    | .endOfOptions =>
      match rest with
      | [] => .error .noCommand
      | word :: _ => .error (.unknownCommand word)
    | .short letters => do
      match ← shortRequest? letters with
      | some request => return request
      | none => read rest
    | .long name value? =>
      if name == "verbose" || name == "help" || name == "version" then
        match value? with
        | some _ => .error (.unexpectedValue word)
        | none =>
          if name == "help" then .ok .help
          else if name == "version" then .ok .version
          else read rest
      else .error (.unknownOption word)
    | .plain =>
      match word with
      | "convert" => readCommand convertGrammar toConvert rest
      | "compile" => readCommand compileGrammar toCompile rest
      | "lookup" => readCommand lookupGrammar toLookup rest
      | "help" =>
        match rest with
        | [] => .ok .help
        | [topic] =>
          if commandNames.contains topic then .ok .help else .error (.unknownCommand topic)
        | _ :: word :: _ => .error (.unknownCommand word)
      | _ => .error (.unknownCommand word)

end CommandLine

end PluralForms
