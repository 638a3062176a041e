import PluralForms.Command.Run

/-!
# The program

Reads the files a command needs, runs it, and writes its report.
-/

namespace PluralForms

/-- What the system says when a file cannot be read. -/
def readFailure (code : UInt32) (details : String) : ReadFailure :=
  match code.toNat with
  | 2 => .missing
  | 20 => .notADirectory
  | 21 => .isADirectory
  | 36 => .nameTooLong
  | code => .other (details ++ " (os error " ++ toString code ++ ")")

/-- The failure of an attempt to read. -/
def failureOf : IO.Error → ReadFailure
  | .noFileOrDirectory _ code details => readFailure code details
  | .permissionDenied _ code details => readFailure code details
  | .inappropriateType _ code details => readFailure code details
  | .invalidArgument _ code details => readFailure code details
  | .resourceExhausted _ code details => readFailure code details
  | .noSuchThing _ code details => readFailure code details
  | .otherError code details => readFailure code details
  | error => .other (toString error)

/-- The text of a file. -/
def readTextFile (path : String) : IO (Except ReadFailure String) := do
  match ← (IO.FS.readBinFile path).toBaseIO with
  | .error error => return .error (failureOf error)
  | .ok bytes =>
    match String.fromUTF8? bytes with
    | some text => return .ok text
    | none => return .error .notUtf8

/-- Run the program with the given arguments. -/
def runProgram (arguments : List String) : IO UInt32 := do
  let paths :=
    match CommandLine.read arguments with
    | .ok (.run command) => command.files
    | _ => []
  let texts ← paths.mapM fun path ↦ do return (path, ← readTextFile path)
  let report := runArguments (fun path ↦ (texts.lookup path).getD (.error .missing)) arguments
  IO.print report.output
  for line in report.errors do
    IO.eprintln line
  return report.status.toUInt32

end PluralForms

/-- The program. -/
def main (arguments : List String) : IO UInt32 :=
  PluralForms.runProgram arguments
