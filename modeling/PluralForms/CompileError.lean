import PluralForms.Category
import PluralForms.Fault
import PluralForms.SampleList

/-!
# Errors of compilation

A language's rules compile as a whole or not at all. A `CompileError` names the language and the
cause; the wording of all causes is in `CompileError.message`.
-/

namespace PluralForms

/-- Why the text of an entry or rule cannot be read. -/
inductive ReadIssue where
  /-- The rule has this fault. -/
  | fault (fault : Fault)
  /-- The sections of the entry are not in order. -/
  | badEntry
deriving DecidableEq, Repr

/-- The wording of an issue. -/
def ReadIssue.message : ReadIssue → String
  | fault f => f.message
  | badEntry => "bad rule entry"

/-- How a rule contradicts what it is for. -/
inductive Contradiction where
  /-- It claims every integer. -/
  | alwaysTrue
  /-- It claims no integer, and yet integer samples are given for it. -/
  | neverHolds (samples : String)
deriving DecidableEq, Repr

/-- The wording of a contradiction. -/
def Contradiction.message : Contradiction → String
  | alwaysTrue => Fault.alwaysTrue.message
  | neverHolds samples => "never holds for an integer, but has integer samples: " ++ samples

/-- What is wrong with a rule set as a whole. -/
inductive StructureIssue where
  | unknownCategory (tag : String)
  | ruleForOther (rule : String)
  | duplicated (category : Category)
  | missingOther
  | allDropped
deriving DecidableEq, Repr

/-- The wording of an issue. -/
def StructureIssue.message : StructureIssue → String
  | unknownCategory tag => "unknown plural category: " ++ tag
  | ruleForOther rule => "the 'other' case should not have any rule: " ++ rule
  | duplicated category => "duplicated case: " ++ category.text
  | missingOther => "missing case: other"
  | allDropped =>
    "unhandled excessive simplification: every category but the catch-all was dropped"

/-- Why the rules of a language do not compile. -/
inductive CompileCause where
  | unreadable (category : Category) (rule : String) (issue : ReadIssue)
  | contradiction (category : Category) (rule : String) (issue : Contradiction)
  | noNegation (category : Category) (formula : String)
  | badSamples (category : Category) (text : String) (fault : SampleFault)
  /-- The formula gives the sample the index, and with it the actual category, if there is one. -/
  | mismatch (formula : String) (sample : Nat) (expected : Category) (actual : Option Category)
      (index : Nat)
  | unsafeFormula (formula : String)
  | malformedSet (issue : StructureIssue)
deriving DecidableEq, Repr

/-- The rules of the language do not compile, and why. -/
structure CompileError where
  /-- The language whose rules were compiled. -/
  language : String
  /-- What went wrong. -/
  cause : CompileCause
deriving DecidableEq, Repr

/-- Where a formula leads: to a category or beyond the last one. -/
def CompileCause.destination (actual : Option Category) (index : Nat) : String :=
  match actual with
  | some category => "'" ++ category.text ++ "' (" ++ toString index ++ ")"
  | none => "an out-of-range case index (" ++ toString index ++ ")"

/-- The wording of an error. -/
def CompileError.message (error : CompileError) : String :=
  let language := "'" ++ error.language ++ "'"
  match error.cause with
  | .unreadable category rule issue =>
    "cannot parse the '" ++ category.text ++ "' case for " ++ language ++ " with the rule '" ++ rule
      ++ "': " ++ issue.message
  | .contradiction category rule issue =>
    "contradiction in the '" ++ category.text ++ "' case for " ++ language ++ " with the rule '"
      ++ rule ++ "': " ++ issue.message
  | .noNegation category formula =>
    "no known negation of the '" ++ category.text ++ "' case for " ++ language ++ ": " ++ formula
  | .badSamples category text fault =>
    "bad samples for the '" ++ category.text ++ "' case of " ++ language ++ " in '" ++ text ++ "': "
      ++ fault.message
  | .mismatch formula sample expected actual index =>
    "the formula '" ++ formula ++ "' for " ++ language ++ " evaluated for " ++ toString sample
      ++ " resulted in " ++ CompileCause.destination actual index ++ " instead of '"
      ++ expected.text ++ "'"
  | .unsafeFormula formula =>
    "the formula '" ++ formula ++ "' for " ++ language ++ " contains unsafe characters"
  | .malformedSet issue => "invalid rule set for " ++ language ++ ": " ++ issue.message

/-- The error that a fault in the rule of a category amounts to. -/
def Fault.inRule (language : String) (category : Category) (rule : String) (fault : Fault) :
    CompileError where
  language := language
  cause :=
    match fault with
    | alwaysTrue => .contradiction category rule .alwaysTrue
    | noNegation formula => .noNegation category formula
    | other => .unreadable category rule (.fault other)

end PluralForms
