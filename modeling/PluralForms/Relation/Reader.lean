import PluralForms.Fault
import PluralForms.Relation.Basic
import PluralForms.Text.Blank
import PluralForms.Text.Digit
import PluralForms.Text.Numeral

/-!
# Reading relations

Reading goes in two steps. The first looks at the form alone and yields a `Draft`, whose numbers are
still digit sequences: a variable, `%` and digits or nothing, `=` or `!=`, and a list of digits or
pairs of digits with `..` between. Blanks may stand around the operators and commas, and nowhere
else. The second step makes numbers of the digits, and it is here that a modulus can be zero and a
range empty.

Of several faults the reader reports the leftmost: the modulus comes before the values, and the
values come in their order.
-/

namespace PluralForms.Relation

open Text

/-- The form of a relation, with digits in place of numbers. -/
structure Draft where
  /-- The variable on the left. -/
  subject : Variable
  /-- The digits after `%`. -/
  modulus : Option (List Char)
  /-- The operator is `!=`. -/
  negated : Bool
  /-- The digits of each item, and those after `..` in it. -/
  items : List (List Char × Option (List Char))
deriving DecidableEq, Repr

/-- Drop the blanks at the head. -/
def skipBlanks (cs : List Char) : List Char :=
  cs.dropWhile isBlank

/-- The digits of a modulus, if one follows, and the rest. -/
def draftModulus? (cs : List Char) : Option (Option (List Char) × List Char) :=
  match skipBlanks cs with
  | '%' :: rest => (takeDigits? (skipBlanks rest)).map fun (digits, rest) ↦ (some digits, rest)
  | rest => some (none, rest)

/-- Whether the operator negates, and the rest. -/
def draftOperator? (cs : List Char) : Option (Bool × List Char) :=
  match skipBlanks cs with
  | '=' :: rest => some (false, rest)
  | '!' :: '=' :: rest => some (true, rest)
  | _ => none

/-- One item of a value list: digits, or digits on both sides of `..`. -/
def draftItem? (cs : List Char) : Option (List Char × Option (List Char)) :=
  match takeDigits? cs with
  | some (first, []) => some (first, none)
  | some (first, '.' :: '.' :: rest) =>
    match takeDigits? rest with
    | some (last, []) => some (first, some last)
    | _ => none
  | _ => none

/-- The form of a relation with no blanks at its ends. -/
def Draft.read? (cs : List Char) : Option Draft := do
  let letter :: rest := cs | none
  let subject ← Variable.ofLetter? letter
  let (modulus, rest) ← draftModulus? rest
  let (negated, rest) ← draftOperator? rest
  let items ← (rest.splitOn ',').mapM fun item ↦ draftItem? (trim item)
  return { subject, modulus, negated, items }

/-- The numbers of an item. `atom` is the text they stand in. -/
def readSpan (atom : String) : List Char × Option (List Char) → Except Fault Span
  | (digits, none) =>
    match readNumeral? digits with
    | some value => .ok (.single value)
    | none => .error (.unhandledAtom atom)
  | (digits, some digits') =>
    match readNumeral? digits, readNumeral? digits' with
    | some first, some last =>
      if first < last then .ok (.range first last)
      else if first = last then .ok (.single first)
      else .error (.emptyRange atom first last)
    | _, _ => .error (.unhandledAtom atom)

/-- The number of a modulus. `atom` is the text it stands in. -/
def readModulus (atom : String) : Option (List Char) → Except Fault (Option Nat)
  | none => .ok none
  | some digits =>
    match readNumeral? digits with
    | some 0 => .error (.zeroModulus atom)
    | some modulus => .ok (some modulus)
    | none => .error (.unhandledAtom atom)

/-- The relation of a form. `atom` is the text it was found in. -/
def Draft.complete (atom : String) (draft : Draft) : Except Fault Relation := do
  let modulus ← readModulus atom draft.modulus
  let values ← draft.items.mapM (readSpan atom)
  return { subject := draft.subject, modulus, negated := draft.negated, values }

/-- The relation that a text with no blanks at its ends spells. -/
def readTrimmed (cs : List Char) : Except Fault Relation :=
  if cs.any fun c ↦ c == '(' || c == ')' then .error .parenthesized
  else
    match Draft.read? cs with
    | some draft => draft.complete (String.ofList cs)
    | none => .error (.unhandledAtom (String.ofList cs))

/-- The relation that a text spells. -/
def read (text : String) : Except Fault Relation :=
  readTrimmed (trim text.toList)

end PluralForms.Relation
