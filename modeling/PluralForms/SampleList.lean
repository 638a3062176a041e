import PluralForms.Text.Blank
import PluralForms.Text.Digit
import PluralForms.Text.Numeral

/-!
# Sample lists

CLDR publishes with each category a list of integers that belong to it: numbers, ranges `A~B`, and
numbers in compact notation such as `1c6`, which stand for a formatted number rather than a count
and are set aside. A trailing ellipsis only says that the list could go on.

A range is not enumerated but sampled: at most about two hundred numbers of it are taken, at equal
distances, its ends among them.
-/

namespace PluralForms

open Text

/-- Why a sample list cannot be used. -/
inductive SampleFault where
  /-- The token has `~` in it and is no range. -/
  | unhandledRange (token : String)
  /-- The token is no number. -/
  | unhandledNumber (token : String)
  /-- The list has nothing in it. -/
  | noNumbers
deriving DecidableEq, Repr

/-- The wording of a fault. -/
def SampleFault.message : SampleFault → String
  | unhandledRange token => "unhandled sample range '" ++ token ++ "'"
  | unhandledNumber token => "unhandled sample '" ++ token ++ "'"
  | noNumbers => "no sample numbers"

/-- An item of a sample list. -/
inductive SampleItem where
  | number (value : Nat)
  | range (first last : Nat)
  | compact (token : String)
deriving DecidableEq, Repr

namespace SampleItem

/-! ### Reading -/

/-- Compact notation: digits, possibly a fraction, `c` or `e`, and digits. -/
def isCompact (token : List Char) : Bool :=
  match takeDigits? token with
  | some (_, '.' :: rest) =>
    match takeDigits? rest with
    | some (_, rest) => hasExponent rest
    | none => false
  | some (_, rest) => hasExponent rest
  | none => false
where
  /-- `c` or `e` and digits to the end. -/
  hasExponent : List Char → Bool
    | c :: rest => (c == 'c' || c == 'e') && !rest.isEmpty && rest.all isDecimalDigit
    | [] => false

/-- The item that a token with no blanks at its ends spells. -/
def read (token : List Char) : Except SampleFault SampleItem :=
  if isCompact token then .ok (.compact (String.ofList token))
  else
    match cutAtFirst? '~' token with
    | some (first, last) =>
      match readNumeral? (trim first), readNumeral? (trim last) with
      | some a, some b =>
        if a ≤ b then .ok (.range a b) else .error (.unhandledRange (String.ofList token))
      | _, _ => .error (.unhandledRange (String.ofList token))
    | none =>
      match readNumeral? token with
      | some value => .ok (.number value)
      | none => .error (.unhandledNumber (String.ofList token))

/-! ### Sampling -/

/-- A range is cut into this many steps, unless it is too short for that. -/
def stepsPerRange : Nat := 100

/-- The distance of the samples taken from a range. -/
def stepOf (first last : Nat) : Nat :=
  max 1 ((last - first) / stepsPerRange)

/-- The samples of a range: from its first number on in equal steps, and its last. -/
def sampleRange (first last : Nat) : List Nat :=
  let step := stepOf first last
  (List.range ((last - first + step - 1) / step)).map (first + · * step) ++ [last]

/-- The numbers an item contributes. -/
def numbers : SampleItem → List Nat
  | number value => [value]
  | range first last => sampleRange first last
  | compact _ => []

/-- The token of an item in compact notation. -/
def compact? : SampleItem → Option String
  | compact token => some token
  | _ => none

end SampleItem

/-- The samples of a category. -/
structure SampleList where
  /-- The sample numbers. -/
  numbers : List Nat
  /-- The tokens in compact notation, which were set aside. -/
  skipped : List String
deriving DecidableEq, Repr

namespace SampleList

/-- The text of a list without its ellipsis and the punctuation in front of that. -/
def body (cs : List Char) : List Char :=
  trimEndWhile (fun c ↦ c == ',' || c == ' ')
    (trimEndWhile (fun c ↦ c == '…' || c == '.') (trim cs))

/-- The tokens of a list: what stands between its commas. -/
def tokens (cs : List Char) : List (List Char) :=
  ((body cs).splitOn ',').map trim

/-- The sample list that a text spells. The first token that is no item is the fault. -/
def read (text : String) : Except SampleFault SampleList := do
  let items ← (tokens text.toList).mapM SampleItem.read
  let numbers := items.flatMap (·.numbers)
  let skipped := items.filterMap (·.compact?)
  if numbers.isEmpty && skipped.isEmpty then throw .noNumbers
  return { numbers, skipped }

end SampleList

end PluralForms
