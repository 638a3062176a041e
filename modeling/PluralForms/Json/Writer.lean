import PluralForms.Json.Basic

/-!
# Writing JSON

Two forms of the text of a value: `compact`, without any space, and `pretty`, with each element
and member on a line of its own, two blanks deeper than what it belongs to. In strings the
quotation mark, the backslash and the control characters are escaped, and nothing else.
-/

namespace PluralForms.Json

/-! ### Strings -/

/-- The digits of hexadecimal numbers. -/
def hexDigits : List Char :=
  "0123456789abcdef".toList

/-- A hexadecimal digit. -/
def hexDigit (n : Nat) : Char :=
  hexDigits.getD n '0'

/-- A character in a string literal. -/
def escapeChar (c : Char) : List Char :=
  if c = '"' then ['\\', '"']
  else if c = '\\' then ['\\', '\\']
  else if c = '\x08' then ['\\', 'b']
  else if c = '\x0c' then ['\\', 'f']
  else if c = '\n' then ['\\', 'n']
  else if c = '\r' then ['\\', 'r']
  else if c = '\t' then ['\\', 't']
  else if c.toNat < 0x20 then
    ['\\', 'u', '0', '0', hexDigit (c.toNat / 16), hexDigit (c.toNat % 16)]
  else [c]

/-- The literal of a string. -/
def quote (s : String) : String :=
  "\"" ++ String.ofList (s.toList.flatMap escapeChar) ++ "\""

/-- The text of a truth value. -/
def boolText (b : Bool) : String :=
  if b then "true" else "false"

/-! ### Compact form -/

mutual

/-- The text of a value without any space. -/
def compact : Json → String
  | .null => "null"
  | .bool b => boolText b
  | .number x => x.text
  | .string s => quote s
  | .array es => "[" ++ ",".intercalate (compactElements es) ++ "]"
  | .object ms => "\x7b" ++ ",".intercalate (compactMembers ms) ++ "\x7d"

/-- The texts of the elements of an array. -/
def compactElements : List Json → List String
  | [] => []
  | e :: es => compact e :: compactElements es

/-- The texts of the members of an object. -/
def compactMembers : List (String × Json) → List String
  | [] => []
  | (name, value) :: ms => (quote name ++ ":" ++ compact value) :: compactMembers ms

end

/-! ### Pretty form -/

/-- A new line at the given depth. -/
def newline (depth : Nat) : String :=
  "\n" ++ String.ofList (List.replicate (2 * depth) ' ')

/-- What stands between two brackets: nothing, or each item on a line of its own. -/
def block (depth : Nat) (items : List String) : String :=
  if items.isEmpty then ""
  else newline (depth + 1) ++ ("," ++ newline (depth + 1)).intercalate items ++ newline depth

mutual

/-- The text of a value that stands at the given depth. -/
def prettyAt (depth : Nat) : Json → String
  | .null => "null"
  | .bool b => boolText b
  | .number x => x.text
  | .string s => quote s
  | .array es => "[" ++ block depth (prettyElements (depth + 1) es) ++ "]"
  | .object ms => "\x7b" ++ block depth (prettyMembers (depth + 1) ms) ++ "\x7d"

/-- The texts of the elements of an array. -/
def prettyElements (depth : Nat) : List Json → List String
  | [] => []
  | e :: es => prettyAt depth e :: prettyElements depth es

/-- The texts of the members of an object. -/
def prettyMembers (depth : Nat) : List (String × Json) → List String
  | [] => []
  | (name, value) :: ms =>
    (quote name ++ ": " ++ prettyAt depth value) :: prettyMembers depth ms

end

/-- The text of a value over several lines. -/
def pretty (value : Json) : String :=
  prettyAt 0 value

end PluralForms.Json
