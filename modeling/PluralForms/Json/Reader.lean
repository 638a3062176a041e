import PluralForms.Json.Basic

/-!
# Reading JSON

A strict reader of JSON texts: one value with nothing but white space around it, no trailing
commas, no bare control characters in strings, no surrogate without its partner. Containers nest at
most `maxDepth` deep, and numbers are within the range of a double.

Each reader takes the text from where its construct begins and returns what it read with the text
behind it. A value is read by recursion on the depth that is still allowed; the readers of elements
and members take the reader of the values inside as an argument and run along the text, with its
length as a bound.
-/

namespace PluralForms.Json

/-- How deep arrays and objects may be nested. -/
def maxDepth : Nat := 127

/-- The white space of JSON. -/
def isSpace (c : Char) : Bool :=
  c == ' ' || c == '\t' || c == '\n' || c == '\r'

/-- The text after white space. -/
def skipSpace (cs : List Char) : List Char :=
  cs.dropWhile isSpace

/-! ### Strings -/

/-- The value of a hexadecimal digit. -/
def hexValue? (c : Char) : Option Nat :=
  if '0' ≤ c ∧ c ≤ '9' then some (c.toNat - '0'.toNat)
  else if 'a' ≤ c ∧ c ≤ 'f' then some (c.toNat - 'a'.toNat + 10)
  else if 'A' ≤ c ∧ c ≤ 'F' then some (c.toNat - 'A'.toNat + 10)
  else none

/-- Four hexadecimal digits. -/
def readHex4 : List Char → Option (Nat × List Char)
  | a :: b :: c :: d :: rest => do
    let a ← hexValue? a
    let b ← hexValue? b
    let c ← hexValue? c
    let d ← hexValue? d
    return (4096 * a + 256 * b + 16 * c + d, rest)
  | _ => none

/-- The character of the code unit after `\u`. A high surrogate needs a low one in a further
escape. -/
def readUnicodeEscape (cs : List Char) : Option (Char × List Char) := do
  let (unit, rest) ← readHex4 cs
  if 0xD800 ≤ unit && unit < 0xDC00 then
    match rest with
    | '\\' :: 'u' :: rest =>
      let (low, rest) ← readHex4 rest
      if 0xDC00 ≤ low && low < 0xE000 then
        return (Char.ofNat (0x10000 + (unit - 0xD800) * 0x400 + (low - 0xDC00)), rest)
      else none
    | _ => none
  else if 0xDC00 ≤ unit && unit < 0xE000 then none
  else return (Char.ofNat unit, rest)

/-- The character of an escape, read from behind its backslash. -/
def readEscape : List Char → Option (Char × List Char)
  | '"' :: rest => some ('"', rest)
  | '\\' :: rest => some ('\\', rest)
  | '/' :: rest => some ('/', rest)
  | 'b' :: rest => some ('\x08', rest)
  | 'f' :: rest => some ('\x0c', rest)
  | 'n' :: rest => some ('\n', rest)
  | 'r' :: rest => some ('\r', rest)
  | 't' :: rest => some ('\t', rest)
  | 'u' :: rest => readUnicodeEscape rest
  | _ => none

/-- The characters up to the closing quotation mark. -/
def readCharacters : (bound : Nat) → List Char → Option (List Char × List Char)
  | 0, _ => none
  | bound + 1, cs =>
    match cs with
    | [] => none
    | '"' :: rest => some ([], rest)
    | '\\' :: rest => do
      let (c, rest) ← readEscape rest
      let (more, rest) ← readCharacters bound rest
      return (c :: more, rest)
    | c :: rest =>
      if c.toNat < 0x20 then none
      else do
        let (more, rest) ← readCharacters bound rest
        return (c :: more, rest)

/-- A string, read from behind its opening quotation mark. -/
def readString (cs : List Char) : Option (String × List Char) := do
  let (chars, rest) ← readCharacters cs.length cs
  return (String.ofList chars, rest)

/-! ### Numbers -/

/-- A non-empty run of digits. -/
def readDigits (cs : List Char) : Option (List Char × List Char) :=
  match cs.span Char.isDigit with
  | ([], _) => none
  | (digits, rest) => some (digits, rest)

/-- The digits before the point: a lone zero, or digits that do not begin with one. -/
def readWhole (cs : List Char) : Option (List Char × List Char) := do
  let (digits, rest) ← readDigits cs
  match digits with
  | '0' :: _ :: _ => none
  | _ => return (digits, rest)

/-- The digits after a point, if there is one. -/
def readFraction : List Char → Option (List Char × List Char)
  | '.' :: rest => readDigits rest
  | cs => some ([], cs)

/-- The sign and digits of an exponent. -/
def readSigned : List Char → Option (Int × List Char)
  | '-' :: rest => (readDigits rest).map fun (ds, rest) ↦ (-(Nat.ofDigitChars 10 ds 0 : Int), rest)
  | '+' :: rest => (readDigits rest).map fun (ds, rest) ↦ ((Nat.ofDigitChars 10 ds 0 : Int), rest)
  | cs => (readDigits cs).map fun (ds, rest) ↦ ((Nat.ofDigitChars 10 ds 0 : Int), rest)

/-- The exponent, if there is one. -/
def readExponent : List Char → Option (Int × List Char)
  | 'e' :: rest => readSigned rest
  | 'E' :: rest => readSigned rest
  | cs => some (0, cs)

/-- A number without its sign. -/
def readMagnitude (negative : Bool) (cs : List Char) : Option (JsonNumber × List Char) := do
  let (whole, rest) ← readWhole cs
  let (fraction, rest) ← readFraction rest
  let (exponent, rest) ← readExponent rest
  if JsonNumber.fitsDouble whole fraction exponent then
    let significand := Nat.ofDigitChars 10 (whole ++ fraction) 0
    return (⟨negative, significand, exponent - fraction.length⟩, rest)
  else none

/-! ### Containers -/

/-- The elements of an array from one of them on, up to the closing bracket. -/
def readElements (readValue : List Char → Option (Json × List Char)) :
    (bound : Nat) → List Char → Option (List Json × List Char)
  | 0, _ => none
  | bound + 1, cs => do
    let (e, rest) ← readValue cs
    match skipSpace rest with
    | ',' :: rest =>
      let (es, rest) ← readElements readValue bound rest
      return (e :: es, rest)
    | ']' :: rest => return ([e], rest)
    | _ => none

/-- An array, read from behind its opening bracket. -/
def readArray (readValue : List Char → Option (Json × List Char)) (cs : List Char) :
    Option (Json × List Char) :=
  match skipSpace cs with
  | ']' :: rest => some (.array [], rest)
  | rest => (readElements readValue rest.length rest).map fun (es, rest) ↦ (.array es, rest)

/-- The members of an object from one of them on, up to the closing brace. -/
def readMembers (readValue : List Char → Option (Json × List Char)) :
    (bound : Nat) → List Char → Option (List (String × Json) × List Char)
  | 0, _ => none
  | bound + 1, cs =>
    match skipSpace cs with
    | '"' :: rest => do
      let (name, rest) ← readString rest
      match skipSpace rest with
      | ':' :: rest =>
        let (value, rest) ← readValue rest
        match skipSpace rest with
        | ',' :: rest =>
          let (ms, rest) ← readMembers readValue bound rest
          return ((name, value) :: ms, rest)
        | '}' :: rest => return ([(name, value)], rest)
        | _ => none
      | _ => none
    | _ => none

/-- An object, read from behind its opening brace. -/
def readObject (readValue : List Char → Option (Json × List Char)) (cs : List Char) :
    Option (Json × List Char) :=
  match skipSpace cs with
  | '}' :: rest => some (.object [], rest)
  | rest => (readMembers readValue rest.length rest).map fun (ms, rest) ↦ (.object ms, rest)

/-! ### Values -/

/-- A value that is no container and begins with the first character. -/
def readScalar (cs : List Char) : Option (Json × List Char) :=
  match cs with
  | '"' :: rest => (readString rest).map fun (s, rest) ↦ (.string s, rest)
  | 'n' :: 'u' :: 'l' :: 'l' :: rest => some (.null, rest)
  | 't' :: 'r' :: 'u' :: 'e' :: rest => some (.bool true, rest)
  | 'f' :: 'a' :: 'l' :: 's' :: 'e' :: rest => some (.bool false, rest)
  | '-' :: rest => (readMagnitude true rest).map fun (x, rest) ↦ (.number x, rest)
  | _ => (readMagnitude false cs).map fun (x, rest) ↦ (.number x, rest)

/-- A value, possibly after white space, in which containers nest at most `depth` deep. -/
def readValue : (depth : Nat) → List Char → Option (Json × List Char)
  | 0, cs => readScalar (skipSpace cs)
  | depth + 1, cs =>
    match skipSpace cs with
    | '[' :: rest => readArray (readValue depth) rest
    | '{' :: rest => readObject (readValue depth) rest
    | rest => readScalar rest

/-- The value that a whole text spells. -/
def read? (text : String) : Option Json :=
  match readValue maxDepth text.toList with
  | some (value, rest) => if (skipSpace rest).isEmpty then some value else none
  | none => none

end PluralForms.Json
