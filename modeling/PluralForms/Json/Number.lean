/-!
# JSON numbers

A JSON number is a decimal: a sign, a significand and a power of ten. Numbers are exchanged as
double-precision floating point, so a literal whose magnitude goes beyond the largest double is not
accepted. The test is made on what a double-precision reader works with: the leading digits of the
literal that fit in 64 bits and the power of ten that remains, each rounded to 53 bits.
-/

namespace PluralForms

/-- The decimal `± significand * 10 ^ exponent`. -/
structure JsonNumber where
  /-- The number has a minus sign. -/
  negative : Bool
  /-- The digits, as a natural number. -/
  significand : Nat
  /-- The power of ten. -/
  exponent : Int
deriving DecidableEq, Repr

namespace JsonNumber

/-- A natural number. -/
def ofNat (n : Nat) : JsonNumber :=
  ⟨false, n, 0⟩

/-- The natural number, if it was given as one. -/
def toNat? (x : JsonNumber) : Option Nat :=
  if !x.negative && x.exponent == 0 then some x.significand else none

/-- The literal of a number. -/
def text (x : JsonNumber) : String :=
  let sign := if x.negative then "-" else ""
  let power := if x.exponent = 0 then "" else "e" ++ toString x.exponent
  sign ++ toString x.significand ++ power

/-! ### Magnitude -/

/-- Continue a significand with digits as long as it stays below `2 ^ 64`. Returns it with the
number of digits taken. -/
def takeSignificant (significand : Nat) : List Char → Nat × Nat
  | [] => (significand, 0)
  | d :: ds =>
    let next := 10 * significand + (d.toNat - '0'.toNat)
    if next < Nat.pow 2 64 then
      let (final, taken) := takeSignificant next ds
      (final, taken + 1)
    else (significand, 0)

/-- The nearest number of 53 significant bits, of two equally near ones that with an even last bit.
-/
def roundToDouble (n : Nat) : Nat :=
  let unit := Nat.pow 2 (n.log2 - 52)
  let below := n / unit
  let rest := n % unit
  let up := unit < 2 * rest || (2 * rest == unit && below % 2 == 1)
  (if up then below + 1 else below) * unit

/-- From here on, numbers are nearer to `2 ^ 1024` than to the largest double. -/
def doubleBound : Nat := Nat.pow 2 1024 - Nat.pow 2 970

/-- The literal with these digits before and after the point and this exponent is within the range
of a double. -/
def fitsDouble (whole fraction : List Char) (exponent : Int) : Bool :=
  let (leading, taken) := takeSignificant 0 whole
  let (significand, taken') := takeSignificant leading fraction
  let power := exponent + ((whole.length - taken : Nat) : Int) - (taken' : Int)
  if significand == 0 || power ≤ 0 then true
  else
    power ≤ 308 && roundToDouble significand * roundToDouble (Nat.pow 10 power.toNat) < doubleBound

end JsonNumber

end PluralForms
