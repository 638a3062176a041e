/-!
# Numerals

Counts, moduli and samples are numbers below `2 ^ 64`, written in the digits `0` to `9`. Leading
zeros are harmless, and a numeral for a larger number is not a numeral at all.
-/

namespace PluralForms.Text

/-- Every number a text can name is smaller than this. -/
def numeralBound : Nat := Nat.pow 2 64

/-- The number a digit sequence names, if it names one below `numeralBound`. -/
def readNumeral? (cs : List Char) : Option Nat :=
  if !cs.isEmpty && cs.all Char.isDigit && Nat.ofDigitChars 10 cs 0 < numeralBound then
    some (Nat.ofDigitChars 10 cs 0)
  else
    none

end PluralForms.Text
