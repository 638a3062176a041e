/-!
# Ranges of code points

A character property is given by the ranges of code points that have it. The tables themselves stand
with the properties they define; this file only says what it means to be in one.
-/

namespace PluralForms.Text

/-- The code point of `c` lies in one of the closed ranges. -/
def inRanges (ranges : List (Nat × Nat)) (c : Char) : Bool :=
  ranges.any fun r ↦ r.1 ≤ c.toNat && c.toNat ≤ r.2

end PluralForms.Text
