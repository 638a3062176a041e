import PluralForms.Text.Range

/-!
# Blank space

The characters with the White_Space property, and what they are good for: they fall off the ends of
a text (`trim`), they part its words (`words`), and a text is *collapsed* when its words stand one
blank apart (`collapse`).
-/

namespace PluralForms.Text

/-- The code points with the White_Space property. -/
def blankRanges : List (Nat × Nat) :=
  [(0x09, 0x0D), (0x20, 0x20), (0x85, 0x85), (0xA0, 0xA0), (0x1680, 0x1680), (0x2000, 0x200A),
   (0x2028, 0x2029), (0x202F, 0x202F), (0x205F, 0x205F), (0x3000, 0x3000)]

/-- White space. -/
def isBlank (c : Char) : Bool :=
  inRanges blankRanges c

/-- Drop the longest end of the text whose characters all satisfy `p`. -/
def trimEndWhile (p : Char → Bool) (cs : List Char) : List Char :=
  (cs.reverse.dropWhile p).reverse

/-- Drop the blanks at both ends. -/
def trim (cs : List Char) : List Char :=
  trimEndWhile isBlank (cs.dropWhile isBlank)

/-- The maximal runs of characters that are not blank. -/
def words (cs : List Char) : List (List Char) :=
  (cs.splitOnP isBlank).filter (!·.isEmpty)

/-- Words joined by single blanks. -/
def unwords (ws : List (List Char)) : List Char :=
  [' '].intercalate ws

/-- No blanks at the ends and every inner run of blanks a single one. -/
def collapse (cs : List Char) : List Char :=
  unwords (words cs)

/-- Cut at the first occurrence of `c`, which belongs to neither side. -/
def cutAtFirst? (c : Char) (cs : List Char) : Option (List Char × List Char) :=
  match cs.span (· != c) with
  | (_, []) => none
  | (before, _ :: after) => some (before, after)

end PluralForms.Text
