import PluralForms.Relation.Compile
import PluralForms.Relation.Reader

/-!
# Plural rules

A rule is a disjunction of groups, each a conjunction of relations. In its text the words `or` and
`and` part the groups and the relations; a rule has no parentheses.

Reading works on words. A separator has something on both sides, so the word `or` at an end of a
piece is not one: it stays in the text of a relation, which then cannot be read.
-/

namespace PluralForms

/-- Groups of relations: some group has to hold entirely. -/
abbrev Rule := List (List Relation)

namespace Rule

open Text

/-- The truth of a rule for an integer count. -/
def holds (rule : Rule) (count : Nat) : Bool :=
  rule.any fun group ↦ group.all (·.holds count)

/-! ### Reading -/

/-- Put a word in front of the first piece. -/
def consWord (w : List Char) : List (List (List Char)) → List (List (List Char))
  | [] => [[w]]
  | piece :: pieces => (w :: piece) :: pieces

/-- Cut a sequence of words at a separator. A separator is neither the first word of a piece nor the
last word of all. -/
def cutAtWord (separator : List Char) : List (List Char) → List (List (List Char))
  | [] => [[]]
  | [w] => [[w]]
  | w :: s :: rest =>
    if s = separator ∧ rest ≠ [] then [w] :: cutAtWord separator rest
    else consWord w (cutAtWord separator (s :: rest))

/-- The words of each relation, by groups. -/
def pieces (ws : List (List Char)) : List (List (List (List Char))) :=
  (cutAtWord "or".toList ws).map (cutAtWord "and".toList)

/-- The rule that a text spells. Its relations are read from left to right, and the first that
cannot be read is the fault. -/
def read (text : String) : Except Fault Rule :=
  if text.toList.any fun c ↦ c == '(' || c == ')' then .error .parenthesized
  else
    (pieces (words text.toList)).mapM fun group ↦
      group.mapM fun ws ↦ Relation.readTrimmed (unwords ws)

/-! ### Compiling -/

/-- What a rule amounts to for integers. A rule that claims every integer is a fault. -/
def compile (rule : Rule) : Except Fault Truth :=
  Truth.disjunction (rule.map fun group ↦ Truth.conjunction (group.map (·.compile)))

/-- What the rule of a text amounts to for integers. All of the text is read before anything is
folded, so an unreadable relation is reported even beside one that decides its group. -/
def compileText (text : String) : Except Fault Truth := do
  compile (← read text)

end Rule

end PluralForms
