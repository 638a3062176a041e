/-!
# Relations

A relation is the unit of a plural rule: `i % 100 != 12..14, 20` says that the variable `i`, reduced
modulo 100, is not one of the listed values. This file has relations and what they say of an integer
count (`holds`); how they are written and what condition they amount to is elsewhere.
-/

namespace PluralForms

/-- The variables of plural rules. For an integer, `n` and `i` are the number itself, and the
others, which describe a fraction or an exponent, are zero. -/
inductive Variable where
  | n
  | i
  | v
  | w
  | f
  | t
  | c
  | e
deriving DecidableEq, Repr, Inhabited

namespace Variable

/-- Every variable. -/
def all : List Variable :=
  [n, i, v, w, f, t, c, e]

/-- The letter of a variable. -/
def letter : Variable → Char
  | n => 'n'
  | i => 'i'
  | v => 'v'
  | w => 'w'
  | f => 'f'
  | t => 't'
  | c => 'c'
  | e => 'e'

/-- The variable with the given letter. -/
def ofLetter? (l : Char) : Option Variable :=
  all.find? (·.letter == l)

/-- The value of the variable for an integer count. -/
def value (x : Variable) (count : Nat) : Nat :=
  match x with
  | n | i => count
  | v | w | f | t | c | e => 0

/-- The variable is known to be zero for every integer. -/
def isAlwaysZero : Variable → Bool
  | n => false
  | i => false
  | _ => true

/-- **What is known to be zero is zero**, and any other variable is the count itself. -/
theorem value_eq_ite (x : Variable) (count : Nat) :
    x.value count = if x.isAlwaysZero then 0 else count := by
  cases x <;> rfl

end Variable

/-- An item of a value list: one number, or all numbers from a first to a last. -/
inductive Span where
  | single (value : Nat)
  | range (first last : Nat)
deriving DecidableEq, Repr, Inhabited

namespace Span

/-- The number is in the span. -/
def contains (s : Span) (value : Nat) : Bool :=
  match s with
  | single v => v == value
  | range first last => first ≤ value && value ≤ last

end Span

/-- A variable, possibly reduced by a modulus, is among the values, or, if negated, is not. -/
structure Relation where
  /-- The variable on the left. -/
  subject : Variable
  /-- What the variable is reduced by before it is compared. -/
  modulus : Option Nat
  /-- The operator is `!=`. -/
  negated : Bool
  /-- The list on the right. -/
  values : List Span
deriving DecidableEq, Repr

namespace Relation

/-- The number is in one of the listed spans. -/
def lists (r : Relation) (value : Nat) : Bool :=
  r.values.any (·.contains value)

/-- The left side of the relation for an integer count. -/
def left (r : Relation) (count : Nat) : Nat :=
  match r.modulus with
  | none => r.subject.value count
  | some m => r.subject.value count % m

/-- The truth of the relation for an integer count. -/
def holds (r : Relation) (count : Nat) : Bool :=
  r.lists (r.left count) != r.negated

end Relation

end PluralForms
