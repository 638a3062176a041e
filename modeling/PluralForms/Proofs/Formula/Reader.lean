/-!
# Reading formulas

A formula is published as a C expression in the count `n`, for others to read. This file says how
they read it, with no regard to how it was written: it has the tokens of such an expression, its
tree and its value at a count. `Formula.read` makes a tree of a text.

Tokens are taken greedily, and a number of several digits does not start with `0`, which would make
it octal. The tokens are then read from left to right. What stands in parentheses is an operand, and
so is what stands between `?` and `:`, together with which it acts as an operator between the test
and the alternative. What is left is a row of operands with operators between them, and here
precedence decides: the operators of the highest rank are applied first, from left to right, and
those of the lower ranks after them.

The conditional operator has the lowest rank. Whether a row of several is taken from the right, as
in C, or from the left, as in PHP before version 8, is a parameter of reading.
-/

namespace PluralForms.Formula

/-! ### Expressions -/

/-- The operators with two operands. -/
inductive Operator where
  | rem
  | lt
  | gt
  | le
  | ge
  | eq
  | ne
  | and
  | or
deriving DecidableEq, Repr

/-- How tightly an operator binds. -/
def Operator.rank : Operator → Nat
  | rem => 5
  | lt | gt | le | ge => 4
  | eq | ne => 3
  | and => 2
  | or => 1

/-- Expression trees. -/
inductive Expression where
  | number (value : Nat)
  | count
  | binary (op : Operator) (left right : Expression)
  | conditional (test yes no : Expression)
deriving DecidableEq, Repr

/-- The value of an operator that needs both operands. A remainder modulo zero has none. -/
def Operator.apply (op : Operator) (a b : Nat) : Option Nat :=
  match op with
  | rem => if b = 0 then none else some (a % b)
  | lt => some (decide (a < b)).toNat
  | gt => some (decide (b < a)).toNat
  | le => some (decide (a ≤ b)).toNat
  | ge => some (decide (b ≤ a)).toNat
  | eq => some (decide (a = b)).toNat
  | ne => some (decide (a ≠ b)).toNat
  | and => some (decide (a ≠ 0 ∧ b ≠ 0)).toNat
  | or => some (decide (a ≠ 0 ∨ b ≠ 0)).toNat

/-- The value of an expression at a count. Truth is `1` and falsehood `0`; the second operand of
`&&` and `||` is evaluated only if the first does not decide. -/
def Expression.eval (n : Nat) : Expression → Option Nat
  | number k => some k
  | count => some n
  | binary op a b =>
    (a.eval n).bind fun x ↦
      if op = .and ∧ x = 0 then some 0
      else if op = .or ∧ x ≠ 0 then some 1
      else (b.eval n).bind (op.apply x)
  | conditional test yes no =>
    (test.eval n).bind fun x ↦ if x = 0 then no.eval n else yes.eval n

/-! ### Tokens -/

/-- The tokens of an expression. -/
inductive Token where
  | number (value : Nat)
  | count
  | operator (op : Operator)
  | opening
  | closing
  | question
  | colon
deriving DecidableEq, Repr

/-- The tokens of two characters. -/
def pairs : List ((Char × Char) × Token) :=
  [(('=', '='), .operator .eq), (('!', '='), .operator .ne), (('<', '='), .operator .le),
   (('>', '='), .operator .ge), (('&', '&'), .operator .and), (('|', '|'), .operator .or)]

/-- The tokens of one character, numbers aside. -/
def singles : List (Char × Token) :=
  [('n', .count), ('%', .operator .rem), ('<', .operator .lt), ('>', .operator .gt),
   ('(', .opening), (')', .closing), ('?', .question), (':', .colon)]

/-- What has been seen of a token that may go on. -/
inductive Pending where
  | nothing
  | number (value : Nat)
  | sign (c : Char)
deriving DecidableEq, Repr

/-- The tokens that are complete, and the one that may go on. -/
structure Lexer where
  tokens : List Token
  pending : Pending
deriving DecidableEq, Repr

namespace Lexer

/-- A character that starts a token, or a blank. -/
def start (tokens : List Token) (c : Char) : Option Lexer :=
  if c = ' ' then some ⟨tokens, .nothing⟩
  else if c.isDigit then some ⟨tokens, .number (c.toNat - '0'.toNat)⟩
  else if pairs.any (·.1.1 == c) then some ⟨tokens, .sign c⟩
  else (singles.lookup c).map fun t ↦ ⟨tokens ++ [t], .nothing⟩

/-- The tokens, when the one that may go on does not. -/
def finish (s : Lexer) : Option (List Token) :=
  match s.pending with
  | .nothing => some s.tokens
  | .number v => some (s.tokens ++ [.number v])
  | .sign c => (singles.lookup c).map fun t ↦ s.tokens ++ [t]

/-- One more character. -/
def step (s : Lexer) (c : Char) : Option Lexer :=
  match s.pending with
  | .number v =>
    if c.isDigit then
      if v = 0 then none else some ⟨s.tokens, .number (10 * v + (c.toNat - '0'.toNat))⟩
    else s.finish.bind (start · c)
  | .sign d =>
    match pairs.lookup (d, c) with
    | some t => some ⟨s.tokens ++ [t], .nothing⟩
    | none => s.finish.bind (start · c)
  | .nothing => start s.tokens c

end Lexer

/-- The tokens of a text. -/
def lex (text : String) : Option (List Token) :=
  (text.toList.foldlM Lexer.step ⟨[], .nothing⟩).bind Lexer.finish

/-! ### Rows of operands -/

/-- What stands between two operands: an operator, or `?` and `:` with what they enclose. -/
inductive Joint where
  | operator (op : Operator)
  | select (yes : Expression)
deriving DecidableEq, Repr

namespace Joint

/-- How tightly a joint binds. -/
def rank : Joint → Nat
  | operator op => op.rank
  | select _ => 0

/-- The expression of a joint and its two operands. -/
def apply (j : Joint) (a b : Expression) : Expression :=
  match j with
  | operator op => .binary op a b
  | select yes => .conditional a yes b

end Joint

/-- Operands with joints between them. -/
structure Row where
  first : Expression
  rest : List (Joint × Expression)
deriving DecidableEq, Repr

/-- Which end a row of conditional operators is taken from. -/
inductive Side where
  | left
  | right
deriving DecidableEq, Repr

namespace Row

/-- The row of a single operand. -/
def single (e : Expression) : Row :=
  ⟨e, []⟩

/-- Two rows with a joint between them. -/
def join (r : Row) (j : Joint) (s : Row) : Row :=
  ⟨r.first, r.rest ++ (j, s.first) :: s.rest⟩

/-- Apply the joints of a rank, from left to right. -/
def tightenFrom (rank : Nat) (a : Expression) : List (Joint × Expression) → Row
  | [] => ⟨a, []⟩
  | (j, b) :: rest =>
    if j.rank = rank then tightenFrom rank (j.apply a b) rest
    else (single a).join j (tightenFrom rank b rest)

/-- Apply the joints of a rank, from left to right. -/
def tighten (r : Row) (rank : Nat) : Row :=
  tightenFrom rank r.first r.rest

/-- Apply all joints from right to left. -/
def applyRight (a : Expression) : List (Joint × Expression) → Expression
  | [] => a
  | (j, b) :: rest => j.apply a (applyRight b rest)

/-- The expression of a row: operators by rank, then the conditional operators from a side. -/
def resolve (side : Side) (r : Row) : Expression :=
  let r := [5, 4, 3, 2, 1].foldl tighten r
  match side with
  | .left => (r.tighten 0).first
  | .right => applyRight r.first r.rest

end Row

/-! ### Nesting -/

/-- The row being read: it has not begun, it could end here, or a joint waits for its right
operand. -/
inductive Phrase where
  | empty
  | complete (row : Row)
  | awaiting (row : Row) (joint : Joint)
deriving DecidableEq, Repr

/-- Go on with the operands of a row. There has to be room for an operand. -/
def Phrase.extend (p : Phrase) (r : Row) : Option Phrase :=
  match p with
  | empty => some (complete r)
  | complete _ => none
  | awaiting row joint => some (complete (row.join joint r))

/-- What is open around the row being read: a parenthesis, with the phrase it stands in, or a
question mark, with its test. -/
inductive Frame where
  | group (outer : Phrase)
  | branch (test : Row)
deriving DecidableEq, Repr

/-- A point in the reading of tokens. -/
structure State where
  phrase : Phrase
  stack : List Frame
deriving DecidableEq, Repr

/-- One more token. -/
def State.step (side : Side) (s : State) (t : Token) : Option State :=
  match t, s.phrase, s.stack with
  | .number v, phrase, stack => (phrase.extend (.single (.number v))).map (⟨·, stack⟩)
  | .count, phrase, stack => (phrase.extend (.single .count)).map (⟨·, stack⟩)
  | .operator op, .complete row, stack => some ⟨.awaiting row (.operator op), stack⟩
  | .opening, phrase, stack => some ⟨.empty, .group phrase :: stack⟩
  | .closing, .complete row, .group outer :: stack =>
    (outer.extend (.single (row.resolve side))).map (⟨·, stack⟩)
  | .question, .complete row, stack => some ⟨.empty, .branch row :: stack⟩
  | .colon, .complete row, .branch test :: stack =>
    some ⟨.awaiting test (.select (row.resolve side)), stack⟩
  | _, _, _ => none

/-- The expression of a state in which everything is closed. -/
def State.finish (side : Side) (s : State) : Option Expression :=
  match s with
  | ⟨.complete row, []⟩ => some (row.resolve side)
  | _ => none

/-- The expression that a text spells. -/
def read (side : Side) (text : String) : Option Expression :=
  (lex text).bind fun tokens ↦
    (tokens.foldlM (State.step side) ⟨.empty, []⟩).bind (State.finish side)

/-- Precedence makes parentheses around a conjunction superfluous. -/
example : read .right "n == 1 || n % 10 > 2 && n < 7" =
    read .right "(n == 1) || (((n % 10) > 2) && (n < 7))" := by decide +kernel

/-- The side makes a difference to conditional operators without parentheses. -/
example : (read .left "n == 0 ? 1 : n == 1 ? 2 : 3").bind (·.eval 0) = some 2 ∧
    (read .right "n == 0 ? 1 : n == 1 ? 2 : 3").bind (·.eval 0) = some 1 := by decide +kernel

end PluralForms.Formula
