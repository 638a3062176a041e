/-!
# Patterns

A pattern describes how a text begins. It is matched by trying things out: of two alternatives, and
of several numbers of repetitions, one is preferred, and another comes into question only if the
preferred one leads to no match of the whole pattern. So a part gives up what it has taken if
something after it cannot be matched otherwise.

Parts of a pattern can be named. A match knows what each of them has taken.
-/

namespace PluralForms

/-- A pattern whose parts have names in `ι`. -/
inductive Pattern (ι : Type) where
  /-- Nothing, which is found everywhere. -/
  | empty
  /-- The end of the text. -/
  | atEnd
  /-- One character of a kind. -/
  | one (kind : Char → Bool)
  /-- The one, and then the other. -/
  | seq (first second : Pattern ι)
  /-- The one or, if that leads nowhere, the other. -/
  | orElse (preferred other : Pattern ι)
  /-- A part with a name. -/
  | group (name : ι) (part : Pattern ι)

namespace Pattern

variable {ι α : Type}

/-- The pattern, preferably, or nothing. -/
def optional (p : Pattern ι) : Pattern ι :=
  .orElse p .empty

/-- The pattern up to `most` times, preferably often. -/
def upTo (p : Pattern ι) : (most : Nat) → Pattern ι
  | 0 => .empty
  | most + 1 => optional (.seq p (upTo p most))

/-- The pattern `least` times, and then up to `more` times more. -/
def repeated (p : Pattern ι) : (least more : Nat) → Pattern ι
  | 0, more => upTo p more
  | least + 1, more => .seq p (repeated p least more)

/-- What the named parts have taken so far. -/
abbrev Captures (ι : Type) : Type := List (ι × List Char)

/-- Match the pattern at the start of a text, and whatever else there is to match after it: `next`
says what that comes to, given what has been captured and the text that is left. -/
def matchThen : Pattern ι → (next : Captures ι → List Char → Option α) →
    Captures ι → List Char → Option α
  | .empty, next, captures, text => next captures text
  | .atEnd, next, captures, text => if text.isEmpty then next captures text else none
  | .one _, _, _, [] => none
  | .one kind, next, captures, c :: rest => if kind c then next captures rest else none
  | .seq first second, next, captures, text =>
    first.matchThen (second.matchThen next) captures text
  | .orElse preferred other, next, captures, text =>
    (preferred.matchThen next captures text).or (other.matchThen next captures text)
  | .group name part, next, captures, text =>
    part.matchThen (fun captures rest ↦
      next ((name, text.take (text.length - rest.length)) :: captures) rest) captures text

/-- What is to be matched after a sequence is matched after its second part. -/
theorem matchThen_seq (first second : Pattern ι) (next : Captures ι → List Char → Option α) :
    (seq first second).matchThen next = first.matchThen (second.matchThen next) := by
  funext captures text
  rw [matchThen]

/-- What the named parts take of the start of a text, if the text begins as the pattern says. -/
def match? (p : Pattern ι) (text : String) : Option (Captures ι) :=
  p.matchThen (fun captures _ ↦ some captures) [] text.toList

end Pattern

end PluralForms
