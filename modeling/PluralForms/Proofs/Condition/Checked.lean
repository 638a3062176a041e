import PluralForms.Selector
import PluralForms.Proofs.Condition.Comparisons

/-!
# Evaluation that can fail

A machine that evaluates a formula has no value for a remainder modulo zero. `Condition.holds?` and
`Selector.eval?` evaluate as such a machine does, from left to right and no further than needed, and
come to nothing where it would stop. For conditions without such a remainder, and so for well-formed
ones, that never happens: these evaluations agree with `Condition.holds` and `Selector.eval` at
every count.
-/

namespace PluralForms

/-- The number an operand stands for, unless it is a remainder modulo zero. -/
def Operand.value? (o : Operand) (n : Nat) : Option Nat :=
  match o with
  | .count => some n
  | .remainder m => if m = 0 then none else some (n % m)

/-- An operand that divides by nothing but positive numbers has a value at every count. -/
theorem Operand.value?_of_isDefined {o : Operand} (h : o.IsDefined) (n : Nat) :
    o.value? n = some (o.value n) := by
  cases o with
  | count => rfl
  | remainder m => exact if_neg (Nat.ne_of_gt h)

namespace Condition

mutual

/-- The truth of a condition, unless a remainder modulo zero is met. -/
def holds? (c : Condition) (n : Nat) : Option Bool :=
  match c with
  | .compare o r v => (o.value? n).map fun x ↦ r.holds x v
  | .all cs => allHold? cs n
  | .any cs => anyHolds? cs n

/-- Every listed condition holds. The first that does not ends the evaluation. -/
def allHold? (cs : List Condition) (n : Nat) : Option Bool :=
  match cs with
  | [] => some true
  | c :: cs => (holds? c n).bind fun b ↦ if b then allHold? cs n else some false

/-- Some listed condition holds. The first that does ends the evaluation. -/
def anyHolds? (cs : List Condition) (n : Nat) : Option Bool :=
  match cs with
  | [] => some false
  | c :: cs => (holds? c n).bind fun b ↦ if b then some true else anyHolds? cs n

end

variable {n : Nat} {cs : List Condition}

/-- If every member has a truth value, so has their conjunction, wherever its evaluation ends. -/
theorem allHold?_eq (h : ∀ c ∈ cs, c.holds? n = some (c.holds n)) :
    allHold? cs n = some (cs.all (holds · n)) := by
  induction cs with
  | nil => rfl
  | cons c cs ih =>
    obtain ⟨hc, hcs⟩ := List.forall_mem_cons.1 h
    rw [allHold?, hc, Option.bind_some, ih hcs, List.all_cons]
    cases c.holds n <;> rfl

theorem anyHolds?_eq (h : ∀ c ∈ cs, c.holds? n = some (c.holds n)) :
    anyHolds? cs n = some (cs.any (holds · n)) := by
  induction cs with
  | nil => rfl
  | cons c cs ih =>
    obtain ⟨hc, hcs⟩ := List.forall_mem_cons.1 h
    rw [anyHolds?, hc, Option.bind_some, ih hcs, List.any_cons]
    cases c.holds n <;> rfl

/-- **A condition without remainders modulo zero has a truth value at every count.** -/
theorem IsDefined.holds?_eq {c : Condition} (h : c.IsDefined) (n : Nat) :
    c.holds? n = some (c.holds n) := by
  induction c using Condition.induction with
  | compare o r v =>
    rw [holds?, Operand.value?_of_isDefined (isDefined_compare.1 h), holds_compare]
    rfl
  | all cs ih =>
    rw [holds?, allHold?_eq fun c hc ↦ ih c hc (isDefined_all.1 h c hc), holds_all]
  | any cs ih =>
    rw [holds?, anyHolds?_eq fun c hc ↦ ih c hc (isDefined_any.1 h c hc), holds_any]

/-- **A well-formed condition has a truth value at every count.** -/
theorem WellFormed.holds?_eq {c : Condition} (h : c.WellFormed) (n : Nat) :
    c.holds? n = some (c.holds n) :=
  h.isDefined.holds?_eq n

/-- The place of the first listed condition that holds, or the length of the list. The first that
does ends the evaluation. -/
def firstHolding? (cs : List Condition) (n : Nat) : Option Nat :=
  match cs with
  | [] => some 0
  | c :: cs => (c.holds? n).bind fun b ↦ if b then some 0 else (firstHolding? cs n).map (· + 1)

/-- If every test has a truth value, the first that holds is found. -/
theorem firstHolding?_eq (h : ∀ c ∈ cs, c.holds? n = some (c.holds n)) :
    firstHolding? cs n = some (cs.findIdx (·.holds n)) := by
  induction cs with
  | nil => rfl
  | cons c cs ih =>
    obtain ⟨hc, hcs⟩ := List.forall_mem_cons.1 h
    rw [firstHolding?, hc, Option.bind_some, ih hcs, List.findIdx_cons]
    cases c.holds n <;> rfl

end Condition

/-- The index of the category of a count, unless a remainder modulo zero is met. -/
def Selector.eval? (s : Selector) (n : Nat) : Option Nat :=
  match s with
  | constant => some 0
  | binary c => (c.holds? n).map Bool.toNat
  | chain tests => Condition.firstHolding? tests n

/-- **A selector without remainders modulo zero has an answer at every count.** -/
theorem Selector.eval?_eq_of_isDefined {s : Selector} (h : ∀ c ∈ s.conditions, c.IsDefined)
    (n : Nat) : s.eval? n = some (s.eval n) := by
  have hvalues : ∀ c ∈ s.conditions, c.holds? n = some (c.holds n) :=
    fun c hc ↦ (h c hc).holds?_eq n
  cases s with
  | constant => rfl
  | binary c => rw [eval?, hvalues c List.mem_cons_self]; rfl
  | chain tests => exact Condition.firstHolding?_eq hvalues

/-- **A selector of well-formed conditions has an answer at every count.** -/
theorem Selector.eval?_eq {s : Selector} (h : ∀ c ∈ s.conditions, c.WellFormed) (n : Nat) :
    s.eval? n = some (s.eval n) :=
  eval?_eq_of_isDefined (fun c hc ↦ (h c hc).isDefined) n

end PluralForms
