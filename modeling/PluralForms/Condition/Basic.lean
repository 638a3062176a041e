/-!
# Conditions on a count

A condition is what stands between the question marks of a gettext plural formula: comparisons of
the count `n`, or of a remainder of it, joined by `&&` and `||`. This file has the trees, their
truth at a count (`holds`), and the two ways to put conditions together without nesting a junction
in one of its own kind (`conj`, `disj`).

The members of a junction form a list, so each recursion on trees comes with a companion on lists of
trees; the companions are the list operations one expects, which is what `allHold_eq`,
`anyHolds_eq` and their like say.
-/

namespace PluralForms

/-- The left side of a comparison: the count `n` or its remainder `n % m`. -/
inductive Operand where
  | count
  | remainder (modulus : Nat)
deriving DecidableEq, Repr, Inhabited

namespace Operand

/-- The number an operand stands for when the count is `n`. -/
def value (o : Operand) (n : Nat) : Nat :=
  match o with
  | count => n
  | remainder m => n % m

/-- The operand in a formula. -/
def text : Operand → String
  | count => "n"
  | remainder m => "n % " ++ toString m

end Operand

/-- The relational operators. -/
inductive Comparator where
  | eq
  | ne
  | lt
  | gt
  | le
  | ge
deriving DecidableEq, Repr, Inhabited

namespace Comparator

/-- The operator that holds exactly when the given one does not. -/
def complement : Comparator → Comparator
  | eq => ne
  | ne => eq
  | lt => ge
  | gt => le
  | le => gt
  | ge => lt

/-- The truth of a comparison of two numbers. -/
def holds (r : Comparator) (a b : Nat) : Bool :=
  match r with
  | eq => a == b
  | ne => a != b
  | lt => a < b
  | gt => b < a
  | le => a ≤ b
  | ge => b ≤ a

/-- The operator in a formula. -/
def symbol : Comparator → String
  | eq => "=="
  | ne => "!="
  | lt => "<"
  | gt => ">"
  | le => "<="
  | ge => ">="

@[simp] theorem complement_complement (r : Comparator) : r.complement.complement = r := by
  cases r <;> rfl

/-- **A comparator and its complement never agree.** -/
@[simp] theorem holds_complement (r : Comparator) (a b : Nat) :
    r.complement.holds a b = !r.holds a b := by
  cases r <;> simp [complement, holds, bne, ← decide_not]

end Comparator

/-- A comparison, or a junction of conditions: all of them, or any of them. -/
inductive Condition where
  | compare (operand : Operand) (comparator : Comparator) (value : Nat)
  | all (members : List Condition)
  | any (members : List Condition)
deriving Repr, Inhabited

namespace Condition

/-! ### Equality -/

mutual

/-- Conditions are equal when they are the same tree. -/
def decEq : (a b : Condition) → Decidable (a = b)
  | .compare o r v, .compare o' r' v' =>
    if h : o = o' ∧ r = r' ∧ v = v' then
      isTrue (by rw [h.1, h.2.1, h.2.2])
    else
      isFalse fun e ↦ h (by cases e; exact ⟨rfl, rfl, rfl⟩)
  | .all as, .all bs =>
    match decEqList as bs with
    | isTrue h => isTrue (h ▸ rfl)
    | isFalse h => isFalse fun e ↦ h (by cases e; rfl)
  | .any as, .any bs =>
    match decEqList as bs with
    | isTrue h => isTrue (h ▸ rfl)
    | isFalse h => isFalse fun e ↦ h (by cases e; rfl)
  | .compare .., .all _ => isFalse (by simp)
  | .compare .., .any _ => isFalse (by simp)
  | .all _, .compare .. => isFalse (by simp)
  | .all _, .any _ => isFalse (by simp)
  | .any _, .compare .. => isFalse (by simp)
  | .any _, .all _ => isFalse (by simp)

/-- The companion of `decEq` on lists. -/
def decEqList : (as bs : List Condition) → Decidable (as = bs)
  | [], [] => isTrue rfl
  | [], _ :: _ => isFalse (by simp)
  | _ :: _, [] => isFalse (by simp)
  | a :: as, b :: bs =>
    match decEq a b, decEqList as bs with
    | isTrue h, isTrue t => isTrue (by rw [h, t])
    | isFalse h, _ => isFalse fun e ↦ h (by cases e; rfl)
    | _, isFalse t => isFalse fun e ↦ t (by cases e; rfl)

end

instance : DecidableEq Condition := decEq

/-! ### Truth at a count -/

mutual

/-- The truth of a condition when the count is `n`. -/
def holds (c : Condition) (n : Nat) : Bool :=
  match c with
  | .compare o r v => r.holds (o.value n) v
  | .all cs => allHold cs n
  | .any cs => anyHolds cs n

/-- Every listed condition holds at `n`. -/
def allHold (cs : List Condition) (n : Nat) : Bool :=
  match cs with
  | [] => true
  | c :: cs => holds c n && allHold cs n

/-- Some listed condition holds at `n`. -/
def anyHolds (cs : List Condition) (n : Nat) : Bool :=
  match cs with
  | [] => false
  | c :: cs => holds c n || anyHolds cs n

end

theorem allHold_eq (cs : List Condition) (n : Nat) : allHold cs n = cs.all (holds · n) := by
  induction cs with
  | nil => rfl
  | cons c cs ih => rw [allHold, ih, List.all_cons]

theorem anyHolds_eq (cs : List Condition) (n : Nat) : anyHolds cs n = cs.any (holds · n) := by
  induction cs with
  | nil => rfl
  | cons c cs ih => rw [anyHolds, ih, List.any_cons]

@[simp] theorem holds_compare (o : Operand) (r : Comparator) (v n : Nat) :
    (Condition.compare o r v).holds n = r.holds (o.value n) v := by
  rw [holds]

@[simp] theorem holds_all (cs : List Condition) (n : Nat) :
    (Condition.all cs).holds n = cs.all (holds · n) := by
  rw [holds, allHold_eq]

@[simp] theorem holds_any (cs : List Condition) (n : Nat) :
    (Condition.any cs).holds n = cs.any (holds · n) := by
  rw [holds, anyHolds_eq]

/-! ### Junctions -/

/-- What a condition contributes to a conjunction it is part of. -/
def conjuncts : Condition → List Condition
  | .all cs => cs
  | c => [c]

/-- What a condition contributes to a disjunction it is part of. -/
def disjuncts : Condition → List Condition
  | .any cs => cs
  | c => [c]

/-- All of the parts. A part that is itself a conjunction gives its members, and a conjunction of
one member is that member. -/
def conj (parts : List Condition) : Condition :=
  match parts.flatMap conjuncts with
  | [c] => c
  | cs => .all cs

/-- Any of the parts. A part that is itself a disjunction gives its members, and a disjunction of
one member is that member. -/
def disj (parts : List Condition) : Condition :=
  match parts.flatMap disjuncts with
  | [c] => c
  | cs => .any cs

/-- Splicing into a conjunction does not change the truth of a condition. -/
theorem all_conjuncts (c : Condition) (n : Nat) : c.conjuncts.all (holds · n) = c.holds n := by
  cases c <;> simp [conjuncts]

theorem any_disjuncts (c : Condition) (n : Nat) : c.disjuncts.any (holds · n) = c.holds n := by
  cases c <;> simp [disjuncts]

/-- Splicing and unwrapping do not change what a conjunction says. -/
@[simp] theorem holds_conj (parts : List Condition) (n : Nat) :
    (conj parts).holds n = parts.all (holds · n) := by
  have flat : (parts.flatMap conjuncts).all (holds · n) = parts.all (holds · n) := by
    simp only [List.all_flatMap, all_conjuncts]
  rw [conj, ← flat]
  split
  next c h => simp [h]
  next => simp

/-- Splicing and unwrapping do not change what a disjunction says. -/
@[simp] theorem holds_disj (parts : List Condition) (n : Nat) :
    (disj parts).holds n = parts.any (holds · n) := by
  have flat : (parts.flatMap disjuncts).any (holds · n) = parts.any (holds · n) := by
    simp only [List.any_flatMap, any_disjuncts]
  rw [disj, ← flat]
  split
  next c h => simp [h]
  next => simp

/-! ### Operands -/

/-- A bare comparison. -/
def isComparison : Condition → Bool
  | .compare .. => true
  | _ => false

mutual

/-- The operand of every comparison in the condition, if it has comparisons and they agree. -/
def soleOperand : Condition → Option Operand
  | .compare o _ _ => some o
  | .all cs => sharedOperand cs
  | .any cs => sharedOperand cs

/-- The sole operand of the first listed condition, if all the others have the same one. -/
def sharedOperand : List Condition → Option Operand
  | [] => none
  | c :: cs =>
    match soleOperand c with
    | none => none
    | some o => if haveOperand cs o then some o else none

/-- Every listed condition has the sole operand `o`. -/
def haveOperand : List Condition → Operand → Bool
  | [], _ => true
  | c :: cs, o => soleOperand c == some o && haveOperand cs o

end

end Condition

end PluralForms
