import PluralForms.Rule
import Mathlib.Data.List.Basic

/-!
# What a rule amounts to

Compiling a rule keeps its meaning for integers: `Rule.holds_of_compile` says that the outcome holds
at a count exactly when the rule does, where the rule is judged by its relations alone
(`Rule.holds`) and no condition is looked at. Below it stands one such equation for each layer: the
items of a value list, a relation, a conjunction and a disjunction of truths.

Compiling also tells apart three kinds of rules, and the kind can be read off the rule itself. A
relation on a variable that is zero for integers is decided, `isConstantly`. A rule is refused when
all relations of some group are decided to hold (`Rule.claimsAll`), it comes to nothing when every
group has a relation decided not to hold (`Rule.claimsNone`), and it has a condition otherwise.
-/

namespace PluralForms

/-! ### Folding truths -/

namespace Truth

variable {parts : List Truth}

/-- Without parts that never hold, the conditions of the parts say as much as the parts. -/
theorem all_filterMap_condition? (h : never ∉ parts) (n : Nat) :
    (parts.filterMap condition?).all (·.holds n) = parts.all (·.holds n) := by
  induction parts with
  | nil => rfl
  | cons p parts ih =>
    obtain ⟨hp, hparts⟩ : never ≠ p ∧ never ∉ parts := by simpa using h
    cases p with
    | always => simpa [condition?, holds] using ih hparts
    | never => exact absurd rfl hp
    | «when» c => simp [condition?, holds, ih hparts]

/-- Without parts that always hold, the conditions of the parts say as much as the parts. -/
theorem any_filterMap_condition? (h : always ∉ parts) (n : Nat) :
    (parts.filterMap condition?).any (·.holds n) = parts.any (·.holds n) := by
  induction parts with
  | nil => rfl
  | cons p parts ih =>
    obtain ⟨hp, hparts⟩ : always ≠ p ∧ always ∉ parts := by simpa using h
    cases p with
    | always => exact absurd rfl hp
    | never => simpa [condition?, holds] using ih hparts
    | «when» c => simp [condition?, holds, ih hparts]

theorem condition?_eq_none_iff {p : Truth} : p.condition? = none ↔ p = always ∨ p = never := by
  cases p <;> simp [condition?]

/-- **Folding constants does not change a conjunction.** -/
theorem holds_conjunction (parts : List Truth) (n : Nat) :
    (conjunction parts).holds n = parts.all (·.holds n) := by
  rw [conjunction]
  split
  next h =>
    have hmem : never ∈ parts := by simpa using h
    exact (List.all_eq_false.2 ⟨never, hmem, by simp [holds]⟩).symm
  next h =>
    have hmem : never ∉ parts := by simpa using h
    rw [← all_filterMap_condition? hmem n]
    split
    next hnil => simp [holds, hnil]
    next => simp [holds]

/-- **Folding constants does not change a disjunction** that is no fault. -/
theorem holds_of_disjunction {t : Truth} (h : disjunction parts = .ok t) (n : Nat) :
    t.holds n = parts.any (·.holds n) := by
  rw [disjunction] at h
  split at h
  next => cases h
  next hmem =>
    rw [← any_filterMap_condition? (by simpa using hmem) n]
    split at h
    next hnil => cases h; simp [holds, hnil]
    next => cases h; simp [holds]

/-! ### When a folded truth is constant -/

/-- A conjunction never holds exactly when some part never does. -/
theorem conjunction_eq_never_iff : conjunction parts = never ↔ never ∈ parts := by
  rw [conjunction]
  split
  next h => simpa using h
  next h =>
    have hmem : never ∉ parts := by simpa using h
    split <;> simp [hmem]

theorem conjunction_eq_always_iff : conjunction parts = always ↔ ∀ p ∈ parts, p = always := by
  rw [conjunction]
  split
  next h =>
    have hmem : never ∈ parts := by simpa using h
    exact ⟨nofun, fun h ↦ nomatch h never hmem⟩
  next h =>
    have hmem : never ∉ parts := by simpa using h
    have hconst : (parts.filterMap condition? = []) ↔ ∀ p ∈ parts, p = always := by
      rw [List.filterMap_eq_nil_iff]
      refine forall₂_congr fun p hp ↦ ?_
      rw [condition?_eq_none_iff]
      exact or_iff_left fun hnever ↦ hmem (hnever ▸ hp)
    rw [← hconst]
    split
    next hnil => simp [hnil]
    next hne => simpa using hne

/-- **A disjunction fails exactly when some part always holds.** -/
theorem disjunction_eq_error_iff {f : Fault} :
    disjunction parts = .error f ↔ f = .alwaysTrue ∧ always ∈ parts := by
  rw [disjunction]
  split
  next h =>
    have hmem : always ∈ parts := by simpa using h
    simp [hmem, eq_comm]
  next h =>
    have hmem : always ∉ parts := by simpa using h
    split <;> simp [hmem]

theorem disjunction_eq_ok_never_iff : disjunction parts = .ok never ↔ ∀ p ∈ parts, p = never := by
  rw [disjunction]
  split
  next h =>
    have hmem : always ∈ parts := by simpa using h
    exact ⟨nofun, fun h ↦ nomatch h always hmem⟩
  next h =>
    have hmem : always ∉ parts := by simpa using h
    have hconst : (parts.filterMap condition? = []) ↔ ∀ p ∈ parts, p = never := by
      rw [List.filterMap_eq_nil_iff]
      refine forall₂_congr fun p hp ↦ ?_
      rw [condition?_eq_none_iff]
      exact or_iff_right fun halways ↦ hmem (halways ▸ hp)
    rw [← hconst]
    split
    next hnil => simp [hnil]
    next hne => simpa using hne

/-- A disjunction is not folded to what always holds: that is an error. -/
theorem disjunction_ne_ok_always : disjunction parts ≠ .ok always := by
  rw [disjunction]
  split
  next => simp
  next => split <;> simp

end Truth

/-! ### Relations -/

namespace Relation

/-- What an item of the value list says, as a condition and as a set of numbers. -/
theorem holds_spanCondition (r : Relation) (s : Span) (n : Nat) :
    (r.spanCondition s).holds n = (s.contains (r.operand.value n) != r.negated) := by
  obtain ⟨subject, modulus, negated, values⟩ := r
  generalize hx : Relation.operand ⟨subject, modulus, negated, values⟩ = o
  cases s with
  | single v =>
    cases negated <;> simp [spanCondition, valueCondition, hx, Span.contains, Comparator.holds, bne,
      Bool.beq_comm]
  | range first last =>
    rw [Bool.eq_iff_iff, spanCondition]
    -- two neighbours are compared one by one, a wider range by its ends
    split
    next htwo =>
      cases negated <;>
        simp [junction, valueCondition, hx, Span.contains, Comparator.holds] <;> omega
    next =>
      cases negated <;> simp [hx, Span.contains, Comparator.holds]

/-- A junction of a relation holds for all of its parts under `!=`, for some under `=`. -/
theorem holds_junction (r : Relation) (parts : List Condition) (n : Nat) :
    (r.junction parts).holds n =
      if r.negated then parts.all (·.holds n) else parts.any (·.holds n) := by
  rw [junction]
  split <;> simp

/-- A relation on the number itself compares its left side. -/
theorem value_operand (r : Relation) (h : r.subject.isAlwaysZero = false) (n : Nat) :
    r.operand.value n = r.left n := by
  have hvalue : r.subject.value n = n := by rw [Variable.value_eq_ite, h]; rfl
  rw [operand, left, hvalue]
  cases r.modulus <;> rfl

/-- The left side of a relation on a variable that is zero for integers is zero, reduced or not. -/
theorem left_of_isAlwaysZero (r : Relation) (h : r.subject.isAlwaysZero = true) (n : Nat) :
    r.left n = 0 := by
  have hvalue : r.subject.value n = 0 := by rw [Variable.value_eq_ite, h]; rfl
  rw [left, hvalue]
  cases r.modulus <;> simp

/-- **A relation and what it amounts to hold at the same counts.** -/
theorem holds_compile (r : Relation) (n : Nat) : r.compile.holds n = r.holds n := by
  rw [compile, holds]
  split
  next hzero =>
    rw [left_of_isAlwaysZero r hzero]
    split <;> simp_all [Truth.holds]
  next hzero =>
    rw [← value_operand r (by simpa using hzero), lists, Truth.holds, holds_junction]
    have hspan : ((fun c ↦ Condition.holds c n) ∘ r.spanCondition) =
        fun s ↦ (s.contains (r.operand.value n) != r.negated) :=
      funext fun s ↦ holds_spanCondition r s n
    rw [List.all_map, List.any_map, hspan]
    cases r.negated with
    | false => simp
    | true => simp [List.all_eq_not_any_not]

/-- The relation is decided for integers, because it is on a variable other than the number itself,
and it comes out as `outcome`. -/
def isConstantly (outcome : Bool) (r : Relation) : Bool :=
  match r.subject with
  | .n | .i => false
  | .v | .w | .f | .t | .c | .e => r.holds 0 == outcome

/-- The relations that are decided are those on a variable that is known to be zero. -/
theorem isConstantly_iff {r : Relation} {outcome : Bool} :
    r.isConstantly outcome ↔ r.subject.isAlwaysZero ∧ r.holds 0 = outcome := by
  rw [isConstantly]
  cases r.subject <;> simp [Variable.isAlwaysZero]

/-- A decided relation has its outcome at every count. -/
theorem holds_of_isConstantly {r : Relation} {outcome : Bool} (h : r.isConstantly outcome)
    (n : Nat) : r.holds n = outcome := by
  obtain ⟨hzero, hout⟩ := isConstantly_iff.1 h
  rw [← hout, holds, holds, left_of_isAlwaysZero r hzero, left_of_isAlwaysZero r hzero]

/-- **A relation amounts to a truth** exactly when it is decided to hold. -/
theorem compile_eq_always_iff {r : Relation} : r.compile = .always ↔ r.isConstantly true := by
  rw [compile, isConstantly_iff]
  split
  next hzero => simp [hzero, holds, left_of_isAlwaysZero r hzero]
  next hzero => simp [hzero]

/-- **A relation amounts to a falsehood** exactly when it is decided not to hold. -/
theorem compile_eq_never_iff {r : Relation} : r.compile = .never ↔ r.isConstantly false := by
  rw [compile, isConstantly_iff]
  split
  next hzero => simp [hzero, holds, left_of_isAlwaysZero r hzero]
  next hzero => simp [hzero]

end Relation

/-! ### Rules -/

namespace Rule

/-- In some group every relation is decided to hold: the rule claims every integer. -/
def claimsAll (rule : Rule) : Bool :=
  rule.any (·.all (·.isConstantly true))

/-- Every group has a relation that is decided not to hold: the rule claims no integer. -/
def claimsNone (rule : Rule) : Bool :=
  rule.all (·.any (·.isConstantly false))

/-- **A rule and what it amounts to hold at the same counts.** -/
theorem holds_of_compile {rule : Rule} {t : Truth} (h : rule.compile = .ok t) (n : Nat) :
    t.holds n = rule.holds n := by
  rw [Truth.holds_of_disjunction h n, holds, List.any_map]
  congr 1
  funext group
  rw [Function.comp_apply, Truth.holds_conjunction, List.all_map]
  congr 1
  funext r
  exact Relation.holds_compile r n

/-- **A rule fails to compile exactly when it claims every integer.** -/
theorem compile_eq_error_iff {rule : Rule} {f : Fault} :
    rule.compile = .error f ↔ f = .alwaysTrue ∧ rule.claimsAll := by
  rw [compile, Truth.disjunction_eq_error_iff, List.mem_map, claimsAll, List.any_eq_true]
  refine and_congr_right fun _ ↦ exists_congr fun group ↦ and_congr_right fun _ ↦ ?_
  rw [Truth.conjunction_eq_always_iff, List.forall_mem_map, List.all_eq_true]
  exact forall₂_congr fun r _ ↦ Relation.compile_eq_always_iff

/-- A rule is compiled to what never holds exactly when it claims no integer. -/
theorem compile_eq_ok_never_iff {rule : Rule} : rule.compile = .ok .never ↔ rule.claimsNone := by
  rw [compile, Truth.disjunction_eq_ok_never_iff, List.forall_mem_map, claimsNone, List.all_eq_true]
  refine forall₂_congr fun group _ ↦ ?_
  rw [Truth.conjunction_eq_never_iff, List.mem_map, List.any_eq_true]
  exact exists_congr fun r ↦ and_congr_right fun _ ↦ Relation.compile_eq_never_iff

/-- A rule that claims some integers and leaves others open to the count has a condition. -/
theorem exists_compile_eq_when_iff {rule : Rule} :
    (∃ c, rule.compile = .ok (.when c)) ↔ rule.claimsAll = false ∧ rule.claimsNone = false := by
  constructor
  · rintro ⟨c, hc⟩
    refine ⟨Bool.eq_false_iff.2 fun h ↦ ?_, Bool.eq_false_iff.2 fun h ↦ ?_⟩
    · rw [compile_eq_error_iff.2 ⟨rfl, h⟩] at hc
      cases hc
    · rw [compile_eq_ok_never_iff.2 h] at hc
      cases hc
  · rintro ⟨hall, hnone⟩
    cases hc : rule.compile with
    | error f =>
      have := (compile_eq_error_iff.1 hc).2
      simp [hall] at this
    | ok t =>
      cases t with
      | always => exact absurd hc Truth.disjunction_ne_ok_always
      | never =>
        have := compile_eq_ok_never_iff.1 hc
        simp [hnone] at this
      | «when» c => exact ⟨c, rfl⟩

/-- A rule that claims no integer holds at none. -/
theorem holds_of_claimsNone {rule : Rule} (h : rule.claimsNone) (n : Nat) :
    rule.holds n = false := by
  rw [← holds_of_compile (compile_eq_ok_never_iff.2 h) n, Truth.holds]

/-- A rule that claims every integer holds at all of them. -/
theorem holds_of_claimsAll {rule : Rule} (h : rule.claimsAll) (n : Nat) : rule.holds n = true := by
  obtain ⟨group, hgroup, hall⟩ := List.any_eq_true.1 h
  refine List.any_eq_true.2 ⟨group, hgroup, List.all_eq_true.2 fun r hr ↦ ?_⟩
  exact Relation.holds_of_isConstantly (List.all_eq_true.1 hall r hr) n

theorem claimsAll_eq_false_of_claimsNone {rule : Rule} (h : rule.claimsNone) :
    rule.claimsAll = false := by
  refine Bool.eq_false_iff.2 fun hall ↦ ?_
  have htrue := holds_of_claimsAll hall 0
  rw [holds_of_claimsNone h 0] at htrue
  exact Bool.false_ne_true htrue

end Rule

end PluralForms
