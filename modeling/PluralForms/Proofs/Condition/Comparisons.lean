import PluralForms.Proofs.Condition.Canonical

/-!
# The comparisons in a condition

Some facts about a condition are facts about the comparisons in it and not about the way they are
joined. `comparisons` lists them from left to right, at any depth. The constructions on conditions
act on this list in a simple way. Joining conditions puts their comparisons one after the other,
whatever is spliced or unwrapped (`comparisons_conj`, `comparisons_disj`). A complement by shape has
the same comparisons in the same order, each with the other operator (`comparisons_of_complement?`).
The tables may shorten the list, but no negation compares an operand that the condition does not
(`operands_subset_of_negate`).

A condition is *defined* when no remainder in it is modulo zero. This is less than well-formed:
junctions may be empty.
-/

namespace PluralForms

/-- A comparison of an operand with a number. -/
structure Comparison where
  /-- The left side. -/
  operand : Operand
  /-- The operator. -/
  comparator : Comparator
  /-- The right side. -/
  value : Nat
deriving DecidableEq, Repr

/-- The comparison with the other operator. -/
def Comparison.flip (x : Comparison) : Comparison :=
  { x with comparator := x.comparator.complement }

namespace Condition

mutual

/-- The comparisons in a condition, from left to right. -/
def comparisons : Condition → List Comparison
  | .compare o r v => [⟨o, r, v⟩]
  | .all cs => memberComparisons cs
  | .any cs => memberComparisons cs

/-- The comparisons in the listed conditions. -/
def memberComparisons : List Condition → List Comparison
  | [] => []
  | c :: cs => comparisons c ++ memberComparisons cs

end

theorem memberComparisons_eq (cs : List Condition) :
    memberComparisons cs = cs.flatMap comparisons := by
  induction cs with
  | nil => rfl
  | cons c cs ih => rw [memberComparisons, ih, List.flatMap_cons]

@[simp] theorem comparisons_compare (o : Operand) (r : Comparator) (v : Nat) :
    (compare o r v).comparisons = [⟨o, r, v⟩] := by
  rw [comparisons]

@[simp] theorem comparisons_all (cs : List Condition) :
    (all cs).comparisons = cs.flatMap comparisons := by
  rw [comparisons, memberComparisons_eq]

@[simp] theorem comparisons_any (cs : List Condition) :
    (any cs).comparisons = cs.flatMap comparisons := by
  rw [comparisons, memberComparisons_eq]

/-- The operands that are compared in a condition. -/
def operands (c : Condition) : List Operand :=
  c.comparisons.map (·.operand)

@[simp] theorem operands_compare (o : Operand) (r : Comparator) (v : Nat) :
    (compare o r v).operands = [o] := by
  rw [operands, comparisons_compare, List.map_singleton]

@[simp] theorem operands_all (cs : List Condition) : (all cs).operands = cs.flatMap operands := by
  rw [operands, comparisons_all, List.map_flatMap]
  rfl

@[simp] theorem operands_any (cs : List Condition) : (any cs).operands = cs.flatMap operands := by
  rw [operands, comparisons_any, List.map_flatMap]
  rfl

/-! ### Junctions -/

/-- Splicing into a conjunction keeps the comparisons and their order. -/
theorem flatMap_comparisons_conjuncts (c : Condition) :
    c.conjuncts.flatMap comparisons = c.comparisons := by
  cases c <;> simp [conjuncts]

theorem flatMap_comparisons_disjuncts (c : Condition) :
    c.disjuncts.flatMap comparisons = c.comparisons := by
  cases c <;> simp [disjuncts]

/-- **Splicing and unwrapping keep the comparisons** of a conjunction. -/
@[simp] theorem comparisons_conj (parts : List Condition) :
    (conj parts).comparisons = parts.flatMap comparisons := by
  have hflat : (parts.flatMap conjuncts).flatMap comparisons = parts.flatMap comparisons := by
    simp only [List.flatMap_assoc, flatMap_comparisons_conjuncts]
  rw [conj, ← hflat]
  split
  next c hc => simp [hc]
  next => simp

/-- **Splicing and unwrapping keep the comparisons** of a disjunction. -/
@[simp] theorem comparisons_disj (parts : List Condition) :
    (disj parts).comparisons = parts.flatMap comparisons := by
  have hflat : (parts.flatMap disjuncts).flatMap comparisons = parts.flatMap comparisons := by
    simp only [List.flatMap_assoc, flatMap_comparisons_disjuncts]
  rw [disj, ← hflat]
  split
  next c hc => simp [hc]
  next => simp

/-! ### Reduction and negation -/

/-- Members that are flipped one by one are flipped together. -/
theorem flatMap_comparisons_of_forall₂ {cs ds : List Condition}
    (h : List.Forall₂ (fun c d ↦ d.comparisons = c.comparisons.map .flip) cs ds) :
    ds.flatMap comparisons = (cs.flatMap comparisons).map .flip := by
  induction h with
  | nil => rfl
  | cons hcd _ ih => rw [List.flatMap_cons, List.flatMap_cons, hcd, ih, List.map_append]

/-- **A complement by shape changes the operators and nothing else** of the comparisons. -/
theorem comparisons_of_complement? {c d : Condition} (h : c.complement? = some d) :
    d.comparisons = c.comparisons.map .flip := by
  refine complement?_induction (motive := fun c d ↦ d.comparisons = c.comparisons.map .flip)
    (fun o r v ↦ ?_) (fun cs ds hmatch ↦ ?_) (fun cs ds hmatch ↦ ?_) h
  · rw [comparisons_compare, comparisons_compare]
    rfl
  · rw [comparisons_disj, comparisons_all, flatMap_comparisons_of_forall₂ hmatch]
  · rw [comparisons_conj, comparisons_any, flatMap_comparisons_of_forall₂ hmatch]

/-- A complement that is found by shape compares the same operands. -/
theorem operands_of_complement? {c d : Condition} (h : c.complement? = some d) :
    d.operands = c.operands := by
  rw [operands, operands, comparisons_of_complement? h, List.map_map]
  rfl

/-- **Reduction compares no new operands.** -/
theorem operands_reduce_subset (c : Condition) : c.reduce.operands ⊆ c.operands := by
  have hrows : ∀ row ∈ reductions, row.2.operands ⊆ row.1.operands := by decide
  rcases reduce_eq_or_mem c with hsame | hrow
  · rw [hsame]
    exact List.Subset.refl _
  · exact hrows (c, c.reduce) hrow

/-- **A negation compares no new operands.** -/
theorem operands_subset_of_negate {c d : Condition} (h : c.negate = .ok d) :
    d.operands ⊆ c.operands := by
  have hrows : ∀ row ∈ complements, row.2.operands ⊆ row.1.operands := by decide
  refine negate_induction (motive := fun c d ↦ d.operands ⊆ c.operands) (fun c d hrow ↦ ?_)
    (fun c d hshape ↦ ?_) (fun c d hsubset ↦ ?_) h
  · exact hrows (c, d) hrow
  · rw [operands_of_complement? hshape]
    exact List.Subset.refl _
  · exact List.Subset.trans (operands_reduce_subset d) hsubset

/-! ### Defined conditions -/

/-- No remainder in the condition is modulo zero. -/
def IsDefined (c : Condition) : Prop :=
  ∀ o ∈ c.operands, o.IsDefined

instance (c : Condition) : Decidable c.IsDefined :=
  inferInstanceAs (Decidable (∀ o ∈ c.operands, o.IsDefined))

theorem isDefined_compare {o : Operand} {r : Comparator} {v : Nat} :
    (compare o r v).IsDefined ↔ o.IsDefined := by
  simp [IsDefined]

theorem isDefined_all {cs : List Condition} : (all cs).IsDefined ↔ ∀ c ∈ cs, c.IsDefined := by
  simp only [IsDefined, operands_all, List.mem_flatMap]
  exact ⟨fun h c hc o ho ↦ h o ⟨c, hc, ho⟩, fun h o ⟨c, hc, ho⟩ ↦ h c hc o ho⟩

theorem isDefined_any {cs : List Condition} : (any cs).IsDefined ↔ ∀ c ∈ cs, c.IsDefined := by
  simp only [IsDefined, operands_any, List.mem_flatMap]
  exact ⟨fun h c hc o ho ↦ h o ⟨c, hc, ho⟩, fun h o ⟨c, hc, ho⟩ ↦ h c hc o ho⟩

/-- Well-formed conditions are defined. -/
theorem WellFormed.isDefined {c : Condition} (h : c.WellFormed) : c.IsDefined := by
  induction h with
  | compare h => exact isDefined_compare.2 h
  | all _ _ ih => exact isDefined_all.2 ih
  | any _ _ ih => exact isDefined_any.2 ih

/-- **The negation of a defined condition is defined.** -/
theorem IsDefined.of_negate {c d : Condition} (h : c.IsDefined) (hd : c.negate = .ok d) :
    d.IsDefined :=
  fun o ho ↦ h o (operands_subset_of_negate hd ho)

end Condition

end PluralForms
