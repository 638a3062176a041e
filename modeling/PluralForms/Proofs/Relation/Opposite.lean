import PluralForms.Relation.Compile
import PluralForms.Proofs.Condition.Comparisons

/-!
# Opposite relations

The opposite of a relation has the other operator and is otherwise the same: `n != 2..4` for
`n = 2..4`. There are two ways to its condition. One compiles the opposite relation, the other
compiles the relation and takes the complement, and they arrive at the same tree
(`complement?_condition`).

Both are told by what the items of the value list contribute to the junction (`spanParts`): a
comparison, two of them, or one junction of two bounds, which is of the kind that the junction of
the relation is not. So nothing is spliced when the parts are joined, and the complement goes
through them one by one.

Reduction tells relation and opposite apart in a single case. The comparisons of a relation are all
affirmative or all negative (`isNegative_of_mem_comparisons`), which leaves one row of the table of
reductions, `n != 0 && n != 1`.
-/

namespace PluralForms

namespace Condition

/-! ### Junctions of flat parts -/

theorem flatMap_conjuncts_eq_self {cs : List Condition} (h : ∀ c ∈ cs, c.isConjunction = false) :
    cs.flatMap conjuncts = cs := by
  have hsingle : ∀ c ∈ cs, c.conjuncts = [c] :=
    fun c hc ↦ conjuncts_of_isConjunction_eq_false (h c hc)
  rw [List.flatMap_congr hsingle, List.flatMap_singleton']

theorem flatMap_disjuncts_eq_self {cs : List Condition} (h : ∀ c ∈ cs, c.isDisjunction = false) :
    cs.flatMap disjuncts = cs := by
  have hsingle : ∀ c ∈ cs, c.disjuncts = [c] :=
    fun c hc ↦ disjuncts_of_isDisjunction_eq_false (h c hc)
  rw [List.flatMap_congr hsingle, List.flatMap_singleton']

/-- Joining conditions joins what they contribute, if nothing in that would be spliced again. -/
theorem conj_map_eq {α : Type} {l : List α} {f : α → Condition} {g : α → List Condition}
    (hg : ∀ a ∈ l, (f a).conjuncts = g a) (hflat : ∀ c ∈ l.flatMap g, c.isConjunction = false) :
    conj (l.map f) = conj (l.flatMap g) := by
  rw [conj, conj, flatMap_conjuncts_eq_self hflat, List.flatMap_map, List.flatMap_congr hg]

theorem disj_map_eq {α : Type} {l : List α} {f : α → Condition} {g : α → List Condition}
    (hg : ∀ a ∈ l, (f a).disjuncts = g a) (hflat : ∀ c ∈ l.flatMap g, c.isDisjunction = false) :
    disj (l.map f) = disj (l.flatMap g) := by
  rw [disj, disj, flatMap_disjuncts_eq_self hflat, List.flatMap_map, List.flatMap_congr hg]

/-- What can be complemented as a member has the same complement on its own. -/
theorem complement?_of_complementMember? {c d : Condition} (h : c.complementMember? = some d) :
    c.complement? = some d := by
  have hflip : ∀ c d : Condition, c.flip? = some d → c.complementMember? = some d := by
    intro c d hcd
    cases c with
    | compare o r v => exact hcd
    | _ => cases hcd
  rcases c with ⟨o, r, v⟩ | cs | cs
  · exact h
  · obtain ⟨-, ds, hds, rfl⟩ := by simpa [complementMember?] using h
    have hmembers := mapM_eq_some_iff.2 ((mapM_eq_some_iff.1 hds).imp hflip)
    simp [complement?, hmembers]
  · obtain ⟨-, ds, hds, rfl⟩ := by simpa [complementMember?] using h
    have hmembers := mapM_eq_some_iff.2 ((mapM_eq_some_iff.1 hds).imp hflip)
    simp [complement?, hmembers]

section Flat

variable {cs ds : List Condition}
  (hmatch : List.Forall₂ (fun c d ↦ c.complementMember? = some d) cs ds)

include hmatch

/-- **The complement of a flat conjunction** is the disjunction of the complements. -/
theorem complement?_conj (hcs : ∀ c ∈ cs, c.isConjunction = false)
    (hds : ∀ d ∈ ds, d.isDisjunction = false) : (conj cs).complement? = some (disj ds) := by
  rw [conj, flatMap_conjuncts_eq_self hcs]
  split
  next c =>
    -- a single part stands for itself on both sides
    obtain ⟨d, ds, hcd, hnil, rfl⟩ := List.forall₂_cons_left_iff.1 hmatch
    obtain rfl := List.forall₂_nil_left_iff.1 hnil
    rw [disj, flatMap_disjuncts_eq_self hds]
    exact complement?_of_complementMember? hcd
  next => rw [complement?, mapM_eq_some_iff.2 hmatch, Option.map_some]

/-- **The complement of a flat disjunction** is the conjunction of the complements. -/
theorem complement?_disj (hcs : ∀ c ∈ cs, c.isDisjunction = false)
    (hds : ∀ d ∈ ds, d.isConjunction = false) : (disj cs).complement? = some (conj ds) := by
  rw [disj, flatMap_disjuncts_eq_self hcs]
  split
  next c =>
    obtain ⟨d, ds, hcd, hnil, rfl⟩ := List.forall₂_cons_left_iff.1 hmatch
    obtain rfl := List.forall₂_nil_left_iff.1 hnil
    rw [conj, flatMap_conjuncts_eq_self hds]
    exact complement?_of_complementMember? hcd
  next => rw [complement?, mapM_eq_some_iff.2 hmatch, Option.map_some]

end Flat

end Condition

/-- The operators that a negated relation is written with. -/
def Comparator.isNegative : Comparator → Bool
  | ne => true
  | lt => true
  | gt => true
  | _ => false

namespace Relation

variable (r : Relation)

/-- The same relation with the other operator. -/
def opposite : Relation :=
  { r with negated := !r.negated }

/-- The condition of a relation on the number itself. -/
def condition : Condition :=
  r.junction (r.values.map r.spanCondition)

/-- A relation on a variable that counts is compiled to its condition. -/
theorem compile_eq_when {r : Relation} (h : r.subject.isAlwaysZero = false) :
    r.compile = .when r.condition := by
  rw [compile, h]
  rfl

/-! ### The parts of a condition -/

/-- What an item of the value list contributes to the junction. -/
def spanParts : Span → List Condition
  | .single v => [r.valueCondition v]
  | .range first last =>
    if last = first + 1 then [r.valueCondition first, r.valueCondition last]
    else if r.negated then [.any [.compare r.operand .lt first, .compare r.operand .gt last]]
    else [.all [.compare r.operand .ge first, .compare r.operand .le last]]

/-- What the value list contributes to the junction. -/
def parts : List Condition :=
  r.values.flatMap r.spanParts

variable {r}

theorem isConjunction_of_mem_parts (h : r.negated = true) {c : Condition} (hc : c ∈ r.parts) :
    c.isConjunction = false := by
  obtain ⟨s, -, hc⟩ := List.mem_flatMap.1 hc
  cases s <;> grind [spanParts, valueCondition, Condition.isConjunction]

theorem isDisjunction_of_mem_parts (h : r.negated = false) {c : Condition} (hc : c ∈ r.parts) :
    c.isDisjunction = false := by
  obtain ⟨s, -, hc⟩ := List.mem_flatMap.1 hc
  cases s <;> grind [spanParts, valueCondition, Condition.isDisjunction]

/-- The parts of a span are joined by a conjunction under `!=`. -/
theorem conjuncts_spanCondition (h : r.negated = true) (s : Span) :
    (r.spanCondition s).conjuncts = r.spanParts s := by
  cases s with
  | single v => rfl
  | range first last =>
    rw [spanCondition, spanParts]
    split <;> simp [junction, h, valueCondition, Condition.conj, Condition.disj,
      Condition.conjuncts, Condition.disjuncts]

theorem disjuncts_spanCondition (h : r.negated = false) (s : Span) :
    (r.spanCondition s).disjuncts = r.spanParts s := by
  cases s with
  | single v => rfl
  | range first last =>
    rw [spanCondition, spanParts]
    split <;> simp [junction, h, valueCondition, Condition.conj, Condition.disj,
      Condition.conjuncts, Condition.disjuncts]

/-- **The condition of a relation joins its parts.** -/
theorem condition_eq (r : Relation) :
    r.condition = if r.negated then .conj r.parts else .disj r.parts := by
  rw [condition, junction]
  cases hneg : r.negated with
  | true =>
    exact Condition.conj_map_eq (fun s _ ↦ conjuncts_spanCondition hneg s)
      fun c ↦ isConjunction_of_mem_parts hneg
  | false =>
    exact Condition.disj_map_eq (fun s _ ↦ disjuncts_spanCondition hneg s)
      fun c ↦ isDisjunction_of_mem_parts hneg

/-! ### Complements -/

/-- Part by part, the opposite relation has the complements. -/
theorem forall₂_spanParts_opposite (r : Relation) (s : Span) :
    List.Forall₂ (fun c d ↦ c.complementMember? = some d) (r.spanParts s)
      (r.opposite.spanParts s) := by
  have hvalue : ∀ v, (r.valueCondition v).complementMember? =
      some (r.opposite.valueCondition v) := by
    intro v
    cases hneg : r.negated <;>
      simp [valueCondition, opposite, operand, hneg, Condition.complementMember?,
        Comparator.complement]
  cases s with
  | single v => exact .cons (hvalue v) .nil
  | range first last =>
    rw [spanParts, spanParts]
    split
    · exact .cons (hvalue first) (.cons (hvalue last) .nil)
    · -- the bounds are compared with the same operand, so their junction has a complement
      cases hneg : r.negated <;>
        simp [opposite, operand, hneg, Condition.complementMember?, Condition.soleOperand,
          Condition.sharedOperand, Condition.haveOperand, Condition.flip?, Condition.conj,
          Condition.disj, Condition.conjuncts, Condition.disjuncts, Comparator.complement]

/-- **The parts of the opposite are the complements of the parts.** -/
theorem forall₂_parts_opposite (r : Relation) :
    List.Forall₂ (fun c d ↦ c.complementMember? = some d) r.parts r.opposite.parts := by
  refine List.rel_flatMap (R := Eq) (List.forall₂_same.2 fun s _ ↦ rfl) ?_
  rintro s _ rfl
  exact forall₂_spanParts_opposite r s

/-- **The complement of the condition of a relation is the condition of its opposite.** -/
theorem complement?_condition (r : Relation) :
    r.condition.complement? = some r.opposite.condition := by
  have hmatch := forall₂_parts_opposite r
  rw [condition_eq, condition_eq]
  cases hneg : r.negated with
  | true =>
    have hopposite : r.opposite.negated = false := by simp [opposite, hneg]
    rw [if_pos rfl, hopposite]
    exact Condition.complement?_conj hmatch (fun c ↦ isConjunction_of_mem_parts hneg)
      fun d ↦ isDisjunction_of_mem_parts hopposite
  | false =>
    have hopposite : r.opposite.negated = true := by simp [opposite, hneg]
    rw [if_neg Bool.false_ne_true, hopposite]
    exact Condition.complement?_disj hmatch (fun c ↦ isDisjunction_of_mem_parts hneg)
      fun d ↦ isConjunction_of_mem_parts hopposite

/-! ### Reduction -/

/-- The comparisons of an item are all negative or all affirmative, as the relation is. -/
theorem isNegative_of_mem_spanParts {s : Span} {x : Comparison}
    (hx : x ∈ (r.spanParts s).flatMap Condition.comparisons) :
    x.comparator.isNegative = r.negated := by
  cases s <;> cases hneg : r.negated <;>
    grind [spanParts, valueCondition, Comparator.isNegative, Condition.comparisons_compare,
      Condition.comparisons_all, Condition.comparisons_any]

/-- **The comparisons of a relation are all negative or all affirmative**, as the relation is. -/
theorem isNegative_of_mem_comparisons {x : Comparison} (hx : x ∈ r.condition.comparisons) :
    x.comparator.isNegative = r.negated := by
  have hparts : r.condition.comparisons = r.parts.flatMap Condition.comparisons := by
    rw [condition_eq]
    split <;> simp
  rw [hparts, parts, List.flatMap_assoc] at hx
  obtain ⟨s, -, hx⟩ := List.mem_flatMap.1 hx
  exact isNegative_of_mem_spanParts hx

/-- **Only one condition of a relation is reduced**, that of a number other than `0` and `1`. -/
theorem reduce_condition (r : Relation) :
    r.condition.reduce = r.condition ∨
      r.condition = .all [Condition.countIs .ne 0, Condition.countIs .ne 1] := by
  -- the other rows of the table have comparisons of both kinds
  have hrows : ∀ row ∈ Condition.reductions, ∀ b : Bool,
      (∀ x ∈ row.1.comparisons, x.comparator.isNegative = b) →
        row.1 = .all [Condition.countIs .ne 0, Condition.countIs .ne 1] := by decide
  refine (Condition.reduce_eq_or_mem r.condition).imp_right fun hrow ↦ ?_
  exact hrows _ hrow r.negated fun x hx ↦ isNegative_of_mem_comparisons hx

end Relation

end PluralForms
