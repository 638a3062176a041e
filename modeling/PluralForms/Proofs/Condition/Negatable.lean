import PluralForms.Proofs.Condition.Comparisons

/-!
# Which conditions have a negation

A condition has no negation for one reason only: it is a junction, and one of its members is a
junction that is in the way. Such a member is empty, or has a member that is not a comparison, or
compares two different operands (`Obstructs`). Everything else can be negated, in particular every
comparison, every junction of comparisons, whatever they compare, and the empty junctions.

The reason can be read off the condition without negating anything. It is what the check for a sole
operand and the passes over members come to (`isSome_complement?_iff`), and the table of complements
changes nothing about it, since its conditions have a complement by shape as well
(`isSome_or_complement?`).
-/

namespace PluralForms.Condition

/-- The members of a junction. A comparison has none. -/
def members : Condition → List Condition
  | .compare _ _ _ => []
  | .all cs => cs
  | .any cs => cs

/-- The condition is a junction that cannot be complemented as a member of another one. -/
@[mk_iff]
structure Obstructs (c : Condition) : Prop where
  /-- It is a junction. -/
  junction : c.isComparison = false
  /-- It is empty, or has a member that is not a comparison, or has two comparisons of different
  operands. -/
  reason : c.members = [] ∨ (∃ m ∈ c.members, m.isComparison = false) ∨
    ∃ o ∈ c.operands, ∃ o' ∈ c.operands, o ≠ o'

/-! ### Sole operands -/

section Comparisons

variable {cs : List Condition} {o : Operand}

theorem exists_compare_of_isComparison {c : Condition} (h : c.isComparison = true) :
    ∃ o r v, c = .compare o r v := by
  rcases c with ⟨o, r, v⟩ | cs | cs
  · exact ⟨o, r, v, rfl⟩
  · simp [isComparison] at h
  · simp [isComparison] at h

/-- Comparisons have an operand in common exactly when they compare nothing else. -/
theorem haveOperand_iff (h : ∀ c ∈ cs, c.isComparison = true) :
    haveOperand cs o = true ↔ ∀ p ∈ cs.flatMap operands, p = o := by
  induction cs with
  | nil => simp [haveOperand]
  | cons c cs ih =>
    obtain ⟨hc, hcs⟩ := List.forall_mem_cons.1 h
    obtain ⟨p, r, v, rfl⟩ := exists_compare_of_isComparison hc
    simp [haveOperand, soleOperand, ih hcs]

/-- Comparisons share an operand when there are some and no two of them have different ones. -/
theorem isSome_sharedOperand_iff (h : ∀ c ∈ cs, c.isComparison = true) :
    (sharedOperand cs).isSome = true ↔
      cs ≠ [] ∧ ∀ o ∈ cs.flatMap operands, ∀ o' ∈ cs.flatMap operands, o = o' := by
  rcases cs with _ | ⟨c, cs⟩
  · simp [sharedOperand]
  · obtain ⟨hc, hcs⟩ := List.forall_mem_cons.1 h
    obtain ⟨p, r, v, rfl⟩ := exists_compare_of_isComparison hc
    have hshared : (sharedOperand (.compare p r v :: cs)).isSome = haveOperand cs p := by
      cases hp : haveOperand cs p <;> simp [sharedOperand, soleOperand, hp]
    have hoperands : (Condition.compare p r v :: cs).flatMap operands =
        p :: cs.flatMap operands := by
      simp
    rw [hshared, haveOperand_iff hcs, hoperands]
    constructor
    · intro hall
      have heq : ∀ o ∈ p :: cs.flatMap operands, o = p := by simpa using hall
      exact ⟨by simp, fun o ho o' ho' ↦ (heq o ho).trans (heq o' ho').symm⟩
    · exact fun ⟨_, hall⟩ o ho ↦ hall o (List.mem_cons_of_mem p ho) p List.mem_cons_self

end Comparisons

/-! ### Complements by shape -/

/-- A junction of the listed members is no obstruction when they are comparisons of one operand. -/
theorem isSome_mapM_flip?_iff {cs : List Condition} :
    (sharedOperand cs).isSome = true ∧ (cs.mapM flip?).isSome = true ↔
      ¬(cs = [] ∨ (∃ m ∈ cs, m.isComparison = false) ∨
        ∃ o ∈ cs.flatMap operands, ∃ o' ∈ cs.flatMap operands, o ≠ o') := by
  have hflip : ∀ m : Condition, m.flip?.isSome = m.isComparison := fun m ↦ by cases m <;> rfl
  rw [isSome_mapM_iff, and_comm]
  simp only [hflip, not_or, not_exists, not_and, Bool.not_eq_false, ne_eq, not_not]
  rw [and_left_comm]
  exact and_congr_right isSome_sharedOperand_iff

/-- **A member of a junction has a complement** exactly when it does not obstruct. -/
theorem isSome_complementMember?_iff {c : Condition} :
    c.complementMember?.isSome = true ↔ ¬c.Obstructs := by
  rcases c with ⟨o, r, v⟩ | cs | cs
  · simp [complementMember?, obstructs_iff, isComparison]
  · have hjunction : (Condition.all cs).isComparison = false := rfl
    rw [obstructs_iff, operands_all, and_iff_right hjunction]
    refine Iff.trans ?_ isSome_mapM_flip?_iff
    cases hsole : (sharedOperand cs).isSome <;>
      simp [complementMember?, soleOperand, members, hsole]
  · have hjunction : (Condition.any cs).isComparison = false := rfl
    rw [obstructs_iff, operands_any, and_iff_right hjunction]
    refine Iff.trans ?_ isSome_mapM_flip?_iff
    cases hsole : (sharedOperand cs).isSome <;>
      simp [complementMember?, soleOperand, members, hsole]

/-- **A condition has a complement by shape unless one of its members is in the way.** -/
theorem isSome_complement?_iff {c : Condition} :
    c.complement?.isSome = true ↔ ∀ m ∈ c.members, ¬m.Obstructs := by
  rcases c with ⟨o, r, v⟩ | cs | cs
  · simp [complement?, members]
  · rw [complement?, Option.isSome_map, isSome_mapM_iff]
    exact forall₂_congr fun m _ ↦ isSome_complementMember?_iff
  · rw [complement?, Option.isSome_map, isSome_mapM_iff]
    exact forall₂_congr fun m _ ↦ isSome_complementMember?_iff

/-! ### Negations -/

/-- The conditions in the table have a complement by shape, too. -/
theorem isSome_or_complement? (c : Condition) :
    ((complements.lookup c).or c.complement?).isSome = c.complement?.isSome := by
  have hrows : ∀ row ∈ complements, row.1.complement?.isSome = true := by decide
  cases hrow : complements.lookup c with
  | none => simp
  | some d =>
    rw [hrows (c, d) (mem_of_lookup hrow)]
    rfl

/-- Negation fails exactly when no complement is found by shape, and then names the condition. -/
theorem negate_eq_error_iff {c : Condition} {f : Fault} :
    c.negate = .error f ↔ c.complement?.isSome = false ∧ f = .noNegation c.text := by
  rw [← isSome_or_complement?, negate]
  split
  next d hd => simp [hd]
  next hnone => simp [hnone, eq_comm]

/-- **The table of complements never helps**: what can be negated has a complement by shape. -/
theorem exists_negate_iff {c : Condition} :
    (∃ d, c.negate = .ok d) ↔ ∃ d, c.complement? = some d := by
  rw [← Option.isSome_iff_exists, ← isSome_or_complement?, Option.isSome_iff_exists]
  simp only [negate_eq_ok_iff]
  exact ⟨fun ⟨_, e, he, _⟩ ↦ ⟨e, he⟩, fun ⟨e, he⟩ ↦ ⟨_, e, he, rfl⟩⟩

/-- **Negation fails exactly where a member is in the way**, and the fault then has the text of the
whole condition. The table of complements is consulted first, but what has no complement by shape
has no negation either. -/
theorem negate_fails_iff_obstructed (c : Condition) :
    ((∃ f, c.negate = .error f) ↔ ∃ m ∈ c.members, m.Obstructs) ∧
    (∀ f, c.negate = .error f ↔ f = .noNegation c.text ∧ ∃ m ∈ c.members, m.Obstructs) ∧
    ((∃ d, c.negate = .ok d) ↔ ∃ d, c.complement? = some d) := by
  have hshape : c.complement?.isSome = false ↔ ∃ m ∈ c.members, m.Obstructs := by
    rw [← Bool.not_eq_true, isSome_complement?_iff]
    simp
  have herror : ∀ f, c.negate = .error f ↔
      f = .noNegation c.text ∧ ∃ m ∈ c.members, m.Obstructs := by
    intro f
    rw [negate_eq_error_iff, hshape, and_comm]
  refine ⟨?_, herror, exists_negate_iff⟩
  simp [herror]

-- two operands stand side by side, but not one level down
example :
    (any [compare .count .eq 1, compare (.remainder 10) .eq 1]).negate.isOk = true ∧
    (any [all [compare .count .eq 1, compare (.remainder 10) .eq 1]]).negate.isOk = false := by
  decide

end PluralForms.Condition
