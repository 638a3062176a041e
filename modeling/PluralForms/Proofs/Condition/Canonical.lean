import PluralForms.Proofs.Condition.Negation

/-!
# Well-formed and canonical conditions

A condition is *occupied* when each junction in it has a member, and *flat* when each has at least
two and none of its own kind, so that nothing in it could be spliced or unwrapped. Both notions ask
something of the operands as well, which is left open: `Occupied P`, `Flat P`.

If it is asked that no remainder is modulo zero, an occupied condition is *well-formed*, and it can
be written as an expression that has a value at every count; a flat one is *canonical*. Everything
that makes conditions makes canonical ones out of canonical ones: the two ways to join conditions
(`flat_conj`, `flat_disj`), reduction (`canonical_reduce`) and negation (`canonical_of_negate`).
-/

namespace PluralForms

/-- A remainder is not modulo zero. -/
def Operand.IsDefined : Operand → Prop
  | .count => True
  | .remainder m => 0 < m

instance (o : Operand) : Decidable o.IsDefined :=
  match o with
  | .count => inferInstanceAs (Decidable True)
  | .remainder m => inferInstanceAs (Decidable (0 < m))

namespace Condition

/-- **Induction on conditions**, with the statement at hand for every member of a junction. -/
@[elab_as_elim]
theorem induction {motive : Condition → Prop} (compare : ∀ o r v, motive (.compare o r v))
    (all : ∀ cs, (∀ c ∈ cs, motive c) → motive (.all cs))
    (any : ∀ cs, (∀ c ∈ cs, motive c) → motive (.any cs)) : ∀ c, motive c
  | .compare o r v => compare o r v
  | .all cs => all cs fun c _ ↦ induction compare all any c
  | .any cs => any cs fun c _ ↦ induction compare all any c

/-- The condition is a conjunction. -/
def isConjunction : Condition → Bool
  | .all _ => true
  | _ => false

/-- The condition is a disjunction. -/
def isDisjunction : Condition → Bool
  | .any _ => true
  | _ => false

theorem conjuncts_of_isConjunction_eq_false {c : Condition} (h : c.isConjunction = false) :
    c.conjuncts = [c] := by
  cases c with
  | all cs => cases h
  | _ => rfl

theorem disjuncts_of_isDisjunction_eq_false {c : Condition} (h : c.isDisjunction = false) :
    c.disjuncts = [c] := by
  cases c with
  | any cs => cases h
  | _ => rfl

/-! ### Occupied and flat conditions -/

/-- Each junction has a member, and every operand satisfies `P`. -/
inductive Occupied (P : Operand → Prop) : Condition → Prop
  | compare {o : Operand} {r : Comparator} {v : Nat} (h : P o) : Occupied P (.compare o r v)
  | all {cs : List Condition} (hne : cs ≠ []) (h : ∀ c ∈ cs, Occupied P c) : Occupied P (.all cs)
  | any {cs : List Condition} (hne : cs ≠ []) (h : ∀ c ∈ cs, Occupied P c) : Occupied P (.any cs)

/-- Each junction has at least two members and none of its own kind, and every operand satisfies
`P`. -/
inductive Flat (P : Operand → Prop) : Condition → Prop
  | compare {o : Operand} {r : Comparator} {v : Nat} (h : P o) : Flat P (.compare o r v)
  | all {cs : List Condition} (hlen : 2 ≤ cs.length) (hflat : ∀ c ∈ cs, c.isConjunction = false)
      (h : ∀ c ∈ cs, Flat P c) : Flat P (.all cs)
  | any {cs : List Condition} (hlen : 2 ≤ cs.length) (hflat : ∀ c ∈ cs, c.isDisjunction = false)
      (h : ∀ c ∈ cs, Flat P c) : Flat P (.any cs)

/-- Each junction has a member, and no remainder is modulo zero. -/
def WellFormed (c : Condition) : Prop :=
  c.Occupied Operand.IsDefined

/-- Each junction has at least two members and none of its own kind, and no remainder is modulo
zero. -/
def Canonical (c : Condition) : Prop :=
  c.Flat Operand.IsDefined

section Flat

variable {P : Operand → Prop} {p c : Condition} {parts cs : List Condition}

@[simp] theorem occupied_compare {o : Operand} {r : Comparator} {v : Nat} :
    (compare o r v).Occupied P ↔ P o :=
  ⟨fun h ↦ by cases h; assumption, .compare⟩

@[simp] theorem occupied_all : (all cs).Occupied P ↔ cs ≠ [] ∧ ∀ c ∈ cs, c.Occupied P :=
  ⟨fun h ↦ by cases h; constructor <;> assumption, fun ⟨hne, h⟩ ↦ .all hne h⟩

@[simp] theorem occupied_any : (any cs).Occupied P ↔ cs ≠ [] ∧ ∀ c ∈ cs, c.Occupied P :=
  ⟨fun h ↦ by cases h; constructor <;> assumption, fun ⟨hne, h⟩ ↦ .any hne h⟩

/-- **Flat conditions are occupied**, since two members are more than none. -/
theorem Flat.occupied (h : c.Flat P) : c.Occupied P := by
  induction h with
  | compare h => exact .compare h
  | all hlen _ _ ih => exact .all (List.ne_nil_of_length_pos (by omega)) ih
  | any hlen _ _ ih => exact .any (List.ne_nil_of_length_pos (by omega)) ih

/-- Canonical conditions are well-formed. -/
theorem Canonical.wellFormed (h : c.Canonical) : c.WellFormed :=
  Flat.occupied h

/-- A flat condition contributes to any conjunction. -/
theorem Flat.conjuncts_ne_nil (h : p.Flat P) : p.conjuncts ≠ [] := by
  cases h with
  | all hlen => exact List.ne_nil_of_length_pos (by rw [conjuncts]; omega)
  | _ => simp [conjuncts]

/-- A flat condition contributes to any disjunction. -/
theorem Flat.disjuncts_ne_nil (h : p.Flat P) : p.disjuncts ≠ [] := by
  cases h with
  | any hlen => exact List.ne_nil_of_length_pos (by rw [disjuncts]; omega)
  | _ => simp [disjuncts]

/-- What a flat condition contributes to a conjunction is flat and no conjunction. -/
theorem Flat.of_mem_conjuncts (h : p.Flat P) (hc : c ∈ p.conjuncts) :
    c.Flat P ∧ c.isConjunction = false := by
  cases h with
  | compare h =>
    obtain rfl := List.mem_singleton.1 hc
    exact ⟨.compare h, rfl⟩
  | all hlen hflat h => exact ⟨h c hc, hflat c hc⟩
  | any hlen hflat h =>
    obtain rfl := List.mem_singleton.1 hc
    exact ⟨.any hlen hflat h, rfl⟩

/-- What a flat condition contributes to a disjunction is flat and no disjunction. -/
theorem Flat.of_mem_disjuncts (h : p.Flat P) (hc : c ∈ p.disjuncts) :
    c.Flat P ∧ c.isDisjunction = false := by
  cases h with
  | compare h =>
    obtain rfl := List.mem_singleton.1 hc
    exact ⟨.compare h, rfl⟩
  | all hlen hflat h =>
    obtain rfl := List.mem_singleton.1 hc
    exact ⟨.all hlen hflat h, rfl⟩
  | any hlen hflat h => exact ⟨h c hc, hflat c hc⟩

/-- A list that is neither empty nor a singleton has two members. -/
theorem two_le_length {cs : List Condition} (hne : cs ≠ []) (hmany : ∀ c, cs ≠ [c]) :
    2 ≤ cs.length := by
  match cs, hne, hmany with
  | [c], _, hmany => exact absurd rfl (hmany c)
  | _ :: _ :: _, _, _ => simp

/-- **All of some flat conditions is flat.** -/
theorem flat_conj (hne : parts ≠ []) (h : ∀ p ∈ parts, p.Flat P) : (conj parts).Flat P := by
  have hmem : ∀ c ∈ parts.flatMap conjuncts, c.Flat P ∧ c.isConjunction = false := by
    intro c hc
    obtain ⟨p, hp, hc⟩ := List.mem_flatMap.1 hc
    exact (h p hp).of_mem_conjuncts hc
  have hflat : parts.flatMap conjuncts ≠ [] := by
    obtain ⟨p, hp⟩ := List.exists_mem_of_ne_nil parts hne
    exact fun hnil ↦ (h p hp).conjuncts_ne_nil (List.flatMap_eq_nil_iff.1 hnil p hp)
  rw [conj]
  split
  next c hc => exact (hmem c (by simp [hc])).1
  next hmany =>
    exact .all (two_le_length hflat hmany) (fun c hc ↦ (hmem c hc).2) fun c hc ↦ (hmem c hc).1

/-- **Any of some flat conditions is flat.** -/
theorem flat_disj (hne : parts ≠ []) (h : ∀ p ∈ parts, p.Flat P) : (disj parts).Flat P := by
  have hmem : ∀ c ∈ parts.flatMap disjuncts, c.Flat P ∧ c.isDisjunction = false := by
    intro c hc
    obtain ⟨p, hp, hc⟩ := List.mem_flatMap.1 hc
    exact (h p hp).of_mem_disjuncts hc
  have hflat : parts.flatMap disjuncts ≠ [] := by
    obtain ⟨p, hp⟩ := List.exists_mem_of_ne_nil parts hne
    exact fun hnil ↦ (h p hp).disjuncts_ne_nil (List.flatMap_eq_nil_iff.1 hnil p hp)
  rw [disj]
  split
  next c hc => exact (hmem c (by simp [hc])).1
  next hmany =>
    exact .any (two_le_length hflat hmany) (fun c hc ↦ (hmem c hc).2) fun c hc ↦ (hmem c hc).1

end Flat

theorem flat_countIs (r : Comparator) (v : Nat) : (countIs r v).Flat Operand.IsDefined :=
  .compare trivial

/-! ### Reduction -/

/-- **Reduction keeps conditions canonical.** -/
theorem canonical_reduce {c : Condition} (h : c.Canonical) : c.reduce.Canonical := by
  have hrows : ∀ row ∈ reductions, row.2.Canonical := by
    simp only [reductions, List.forall_mem_cons, List.not_mem_nil, false_imp_iff, implies_true,
      and_true]
    refine ⟨.any (by simp) (by simp [countIs, isDisjunction]) (by simp [flat_countIs]),
      flat_countIs _ _, flat_countIs _ _⟩
  rcases reduce_eq_or_mem c with hsame | hrow
  · rwa [hsame]
  · exact hrows (c, c.reduce) hrow

/-! ### Negation -/

/-- Conditions whose members are matched with canonical ones leave a non-empty list of such. -/
theorem canonical_of_forall₂ {cs ds : List Condition} (hlen : 2 ≤ cs.length)
    (h : ∀ c ∈ cs, c.Canonical)
    (hmatch : List.Forall₂ (fun c d ↦ c.Canonical → d.Canonical) cs ds) :
    ds ≠ [] ∧ ∀ d ∈ ds, d.Canonical := by
  constructor
  · rintro rfl
    have hlength := hmatch.length_eq
    rw [List.length_nil] at hlength
    omega
  · intro d hd
    obtain ⟨c, hc, hcd⟩ := exists_of_forall₂_of_mem hmatch.flip hd
    exact hcd (h c hc)

/-- A complement that is found by shape is canonical. -/
theorem canonical_of_complement? {c d : Condition} (h : c.Canonical)
    (hd : c.complement? = some d) : d.Canonical := by
  refine complement?_induction (motive := fun c d ↦ c.Canonical → d.Canonical) (fun o r v h ↦ ?_)
    (fun cs ds hmatch h ↦ ?_) (fun cs ds hmatch h ↦ ?_) hd h
  · cases h with
    | compare h => exact .compare h
  · cases h with
    | all hlen _ h =>
      obtain ⟨hne, hcan⟩ := canonical_of_forall₂ hlen h hmatch
      exact flat_disj hne hcan
  · cases h with
    | any hlen _ h =>
      obtain ⟨hne, hcan⟩ := canonical_of_forall₂ hlen h hmatch
      exact flat_conj hne hcan

/-- The complements written by hand are canonical. -/
theorem canonical_of_mem_complements {c d : Condition} (h : (c, d) ∈ complements) :
    d.Canonical := by
  have hdigit : ∀ r v, (lastDigitIs r v).Flat Operand.IsDefined :=
    fun r v ↦ .compare (Nat.succ_pos 9)
  simp only [complements, List.mem_cons, Prod.mk.injEq, List.not_mem_nil, or_false] at h
  rcases h with ⟨-, rfl⟩ | ⟨-, rfl⟩
  · have hany : (Condition.any
        [lastDigitIs .eq 4, lastDigitIs .eq 6, lastDigitIs .eq 9]).Flat Operand.IsDefined :=
      .any (by simp) (by simp [lastDigitIs, isDisjunction]) (by simp [hdigit])
    exact .all (by simp) (by simp [countIs, isConjunction]) (by simp [flat_countIs, hany])
  · have hany : (Condition.any [countIs .lt 11, countIs .gt 99]).Flat Operand.IsDefined :=
      .any (by simp) (by simp [countIs, isDisjunction]) (by simp [flat_countIs])
    exact .all (by simp) (by simp [countIs, isConjunction]) (by simp [flat_countIs, hany])

/-- **Negation keeps conditions canonical.** -/
theorem canonical_of_negate {c d : Condition} (h : c.Canonical) (hd : c.negate = .ok d) :
    d.Canonical :=
  negate_induction (motive := fun c d ↦ c.Canonical → d.Canonical)
    (fun _ _ hrow _ ↦ canonical_of_mem_complements hrow)
    (fun _ _ hshape h ↦ canonical_of_complement? h hshape)
    (fun _ _ hd h ↦ canonical_reduce (hd h)) hd h

end Condition

end PluralForms
