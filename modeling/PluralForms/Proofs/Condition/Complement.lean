import PluralForms.Proofs.Condition.Checked

/-!
# Negation is complement

A negated condition, wherever there is one, holds exactly where the condition does not:
`holds_of_negate`. The two rows of the table are checked as they stand. A complement by shape is
right by induction along negation: a comparison is complemented by its operator, and a junction by
De Morgan's laws once its members are.

The side condition on operands plays no part: it decides *whether* there is a negation, never what
the negation says. Nor does it matter how a condition is nested, or whether its junctions have
members. All that is asked of it in `negate_exact` is that it has a value at every count.
-/

namespace PluralForms.Condition

/-! ### De Morgan's laws -/

section DeMorgan

variable {n : Nat} {cs ds : List Condition}

/-- Some complement holds unless every condition does. -/
theorem any_holds_of_complements (h : List.Forall₂ (fun c d ↦ d.holds n = !c.holds n) cs ds) :
    ds.any (holds · n) = !cs.all (holds · n) := by
  induction h with
  | nil => rfl
  | cons hcd _ ih => rw [List.any_cons, List.all_cons, hcd, ih, Bool.not_and]

/-- Every complement holds unless some condition does. -/
theorem all_holds_of_complements (h : List.Forall₂ (fun c d ↦ d.holds n = !c.holds n) cs ds) :
    ds.all (holds · n) = !cs.any (holds · n) := by
  induction h with
  | nil => rfl
  | cons hcd _ ih => rw [List.all_cons, List.any_cons, hcd, ih, Bool.not_or]

end DeMorgan

/-! ### The layers of negation -/

/-- The table of complements is right: the two sides of a row never agree. -/
theorem holds_of_mem_complements {c d : Condition} (h : (c, d) ∈ complements) (n : Nat) :
    d.holds n = !c.holds n := by
  simp only [complements, countIs, lastDigitIs, List.mem_cons, Prod.mk.injEq, List.not_mem_nil,
    or_false] at h
  rcases h with ⟨rfl, rfl⟩ | ⟨rfl, rfl⟩ <;>
    simp only [holds_all, holds_any, holds_compare, Operand.value, List.all_cons, List.all_nil,
      List.any_cons, List.any_nil]
  · simp [Comparator.holds, bne]
  · rw [Bool.eq_iff_iff]
    simp [Comparator.holds]
    omega

/-- A complement by shape holds exactly where the condition does not. -/
theorem holds_of_complement? {c d : Condition} (h : c.complement? = some d) (n : Nat) :
    d.holds n = !c.holds n := by
  refine complement?_induction (motive := fun c d ↦ d.holds n = !c.holds n) (fun o r v ↦ ?_)
    (fun cs ds hmatch ↦ ?_) (fun cs ds hmatch ↦ ?_) h
  · rw [holds_compare, holds_compare, Comparator.holds_complement]
  · rw [holds_disj, holds_all, any_holds_of_complements hmatch]
  · rw [holds_conj, holds_any, all_holds_of_complements hmatch]

/-- **The negation of a condition holds exactly where the condition does not.** -/
theorem holds_of_negate {c d : Condition} (h : c.negate = .ok d) (n : Nat) :
    d.holds n = !c.holds n := by
  refine negate_induction (motive := fun c d ↦ d.holds n = !c.holds n) (fun c d hrow ↦ ?_)
    (fun c d hshape ↦ ?_) (fun c d hd ↦ ?_) h
  · exact holds_of_mem_complements hrow n
  · exact holds_of_complement? hshape n
  · rw [holds_reduce, hd]

/-! ### The formula for two categories -/

/-- **Negation is exact.** Where a condition without remainders modulo zero has a negation, the two
have a value at every count, and never the same. So the formula made of a single condition answers
`0` at the counts where the condition holds, and at no others. -/
theorem negate_exact {c : Condition} (h : c.IsDefined) :
    (∀ d, c.negate = .ok d → ∀ n, d.holds n = !c.holds n ∧
      c.holds? n = some (c.holds n) ∧ d.holds? n = some (d.holds n)) ∧
    ∀ s, Selector.assemble [c] = .ok s → ∀ n,
      (s.eval n = 0 ↔ c.holds n = true) ∧ s.eval? n = some (s.eval n) := by
  constructor
  · intro d hd n
    exact ⟨holds_of_negate hd n, h.holds?_eq n, (h.of_negate hd).holds?_eq n⟩
  · intro s hs n
    obtain ⟨d, hd, rfl⟩ := Selector.assemble_singleton_eq_ok_iff.1 hs
    have hdefined : ∀ e ∈ (Selector.binary d).conditions, e.IsDefined := by
      simpa [Selector.conditions] using h.of_negate hd
    refine ⟨?_, Selector.eval?_eq_of_isDefined hdefined n⟩
    show (d.holds n).toNat = 0 ↔ c.holds n = true
    rw [holds_of_negate hd n]
    cases c.holds n <;> simp

/-- A disjunction in a disjunction, beside a conjunction of a single member. -/
def unflattened : Condition :=
  .any [.any [.compare (.remainder 10) .eq 1, .compare (.remainder 10) .eq 2],
    .all [.compare .count .ge 11]]

/-- The negation is one flat conjunction. It differs from the condition at the first count that the
last member claims and at the last count before it. -/
theorem negate_exact_unflattened :
    unflattened.IsDefined ∧
    unflattened.negate = .ok (.all [.compare (.remainder 10) .ne 1, .compare (.remainder 10) .ne 2,
      .compare .count .lt 11]) ∧
    unflattened.holds? 11 = some true ∧ unflattened.holds? 10 = some false ∧
    ∃ s, Selector.assemble [unflattened] = .ok s ∧ s.eval? 11 = some 0 ∧ s.eval 10 ≠ 0 := by
  have hdefined : unflattened.IsDefined := by decide
  have hnegate : unflattened.negate = .ok (.all [.compare (.remainder 10) .ne 1,
      .compare (.remainder 10) .ne 2, .compare .count .lt 11]) := by decide
  obtain ⟨hvalues, hselector⟩ := negate_exact hdefined
  have hassemble := Selector.assemble_singleton_eq_ok_iff.2 ⟨_, hnegate, rfl⟩
  have heleven : unflattened.holds 11 = true := by decide
  have hten : unflattened.holds 10 = false := by decide
  refine ⟨hdefined, hnegate, ?_, ?_, _, hassemble, ?_, ?_⟩
  · rw [(hvalues _ hnegate 11).2.1, heleven]
  · rw [(hvalues _ hnegate 10).2.1, hten]
  · rw [(hselector _ hassemble 11).2, (hselector _ hassemble 11).1.2 heleven]
  · simp [(hselector _ hassemble 10).1, hten]

end PluralForms.Condition
