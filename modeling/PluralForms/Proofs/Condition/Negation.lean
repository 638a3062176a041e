import PluralForms.Selector
import PluralForms.Proofs.Traversal

/-!
# Induction along negation

The complement of a condition by its shape is found on three levels: of a bare comparison, of a
member of a junction, of the whole condition. On all of them the same is done. A comparison gets the
other operator, and a junction becomes the other junction of what its members became. So what is to
be shown of a condition and its complement has to be shown for these two steps only, and
`complement?_induction` does the rest.

Negation adds two tables, which are consulted before and after: `negate_eq_ok_iff` says in which
order, and `negate_induction` is the induction for all of it.
-/

namespace PluralForms

namespace Condition

section Shape

variable {motive : Condition → Condition → Prop}
  (compare : ∀ o r v, motive (.compare o r v) (.compare o r.complement v))

include compare

/-- A relation between comparisons and their complements holds of what `flip?` returns. -/
theorem flip?_induction {c d : Condition} (h : c.flip? = some d) : motive c d := by
  rcases c with ⟨o, r, v⟩ | cs | cs
  · obtain rfl := Option.some.inj h
    exact compare o r v
  · simp [flip?] at h
  · simp [flip?] at h

variable (all : ∀ cs ds, List.Forall₂ motive cs ds → motive (.all cs) (disj ds))
  (any : ∀ cs ds, List.Forall₂ motive cs ds → motive (.any cs) (conj ds))

include all any

/-- What holds of comparisons and passes to junctions of them holds of a member and its complement.
-/
theorem complementMember?_induction {c d : Condition} (h : c.complementMember? = some d) :
    motive c d := by
  rcases c with ⟨o, r, v⟩ | cs | cs
  · obtain rfl := Option.some.inj h
    exact compare o r v
  · obtain ⟨-, ds, hds, rfl⟩ := by simpa [complementMember?] using h
    exact all cs ds ((mapM_eq_some_iff.1 hds).imp fun _ _ hcd ↦ flip?_induction compare hcd)
  · obtain ⟨-, ds, hds, rfl⟩ := by simpa [complementMember?] using h
    exact any cs ds ((mapM_eq_some_iff.1 hds).imp fun _ _ hcd ↦ flip?_induction compare hcd)

/-- **Induction along mechanical negation.** What holds of a comparison and the one with the other
operator, and passes from the members of a junction to the junction, holds of every condition and
its complement. -/
theorem complement?_induction {c d : Condition} (h : c.complement? = some d) : motive c d := by
  rcases c with ⟨o, r, v⟩ | cs | cs
  · obtain rfl := Option.some.inj h
    exact compare o r v
  · obtain ⟨ds, hds, rfl⟩ := by simpa [complement?] using h
    exact all cs ds ((mapM_eq_some_iff.1 hds).imp fun _ _ hcd ↦
      complementMember?_induction compare all any hcd)
  · obtain ⟨ds, hds, rfl⟩ := by simpa [complement?] using h
    exact any cs ds ((mapM_eq_some_iff.1 hds).imp fun _ _ hcd ↦
      complementMember?_induction compare all any hcd)

end Shape

/-! ### The tables -/

theorem mem_of_lookup {rows : List (Condition × Condition)} {c d : Condition}
    (h : rows.lookup c = some d) : (c, d) ∈ rows := by
  obtain ⟨before, after, rfl, -⟩ := List.lookup_eq_some_iff.1 h
  simp

/-- A condition is left alone by reduction, or it is in the table with what it is reduced to. -/
theorem reduce_eq_or_mem (c : Condition) : c.reduce = c ∨ (c, c.reduce) ∈ reductions := by
  rw [reduce]
  cases hrow : reductions.lookup c with
  | none => exact .inl rfl
  | some d => exact .inr (mem_of_lookup hrow)

/-- A condition that has a negation is in the table of complements or has one by its shape, and what
is found is reduced. -/
theorem negate_eq_ok_iff {c d : Condition} :
    c.negate = .ok d ↔ ∃ e, (complements.lookup c).or c.complement? = some e ∧ e.reduce = d := by
  rw [negate]
  split
  next e he => simp [he]
  next he => simp [he]

/-- **Induction along negation.** What holds of the rows of the table and of conditions with their
complements by shape, and survives reduction, holds of every condition and its negation. -/
theorem negate_induction {motive : Condition → Condition → Prop}
    (table : ∀ c d, (c, d) ∈ complements → motive c d)
    (shape : ∀ c d, c.complement? = some d → motive c d)
    (reduce : ∀ c d, motive c d → motive c d.reduce)
    {c d : Condition} (h : c.negate = .ok d) : motive c d := by
  obtain ⟨e, he, rfl⟩ := negate_eq_ok_iff.1 h
  refine reduce c e ?_
  rcases Option.or_eq_some_iff.1 he with hrow | ⟨-, hshape⟩
  · exact table c e (mem_of_lookup hrow)
  · exact shape c e hshape

end Condition

/-- The formula for two categories is the negation of the one condition. -/
theorem Selector.assemble_singleton_eq_ok_iff {c : Condition} {s : Selector} :
    Selector.assemble [c] = .ok s ↔ ∃ d, c.negate = .ok d ∧ s = .binary d := by
  rw [assemble, map_eq_ok_iff]
  simp only [eq_comm]

end PluralForms
