import PluralForms.Condition.Basic

/-!
# Reduction

Three conditions that plural rules bring about have a shorter equal. They are listed in a table, and
`reduce` replaces a condition that is in it; anything else, however similar, is left alone.
-/

namespace PluralForms.Condition

/-- A comparison of the count itself. -/
def countIs (r : Comparator) (v : Nat) : Condition :=
  .compare .count r v

/-- A comparison of the last decimal digit of the count. -/
def lastDigitIs (r : Comparator) (v : Nat) : Condition :=
  .compare (.remainder 10) r v

/-- The conditions that have a shorter equal, each with it. -/
def reductions : List (Condition × Condition) :=
  [(.all [countIs .ge 0, countIs .le 2, countIs .ne 2], .any [countIs .eq 0, countIs .eq 1]),
   (.all [countIs .ne 0, countIs .ne 1], countIs .gt 1),
   (.all [.any [countIs .eq 0, countIs .eq 1], countIs .ne 0], countIs .eq 1)]

/-- The shorter equal of a condition in the table, and any other condition itself. -/
def reduce (c : Condition) : Condition :=
  (reductions.lookup c).getD c

/-- The table keeps the meaning: both sides of a row hold at the same counts. -/
theorem holds_of_mem_reductions {c d : Condition} (h : (c, d) ∈ reductions) (n : Nat) :
    c.holds n = d.holds n := by
  simp only [reductions, countIs, List.mem_cons, Prod.mk.injEq, List.not_mem_nil, or_false] at h
  rcases h with ⟨rfl, rfl⟩ | ⟨rfl, rfl⟩ | ⟨rfl, rfl⟩ <;>
    simp only [holds_all, holds_any, holds_compare, Comparator.holds, Operand.value, List.all_cons,
      List.all_nil, List.any_cons, List.any_nil] <;>
    grind

/-- **Reduction changes the truth of no condition at any count.** -/
@[simp] theorem holds_reduce (c : Condition) (n : Nat) : c.reduce.holds n = c.holds n := by
  rw [reduce]
  cases h : reductions.lookup c with
  | none => rfl
  | some d =>
    obtain ⟨before, after, hrow, _⟩ := List.lookup_eq_some_iff.1 h
    exact (holds_of_mem_reductions (by simp [hrow]) n).symm

end PluralForms.Condition
