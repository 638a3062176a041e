import PluralForms.Proofs.SampleList.Coverage

/-!
# How many samples lie inside a range

The samples of a range are its two ends and what lies strictly inside it (`SampleItem.interior`).
Those inside are the numbers a whole number of steps behind the first, up to the one in front of the
last (`SampleItem.interior_sampleRange`), and so a division counts them.

The distance of two samples is the width of the range over `stepsPerRange`, **rounded down**. What
the rounding takes off each step is made up for by further steps, so `stepsPerRange` does not bound
the number of samples inside. It does in ranges shorter than that and in those whose width leaves a
remainder that fits into one step (`SampleItem.length_interior_le_stepsPerRange_iff`). All widths
from 9900 on are of the second kind. Below that there can be almost twice as many samples, as
between 0 and 199 (`SampleList.interior_exceeds_stepsPerRange`), and never more than there.
-/

namespace PluralForms

namespace SampleItem

/-- Those of the numbers that lie strictly between the ends of the range. -/
def interior (first last : Nat) (numbers : List Nat) : List Nat :=
  numbers.filter fun n ↦ first < n ∧ n < last

theorem succ_mul_stepOf_pos (first last i : Nat) : 0 < (i + 1) * stepOf first last :=
  Nat.mul_pos (Nat.succ_pos i) (stepOf_pos first last)

/-- The number of steps behind the first number that end in front of the last. -/
theorem lt_div_stepOf_iff {first last i : Nat} :
    i < (last - first - 1) / stepOf first last ↔ first + (i + 1) * stepOf first last < last := by
  have hpos := succ_mul_stepOf_pos first last i
  rw [← Nat.add_one_le_iff, Nat.le_div_iff_mul_le (stepOf_pos first last)]
  omega

/-- **The samples inside a range.** -/
theorem interior_sampleRange (first last : Nat) :
    interior first last (sampleRange first last) =
      (List.range ((last - first - 1) / stepOf first last)).map fun i ↦
        first + (i + 1) * stepOf first last := by
  obtain ⟨count, hcount, heq⟩ := exists_sampleRange_eq first last
  have hsteps : (last - first - 1) / stepOf first last = count - 1 := by
    refine eq_of_forall_lt_iff fun i ↦ ?_
    rw [lt_div_stepOf_iff, ← hcount]
    omega
  have hlast : ([last].filter fun n ↦ first < n ∧ n < last) = [] := by simp
  rw [hsteps, heq, interior, List.filter_append, hlast, List.append_nil]
  cases count with
  | zero => rfl
  | succ count =>
    -- the first sample is the first number of the range, and all others lie inside
    have hinside : ∀ i < count, first < first + (i + 1) * stepOf first last ∧
        first + (i + 1) * stepOf first last < last :=
      fun i hi ↦ ⟨Nat.lt_add_of_pos_right (succ_mul_stepOf_pos first last i),
        (hcount (i + 1)).1 (Nat.succ_lt_succ hi)⟩
    rw [List.range_succ_eq_map, List.map_cons, List.filter_cons_of_neg (by simp), List.map_map,
      List.filter_eq_self.2 (by simpa using hinside)]
    rfl

/-- How many samples there are strictly between the ends. -/
theorem length_interior_sampleRange (first last : Nat) :
    (interior first last (sampleRange first last)).length =
      (last - first - 1) / stepOf first last := by
  rw [interior_sampleRange, List.length_map, List.length_range]

/-- There are at most `k` samples inside a range that `k + 1` steps span. -/
theorem length_interior_le_iff {first last k : Nat} :
    (interior first last (sampleRange first last)).length ≤ k ↔
      last - first ≤ (k + 1) * stepOf first last := by
  have hpos := succ_mul_stepOf_pos first last k
  rw [length_interior_sampleRange, ← Nat.lt_add_one_iff,
    Nat.div_lt_iff_lt_mul (stepOf_pos first last)]
  omega

/-- **When `stepsPerRange` bounds the samples inside a range.** -/
theorem length_interior_le_stepsPerRange_iff (first last : Nat) :
    (interior first last (sampleRange first last)).length ≤ stepsPerRange ↔
      last - first < stepsPerRange ∨
        (last - first) % stepsPerRange ≤ (last - first) / stepsPerRange := by
  rw [length_interior_le_iff, stepOf, stepsPerRange]
  omega

/-- No range has more samples inside than one of width 199. -/
theorem length_interior_le (first last : Nat) :
    (interior first last (sampleRange first last)).length ≤ 198 := by
  rw [length_interior_le_iff, stepOf, stepsPerRange]
  omega

end SampleItem

namespace SampleList

open SampleItem

/-- **How many samples are inside a range**, however its ends are written. The width decides whether
these are at most `stepsPerRange`, as they always are in ranges that are wide enough; and there are
never more than 198. -/
theorem interior_le_stepsPerRange_iff (a b : UInt64) {token : List Char}
    (h : (SampleItem.range a.toNat b.toNat).Spells token) :
    ∃ numbers, read (.ofList token) = .ok ⟨numbers, []⟩ ∧
      (interior a.toNat b.toNat numbers).length =
        (b.toNat - a.toNat - 1) / max 1 ((b.toNat - a.toNat) / stepsPerRange) ∧
      ((interior a.toNat b.toNat numbers).length ≤ stepsPerRange ↔
        b.toNat - a.toNat < stepsPerRange ∨
          (b.toNat - a.toNat) % stepsPerRange ≤ (b.toNat - a.toNat) / stepsPerRange) ∧
      (9900 ≤ b.toNat - a.toNat → (interior a.toNat b.toNat numbers).length ≤ stepsPerRange) ∧
      (interior a.toNat b.toNat numbers).length ≤ 198 := by
  have hiff := length_interior_le_stepsPerRange_iff a.toNat b.toNat
  refine ⟨sampleRange a.toNat b.toNat, ?_, length_interior_sampleRange _ _, hiff, fun hwide ↦ ?_,
    length_interior_le _ _⟩
  · rw [read_ofList (Listed.single h).isCommaList]
    simp [ofItems, SampleItem.numbers, SampleItem.compact?]
  · refine hiff.2 (.inr ?_)
    rw [stepsPerRange]
    omega

/-- The least width at which there are more, with zeros and a blank in the token. -/
theorem interior_le_stepsPerRange_iff_narrow :
    (SampleItem.range 3 105).Spells "003 ~105".toList ∧
      ∃ numbers, read "003 ~105" = .ok ⟨numbers, []⟩ ∧ (interior 3 105 numbers).length = 101 := by
  have hfirst : Text.IsNumeral 3 ['0', '0', '3'] := ⟨by decide, 2, by decide⟩
  have hlast : Text.IsNumeral 105 ['1', '0', '5'] := ⟨by decide, 0, by decide⟩
  have hgap : Text.Blank [' '] := List.forall_mem_singleton.2 (by decide)
  have hspells : (SampleItem.range 3 105).Spells "003 ~105".toList :=
    .range hfirst hlast hgap Text.blank_nil (by decide)
  obtain ⟨numbers, hread, hlength, -⟩ := interior_le_stepsPerRange_iff 3 105 hspells
  exact ⟨hspells, numbers, hread, hlength⟩

/-- Between 0 and 199 all numbers are samples. -/
theorem interior_exceeds_stepsPerRange :
    read "0~199" = .ok ⟨List.range 200, []⟩ ∧
      stepsPerRange < (interior 0 199 (List.range 200)).length := by
  decide +kernel

end SampleList

end PluralForms
