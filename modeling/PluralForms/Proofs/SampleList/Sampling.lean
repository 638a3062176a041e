import PluralForms.SampleList
import Mathlib.Data.List.Chain
import Mathlib.Data.List.Range

/-!
# Which numbers of a range are sampled

The samples of a range are its last number and those numbers before it that are a whole number of
steps away from its first: `mem_sampleRange_iff`. The ends are always among them, and a range that
is shorter than two hundred has steps of one, so that all of it is.

The samples ascend, no two neighbours are further apart than a step (`isChain_sampleRange`), and
there are never more than two hundred (`length_sampleRange_le`): the steps of a longer range are
rounded down, which makes their number greater than a hundred, but not twice as great.
-/

namespace PluralForms.SampleItem

variable {first last n : Nat}

theorem stepOf_pos (first last : Nat) : 0 < stepOf first last :=
  Nat.le_max_left _ _

/-- The number of steps that start in front of the last number. -/
theorem lt_steps_iff {i width step : Nat} (hstep : 0 < step) :
    i < (width + step - 1) / step ↔ i * step < width := by
  rw [← Nat.succ_le_iff, Nat.le_div_iff_mul_le hstep, Nat.succ_mul]
  omega

/-- The samples in front of the last number are as many as there are steps that start there. -/
theorem exists_sampleRange_eq (first last : Nat) :
    ∃ count, (∀ i, i < count ↔ first + i * stepOf first last < last) ∧
      sampleRange first last =
        (List.range count).map (first + · * stepOf first last) ++ [last] := by
  refine ⟨_, fun i ↦ ?_, rfl⟩
  rw [lt_steps_iff (stepOf_pos first last)]
  omega

/-- **The samples of a range.** -/
theorem mem_sampleRange_iff :
    n ∈ sampleRange first last ↔ n = last ∨ n < last ∧ ∃ i, n = first + i * stepOf first last := by
  obtain ⟨count, hcount, heq⟩ := exists_sampleRange_eq first last
  simp only [heq, List.mem_append, List.mem_map, List.mem_range, List.mem_singleton, hcount]
  rw [or_comm]
  refine or_congr_right ⟨?_, ?_⟩
  · rintro ⟨i, hi, rfl⟩
    exact ⟨hi, i, rfl⟩
  · rintro ⟨hlt, i, rfl⟩
    exact ⟨i, hlt, rfl⟩

theorem last_mem_sampleRange (first last : Nat) : last ∈ sampleRange first last :=
  mem_sampleRange_iff.2 (.inl rfl)

theorem first_mem_sampleRange (h : first ≤ last) : first ∈ sampleRange first last := by
  rcases Nat.eq_or_lt_of_le h with rfl | hlt
  · exact last_mem_sampleRange first first
  · exact mem_sampleRange_iff.2 (.inr ⟨hlt, 0, by omega⟩)

/-- The steps of a short range are steps of one. -/
theorem stepOf_of_lt (h : last - first < 2 * stepsPerRange) : stepOf first last = 1 := by
  rw [stepOf]
  refine Nat.max_eq_left (Nat.le_of_lt_succ ?_)
  exact Nat.div_lt_of_lt_mul (by rwa [Nat.mul_comm])

/-- **All of a short range is sampled.** -/
theorem mem_sampleRange_of_lt (h : last - first < 2 * stepsPerRange) (hfirst : first ≤ n)
    (hlast : n ≤ last) : n ∈ sampleRange first last := by
  rw [mem_sampleRange_iff, stepOf_of_lt h]
  rcases Nat.eq_or_lt_of_le hlast with rfl | hlt
  · exact .inl rfl
  · exact .inr ⟨hlt, n - first, by omega⟩

/-! ### Order and distance -/

/-- **Samples increase strictly**, so none is taken twice. -/
theorem pairwise_sampleRange (first last : Nat) : (sampleRange first last).Pairwise (· < ·) := by
  obtain ⟨count, hcount, heq⟩ := exists_sampleRange_eq first last
  rw [heq, List.pairwise_append, List.pairwise_map]
  refine ⟨List.pairwise_lt_range.imp fun hlt ↦ ?_, List.pairwise_singleton _ _, ?_⟩
  · exact Nat.add_lt_add_left (Nat.mul_lt_mul_of_pos_right hlt (stepOf_pos first last)) _
  · simp only [List.mem_map, List.mem_range, List.mem_singleton]
    rintro _ ⟨i, hi, rfl⟩ _ rfl
    exact (hcount i).1 hi

theorem head?_sampleRange (h : first ≤ last) : (sampleRange first last).head? = some first := by
  obtain ⟨count, hcount, heq⟩ := exists_sampleRange_eq first last
  rw [heq]
  cases count with
  | zero =>
    -- no step starts in front of the last number, so it is the first
    have hend : ¬first + 0 * stepOf first last < last := mt (hcount 0).2 (Nat.lt_irrefl 0)
    obtain rfl : first = last := by omega
    rfl
  | succ count => simp [List.range_succ_eq_map]

theorem getLast?_sampleRange (first last : Nat) :
    (sampleRange first last).getLast? = some last := by
  rw [sampleRange, List.getLast?_concat]

/-- **No sample is outside of its range.** -/
theorem le_and_le_of_mem_sampleRange (h : first ≤ last) (hn : n ∈ sampleRange first last) :
    first ≤ n ∧ n ≤ last := by
  rcases mem_sampleRange_iff.1 hn with rfl | ⟨hlt, i, rfl⟩
  · exact ⟨h, Nat.le_refl n⟩
  · exact ⟨Nat.le_add_right _ _, Nat.le_of_lt hlt⟩

/-- **Neighbouring samples are at most a step apart.** -/
theorem isChain_sampleRange (first last : Nat) :
    (sampleRange first last).IsChain fun x y ↦ y - x ≤ stepOf first last := by
  obtain ⟨count, hcount, heq⟩ := exists_sampleRange_eq first last
  rw [heq, List.isChain_append, List.isChain_map, List.isChain_range]
  refine ⟨fun i _ ↦ ?_, List.isChain_singleton _, ?_⟩
  · rw [Nat.succ_mul]
    omega
  · -- one more step from the last of them would reach the end
    have hend := mt (hcount count).2 (Nat.lt_irrefl count)
    cases count with
    | zero => simp
    | succ count =>
      rw [Nat.succ_mul] at hend
      simp only [List.getLast?_map, List.getLast?_range, Nat.add_one_ne_zero, if_false,
        Nat.add_one_sub_one, Option.map_some, Option.mem_some_iff, List.head?_cons]
      rintro _ rfl _ rfl
      omega

/-- **A range has at most two hundred samples.** -/
theorem length_sampleRange_le (first last : Nat) : (sampleRange first last).length ≤ 200 := by
  obtain ⟨count, hcount, heq⟩ := exists_sampleRange_eq first last
  have hreach : last - first ≤ 199 * stepOf first last := by
    rw [stepOf, stepsPerRange]
    omega
  have hcount : ¬199 < count := fun h ↦ absurd ((hcount 199).1 h) (by omega)
  rw [heq, List.length_append, List.length_map, List.length_range, List.length_singleton]
  omega

end PluralForms.SampleItem
