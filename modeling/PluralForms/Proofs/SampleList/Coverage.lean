import PluralForms.Proofs.SampleList.Grammar

/-!
# How its samples cover a range

A range in a sample list stands for all its numbers, and it is checked at some of them. These reach
from its first number to its last without a gap wider than a step, they are all of a short range,
and there are at most two hundred (`SampleItem.Spans`).

Numbers are words of 64 bits in the end. `SampleItem.sampleWords?` takes the same samples in words
and has no answer as soon as a difference is negative or a sum too large. It always has an answer,
also at the ends of what a word can hold, because no sum is taken beyond the last sample
(`SampleItem.exists_sampleWords?`).
-/

namespace PluralForms

open Text

namespace SampleItem

variable {first last : Nat}

/-! ### Spanning a range -/

/-- The numbers span the range from `first` to `last`. -/
structure Spans (first last : Nat) (numbers : List Nat) : Prop where
  /-- They ascend. -/
  increasing : numbers.Pairwise (· < ·)
  /-- They start with the first number. -/
  head?_eq : numbers.head? = some first
  /-- They end with the last number. -/
  getLast?_eq : numbers.getLast? = some last
  /-- They lie between the two. -/
  within : ∀ n ∈ numbers, first ≤ n ∧ n ≤ last
  /-- Neighbours are at most a hundredth of the range apart, or one. -/
  gaps : numbers.IsChain fun x y ↦ y - x ≤ max 1 ((last - first) / 100)
  /-- No number of a short range is left out. -/
  complete : last - first < 200 → ∀ n, first ≤ n → n ≤ last → n ∈ numbers
  /-- They are few. -/
  length_le : numbers.length ≤ 200

/-- **The samples of a range span it.** -/
theorem spans_sampleRange (h : first ≤ last) : Spans first last (sampleRange first last) where
  increasing := pairwise_sampleRange first last
  head?_eq := head?_sampleRange h
  getLast?_eq := getLast?_sampleRange first last
  within _ hn := le_and_le_of_mem_sampleRange h hn
  gaps := isChain_sampleRange first last
  complete hshort _ hfirst hlast := mem_sampleRange_of_lt hshort hfirst hlast
  length_le := length_sampleRange_le first last

/-! ### Samples in words -/

/-- The difference of two words, unless it is negative: how wide a range is, once its ends are known
to be in order. -/
def subWords? (a b : UInt64) : Option UInt64 :=
  if b ≤ a then some (a - b) else none

/-- The sum of two words, unless it is too large for a word: the advance from one sample to the next,
and the rounding up of a number of steps. -/
def addWords? (a b : UInt64) : Option UInt64 :=
  if a.toNat + b.toNat < numeralBound then some (a + b) else none

/-- As many words as asked for, a step apart: the half-open range taken a step at a time. No sum is
taken beyond the last. -/
def walk? (step : UInt64) : Nat → UInt64 → Option (List UInt64)
  | 0, _ => some []
  | 1, word => some [word]
  | n + 2, word => do
    let next ← addWords? word step
    let rest ← walk? step (n + 1) next
    return word :: rest

/-- How many steps start in front of the end of the width: how often the half-open range gives a
word, which is settled by division and remainder before it gives the first. -/
def countSteps? (width step : UInt64) : Option UInt64 :=
  if width % step = 0 then some (width / step) else addWords? (width / step) 1

/-- The samples of a range in words, by the operations of the range branch in their order:
* the width `last - first` is a difference (`subWords?`);
* the step is a hundredth of it or one, and needs no check, since neither is larger than a word;
* the number of steps in the half-open range from `first` to `last` is a quotient, and one more if
  there is a remainder (`countSteps?`);
* the samples of that range advance by one sum each (`walk?`);
* `last` is put behind them.

A check that fails is an operation that would wrap around. -/
def sampleWords? (first last : UInt64) : Option (List UInt64) := do
  let width ← subWords? last first
  let step := max 1 (width / 100)
  let count ← countSteps? width step
  let samples ← walk? step count.toNat first
  return samples ++ [last]

/-- A sum that is small enough is that of the numbers. -/
theorem exists_addWords? {a b : UInt64} (h : a.toNat + b.toNat < numeralBound) :
    ∃ c, addWords? a b = some c ∧ c.toNat = a.toNat + b.toNat := by
  refine ⟨a + b, if_pos h, ?_⟩
  rw [UInt64.toNat_add]
  exact Nat.mod_eq_of_lt h

/-- A walk that stays small enough gives the numbers that are a step apart. -/
theorem exists_walk? {step : UInt64} {n : Nat} {word : UInt64}
    (h : ∀ i < n, word.toNat + i * step.toNat < numeralBound) :
    ∃ words, walk? step n word = some words ∧
      words.map UInt64.toNat = (List.range n).map (word.toNat + · * step.toNat) := by
  induction n generalizing word with
  | zero => exact ⟨[], rfl, rfl⟩
  | succ n ih =>
    cases n with
    | zero => exact ⟨[word], rfl, by simp⟩
    | succ n =>
      obtain ⟨next, hnext, hvalue⟩ := exists_addWords? (a := word) (b := step) (by
        simpa using h 1 (by omega))
      have hrest : ∀ i < n + 1, next.toNat + i * step.toNat < numeralBound := by
        intro i hi
        have hword := h (i + 1) (by omega)
        rw [Nat.succ_mul] at hword
        omega
      obtain ⟨rest, hwalk, hvalues⟩ := ih hrest
      refine ⟨word :: rest, ?_, ?_⟩
      · rw [walk?, hnext, Option.bind_eq_bind, Option.bind_some, hwalk]
        rfl
      · have hshift : ∀ i, next.toNat + i * step.toNat = word.toNat + (i + 1) * step.toNat := by
          intro i
          rw [hvalue, Nat.succ_mul]
          omega
        simp [hvalues, hshift, List.range_succ_eq_map (n := n + 1)]

/-- The number of steps that start in front of the last number, by division and remainder. -/
theorem lt_div_add_iff (i width : Nat) {step : Nat} (hstep : 0 < step) :
    (i < if width % step = 0 then width / step else width / step + 1) ↔ i * step < width := by
  split
  next hzero =>
    exact Nat.lt_div_iff_mul_lt_of_dvd (Nat.ne_of_gt hstep) (Nat.dvd_of_mod_eq_zero hzero)
  next hrest =>
    have hne : i * step ≠ width := by
      rintro rfl
      exact hrest (Nat.mul_mod_left i step)
    rw [Nat.lt_succ_iff, Nat.le_div_iff_mul_le hstep]
    omega

/-- The number of steps has room in a word. -/
theorem exists_countSteps? (width : UInt64) {step : UInt64} (hstep : 0 < step.toNat) :
    ∃ count, countSteps? width step = some count ∧
      ∀ i, i < count.toNat ↔ i * step.toNat < width.toNat := by
  have hzero : width % step = 0 ↔ width.toNat % step.toNat = 0 := by
    rw [← UInt64.toNat_inj, UInt64.toNat_mod]
    rfl
  have hsteps := fun i ↦ lt_div_add_iff i width.toNat hstep
  by_cases hrest : width.toNat % step.toNat = 0
  · simp only [if_pos hrest] at hsteps
    exact ⟨width / step, if_pos (hzero.2 hrest), fun i ↦ by rw [UInt64.toNat_div, hsteps]⟩
  · simp only [if_neg hrest] at hsteps
    have hlt : (width / step).toNat + (1 : UInt64).toNat < numeralBound := by
      have hlast := (hsteps (width.toNat / step.toNat)).1 (Nat.lt_succ_self _)
      have hle := Nat.le_mul_of_pos_right (width.toNat / step.toNat) hstep
      have hwidth : width.toNat < numeralBound := UInt64.toNat_lt width
      rw [UInt64.toNat_div, UInt64.toNat_one]
      omega
    obtain ⟨count, hcount, hvalue⟩ := exists_addWords? hlt
    refine ⟨count, ?_, fun i ↦ ?_⟩
    · rw [countSteps?, if_neg (mt hzero.1 hrest), hcount]
    · rw [hvalue, UInt64.toNat_div, UInt64.toNat_one, hsteps]

/-- **The samples of a range can be taken in words**, and they are its samples. -/
theorem exists_sampleWords? {first last : UInt64} (h : first ≤ last) :
    ∃ words, sampleWords? first last = some words ∧
      words.map UInt64.toNat = sampleRange first.toNat last.toNat := by
  have hwidth : (last - first).toNat = last.toNat - first.toNat := UInt64.toNat_sub_of_le _ _ h
  have hstep : (max 1 ((last - first) / 100)).toNat = stepOf first.toNat last.toNat := by
    rw [UInt64.toNat_max, UInt64.toNat_div, hwidth]
    rfl
  have hpos := stepOf_pos first.toNat last.toNat
  obtain ⟨n, hn, hsamples⟩ := exists_sampleRange_eq first.toNat last.toNat
  rw [← hstep] at hpos hn hsamples
  obtain ⟨count, hcount, hsteps⟩ := exists_countSteps? (last - first) hpos
  have hcount_eq : count.toNat = n := by
    refine eq_of_forall_lt_iff fun i ↦ ?_
    rw [hsteps, hn, hwidth]
    omega
  -- all the words lie in front of the last
  have hbound : ∀ i < n,
      first.toNat + i * (max 1 ((last - first) / 100)).toNat < numeralBound :=
    fun i hi ↦ Nat.lt_trans ((hn i).1 hi) (UInt64.toNat_lt last)
  obtain ⟨words, hwalk, hvalues⟩ := exists_walk? hbound
  refine ⟨words ++ [last], ?_, ?_⟩
  · rw [sampleWords?, subWords?, if_pos h]
    simp only [Option.bind_eq_bind, Option.bind_some, hcount, hcount_eq, hwalk]
    rfl
  · rw [hsamples, List.map_append, hvalues, List.map_singleton]

end SampleItem

namespace SampleList

theorem Listed.isCommaList {items : List SampleItem} {cs : List Char} (h : Listed items cs) :
    IsCommaList items cs :=
  ⟨[], cs, [], by simp, blank_nil, blank_nil, h⟩

/-- A comma list with nothing after it is read. -/
theorem read_ofList {items : List SampleItem} {cs : List Char} (h : IsCommaList items cs) :
    read (.ofList cs) = .ok (ofItems items) := by
  refine read_of_isCommaList ?_
  rw [String.toList_ofList]
  simpa using h.body_append_ending .none

/-- **A range is read as numbers that span it**, and they can be taken in words of 64 bits, whatever
its ends. -/
theorem read_range_spans (a b : UInt64) (h : a ≤ b) :
    ∃ numbers, read (toString a.toNat ++ "~" ++ toString b.toNat) = .ok ⟨numbers, []⟩ ∧
      SampleItem.Spans a.toNat b.toNat numbers ∧
      ∃ words, SampleItem.sampleWords? a b = some words ∧ words.map UInt64.toNat = numbers := by
  have hle : a.toNat ≤ b.toNat := UInt64.le_iff_toNat_le.1 h
  refine ⟨SampleItem.sampleRange a.toNat b.toNat, ?_, SampleItem.spans_sampleRange hle,
    SampleItem.exists_sampleWords? h⟩
  have hspells : (SampleItem.range a.toNat b.toNat).Spells
      (Nat.toDigits 10 a.toNat ++ [] ++ '~' :: ([] ++ Nat.toDigits 10 b.toNat)) :=
    .range (isNumeral_toDigits (UInt64.toNat_lt a)) (isNumeral_toDigits (UInt64.toNat_lt b))
      blank_nil blank_nil hle
  have htext : toString a.toNat ++ "~" ++ toString b.toNat =
      .ofList (Nat.toDigits 10 a.toNat ++ [] ++ '~' :: ([] ++ Nat.toDigits 10 b.toNat)) := by
    rw [← String.toList_inj]
    simp
  rw [htext, read_ofList (Listed.single hspells).isCommaList]
  simp [ofItems, SampleItem.numbers, SampleItem.compact?]

/-- The largest range of all. -/
theorem read_range_spans_widest :
    (0 : UInt64) ≤ 18446744073709551615 ∧
      ∃ numbers, read "0~18446744073709551615" = .ok ⟨numbers, []⟩ ∧
        SampleItem.Spans 0 18446744073709551615 numbers ∧
        ∃ words, SampleItem.sampleWords? 0 18446744073709551615 = some words ∧
          words.map UInt64.toNat = numbers := by
  have hle : (0 : UInt64) ≤ 18446744073709551615 := by decide
  exact ⟨hle, read_range_spans 0 18446744073709551615 hle⟩

end SampleList

end PluralForms
