import PluralForms.Text.Numeral

/-!
# What numerals look like

A numeral for a number is its decimal digits, with any number of zeros in front (`IsNumeral`). These
are exactly the texts that are read as the number: `readNumeral?_eq_some_iff`.
-/

namespace PluralForms.Text

/-- The digits spell the number, which is not too large. -/
def IsNumeral (k : Nat) (digits : List Char) : Prop :=
  k < numeralBound ∧ ∃ zeros, digits = List.replicate zeros '0' ++ Nat.toDigits 10 k

variable {k : Nat} {digits : List Char}

theorem toList_toString (n : Nat) : (toString n).toList = Nat.toDigits 10 n := by
  rw [Nat.toString_eq_ofList_toDigits, String.toList_ofList]

theorem isDigit_of_mem_toDigits (n : Nat) : ∀ c ∈ Nat.toDigits 10 n, c.isDigit = true :=
  fun _ hc ↦ Nat.isDigit_of_mem_toDigits (by decide) (by decide) hc

theorem notMem_toDigits {c : Char} (h : c.isDigit = false) {n : Nat} : c ∉ Nat.toDigits 10 n :=
  fun hc ↦ Bool.false_ne_true (h.symm.trans (isDigit_of_mem_toDigits n c hc))

theorem IsNumeral.lt (h : IsNumeral k digits) : k < numeralBound :=
  h.1

theorem isNumeral_toDigits (h : k < numeralBound) : IsNumeral k (Nat.toDigits 10 k) :=
  ⟨h, 0, rfl⟩

theorem IsNumeral.ne_nil (h : IsNumeral k digits) : digits ≠ [] := by
  obtain ⟨-, zeros, rfl⟩ := h
  exact List.append_ne_nil_of_right_ne_nil _ Nat.toDigits_ne_nil

theorem IsNumeral.isDigit (h : IsNumeral k digits) : ∀ c ∈ digits, c.isDigit = true := by
  obtain ⟨-, zeros, rfl⟩ := h
  intro c hc
  rcases List.mem_append.1 hc with hc | hc
  · rw [List.eq_of_mem_replicate hc]
    rfl
  · exact isDigit_of_mem_toDigits k c hc

/-- The value of a digit is below ten and gives back the digit. -/
theorem digitChar_toNat {c : Char} (h : c.isDigit = true) :
    c.toNat - '0'.toNat < 10 ∧ Nat.digitChar (c.toNat - '0'.toNat) = c := by
  obtain ⟨hlow, hhigh⟩ := Char.isDigit_iff_toNat.1 h
  have hzero : '0'.toNat = 48 := rfl
  have hnine : '9'.toNat = 57 := rfl
  refine ⟨by omega, Char.toNat_inj.1 ?_⟩
  rw [Nat.toNat_digitChar_of_lt_ten (by omega)]
  omega

/-- Digits after those of a number that is not zero are digits of the number they make together. -/
theorem toDigits_append {acc : Nat} (hacc : 0 < acc) (h : ∀ c ∈ digits, c.isDigit = true) :
    Nat.toDigits 10 acc ++ digits = Nat.toDigits 10 (Nat.ofDigitChars 10 digits acc) := by
  induction digits generalizing acc with
  | nil => rw [List.append_nil, Nat.ofDigitChars_nil]
  | cons c digits ih =>
    obtain ⟨hc, hdigits⟩ := List.forall_mem_cons.1 h
    obtain ⟨hlt, hchar⟩ := digitChar_toNat hc
    have hone : Nat.toDigits 10 (c.toNat - '0'.toNat) = [c] := by
      rw [Nat.toDigits_of_lt_base hlt, hchar]
    have hstep := Nat.toDigits_append_toDigits (b := 10) (by decide) hacc hlt
    calc Nat.toDigits 10 acc ++ c :: digits
        = (Nat.toDigits 10 acc ++ [c]) ++ digits := by simp
      _ = Nat.toDigits 10 (10 * acc + (c.toNat - '0'.toNat)) ++ digits := by rw [← hone, hstep]
      _ = Nat.toDigits 10 (Nat.ofDigitChars 10 (c :: digits) acc) := by
        rw [ih (by omega) hdigits, Nat.ofDigitChars_cons]

/-- Digits are zeros in front of the digits of the number they make. -/
theorem exists_replicate_append_toDigits (hne : digits ≠ [])
    (h : ∀ c ∈ digits, c.isDigit = true) :
    ∃ zeros, digits =
      List.replicate zeros '0' ++ Nat.toDigits 10 (Nat.ofDigitChars 10 digits 0) := by
  induction digits with
  | nil => exact absurd rfl hne
  | cons c digits ih =>
    obtain ⟨hc, hdigits⟩ := List.forall_mem_cons.1 h
    obtain ⟨hlt, hchar⟩ := digitChar_toNat hc
    by_cases hzero : c = '0'
    · subst hzero
      by_cases hnil : digits = []
      · exact ⟨0, by rw [hnil]; rfl⟩
      · obtain ⟨zeros, hzeros⟩ := ih hnil hdigits
        refine ⟨zeros + 1, ?_⟩
        rw [List.replicate_succ, List.cons_append, Nat.ofDigitChars_cons]
        exact congrArg _ hzeros
    · have hpos : 0 < c.toNat - '0'.toNat := by
        rcases Nat.eq_zero_or_pos (c.toNat - '0'.toNat) with hz | hpos
        · rw [hz] at hchar
          exact absurd hchar.symm hzero
        · exact hpos
      refine ⟨0, ?_⟩
      have happend := toDigits_append hpos hdigits
      rw [Nat.toDigits_of_lt_base hlt, hchar] at happend
      rw [Nat.ofDigitChars_cons]
      simpa using happend

/-- Only the digits of zero start with a zero. -/
theorem eq_nil_of_toDigits_eq_cons {n : Nat} (h : Nat.toDigits 10 n = '0' :: digits) :
    digits = [] := by
  induction n using Nat.strongRecOn generalizing digits with
  | ind n ih =>
    by_cases hn : n < 10
    · rw [Nat.toDigits_of_lt_base hn] at h
      exact (List.cons.inj h).2.symm
    · rw [Nat.toDigits_of_base_le (by omega) (by omega)] at h
      obtain ⟨c, cs, hcs⟩ := List.exists_cons_of_ne_nil (Nat.toDigits_ne_nil (n := n / 10) (b := 10))
      rw [hcs, List.cons_append] at h
      obtain ⟨rfl, -⟩ := List.cons.inj h
      -- What comes before the last digit would be zero, and then it would not be there.
      rw [ih (n / 10) (by omega) hcs] at hcs
      have hzero : n / 10 = 0 := by
        rw [← Nat.ofDigitChars_ten_toDigits (n := n / 10), hcs]
        rfl
      omega

/-- **Reading numerals.** -/
theorem readNumeral?_eq_some_iff : readNumeral? digits = some k ↔ IsNumeral k digits := by
  constructor
  · intro h
    rw [readNumeral?] at h
    split at h
    next hcond =>
      obtain ⟨⟨hne, hdigits⟩, hlt⟩ : (digits ≠ [] ∧ ∀ c ∈ digits, c.isDigit = true) ∧
          Nat.ofDigitChars 10 digits 0 < numeralBound := by simpa using hcond
      obtain rfl := Option.some.inj h
      exact ⟨hlt, exists_replicate_append_toDigits hne hdigits⟩
    next => cases h
  · intro h
    have hne := h.ne_nil
    have hdigits := h.isDigit
    have hvalue : Nat.ofDigitChars 10 digits 0 = k := by
      obtain ⟨-, zeros, rfl⟩ := h
      rw [Nat.ofDigitChars_append, Nat.ofDigitChars_replicate_zero, Nat.mul_zero,
        Nat.ofDigitChars_ten_toDigits]
    have hcond : (!digits.isEmpty && digits.all Char.isDigit &&
        decide (Nat.ofDigitChars 10 digits 0 < numeralBound)) = true := by
      simpa [hvalue, hne, h.lt] using hdigits
    rw [readNumeral?, if_pos hcond, hvalue]

/-- What cannot be read is no numeral. -/
theorem readNumeral?_eq_none_iff : readNumeral? digits = none ↔ ∀ k, ¬IsNumeral k digits := by
  rw [Option.eq_none_iff_forall_ne_some]
  exact forall_congr' fun k ↦ not_congr readNumeral?_eq_some_iff

end PluralForms.Text
