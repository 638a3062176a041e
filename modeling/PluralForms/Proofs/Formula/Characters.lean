import PluralForms.RuleSet
import PluralForms.Proofs.Condition.Canonical

/-!
# The characters of a formula

The text of a formula is made of digits, the letter `n`, blanks and the signs of the operators, and
of nothing else, whatever the conditions in it are. It is not empty when the conditions are
well-formed: an empty junction is the only thing without a text. So the last check on a formula
never fails (`RuleSet.checkFormula_eq_ok`).
-/

namespace PluralForms

namespace RuleSet

/-- The text is made of the characters of formulas. -/
def isArithmetic (s : String) : Bool :=
  s.toList.all formulaCharacters.contains

theorem isArithmetic_append (s t : String) :
    isArithmetic (s ++ t) = (isArithmetic s && isArithmetic t) := by
  rw [isArithmetic, String.toList_append, List.all_append]
  rfl

/-- Numbers are written with digits. -/
theorem isArithmetic_toString (k : Nat) : isArithmetic (toString k) = true := by
  rw [isArithmetic, List.all_eq_true]
  intro c hc
  have hmem : c ∈ Nat.toDigits 10 k := by
    rwa [Nat.toString_eq_ofList_toDigits, String.toList_ofList] at hc
  obtain ⟨hlow, hhigh⟩ := Char.isDigit_iff_toNat.1
    (Nat.isDigit_of_mem_toDigits (by decide) (by decide) hmem)
  have hdigits : ∀ d : Fin 10, formulaCharacters.contains (Char.ofNat (48 + d)) = true := by
    decide +kernel
  have hc : c = Char.ofNat (48 + (c.toNat - 48)) := by
    simp at hlow
    simp [Nat.add_sub_cancel' hlow]
  rw [hc]
  exact hdigits ⟨c.toNat - 48, by simp at hhigh; omega⟩

/-- Arithmetic texts with an arithmetic sign between them make an arithmetic text. -/
theorem isArithmetic_intercalate {s : String} {l : List String} (hs : isArithmetic s)
    (hl : ∀ t ∈ l, isArithmetic t) : isArithmetic (s.intercalate l) := by
  induction l with
  | nil => rfl
  | cons t l ih =>
    obtain ⟨ht, hl⟩ := List.forall_mem_cons.1 hl
    by_cases hnil : l = []
    · rw [hnil, String.intercalate_singleton]
      exact ht
    · rw [String.intercalate_cons_of_ne_nil hnil, isArithmetic_append, isArithmetic_append, ht, hs,
        ih hl]
      rfl

end RuleSet

/-- Joined texts are empty only if all of them are. -/
theorem intercalate_ne_empty {s t : String} {l : List String} (ht : t ∈ l) (hne : t ≠ "") :
    s.intercalate l ≠ "" := by
  induction l with
  | nil => cases ht
  | cons u l ih =>
    by_cases hnil : l = []
    · subst hnil
      obtain rfl := List.mem_singleton.1 ht
      rwa [String.intercalate_singleton]
    · rw [String.intercalate_cons_of_ne_nil hnil]
      rcases List.mem_cons.1 ht with rfl | ht
      · simp [hne]
      · simp [ih ht]

open RuleSet

theorem Operand.isArithmetic_text (o : Operand) : isArithmetic o.text := by
  cases o with
  | count => decide +kernel
  | remainder m =>
    rw [text, isArithmetic_append, isArithmetic_toString]
    decide +kernel

theorem Comparator.isArithmetic_symbol (r : Comparator) : isArithmetic r.symbol := by
  cases r <;> decide +kernel

namespace Condition

/-- **The text of a condition is arithmetic**, nested or not. -/
theorem isArithmetic_textWithin (c : Condition) (nested : Bool) :
    isArithmetic (c.textWithin nested) := by
  induction c using Condition.induction generalizing nested with
  | compare o r v =>
    have hblank : isArithmetic " " = true := by decide +kernel
    rw [textWithin]
    simp only [isArithmetic_append, o.isArithmetic_text, r.isArithmetic_symbol, hblank,
      isArithmetic_toString, Bool.and_self]
  | all cs ih =>
    rw [textWithin, memberTexts_eq_map]
    exact isArithmetic_intercalate (by decide +kernel) (List.forall_mem_map.2 fun c hc ↦ ih c hc _)
  | any cs ih =>
    have hjoined : isArithmetic (" || ".intercalate (memberTexts cs)) := by
      rw [memberTexts_eq_map]
      exact isArithmetic_intercalate (by decide +kernel)
        (List.forall_mem_map.2 fun c hc ↦ ih c hc _)
    have hopen : isArithmetic "(" = true := by decide +kernel
    have hclose : isArithmetic ")" = true := by decide +kernel
    cases nested with
    | false => simpa [textWithin] using hjoined
    | true => simp [textWithin, isArithmetic_append, hopen, hclose, hjoined]

theorem isArithmetic_grouped (c : Condition) : isArithmetic c.grouped := by
  have hopen : isArithmetic "(" = true := by decide +kernel
  have hclose : isArithmetic ")" = true := by decide +kernel
  rw [grouped, isArithmetic_append, isArithmetic_append, hopen, hclose, text,
    isArithmetic_textWithin]
  rfl

/-- A well-formed condition has a text. -/
theorem textWithin_ne_empty {c : Condition} (h : c.WellFormed) (nested : Bool) :
    c.textWithin nested ≠ "" := by
  induction h generalizing nested with
  | compare => simp [textWithin]
  | @all cs hne _ ih =>
    obtain ⟨c, hc⟩ := List.exists_mem_of_ne_nil cs hne
    rw [textWithin, memberTexts_eq_map]
    exact intercalate_ne_empty (List.mem_map_of_mem hc) (ih c hc true)
  | @any cs hne _ ih =>
    obtain ⟨c, hc⟩ := List.exists_mem_of_ne_nil cs hne
    have hjoined := intercalate_ne_empty (s := " || ") (List.mem_map_of_mem hc) (ih c hc true)
    rw [textWithin, memberTexts_eq_map]
    cases nested with
    | false => exact hjoined
    | true => simp

end Condition

namespace Selector

/-- Whatever the tests and the number they start with, the tail of a chain is arithmetic. -/
theorem isArithmetic_chainTail (cs : List Condition) (index : Nat) :
    isArithmetic (chainTail index cs) := by
  induction cs generalizing index with
  | nil => exact isArithmetic_toString index
  | cons c cs ih =>
    have hopen : isArithmetic "(" = true := by decide +kernel
    have hclose : isArithmetic ")" = true := by decide +kernel
    have hthen : isArithmetic " ? " = true := by decide +kernel
    have helse : isArithmetic " : " = true := by decide +kernel
    simp only [chainTail, isArithmetic_append, hopen, hclose, hthen, helse, c.isArithmetic_grouped,
      isArithmetic_toString, ih, Bool.and_self]

/-- **A formula is arithmetic**, whatever its conditions. -/
theorem isArithmetic_text (s : Selector) : isArithmetic s.text := by
  match s with
  | constant => decide +kernel
  | binary c => exact c.isArithmetic_textWithin false
  | chain [] => decide +kernel
  | chain (c :: cs) =>
    have hthen : isArithmetic " ? 0 : " = true := by decide +kernel
    rw [text, isArithmetic_append, isArithmetic_append, c.isArithmetic_grouped, hthen,
      isArithmetic_chainTail]
    rfl

/-- A formula with well-formed conditions has a text. -/
theorem text_ne_empty {s : Selector} (h : ∀ c ∈ s.conditions, c.WellFormed) : s.text ≠ "" := by
  match s with
  | constant => simp [text]
  | binary c => exact Condition.textWithin_ne_empty (h c (by simp [conditions])) false
  | chain [] => simp [text]
  | chain (c :: cs) => simp [text]

end Selector

/-- **The last check on a formula passes** when its conditions are well-formed. -/
theorem RuleSet.checkFormula_eq_ok (language : String) {s : Selector}
    (h : ∀ c ∈ s.conditions, c.WellFormed) : checkFormula language s = .ok () := by
  have harithmetic : s.text.toList.all formulaCharacters.contains = true := s.isArithmetic_text
  simp [checkFormula, Selector.text_ne_empty h, harithmetic]

end PluralForms
