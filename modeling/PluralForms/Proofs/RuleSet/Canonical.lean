import PluralForms.Proofs.Condition.Checked
import PluralForms.Proofs.RuleSet.Success

/-!
# Formulas are canonical

Conditions are made at many places: from a single relation, by joining relations and groups, from
the tables of reductions and complements, by negation. All of them are canonical, those of a rule
and those that end up in the formula of a language, so neither can divide by zero at any count
(`canonical_throughout`). It begins with the relations. One that was read has a value and a modulus
other than zero, and its ranges ascend, so the number after the start of a range is still one that
has a numeral.
-/

namespace PluralForms

/-- A relation that was read is valid. -/
theorem Relation.valid_of_read {text : String} {r : Relation} (h : read text = .ok r) :
    r.Valid := by
  obtain ⟨_, _, -, -, hspells⟩ := exists_spells_of_readTrimmed h
  exact hspells.valid

/-- The start of a valid range has a successor in 64 bits. -/
theorem Span.Valid.succ_lt {first last : Nat} (h : (Span.range first last).Valid) :
    first + 1 < Text.numeralBound :=
  Nat.lt_of_le_of_lt h.1 h.2

namespace RuleSet

/-- **The conditions of a compiled formula are canonical.** -/
theorem canonical_of_compile {language : String} {rules : List CategoryRule} {set : RuleSet}
    (h : compile language rules = .ok set) : ∀ c ∈ set.formula.conditions, c.Canonical := by
  obtain ⟨-, resolved, hresolved, -, formula, hformula, -, -, rfl⟩ := compile_eq_ok_iff.1 h
  exact fun c hc ↦ canonical_of_mem_conditions hresolved hformula hc

/-- **Conditions are canonical throughout**, in what a rule amounts to and in the formula of a
language, and so both have a value at every count. The relations that they come from list a value,
their modulus is positive, and the start of a range has a successor that is not too large. -/
theorem canonical_throughout :
    (∀ text c, Rule.compileText text = .ok (.when c) →
      c.Canonical ∧ ∀ n, c.holds? n = some (c.holds n)) ∧
    (∀ language rules set, compile language rules = .ok set →
      (∀ c ∈ set.formula.conditions, c.Canonical) ∧
        ∀ n, set.formula.eval? n = some (set.formula.eval n)) ∧
    ∀ text r, Relation.read text = .ok r →
      r.values ≠ [] ∧ (∀ m ∈ r.modulus, 0 < m) ∧
        ∀ first last, .range first last ∈ r.values →
          first < last ∧ first + 1 < Text.numeralBound := by
  refine ⟨fun text c h ↦ ?_, fun language rules set h ↦ ?_, fun text r h ↦ ?_⟩
  · have hcanonical := Rule.canonical_of_compileText h
    exact ⟨hcanonical, hcanonical.wellFormed.holds?_eq⟩
  · have hcanonical := canonical_of_compile h
    exact ⟨hcanonical, Selector.eval?_eq fun c hc ↦ (hcanonical c hc).wellFormed⟩
  · have hvalid := Relation.valid_of_read h
    refine ⟨hvalid.values_ne_nil, fun m hm ↦ (hvalid.modulus m hm).1, fun first last hrange ↦ ?_⟩
    exact ⟨(hvalid.values _ hrange).1, (hvalid.values _ hrange).succ_lt⟩

/-- A conjunction between two disjunctions is canonical, and so is the negation of a condition with
two remainders. The largest range of two numbers starts just below the largest number. -/
theorem canonical_throughout_nested :
    (∃ c, Rule.compileText "n % 10 = 1..2 and n != 11, 12..14 or n = 7" = .ok (.when c) ∧
      c.Canonical ∧ c.holds? 12 = some false) ∧
    (∃ set, compile "lv" [⟨.one, "n % 10 = 1 and n % 100 != 11", none⟩, ⟨.other, "", none⟩] =
        .ok set ∧
      (∀ c ∈ set.formula.conditions, c.Canonical) ∧
        ∀ n, set.formula.eval? n = some (set.formula.eval n)) ∧
    ∃ r, Relation.read "n = 18446744073709551614..18446744073709551615" = .ok r ∧
      .range 18446744073709551614 18446744073709551615 ∈ r.values ∧
        18446744073709551614 + 1 < Text.numeralBound := by
  obtain ⟨hrule, hset, hrelation⟩ := canonical_throughout
  refine ⟨?_, ?_, ?_⟩
  · have hc : Rule.compileText "n % 10 = 1..2 and n != 11, 12..14 or n = 7" =
        .ok (.when (.any [.all
          [.any [.compare (.remainder 10) .eq 1, .compare (.remainder 10) .eq 2],
            .compare .count .ne 11, .any [.compare .count .lt 12, .compare .count .gt 14]],
          .compare .count .eq 7])) := by decide +kernel
    exact ⟨_, hc, (hrule _ _ hc).1, (hrule _ _ hc).2 12⟩
  · have hok : (compile "lv" [⟨.one, "n % 10 = 1 and n % 100 != 11", none⟩,
        ⟨.other, "", none⟩]).isOk = true := by decide +kernel
    cases h : compile "lv" [⟨.one, "n % 10 = 1 and n % 100 != 11", none⟩, ⟨.other, "", none⟩] with
    | error e => simp [h, Except.isOk, Except.toBool] at hok
    | ok set => exact ⟨set, rfl, hset _ _ _ h⟩
  · have hr : Relation.read "n = 18446744073709551614..18446744073709551615" =
        .ok ⟨.n, none, false, [.range 18446744073709551614 18446744073709551615]⟩ := by
      decide +kernel
    have hmem := List.mem_singleton_self (Span.range 18446744073709551614 18446744073709551615)
    exact ⟨_, hr, hmem, ((hrelation _ _ hr).2.2 _ _ hmem).2⟩

end RuleSet

end PluralForms
