import PluralForms.Proofs.Condition.Checked
import PluralForms.Proofs.Rule.Canonical
import PluralForms.Proofs.Rule.Meaning

/-!
# Three kinds of rules

What becomes of a rule that can be read is decided by its relations on variables that are zero for
integers, and only by those. If they make up a whole group and hold, the rule is refused; if one
that does not hold is in every group, the rule comes to nothing; otherwise it comes to a condition.
The verdict is right in each case: a rule that is refused holds at every count, a rule that comes to
nothing holds at none, and a condition has a value at every count, which is that of the rule.

Relations on the number itself never decide a rule, even those that hold at every count or at none,
as `n % 10 = 0..9` does: they become part of the condition.
-/

namespace PluralForms.Rule

/-- The condition of a text has a value at every count, and it is that of the rule. -/
theorem holds?_of_compileText {text : String} {rule : Rule} (h : read text = .ok rule)
    {c : Condition} (hc : compileText text = .ok (.when c)) (n : Nat) :
    c.holds n = rule.holds n ∧ c.holds? n = some (c.holds n) := by
  have hcanonical := canonical_of_compileText hc
  rw [compileText_of_read h] at hc
  exact ⟨holds_of_compile hc n, hcanonical.wellFormed.holds?_eq n⟩

/-- **The verdict on a rule** that can be read. It is refused exactly if all relations of some group
are decided to hold, and then it holds at every count. It comes to nothing exactly if that is not so
and each group has a relation that is decided not to hold, and then it holds at no count. In the
remaining case it comes to a condition that holds where the rule does. A rule never comes to a truth
without a condition. -/
theorem compileText_verdict {text : String} {rule : Rule} (h : read text = .ok rule) :
    ((compileText text = .error .alwaysTrue ↔ rule.claimsAll = true) ∧
      (rule.claimsAll = true → ∀ n, rule.holds n = true)) ∧
    ((compileText text = .ok .never ↔ rule.claimsAll = false ∧ rule.claimsNone = true) ∧
      (rule.claimsNone = true → ∀ n, rule.holds n = false)) ∧
    (rule.claimsAll = false → rule.claimsNone = false →
      ∃ c, compileText text = .ok (.when c) ∧
        ∀ n, c.holds n = rule.holds n ∧ c.holds? n = some (c.holds n)) ∧
    compileText text ≠ .ok .always := by
  have htext := compileText_of_read h
  refine ⟨⟨?_, holds_of_claimsAll⟩, ⟨?_, holds_of_claimsNone⟩, fun hall hnone ↦ ?_, ?_⟩
  · rw [htext, compile_eq_error_iff, and_iff_right rfl]
  · rw [htext, compile_eq_ok_never_iff]
    exact ⟨fun hnone ↦ ⟨claimsAll_eq_false_of_claimsNone hnone, hnone⟩, And.right⟩
  · obtain ⟨c, hc⟩ := exists_compile_eq_when_iff.2 ⟨hall, hnone⟩
    rw [← htext] at hc
    exact ⟨c, hc, holds?_of_compileText h hc⟩
  · rw [htext]
    exact Truth.disjunction_ne_ok_always

/-- A rule with values above the modulus, and with ranges up to the largest number and down to
zero. -/
def extreme : Rule :=
  [[⟨.i, some 4, false, [.range 3 9]⟩, ⟨.v, none, false, [.single 0]⟩],
   [⟨.f, none, false, [.single 1]⟩],
   [⟨.n, none, false, [.range 18446744073709551613 18446744073709551615, .range 0 1]⟩]]

/-- A rule of each kind: one that is refused, as its second group is decided; one that comes to
nothing; and one with a condition, whose second group is dropped. -/
theorem compileText_verdict_extreme :
    compileText "n = 1 or v = 0 and f != 3..5" = .error .alwaysTrue ∧
    compileText "v != 0 and n = 1 or t % 10 = 3" = .ok .never ∧
    ∃ c, compileText ("i % 4 = 3..9 and v = 0 or f = 1 or " ++
        "n = 18446744073709551613..18446744073709551615, 0..1") = .ok (.when c) ∧
      c.holds? 0 = some true ∧ c.holds? 7 = some true ∧ c.holds? 8 = some false ∧
      c.holds? 18446744073709551615 = some true := by
  have hall : read "n = 1 or v = 0 and f != 3..5" = .ok [[⟨.n, none, false, [.single 1]⟩],
      [⟨.v, none, false, [.single 0]⟩, ⟨.f, none, true, [.range 3 5]⟩]] := by decide +kernel
  have hnone : read "v != 0 and n = 1 or t % 10 = 3" = .ok [[⟨.v, none, true, [.single 0]⟩,
      ⟨.n, none, false, [.single 1]⟩], [⟨.t, some 10, false, [.single 3]⟩]] := by decide +kernel
  have hextreme : read ("i % 4 = 3..9 and v = 0 or f = 1 or " ++
      "n = 18446744073709551613..18446744073709551615, 0..1") = .ok extreme := by decide +kernel
  refine ⟨(compileText_verdict hall).1.1.2 (by decide),
    (compileText_verdict hnone).2.1.1.2 (by decide), ?_⟩
  obtain ⟨c, hc, hvalues⟩ :=
    (compileText_verdict hextreme).2.2.1 (by decide) (by decide)
  have hvalue : ∀ n, c.holds? n = some (extreme.holds n) := fun n ↦ by
    rw [(hvalues n).2, (hvalues n).1]
  refine ⟨c, hc, ?_, ?_, ?_, ?_⟩
  · rw [hvalue]; decide
  · rw [hvalue]; decide
  · rw [hvalue]; decide
  · rw [hvalue]; decide

end PluralForms.Rule
