import PluralForms.Proofs.Condition.Complement
import PluralForms.Proofs.RuleSet.Stages

/-!
# What a rule set means

The rules of a language assign a category to every count, and they do so before anything is
compiled: it is the first category in canonical order, the catch-all aside, whose rule holds at the
count, and the catch-all if there is none. That is `RuleSet.claimant`, and it is said of the rule
texts through the relations read from them. No condition, selector or index occurs in it, and rules
that a compiler would drop take part like all others.

The main statement, `RuleSet.categoryFor_eq_claimant`, is that a compiled set selects this category
at every count. It rests on two facts. A selector answers with the index of the first condition that
holds, whichever of its shapes it has (`Selector.eval_of_assemble`). And the rules that are dropped
on the way hold at no count, so leaving them out loses nothing (`RuleSet.find?_resolved`).
-/

namespace PluralForms

/-! ### Selectors -/

/-- **A selector answers with the first condition that holds**, and with the index after the last
one if none does. For a single condition the formula is its negation, whose truth value is just that
index. -/
theorem Selector.eval_of_assemble {cs : List Condition} {s : Selector}
    (h : Selector.assemble cs = .ok s) (n : Nat) : s.eval n = cs.findIdx (·.holds n) := by
  match cs, h with
  | [], h =>
    cases h
    rfl
  | [c], h =>
    obtain ⟨d, hd, rfl⟩ := assemble_singleton_eq_ok_iff.1 h
    rw [eval, Condition.holds_of_negate hd, List.findIdx_singleton]
    cases c.holds n <;> rfl
  | c :: c' :: cs, h =>
    cases h
    rw [eval, List.findIdx_map]
    congr 1
    funext d
    exact Condition.holds_reduce d n

/-! ### The category of a count -/

/-- The truth of the text of a rule for an integer count is that of the relations read from it. A
text that cannot be read holds nowhere. -/
def CategoryRule.holds (r : CategoryRule) (n : Nat) : Bool :=
  match Rule.read r.rule with
  | .ok rule => rule.holds n
  | .error _ => false

theorem CategoryRule.holds_of_read {r : CategoryRule} {rule : Rule}
    (h : Rule.read r.rule = .ok rule) (n : Nat) : r.holds n = rule.holds n := by
  rw [holds, h]

namespace RuleSet

variable {language : String} {rules : List CategoryRule}

/-- The category that the rules assign to a count: the first in canonical order, other than the
catch-all, that has a rule which holds at the count, and else the catch-all. -/
def claimant (rules : List CategoryRule) (n : Nat) : Category :=
  (Category.all.find? fun c ↦
    !c.isCatchAll && rules.any fun r ↦ r.category == c && r.holds n).getD .other

/-- The claimant is found by going through the rules in canonical order. -/
theorem claimant_eq_find?_sortRules (rules : List CategoryRule) (n : Nat) :
    claimant rules n =
      ((((sortRules rules).filter (!·.category.isCatchAll)).find? (·.holds n)).map
        (·.category)).getD .other := by
  rw [List.find?_filter, sortRules, Category.find?_sortBy, claimant]
  congr 2
  funext c
  rw [Bool.eq_iff_iff]
  simp only [Bool.and_eq_true, List.any_eq_true, decide_eq_true_eq, beq_iff_eq]
  constructor
  · rintro ⟨hc, r, hr, rfl, hn⟩
    exact ⟨r, hr, rfl, hc, hn⟩
  · rintro ⟨r, hr, rfl, hc, hn⟩
    exact ⟨hc, r, hr, rfl, hn⟩

/-- **Dropped rules hold nowhere**, so the first rule that holds and the first condition that does
belong to the same category. -/
theorem find?_resolved {outcomes : List (Option (Category × Condition))}
    (h : List.Forall₂ (fun r o ↦ resolveRule language r = .ok o) rules outcomes) (n : Nat) :
    ((outcomes.filterMap id).find? (·.2.holds n)).map (·.1) =
      (rules.find? (·.holds n)).map (·.category) := by
  induction h with
  | nil => rfl
  | @cons r o rules outcomes hr _ ih =>
    obtain ⟨rule, hread, ⟨c, hc, rfl⟩ | ⟨hnone, -, rfl⟩⟩ := resolveRule_eq_ok_iff.1 hr
    · have hsame : r.holds n = c.holds n := by
        rw [CategoryRule.holds_of_read hread, ← Rule.holds_of_compile hc n, Truth.holds]
      rw [List.filterMap_cons, List.find?_cons, hsame]
      show Option.map _ (List.find? _ ((r.category, c) :: outcomes.filterMap id)) = _
      rw [List.find?_cons]
      cases c.holds n with
      | true => rfl
      | false => exact ih
    · have hnever : r.holds n = false := by
        rw [CategoryRule.holds_of_read hread, Rule.holds_of_claimsNone hnone n]
      rw [List.find?_cons, hnever]
      exact ih

/-- Categories with one more at the end, looked up at the first place where a test succeeds. -/
theorem getElem?_map_append_findIdx {α : Type} (l : List α) (category : α → Category)
    (last : Category) (p : α → Bool) :
    (l.map category ++ [last])[l.findIdx p]? = some (((l.find? p).map category).getD last) := by
  induction l with
  | nil => rfl
  | cons a l ih =>
    rw [List.findIdx_cons, List.find?_cons]
    cases p a with
    | true => rfl
    | false => simpa using ih

/-- The selector of the resolved categories leads every count to its claimant. -/
theorem getElem?_eval_eq_claimant {resolved : List (Category × Condition)} {formula : Selector}
    (hresolved : resolve language (sortRules rules) = .ok resolved)
    (hformula : Selector.assemble (resolved.map (·.2)) = .ok formula) (n : Nat) :
    (resolved.map (·.1) ++ [.other])[formula.eval n]? = some (claimant rules n) := by
  obtain ⟨outcomes, houtcomes, rfl⟩ := resolve_eq_ok_iff.1 hresolved
  rw [Selector.eval_of_assemble hformula, List.findIdx_map, getElem?_map_append_findIdx,
    claimant_eq_find?_sortRules, ← find?_resolved houtcomes]
  rfl

/-- **A compiled set means what its rules mean.** The text of every rule but that of the catch-all
can be read, and at every count the set selects the category that the rules assign to the count. -/
theorem categoryFor_eq_claimant {set : RuleSet} (h : compile language rules = .ok set) :
    (∀ r ∈ rules, r.category ≠ .other → ∃ rule, Rule.read r.rule = .ok rule) ∧
      ∀ n, set.categoryFor n = some (claimant rules n) := by
  obtain ⟨-, resolved, hresolved, -, formula, hformula, -, -, rfl⟩ := compile_eq_ok_iff.1 h
  refine ⟨fun r hr hother ↦ ?_, fun n ↦ getElem?_eval_eq_claimant hresolved hformula n⟩
  obtain ⟨o, ho⟩ := exists_resolve_iff.1 ⟨resolved, hresolved⟩ r hr hother
  obtain ⟨rule, hread, -⟩ := resolveRule_eq_ok_iff.1 ho
  exact ⟨rule, hread⟩

/-- Rules out of order, with one that holds at no integer. -/
def czechLike : List CategoryRule :=
  [⟨.other, " ", some "0, 5~10, 100"⟩,
   ⟨.few, "v = 0 and i % 10 = 2..4 and i % 100 != 12..14", some "2~4, 22"⟩,
   ⟨.many, "v != 0 and n = 1 or f = 1", none⟩,
   ⟨.one, "i = 1 and v = 0", some "1"⟩]

/-- These rules compile, and the set selects as they say, past the category that is dropped. -/
theorem categoryFor_eq_claimant_czechLike :
    ∃ set, compile "cs" czechLike = .ok set ∧ set.categoryFor 1 = some .one ∧
      set.categoryFor 22 = some .few ∧ set.categoryFor 12 = some .other := by
  have hok : (compile "cs" czechLike).isOk = true := by decide +kernel
  cases h : compile "cs" czechLike with
  | error e => simp [h, Except.isOk, Except.toBool] at hok
  | ok set =>
    obtain ⟨-, hmeaning⟩ := categoryFor_eq_claimant h
    have hone : claimant czechLike 1 = .one := by decide +kernel
    have hfew : claimant czechLike 22 = .few := by decide +kernel
    have hother : claimant czechLike 12 = .other := by decide +kernel
    exact ⟨set, rfl, hone ▸ hmeaning 1, hfew ▸ hmeaning 22, hother ▸ hmeaning 12⟩

end RuleSet

end PluralForms
