import Mathlib.Data.List.Nodup
import PluralForms.Proofs.Formula.Characters
import PluralForms.Proofs.Rule.Canonical
import PluralForms.Proofs.RuleSet.Meaning

/-!
# When rules compile

The rules of a language compile exactly when they are `Compilable`, and that is said of the rules
alone: of their categories, of what their texts spell, of relations that are decided for all
integers, and of the category that the rules assign to a sample (`claimant`). No formula occurs in
it, with one exception. A formula for two categories is a negated condition, and not every condition
can be negated, so when just one rule is left its condition has to be one that can.

Each stage has its own lemma: the rule of one category (`exists_resolveRule_iff`), what is left of
all of them (`mem_resolved_iff`, `map_resolved_eq_singleton_iff`), the selector
(`Selector.exists_assemble_iff`), the last check on the formula, which never fails
(`checkFormula_of_assemble`), and the samples (`forall_checkSamples_iff`).
`exists_compile_iff_compilable` puts them together.
-/

namespace PluralForms

/-- A selector can be made of any conditions, but a single one has to have a negation. -/
theorem Selector.exists_assemble_iff {cs : List Condition} :
    (∃ s, Selector.assemble cs = .ok s) ↔ ∀ c, cs = [c] → ∃ d, c.negate = .ok d := by
  rcases cs with _ | ⟨c, _ | ⟨c', cs⟩⟩
  · simp [assemble]
  · simp [assemble_singleton_eq_ok_iff]
  · simp [assemble]

/-- The rule is not that of the catch-all, its text spells a rule, and the rule has a group without
a relation that is decided not to hold. -/
def CategoryRule.Survives (r : CategoryRule) : Prop :=
  r.category ≠ .other ∧ ∃ rule : Rule, rule.Spells r.rule ∧ rule.claimsNone = false

namespace RuleSet

variable {language : String} {rules : List CategoryRule}

/-- **What it takes for rules to compile.** -/
structure Compilable (rules : List CategoryRule) : Prop where
  /-- No two rules are for the same category. -/
  nodup : (rules.map (·.category)).Nodup
  /-- There is a rule for the catch-all, and its text is blank. -/
  other : ∃ r ∈ rules, r.category = .other ∧ Text.Blank r.rule.toList
  /-- The text of every other rule spells a rule. -/
  spelled : ∀ r ∈ rules, r.category ≠ .other → ∃ rule : Rule, rule.Spells r.rule
  /-- No group of such a rule consists of relations that are decided to hold. -/
  not_claimsAll : ∀ r ∈ rules, r.category ≠ .other → ∀ rule : Rule, rule.Spells r.rule →
    rule.claimsAll = false
  /-- A rule that is dropped, as each of its groups has a relation that is decided not to hold, has
  no samples. -/
  samples_of_claimsNone : ∀ r ∈ rules, r.category ≠ .other → ∀ rule : Rule, rule.Spells r.rule →
    rule.claimsNone = true → r.samples = none
  /-- If there are several rules, one of them survives. -/
  survives : 1 < rules.length → ∃ r ∈ rules, r.Survives
  /-- If just one rule survives, its condition has a negation. -/
  negate : ∀ r ∈ rules, r.Survives → (∀ r' ∈ rules, r'.Survives → r' = r) →
    ∃ c d, Rule.compileText r.rule = .ok (.when c) ∧ c.negate = .ok d
  /-- Every sample list can be read, and the rules assign each number in it to the category that has
  the list. -/
  samples : ∀ r ∈ rules, ∀ text ∈ r.samples, ∃ list, SampleList.read text = .ok list ∧
    ∀ n ∈ list.numbers, claimant rules n = r.category

/-! ### The rule of one category -/

/-- **A rule comes to something** when its text spells a rule that does not claim every integer, and
claims some if there are samples. -/
theorem exists_resolveRule_iff {r : CategoryRule} :
    (∃ o, resolveRule language r = .ok o) ↔ ∃ rule : Rule, rule.Spells r.rule ∧
      rule.claimsAll = false ∧ (rule.claimsNone = true → r.samples = none) := by
  simp only [resolveRule_eq_ok_iff, Rule.read_eq_ok_iff]
  constructor
  · rintro ⟨o, rule, hspells, ⟨c, hc, -⟩ | ⟨hnone, hsamples, -⟩⟩
    · obtain ⟨hall, hnone⟩ := Rule.exists_compile_eq_when_iff.1 ⟨c, hc⟩
      exact ⟨rule, hspells, hall, by simp [hnone]⟩
    · -- a rule that claims all integers would be refused, and this one was not
      refine ⟨rule, hspells, Bool.eq_false_iff.2 fun hall ↦ ?_, fun _ ↦ hsamples⟩
      have herror := Rule.compile_eq_error_iff.2 ⟨rfl, hall⟩
      rw [Rule.compile_eq_ok_never_iff.2 hnone] at herror
      cases herror
  · rintro ⟨rule, hspells, hall, hsamples⟩
    cases hnone : rule.claimsNone with
    | true => exact ⟨none, rule, hspells, .inr ⟨hnone, hsamples hnone, rfl⟩⟩
    | false =>
      obtain ⟨c, hc⟩ := Rule.exists_compile_eq_when_iff.2 ⟨hall, hnone⟩
      exact ⟨_, rule, hspells, .inl ⟨c, hc, rfl⟩⟩

/-- What is left of a rule is its condition. -/
theorem resolveRule_eq_ok_some_iff {r : CategoryRule} {category : Category} {c : Condition} :
    resolveRule language r = .ok (some (category, c)) ↔
      r.category = category ∧ Rule.compileText r.rule = .ok (.when c) := by
  rw [resolveRule_eq_ok_iff, Rule.compileText, bind_eq_ok_iff]
  constructor
  · rintro ⟨rule, hread, ⟨_, hc, he⟩ | ⟨-, -, he⟩⟩
    · cases he
      exact ⟨rfl, rule, hread, hc⟩
    · cases he
  · rintro ⟨rfl, rule, hread, hc⟩
    exact ⟨rule, hread, .inl ⟨c, hc, rfl⟩⟩

theorem survives_of_compileText {r : CategoryRule} {c : Condition} (hother : r.category ≠ .other)
    (h : Rule.compileText r.rule = .ok (.when c)) : r.Survives := by
  obtain ⟨rule, hread, hc⟩ := bind_eq_ok_iff.1 h
  exact ⟨hother, rule, Rule.read_eq_ok_iff.1 hread, (Rule.exists_compile_eq_when_iff.1 ⟨c, hc⟩).2⟩

/-- A rule that survives has a condition, if it comes to anything. -/
theorem exists_compileText_of_survives {r : CategoryRule} (h : r.Survives)
    {o : Option (Category × Condition)} (ho : resolveRule language r = .ok o) :
    ∃ c, Rule.compileText r.rule = .ok (.when c) := by
  obtain ⟨-, rule, hspells, hnone⟩ := h
  obtain ⟨rule', hread, ⟨c, hc, -⟩ | ⟨hnone', -, -⟩⟩ := resolveRule_eq_ok_iff.1 ho
  · exact ⟨c, bind_eq_ok_iff.2 ⟨rule', hread, hc⟩⟩
  · obtain rfl := hspells.unique (Rule.read_eq_ok_iff.1 hread)
    rw [hnone] at hnone'
    cases hnone'

/-! ### What is left of the rules -/

/-- The categories that are left are among those of the rules, in the same order. -/
theorem sublist_resolved {outcomes : List (Option (Category × Condition))}
    (h : List.Forall₂ (fun r o ↦ resolveRule language r = .ok o) rules outcomes) :
    ((outcomes.filterMap id).map (·.1)).Sublist (rules.map (·.category)) := by
  induction h with
  | nil => exact .slnil
  | @cons r o _ _ hr _ ih =>
    cases o with
    | none => exact ih.cons _
    | some e =>
      obtain ⟨hcategory, -⟩ := resolveRule_eq_ok_some_iff.1 hr
      rw [List.map_cons, hcategory]
      exact ih.cons_cons _

section Resolved

variable {resolved : List (Category × Condition)}
  (hresolved : resolve language (sortRules rules) = .ok resolved)

include hresolved

theorem nodup_resolved (hnodup : (rules.map (·.category)).Nodup) :
    (resolved.map (·.1)).Nodup := by
  obtain ⟨outcomes, houtcomes, rfl⟩ := resolve_eq_ok_iff.1 hresolved
  have hsublist := (sublist_resolved houtcomes).trans (List.filter_sublist.map _)
  exact hsublist.nodup (nodup_sortRules.2 hnodup)

/-- **The rules that survive are left**, each with its condition. -/
theorem mem_resolved_iff {category : Category} {c : Condition} :
    (category, c) ∈ resolved ↔ ∃ r ∈ rules, r.Survives ∧ r.category = category ∧
      Rule.compileText r.rule = .ok (.when c) := by
  obtain ⟨outcomes, houtcomes, rfl⟩ := resolve_eq_ok_iff.1 hresolved
  rw [List.mem_filterMap]
  constructor
  · rintro ⟨o, ho, rfl⟩
    obtain ⟨r, hr, hresolve⟩ := exists_of_forall₂_of_mem houtcomes.flip ho
    obtain ⟨hr, hother⟩ := mem_filter_sortRules.1 hr
    obtain ⟨hcategory, hc⟩ := resolveRule_eq_ok_some_iff.1 hresolve
    exact ⟨r, hr, survives_of_compileText hother hc, hcategory, hc⟩
  · rintro ⟨r, hr, hsurvives, hc⟩
    have hmem := mem_filter_sortRules.2 ⟨hr, hsurvives.1⟩
    obtain ⟨o, ho, hresolve⟩ := exists_of_forall₂_of_mem houtcomes hmem
    rw [resolveRule_eq_ok_some_iff.2 hc] at hresolve
    exact ⟨o, ho, (Except.ok.inj hresolve).symm⟩

theorem exists_mem_resolved {r : CategoryRule} (hr : r ∈ rules) (h : r.Survives) :
    ∃ c, (r.category, c) ∈ resolved ∧ Rule.compileText r.rule = .ok (.when c) := by
  obtain ⟨o, ho⟩ := exists_resolve_iff.1 ⟨resolved, hresolved⟩ r hr h.1
  obtain ⟨c, hc⟩ := exists_compileText_of_survives h ho
  exact ⟨c, (mem_resolved_iff hresolved).2 ⟨r, hr, h, rfl, hc⟩, hc⟩

/-- Something is left exactly when some rule survives. -/
theorem resolved_ne_nil_iff : resolved ≠ [] ↔ ∃ r ∈ rules, r.Survives := by
  constructor
  · intro h
    obtain ⟨⟨category, c⟩, he⟩ := List.exists_mem_of_ne_nil _ h
    obtain ⟨r, hr, hsurvives, -⟩ := (mem_resolved_iff hresolved).1 he
    exact ⟨r, hr, hsurvives⟩
  · rintro ⟨r, hr, hsurvives⟩
    obtain ⟨c, hc, -⟩ := exists_mem_resolved hresolved hr hsurvives
    exact List.ne_nil_of_mem hc

/-- **One category is left when one rule survives.** -/
theorem resolved_eq_singleton_iff (hnodup : (rules.map (·.category)).Nodup) {category : Category}
    {c : Condition} :
    resolved = [(category, c)] ↔ ∃ r ∈ rules, r.Survives ∧ (∀ r' ∈ rules, r'.Survives → r' = r) ∧
      r.category = category ∧ Rule.compileText r.rule = .ok (.when c) := by
  constructor
  · intro hsingle
    have hmem : (category, c) ∈ resolved := hsingle ▸ List.mem_cons_self
    obtain ⟨r, hr, hsurvives, hcategory, hc⟩ := (mem_resolved_iff hresolved).1 hmem
    refine ⟨r, hr, hsurvives, fun r' hr' hsurvives' ↦ ?_, hcategory, hc⟩
    -- all that is left is one category, and rules of the same category are the same
    obtain ⟨c', hc', -⟩ := exists_mem_resolved hresolved hr' hsurvives'
    rw [hsingle, List.mem_singleton] at hc'
    exact List.inj_on_of_nodup_map hnodup hr' hr ((congrArg (·.1) hc').trans hcategory.symm)
  · rintro ⟨r, hr, hsurvives, hunique, rfl, hc⟩
    have hmem := (mem_resolved_iff hresolved).2 ⟨r, hr, hsurvives, rfl, hc⟩
    have hall : ∀ e ∈ resolved, e = (r.category, c) := by
      rintro ⟨category, d⟩ he
      obtain ⟨r', hr', hsurvives', rfl, hd⟩ := (mem_resolved_iff hresolved).1 he
      obtain rfl := hunique r' hr' hsurvives'
      cases hc.symm.trans hd
      rfl
    have hnodup' : resolved.Nodup := (nodup_resolved hresolved hnodup).of_map
    refine Decidable.of_not_not fun hne ↦ ?_
    rcases (hnodup'.ne_singleton_iff _).1 hne with hnil | ⟨e, he, hne⟩
    · exact List.ne_nil_of_mem hmem hnil
    · exact hne (hall e he)

/-- A single condition is left exactly when it is that of the only rule to survive. -/
theorem map_resolved_eq_singleton_iff (hnodup : (rules.map (·.category)).Nodup) {c : Condition} :
    resolved.map (·.2) = [c] ↔ ∃ r ∈ rules, r.Survives ∧ (∀ r' ∈ rules, r'.Survives → r' = r) ∧
      Rule.compileText r.rule = .ok (.when c) := by
  constructor
  · intro h
    obtain ⟨⟨category, c⟩, hsingle, rfl⟩ := List.map_eq_singleton_iff.1 h
    obtain ⟨r, hr, hsurvives, hunique, -, hc⟩ :=
      (resolved_eq_singleton_iff hresolved hnodup).1 hsingle
    exact ⟨r, hr, hsurvives, hunique, hc⟩
  · rintro ⟨r, hr, hsurvives, hunique, hc⟩
    rw [(resolved_eq_singleton_iff hresolved hnodup).2 ⟨r, hr, hsurvives, hunique, rfl, hc⟩]
    rfl

/-- Conditions that are left can all be written. -/
theorem canonical_of_mem_resolved {category : Category} {c : Condition}
    (h : (category, c) ∈ resolved) : c.Canonical := by
  obtain ⟨r, -, -, -, hc⟩ := (mem_resolved_iff hresolved).1 h
  exact Rule.canonical_of_compileText hc

variable {formula : Selector} (hformula : Selector.assemble (resolved.map (·.2)) = .ok formula)

include hformula

/-- The conditions of the formula are canonical, also those that were reduced or negated. -/
theorem canonical_of_mem_conditions {c : Condition} (hc : c ∈ formula.conditions) :
    c.Canonical := by
  refine Selector.canonical_of_assemble (fun d hd ↦ ?_) hformula c hc
  obtain ⟨e, he, rfl⟩ := List.mem_map.1 hd
  exact canonical_of_mem_resolved hresolved he

/-- **The last check on the formula always passes.** -/
theorem checkFormula_of_assemble : checkFormula language formula = .ok () :=
  checkFormula_eq_ok language fun _ hc ↦
    (canonical_of_mem_conditions hresolved hformula hc).wellFormed

/-- A sample list passes when the rules themselves assign its numbers to the category. -/
theorem checkSamples_eq_ok_iff_claimant (category : Category) (text : String) :
    checkSamples language formula (resolved.map (·.1) ++ [.other]) category text = .ok () ↔
      ∃ list, SampleList.read text = .ok list ∧
        ∀ n ∈ list.numbers, claimant rules n = category := by
  rw [checkSamples_eq_ok_iff]
  simp only [getElem?_eval_eq_claimant hresolved hformula, Option.some.injEq]

/-- **The samples pass when the rules themselves assign them to their categories.** -/
theorem forall_checkSamples_iff (hnodup : (rules.map (·.category)).Nodup) :
    (∀ e ∈ (examplesOf (sortRules rules)).entries,
      checkSamples language formula (resolved.map (·.1) ++ [.other]) e.1 e.2 = .ok ()) ↔
    ∀ r ∈ rules, ∀ text ∈ r.samples, ∃ list, SampleList.read text = .ok list ∧
      ∀ n ∈ list.numbers, claimant rules n = r.category := by
  have hcheck := checkSamples_eq_ok_iff_claimant hresolved hformula
  constructor
  · intro h r hr text htext
    have he : (r.category, text) ∈ (examplesOf (sortRules rules)).entries :=
      (mem_entries_examplesOf hnodup).2 ⟨r, hr, rfl, htext⟩
    exact (hcheck r.category text).1 (h (r.category, text) he)
  · rintro h ⟨category, text⟩ he
    obtain ⟨r, hr, rfl, htext⟩ := (mem_entries_examplesOf hnodup).1 he
    exact (hcheck r.category text).2 (h r hr text htext)

end Resolved

/-! ### All stages -/

/-- Rules that compile are compilable. -/
theorem Compilable.of_compile {set : RuleSet} (h : compile language rules = .ok set) :
    Compilable rules := by
  obtain ⟨hstructure, resolved, hresolved, hleft, formula, hformula, -, hsamples, -⟩ :=
    compile_eq_ok_iff.1 h
  obtain ⟨hnodup, r, hr, hother, hblank⟩ := checkStructure_eq_ok_iff.1 hstructure
  have hrules := fun r hr hne ↦
    exists_resolveRule_iff.1 (exists_resolve_iff.1 ⟨resolved, hresolved⟩ r hr hne)
  have hrule : ∀ r ∈ rules, r.category ≠ .other → ∀ rule : Rule, rule.Spells r.rule →
      rule.claimsAll = false ∧ (rule.claimsNone = true → r.samples = none) := by
    intro r hr hne rule hspells
    obtain ⟨rule', hspells', hrule'⟩ := hrules r hr hne
    rwa [hspells.unique hspells']
  refine ⟨hnodup, ⟨r, hr, hother, Text.trim_eq_nil_iff.1 hblank⟩, ?_, ?_, ?_, ?_, ?_, ?_⟩
  · intro r hr hne
    obtain ⟨rule, hspells, -⟩ := hrules r hr hne
    exact ⟨rule, hspells⟩
  · exact fun r hr hne rule hspells ↦ (hrule r hr hne rule hspells).1
  · exact fun r hr hne rule hspells ↦ (hrule r hr hne rule hspells).2
  · exact fun hlength ↦ (resolved_ne_nil_iff hresolved).1 (hleft hlength)
  · intro r hr hsurvives hunique
    obtain ⟨c, -, hc⟩ := exists_mem_resolved hresolved hr hsurvives
    have hsingle := (map_resolved_eq_singleton_iff hresolved hnodup).2
      ⟨r, hr, hsurvives, hunique, hc⟩
    obtain ⟨d, hd⟩ := Selector.exists_assemble_iff.1 ⟨formula, hformula⟩ c hsingle
    exact ⟨c, d, hc, hd⟩
  · exact (forall_checkSamples_iff hresolved hformula hnodup).1 hsamples

/-- Compilable rules compile. -/
theorem Compilable.exists_compile (h : Compilable rules) (language : String) :
    ∃ set, compile language rules = .ok set := by
  obtain ⟨resolved, hresolved⟩ :
      ∃ resolved, resolve language (sortRules rules) = .ok resolved := by
    refine exists_resolve_iff.2 fun r hr hne ↦ exists_resolveRule_iff.2 ?_
    obtain ⟨rule, hspells⟩ := h.spelled r hr hne
    exact ⟨rule, hspells, h.not_claimsAll r hr hne rule hspells,
      h.samples_of_claimsNone r hr hne rule hspells⟩
  obtain ⟨formula, hformula⟩ : ∃ s, Selector.assemble (resolved.map (·.2)) = .ok s := by
    -- a single condition is that of the only rule that survives
    refine Selector.exists_assemble_iff.2 fun c hsingle ↦ ?_
    obtain ⟨r, hr, hsurvives, hunique, hc⟩ :=
      (map_resolved_eq_singleton_iff hresolved h.nodup).1 hsingle
    obtain ⟨c', d, hc', hd⟩ := h.negate r hr hsurvives hunique
    cases hc.symm.trans hc'
    exact ⟨d, hd⟩
  obtain ⟨r, hr, hother, hblank⟩ := h.other
  have hstructure : checkStructure language (sortRules rules) = .ok () :=
    checkStructure_eq_ok_iff.2 ⟨h.nodup, r, hr, hother, Text.trim_eq_nil_iff.2 hblank⟩
  exact ⟨_, compile_eq_ok_iff.2 ⟨hstructure, resolved, hresolved,
    fun hlength ↦ (resolved_ne_nil_iff hresolved).2 (h.survives hlength), formula, hformula,
    checkFormula_of_assemble hresolved hformula,
    (forall_checkSamples_iff hresolved hformula h.nodup).2 h.samples, rfl⟩⟩

/-- **Rules compile exactly when they are compilable**, whatever the label of the language. -/
theorem exists_compile_iff_compilable (language : String) (rules : List CategoryRule) :
    (∃ set, compile language rules = .ok set) ↔ Compilable rules :=
  ⟨fun ⟨_, h⟩ ↦ .of_compile h, fun h ↦ h.exists_compile language⟩

end RuleSet

end PluralForms
