import PluralForms.Proofs.RuleSet.Survivors
import PluralForms.Proofs.SampleList.Grammar

/-!
# What holds of every compiled set

The parts of a compiled set are made by separate passes over differently filtered lists of rules:
the categories and the formula from the rules that survive, the examples from the rules that have
samples. `RuleSet.Invariant` says how they fit together, and with the rules they were made from. The
categories are some of the six, in canonical order; the formula tells apart as many of them as there
are and never answers beyond the last; the examples are the sample lists of the rules, all of them
for categories that are left; and the set gives each sample the category it is listed under.

That a category with samples is left rests on the contradiction check: a rule with samples that
would be dropped is refused.
-/

namespace PluralForms

/-- A selector tells apart one category more than it has conditions to ask. -/
theorem Selector.categoryCount_of_assemble {cs : List Condition} {s : Selector}
    (h : Selector.assemble cs = .ok s) : s.categoryCount = cs.length + 1 := by
  rcases cs with _ | ⟨c, _ | ⟨c', cs⟩⟩
  · cases h
    rfl
  · cases hnegate : c.negate with
    | error f =>
      rw [assemble, hnegate] at h
      cases h
    | ok d =>
      rw [assemble, hnegate] at h
      cases h
      rfl
  · cases h
    simp [categoryCount]

namespace RuleSet

variable {language : String} {rules : List CategoryRule} {set : RuleSet}

/-- **The representation invariant** of a set compiled from the rules. -/
structure Invariant (rules : List CategoryRule) (set : RuleSet) : Prop where
  /-- The categories are some of the six, in canonical order. -/
  sublist_all : set.categories.Sublist Category.all
  /-- No category is listed twice. -/
  nodup : set.categories.Nodup
  /-- The catch-all is the last. -/
  getLast? : set.categories.getLast? = some .other
  /-- Every category has a rule. -/
  exists_rule : ∀ c ∈ set.categories, ∃ r ∈ rules, r.category = c
  /-- The formula tells apart as many categories as there are. -/
  categoryCount : set.formula.categoryCount = set.categories.length
  /-- The formula answers with an index of the list. -/
  eval_lt : ∀ n, set.formula.eval n < set.categories.length
  /-- The examples are the sample lists of the rules, each under the category of its rule. -/
  examples_perm :
    set.examples.entries.Perm (rules.filterMap fun r ↦ r.samples.map (r.category, ·))
  /-- Examples are for categories that are left. -/
  keys_subset : ∀ c ∈ set.examples.keys, c ∈ set.categories
  /-- What stands between the commas of an example spells an item, and the numbers that the item
  covers have the category of the example. -/
  samples : ∀ c text, (c, text) ∈ set.examples.entries →
    ∀ token ∈ SampleList.tokens text.toList, (∃ item : SampleItem, item.Spells token) ∧
      ∀ item : SampleItem, item.Spells token → ∀ n, item.Covers n → set.categoryFor n = some c

/-! ### Categories and formula -/

/-- The categories of a compiled set are the survivors of its rules. -/
theorem categories_of_compile (h : compile language rules = .ok set) :
    set.categories = survivors rules := by
  obtain ⟨hstructure, resolved, hresolved, -, formula, -, -, -, rfl⟩ := compile_eq_ok_iff.1 h
  exact map_resolved_append_eq_survivors hresolved (checkStructure_eq_ok_iff.1 hstructure).1

/-- Each of them has a rule. -/
theorem exists_rule_of_compile (h : compile language rules = .ok set) {c : Category}
    (hc : c ∈ set.categories) : ∃ r ∈ rules, r.category = c := by
  rw [categories_of_compile h, mem_survivors] at hc
  rcases hc with rfl | ⟨r, hr, hcategory, -⟩
  · obtain ⟨r, hr, hother, -⟩ := (Compilable.of_compile h).other
    exact ⟨r, hr, hother⟩
  · exact ⟨r, hr, hcategory⟩

theorem categoryCount_of_compile (h : compile language rules = .ok set) :
    set.formula.categoryCount = set.categories.length := by
  obtain ⟨-, resolved, -, -, formula, hformula, -, -, rfl⟩ := compile_eq_ok_iff.1 h
  simp [Selector.categoryCount_of_assemble hformula]

/-- **The formula never leads past the last category.** -/
theorem eval_lt_of_compile (h : compile language rules = .ok set) (n : Nat) :
    set.formula.eval n < set.categories.length := by
  obtain ⟨-, resolved, hresolved, -, formula, hformula, -, -, rfl⟩ := compile_eq_ok_iff.1 h
  have hclaimant := getElem?_eval_eq_claimant hresolved hformula n
  exact (List.getElem?_eq_some_iff.1 hclaimant).1

/-! ### Examples -/

theorem examples_of_compile (h : compile language rules = .ok set) :
    set.examples = examplesOf (sortRules rules) := by
  obtain ⟨-, resolved, -, -, formula, -, -, -, rfl⟩ := compile_eq_ok_iff.1 h
  rfl

/-- The examples are the sample lists of the rules, by category. -/
theorem mem_examples_of_compile (h : compile language rules = .ok set) {c : Category}
    {text : String} :
    (c, text) ∈ set.examples.entries ↔ ∃ r ∈ rules, r.category = c ∧ r.samples = some text := by
  rw [examples_of_compile h]
  exact mem_entries_examplesOf (Compilable.of_compile h).nodup

/-- **A category with samples is left**: its rule would be refused, were it dropped. -/
theorem mem_categories_of_samples (h : compile language rules = .ok set) {r : CategoryRule}
    (hr : r ∈ rules) (hsamples : r.samples ≠ none) : r.category ∈ set.categories := by
  have hcompilable := Compilable.of_compile h
  rw [categories_of_compile h, mem_survivors]
  refine or_iff_not_imp_left.2 fun hother ↦ ⟨r, hr, rfl, hother, ?_⟩
  obtain ⟨rule, hspells⟩ := hcompilable.spelled r hr hother
  refine ⟨rule, hspells, Bool.eq_false_iff.2 fun hnone ↦ ?_⟩
  exact hsamples (hcompilable.samples_of_claimsNone r hr hother rule hspells hnone)

/-- **The set gives the numbers of an example its category.** -/
theorem categoryFor_of_mem_examples (h : compile language rules = .ok set) {c : Category}
    {text : String} (htext : (c, text) ∈ set.examples.entries) :
    ∃ list, SampleList.read text = .ok list ∧ ∀ n ∈ list.numbers, set.categoryFor n = some c := by
  obtain ⟨-, resolved, hresolved, -, formula, hformula, -, hsamples, rfl⟩ := compile_eq_ok_iff.1 h
  exact checkSamples_eq_ok_iff.1 (hsamples (c, text) htext)

/-- Every token of an example spells an item, and the numbers that it covers have the category of
the example. -/
theorem categoryFor_of_covers (h : compile language rules = .ok set) {c : Category}
    {text : String} (htext : (c, text) ∈ set.examples.entries) {token : List Char}
    (htoken : token ∈ SampleList.tokens text.toList) :
    (∃ item : SampleItem, item.Spells token) ∧
      ∀ item : SampleItem, item.Spells token → ∀ n, item.Covers n → set.categoryFor n = some c := by
  obtain ⟨list, hread, hnumbers⟩ := categoryFor_of_mem_examples h htext
  obtain ⟨items, hitems, rfl⟩ := SampleList.read_eq_ok_iff.1 hread
  obtain ⟨item, hitem, hspells⟩ := exists_of_forall₂_of_mem hitems htoken
  refine ⟨⟨item, hspells⟩, fun item' hspells' n hn ↦ hnumbers n ?_⟩
  obtain rfl := hspells.unique hspells'
  exact List.mem_flatMap.2 ⟨item, hitem, SampleItem.mem_numbers_of_covers hspells hn⟩

/-! ### The invariant -/

/-- **Every compiled set satisfies the invariant.** -/
theorem Invariant.of_compile (h : compile language rules = .ok set) : Invariant rules set where
  sublist_all := categories_of_compile h ▸ sublist_survivors rules
  nodup := categories_of_compile h ▸ nodup_survivors rules
  getLast? := categories_of_compile h ▸ getLast?_survivors rules
  exists_rule _ hc := exists_rule_of_compile h hc
  categoryCount := categoryCount_of_compile h
  eval_lt := eval_lt_of_compile h
  examples_perm := by
    rw [examples_of_compile h, entries_examplesOf (Compilable.of_compile h).nodup]
    exact (Category.sortBy_perm rules).filterMap _
  keys_subset c hc := by
    obtain ⟨⟨_, text⟩, he, rfl⟩ := List.mem_map.1 hc
    obtain ⟨r, hr, rfl, htext⟩ := (mem_examples_of_compile h).1 he
    exact mem_categories_of_samples h hr (by simp [htext])
  samples _ _ htext _ htoken := categoryFor_of_covers h htext htoken

/-- **Every compiled set satisfies the invariant**, be it compiled from rules or from the entries
that the rules are taken from. -/
theorem invariant_of_success (language : String) (set : RuleSet) :
    (∀ rules, compile language rules = .ok set → Invariant rules set) ∧
    ∀ entries, compileEntries language entries = .ok set → ∃ rules,
      List.Forall₂ (fun e r ↦ CategoryRule.ofEntry language e.1 e.2 = .ok r) entries rules ∧
        Invariant rules set := by
  refine ⟨fun rules h ↦ .of_compile h, fun entries h ↦ ?_⟩
  obtain ⟨rules, hrules, h⟩ := bind_eq_ok_iff.1 h
  exact ⟨rules, mapM_eq_ok_iff.1 hrules, .of_compile h⟩

/-- Entries with samples of all kinds, and one that no integer satisfies. -/
def assorted : List (String × String) :=
  [("other", "@integer 0, 6~8"), ("two", "v = 1"),
   ("few", "n = 2..5 @integer 2 ~ 5, 1c6, …"), ("one", "n = 1 @integer 01")]

/-- A rule for the catch-all alone compiles. So do the entries, without the one that no integer
satisfies, and a number within a listed range, which is not listed itself, has the category of the
list. -/
theorem invariant_of_success_assorted :
    (∃ set, compile "ja" [⟨.other, " ", some "0~3"⟩] = .ok set ∧
      Invariant [⟨.other, " ", some "0~3"⟩] set) ∧
    ∃ set, compileEntries "xx" assorted = .ok set ∧
      ∃ rules, List.Forall₂ (fun e r ↦ CategoryRule.ofEntry "xx" e.1 e.2 = .ok r) assorted rules ∧
        Invariant rules set ∧ set.categoryFor 4 = some .few := by
  constructor
  · have hok : (compile "ja" [⟨.other, " ", some "0~3"⟩]).isOk = true := by decide +kernel
    cases h : compile "ja" [⟨.other, " ", some "0~3"⟩] with
    | error e => simp [h, Except.isOk, Except.toBool] at hok
    | ok set => exact ⟨set, rfl, (invariant_of_success "ja" set).1 _ h⟩
  have hok : (compileEntries "xx" assorted).isOk = true := by decide +kernel
  cases h : compileEntries "xx" assorted with
  | error e => simp [h, Except.isOk, Except.toBool] at hok
  | ok set =>
    obtain ⟨rules, hrules, hinvariant⟩ := (invariant_of_success "xx" set).2 assorted h
    have hfew : ⟨.few, "n = 2..5", some "2 ~ 5, 1c6, …"⟩ ∈ rules := by
      obtain ⟨r, hr, hfew⟩ := exists_of_forall₂_of_mem hrules
        (a := ("few", "n = 2..5 @integer 2 ~ 5, 1c6, …")) (by decide)
      have hentry : CategoryRule.ofEntry "xx" "few" "n = 2..5 @integer 2 ~ 5, 1c6, …" =
        .ok ⟨.few, "n = 2..5", some "2 ~ 5, 1c6, …"⟩ := by decide +kernel
      exact Except.ok.inj (hentry.symm.trans hfew) ▸ hr
    have hexample : (.few, "2 ~ 5, 1c6, …") ∈ set.examples.entries :=
      hinvariant.examples_perm.mem_iff.2 (List.mem_filterMap.2 ⟨_, hfew, rfl⟩)
    have hspells : (SampleItem.range 2 5).Spells "2 ~ 5".toList := by
      have htwo : Text.isBlank '2' = false := by decide
      have hfive : Text.isBlank '5' = false := by decide
      exact SampleItem.spells_of_read (by simpa using htwo) (by simpa using hfive)
        (by decide +kernel)
    refine ⟨set, rfl, rules, hrules, hinvariant, ?_⟩
    exact (hinvariant.samples .few _ hexample "2 ~ 5".toList (by decide +kernel)).2 _ hspells 4
      (.inr (.inr (by decide)))

end RuleSet

end PluralForms
