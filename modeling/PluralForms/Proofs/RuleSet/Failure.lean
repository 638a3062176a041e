import PluralForms.Proofs.RuleSet.Order
import PluralForms.Proofs.RuleSet.Survivors

/-!
# Why rules do not compile

Rules that do not compile have one cause, and `RuleSet.Rejected` says which, of the rules alone. The
causes come in stages, and a cause of a later stage presupposes that there is none of an earlier
one: the shape of the set (`Misshapen`), the text of a rule (`CategoryRule.Faulty`), no category
left, no negation of the only condition left, and the sample lists (`SamplesFault`). Within a stage
that goes through the rules, the canonically first rule at fault decides. The category that a
misplaced sample really has is the one that the rules assign to it, and its index is its place among
the survivors.

Main statement: compilation fails exactly with the cause for which the rules are rejected, and
under the label of the language (`compile_eq_error_iff_rejected`). For each stage there is a lemma
that says when it fails and with what.
-/

namespace PluralForms

/-! ### The text of a rule -/

namespace Rule

/-- What is wrong with a text that spells no rule: it has a parenthesis, or else its leftmost
malformed atom is at fault. -/
def Unreadable (text : String) (f : Fault) : Prop :=
  hasParenthesis text = true ∧ f = .parenthesized ∨
    hasParenthesis text = false ∧ ∃ atoms, Atoms text atoms ∧ LeftmostFault atoms f

variable {text : String} {f : Fault}

/-- **Reading fails on unreadable texts**, and with their fault. -/
theorem read_eq_error_iff_unreadable : read text = .error f ↔ Unreadable text f := by
  cases hparen : hasParenthesis text with
  | true =>
    rw [read_of_hasParenthesis hparen, Unreadable, hparen]
    simp [eq_comm]
  | false =>
    rw [read_eq_error_iff hparen, Unreadable, hparen]
    simp [atoms_iff]

/-- A fault in the text of a rule is reported as one. -/
theorem Unreadable.inRule_eq (h : Unreadable text f) (language : String) (category : Category) :
    f.inRule language category text = ⟨language, .unreadable category text (.fault f)⟩ := by
  rcases h with ⟨-, rfl⟩ | ⟨-, atoms, -, before, atom, after, -, -, hatom⟩
  · rfl
  · cases hatom with
    | form => rfl
    | @modulus d _ _ hf =>
      generalize d.modulus = digits at hf
      cases hf <;> rfl
    | value _ _ _ _ hf => cases hf <;> rfl

end Rule

namespace CategoryRule

variable {language : String} {r : CategoryRule}

/-- The text of the rule spells a rule, which does not claim every integer, and if it claims none,
there are no samples. -/
def Sound (r : CategoryRule) : Prop :=
  ∃ rule : Rule, rule.Spells r.rule ∧ rule.claimsAll = false ∧
    (rule.claimsNone = true → r.samples = none)

/-- **What is wrong with a rule that is not sound.** -/
inductive Faulty (r : CategoryRule) : CompileCause → Prop
  /-- Its text spells no rule. -/
  | unreadable {f : Fault} (h : Rule.Unreadable r.rule f) :
      r.Faulty (.unreadable r.category r.rule (.fault f))
  /-- In some group every relation is decided to hold. -/
  | alwaysTrue {rule : Rule} (hspells : rule.Spells r.rule) (h : rule.claimsAll = true) :
      r.Faulty (.contradiction r.category r.rule .alwaysTrue)
  /-- Every group has a relation that is decided not to hold, and there are samples. -/
  | neverHolds {rule : Rule} {samples : String} (hspells : rule.Spells r.rule)
      (h : rule.claimsNone = true) (hsamples : r.samples = some samples) :
      r.Faulty (.contradiction r.category r.rule (.neverHolds samples))

/-- A rule is sound, or there is something wrong with it. -/
theorem sound_or_faulty (r : CategoryRule) : r.Sound ∨ ∃ cause, r.Faulty cause := by
  cases hread : Rule.read r.rule with
  | error f => exact .inr ⟨_, .unreadable (Rule.read_eq_error_iff_unreadable.1 hread)⟩
  | ok rule =>
    have hspells := Rule.read_eq_ok_iff.1 hread
    cases hall : rule.claimsAll with
    | true => exact .inr ⟨_, .alwaysTrue hspells hall⟩
    | false =>
      cases hnone : rule.claimsNone with
      | false => exact .inl ⟨rule, hspells, hall, by simp [hnone]⟩
      | true =>
        cases hsamples : r.samples with
        | none => exact .inl ⟨rule, hspells, hall, fun _ ↦ hsamples⟩
        | some samples => exact .inr ⟨_, .neverHolds hspells hnone hsamples⟩

theorem resolveRule_of_faulty {cause : CompileCause} (h : r.Faulty cause) :
    RuleSet.resolveRule language r = .error ⟨language, cause⟩ := by
  cases h with
  | unreadable h =>
    rw [RuleSet.resolveRule,
      Rule.compileText_of_read_eq_error (Rule.read_eq_error_iff_unreadable.2 h)]
    exact congrArg _ (h.inRule_eq language r.category)
  | alwaysTrue hspells h =>
    rw [RuleSet.resolveRule, Rule.compileText_of_read (Rule.read_eq_ok_iff.2 hspells),
      Rule.compile_eq_error_iff.2 ⟨rfl, h⟩]
    rfl
  | neverHolds hspells h hsamples =>
    rw [RuleSet.resolveRule, Rule.compileText_of_read (Rule.read_eq_ok_iff.2 hspells),
      Rule.compile_eq_ok_never_iff.2 h, hsamples]

/-- A rule comes to something exactly when it is sound. -/
theorem exists_resolveRule_iff_sound : (∃ o, RuleSet.resolveRule language r = .ok o) ↔ r.Sound :=
  RuleSet.exists_resolveRule_iff

/-- **One category fails** when its rule is faulty. -/
theorem resolveRule_eq_error_iff {e : CompileError} :
    RuleSet.resolveRule language r = .error e ↔ e.language = language ∧ r.Faulty e.cause := by
  apply eq_error_iff_of_ok_or
  · rintro e ⟨rfl, hfaulty⟩
    exact resolveRule_of_faulty hfaulty
  · rcases r.sound_or_faulty with hsound | ⟨cause, hfaulty⟩
    · exact .inl (exists_resolveRule_iff_sound.2 hsound)
    · exact .inr ⟨⟨language, cause⟩, rfl, hfaulty⟩

end CategoryRule

namespace RuleSet

variable {language : String} {rules : List CategoryRule}

/-! ### The shape of a set -/

/-- The rules are for different categories, and that of the catch-all is blank. -/
structure Shaped (rules : List CategoryRule) : Prop where
  /-- No two rules are for the same category. -/
  nodup : (rules.map (·.category)).Nodup
  /-- There is a rule for the catch-all, and its text is blank. -/
  other : ∃ r ∈ rules, r.category = .other ∧ Text.Blank r.rule.toList

/-- **What is wrong with the shape of a set.** -/
inductive Misshapen (rules : List CategoryRule) : StructureIssue → Prop
  /-- The category is the first with two rules. -/
  | duplicated {c : Category} (h : FirstRepeated rules c) : Misshapen rules (.duplicated c)
  /-- There is no rule for the catch-all. -/
  | missingOther (hnodup : (rules.map (·.category)).Nodup)
      (h : ∀ r ∈ rules, r.category ≠ .other) : Misshapen rules .missingOther
  /-- The rule for the catch-all says something. -/
  | ruleForOther {r : CategoryRule} (hnodup : (rules.map (·.category)).Nodup) (hr : r ∈ rules)
      (hother : r.category = .other) (h : ¬Text.Blank r.rule.toList) :
      Misshapen rules (.ruleForOther r.rule)

/-- **The structure check passes** when the set has the right shape. -/
theorem checkStructure_eq_ok_iff_shaped :
    checkStructure language (sortRules rules) = .ok () ↔ Shaped rules := by
  rw [checkStructure_eq_ok_iff]
  simp only [Text.trim_eq_nil_iff]
  exact ⟨fun ⟨hnodup, hother⟩ ↦ ⟨hnodup, hother⟩, fun ⟨hnodup, hother⟩ ↦ ⟨hnodup, hother⟩⟩

/-- A set has the right shape, or there is something wrong with it. -/
theorem shaped_or_misshapen (rules : List CategoryRule) :
    Shaped rules ∨ ∃ issue, Misshapen rules issue := by
  cases hdup : duplicate? (sortRules rules) with
  | some c => exact .inr ⟨_, .duplicated (duplicate?_sortRules_eq_some_iff.1 hdup)⟩
  | none =>
    have hnodup := duplicate?_sortRules_eq_none_iff.1 hdup
    by_cases hother : ∃ r ∈ rules, r.category = .other
    · obtain ⟨r, hr, hother⟩ := hother
      by_cases hblank : Text.Blank r.rule.toList
      · exact .inl ⟨hnodup, r, hr, hother, hblank⟩
      · exact .inr ⟨_, .ruleForOther hnodup hr hother hblank⟩
    · exact .inr ⟨_, .missingOther hnodup fun r hr hc ↦ hother ⟨r, hr, hc⟩⟩

theorem checkStructure_of_misshapen {issue : StructureIssue} (h : Misshapen rules issue) :
    checkStructure language (sortRules rules) = .error ⟨language, .malformedSet issue⟩ := by
  cases h with
  | duplicated h => rw [checkStructure, duplicate?_sortRules_eq_some_iff.2 h]
  | missingOther hnodup h =>
    rw [checkStructure, duplicate?_sortRules_eq_none_iff.2 hnodup]
    cases hlast : (sortRules rules).getLast? with
    | none => rfl
    | some last =>
      have hne := h last (mem_sortRules.1 (List.mem_of_getLast? hlast))
      simp [Category.isCatchAll, hne]
  | ruleForOther hnodup hr hother h =>
    rw [← Text.trim_eq_nil_iff] at h
    rw [checkStructure, duplicate?_sortRules_eq_none_iff.2 hnodup,
      getLast?_sortRules_eq_some hr hother hnodup]
    simp [Category.isCatchAll, hother, h]

/-- **The structure check fails** when the set is misshapen. -/
theorem checkStructure_eq_error_iff {e : CompileError} :
    checkStructure language (sortRules rules) = .error e ↔
      e.language = language ∧ ∃ issue, Misshapen rules issue ∧ e.cause = .malformedSet issue := by
  apply eq_error_iff_of_ok_or
  · rintro ⟨label, cause⟩ ⟨rfl, issue, hissue, rfl⟩
    exact checkStructure_of_misshapen hissue
  · rcases shaped_or_misshapen rules with hshaped | ⟨issue, hissue⟩
    · exact .inl ⟨(), checkStructure_eq_ok_iff_shaped.2 hshaped⟩
    · exact .inr ⟨⟨language, .malformedSet issue⟩, rfl, issue, hissue, rfl⟩

/-! ### The rules in canonical order -/

/-- **Some category fails**: the canonically first whose rule is faulty. -/
theorem resolve_eq_error_iff (hnodup : (rules.map (·.category)).Nodup) {e : CompileError} :
    resolve language (sortRules rules) = .error e ↔ e.language = language ∧
      ∃ r ∈ rules, r.category ≠ .other ∧ r.Faulty e.cause ∧
        ∀ r' ∈ rules, r'.category.rank < r.category.rank → r'.Sound := by
  have hsorted : ((sortRules rules).filter (!·.category.isCatchAll)).Pairwise
      fun a b ↦ a.category.rank < b.category.rank :=
    (pairwise_lt_sortRules hnodup).sublist List.filter_sublist
  rw [resolve, bind_eq_error_iff, or_iff_left (by rintro ⟨_, -, h⟩; cases h), mapM_eq_error_iff,
    exists_leftmost_iff_of_pairwise hsorted Nat.lt_asymm]
  simp only [CategoryRule.resolveRule_eq_error_iff, CategoryRule.exists_resolveRule_iff_sound,
    mem_filter_sortRules]
  constructor
  · rintro ⟨r, ⟨hr, hother⟩, ⟨hlanguage, hfaulty⟩, hfirst⟩
    refine ⟨hlanguage, r, hr, hother, hfaulty, fun r' hr' hlt ↦ hfirst r' ⟨hr', ?_⟩ hlt⟩
    -- nothing comes after the catch-all
    intro hother'
    rw [hother'] at hlt
    exact absurd (Category.rank_lt_of_ne_other hother) (Nat.lt_asymm hlt)
  · rintro ⟨hlanguage, r, hr, hother, hfaulty, hfirst⟩
    exact ⟨r, ⟨hr, hother⟩, ⟨hlanguage, hfaulty⟩, fun r' hr' ↦ hfirst r' hr'.1⟩

/-! ### The selector -/

/-- **No selector can be made** of a single condition that has no negation. -/
theorem assemble_eq_error_iff {resolved : List (Category × Condition)} {e : CompileError} :
    assemble language rules resolved = .error e ↔
      ∃ category c, resolved = [(category, c)] ∧ (∀ d, c.negate ≠ .ok d) ∧
        e = ⟨language, .noNegation category c.text⟩ := by
  rcases resolved with _ | ⟨⟨category, c⟩, _ | ⟨x, rest⟩⟩
  · simp [assemble, Selector.assemble, Except.mapError]
  · cases hnegate : c.negate with
    | ok d => simp [assemble, Selector.assemble, Except.mapError, Except.map, hnegate]
    | error f =>
      obtain rfl : f = .noNegation c.text := by
        rw [Condition.negate] at hnegate
        split at hnegate
        · cases hnegate
        · exact (Except.error.inj hnegate).symm
      simp [assemble, Selector.assemble, Except.mapError, Except.map, hnegate, Fault.inRule, eq_comm]
  · simp [assemble, Selector.assemble, Except.mapError]

/-! ### Samples -/

/-- Every sample list of the rule can be read, and the rules assign each number in it to the
category of the rule. -/
def SamplesAgree (rules : List CategoryRule) (r : CategoryRule) : Prop :=
  ∀ text ∈ r.samples, ∃ list, SampleList.read text = .ok list ∧
    ∀ n ∈ list.numbers, claimant rules n = r.category

/-- **What is wrong with the sample list of a category**, when the rules have this formula. -/
inductive SamplesFault (rules : List CategoryRule) (formula : Selector) (category : Category)
    (text : String) : CompileCause → Prop
  /-- It cannot be read. -/
  | unreadable {fault : SampleFault} (h : SampleList.read text = .error fault) :
      SamplesFault rules formula category text (.badSamples category text fault)
  /-- The number is the first in it that the rules assign to another category. -/
  | misplaced {list : SampleList} {before after : List Nat} {n : Nat}
      (h : SampleList.read text = .ok list) (hnumbers : list.numbers = before ++ n :: after)
      (hbefore : ∀ m ∈ before, claimant rules m = category) (hn : claimant rules n ≠ category) :
      SamplesFault rules formula category text
        (.mismatch formula.text n category (some (claimant rules n))
          ((survivors rules).idxOf (claimant rules n)))

section Samples

variable {resolved : List (Category × Condition)} {formula : Selector}
  (hresolved : resolve language (sortRules rules) = .ok resolved)
  (hnodup : (rules.map (·.category)).Nodup)
  (hformula : Selector.assemble (resolved.map (·.2)) = .ok formula)

include hresolved hnodup hformula

/-- The check of a number compares its category with its claimant. -/
theorem checkSample_eq_ite (category : Category) (n : Nat) :
    checkSample language formula (resolved.map (·.1) ++ [.other]) category n =
      if claimant rules n = category then .ok ()
      else .error ⟨language, .mismatch formula.text n category (some (claimant rules n))
        ((survivors rules).idxOf (claimant rules n))⟩ := by
  simp only [checkSample, getElem?_eval_eq_claimant hresolved hformula, Option.some.injEq]
  rw [eval_eq_idxOf_claimant hresolved hnodup hformula]

/-- **A sample list fails** when there is something wrong with it. -/
theorem checkSamples_eq_error_iff {category : Category} {text : String} {e : CompileError} :
    checkSamples language formula (resolved.map (·.1) ++ [.other]) category text = .error e ↔
      e.language = language ∧ SamplesFault rules formula category text e.cause := by
  obtain ⟨label, cause⟩ := e
  rw [checkSamples]
  cases hread : SampleList.read text with
  | error fault =>
    constructor
    · rintro ⟨⟩
      exact ⟨rfl, .unreadable hread⟩
    · rintro ⟨rfl, h⟩
      cases h with
      | unreadable h => rw [Except.error.inj (hread.symm.trans h)]
      | misplaced h => cases hread.symm.trans h
  | ok list =>
    simp only [forM_eq_error_iff, checkSample_eq_ite hresolved hnodup hformula]
    constructor
    · rintro ⟨before, n, after, hnumbers, hbefore, hn⟩
      split at hn
      next => cases hn
      next hne =>
        cases hn
        refine ⟨rfl, .misplaced hread hnumbers (fun m hm ↦ ?_) hne⟩
        by_contra hm'
        have := hbefore m hm
        rw [if_neg hm'] at this
        cases this
    · rintro ⟨rfl, h⟩
      cases h with
      | unreadable h => cases hread.symm.trans h
      | @misplaced _ before after n h hnumbers hbefore hn =>
        cases hread.symm.trans h
        exact ⟨before, n, after, hnumbers, fun m hm ↦ if_pos (hbefore m hm), if_neg hn⟩

/-- **The samples fail** at the canonically first category with a bad list. -/
theorem forM_checkSamples_eq_error_iff {e : CompileError} :
    (examplesOf (sortRules rules)).entries.forM (fun x ↦
      checkSamples language formula (resolved.map (·.1) ++ [.other]) x.1 x.2) = .error e ↔
    e.language = language ∧ ∃ r ∈ rules, ∃ text, r.samples = some text ∧
      SamplesFault rules formula r.category text e.cause ∧
      ∀ r' ∈ rules, r'.category.rank < r.category.rank → SamplesAgree rules r' := by
  have hordered : (examplesOf (sortRules rules)).entries.Pairwise
      fun a b ↦ a.1.rank < b.1.rank :=
    (examplesOf (sortRules rules)).ordered.imp fun h ↦ Nat.compare_eq_lt.1 h
  rw [forM_eq_error_iff, exists_leftmost_iff_of_pairwise hordered Nat.lt_asymm]
  simp only [checkSamples_eq_error_iff hresolved hnodup hformula,
    checkSamples_eq_ok_iff_claimant hresolved hformula]
  constructor
  · rintro ⟨⟨category, text⟩, he, ⟨hlanguage, hfault⟩, hfirst⟩
    obtain ⟨r, hr, rfl, htext⟩ := (mem_entries_examplesOf hnodup).1 he
    refine ⟨hlanguage, r, hr, text, htext, hfault, fun r' hr' hlt text' htext' ↦ ?_⟩
    have he' : (r'.category, text') ∈ (examplesOf (sortRules rules)).entries :=
      (mem_entries_examplesOf hnodup).2 ⟨r', hr', rfl, htext'⟩
    exact hfirst (r'.category, text') he' hlt
  · rintro ⟨hlanguage, r, hr, text, htext, hfault, hfirst⟩
    refine ⟨(r.category, text), (mem_entries_examplesOf hnodup).2 ⟨r, hr, rfl, htext⟩,
      ⟨hlanguage, hfault⟩, ?_⟩
    rintro ⟨category, text'⟩ he hlt
    obtain ⟨r', hr', rfl, htext'⟩ := (mem_entries_examplesOf hnodup).1 he
    exact hfirst r' hr' hlt text' htext'

end Samples

/-! ### All stages -/

/-- The shape is right and all rules are sound. -/
structure Resolvable (rules : List CategoryRule) : Prop extends Shaped rules where
  /-- Every rule but that of the catch-all is sound. -/
  sound : ∀ r ∈ rules, r.category ≠ .other → r.Sound

/-- **Why rules are rejected.** -/
inductive Rejected (rules : List CategoryRule) : CompileCause → Prop
  /-- Something is wrong with the shape of the set. -/
  | shape {issue : StructureIssue} (h : Misshapen rules issue) :
      Rejected rules (.malformedSet issue)
  /-- The rule is the first, in canonical order, that is faulty. -/
  | rule {r : CategoryRule} {cause : CompileCause} (hshaped : Shaped rules) (hr : r ∈ rules)
      (hother : r.category ≠ .other) (h : r.Faulty cause)
      (hfirst : ∀ r' ∈ rules, r'.category.rank < r.category.rank → r'.Sound) :
      Rejected rules cause
  /-- There are several rules, and none of them survives. -/
  | allDropped (hrules : Resolvable rules) (hmany : 1 < rules.length)
      (h : ∀ r ∈ rules, ¬r.Survives) : Rejected rules (.malformedSet .allDropped)
  /-- Just one rule survives, and its condition has no negation. -/
  | noNegation {r : CategoryRule} {c : Condition} (hrules : Resolvable rules) (hr : r ∈ rules)
      (hsurvives : r.Survives) (honly : ∀ r' ∈ rules, r'.Survives → r' = r)
      (hc : Rule.compileText r.rule = .ok (.when c)) (h : ∀ d, c.negate ≠ .ok d) :
      Rejected rules (.noNegation r.category c.text)
  /-- The sample list is that of the first category, in canonical order, with a bad one. -/
  | samples {formula : Selector} {r : CategoryRule} {text : String} {cause : CompileCause}
      (hrules : Resolvable rules) (hleft : 1 < rules.length → ∃ r ∈ rules, r.Survives)
      (hformula : Selector.assemble (conditions rules) = .ok formula) (hr : r ∈ rules)
      (htext : r.samples = some text) (h : SamplesFault rules formula r.category text cause)
      (hfirst : ∀ r' ∈ rules, r'.category.rank < r.category.rank → SamplesAgree rules r') :
      Rejected rules cause

/-- All categories come to something exactly when their rules are sound. -/
theorem exists_resolve_iff_sound :
    (∃ resolved, resolve language (sortRules rules) = .ok resolved) ↔
      ∀ r ∈ rules, r.category ≠ .other → r.Sound := by
  simp only [exists_resolve_iff, CategoryRule.exists_resolveRule_iff_sound]

/-- Compilation fails only for causes for which the rules are rejected. -/
theorem rejected_of_compile {e : CompileError} (h : compile language rules = .error e) :
    e.language = language ∧ Rejected rules e.cause := by
  rcases compile_eq_error_iff.1 h with h | ⟨hstructure, hrest⟩
  · obtain ⟨hlanguage, issue, hissue, hcause⟩ := checkStructure_eq_error_iff.1 h
    exact ⟨hlanguage, hcause ▸ .shape hissue⟩
  have hshaped := checkStructure_eq_ok_iff_shaped.1 hstructure
  rcases hrest with h | ⟨resolved, hresolved, hrest⟩
  · obtain ⟨hlanguage, r, hr, hother, hfaulty, hfirst⟩ := (resolve_eq_error_iff hshaped.nodup).1 h
    exact ⟨hlanguage, .rule hshaped hr hother hfaulty hfirst⟩
  have hrules : Resolvable rules := ⟨hshaped, exists_resolve_iff_sound.1 ⟨resolved, hresolved⟩⟩
  have hsurvives := resolved_ne_nil_iff hresolved
  rcases hrest with ⟨hmany, hnil, rfl⟩ | ⟨hleft, h | ⟨formula, hformula, h | ⟨-, h⟩⟩⟩
  · refine ⟨rfl, .allDropped hrules hmany fun r hr hr' ↦ ?_⟩
    exact hsurvives.2 ⟨r, hr, hr'⟩ hnil
  · obtain ⟨category, c, hsingle, hnegate, rfl⟩ := assemble_eq_error_iff.1 h
    obtain ⟨r, hr, hr', honly, rfl, hc⟩ :=
      (resolved_eq_singleton_iff hresolved hshaped.nodup).1 hsingle
    exact ⟨rfl, .noNegation hrules hr hr' honly hc hnegate⟩
  · rw [checkFormula_of_assemble hresolved hformula] at h
    cases h
  · obtain ⟨hlanguage, r, hr, text, htext, hfault, hfirst⟩ :=
      (forM_checkSamples_eq_error_iff hresolved hshaped.nodup hformula).1 h
    rw [map_resolved_eq_conditions hresolved] at hformula
    exact ⟨hlanguage, .samples hrules (fun hmany ↦ hsurvives.1 (hleft hmany)) hformula hr htext
      hfault hfirst⟩

/-- Compilation fails for whatever cause the rules are rejected, so there is no more than one. -/
theorem compile_of_rejected {cause : CompileCause} (h : Rejected rules cause) :
    compile language rules = .error ⟨language, cause⟩ := by
  rw [compile_eq_error_iff]
  cases h with
  | shape h => exact .inl (checkStructure_of_misshapen h)
  | rule hshaped hr hother h hfirst =>
    refine .inr ⟨checkStructure_eq_ok_iff_shaped.2 hshaped, .inl ?_⟩
    exact (resolve_eq_error_iff hshaped.nodup).2 ⟨rfl, _, hr, hother, h, hfirst⟩
  | allDropped hrules hmany h =>
    obtain ⟨resolved, hresolved⟩ := exists_resolve_iff_sound.2 hrules.sound
    refine .inr ⟨checkStructure_eq_ok_iff_shaped.2 hrules.toShaped, .inr ⟨resolved, hresolved, ?_⟩⟩
    refine .inl ⟨hmany, Decidable.of_not_not fun hne ↦ ?_, rfl⟩
    obtain ⟨r, hr, hr'⟩ := (resolved_ne_nil_iff hresolved).1 hne
    exact h r hr hr'
  | @noNegation r c hrules hr hsurvives honly hc h =>
    obtain ⟨resolved, hresolved⟩ := exists_resolve_iff_sound.2 hrules.sound
    have hsingle := (resolved_eq_singleton_iff hresolved hrules.nodup).2
      ⟨r, hr, hsurvives, honly, rfl, hc⟩
    refine .inr ⟨checkStructure_eq_ok_iff_shaped.2 hrules.toShaped, .inr ⟨resolved, hresolved,
      .inr ⟨fun _ ↦ hsingle ▸ List.cons_ne_nil _ _, .inl ?_⟩⟩⟩
    exact assemble_eq_error_iff.2 ⟨r.category, c, hsingle, h, rfl⟩
  | samples hrules hleft hformula hr htext h hfirst =>
    obtain ⟨resolved, hresolved⟩ := exists_resolve_iff_sound.2 hrules.sound
    rw [← map_resolved_eq_conditions hresolved] at hformula
    refine .inr ⟨checkStructure_eq_ok_iff_shaped.2 hrules.toShaped, .inr ⟨resolved, hresolved,
      .inr ⟨fun hmany ↦ (resolved_ne_nil_iff hresolved).2 (hleft hmany), .inr ⟨_, hformula,
        .inr ⟨checkFormula_of_assemble hresolved hformula, ?_⟩⟩⟩⟩⟩
    exact (forM_checkSamples_eq_error_iff hresolved hrules.nodup hformula).2
      ⟨rfl, _, hr, _, htext, h, hfirst⟩

/-- A misplaced sample is reported with its claimant and the place of that among the survivors. -/
theorem eq_claimant_of_rejected_mismatch {formula : String} {n index : Nat} {expected : Category}
    {actual : Option Category}
    (h : Rejected rules (.mismatch formula n expected actual index)) :
    actual = some (claimant rules n) ∧ index = (survivors rules).idxOf (claimant rules n) := by
  cases h with
  | rule _ _ _ h => cases h
  | samples _ _ _ _ _ h =>
    cases h
    exact ⟨rfl, rfl⟩

/-- **Compilation fails with the cause for which the rules are rejected**, and under the label of
the language. Where a sample is to blame, the wording names the category that the rules assign to
it, with the place of that category among the survivors. -/
theorem compile_eq_error_iff_rejected (language : String) (rules : List CategoryRule) :
    (∀ e, compile language rules = .error e ↔ e.language = language ∧ Rejected rules e.cause) ∧
    ∀ label formula n expected actual index, compile language rules =
      .error ⟨label, .mismatch formula n expected actual index⟩ →
        CompileCause.destination actual index = "'" ++ (claimant rules n).text ++ "' (" ++
          toString ((survivors rules).idxOf (claimant rules n)) ++ ")" := by
  refine ⟨fun e ↦ ⟨rejected_of_compile, ?_⟩, fun label formula n expected actual index h ↦ ?_⟩
  · rintro ⟨rfl, h⟩
    exact compile_of_rejected h
  · obtain ⟨rfl, rfl⟩ := eq_claimant_of_rejected_mismatch (rejected_of_compile h).2
    rfl

/-- Rules with two lists that are wrong, behind a rule that is dropped. -/
def misplacing : List CategoryRule :=
  [⟨.other, "", some "0, 4"⟩, ⟨.few, "n = 3..5", some "3~5, 7, 1"⟩, ⟨.two, "v != 0", none⟩,
   ⟨.one, "n = 1", some "1"⟩]

/-- The first list that is wrong is that of the second category left, at its fourth number, which
belongs to the third category left. -/
theorem compile_eq_error_iff_rejected_misplacing :
    ∃ e, compile "xx" misplacing = .error e ∧ e.language = "xx" ∧ Rejected misplacing e.cause ∧
      ∃ formula, e.cause = .mismatch formula 7 .few (some .other) 2 ∧
        "'" ++ (claimant misplacing 7).text ++ "' (" ++
          toString ((survivors misplacing).idxOf (claimant misplacing 7)) ++ ")" =
            "'other' (2)" := by
  have herror : (compile "xx" misplacing).map (fun _ ↦ ()) = .error ⟨"xx", .mismatch
      "(n == 1) ? 0 : ((n >= 3 && n <= 5) ? 1 : 2)" 7 .few (some .other) 2⟩ := by decide +kernel
  cases h : compile "xx" misplacing with
  | ok set =>
    rw [h] at herror
    cases herror
  | error e =>
    rw [h] at herror
    cases herror
    obtain ⟨hfails, hnames⟩ := compile_eq_error_iff_rejected "xx" misplacing
    obtain ⟨hlanguage, hrejected⟩ := (hfails _).1 h
    exact ⟨_, rfl, hlanguage, hrejected, _, rfl, (hnames _ _ _ _ _ _ h).symm⟩

end RuleSet

end PluralForms
