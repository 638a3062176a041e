import PluralForms.RuleSet
import PluralForms.Proofs.CanonicalOrder
import PluralForms.Proofs.Rule.Meaning
import PluralForms.Proofs.Table
import PluralForms.Proofs.Traversal

/-!
# The stages of compilation

One statement for each stage of `RuleSet.compile`, saying exactly when the stage succeeds and with
what, in terms that do not mention the stage: the structure check (`checkStructure_eq_ok_iff`), the
rule of one category (`resolveRule_eq_ok_iff`), the sample lists (`checkSamples_eq_ok_iff`,
`entries_examplesOf`). `compile_eq_ok_iff` puts the stages together, and `compile_eq_error_iff` says
which of them fails.
-/

namespace PluralForms.RuleSet

variable {language : String} {rules : List CategoryRule}

/-! ### The structure of a set -/

theorem mem_sortRules {r : CategoryRule} : r ∈ sortRules rules ↔ r ∈ rules :=
  Category.mem_sortBy

theorem length_sortRules (rules : List CategoryRule) : (sortRules rules).length = rules.length :=
  (Category.sortBy_perm rules).length_eq

/-- Sorting keeps the categories apart, or not. -/
theorem nodup_sortRules :
    ((sortRules rules).map (·.category)).Nodup ↔ (rules.map (·.category)).Nodup :=
  ((Category.sortBy_perm rules).map _).nodup_iff

theorem pairwise_le_sortRules (rules : List CategoryRule) :
    (sortRules rules).Pairwise fun a b ↦ a.category.rank ≤ b.category.rank :=
  Category.pairwise_sortBy rules

/-- Rules for different categories have strictly increasing ranks in canonical order. -/
theorem pairwise_lt_sortRules (h : (rules.map (·.category)).Nodup) :
    (sortRules rules).Pairwise fun a b ↦ a.category.rank < b.category.rank := by
  have hne : (sortRules rules).Pairwise fun a b ↦ a.category ≠ b.category :=
    List.pairwise_map.1 (nodup_sortRules.2 h)
  refine ((pairwise_le_sortRules rules).and hne).imp fun ⟨hle, hne⟩ ↦ ?_
  exact Nat.lt_of_le_of_ne hle fun heq ↦ hne (Category.rank_injective heq)

/-- When ranks do not decrease, a rule whose neighbour is for another category is the only one for
its own: a later one would squeeze the neighbour in between. -/
theorem category_notMem_of_ne {a b : CategoryRule} {rest : List CategoryRule}
    (hsorted : (a :: b :: rest).Pairwise fun a b ↦ a.category.rank ≤ b.category.rank)
    (h : a.category ≠ b.category) : a.category ∉ (b :: rest).map (·.category) := by
  obtain ⟨hab, hrest⟩ := List.pairwise_cons.1 hsorted
  intro hmem
  obtain ⟨x, hx, heq⟩ := List.mem_map.1 hmem
  have hbx : b.category.rank ≤ x.category.rank := by
    rcases List.mem_cons.1 hx with rfl | hx
    · exact Nat.le_refl _
    · exact (List.pairwise_cons.1 hrest).1 x hx
  have hle := hab b List.mem_cons_self
  exact h (Category.rank_injective (Nat.le_antisymm hle (heq ▸ hbx)))

/-- When ranks do not decrease, no duplicate among neighbours is no duplicate at all. -/
theorem duplicate?_eq_none_iff {l : List CategoryRule}
    (hsorted : l.Pairwise fun a b ↦ a.category.rank ≤ b.category.rank) :
    duplicate? l = none ↔ l.Pairwise fun a b ↦ a.category ≠ b.category := by
  fun_induction duplicate? l with
  | case1 a b rest h => simp [h]
  | case2 a b rest h ih =>
    have hnot := category_notMem_of_ne hsorted h
    rw [ih (List.pairwise_cons.1 hsorted).2, List.pairwise_cons (a := a)]
    refine (and_iff_right fun x hx heq ↦ hnot ?_).symm
    rw [heq]
    exact List.mem_map_of_mem hx
  | case3 l h =>
    match l, h with
    | [], _ => simp
    | [_], _ => simp
    | _ :: _ :: _, h => exact absurd rfl (h _ _ _)

/-- **Sorted rules have no duplicate** when the rules are for different categories. -/
theorem duplicate?_sortRules_eq_none_iff :
    duplicate? (sortRules rules) = none ↔ (rules.map (·.category)).Nodup := by
  rw [duplicate?_eq_none_iff (pairwise_le_sortRules rules), ← nodup_sortRules]
  exact List.pairwise_map.symm

/-- The last rule in canonical order is one for the catch-all, if there is one. -/
theorem getLast?_sortRules_eq_some {r : CategoryRule} (hr : r ∈ rules)
    (hother : r.category = .other) (hnodup : (rules.map (·.category)).Nodup) :
    (sortRules rules).getLast? = some r := by
  obtain ⟨before, after, hsplit⟩ := List.append_of_mem (mem_sortRules.2 hr)
  cases after with
  | nil => simp [hsplit]
  | cons x after =>
    have hlt := pairwise_lt_sortRules hnodup
    rw [hsplit, List.pairwise_append, List.pairwise_cons] at hlt
    have := hlt.2.1.1 x List.mem_cons_self
    rw [hother] at this
    cases hx : x.category <;> simp [hx, Category.rank] at this

/-- **The structure is sound** when the categories differ and the catch-all has a blank rule. -/
theorem checkStructure_eq_ok_iff :
    checkStructure language (sortRules rules) = .ok () ↔ (rules.map (·.category)).Nodup ∧
      ∃ r ∈ rules, r.category = .other ∧ Text.trim r.rule.toList = [] := by
  rw [← duplicate?_sortRules_eq_none_iff, checkStructure]
  cases hdup : duplicate? (sortRules rules) with
  | some c => simp
  | none =>
    rw [and_iff_right rfl]
    cases hlast : (sortRules rules).getLast? with
    | none =>
      have hnil : rules = [] := by
        rw [← List.length_eq_zero_iff, ← length_sortRules, List.getLast?_eq_none_iff.1 hlast]
        rfl
      simp [hnil]
    | some last =>
      have hmem : last ∈ rules := mem_sortRules.1 (List.mem_of_getLast? hlast)
      constructor
      · intro h
        by_cases hother : last.category = .other
        · by_cases hblank : Text.trim last.rule.toList = []
          · exact ⟨last, hmem, hother, hblank⟩
          · simp [Category.isCatchAll, hother, hblank] at h
        · simp [Category.isCatchAll, hother] at h
      · rintro ⟨r, hr, hother, hblank⟩
        have hnodup := duplicate?_sortRules_eq_none_iff.1 hdup
        have hr := getLast?_sortRules_eq_some hr hother hnodup
        obtain rfl : last = r := Option.some.inj (hlast.symm.trans hr)
        simp [Category.isCatchAll, hother, hblank]

/-! ### The conditions of the categories -/

/-- **One category.** Its rule is read and claims some integers, which gives a condition, or it is
read and claims none, which is fine without samples. -/
theorem resolveRule_eq_ok_iff {r : CategoryRule} {o : Option (Category × Condition)} :
    resolveRule language r = .ok o ↔ ∃ rule, Rule.read r.rule = .ok rule ∧
      ((∃ c, rule.compile = .ok (.when c) ∧ o = some (r.category, c)) ∨
        (rule.claimsNone ∧ r.samples = none ∧ o = none)) := by
  cases hread : Rule.read r.rule with
  | error f => simp [resolveRule, Rule.compileText, hread, bind, Except.bind]
  | ok rule =>
    have htext : Rule.compileText r.rule = rule.compile := by
      simp [Rule.compileText, hread, bind, Except.bind]
    simp only [Except.ok.injEq, exists_eq_left', ← Rule.compile_eq_ok_never_iff]
    rw [resolveRule, htext]
    cases hrule : rule.compile with
    | error f => simp
    | ok t =>
      cases t with
      | always => exact absurd hrule Truth.disjunction_ne_ok_always
      | «when» c => simp [eq_comm]
      | never => cases hsamples : r.samples <;> simp [eq_comm]

/-- What is left of the rules is what each of them comes to, the catch-all aside. -/
theorem resolve_eq_ok_iff {resolved : List (Category × Condition)} :
    resolve language rules = .ok resolved ↔
      ∃ outcomes, List.Forall₂ (fun r o ↦ resolveRule language r = .ok o)
        (rules.filter (!·.category.isCatchAll)) outcomes ∧ resolved = outcomes.filterMap id := by
  rw [resolve, bind_eq_ok_iff]
  refine exists_congr fun outcomes ↦ and_congr mapM_eq_ok_iff ?_
  exact ⟨fun h ↦ (Except.ok.inj h).symm, fun h ↦ congrArg Except.ok h.symm⟩

theorem mem_filter_sortRules {r : CategoryRule} :
    r ∈ (sortRules rules).filter (!·.category.isCatchAll) ↔ r ∈ rules ∧ r.category ≠ .other := by
  simp [mem_sortRules, Category.isCatchAll]

/-- **All categories.** Each of them comes to something, the catch-all aside. -/
theorem exists_resolve_iff :
    (∃ resolved, resolve language (sortRules rules) = .ok resolved) ↔
      ∀ r ∈ rules, r.category ≠ .other → ∃ o, resolveRule language r = .ok o := by
  simp only [resolve_eq_ok_iff]
  constructor
  · rintro ⟨_, outcomes, houtcomes, -⟩ r hr hother
    obtain ⟨o, -, ho⟩ := exists_of_forall₂_of_mem houtcomes (mem_filter_sortRules.2 ⟨hr, hother⟩)
    exact ⟨o, ho⟩
  · intro h
    have hall : ∀ r ∈ (sortRules rules).filter (!·.category.isCatchAll),
        ∃ o, resolveRule language r = .ok o := by
      intro r hr
      obtain ⟨hr, hother⟩ := mem_filter_sortRules.1 hr
      exact h r hr hother
    obtain ⟨outcomes, houtcomes⟩ := exists_forall₂_of_forall_mem hall
    exact ⟨_, outcomes, houtcomes, rfl⟩

/-! ### The selector -/

/-- The rules and the language are for the error only. -/
theorem assemble_eq_ok_iff {resolved : List (Category × Condition)} {formula : Selector} :
    assemble language rules resolved = .ok formula ↔
      Selector.assemble (resolved.map (·.2)) = .ok formula := by
  rw [assemble]
  cases Selector.assemble (resolved.map (·.2)) <;> simp [Except.mapError]

/-! ### Samples -/

section Samples

variable {formula : Selector} {categories : List Category} {category : Category}

/-- **A sample list passes** when it can be read and the formula leads each number in it to the
category. -/
theorem checkSamples_eq_ok_iff {text : String} :
    checkSamples language formula categories category text = .ok () ↔
      ∃ samples, SampleList.read text = .ok samples ∧
        ∀ n ∈ samples.numbers, categories[formula.eval n]? = some category := by
  rw [checkSamples]
  cases SampleList.read text with
  | error fault => simp
  | ok samples =>
    simp only [forM_eq_ok_iff, Except.ok.injEq, exists_eq_left']
    refine forall₂_congr fun n _ ↦ ?_
    rw [checkSample]
    split <;> simp_all

end Samples

/-- Of rules for different categories, the examples are the sample lists in canonical order. -/
theorem entries_examplesOf (h : (rules.map (·.category)).Nodup) :
    (examplesOf (sortRules rules)).entries =
      (sortRules rules).filterMap fun r ↦ r.samples.map (r.category, ·) := by
  refine Table.entries_ofList (List.pairwise_filterMap.2 ?_)
  refine (pairwise_lt_sortRules h).imp fun {a b} hlt x hx y hy ↦ ?_
  obtain ⟨-, -, rfl⟩ := Option.map_eq_some_iff.1 hx
  obtain ⟨-, -, rfl⟩ := Option.map_eq_some_iff.1 hy
  rw [Category.compare_eq]
  exact Nat.compare_eq_lt.2 hlt

/-- The examples of a category are the sample list of its rule. -/
theorem mem_entries_examplesOf (h : (rules.map (·.category)).Nodup) {c : Category}
    {text : String} : (c, text) ∈ (examplesOf (sortRules rules)).entries ↔
      ∃ r ∈ rules, r.category = c ∧ r.samples = some text := by
  rw [entries_examplesOf h, List.mem_filterMap]
  refine exists_congr fun r ↦ and_congr mem_sortRules ?_
  simp [Option.map_eq_some_iff, and_comm]

/-! ### All stages -/

/-- **Compilation succeeds when all stages do**, and the set holds what they came to. -/
theorem compile_eq_ok_iff {set : RuleSet} :
    compile language rules = .ok set ↔
      checkStructure language (sortRules rules) = .ok () ∧
      ∃ resolved, resolve language (sortRules rules) = .ok resolved ∧
        (1 < rules.length → resolved ≠ []) ∧
        ∃ formula, Selector.assemble (resolved.map (·.2)) = .ok formula ∧
          checkFormula language formula = .ok () ∧
          (∀ e ∈ (examplesOf (sortRules rules)).entries,
            checkSamples language formula (resolved.map (·.1) ++ [.other]) e.1 e.2 = .ok ()) ∧
          set = { language, categories := resolved.map (·.1) ++ [.other], formula,
                  examples := examplesOf (sortRules rules) } := by
  rw [compile, bind_unit_eq_ok_iff, bind_eq_ok_iff]
  refine and_congr_right fun _ ↦ exists_congr fun resolved ↦ and_congr_right fun _ ↦ ?_
  simp only [length_sortRules]
  split
  next hdropped =>
    obtain ⟨hlength, rfl⟩ : 1 < rules.length ∧ resolved = [] := by simpa using hdropped
    exact ⟨nofun, fun h ↦ absurd rfl (h.1 hlength)⟩
  next hkept =>
    have hkept : 1 < rules.length → resolved ≠ [] := by simpa using hkept
    rw [and_iff_right hkept, bind_eq_ok_iff]
    refine exists_congr fun formula ↦ and_congr assemble_eq_ok_iff ?_
    rw [bind_unit_eq_ok_iff, bind_unit_eq_ok_iff, forM_eq_ok_iff]
    refine and_congr_right fun _ ↦ and_congr_right fun _ ↦ ?_
    exact ⟨fun h ↦ (Except.ok.inj h).symm, fun h ↦ congrArg Except.ok h.symm⟩

/-- **Compilation fails in the first stage that does**, the earlier ones having come to something. -/
theorem compile_eq_error_iff {e : CompileError} :
    compile language rules = .error e ↔
      checkStructure language (sortRules rules) = .error e ∨
      checkStructure language (sortRules rules) = .ok () ∧
        (resolve language (sortRules rules) = .error e ∨
        ∃ resolved, resolve language (sortRules rules) = .ok resolved ∧
          (1 < rules.length ∧ resolved = [] ∧ e = ⟨language, .malformedSet .allDropped⟩ ∨
          (1 < rules.length → resolved ≠ []) ∧
            (assemble language (sortRules rules) resolved = .error e ∨
            ∃ formula, Selector.assemble (resolved.map (·.2)) = .ok formula ∧
              (checkFormula language formula = .error e ∨
              checkFormula language formula = .ok () ∧
                (examplesOf (sortRules rules)).entries.forM (fun x ↦
                  checkSamples language formula (resolved.map (·.1) ++ [.other]) x.1 x.2) =
                    .error e)))) := by
  rw [compile, bind_unit_eq_error_iff, bind_eq_error_iff]
  refine or_congr_right (and_congr_right fun _ ↦ or_congr_right (exists_congr fun resolved ↦
    and_congr_right fun _ ↦ ?_))
  simp only [length_sortRules]
  split
  next hdropped =>
    obtain ⟨hlength, rfl⟩ : 1 < rules.length ∧ resolved = [] := by simpa using hdropped
    constructor
    · exact fun h ↦ .inl ⟨hlength, rfl, (Except.error.inj h).symm⟩
    · rintro (⟨-, -, rfl⟩ | ⟨hleft, -⟩)
      · rfl
      · exact absurd rfl (hleft hlength)
  next hkept =>
    have hkept : 1 < rules.length → resolved ≠ [] := by simpa using hkept
    rw [or_iff_right fun ⟨hlength, hnil, _⟩ ↦ hkept hlength hnil, and_iff_right hkept,
      bind_eq_error_iff]
    refine or_congr_right (exists_congr fun formula ↦ and_congr assemble_eq_ok_iff ?_)
    rw [bind_unit_eq_error_iff, bind_unit_eq_error_iff]
    refine or_congr_right (and_congr_right fun _ ↦ or_iff_left fun ⟨_, h⟩ ↦ ?_)
    cases h

end PluralForms.RuleSet
