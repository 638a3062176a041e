import Mathlib.Data.List.Duplicate
import Mathlib.Data.List.Nodup
import Mathlib.Data.List.Perm.Basic
import PluralForms.Proofs.RuleSet.Stages

/-!
# The order of the rules does not matter

Compilation starts by sorting the rules, and from then on it sees the sorted list alone. The sort is
stable: rules for the same category keep the order in which they were given, so a sorted list may
still depend on the given one. It does so only when some category has two rules, and then the
structure check ends everything with an error that names a category and shows no rule: it is the
first category, in canonical order, that has two rules (`duplicate?_sortRules_eq_some_iff`).

So either the sorted lists are the same (`sortRules_eq_of_perm`), or the errors are.
-/

namespace PluralForms.RuleSet

variable {language : String} {rules rules' : List CategoryRule}

/-- Two rules are for the category, and no category before it has two. -/
structure FirstRepeated (rules : List CategoryRule) (c : Category) : Prop where
  /-- Two rules are for the category. -/
  repeated : List.Duplicate c (rules.map (·.category))
  /-- Other categories that have two rules come later. -/
  first : ∀ d, List.Duplicate d (rules.map (·.category)) → c.rank ≤ d.rank

/-- The order of the rules has no part in which category is repeated. -/
theorem duplicate_iff_of_perm (h : rules.Perm rules') {c : Category} :
    List.Duplicate c (rules.map (·.category)) ↔ List.Duplicate c (rules'.map (·.category)) := by
  rw [List.duplicate_iff_two_le_count, List.duplicate_iff_two_le_count, (h.map _).count_eq]

/-- The first category with two rules does not depend on their order. -/
theorem firstRepeated_iff_of_perm (h : rules.Perm rules') {c : Category} :
    FirstRepeated rules c ↔ FirstRepeated rules' c := by
  constructor
  · rintro ⟨hc, hfirst⟩
    exact ⟨(duplicate_iff_of_perm h).1 hc, fun d hd ↦ hfirst d ((duplicate_iff_of_perm h).2 hd)⟩
  · rintro ⟨hc, hfirst⟩
    exact ⟨(duplicate_iff_of_perm h).2 hc, fun d hd ↦ hfirst d ((duplicate_iff_of_perm h).1 hd)⟩

/-- When ranks do not decrease, the first duplicate among neighbours is the first of all. -/
theorem duplicate?_eq_some_iff {l : List CategoryRule}
    (hsorted : l.Pairwise fun a b ↦ a.category.rank ≤ b.category.rank) {c : Category} :
    duplicate? l = some c ↔ FirstRepeated l c := by
  fun_induction duplicate? l with
  | case1 a b rest h =>
    have hleast : ∀ d ∈ (a :: b :: rest).map (·.category), a.category.rank ≤ d.rank := by
      intro d hd
      obtain ⟨x, hx, rfl⟩ := List.mem_map.1 hd
      rcases List.mem_cons.1 hx with rfl | hx
      · exact Nat.le_refl _
      · exact (List.pairwise_cons.1 hsorted).1 x hx
    have hrepeated : List.Duplicate a.category ((a :: b :: rest).map (·.category)) :=
      .cons_mem (by simp [h])
    constructor
    · intro hsome
      obtain rfl := Option.some.inj hsome
      exact ⟨hrepeated, fun d hd ↦ hleast d hd.mem⟩
    · rintro ⟨hc, hfirst⟩
      have hrank := Nat.le_antisymm (hleast c hc.mem) (hfirst _ hrepeated)
      exact congrArg some (Category.rank_injective hrank)
  | case2 a b rest h ih =>
    -- the first rule is alone with its category, so the duplicates are those of the rest
    have hrest : ∀ d, List.Duplicate d ((a :: b :: rest).map (·.category)) ↔
        List.Duplicate d ((b :: rest).map (·.category)) := by
      intro d
      rw [List.map_cons, List.duplicate_cons_iff]
      apply or_iff_right
      rintro ⟨rfl, hd⟩
      exact category_notMem_of_ne hsorted h hd
    rw [ih (List.pairwise_cons.1 hsorted).2]
    constructor
    · rintro ⟨hc, hfirst⟩
      exact ⟨(hrest c).2 hc, fun d hd ↦ hfirst d ((hrest d).1 hd)⟩
    · rintro ⟨hc, hfirst⟩
      exact ⟨(hrest c).1 hc, fun d hd ↦ hfirst d ((hrest d).2 hd)⟩
  | case3 l h =>
    constructor
    · intro hsome
      cases hsome
    · rintro ⟨hc, -⟩
      rcases l with _ | ⟨a, _ | ⟨b, rest⟩⟩
      · exact hc.elim_nil.elim
      · exact hc.elim_singleton.elim
      · exact absurd rfl (h a b rest)

/-- **The duplicate that is reported** is the first category, in canonical order, with two rules. -/
theorem duplicate?_sortRules_eq_some_iff {c : Category} :
    duplicate? (sortRules rules) = some c ↔ FirstRepeated rules c := by
  rw [duplicate?_eq_some_iff (pairwise_le_sortRules rules)]
  exact firstRepeated_iff_of_perm (Category.sortBy_perm rules)

/-- **Rules for different categories are sorted in one way.** -/
theorem sortRules_eq_of_perm (h : rules.Perm rules') (hnodup : (rules.map (·.category)).Nodup) :
    sortRules rules = sortRules rules' := by
  have hperm : (sortRules rules).Perm (sortRules rules') :=
    ((Category.sortBy_perm rules).trans h).trans (Category.sortBy_perm rules').symm
  refine hperm.eq_of_pairwise ?_ (pairwise_le_sortRules rules) (pairwise_le_sortRules rules')
  intro a b ha hb hab hba
  have hsame : a.category = b.category := Category.rank_injective (Nat.le_antisymm hab hba)
  exact List.inj_on_of_nodup_map hnodup (mem_sortRules.1 ha) (h.mem_iff.2 (mem_sortRules.1 hb)) hsame

/-- A category with two rules is the end of it. -/
theorem compile_eq_of_duplicate? {c : Category} (h : duplicate? (sortRules rules) = some c) :
    compile language rules = .error ⟨language, .malformedSet (.duplicated c)⟩ := by
  rw [compile, checkStructure, h]
  rfl

/-- **Compilation does not see the order of the rules.** -/
theorem compile_eq_of_perm (h : rules.Perm rules') :
    compile language rules = compile language rules' := by
  cases hdup : duplicate? (sortRules rules) with
  | none =>
    rw [compile, compile, sortRules_eq_of_perm h (duplicate?_sortRules_eq_none_iff.1 hdup)]
  | some c =>
    have hdup' : duplicate? (sortRules rules') = some c := by
      rw [duplicate?_sortRules_eq_some_iff] at hdup ⊢
      exact (firstRepeated_iff_of_perm h).1 hdup
    rw [compile_eq_of_duplicate? hdup, compile_eq_of_duplicate? hdup']

/-- Entries in another order are taken apart into the same rules in another order. -/
theorem exists_perm_of_mapM_ofEntry {entries entries' : List (String × String)}
    (h : entries.Perm entries')
    (hrules : (entries.mapM fun (key, raw) ↦ CategoryRule.ofEntry language key raw) = .ok rules) :
    ∃ rules', (entries'.mapM fun (key, raw) ↦ CategoryRule.ofEntry language key raw) = .ok rules' ∧
      rules'.Perm rules := by
  obtain ⟨rules', hrules', hperm⟩ := List.perm_comp_forall₂ h.symm (mapM_eq_ok_iff.1 hrules)
  exact ⟨rules', mapM_eq_ok_iff.2 hrules', hperm⟩

/-- **The order of the input does not matter.** Rules in another order compile to the same set or
fail with the same error, duplicates among them or not. So do entries in another order, as long as
each of them can be taken apart; where several cannot, the first one in the given order decides the
error. -/
theorem outcome_eq_of_perm (language : String) :
    (∀ rules rules' : List CategoryRule, rules.Perm rules' →
      compile language rules = compile language rules') ∧
    ∀ entries entries' : List (String × String), entries.Perm entries' →
      (∀ e ∈ entries, ∃ r, CategoryRule.ofEntry language e.1 e.2 = .ok r) →
        compileEntries language entries = compileEntries language entries' := by
  refine ⟨fun rules rules' h ↦ compile_eq_of_perm h, fun entries entries' h hentries ↦ ?_⟩
  obtain ⟨rules, hrules⟩ := exists_forall₂_of_forall_mem hentries
  have hrules : (entries.mapM fun (key, raw) ↦ CategoryRule.ofEntry language key raw) = .ok rules :=
    mapM_eq_ok_iff.2 hrules
  obtain ⟨rules', hrules', hperm⟩ := exists_perm_of_mapM_ofEntry h hrules
  rw [compileEntries, compileEntries, hrules, hrules']
  exact compile_eq_of_perm hperm.symm

/-- Two categories have two rules each. -/
def clashing : List CategoryRule :=
  [⟨.few, "n = 3", none⟩, ⟨.one, "n = 1", none⟩, ⟨.few, "n in 4", none⟩, ⟨.other, "", none⟩,
   ⟨.one, "v = 0", some "5"⟩]

/-- Entries with the catch-all first. -/
def otherFirst : List (String × String) :=
  [("pluralRule-count-other", " @integer 0, 2~16"), ("one", "i = 1 and v = 0 @integer 1")]

/-- Clashing rules fail alike from either end, and entries compile alike from either end. -/
theorem outcome_eq_of_perm_reversed :
    (clashing.Perm clashing.reverse ∧ compile "xx" clashing.reverse =
      .error ⟨"xx", .malformedSet (.duplicated .one)⟩) ∧
    otherFirst.Perm otherFirst.reverse ∧
      (∀ e ∈ otherFirst, ∃ r, CategoryRule.ofEntry "en" e.1 e.2 = .ok r) ∧
      compileEntries "en" otherFirst = compileEntries "en" otherFirst.reverse := by
  have hentries : ∀ e ∈ otherFirst, ∃ r, CategoryRule.ofEntry "en" e.1 e.2 = .ok r := by
    refine List.forall_mem_cons.2 ⟨⟨⟨.other, "", some "0, 2~16"⟩, by decide +kernel⟩, ?_⟩
    exact List.forall_mem_singleton.2 ⟨⟨.one, "i = 1 and v = 0", some "1"⟩, by decide +kernel⟩
  have hclash : clashing.Perm clashing.reverse := (List.reverse_perm clashing).symm
  have hother : otherFirst.Perm otherFirst.reverse := (List.reverse_perm otherFirst).symm
  refine ⟨⟨hclash, ?_⟩, hother, hentries, (outcome_eq_of_perm "en").2 _ _ hother hentries⟩
  rw [← (outcome_eq_of_perm "xx").1 _ _ hclash]
  rfl

end PluralForms.RuleSet
