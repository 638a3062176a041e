import PluralForms.Proofs.RuleSet.Success

/-!
# The categories that are left

A rule is dropped when it claims no integer, and what is left are the categories of the other rules
and the catch-all: `RuleSet.survivors`, said of the rules alone. Compilation arrives at this list by
sorting, filtering and appending (`map_resolved_append_eq_survivors`), and the index that the
selector answers with is the place of the count's category in it (`eval_eq_idxOf_claimant`).
-/

namespace PluralForms

/-- Whether the rule survives can be found out by reading it. -/
def CategoryRule.survives (r : CategoryRule) : Bool :=
  !r.category.isCatchAll &&
    match Rule.read r.rule with
    | .ok rule => !rule.claimsNone
    | .error _ => false

theorem CategoryRule.survives_iff {r : CategoryRule} : r.survives = true ↔ r.Survives := by
  rw [survives, Survives, Bool.and_eq_true]
  refine and_congr (by simp [Category.isCatchAll]) ?_
  cases hread : Rule.read r.rule with
  | ok rule =>
    have hspells := Rule.read_eq_ok_iff.1 hread
    constructor
    · exact fun h ↦ ⟨rule, hspells, by simpa using h⟩
    · rintro ⟨rule', hspells', h⟩
      obtain rfl := hspells.unique hspells'
      simpa using h
  | error f =>
    constructor
    · intro h
      cases h
    · rintro ⟨rule, hspells, -⟩
      rw [Rule.read_eq_ok_iff.2 hspells] at hread
      cases hread

/-- The condition of a rule that has one, the catch-all aside. -/
def CategoryRule.condition? (r : CategoryRule) : Option Condition :=
  if r.category.isCatchAll then none
  else (Rule.compileText r.rule).toOption.bind Truth.condition?

/-- The condition of a rule is what it comes to, if it comes to anything. -/
theorem CategoryRule.condition?_of_resolveRule {language : String} {r : CategoryRule}
    (hother : r.category ≠ .other) {o : Option (Category × Condition)}
    (h : RuleSet.resolveRule language r = .ok o) : r.condition? = o.map (·.2) := by
  obtain ⟨rule, hread, ⟨c, hc, rfl⟩ | ⟨hnone, -, rfl⟩⟩ := RuleSet.resolveRule_eq_ok_iff.1 h
  · simp [condition?, Category.isCatchAll, hother, Rule.compileText_of_read hread, hc,
      Except.toOption, Truth.condition?]
  · simp [condition?, Category.isCatchAll, hother, Rule.compileText_of_read hread,
      Rule.compile_eq_ok_never_iff.2 hnone, Except.toOption, Truth.condition?]

namespace RuleSet

variable {language : String} {rules : List CategoryRule}

/-- The conditions of the rules, in canonical order. -/
def conditions (rules : List CategoryRule) : List Condition :=
  (sortRules rules).filterMap (·.condition?)

/-- The categories that a count can have: in canonical order, those with a rule that survives, and
the catch-all. -/
def survivors (rules : List CategoryRule) : List Category :=
  Category.all.filter fun c ↦
    c.isCatchAll || rules.any fun r ↦ r.category == c && r.survives

/-- **A category survives** when it is the catch-all or has a rule that does. -/
theorem mem_survivors {c : Category} :
    c ∈ survivors rules ↔ c = .other ∨ ∃ r ∈ rules, r.category = c ∧ r.Survives := by
  simp [survivors, Category.mem_all, Category.isCatchAll, CategoryRule.survives_iff]

theorem sublist_survivors (rules : List CategoryRule) : (survivors rules).Sublist Category.all :=
  List.filter_sublist

theorem pairwise_survivors (rules : List CategoryRule) :
    (survivors rules).Pairwise (·.rank < ·.rank) :=
  Category.pairwise_all.sublist (sublist_survivors rules)

theorem nodup_survivors (rules : List CategoryRule) : (survivors rules).Nodup :=
  Category.nodup_all.sublist (sublist_survivors rules)

/-- The catch-all comes last. -/
theorem getLast?_survivors (rules : List CategoryRule) :
    (survivors rules).getLast? = some .other := by
  have hall : Category.all = Category.all.dropLast ++ [.other] := rfl
  rw [survivors, hall, List.filter_append]
  exact List.getLast?_concat

/-- What the rules come to is their conditions. -/
theorem map_filterMap_outcomes {outcomes : List (Option (Category × Condition))}
    (h : List.Forall₂ (fun r o ↦ resolveRule language r = .ok o) rules outcomes)
    (hother : ∀ r ∈ rules, r.category ≠ .other) :
    (outcomes.filterMap id).map (·.2) = rules.filterMap (·.condition?) := by
  induction h with
  | nil => rfl
  | @cons r o _ _ hr _ ih =>
    obtain ⟨hne, hother⟩ := List.forall_mem_cons.1 hother
    have hcondition := CategoryRule.condition?_of_resolveRule hne hr
    cases o with
    | none =>
      rw [List.filterMap_cons_none hcondition]
      exact ih hother
    | some e =>
      rw [List.filterMap_cons_some hcondition, ← ih hother]
      rfl

section Resolved

variable {resolved : List (Category × Condition)}
  (hresolved : resolve language (sortRules rules) = .ok resolved)

include hresolved

theorem ne_other_of_mem_resolved {e : Category × Condition} (he : e ∈ resolved) : e.1 ≠ .other := by
  obtain ⟨r, -, hsurvives, hcategory, -⟩ := (mem_resolved_iff hresolved).1 he
  exact hcategory ▸ hsurvives.1

/-- The conditions that are left are those of the rules. -/
theorem map_resolved_eq_conditions : resolved.map (·.2) = conditions rules := by
  obtain ⟨outcomes, houtcomes, rfl⟩ := resolve_eq_ok_iff.1 hresolved
  rw [map_filterMap_outcomes houtcomes fun r hr ↦ (mem_filter_sortRules.1 hr).2, conditions,
    List.filterMap_filter]
  congr 1
  funext r
  by_cases hr : r.category.isCatchAll <;> simp [CategoryRule.condition?, hr]

variable (hnodup : (rules.map (·.category)).Nodup)

include hnodup

/-- The categories that are left are in canonical order, the catch-all behind them. -/
theorem pairwise_map_resolved_append :
    (resolved.map (·.1) ++ [Category.other]).Pairwise (·.rank < ·.rank) := by
  obtain ⟨outcomes, houtcomes, hfilter⟩ := resolve_eq_ok_iff.1 hresolved
  refine List.pairwise_append.2 ⟨?_, List.pairwise_singleton _ _, ?_⟩
  · have hsorted : ((sortRules rules).map (·.category)).Pairwise (·.rank < ·.rank) :=
      List.pairwise_map.2 (pairwise_lt_sortRules hnodup)
    rw [hfilter]
    exact hsorted.sublist ((sublist_resolved houtcomes).trans (List.filter_sublist.map _))
  · intro c hc d hd
    obtain ⟨e, he, rfl⟩ := List.mem_map.1 hc
    obtain rfl := List.mem_singleton.1 hd
    exact Category.rank_lt_of_ne_other (ne_other_of_mem_resolved hresolved he)

/-- **The categories of a compiled set are the survivors.** -/
theorem map_resolved_append_eq_survivors :
    resolved.map (·.1) ++ [.other] = survivors rules := by
  have hpairwise := pairwise_map_resolved_append hresolved hnodup
  have hmem : ∀ c, c ∈ resolved.map (·.1) ++ [Category.other] ↔ c ∈ survivors rules := by
    intro c
    rw [List.mem_append, List.mem_singleton, mem_survivors, or_comm]
    refine or_congr_right ⟨fun hc ↦ ?_, fun ⟨r, hr, hcategory, hsurvives⟩ ↦ ?_⟩
    · obtain ⟨⟨_, condition⟩, he, rfl⟩ := List.mem_map.1 hc
      obtain ⟨r, hr, hsurvives, hcategory, -⟩ := (mem_resolved_iff hresolved).1 he
      exact ⟨r, hr, hcategory, hsurvives⟩
    · obtain ⟨condition, he, -⟩ := exists_mem_resolved hresolved hr hsurvives
      exact hcategory ▸ List.mem_map_of_mem he
  have hperm : (resolved.map (·.1) ++ [Category.other]).Perm (survivors rules) :=
    (List.perm_ext_iff_of_nodup (hpairwise.imp fun hlt heq ↦ (heq ▸ hlt).ne rfl)
      (nodup_survivors rules)).2 hmem
  refine hperm.eq_of_pairwise (fun a b _ _ hab hba ↦ ?_) hpairwise (pairwise_survivors rules)
  exact absurd hab (Nat.lt_asymm hba)

variable {formula : Selector} (hformula : Selector.assemble (resolved.map (·.2)) = .ok formula)

include hformula

/-- **The selector answers with the place of the claimant among the survivors.** -/
theorem eval_eq_idxOf_claimant (n : Nat) :
    formula.eval n = (survivors rules).idxOf (claimant rules n) := by
  have hclaimant := getElem?_eval_eq_claimant hresolved hformula n
  rw [map_resolved_append_eq_survivors hresolved hnodup] at hclaimant
  obtain ⟨hlt, heq⟩ := List.getElem?_eq_some_iff.1 hclaimant
  rw [← heq, (nodup_survivors rules).idxOf_getElem]

end Resolved

end RuleSet

end PluralForms
