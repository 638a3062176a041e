import PluralForms.Proofs.Condition.Negatable
import PluralForms.Proofs.Relation.Opposite
import PluralForms.Proofs.RuleSet.Canonical

/-!
# Languages of two categories

Many languages tell just two categories apart, and do so by a single relation: `n = 1` or
`n = 0..1`. The formula of such a language is a negated condition, and one expects to find in it the
condition of the opposite relation. So it is (`negate_agrees_with_opposite`), with two exceptions.
One is the condition `n == 0 || n == 1 || n >= 11 && n <= 99`, whose complement is written by hand.
The other comes from the order of the steps: the condition of a rule is reduced before it is
negated, and `n != 0 && n != 1` is reduced to `n > 1`, so the formula is `n <= 1` and not
`n == 0 || n == 1`.
-/

namespace PluralForms

/-! ### Rules of one relation -/

namespace Condition

/-- Flattening changes nothing about a canonical condition on its own. -/
theorem Canonical.conj_singleton {c : Condition} (h : c.Canonical) : conj [c] = c := by
  rw [conj, List.flatMap_singleton]
  cases h with
  | all hlen =>
    rw [conjuncts]
    split
    next => simp at hlen
    next => rfl
  | _ => rfl

theorem Canonical.disj_singleton {c : Condition} (h : c.Canonical) : disj [c] = c := by
  rw [disj, List.flatMap_singleton]
  cases h with
  | any hlen =>
    rw [disjuncts]
    split
    next => simp at hlen
    next => rfl
  | _ => rfl

end Condition

/-- A rule of one relation comes to the reduced condition of the relation. -/
theorem Rule.compile_singleton {r : Relation} (hvalid : r.Valid)
    (hsubject : r.subject.isAlwaysZero = false) :
    Rule.compile [[r]] = .ok (.when r.condition.reduce) := by
  have hcompile := Relation.compile_eq_when hsubject
  have hcanonical := hvalid.canonical_of_compile hcompile
  have hgroup : Truth.conjunction [r.compile] = .when r.condition.reduce := by
    rw [hcompile]
    show Truth.when (Condition.conj [r.condition]).reduce = _
    rw [hcanonical.conj_singleton]
  show Truth.disjunction [Truth.conjunction [r.compile]] = _
  rw [hgroup]
  show Except.ok (Truth.when (Condition.disj [r.condition.reduce])) = _
  rw [(Condition.canonical_reduce hcanonical).disj_singleton]

/-! ### Formulas for two categories -/

namespace RuleSet

variable {language : String}

/-- **The formula of a language with two categories** is the negated condition of either rule that
has one. -/
theorem formula_of_plurals_eq_two {rules : List CategoryRule} {set : RuleSet}
    (h : compile language rules = .ok set) (htwo : set.plurals = 2) {x : CategoryRule}
    (hx : x ∈ rules) (hother : x.category ≠ .other) {c : Condition}
    (hc : Rule.compileText x.rule = .ok (.when c)) :
    ∃ d, c.negate = .ok d ∧ set.formula = .binary d := by
  obtain ⟨-, resolved, hresolved, -, formula, hformula, -, -, rfl⟩ := compile_eq_ok_iff.1 h
  have hlength : resolved.length = 1 := by simpa [plurals] using htwo
  obtain ⟨e, rfl⟩ := List.length_eq_one_iff.1 hlength
  have hmem : (x.category, c) ∈ [e] :=
    (mem_resolved_iff hresolved).2 ⟨x, hx, survives_of_compileText hother hc, rfl, hc⟩
  obtain rfl := List.mem_singleton.1 hmem
  exact Selector.assemble_singleton_eq_ok_iff.1 hformula

/-- A rule without samples, and the catch-all. -/
def pair (category : Category) (rule : String) : List CategoryRule :=
  [⟨category, rule, none⟩, ⟨.other, "", none⟩]

section Pair

variable {category : Category} {rule : String} (hother : category ≠ .other)

theorem eq_of_mem_pair {r : CategoryRule} (hr : r ∈ pair category rule)
    (hne : r.category ≠ .other) : r = ⟨category, rule, none⟩ := by
  rcases List.mem_pair.1 hr with rfl | rfl
  · rfl
  · exact absurd rfl hne

include hother

theorem nodup_pair : ((pair category rule).map (·.category)).Nodup := by
  simp [pair, hother]

variable {c d : Condition} (hc : Rule.compileText rule = .ok (.when c)) (hd : c.negate = .ok d)

include hc hd

/-- A rule with a condition that can be negated compiles next to the catch-all. -/
theorem compilable_pair : Compilable (pair category rule) := by
  obtain ⟨parsed, hread, hparsed⟩ := bind_eq_ok_iff.1 hc
  have hspells := Rule.read_eq_ok_iff.1 hread
  refine ⟨nodup_pair hother, ⟨⟨.other, "", none⟩, by simp [pair], rfl, by simp [Text.Blank]⟩,
    ?_, ?_, by simp [pair], fun _ ↦ ⟨_, List.mem_cons_self, survives_of_compileText hother hc⟩,
    ?_, by simp [pair]⟩
  · intro r hr hne
    obtain rfl := eq_of_mem_pair hr hne
    exact ⟨parsed, hspells⟩
  · intro r hr hne parsed' hspells'
    obtain rfl := eq_of_mem_pair hr hne
    rw [hspells'.unique hspells]
    exact (Rule.exists_compile_eq_when_iff.1 ⟨c, hparsed⟩).1
  · intro r hr hsurvives _
    obtain rfl := eq_of_mem_pair hr hsurvives.1
    exact ⟨c, d, hc, hd⟩

/-- **A pair of rules compiles** to a set of two categories if the rule comes to a condition that
can be negated. -/
theorem exists_compile_pair (language : String) :
    ∃ set, compile language (pair category rule) = .ok set ∧ set.plurals = 2 := by
  obtain ⟨set, hset⟩ := (compilable_pair hother hc hd).exists_compile language
  refine ⟨set, hset, ?_⟩
  obtain ⟨-, resolved, hresolved, -, formula, -, -, -, rfl⟩ := compile_eq_ok_iff.1 hset
  have hsingle : resolved = [(category, c)] :=
    (resolved_eq_singleton_iff hresolved (nodup_pair hother)).2
      ⟨_, List.mem_cons_self, survives_of_compileText hother hc,
        fun r hr hsurvives ↦ eq_of_mem_pair hr hsurvives.1, rfl, hc⟩
  rw [plurals, hsingle]
  rfl

end Pair

end RuleSet

namespace Relation

open Condition (complements countIs)

variable {r : Relation}

theorem Valid.opposite (h : r.Valid) : r.opposite.Valid :=
  ⟨h.modulus, h.values_ne_nil, h.values⟩

/-- **Outside the table of complements, the negation is the condition of the opposite.** -/
theorem negate_condition (h : r.condition ∉ complements.map Prod.fst) :
    r.condition.negate = .ok r.opposite.condition.reduce := by
  have hlookup : complements.lookup r.condition = none := by
    refine List.lookup_eq_none_iff.2 fun row hrow ↦ bne_iff_ne.2 fun heq ↦ h ?_
    exact heq ▸ List.mem_map_of_mem hrow
  refine Condition.negate_eq_ok_iff.2 ⟨r.opposite.condition, ?_, rfl⟩
  rw [hlookup, Option.none_or, complement?_condition]

/-- The language has two categories, and the rule of one of them is the relation. -/
structure Decides (r : Relation) (language : String) (rules : List CategoryRule) (set : RuleSet) :
    Prop where
  /-- The rules compile to the set. -/
  compile : RuleSet.compile language rules = .ok set
  /-- There are two categories. -/
  plurals : set.plurals = 2
  /-- The relation is the rule of a category other than the catch-all. -/
  rule : ∃ x ∈ rules, x.category ≠ .other ∧ Rule.read x.rule = .ok [[r]]

/-- **The formula of two categories is the negation of the reduced condition** of the relation. -/
theorem Decides.exists_negate {language : String} {rules : List CategoryRule} {set : RuleSet}
    (h : r.Decides language rules set) (hvalid : r.Valid)
    (hsubject : r.subject.isAlwaysZero = false) :
    ∃ d, r.condition.reduce.negate = .ok d ∧ set.formula = .binary d := by
  obtain ⟨x, hx, hother, hread⟩ := h.rule
  refine RuleSet.formula_of_plurals_eq_two h.compile h.plurals hx hother ?_
  rw [Rule.compileText_of_read hread, Rule.compile_singleton hvalid hsubject]

/-- The condition of a rule is reduced before it is negated. That makes a difference for one
relation. -/
theorem negate_reduce_condition (h : r.condition ∉ complements.map Prod.fst) :
    r.condition.reduce.negate =
      .ok (if r.condition = .all [countIs .ne 0, countIs .ne 1]
        then countIs .le 1 else r.opposite.condition.reduce) := by
  split
  next heq =>
    rw [heq]
    decide
  next hne =>
    rw [(reduce_condition r).resolve_right hne]
    exact negate_condition h

/-- The condition of a relation can be negated, reduced or not. -/
theorem exists_negate_condition (r : Relation) :
    (∃ d, r.condition.negate = .ok d) ∧ ∃ d, r.condition.reduce.negate = .ok d := by
  have hnegate : ∃ d, r.condition.negate = .ok d :=
    Condition.exists_negate_iff.2 ⟨_, complement?_condition r⟩
  refine ⟨hnegate, ?_⟩
  rcases reduce_condition r with hsame | hreduced
  · rwa [hsame]
  · rw [hreduced]
    exact ⟨countIs .le 1, by decide⟩

/-- **Negation agrees with the opposite relation.** Both a relation on the number itself and its
opposite have a condition, and that of the relation always has a negation. Unless its complement is
written by hand, the negation is the reduced condition of the opposite, which is what the rule of
the opposite comes to.

So a language that tells two categories apart by the relation has in its formula what the rule of
the opposite comes to, except for the relation whose condition is `n != 0 && n != 1`: it is reduced
to `n > 1` first, and the formula is `n <= 1`. There are such languages for every relation. -/
theorem negate_agrees_with_opposite {text : String} (h : read text = .ok r)
    (hsubject : r.subject = .n ∨ r.subject = .i) :
    (r.compile = .when r.condition ∧ r.opposite.compile = .when r.opposite.condition) ∧
    (∃ d, r.condition.negate = .ok d) ∧
    (r.condition ∉ complements.map Prod.fst →
      r.condition.negate = .ok r.opposite.condition.reduce) ∧
    Rule.compile [[r.opposite]] = .ok (.when r.opposite.condition.reduce) ∧
    (∀ language category rule, category ≠ .other → Rule.read rule = .ok [[r]] →
      ∃ set, r.Decides language (RuleSet.pair category rule) set) ∧
    ∀ language rules set, r.Decides language rules set →
      r.condition ∉ complements.map Prod.fst → set.formula =
        .binary (if r.condition = .all [countIs .ne 0, countIs .ne 1]
          then countIs .le 1 else r.opposite.condition.reduce) := by
  have hvalid := valid_of_read h
  have hzero : r.subject.isAlwaysZero = false := by
    rcases hsubject with hn | hi
    · rw [hn]; rfl
    · rw [hi]; rfl
  have hcompile := Rule.compile_singleton hvalid hzero
  refine ⟨⟨compile_eq_when hzero, compile_eq_when hzero⟩, (exists_negate_condition r).1,
    negate_condition, Rule.compile_singleton hvalid.opposite hzero, ?_, ?_⟩
  · intro language category rule hother hread
    obtain ⟨d, hd⟩ := (exists_negate_condition r).2
    rw [← Rule.compileText_of_read hread] at hcompile
    obtain ⟨set, hset, htwo⟩ := RuleSet.exists_compile_pair hother hcompile hd language
    exact ⟨set, hset, htwo, _, List.mem_cons_self, hother, hread⟩
  · intro language rules set hdecides hkeys
    obtain ⟨d, hd, hformula⟩ := hdecides.exists_negate hvalid hzero
    obtain rfl := Except.ok.inj ((negate_reduce_condition hkeys).symm.trans hd)
    exact hformula

/-- A relation with a range of its bounds, a single value and a range of two numbers. -/
def assorted : Relation :=
  ⟨.i, some 10, false, [.range 2 4, .single 7, .range 11 12]⟩

/-- The negation of its condition, and the formula of a language with this rule, is the condition of
`i % 10 != 2..4, 7, 11..12`. -/
theorem negate_agrees_with_opposite_assorted :
    read "i % 10 = 2..4, 7, 11..12" = .ok assorted ∧
    assorted.condition.negate = .ok assorted.opposite.condition ∧
    assorted.opposite.condition = .all
      [.any [.compare (.remainder 10) .lt 2, .compare (.remainder 10) .gt 4],
        .compare (.remainder 10) .ne 7, .compare (.remainder 10) .ne 11,
        .compare (.remainder 10) .ne 12] ∧
    ∃ set, assorted.Decides "xx" (RuleSet.pair .few "i % 10 = 2..4, 7, 11..12") set ∧
      set.formula = .binary assorted.opposite.condition := by
  have hread : read "i % 10 = 2..4, 7, 11..12" = .ok assorted := by decide +kernel
  have hrule : Rule.read "i % 10 = 2..4, 7, 11..12" = .ok [[assorted]] := by decide +kernel
  have hkeys : assorted.condition ∉ complements.map Prod.fst := by decide
  have hreduce : assorted.opposite.condition.reduce = assorted.opposite.condition := by decide
  obtain ⟨-, -, hnegate, -, hexists, hformula⟩ :=
    negate_agrees_with_opposite hread (Or.inr rfl)
  obtain ⟨set, hset⟩ := hexists "xx" .few _ (by decide) hrule
  have hne : assorted.condition ≠ .all [countIs .ne 0, countIs .ne 1] := by decide
  refine ⟨hread, ?_, by decide, set, hset, ?_⟩
  · rw [hnegate hkeys, hreduce]
  · rw [hformula _ _ _ hset hkeys, if_neg hne, hreduce]

/-- A number other than zero and one. -/
def neither : Relation :=
  ⟨.n, none, true, [.single 0, .single 1]⟩

/-- The formula of a language with the rule `n != 0,1` is `n <= 1`, while the rule `n = 0,1` comes
to `n == 0 || n == 1`, which is also the negation of the condition of `n != 0,1` before it is
reduced. -/
theorem formula_ne_opposite_neither :
    read "n != 0,1" = .ok neither ∧
    neither.condition ∉ complements.map Prod.fst ∧
    neither.condition.negate = .ok (.any [countIs .eq 0, countIs .eq 1]) ∧
    Rule.compile [[neither.opposite]] =
      .ok (.when (.any [countIs .eq 0, countIs .eq 1])) ∧
    ∃ set, neither.Decides "xx" (RuleSet.pair .one "n != 0,1") set ∧
      set.formula = .binary (countIs .le 1) ∧
      set.formula ≠ .binary (.any [countIs .eq 0, countIs .eq 1]) := by
  have hread : read "n != 0,1" = .ok neither := by decide +kernel
  have hrule : Rule.read "n != 0,1" = .ok [[neither]] := by decide +kernel
  have htext : Rule.compileText "n != 0,1" = .ok (.when (countIs .gt 1)) := by
    rw [Rule.compileText_of_read hrule]
    decide
  have hnegate : (countIs .gt 1).negate = .ok (countIs .le 1) := by decide
  have hother : Category.one ≠ .other := by decide
  obtain ⟨set, hset, htwo⟩ := RuleSet.exists_compile_pair hother htext hnegate "xx"
  obtain ⟨d, hd, hformula⟩ :=
    RuleSet.formula_of_plurals_eq_two hset htwo List.mem_cons_self hother htext
  obtain rfl := Except.ok.inj (hnegate.symm.trans hd)
  refine ⟨hread, by decide, by decide, by decide, set,
    ⟨hset, htwo, _, List.mem_cons_self, hother, hrule⟩, hformula, ?_⟩
  rw [hformula]
  decide

end Relation

end PluralForms
