import PluralForms.Proofs.RuleSet.Failure
import PluralForms.Proofs.RuleSet.Invariant

/-!
# Guards that never fire

Behind the selector stand checks that are there in case something before them went wrong: that the
text of the formula is nothing but arithmetic, that the formula tells apart as many categories as
are listed, that the list is canonical, and that the index of a sample is one of the list. Nothing
goes wrong before them. `prepare` is compilation up to this point, `finish` is what is left, and all
that `prepare` can hand over is `Prepared.Sound`, whether or not the samples pass afterwards.
-/

namespace PluralForms.RuleSet

variable {language : String} {rules : List CategoryRule}

/-! ### The point where the guards stand -/

/-- What the rules have come to when the selector is there and nothing of it has been checked. -/
structure Prepared where
  /-- The categories that are left, and the catch-all. -/
  categories : List Category
  /-- The formula that tells them apart. -/
  formula : Selector

/-- Compilation up to the selector. -/
def prepare (language : String) (rules : List CategoryRule) : Except CompileError Prepared := do
  let rules := sortRules rules
  checkStructure language rules
  let resolved ← resolve language rules
  if 1 < rules.length && resolved.isEmpty then
    throw ⟨language, .malformedSet .allDropped⟩
  let formula ← assemble language rules resolved
  return { categories := resolved.map (·.1) ++ [.other], formula }

/-- The checks on the selector, and the set if they pass. -/
def finish (language : String) (rules : List CategoryRule) (prepared : Prepared) :
    Except CompileError RuleSet := do
  checkFormula language prepared.formula
  let examples := examplesOf (sortRules rules)
  examples.entries.forM fun (category, text) ↦
    checkSamples language prepared.formula prepared.categories category text
  return { language, categories := prepared.categories, formula := prepared.formula, examples }

/-- Compilation passes through `prepare`. -/
theorem compile_eq_prepare_bind_finish (language : String) (rules : List CategoryRule) :
    compile language rules = prepare language rules >>= finish language rules := by
  simp only [compile, prepare, bind_assoc]
  refine bind_congr fun _ ↦ bind_congr fun resolved ↦ ?_
  split
  next => rfl
  next => simp only [bind_assoc, pure_bind, finish]

/-- **The guards are reached** when the stages before them have all come to something. -/
theorem prepare_eq_ok_iff {prepared : Prepared} :
    prepare language rules = .ok prepared ↔
      checkStructure language (sortRules rules) = .ok () ∧
      ∃ resolved, resolve language (sortRules rules) = .ok resolved ∧
        (1 < rules.length → resolved ≠ []) ∧
        ∃ formula, Selector.assemble (resolved.map (·.2)) = .ok formula ∧
          prepared = { categories := resolved.map (·.1) ++ [.other], formula } := by
  rw [prepare, bind_unit_eq_ok_iff, bind_eq_ok_iff]
  refine and_congr_right fun _ ↦ exists_congr fun resolved ↦ and_congr_right fun _ ↦ ?_
  simp only [length_sortRules]
  split
  next hdropped =>
    obtain ⟨hlength, rfl⟩ : 1 < rules.length ∧ resolved = [] := by simpa using hdropped
    constructor
    · intro h
      cases h
    · exact fun h ↦ absurd rfl (h.1 hlength)
  next hkept =>
    have hkept : 1 < rules.length → resolved ≠ [] := by simpa using hkept
    rw [and_iff_right hkept, bind_eq_ok_iff]
    refine exists_congr fun formula ↦ and_congr assemble_eq_ok_iff ?_
    exact ⟨fun h ↦ (Except.ok.inj h).symm, fun h ↦ congrArg Except.ok h.symm⟩

/-! ### What the guards find -/

/-- The characters of a formula are digits, the letter of the count, blanks and the signs of the
operators. -/
def isFormulaCharacter (c : Char) : Bool :=
  c.isDigit || "n %!=<>&|()?:".toList.contains c

theorem isFormulaCharacter_of_mem {c : Char} (h : c ∈ formulaCharacters) :
    isFormulaCharacter c = true := by
  have hall : formulaCharacters.all isFormulaCharacter = true := by decide +kernel
  exact List.all_eq_true.1 hall c h

/-- **Nothing for a guard to find.** -/
structure Prepared.Sound (prepared : Prepared) : Prop where
  /-- The formula has a text. -/
  text_ne_empty : prepared.formula.text ≠ ""
  /-- The text is nothing but arithmetic. -/
  arithmetic : ∀ c ∈ prepared.formula.text.toList, isFormulaCharacter c = true
  /-- The formula tells apart as many categories as are listed. -/
  categoryCount : prepared.formula.categoryCount = prepared.categories.length
  /-- The categories are in canonical order and end in the catch-all. -/
  isCanonical : Category.isCanonical prepared.categories = true
  /-- The formula leads every count to a category of the list. -/
  eval_lt : ∀ n, prepared.formula.eval n < prepared.categories.length

/-- The survivors pass the guard on the order of the categories. -/
theorem isCanonical_survivors (rules : List CategoryRule) :
    Category.isCanonical (survivors rules) = true := by
  simp [Category.isCanonical, pairwise_survivors rules, getLast?_survivors rules]

/-- **What is prepared is sound**, also if the samples are going to be refused. -/
theorem Prepared.sound_of_prepare {prepared : Prepared}
    (h : prepare language rules = .ok prepared) : prepared.Sound := by
  obtain ⟨hstructure, resolved, hresolved, -, formula, hformula, rfl⟩ := prepare_eq_ok_iff.1 h
  have hnodup := (checkStructure_eq_ok_iff.1 hstructure).1
  have hcanonical := fun c hc ↦ canonical_of_mem_conditions hresolved hformula (c := c) hc
  constructor
  · exact Selector.text_ne_empty fun c hc ↦ (hcanonical c hc).wellFormed
  · intro c hc
    have harithmetic := List.all_eq_true.1 formula.isArithmetic_text c hc
    exact isFormulaCharacter_of_mem (List.contains_iff_mem.1 harithmetic)
  · simp [Selector.categoryCount_of_assemble hformula]
  · rw [map_resolved_append_eq_survivors hresolved hnodup]
    exact isCanonical_survivors rules
  · exact fun n ↦ (List.getElem?_eq_some_iff.1 (getElem?_eval_eq_claimant hresolved hformula n)).1

/-- No rules are rejected for the characters of their formula. -/
theorem not_rejected_unsafeFormula (text : String) : ¬Rejected rules (.unsafeFormula text) := by
  intro h
  cases h with
  | rule _ _ _ h => cases h
  | samples _ _ _ _ _ h => cases h

/-- **The guards never fire.** Whatever compilation has prepared is sound, and so it never ends with
an unsafe formula, nor with a sample whose index is beyond the categories. -/
theorem guards_never_fire (language : String) (rules : List CategoryRule) :
    compile language rules = prepare language rules >>= finish language rules ∧
    (∀ prepared, prepare language rules = .ok prepared → prepared.Sound) ∧
    (∀ label text, compile language rules ≠ .error ⟨label, .unsafeFormula text⟩) ∧
    ∀ label text n expected index,
      compile language rules ≠ .error ⟨label, .mismatch text n expected none index⟩ := by
  refine ⟨compile_eq_prepare_bind_finish language rules, fun _ h ↦ Prepared.sound_of_prepare h,
    fun label text h ↦ ?_, fun label text n expected index h ↦ ?_⟩
  · exact not_rejected_unsafeFormula text (rejected_of_compile h).2
  · obtain ⟨hactual, -⟩ := eq_claimant_of_rejected_mismatch (rejected_of_compile h).2
    cases hactual

/-- Rules with a formula that their samples contradict. -/
def contradicted : List CategoryRule :=
  [⟨.other, "", some "0, 1"⟩, ⟨.many, "f = 1", none⟩, ⟨.few, "n % 100 = 3..10", none⟩,
   ⟨.one, "n = 1", some "1"⟩]

/-- The formula is sound although the set is refused, and what refuses the set is a sample with the
index of another category. -/
theorem guards_never_fire_contradicted :
    ∃ prepared, prepare "xx" contradicted = .ok prepared ∧ prepared.Sound ∧
      prepared.formula.text = "(n == 1) ? 0 : ((n % 100 >= 3 && n % 100 <= 10) ? 1 : 2)" ∧
      (compile "xx" contradicted).map (·.plurals) =
        .error ⟨"xx", .mismatch prepared.formula.text 1 .other (some .one) 0⟩ := by
  have htext : (prepare "xx" contradicted).map (·.formula.text) =
      .ok "(n == 1) ? 0 : ((n % 100 >= 3 && n % 100 <= 10) ? 1 : 2)" := by decide +kernel
  cases h : prepare "xx" contradicted with
  | error e =>
    rw [h] at htext
    cases htext
  | ok prepared =>
    rw [h] at htext
    have htext : prepared.formula.text = _ := Except.ok.inj htext
    refine ⟨prepared, rfl, (guards_never_fire "xx" contradicted).2.1 prepared h, htext, ?_⟩
    rw [htext]
    decide +kernel

end PluralForms.RuleSet
