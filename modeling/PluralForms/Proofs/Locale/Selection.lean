import PluralForms.Proofs.Locale.Outcomes

/-!
# A selection is a part of the whole

A conversion can be asked for some locales only, in either spelling, in any order and with
repetitions. What it comes to is then the part of the whole conversion that has the ids asked for
(`selection_restricts`). Whether it comes to anything is another matter: the tables must list every
locale that is asked for.

The locales are added one by one under their ids, so the proof is about one addition
(`restrict_add`): it is made to the restriction when the id is one of those in question, and is not
seen otherwise. Since a locale is named and compiled without regard to the rules of others, tables
that agree on the rules asked for cannot be told apart by the selection.
-/

namespace PluralForms

/-- The same names, and the same rules under every key of the locales asked for. -/
def Tables.AgreeOn (tables tables' : Tables) (only : List String) : Prop :=
  tables'.languages = tables.languages ∧ tables'.territories = tables.territories ∧
    ∀ key, LocaleId.normalize key ∈ only.map LocaleId.normalize →
      tables'.cardinals.get? key = tables.cardinals.get? key

namespace Conversion

variable {tables : Tables}

/-! ### Restriction -/

/-- The part of a conversion whose ids satisfy `p`. -/
def restrict (c : Conversion) (p : String → Bool) : Conversion :=
  ⟨c.languages.restrict p, c.superseded.restrict p, c.failures.filter fun f ↦ p f.1⟩

/-- An outcome is added to the restriction if its id is in question. -/
theorem restrict_add (c : Conversion) (p : String → Bool) (id : String)
    (result : Except LocaleError Outcome) : (c.add id result).restrict p =
      if p id then (c.restrict p).add id result else c.restrict p := by
  split
  next hp =>
    rcases result with error | entry | successor
    · simp [restrict, add, hp]
    · simp [restrict, add, Table.restrict_insert_of_pos _ _ hp]
    · simp [restrict, add, Table.restrict_insert_of_pos _ _ hp]
  next hp =>
    rcases result with error | entry | successor
    · simp [restrict, add, hp]
    · simp [restrict, add, Table.restrict_insert_of_neg _ _ hp]
    · simp [restrict, add, Table.restrict_insert_of_neg _ _ hp]

/-- **A restriction comes from the outcomes with the ids in question.** -/
theorem restrict_gather (results : List (String × Except LocaleError Outcome))
    (p : String → Bool) : (gather results).restrict p = gather (results.filter fun r ↦ p r.1) := by
  induction results using List.reverseRecOn with
  | nil => rfl
  | append_singleton results r ih =>
    obtain ⟨id, result⟩ := r
    rw [gather_concat, restrict_add, ih, List.filter_append]
    split
    next hp => simp [hp, gather_concat]
    next hp => simp [hp]

/-! ### Selected outcomes -/

/-- What is selected, among all outcomes. -/
theorem outcomes_eq_filter {only : List String} (honly : only ≠ []) (failFast : Bool) :
    outcomes tables ⟨failFast, only⟩ = (outcomes tables ⟨false, []⟩).filter fun r ↦
      (only.map LocaleId.normalize).contains r.1 := by
  have hselects : (ConversionOptions.mk failFast only).selects =
      (only.map LocaleId.normalize).contains := by
    funext id
    simp [ConversionOptions.selects, honly]
  rw [outcomes_all, List.filter_map, outcomes, hselects]
  rfl

/-- The selected outcomes are those of the entries with the keys asked for. -/
theorem filter_outcomes_eq (tables : Tables) (p : String → Bool) :
    ((outcomes tables ⟨false, []⟩).filter fun r ↦ p r.1) =
      (tables.cardinals.restrict fun key ↦ p (LocaleId.normalize key)).entries.map fun e ↦
        (LocaleId.normalize e.1, convertLocale tables e.1 e.2) := by
  rw [outcomes_all, List.filter_map]
  rfl

/-- **What is not asked for makes no difference to the outcomes.** -/
theorem outcomes_eq_of_agreeOn {tables' : Tables} {only : List String} (honly : only ≠ [])
    (h : tables.AgreeOn tables' only) (failFast : Bool) :
    outcomes tables' ⟨failFast, only⟩ = outcomes tables ⟨failFast, only⟩ := by
  obtain ⟨hlanguages, hterritories, hcardinals⟩ := h
  have hrestrict : (tables'.cardinals.restrict fun key ↦
        (only.map LocaleId.normalize).contains (LocaleId.normalize key)) =
      tables.cardinals.restrict fun key ↦
        (only.map LocaleId.normalize).contains (LocaleId.normalize key) :=
    Table.restrict_eq_restrict_iff.2 fun key hkey ↦ hcardinals key (List.contains_iff_mem.1 hkey)
  -- Both are made of the same part of the rules, and each rule is compiled by itself.
  rw [outcomes_eq_filter honly, outcomes_eq_filter honly, filter_outcomes_eq, filter_outcomes_eq,
    hrestrict, convertLocale_congr hlanguages hterritories]

/-! ### The selection -/

/-- **A selection is a part of the whole.** It comes to something when the tables list all locales
asked for, and otherwise the first that they do not list is the error. Rules of other locales do not
matter, neither for the selection nor for that part of the whole. -/
theorem selection_restricts (tables : Tables) {only : List String} (honly : only ≠ []) :
    ∃ whole, run tables ⟨false, []⟩ = .ok whole ∧
      (∀ c, run tables ⟨false, only⟩ = .ok c ↔ (∀ wanted ∈ only, tables.Lists wanted) ∧
        c = whole.restrict (only.map LocaleId.normalize).contains) ∧
      (∀ error, run tables ⟨false, only⟩ = .error error ↔
        ∃ wanted, FirstUnlisted tables only wanted ∧ error = .unknownLocale wanted) ∧
      ∀ tables', tables.AgreeOn tables' only →
        (∀ failFast, run tables' ⟨failFast, only⟩ = run tables ⟨failFast, only⟩) ∧
        ∃ whole', run tables' ⟨false, []⟩ = .ok whole' ∧
          whole'.restrict (only.map LocaleId.normalize).contains =
            whole.restrict (only.map LocaleId.normalize).contains := by
  -- For both tables of the last part.
  have hpart : ∀ tables : Tables, gather (outcomes tables ⟨false, only⟩) =
      (gather (outcomes tables ⟨false, []⟩)).restrict (only.map LocaleId.normalize).contains := by
    intro tables
    rw [restrict_gather, outcomes_eq_filter honly]
  refine ⟨_, run_all tables, fun c ↦ ?_, fun error ↦ ?_, fun tables' hagree ↦ ⟨fun failFast ↦ ?_,
    _, run_all tables', ?_⟩⟩
  · rw [run_eq_ok_iff, hpart]
    simp
  · rw [run_eq_error_iff]
    simp
  · rw [run_eq, run_eq, outcomes_eq_of_agreeOn honly hagree]
  · rw [← hpart, ← hpart, outcomes_eq_of_agreeOn honly hagree]

/-- Portuguese in two spellings, an obsolete code, and a locale without a name. -/
def regional : Tables where
  languages := .ofList [("he", "Hebrew"), ("pt", "Portuguese")]
  territories := .ofList [("PT", "Portugal")]
  cardinals := .ofList [("iw", .ofList [("other", "")]), ("pt-PT", .ofList [("other", "")]),
    ("pt_PT", .ofList [("one", "n = 1"), ("other", "")]), ("xx", .ofList [("other", "")])]

/-- The same without the obsolete code. -/
def currentRegional : Tables :=
  { regional with cardinals := regional.cardinals.erase "iw" }

/-- Two locales are asked for, one of them twice; the obsolete code is left out and might as well
not be there. Of two that are not listed the first is the error. -/
theorem selection_restricts_regional :
    (∃ c, run regional ⟨false, ["xx", "pt-PT", "xx"]⟩ = .ok c ∧ c.languages.keys = ["pt_PT"] ∧
      c.superseded.keys = [] ∧ c.failures = [("xx", .unknownLanguage "xx")]) ∧
    (∀ failFast, run currentRegional ⟨failFast, ["xx", "pt-PT", "xx"]⟩ =
      run regional ⟨failFast, ["xx", "pt-PT", "xx"]⟩) ∧
    run regional ⟨false, ["xx", "fr_FR", "tlh"]⟩ = .error (.unknownLocale "fr_FR") := by
  obtain ⟨whole, hwhole, hok, -, hagree⟩ :=
    selection_restricts regional (List.cons_ne_nil "xx" ["pt-PT", "xx"])
  obtain ⟨-, -, -, herror, -⟩ :=
    selection_restricts regional (List.cons_ne_nil "xx" ["fr_FR", "tlh"])
  refine ⟨⟨_, (hok _).2 ⟨by decide +kernel, rfl⟩, ?_⟩, ?_, ?_⟩
  · have hparts : (run regional ⟨false, []⟩).map (fun c ↦
        let part := c.restrict (["xx", "pt-PT", "xx"].map LocaleId.normalize).contains
        (part.languages.keys, part.superseded.keys, part.failures)) =
        .ok (["pt_PT"], [], [("xx", .unknownLanguage "xx")]) := by decide +kernel
    obtain ⟨c, hc, hparts⟩ := map_eq_ok_iff.1 hparts
    obtain rfl : whole = c := Except.ok.inj (hwhole.symm.trans hc)
    obtain ⟨hlanguages, hrest⟩ := Prod.mk.inj hparts
    exact ⟨hlanguages, Prod.mk.inj hrest⟩
  · have hne : ∀ key, LocaleId.normalize key ∈ ["xx", "pt-PT", "xx"].map LocaleId.normalize →
        "iw" ≠ key := by
      rintro key hkey rfl
      exact absurd hkey (by decide +kernel)
    have hagrees : regional.AgreeOn currentRegional ["xx", "pt-PT", "xx"] :=
      ⟨rfl, rfl, fun key hkey ↦ regional.cardinals.get?_erase_of_ne (hne key hkey)⟩
    exact (hagree currentRegional hagrees).1
  · exact (herror _).2 ⟨"fr_FR", ⟨["xx"], ["tlh"], rfl, by decide +kernel, by decide +kernel⟩, rfl⟩

end Conversion

end PluralForms
