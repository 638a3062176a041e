import PluralForms.Proofs.Locale.Outcomes

/-!
# Which locales a conversion accounts for

A conversion goes through the keys of the rules and puts what becomes of them under their normalized
ids. Two keys can be spellings of one id, and then the second takes the place of the first, unless
it is a failure: failures are listed and not looked up. So it is not the case that every locale is
accounted for (`spellings_not_accounted`).

`accounts_iff_no_collision` says exactly when it is: when no two keys **collide**, that is, have the
same id and the same kind of outcome, a definition or a successor. Whatever collides, the last of
the keys that do is recorded, since an addition does not touch what it does not collide with
(`Records.add`).
-/

namespace PluralForms.Conversion

variable {c : Conversion}

/-! ### Records and collisions -/

/-- The outcome can be read off the conversion. -/
inductive Records (c : Conversion) : String × Except LocaleError Outcome → Prop
  | converted {id : String} {entry : LanguageEntry} :
    c.languages.get? id = some entry → c.Records (id, .ok (.converted entry))
  | superseded {id successor : String} :
    c.superseded.get? id = some successor → c.Records (id, .ok (.superseded successor))
  | failed {id : String} {error : LocaleError} :
    (id, error) ∈ c.failures → c.Records (id, .error error)

/-- Two outcomes have one place between them. -/
def collide : String × Except LocaleError Outcome → String × Except LocaleError Outcome → Bool
  | (id, .ok (.converted _)), (id', .ok (.converted _)) => id == id'
  | (id, .ok (.superseded _)), (id', .ok (.superseded _)) => id == id'
  | _, _ => false

theorem fst_eq_of_collide {r later : String × Except LocaleError Outcome} (h : collide r later) :
    r.1 = later.1 := by
  obtain ⟨id, error | entry | successor⟩ := r <;>
    obtain ⟨id', error' | entry' | successor'⟩ := later <;>
      simp_all [collide]

/-- An outcome that is added is recorded. -/
theorem records_add_self (c : Conversion) (id : String) (result : Except LocaleError Outcome) :
    (c.add id result).Records (id, result) := by
  rcases result with error | entry | successor
  · exact .failed (List.mem_append_right _ List.mem_cons_self)
  · exact .converted (Table.get?_insert_self ..)
  · exact .superseded (Table.get?_insert_self ..)

/-- What is recorded stays so unless it collides with what is added. -/
theorem Records.add {r : String × Except LocaleError Outcome} (h : c.Records r) {id : String}
    {result : Except LocaleError Outcome} (hr : ¬collide r (id, result)) :
    (c.add id result).Records r := by
  cases h with
  | converted h =>
    refine .converted ?_
    rcases result with error | entry | successor
    · exact h
    · exact (Table.get?_insert_of_ne _ _ fun heq ↦ hr (beq_iff_eq.2 heq.symm)).trans h
    · exact h
  | superseded h =>
    refine .superseded ?_
    rcases result with error | entry | successor
    · exact h
    · exact h
    · exact (Table.get?_insert_of_ne _ _ fun heq ↦ hr (beq_iff_eq.2 heq.symm)).trans h
  | failed h =>
    refine .failed ?_
    rcases result with error | entry | successor
    · exact List.mem_append_left _ h
    · exact h
    · exact h

/-- A definition that is recorded is found under its id. -/
theorem Records.get?_languages {r : String × Except LocaleError Outcome} (h : c.Records r)
    {id : String} {entry : LanguageEntry} (hr : converted? r = some (id, entry)) :
    c.languages.get? id = some entry := by
  cases h with
  | converted h =>
    obtain ⟨rfl, rfl⟩ := Prod.mk.inj (Option.some.inj hr)
    exact h
  | superseded => cases hr
  | failed => cases hr

/-- **The last of the outcomes that collide is recorded.** -/
theorem records_gather (before : List (String × Except LocaleError Outcome))
    {r : String × Except LocaleError Outcome} {after : List (String × Except LocaleError Outcome)}
    (h : ∀ later ∈ after, ¬collide r later) : (gather (before ++ r :: after)).Records r := by
  -- From the end, since that is where outcomes are added.
  induction after using List.reverseRecOn with
  | nil =>
    rw [gather_concat]
    exact records_add_self ..
  | append_singleton after last ih =>
    rw [List.forall_mem_append, List.forall_mem_singleton] at h
    rw [← List.cons_append, ← List.append_assoc, gather_concat]
    exact (ih h.1).add h.2

/-- Nothing is recorded but outcomes. -/
theorem mem_of_records {results : List (String × Except LocaleError Outcome)}
    {r : String × Except LocaleError Outcome} (h : (gather results).Records r) : r ∈ results := by
  rw [gather_eq] at h
  cases h with
  | converted h =>
    obtain ⟨⟨id, result⟩, hr, hconverted⟩ := List.mem_filterMap.1 (Table.mem_of_get?_ofList h)
    rcases result with error | entry | successor <;> cases hconverted
    exact hr
  | superseded h =>
    obtain ⟨⟨id, result⟩, hr, hsuperseded⟩ := List.mem_filterMap.1 (Table.mem_of_get?_ofList h)
    rcases result with error | entry | successor <;> cases hsuperseded
    exact hr
  | failed h =>
    obtain ⟨⟨id, result⟩, hr, hfailed⟩ := List.mem_filterMap.1 h
    rcases result with error | entry | successor <;> cases hfailed
    exact hr

/-! ### Counting -/

/-- Every outcome is of one kind. -/
theorem length_filterMap_add (results : List (String × Except LocaleError Outcome)) :
    (results.filterMap converted?).length + (results.filterMap superseded?).length +
      (results.filterMap failed?).length = results.length := by
  induction results with
  | nil => rfl
  | cons r results ih =>
    obtain ⟨id, error | entry | successor⟩ := r <;>
      simp [List.filterMap_cons, converted?, superseded?, failed?] <;> omega

/-- Nothing collides exactly when no id is converted twice and none is superseded twice. -/
theorem pairwise_not_collide_iff {results : List (String × Except LocaleError Outcome)} :
    (results.Pairwise fun r later ↦ ¬collide r later) ↔
      ((results.filterMap converted?).map (·.1)).Nodup ∧
        ((results.filterMap superseded?).map (·.1)).Nodup := by
  simp only [List.Nodup, List.pairwise_map, List.pairwise_filterMap, ← List.pairwise_and_iff]
  refine List.Pairwise.iff fun r later ↦ ?_
  obtain ⟨id, error | entry | successor⟩ := r <;>
    obtain ⟨id', error' | entry' | successor'⟩ := later <;>
      simp [collide, converted?, superseded?]

/-- **Nothing is lost in number exactly when nothing collides.** -/
theorem size_gather_eq_iff (results : List (String × Except LocaleError Outcome)) :
    (gather results).languages.size + (gather results).superseded.size +
      (gather results).failures.length = results.length ↔
        results.Pairwise fun r later ↦ ¬collide r later := by
  have hsum := length_filterMap_add results
  have hlanguages := Table.size_ofList_le (results.filterMap converted?)
  have hsuperseded := Table.size_ofList_le (results.filterMap superseded?)
  rw [pairwise_not_collide_iff, ← Table.size_ofList_eq_iff, ← Table.size_ofList_eq_iff, gather_eq]
  dsimp only
  -- Neither table is longer than its list, so the sum is right only if both are as long.
  omega

/-! ### Every locale accounted for -/

/-- What becomes of the locale with the given key and rules, under its id. -/
def outcome (tables : Tables) (e : String × Table String String) :
    String × Except LocaleError Outcome :=
  (LocaleId.normalize e.1, convertLocale tables e.1 e.2)

/-- Every locale is recorded as if it were alone, and there is nothing besides. -/
structure AccountsFor (c : Conversion) (tables : Tables) : Prop where
  recorded : ∀ e ∈ tables.cardinals.entries, c.Records (outcome tables e)
  total : c.languages.size + c.superseded.size + c.failures.length = tables.cardinals.size

/-- **A conversion accounts for all locales exactly when no two collide**, and in any case for those
that do not collide with a later one. -/
theorem accounts_iff_no_collision (tables : Tables) :
    ∃ c, run tables ⟨false, []⟩ = .ok c ∧
      (c.AccountsFor tables ↔ tables.cardinals.entries.Pairwise fun e later ↦
        ¬collide (outcome tables e) (outcome tables later)) ∧
      ∀ before e after, tables.cardinals.entries = before ++ e :: after →
        (∀ later ∈ after, ¬collide (outcome tables e) (outcome tables later)) →
          c.Records (outcome tables e) := by
  have houtcomes : outcomes tables ⟨false, []⟩ = tables.cardinals.entries.map (outcome tables) :=
    outcomes_all tables false
  have hlast : ∀ before e after, tables.cardinals.entries = before ++ e :: after →
      (∀ later ∈ after, ¬collide (outcome tables e) (outcome tables later)) →
        (gather (outcomes tables ⟨false, []⟩)).Records (outcome tables e) := by
    intro before e after hentries hafter
    rw [houtcomes, hentries, List.map_append, List.map_cons]
    exact records_gather _ (List.forall_mem_map.2 hafter)
  have htotal := size_gather_eq_iff (outcomes tables ⟨false, []⟩)
  rw [houtcomes, List.length_map, List.pairwise_map, ← houtcomes] at htotal
  refine ⟨_, run_all tables, ⟨fun h ↦ htotal.1 h.total, fun h ↦ ⟨fun e he ↦ ?_, htotal.2 h⟩⟩, hlast⟩
  -- Where no two collide, every locale is the last of those that collide with it.
  obtain ⟨before, after, hentries⟩ := List.append_of_mem he
  rw [hentries, List.pairwise_append, List.pairwise_cons] at h
  exact hlast before e after hentries h.2.1.1

/-- The rules of two keys that are spellings of one id, and of a locale without a name. -/
def spellingRules : List (String × Table String String) :=
  [("pt-PT", .ofList [("other", "")]), ("pt_PT", .ofList [("one", "n = 1"), ("other", "")]),
   ("xx", .ofList [("other", "")])]

/-- Tables with these rules. -/
def spellings : Tables where
  languages := .ofList [("pt", "Portuguese")]
  territories := .ofList [("PT", "Portugal")]
  cardinals := .ofList spellingRules

theorem entries_spellings : spellings.cardinals.entries = spellingRules := by
  have hordered : spellingRules.Pairwise fun a b ↦ compare a.1 b.1 = .lt := by decide +kernel
  exact Table.entries_ofList hordered

/-- The second spelling does not collide with what comes after it. -/
theorem accounts_iff_no_collision_spellings :
    ∃ c, run spellings ⟨false, []⟩ = .ok c ∧ ¬c.AccountsFor spellings ∧
      c.Records (outcome spellings ("pt_PT", .ofList [("one", "n = 1"), ("other", "")])) := by
  obtain ⟨c, hc, haccounts, hlast⟩ := accounts_iff_no_collision spellings
  refine ⟨c, hc, ?_, hlast [_] _ [_] entries_spellings (by decide +kernel)⟩
  rw [haccounts, entries_spellings]
  decide +kernel

/-- The first spelling would have one category; what is found under the id of both has two, and one
of the three locales is missing. -/
theorem spellings_not_accounted :
    ∃ c, run spellings ⟨false, []⟩ = .ok c ∧ ¬c.AccountsFor spellings ∧
      ¬c.Records (outcome spellings ("pt-PT", .ofList [("other", "")])) ∧
      c.languages.size + c.superseded.size + c.failures.length = 2 ∧
      spellings.cardinals.size = 3 := by
  have hrun : (run spellings ⟨false, []⟩).map (fun c ↦
      ((c.languages.get? "pt_PT").map (·.plurals),
        c.languages.size + c.superseded.size + c.failures.length)) = .ok (some 2, 2) := by
    decide +kernel
  have hown : (converted? (outcome spellings ("pt-PT", .ofList [("other", "")]))).map
      (fun e ↦ (e.1, e.2.plurals)) = some ("pt_PT", 1) := by decide +kernel
  obtain ⟨c, hc, hparts⟩ := map_eq_ok_iff.1 hrun
  obtain ⟨hplurals, htotal⟩ := Prod.mk.inj hparts
  have hsize : spellings.cardinals.size = 3 := congrArg List.length entries_spellings
  refine ⟨c, hc, fun haccounts ↦ ?_, fun hrecords ↦ ?_, htotal, hsize⟩
  · have hlost := haccounts.total
    omega
  · obtain ⟨⟨id, entry⟩, hconverted, hpair⟩ := Option.map_eq_some_iff.1 hown
    obtain ⟨rfl, hone⟩ : id = "pt_PT" ∧ entry.plurals = 1 := Prod.mk.inj hpair
    rw [hrecords.get?_languages hconverted] at hplurals
    have htwo : entry.plurals = 2 := Option.some.inj hplurals
    omega

end PluralForms.Conversion
