import PluralForms.Proofs.Locale.Agreement

/-!
# What a lookup depends on

Rules and names are looked up under the text as it stands first, and only then under what it is read
as. So the same locale could be found in one spelling and not in another. This file shows that it
is the tables that are to blame if so: as long as they list a text only if it is its own base id,
**rules and names depend on the language and the territory alone** (`lookups_agree`), whatever the
script, the variants and the separators are.

The first lookup is then one that the second would make as well, so it can be left out
(`Tables.rulesFor_eq_closestRules`, `DisplayName.ofLocale_eq_ofId`). The text itself is left in the
errors, which name it; which error it is does not depend on it (`DisplayName.ofId_cases`).
-/

namespace PluralForms

variable {tables : Tables} {text : String} {id id' : LocaleId}

/-- The base id has nothing of the script. -/
theorem LocaleId.baseId_congr (hlanguage : id.language = id'.language)
    (hterritory : id.territory = id'.territory) : id.baseId = id'.baseId := by
  rw [baseId, baseId, hlanguage, hterritory]

/-- A text that is listed only if it is its own base id is not listed, or it is the base id. -/
theorem Table.get?_eq_none_or {α : Type} {t : Table String α}
    (h : text ∈ t.keys → text = id.baseId) : t.get? text = none ∨ id.baseId = text := by
  rcases hget : t.get? text with _ | value
  · exact .inl rfl
  · exact .inr (h (Table.mem_keys_iff.2 ⟨value, hget⟩)).symm

/-! ### Rules -/

namespace Tables

/-- The entries of the language in the territory, or else those of the language. -/
def closestRules (tables : Tables) (language : String) (territory : Option String) :
    Option (String × Table String String) :=
  let entriesAt key := (tables.cardinals.get? key).map (key, ·)
  (territory.bind fun territory ↦ entriesAt (language ++ "-" ++ territory)).or (entriesAt language)

/-- **The lookup chain finds the closest rules.** -/
theorem findSome?_lookupChain (tables : Tables) (id : LocaleId) :
    (id.lookupChain.findSome? fun key ↦ (tables.cardinals.get? key).map (key, ·)) =
      tables.closestRules id.language id.territory := by
  obtain ⟨language, script, _ | territory⟩ := id
  · simp [LocaleId.lookupChain, LocaleId.baseId, closestRules]
  · simp only [LocaleId.lookupChain, LocaleId.baseId, closestRules, List.findSome?_cons,
      List.findSome?_nil, Option.bind_some]
    rcases tables.cardinals.get? (language ++ "-" ++ territory) with _ | rules
    · rcases tables.cardinals.get? language with _ | rules <;> rfl
    · rfl

/-- **The spelling does not matter for the rules.** -/
theorem rulesFor_eq_closestRules (hid : LocaleId.read? text = some id)
    (h : text ∈ tables.cardinals.keys → text = id.baseId) :
    tables.rulesFor text = tables.closestRules id.language id.territory := by
  rw [← findSome?_lookupChain]
  rcases hget : tables.cardinals.get? text with _ | rules
  · rw [rulesFor, hget, hid]
    rfl
  · -- the base id comes first among the places to look
    have hbase : id.baseId = text := (h (Table.mem_keys_iff.2 ⟨rules, hget⟩)).symm
    have hchain : id.lookupChain = [text] ∨ id.lookupChain = [text, id.language] := by
      rw [LocaleId.lookupChain, hbase]
      split <;> simp
    rw [rulesFor, hget]
    rcases hchain with hchain | hchain <;> simp [hchain, hget]

end Tables

/-! ### Names -/

namespace DisplayName

/-- The script of an id makes no difference to its name. -/
theorem ofId_congr (tables : Tables) (locale : String) (hlanguage : id.language = id'.language)
    (hterritory : id.territory = id'.territory) :
    ofId tables locale id = ofId tables locale id' := by
  rw [ofId, ofId, tableName, tableName, unlisted, unlisted,
    LocaleId.baseId_congr hlanguage hterritory, hlanguage, hterritory]

/-- Naming by the tables fails for an unknown territory only. -/
theorem tableName_cases (tables : Tables) (locale : String) (id : LocaleId) :
    (∃ name, tableName tables locale id = .ok name) ∨
      ∃ territory, id.territory = some territory ∧
        tableName tables locale id = .error (.unknownTerritory locale territory) := by
  rw [tableName]
  split
  · exact .inl ⟨_, rfl⟩
  · exact .inl ⟨_, rfl⟩
  · exact .inl ⟨_, rfl⟩
  next territory _ _ hterritory =>
    split
    · exact .inl ⟨_, rfl⟩
    · exact .inr ⟨territory, hterritory, rfl⟩

/-- A locale whose language is not in the tables is named by other means, or is unknown. -/
theorem unlisted_cases (tables : Tables) (locale : String) (id : LocaleId) :
    (∃ display, unlisted tables locale id = .ok display) ∨
      unlisted tables locale id = .error (.unknownLanguage locale) := by
  rw [unlisted]
  split
  · split
    · exact .inl ⟨_, rfl⟩
    · exact .inr rfl
  · exact .inl ⟨_, rfl⟩
  · exact .inr rfl

/-- A locale has a name by its pieces, or its language is unknown, or its territory is. -/
theorem ofId_cases (tables : Tables) (locale : String) (id : LocaleId) :
    (∃ display, ofId tables locale id = .ok display) ∨
      ofId tables locale id = .error (.unknownLanguage locale) ∨
      ∃ territory, id.territory = some territory ∧
        ofId tables locale id = .error (.unknownTerritory locale territory) := by
  rw [ofId]
  rcases tableName_cases tables locale id with ⟨_ | name, hname⟩ | ⟨territory, hterritory, hname⟩
  · rw [hname]
    exact (unlisted_cases tables locale id).imp_right .inl
  · rw [hname]
    exact .inl ⟨_, rfl⟩
  · rw [hname]
    exact .inr (.inr ⟨territory, hterritory, rfl⟩)

end DisplayName

/-! ### Two spellings -/

/-- **Lookups depend only on the language and the territory.** Take two texts that are read as ids
with the same language and the same territory, and tables that list either only if it is its own
base id. Then the same rules are found for both, under the same key: those of the language in the
territory if there are any, and else those of the language. And both have the same name, or neither
has one, for the same reason. -/
theorem lookups_agree (tables : Tables) {text text' : String} {id id' : LocaleId}
    (hid : LocaleId.read? text = some id) (hid' : LocaleId.read? text' = some id')
    (hlanguage : id.language = id'.language) (hterritory : id.territory = id'.territory) :
    ((text ∈ tables.cardinals.keys → text = id.baseId) →
      (text' ∈ tables.cardinals.keys → text' = id'.baseId) →
        tables.rulesFor text = tables.rulesFor text' ∧
        tables.rulesFor text = tables.closestRules id.language id.territory) ∧
    ((text ∈ tables.languages.keys → text = id.baseId) →
      (text' ∈ tables.languages.keys → text' = id'.baseId) →
        (∃ display, DisplayName.ofLocale tables text = .ok display ∧
          DisplayName.ofLocale tables text' = .ok display) ∨
        (DisplayName.ofLocale tables text = .error (.unknownLanguage text) ∧
          DisplayName.ofLocale tables text' = .error (.unknownLanguage text')) ∨
        ∃ territory, id.territory = some territory ∧
          DisplayName.ofLocale tables text = .error (.unknownTerritory text territory) ∧
          DisplayName.ofLocale tables text' = .error (.unknownTerritory text' territory)) := by
  constructor
  · intro h h'
    rw [Tables.rulesFor_eq_closestRules hid h, Tables.rulesFor_eq_closestRules hid' h', hlanguage,
      hterritory]
    exact ⟨rfl, rfl⟩
  · intro h h'
    have hother : DisplayName.ofLocale tables text' =
        (DisplayName.ofId tables text id).mapError (LocaleError.respell text') := by
      rw [DisplayName.ofLocale_eq_ofId hid' (Table.get?_eq_none_or h'),
        ← DisplayName.ofId_congr tables text' hlanguage hterritory,
        DisplayName.ofId_respell tables text text']
    rw [DisplayName.ofLocale_eq_ofId hid (Table.get?_eq_none_or h), hother]
    rcases DisplayName.ofId_cases tables text id with
      ⟨display, hname⟩ | hname | ⟨territory, hterritory, hname⟩
    · exact .inl ⟨display, hname, by rw [hname]; rfl⟩
    · exact .inr (.inl ⟨hname, by rw [hname]; rfl⟩)
    · exact .inr (.inr ⟨territory, hterritory, hname, by rw [hname]; rfl⟩)

/-- A language with rules of its own in one territory, and the language of an obsolete code. -/
def regionalTables : Tables where
  languages := .ofList [("ro", "Romanian"), ("sr", "Serbian")]
  territories := .ofList [("BA", "Bosnia & Herzegovina"), ("MD", "Moldova")]
  cardinals := .ofList [("sr", .ofList [("other", "")]),
    ("sr-BA", .ofList [("one", "n = 1"), ("other", "")])]

/-- A key and a longer spelling of it have the same rules, an obsolete code has its successor with
and without a script, and a territory without a name is unknown in either spelling. -/
theorem lookups_agree_regional :
    (regionalTables.rulesFor "sr_Latn_BA-ekavsk" = regionalTables.rulesFor "sr-BA" ∧
      regionalTables.rulesFor "sr_Latn_BA-ekavsk" = regionalTables.closestRules "sr" (some "BA") ∧
      (regionalTables.closestRules "sr" (some "BA")).map (·.1) = some "sr-BA") ∧
    (∃ display, DisplayName.ofLocale regionalTables "mo_Cyrl" = .ok display ∧
      DisplayName.ofLocale regionalTables "mo" = .ok display ∧
      display.successor? = some "ro_MD") ∧
    DisplayName.ofLocale regionalTables "sr-Latn-ZZ" =
      .error (.unknownTerritory "sr-Latn-ZZ" "ZZ") ∧
    DisplayName.ofLocale regionalTables "sr_ZZ" = .error (.unknownTerritory "sr_ZZ" "ZZ") := by
  have hserbian : LocaleId.read? "sr_Latn_BA-ekavsk" = some ⟨"sr", some "Latn", some "BA"⟩ := by
    decide +kernel
  have hbase : LocaleId.read? "sr-BA" = some ⟨"sr", none, some "BA"⟩ := by decide +kernel
  have hscript : LocaleId.read? "mo_Cyrl" = some ⟨"mo", some "Cyrl", none⟩ := by decide +kernel
  have hobsolete : LocaleId.read? "mo" = some ⟨"mo", none, none⟩ := by decide +kernel
  have hlong : LocaleId.read? "sr-Latn-ZZ" = some ⟨"sr", some "Latn", some "ZZ"⟩ := by
    decide +kernel
  have hshort : LocaleId.read? "sr_ZZ" = some ⟨"sr", none, some "ZZ"⟩ := by decide +kernel
  have hmoldavian : DisplayName.ofLocale regionalTables "mo" =
      .ok (.superseded "ro_MD" "Romanian (Moldova)") := by decide +kernel
  have hunknown : DisplayName.ofLocale regionalTables "sr_ZZ" =
      .error (.unknownTerritory "sr_ZZ" "ZZ") := by decide +kernel
  refine ⟨?_, ?_, ?_, hunknown⟩
  · obtain ⟨hrules, hclosest⟩ := (lookups_agree regionalTables hserbian hbase rfl rfl).1
      (by decide +kernel) (by decide +kernel)
    exact ⟨hrules, hclosest, by decide +kernel⟩
  · obtain ⟨display, hsame, hfound⟩ | ⟨-, hfound⟩ | ⟨_, -, -, hfound⟩ :=
      (lookups_agree regionalTables hscript hobsolete rfl rfl).2 (by decide +kernel)
        (by decide +kernel)
    · obtain rfl := Except.ok.inj (hmoldavian.symm.trans hfound)
      exact ⟨_, hsame, hfound, rfl⟩
    · exact absurd (hmoldavian.symm.trans hfound) (by simp)
    · exact absurd (hmoldavian.symm.trans hfound) (by simp)
  · obtain ⟨display, -, hfound⟩ | ⟨-, hfound⟩ | ⟨territory, hterritory, hsame, -⟩ :=
      (lookups_agree regionalTables hlong hshort rfl rfl).2 (by decide +kernel) (by decide +kernel)
    · exact absurd (hunknown.symm.trans hfound) (by simp)
    · exact absurd (hunknown.symm.trans hfound) (by simp)
    · obtain rfl := Option.some.inj hterritory
      exact hsame

end PluralForms
