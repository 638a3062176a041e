import PluralForms.Command.Run
import PluralForms.Proofs.Locale.Accounting
import PluralForms.Proofs.Locale.Spelling

/-!
# Looking up what is converted

A locale can be looked up by itself, and it can be converted with all others. A conversion takes the
keys of the rules as they are; a lookup takes any spelling and has to find a key for it, and does
so for the rules in one way and for the name in another.

With plain keys, and no underscore in the keys of the language names, both ways lead back to the key
(`Tables.rulesFor_spelling`, `DisplayName.ofLocale_spelling`), so a lookup finds in either spelling
what the conversion has under the id (`find_agrees_with_run`). The spelling shows in one place only,
namely where an error names the locale (`LocaleError.respell`).
-/

namespace PluralForms

variable {tables : Tables}

/-- The spellings of a key: as it is and normalized. -/
def LocaleId.spellings (key : String) : List String :=
  [key, normalize key]

/-- The error, had the locale been spelled in another way. -/
def LocaleError.respell (spelling : String) : LocaleError → LocaleError
  | unknownLanguage _ => unknownLanguage spelling
  | unknownTerritory _ territory => unknownTerritory spelling territory
  | unknownLocale _ => unknownLocale spelling
  | error => error

/-! ### Rules -/

/-- Under a key without an underscore, a normalized spelling is found only if it is the key. -/
theorem Table.get?_normalize {α : Type} {t : Table String α}
    (ht : ∀ k ∈ t.keys, '_' ∉ k.toList) {key : String} (hne : LocaleId.normalize key ≠ key) :
    t.get? (LocaleId.normalize key) = none := by
  refine Option.eq_none_iff_forall_ne_some.2 fun v hv ↦ hne (LocaleId.normalize_eq_self ?_)
  exact ht _ (Table.mem_keys_iff.2 ⟨v, hv⟩)

/-- **Both spellings of a key lead to its rules.** -/
theorem Tables.rulesFor_spelling (tables : Tables)
    (hkeys : ∀ key ∈ tables.cardinals.keys, LocaleId.IsPlain key)
    {key : String} {rules : Table String String} (hrules : tables.cardinals.get? key = some rules)
    {spelling : String} (hspelling : spelling ∈ LocaleId.spellings key) :
    tables.rulesFor spelling = some (key, rules) := by
  have hself : tables.rulesFor key = some (key, rules) := by rw [rulesFor, hrules]
  simp only [LocaleId.spellings, List.mem_cons, List.not_mem_nil, or_false] at hspelling
  obtain rfl | rfl := hspelling
  · exact hself
  by_cases heq : LocaleId.normalize key = key
  · rw [heq, hself]
  · have hplain := hkeys key (Table.mem_keys_iff.2 ⟨rules, hrules⟩)
    obtain ⟨id, hid, hbase⟩ := hplain.exists_read?
    have hnone := Table.get?_normalize (fun k hk ↦ (hkeys k hk).underscore_notMem) heq
    have hchain : ∃ rest, id.lookupChain = key :: rest := by
      rw [LocaleId.lookupChain, hbase]
      split
      · exact ⟨_, rfl⟩
      · exact ⟨_, rfl⟩
    obtain ⟨rest, hchain⟩ := hchain
    rw [rulesFor, hnone, LocaleId.read?_normalize, hid]
    simp [hchain, hrules]

/-! ### Names -/

namespace DisplayName

/-- The English name, which is that of the successor if the code is obsolete. -/
def name : DisplayName → String
  | named name => name
  | superseded _ name => name

/-- The successor of an obsolete code. -/
def successor? : DisplayName → Option String
  | named _ => none
  | superseded successor _ => some successor

/-- The name of a locale whose language is not in the tables. -/
def unlisted (tables : Tables) (locale : String) (id : LocaleId) :
    Except LocaleError DisplayName :=
  match successors.lookup id.baseId, macroLanguages.lookup id.baseId with
  | some code, _ =>
    match currentName? tables code with
    | some name => .ok (.superseded (LocaleId.normalize code) name)
    | none => .error (.unknownLanguage locale)
  | none, some name => .ok (.named name)
  | none, none => .error (.unknownLanguage locale)

/-- The name of a locale by its pieces. -/
def ofId (tables : Tables) (locale : String) (id : LocaleId) : Except LocaleError DisplayName := do
  match ← tableName tables locale id with
  | some name => return .named name
  | none => unlisted tables locale id

/-- A name from the tables depends on the spelling of a locale only in its errors. -/
theorem tableName_respell (tables : Tables) (locale spelling : String) (id : LocaleId) :
    tableName tables spelling id =
      (tableName tables locale id).mapError (LocaleError.respell spelling) := by
  rw [tableName, tableName]
  split
  · rfl
  · rfl
  · rfl
  · split <;> rfl

theorem unlisted_respell (tables : Tables) (locale spelling : String) (id : LocaleId) :
    unlisted tables spelling id =
      (unlisted tables locale id).mapError (LocaleError.respell spelling) := by
  rw [unlisted, unlisted]
  split
  · split <;> rfl
  · rfl
  · rfl

/-- **The spelling of a locale shows in errors only.** -/
theorem ofId_respell (tables : Tables) (locale spelling : String) (id : LocaleId) :
    ofId tables spelling id = (ofId tables locale id).mapError (LocaleError.respell spelling) := by
  rw [ofId, ofId, tableName_respell tables locale spelling id]
  rcases tableName tables locale id with error | _ | name
  · rfl
  · exact unlisted_respell tables locale spelling id
  · rfl

/-- A locale is named by its pieces, unless the table has its spelling and not its base id. -/
theorem ofLocale_eq_ofId {locale : String} {id : LocaleId} (hid : LocaleId.read? locale = some id)
    (h : tables.languages.get? locale = none ∨ id.baseId = locale) :
    ofLocale tables locale = ofId tables locale id := by
  rcases hget : tables.languages.get? locale with _ | name
  · rw [ofLocale, hget, hid]
    rfl
  · obtain rfl : id.baseId = locale := by simpa [hget] using h
    rw [ofLocale, ofId, tableName, hget, hid]
    rfl

/-- **Both spellings of a plain key have the name of the key.** -/
theorem ofLocale_spelling (hnames : ∀ key ∈ tables.languages.keys, '_' ∉ key.toList)
    {key : String} (hkey : LocaleId.IsPlain key) {spelling : String}
    (hspelling : spelling ∈ LocaleId.spellings key) :
    ofLocale tables spelling =
      (ofLocale tables key).mapError (LocaleError.respell spelling) := by
  obtain ⟨id, hid, hbase⟩ := hkey.exists_read?
  have hspelled : ofLocale tables spelling = ofId tables spelling id := by
    simp only [LocaleId.spellings, List.mem_cons, List.not_mem_nil, or_false] at hspelling
    obtain rfl | rfl := hspelling
    · exact ofLocale_eq_ofId hid (.inr hbase)
    · refine ofLocale_eq_ofId ((LocaleId.read?_normalize key).trans hid) ?_
      by_cases heq : LocaleId.normalize key = key
      · exact .inr (hbase.trans heq.symm)
      · exact .inl (Table.get?_normalize hnames heq)
  rw [hspelled, ofLocale_eq_ofId hid (.inr hbase), ofId_respell tables key]

end DisplayName

/-! ### One locale -/

/-- What is found is what is published under the id. -/
structure Lookup.Publishes (found : Lookup) (id : String) (entry : LanguageEntry) : Prop where
  name : found.name = entry.name
  successor : found.successor = none
  rulesId : found.rulesId = id
  plurals : found.set.plurals = entry.plurals
  formula : found.set.formula.text = entry.formula
  cases : found.set.categories = entry.cases
  examples : found.set.examples = entry.examples

namespace Lookup

/-- What is found for a locale with the given name and compiled rules. -/
def ofParts (locale rulesId : String) : Except LocaleError DisplayName →
    Except CompileError RuleSet → Except LocaleError Lookup
  | .error error, _ => .error error
  | .ok _, .error cause => .error (.plural cause)
  | .ok display, .ok set => .ok ⟨locale, display.name, display.successor?, rulesId, set⟩

/-- **A lookup puts together** a name and the rule set of the entry that was found. -/
theorem find_eq {locale key : String} {rules : Table String String}
    (h : tables.rulesFor locale = some (key, rules)) :
    find tables locale = ofParts locale (LocaleId.normalize key)
      (DisplayName.ofLocale tables locale)
      (RuleSet.compileEntries (LocaleId.normalize key) rules.entries) := by
  rw [find, h]
  dsimp only
  generalize RuleSet.compileEntries (LocaleId.normalize key) rules.entries = compiled
  rcases DisplayName.ofLocale tables locale with error | name | ⟨successor, name⟩
  · rfl
  · cases compiled <;> rfl
  · cases compiled <;> rfl

variable {display : Except LocaleError DisplayName} {compiled : Except CompileError RuleSet}
  {spelling id : String} {respell : LocaleError → LocaleError}

/-- Where the parts make a definition, it is found. -/
theorem ofParts_of_converted {entry : LanguageEntry}
    (h : Conversion.outcomeOf display compiled = .ok (.converted entry)) :
    ∃ found, ofParts spelling id (display.mapError respell) compiled = .ok found ∧
      found.Publishes id entry := by
  obtain ⟨name, set, rfl, rfl, rfl⟩ := Conversion.outcomeOf_eq_converted_iff.1 h
  exact ⟨_, rfl, rfl, rfl, rfl, rfl, rfl, rfl, rfl⟩

/-- Where they make a successor, it is found with the rules, if these compile. -/
theorem ofParts_of_superseded {successor : String}
    (h : Conversion.outcomeOf display compiled = .ok (.superseded successor)) :
    ∃ name, display.mapError respell = .ok (.superseded successor name) ∧
      ofParts spelling id (display.mapError respell) compiled =
        (compiled.mapError .plural).map (⟨spelling, name, some successor, id, ·⟩) := by
  obtain ⟨name, rfl⟩ := Conversion.outcomeOf_eq_superseded_iff.1 h
  refine ⟨name, rfl, ?_⟩
  cases compiled <;> rfl

/-- Where they make a failure, nothing is found. -/
theorem ofParts_of_failed {error : LocaleError}
    (h : Conversion.outcomeOf display compiled = .error error) :
    ∃ error', ofParts spelling id (display.mapError respell) compiled = .error error' := by
  rcases Conversion.outcomeOf_eq_error_iff.1 h with rfl | ⟨name, cause, rfl, rfl, rfl⟩
  · exact ⟨_, rfl⟩
  · exact ⟨_, rfl⟩

/-! ### All locales -/

/-- Nothing is recorded under the id of a plain key but what becomes of that key. -/
theorem convertLocale_of_records (hkeys : ∀ key ∈ tables.cardinals.keys, LocaleId.IsPlain key)
    {key : String} {rules : Table String String} (hrules : tables.cardinals.get? key = some rules)
    {result : Except LocaleError Outcome}
    (h : (Conversion.gather (Conversion.outcomes tables ⟨false, []⟩)).Records
      (LocaleId.normalize key, result)) :
    Conversion.convertLocale tables key rules = result := by
  have hmem := Conversion.mem_of_records h
  rw [Conversion.outcomes_all] at hmem
  obtain ⟨⟨key', rules'⟩, hentry, heq⟩ := List.mem_map.1 hmem
  obtain ⟨hid, hresult⟩ := Prod.mk.inj heq
  have hrules' := Table.get?_eq_some_iff.2 hentry
  have hplain := hkeys key (Table.mem_keys_iff.2 ⟨rules, hrules⟩)
  have hplain' := hkeys key' (Table.mem_keys_iff.2 ⟨rules', hrules'⟩)
  obtain rfl : key' = key :=
    LocaleId.normalize_inj hplain'.underscore_notMem hplain.underscore_notMem hid
  obtain rfl : rules' = rules := Option.some.inj (hrules'.symm.trans hrules)
  exact hresult

/-- What becomes of a plain key is recorded: no other key has its id. -/
theorem records_of_isPlain (hkeys : ∀ key ∈ tables.cardinals.keys, LocaleId.IsPlain key)
    {e : String × Table String String} (he : e ∈ tables.cardinals.entries) :
    (Conversion.gather (Conversion.outcomes tables ⟨false, []⟩)).Records
      (Conversion.outcome tables e) := by
  obtain ⟨before, after, hentries⟩ := List.append_of_mem he
  have hnodup := tables.cardinals.nodup_keys
  rw [Table.keys, hentries, List.map_append, List.map_cons] at hnodup
  have houtcomes : Conversion.outcomes tables ⟨false, []⟩ =
      tables.cardinals.entries.map (Conversion.outcome tables) :=
    Conversion.outcomes_all tables false
  rw [houtcomes, hentries, List.map_append, List.map_cons]
  refine Conversion.records_gather _ (List.forall_mem_map.2 fun later hlater hcollide ↦ ?_)
  have hmem : later ∈ tables.cardinals.entries := by rw [hentries]; simp [hlater]
  have hplain := hkeys e.1 (List.mem_map_of_mem he)
  have hplain' := hkeys later.1 (List.mem_map_of_mem hmem)
  have hkey : e.1 = later.1 := LocaleId.normalize_inj hplain.underscore_notMem
    hplain'.underscore_notMem (Conversion.fst_eq_of_collide hcollide)
  have htail := (List.nodup_cons.1 (List.nodup_append.1 hnodup).2.1).1
  exact htail (hkey ▸ List.mem_map_of_mem hlater)

/-- **A lookup agrees with the conversion of all locales**, which records what becomes of each key.
In either spelling of a key, a lookup finds what is published under its id; for an obsolete code it
has the name and the successor, and fails at most for the rules; and it fails for a locale that
failed. -/
theorem find_agrees_with_run (hkeys : ∀ key ∈ tables.cardinals.keys, LocaleId.IsPlain key)
    (hnames : ∀ key ∈ tables.languages.keys, '_' ∉ key.toList) :
    ∃ c, Conversion.run tables ⟨false, []⟩ = .ok c ∧
      ∀ key rules, tables.cardinals.get? key = some rules →
        c.Records (Conversion.outcome tables (key, rules)) ∧
        ∀ spelling ∈ LocaleId.spellings key,
          (∀ entry, c.languages.get? (LocaleId.normalize key) = some entry →
            ∃ found, find tables spelling = .ok found ∧
              found.Publishes (LocaleId.normalize key) entry) ∧
          (∀ successor, c.superseded.get? (LocaleId.normalize key) = some successor →
            ∃ name, DisplayName.ofLocale tables spelling = .ok (.superseded successor name) ∧
              find tables spelling =
                ((RuleSet.compileEntries (LocaleId.normalize key) rules.entries).mapError
                  .plural).map (⟨spelling, name, some successor, LocaleId.normalize key, ·⟩)) ∧
          ∀ error, (LocaleId.normalize key, error) ∈ c.failures →
            ∃ error', find tables spelling = .error error' := by
  refine ⟨_, Conversion.run_all tables, fun key rules hrules ↦
    ⟨records_of_isPlain hkeys (Table.get?_eq_some_iff.1 hrules), fun spelling hspelling ↦ ?_⟩⟩
  have hplain := hkeys key (Table.mem_keys_iff.2 ⟨rules, hrules⟩)
  rw [find_eq (tables.rulesFor_spelling hkeys hrules hspelling),
    DisplayName.ofLocale_spelling hnames hplain hspelling]
  refine ⟨fun entry hentry ↦ ?_, fun successor hsuccessor ↦ ?_, fun error herror ↦ ?_⟩
  · have hresult := convertLocale_of_records hkeys hrules (.converted hentry)
    rw [Conversion.convertLocale_eq] at hresult
    exact ofParts_of_converted hresult
  · have hresult := convertLocale_of_records hkeys hrules (.superseded hsuccessor)
    rw [Conversion.convertLocale_eq] at hresult
    exact ofParts_of_superseded hresult
  · have hresult := convertLocale_of_records hkeys hrules (.failed herror)
    rw [Conversion.convertLocale_eq] at hresult
    exact ofParts_of_failed hresult

/-- A locale with a territory, an obsolete code, and a locale without a name. -/
def assortedTables : Tables where
  languages := .ofList [("he", "Hebrew"), ("pt", "Portuguese")]
  territories := .ofList [("PT", "Portugal")]
  cardinals := .ofList [("iw", .ofList [("other", "")]),
    ("pt-PT", .ofList [("one", "n = 1 @integer 1"), ("other", "")]),
    ("xx", .ofList [("other", "")])]

/-- The locale is found in both spellings as it is published, the obsolete code with its successor,
and the one without a name not at all. -/
theorem find_agrees_with_run_assorted :
    (∀ key ∈ assortedTables.cardinals.keys, LocaleId.IsPlain key) ∧
    (∀ key ∈ assortedTables.languages.keys, '_' ∉ key.toList) ∧
    ∃ c entry, Conversion.run assortedTables ⟨false, []⟩ = .ok c ∧
      c.languages.get? "pt_PT" = some entry ∧
      (∃ found, find assortedTables "pt-PT" = .ok found ∧ found.Publishes "pt_PT" entry) ∧
      (∃ found, find assortedTables "pt_PT" = .ok found ∧ found.Publishes "pt_PT" entry) ∧
      (∃ name, DisplayName.ofLocale assortedTables "iw" = .ok (.superseded "he" name)) ∧
      ∃ error, find assortedTables "xx" = .error error := by
  have hlist : assortedTables.cardinals.keys = ["iw", "pt-PT", "xx"] := by decide +kernel
  have hkeys : ∀ key ∈ assortedTables.cardinals.keys, LocaleId.IsPlain key := by
    rw [hlist]
    simp only [List.forall_mem_cons, List.not_mem_nil, false_implies, implies_true, and_true]
    exact ⟨.inl (by decide), .inr ⟨"pt".toList, "PT".toList, by decide, by decide, by decide⟩,
      .inl (by decide)⟩
  have hnames : ∀ key ∈ assortedTables.languages.keys, '_' ∉ key.toList := by
    have hnames : assortedTables.languages.keys = ["he", "pt"] := by decide +kernel
    rw [hnames]
    decide
  have hrun : (Conversion.run assortedTables ⟨false, []⟩).map (fun c ↦
      (c.languages.keys, c.superseded.get? "iw", c.failures)) =
      .ok (["pt_PT"], some "he", [("xx", .unknownLanguage "xx")]) := by decide +kernel
  obtain ⟨c, hc, hparts⟩ := map_eq_ok_iff.1 hrun
  obtain ⟨hlanguages, hsuperseded, hfailures⟩ : _ ∧ _ ∧ _ := by simpa using hparts
  obtain ⟨c', hc', hagrees⟩ := find_agrees_with_run hkeys hnames
  obtain rfl : c = c' := Except.ok.inj (hc.symm.trans hc')
  obtain ⟨entry, hentry⟩ : ∃ entry, c.languages.get? "pt_PT" = some entry := by
    rw [← Table.mem_keys_iff, hlanguages]
    exact List.mem_cons_self
  have hfound : ∀ key ∈ ["iw", "pt-PT", "xx"], ∃ rules,
      assortedTables.cardinals.get? key = some rules := fun key hkey ↦
    Table.mem_keys_iff.1 (hlist ▸ hkey)
  obtain ⟨iwRules, hiw⟩ := hfound "iw" (by simp)
  obtain ⟨ptRules, hpt⟩ := hfound "pt-PT" (by simp)
  obtain ⟨xxRules, hxx⟩ := hfound "xx" (by simp)
  have hpublished : ∀ spelling ∈ LocaleId.spellings "pt-PT", ∃ found,
      find assortedTables spelling = .ok found ∧ found.Publishes "pt_PT" entry := fun spelling h ↦
    ((hagrees "pt-PT" ptRules hpt).2 spelling h).1 entry hentry
  refine ⟨hkeys, hnames, c, entry, hc, hentry, hpublished _ (by decide), hpublished _ (by decide),
    ?_, ?_⟩
  · obtain ⟨name, hname, -⟩ :=
      ((hagrees "iw" iwRules hiw).2 "iw" List.mem_cons_self).2.1 "he" hsuperseded
    exact ⟨name, hname⟩
  · exact ((hagrees "xx" xxRules hxx).2 "xx" List.mem_cons_self).2.2 _
      (hfailures ▸ List.mem_cons_self)

end Lookup

end PluralForms
