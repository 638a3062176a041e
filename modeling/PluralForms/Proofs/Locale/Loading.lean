import PluralForms.Locale.Tables
import PluralForms.Proofs.Json.Fields
import PluralForms.Proofs.Table.Traversal

/-!
# Loading tables

Tables are taken out of three JSON documents. What can be loaded is described here by what is found
in the documents, without the order in which they are looked through: `Loadable` says which
documents have tables, and `Describes` which tables those are. What cannot be loaded has a first
thing amiss, and `Amiss` says what that is: in the first document with anything amiss, the shortest
part of the path that leads nowhere, or else a value of the wrong kind at the smallest key.

The pseudo-locale `root` is treated in three ways. It is dropped from the languages after its name
has been checked, it is dropped from the rules unseen, and among the territories it is a key like
any other. So tables are loaded as they were written exactly if `root` is not among the languages
and the rules (`ofDocuments_exact`).
-/

namespace PluralForms

namespace Tables

variable {path : String} {fields : List String} {document value : Json}
  {members : Table String Json} {texts : Table String String} {error : LocaleError}

/-! ### Objects of strings -/

/-- The members are the texts of the table, and no others. -/
def IsTexts (members : Table String Json) (texts : Table String String) : Prop :=
  ∀ key, (texts.get? key).map Json.string = members.get? key

/-- Some value is not a string; the error names the first such key. -/
def TextsAmiss (path : String) (members : Table String Json) (error : LocaleError) : Prop :=
  ∃ key value, members.FirstAmiss (fun _ value ↦ ¬value.IsString) key value ∧
    error = .invalidField path key .string

/-- The text of one member. -/
def textEntry (path : String) : String × Json → Except LocaleError (String × String)
  | (key, value) =>
    match value.string? with
    | some text => .ok (key, text)
    | none => .error (.invalidField path key .string)

/-- A member is read under its own key, if its value is a string. -/
theorem textEntry_eq_ok_iff {key : String} {e : String × String} :
    textEntry path (key, value) = .ok e ↔ e.1 = key ∧ value = .string e.2 := by
  obtain ⟨key', text⟩ := e
  rw [textEntry, ← Json.string?_eq_some_iff]
  rcases value.string? with _ | text' <;> simp [eq_comm]

theorem exists_textEntry_iff {key : String} :
    (∃ e, textEntry path (key, value) = .ok e) ↔ ¬¬value.IsString := by
  simp only [textEntry_eq_ok_iff, Prod.exists, not_not]
  constructor
  · rintro ⟨_, text, -, h⟩
    exact ⟨text, h⟩
  · rintro ⟨text, h⟩
    exact ⟨key, text, rfl, h⟩

/-- A value that is no string is reported by its key. -/
theorem textEntry_eq_error_iff {key : String} :
    textEntry path (key, value) = .error error ↔
      ¬value.IsString ∧ error = .invalidField path key .string := by
  rw [textEntry, ← Json.string?_eq_none_iff]
  rcases value.string? with _ | text <;> simp [eq_comm]

/-- **An object of strings is read as the table of its texts.** -/
theorem stringTable_eq_ok_iff : stringTable path members = .ok texts ↔ IsTexts members texts := by
  have hkey : ∀ e e', textEntry path e = .ok e' → e'.1 = e.1 := fun e e' h ↦
    (textEntry_eq_ok_iff.1 h).1
  have hpass : stringTable path members = .ok texts ↔
      ∃ l, members.entries.mapM (textEntry path) = .ok l ∧ Table.ofList l = texts :=
    bind_pure_eq_ok_iff
  rw [hpass, Table.exists_mapM_entries_iff hkey]
  refine forall_congr' fun key ↦ ?_
  simp only [textEntry_eq_ok_iff, true_and]
  rcases members.get? key with _ | value <;> rcases texts.get? key with _ | text <;> simp [eq_comm]

/-- **Otherwise the error names the first value that is no string.** -/
theorem stringTable_eq_error_iff :
    stringTable path members = .error error ↔ TextsAmiss path members error := by
  have hpass : stringTable path members = .error error ↔
      members.entries.mapM (textEntry path) = .error error := bind_pure_eq_error_iff
  rw [hpass, Table.mapM_entries_eq_error_iff_firstAmiss fun _ _ ↦ exists_textEntry_iff]
  refine exists₂_congr fun key value ↦ ?_
  rw [textEntry_eq_error_iff]
  exact and_congr_right fun h ↦ and_iff_right h.isAmiss

/-- The members are the texts of some table exactly when all values are strings. -/
theorem exists_isTexts_iff : (∃ texts, IsTexts members texts) ↔ Json.AllStrings members := by
  constructor
  · rintro ⟨texts, h⟩ key value hvalue
    rw [← h key] at hvalue
    obtain ⟨text, -, rfl⟩ := Option.map_eq_some_iff.1 hvalue
    exact ⟨text, rfl⟩
  · intro h
    rcases htable : stringTable "" members with error | texts
    · obtain ⟨key, value, hamiss, -⟩ := stringTable_eq_error_iff.1 htable
      exact absurd (h key value hamiss.found) hamiss.isAmiss
    · exact ⟨texts, stringTable_eq_ok_iff.1 htable⟩

/-! ### The object at the end of a path -/

/-- The document has an object with these members at the end of the path. -/
def HasObject (document : Json) (fields : List String) (members : Table String Json) : Prop :=
  ∃ value, document.follow? fields = some value ∧ value.members? = some members

/-- **The walk along the fields ends where they lead.** -/
theorem descend_eq_ok_iff {passed : List String} :
    descend path passed fields document = .ok value ↔ document.follow? fields = some value := by
  induction fields generalizing passed document with
  | nil => simp [descend]
  | cons field fields ih =>
    rw [descend, Json.follow?_cons]
    rcases document.get? field with _ | next
    · simp
    · simpa using ih

/-- **It fails for the first field that is missing**, and names all fields down to this one. -/
theorem descend_eq_error_iff {passed : List String} :
    descend path passed fields document = .error error ↔
      ∃ missing, document.FirstMissing fields missing ∧
        error = .missingField path (".".intercalate (passed ++ missing)) := by
  induction fields generalizing passed document with
  | nil =>
    refine iff_of_false (by simp [descend]) ?_
    rintro ⟨missing, h, -⟩
    exact h.ne_nil (List.prefix_nil.1 h.isPrefix)
  | cons field fields ih =>
    rw [descend]
    simp only [Json.firstMissing_cons_iff]
    rcases document.get? field with _ | next
    · simp [eq_comm]
    · simp [ih]

/-- Nothing is at the end of the path, or no object is, or something in the object is amiss. -/
inductive DocumentAmiss (path : String) (fields : List String) (document : Json)
    (contentAmiss : Table String Json → LocaleError → Prop) : LocaleError → Prop where
  | missing {missing : List String} (h : document.FirstMissing fields missing) :
    DocumentAmiss path fields document contentAmiss
      (.missingField path (".".intercalate missing))
  | notObject {value : Json} (h : document.follow? fields = some value)
      (hvalue : value.members? = none) :
    DocumentAmiss path fields document contentAmiss
      (.invalidField path (".".intercalate fields) .object)
  | content {members : Table String Json} {error : LocaleError}
      (h : HasObject document fields members) (hcontent : contentAmiss members error) :
    DocumentAmiss path fields document contentAmiss error

/-- The object at the end of a path is found exactly when there is one. -/
theorem objectAt_eq_ok_iff :
    objectAt path fields document = .ok members ↔ HasObject document fields members := by
  refine bind_eq_ok_iff.trans (exists_congr fun value ↦ ?_)
  rw [descend_eq_ok_iff]
  refine and_congr_right fun _ ↦ ?_
  rcases value.members? with _ | members' <;> simp [pure, Except.pure, throw, throwThe,
    MonadExceptOf.throw]

/-- Otherwise the error names the shortest part of the path that is missing, or the whole of it if
something other than an object is at its end. -/
theorem objectAt_eq_error_iff : objectAt path fields document = .error error ↔
    (∃ missing, document.FirstMissing fields missing ∧
      error = .missingField path (".".intercalate missing)) ∨
    ∃ value, document.follow? fields = some value ∧ value.members? = none ∧
      error = .invalidField path (".".intercalate fields) .object := by
  refine bind_eq_error_iff.trans (or_congr descend_eq_error_iff (exists_congr fun value ↦ ?_))
  rw [descend_eq_ok_iff]
  refine and_congr_right fun _ ↦ ?_
  rcases value.members? with _ | members' <;> simp [pure, Except.pure, throw, throwThe,
    MonadExceptOf.throw, eq_comm]

/-- Whatever is done with the object, it fails if there is no object or if it fails itself. -/
theorem objectAt_bind_eq_error_iff {α : Type} {f : Table String Json → Except LocaleError α}
    {contentAmiss : Table String Json → LocaleError → Prop}
    (hf : ∀ members error, f members = .error error ↔ contentAmiss members error) :
    objectAt path fields document >>= f = .error error ↔
      DocumentAmiss path fields document contentAmiss error := by
  simp only [bind_eq_error_iff, objectAt_eq_ok_iff, objectAt_eq_error_iff, hf]
  constructor
  · rintro ((⟨missing, h, rfl⟩ | ⟨value, h, hvalue, rfl⟩) | ⟨members, h, hcontent⟩)
    · exact .missing h
    · exact .notObject h hvalue
    · exact .content h hcontent
  · rintro (h | ⟨h, hvalue⟩ | ⟨h, hcontent⟩)
    · exact .inl (.inl ⟨_, h, rfl⟩)
    · exact .inl (.inr ⟨_, h, hvalue, rfl⟩)
    · exact .inr ⟨_, h, hcontent⟩

/-! ### Rules -/

/-- The value of a locale is no object, or has a value that is no string. -/
inductive EntryAmiss (path locale : String) (value : Json) : LocaleError → Prop where
  | notObject (h : value.members? = none) :
    EntryAmiss path locale value (.invalidField path locale .object)
  | texts {members : Table String Json} {error : LocaleError} (h : value.members? = some members)
      (htexts : TextsAmiss path members error) : EntryAmiss path locale value error

/-- Some locale other than the root has no object of strings; the error is about the first. -/
def RulesAmiss (path : String) (members : Table String Json) (error : LocaleError) : Prop :=
  ∃ locale value, members.FirstAmiss (fun locale value ↦
    locale ≠ rootLocale ∧ ¬value.IsTextObject) locale value ∧ EntryAmiss path locale value error

/-- The rules of a locale are the texts in its object. -/
theorem localeRules_eq_ok_iff {locale : String} {e : String × Table String String} :
    localeRules path (locale, value) = .ok e ↔
      e.1 = locale ∧ ∃ members, value.members? = some members ∧ IsTexts members e.2 := by
  obtain ⟨locale', rules⟩ := e
  rw [localeRules]
  rcases value.members? with _ | members
  · simp [throw, throwThe, MonadExceptOf.throw]
  · refine bind_pure_eq_ok_iff.trans ?_
    simp only [stringTable_eq_ok_iff]
    simp [and_comm, eq_comm]

/-- A locale without an object of strings is reported for what is amiss with it. -/
theorem localeRules_eq_error_iff {locale : String} :
    localeRules path (locale, value) = .error error ↔ EntryAmiss path locale value error := by
  rw [localeRules]
  rcases h : value.members? with _ | members
  · constructor
    · intro herror
      obtain rfl := Except.error.inj herror
      exact .notObject h
    · rintro (h' | ⟨h', -⟩)
      · rfl
      · exact absurd (h.symm.trans h') (by simp)
  · refine bind_pure_eq_error_iff.trans ?_
    rw [stringTable_eq_error_iff]
    constructor
    · exact .texts h
    · rintro (h' | ⟨h', htexts⟩)
      · exact absurd (h.symm.trans h') (by simp)
      · obtain rfl := Option.some.inj (h.symm.trans h')
        exact htexts

theorem exists_localeRules_iff {locale : String} :
    (∃ e, localeRules path (locale, value) = .ok e) ↔ ¬¬value.IsTextObject := by
  simp only [localeRules_eq_ok_iff, Prod.exists, not_not, Json.IsTextObject, ← exists_isTexts_iff]
  constructor
  · rintro ⟨_, rules, -, members, hmembers, htexts⟩
    exact ⟨members, hmembers, rules, htexts⟩
  · rintro ⟨members, hmembers, rules, htexts⟩
    exact ⟨locale, rules, rfl, members, hmembers, htexts⟩

/-- The rules of all locales but the root. -/
def rulesTable (path : String) (members : Table String Json) :
    Except LocaleError (Table String (Table String String)) := do
  let cardinals ← (members.erase rootLocale).entries.mapM (localeRules path)
  return .ofList cardinals

/-- The entries of the locales are the texts in their objects; the root is left out. -/
def IsRules (members : Table String Json) (cardinals : Table String (Table String String)) : Prop :=
  ∀ locale, Option.Rel (fun value rules ↦ ∃ texts, value.members? = some texts ∧
    IsTexts texts rules) (if locale = rootLocale then none else members.get? locale)
      (cardinals.get? locale)

/-- **The rules are read as the table of all locales but the root.** -/
theorem rulesTable_eq_ok_iff {cardinals : Table String (Table String String)} :
    rulesTable path members = .ok cardinals ↔ IsRules members cardinals := by
  have hkey : ∀ e e', localeRules path e = .ok e' → e'.1 = e.1 := fun e e' h ↦
    (localeRules_eq_ok_iff.1 h).1
  refine bind_pure_eq_ok_iff.trans ?_
  rw [Table.exists_mapM_entries_iff hkey]
  simp only [localeRules_eq_ok_iff, true_and, Table.get?_erase, IsRules]

/-- **Otherwise the error is about the first locale that has something amiss**, the root aside. -/
theorem rulesTable_eq_error_iff :
    rulesTable path members = .error error ↔ RulesAmiss path members error := by
  refine bind_pure_eq_error_iff.trans ?_
  rw [Table.mapM_entries_eq_error_iff_firstAmiss fun _ _ ↦ exists_localeRules_iff]
  exact exists₂_congr fun locale value ↦
    and_congr Table.firstAmiss_erase_iff localeRules_eq_error_iff

/-- There are rules to read exactly when each locale but the root has an object of strings. -/
theorem exists_isRules_iff : (∃ cardinals, IsRules members cardinals) ↔
    ∀ locale value, members.get? locale = some value → locale ≠ rootLocale →
      value.IsTextObject := by
  constructor
  · rintro ⟨cardinals, h⟩ locale value hvalue hlocale
    have hrel := h locale
    rw [if_neg hlocale, hvalue] at hrel
    obtain ⟨rules, -, texts, htexts, hrules⟩ := rel_some_left_iff.1 hrel
    exact ⟨texts, htexts, exists_isTexts_iff.1 ⟨rules, hrules⟩⟩
  · intro h
    rcases htable : rulesTable "" members with error | cardinals
    · obtain ⟨locale, value, hamiss, -⟩ := rulesTable_eq_error_iff.1 htable
      exact absurd (h locale value hamiss.found hamiss.isAmiss.1) hamiss.isAmiss.2
    · exact ⟨cardinals, rulesTable_eq_ok_iff.1 htable⟩

/-! ### The three documents -/

/-- The documents have an object at the end of each path; all names are strings, that of the root as
well; and each entry of the rules other than the root is an object of strings. -/
structure Loadable (languages territories plurals : Json) : Prop where
  languages : ∃ members, HasObject languages languageFields members ∧ Json.AllStrings members
  territories : ∃ members, HasObject territories territoryFields members ∧ Json.AllStrings members
  plurals : ∃ members, HasObject plurals cardinalFields members ∧
    ∀ locale value, members.get? locale = some value → locale ≠ rootLocale → value.IsTextObject

/-- The tables are the objects in the documents, without the root among the languages and the
rules. -/
structure Describes (languages territories plurals : Json) (tables : Tables) : Prop where
  languages : ∃ members, HasObject languages languageFields members ∧ Json.AllStrings members ∧
    ∀ key, (tables.languages.get? key).map Json.string =
      if key = rootLocale then none else members.get? key
  territories : ∃ members, HasObject territories territoryFields members ∧
    ∀ key, (tables.territories.get? key).map Json.string = members.get? key
  cardinals : ∃ members, HasObject plurals cardinalFields members ∧
    IsRules members tables.cardinals

/-- The first thing amiss in the documents, which are looked through in this order. -/
inductive Amiss (languages territories plurals : Source) : LocaleError → Prop where
  | languages {error : LocaleError}
      (h : DocumentAmiss languages.path languageFields languages.document
        (TextsAmiss languages.path) error) :
    Amiss languages territories plurals error
  | territories {members : Table String Json} {error : LocaleError}
      (hlanguages : HasObject languages.document languageFields members)
      (hstrings : Json.AllStrings members)
      (h : DocumentAmiss territories.path territoryFields territories.document
        (TextsAmiss territories.path) error) :
    Amiss languages territories plurals error
  | plurals {members members' : Table String Json} {error : LocaleError}
      (hlanguages : HasObject languages.document languageFields members)
      (hstrings : Json.AllStrings members)
      (hterritories : HasObject territories.document territoryFields members')
      (hstrings' : Json.AllStrings members')
      (h : DocumentAmiss plurals.path cardinalFields plurals.document (RulesAmiss plurals.path)
        error) :
    Amiss languages territories plurals error

/-- The texts in the object at the end of a path. -/
def textsAt (path : String) (fields : List String) (document : Json) :
    Except LocaleError (Table String String) :=
  objectAt path fields document >>= stringTable path

/-- The texts of a document are those in the object at the end of its path. -/
theorem textsAt_eq_ok_iff : textsAt path fields document = .ok texts ↔
    ∃ members, HasObject document fields members ∧ IsTexts members texts := by
  simp only [textsAt, bind_eq_ok_iff, objectAt_eq_ok_iff, stringTable_eq_ok_iff]

/-- They cannot be read for the first thing amiss with the document. -/
theorem textsAt_eq_error_iff : textsAt path fields document = .error error ↔
    DocumentAmiss path fields document (TextsAmiss path) error :=
  objectAt_bind_eq_error_iff fun _ _ ↦ stringTable_eq_error_iff

/-- A document has texts exactly when there is an object of strings at the end of its path. -/
theorem exists_textsAt_iff : (∃ texts, textsAt path fields document = .ok texts) ↔
    ∃ members, HasObject document fields members ∧ Json.AllStrings members := by
  simp only [textsAt_eq_ok_iff, ← exists_isTexts_iff]
  rw [exists_comm]
  simp only [exists_and_left]

/-- The rules in the object at the end of their path. -/
def rulesAt (path : String) (document : Json) :
    Except LocaleError (Table String (Table String String)) :=
  objectAt path cardinalFields document >>= rulesTable path

/-- The rules of a document are those in the object at the end of their path. -/
theorem rulesAt_eq_ok_iff {cardinals : Table String (Table String String)} :
    rulesAt path document = .ok cardinals ↔
      ∃ members, HasObject document cardinalFields members ∧ IsRules members cardinals := by
  simp only [rulesAt, bind_eq_ok_iff, objectAt_eq_ok_iff, rulesTable_eq_ok_iff]

/-- They cannot be read for the first thing amiss with the document. -/
theorem rulesAt_eq_error_iff : rulesAt path document = .error error ↔
    DocumentAmiss path cardinalFields document (RulesAmiss path) error :=
  objectAt_bind_eq_error_iff fun _ _ ↦ rulesTable_eq_error_iff

/-- Loading in three steps, one for each document. -/
theorem ofSources_eq (languages territories plurals : Source) :
    ofSources languages territories plurals = (do
      let languageNames ← textsAt languages.path languageFields languages.document
      let territoryNames ← textsAt territories.path territoryFields territories.document
      let cardinals ← rulesAt plurals.path plurals.document
      return {
        languages := languageNames.erase rootLocale
        territories := territoryNames
        cardinals }) := by
  simp only [ofSources, textsAt, rulesAt, rulesTable, bind_assoc, pure_bind]

/-- Dropping a key from texts, in terms of the object they are from. -/
theorem exists_isTexts_erase_iff {k : String} :
    (∃ texts', IsTexts members texts' ∧ texts'.erase k = texts) ↔ Json.AllStrings members ∧
      ∀ key, (texts.get? key).map Json.string = if key = k then none else members.get? key := by
  rw [← exists_isTexts_iff]
  constructor
  · rintro ⟨texts', htexts', rfl⟩
    refine ⟨⟨texts', htexts'⟩, fun key ↦ ?_⟩
    rw [Table.get?_erase, ← htexts' key]
    split <;> rfl
  · rintro ⟨⟨texts', htexts'⟩, h⟩
    refine ⟨texts', htexts', Table.ext_get? fun key ↦ ?_⟩
    have hkey : (texts.get? key).map Json.string =
        ((texts'.erase k).get? key).map Json.string := by
      rw [h key, Table.get?_erase, ← htexts' key]
      split <;> rfl
    exact (Option.map_injective (fun _ _ ↦ Json.string.inj) hkey).symm

/-- **What is loaded is what the documents describe.** -/
theorem ofSources_eq_ok_iff {languages territories plurals : Source} {tables : Tables} :
    ofSources languages territories plurals = .ok tables ↔
      Describes languages.document territories.document plurals.document tables := by
  obtain ⟨languageNames, territoryNames, cardinals⟩ := tables
  rw [ofSources_eq]
  simp only [bind_eq_ok_iff, textsAt_eq_ok_iff, rulesAt_eq_ok_iff, pure, Except.pure,
    Except.ok.injEq, Tables.mk.injEq]
  constructor
  · rintro ⟨texts, ⟨members, hmembers, htexts⟩, _, hterritories, _, hrules, hnames, rfl, rfl⟩
    exact ⟨⟨members, hmembers, exists_isTexts_erase_iff.1 ⟨texts, htexts, hnames⟩⟩, hterritories,
      hrules⟩
  · rintro ⟨⟨members, hmembers, hnames⟩, hterritories, hrules⟩
    obtain ⟨texts, htexts, hnames⟩ := exists_isTexts_erase_iff.2 hnames
    exact ⟨texts, ⟨members, hmembers, htexts⟩, _, hterritories, _, hrules, hnames, rfl, rfl⟩

/-- **Documents describe tables exactly when they can be loaded.** -/
theorem exists_describes_iff {languages territories plurals : Json} :
    (∃ tables, Describes languages territories plurals tables) ↔
      Loadable languages territories plurals := by
  constructor
  · rintro ⟨tables, ⟨members, hmembers, hstrings, -⟩, ⟨members', hmembers', htexts⟩,
      members'', hmembers'', hrules⟩
    exact ⟨⟨members, hmembers, hstrings⟩, ⟨members', hmembers', exists_isTexts_iff.1 ⟨_, htexts⟩⟩,
      members'', hmembers'', exists_isRules_iff.1 ⟨_, hrules⟩⟩
  · rintro ⟨⟨members, hmembers, hstrings⟩, ⟨members', hmembers', hstrings'⟩,
      members'', hmembers'', hobjects⟩
    obtain ⟨languageNames, hlanguages⟩ := exists_isTexts_iff.2 hstrings
    obtain ⟨territoryNames, hterritories⟩ := exists_isTexts_iff.2 hstrings'
    obtain ⟨cardinals, hcardinals⟩ := exists_isRules_iff.2 hobjects
    exact ⟨⟨languageNames.erase rootLocale, territoryNames, cardinals⟩,
      ⟨members, hmembers, exists_isTexts_erase_iff.1 ⟨languageNames, hlanguages, rfl⟩⟩,
      ⟨members', hmembers', hterritories⟩, members'', hmembers'', hcardinals⟩

/-- **What cannot be loaded fails for the first thing amiss.** -/
theorem ofSources_eq_error_iff {languages territories plurals : Source} :
    ofSources languages territories plurals = .error error ↔
      Amiss languages territories plurals error := by
  rw [ofSources_eq]
  simp only [bind_eq_error_iff, textsAt_eq_error_iff, rulesAt_eq_error_iff, pure, Except.pure,
    reduceCtorEq, and_false, exists_false, or_false]
  constructor
  · rintro (h | ⟨texts, htexts, h | ⟨texts', htexts', h⟩⟩)
    · exact .languages h
    · obtain ⟨members, hmembers, hstrings⟩ := exists_textsAt_iff.1 ⟨texts, htexts⟩
      exact .territories hmembers hstrings h
    · obtain ⟨members, hmembers, hstrings⟩ := exists_textsAt_iff.1 ⟨texts, htexts⟩
      obtain ⟨members', hmembers', hstrings'⟩ := exists_textsAt_iff.1 ⟨texts', htexts'⟩
      exact .plurals hmembers hstrings hmembers' hstrings' h
  · rintro (h | ⟨hmembers, hstrings, h⟩ | ⟨hmembers, hstrings, hmembers', hstrings', h⟩)
    · exact .inl h
    · obtain ⟨texts, htexts⟩ := exists_textsAt_iff.2 ⟨_, hmembers, hstrings⟩
      exact .inr ⟨texts, htexts, .inl h⟩
    · obtain ⟨texts, htexts⟩ := exists_textsAt_iff.2 ⟨_, hmembers, hstrings⟩
      obtain ⟨texts', htexts'⟩ := exists_textsAt_iff.2 ⟨_, hmembers', hstrings'⟩
      exact .inr ⟨texts, htexts, .inr ⟨texts', htexts', h⟩⟩

/-! ### Writing tables into documents -/

/-- The document with the names of the languages. -/
def languagesDocument (tables : Tables) : Json :=
  .nest languageFields (.ofTable .string tables.languages)

/-- The document with the names of the territories. -/
def territoriesDocument (tables : Tables) : Json :=
  .nest territoryFields (.ofTable .string tables.territories)

/-- The document with the rules. -/
def pluralsDocument (tables : Tables) : Json :=
  .nest cardinalFields (.ofTable (.ofTable .string) tables.cardinals)

/-- A table that is written at the end of a path is found there. -/
theorem exists_hasObject_nest {α : Type} (fields : List String) (write : α → Json)
    (t : Table String α) : ∃ members, HasObject (.nest fields (.ofTable write t)) fields members ∧
      ∀ key, members.get? key = (t.get? key).map write := by
  obtain ⟨members, hmembers, hget⟩ := Json.exists_members_ofTable write t
  exact ⟨members, ⟨_, Json.follow?_nest fields _, hmembers⟩, hget⟩

/-- **What is written is loaded again, unless it is about the root.** -/
theorem describes_documents_iff {tables : Tables} :
    Describes tables.languagesDocument tables.territoriesDocument tables.pluralsDocument tables ↔
      rootLocale ∉ tables.languages.keys ∧ rootLocale ∉ tables.cardinals.keys := by
  have hkeys : ∀ {α : Type} {t : Table String α}, rootLocale ∉ t.keys ↔ t.get? rootLocale = none :=
    fun {α t} ↦ by
      rw [Table.mem_keys_iff, ← Option.isSome_iff_exists, Option.not_isSome_iff_eq_none]
  obtain ⟨languages, hlanguages, hlanguage⟩ :=
    exists_hasObject_nest languageFields Json.string tables.languages
  obtain ⟨territories, hterritories, hterritory⟩ :=
    exists_hasObject_nest territoryFields Json.string tables.territories
  obtain ⟨rules, hrules, hrule⟩ :=
    exists_hasObject_nest cardinalFields (Json.ofTable Json.string) tables.cardinals
  rw [hkeys, hkeys]
  constructor
  · rintro ⟨⟨members, hmembers, -, hnames⟩, -, members', hmembers', hrules'⟩
    have hname := hnames rootLocale
    have hrel := hrules' rootLocale
    rw [if_pos rfl] at hname hrel
    exact ⟨Option.map_eq_none_iff.1 hname, rel_none_left_iff.1 hrel⟩
  · rintro ⟨hlanguageRoot, hcardinalRoot⟩
    refine ⟨⟨languages, hlanguages, ?_, fun key ↦ ?_⟩,
      ⟨territories, hterritories, fun key ↦ (hterritory key).symm⟩, rules, hrules, fun locale ↦ ?_⟩
    · exact exists_isTexts_iff.1 ⟨tables.languages, fun key ↦ (hlanguage key).symm⟩
    · split
      next h => rw [h, hlanguageRoot, Option.map_none]
      next h => exact (hlanguage key).symm
    · split
      next h =>
        rw [h, hcardinalRoot]
        exact .none
      next h =>
        rw [hrule locale]
        rcases tables.cardinals.get? locale with _ | texts
        · exact .none
        · obtain ⟨members, hmembers, htext⟩ := Json.exists_members_ofTable Json.string texts
          exact .some ⟨members, hmembers, fun key ↦ (htext key).symm⟩

/-- **Loading is exact.** Three documents are loaded exactly when each has an object of the right
values at the end of its path, and then the tables are those objects without the root; otherwise the
error is about the first thing amiss in them; and tables written into documents are loaded as they
were exactly when they say nothing about the root. -/
theorem ofDocuments_exact (languages territories plurals : Json) :
    ((∃ tables, ofDocuments languages territories plurals = .ok tables) ↔
      Loadable languages territories plurals) ∧
    (∀ tables, ofDocuments languages territories plurals = .ok tables ↔
      Describes languages territories plurals tables) ∧
    (∀ error, ofDocuments languages territories plurals = .error error ↔
      Amiss ⟨"<in-memory:languages>", languages⟩ ⟨"<in-memory:territories>", territories⟩
        ⟨"<in-memory:plurals>", plurals⟩ error) ∧
    ∀ tables : Tables, ofDocuments tables.languagesDocument tables.territoriesDocument
      tables.pluralsDocument = .ok tables ↔
        rootLocale ∉ tables.languages.keys ∧ rootLocale ∉ tables.cardinals.keys := by
  refine ⟨?_, fun _ ↦ ofSources_eq_ok_iff, fun _ ↦ ofSources_eq_error_iff, fun _ ↦ ?_⟩
  · rw [← exists_describes_iff]
    exact exists_congr fun _ ↦ ofSources_eq_ok_iff
  · exact ofSources_eq_ok_iff.trans describes_documents_iff

-- a field of what is no object is missing
example : ofDocuments (.object [("main", .nat 5)]) .null .null =
    .error (.missingField "<in-memory:languages>" "main.en-US") := by
  rfl

-- the name of the root is looked at before it is dropped
example : ofDocuments (.nest languageFields (.object [("root", .null)])) .null .null =
    .error (.invalidField "<in-memory:languages>" "root" .string) := by
  rfl

end Tables

end PluralForms
