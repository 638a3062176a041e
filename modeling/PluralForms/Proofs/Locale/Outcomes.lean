import PluralForms.Locale.Conversion
import PluralForms.Proofs.Table.Lookup
import PluralForms.Proofs.Traversal

/-!
# What a conversion comes to

A conversion goes through the outcomes of the locales and puts each where it belongs. Seen as a
whole, it sorts a list into three (`gather_eq`): the tables are made of the outcomes of their kind,
in the order of the locales, and the failures are listed.

`run_eq_ok_iff` and `run_eq_error_iff` say when a conversion comes to something and when it fails,
in terms of the outcomes and of the locales that the tables list.
-/

namespace PluralForms

/-- The tables have rules for the locale, in some spelling. -/
def Tables.Lists (tables : Tables) (locale : String) : Prop :=
  ∃ key ∈ tables.cardinals.keys, LocaleId.normalize key = LocaleId.normalize locale

instance (tables : Tables) (locale : String) : Decidable (tables.Lists locale) :=
  inferInstanceAs (Decidable (∃ key ∈ tables.cardinals.keys, _))

namespace Conversion

variable {tables : Tables} {options : ConversionOptions}

/-! ### Three lists -/

/-- The definition that an outcome adds. -/
def converted? : String × Except LocaleError Outcome → Option (String × LanguageEntry)
  | (id, .ok (.converted entry)) => some (id, entry)
  | _ => none

/-- The obsolete code that an outcome adds. -/
def superseded? : String × Except LocaleError Outcome → Option (String × String)
  | (id, .ok (.superseded successor)) => some (id, successor)
  | _ => none

/-- The failure that an outcome adds. -/
def failed? : String × Except LocaleError Outcome → Option (String × LocaleError)
  | (id, .error error) => some (id, error)
  | _ => none

/-- The outcomes put together. -/
def gather (results : List (String × Except LocaleError Outcome)) : Conversion :=
  results.foldl (fun c (id, result) ↦ c.add id result) empty

/-! ### One locale -/

/-- What becomes of a locale with the given name and compiled rules. -/
def outcomeOf : Except LocaleError DisplayName → Except CompileError RuleSet →
    Except LocaleError Outcome
  | .error error, _ => .error error
  | .ok (.superseded successor _), _ => .ok (.superseded successor)
  | .ok (.named name), .ok set => .ok (.converted (.ofRuleSet name set))
  | .ok (.named _), .error cause => .error (.plural cause)

/-- What becomes of a locale depends on its name and its compiled rules only. -/
theorem convertLocale_eq (tables : Tables) (key : String) (rules : Table String String) :
    convertLocale tables key rules = outcomeOf (DisplayName.ofLocale tables key)
      (RuleSet.compileEntries (LocaleId.normalize key) rules.entries) := by
  rw [convertLocale]
  rcases DisplayName.ofLocale tables key with error | name | ⟨successor, name⟩
  · rfl
  · rcases RuleSet.compileEntries (LocaleId.normalize key) rules.entries with cause | set <;> rfl
  · rfl

section One

variable {display : Except LocaleError DisplayName} {compiled : Except CompileError RuleSet}

/-- A locale is converted exactly when it is named and its rules compile. -/
theorem outcomeOf_eq_converted_iff {entry : LanguageEntry} :
    outcomeOf display compiled = .ok (.converted entry) ↔
      ∃ name set, display = .ok (.named name) ∧ compiled = .ok set ∧
        entry = .ofRuleSet name set := by
  rcases display with error | name | ⟨successor, name⟩
  · simp [outcomeOf]
  · rcases compiled with cause | set
    · simp [outcomeOf]
    · simp [outcomeOf, eq_comm]
  · simp [outcomeOf]

/-- A locale is superseded exactly when its name says so, whatever its rules are. -/
theorem outcomeOf_eq_superseded_iff {successor : String} :
    outcomeOf display compiled = .ok (.superseded successor) ↔
      ∃ name, display = .ok (.superseded successor name) := by
  rcases display with error | name | ⟨successor, name⟩
  · simp [outcomeOf]
  · rcases compiled with cause | set <;> simp [outcomeOf]
  · simp [outcomeOf]

/-- A locale fails for its name or for its rules. -/
theorem outcomeOf_eq_error_iff {error : LocaleError} :
    outcomeOf display compiled = .error error ↔ display = .error error ∨
      ∃ name cause, display = .ok (.named name) ∧ compiled = .error cause ∧
        error = .plural cause := by
  rcases display with error | name | ⟨successor, name⟩
  · simp [outcomeOf]
  · rcases compiled with cause | set
    · simp [outcomeOf, eq_comm]
    · simp [outcomeOf]
  · simp [outcomeOf]

end One

/-- A locale is named and compiled without regard to the rules of others. -/
theorem convertLocale_congr {tables' : Tables} (hlanguages : tables'.languages = tables.languages)
    (hterritories : tables'.territories = tables.territories) :
    convertLocale tables' = convertLocale tables := by
  obtain ⟨languages, territories, cardinals⟩ := tables
  obtain ⟨languages', territories', cardinals'⟩ := tables'
  obtain rfl : languages' = languages := hlanguages
  obtain rfl : territories' = territories := hterritories
  rfl

/-- Without a selection every locale has its outcome. -/
theorem outcomes_all (tables : Tables) (failFast : Bool) : outcomes tables ⟨failFast, []⟩ =
    tables.cardinals.entries.map fun e ↦
      (LocaleId.normalize e.1, convertLocale tables e.1 e.2) := by
  have hall : (tables.cardinals.entries.filter fun e ↦
      (ConversionOptions.mk failFast []).selects (LocaleId.normalize e.1)) =
        tables.cardinals.entries := List.filter_eq_self.2 fun _ _ ↦ rfl
  exact congrArg (List.map _) hall

theorem gather_concat (results : List (String × Except LocaleError Outcome)) (id : String)
    (result : Except LocaleError Outcome) :
    gather (results ++ [(id, result)]) = (gather results).add id result := by
  rw [gather, List.foldl_append]
  rfl

/-- **A conversion sorts the outcomes.** -/
theorem gather_eq (results : List (String × Except LocaleError Outcome)) :
    gather results = ⟨.ofList (results.filterMap converted?),
      .ofList (results.filterMap superseded?), results.filterMap failed?⟩ := by
  induction results using List.reverseRecOn with
  | nil => rfl
  | append_singleton results r ih =>
    obtain ⟨id, result⟩ := r
    rw [gather_concat, ih]
    rcases result with error | entry | successor <;>
      simp [add, List.filterMap_cons, converted?, superseded?, failed?, Table.ofList_concat]

/-- The first error is that of the first failure. -/
theorem firstError?_eq (results : List (String × Except LocaleError Outcome)) :
    firstError? results = (gather results).failures.head?.map (·.2) := by
  rw [gather_eq, firstError?]
  induction results with
  | nil => rfl
  | cons r results ih =>
    obtain ⟨id, error | outcome⟩ := r
    · rfl
    · exact ih

/-! ### The two checks -/

/-- A conversion that is to stop at a failure does so. -/
def checkFailures (options : ConversionOptions)
    (results : List (String × Except LocaleError Outcome)) : Except LocaleError Unit :=
  if options.failFast then
    match firstError? results with
    | some error => .error error
    | none => .ok ()
  else .ok ()

/-- Every locale that is asked for is among the outcomes. -/
def checkSelection (options : ConversionOptions)
    (results : List (String × Except LocaleError Outcome)) : Except LocaleError Unit :=
  match options.only.find? fun wanted ↦
    !(results.map (·.1)).contains (LocaleId.normalize wanted) with
  | some wanted => .error (.unknownLocale wanted)
  | none => .ok ()

/-- **A run is two checks on its outcomes**, first of the failures and then of the selection. -/
theorem run_eq (tables : Tables) (options : ConversionOptions) : run tables options = (do
    checkFailures options (outcomes tables options)
    checkSelection options (outcomes tables options)
    return gather (outcomes tables options)) := by
  have hselection : (do
      checkSelection options (outcomes tables options)
      return gather (outcomes tables options)) =
      match options.only.find? fun wanted ↦
        !((outcomes tables options).map (·.1)).contains (LocaleId.normalize wanted) with
      | some wanted => .error (.unknownLocale wanted)
      | none => .ok (gather (outcomes tables options)) := by
    rw [checkSelection]
    cases options.only.find? _ <;> rfl
  rw [run, checkFailures, hselection]
  split
  next => cases firstError? (outcomes tables options) <;> rfl
  next => rfl

/-- The first check passes unless there is a failure to stop at. -/
theorem checkFailures_eq_ok_iff {results : List (String × Except LocaleError Outcome)} :
    checkFailures options results = .ok () ↔
      (options.failFast = true → (gather results).failures = []) := by
  rw [checkFailures, firstError?_eq]
  cases options.failFast <;> cases (gather results).failures <;> simp

/-- If it does not, the error is that of the first failure. -/
theorem checkFailures_eq_error_iff {results : List (String × Except LocaleError Outcome)}
    {e : LocaleError} : checkFailures options results = .error e ↔
      options.failFast = true ∧ ∃ id rest, (gather results).failures = (id, e) :: rest := by
  rw [checkFailures, firstError?_eq]
  cases options.failFast <;> cases (gather results).failures <;> simp [Prod.ext_iff]

/-- A locale that is asked for is among the outcomes when the tables list it. -/
theorem contains_outcomes_iff {wanted : String} (h : wanted ∈ options.only) :
    ((outcomes tables options).map (·.1)).contains (LocaleId.normalize wanted) = true ↔
      tables.Lists wanted := by
  have hselects : options.selects (LocaleId.normalize wanted) = true := by
    simp only [ConversionOptions.selects, Bool.or_eq_true, List.contains_iff_mem]
    exact .inr (List.mem_map_of_mem h)
  simp only [outcomes, List.map_map, Tables.Lists, Table.keys, List.contains_iff_mem, List.mem_map,
    List.mem_filter]
  constructor
  · rintro ⟨e, ⟨he, -⟩, hid⟩
    exact ⟨e.1, ⟨e, he, rfl⟩, hid⟩
  · rintro ⟨_, ⟨e, he, rfl⟩, hid⟩
    exact ⟨e, ⟨he, by rw [hid]; exact hselects⟩, hid⟩

/-- The locale is the first of those asked for that the tables do not list. -/
def FirstUnlisted (tables : Tables) (only : List String) (wanted : String) : Prop :=
  ∃ before after, only = before ++ wanted :: after ∧ (∀ w ∈ before, tables.Lists w) ∧
    ¬tables.Lists wanted

theorem FirstUnlisted.mem {only : List String} {wanted : String}
    (h : FirstUnlisted tables only wanted) : wanted ∈ only := by
  obtain ⟨before, after, rfl, -, -⟩ := h
  exact List.mem_append_cons_self

/-- The second check passes when the tables list everything that is asked for. -/
theorem checkSelection_eq_ok_iff :
    checkSelection options (outcomes tables options) = .ok () ↔
      ∀ wanted ∈ options.only, tables.Lists wanted := by
  have hnone : (options.only.find? fun wanted ↦
      !((outcomes tables options).map (·.1)).contains (LocaleId.normalize wanted)) = none ↔
      ∀ wanted ∈ options.only, tables.Lists wanted := by
    rw [List.find?_eq_none]
    refine forall₂_congr fun wanted hwanted ↦ ?_
    rw [Bool.not_eq_true', Bool.not_eq_false, contains_outcomes_iff hwanted]
  rw [← hnone, checkSelection]
  cases options.only.find? _ <;> simp

/-- If it does not, the error names the first locale that they do not list. -/
theorem checkSelection_eq_error_iff {e : LocaleError} :
    checkSelection options (outcomes tables options) = .error e ↔
      ∃ wanted, FirstUnlisted tables options.only wanted ∧ e = .unknownLocale wanted := by
  have hsome : ∀ wanted, (options.only.find? fun wanted ↦
      !((outcomes tables options).map (·.1)).contains (LocaleId.normalize wanted)) = some wanted ↔
      FirstUnlisted tables options.only wanted := by
    intro wanted
    rw [List.find?_eq_some_iff_append, FirstUnlisted, and_comm]
    simp only [← exists_and_right, and_assoc]
    refine exists₂_congr fun before after ↦ and_congr_right fun honly ↦ ?_
    have hwanted : wanted ∈ options.only := by simp [honly]
    have hbefore : ∀ w ∈ before, w ∈ options.only := fun w hw ↦ by simp [honly, hw]
    rw [Bool.not_eq_true', ← Bool.not_eq_true, contains_outcomes_iff hwanted]
    refine and_congr_left fun _ ↦ forall₂_congr fun w hw ↦ ?_
    rw [Bool.not_not, contains_outcomes_iff (hbefore w hw)]
  simp only [← hsome]
  rw [checkSelection]
  cases options.only.find? _ <;> simp [eq_comm]

/-! ### The run -/

/-- **A conversion comes to something** when the tables list all that is asked for and, if it is to
stop at a failure, there is none. -/
theorem run_eq_ok_iff {c : Conversion} :
    run tables options = .ok c ↔
      (options.failFast = true → (gather (outcomes tables options)).failures = []) ∧
      (∀ wanted ∈ options.only, tables.Lists wanted) ∧ c = gather (outcomes tables options) := by
  rw [run_eq, bind_unit_eq_ok_iff, bind_unit_eq_ok_iff, checkFailures_eq_ok_iff,
    checkSelection_eq_ok_iff]
  refine and_congr_right fun _ ↦ and_congr_right fun _ ↦ ?_
  exact ⟨fun h ↦ (Except.ok.inj h).symm, fun h ↦ congrArg Except.ok h.symm⟩

/-- A conversion that goes on comes to something when nothing is asked for. -/
theorem run_all (tables : Tables) :
    run tables ⟨false, []⟩ = .ok (gather (outcomes tables ⟨false, []⟩)) :=
  run_eq_ok_iff.2 ⟨fun hstop ↦ absurd hstop Bool.false_ne_true, List.forall_mem_nil _, rfl⟩

/-- **A conversion fails** with the first failure, if it is to stop there, and otherwise for the
first locale that the tables do not list. -/
theorem run_eq_error_iff {e : LocaleError} :
    run tables options = .error e ↔
      (options.failFast = true ∧
        ∃ id rest, (gather (outcomes tables options)).failures = (id, e) :: rest) ∨
      (options.failFast = true → (gather (outcomes tables options)).failures = []) ∧
        ∃ wanted, FirstUnlisted tables options.only wanted ∧ e = .unknownLocale wanted := by
  rw [run_eq, bind_unit_eq_error_iff, bind_unit_eq_error_iff, checkFailures_eq_ok_iff,
    checkFailures_eq_error_iff, checkSelection_eq_error_iff]
  refine or_congr_right (and_congr_right fun _ ↦ or_iff_left ?_)
  rintro ⟨-, h⟩
  cases h

end Conversion

end PluralForms
